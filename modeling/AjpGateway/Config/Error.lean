import AjpGateway.Config.Problem
import AjpGateway.Worker.Phase

/-!
# Errors of configuration

Why a configuration, or a worker's move to its next phase, is refused.
-/

namespace AjpGateway

/-- Why a file cannot be read. -/
inductive FileError where
  | notFound
  | isDirectory
  | nameTooLong
  | notUtf8
deriving DecidableEq, Repr

def FileError.message : FileError → String
  | notFound => "No such file or directory (os error 2)"
  | isDirectory => "Is a directory (os error 21)"
  | nameTooLong => "File name too long (os error 36)"
  | notUtf8 => "stream did not contain valid UTF-8"

inductive ConfigError where
  | file (e : FileError)
  | parse (e : ParseError)
  | rule (e : RuleError)
  | setting (e : SettingError)
  | invalid (problems : List Problem)
  | lifecycle (worker : String) (found expected : Phase)
  /-- memory cannot hold what is asked for -/
  | noRoom
deriving DecidableEq, Repr

def ConfigError.message : ConfigError → String
  | file e => "IO error: " ++ e.message
  | parse e => "Parse error at line " ++ toString e.line ++ ": " ++ e.fault.message
  | rule e => e.message
  | setting e => e.message
  | invalid problems => "Validation failed: " ++ ", ".intercalate (problems.map Problem.message)
  | lifecycle worker found expected =>
    "Worker " ++ worker ++ " is " ++ found.name ++ ", expected " ++ expected.name
  | noRoom => "capacity overflow"

end AjpGateway
