import AjpGateway.Config.Error
import AjpGateway.Config.Validation
import AjpGateway.Routing.LiveTable
import AjpGateway.Text.Utf8

/-!
# Loading

Reads configurations from files, and reloads a live table from a file of mounts.  A file is its
content, or the reason why there is none.
-/

namespace AjpGateway

abbrev File := Except FileError Bytes

namespace Config

def fileText (file : File) : Except FileError String :=
  match file with
  | .error e => .error e
  | .ok bytes =>
    match Text.ofUtf8? bytes with
    | some text => .ok text
    | none => .error .notUtf8

/-- The entries of a file, not validated. -/
def read (env : Environment) (file : File) : Except ConfigError Properties :=
  match fileText file with
  | .error e => .error (.file e)
  | .ok text => (Properties.parse env text).mapError .parse

/-- The names that a text refers to, as in `$(name)`. -/
def references : List Char → List String
  | [] => []
  | '$' :: '(' :: s => String.ofList (s.takeWhile (· != ')')) :: references s
  | _ :: s => references s

/-- Accepts a configuration without problems. -/
def validate (p : Properties) : Except ConfigError Unit :=
  match Validation.problems p with
  | [] => .ok ()
  | problems => .error (.invalid problems)

/-- The entries of a file that has no problems. -/
def readValid (env : Environment) (file : File) : Except ConfigError Properties :=
  match read env file with
  | .error e => .error e
  | .ok p => (validate p).map fun _ => p

/-- The first mount that names a worker outside the known ones. -/
def unknownMount? (known : String → Bool) (mounts : List Mount) : Option RuleError :=
  (mounts.find? fun m => !known (Text.trimmed m.worker)).map fun m =>
    ⟨m.pattern, .unknownWorker m.worker⟩

/-- Accepts mounts whose workers are known. -/
def checkMounts (known : String → Bool) (mounts : List Mount) : Except ConfigError Unit :=
  match unknownMount? known mounts with
  | some e => .error (.rule e)
  | none => .ok ()

end Config

namespace LiveTable

/-- Reloads from a file of mounts.  Where workers are known, every mount has to name one. -/
def reloadFile (t : LiveTable) (env : Environment) (known? : Option (List String)) (file : File) :
    Except ConfigError LiveTable := do
  let p ← Config.read env file
  if let some known := known? then
    Config.checkMounts known.contains p.mounts
  (t.reload p.mounts).mapError .rule

end LiveTable

end AjpGateway
