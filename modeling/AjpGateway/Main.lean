import AjpGateway.Command.Run

/-!
# Command line

Reads the file and the variables that a command needs, runs it and prints what it leaves.  No
connection is opened: a request that is forwarded to a container finds the network unreachable.
-/

namespace AjpGateway.Command

/-- The content of a file, or why it cannot be read. -/
def readFile (path : String) : IO File := do
  try
    let content ← IO.FS.readBinFile path
    return .ok content.data.toList
  catch
    | .inappropriateType .. => return .error .isDirectory
    | .invalidArgument .. => return .error .nameTooLong
    | _ => return .error .notFound

/-- The variables that a file refers to. -/
def readVariables (file : File) : IO (List (String × String)) := do
  let names := match Config.fileText file with
    | .ok text => Config.references text.toList
    | .error _ => []
  names.filterMapM fun name => do
    return (← IO.getEnv name).map (name, ·)

end AjpGateway.Command

open AjpGateway

def main (args : List String) : IO UInt32 := do
  let path? := match Command.parse args with
    | .ok command => command.config?
    | .error _ => none
  let file ← match path? with
    | some path => Command.readFile path
    | none => pure (.error .notFound)
  let given ← Command.readVariables file
  let (printout, _) := Command.runLine {
    file := fun path => if path? = some path then file else .error .notFound
    env := Properties.environment ⟨given⟩
    world := { network := { elsewhere := .unreachable } } } args
  IO.print printout.out
  for line in printout.errors do
    IO.eprintln line
  return UInt32.ofNat printout.code
