import AjpGateway.Decimal.Reading
import AjpGateway.Text.Cut
import AjpGateway.Text.Quoted

/-!
# Properties

A configuration is a list of `key=value` entries.  A key occurs once; setting it again replaces
its value in place, so the entries stay in the order in which their keys first came.

The text of a configuration has one entry a line.  `#` starts a comment, a trailing backslash
joins the next line, and `$(name)` in a value stands for an earlier entry or, failing that, for a
variable of the environment.
-/

namespace AjpGateway

/-- A rule that sends a pattern of URIs to a worker, as written. -/
structure Mount where
  pattern : String
  worker : String
deriving DecidableEq, Repr

/-- What a setting can be at fault for. -/
inductive SettingError where
  | missing (key : String)
  | invalidValue (key value : String)
deriving DecidableEq, Repr

def SettingError.message : SettingError → String
  | missing key => "Missing required property " ++ key
  | invalidValue key value => "Invalid value " ++ Text.quoted value ++ " for " ++ key

/-- Why a line cannot be read. -/
inductive ParseFault where
  | notAPair (line : String)
  | openContinuation
deriving DecidableEq, Repr

def ParseFault.message : ParseFault → String
  | notAPair line => "expected key=value, got " ++ Text.quoted line
  | openContinuation => "continuation at end of input"

/-- A fault and the number of the line where the entry starts. -/
structure ParseError where
  line : Nat
  fault : ParseFault
deriving DecidableEq, Repr

/-- The variables that a configuration may refer to. -/
abbrev Environment := String → Option String

structure Properties where
  entries : List (String × String) := []
deriving DecidableEq, Repr

namespace Properties

/-! ## Entries -/

/-- Replaces the value of a key in place, or adds the entry at the end. -/
def setEntry (key value : String) : List (String × String) → List (String × String)
  | [] => [(key, value)]
  | e :: rest => if e.1 = key then (key, value) :: rest else e :: setEntry key value rest

def set (p : Properties) (key value : String) : Properties := ⟨setEntry key value p.entries⟩

def get? (p : Properties) (key : String) : Option String := p.entries.lookup key

def contains (p : Properties) (key : String) : Bool := (p.get? key).isSome

/-- The place of a key among the entries. -/
def position? (p : Properties) (key : String) : Option Nat := p.entries.findIdx? (·.1 == key)

def keys (p : Properties) : List String := p.entries.map Prod.fst

/-- The environment of some variables.  A variable is found by the text `name=value` that it is
kept as, so a name with `=` in it stands for the rest of a value that starts so. -/
def environment (given : Properties) : Environment := fun name =>
  given.entries.findSome? fun e =>
    (Text.after? (name ++ "=").toList (e.1 ++ "=" ++ e.2).toList).map String.ofList

/-! ## Reading -/

/-- References past this number in one value are left as written. -/
def maxReferences : Nat := 20

/-- Replaces the first `n` references.  A reference without a value stays as written, and what a
reference stands for is not searched again. -/
def expand (value? : String → Option String) : Nat → List Char → List Char
  | 0, s => s
  | n + 1, s =>
    match Text.cutPhrase? ['$', '('] s with
    | none => s
    | some (before, rest) =>
      match Text.cutAt? ')' rest with
      | none => s
      | some (name, after) =>
        let inserted :=
          match value? (String.ofList name) with
          | some v => v.toList
          | none => '$' :: '(' :: name ++ [')']
        before ++ inserted ++ expand value? n after

/-- An entry comes before the environment. -/
def value? (p : Properties) (env : Environment) (name : String) : Option String :=
  (p.get? name).or (env name)

/-- The value with its references replaced. -/
def substitute (p : Properties) (env : Environment) (value : List Char) : String :=
  String.ofList (expand (p.value? env) maxReferences value)

/-- The entries read so far and the entry still open: where it started and its text. -/
structure Reader where
  props : Properties := {}
  open? : Option (Nat × List Char) := none

/-- The text without the final `c`, if it ends in one. -/
def dropFinal? (c : Char) (s : List Char) : Option (List Char) :=
  match s.reverse with
  | [] => none
  | x :: r => if x = c then some r.reverse else none

/-- Adds the entry of a complete line.  An empty key or value makes no entry. -/
def addLine (p : Properties) (env : Environment) (number : Nat) (line : List Char) :
    Except ParseError Properties :=
  if line = [] then .ok p
  else
    match Text.cutAt? '=' line with
    | none => .error ⟨number, .notAPair (String.ofList line)⟩
    | some (key, value) =>
      let key := Text.trim key
      let value := Text.trim value
      if key = [] ∨ value = [] then .ok p
      else .ok (p.set (String.ofList key) (p.substitute env value))

/-- Reads one line. -/
def Reader.line (r : Reader) (env : Environment) (number : Nat) (raw : List Char) :
    Except ParseError Reader :=
  let bare := Text.trim (raw.takeWhile (· != '#'))
  let (start, line) :=
    match r.open? with
    | some (start, head) => (start, head ++ bare)
    | none => (number, bare)
  match dropFinal? '\\' line with
  | some head => .ok { r with open? := some (start, head) }
  | none => (r.props.addLine env start line).map fun p => { props := p }

def Reader.lines (env : Environment) : Reader → Nat → List (List Char) → Except ParseError Reader
  | r, _, [] => .ok r
  | r, number, raw :: rest =>
    match r.line env number raw with
    | .ok r => Reader.lines env r (number + 1) rest
    | .error e => .error e

/-- The entries of a text. -/
def parse (env : Environment) (text : String) : Except ParseError Properties :=
  match Reader.lines env {} 1 (Text.lines text.toList) with
  | .error e => .error e
  | .ok r =>
    match r.open? with
    | some (start, _) => .error ⟨start, .openContinuation⟩
    | none => .ok r.props

/-! ## Typed values -/

/-- The items of a list value; none when the key is absent. -/
def list (p : Properties) (key : String) : List String :=
  match p.get? key with
  | none => []
  | some v => Text.listItems v

/-- A value read by `read`; an absent key has no value. -/
def read? {α : Type} (read : List Char → Option α) (p : Properties) (key : String) :
    Except SettingError (Option α) :=
  match p.get? key with
  | none => .ok none
  | some raw =>
    match read raw.toList with
    | some a => .ok (some a)
    | none => .error (.invalidValue key raw)

def nat? (p : Properties) (max : Nat) (key : String) : Except SettingError (Option Nat) :=
  p.read? (Decimal.readNat? max) key

/-- The words for yes and no. -/
def flag? (s : String) : Option Bool :=
  let word := String.ofList ((Text.trim s.toList).map Char.toLower)
  if word ∈ ["true", "yes", "on", "1"] then some true
  else if word ∈ ["false", "no", "off", "0"] then some false
  else none

def flag (p : Properties) (key : String) (default : Bool) : Except SettingError Bool :=
  match p.get? key with
  | none => .ok default
  | some raw =>
    match flag? raw with
    | some b => .ok b
    | none => .error (.invalidValue key raw)

/-! ## Workers and mounts -/

/-- The key of a worker's setting. -/
def workerKey (name key : String) : String := "worker." ++ name ++ "." ++ key

def worker? (p : Properties) (name key : String) : Option String := p.get? (workerKey name key)

/-- Whether some key belongs to the worker. -/
def defines (p : Properties) (name : String) : Bool :=
  p.entries.any fun e => ("worker." ++ name ++ ".").toList.isPrefixOf e.1.toList

/-- The names of the top-level workers. -/
def workers (p : Properties) : List String := p.list "worker.list"

/-- A key that is a pattern: a path behind any run of `-` and `!`. -/
def isPattern (key : String) : Bool :=
  (key.toList.dropWhile fun c => c == '-' || c == '!').head? == some '/'

/-- The worker whose list of patterns has this key. -/
def mountOwner? (key : String) : Option String :=
  (Text.after? "worker.".toList key.toList).bind fun rest =>
    (".mount".toList.isSuffixOf? rest).map String.ofList

/-- Every mount: the keys that are patterns, then the patterns listed by workers. -/
def mounts (p : Properties) : List Mount :=
  (p.entries.filter (isPattern ·.1)).map (fun e => ⟨e.1, e.2⟩) ++
    p.entries.flatMap fun e =>
      match mountOwner? e.1 with
      | none => []
      | some worker => (Text.listItems e.2).map (⟨·, worker⟩)

/-- The level of the log, `info` unless set. -/
def logLevel (p : Properties) : String := (p.get? "log.level").getD "info"

end Properties

end AjpGateway
