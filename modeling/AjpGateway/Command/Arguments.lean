import AjpGateway.Text.Cut

/-!
# Commands

What a command line asks for.  Operands and options come in any order.  The value of an option
follows it as the next argument, stands behind `=`, or directly behind a single letter; after `--`
every argument is an operand.  Arguments are read from the left, and the first that is wrong or
asks for help decides.
-/

namespace AjpGateway

inductive OptionName where
  | method | header | data | query
deriving DecidableEq, Repr

namespace OptionName

def letter : OptionName → Char
  | method => 'X'
  | header => 'H'
  | data => 'd'
  | query => 'q'

def word : OptionName → String
  | method => "method"
  | header => "header"
  | data => "data"
  | query => "query"

def all : List OptionName := [method, header, data, query]

end OptionName

/-- Why a command line cannot be understood. -/
inductive Misuse where
  | noCommand
  | unknownCommand (name : String)
  | unexpected (argument : String)
  | missing (operand : String)
  | valueMissing (o : OptionName)
  | repeated (o : OptionName)
  | emptyPath
deriving DecidableEq, Repr

def Misuse.message : Misuse → String
  | noCommand => "no command is given"
  | unknownCommand name => "unknown command " ++ name
  | unexpected argument => "unexpected argument " ++ argument
  | missing operand => "no " ++ operand ++ " is given"
  | valueMissing o => "--" ++ o.word ++ " needs a value"
  | repeated o => "--" ++ o.word ++ " is given more than once"
  | emptyPath => "the path of the configuration is empty"

/-! ## Forms of arguments -/

/-- How an option is named. -/
inductive Naming where
  | letter (c : Char)
  | word (w : String)
deriving DecidableEq, Repr

/-- What an argument looks like. -/
inductive Form where
  | operand
  /-- every argument after it is an operand -/
  | stop
  | named (n : Naming) (value? : Option String)
deriving DecidableEq, Repr

def Form.of : List Char → Form
  | ['-', '-'] => .stop
  | '-' :: '-' :: s =>
    match Text.cutAt? '=' s with
    | some (w, v) => .named (.word (String.ofList w)) (some (String.ofList v))
    | none => .named (.word (String.ofList s)) none
  | ['-', c] => .named (.letter c) none
  | '-' :: c :: '=' :: v => .named (.letter c) (some (String.ofList v))
  | '-' :: c :: v => .named (.letter c) (some (String.ofList v))
  | _ => .operand

def Naming.names (o : OptionName) : Naming → Bool
  | letter c => c == o.letter
  | word w => w == o.word

/-- Whether help is asked for. -/
def Form.asksHelp : Form → Bool
  | named (.letter c) _ => c == 'h'
  | named (.word w) none => w == "help"
  | _ => false

/-! ## Commands -/

structure ForwardOptions where
  method : String := "GET"
  /-- headers as `name:value` -/
  headers : List String := []
  body : String := ""
  query : Option String := none
deriving DecidableEq, Repr

inductive Command where
  /-- validates a configuration and sums it up -/
  | check (config : String)
  /-- says which worker a URI goes to -/
  | route (config uri : String)
  /-- gives one request to its worker -/
  | forward (config uri : String) (options : ForwardOptions)
  /-- reports on every worker -/
  | status (config : String)
  | help
deriving DecidableEq, Repr

/-- The path of the configuration. -/
def Command.config? : Command → Option String
  | check config | route config _ | forward config _ _ | status config => some config
  | help => none

/-! ## Arguments -/

/-- What has been given to a command. -/
structure Given where
  operands : List String := []
  options : List (OptionName × String) := []
deriving DecidableEq, Repr

/-- What a command takes, and the command that is made of it. -/
structure Signature where
  /-- the names of the operands; the first is the path of the configuration -/
  operands : List String
  options : List OptionName := []
  make : Given → Command

namespace Given

/-- An operand more, if one more is taken.  The first is not empty. -/
def addOperand (takes : Signature) (g : Given) (s : String) : Except Misuse Given :=
  if takes.operands.length ≤ g.operands.length then .error (.unexpected s)
  else if g.operands = [] ∧ s = "" then .error .emptyPath
  else .ok { g with operands := g.operands ++ [s] }

/-- An option more; only headers are given more than once. -/
def addOption (g : Given) (o : OptionName) (value : String) : Except Misuse Given :=
  if o ≠ .header ∧ g.options.any (·.1 == o) then .error (.repeated o)
  else .ok { g with options := g.options ++ [(o, value)] }

/-- Reads arguments in order.  The first that is wrong or asks for help ends the reading; help is
no value. -/
def read (takes : Signature) (g : Given) : List String → Except Misuse (Option Given)
  | [] => .ok (some g)
  | a :: rest =>
    match Form.of a.toList with
    | .operand => do read takes (← g.addOperand takes a) rest
    | .stop => some <$> rest.foldlM (addOperand takes) g
    | .named n value? =>
      if (Form.named n value?).asksHelp then .ok none
      else
        match takes.options.find? n.names, value? with
        | none, _ => .error (.unexpected a)
        | some o, some v => do read takes (← g.addOption o v) rest
        | some o, none =>
          match rest with
          | [] => .error (.valueMissing o)
          | v :: rest =>
            if Form.of v.toList = .operand then do read takes (← g.addOption o v) rest
            else .error (.valueMissing o)

/-- The values of an option, in order. -/
def values (g : Given) (o : OptionName) : List String :=
  (g.options.filter (·.1 == o)).map (·.2)

def config (g : Given) : String := g.operands.headD ""

def uri (g : Given) : String := g.operands.getD 1 ""

def forwardOptions (g : Given) : ForwardOptions where
  method := (g.values .method).headD "GET"
  headers := g.values .header
  body := (g.values .data).headD ""
  query := (g.values .query).head?

end Given

/-- The command that arguments make; no operand is left out. -/
def Signature.read (takes : Signature) (args : List String) : Except Misuse Command := do
  match ← Given.read takes {} args with
  | none => return .help
  | some g =>
    match takes.operands.drop g.operands.length with
    | [] => return takes.make g
    | operand :: _ => throw (.missing operand)

/-! ## Command lines -/

namespace Command

/-- What the command of a name takes. -/
def signature? : String → Option Signature
  | "check" => some { operands := ["configuration"], make g := check g.config }
  | "status" => some { operands := ["configuration"], make g := status g.config }
  | "route" => some { operands := ["configuration", "URI"], make g := route g.config g.uri }
  | "forward" =>
    some {
      operands := ["configuration", "URI"]
      options := OptionName.all
      make g := forward g.config g.uri g.forwardOptions }
  | _ => none

/-- Help is about all commands, about one, or about help. -/
def parseHelp : List String → Except Misuse Command
  | [] => .ok help
  | name :: rest =>
    if (signature? name).isNone ∧ name ≠ "help" then .error (.unknownCommand name)
    else
      match rest with
      | [] => .ok help
      | a :: _ => .error (.unexpected a)

def parse : List String → Except Misuse Command
  | [] => .error .noCommand
  | a :: args =>
    if a = "help" then parseHelp args
    else
      match signature? a, Form.of a.toList with
      | some takes, _ => takes.read args
      | none, .operand => .error (.unknownCommand a)
      | none, form => if form.asksHelp then .ok help else .error (.unexpected a)

end Command

end AjpGateway
