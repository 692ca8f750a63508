import AjpGateway.Config.Properties

/-!
# Rules

A rule sends the URIs that match a pattern to a worker.  `/a/b` matches itself, `/a/*` whatever
lies under `/a/`, and `/a/*.x` whatever lies under `/a/` and ends in `.x`.  In front of a pattern
`!` makes the rule an exclusion and `-` switches it off.

A URI may hide an extension behind a dot, a slash or a blank, as in `/a/page.x.`; a container
would serve it as `/a/page.x`, so rules also recognise such a disguise.
-/

namespace AjpGateway

/-- Why a text is no rule. -/
inductive RuleFault where
  | noWorker
  | blankInWorker
  | notAPath
  | questionMark
  | manyWildcards
  | wildcardInSegment
  | wildcardNotLast
  | emptyExtension
  | slashInExtension
  | manyBars
  | unknownWorker (worker : String)
deriving DecidableEq, Repr

def RuleFault.message : RuleFault → String
  | noWorker => "empty worker name"
  | blankInWorker => "worker name contains whitespace"
  | notAPath => "pattern must start with '/'"
  | questionMark => "'?' wildcards are not supported"
  | manyWildcards => "more than one wildcard"
  | wildcardInSegment => "wildcard must follow '/'"
  | wildcardNotLast => "wildcard must be '/*' or '/*.ext'"
  | emptyExtension => "empty suffix after '*.'"
  | slashInExtension => "suffix contains '/'"
  | manyBars => "more than one '|'"
  | unknownWorker worker => "unknown worker " ++ worker

/-- A text that is no rule, and why. -/
structure RuleError where
  pattern : String
  fault : RuleFault
deriving DecidableEq, Repr

def RuleError.message (e : RuleError) : String :=
  "Invalid mount rule " ++ Text.quoted e.pattern ++ ": " ++ e.fault.message

/-- What a pattern asks of a URI beside its context. -/
inductive Shape where
  /-- to be the context -/
  | exact
  /-- to start with the context -/
  | under
  /-- to end in the extension as well, which has its dot -/
  | ending (extension : String)
deriving DecidableEq, Repr

namespace Shape

def name : Shape → String
  | exact => "exact"
  | under => "prefix"
  | ending _ => "suffix"

/-- Of two rules with contexts of one length the one of higher rank comes first. -/
def rank : Shape → Nat
  | exact => 2
  | ending _ => 1
  | under => 0

def extension? : Shape → Option String
  | ending e => some e
  | _ => none

end Shape

structure Rule where
  /-- the pattern without its flags -/
  pattern : String
  shape : Shape
  worker : String
  /-- the pattern up to its wildcard -/
  context : String
  /-- denies the worker what the pattern matches -/
  excludes : Bool
  disabled : Bool
deriving DecidableEq, Repr

namespace Rule

/-! ## Reading -/

/-- The run of flags in front of a pattern. -/
structure Flags where
  excludes : Bool := false
  disabled : Bool := false
deriving DecidableEq, Repr

/-- Takes off the flags, in any order and number. -/
def splitFlags : Flags → List Char → Flags × List Char
  | f, '!' :: r => splitFlags { f with excludes := true } r
  | f, '-' :: r => splitFlags { f with disabled := true } r
  | f, s => (f, s)

/-- The flags in their written form. -/
def Flags.text (f : Flags) : List Char :=
  (if f.disabled then ['-'] else []) ++ (if f.excludes then ['!'] else [])

/-- The context and shape of a pattern that starts with a slash. -/
def readShape (pattern : List Char) : Except RuleFault (List Char × Shape) :=
  match Text.cutAt? '*' pattern with
  | none => .ok (pattern, .exact)
  | some (context, rest) =>
    if '*' ∈ rest then .error .manyWildcards
    else if context.getLast? ≠ some '/' then .error .wildcardInSegment
    else
      match rest with
      | [] => .ok (context, .under)
      | c :: extension =>
        if c ≠ '.' then .error .wildcardNotLast
        else if extension = [] then .error .emptyExtension
        else if '/' ∈ extension then .error .slashInExtension
        else .ok (context, .ending (String.ofList rest))

/-- The rule of flags, pattern and worker. -/
def readParts (raw worker : List Char) : Except RuleFault Rule :=
  let worker := Text.trim worker
  if worker = [] then .error .noWorker
  else if worker.any Text.isBlank then .error .blankInWorker
  else
    let (flags, pattern) := splitFlags {} (Text.trim raw)
    if pattern.head? ≠ some '/' then .error .notAPath
    else if '?' ∈ pattern then .error .questionMark
    else
      (readShape pattern).map fun (context, shape) => {
        pattern := String.ofList pattern
        shape
        worker := String.ofList worker
        context := String.ofList context
        excludes := flags.excludes
        disabled := flags.disabled }

/-- Reads one rule. -/
def read (raw worker : String) : Except RuleError Rule :=
  (readParts raw.toList worker.toList).mapError fun fault => ⟨raw, fault⟩

/-- Reads a mount.  `/a|/*` stands for the two rules `/a` and `/a/*`, with the same flags. -/
def readMount (raw worker : String) : Except RuleError (List Rule) :=
  let text := Text.trim raw.toList
  match Text.cutAt? '|' text with
  | none => (read (String.ofList text) worker).map ([·])
  | some (base, tail) =>
    if '|' ∈ tail then .error ⟨String.ofList text, .manyBars⟩
    else
      let (flags, path) := splitFlags {} base
      let stem := Text.dropWhileEnd (· == '/') path
      match read (String.ofList base) worker with
      | .error e => .error e
      | .ok first =>
        (read (String.ofList (flags.text ++ stem ++ tail)) worker).map fun second => [first, second]

/-! ## Matching -/

/-- Whether a URI satisfies the pattern; flags do not count. -/
def accepts (r : Rule) (uri : List Char) : Bool :=
  match r.shape with
  | .exact => uri == r.context.toList
  | .under => r.context.toList.isPrefixOf uri
  | .ending e => (Text.after? r.context.toList uri).any (e.toList.isSuffixOf ·)

/-- The characters that may hide an extension. -/
def isDisguise (c : Char) : Bool := c == '.' || c == '/' || c == ' '

/-- Whether some occurrence of `e` is followed by a disguise.  Occurrences are found from the left
and do not overlap; `skip` characters belong to the last one. -/
def disguised (e : List Char) : Nat → List Char → Bool
  | _, [] => false
  | skip + 1, _ :: r => disguised e skip r
  | 0, c :: r =>
    match Text.after? e (c :: r) with
    | some after => after.head?.any isDisguise || disguised e (e.length - 1) r
    | none => disguised e 0 r

/-- Whether a URI under the context hides the extension. -/
def recognisesDisguise (r : Rule) (uri : List Char) : Bool :=
  match r.shape with
  | .ending e => r.context.toList.isPrefixOf uri && disguised e.toList 0 uri
  | _ => false

/-! ## Order -/

/-- The length of the context in bytes. -/
def contextSize (r : Rule) : Nat := r.context.utf8ByteSize

/-- Longer contexts first, then higher ranks, then smaller patterns. -/
def order (a b : Rule) : Ordering :=
  (compare b.contextSize a.contextSize).then <|
    (compare b.shape.rank a.shape.rank).then (compare a.pattern b.pattern)

/-- The rule in the form of an entry. -/
def text (r : Rule) : String :=
  (if r.disabled then "-" else "") ++ (if r.excludes then "!" else "") ++ r.pattern ++ "=" ++
    r.worker

end Rule

end AjpGateway
