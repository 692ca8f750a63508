import AjpGateway.Routing.Rule
import AjpGateway.Routing.SessionMarker

/-!
# Rule tables

A table holds the rules of one generation.  Of two rules with one pattern the later replaces the
earlier, exclusions apart from the rest.  A URI goes to the first active rule that accepts it in
the order of rules, or failing that to the first that recognises its disguise; an exclusion of the
chosen worker that accepts the URI denies it.
-/

namespace AjpGateway

/-- Where a URI goes. -/
structure Resolution where
  worker : String
  shape : Shape
  contextSize : Nat
  /-- found by its disguise only -/
  fraud : Bool
deriving DecidableEq, Repr

structure RuleTable where
  generation : Nat := 0
  /-- the active rules in the order in which they are tried -/
  rules : List Rule := []
  /-- the active exclusions -/
  exclusions : List Rule := []
  /-- every rule, as registered -/
  all : List Rule := []
deriving DecidableEq, Repr

namespace RuleTable

/-- A rule takes the place of the one with its pattern, if there is one of its sort. -/
def register (rule : Rule) : List Rule → List Rule
  | [] => [rule]
  | r :: rest =>
    if r.pattern = rule.pattern ∧ r.excludes = rule.excludes then rule :: rest
    else r :: register rule rest

/-- Registers the rules of mounts in turn. -/
def registerMounts : List Mount → List Rule → Except RuleError (List Rule)
  | [], all => .ok all
  | m :: rest, all =>
    match Rule.readMount m.pattern m.worker with
    | .error e => .error e
    | .ok rules => registerMounts rest (rules.foldl (fun all r => register r all) all)

/-- The table of registered rules. -/
def ofRules (all : List Rule) (generation : Nat) : RuleTable where
  generation
  rules := (all.filter fun r => !r.disabled && !r.excludes).mergeSort fun a b => (a.order b).isLE
  exclusions := all.filter fun r => !r.disabled && r.excludes
  all

def build (mounts : List Mount) (generation : Nat) : Except RuleError RuleTable :=
  (registerMounts mounts []).map (ofRules · generation)

def excluded (t : RuleTable) (worker : String) (uri : List Char) : Bool :=
  t.exclusions.any fun r => r.worker == worker && r.accepts uri

/-- The rule for a URI without its marker, and whether only a disguise led to it. -/
def choose? (t : RuleTable) (uri : List Char) : Option (Rule × Bool) :=
  match t.rules.find? (·.accepts uri) with
  | some r => some (r, false)
  | none => (t.rules.find? (·.recognisesDisguise uri)).map (·, true)

def resolve (t : RuleTable) (uri : String) : Option Resolution :=
  if uri.toList.head? ≠ some '/' then none
  else
    let path := SessionMarker.strip uri.toList
    (t.choose? path).bind fun (r, fraud) =>
      if t.excluded r.worker path then none
      else some ⟨r.worker, r.shape, r.contextSize, fraud⟩

end RuleTable

end AjpGateway
