import AjpGateway.Routing.Table

/-!
# Live tables

The table in use lies in one of two slots.  A reload stores the next generation in the other slot
and then turns over to it, so a reader that looks up the slot in use finds a complete table at
every moment.  A reload that fails stores nothing.
-/

namespace AjpGateway

inductive Slot where
  | left
  | right
deriving DecidableEq, Repr

def Slot.other : Slot → Slot
  | left => right
  | right => left

structure LiveTable where
  left : RuleTable
  right : RuleTable := {}
  active : Slot := .left
deriving Repr

namespace LiveTable

def inSlot (t : LiveTable) : Slot → RuleTable
  | .left => t.left
  | .right => t.right

/-- The table in use. -/
def table (t : LiveTable) : RuleTable := t.inSlot t.active

def generation (t : LiveTable) : Nat := t.table.generation

/-- Stores a table in the slot that is not in use. -/
def store (t : LiveTable) (next : RuleTable) : LiveTable :=
  match t.active with
  | .left => { t with right := next }
  | .right => { t with left := next }

/-- Turns over to the other slot. -/
def turn (t : LiveTable) : LiveTable := { t with active := t.active.other }

/-- The first generation. -/
def new (mounts : List Mount) : Except RuleError LiveTable :=
  (RuleTable.build mounts 1).map fun t => { left := t }

/-- The next generation, of other mounts. -/
def reload (t : LiveTable) (mounts : List Mount) : Except RuleError LiveTable :=
  (RuleTable.build mounts (t.generation + 1)).map fun next => (t.store next).turn

def resolve (t : LiveTable) (uri : String) : Option Resolution := t.table.resolve uri

/-- The table in one line. -/
def summary (t : LiveTable) : String :=
  "UriWorkerMap \x7b generation: " ++ toString t.generation ++ ", rules: " ++
    toString t.table.rules.length ++ " \x7d"

end LiveTable

end AjpGateway
