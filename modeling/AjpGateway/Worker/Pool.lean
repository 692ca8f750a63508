import AjpGateway.Clock

/-!
# Pools

A pool keeps a bounded number of items for reuse.  The item put last is taken first, and an item
that lay idle longer than the limit is dropped.
-/

namespace AjpGateway

structure Pool (α : Type) where
  /-- the items with the moments they were put, the latest first -/
  entries : List (α × Moment) := []
  capacity : Nat
  idleLimit? : Option Duration := none
deriving Repr

namespace Pool

variable {α : Type}

/-- The most bytes that one block of memory holds. -/
def blockLimit : Nat := 9223372036854775807

/-- An empty pool for items of some size, if one block holds as many as there may be. -/
def new? (itemSize capacity : Nat) (idleLimit? : Option Duration) : Option (Pool α) :=
  if itemSize * capacity ≤ blockLimit then some { capacity, idleLimit? } else none

def size (p : Pool α) : Nat := p.entries.length

/-- The items, the latest first. -/
def toList (p : Pool α) : List α := p.entries.map Prod.fst

/-- Whether an entry has not been idle longer than the limit. -/
def fresh (p : Pool α) (now : Moment) (e : α × Moment) : Bool :=
  match p.idleLimit? with
  | none => true
  | some limit => elapsed now e.2 ≤ limit

/-- Takes the latest item, when the idle ones are dropped. -/
def take (p : Pool α) (now : Moment) : Option α × Pool α :=
  match p.entries.filter (p.fresh now) with
  | [] => (none, { p with entries := [] })
  | e :: rest => (some e.1, { p with entries := rest })

/-- Puts an item if there is room. -/
def put (p : Pool α) (a : α) (now : Moment) : Bool × Pool α :=
  if p.capacity ≤ p.size then (false, p)
  else (true, { p with entries := (a, now) :: p.entries })

/-- Changes the limits; the earliest items go where there is no room. -/
def reconfigure (p : Pool α) (capacity : Nat) (idleLimit? : Option Duration) : Pool α :=
  { entries := p.entries.take capacity, capacity, idleLimit? }

def clear (p : Pool α) : Pool α := { p with entries := [] }

end Pool

end AjpGateway
