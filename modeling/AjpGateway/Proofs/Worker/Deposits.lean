import AjpGateway.Worker.Pool
import Mathlib.Data.List.Perm.Subperm

/-!
# Deposits

A book keeps every item that a pool ever accepted, with what became of it: it waits, was taken, had
lain idle too long when something was taken, was dropped where there was no more room, or went when
the pool was cleared.

The pool holds exactly the items that wait, whatever is done to it and at whatever moments.

    run apply b.pool ops = ((run Book.apply b ops).1, (run Book.apply b ops).2.pool)     (run_pool)
    b.Balanced replies → (run Book.apply b ops).2.Balanced (replies ++ ..)          (Balanced.run)
    new? itemSize capacity idleLimit? = some p → (run apply p ops).2.Kept ..            (run_kept)
-/

namespace AjpGateway.Pool

variable {α : Type}

/-! ## Operations -/

inductive Operation (α : Type)
  | put (a : α) (now : Moment)
  | take (now : Moment)
  | reconfigure (capacity : Nat) (idleLimit? : Option Duration)
  | clear

/-- What an operation gives back. -/
inductive Reply (α : Type)
  | put (a : α) (accepted : Bool)
  | take (item? : Option α)
  | done

def Reply.accepted : Reply α → List α
  | put a true => [a]
  | _ => []

def Reply.returned : Reply α → List α
  | take item? => item?.toList
  | _ => []

def apply (p : Pool α) : Operation α → Reply α × Pool α
  | .put a now => (.put a (p.put a now).1, (p.put a now).2)
  | .take now => (.take (p.take now).1, (p.take now).2)
  | .reconfigure capacity idleLimit? => (.done, p.reconfigure capacity idleLimit?)
  | .clear => (.done, p.clear)

/-- Does operations one after another. -/
def run {σ : Type} (apply : σ → Operation α → Reply α × σ) (s : σ) :
    List (Operation α) → List (Reply α) × σ
  | [] => ([], s)
  | op :: ops =>
    let rest := run apply (apply s op).2 ops
    ((apply s op).1 :: rest.1, rest.2)

/-! ## The book -/

/-- What became of an item. -/
inductive Fate
  | waiting
  | taken
  | expired
  | dropped
  | cleared
deriving DecidableEq

/-- An item that was accepted. -/
structure Deposit (α : Type) where
  item : α
  since : Moment
  fate : Fate := .waiting

/-- The item has lain idle for longer than the limit. -/
def Deposit.Overdue (idleLimit? : Option Duration) (now : Moment) (d : Deposit α) : Prop :=
  ∃ limit ∈ idleLimit?, limit < elapsed now d.since

instance (idleLimit? : Option Duration) (now : Moment) (d : Deposit α) :
    Decidable (d.Overdue idleLimit? now) :=
  inferInstanceAs (Decidable (∃ limit ∈ idleLimit?, limit < elapsed now d.since))

def waiting (ds : List (Deposit α)) : List (Deposit α) := ds.filter (·.fate = .waiting)

def taken (ds : List (Deposit α)) : List (Deposit α) := ds.filter (·.fate = .taken)

/-- Decides on each item that waits, by its place among them. -/
def settle (verdict : Nat → Deposit α → Fate) : List (Deposit α) → List (Deposit α)
  | [] => []
  | d :: ds =>
    if d.fate = .waiting then
      { d with fate := verdict 0 d } :: settle (fun n => verdict (n + 1)) ds
    else d :: settle verdict ds

structure Book (α : Type) where
  /-- the items that were accepted, the latest first -/
  deposits : List (Deposit α) := []
  capacity : Nat
  idleLimit? : Option Duration := none

namespace Book

/-- The items once those that are overdue have expired. -/
def current (b : Book α) (now : Moment) : List (Deposit α) :=
  settle (fun _ d => if d.Overdue b.idleLimit? now then .expired else .waiting) b.deposits

def put (b : Book α) (a : α) (now : Moment) : Bool × Book α :=
  if (waiting b.deposits).length < b.capacity then
    (true, { b with deposits := { item := a, since := now } :: b.deposits })
  else (false, b)

def take (b : Book α) (now : Moment) : Option α × Book α :=
  ((waiting (b.current now)).head?.map Deposit.item,
    { b with deposits := settle (fun n _ => if n = 0 then .taken else .waiting) (b.current now) })

def reconfigure (b : Book α) (capacity : Nat) (idleLimit? : Option Duration) : Book α where
  deposits := settle (fun n _ => if n < capacity then .waiting else .dropped) b.deposits
  capacity := capacity
  idleLimit? := idleLimit?

def clear (b : Book α) : Book α :=
  { b with deposits := settle (fun _ _ => .cleared) b.deposits }

def apply (b : Book α) : Operation α → Reply α × Book α
  | .put a now => (.put a (b.put a now).1, (b.put a now).2)
  | .take now => (.take (b.take now).1, (b.take now).2)
  | .reconfigure capacity idleLimit? => (.done, b.reconfigure capacity idleLimit?)
  | .clear => (.done, b.clear)

/-- The pool of the items that wait. -/
def pool (b : Book α) : Pool α where
  entries := (waiting b.deposits).map fun d => (d.item, d.since)
  capacity := b.capacity
  idleLimit? := b.idleLimit?

end Book

/-! ## Settling -/

section

variable {verdict : Nat → Deposit α → Fate} {d : Deposit α}

theorem settle_cons_of_waiting (h : d.fate = .waiting) (ds : List (Deposit α)) :
    settle verdict (d :: ds) =
      { d with fate := verdict 0 d } :: settle (fun n => verdict (n + 1)) ds :=
  if_pos h

theorem settle_cons_of_ne (h : d.fate ≠ .waiting) (ds : List (Deposit α)) :
    settle verdict (d :: ds) = d :: settle verdict ds :=
  if_neg h

theorem with_fate {fate : Fate} (h : d.fate = fate) : { d with fate } = d := by
  rw [← h]

theorem settle_waiting (ds : List (Deposit α)) : settle (fun _ _ => .waiting) ds = ds := by
  induction ds with
  | nil => rfl
  | cons d ds ih =>
    by_cases hd : d.fate = .waiting
    · rw [settle_cons_of_waiting hd, ih, with_fate hd]
    · rw [settle_cons_of_ne hd, ih]

/-! What waits after it. -/

theorem waiting_cons (d : Deposit α) (ds : List (Deposit α)) :
    waiting (d :: ds) = if d.fate = .waiting then d :: waiting ds else waiting ds := by
  simp [waiting, List.filter_cons]

/-- Nothing comes to wait by it. -/
theorem length_waiting_settle_le (verdict : Nat → Deposit α → Fate) (ds : List (Deposit α)) :
    (waiting (settle verdict ds)).length ≤ (waiting ds).length := by
  induction ds generalizing verdict with
  | nil => exact Nat.le_refl 0
  | cons d ds ih =>
    by_cases hd : d.fate = .waiting
    · rw [settle_cons_of_waiting hd, waiting_cons, waiting_cons, if_pos hd, List.length_cons]
      split
      · exact Nat.succ_le_succ (ih _)
      · exact Nat.le_succ_of_le (ih _)
    · rw [settle_cons_of_ne hd, waiting_cons, waiting_cons, if_neg hd, if_neg hd]
      exact ih verdict

theorem waiting_settle_each (verdict : Deposit α → Fate) (ds : List (Deposit α)) :
    waiting (settle (fun _ => verdict) ds) =
      (waiting ds).filter fun d => verdict d = .waiting := by
  induction ds with
  | nil => rfl
  | cons d ds ih =>
    by_cases hd : d.fate = .waiting
    · rw [settle_cons_of_waiting hd, waiting_cons, waiting_cons, if_pos hd, List.filter_cons, ih]
      by_cases hv : verdict d = .waiting
      · simp only [hv, decide_true, if_true, with_fate hd]
      · simp [hv]
    · rw [settle_cons_of_ne hd, waiting_cons, waiting_cons, if_neg hd, if_neg hd, ih]

theorem waiting_settle_beyond (capacity : Nat) (ds : List (Deposit α)) :
    waiting (settle (fun n _ => if n < capacity then .waiting else .dropped) ds) =
      (waiting ds).take capacity := by
  induction ds generalizing capacity with
  | nil => exact List.take_nil.symm
  | cons d ds ih =>
    by_cases hd : d.fate = .waiting
    · rw [settle_cons_of_waiting hd, waiting_cons, waiting_cons, if_pos hd]
      cases capacity with
      | zero => simpa using ih 0
      | succ capacity => simp [ih capacity, with_fate hd]
    · rw [settle_cons_of_ne hd, waiting_cons, waiting_cons, if_neg hd, if_neg hd, ih]

theorem waiting_settle_latest (ds : List (Deposit α)) :
    waiting (settle (fun n _ => if n = 0 then .taken else .waiting) ds) = (waiting ds).tail := by
  induction ds with
  | nil => rfl
  | cons d ds ih =>
    by_cases hd : d.fate = .waiting
    · rw [settle_cons_of_waiting hd, waiting_cons, waiting_cons, if_pos hd]
      simp [settle_waiting]
    · rw [settle_cons_of_ne hd, waiting_cons, waiting_cons, if_neg hd, if_neg hd, ih]

/-! What was taken after it. -/

theorem taken_cons (d : Deposit α) (ds : List (Deposit α)) :
    taken (d :: ds) = if d.fate = .taken then d :: taken ds else taken ds := by
  simp [taken, List.filter_cons]

theorem taken_settle_of_ne (h : ∀ n d, verdict n d ≠ .taken) (ds : List (Deposit α)) :
    taken (settle verdict ds) = taken ds := by
  induction ds generalizing verdict with
  | nil => rfl
  | cons d ds ih =>
    by_cases hd : d.fate = .waiting
    · have hne : d.fate ≠ .taken := by
        rw [hd]
        decide
      rw [settle_cons_of_waiting hd, taken_cons, taken_cons, if_neg (h 0 d), if_neg hne,
        ih fun n => h (n + 1)]
    · rw [settle_cons_of_ne hd, taken_cons, taken_cons, ih h]

/-- The latest item that waits joins those that were taken. -/
theorem taken_settle_latest (ds : List (Deposit α)) :
    ((taken (settle (fun n _ => if n = 0 then .taken else .waiting) ds)).map Deposit.item).Perm
      ((taken ds).map Deposit.item ++ ((waiting ds).head?.map Deposit.item).toList) := by
  induction ds with
  | nil => exact .nil
  | cons d ds ih =>
    by_cases hd : d.fate = .waiting
    · rw [settle_cons_of_waiting hd, waiting_cons, if_pos hd, taken_cons, taken_cons]
      simp only [hd, if_true, reduceCtorEq, if_false, Nat.add_eq_zero_iff, Nat.one_ne_zero,
        and_false, settle_waiting]
      exact (List.perm_append_singleton d.item _).symm
    · rw [settle_cons_of_ne hd, waiting_cons, if_neg hd, taken_cons, taken_cons]
      split
      · exact ih.cons d.item
      · exact ih

/-! The items stay what they are. -/

theorem map_item_settle (verdict : Nat → Deposit α → Fate) (ds : List (Deposit α)) :
    (settle verdict ds).map Deposit.item = ds.map Deposit.item := by
  induction ds generalizing verdict with
  | nil => rfl
  | cons d ds ih =>
    by_cases hd : d.fate = .waiting
    · rw [settle_cons_of_waiting hd, List.map_cons, List.map_cons, ih]
    · rw [settle_cons_of_ne hd, List.map_cons, List.map_cons, ih]

end

namespace Book

variable {b b' : Book α}

/-! ## The pool of a book -/

theorem entries_current (b : Book α) (now : Moment) :
    (waiting (b.current now)).map (fun d => (d.item, d.since)) =
      b.pool.entries.filter (b.pool.fresh now) := by
  rw [current, waiting_settle_each, pool, List.filter_map]
  congr 1
  refine List.filter_congr fun d _ => ?_
  simp only [Function.comp_apply, fresh, Deposit.Overdue]
  cases b.idleLimit? <;> simp

theorem size_pool (b : Book α) : b.pool.size = (waiting b.deposits).length := List.length_map ..

theorem pool_put (b : Book α) (a : α) (now : Moment) :
    b.pool.put a now = ((b.put a now).1, (b.put a now).2.pool) := by
  unfold Pool.put Book.put
  rw [size_pool]
  by_cases hroom : (waiting b.deposits).length < b.capacity
  · have hopen : ¬ b.pool.capacity ≤ (waiting b.deposits).length := Nat.not_le.2 hroom
    rw [if_pos hroom, if_neg hopen]
    rfl
  · have hfull : b.pool.capacity ≤ (waiting b.deposits).length := Nat.not_lt.1 hroom
    rw [if_neg hroom, if_pos hfull]

theorem pool_take (b : Book α) (now : Moment) :
    b.pool.take now = ((b.take now).1, (b.take now).2.pool) := by
  unfold Pool.take Book.take
  rw [← entries_current]
  cases hw : waiting (b.current now) <;> simp [pool, waiting_settle_latest, hw]

theorem pool_reconfigure (b : Book α) (capacity : Nat) (idleLimit? : Option Duration) :
    b.pool.reconfigure capacity idleLimit? = (b.reconfigure capacity idleLimit?).pool := by
  simp [Pool.reconfigure, Book.reconfigure, pool, waiting_settle_beyond, List.map_take]

theorem pool_clear (b : Book α) : b.pool.clear = b.clear.pool := by
  simp [Pool.clear, Book.clear, pool, waiting_settle_each]

/-- An operation on the pool is that operation on the book. -/
theorem pool_apply (b : Book α) (op : Operation α) :
    b.pool.apply op = ((b.apply op).1, (b.apply op).2.pool) := by
  cases op with
  | put a now => rw [Pool.apply, pool_put]; rfl
  | take now => rw [Pool.apply, pool_take]; rfl
  | reconfigure capacity idleLimit? => rw [Pool.apply, pool_reconfigure]; rfl
  | clear => rw [Pool.apply, pool_clear]; rfl

theorem run_pool (b : Book α) (ops : List (Operation α)) :
    run Pool.apply b.pool ops = ((run apply b ops).1, (run apply b ops).2.pool) := by
  induction ops generalizing b with
  | nil => rfl
  | cons op ops ih => simp only [run, pool_apply, ih]

/-! ## Balance -/

/-- The book accounts for what operations gave back, and there is room for what waits. -/
structure Balanced (b : Book α) (replies : List (Reply α)) : Prop where
  bounded : (waiting b.deposits).length ≤ b.capacity
  accepted : replies.flatMap Reply.accepted = (b.deposits.map Deposit.item).reverse
  returned : (replies.flatMap Reply.returned).Perm ((taken b.deposits).map Deposit.item)

namespace Balanced

variable {replies : List (Reply α)}

theorem settle (h : b.Balanced replies) {verdict : Nat → Deposit α → Fate}
    (hverdict : ∀ n d, verdict n d ≠ .taken) (hdeposits : b'.deposits = settle verdict b.deposits)
    (hbounded : (waiting b'.deposits).length ≤ b'.capacity) : b'.Balanced replies where
  bounded := hbounded
  accepted := by rw [h.accepted, hdeposits, map_item_settle]
  returned := by
    rw [hdeposits, taken_settle_of_ne hverdict]
    exact h.returned

theorem done (h : b.Balanced replies) : b.Balanced (replies ++ [.done]) where
  bounded := h.bounded
  accepted := by simpa [Reply.accepted] using h.accepted
  returned := by simpa [Reply.returned] using h.returned

theorem put (h : b.Balanced replies) (a : α) (now : Moment) :
    (b.put a now).2.Balanced (replies ++ [.put a (b.put a now).1]) := by
  unfold Book.put
  split
  next hroom =>
    refine ⟨hroom, ?_, ?_⟩
    · simpa [Reply.accepted] using h.accepted
    · simpa [Reply.returned, taken_cons] using h.returned
  next =>
    refine ⟨h.bounded, ?_, ?_⟩
    · simpa [Reply.accepted] using h.accepted
    · simpa [Reply.returned] using h.returned

/-- What expires is not returned, and what is returned is the latest of the rest. -/
theorem take (h : b.Balanced replies) (now : Moment) :
    (b.take now).2.Balanced (replies ++ [.take (b.take now).1]) := by
  have hcurrent : Balanced { b with deposits := b.current now } replies := by
    refine h.settle (fun _ d => ?_) rfl (Nat.le_trans (length_waiting_settle_le ..) h.bounded)
    split <;> decide
  refine ⟨Nat.le_trans (length_waiting_settle_le ..) hcurrent.bounded, ?_, ?_⟩
  · dsimp only [Book.take]
    rw [List.flatMap_append, hcurrent.accepted, map_item_settle]
    exact List.append_nil _
  · refine .trans ?_ (taken_settle_latest (b.current now)).symm
    rw [List.flatMap_append, List.flatMap_singleton]
    exact hcurrent.returned.append_right _

/-- An operation keeps the balance. -/
theorem apply (h : b.Balanced replies) (op : Operation α) :
    (b.apply op).2.Balanced (replies ++ [(b.apply op).1]) := by
  cases op with
  | put a now => exact h.put a now
  | take now => exact h.take now
  | reconfigure capacity idleLimit? =>
    refine (h.settle (fun n _ => ?_) rfl ?_).done
    · split <;> decide
    · dsimp only [Book.apply, Book.reconfigure]
      rw [waiting_settle_beyond]
      exact List.length_take_le ..
  | clear =>
    have hbounded : (waiting b.clear.deposits).length ≤ b.capacity :=
      Nat.le_trans (length_waiting_settle_le ..) h.bounded
    have hclear : b.clear.Balanced replies := h.settle (fun _ _ => by decide) rfl hbounded
    exact hclear.done

/-- By induction on the operations: a run keeps the balance. -/
theorem run (h : b.Balanced replies) (ops : List (Operation α)) :
    (run Book.apply b ops).2.Balanced (replies ++ (run Book.apply b ops).1) := by
  induction ops generalizing b replies with
  | nil => simpa [Pool.run] using h
  | cons op ops ih => simpa [Pool.run] using ih (h.apply op)

end Balanced

/-- What is taken is the latest of the items that wait and are not overdue. -/
theorem take_eq_some_iff (b : Book α) (now : Moment) (a : α) :
    (b.take now).1 = some a ↔ ∃ newer d older, b.deposits = newer ++ d :: older ∧ d.item = a ∧
      d.fate = .waiting ∧ ¬ d.Overdue b.idleLimit? now ∧
      ∀ e ∈ newer, e.fate = .waiting → e.Overdue b.idleLimit? now := by
  have hfind : (waiting (b.current now)).head? =
      b.deposits.find? fun d => d.fate = .waiting ∧ ¬ d.Overdue b.idleLimit? now := by
    rw [current, waiting_settle_each, waiting, List.filter_filter, List.head?_filter]
    congr 1
    funext d
    by_cases hover : d.Overdue b.idleLimit? now <;> simp [hover]
  unfold Book.take
  rw [hfind, Option.map_eq_some_iff]
  constructor
  · rintro ⟨d, hd, rfl⟩
    obtain ⟨hthis, newer, older, hdeposits, hnewer⟩ := List.find?_eq_some_iff_append.1 hd
    obtain ⟨hwaits, hover⟩ := of_decide_eq_true hthis
    refine ⟨newer, d, older, hdeposits, rfl, hwaits, hover, fun e he hwaits => ?_⟩
    simpa [hwaits] using hnewer e he
  · rintro ⟨newer, d, older, hdeposits, rfl, hwaits, hover, hnewer⟩
    refine ⟨d, List.find?_eq_some_iff_append.2 ⟨decide_eq_true ⟨hwaits, hover⟩, newer, older,
      hdeposits, fun e he => ?_⟩, rfl⟩
    simpa [← imp_iff_not_or] using hnewer e he

end Book

/-! ## Runs -/

/-- What a pool holds and does after operations that gave back these replies and left this book. -/
structure Kept (p : Pool α) (b : Book α) (replies : List (Reply α)) : Prop where
  /-- It holds the items that wait, the latest first, under the limits that were set last. -/
  pool : p = b.pool
  bounded : p.size ≤ p.capacity
  room : ∀ a now, (p.put a now).1 = true ↔ p.size < p.capacity
  /-- What is taken is the latest of the items that wait and are not overdue. -/
  latest : ∀ now a, (p.take now).1 = some a ↔ ∃ newer d older, b.deposits = newer ++ d :: older ∧
    d.item = a ∧ d.fate = .waiting ∧ ¬ d.Overdue p.idleLimit? now ∧
    ∀ e ∈ newer, e.fate = .waiting → e.Overdue p.idleLimit? now
  /-- Under new limits as many of the latest items stay as fit. -/
  shrunk : ∀ capacity idleLimit?, (p.reconfigure capacity idleLimit?).entries <+: p.entries ∧
    (p.reconfigure capacity idleLimit?).size = min capacity p.size
  /-- The book is of the items that were accepted, in turn. -/
  accepted : replies.flatMap Reply.accepted = (b.deposits.map Deposit.item).reverse
  /-- The items that were returned are those that the book says were taken. -/
  returned : (replies.flatMap Reply.returned).Perm ((taken b.deposits).map Deposit.item)
  once : (replies.flatMap Reply.returned).Subperm (replies.flatMap Reply.accepted)

theorem Book.Balanced.kept {b : Book α} {replies : List (Reply α)} (h : b.Balanced replies) :
    b.pool.Kept b replies where
  pool := rfl
  bounded := by
    rw [Book.size_pool]
    exact h.bounded
  room a now := by
    unfold Pool.put
    split
    next hfull => exact iff_of_false Bool.false_ne_true (Nat.not_lt.2 hfull)
    next hroom => exact iff_of_true rfl (Nat.not_le.1 hroom)
  latest now a := by
    rw [Book.pool_take]
    exact b.take_eq_some_iff now a
  shrunk capacity idleLimit? := ⟨List.take_prefix .., List.length_take⟩
  accepted := h.accepted
  returned := h.returned
  once := by
    have htaken : ((taken b.deposits).map Deposit.item).Subperm (b.deposits.map Deposit.item) :=
      (List.filter_sublist.map _).subperm
    rw [h.accepted]
    exact h.returned.subperm.trans (htaken.trans (List.reverse_perm _).symm.subperm)

/-- **A pool is a stack with room for so many, from which what lies idle too long goes.**  It holds
the items that were accepted and that nothing has become of.  The operations and their moments are
any, so this is so after each operation of a run. -/
theorem run_kept {itemSize capacity : Nat} {idleLimit? : Option Duration} {p : Pool α}
    (h : new? itemSize capacity idleLimit? = some p) (ops : List (Operation α)) :
    (run apply p ops).2.Kept (run Book.apply { capacity, idleLimit? } ops).2
      (run apply p ops).1 := by
  have hempty : Book.Balanced { capacity, idleLimit? } ([] : List (Reply α)) :=
    ⟨Nat.zero_le _, rfl, .nil⟩
  obtain rfl : p = Book.pool { capacity, idleLimit? } := by
    unfold new? at h
    split at h
    · exact (Option.some.inj h).symm
    · cases h
  rw [Book.run_pool]
  exact (hempty.run ops).kept

theorem run_kept_shrinking :
    new? 8 3 none = some ({ capacity := 3 } : Pool String) ∧
    Kept { entries := [("fifth", 16)], capacity := 2, idleLimit? := some 8 }
      { deposits := [⟨"fifth", 16, .waiting⟩, ⟨"third", 10, .taken⟩, ⟨"second", 5, .expired⟩,
          ⟨"first", 0, .dropped⟩]
        capacity := 2
        idleLimit? := some 8 }
      [.put "first" true, .put "second" true, .put "third" true, .put "fourth" false, .done,
        .take (some "third"), .take none, .put "fifth" true] := by
  have h : new? 8 3 none = some ({ capacity := 3 } : Pool String) := rfl
  exact ⟨h, run_kept h [.put "first" 0, .put "second" 5, .put "third" 10, .put "fourth" 11,
    .reconfigure 2 (some 8), .take 14, .take 14, .put "fifth" 16]⟩

end AjpGateway.Pool
