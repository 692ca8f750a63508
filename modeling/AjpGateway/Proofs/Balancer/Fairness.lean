import AjpGateway.Proofs.Balancer.Resting
import AjpGateway.Proofs.Balancer.Sessions
import Mathlib.Algebra.Order.Ring.Rat
import Mathlib.Tactic.Linarith
import Mathlib.Tactic.Ring

/-!
# Fair shares

Requests of no sessions are shared out by load.  Loads and factors are exact here, rational numbers.
From where every member has the same load, no member ever gets ahead of another by more than one of
its own factors; and where the factors are the same too, the members take turns.

    b.leastLoaded l = some (i, load) →
      i is the first of l with the least load                            (first_of_leastLoaded)
    b.Open → c.IsFree → (what the call does to loads, and whom it picks)              (shared_call)
    b.Open → all loads are the same → (what the members get of any calls)          (shared_fairly)
-/

namespace AjpGateway

/-- The place of the member that is picked. -/
def Choice.index? : Choice → Option Nat
  | .picked p => some p.index
  | _ => none

namespace Balancer

/-! ## Calls that share out -/

namespace Call

/-- A request of no sessions that asked nobody yet chooses a member, or a member served one. -/
def IsFree : Call → Prop
  | select _ routes tried _ => routes = [] ∧ ∀ i, isTried tried i = false
  | succeeded _ => True
  | failed _ _ => False

def isSelection : Call → Bool
  | select .. => true
  | _ => false

end Call

section
variable {Load : Type} [OfNat Load 0] [Add Load] [Max Load] [LT Load] [DecidableLT Load]

/-- The member that a call picks. -/
def pickedBy? (b : Balancer Load) : Call → Option Nat
  | .select now routes tried first => (b.select now routes tried first).1.index?
  | _ => none

/-- The members that calls pick, in turn. -/
def picks (b : Balancer Load) : List Call → List Nat
  | [] => []
  | c :: rest => (b.pickedBy? c).toList ++ (b.call c).picks rest

theorem picks_cons (b : Balancer Load) (c : Call) (rest : List Call) :
    b.picks (c :: rest) = (b.pickedBy? c).toList ++ (b.call c).picks rest := rfl

end

variable {b : Balancer ℚ} {i j : Nat} {now : Moment} {tried : List Bool} {first : Bool}

/-! ## The least load -/

/-- The member is the first one with the least load. -/
theorem first_of_leastLoaded {l : List Nat} {load : ℚ} (h : b.leastLoaded l = some (i, load)) :
    ∃ m, b.members[i]? = some m ∧ m.load = load ∧
      (∀ j ∈ l, ∀ o, b.members[j]? = some o → load ≤ o.load) ∧
      ∃ before after, l = before ++ i :: after ∧
        ∀ j ∈ before, ∀ o, b.members[j]? = some o → load < o.load := by
  induction l generalizing i load with
  | nil => cases h
  | cons k rest ih =>
    unfold leastLoaded at h
    split at h
    · next hk =>
      obtain ⟨m, hm, hload, hleast, before, after, rfl, hbefore⟩ := ih h
      have hnone : ∀ o, b.members[k]? ≠ some o := by
        intro o ho
        rw [hk] at ho
        cases ho
      refine ⟨m, hm, hload, ?_, k :: before, after, rfl, ?_⟩
      · exact List.forall_mem_cons.2 ⟨fun o ho => absurd ho (hnone o), hleast⟩
      · exact List.forall_mem_cons.2 ⟨fun o ho => absurd ho (hnone o), hbefore⟩
    · next m hk =>
      have hself : ∀ o, b.members[k]? = some o → m.load ≤ o.load := by
        intro o ho
        rw [hk] at ho
        cases ho
        exact le_refl _
      split at h
      · next hrest =>
        cases h
        refine ⟨m, hk, rfl, ?_, [], rest, rfl, List.forall_mem_nil _⟩
        refine List.forall_mem_cons.2 ⟨hself, fun j hj o ho => ?_⟩
        rw [getElem?_of_leastLoaded_eq_none hrest j hj] at ho
        cases ho
      · next j least hrest =>
        obtain ⟨m', hm', hload', hleast, before, after, rfl, hbefore⟩ := ih hrest
        split at h
        · next hlt =>
          cases h
          have hk' : ∀ o, b.members[k]? = some o → load < o.load :=
            fun o ho => lt_of_lt_of_le hlt (hself o ho)
          refine ⟨m', hm', hload', ?_, k :: before, after, rfl, ?_⟩
          · exact List.forall_mem_cons.2 ⟨fun o ho => le_of_lt (hk' o ho), hleast⟩
          · exact List.forall_mem_cons.2 ⟨hk', hbefore⟩
        · next hle =>
          cases h
          refine ⟨m, hk, rfl, ?_, [], _, rfl, List.forall_mem_nil _⟩
          refine List.forall_mem_cons.2 ⟨hself, fun j hj o ho => ?_⟩
          exact le_trans (not_lt.1 hle) (hleast j hj o ho)

/-! ## A request that is free to go anywhere -/

/-- Any request may go to any member, and adds to its load. -/
structure Open (b : Balancer ℚ) : Prop where
  members : b.members ≠ []
  usable : ∀ m ∈ b.members, m.usable = true
  positive : ∀ m ∈ b.members, 0 < m.factor

/-- The load of the member at a place. -/
def loadAt (b : Balancer ℚ) (i : Nat) : ℚ := (b.members.map Member.load).getD i 0

/-- The factor of the member at a place. -/
def factorAt (b : Balancer ℚ) (i : Nat) : ℚ := (b.members.map Member.factor).getD i 0

theorem loadAt_eq {m : Member ℚ} (hm : b.members[i]? = some m) : b.loadAt i = m.load := by
  simp [loadAt, hm]

theorem factorAt_eq {m : Member ℚ} (hm : b.members[i]? = some m) : b.factorAt i = m.factor := by
  simp [factorAt, hm]

/-- The member that is picked: none has less load, and where the member whose turn it is has the
least, it is that one. -/
structure Leads (b : Balancer ℚ) (i : Nat) : Prop where
  lt : i < b.members.length
  least : ∀ j < b.members.length, b.loadAt i ≤ b.loadAt j
  turn : (∀ j < b.members.length, b.loadAt (b.next % b.members.length) ≤ b.loadAt j) →
    i = b.next % b.members.length

/-- What a call makes of the balancer: the member that it picks, if any, gets its factor more of
load, and the next turn is that of the member behind it. -/
structure Shared (b : Balancer ℚ) (picked? : Option Nat) (b' : Balancer ℚ) : Prop where
  stays : b'.Open
  length : b'.members.length = b.members.length
  factor : ∀ j, b'.factorAt j = b.factorAt j
  load : ∀ j, b'.loadAt j = b.loadAt j + if picked? = some j then b.factorAt j else 0
  next : b'.next = (picked?.map fun i => (i + 1) % b.members.length).getD b.next
  leads : ∀ i, picked? = some i → b.Leads i

/-- A change of one member that leaves it usable. -/
theorem shared_of_modify (hb : b.Open) {b' : Balancer ℚ} {f : Member ℚ → Member ℚ}
    {picked? : Option Nat} (hmembers : b'.members = b.members.modify i f)
    (hf : ∀ m ∈ b.members, (f m).usable = true ∧ (f m).factor = m.factor ∧
      (f m).load = m.load + if picked? = some i then m.factor else 0)
    (hpicked : ∀ j, picked? = some j → j = i)
    (hnext : b'.next = (picked?.map fun i => (i + 1) % b.members.length).getD b.next)
    (hleads : ∀ i, picked? = some i → b.Leads i) : b.Shared picked? b' := by
  have hat : ∀ j, b'.members[j]? = b.members[j]?.map fun m => if i = j then f m else m := by
    intro j
    rw [hmembers, List.getElem?_modify]
    rfl
  have hmember : ∀ m' ∈ b'.members, ∃ m ∈ b.members, m'.usable = true ∧ m'.factor = m.factor := by
    intro m' hm'
    obtain ⟨j, hj⟩ := List.mem_iff_getElem?.1 hm'
    rw [hat] at hj
    obtain ⟨m, hm, rfl⟩ := Option.map_eq_some_iff.1 hj
    have hin := List.mem_of_getElem? hm
    by_cases hij : i = j
    · rw [if_pos hij]
      exact ⟨m, hin, (hf m hin).1, (hf m hin).2.1⟩
    · rw [if_neg hij]
      exact ⟨m, hin, hb.usable m hin, rfl⟩
  refine ⟨⟨?_, ?_, ?_⟩, ?_, fun j => ?_, fun j => ?_, hnext, hleads⟩
  · intro hnil
    have hlength := congrArg List.length (hmembers.symm.trans hnil)
    rw [List.length_modify] at hlength
    exact hb.members (List.length_eq_zero_iff.1 hlength)
  · intro m' hm'
    obtain ⟨m, -, husable, -⟩ := hmember m' hm'
    exact husable
  · intro m' hm'
    obtain ⟨m, hin, -, hfactor⟩ := hmember m' hm'
    rw [hfactor]
    exact hb.positive m hin
  · rw [hmembers, List.length_modify]
  · cases hm : b.members[j]? with
    | none => simp [factorAt, hat, hm]
    | some m =>
      have hin := List.mem_of_getElem? hm
      by_cases hij : i = j
      · simp [factorAt, hat, hm, hij, (hf m hin).2.1]
      · simp [factorAt, hat, hm, hij]
  · cases hm : b.members[j]? with
    | none => simp [loadAt, factorAt, hat, hm]
    | some m =>
      have hin := List.mem_of_getElem? hm
      by_cases hij : i = j
      · subst hij
        simp [loadAt, factorAt, hat, hm, (hf m hin).2.2]
      · have hother : picked? ≠ some j := fun h => hij (hpicked j h).symm
        simp [loadAt, hat, hm, hij, hother]

/-- Nobody has to be put back. -/
theorem maintain_of_usable (h : ∀ m ∈ b.members, m.usable = true) (now : Moment) :
    (b.maintain now).members = b.members ∧ (b.maintain now).next = b.next := by
  unfold maintain
  split
  · exact ⟨rfl, rfl⟩
  · refine ⟨?_, rfl⟩
    have hsame : ∀ m ∈ b.members, (if m.recoveryDue now b.settings.recoverWindow = true
        then m.recover b.greatestLoad else m) = m := by
      intro m hm
      have hdue : m.recoveryDue now b.settings.recoverWindow = false := by
        simp [Member.recoveryDue, (usable_iff.1 (h m hm)).1]
      simp [hdue]
    exact (List.map_congr_left hsame).trans (List.map_id' _)

/-- The rotation begins with the member whose turn it is. -/
theorem rotation_eq_cons (h : b.members ≠ []) :
    ∃ rest, b.rotation = b.next % b.members.length :: rest := by
  obtain ⟨n, hn⟩ := Nat.exists_eq_add_one_of_ne_zero
    (fun hzero => h (List.length_eq_zero_iff.1 hzero))
  unfold rotation
  rw [hn, List.range_succ_eq_map, List.map_cons]
  exact ⟨_, rfl⟩

/-- The member that leads in load is picked. -/
theorem chooseBalanced_of_open (hb : b.Open) (ht : ∀ i, isTried tried i = false) :
    ∃ i m, b.members[i]? = some m ∧ b.Leads i ∧ b.chooseBalanced tried =
      some (({ b with next := (i + 1) % b.members.length }.modify i
        fun m => { m with load := m.load + m.factor }).elect i) := by
  have hall : b.rotation.filter (fun i => !isTried tried i && b.members[i]?.any Member.usable) =
      b.rotation := by
    refine List.filter_eq_self.2 fun i hi => ?_
    have hm := List.getElem?_eq_getElem (mem_rotation_iff.1 hi)
    rw [ht, hm]
    exact hb.usable _ (List.mem_of_getElem? hm)
  obtain ⟨rest, hrotation⟩ := rotation_eq_cons hb.members
  cases hleast : b.leastLoaded b.rotation with
  | none =>
    have hturn : b.next % b.members.length ∈ b.rotation := by
      rw [hrotation]
      exact List.mem_cons_self
    have hnone := getElem?_of_leastLoaded_eq_none hleast _ hturn
    exact absurd (mem_rotation_iff.1 hturn) (Nat.not_lt.2 (List.getElem?_eq_none_iff.1 hnone))
  | some x =>
    obtain ⟨i, load⟩ := x
    obtain ⟨m, hm, rfl, hmin, before, after, hsplit, hbefore⟩ := first_of_leastLoaded hleast
    have hload : b.loadAt i = m.load := loadAt_eq hm
    refine ⟨i, m, hm, ⟨(List.getElem?_eq_some_iff.1 hm).1, fun j hj => ?_, fun hturn => ?_⟩, ?_⟩
    · have ho := List.getElem?_eq_getElem hj
      rw [hload, loadAt_eq ho]
      exact hmin j (mem_rotation_iff.2 hj) _ ho
    · -- were another one before it, that one would have more load than `i`
      cases before with
      | nil =>
        rw [hrotation] at hsplit
        exact (List.cons.inj hsplit).1.symm
      | cons k before =>
        rw [hrotation] at hsplit
        obtain rfl : b.next % b.members.length = k := (List.cons.inj hsplit).1
        have hk : b.next % b.members.length < b.members.length :=
          Nat.mod_lt _ (Nat.pos_of_ne_zero fun h => hb.members (List.length_eq_zero_iff.1 h))
        have ho := List.getElem?_eq_getElem hk
        have hless := hbefore _ List.mem_cons_self _ ho
        have hle := hturn i (List.getElem?_eq_some_iff.1 hm).1
        rw [hload, loadAt_eq ho] at hle
        exact absurd hless (not_lt.2 hle)
    · unfold chooseBalanced
      dsimp only
      rw [hall, hleast]
      rfl

/-- A selection picks the member that leads. -/
theorem select_of_open (hb : b.Open) (ht : ∀ i, isTried tried i = false) (now : Moment)
    (first : Bool) :
    ∃ i m, b.members[i]? = some m ∧ b.Leads i ∧
      (b.select now [] tried first).1 = .picked ⟨i, m.route⟩ ∧
      (b.select now [] tried first).2.members =
        b.members.modify i (fun m => Member.elect { m with load := m.load + m.factor }) ∧
      (b.select now [] tried first).2.next = (i + 1) % b.members.length := by
  obtain ⟨hmembers, hnext⟩ := maintain_of_usable hb.usable now
  have hmaintained : (b.maintain now).Open := by
    refine ⟨?_, ?_, ?_⟩ <;> rw [hmembers]
    · exact hb.members
    · exact hb.usable
    · exact hb.positive
  obtain ⟨i, m, hm, ⟨hlt, hleast, hturn⟩, hchosen⟩ := chooseBalanced_of_open hmaintained ht
  unfold loadAt at hleast hturn
  rw [hmembers] at hm hlt hleast hturn
  rw [hnext] at hturn
  rw [select_nil, hchosen]
  refine ⟨i, m, hm, ⟨hlt, hleast, hturn⟩, ?_, ?_, ?_⟩
  · show Choice.picked ⟨i, (((b.maintain now).members.modify i _)[i]?.map Member.route).getD ""⟩ = _
    simp [hmembers, hm]
  · show ((b.maintain now).members.modify i _).modify i _ = _
    rw [hmembers, List.modify_modify_eq]
    rfl
  · show (i + 1) % (b.maintain now).members.length = _
    rw [hmembers]

/-- **A call that shares out.**  A selection picks the member that leads in load; a success picks
nobody, and changes no load. -/
theorem shared_call (hb : b.Open) {c : Call} (hc : c.IsFree) :
    b.Shared (b.pickedBy? c) (b.call c) ∧ (b.pickedBy? c).isSome = c.isSelection := by
  cases c with
  | select now routes tried first =>
    obtain ⟨rfl, ht⟩ := hc
    obtain ⟨i, m, -, hleads, hpick, hmembers, hnext⟩ := select_of_open hb ht now first
    have hpicked : b.pickedBy? (.select now [] tried first) = some i := by
      show (b.select now [] tried first).1.index? = some i
      rw [hpick]
      rfl
    rw [hpicked]
    refine ⟨shared_of_modify (i := i) hb hmembers ?_ ?_ hnext ?_, rfl⟩
    · intro m hm
      exact ⟨hb.usable m hm, rfl, by rw [if_pos rfl]; rfl⟩
    · exact fun j hj => (Option.some.inj hj).symm
    · intro j hj
      rw [← Option.some.inj hj]
      exact hleads
  | succeeded i =>
    refine ⟨shared_of_modify (i := i) (f := Member.succeeded) hb rfl ?_ nofun rfl nofun, rfl⟩
    intro m hm
    obtain ⟨-, hdisabled, hstopped⟩ := usable_iff.1 (hb.usable m hm)
    refine ⟨usable_iff.2 ⟨rfl, hdisabled, hstopped⟩, rfl, ?_⟩
    rw [if_neg nofun, add_zero]
    rfl
  | failed i now => exact hc.elim

/-! ## Any number of calls -/

section
variable {calls : List Call}

/-- By induction on the calls: a member's load grows by its factor whenever it is picked. -/
theorem load_after (hb : b.Open) (hfree : ∀ c ∈ calls, c.IsFree) :
    (b.after calls).Open ∧ (b.after calls).members.length = b.members.length ∧
      ∀ j, (b.after calls).factorAt j = b.factorAt j ∧
        (b.after calls).loadAt j = b.loadAt j + (b.picks calls).count j * b.factorAt j := by
  induction calls generalizing b with
  | nil =>
    refine ⟨hb, rfl, fun j => ⟨rfl, ?_⟩⟩
    show b.loadAt j = b.loadAt j + ((0 : Nat) : ℚ) * b.factorAt j
    simp
  | cons c rest ih =>
    obtain ⟨hc, hrest⟩ := List.forall_mem_cons.1 hfree
    obtain ⟨hshared, -⟩ := shared_call hb hc
    obtain ⟨hopen, hlength, hat⟩ := ih hshared.stays hrest
    refine ⟨hopen, hlength.trans hshared.length, fun j => ?_⟩
    obtain ⟨hfactor, hload⟩ := hat j
    refine ⟨hfactor.trans (hshared.factor j), ?_⟩
    have hcount : (b.picks (c :: rest)).count j =
        (if b.pickedBy? c = some j then 1 else 0) + ((b.call c).picks rest).count j := by
      rw [picks_cons, List.count_append]
      cases b.pickedBy? c with
      | none => simp
      | some i => simp [List.count_singleton]
    show ((b.call c).after rest).loadAt j = _
    rw [hload, hshared.load, hshared.factor, hcount]
    split <;> push_cast <;> ring

/-- Nobody is ahead of another by more than its own factor. -/
def Even (b : Balancer ℚ) : Prop :=
  ∀ i < b.members.length, ∀ j < b.members.length, b.loadAt i - b.factorAt i ≤ b.loadAt j

theorem Open.factorAt_pos (hb : b.Open) (hi : i < b.members.length) : 0 < b.factorAt i := by
  have hm := List.getElem?_eq_getElem hi
  rw [factorAt_eq hm]
  exact hb.positive _ (List.mem_of_getElem? hm)

/-- Whoever gets ahead had the least load. -/
theorem Even.shared {b' : Balancer ℚ} {picked? : Option Nat} (h : b.Even) (hb : b.Open)
    (hs : b.Shared picked? b') : b'.Even := by
  intro i hi j hj
  rw [hs.length] at hi hj
  have hij := h i hi j hj
  have hpos := hb.factorAt_pos hj
  rw [hs.load, hs.load, hs.factor]
  by_cases hpicked : picked? = some i
  · have hleast := (hs.leads i hpicked).least j hj
    rw [if_pos hpicked]
    split <;> linarith
  · rw [if_neg hpicked]
    split <;> linarith

theorem Even.after (h : b.Even) (hb : b.Open) (hfree : ∀ c ∈ calls, c.IsFree) :
    (b.after calls).Even := by
  induction calls generalizing b with
  | nil => exact h
  | cons c rest ih =>
    obtain ⟨hc, hrest⟩ := List.forall_mem_cons.1 hfree
    obtain ⟨hshared, -⟩ := shared_call hb hc
    exact ih (h.shared hb hshared) hshared.stays hrest

/-! ## Turns -/

/-- Everybody has the factor `f`, and in the order of the turns the loads do not fall, nor rise by
more than `f` in all. -/
structure Queued (b : Balancer ℚ) (f : ℚ) : Prop where
  factor : ∀ j < b.members.length, b.factorAt j = f
  sorted : ∀ j k, j ≤ k → k < b.members.length →
    b.loadAt ((b.next + j) % b.members.length) ≤ b.loadAt ((b.next + k) % b.members.length)
  last : ∀ k < b.members.length,
    b.loadAt ((b.next + k) % b.members.length) ≤ b.loadAt (b.next % b.members.length) + f

/-- The member whose turn it is has the least load. -/
theorem Queued.turn_least {f : ℚ} (h : b.Queued f) :
    ∀ j < b.members.length, b.loadAt (b.next % b.members.length) ≤ b.loadAt j := by
  intro j hj
  obtain ⟨k, hk, rfl⟩ := List.mem_map.1 (mem_rotation_iff.2 hj)
  have hsorted := h.sorted 0 k (Nat.zero_le k) (List.mem_range.1 hk)
  rwa [Nat.add_zero] at hsorted

/-- The place `k` behind the next turn is the place `k + 1` behind this one. -/
theorem next_turn (n next k : Nat) : ((next % n + 1) % n + k) % n = (next + (k + 1)) % n := by
  rw [Nat.mod_add_mod, Nat.add_assoc, Nat.mod_add_mod, Nat.add_comm 1 k]

/-- Within one round nobody has a second turn. -/
theorem turn_ne {n next k : Nat} (hk : k + 1 < n) : (next + (k + 1)) % n ≠ next % n := by
  intro h
  have hzero := Nat.sub_mod_eq_zero_of_mod_eq h
  rw [Nat.add_sub_cancel_left, Nat.mod_eq_of_lt hk] at hzero
  omega

section
variable {b' : Balancer ℚ} {f : ℚ} {i : Nat}

theorem Queued.factor_shared {picked? : Option Nat} (h : b.Queued f) (hs : b.Shared picked? b') :
    ∀ j < b'.members.length, b'.factorAt j = f := by
  intro j hj
  rw [hs.factor]
  exact h.factor j (hs.length ▸ hj)

/-- While nobody is picked, the queue stays as it is. -/
theorem Queued.unpicked (h : b.Queued f) (hs : b.Shared none b') : b'.Queued f := by
  have hload : ∀ j, b'.loadAt j = b.loadAt j := by
    intro j
    rw [hs.load, if_neg nofun, add_zero]
  have hnext : b'.next = b.next := hs.next
  refine ⟨h.factor_shared hs, ?_, ?_⟩
  · intro j k hjk hk
    rw [hload, hload, hnext, hs.length]
    exact h.sorted j k hjk (hs.length ▸ hk)
  · intro k hk
    rw [hload, hload, hnext, hs.length]
    exact h.last k (hs.length ▸ hk)

/-- The first of the queue is picked. -/
theorem Queued.picked (h : b.Queued f) (hs : b.Shared (some i) b') :
    i = b.next % b.members.length ∧ b.factorAt i = f ∧
      ∀ k, (b'.next + k) % b'.members.length = (b.next + (k + 1)) % b.members.length := by
  have hi : i = b.next % b.members.length := (hs.leads i rfl).turn h.turn_least
  have hnext : b'.next = (b.next % b.members.length + 1) % b.members.length := by
    rw [hs.next, ← hi]
    rfl
  refine ⟨hi, h.factor i (hs.leads i rfl).lt, fun k => ?_⟩
  rw [hnext, hs.length, next_turn]

/-- The others move up and keep their loads. -/
theorem Queued.load_moved (h : b.Queued f) (hs : b.Shared (some i) b') {k : Nat}
    (hk : k + 1 < b.members.length) :
    b'.loadAt ((b'.next + k) % b'.members.length) =
      b.loadAt ((b.next + (k + 1)) % b.members.length) := by
  obtain ⟨hi, -, hturn⟩ := h.picked hs
  have hother : i ≠ (b.next + (k + 1)) % b.members.length := by
    rw [hi]
    exact (turn_ne hk).symm
  rw [hturn, hs.load, if_neg (fun heq => hother (Option.some.inj heq)), add_zero]

/-- Who was picked is the last, with `f` more than it had. -/
theorem Queued.load_last (h : b.Queued f) (hs : b.Shared (some i) b') {k : Nat}
    (hk : k + 1 = b.members.length) :
    b'.loadAt ((b'.next + k) % b'.members.length) = b.loadAt (b.next % b.members.length) + f := by
  obtain ⟨hi, hfi, hturn⟩ := h.picked hs
  have hself : (b.next + (k + 1)) % b.members.length = i := by
    rw [hk, Nat.add_mod_right, hi]
  rw [hturn, hself, hs.load, if_pos rfl, hfi, hi]

/-- Whoever has its turn goes to the end of the queue. -/
theorem Queued.shared {picked? : Option Nat} (h : b.Queued f) (hb : b.Open)
    (hs : b.Shared picked? b') : b'.Queued f := by
  cases picked? with
  | none => exact h.unpicked hs
  | some i =>
    have hn : 0 < b.members.length := Nat.lt_of_le_of_lt (Nat.zero_le i) (hs.leads i rfl).lt
    have hsplit : ∀ k < b'.members.length,
        k + 1 < b.members.length ∨ k + 1 = b.members.length := by
      intro k hk
      rw [hs.length] at hk
      omega
    refine ⟨h.factor_shared hs, ?_, ?_⟩
    · intro j k hjk hk
      rcases hsplit k hk with hk' | hk'
      · rw [h.load_moved hs hk', h.load_moved hs (by omega : j + 1 < _)]
        exact h.sorted (j + 1) (k + 1) (by omega) hk'
      · rw [h.load_last hs hk']
        rcases Nat.lt_or_eq_of_le hjk with hlt | rfl
        · rw [h.load_moved hs (by omega : j + 1 < _)]
          exact h.last (j + 1) (by omega)
        · rw [h.load_last hs hk']
    · intro k hk
      have hzero : b'.loadAt (b'.next % b'.members.length) =
          b'.loadAt ((b'.next + 0) % b'.members.length) := by rw [Nat.add_zero]
      have hpos : 0 < f := (h.picked hs).2.1 ▸ hb.factorAt_pos (hs.leads i rfl).lt
      have hhead := h.turn_least ((b.next + 1) % b.members.length) (Nat.mod_lt _ hn)
      rw [hzero]
      rcases hsplit k hk with hk' | hk'
      · have htail := h.last (k + 1) hk'
        rw [h.load_moved hs hk', h.load_moved hs (by omega : 0 + 1 < _)]
        show _ ≤ b.loadAt ((b.next + 1) % b.members.length) + f
        linarith
      · rw [h.load_last hs hk']
        rcases hsplit 0 (by rw [hs.length]; exact hn) with h0 | h0
        · rw [h.load_moved hs h0]
          show _ ≤ b.loadAt ((b.next + 1) % b.members.length) + f
          linarith
        · rw [h.load_last hs h0]
          linarith

end

/-- By induction on the calls: the members take turns. -/
theorem picks_of_queued {f : ℚ} (h : b.Queued f) (hb : b.Open) (hfree : ∀ c ∈ calls, c.IsFree) :
    b.picks calls = (List.range (calls.countP Call.isSelection)).map fun t =>
      (b.next + t) % b.members.length := by
  induction calls generalizing b with
  | nil => rfl
  | cons c rest ih =>
    obtain ⟨hc, hrest⟩ := List.forall_mem_cons.1 hfree
    obtain ⟨hshared, hsome⟩ := shared_call hb hc
    have hqueued := h.shared hb hshared
    rw [picks_cons, ih hqueued hshared.stays hrest, hshared.length, hshared.next,
      List.countP_cons, ← hsome]
    cases hp : b.pickedBy? c with
    | none => rfl
    | some i =>
      rw [hp] at hshared
      obtain rfl : i = b.next % b.members.length := (hshared.leads i rfl).turn h.turn_least
      show b.next % b.members.length :: List.map _ _ = List.map _ (List.range (_ + 1))
      rw [List.range_succ_eq_map, List.map_cons, List.map_map]
      refine congrArg (b.next % b.members.length :: ·) (List.map_congr_left fun t _ => ?_)
      exact next_turn b.members.length b.next t

/-- **Members share requests out fairly.**  From where all loads are the same, each selection picks
a member with the least load, and after any number of them no member is ahead of another by more
than one of its own factors: for equal factors that is by one selection.  If all factors are equal,
the members take turns from the one where the balancer starts. -/
theorem shared_fairly {load : ℚ} (hb : b.Open) (hlevel : ∀ m ∈ b.members, m.load = load)
    (hfree : ∀ c ∈ calls, c.IsFree) :
    (∀ now tried first, (∀ i, isTried tried i = false) →
      ∃ i m, (b.after calls).members[i]? = some m ∧
        ((b.after calls).select now [] tried first).1 = .picked ⟨i, m.route⟩ ∧
        ∀ o ∈ (b.after calls).members, m.load ≤ o.load) ∧
    (∀ i j m o, b.members[i]? = some m → b.members[j]? = some o →
      (((b.picks calls).count i : ℚ) - 1) * m.factor ≤ (b.picks calls).count j * o.factor ∧
      (m.factor = o.factor → (b.picks calls).count i ≤ (b.picks calls).count j + 1)) ∧
    ((∀ m ∈ b.members, ∀ o ∈ b.members, m.factor = o.factor) →
      b.picks calls = (List.range (calls.countP Call.isSelection)).map fun t =>
        (b.next + t) % b.members.length) := by
  have hload : ∀ j < b.members.length, b.loadAt j = load := by
    intro j hj
    have hm := List.getElem?_eq_getElem hj
    rw [loadAt_eq hm]
    exact hlevel _ (List.mem_of_getElem? hm)
  obtain ⟨hopen, hlength, hat⟩ := load_after hb hfree
  refine ⟨fun now tried first ht => ?_, fun i j m o hm ho => ?_, fun hequal => ?_⟩
  · obtain ⟨i, m, hm, hleads, hpick, -⟩ := select_of_open hopen ht now first
    refine ⟨i, m, hm, hpick, fun o ho => ?_⟩
    obtain ⟨j, hj⟩ := List.mem_iff_getElem?.1 ho
    have hleast := hleads.least j (List.getElem?_eq_some_iff.1 hj).1
    rwa [loadAt_eq hm, loadAt_eq hj] at hleast
  · have hi := (List.getElem?_eq_some_iff.1 hm).1
    have hj := (List.getElem?_eq_some_iff.1 ho).1
    have heven : b.Even := by
      intro i hi j hj
      rw [hload i hi, hload j hj]
      linarith [hb.factorAt_pos hi]
    have hspread := heven.after hb hfree i (hlength ▸ hi) j (hlength ▸ hj)
    rw [(hat i).1, (hat i).2, (hat j).2, hload i hi, hload j hj, factorAt_eq hm,
      factorAt_eq ho] at hspread
    have hshares : (((b.picks calls).count i : ℚ) - 1) * m.factor ≤
        (b.picks calls).count j * o.factor := by linarith
    refine ⟨hshares, fun hequal => ?_⟩
    have hpos := hb.positive o (List.mem_of_getElem? ho)
    rw [hequal] at hshares
    have hcount := le_of_mul_le_mul_right hshares hpos
    have hcast : ((b.picks calls).count i : ℚ) ≤ ((b.picks calls).count j + 1 : Nat) := by
      push_cast
      linarith
    exact_mod_cast hcast
  · have hpos : 0 < b.members.length :=
      Nat.pos_of_ne_zero fun h => hb.members (List.length_eq_zero_iff.1 h)
    have hfactor : ∀ j < b.members.length, b.factorAt j = b.factorAt 0 := by
      intro j hj
      have hm := List.getElem?_eq_getElem hj
      have ho := List.getElem?_eq_getElem hpos
      rw [factorAt_eq hm, factorAt_eq ho]
      exact hequal _ (List.mem_of_getElem? hm) _ (List.mem_of_getElem? ho)
    refine picks_of_queued (f := b.factorAt 0) ⟨hfactor, fun j k _ _ => ?_, fun k _ => ?_⟩ hb hfree
    · rw [hload _ (Nat.mod_lt _ hpos), hload _ (Nat.mod_lt _ hpos)]
    · rw [hload _ (Nat.mod_lt _ hpos), hload _ (Nat.mod_lt _ hpos)]
      linarith [hb.factorAt_pos hpos]

end

/-- Three members that were in use, after a refresh that gives the last one half the share. -/
def refreshed : Balancer ℚ :=
  Balancer.apply
    { name := "trio", next := 4,
      members := [{ name := "a", route := "a", factor := 1, load := 7 },
        { name := "b", route := "b", factor := 1, load := 6 },
        { name := "c", route := "c", factor := 1, load := 6 }] }
    {} [{ factor := 1, route := "a" }, { factor := 1, route := "b" }, { factor := 2, route := "c" }]

/-- Six selections, with some successes in between. -/
def busyMorning : List Call := [
  .select 1 [] [] true, .select 2 [] [false, false, false] true, .succeeded 1, .select 3 [] [] false,
  .succeeded 2, .succeeded 0, .select 4 [] [] true, .select 5 [] [] true, .select 6 [] [] true]

/-- The last member gets half as much as each of the others, and less than one request more. -/
theorem shared_fairly_refreshed :
    refreshed.Open ∧ (∀ m ∈ refreshed.members, m.load = 0) ∧ (∀ c ∈ busyMorning, c.IsFree) ∧
      refreshed.picks busyMorning = [1, 2, 0, 1, 0, 1] ∧
      (((refreshed.picks busyMorning).count 1 : ℚ) - 1) * 1 ≤
        (refreshed.picks busyMorning).count 2 * 2 := by
  have hopen : refreshed.Open := ⟨by decide +kernel, by decide +kernel, by decide +kernel⟩
  have hlevel : ∀ m ∈ refreshed.members, m.load = 0 := by decide +kernel
  have hfree : ∀ c ∈ busyMorning, c.IsFree := by
    have hnone : ∀ i, isTried [] i = false := fun i => rfl
    have hfalse : ∀ i, isTried [false, false, false] i = false := by
      intro i
      rcases i with _ | _ | _ | i <;> rfl
    simp [busyMorning, Call.IsFree, hnone, hfalse]
  obtain ⟨-, hshares, -⟩ := shared_fairly hopen hlevel hfree
  exact ⟨hopen, hlevel, hfree, by decide +kernel, (hshares 1 2 _ _ rfl rfl).1⟩

end Balancer

end AjpGateway
