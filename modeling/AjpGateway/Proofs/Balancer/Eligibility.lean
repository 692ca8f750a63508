import AjpGateway.Proofs.Balancer.Selection
import AjpGateway.Proofs.Results
import AjpGateway.Worker.Target
import Mathlib.Data.List.Forall2

/-!
# Who is elected

However a balancer came to its state, whoever it elects was eligible, and has a worker.  A selection
that elects nobody changes the members as maintenance does, and no further.

    Reached b ws → b.members.length = ws.length                              (Reached.length_eq)
    Reached b ws → (what a selection of b elects was eligible)               (eligible_of_reached)
-/

namespace AjpGateway

/-! ## Refreshes keep the number of members -/

namespace Worker

variable {α : Type} [Leaf α] {p : Properties}

theorem length_refreshAll (p : Properties) (ws : List (Worker α)) :
    (refreshAll p ws).2.length = ws.length := by
  induction ws with
  | nil => rw [refreshAll]
  | cons w rest ih =>
    rw [refreshAll]
    rcases w.refresh p with ⟨r, w'⟩
    cases r with
    | error e => rfl
    | ok _ => exact congrArg Nat.succ ih

theorem length_refreshed {Load : Type} [OfNat Load 0] (ms : List (Member Load))
    (ss : List (MemberSettings Load)) : (Balancer.apply.refreshed ms ss).length = ms.length := by
  induction ms generalizing ss with
  | nil => cases ss <;> rfl
  | cons m rest ih =>
    cases ss with
    | nil => rfl
    | cons s later => exact congrArg Nat.succ (ih later)

theorem length_refresh {b b' : Balancer Float} {ws ws' : List (Worker α)}
    {r : Except ConfigError Unit} (h : (balancer b ws).refresh p = (r, balancer b' ws')) :
    b'.members.length = b.members.length ∧ ws'.length = ws.length := by
  rw [refresh] at h
  split at h
  · cases h
    exact ⟨rfl, rfl⟩
  · split at h
    · cases h
      exact ⟨rfl, rfl⟩
    · have hall := length_refreshAll p ws
      split at h
      · next hws =>
        cases h
        rw [hws] at hall
        exact ⟨rfl, hall⟩
      · next hws =>
        cases h
        rw [hws] at hall
        exact ⟨length_refreshed b.members _, hall⟩

end Worker

namespace Balancer

/-! ## The states of a balancer -/

/-- Adds a member behind the others. -/
def add {Load : Type} (b : Balancer Load) (m : Member Load) : Balancer Load :=
  { b with members := b.members ++ [m] }

/-- The states that a balancer comes to with the workers of its members: it is set up, chooses
members, learns what became of their requests, and takes over configurations or refuses them, in any
order. -/
inductive Reached {α : Type} [Leaf α] : Balancer Float → List (Worker α) → Prop
  | new (name : String) : Reached { name } []
  | add {b : Balancer Float} {ws : List (Worker α)} (h : Reached b ws) (m : Member Float)
      (w : Worker α) : Reached (b.add m) (ws ++ [w])
  | validate {b b' : Balancer Float} {ws : List (Worker α)} {p : Properties} (h : Reached b ws)
      (hb : b.validate p = .ok b') : Reached b' ws
  | init {b b' : Balancer Float} {ws : List (Worker α)} (h : Reached b ws)
      (hb : b.init = .ok b') : Reached b' ws
  | select {b : Balancer Float} {ws : List (Worker α)} (h : Reached b ws) (now : Moment)
      (routes : List String) (tried : List Bool) (first : Bool) :
      Reached (b.select now routes tried first).2 ws
  | succeeded {b : Balancer Float} {ws : List (Worker α)} (h : Reached b ws) (i : Nat) :
      Reached (b.succeeded i) ws
  | failed {b : Balancer Float} {ws : List (Worker α)} (h : Reached b ws) (i : Nat)
      (now : Moment) : Reached (b.failed i now) ws
  /-- a member's worker served a request -/
  | served {b : Balancer Float} {ws : List (Worker α)} (h : Reached b ws) (i : Nat)
      (w : Worker α) : Reached b (ws.set i w)
  /-- a configuration was taken over, or refused -/
  | refresh {b b' : Balancer Float} {ws ws' : List (Worker α)} {p : Properties}
      {r : Except ConfigError Unit} (h : Reached b ws)
      (hr : (Worker.balancer b ws).refresh p = (r, .balancer b' ws')) : Reached b' ws'

theorem members_validate {b b' : Balancer Float} {p : Properties} (h : b.validate p = .ok b') :
    b'.members = b.members := by
  unfold validate at h
  obtain ⟨settings, -, h⟩ := bind_eq_ok_iff.1 h
  obtain ⟨phase, -, h⟩ := bind_eq_ok_iff.1 h
  cases h
  rfl

theorem members_init {b b' : Balancer Float} (h : b.init = .ok b') : b'.members = b.members := by
  unfold init at h
  split at h
  · cases h
  · obtain ⟨phase, -, h⟩ := bind_eq_ok_iff.1 h
    cases h
    rfl

/-- By induction on what the balancer went through: every member has a worker. -/
theorem Reached.length_eq {α : Type} [Leaf α] {b : Balancer Float} {ws : List (Worker α)}
    (h : Reached b ws) : b.members.length = ws.length := by
  induction h with
  | new name => rfl
  | add _ m w ih =>
    show (_ ++ [m]).length = _
    rw [List.length_append, List.length_append, ih]
    rfl
  | validate _ hb ih => rw [members_validate hb, ih]
  | init _ hb ih => rw [members_init hb, ih]
  | select _ now routes tried first ih =>
    rw [length_eq_of_setup (setup_select _ now routes tried first), ih]
  | succeeded _ i ih => rw [length_eq_of_setup (setup_succeeded _ i), ih]
  | failed _ i now ih => rw [length_eq_of_setup (setup_failed _ i now), ih]
  | served _ i w ih => rw [List.length_set, ih]
  | refresh _ hr ih =>
    obtain ⟨hmembers, hworkers⟩ := Worker.length_refresh hr
    rw [hmembers, hworkers, ih]

/-! ## Elections -/

theorem relaxed_maintain {Load : Type} [OfNat Load 0] [Max Load] (b : Balancer Load)
    (now : Moment) :
    List.Forall₂ (Member.Relaxed now b.settings.recoverWindow) b.members
      (b.maintain now).members := by
  obtain ⟨relax, hrelax, hmembers⟩ := exists_relax b now
  rw [hmembers, List.forall₂_map_right_iff]
  exact List.forall₂_same.2 fun m _ => hrelax m

/-- **Who is elected.**  In every state that a balancer comes to, the member that a selection elects
has a worker, was eligible, and is in error no more; its elections grow by one and no other's do.
A selection that elects nobody only puts back members whose rest is over. -/
theorem eligible_of_reached {α : Type} [Leaf α] {b : Balancer Float} {ws : List (Worker α)}
    (h : Reached b ws) (now : Moment) (routes : List String) (tried : List Bool) (first : Bool) :
    (∀ p, (b.select now routes tried first).1 = .picked p →
      p.index < ws.length ∧ ∃ m, Eligible b now routes tried p.index m ∧
        Elected b p.index m.route (b.select now routes tried first)) ∧
    ((∀ p, (b.select now routes tried first).1 ≠ .picked p) →
      (b.select now routes tried first).2 = b.maintain now ∧
        List.Forall₂ (Member.Relaxed now b.settings.recoverWindow) b.members
          (b.select now routes tried first).2.members) := by
  constructor
  · intro p hp
    obtain ⟨m, heligible, helected⟩ := exists_eligible_of_picked hp
    have hlt := heligible.lt
    rw [h.length_eq] at hlt
    exact ⟨hlt, m, heligible, helected⟩
  · intro hnone
    have hselected := selected_select b now routes tried first
    generalize b.select now routes tried first = x at hselected hnone
    cases hselected with
    | picked _ helected => exact absurd helected.pick (hnone _)
    | refused _ _ _ => exact ⟨rfl, relaxed_maintain b now⟩
    | exhausted _ => exact ⟨rfl, relaxed_maintain b now⟩

/-- A member in use. -/
def active : Member Float := { name := "a", route := "a", factor := 1, load := 0 }

/-- A member for its own sessions only. -/
def spare : Member Float := { name := "b", route := "b", factor := 1, load := 0, disabled := true }

/-- A balancer whose standby failed at the fifth nanosecond. -/
def standby : Balancer Float := ((Balancer.add { name := "pair" } active).add spare).failed 1 5

/-- The standby is elected for a session of its own, once its rest is over. -/
theorem eligible_of_reached_standby :
    ∃ ws : List (Worker Target), Reached standby ws ∧ 1 < ws.length ∧
      ∃ m, Eligible standby (Duration.ofSeconds 100) ["x", "b"] [] 1 m ∧
        Elected standby 1 m.route (standby.select (Duration.ofSeconds 100) ["x", "b"] [] true) := by
  have hreached : Reached standby
      [Worker.leaf (Target.monitor { name := "a" }), .leaf (.monitor { name := "b" })] :=
    (((Reached.new "pair").add active _).add spare _).failed 1 5
  have hpick : (standby.select (Duration.ofSeconds 100) ["x", "b"] [] true).1 =
      .picked ⟨1, "b"⟩ := by
    decide +kernel
  obtain ⟨helected, -⟩ := eligible_of_reached hreached (Duration.ofSeconds 100) ["x", "b"] [] true
  exact ⟨_, hreached, helected ⟨1, "b"⟩ hpick⟩

end Balancer

end AjpGateway
