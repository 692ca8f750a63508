import AjpGateway.Proofs.Balancer.Loads
import AjpGateway.Proofs.Balancer.Resting
import AjpGateway.Proofs.Balancer.Sessions
import AjpGateway.Proofs.Worker.Building

/-!
# The load of a member that is put back

A member that is put back by maintenance or by the last stage of a selection bears as much as any
member did, so that it is not flooded.  One that is put back for a request of its sessions bears
what it bore when it failed, which may be the least of all.

    b.InUse ws → every load and every factor is proper                        (InUse.weighed)
    b.InUse ws → (what a member that is put back bears)                       (load_of_recovered)
-/

namespace AjpGateway

open Load (IsLoad)
open Duration (ofSeconds)

variable {Load : Type}

/-! ## Changes of members -/

/-- Each member became one that `R` relates it to. -/
def Becomes (R : Member Load → Member Load → Prop) (ms ms' : List (Member Load)) : Prop :=
  ∀ (i : Nat) (m : Member Load), ms[i]? = some m → ∃ m', ms'[i]? = some m' ∧ R m m'

section
variable {R : Member Load → Member Load → Prop} {ms : List (Member Load)}

theorem becomes_map {f : Member Load → Member Load} (hf : ∀ m ∈ ms, R m (f m)) :
    Becomes R ms (ms.map f) := by
  intro i m hm
  exact ⟨f m, by rw [List.getElem?_map, hm, Option.map_some], hf m (List.mem_of_getElem? hm)⟩

theorem becomes_modify {i : Nat} {f : Member Load → Member Load} (hrefl : ∀ m ∈ ms, R m m)
    (hf : ∀ m, ms[i]? = some m → R m (f m)) : Becomes R ms (ms.modify i f) := by
  intro j m hm
  refine ⟨if i = j then f m else m, by rw [List.getElem?_modify, hm]; rfl, ?_⟩
  split
  · next hij => exact hf m (hij ▸ hm)
  · exact hrefl m (List.mem_of_getElem? hm)

end

namespace Member

/-- The load of the member and its factor are proper. -/
structure Weighed (m : Member Float) : Prop where
  factor : IsLoad m.factor
  load : IsLoad m.load

/-- What a member becomes where no load shrinks: if it is put back, it bears as much as any of `os`
does. -/
structure Borne (os : List (Member Float)) (m m' : Member Float) : Prop where
  weighed : m'.Weighed
  grown : m.load ≤ m'.load
  back : m.inError = true → m'.inError = false → ∀ o ∈ os, o.load ≤ m'.load

variable {os : List (Member Float)} {m m' : Member Float}

/-- A member whose rest goes on as it was, and whose load does not shrink. -/
theorem borne_of_inError (hw : m'.Weighed) (hgrown : m.load ≤ m'.load)
    (herror : m'.inError = m.inError) : m.Borne os m' := by
  refine ⟨hw, hgrown, fun hin hout => ?_⟩
  rw [herror, hin] at hout
  cases hout

theorem Weighed.borne (h : m.Weighed) : m.Borne os m :=
  borne_of_inError h h.load.le_refl rfl

theorem Weighed.recover (h : m.Weighed) {load : Float} (hload : IsLoad load) :
    (m.recover load).Weighed := ⟨h.factor, hload⟩

/-- A member that is put back with a load no less than any. -/
theorem Weighed.borne_recover (h : m.Weighed) (hm : m ∈ os) {load : Float} (hload : IsLoad load)
    (htop : ∀ o ∈ os, o.load ≤ load) : m.Borne os (m.recover load) :=
  ⟨h.recover hload, htop m hm, fun _ _ => htop⟩

theorem Borne.elect (h : m.Borne os m') : m.Borne os m'.elect :=
  ⟨⟨h.weighed.factor, h.weighed.load⟩, h.grown, h.back⟩

end Member

namespace Balancer

variable {b : Balancer Float} {now : Moment} {routes : List String} {tried : List Bool}
  {first : Bool} {i : Nat} {m m' : Member Float} {x : Choice × Balancer Float}

/-- Every load and every factor is proper. -/
def Weighed (b : Balancer Float) : Prop := ∀ m ∈ b.members, m.Weighed

/-- No load shrinks, and a member that is put back bears as much as any did. -/
def Bears (ms ms' : List (Member Float)) : Prop := Becomes (Member.Borne ms) ms ms'

theorem Bears.trans {ms ms' ms'' : List (Member Float)} (hms : ∀ m ∈ ms, m.Weighed)
    (h : Bears ms ms') (h' : Bears ms' ms'') : Bears ms ms'' := by
  intro i m hm
  have hload := (hms m (List.mem_of_getElem? hm)).load
  obtain ⟨m', hm', hborne⟩ := h i m hm
  obtain ⟨m'', hm'', hborne'⟩ := h' i m' hm'
  have hload' := hborne.weighed.load
  have hload'' := hborne'.weighed.load
  refine ⟨m'', hm'', hborne'.weighed,
    hload.le_trans hload' hload'' hborne.grown hborne'.grown, fun hin hout o ho => ?_⟩
  have holoads := (hms o ho).load
  cases herror : m'.inError with
  | false => exact holoads.le_trans hload' hload'' (hborne.back hin herror o ho) hborne'.grown
  | true =>
    obtain ⟨j, hj⟩ := List.mem_iff_getElem?.1 ho
    obtain ⟨o', ho', hgrown⟩ := h j o hj
    exact holoads.le_trans hgrown.weighed.load hload'' hgrown.grown
      (hborne'.back herror hout o' (List.mem_of_getElem? ho'))

theorem Bears.weighed {ms ms' : List (Member Float)} (h : Bears ms ms')
    (hlength : ms'.length = ms.length) : ∀ m' ∈ ms', m'.Weighed := by
  intro m' hm'
  obtain ⟨i, hi⟩ := List.mem_iff_getElem?.1 hm'
  have hlt : i < ms.length := hlength ▸ (List.getElem?_eq_some_iff.1 hi).1
  obtain ⟨m'', hm'', hborne⟩ := h i ms[i] (List.getElem?_eq_getElem hlt)
  rw [hi] at hm''
  cases hm''
  exact hborne.weighed

/-! ## The greatest load -/

theorem greatestLoad_bounds (h : b.Weighed) :
    IsLoad b.greatestLoad ∧ ∀ m ∈ b.members, m.load ≤ b.greatestLoad := by
  have hfold : ∀ (ms : List (Member Float)) (top : Float), (∀ m ∈ ms, m.Weighed) → IsLoad top →
      IsLoad (ms.foldl (fun top m => max top m.load) top) ∧
        top ≤ ms.foldl (fun top m => max top m.load) top ∧
        ∀ m ∈ ms, m.load ≤ ms.foldl (fun top m => max top m.load) top := by
    intro ms
    induction ms with
    | nil => exact fun top _ htop => ⟨htop, htop.le_refl, List.forall_mem_nil _⟩
    | cons m rest ih =>
      intro top hms htop
      obtain ⟨hm, hrest⟩ := List.forall_mem_cons.1 hms
      obtain ⟨hmax, hle, hmle⟩ := htop.max hm.load
      obtain ⟨hload, hgreater, hall⟩ := ih (max top m.load) hrest hmax
      refine ⟨hload, htop.le_trans hmax hload hle hgreater, List.forall_mem_cons.2 ⟨?_, hall⟩⟩
      exact hm.load.le_trans hmax hload hmle hgreater
  obtain ⟨hload, -, hall⟩ := hfold b.members 0 h Load.isLoad_zero
  exact ⟨hload, hall⟩

/-! ## Stages -/

theorem bears_refl (h : b.Weighed) : Bears b.members b.members :=
  fun _ m hm => ⟨m, hm, (h m (List.mem_of_getElem? hm)).borne⟩

theorem bears_maintain (h : b.Weighed) (now : Moment) :
    Bears b.members (b.maintain now).members := by
  unfold maintain
  split
  · exact bears_refl h
  · obtain ⟨htop, hall⟩ := greatestLoad_bounds h
    refine becomes_map fun m hm => ?_
    split
    · exact (h m hm).borne_recover hm htop hall
    · exact (h m hm).borne

/-- A stage changes one member, and elects it. -/
theorem bears_elect_modify {f : Member Float → Member Float} (h : b.Weighed)
    (hf : ∀ m, b.members[i]? = some m → m.Borne b.members (f m)) :
    Bears b.members ((b.modify i f).elect i).2.members := by
  show Bears b.members ((b.members.modify i f).modify i Member.elect)
  rw [List.modify_modify_eq]
  exact becomes_modify (fun m hm => (h m hm).borne) fun m hm => (hf m hm).elect

theorem bears_elect (h : b.Weighed) (i : Nat) : Bears b.members (b.elect i).2.members :=
  becomes_modify (fun m hm => (h m hm).borne)
    fun m hm => (h m (List.mem_of_getElem? hm)).borne.elect

theorem chooseSession_of_reactivates (h : b.reactivates now tried first i m = true) :
    b.chooseSession now tried first i m =
      some ((b.modify i fun m => m.recover m.load).elect i) := by
  unfold reactivates at h
  simp only [Bool.and_eq_true, Bool.not_eq_true'] at h
  obtain ⟨⟨⟨⟨htried, hstopped⟩, hin⟩, hfirst⟩, hdue⟩ := h
  simp [chooseSession, htried, hstopped, hin, hfirst, hdue]

/-- Otherwise the session's stage leaves every rest and every load as they are. -/
theorem chooseSession_of_not_reactivates (hback : ¬ b.reactivates now tried first i m = true)
    (h : b.chooseSession now tried first i m = some x) :
    (∃ j, x = b.elect j) ∨ x = (.refused, b) := by
  unfold chooseSession at h
  dsimp only at h
  split at h
  · next hfree =>
    cases h
    refine .inl ⟨i, ?_⟩
    rw [if_neg]
    intro hdue
    simp only [Bool.and_eq_true] at hfree hdue
    exact hback (by simp [reactivates, hfree.1.1, hfree.1.2, hdue])
  · split at h
    · cases h
      exact .inl ⟨_, rfl⟩
    · split at h
      · cases h
        exact .inr rfl
      · cases h

theorem bears_chooseBalanced (h : b.Weighed) (hx : b.chooseBalanced tried = some x) :
    Bears b.members x.2.members := by
  obtain ⟨⟨i, load⟩, -, rfl⟩ := Option.map_eq_some_iff.1 hx
  -- where the next choice starts does not count
  refine bears_elect_modify (b := { b with next := (i + 1) % b.members.length }) h fun m hm => ?_
  have hw := h m (List.mem_of_getElem? hm)
  obtain ⟨hload, hgrown⟩ := hw.load.add hw.factor
  exact Member.borne_of_inError ⟨hw.factor, hload⟩ hgrown rfl

theorem bears_chooseResting (h : b.Weighed) (hx : b.chooseResting now tried = some x) :
    Bears b.members x.2.members := by
  obtain ⟨⟨i, time⟩, -, rfl⟩ := Option.map_eq_some_iff.1 hx
  refine bears_elect_modify h fun m hm => ?_
  have hmem := List.mem_of_getElem? hm
  obtain ⟨htop, hall⟩ := greatestLoad_bounds h
  obtain ⟨hload, hgrown⟩ := htop.add (h m hmem).factor
  exact (h m hmem).borne_recover hmem hload fun o ho =>
    (h o ho).load.le_trans htop hload (hall o ho) hgrown

/-! ## Selections -/

/-- Whether a selection puts back member `i` for a request of its sessions. -/
structure Resumes (b : Balancer Float) (now : Moment) (routes : List String) (tried : List Bool)
    (first : Bool) (i : Nat) (m : Member Float) : Prop where
  early : elapsed now b.maintained < b.settings.maintainInterval
  sticky : b.settings.sticky = true
  known : b.sessionMember? routes = some i
  back : b.reactivates now tried first i m = true

theorem maintain_of_early (h : elapsed now b.maintained < b.settings.maintainInterval) :
    b.maintain now = b := if_pos h

theorem Resumes.select_eq (h : b.Resumes now routes tried first i m) (hm : b.members[i]? = some m) :
    b.select now routes tried first = (b.modify i fun m => m.recover m.load).elect i := by
  have hmaintain := maintain_of_early h.early
  rw [select_of_sessionMember? tried first h.sticky h.known (by rw [hmaintain, hm]), hmaintain]
  rw [chooseSession_of_reactivates h.back]
  rfl

/-- Once maintenance is done, nobody is left whose rest is over. -/
theorem not_due_of_maintain (h : ¬ elapsed now b.maintained < b.settings.maintainInterval)
    (hm : (b.maintain now).members[i]? = some m) :
    m.recoveryDue now b.settings.recoverWindow = false := by
  unfold maintain at hm
  rw [if_neg h] at hm
  rw [List.getElem?_map] at hm
  obtain ⟨m₀, -, rfl⟩ := Option.map_eq_some_iff.1 hm
  split
  · rfl
  · next hrests => exact Bool.eq_false_iff.2 hrests

theorem bears_or_resumes (h : b.Weighed) (now : Moment) (routes : List String) (tried : List Bool)
    (first : Bool) :
    Bears b.members (b.select now routes tried first).2.members ∨
      ∃ i m, b.members[i]? = some m ∧ b.Resumes now routes tried first i m := by
  have hmaintain := bears_maintain h now
  have hweighed : (b.maintain now).Weighed :=
    hmaintain.weighed (length_eq_of_setup (setup_maintain b now))
  have hstaged := staged_select b now routes tried first
  generalize b.select now routes tried first = x at hstaged
  cases hstaged with
  | @session i m x sticky known member chosen =>
    by_cases hback : (b.maintain now).reactivates now tried first i m = true
    · right
      by_cases hearly : elapsed now b.maintained < b.settings.maintainInterval
      · rw [maintain_of_early hearly] at sticky known member hback
        exact ⟨i, m, member, hearly, sticky, known, hback⟩
      · have hnot := not_due_of_maintain hearly member
        unfold reactivates at hback
        rw [settings_maintain, hnot, Bool.and_false] at hback
        cases hback
    · left
      refine hmaintain.trans h ?_
      rcases chooseSession_of_not_reactivates hback chosen with ⟨j, rfl⟩ | rfl
      · exact bears_elect hweighed j
      · exact bears_refl hweighed
  | balanced chosen => exact .inl (hmaintain.trans h (bears_chooseBalanced hweighed chosen))
  | resting chosen => exact .inl (hmaintain.trans h (bears_chooseResting hweighed chosen))
  | exhausted _ _ => exact .inl hmaintain

/-! ## The states of a balancer -/

theorem Weighed.modify (h : b.Weighed) {f : Member Float → Member Float}
    (hf : ∀ m, m.Weighed → (f m).Weighed) : (b.modify i f).Weighed := by
  intro m' hm'
  obtain ⟨j, hj⟩ := List.mem_iff_getElem?.1 hm'
  obtain ⟨m, hm, rfl⟩ := exists_of_getElem?_modify hj
  have hw := h m (List.mem_of_getElem? hm)
  split
  · exact hf m hw
  · exact hw

theorem Weighed.select (h : b.Weighed) (now : Moment) (routes : List String) (tried : List Bool)
    (first : Bool) : (b.select now routes tried first).2.Weighed := by
  rcases bears_or_resumes h now routes tried first with hbears | ⟨i, m, hm, hresumes⟩
  · exact hbears.weighed (length_eq_of_setup (setup_select b now routes tried first))
  · rw [hresumes.select_eq hm]
    have hback : (b.modify i fun m => m.recover m.load).Weighed :=
      h.modify fun m hm => hm.recover hm.load
    exact hback.modify fun m hm => ⟨hm.factor, hm.load⟩

/-- A factor that can be read is proper. -/
theorem isLoad_factor_of_read {p : Properties} {name : String} {s : MemberSettings Float}
    (h : MemberSettings.read p name = .ok s) : IsLoad s.factor := by
  unfold MemberSettings.read at h
  obtain ⟨factor, -, h⟩ := bind_eq_ok_iff.1 h
  by_cases hfactor : (factor.isFinite && factor > 0.0) = true
  · rw [if_pos hfactor] at h
    obtain ⟨disabled, -, h⟩ := bind_eq_ok_iff.1 h
    obtain ⟨stopped, -, h⟩ := bind_eq_ok_iff.1 h
    cases h
    rw [Bool.and_eq_true, decide_eq_true_eq] at hfactor
    exact Load.isLoad_of_pos hfactor.2
  · rw [if_neg hfactor] at h
    cases h

theorem weighed_of_balance {α : Type} {p : Properties} {name : String}
    {make : String → Except ConfigError (Worker α)} {ws : List (Worker α)}
    (h : Worker.balance p name make = .ok (.balancer b ws)) : b.Weighed := by
  obtain ⟨settings, members, -, hmembers, hb⟩ := Worker.balance_eq_ok_iff.1 h
  cases hb
  intro m hm
  obtain ⟨x, hx, rfl⟩ := List.mem_map.1 hm
  obtain ⟨member, -, s, hs, -, hrecord⟩ := exists_of_forall₂_right hmembers hx
  rw [hrecord]
  exact ⟨isLoad_factor_of_read hs, Load.isLoad_zero⟩

theorem weighed_refreshed {ms : List (Member Float)} {ss : List (MemberSettings Float)}
    (hms : ∀ m ∈ ms, m.Weighed) (hss : ∀ s ∈ ss, IsLoad s.factor) :
    ∀ m ∈ apply.refreshed ms ss, m.Weighed := by
  induction ms generalizing ss with
  | nil => cases ss <;> exact List.forall_mem_nil _
  | cons m rest ih =>
    cases ss with
    | nil => exact hms
    | cons s later =>
      obtain ⟨-, hrest⟩ := List.forall_mem_cons.1 hms
      obtain ⟨hs, hlater⟩ := List.forall_mem_cons.1 hss
      exact List.forall_mem_cons.2 ⟨⟨hs, Load.isLoad_zero⟩, ih hrest hlater⟩

theorem Weighed.refresh {α : Type} [Leaf α] {b' : Balancer Float} {ws ws' : List (Worker α)}
    {p : Properties} {r : Except ConfigError Unit} (h : b.Weighed)
    (hr : (Worker.balancer b ws).refresh p = (r, .balancer b' ws')) : b'.Weighed := by
  rw [Worker.refresh] at hr
  split at hr
  · cases hr
    exact h
  · next settings updated hread =>
    split at hr
    · cases hr
      exact h
    · split at hr
      · cases hr
        exact h
      · cases hr
        refine weighed_refreshed h fun s hs => ?_
        obtain ⟨name, -, hname⟩ := exists_of_forall₂_right (readSettings_eq_ok_iff.1 hread).2 hs
        exact isLoad_factor_of_read hname

/-- The states that a balancer comes to with the workers of its members: it is built, chooses
members, learns what became of their requests, takes over configurations or refuses them, and is
destroyed, in any order once it was built. -/
inductive InUse {α : Type} [Leaf α] : Balancer Float → List (Worker α) → Prop
  | built {p : Properties} {name : String} {make : String → Except ConfigError (Worker α)}
      {b : Balancer Float} {ws : List (Worker α)}
      (h : Worker.balance p name make = .ok (.balancer b ws)) : InUse b ws
  | select {b : Balancer Float} {ws : List (Worker α)} (h : InUse b ws) (now : Moment)
      (routes : List String) (tried : List Bool) (first : Bool) :
      InUse (b.select now routes tried first).2 ws
  | succeeded {b : Balancer Float} {ws : List (Worker α)} (h : InUse b ws) (i : Nat) :
      InUse (b.succeeded i) ws
  | failed {b : Balancer Float} {ws : List (Worker α)} (h : InUse b ws) (i : Nat)
      (now : Moment) : InUse (b.failed i now) ws
  /-- the workers of members served requests, or learned of all workers -/
  | served {b : Balancer Float} {ws ws' : List (Worker α)} (h : InUse b ws) : InUse b ws'
  /-- a configuration was taken over, or refused -/
  | refresh {b b' : Balancer Float} {ws ws' : List (Worker α)} {p : Properties}
      {r : Except ConfigError Unit} (h : InUse b ws)
      (hr : (Worker.balancer b ws).refresh p = (r, .balancer b' ws')) : InUse b' ws'
  | destroyed {b : Balancer Float} {ws : List (Worker α)} (h : InUse b ws) :
      InUse { b with phase := .destroyed } (Worker.destroyAll ws)

/-- By induction on what the balancer went through. -/
theorem InUse.weighed {α : Type} [Leaf α] {ws : List (Worker α)} (h : InUse b ws) :
    b.Weighed := by
  induction h with
  | built hb => exact weighed_of_balance hb
  | select _ now routes tried first ih => exact ih.select now routes tried first
  | succeeded _ i ih => exact ih.modify fun m hm => ⟨hm.factor, hm.load⟩
  | failed _ i now ih => exact ih.modify fun m hm => ⟨hm.factor, hm.load⟩
  | served _ ih => exact ih
  | refresh _ hr ih => exact ih.refresh hr
  | destroyed _ ih => exact ih

/-- **What a member bears that a selection puts back.**  If it is put back for a request of its
sessions while maintenance is not due, its load is what it was when it failed.  Otherwise, its load
is no less than any member's before the selection. -/
theorem load_of_recovered {α : Type} [Leaf α] {ws : List (Worker α)} (h : b.InUse ws)
    (now : Moment) (routes : List String) (tried : List Bool) (first : Bool)
    (hm : b.members[i]? = some m)
    (hm' : (b.select now routes tried first).2.members[i]? = some m')
    (herror : m.inError = true) (hback : m'.inError = false) :
    (b.Resumes now routes tried first i m → m'.load = m.load) ∧
      (¬ b.Resumes now routes tried first i m → ∀ o ∈ b.members, o.load ≤ m'.load) := by
  have hresumed : ∀ {j : Nat} {m₀ : Member Float}, b.members[j]? = some m₀ →
      b.Resumes now routes tried first j m₀ → j = i ∧ m'.load = m.load := by
    intro j m₀ hm₀ hresumes
    rw [hresumes.select_eq hm₀] at hm'
    change ((b.members.modify j fun m => m.recover m.load).modify j Member.elect)[i]? = _ at hm'
    rw [List.modify_modify_eq] at hm'
    obtain ⟨m₁, hm₁, rfl⟩ := exists_of_getElem?_modify hm'
    rw [hm] at hm₁
    cases hm₁
    by_cases hij : j = i
    · rw [if_pos hij]
      exact ⟨hij, rfl⟩
    · rw [if_neg hij, herror] at hback
      cases hback
  constructor
  · exact fun hresumes => (hresumed hm hresumes).2
  · intro hnot
    rcases bears_or_resumes h.weighed now routes tried first with hbears | ⟨j, m₀, hm₀, hresumes⟩
    · obtain ⟨m'', hm'', hborne⟩ := hbears i m hm
      rw [hm'] at hm''
      cases hm''
      exact hborne.back herror hback
    · obtain ⟨rfl, -⟩ := hresumed hm₀ hresumes
      rw [hm] at hm₀
      cases hm₀
      exact absurd hresumes hnot

/-- Two members that rest for ten seconds, looked after once an hour. -/
def hourly : Properties := ⟨[
  ("worker.pair.balance_workers", "a, b"), ("worker.pair.recover_time", "10"),
  ("worker.pair.maintain", "3600")]⟩

/-- What is built of them. -/
def pair : Balancer Float where
  name := "pair"
  phase := .initialized
  settings := { members := ["a", "b"], recoverTime := 10, maintainTime := 3600 }
  members := [{ name := "a", route := "a", factor := 1.0, load := 0 },
    { name := "b", route := "b", factor := 1.0, load := 0 }]

/-- A report in the place of a member's worker. -/
def report (name : String) : Worker Target := .leaf (.monitor { name })

theorem balance_hourly :
    Worker.balance hourly "pair" (fun name => .ok (report name)) =
      .ok (.balancer pair [report "a", report "b"]) := by
  have hread : ∀ name, name = "a" ∨ name = "b" →
      MemberSettings.read hourly name = .ok { factor := 1.0, route := name } := by
    rintro name (rfl | rfl) <;> rfl
  have hsettings : BalancerSettings.read hourly "pair" =
      .ok { members := ["a", "b"], recoverTime := 10, maintainTime := 3600 } := by
    decide +kernel
  exact Worker.balance_eq_ok_iff.2 ⟨_, [(_, report "a"), (_, report "b")], hsettings,
    .cons ⟨_, hread "a" (.inl rfl), rfl, rfl⟩ (.cons ⟨_, hread "b" (.inr rfl), rfl, rfl⟩ .nil), rfl⟩

/-- The first member served a request and the second failed. -/
def unequal : Balancer Float := (pair.select 0 [] [] true).2.failed 1 0

/-- The second is put back for its session with the load that it had, less than the first has. -/
theorem load_of_recovered_unequal :
    ∃ (ws : List (Worker Target)) (m m' : Member Float), unequal.InUse ws ∧
      unequal.members[1]? = some m ∧ unequal.Resumes (ofSeconds 10) ["b"] [] true 1 m ∧
      (unequal.select (ofSeconds 10) ["b"] [] true).2.members[1]? = some m' ∧
      m.inError = true ∧ m'.inError = false ∧ m'.load = m.load ∧
      ∃ o ∈ unequal.members, m'.load < o.load := by
  have huse : unequal.InUse [report "a", report "b"] :=
    ((InUse.built balance_hourly).select 0 [] [] true).failed 1 0
  have hresumes : unequal.Resumes (ofSeconds 10) ["b"] [] true 1 unequal.members[1] :=
    ⟨by decide +kernel, rfl, by decide +kernel, by decide +kernel⟩
  have hm : unequal.members[1]? = some unequal.members[1] := rfl
  have hm' : (unequal.select (ofSeconds 10) ["b"] [] true).2.members[1]? =
      some (unequal.select (ofSeconds 10) ["b"] [] true).2.members[1] := rfl
  have herror : unequal.members[1].inError = true := by decide +kernel
  have hback : (unequal.select (ofSeconds 10) ["b"] [] true).2.members[1].inError = false := by
    decide +kernel
  have hload := (load_of_recovered huse (ofSeconds 10) ["b"] [] true hm hm' herror hback).1 hresumes
  refine ⟨_, _, _, huse, hm, hresumes, hm', herror, hback, hload, unequal.members[0],
    List.getElem_mem _, ?_⟩
  decide +kernel

end Balancer

end AjpGateway
