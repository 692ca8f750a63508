import AjpGateway.Proofs.Balancer.Setup

/-!
# What a selection does

A selection puts back the members whose rest is over, if maintenance is due, and then tries its
stages in turn: the member of the sessions or the one it redirects to, the usable member with the
least load, and the failed member that has rested longest.  Whatever the stage, a member that is
elected was eligible, and no stage finds one only if every member that may be asked is still at
rest.

    i ∈ b.rotation ↔ i < b.members.length                                   (mem_rotation_iff)
    Selected b now routes tried (b.select now routes tried first)           (selected_select)
-/

namespace AjpGateway

variable {Load : Type}

/-! ## Maintenance -/

/-- What maintenance makes of a member: the same, or one that is put back since its rest is over. -/
inductive Member.Relaxed (now : Moment) (window : Duration) (m : Member Load) : Member Load → Prop
  | kept : Relaxed now window m m
  | back (h : m.recoveryDue now window = true) (load : Load) : Relaxed now window m (m.recover load)

theorem Member.Relaxed.fixed {now : Moment} {window : Duration} {m m' : Member Load}
    (h : m.Relaxed now window m') :
    m'.settings = m.settings ∧ m'.elected = m.elected ∧ m'.errors = m.errors := by
  cases h with
  | kept => exact ⟨rfl, rfl, rfl⟩
  | back _ load => exact ⟨rfl, rfl, rfl⟩

theorem Member.Relaxed.route_eq {now : Moment} {window : Duration} {m m' : Member Load}
    (h : m.Relaxed now window m') : m'.route = m.route :=
  congrArg MemberSettings.route h.fixed.1

namespace Balancer

variable {b : Balancer Load} {now : Moment} {routes : List String} {tried : List Bool} {i : Nat}

section
variable [OfNat Load 0] [Max Load]

@[simp] theorem settings_maintain (b : Balancer Load) (now : Moment) :
    (b.maintain now).settings = b.settings :=
  congrArg Setup.settings (setup_maintain b now)

/-- Maintenance goes over the members one by one. -/
theorem exists_relax (b : Balancer Load) (now : Moment) :
    ∃ relax : Member Load → Member Load,
      (∀ m : Member Load, m.Relaxed now b.settings.recoverWindow (relax m)) ∧
      (b.maintain now).members = b.members.map relax := by
  unfold maintain
  split
  · exact ⟨id, fun _ => .kept, (List.map_id _).symm⟩
  · refine ⟨_, fun m => ?_, rfl⟩
    split
    · next h => exact .back h _
    · exact .kept

theorem map_maintain {β : Type} {f : Member Load → β}
    (hf : ∀ m m', m.Relaxed now b.settings.recoverWindow m' → f m' = f m) :
    (b.maintain now).members.map f = b.members.map f := by
  obtain ⟨relax, hrelax, hmembers⟩ := exists_relax b now
  rw [hmembers, List.map_map]
  exact List.map_congr_left fun m _ => hf m (relax m) (hrelax m)

@[simp] theorem sessionMember?_maintain (b : Balancer Load) (now : Moment) (routes : List String) :
    (b.maintain now).sessionMember? routes = b.sessionMember? routes := by
  obtain ⟨relax, hrelax, hmembers⟩ := exists_relax b now
  unfold sessionMember?
  refine congrArg (List.findSome? · routes) (funext fun route => ?_)
  have hroute : (fun m : Member Load => m.route == route) ∘ relax = fun m => m.route == route := by
    funext m
    rw [Function.comp_apply, (hrelax m).route_eq]
  rw [hmembers, List.findIdx?_map, hroute]

theorem getElem?_maintain (now : Moment) {m : Member Load} (h : b.members[i]? = some m) :
    ∃ m', (b.maintain now).members[i]? = some m' ∧ m.Relaxed now b.settings.recoverWindow m' := by
  obtain ⟨relax, hrelax, hmembers⟩ := exists_relax b now
  exact ⟨relax m, by rw [hmembers, List.getElem?_map, h, Option.map_some], hrelax m⟩

theorem exists_of_getElem?_maintain {m' : Member Load}
    (h : (b.maintain now).members[i]? = some m') :
    ∃ m, b.members[i]? = some m ∧ m.Relaxed now b.settings.recoverWindow m' := by
  obtain ⟨relax, hrelax, hmembers⟩ := exists_relax b now
  rw [hmembers, List.getElem?_map] at h
  obtain ⟨m, hm, rfl⟩ := Option.map_eq_some_iff.1 h
  exact ⟨m, hm, hrelax m⟩

end

/-! ## Eligible members, and what electing one does -/

/-- Member `i` may take the request: it was not asked yet, it is not stopped, it is disabled only if
the sessions are its own, and it is in error only if its rest is over. -/
structure Eligible (b : Balancer Load) (now : Moment) (routes : List String) (tried : List Bool)
    (i : Nat) (m : Member Load) : Prop where
  member : b.members[i]? = some m
  untried : isTried tried i = false
  running : m.stopped = false
  enabled : m.disabled = true → b.settings.sticky = true ∧ b.sessionMember? routes = some i
  rested : m.inError = true → m.recoveryDue now b.settings.recoverWindow = true

/-- Member `i` is elected: it is no longer in error, and its elections are the only count that
grows. -/
structure Elected (b : Balancer Load) (i : Nat) (route : String) (x : Choice × Balancer Load) :
    Prop where
  pick : x.1 = .picked ⟨i, route⟩
  sound : ∃ m', x.2.members[i]? = some m' ∧ m'.inError = false
  elections : x.2.members.map Member.elected = (b.members.map Member.elected).modify i (· + 1)
  errors : x.2.members.map Member.errors = b.members.map Member.errors

theorem Eligible.lt {m : Member Load} (h : Eligible b now routes tried i m) :
    i < b.members.length :=
  (List.getElem?_eq_some_iff.1 h.member).1

/-- What is eligible after maintenance was eligible before. -/
theorem Eligible.of_maintain [OfNat Load 0] [Max Load] {m' : Member Load}
    (h : Eligible (b.maintain now) now routes tried i m') :
    ∃ m, Eligible b now routes tried i m ∧ m'.route = m.route := by
  obtain ⟨m, hm, hrelaxed⟩ := exists_of_getElem?_maintain h.member
  have hsettings := hrelaxed.fixed.1
  have hdisabled : m'.disabled = m.disabled := congrArg MemberSettings.disabled hsettings
  have hstopped : m'.stopped = m.stopped := congrArg MemberSettings.stopped hsettings
  have henabled := h.enabled
  have hrested := h.rested
  rw [settings_maintain, sessionMember?_maintain, hdisabled] at henabled
  rw [settings_maintain] at hrested
  refine ⟨m, ⟨hm, h.untried, hstopped ▸ h.running, henabled, ?_⟩, hrelaxed.route_eq⟩
  cases hrelaxed with
  | kept => exact hrested
  | back hdue _ => exact fun _ => hdue

theorem Elected.of_maintain [OfNat Load 0] [Max Load] {route : String} {x : Choice × Balancer Load}
    (h : Elected (b.maintain now) i route x) : Elected b i route x where
  pick := h.pick
  sound := h.sound
  elections := by
    rw [h.elections, map_maintain]
    exact fun _ _ hr => hr.fixed.2.1
  errors := by
    rw [h.errors, map_maintain]
    exact fun _ _ hr => hr.fixed.2.2

/-- A stage changes one member, which keeps its route and its counts, and elects it. -/
theorem elected_elect {f : Member Load → Member Load} {m : Member Load}
    (hf : ∀ m, (f m).route = m.route ∧ (f m).elected = m.elected ∧ (f m).errors = m.errors)
    (hm : b.members[i]? = some m) (hsound : (f m).inError = false) :
    Elected b i m.route ((b.modify i f).elect i) := by
  have hi : (b.modify i f).members[i]? = some (f m) := by simp [modify, hm]
  have helected : ∀ m : Member Load, (f m).elected = id m.elected := fun m => (hf m).2.1
  have herrors : ∀ m : Member Load, (f m).errors = id m.errors := fun m => (hf m).2.2
  have hcounted : ∀ m : Member Load, m.elect.elected = m.elected + 1 := fun _ => rfl
  have hkept : ∀ m : Member Load, m.elect.errors = id m.errors := fun _ => rfl
  refine ⟨?_, ⟨(f m).elect, ?_, hsound⟩, ?_, ?_⟩
  · rw [elect, hi]
    exact congrArg (fun route => Choice.picked ⟨i, route⟩) (hf m).1
  · show ((b.members.modify i f).modify i Member.elect)[i]? = some (f m).elect
    simp [hm]
  · show ((b.members.modify i f).modify i Member.elect).map Member.elected = _
    rw [map_modify hcounted, map_modify helected, List.modify_id]
  · show ((b.members.modify i f).modify i Member.elect).map Member.errors = _
    rw [map_modify hkept, map_modify herrors, List.modify_id, List.modify_id]

/-- Electing a member that needs no change. -/
theorem elected_elect_self {m : Member Load} (hm : b.members[i]? = some m)
    (hsound : m.inError = false) : Elected b i m.route (b.elect i) := by
  have hid : b.modify i id = b := by
    rw [modify, List.modify_id]
  have h := elected_elect (f := id) (fun _ => ⟨rfl, rfl, rfl⟩) hm hsound
  rwa [hid] at h

/-! ## The stages -/

/-- A stage elects an eligible member. -/
def Elects (b : Balancer Load) (now : Moment) (routes : List String) (tried : List Bool)
    (x : Choice × Balancer Load) : Prop :=
  ∃ i m, Eligible b now routes tried i m ∧ Elected b i m.route x

theorem usable_iff {m : Member Load} :
    m.usable = true ↔ m.inError = false ∧ m.disabled = false ∧ m.stopped = false := by
  simp [Member.usable, and_assoc]

theorem eligible_of_usable {m : Member Load} (hm : b.members[i]? = some m)
    (ht : isTried tried i = false) (hu : m.usable = true) : Eligible b now routes tried i m := by
  obtain ⟨herror, hdisabled, hstopped⟩ := usable_iff.1 hu
  refine ⟨hm, ht, hstopped, fun h => ?_, fun h => ?_⟩
  · rw [hdisabled] at h
    cases h
  · rw [herror] at h
    cases h

/-- The session's stage elects a member, or refuses where sessions are forced. -/
theorem elects_of_chooseSession {first : Bool} {m : Member Load} {x : Choice × Balancer Load}
    (hsticky : b.settings.sticky = true) (hi : b.sessionMember? routes = some i)
    (hm : b.members[i]? = some m) (h : b.chooseSession now tried first i m = some x) :
    Elects b now routes tried x ∨ b.settings.forceSticky = true ∧ x = (.refused, b) := by
  unfold chooseSession at h
  dsimp only at h
  split at h
  · next hfree =>
    left
    simp only [Bool.and_eq_true, Bool.or_eq_true, Bool.not_eq_true'] at hfree
    obtain ⟨⟨ht, hstopped⟩, herror⟩ := hfree
    cases h
    refine ⟨i, m, ⟨hm, ht, hstopped, fun _ => ⟨hsticky, hi⟩, fun hin => ?_⟩, ?_⟩
    · rcases herror with hout | ⟨-, hdue⟩
      · rw [hin] at hout
        cases hout
      · exact hdue
    · split
      · exact elected_elect (fun _ => ⟨rfl, rfl, rfl⟩) hm rfl
      · next hkept =>
        refine elected_elect_self hm ?_
        rcases herror with hout | ⟨⟨hin, hfirst⟩, hdue⟩
        · exact hout
        · exact absurd (by rw [hin, hfirst, hdue]; rfl) hkept
  · split at h
    · next j hj =>
      left
      cases h
      obtain ⟨-, hfree⟩ := Option.filter_eq_some_iff.1 hj
      obtain ⟨ht, hany⟩ := Bool.and_eq_true_iff.1 hfree
      obtain ⟨m', hm', hu⟩ := (Option.any_eq_true _ _).1 hany
      have ht : isTried tried j = false := by simpa using ht
      exact ⟨j, m', eligible_of_usable hm' ht hu, elected_elect_self hm' (usable_iff.1 hu).1⟩
    · split at h
      · next hforce =>
        right
        cases h
        exact ⟨hforce, rfl⟩
      · cases h

/-- Wherever the rotation starts, it comes to every place. -/
theorem mem_rotation_iff : i ∈ b.rotation ↔ i < b.members.length := by
  unfold rotation
  rw [List.mem_map]
  constructor
  · rintro ⟨k, hk, rfl⟩
    rw [List.mem_range] at hk
    exact Nat.mod_lt _ (by omega)
  · intro hi
    refine ⟨(i + (b.members.length - b.next % b.members.length)) % b.members.length, ?_, ?_⟩
    · exact List.mem_range.2 (Nat.mod_lt _ (by omega))
    · have hlt := Nat.mod_lt b.next (show 0 < b.members.length by omega)
      have hsplit := Nat.div_add_mod b.next b.members.length
      have hround : b.next + (i + (b.members.length - b.next % b.members.length)) =
          i + b.members.length + b.members.length * (b.next / b.members.length) := by omega
      rw [Nat.add_mod_mod, hround, Nat.add_mul_mod_self_left, Nat.add_mod_right,
        Nat.mod_eq_of_lt hi]

section
variable [LT Load] [DecidableLT Load]

theorem mem_of_leastLoaded {l : List Nat} {load : Load} (h : b.leastLoaded l = some (i, load)) :
    i ∈ l := by
  induction l generalizing i load with
  | nil => cases h
  | cons j rest ih =>
    unfold leastLoaded at h
    split at h
    · exact List.mem_cons_of_mem _ (ih h)
    · split at h
      · cases h
        exact List.mem_cons_self
      · next hrest =>
        split at h
        · cases h
          exact List.mem_cons_of_mem _ (ih hrest)
        · cases h
          exact List.mem_cons_self

theorem getElem?_of_leastLoaded_eq_none {l : List Nat} (h : b.leastLoaded l = none) :
    ∀ i ∈ l, b.members[i]? = none := by
  induction l with
  | nil => exact List.forall_mem_nil _
  | cons j rest ih =>
    unfold leastLoaded at h
    split at h
    · next hj => exact List.forall_mem_cons.2 ⟨hj, ih h⟩
    · split at h
      · cases h
      · split at h <;> cases h

variable [Add Load]

theorem elects_of_chooseBalanced {x : Choice × Balancer Load}
    (h : b.chooseBalanced tried = some x) : Elects b now routes tried x := by
  obtain ⟨⟨i, load⟩, hi, rfl⟩ := Option.map_eq_some_iff.1 h
  obtain ⟨-, hfree⟩ := List.mem_filter.1 (mem_of_leastLoaded hi)
  obtain ⟨ht, hany⟩ := Bool.and_eq_true_iff.1 hfree
  obtain ⟨m, hm, hu⟩ := (Option.any_eq_true _ _).1 hany
  have ht : isTried tried i = false := by simpa using ht
  have helected := elected_elect (b := { b with next := (i + 1) % b.members.length })
    (f := fun m => { m with load := m.load + m.factor }) (fun _ => ⟨rfl, rfl, rfl⟩) hm
    (usable_iff.1 hu).1
  -- where the next choice starts does not count
  exact ⟨i, m, eligible_of_usable hm ht hu,
    ⟨helected.pick, helected.sound, helected.elections, helected.errors⟩⟩

theorem not_usable_of_chooseBalanced_eq_none (h : b.chooseBalanced tried = none)
    {m : Member Load} (hm : b.members[i]? = some m) (ht : isTried tried i = false) :
    m.usable = false := by
  cases hu : m.usable with
  | false => rfl
  | true =>
    have hi : i < b.members.length := (List.getElem?_eq_some_iff.1 hm).1
    have hmem : i ∈ b.rotation.filter fun i =>
        !isTried tried i && b.members[i]?.any Member.usable := by
      rw [List.mem_filter, mem_rotation_iff, ht, hm]
      exact ⟨hi, hu⟩
    have hnone := getElem?_of_leastLoaded_eq_none (Option.map_eq_none_iff.1 h) i hmem
    rw [hm] at hnone
    cases hnone

end

/-- Whether the last stage may take a member at a place. -/
def mayReturn (now : Moment) (window : Duration) (tried : List Bool) (i : Nat) (m : Member Load) :
    Prop :=
  isTried tried i = false ∧ m.disabled = false ∧ m.stopped = false ∧
    m.recoveryDue now window = true

theorem mayReturn_of_longestResting? {window : Duration} {ms : List (Member Load)} {k : Nat}
    {time : Option Moment} (h : longestResting? now window tried k ms = some (i, time)) :
    ∃ j m, ms[j]? = some m ∧ i = k + j ∧ mayReturn now window tried i m := by
  induction ms generalizing k i time with
  | nil => cases h
  | cons m rest ih =>
    have hlater : ∀ {i time}, longestResting? now window tried (k + 1) rest = some (i, time) →
        ∃ j m', (m :: rest)[j]? = some m' ∧ i = k + j ∧ mayReturn now window tried i m' := by
      intro i time hrest
      obtain ⟨j, m', hm', hi, hmay⟩ := ih hrest
      exact ⟨j + 1, m', hm', by omega, hmay⟩
    unfold longestResting? at h
    dsimp only at h
    split at h
    · next hfree =>
      simp only [Bool.and_eq_true, Bool.not_eq_true'] at hfree
      obtain ⟨⟨⟨ht, hd⟩, hs⟩, hdue⟩ := hfree
      have hhere : ∃ j m', (m :: rest)[j]? = some m' ∧ k = k + j ∧
          mayReturn now window tried k m' := ⟨0, m, rfl, rfl, ht, hd, hs, hdue⟩
      split at h
      · cases h
        exact hhere
      · next hrest =>
        split at h
        · cases h
          exact hlater hrest
        · cases h
          exact hhere
    · exact hlater h

theorem not_mayReturn_of_longestResting?_eq_none {window : Duration} {ms : List (Member Load)}
    {k : Nat} (h : longestResting? now window tried k ms = none) {j : Nat} {m : Member Load}
    (hm : ms[j]? = some m) : ¬ mayReturn now window tried (k + j) m := by
  induction ms generalizing k j with
  | nil => cases hm
  | cons m₀ rest ih =>
    unfold longestResting? at h
    dsimp only at h
    split at h
    · split at h
      · cases h
      · split at h <;> cases h
    · next hbusy =>
      cases j with
      | zero =>
        cases hm
        rintro ⟨ht, hd, hs, hdue⟩
        rw [Nat.add_zero] at ht
        exact hbusy (by rw [ht, hd, hs, hdue]; rfl)
      | succ j =>
        have hrest := ih h (j := j) hm
        rwa [show k + 1 + j = k + (j + 1) by omega] at hrest

section
variable [OfNat Load 0] [Add Load] [Max Load]

theorem elects_of_chooseResting {x : Choice × Balancer Load}
    (h : b.chooseResting now tried = some x) : Elects b now routes tried x := by
  obtain ⟨⟨i, time⟩, hi, rfl⟩ := Option.map_eq_some_iff.1 h
  obtain ⟨j, m, hm, hij, ht, hdisabled, hstopped, hdue⟩ := mayReturn_of_longestResting? hi
  rw [show j = i by omega] at hm
  refine ⟨i, m, ⟨hm, ht, hstopped, fun hd => ?_, fun _ => hdue⟩,
    elected_elect (fun _ => ⟨rfl, rfl, rfl⟩) hm rfl⟩
  rw [hdisabled] at hd
  cases hd

theorem not_mayReturn_of_chooseResting_eq_none (h : b.chooseResting now tried = none)
    {m : Member Load} (hm : b.members[i]? = some m) :
    ¬ mayReturn now b.settings.recoverWindow tried i m := by
  have hnot := not_mayReturn_of_longestResting?_eq_none (Option.map_eq_none_iff.1 h) hm
  rwa [Nat.zero_add] at hnot

end

/-! ## The whole selection -/

/-- A member that no stage elects, though it may be asked, is in error and still at rest. -/
def AtRest (b : Balancer Load) (now : Moment) (tried : List Bool) : Prop :=
  ∀ i m, b.members[i]? = some m → isTried tried i = false → m.disabled = false →
    m.stopped = false → m.inError = true ∧ m.recoveryDue now b.settings.recoverWindow = false

variable [OfNat Load 0] [Max Load]

/-- Everything that a selection can do. -/
inductive Selected (b : Balancer Load) (now : Moment) (routes : List String) (tried : List Bool) :
    Choice × Balancer Load → Prop
  | picked {i : Nat} {m : Member Load} {x : Choice × Balancer Load}
      (eligible : Eligible b now routes tried i m) (elected : Elected b i m.route x) :
      Selected b now routes tried x
  /-- the session's member cannot take the request, and no other may -/
  | refused (sticky : b.settings.sticky = true) (known : (b.sessionMember? routes).isSome = true)
      (force : b.settings.forceSticky = true) :
      Selected b now routes tried (.refused, b.maintain now)
  | exhausted (atRest : AtRest b now tried) :
      Selected b now routes tried (.exhausted, b.maintain now)

theorem selected_of_elects {x : Choice × Balancer Load}
    (h : Elects (b.maintain now) now routes tried x) : Selected b now routes tried x := by
  obtain ⟨i, m', heligible, helected⟩ := h
  obtain ⟨m, hm, hroute⟩ := heligible.of_maintain
  exact .picked hm (hroute ▸ helected.of_maintain)

variable [Add Load] [LT Load] [DecidableLT Load]

/-- What maintenance did not put back, and neither of the last stages elects, is at rest. -/
theorem atRest_of_none (hbalanced : (b.maintain now).chooseBalanced tried = none)
    (hresting : (b.maintain now).chooseResting now tried = none) : AtRest b now tried := by
  intro i m hm ht hdisabled hstopped
  obtain ⟨m', hm', hrelaxed⟩ := getElem?_maintain now hm
  have hunusable := not_usable_of_chooseBalanced_eq_none hbalanced hm' ht
  have hnot := not_mayReturn_of_chooseResting_eq_none hresting hm'
  rw [settings_maintain] at hnot
  cases hrelaxed with
  | kept =>
    have herror : m.inError = true := by
      simpa [Member.usable, hdisabled, hstopped] using hunusable
    cases hdue : m.recoveryDue now b.settings.recoverWindow with
    | false => exact ⟨herror, rfl⟩
    | true => exact absurd ⟨ht, hdisabled, hstopped, hdue⟩ hnot
  | back hdue load =>
    -- a member that was put back is usable
    have husable : (m.recover load).usable = true := usable_iff.2 ⟨rfl, hdisabled, hstopped⟩
    rw [husable] at hunusable
    cases hunusable

/-- **A selection** elects an eligible member, refuses a forced session, or finds every member at
rest that may be asked. -/
theorem selected_select (b : Balancer Load) (now : Moment) (routes : List String)
    (tried : List Bool) (first : Bool) :
    Selected b now routes tried (b.select now routes tried first) := by
  have hstaged := staged_select b now routes tried first
  generalize b.select now routes tried first = x at hstaged ⊢
  cases hstaged with
  | session hsticky hi hm hx =>
    rcases elects_of_chooseSession hsticky hi hm hx with h | ⟨hforce, rfl⟩
    · exact selected_of_elects h
    · rw [settings_maintain] at hsticky hforce
      rw [sessionMember?_maintain] at hi
      exact .refused hsticky (by rw [hi]; rfl) hforce
  | balanced hb => exact selected_of_elects (elects_of_chooseBalanced hb)
  | resting hr => exact selected_of_elects (elects_of_chooseResting hr)
  | exhausted hb hr => exact .exhausted (atRest_of_none hb hr)

/-- Whoever is picked was eligible. -/
theorem exists_eligible_of_picked {first : Bool} {p : Pick}
    (h : (b.select now routes tried first).1 = .picked p) :
    ∃ m, Eligible b now routes tried p.index m ∧
      Elected b p.index m.route (b.select now routes tried first) := by
  have hselected := selected_select b now routes tried first
  generalize b.select now routes tried first = x at hselected h
  cases hselected with
  | picked heligible helected =>
    have hpick := helected.pick
    rw [h] at hpick
    cases hpick
    exact ⟨_, heligible, helected⟩
  | refused _ _ _ => cases h
  | exhausted _ => cases h

/-- Where sessions are not forced, a selection that picks nobody finds every member at rest that may
be asked. -/
theorem exhausted_of_unpicked {first : Bool} (hforce : b.settings.forceSticky = false)
    (h : ∀ p, (b.select now routes tried first).1 ≠ .picked p) :
    (b.select now routes tried first).1 = .exhausted ∧ AtRest b now tried := by
  have hselected := selected_select b now routes tried first
  generalize b.select now routes tried first = x at hselected h
  cases hselected with
  | picked _ helected => exact absurd helected.pick (h _)
  | refused _ _ hforced =>
    rw [hforce] at hforced
    cases hforced
  | exhausted hrest => exact ⟨rfl, hrest⟩

theorem errors_select (b : Balancer Load) (now : Moment) (routes : List String)
    (tried : List Bool) (first : Bool) :
    (b.select now routes tried first).2.members.map Member.errors =
      b.members.map Member.errors := by
  have hselected := selected_select b now routes tried first
  generalize b.select now routes tried first = x at hselected
  cases hselected with
  | picked _ helected => exact helected.errors
  | refused _ _ _ => exact map_maintain fun _ _ hr => hr.fixed.2.2
  | exhausted _ => exact map_maintain fun _ _ hr => hr.fixed.2.2

end Balancer

end AjpGateway
