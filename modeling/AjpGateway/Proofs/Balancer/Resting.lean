import AjpGateway.Proofs.Balancer.Selection

/-!
# How long a member rests

A member that failed is out until its window is over.  Three stages of a selection put members back,
maintenance, the one for sessions and the last one, and each asks for the same window; nothing else
does but a success of the member itself.  Whatever becomes of the other members, and whoever asks
for what, the member is not picked before.

    Passes now b.settings.recoverWindow b.members (b.select now routes tried first).2.members
                                                                                 (passes_select)
    since ≤ now, elapsed now since < window → ((b.failed i since).after calls).select now … does
      not pick i, where none of the calls marks a success of i              (unpicked_while_resting)
-/

namespace AjpGateway

variable {Load : Type}

/-! ## What a selection makes of each member -/

namespace Member

/-- Whether the member is in error, whether it recovers, and since when. -/
def rest (m : Member Load) : Bool × Bool × Option Moment := (m.inError, m.recovering, m.errorTime?)

/-- What a selection makes of a member: its rest goes on, or is over and ends. -/
inductive Passed (now : Moment) (window : Duration) (m m' : Member Load) : Prop
  | kept (h : m'.rest = m.rest)
  | back (due : m.recoveryDue now window = true) (h : m'.rest = (false, true, none))

variable {now : Moment} {window : Duration} {m m' m'' : Member Load}

theorem recoveryDue_of_rest (h : m'.rest = m.rest) :
    m'.recoveryDue now window = m.recoveryDue now window := by
  simp only [rest, Prod.mk.injEq] at h
  rw [recoveryDue, recoveryDue, h.1, h.2.2]

theorem Passed.trans (h : m.Passed now window m') (h' : m'.Passed now window m'') :
    m.Passed now window m'' := by
  cases h' with
  | kept hrest =>
    cases h with
    | kept hm => exact .kept (hrest.trans hm)
    | back hdue hm => exact .back hdue (hrest.trans hm)
  | back hdue hrest =>
    cases h with
    | kept hm => exact .back (recoveryDue_of_rest hm ▸ hdue) hrest
    | back hdue' _ => exact .back hdue' hrest

theorem Relaxed.passed (h : m.Relaxed now window m') : m.Passed now window m' := by
  cases h with
  | kept => exact .kept rfl
  | back hdue load => exact .back hdue rfl

end Member

namespace Balancer

/-- Each member is one that was there, but for what a selection makes of it. -/
def Passes (now : Moment) (window : Duration) (ms ms' : List (Member Load)) : Prop :=
  ∀ (i : Nat) (m' : Member Load), ms'[i]? = some m' →
    ∃ m, ms[i]? = some m ∧ m.Passed now window m'

section
variable {now : Moment} {window : Duration} {ms ms' ms'' : List (Member Load)}

theorem Passes.refl (ms : List (Member Load)) : Passes now window ms ms :=
  fun _ m hm => ⟨m, hm, .kept rfl⟩

theorem Passes.trans (h : Passes now window ms ms') (h' : Passes now window ms' ms'') :
    Passes now window ms ms'' := by
  intro i m'' hm''
  obtain ⟨m', hm', hpassed'⟩ := h' i m'' hm''
  obtain ⟨m, hm, hpassed⟩ := h i m' hm'
  exact ⟨m, hm, hpassed.trans hpassed'⟩

theorem exists_of_getElem?_modify {i j : Nat} {f : Member Load → Member Load} {m' : Member Load}
    (h : (ms.modify i f)[j]? = some m') :
    ∃ m, ms[j]? = some m ∧ m' = if i = j then f m else m := by
  rw [List.getElem?_modify] at h
  obtain ⟨m, hm, rfl⟩ := Option.map_eq_some_iff.1 h
  exact ⟨m, hm, rfl⟩

theorem passes_modify {i : Nat} {f : Member Load → Member Load}
    (hf : ∀ m, ms[i]? = some m → m.Passed now window (f m)) :
    Passes now window ms (ms.modify i f) := by
  intro j m' hm'
  obtain ⟨m, hm, rfl⟩ := exists_of_getElem?_modify hm'
  refine ⟨m, hm, ?_⟩
  by_cases hij : i = j
  · rw [if_pos hij]
    exact hf m (hij ▸ hm)
  · rw [if_neg hij]
    exact .kept rfl

end

section
variable {b : Balancer Load} {now : Moment} {window : Duration} {tried : List Bool}
  {x : Choice × Balancer Load}

theorem passes_maintain [OfNat Load 0] [Max Load] (b : Balancer Load) (now : Moment) :
    Passes now b.settings.recoverWindow b.members (b.maintain now).members := by
  intro i m' hm'
  obtain ⟨m, hm, hrelaxed⟩ := exists_of_getElem?_maintain hm'
  exact ⟨m, hm, hrelaxed.passed⟩

theorem passes_elect (b : Balancer Load) (i : Nat) :
    Passes now window b.members (b.elect i).2.members :=
  passes_modify fun _ _ => .kept rfl

/-- A stage changes one member, and elects it. -/
theorem passes_elect_modify {i : Nat} {f : Member Load → Member Load}
    (hf : ∀ m, b.members[i]? = some m → m.Passed now window (f m)) :
    Passes now window b.members ((b.modify i f).elect i).2.members := by
  have hmodify : Passes now window b.members (b.modify i f).members := passes_modify hf
  exact hmodify.trans (passes_elect _ i)

theorem passes_chooseSession {first : Bool} {i : Nat} {m : Member Load}
    (hm : b.members[i]? = some m) (h : b.chooseSession now tried first i m = some x) :
    Passes now b.settings.recoverWindow b.members x.2.members := by
  unfold chooseSession at h
  dsimp only at h
  split at h
  · cases h
    split
    · next hback =>
      simp only [Bool.and_eq_true] at hback
      refine passes_elect_modify fun m' hm' => ?_
      rw [hm] at hm'
      cases hm'
      exact .back hback.2 rfl
    · exact passes_elect b i
  · split at h
    · cases h
      exact passes_elect b _
    · split at h
      · cases h
        exact Passes.refl _
      · cases h

theorem passes_chooseBalanced [Add Load] [LT Load] [DecidableLT Load]
    (h : b.chooseBalanced tried = some x) : Passes now window b.members x.2.members := by
  obtain ⟨⟨i, load⟩, -, rfl⟩ := Option.map_eq_some_iff.1 h
  -- where the next choice starts does not count
  exact passes_elect_modify (b := { b with next := (i + 1) % b.members.length })
    fun _ _ => .kept rfl

theorem passes_chooseResting [OfNat Load 0] [Add Load] [Max Load]
    (h : b.chooseResting now tried = some x) :
    Passes now b.settings.recoverWindow b.members x.2.members := by
  obtain ⟨⟨i, time⟩, hi, rfl⟩ := Option.map_eq_some_iff.1 h
  obtain ⟨j, m, hm, hij, -, -, -, hdue⟩ := mayReturn_of_longestResting? hi
  rw [Nat.zero_add] at hij
  subst hij
  refine passes_elect_modify fun m' hm' => ?_
  rw [hm] at hm'
  cases hm'
  exact .back hdue rfl

variable [OfNat Load 0] [Add Load] [Max Load] [LT Load] [DecidableLT Load]

/-- **A selection ends no rest before its window is over.** -/
theorem passes_select (b : Balancer Load) (now : Moment) (routes : List String)
    (tried : List Bool) (first : Bool) :
    Passes now b.settings.recoverWindow b.members (b.select now routes tried first).2.members := by
  have hstaged := staged_select b now routes tried first
  generalize b.select now routes tried first = x at hstaged
  refine (passes_maintain b now).trans ?_
  rw [← settings_maintain b now]
  cases hstaged with
  | session _ _ hm chosen => exact passes_chooseSession hm chosen
  | balanced chosen => exact passes_chooseBalanced chosen
  | resting chosen => exact passes_chooseResting chosen
  | exhausted _ _ => exact Passes.refl _

end

/-! ## Calls in any order -/

/-- A call on a balancer. -/
inductive Call where
  | select (now : Moment) (routes : List String) (tried : List Bool) (first : Bool)
  | succeeded (i : Nat)
  | failed (i : Nat) (now : Moment)
deriving DecidableEq

/-- The moment of a call that goes by the time. -/
def Call.moment? : Call → Option Moment
  | select now .. => some now
  | succeeded _ => none
  | failed _ now => some now

section
variable [OfNat Load 0] [Add Load] [Max Load] [LT Load] [DecidableLT Load]

def call (b : Balancer Load) : Call → Balancer Load
  | .select now routes tried first => (b.select now routes tried first).2
  | .succeeded i => b.succeeded i
  | .failed i now => b.failed i now

/-- The balancer after calls, each on what the one before it left. -/
def after (b : Balancer Load) (calls : List Call) : Balancer Load := calls.foldl call b

@[simp] theorem setup_call (b : Balancer Load) (c : Call) : (b.call c).setup = b.setup := by
  cases c with
  | select now routes tried first => exact setup_select b now routes tried first
  | succeeded i => exact setup_succeeded b i
  | failed i now => exact setup_failed b i now

end

/-- Member `i`, if there is one, is in error, and failed at `since` or later. -/
def RestsSince (b : Balancer Load) (i : Nat) (since : Moment) : Prop :=
  ∀ m, b.members[i]? = some m → m.inError = true ∧ ∃ t, m.errorTime? = some t ∧ since ≤ t

section
variable {b : Balancer Load} {i j : Nat} {since now : Moment}

theorem restsSince_failed (b : Balancer Load) (i : Nat) (h : since ≤ now) :
    (b.failed i now).RestsSince i since := by
  intro m hm
  obtain ⟨m₀, -, rfl⟩ := exists_of_getElem?_modify hm
  rw [if_pos rfl]
  exact ⟨rfl, now, rfl, h⟩

theorem RestsSince.modify (h : b.RestsSince i since) (hij : j ≠ i)
    (f : Member Load → Member Load) : (b.modify j f).RestsSince i since := by
  intro m' hm'
  obtain ⟨m, hm, rfl⟩ := exists_of_getElem?_modify hm'
  rw [if_neg hij]
  exact h m hm

/-- Within the window the rest of the member is not over. -/
theorem RestsSince.not_due (h : b.RestsSince i since) {m : Member Load}
    (hm : b.members[i]? = some m) {window : Duration} (hw : elapsed now since < window) :
    m.recoveryDue now window = false := by
  obtain ⟨herror, t, ht, hle⟩ := h m hm
  have hshort : ¬ window ≤ elapsed now t :=
    Nat.not_le.2 (Nat.lt_of_le_of_lt (Nat.sub_le_sub_left hle now) hw)
  simp [Member.recoveryDue, herror, ht, hshort]

variable [OfNat Load 0] [Add Load] [Max Load] [LT Load] [DecidableLT Load]

theorem RestsSince.select (h : b.RestsSince i since)
    (hw : elapsed now since < b.settings.recoverWindow) (routes : List String)
    (tried : List Bool) (first : Bool) :
    (b.select now routes tried first).2.RestsSince i since := by
  intro m' hm'
  obtain ⟨m, hm, hpassed⟩ := passes_select b now routes tried first i m' hm'
  cases hpassed with
  | kept hrest =>
    simp only [Member.rest, Prod.mk.injEq] at hrest
    rw [hrest.1, hrest.2.2]
    exact h m hm
  | back hdue _ =>
    rw [h.not_due hm hw] at hdue
    cases hdue

/-- One call. -/
theorem RestsSince.call (h : b.RestsSince i since) {c : Call} (hc : c ≠ .succeeded i)
    (htime : ∀ t ∈ c.moment?, since ≤ t ∧ elapsed t since < b.settings.recoverWindow) :
    (b.call c).RestsSince i since := by
  cases c with
  | select now routes tried first => exact h.select (htime now rfl).2 routes tried first
  | succeeded j =>
    have hij : j ≠ i := fun hj => hc (congrArg Call.succeeded hj)
    exact h.modify hij _
  | failed j now =>
    by_cases hij : j = i
    · subst hij
      exact restsSince_failed b j (htime now rfl).1
    · exact h.modify hij _

/-- By induction on the calls. -/
theorem RestsSince.after {calls : List Call} (h : b.RestsSince i since)
    (hnone : Call.succeeded i ∉ calls)
    (htimes : ∀ c ∈ calls, ∀ t ∈ c.moment?,
      since ≤ t ∧ elapsed t since < b.settings.recoverWindow) :
    (b.after calls).RestsSince i since ∧ (b.after calls).setup = b.setup := by
  induction calls generalizing b with
  | nil => exact ⟨h, rfl⟩
  | cons c rest ih =>
    have hsetup := setup_call b c
    have hsettings : (b.call c).settings = b.settings := congrArg Setup.settings hsetup
    have hc : c ≠ .succeeded i := fun h => hnone (h ▸ List.mem_cons_self)
    have hrest : Call.succeeded i ∉ rest := fun h => hnone (List.mem_cons_of_mem _ h)
    obtain ⟨htime, htimes⟩ := List.forall_mem_cons.1 htimes
    obtain ⟨hafter, hsame⟩ := ih (h.call hc htime) hrest (by rwa [hsettings])
    exact ⟨hafter, hsame.trans hsetup⟩

/-- **A failed member stays out for its whole window**, whatever the balancer was like when it
failed, and whatever is asked of the balancer since, unless the member serves a request. -/
theorem unpicked_while_resting {calls : List Call} (hnone : Call.succeeded i ∉ calls)
    (htimes : ∀ c ∈ calls, ∀ t ∈ c.moment?, since ≤ t ∧ t ≤ now)
    (hwindow : elapsed now since < b.settings.recoverWindow) (routes : List String)
    (tried : List Bool) (first : Bool) :
    ∀ p, (((b.failed i since).after calls).select now routes tried first).1 = .picked p →
      p.index ≠ i := by
  have hfailed : (b.failed i since).settings = b.settings :=
    congrArg Setup.settings (setup_failed b i since)
  have hshort : ∀ c ∈ calls, ∀ t ∈ c.moment?,
      since ≤ t ∧ elapsed t since < (b.failed i since).settings.recoverWindow := by
    intro c hc t ht
    obtain ⟨hlow, hhigh⟩ := htimes c hc t ht
    rw [hfailed]
    exact ⟨hlow, Nat.lt_of_le_of_lt (Nat.sub_le_sub_right hhigh since) hwindow⟩
  obtain ⟨hrests, hsetup⟩ := (restsSince_failed b i (Nat.le_refl since)).after hnone hshort
  rintro p hp rfl
  obtain ⟨m, heligible, -⟩ := exists_eligible_of_picked hp
  obtain ⟨herror, -⟩ := hrests m heligible.member
  have hdue := heligible.rested herror
  have hsettings : ((b.failed p.index since).after calls).settings = b.settings :=
    (congrArg Setup.settings hsetup).trans hfailed
  rw [hsettings, hrests.not_due heligible.member hwindow] at hdue
  cases hdue

end

open Duration (ofSeconds)

/-- Two members. -/
def duo : Balancer Nat where
  name := "duo"
  members := [{ name := "a", route := "a", factor := 1, load := 0 },
    { name := "b", route := "b", factor := 1, load := 0 }]

/-- The first member fails; a request of its sessions goes to the second, which fails and then
serves a request. -/
def roughMinute : List Call := [
  .select (ofSeconds 6) ["a"] [] true, .failed 1 (ofSeconds 7),
  .select (ofSeconds 30) [] [] true, .succeeded 1]

/-- Maintenance is due in the last second of the window, and leaves the member where it is. -/
theorem unpicked_in_roughMinute :
    ((((duo.failed 0 (ofSeconds 5)).after roughMinute).select (ofSeconds 64) ["a"] []
      true).1 = .picked ⟨1, "b"⟩) ∧
    ∀ p, (((duo.failed 0 (ofSeconds 5)).after roughMinute).select (ofSeconds 64) ["a"] []
      true).1 = .picked p → p.index ≠ 0 :=
  ⟨by decide +kernel, unpicked_while_resting (by decide) (by decide) (by decide) ["a"] [] true⟩

end Balancer

end AjpGateway
