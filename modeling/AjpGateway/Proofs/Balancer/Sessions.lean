import AjpGateway.Proofs.Balancer.Selection

/-!
# Sessions of a request

A request may carry several sessions.  Only the first one that is known counts: its member is
elected if it can take the request, and otherwise the request is refused or balanced, though a later
session may have a member that could take it.

    b.firstServable? tried routes = some i → ∃ j, b.sessionMember? routes = some j ∧
      (j = i ∨ b.servable tried j = false)                                (firstServable?_cases)
    what a selection does with the sessions of a request                  (first_session_counts)
-/

namespace AjpGateway.Balancer

variable {Load : Type} {b : Balancer Load} {now : Moment} {routes : List String}
  {tried : List Bool} {first : Bool} {i j : Nat} {m : Member Load}

/-! ## Members that can take a request of their sessions -/

/-- Whether a member can take a request of its sessions as it is. -/
def servable (b : Balancer Load) (tried : List Bool) (i : Nat) : Bool :=
  !isTried tried i && b.members[i]?.any fun m => !m.stopped && !m.inError

/-- The member of the first route whose member can take the request. -/
def firstServable? (b : Balancer Load) (tried : List Bool) (routes : List String) : Option Nat :=
  routes.findSome? fun route => (b.members.findIdx? (·.route == route)).filter (b.servable tried)

theorem servable_eq_false_iff (hm : b.members[i]? = some m) :
    b.servable tried i = false ↔
      isTried tried i = true ∨ m.stopped = true ∨ m.inError = true := by
  rw [servable, hm, Option.any_some]
  cases isTried tried i <;> cases m.stopped <;> cases m.inError <;> simp

theorem servable_of_firstServable? (h : b.firstServable? tried routes = some i) :
    b.servable tried i = true := by
  obtain ⟨route, -, hroute⟩ := List.exists_of_findSome?_eq_some h
  exact (Option.filter_eq_some_iff.1 hroute).2

/-- Where some route has a member that can take the request, the first known route is that one, or
its member cannot. -/
theorem firstServable?_cases (h : b.firstServable? tried routes = some i) :
    ∃ j, b.sessionMember? routes = some j ∧ (j = i ∨ b.servable tried j = false) := by
  induction routes with
  | nil => cases h
  | cons route rest ih =>
    unfold firstServable? at h
    rw [List.findSome?_cons] at h
    unfold sessionMember?
    rw [List.findSome?_cons]
    cases hj : b.members.findIdx? (·.route == route) with
    | none =>
      rw [hj] at h
      exact ih h
    | some j =>
      refine ⟨j, rfl, ?_⟩
      cases hs : b.servable tried j with
      | false => exact .inr rfl
      | true =>
        rw [hj, Option.filter_some_pos hs] at h
        exact .inl (Option.some.inj h)

theorem lt_of_sessionMember? (h : b.sessionMember? routes = some j) : j < b.members.length := by
  obtain ⟨route, -, hroute⟩ := List.exists_of_findSome?_eq_some h
  exact (List.findIdx?_eq_some_iff_findIdx_eq.1 hroute).1

/-! ## The session's stage without redirects -/

/-- Whether a failed member is put back for a request of its sessions. -/
def reactivates (b : Balancer Load) (now : Moment) (tried : List Bool) (first : Bool) (i : Nat)
    (m : Member Load) : Bool :=
  !isTried tried i && !m.stopped && m.inError && first &&
    m.recoveryDue now b.settings.recoverWindow

theorem chooseSession_of_servable (hm : b.members[i]? = some m) (h : b.servable tried i = true) :
    b.chooseSession now tried first i m = some (b.elect i) := by
  rw [servable, hm, Option.any_some] at h
  simp only [Bool.and_eq_true, Bool.not_eq_true'] at h
  obtain ⟨ht, hstopped, herror⟩ := h
  simp [chooseSession, ht, hstopped, herror]

theorem chooseSession_of_not_servable (hm : b.members[i]? = some m)
    (hredirect : m.redirect = none) (h : b.servable tried i = false) :
    b.chooseSession now tried first i m =
      if b.reactivates now tried first i m then
        some ((b.modify i fun m => m.recover m.load).elect i)
      else if b.settings.forceSticky then some (.refused, b) else none := by
  have hnone : b.redirected? tried m = none := by
    rw [redirected?, hredirect]
    rfl
  unfold chooseSession reactivates
  rw [hnone]
  rcases (servable_eq_false_iff hm).1 h with ht | hstopped | herror
  · simp [ht]
  · simp [hstopped]
  · rw [herror]
    cases isTried tried i <;> cases m.stopped <;> cases first <;>
      cases m.recoveryDue now b.settings.recoverWindow <;> simp

/-! ## Selections for sessions -/

variable [OfNat Load 0] [Add Load] [Max Load] [LT Load] [DecidableLT Load]

/-- A request of no sessions is balanced. -/
theorem select_nil (b : Balancer Load) (now : Moment) (tried : List Bool) (first : Bool) :
    b.select now [] tried first =
      (((b.maintain now).chooseBalanced tried).or ((b.maintain now).chooseResting now tried)).getD
        (.exhausted, b.maintain now) := by
  have hnone : (if (b.maintain now).settings.sticky then
      (b.maintain now).sessionMember? [] else none) = none := by
    split <;> rfl
  unfold select
  dsimp only
  rw [hnone]
  rfl

theorem select_of_sessionMember? (tried : List Bool) (first : Bool)
    (hsticky : b.settings.sticky = true) (hj : b.sessionMember? routes = some j)
    (hm : (b.maintain now).members[j]? = some m) :
    b.select now routes tried first =
      ((b.maintain now).chooseSession now tried first j m).getD (b.select now [] tried first) := by
  have hsession : (if (b.maintain now).settings.sticky then
      (b.maintain now).sessionMember? routes else none) = some j := by
    rw [settings_maintain, if_pos hsticky, sessionMember?_maintain, hj]
  rw [select_nil]
  unfold select
  dsimp only
  rw [hsession, Option.bind_some, hm, Option.bind_some]
  cases (b.maintain now).chooseSession now tried first j m with
  | none => rfl
  | some x => rfl

/-- **Only the first known session counts.**  Without redirects, let `i` be the first member, in the
order of the routes, that can take the request once maintenance is done.  If it is the member of the
first known route, it is elected.  If not, the member `j` of that route cannot take the request:
then `j` is put back if its rest is over, or else the request is refused where sessions are forced,
and otherwise balanced as a request of no sessions. -/
theorem first_session_counts (first : Bool) (hsticky : b.settings.sticky = true)
    (hredirect : ∀ m ∈ b.members, m.redirect = none)
    (hi : (b.maintain now).firstServable? tried routes = some i) :
    (b.sessionMember? routes = some i →
      b.select now routes tried first = (b.maintain now).elect i) ∧
    (b.sessionMember? routes ≠ some i →
      ∃ j m, b.sessionMember? routes = some j ∧ (b.maintain now).members[j]? = some m ∧
        (isTried tried j = true ∨ m.stopped = true ∨ m.inError = true) ∧
        b.select now routes tried first =
          if (b.maintain now).reactivates now tried first j m then
            ((b.maintain now).modify j fun m => m.recover m.load).elect j
          else if b.settings.forceSticky then (.refused, b.maintain now)
          else b.select now [] tried first) := by
  obtain ⟨j, hj, hcases⟩ := firstServable?_cases hi
  have hlt := lt_of_sessionMember? hj
  have hm := List.getElem?_eq_getElem hlt
  generalize (b.maintain now).members[j] = m at hm
  rw [sessionMember?_maintain] at hj
  have hselect := select_of_sessionMember? tried first hsticky hj hm
  constructor
  · intro hfirst
    rw [hfirst] at hj
    cases hj
    rw [hselect, chooseSession_of_servable hm (servable_of_firstServable? hi)]
    rfl
  · intro hfirst
    rcases hcases with rfl | hnot
    · exact absurd hj hfirst
    · have hnone : m.redirect = none := by
        obtain ⟨m₀, hm₀, hrelaxed⟩ := exists_of_getElem?_maintain hm
        have hkept := congrArg MemberSettings.redirect hrelaxed.fixed.1
        exact hkept.trans (hredirect m₀ (List.mem_of_getElem? hm₀))
      refine ⟨j, m, hj, hm, ?_, ?_⟩
      · exact (servable_eq_false_iff hm).1 hnot
      · rw [hselect, chooseSession_of_not_servable hm hnone hnot, settings_maintain]
        split
        · rfl
        · split <;> rfl

/-- Three members, the first of which is stopped; sessions are forced. -/
def trio : Balancer Float where
  name := "trio"
  settings := { forceSticky := true }
  members := [
    { name := "a", route := "a", factor := 1, load := 0, stopped := true },
    { name := "b", route := "b", factor := 1, load := 0 },
    { name := "c", route := "c", factor := 1, load := 0 }]

/-- A request is refused for its first session, though the member of the second is free. -/
theorem first_session_counts_trio :
    (trio.maintain 0).firstServable? [] ["a", "c"] = some 2 ∧
      (trio.select 0 ["a", "c"] [] true).1 = .refused := by
  have hi : (trio.maintain 0).firstServable? [] ["a", "c"] = some 2 := by decide +kernel
  have hredirect : ∀ m ∈ trio.members, m.redirect = none := by simp [trio]
  obtain ⟨-, hlater⟩ := first_session_counts true (by decide) hredirect hi
  obtain ⟨j, m, hj, hm, -, hselect⟩ := hlater (by decide +kernel)
  have hzero : j = 0 := Option.some.inj (hj.symm.trans (by decide +kernel))
  subst hzero
  cases hm
  refine ⟨hi, ?_⟩
  rw [hselect]
  decide +kernel

end AjpGateway.Balancer
