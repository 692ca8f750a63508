import AjpGateway.Balancer.Service
import AjpGateway.Proofs.Balancer.Selection

/-!
# The attempts of a request

A request goes from one selection to the next, and to the member that each of them chose.  `Run` is
this course with a log of the selections, each with what it saw and what the chosen member answered:

    ∃ log, Run ask routes n tried first s log (attempts ask routes n tried first s)   (exists_run)

Members leave their balancer alone.  Then by induction on the run, with `asked log` for the members
that were asked and their answers:

    nobody is asked twice, and only who was not tried before              (Run.nodup_asked)
    the last answer decides, or every answer left another attempt open    (Run.ends)
    the request is served exactly if the last answer is a status          (Run.served)
    nobody is asked after an answer that decides                          (Run.stopped)
    the errors of a member grow by one exactly if its answer blames it    (Run.errorsOf_asked)
    no answer is found only if every member was tried or cannot be asked  (Run.givenUp)
-/

namespace AjpGateway

/-- Whether an outcome answers the request.  After any other, another member may be asked. -/
def Outcome.decides : Outcome → Bool
  | .ok _ => true
  | .error e => e.isClient || !e.recoverable

/-- Whether an outcome counts against the member. -/
def Outcome.blames : Outcome → Bool
  | .ok _ => false
  | .error e => !e.isClient

/-! ## Marks of members -/

theorem getD_modify_succ {l : List Nat} {i : Nat} (hi : i < l.length) (j : Nat) :
    (l.modify i (· + 1)).getD j 0 = l.getD j 0 + if i = j then 1 else 0 := by
  rw [List.getD_eq_getElem?_getD, List.getD_eq_getElem?_getD, List.getElem?_modify]
  by_cases hij : i = j
  · subst hij
    simp [hi]
  · simp [hij]

namespace Balancer

variable {Load : Type}

/-- How often a member failed; zero where there is none. -/
def errorsOf (b : Balancer Load) (i : Nat) : Nat := (b.members.map Member.errors).getD i 0

/-- Marks the outcome of an attempt on a member. -/
def mark (b : Balancer Load) (i : Nat) (now : Moment) : Outcome → Balancer Load
  | .ok _ => b.succeeded i
  | .error e => if e.isClient then b else b.failed i now

theorem errorsOf_mark {b : Balancer Load} {i : Nat} (hi : i < b.members.length) (now : Moment)
    (outcome : Outcome) (j : Nat) :
    (b.mark i now outcome).errorsOf j =
      b.errorsOf j + if i = j ∧ Outcome.blames outcome = true then 1 else 0 := by
  have hsucceeded : ∀ m : Member Load, m.succeeded.errors = id m.errors := fun _ => rfl
  have hfailed : ∀ m : Member Load, (m.failed now).errors = m.errors + 1 := fun _ => rfl
  unfold mark
  cases outcome with
  | ok status =>
    show ((b.members.modify i Member.succeeded).map Member.errors).getD j 0 = _
    rw [map_modify hsucceeded, List.modify_id]
    simp [errorsOf, Outcome.blames]
  | error e =>
    by_cases he : e.isClient = true
    · simp [Outcome.blames, he]
    · rw [← List.length_map (f := Member.errors)] at hi
      simp only [if_neg he]
      show ((b.members.modify i (·.failed now)).map Member.errors).getD j 0 = _
      rw [map_modify hfailed, getD_modify_succ hi]
      simp [errorsOf, Outcome.blames, he]

end Balancer

/-! ## Marks of tried members -/

namespace Balancer

theorem isTried_set {tried : List Bool} {i j : Nat} (hi : i < tried.length) :
    isTried (tried.set i true) j = (decide (i = j) || isTried tried j) := by
  unfold isTried
  rw [List.getD_eq_getElem?_getD, List.getD_eq_getElem?_getD, List.getElem?_set]
  by_cases h : i = j
  · subst h
    simp [hi]
  · simp [h]

theorem count_set_tried {tried : List Bool} {i : Nat} (hi : i < tried.length)
    (ht : isTried tried i = false) : (tried.set i true).count false + 1 = tried.count false := by
  have hget : tried[i] = false := by
    rw [isTried, List.getD_eq_getElem?_getD, List.getElem?_eq_getElem hi] at ht
    exact ht
  have hpos : 0 < tried.count false := List.count_pos_iff.2 (hget ▸ List.getElem_mem hi)
  rw [List.count_set hi, hget]
  simp
  omega

theorem isTried_of_count_eq_zero {tried : List Bool} (h : tried.count false = 0) {i : Nat}
    (hi : i < tried.length) : isTried tried i = true := by
  have hmem : false ∉ tried := List.count_eq_zero.1 h
  rw [isTried, List.getD_eq_getElem?_getD, List.getElem?_eq_getElem hi]
  cases hget : tried[i] with
  | true => rfl
  | false => exact absurd (hget ▸ List.getElem_mem hi) hmem

end Balancer

namespace Bench

open Balancer (isTried AtRest)

/-! ## Steps of a request -/

section
variable {Load α : Type}

/-- The bench as a selection leaves it. -/
def selected (s : Bench Load α) (balancer : Balancer Load) : Bench Load α :=
  { s with balancer, job := s.job.now.2 }

/-- The bench after a failure that leaves another attempt open. -/
def failover (s : Bench Load α) : Bench Load α :=
  { s with job := s.job.count (.failover s.balancer.name) }

theorem setup_settle (s : Bench Load α) (i : Nat) (outcome : Outcome) :
    (s.settle i outcome).balancer.setup = s.balancer.setup :=
  settle_keeps (fun t => t.balancer.setup = s.balancer.setup) (fun _ _ h => h)
    (fun _ _ hb h => hb.trans h) i outcome rfl

theorem balancer_settle (s : Bench Load α) (i : Nat) (outcome : Outcome) :
    (s.settle i outcome).balancer = s.balancer.mark i s.job.now.1 outcome := by
  cases outcome with
  | ok status => rfl
  | error e =>
    unfold settle Balancer.mark
    by_cases he : e.isClient = true
    · simp only [if_pos he]
    · simp only [if_neg he]

theorem errorsOf_settle (s : Bench Load α) {i : Nat} (hi : i < s.balancer.members.length)
    (outcome : Outcome) (j : Nat) :
    (s.settle i outcome).balancer.errorsOf j =
      s.balancer.errorsOf j + if i = j ∧ Outcome.blames outcome = true then 1 else 0 := by
  rw [balancer_settle, Balancer.errorsOf_mark hi]

theorem balancer_of_ask {ask : Nat → Bench Load α → Outcome × Bench Load α}
    (hkeeps : ∀ i s, (ask i s).2.balancer = s.balancer) {s s' : Bench Load α} {p : Pick}
    {balancer : Balancer Load} {outcome : Outcome}
    (hask : ask p.index ((s.selected balancer).aim p.route) = (outcome, s')) :
    s'.balancer = balancer := by
  have hkept := hkeeps p.index ((s.selected balancer).aim p.route)
  rw [hask] at hkept
  exact hkept

end

/-! ## Runs -/

/-- One selection: the balancer that it saw, and the member that it chose with that one's answer. -/
structure Turn (Load : Type) where
  seen : Balancer Load
  now : Moment
  tried : List Bool
  attempt? : Option (Nat × Outcome)

/-- The members that were asked, with their answers. -/
def asked {Load : Type} (log : List (Turn Load)) : List (Nat × Outcome) :=
  log.filterMap Turn.attempt?

section
variable {Load α : Type} [OfNat Load 0] [Add Load] [Max Load] [LT Load] [DecidableLT Load]

/-- A request in its course, with at most `n` more attempts: the selections that it makes, its
outcome and the bench that it leaves. -/
inductive Run (ask : Nat → Bench Load α → Outcome × Bench Load α) (routes : List String) :
    (n : Nat) → (tried : List Bool) → (first : Bool) → Bench Load α → List (Turn Load) →
      Outcome × Bench Load α → Prop
  /-- no attempt is left -/
  | spent {tried : List Bool} {first : Bool} {s : Bench Load α} :
      Run ask routes 0 tried first s [] (.error (.unavailable s.balancer.name), s)
  /-- no member is chosen -/
  | unchosen {n : Nat} {tried : List Bool} {first : Bool} {s : Bench Load α} {choice : Choice}
      {balancer : Balancer Load}
      (hselect : s.balancer.select s.job.now.1 routes tried first = (choice, balancer))
      (hchoice : ∀ p, choice ≠ .picked p) :
      Run ask routes (n + 1) tried first s [⟨s.balancer, s.job.now.1, tried, none⟩]
        (.error (.unavailable balancer.name), s.selected balancer)
  /-- the chosen member answers the request -/
  | answered {n : Nat} {tried : List Bool} {first : Bool} {s s' : Bench Load α} {p : Pick}
      {balancer : Balancer Load} {outcome : Outcome}
      (hselect : s.balancer.select s.job.now.1 routes tried first = (.picked p, balancer))
      (hask : ask p.index ((s.selected balancer).aim p.route) = (outcome, s'))
      (hdecides : Outcome.decides outcome = true) :
      Run ask routes (n + 1) tried first s
        [⟨s.balancer, s.job.now.1, tried, some (p.index, outcome)⟩]
        (outcome, s'.settle p.index outcome)
  /-- the chosen member fails, and the request goes on -/
  | failed {n : Nat} {tried : List Bool} {first : Bool} {s s' : Bench Load α} {p : Pick}
      {balancer : Balancer Load} {outcome : Outcome} {log : List (Turn Load)}
      {r : Outcome × Bench Load α}
      (hselect : s.balancer.select s.job.now.1 routes tried first = (.picked p, balancer))
      (hask : ask p.index ((s.selected balancer).aim p.route) = (outcome, s'))
      (hdecides : Outcome.decides outcome = false)
      (hrest : Run ask routes n (tried.set p.index true) false (s'.settle p.index outcome).failover
        log r) :
      Run ask routes (n + 1) tried first s
        (⟨s.balancer, s.job.now.1, tried, some (p.index, outcome)⟩ :: log) r

variable {ask : Nat → Bench Load α → Outcome × Bench Load α} {routes : List String} {n : Nat}
  {tried : List Bool} {first : Bool} {s : Bench Load α} {log : List (Turn Load)}
  {r : Outcome × Bench Load α}

/-- By induction on the attempts left: the loop is such a run. -/
theorem exists_run (ask : Nat → Bench Load α → Outcome × Bench Load α) (routes : List String)
    (n : Nat) (tried : List Bool) (first : Bool) (s : Bench Load α) :
    ∃ log, Run ask routes n tried first s log (attempts ask routes n tried first s) := by
  induction n generalizing tried first s with
  | zero => exact ⟨[], .spent⟩
  | succ n ih =>
    unfold attempts
    dsimp only
    rcases hselect : s.balancer.select s.job.now.1 routes tried first with ⟨choice, balancer⟩
    cases choice with
    | exhausted => exact ⟨_, .unchosen hselect (fun _ h => by cases h)⟩
    | refused => exact ⟨_, .unchosen hselect (fun _ h => by cases h)⟩
    | picked p =>
      dsimp only
      rcases hask : ask p.index ((s.selected balancer).aim p.route) with ⟨outcome, s'⟩
      have hask' : ask p.index
          (({ s with balancer, job := s.job.now.2 } : Bench Load α).aim p.route) =
            (outcome, s') := hask
      rw [hask']
      cases outcome with
      | ok status => exact ⟨_, .answered hselect hask rfl⟩
      | error e =>
        dsimp only
        cases he : (e.isClient || !e.recoverable) with
        | true => exact ⟨_, .answered hselect hask he⟩
        | false =>
          obtain ⟨log, hrest⟩ := ih (tried.set p.index true) false
            (s'.settle p.index (.error e)).failover
          exact ⟨_, .failed hselect hask he hrest⟩

/-! ## How a run ends -/

theorem Run.length_asked_le (h : Run ask routes n tried first s log r) :
    (asked log).length ≤ n := by
  induction h with
  | spent => exact Nat.le_refl 0
  | unchosen _ _ => exact Nat.zero_le _
  | answered _ _ _ => exact Nat.succ_le_succ (Nat.zero_le _)
  | failed _ _ _ _ ih => exact Nat.succ_le_succ ih

/-- The outcome is the last answer if that decides, and no answer before it does; otherwise no
answer decides. -/
theorem Run.ends (h : Run ask routes n tried first s log r) :
    (∃ earlier a, asked log = earlier ++ [a] ∧ (∀ x ∈ earlier, Outcome.decides x.2 = false) ∧
      Outcome.decides a.2 = true ∧ r.1 = a.2) ∨
    (∀ x ∈ asked log, Outcome.decides x.2 = false) ∧
      r.1 = .error (.unavailable r.2.balancer.name) := by
  induction h with
  | spent => exact .inr ⟨List.forall_mem_nil _, rfl⟩
  | unchosen _ _ => exact .inr ⟨List.forall_mem_nil _, rfl⟩
  | @answered n tried first s s' p balancer outcome _ _ hdecides =>
    exact .inl ⟨[], (p.index, outcome), rfl, List.forall_mem_nil _, hdecides, rfl⟩
  | @failed n tried first s s' p balancer outcome log r _ _ hdecides _ ih =>
    rcases ih with ⟨earlier, a, hlog, hearlier, ha, hr⟩ | ⟨hall, hr⟩
    · refine .inl ⟨(p.index, outcome) :: earlier, a, ?_, ?_, ha, hr⟩
      · exact congrArg (List.cons (p.index, outcome)) hlog
      · exact List.forall_mem_cons.2 ⟨hdecides, hearlier⟩
    · exact .inr ⟨List.forall_mem_cons.2 ⟨hdecides, hall⟩, hr⟩

theorem Run.served (h : Run ask routes n tried first s log r) (status : Nat) :
    r.1 = .ok status ↔ ∃ i, (asked log).getLast? = some (i, .ok status) := by
  rcases h.ends with ⟨earlier, a, hlog, -, -, hr⟩ | ⟨hall, hr⟩
  · have hlast : (asked log).getLast? = some a := by rw [hlog, List.getLast?_concat]
    rw [hlast, hr]
    constructor
    · intro ha
      exact ⟨a.1, congrArg some (Prod.ext rfl ha)⟩
    · rintro ⟨i, ha⟩
      cases ha
      rfl
  · constructor
    · intro hok
      rw [hr] at hok
      cases hok
    · rintro ⟨i, hlast⟩
      have hopen := hall _ (List.mem_of_getLast? hlast)
      cases hopen

/-- Nobody is asked after an answer that decides. -/
theorem Run.stopped (h : Run ask routes n tried first s log r)
    {earlier later : List (Nat × Outcome)} {a : Nat × Outcome} (hlog : asked log = earlier ++ a :: later)
    (ha : Outcome.decides a.2 = true) : later = [] ∧ r.1 = a.2 := by
  rcases h.ends with ⟨earlier', a', hlog', hopen, -, hr⟩ | ⟨hall, -⟩
  · rw [hlog'] at hlog
    rcases List.eq_nil_or_concat later with rfl | ⟨more, z, rfl⟩
    · obtain ⟨-, hlast⟩ := List.append_inj' hlog rfl
      cases hlast
      exact ⟨rfl, hr⟩
    · -- then `a` would be among the answers before the last
      rw [List.concat_eq_append, ← List.cons_append, ← List.append_assoc] at hlog
      obtain ⟨rfl, -⟩ := List.append_inj' hlog rfl
      have hfalse := hopen a (List.mem_append_right _ List.mem_cons_self)
      rw [ha] at hfalse
      cases hfalse
  · have hfalse := hall a (by rw [hlog]; exact List.mem_append_right _ List.mem_cons_self)
    rw [ha] at hfalse
    cases hfalse

/-! ## What a step leaves of the balancer -/

section
variable {s' : Bench Load α} {p : Pick} {balancer : Balancer Load} {outcome : Outcome}

variable (hkeeps : ∀ i s, (ask i s).2.balancer = s.balancer)
  (hselect : s.balancer.select s.job.now.1 routes tried first = (.picked p, balancer))
  (hask : ask p.index ((s.selected balancer).aim p.route) = (outcome, s'))

include hselect in
theorem setup_of_select : balancer.setup = s.balancer.setup := by
  have hsetup := Balancer.setup_select s.balancer s.job.now.1 routes tried first
  rwa [hselect] at hsetup

include hselect in
theorem exists_eligible_of_select :
    ∃ m, s.balancer.Eligible s.job.now.1 routes tried p.index m ∧
      s.balancer.Elected p.index m.route (.picked p, balancer) := by
  have hpicked := Balancer.exists_eligible_of_picked (congrArg Prod.fst hselect)
  rwa [hselect] at hpicked

include hkeeps hselect hask in
theorem setup_step : (s'.settle p.index outcome).balancer.setup = s.balancer.setup := by
  rw [setup_settle, balancer_of_ask hkeeps hask, setup_of_select hselect]

include hkeeps hselect hask in
theorem length_step :
    (s'.settle p.index outcome).balancer.members.length = s.balancer.members.length :=
  Balancer.length_eq_of_setup (setup_step hkeeps hselect hask)

include hkeeps hselect hask in
theorem errorsOf_step (j : Nat) :
    (s'.settle p.index outcome).balancer.errorsOf j =
      s.balancer.errorsOf j + if p.index = j ∧ Outcome.blames outcome = true then 1 else 0 := by
  obtain ⟨m, heligible, helected⟩ := exists_eligible_of_select hselect
  have hbalancer := balancer_of_ask hkeeps hask
  have hlt : p.index < s'.balancer.members.length := by
    rw [hbalancer, Balancer.length_eq_of_setup (setup_of_select hselect)]
    exact heligible.lt
  rw [errorsOf_settle s' hlt, hbalancer, Balancer.errorsOf, helected.errors]
  rfl

end

/-! ## Who is asked, and what becomes of it -/

variable (hkeeps : ∀ i s, (ask i s).2.balancer = s.balancer)

include hkeeps

/-- By induction on the run: a member that is asked was not tried before, and is marked for the
attempts that follow. -/
theorem Run.nodup_asked (h : Run ask routes n tried first s log r)
    (htried : tried.length = s.balancer.members.length) :
    ((asked log).map Prod.fst).Nodup ∧
      ∀ i ∈ (asked log).map Prod.fst, isTried tried i = false ∧ i < s.balancer.members.length := by
  induction h with
  | spent => exact ⟨List.nodup_nil, List.forall_mem_nil _⟩
  | unchosen _ _ => exact ⟨List.nodup_nil, List.forall_mem_nil _⟩
  | answered hselect _ _ =>
    obtain ⟨m, heligible, -⟩ := exists_eligible_of_select hselect
    refine ⟨List.nodup_cons.2 ⟨List.not_mem_nil, List.nodup_nil⟩, fun i hi => ?_⟩
    rw [List.mem_singleton.1 hi]
    exact ⟨heligible.untried, heligible.lt⟩
  | @failed n tried first s s' p balancer outcome log r hselect hask _ _ ih =>
    obtain ⟨m, heligible, -⟩ := exists_eligible_of_select hselect
    have hlength := length_step hkeeps hselect hask
    have hlt : p.index < tried.length := by
      rw [htried]
      exact heligible.lt
    obtain ⟨hnodup, hfresh⟩ := ih (by rw [List.length_set, htried]; exact hlength.symm)
    have hother : ∀ i ∈ (asked log).map Prod.fst,
        p.index ≠ i ∧ isTried tried i = false ∧ i < s.balancer.members.length := by
      intro i hi
      obtain ⟨ht, hi'⟩ := hfresh i hi
      rw [Balancer.isTried_set hlt] at ht
      simp only [Bool.or_eq_false_iff, decide_eq_false_iff_not] at ht
      exact ⟨ht.1, ht.2, hlength ▸ hi'⟩
    constructor
    · exact List.nodup_cons.2 ⟨fun hmem => (hother _ hmem).1 rfl, hnodup⟩
    · exact List.forall_mem_cons.2 ⟨⟨heligible.untried, heligible.lt⟩, fun i hi => (hother i hi).2⟩

/-- By induction on the run: an answer is counted once, at the member that gave it. -/
theorem Run.errorsOf_asked (h : Run ask routes n tried first s log r)
    (htried : tried.length = s.balancer.members.length) :
    (∀ i outcome, (i, outcome) ∈ asked log → r.2.balancer.errorsOf i =
      s.balancer.errorsOf i + if Outcome.blames outcome = true then 1 else 0) ∧
    ∀ i, i ∉ (asked log).map Prod.fst → r.2.balancer.errorsOf i = s.balancer.errorsOf i := by
  induction h with
  | spent => exact ⟨fun i outcome h => absurd h List.not_mem_nil, fun _ _ => rfl⟩
  | @unchosen n tried first s choice balancer hselect _ =>
    refine ⟨fun i outcome h => absurd h List.not_mem_nil, fun i _ => ?_⟩
    have herrors := Balancer.errors_select s.balancer s.job.now.1 routes tried first
    rw [hselect] at herrors
    show (balancer.members.map Member.errors).getD i 0 = _
    rw [herrors]
    rfl
  | @answered n tried first s s' p balancer outcome hselect hask _ =>
    have hstep := errorsOf_step hkeeps hselect hask
    constructor
    · intro i outcome' hmem
      cases List.mem_singleton.1 hmem
      rw [hstep]
      simp
    · intro i hmem
      have hne : p.index ≠ i := fun h => hmem (List.mem_singleton.2 h.symm)
      rw [hstep]
      simp [hne]
  | @failed n tried first s s' p balancer outcome log r hselect hask hdecides hrest ih =>
    have hlength := length_step hkeeps hselect hask
    have hset : (tried.set p.index true).length =
        (s'.settle p.index outcome).failover.balancer.members.length := by
      rw [List.length_set, htried]
      exact hlength.symm
    have hstep : ∀ j, (s'.settle p.index outcome).failover.balancer.errorsOf j =
        s.balancer.errorsOf j + if p.index = j ∧ Outcome.blames outcome = true then 1 else 0 :=
      errorsOf_step hkeeps hselect hask
    obtain ⟨hasked, hothers⟩ := ih hset
    -- the member asked here is asked no more
    have hnodup := (Run.nodup_asked hkeeps (.failed hselect hask hdecides hrest) htried).1
    have hgone : p.index ∉ (asked log).map Prod.fst := (List.nodup_cons.1 hnodup).1
    constructor
    · intro i outcome' hmem
      rcases List.mem_cons.1 hmem with heq | hmem
      · cases heq
        rw [hothers p.index hgone, hstep]
        simp
      · have hne : p.index ≠ i := by
          rintro rfl
          exact hgone (List.mem_map.2 ⟨(p.index, outcome'), hmem, rfl⟩)
        rw [hasked i outcome' hmem, hstep]
        simp [hne]
    · intro i hmem
      have hne : p.index ≠ i := fun h => hmem (List.mem_cons.2 (.inl h.symm))
      have hnot : i ∉ (asked log).map Prod.fst := fun h => hmem (List.mem_cons_of_mem _ h)
      rw [hothers i hnot, hstep]
      simp [hne]

/-- A member that answered with a status is marked as sound. -/
theorem Run.marked (h : Run ask routes n tried first s log r) {i status : Nat}
    (hlast : (asked log).getLast? = some (i, .ok status)) :
    ∃ m, r.2.balancer.members[i]? = some m ∧
      m.inError = false ∧ m.recovering = false ∧ m.errorTime? = none := by
  induction h with
  | spent => cases hlast
  | unchosen _ _ => cases hlast
  | @answered n tried first s s' p balancer outcome hselect hask _ =>
    cases hlast
    obtain ⟨m, -, helected⟩ := exists_eligible_of_select hselect
    obtain ⟨m', hm', -⟩ := helected.sound
    refine ⟨m'.succeeded, ?_, rfl, rfl, rfl⟩
    show (s'.balancer.members.modify p.index Member.succeeded)[p.index]? = some m'.succeeded
    rw [balancer_of_ask hkeeps hask, List.getElem?_modify, hm']
    simp
  | @failed n tried first s s' p balancer outcome log r _ _ hdecides _ ih =>
    have hcons : (asked log).getLast?.getD (p.index, outcome) = (i, .ok status) :=
      Option.some.inj (List.getLast?_cons.symm.trans hlast)
    cases hrest : (asked log).getLast? with
    | none =>
      rw [hrest] at hcons
      cases hcons
      cases hdecides
    | some a =>
      rw [hrest] at hcons
      exact ih (hrest.trans (congrArg some hcons))

end

/-! ## Giving up -/

section
variable {Load α : Type} [OfNat Load 0] [Add Load] [Max Load] [LT Load] [DecidableLT Load]
  {ask : Nat → Bench Load α → Outcome × Bench Load α} {routes : List String} {n : Nat}
  {tried : List Bool} {first : Bool} {s : Bench Load α} {log : List (Turn Load)}
  {r : Outcome × Bench Load α}

/-- Why a selection leaves a member out: it was tried before, it is the one that is chosen, it is
disabled, it is stopped, or it is in error and still at rest. -/
def Turn.Excuses (t : Turn Load) (i : Nat) (m : Member Load) : Prop :=
  isTried t.tried i = true ∨ (∃ outcome, t.attempt? = some (i, outcome)) ∨ m.disabled = true ∨
    m.stopped = true ∨
      m.inError = true ∧ m.recoveryDue t.now t.seen.settings.recoverWindow = false

/-- A selection that finds nobody leaves out every member. -/
theorem excuses_of_unchosen {choice : Choice} {balancer : Balancer Load}
    (hforce : s.balancer.settings.forceSticky = false)
    (hselect : s.balancer.select s.job.now.1 routes tried first = (choice, balancer))
    (hchoice : ∀ p, choice ≠ .picked p) :
    ∀ i m, s.balancer.members[i]? = some m →
      Turn.Excuses ⟨s.balancer, s.job.now.1, tried, none⟩ i m := by
  have hunpicked : ∀ p, (s.balancer.select s.job.now.1 routes tried first).1 ≠ .picked p := by
    rw [hselect]
    exact hchoice
  obtain ⟨-, hrest⟩ := Balancer.exhausted_of_unpicked hforce hunpicked
  intro i m hm
  unfold Turn.Excuses
  cases ht : isTried tried i with
  | true => exact .inl rfl
  | false =>
    cases hdisabled : m.disabled with
    | true => exact .inr (.inr (.inl rfl))
    | false =>
      cases hstopped : m.stopped with
      | true => exact .inr (.inr (.inr (.inl rfl)))
      | false => exact .inr (.inr (.inr (.inr (hrest i m hm ht hdisabled hstopped))))

/-- By induction on the run, where the attempts left are enough for the members not yet tried: if it
ends without an answer, its last selection left out every member. -/
theorem Run.givenUp (hkeeps : ∀ i s, (ask i s).2.balancer = s.balancer)
    (h : Run ask routes n tried first s log r)
    (htried : tried.length = s.balancer.members.length) (hcount : tried.count false ≤ n)
    (hforce : s.balancer.settings.forceSticky = false) {w : String}
    (hr : r.1 = .error (.unavailable w)) :
    log = [] ∧ n = 0 ∨ ∃ t, log.getLast? = some t ∧
      ∀ i < s.balancer.members.length, ∃ m, t.seen.members[i]? = some m ∧ t.Excuses i m := by
  induction h with
  | spent => exact .inl ⟨rfl, rfl⟩
  | @unchosen n tried first s choice balancer hselect hchoice =>
    refine .inr ⟨_, rfl, fun i hi => ?_⟩
    have hm := List.getElem?_eq_getElem hi
    exact ⟨_, hm, excuses_of_unchosen hforce hselect hchoice i _ hm⟩
  | @answered n tried first s s' p balancer outcome _ _ hdecides =>
    -- an answer of this kind leaves another attempt open
    have houtcome : outcome = .error (.unavailable w) := hr
    rw [houtcome] at hdecides
    cases hdecides
  | @failed n tried first s s' p balancer outcome log r hselect hask hdecides hrest ih =>
    obtain ⟨m, heligible, -⟩ := exists_eligible_of_select hselect
    have hlength : (s'.settle p.index outcome).failover.balancer.members.length =
        s.balancer.members.length := length_step hkeeps hselect hask
    have hsettings : (s'.settle p.index outcome).failover.balancer.settings =
        s.balancer.settings := congrArg Balancer.Setup.settings (setup_step hkeeps hselect hask)
    have hlt : p.index < tried.length := by
      rw [htried]
      exact heligible.lt
    have hone := Balancer.count_set_tried hlt heligible.untried
    have hrest' := ih (by rw [List.length_set, htried, hlength]) (by omega)
      (by rw [hsettings, hforce]) hr
    rw [hlength] at hrest'
    right
    rcases hrest' with ⟨rfl, hn⟩ | ⟨t, ht, hall⟩
    · -- the last member that was not tried is the one that was asked here
      refine ⟨_, rfl, fun i hi => ?_⟩
      have hzero : (tried.set p.index true).count false = 0 := by omega
      have hi' : i < (tried.set p.index true).length := by
        rw [List.length_set, htried]
        exact hi
      have hasked := Balancer.isTried_of_count_eq_zero hzero hi'
      rw [Balancer.isTried_set hlt, Bool.or_eq_true, decide_eq_true_iff] at hasked
      refine ⟨_, List.getElem?_eq_getElem hi, ?_⟩
      rcases hasked with rfl | ht
      · exact .inr (.inl ⟨outcome, rfl⟩)
      · exact .inl ht
    · refine ⟨t, ?_, hall⟩
      rw [List.getLast?_cons, ht]
      rfl

end

end Bench

end AjpGateway
