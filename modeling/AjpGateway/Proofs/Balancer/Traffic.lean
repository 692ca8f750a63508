import AjpGateway.Proofs.Balancer.Attempts
import AjpGateway.Proofs.Balancer.Resting
import AjpGateway.Proofs.Worker.Building
import Mathlib.Algebra.GroupWithZero.Nat

/-!
# Requests beside one another

A balancer that any number of requests share.  Each of them chooses a member, waits for its answer,
marks it, and goes on or is over; choices and marks are steps of their own, and those of other
requests, and refreshes, come in between as they like.

Every election is accounted for: its answer marked the member as sound or as failed, or said nothing
about it, or the request still waits for it.

    Run ⟨s.balancer, []⟩ events ⟨(s.serve ask).2.balancer, [⟨_, .over (s.serve ask).1⟩]⟩
                                                                                 (run_of_serve)
    Step t events t' → t.Accounted log → t'.Accounted (log ++ events)          (Accounted.step)
    b.Fresh → Run ⟨b, []⟩ log t → (what the records of the members say)           (bookkeeping)
-/

namespace AjpGateway

variable {Load : Type}

/-! ## Steps -/

/-- Where a request stands. -/
inductive Stage where
  /-- about to choose a member, with so many attempts left -/
  | choosing (left : Nat) (tried : List Bool) (first : Bool)
  /-- waiting for the answer of a member -/
  | asking (left : Nat) (tried : List Bool) (i : Nat)
  | over (outcome : Outcome)

/-- A request of some sessions in its course. -/
structure Visit where
  routes : List String
  stage : Stage

namespace Visit

/-- Before the first choice among `n` members. -/
def start (routes : List String) (n : Nat) : Visit where
  routes
  stage := .choosing n (List.replicate n false) true

/-- After an answer: over if that decides, and else ready for another choice. -/
def answered (v : Visit) (left : Nat) (tried : List Bool) (outcome : Outcome) : Visit :=
  { v with stage := if Outcome.decides outcome then .over outcome else .choosing left tried false }

/-- Whether the request waits for member `i`. -/
def asks (i : Nat) (v : Visit) : Bool :=
  match v.stage with
  | .asking _ _ j => j == i
  | _ => false

end Visit

/-- What becomes of an election. -/
inductive Traffic.Event where
  | chosen (i : Nat)
  | served (i : Nat)
  | blamed (i : Nat)
  /-- the client failed, which says nothing about the member -/
  | spared (i : Nat)
deriving DecidableEq

def Traffic.Event.isChosen : Traffic.Event → Bool
  | chosen _ => true
  | _ => false

/-- What an answer of member `i` is. -/
def Outcome.event (i : Nat) : Outcome → Traffic.Event
  | .ok _ => .served i
  | .error e => if e.isClient then .spared i else .blamed i

/-- A balancer with the requests that came to it. -/
structure Traffic (Load : Type) where
  balancer : Balancer Load
  visits : List Visit := []

namespace Traffic

variable [OfNat Load 0] [Add Load] [Max Load] [LT Load] [DecidableLT Load]

/-- The step of one request, or a refresh. -/
inductive Step : Traffic Load → List Event → Traffic Load → Prop
  | arrive (t : Traffic Load) (routes : List String) :
    Step t [] { t with visits := t.visits ++ [.start routes t.balancer.members.length] }
  | choose {t : Traffic Load} {k left : Nat} {v : Visit} {tried : List Bool} {first : Bool}
      {p : Pick} {balancer : Balancer Load} (visit : t.visits[k]? = some v)
      (stage : v.stage = .choosing (left + 1) tried first) (now : Moment)
      (select : t.balancer.select now v.routes tried first = (.picked p, balancer)) :
    Step t [.chosen p.index]
      { balancer
        visits := t.visits.set k { v with stage := .asking left (tried.set p.index true) p.index } }
  /-- no member is chosen -/
  | turnAway {t : Traffic Load} {k left : Nat} {v : Visit} {tried : List Bool} {first : Bool}
      {choice : Choice} {balancer : Balancer Load} (visit : t.visits[k]? = some v)
      (stage : v.stage = .choosing (left + 1) tried first) (now : Moment)
      (select : t.balancer.select now v.routes tried first = (choice, balancer))
      (unpicked : ∀ p, choice ≠ .picked p) :
    Step t []
      { balancer
        visits := t.visits.set k { v with stage := .over (.error (.unavailable balancer.name)) } }
  /-- no attempt is left -/
  | giveUp {t : Traffic Load} {k : Nat} {v : Visit} {tried : List Bool} {first : Bool}
      (visit : t.visits[k]? = some v) (stage : v.stage = .choosing 0 tried first) :
    Step t []
      { t with
        visits := t.visits.set k { v with stage := .over (.error (.unavailable t.balancer.name)) } }
  /-- a member answers, and is marked -/
  | answer {t : Traffic Load} {k left i : Nat} {v : Visit} {tried : List Bool}
      (visit : t.visits[k]? = some v) (stage : v.stage = .asking left tried i) (outcome : Outcome)
      (now : Moment) :
    Step t [Outcome.event i outcome]
      { balancer := t.balancer.mark i now outcome
        visits := t.visits.set k (v.answered left tried outcome) }
  | refresh (t : Traffic Load) (settings : BalancerSettings)
      (members : List (MemberSettings Load)) :
    Step t [] { t with balancer := t.balancer.apply settings members }

/-- Any number of steps, in any order, with all that became of elections. -/
inductive Run : Traffic Load → List Event → Traffic Load → Prop
  | refl (t : Traffic Load) : Run t [] t
  | step {t t' t'' : Traffic Load} {log events : List Event} (h : Run t log t')
      (hs : Step t' events t'') : Run t (log ++ events) t''

theorem Run.trans {t t' t'' : Traffic Load} {log log' : List Event} (h : Run t log t')
    (h' : Run t' log' t'') : Run t (log ++ log') t'' := by
  induction h' with
  | refl => rwa [List.append_nil]
  | step _ hs ih =>
    rw [← List.append_assoc]
    exact ih.step hs

theorem Step.run {t t' : Traffic Load} {events : List Event} (h : Step t events t') :
    Run t events t' :=
  (Run.refl t).step h

/-! ## A request alone -/

section
variable {α : Type} {ask : Nat → Bench Load α → Outcome × Bench Load α} {routes : List String}
  {n : Nat} {tried : List Bool} {first : Bool} {s s' : Bench Load α} {p : Pick}
  {balancer : Balancer Load} {outcome : Outcome}

/-- A choice and its answer, with nothing in between. -/
theorem run_of_attempt (hkeeps : ∀ i s, (ask i s).2.balancer = s.balancer)
    (hselect : s.balancer.select s.job.now.1 routes tried first = (.picked p, balancer))
    (hask : ask p.index ((s.selected balancer).aim p.route) = (outcome, s')) {t : Traffic Load}
    {k : Nat} (hb : t.balancer = s.balancer)
    (hv : t.visits[k]? = some ⟨routes, .choosing (n + 1) tried first⟩) :
    Run t [.chosen p.index, Outcome.event p.index outcome]
      ⟨(s'.settle p.index outcome).balancer, t.visits.set k
        (Visit.answered ⟨routes, .asking n (tried.set p.index true) p.index⟩ n
          (tried.set p.index true) outcome)⟩ := by
  have hk : k < t.visits.length := (List.getElem?_eq_some_iff.1 hv).1
  rw [← hb] at hselect
  have hasked : (t.visits.set k ⟨routes, .asking n (tried.set p.index true) p.index⟩)[k]? =
      some ⟨routes, .asking n (tried.set p.index true) p.index⟩ := List.getElem?_set_self hk
  have hanswer := Step.answer (t := ⟨balancer, t.visits.set k _⟩) hasked rfl outcome s'.job.now.1
  rw [Bench.balancer_settle, Bench.balancer_of_ask hkeeps hask]
  rw [List.set_set] at hanswer
  exact (Step.choose hv rfl _ hselect).run.step hanswer

/-- By induction on the attempts of a request: where nothing comes in between, they are such
steps. -/
theorem run_of_alone (hkeeps : ∀ i s, (ask i s).2.balancer = s.balancer)
    {log : List (Bench.Turn Load)} {r : Outcome × Bench Load α}
    (h : Bench.Run ask routes n tried first s log r) {t : Traffic Load} {k : Nat}
    (hb : t.balancer = s.balancer)
    (hv : t.visits[k]? = some ⟨routes, .choosing n tried first⟩) :
    ∃ events, Run t events ⟨r.2.balancer, t.visits.set k ⟨routes, .over r.1⟩⟩ := by
  induction h generalizing t with
  | spent =>
    have hstep := Step.giveUp hv rfl
    rw [hb] at hstep
    exact ⟨_, hstep.run⟩
  | unchosen hselect hchoice =>
    rw [← hb] at hselect
    exact ⟨_, (Step.turnAway hv rfl _ hselect hchoice).run⟩
  | answered hselect hask hdecides =>
    have hrun := run_of_attempt hkeeps hselect hask hb hv
    unfold Visit.answered at hrun
    rw [if_pos hdecides] at hrun
    exact ⟨_, hrun⟩
  | failed hselect hask hdecides _ ih =>
    have hrun := run_of_attempt hkeeps hselect hask hb hv
    unfold Visit.answered at hrun
    rw [if_neg (by rw [hdecides]; exact Bool.false_ne_true)] at hrun
    have hk : k < t.visits.length := (List.getElem?_eq_some_iff.1 hv).1
    obtain ⟨events, hrest⟩ := ih (t := ⟨_, t.visits.set k _⟩) rfl (List.getElem?_set_self hk)
    rw [List.set_set] at hrest
    exact ⟨_, hrun.trans hrest⟩

/-- To serve a job, with nothing in between, is to take such steps. -/
theorem run_of_serve (hkeeps : ∀ i s, (ask i s).2.balancer = s.balancer)
    (hworkers : s.workers.length = s.balancer.members.length) :
    ∃ events, Run ⟨s.balancer, []⟩ events ⟨(s.serve ask).2.balancer,
      [⟨Session.routes s.job.tx.request, .over (s.serve ask).1⟩]⟩ := by
  obtain ⟨log, hrun⟩ := Bench.exists_run ask (Session.routes s.job.tx.request) s.workers.length
    (List.replicate s.workers.length false) true s
  have harrive := Step.arrive ⟨s.balancer, []⟩ (Session.routes s.job.tx.request)
  rw [← hworkers] at harrive
  obtain ⟨events, hserved⟩ := run_of_alone hkeeps hrun
    (t := ⟨s.balancer, [.start (Session.routes s.job.tx.request) s.workers.length]⟩) (k := 0)
    rfl rfl
  exact ⟨_, harrive.run.trans hserved⟩

end

end Traffic

/-! ## What steps leave of the records -/

/-- A member is in error exactly as long as it is known since when, and does not recover
meanwhile. -/
structure Member.Sound (m : Member Load) : Prop where
  dated : m.inError = true ↔ m.errorTime?.isSome = true
  resting : m.inError = true → m.recovering = false

theorem Member.Sound.of_rest {m m' : Member Load} (hm : m.Sound) (h : m'.rest = m.rest) :
    m'.Sound := by
  simp only [rest, Prod.mk.injEq] at h
  obtain ⟨herror, hrecovering, htime⟩ := h
  constructor
  · rw [herror, htime]
    exact hm.dated
  · rw [herror, hrecovering]
    exact hm.resting

theorem Member.Passed.sound {now : Moment} {window : Duration} {m m' : Member Load}
    (h : m.Passed now window m') (hm : m.Sound) : m'.Sound := by
  cases h with
  | kept hrest => exact hm.of_rest hrest
  | back _ hrest =>
    simp only [rest, Prod.mk.injEq] at hrest
    obtain ⟨herror, -, htime⟩ := hrest
    constructor
    · rw [herror, htime]
      simp
    · rw [herror]
      exact fun h => absurd h Bool.false_ne_true

namespace Balancer

/-- How often a member was elected; zero where there is none. -/
def electionsOf (b : Balancer Load) (i : Nat) : Nat := (b.members.map Member.elected).getD i 0

/-- As a balancer is built: no member was in use. -/
def Fresh [OfNat Load 0] (b : Balancer Load) : Prop :=
  ∀ m ∈ b.members, ∃ s, m = Member.ofSettings m.name s

theorem fresh_of_balance {α : Type} {p : Properties} {name : String}
    {make : String → Except ConfigError (Worker α)} {b : Balancer Float} {ws : List (Worker α)}
    (h : Worker.balance p name make = .ok (.balancer b ws)) : b.Fresh := by
  obtain ⟨settings, members, -, hmembers, hb⟩ := Worker.balance_eq_ok_iff.1 h
  cases hb
  intro m hm
  obtain ⟨x, hx, rfl⟩ := List.mem_map.1 hm
  obtain ⟨member, -, s, -, -, hrecord⟩ := exists_of_forall₂_right hmembers hx
  rw [hrecord]
  exact ⟨s, rfl⟩

/-- Each record makes sense by itself. -/
def Sound (b : Balancer Load) : Prop := ∀ m ∈ b.members, m.Sound

variable {b : Balancer Load} {i : Nat}

theorem Sound.modify (h : b.Sound) {f : Member Load → Member Load}
    (hf : ∀ m, m.Sound → (f m).Sound) : (b.modify i f).Sound := by
  intro m' hm'
  obtain ⟨j, hj⟩ := List.mem_iff_getElem?.1 hm'
  obtain ⟨m, hm, rfl⟩ := exists_of_getElem?_modify hj
  have hsound := h m (List.mem_of_getElem? hm)
  split
  · exact hf m hsound
  · exact hsound

/-! ### Marks -/

theorem Sound.mark (h : b.Sound) (now : Moment) (outcome : Outcome) :
    (b.mark i now outcome).Sound := by
  unfold Balancer.mark
  cases outcome with
  | ok status => exact h.modify fun m _ => ⟨by simp [Member.succeeded], fun _ => rfl⟩
  | error e =>
    dsimp only
    split
    · exact h
    · exact h.modify fun m _ => ⟨by simp [Member.failed], fun _ => rfl⟩

theorem elected_mark (b : Balancer Load) (i : Nat) (now : Moment) (outcome : Outcome) :
    (b.mark i now outcome).members.map Member.elected = b.members.map Member.elected := by
  have hsucceeded : ∀ m : Member Load, m.succeeded.elected = id m.elected := fun _ => rfl
  have hfailed : ∀ m : Member Load, (m.failed now).elected = id m.elected := fun _ => rfl
  unfold mark
  cases outcome with
  | ok status => exact (map_modify hsucceeded _ _).trans (List.modify_id ..)
  | error e =>
    dsimp only
    split
    · rfl
    · exact (map_modify hfailed _ _).trans (List.modify_id ..)

/-! ### Refreshes -/

/-- A refresh changes no record but in what the settings say, and in the load. -/
theorem map_apply [OfNat Load 0] {β : Type} {f : Member Load → β}
    (hf : ∀ (m : Member Load) (s : MemberSettings Load), f { m.apply s with load := 0 } = f m)
    (b : Balancer Load) (settings : BalancerSettings) (members : List (MemberSettings Load)) :
    (b.apply settings members).members.map f = b.members.map f := by
  show (apply.refreshed b.members members).map f = b.members.map f
  generalize b.members = ms
  induction ms generalizing members with
  | nil => cases members <;> rfl
  | cons m rest ih =>
    cases members with
    | nil => rfl
    | cons s later =>
      rw [apply.refreshed, List.map_cons, List.map_cons, hf, ih]

theorem Sound.apply [OfNat Load 0] (h : b.Sound) (settings : BalancerSettings)
    (members : List (MemberSettings Load)) : (b.apply settings members).Sound := by
  have hrest := map_apply (f := Member.rest) (fun _ _ => rfl) b settings members
  intro m' hm'
  obtain ⟨m, hm, hsame⟩ := List.mem_map.1 (hrest ▸ List.mem_map_of_mem hm')
  exact (h m hm).of_rest hsame.symm

/-! ### Selections -/

section
variable [OfNat Load 0] [Add Load] [Max Load] [LT Load] [DecidableLT Load] {now : Moment}
  {routes : List String} {tried : List Bool} {first : Bool}

theorem Sound.select (h : b.Sound) (now : Moment) (routes : List String) (tried : List Bool)
    (first : Bool) : (b.select now routes tried first).2.Sound := by
  intro m' hm'
  obtain ⟨i, hi⟩ := List.mem_iff_getElem?.1 hm'
  obtain ⟨m, hm, hpassed⟩ := passes_select b now routes tried first i m' hi
  exact hpassed.sound (h m (List.mem_of_getElem? hm))

theorem elected_of_unpicked (h : ∀ p, (b.select now routes tried first).1 ≠ .picked p) :
    (b.select now routes tried first).2.members.map Member.elected =
      b.members.map Member.elected := by
  have hselected := selected_select b now routes tried first
  generalize b.select now routes tried first = x at hselected h
  cases hselected with
  | picked _ helected => exact absurd helected.pick (h _)
  | refused _ _ _ => exact map_maintain fun _ _ hr => hr.fixed.2.1
  | exhausted _ => exact map_maintain fun _ _ hr => hr.fixed.2.1

theorem elected_of_picked {p : Pick} (h : (b.select now routes tried first).1 = .picked p) :
    p.index < (b.members.map Member.elected).length ∧
      (b.select now routes tried first).2.members.map Member.elected =
        (b.members.map Member.elected).modify p.index (· + 1) := by
  obtain ⟨m, heligible, helected⟩ := exists_eligible_of_picked h
  rw [List.length_map]
  exact ⟨heligible.lt, helected.elections⟩

end

end Balancer

/-! ## Accounts -/

theorem sum_modify_succ {l : List Nat} {i : Nat} (hi : i < l.length) :
    (l.modify i (· + 1)).sum = l.sum + 1 := by
  induction l generalizing i with
  | nil => exact absurd hi (Nat.not_lt_zero i)
  | cons n rest ih =>
    cases i with
    | zero =>
      rw [List.modify_zero_cons, List.sum_cons, List.sum_cons]
      omega
    | succ i =>
      rw [List.modify_succ_cons, List.sum_cons, List.sum_cons, ih (Nat.lt_of_succ_lt_succ hi)]
      omega

namespace Traffic

/-- How many requests wait for member `i`. -/
def inFlight (t : Traffic Load) (i : Nat) : Nat := t.visits.countP (Visit.asks i)

/-- How many answers of member `i` came in. -/
def answers (log : List Event) (i : Nat) : Nat :=
  log.count (.blamed i) + log.count (.served i) + log.count (.spared i)

theorem answers_append (log log' : List Event) (i : Nat) :
    answers (log ++ log') i = answers log i + answers log' i := by
  unfold answers
  simp only [List.count_append]
  omega

theorem answers_chosen (i j : Nat) : answers [.chosen i] j = 0 := rfl

theorem answers_event (i j : Nat) (outcome : Outcome) :
    answers [Outcome.event i outcome] j = if i = j then 1 else 0 := by
  unfold answers Outcome.event
  cases outcome with
  | ok status => simp [List.count_singleton]
  | error e =>
    dsimp only
    split <;> simp [List.count_singleton]

theorem count_blamed_event (i j : Nat) (outcome : Outcome) :
    [Outcome.event i outcome].count (.blamed j) =
      if i = j ∧ Outcome.blames outcome = true then 1 else 0 := by
  unfold Outcome.event Outcome.blames
  cases outcome with
  | ok status => simp
  | error e => by_cases he : e.isClient = true <;> simp [he, List.count_singleton]

theorem isChosen_event (i : Nat) (outcome : Outcome) :
    (Outcome.event i outcome).isChosen = false := by
  unfold Outcome.event
  cases outcome with
  | ok status => rfl
  | error e =>
    dsimp only
    split <;> rfl

/-- One request goes on, from waiting for an answer or to it. -/
theorem inFlight_set {t : Traffic Load} {k : Nat} {v : Visit} (hv : t.visits[k]? = some v)
    (b : Balancer Load) (v' : Visit) (i : Nat) :
    (⟨b, t.visits.set k v'⟩ : Traffic Load).inFlight i + (if v.asks i = true then 1 else 0) =
      t.inFlight i + if v'.asks i = true then 1 else 0 := by
  obtain ⟨hk, rfl⟩ := List.getElem?_eq_some_iff.1 hv
  have hle : (if t.visits[k].asks i = true then 1 else 0) ≤ t.visits.countP (Visit.asks i) := by
    split
    · next h => exact List.countP_pos_iff.2 ⟨_, List.getElem_mem hk, h⟩
    · exact Nat.zero_le _
  unfold inFlight
  rw [List.countP_set hk]
  omega

/-- What the records of the members and the events so far have to do with each other. -/
structure Accounted (t : Traffic Load) (log : List Event) : Prop where
  sound : t.balancer.Sound
  elections : ∀ i, t.balancer.electionsOf i = answers log i + t.inFlight i
  errors : ∀ i, t.balancer.errorsOf i = log.count (.blamed i)
  total : (t.balancer.members.map Member.elected).sum = log.countP Event.isChosen

theorem accounted_of_fresh [OfNat Load 0] {b : Balancer Load} (h : b.Fresh) :
    Accounted ⟨b, []⟩ [] := by
  have hzero {f : Member Load → Nat} (hf : ∀ name s, f (Member.ofSettings name s) = 0) :
      b.members.map f = List.replicate b.members.length 0 := by
    rw [List.map_eq_replicate_iff]
    intro m hm
    obtain ⟨s, hs⟩ := h m hm
    rw [hs]
    exact hf m.name s
  have hnone {l : List Nat} {n : Nat} (hl : l = List.replicate n 0) (i : Nat) : l.getD i 0 = 0 := by
    rw [hl, List.getD_eq_getElem?_getD, List.getElem?_replicate]
    split <;> rfl
  have helected := hzero (f := Member.elected) fun _ _ => rfl
  refine ⟨fun m hm => ?_, hnone helected, hnone (hzero fun _ _ => rfl), ?_⟩
  · obtain ⟨s, hs⟩ := h m hm
    rw [hs]
    exact ⟨by simp [Member.ofSettings], fun h => absurd h Bool.false_ne_true⟩
  · show (b.members.map Member.elected).sum = 0
    rw [helected]
    simp

theorem asks_of_choosing {v : Visit} {left : Nat} {tried : List Bool} {first : Bool}
    (h : v.stage = .choosing left tried first) (i : Nat) : v.asks i = false := by
  rw [Visit.asks, h]

theorem asks_answered (v : Visit) (left : Nat) (tried : List Bool) (outcome : Outcome) (i : Nat) :
    (v.answered left tried outcome).asks i = false := by
  unfold Visit.answered Visit.asks
  dsimp only
  cases Outcome.decides outcome <;> rfl

/-- A request that waited for no member, and waits for none, changes nothing in flight. -/
theorem inFlight_set_of_idle {t : Traffic Load} {k : Nat} {v v' : Visit} {b : Balancer Load}
    {i : Nat} (hv : t.visits[k]? = some v) (ha : v.asks i = false) (ha' : v'.asks i = false) :
    (⟨b, t.visits.set k v'⟩ : Traffic Load).inFlight i = t.inFlight i := by
  have hset := inFlight_set hv b v' i
  rw [ha, ha'] at hset
  exact hset

section
variable {t t' : Traffic Load} {log events : List Event}

/-- A step that elects nobody and marks nobody. -/
theorem Accounted.quiet (h : t.Accounted log) (hsound : t'.balancer.Sound)
    (helected : t'.balancer.members.map Member.elected = t.balancer.members.map Member.elected)
    (herrors : t'.balancer.members.map Member.errors = t.balancer.members.map Member.errors)
    (hflight : ∀ i, t'.inFlight i = t.inFlight i) : t'.Accounted (log ++ []) := by
  rw [List.append_nil]
  refine ⟨hsound, fun i => ?_, fun i => ?_, ?_⟩
  · rw [hflight, ← h.elections, Balancer.electionsOf, helected]
    rfl
  · rw [← h.errors, Balancer.errorsOf, herrors]
    rfl
  · rw [helected]
    exact h.total

/-- A member whose answer is awaited was elected, so there is one. -/
theorem Accounted.lt_of_asks (h : t.Accounted log) {k i : Nat} {v : Visit}
    (visit : t.visits[k]? = some v) (ha : v.asks i = true) : i < t.balancer.members.length := by
  have hpos : 0 < t.inFlight i :=
    List.countP_pos_iff.2 ⟨v, List.mem_of_getElem? visit, ha⟩
  have hcount := h.elections i
  by_contra hout
  have hnone : t.balancer.electionsOf i = 0 := by
    rw [Balancer.electionsOf, List.getD_eq_getElem?_getD, List.getElem?_map,
      List.getElem?_eq_none (Nat.not_lt.1 hout)]
    rfl
  omega

theorem Accounted.answer (h : t.Accounted log) {k left i : Nat} {v : Visit} {tried : List Bool}
    (visit : t.visits[k]? = some v) (stage : v.stage = .asking left tried i) (outcome : Outcome)
    (now : Moment) :
    Accounted ⟨t.balancer.mark i now outcome, t.visits.set k (v.answered left tried outcome)⟩
      (log ++ [Outcome.event i outcome]) := by
  have hasks (j : Nat) : v.asks j = (i == j) := by
    rw [Visit.asks, stage]
  have hlt : i < t.balancer.members.length := h.lt_of_asks visit (by rw [hasks, beq_self_eq_true])
  have helected := Balancer.elected_mark t.balancer i now outcome
  refine ⟨h.sound.mark now outcome, fun j => ?_, fun j => ?_, ?_⟩
  · have hset := inFlight_set visit (t.balancer.mark i now outcome)
      (v.answered left tried outcome) j
    rw [asks_answered, hasks] at hset
    simp only [beq_iff_eq, Bool.false_eq_true, if_false] at hset
    have hbefore := h.elections j
    rw [Balancer.electionsOf] at hbefore
    rw [Balancer.electionsOf, helected, hbefore, answers_append, answers_event]
    omega
  · rw [Balancer.errorsOf_mark hlt, h.errors, List.count_append, count_blamed_event]
  · rw [helected, h.total, List.countP_append, List.countP_singleton, isChosen_event]
    rfl

variable [OfNat Load 0] [Add Load] [Max Load] [LT Load] [DecidableLT Load]

theorem Accounted.choose (h : t.Accounted log) {k left : Nat} {v : Visit} {tried : List Bool}
    {first : Bool} {now : Moment} {p : Pick} {balancer : Balancer Load}
    (visit : t.visits[k]? = some v) (stage : v.stage = .choosing (left + 1) tried first)
    (select : t.balancer.select now v.routes tried first = (.picked p, balancer)) :
    Accounted ⟨balancer, t.visits.set k
      { v with stage := .asking left (tried.set p.index true) p.index }⟩
      (log ++ [.chosen p.index]) := by
  obtain ⟨hp, helected⟩ := Balancer.elected_of_picked (congrArg Prod.fst select)
  have hsound := h.sound.select now v.routes tried first
  have herrors := Balancer.errors_select t.balancer now v.routes tried first
  rw [select] at helected hsound herrors
  refine ⟨hsound, fun i => ?_, fun i => ?_, ?_⟩
  · have hset := inFlight_set visit balancer
      { v with stage := .asking left (tried.set p.index true) p.index } i
    have hasks : Visit.asks i { v with stage := .asking left (tried.set p.index true) p.index } =
      (p.index == i) := rfl
    rw [asks_of_choosing stage, hasks] at hset
    have hbefore := h.elections i
    rw [Balancer.electionsOf] at hbefore
    rw [Balancer.electionsOf, helected, getD_modify_succ hp, hbefore, answers_append,
      answers_chosen]
    simp only [beq_iff_eq, Bool.false_eq_true, if_false] at hset
    omega
  · have hbefore := h.errors i
    rw [Balancer.errorsOf] at hbefore
    rw [Balancer.errorsOf, herrors, hbefore, List.count_append]
    rfl
  · rw [helected, sum_modify_succ hp, h.total, List.countP_append]
    rfl

/-- One step. -/
theorem Accounted.step (h : t.Accounted log) (hs : Step t events t') :
    t'.Accounted (log ++ events) := by
  cases hs with
  | arrive routes =>
    refine h.quiet h.sound rfl rfl fun i => ?_
    show (t.visits ++ [_]).countP (Visit.asks i) = _
    rw [List.countP_append]
    rfl
  | choose visit stage now select => exact h.choose visit stage select
  | @turnAway k left v tried first choice balancer visit stage now select unpicked =>
    have hunpicked : ∀ p, (t.balancer.select now v.routes tried first).1 ≠ .picked p := by
      rw [select]
      exact unpicked
    have hsound := h.sound.select now v.routes tried first
    have herrors := Balancer.errors_select t.balancer now v.routes tried first
    have helected := Balancer.elected_of_unpicked hunpicked
    rw [select] at hsound herrors helected
    exact h.quiet hsound helected herrors fun i =>
      inFlight_set_of_idle visit (asks_of_choosing stage i) rfl
  | giveUp visit stage =>
    exact h.quiet h.sound rfl rfl fun i =>
      inFlight_set_of_idle visit (asks_of_choosing stage i) rfl
  | answer visit stage outcome now => exact h.answer visit stage outcome now
  | refresh settings members =>
    exact h.quiet (h.sound.apply settings members)
      (Balancer.map_apply (fun _ _ => rfl) t.balancer settings members)
      (Balancer.map_apply (fun _ _ => rfl) t.balancer settings members) fun _ => rfl

/-- By induction on the steps. -/
theorem Accounted.run (h : t.Accounted []) (hr : Run t log t') : t'.Accounted log := by
  induction hr with
  | refl => exact h
  | step _ hs ih => exact ih.step hs

/-- **Every election is accounted for**, however the steps of requests and refreshes come in
between. -/
theorem bookkeeping {b : Balancer Load} (hb : b.Fresh) (h : Run ⟨b, []⟩ log t) :
    (∀ m ∈ t.balancer.members, (m.inError = true ↔ m.errorTime?.isSome = true) ∧
      (m.inError = true → m.recovering = false) ∧ m.errors ≤ m.elected) ∧
    (t.balancer.members.map Member.elected).sum = log.countP Event.isChosen ∧
    ∀ i m, t.balancer.members[i]? = some m →
      m.elected = log.count (.blamed i) + log.count (.served i) + log.count (.spared i) +
        t.inFlight i := by
  have haccounted := (accounted_of_fresh hb).run h
  have hcounts : ∀ i m, t.balancer.members[i]? = some m →
      m.elected = t.balancer.electionsOf i ∧ m.errors = t.balancer.errorsOf i := by
    intro i m hm
    simp [Balancer.electionsOf, Balancer.errorsOf, hm]
  refine ⟨fun m hm => ?_, haccounted.total, fun i m hm => ?_⟩
  · obtain ⟨i, hi⟩ := List.mem_iff_getElem?.1 hm
    obtain ⟨helected, herrors⟩ := hcounts i m hi
    have hsound := haccounted.sound m hm
    refine ⟨hsound.dated, hsound.resting, ?_⟩
    rw [helected, herrors, haccounted.elections, haccounted.errors, answers]
    omega
  · rw [(hcounts i m hm).1, haccounted.elections, answers]

end

theorem fresh_duo : Balancer.duo.Fresh := by
  intro m hm
  have hmember : m = .ofSettings "a" { factor := 1, route := "a" } ∨
      m = .ofSettings "b" { factor := 1, route := "b" } := by
    simpa [Balancer.duo, Member.ofSettings] using hm
  rcases hmember with rfl | rfl
  · exact ⟨_, rfl⟩
  · exact ⟨_, rfl⟩

/-- Two requests beside one another.  The first one fails on its first member and goes on to the
other, which still serves the second one by then; its answer is not in yet. -/
theorem bookkeeping_of_two : ∃ t : Traffic Nat,
    Run ⟨Balancer.duo, []⟩ [.chosen 0, .chosen 1, .blamed 0, .chosen 1, .served 1] t ∧
    (∀ m ∈ t.balancer.members, (m.inError = true ↔ m.errorTime?.isSome = true) ∧
      (m.inError = true → m.recovering = false) ∧ m.errors ≤ m.elected) ∧
    (t.balancer.members.map Member.elected).sum = 3 ∧
    t.inFlight 1 = 1 ∧ ∀ m, t.balancer.members[1]? = some m → m.elected = 0 + 1 + 0 + 1 := by
  have h₁ : Run ⟨Balancer.duo, []⟩ [] _ :=
    ((Run.refl _).step (.arrive _ [])).step (.arrive _ ["b"])
  have h₂ : Run ⟨Balancer.duo, []⟩ [.chosen 0] _ :=
    h₁.step (.choose (k := 0) (p := ⟨0, "a"⟩) rfl rfl 1
      (Prod.ext (by decide +kernel) rfl))
  have h₃ : Run ⟨Balancer.duo, []⟩ [.chosen 0, .chosen 1] _ :=
    h₂.step (.choose (k := 1) (p := ⟨1, "b"⟩) rfl rfl 2
      (Prod.ext (by decide +kernel) rfl))
  have h₄ : Run ⟨Balancer.duo, []⟩ [.chosen 0, .chosen 1, .blamed 0] _ :=
    h₃.step (.answer (k := 0) rfl rfl (.error (.unavailable "a")) 3)
  have h₅ : Run ⟨Balancer.duo, []⟩ [.chosen 0, .chosen 1, .blamed 0] _ :=
    h₄.step (.refresh _ { recoverTime := 30 } [{ factor := 2, route := "a" }])
  have h₆ : Run ⟨Balancer.duo, []⟩ [.chosen 0, .chosen 1, .blamed 0, .chosen 1] _ :=
    h₅.step (.choose (k := 0) (p := ⟨1, "b"⟩) rfl rfl 4
      (Prod.ext (by decide +kernel) rfl))
  have h₇ : Run ⟨Balancer.duo, []⟩ [.chosen 0, .chosen 1, .blamed 0, .chosen 1, .served 1] _ :=
    h₆.step (.answer (k := 1) rfl rfl (.ok 200) 5)
  obtain ⟨hrecords, htotal, hcounts⟩ := bookkeeping fresh_duo h₇
  exact ⟨_, h₇, hrecords, htotal, rfl, fun m hm => hcounts 1 m hm⟩

end Traffic

end AjpGateway
