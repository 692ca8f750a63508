import AjpGateway.Proofs.Worker.Exchange
import AjpGateway.Worker.Target

/-!
# No replay after commitment

Whatever the worker, a request is answered by one exchange.  A balancer asks a further member only
after a recoverable failure, which has committed nothing, and so do the balancers around it.

    every member answers → Attempted (attempts ask …).1 s.job (attempts ask …).2.job
                                                                       (attempted_attempts)
    every leaf answers → Answers w.serve                               (answers_serve)
    a request is served once, whatever the worker                      (servedOnce)
-/

namespace AjpGateway

/-! ## Monitors -/

theorem Monitor.local_respond (m : Monitor) (workers : List WorkerStatus) :
    Job.Local (m.respond workers) := by
  unfold respond
  refine (Job.local_writeHeaders _ _ _).bind fun _ => ?_
  refine Job.Local.get.bind fun j => ?_
  by_cases h : (!Text.sameIgnoringCase j.tx.request.method "HEAD") = true
  · simp only [if_pos h]
    exact (Job.local_writeBody _).bind fun _ => Job.Local.pure 200
  · simp only [if_neg h]
    exact Job.Local.pure 200

/-! ## Members of a balancer -/

namespace Bench

variable {Load α : Type}

theorem prepares_aim (s : Bench Load α) (route : String) : s.job.Prepares (s.aim route).job :=
  Job.prepares_silent rfl rfl

theorem settle_job (s : Bench Load α) (i : Nat) (outcome : Outcome) :
    (s.settle i outcome).job.world.history = s.job.world.history ∧
      (s.settle i outcome).job.tx = s.job.tx := by
  unfold settle
  cases outcome with
  | ok status => exact ⟨rfl, rfl⟩
  | error e =>
    dsimp only
    by_cases he : e.isClient = true
    · rw [if_pos he]
      exact ⟨rfl, rfl⟩
    · rw [if_neg he]
      exact ⟨rfl, rfl⟩

theorem recoverable_of_goesOn {e : ServiceError}
    (h : ¬ (e.isClient || !e.recoverable) = true) : e.recoverable = true := by
  cases hr : e.recoverable with
  | true => rfl
  | false =>
    rw [hr, Bool.not_false, Bool.or_true] at h
    exact absurd rfl h

/-- By induction on the attempts left: a further one follows a recoverable failure only. -/
theorem attempted_attempts [OfNat Load 0] [Add Load] [Max Load] [LT Load] [DecidableLT Load]
    {ask : Nat → Bench Load α → Outcome × Bench Load α}
    (hask : ∀ i s, s.job.tx.uncommitted = true → Attempted (ask i s).1 s.job (ask i s).2.job)
    (routes : List String) (n : Nat) (tried : List Bool) (first : Bool) {s : Bench Load α}
    (hs : s.job.tx.uncommitted = true) :
    Attempted (attempts ask routes n tried first s).1 s.job
      (attempts ask routes n tried first s).2.job := by
  induction n generalizing tried first s with
  | zero => exact (Job.Prepares.refl s.job).failed hs
  | succ n ih =>
    unfold attempts
    have hnow := Job.prepares_now s.job
    rcases hn : s.job.now with ⟨now, job⟩
    rw [hn] at hnow
    dsimp only at hnow ⊢
    rcases s.balancer.select now routes tried first with ⟨choice, balancer⟩
    cases choice with
    | exhausted => exact hnow.failed hs
    | refused => exact hnow.failed hs
    | picked p =>
      dsimp only
      generalize hs₁ : aim { balancer, workers := s.workers, job } p.route = s₁
      have haim : s.job.Prepares s₁.job := by
        rw [← hs₁]
        exact hnow.trans (prepares_aim { balancer, workers := s.workers, job } p.route)
      have hone := haim.attempted (hask p.index s₁ (haim.uncommitted hs))
      rcases hr : ask p.index s₁ with ⟨outcome, s₂⟩
      rw [hr] at hone
      obtain ⟨hw, ht⟩ := settle_job s₂ p.index outcome
      have hsettled := hone.silently hw (by rw [ht])
      cases outcome with
      | ok status => exact hsettled
      | error e =>
        dsimp only
        by_cases he : (e.isClient || !e.recoverable) = true
        · rw [if_pos he]
          exact hsettled
        · rw [if_neg he]
          have hrec := recoverable_of_goesOn he
          generalize hs₃ : settle s₂ p.index (.error e) = s₃ at hsettled
          have hcounted := hsettled.silently (l := s₃.job.count (.failover s₃.balancer.name)) rfl rfl
          exact hcounted.retry hrec (ih _ _ (hcounted.uncommitted e rfl hrec))

end Bench

/-! ## Trees -/

/-- Serving an uncommitted job is one attempt after another. -/
def Answers {α : Type} (serve : (α → List WorkerStatus) → Job → Outcome × α × Job) : Prop :=
  ∀ view job, job.tx.uncommitted = true → Attempted (serve view job).1 job (serve view job).2.2

namespace Worker

theorem answers_serveMembers {α : Type} {servers : List (Server α)} (h : ∀ server ∈ servers, Answers server)
    (b : Balancer Float) (members : List (Worker α)) :
    Answers (serveMembers servers b members) := by
  intro view job hj
  unfold serveMembers
  cases b.phase.ready b.name with
  | error e => exact (Job.Prepares.refl job).failed hj
  | ok _ =>
    refine Bench.attempted_attempts ?_ _ _ _ _ hj
    intro i s hs
    cases hi : servers[i]? with
    | none => exact (Job.Prepares.refl s.job).failed hs
    | some server => exact h server (List.mem_of_getElem? hi) _ s.job hs

mutual

/-- By induction on the tree: balancers answer as their members do. -/
theorem answers_serve {α : Type} [Leaf α] (hleaf : ∀ a : α, Answers fun view => Leaf.serve view a) :
    ∀ w : Worker α, Answers w.serve
  | leaf a => fun view job hj => hleaf a (fun a => view (.leaf a)) job hj
  | balancer b members => answers_serveMembers (answers_servers hleaf members) b members

theorem answers_servers {α : Type} [Leaf α]
    (hleaf : ∀ a : α, Answers fun view => Leaf.serve view a) :
    ∀ members : List (Worker α), ∀ server ∈ servers members, Answers server
  | [], server, h => absurd h List.not_mem_nil
  | w :: rest, server, h => by
    rcases List.mem_cons.1 h with rfl | h
    · exact answers_serve hleaf w
    · exact answers_servers hleaf rest server h

end

end Worker

/-! ## The gateway's workers -/

theorem Target.answers_serveOn (h : Hold) (t : Target) :
    Answers fun view => Target.serveOn view h t := by
  intro view job hj
  cases h with
  | line l =>
    cases t with
    | backend b => exact b.attempted_serveOn l hj
    | monitor m => exact (Job.Prepares.refl job).failed hj
  | report =>
    cases t with
    | backend b => exact (Job.Prepares.refl job).failed hj
    | monitor m =>
      obtain ⟨⟨events, hg, hl⟩, he⟩ := m.local_respond (view (.monitor m)) job
      exact Attempted.of_local hg hl he

theorem Target.prepares_acquire (t : Target) (job : Job) : job.Prepares (t.acquire job).2.2 := by
  cases t with
  | backend b => exact b.prepares_acquire job
  | monitor m => exact Job.Prepares.refl job

theorem Target.answers_serve (t : Target) : Answers fun view => Leaf.serve view t := by
  intro view job hj
  have hp := t.prepares_acquire job
  rcases hr : t.acquire job with ⟨r, t', job'⟩
  rw [hr] at hp
  have hr : Leaf.acquire t job = (r, t', job') := hr
  dsimp only
  rw [Leaf.serve, hr]
  cases r with
  | error e => exact hp.failed hj
  | ok hold => exact hp.attempted (Target.answers_serveOn hold t' view job' (hp.uncommitted hj))

theorem Worker.answers_serveOn (e : Endpoint Target) (w : Worker Target) :
    Answers fun view => Worker.serveOn e w view := by
  intro view job hj
  cases w with
  | leaf t =>
    cases e with
    | leaf h => exact Target.answers_serveOn h t (fun a => view (.leaf a)) job hj
    | balancer => exact (Job.Prepares.refl job).failed hj
  | balancer b members =>
    cases e with
    | leaf h => exact (Job.Prepares.refl job).failed hj
    | balancer =>
      exact Worker.answers_serve Target.answers_serve (.balancer b members) view job hj

/-- What serving a request shows: no attempt begins after a commitment, the answer comes from one
exchange, and a failure after which another worker may be asked has committed nothing. -/
structure ServedOnce (world : World) (outcome : Outcome) (world' : World) (events : List Event) :
    Prop where
  history : world'.history = events.reverse ++ world.history
  noReplay : NoReplay events
  oneExchange : OneExchange events
  untouched : ∀ e, outcome = .error e → e.recoverable = true → ∀ ev ∈ events, ev.commits = false

theorem Attempted.exists_events {outcome : Outcome} {j k : Job} (h : Attempted outcome j k) :
    ∃ events, ServedOnce j.world outcome k.world events := by
  obtain ⟨⟨events, hg, hone⟩, hopen⟩ := h
  exact ⟨events, hg.history, hone.noReplay, hone, fun e he hrec =>
    (hg.uncommitted (hopen e he hrec)).2⟩

/-- **No replay after commitment.**  A request begins no attempt once a part of its response was
given to the client or more of its body was read for a container, and all of its answer comes from
one exchange.  It is served by an endpoint of its own, or by one acquired before. -/
theorem Worker.servedOnce (w : Worker Target) (view : Worker Target → List WorkerStatus)
    (request : ClientRequest) (channel : Channel) (world : World) :
    (∃ events, ServedOnce world (w.serve view { tx := .begin request channel, world }).1
      (w.serve view { tx := .begin request channel, world }).2.2.world events) ∧
    ∀ e : Endpoint Target, ∃ events,
      ServedOnce world (w.serveOn e view { tx := .begin request channel, world }).1
        (w.serveOn e view { tx := .begin request channel, world }).2.2.world events := by
  have hbegin : (Transaction.begin request channel).uncommitted = true := rfl
  constructor
  · exact (answers_serve Target.answers_serve w view
      { tx := .begin request channel, world } hbegin).exists_events
  · intro e
    exact (answers_serveOn e w view { tx := .begin request channel, world } hbegin).exists_events

end AjpGateway
