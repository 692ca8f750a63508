import AjpGateway.Proofs.Running
import AjpGateway.Worker.Target

/-!
# How workers fail

A worker of any kind fails by itself, by its containers or by the client.  That there is no way for
a request, or that its way leads to no worker, is never its answer.

    FailsWith P act → (∀ a, FailsWith P (f a)) → FailsWith P (act >>= f)        (FailsWith.bind)
    every leaf fails as workers do → every tree does                            (fails_serve)
-/

namespace AjpGateway

/-- An error of serving, not of finding the way. -/
def ServiceError.OfWorker : ServiceError → Prop
  | unknownWorker _ | unmapped _ => False
  | _ => True

/-! ## Steps -/

/-- Every error of the work is one of `P`. -/
def FailsWith {ε σ α : Type} (P : ε → Prop) (act : ExceptT ε (StateM σ) α) : Prop :=
  ∀ s e, (act.run s).1 = .error e → P e

section
variable {ε σ α β : Type} {P : ε → Prop}

theorem FailsWith.pure (a : α) : FailsWith P (pure a : ExceptT ε (StateM σ) α) :=
  fun _ _ h => by cases h

theorem FailsWith.get : FailsWith P (get : ExceptT ε (StateM σ) σ) :=
  fun _ _ h => by cases h

theorem FailsWith.modify (f : σ → σ) : FailsWith P (modify f : ExceptT ε (StateM σ) Unit) :=
  fun _ _ h => by cases h

theorem FailsWith.throw {e : ε} (he : P e) : FailsWith P (throw e : ExceptT ε (StateM σ) α) :=
  fun _ _ h => by cases h; exact he

theorem FailsWith.bind {act : ExceptT ε (StateM σ) α} {f : α → ExceptT ε (StateM σ) β}
    (ha : FailsWith P act) (hf : ∀ a, FailsWith P (f a)) : FailsWith P (act >>= f) := by
  intro s e h
  rw [run_bind] at h
  rcases hr : act.run s with ⟨r, t⟩
  rw [hr] at h
  cases r with
  | ok a => exact hf a t e h
  | error e' =>
    cases h
    exact ha s _ (congrArg Prod.fst hr)

theorem of_mapError {δ : Type} {x : Except δ α} {f : δ → ε} {e : ε}
    (h : x.mapError f = .error e) (hf : ∀ d, P (f d)) : P e := by
  cases x with
  | ok a => cases h
  | error d =>
    cases h
    exact hf d

end

/-- Work that fails as workers do. -/
abbrev FailsAsWorker {σ α : Type} (act : ExceptT ServiceError (StateM σ) α) : Prop :=
  FailsWith ServiceError.OfWorker act

/-! ## Jobs -/

namespace Job

theorem fails_pull (demanded : Bool) (most : Nat) : FailsAsWorker (pull demanded most) := by
  intro j e h
  unfold pull at h
  dsimp only [ExceptT.run] at h
  split at h
  · cases h
    trivial
  · cases h

theorem fails_firstPiece : FailsAsWorker firstPiece := by
  unfold firstPiece
  refine FailsWith.get.bind fun j => ?_
  cases j.tx.first with
  | some bytes => exact FailsWith.pure bytes
  | none =>
    refine (fails_pull false _).bind fun bytes => (FailsWith.modify _).bind fun _ => ?_
    exact FailsWith.pure bytes

theorem fails_nextPiece (most : Nat) : FailsAsWorker (nextPiece most) :=
  (FailsWith.modify _).bind fun _ => fails_pull true most

theorem fails_writeHeaders (status : Nat) (reason : String) (headers : List (String × String)) :
    FailsAsWorker (writeHeaders status reason headers) :=
  fun _ _ h => of_mapError h fun _ => trivial

theorem fails_writeBody (data : Bytes) : FailsAsWorker (writeBody data) :=
  fun _ _ h => of_mapError h fun _ => trivial

end Job

theorem Monitor.fails_respond (m : Monitor) (workers : List WorkerStatus) :
    FailsAsWorker (m.respond workers) := by
  unfold respond
  refine (Job.fails_writeHeaders _ _ _).bind fun _ => FailsWith.get.bind fun j => ?_
  by_cases h : (!Text.sameIgnoringCase j.tx.request.method "HEAD") = true
  · simp only [if_pos h]
    exact (Job.fails_writeBody _).bind fun _ => FailsWith.pure 200
  · simp only [if_neg h]
    exact FailsWith.pure 200

theorem Phase.ofWorker_of_ready {current : Phase} {worker : String} {e : ServiceError}
    (h : current.ready worker = .error e) : e.OfWorker := by
  cases current <;> cases h <;> trivial

/-! ## Backends -/

namespace Backend

open Packet

variable {b : Backend}

theorem fails_netStep {β : Type} (act : Talk → Except NetFailure β × Talk) :
    FailsAsWorker (b.netStep act) :=
  fun _ _ h => of_mapError h fun _ => trivial

theorem fails_packetStep {β : Type} (act : Talk → Except PacketError β × Talk) :
    FailsAsWorker (b.packetStep act) :=
  fun _ _ h => of_mapError h fun _ => trivial

theorem fails_onJob {β : Type} {act : Serving β} (h : FailsAsWorker act) :
    FailsAsWorker (Talk.onJob act) :=
  fun t e he => h t.job e he

theorem fails_nextReply : FailsAsWorker b.nextReply := by
  unfold nextReply
  refine FailsWith.bind (fun t e h => ?_) fun _ => fails_packetStep _
  refine of_mapError h fun d => ?_
  cases d <;> trivial

theorem fails_sendBody (data : Bytes) : FailsAsWorker (b.sendBody data) :=
  (fails_packetStep _).bind fun _ => fails_netStep _

theorem fails_relay_of_next {fuel : Nat} {status? : Option Nat}
    (hnext : ∀ s?, FailsAsWorker (relay.next b fuel s?)) :
    FailsAsWorker (b.relay fuel status?) := by
  unfold relay
  refine fails_nextReply.bind fun reply => ?_
  cases reply with
  | sendHeaders status reason headers =>
    exact (fails_onJob (Job.fails_writeHeaders _ _ _)).bind fun _ => hnext _
  | sendBody data => exact (fails_onJob (Job.fails_writeBody data)).bind fun _ => hnext _
  | getBody requested =>
    refine FailsWith.get.bind fun t => ?_
    refine (fails_onJob (Job.fails_nextPiece _)).bind fun data => ?_
    exact (fails_sendBody data).bind fun _ => hnext _
  | endResponse reuse =>
    cases status? with
    | some status => exact FailsWith.pure (status, reuse)
    | none => exact FailsWith.throw trivial
  | pong => exact FailsWith.throw trivial

theorem fails_relay (fuel : Nat) (status? : Option Nat) : FailsAsWorker (b.relay fuel status?) := by
  induction fuel generalizing status? with
  | zero =>
    refine fails_relay_of_next fun s? => ?_
    unfold relay.next
    exact FailsWith.throw trivial
  | succ n ih =>
    refine fails_relay_of_next fun s? => ?_
    unfold relay.next
    exact ih s?

theorem fails_talk (b : Backend) : FailsAsWorker b.talk := by
  unfold talk
  refine FailsWith.get.bind fun t => ?_
  refine (fails_packetStep _).bind fun _ => (fails_netStep _).bind fun _ => ?_
  refine (fails_onJob Job.fails_firstPiece).bind fun first => ?_
  have hrest : FailsAsWorker (do b.relay (← get).supply none : Talking (Nat × Bool)) :=
    FailsWith.get.bind fun t => fails_relay t.supply none
  by_cases hf : first ≠ []
  · simp only [if_pos hf]
    exact (fails_sendBody first).bind fun _ => hrest
  · simp only [if_neg hf]
    exact hrest

theorem ofWorker_of_connected {line : Line} {job : Job} {e : ServiceError}
    (h : (b.connected line job).1 = .error e) : e.OfWorker := by
  unfold connected at h
  split at h
  · cases h
  · split at h
    · cases h
      trivial
    · exact of_mapError h fun _ => trivial

theorem ofWorker_of_exchange {line : Line} {job : Job} {e : ServiceError}
    (h : (b.exchange line job).1 = .error e) : e.OfWorker := by
  unfold exchange at h
  dsimp only at h
  split at h
  · next hc =>
    cases h
    exact ofWorker_of_connected (congrArg Prod.fst hc)
  · exact b.fails_talk _ e h

theorem ofWorker_of_exchangeTwice {line : Line} {job : Job} {e : ServiceError}
    (h : (b.exchangeTwice line job).1 = .error e) : e.OfWorker := by
  unfold exchangeTwice at h
  dsimp only at h
  split at h
  · next hx =>
    split at h
    · exact ofWorker_of_exchange h
    · cases h
      exact ofWorker_of_exchange (congrArg Prod.fst hx)
  · exact ofWorker_of_exchange h

theorem ofWorker_of_serve {line : Line} {job : Job} {e : ServiceError}
    (h : (b.serve line job).1 = .error e) : e.OfWorker := by
  unfold serve at h
  split at h
  · next hready =>
    cases h
    exact Phase.ofWorker_of_ready hready
  · dsimp only at h
    split at h
    · cases h
    · next hx =>
      split at h <;> cases h <;> exact ofWorker_of_exchangeTwice (congrArg Prod.fst hx)

theorem ofWorker_of_serveOn {line : Line} {job : Job} {e : ServiceError}
    (h : (b.serveOn line job).1 = .error e) : e.OfWorker := by
  unfold serveOn at h
  split at h <;> next hs => exact ofWorker_of_serve ((congrArg Prod.fst hs).trans h)

theorem ofWorker_of_acquire {job : Job} {e : ServiceError}
    (h : (b.acquire job).1 = .error e) : e.OfWorker := by
  unfold acquire at h
  split at h
  · next hready =>
    cases h
    exact Phase.ofWorker_of_ready hready
  · cases h
    trivial
  · cases h

end Backend

/-! ## Members of a balancer -/

/-- By induction on the attempts left: a balancer's error is that of a member, or that no member
can be asked. -/
theorem Bench.ofWorker_of_attempts {Load α : Type} [OfNat Load 0] [Add Load] [Max Load] [LT Load]
    [DecidableLT Load] {ask : Nat → Bench Load α → Outcome × Bench Load α}
    (hask : ∀ i s e, (ask i s).1 = .error e → e.OfWorker) (routes : List String) (n : Nat)
    (tried : List Bool) (first : Bool) (s : Bench Load α) {e : ServiceError}
    (h : (attempts ask routes n tried first s).1 = .error e) : e.OfWorker := by
  induction n generalizing tried first s with
  | zero =>
    cases h
    trivial
  | succ n ih =>
    revert h
    unfold attempts
    dsimp only
    rcases s.balancer.select s.job.now.1 routes tried first with ⟨choice, balancer⟩
    cases choice with
    | exhausted =>
      intro h
      cases h
      trivial
    | refused =>
      intro h
      cases h
      trivial
    | picked p =>
      dsimp only
      generalize aim { balancer, workers := s.workers, job := s.job.now.2 } p.route = s₁
      rcases hr : ask p.index s₁ with ⟨outcome, s₂⟩
      cases outcome with
      | ok status =>
        intro h
        cases h
      | error e' =>
        dsimp only
        -- the member's error is the answer, or another member is asked
        split
        · intro h
          cases h
          exact hask p.index s₁ e (congrArg Prod.fst hr)
        · exact ih _ _ _

/-! ## Trees -/

/-- Serving fails as workers do. -/
def FailsServing {α : Type} (serve : (α → List WorkerStatus) → Job → Outcome × α × Job) : Prop :=
  ∀ view job e, (serve view job).1 = .error e → e.OfWorker

namespace Worker

theorem fails_serveMembers {α : Type} {servers : List (Server α)}
    (h : ∀ server ∈ servers, FailsServing server) (b : Balancer Float)
    (members : List (Worker α)) : FailsServing (serveMembers servers b members) := by
  intro view job e he
  unfold serveMembers at he
  split at he
  · next hready =>
    cases he
    exact Phase.ofWorker_of_ready hready
  · refine Bench.ofWorker_of_attempts ?_ _ _ _ _ _ he
    intro i s e he
    dsimp only at he
    split at he
    · cases he
      trivial
    · next server hi => exact h server (List.mem_of_getElem? hi) _ s.job e he

mutual

/-- By induction on the tree: balancers fail as their members do. -/
theorem fails_serve {α : Type} [Leaf α]
    (hleaf : ∀ a : α, FailsServing fun view => Leaf.serve view a) :
    ∀ w : Worker α, FailsServing w.serve
  | leaf a => fun view job => hleaf a (fun a => view (.leaf a)) job
  | balancer b members => fails_serveMembers (fails_servers hleaf members) b members

theorem fails_servers {α : Type} [Leaf α]
    (hleaf : ∀ a : α, FailsServing fun view => Leaf.serve view a) :
    ∀ members : List (Worker α), ∀ server ∈ servers members, FailsServing server
  | [], server, h => absurd h List.not_mem_nil
  | w :: rest, server, h => by
    rcases List.mem_cons.1 h with rfl | h
    · exact fails_serve hleaf w
    · exact fails_servers hleaf rest server h

end

end Worker

/-! ## The gateway's workers -/

theorem Target.ofWorker_of_acquire {t : Target} {job : Job} {e : ServiceError}
    (h : (t.acquire job).1 = .error e) : e.OfWorker := by
  cases t with
  | backend b =>
    have h : (b.acquire job).1.map Hold.line = .error e := h
    cases hr : (b.acquire job).1 with
    | ok line =>
      rw [hr] at h
      cases h
    | error e' =>
      rw [hr] at h
      cases h
      exact Backend.ofWorker_of_acquire hr
  | monitor m =>
    have h : (m.phase.ready m.name).map (fun _ => Hold.report) = .error e := h
    cases hr : m.phase.ready m.name with
    | ok _ =>
      rw [hr] at h
      cases h
    | error e' =>
      rw [hr] at h
      cases h
      exact Phase.ofWorker_of_ready hr

theorem Target.fails_serveOn (h : Hold) (t : Target) :
    FailsServing fun view => Target.serveOn view h t := by
  intro view job e he
  cases h with
  | line l =>
    cases t with
    | backend b => exact Backend.ofWorker_of_serveOn he
    | monitor m =>
      cases he
      trivial
  | report =>
    cases t with
    | backend b =>
      cases he
      trivial
    | monitor m => exact m.fails_respond (view (.monitor m)) job e he

theorem Target.fails_serve (t : Target) : FailsServing fun view => Leaf.serve view t := by
  intro view job e he
  dsimp only [Leaf.serve] at he
  split at he
  · next ha =>
    cases he
    exact Target.ofWorker_of_acquire (congrArg Prod.fst ha)
  · exact Target.fails_serveOn _ _ view _ e he

theorem Worker.ofWorker_of_serve {w : Worker Target} {view : Worker Target → List WorkerStatus}
    {job : Job} {e : ServiceError} (h : (w.serve view job).1 = .error e) : e.OfWorker :=
  Worker.fails_serve Target.fails_serve w view job e h

end AjpGateway
