import AjpGateway.Proofs.Worker.Attempt
import AjpGateway.Worker.Backend

/-!
# Exchanges of a backend

Once the request is sent, an exchange stays on its connection.  A failure of the network is
recoverable only while the job is uncommitted, so the exchange that runs again on a new connection
has committed nothing before.

    Relays act → (∀ b, Relays (f b)) → Relays (act >>= f)                       (Relays.bind)
    Relays b.answer                                                             (relays_answer)
    b.probe line job = (line', job') → b.connected line' job' = (.ok c, job'') →
      b.exchange line job = ((b.talk.run (line'.over c job'')).1, …)      (exchange_of_connected)
    j.tx.uncommitted → Attempted (b.serveOn line j).1 j (b.serveOn line j).2.2  (attempted_serveOn)
-/

namespace AjpGateway

/-- The talk over a line whose connection this is. -/
def Line.over (line : Line) (connection : Connection) (job : Job) : Talk :=
  { connection, request := line.request, reply := line.reply, job }

/-- The line of a talk. -/
def Talk.line (t : Talk) : Line :=
  { connection? := some t.connection, request := t.request, reply := t.reply }

namespace Backend

open Packet

/-! ## Steps on the connection -/

/-- Work on an exchange under way: it stays on the connection, and leaves the job uncommitted where
its failure is recoverable. -/
def Relays {β : Type} (act : Talking β) : Prop :=
  ∀ t, (act.run t).2.connection.id = t.connection.id ∧
    (∃ events, t.job.Goes events (act.run t).2.job ∧
      ∀ e ∈ events, e.StaysOn t.connection.id) ∧
    ∀ e, (act.run t).1 = .error e → e.recoverable = true →
      (act.run t).2.job.tx.uncommitted = true

section
variable {β γ : Type} {b : Backend}

theorem Relays.bind {act : Talking β} {f : β → Talking γ} (ha : Relays act)
    (hf : ∀ b, Relays (f b)) : Relays (act >>= f) := by
  intro t
  obtain ⟨hid, ⟨x, hx, hsx⟩, hopen⟩ := ha t
  rw [run_bind]
  rcases hr : act.run t with ⟨r, u⟩
  rw [hr] at hid hx hopen
  cases r with
  | error e => exact ⟨hid, ⟨x, hx, hsx⟩, fun e' h => hopen e' (by cases h; rfl)⟩
  | ok c =>
    obtain ⟨hid', ⟨y, hy, hsy⟩, hopen'⟩ := hf c u
    refine ⟨hid'.trans hid, ⟨x ++ y, hx.trans hy, fun e hm => ?_⟩, hopen'⟩
    rcases List.mem_append.1 hm with hm | hm
    · exact hsx e hm
    · have h := hsy e hm
      rwa [show u.connection.id = t.connection.id from hid] at h

/-- A step that leaves the connection and the job as they are, and fails for good. -/
theorem relays_of_same {act : Talking β}
    (hs : ∀ t, (act.run t).2.connection = t.connection ∧ (act.run t).2.job = t.job)
    (he : ∀ t e, (act.run t).1 = .error e → e.recoverable = false) : Relays act := by
  intro t
  obtain ⟨hc, hj⟩ := hs t
  refine ⟨by rw [hc], ⟨[], ?_, List.forall_mem_nil _⟩, fun e h hrec => ?_⟩
  · rw [hj]
    exact Job.Goes.refl t.job
  · rw [he t e h] at hrec
    cases hrec

theorem relays_pure (c : β) : Relays (pure c) :=
  relays_of_same (fun _ => ⟨rfl, rfl⟩) fun _ _ h => by cases h

theorem relays_get : Relays (get : Talking Talk) :=
  relays_of_same (fun _ => ⟨rfl, rfl⟩) fun _ _ h => by cases h

theorem relays_throw {e : ServiceError} (he : e.recoverable = false) :
    Relays (throw e : Talking β) :=
  relays_of_same (fun _ => ⟨rfl, rfl⟩) fun _ _ h => by cases h; exact he

theorem recoverable_packetStep {act : Talk → Except PacketError β × Talk} {t : Talk}
    {e : ServiceError} (he : ((b.packetStep act).run t).1 = .error e) : e.recoverable = false := by
  have he : (act t).1.mapError (ServiceError.packet b.name) = .error e := he
  cases hr : (act t).1 with
  | ok c =>
    rw [hr] at he
    cases he
  | error e' =>
    rw [hr] at he
    cases he
    rfl

theorem relays_packetStep {act : Talk → Except PacketError β × Talk}
    (hs : ∀ t, (act t).2.connection = t.connection ∧ (act t).2.job = t.job) :
    Relays (b.packetStep act) :=
  relays_of_same hs fun _ _ he => recoverable_packetStep he

theorem relays_onJob {act : Serving β} (ha : Job.Local act) : Relays (Talk.onJob act) := by
  intro t
  obtain ⟨⟨events, hg, hl⟩, he⟩ := ha t.job
  refine ⟨rfl, ⟨events, hg, fun e hm => (hl e hm).staysOn _⟩, fun e h hrec => ?_⟩
  rw [he e h] at hrec
  cases hrec

/-- A failure of the network is recoverable only while the job is uncommitted. -/
theorem uncommitted_of_transport {e : NetFailure} {tx : Transaction}
    (h : (b.transport e tx).recoverable = true) : tx.uncommitted = true :=
  (Bool.and_eq_true_iff.1 h).2

theorem goes_note {t : Talk} {e : Event} {u : Talk} (hw : u.job.world = t.job.world.note e)
    (ht : u.job.tx = t.job.tx) (he : e.commits = false) : t.job.Goes [e] u.job :=
  Job.Goes.single (by rw [hw]; rfl) fun h => ⟨by rwa [ht] at h, he⟩

theorem relays_transmit_body : Relays (b.netStep (·.transmit .body)) := by
  intro t
  refine ⟨rfl, ⟨[_], goes_note rfl rfl rfl, fun e hm => ?_⟩, fun e he hrec => ?_⟩
  · rw [List.mem_singleton.1 hm]
    exact ⟨rfl, fun c' hc => (Option.some.inj hc).symm⟩
  · have he : (t.transmit .body).1.mapError (b.transport · (t.transmit .body).2.job.tx) =
        .error e := he
    cases hr : (t.transmit .body).1 with
    | ok c =>
      rw [hr] at he
      cases he
    | error e' =>
      rw [hr] at he
      cases he
      exact uncommitted_of_transport hrec

theorem relays_nextReply : Relays b.nextReply := by
  unfold nextReply
  refine Relays.bind (fun t => ?_) fun _ => relays_packetStep fun t => ⟨rfl, rfl⟩
  refine ⟨rfl, ⟨[_], goes_note rfl rfl rfl, fun e hm => ?_⟩, fun e he hrec => ?_⟩
  · rw [List.mem_singleton.1 hm]
    exact ⟨rfl, fun c' hc => (Option.some.inj hc).symm⟩
  · dsimp only [ExceptT.run] at he
    cases hr : t.collect.1 with
    | ok c =>
      rw [hr] at he
      cases he
    | error e' =>
      rw [hr] at he
      cases e' with
      | net e' =>
        cases he
        exact uncommitted_of_transport hrec
      | packet e' =>
        cases he
        cases hrec

theorem relays_onRequest (act : Marshal β) : Relays (b.packetStep (Talk.onRequest act)) :=
  relays_packetStep fun _ => ⟨rfl, rfl⟩

theorem relays_sendBody (data : Bytes) : Relays (b.sendBody data) :=
  (relays_onRequest (encodeBody data)).bind fun _ => relays_transmit_body

end

/-! ## One exchange -/

variable {b : Backend}

/-- One packet of the container, whatever it holds. -/
theorem relays_relay_of_next {fuel : Nat} {status? : Option Nat}
    (hnext : ∀ s?, Relays (relay.next b fuel s?)) : Relays (b.relay fuel status?) := by
  unfold relay
  refine relays_nextReply.bind fun reply => ?_
  cases reply with
  | sendHeaders status reason headers =>
    exact (relays_onJob (Job.local_writeHeaders _ _ _)).bind fun _ => hnext _
  | sendBody data => exact (relays_onJob (Job.local_writeBody data)).bind fun _ => hnext _
  | getBody requested =>
    refine relays_get.bind fun t => ?_
    refine (relays_onJob (Job.local_nextPiece _)).bind fun data => ?_
    exact (relays_sendBody data).bind fun _ => hnext _
  | endResponse reuse =>
    cases status? with
    | some status => exact relays_pure (status, reuse)
    | none => exact relays_throw rfl
  | pong => exact relays_throw rfl

theorem relays_relay (fuel : Nat) (status? : Option Nat) : Relays (b.relay fuel status?) := by
  induction fuel generalizing status? with
  | zero =>
    refine relays_relay_of_next fun s? => ?_
    unfold relay.next
    exact relays_throw rfl
  | succ n ih =>
    refine relays_relay_of_next fun s? => ?_
    unfold relay.next
    exact ih s?

/-- What follows the request: the first piece of its body, and the response. -/
def answer (b : Backend) : Talking (Nat × Bool) := do
  let first ← Talk.onJob Job.firstPiece
  if first ≠ [] then b.sendBody first
  b.relay (← get).supply none

theorem relays_answer (b : Backend) : Relays b.answer := by
  unfold answer
  refine (relays_onJob Job.local_firstPiece).bind fun first => ?_
  have hrest : Relays (do b.relay (← get).supply none : Talking (Nat × Bool)) :=
    relays_get.bind fun t => relays_relay t.supply none
  by_cases hf : first ≠ []
  · rw [if_pos hf]
    exact (relays_sendBody first).bind fun _ => hrest
  · rw [if_neg hf]
    exact hrest

/-- **An exchange sends the request once**, and then stays on its connection. -/
theorem attempted_talk (b : Backend) {t : Talk} (ht : t.job.tx.uncommitted = true) :
    Attempted (b.talk.run t).1 t.job (b.talk.run t).2.job := by
  unfold talk
  rw [run_bind_of_ok (run_get t), run_bind]
  rcases hp : (b.packetStep (Talk.onRequest (b.forwardRequest t.job.tx).encode)).run t with ⟨r, u⟩
  have hu : u.job = t.job := (congrArg (fun p => p.2.job) hp).symm
  rw [← hu] at ht ⊢
  cases r with
  | error e =>
    refine Attempted.of_local (Job.Goes.refl u.job) (List.forall_mem_nil _) ?_
    intro e' he
    cases he
    exact recoverable_packetStep (congrArg Prod.fst hp)
  | ok _ =>
    show Attempted ((b.netStep (·.transmit .forward) >>= fun _ => b.answer).run u).1 u.job
      ((b.netStep (·.transmit .forward) >>= fun _ => b.answer).run u).2.job
    rw [run_bind]
    rcases hf : (b.netStep (·.transmit .forward)).run u with ⟨r, v⟩
    have hid : v.connection.id = u.connection.id := (congrArg (fun p => p.2.connection.id) hf).symm
    have htx : v.job.tx = u.job.tx := (congrArg (fun p => p.2.job.tx) hf).symm
    have hsent : u.job.Goes [.sent u.connection.id .forward _] v.job :=
      goes_note (congrArg (fun p => p.2.job.world) hf).symm htx rfl
    cases r with
    | error e =>
      refine ⟨⟨_, hsent, OneExchange.of_forward (List.forall_mem_nil _)⟩, ?_⟩
      intro _ _ _
      rw [htx]
      exact ht
    | ok _ =>
      obtain ⟨-, ⟨y, hy, hstays⟩, hopen⟩ := b.relays_answer v
      rw [hid] at hstays
      exact ⟨⟨_, hsent.trans hy, OneExchange.of_forward hstays⟩, hopen⟩

/-! ## Before the exchange -/

/-- A probe keeps what its steps keep. -/
theorem answersProbe_keeps {I : Talk → Prop}
    (hping : ∀ t : Talk, I t → I (Talk.onRequest encodePing t).2)
    (hsend : ∀ t : Talk, I t → I (t.transmit .probe).2)
    (hcollect : ∀ t : Talk, I t → I t.collect.2) (hread : ∀ t : Talk, I t → I t.decoded.2)
    {t : Talk} (h : I t) : I (answersProbe t).2 := by
  have hu := hping t h
  unfold answersProbe
  rcases hr : Talk.onRequest encodePing t with ⟨r, u⟩
  rw [hr] at hu
  cases r with
  | error e => exact hu
  | ok _ =>
    have hv := hsend u hu
    dsimp only
    rcases hr : u.transmit .probe with ⟨r, v⟩
    rw [hr] at hv
    cases r with
    | error e => exact hv
    | ok _ =>
      have hw := hcollect v hv
      dsimp only
      rcases hr : v.collect with ⟨r, w⟩
      rw [hr] at hw
      cases r with
      | error e => exact hw
      | ok _ =>
        have hx := hread w hw
        dsimp only
        rcases hr : w.decoded with ⟨r, x⟩
        rw [hr] at hx
        cases r with
        | error e => exact hx
        | ok reply => cases reply <;> exact hx

/-- A probe leaves the line and the job as they are, or it is made on the line's connection, which
is the only one that it may leave. -/
theorem probe_cases (b : Backend) (line : Line) (job : Job) :
    b.probe line job = (line, job) ∨
    ∃ c u left?, line.connection? = some c ∧ u = (answersProbe (line.over c job)).2 ∧
      b.probe line job = ({ u.line with connection? := left? }, u.job) ∧
      (left? = none ∨ left? = some u.connection) := by
  unfold probe
  cases line.connection? with
  | none => exact .inl rfl
  | some c =>
    cases b.settings.probeLimit? with
    | none => exact .inl rfl
    | some limit =>
      refine .inr ⟨c, _, _, rfl, rfl, rfl, ?_⟩
      by_cases halive : (answersProbe (line.over c job)).1 = true
      · exact .inr (if_pos halive)
      · exact .inl (if_neg halive)

section
variable {I : Job → Prop}

/-- A probe does no more to a job than to note what it sends and what it receives. -/
theorem probe_keeps
    (hsent : ∀ j c bytes, I j → I { j with world := j.world.note (.sent c .probe bytes) })
    (hreceived : ∀ j c n, I j → I { j with world := j.world.note (.received c n) })
    (b : Backend) (line : Line) {job : Job} (h : I job) : I (b.probe line job).2 := by
  obtain hp | ⟨c, u, left?, -, rfl, hp, -⟩ := b.probe_cases line job
  · rw [hp]
    exact h
  · rw [hp]
    exact answersProbe_keeps (I := fun t => I t.job) (fun _ h => h) (fun _ => hsent _ _ _)
      (fun _ => hreceived _ _ _) (fun _ h => h) h

/-- To connect changes the network, and notes the connection that is opened. -/
theorem connected_keeps
    (hnetwork : ∀ j network, I j → I { j with world := { j.world with network } })
    (hopened : ∀ j c peer, I j → I { j with world := j.world.note (.opened c peer) })
    (b : Backend) (line : Line) {job : Job} (h : I job) : I (b.connected line job).2 := by
  unfold connected
  cases line.connection? with
  | some connection => exact h
  | none =>
    cases b.address? with
    | none => exact h
    | some address =>
      simp only [World.connect]
      rcases job.world.network.connect address b.options with ⟨r, network⟩
      cases r with
      | error e => exact hnetwork job network h
      | ok c => exact hopened _ c.id address (hnetwork job network h)

end

theorem prepares_probe (b : Backend) (line : Line) (job : Job) :
    job.Prepares (b.probe line job).2 :=
  probe_keeps (fun _ _ _ h => h.trans (Job.prepares_note rfl rfl rfl))
    (fun _ _ _ h => h.trans (Job.prepares_note rfl rfl rfl)) b line (Job.Prepares.refl job)

theorem prepares_connected (b : Backend) (line : Line) (job : Job) :
    job.Prepares (b.connected line job).2 :=
  connected_keeps (fun _ _ h => h.trans (Job.prepares_silent rfl rfl))
    (fun _ _ _ h => h.trans (Job.prepares_note rfl rfl rfl)) b line (Job.Prepares.refl job)

/-! ## Requests -/

section
variable {b : Backend} {line : Line} {job : Job}

theorem exchange_of_unconnected {line' : Line} {job' job'' : Job} {e : ServiceError}
    (hp : b.probe line job = (line', job')) (hc : b.connected line' job' = (.error e, job'')) :
    b.exchange line job = (.error e, line', job'') := by
  unfold exchange
  rw [hp]
  simp only [hc]

theorem exchange_of_connected {line' : Line} {job' job'' : Job} {c : Connection}
    (hp : b.probe line job = (line', job')) (hc : b.connected line' job' = (.ok c, job'')) :
    b.exchange line job = ((b.talk.run (line'.over c job'')).1,
      (b.talk.run (line'.over c job'')).2.line, (b.talk.run (line'.over c job'')).2.job) := by
  unfold exchange
  rw [hp]
  simp only [hc]
  rfl

end

theorem attempted_exchange (b : Backend) (line : Line) {job : Job}
    (hj : job.tx.uncommitted = true) :
    Attempted (b.exchange line job).1 job (b.exchange line job).2.2 := by
  have hp := b.prepares_probe line job
  rcases hprobe : b.probe line job with ⟨line', job'⟩
  rw [hprobe] at hp
  have hc := hp.trans (b.prepares_connected line' job')
  rcases hconnected : b.connected line' job' with ⟨r, job''⟩
  rw [hconnected] at hc
  cases r with
  | error e =>
    rw [exchange_of_unconnected hprobe hconnected]
    exact hc.failed hj
  | ok connection =>
    rw [exchange_of_connected hprobe hconnected]
    exact hc.attempted (b.attempted_talk (hc.uncommitted hj))

theorem recoverable_of_mayRetry {e : ServiceError} (h : mayRetry e = true) :
    e.recoverable = true := by
  cases e with
  | transport worker e r => exact h
  | _ => cases h

theorem attempted_exchangeTwice (b : Backend) (line : Line) {job : Job}
    (hj : job.tx.uncommitted = true) :
    Attempted (b.exchangeTwice line job).1 job (b.exchangeTwice line job).2.2 := by
  have hfirst := b.attempted_exchange line hj
  unfold exchangeTwice
  rcases hr : b.exchange line job with ⟨r, line', job'⟩
  rw [hr] at hfirst
  cases r with
  | ok r => exact hfirst
  | error e =>
    dsimp only
    by_cases hr : (line.connection?.isSome && mayRetry e) = true
    · rw [if_pos hr]
      have hrec := recoverable_of_mayRetry (Bool.and_eq_true_iff.1 hr).2
      exact hfirst.retry hrec (b.attempted_exchange _ (hfirst.uncommitted e rfl hrec))
    · rw [if_neg hr]
      exact hfirst

theorem attempted_serve (b : Backend) (line : Line) {job : Job} (hj : job.tx.uncommitted = true) :
    Attempted (b.serve line job).1 job (b.serve line job).2.2.2 := by
  unfold serve
  cases b.phase.ready b.name with
  | error e => exact (Job.Prepares.refl job).failed hj
  | ok _ =>
    dsimp only
    generalize Backend.mk b.name b.phase b.settings b.address? b.options b.pool? (b.requests + 1)
      b.errors = b₁
    have h := b₁.attempted_exchangeTwice line hj
    rcases hr : b₁.exchangeTwice line job with ⟨r, line', job'⟩
    rw [hr] at h
    cases r with
    | ok r =>
      refine h.result fun e he => ?_
      obtain ⟨status, reuse⟩ := r
      cases he
    | error e =>
      have he : Attempted (.error e : Outcome) job job' := h.result fun e' he => by cases he; rfl
      dsimp only
      by_cases hc : e.isClient = true
      · rw [if_pos hc]
        exact he
      · rw [if_neg hc]
        exact he.silently rfl rfl

theorem attempted_serveOn (b : Backend) (line : Line) {job : Job} (hj : job.tx.uncommitted = true) :
    Attempted (b.serveOn line job).1 job (b.serveOn line job).2.2 := by
  have h := b.attempted_serve line hj
  unfold serveOn
  rcases hr : b.serve line job with ⟨r, line?, b', job'⟩
  rw [hr] at h
  cases line? with
  | none => exact h
  | some line' =>
    dsimp only [keep]
    by_cases hk : b'.phase = .initialized ∧ line'.connection?.isSome = true
    · rw [if_pos hk]
      cases b'.pool? with
      | none => exact h
      | some pool => exact h.silently rfl rfl
    · rw [if_neg hk]
      exact h

theorem prepares_acquire (b : Backend) (job : Job) : job.Prepares (b.acquire job).2.2 := by
  unfold acquire
  cases b.phase.ready b.name with
  | error e => exact Job.Prepares.refl job
  | ok _ =>
    cases b.pool? with
    | none => exact Job.Prepares.refl job
    | some pool => exact Job.prepares_now job

end Backend

end AjpGateway
