import AjpGateway.Proofs.Worker.Connections
import AjpGateway.Proofs.Worker.Opening
import AjpGateway.Proofs.Worker.Sizing

/-!
# Endpoints

A request holds an endpoint of a backend: a line, over which any number of jobs may be served, and
which goes back to the pool only if the last exchange on it says so.

An exchange that ends took whole packets off its connection, of which the last one ended the
response.  The byte behind the type of that packet lets the connection be kept if it is 1.  In all
other cases the connection is closed: after any error, another byte there or none.

    b.talk.run t = (.ok (status, reuse), w) → t.connection.Completes reuse w.connection
                                                                              (completes_of_talk)
    b.serveOn line job = (to serve the job at an endpoint, and to release it)       (serveOn_eq)
    c.endpoint.line.Fits size → c.Goes                                                  (Call.goes)
-/

namespace AjpGateway

open Packet

/-! ## How an exchange ends -/

/-- What an exchange that ended took off its connection: whole packets, of which the last one ended
the response and no other did.  The byte behind its type says whether the connection may be
kept. -/
structure Connection.Completes (c : Connection) (reuse : Bool) (c' : Connection) : Prop where
  id : c'.id = c.id
  packets : ∃ (payloads : List Bytes) (last : Bytes),
    (∀ payload ∈ payloads, ∃ reply, Reply.ofPayload payload = .ok reply ∧ reply.goesOn = true) ∧
    c.stream.available = payloads.flatMap (Wire.packet fromContainer) ++
      (Wire.packet fromContainer (MessageType.endResponse.code :: last) ++ c'.stream.available) ∧
    reuse = (last.head? == some 1)

theorem Talk.Relayed.goesOn {t u : Talk} {rounds : List Round} (h : t.Relayed rounds u) :
    ∀ round ∈ rounds, round.reply.goesOn = true := by
  induction h with
  | done t => exact List.forall_mem_nil _
  | round _ goesOn _ _ ih => exact List.forall_mem_cons.2 ⟨goesOn, ih⟩

namespace Backend

variable {b : Backend} {t u w : Talk} {status : Nat} {reuse : Bool}

/-- An opening takes nothing off the connection. -/
theorem of_opening (h : b.opening.run t = (.ok (), u)) :
    u.connection.stream.available = t.connection.stream.available ∧
      u.connection.id = t.connection.id ∧ u.request.capacity = t.request.capacity ∧
      u.reply = t.reply := by
  unfold opening at h
  rw [run_bind_of_ok (run_get t)] at h
  obtain ⟨_, v, hencode, h⟩ := run_bind_eq_ok_iff.1 h
  obtain ⟨_, x, hforward, h⟩ := run_bind_eq_ok_iff.1 h
  obtain ⟨bytes, hsent⟩ := sent_of_forward hencode hforward
  obtain ⟨first, y, hfirst, h⟩ := run_bind_eq_ok_iff.1 h
  obtain ⟨j, -, rfl⟩ := of_onJob hfirst
  have hx := congrArg Stream.delivered hsent.reads
  by_cases hf : first = []
  · rw [if_neg (not_not_intro hf)] at h
    cases h
    exact ⟨hx, hsent.id, hsent.request, hsent.room⟩
  · rw [if_pos hf] at h
    unfold sendBody at h
    obtain ⟨_, z, hbody, h⟩ := run_bind_eq_ok_iff.1 h
    obtain ⟨m, hm, rfl⟩ := of_onRequest hbody
    obtain ⟨s, hs, rfl⟩ := of_transmit h
    have hcapacity := (keeps_encodeBody first).capacity x.request
    rw [show ({ x with job := j } : Talk).request = x.request from rfl] at hm
    rw [hm] at hcapacity
    exact ⟨(congrArg Stream.delivered hs).trans hx, hsent.id, hcapacity.trans hsent.request,
      hsent.room⟩

/-- **An exchange ends with the end of the response**, and with no packet begun. -/
theorem completes_of_talk (hsize : Admissible t.request.capacity)
    (hroom : headerSize ≤ t.reply.capacity) (h : b.talk.run t = (.ok (status, reuse), w)) :
    t.connection.Completes reuse w.connection := by
  rw [talk_eq] at h
  obtain ⟨_, u, hopening, h⟩ := run_bind_eq_ok_iff.1 h
  rw [run_bind_of_ok (run_get u)] at h
  obtain ⟨havailable, hid, hrequest, hreply⟩ := of_opening hopening
  rw [← hrequest] at hsize
  rw [← hreply] at hroom
  obtain ⟨rounds, v, payload, hrelayed, hlast, -⟩ := relayed_of_relay hsize hroom h
  obtain ⟨last, rfl, hreuse⟩ := Reply.ofPayload_eq_endResponse_iff.1 hlast.spells
  refine ⟨hlast.id.trans (hrelayed.id.trans hid), rounds.map Round.payload, last, ?_, ?_, hreuse⟩
  · intro payload hpayload
    obtain ⟨round, hround, rfl⟩ := List.mem_map.1 hpayload
    exact ⟨round.reply, hrelayed.spells round hround, hrelayed.goesOn round hround⟩
  · rw [← havailable, hrelayed.available, hlast.available, List.flatMap_map]
    rfl

section
variable {size : Nat} {line line' : Line} {job job' : Job}

/-- An exchange with a result is a talk that ended so. -/
theorem exchange_ok (hsize : Admissible size) (hline : line.Fits size)
    (h : b.exchange line job = (.ok (status, reuse), line', job')) :
    ∃ t w, b.talk.run t = (.ok (status, reuse), w) ∧
      t.connection.Completes reuse w.connection ∧
      line' = { connection? := some w.connection, request := w.request, reply := w.reply } ∧
      job' = w.job := by
  rcases b.exchange_cases job hline with ⟨e, line'', job'', hx, -⟩ | ⟨t, r, w, ht, hrun, hx⟩
  · rw [hx] at h
    cases h
  · rw [hx] at h
    cases h
    have hadmissible : Admissible t.request.capacity := by rw [ht.request]; exact hsize
    have hroom : headerSize ≤ t.reply.capacity := by
      rw [ht.reply]
      exact Nat.le_trans (by decide) hsize.1
    exact ⟨t, w, hrun, completes_of_talk hadmissible hroom hrun, rfl, rfl⟩

theorem exchangeTwice_ok (hsize : Admissible size) (hline : line.Fits size)
    (h : b.exchangeTwice line job = (.ok (status, reuse), line', job')) :
    ∃ t w, b.talk.run t = (.ok (status, reuse), w) ∧
      t.connection.Completes reuse w.connection ∧
      line' = { connection? := some w.connection, request := w.request, reply := w.reply } ∧
      job' = w.job := by
  have hfirst := b.fits_exchange job hline
  unfold exchangeTwice at h
  rcases hr : b.exchange line job with ⟨r, line₁, job₁⟩
  rw [hr] at h hfirst
  cases r with
  | ok r => exact exchange_ok hsize hline (hr.trans h)
  | error e =>
    dsimp only at h
    split at h
    · exact exchange_ok hsize hfirst.anew h
    · cases h

end

end Backend

/-! ## Endpoints -/

/-- What a request holds of a backend: a line, and whether it may be kept as the last exchange left
it. -/
structure Endpoint where
  line : Line
  reuse : Bool := false

namespace Backend

/-- Counts an error that is not the client's. -/
def blame (b : Backend) (f : ServiceError) (job : Job) : Backend × Job :=
  if f.isClient then (b, job)
  else ({ b with errors := b.errors + 1 }, job.count (.workerError b.name f.recoverable))

/-- The backend while it serves. -/
def busy (b : Backend) : Backend := { b with requests := b.requests + 1 }

/-- Serves a job at an endpoint.  The connection is closed unless it may be kept. -/
def serveAt (b : Backend) (e : Endpoint) (job : Job) : Outcome × Endpoint × Backend × Job :=
  match b.phase.ready b.name with
  | .error f => (.error f, e, b, job)
  | .ok () =>
    let b := b.busy
    match b.exchangeTwice e.line job with
    | (.ok (status, true), line, job) => (.ok status, { line, reuse := true }, b, job)
    | (.ok (status, false), line, job) => (.ok status, { line := line.closed }, b, job)
    | (.error f, line, job) => (.error f, { line := line.closed }, b.blame f job)

/-- Gives an endpoint back: its line is kept, or dropped. -/
def release (b : Backend) (e : Endpoint) (job : Job) : Backend × Job :=
  if e.reuse then b.keep e.line job else (b, job)

/-- To serve one job over a line is to serve it at an endpoint and give that back. -/
theorem serveOn_eq (b : Backend) (line : Line) (job : Job) :
    b.serveOn line job =
      let (r, e, b, job) := b.serveAt { line } job
      (r, b.release e job) := by
  unfold serveOn serve serveAt release blame busy
  cases b.phase.ready b.name with
  | error f => rfl
  | ok _ =>
    dsimp only
    rcases exchangeTwice { b with requests := b.requests + 1 } line job with ⟨r, line', job'⟩
    cases r with
    | ok r =>
      obtain ⟨status, reuse⟩ := r
      cases reuse <;> rfl
    | error f =>
      dsimp only
      by_cases hf : f.isClient = true
      · rw [if_pos hf, if_pos hf]
        rfl
      · rw [if_neg hf, if_neg hf]
        rfl

/-- To count an error changes nothing else. -/
theorem blame_eq (b : Backend) (f : ServiceError) (job : Job) :
    (∃ errors, (b.blame f job).1 = { b with errors }) ∧
      (b.blame f job).2.world.network = job.world.network ∧
      (b.blame f job).2.world.history = job.world.history := by
  unfold blame
  split <;> exact ⟨⟨_, rfl⟩, rfl, rfl⟩

end Backend

/-! ## Calls -/

/-- A job about to be served at an endpoint of a backend. -/
structure Call where
  backend : Backend
  endpoint : Endpoint
  job : Job

namespace Call

def outcome (c : Call) : Outcome := (c.backend.serveAt c.endpoint c.job).1

/-- The endpoint that the call leaves. -/
def left (c : Call) : Endpoint := (c.backend.serveAt c.endpoint c.job).2.1

/-- The backend after the call. -/
def worker (c : Call) : Backend := (c.backend.serveAt c.endpoint c.job).2.2.1

/-- The job after the call. -/
def after (c : Call) : Job := (c.backend.serveAt c.endpoint c.job).2.2.2

/-- The connections that a call has in hand: that of its line, and those that it opens.  A backend
that is not open takes no calls. -/
def Uses (c : Call) (id : Nat) : Prop :=
  c.backend.phase = .initialized ∧ c.endpoint.line.Offers c.job.world c.after.world id

/-- The call gave a status after an exchange that ended, and left everything as it then was. -/
structure Gives (c : Call) (status : Nat) (reuse : Bool) (w : Talk) : Prop where
  outcome : c.outcome = .ok status
  talk : ∃ t, c.backend.busy.talk.run t = (.ok (status, reuse), w) ∧
    t.connection.Completes reuse w.connection
  after : c.after = w.job

/-- The call ended so that the line that it left may be kept, the byte in the last packet being
1. -/
def Ends (c : Call) (line : Line) : Prop :=
  c.left = { line, reuse := true } ∧ ∃ status w, c.Gives status true w ∧
    line = { connection? := some w.connection, request := w.request, reply := w.reply }

end Call

/-- **Every way that a call may go.**  The connection is closed after every error, and where the
byte in the last packet is missing or is not 1. -/
inductive Call.Goes (c : Call) : Prop
  /-- the backend is not open -/
  | refused (phase : c.backend.phase ≠ .initialized) (error : ∃ f, c.outcome = .error f)
    (left : c.left = c.endpoint) (after : c.after = c.job)
  | failed (phase : c.backend.phase = .initialized) (error : ∃ f, c.outcome = .error f)
    (left : c.left = { line := c.left.line.closed })
  | finished (phase : c.backend.phase = .initialized) (gives : ∃ status w, c.Gives status false w)
    (left : c.left = { line := c.left.line.closed })
  | ended (phase : c.backend.phase = .initialized) (ends : c.Ends c.left.line)

namespace Call

variable {c : Call}

/-- A connection is left by a call that ended in due form, or by one that was refused. -/
theorem Goes.of_mem_ids (h : c.Goes) {id : Nat} (hid : id ∈ c.left.line.ids) :
    c.backend.phase ≠ .initialized ∧ c.left = c.endpoint ∨ c.Ends c.left.line := by
  cases h with
  | refused phase _ left _ => exact .inl ⟨phase, left⟩
  | failed _ _ left =>
    rw [congrArg Endpoint.line left] at hid
    cases hid
  | finished _ _ left =>
    rw [congrArg Endpoint.line left] at hid
    cases hid
  | ended _ ends => exact .inr ends

/-- What a backend that is open may keep was left by a call that ended in due form. -/
theorem Goes.of_reuse (h : c.Goes) (hphase : c.backend.phase = .initialized)
    (hreuse : c.left.reuse = true) : c.Ends c.left.line := by
  cases h with
  | refused phase _ _ _ => exact absurd hphase phase
  | failed _ _ left =>
    rw [congrArg Endpoint.reuse left] at hreuse
    cases hreuse
  | finished _ _ left =>
    rw [congrArg Endpoint.reuse left] at hreuse
    cases hreuse
  | ended _ ends => exact ends

theorem of_serveAt {r : Outcome} {e : Endpoint} {b : Backend} {j : Job}
    (h : c.backend.serveAt c.endpoint c.job = (r, e, b, j)) :
    c.outcome = r ∧ c.left = e ∧ c.worker = b ∧ c.after = j := by
  unfold outcome left worker after
  rw [h]
  exact ⟨rfl, rfl, rfl, rfl⟩

theorem of_refused (h : c.backend.phase ≠ .initialized) :
    ∃ f, c.outcome = .error f ∧ c.left = c.endpoint ∧ c.worker = c.backend ∧ c.after = c.job := by
  cases hr : c.backend.phase.ready c.backend.name with
  | error f =>
    refine ⟨f, of_serveAt ?_⟩
    unfold Backend.serveAt
    rw [hr]
  | ok _ => exact absurd (Phase.ready_eq_ok_iff.1 hr) h

variable {line : Line} {job : Job} {status : Nat} {reuse : Bool} {f : ServiceError}

theorem of_ok (hphase : c.backend.phase = .initialized)
    (h : c.backend.busy.exchangeTwice c.endpoint.line c.job = (.ok (status, reuse), line, job)) :
    c.outcome = .ok status ∧ c.left = (if reuse then { line, reuse } else { line := line.closed }) ∧
      c.worker = c.backend.busy ∧ c.after = job := by
  refine of_serveAt ?_
  unfold Backend.serveAt
  rw [Phase.ready_eq_ok_iff.2 hphase]
  dsimp only
  rw [h]
  cases reuse <;> rfl

theorem of_error (hphase : c.backend.phase = .initialized)
    (h : c.backend.busy.exchangeTwice c.endpoint.line c.job = (.error f, line, job)) :
    c.outcome = .error f ∧ c.left = { line := line.closed } ∧
      c.worker = (c.backend.busy.blame f job).1 ∧ c.after = (c.backend.busy.blame f job).2 := by
  refine of_serveAt ?_
  unfold Backend.serveAt
  rw [Phase.ready_eq_ok_iff.2 hphase]
  dsimp only
  rw [h]

theorem goes {size : Nat} (hsize : Admissible size) (hline : c.endpoint.line.Fits size) :
    c.Goes := by
  by_cases hphase : c.backend.phase = .initialized
  · rcases hx : c.backend.busy.exchangeTwice c.endpoint.line c.job with ⟨r, line, job⟩
    cases r with
    | error f =>
      obtain ⟨houtcome, hleft, -, -⟩ := of_error hphase hx
      refine .failed hphase ⟨f, houtcome⟩ ?_
      rw [hleft]
      rfl
    | ok r =>
      obtain ⟨status, reuse⟩ := r
      obtain ⟨houtcome, hleft, -, hafter⟩ := of_ok hphase hx
      obtain ⟨t, w, hrun, hcompletes, hkept, hjob⟩ := Backend.exchangeTwice_ok hsize hline hx
      have hgives : c.Gives status reuse w := ⟨houtcome, ⟨t, hrun, hcompletes⟩, hafter.trans hjob⟩
      cases reuse with
      | false =>
        refine .finished hphase ⟨status, w, hgives⟩ ?_
        rw [hleft]
        rfl
      | true =>
        refine .ended hphase ?_
        rw [hleft]
        exact ⟨hleft, status, w, hgives, hkept⟩
  · obtain ⟨f, houtcome, hleft, -, hafter⟩ := of_refused hphase
    exact .refused hphase ⟨f, houtcome⟩ hleft hafter

/-- Serving changes the counts of the backend only. -/
theorem worker_eq (c : Call) :
    ∃ requests errors, c.worker = { c.backend with requests, errors } := by
  by_cases hphase : c.backend.phase = .initialized
  · rcases hx : c.backend.busy.exchangeTwice c.endpoint.line c.job with ⟨r, line, job⟩
    cases r with
    | error f =>
      obtain ⟨-, -, hworker, -⟩ := of_error hphase hx
      obtain ⟨⟨errors, hblamed⟩, -, -⟩ := c.backend.busy.blame_eq f job
      exact ⟨_, errors, hworker.trans hblamed⟩
    | ok r =>
      obtain ⟨-, -, hworker, -⟩ := of_ok hphase hx
      exact ⟨_, _, hworker⟩
  · obtain ⟨-, -, -, hworker, -⟩ := of_refused hphase
    exact ⟨_, _, hworker⟩

theorem worker_keeps (c : Call) :
    c.worker.phase = c.backend.phase ∧ c.worker.settings = c.backend.settings ∧
      c.worker.pool? = c.backend.pool? := by
  obtain ⟨requests, errors, hworker⟩ := c.worker_eq
  rw [hworker]
  exact ⟨rfl, rfl, rfl⟩

/-- A call carries what its exchanges carry, if that takes no notice of what is counted. -/
theorem carries {R : Line → Job → Line → Job → Prop} (h : c.backend.busy.Carries R)
    (hcount : ∀ f line job, R line job line (c.backend.busy.blame f job).2) :
    R c.endpoint.line c.job c.left.line c.after := by
  by_cases hphase : c.backend.phase = .initialized
  · have htwice := h.exchangeTwice c.endpoint.line c.job
    rcases hx : c.backend.busy.exchangeTwice c.endpoint.line c.job with ⟨r, line, job⟩
    rw [hx] at htwice
    cases r with
    | error f =>
      obtain ⟨-, hleft, -, hafter⟩ := of_error hphase hx
      rw [hleft, hafter]
      exact h.trans (h.trans htwice (h.close line job)) (hcount f _ job)
    | ok r =>
      obtain ⟨-, hleft, -, hafter⟩ := of_ok hphase hx
      rw [hleft, hafter]
      split
      · exact htwice
      · exact h.trans htwice (h.close line job)
  · obtain ⟨-, -, hleft, -, hafter⟩ := of_refused hphase
    rw [hleft, hafter]
    exact h.refl _ _

theorem fits {size : Nat} (hline : c.endpoint.line.Fits size) : c.left.line.Fits size :=
  carries (c.backend.busy.carries_fits size) (fun _ _ _ h => h) hline

/-- **A call is on its own connections only**, and leaves no other. -/
theorem leads (c : Call) : c.endpoint.line.Leads c.job c.left.line c.after := by
  refine carries c.backend.busy.carries_leads fun f line job => ?_
  obtain ⟨-, hnetwork, hhistory⟩ := c.backend.busy.blame_eq f job
  exact (Line.Leads.refl line job).silent hnetwork hhistory

/-- Whatever a call does on a connection, it does on one that it has in hand. -/
theorem reaches (c : Call) : c.job.world.Reaches c.Uses c.after.world := by
  by_cases hphase : c.backend.phase = .initialized
  · exact c.leads.reaches.mono fun id hid => ⟨hphase, hid⟩
  · obtain ⟨-, -, -, -, hafter⟩ := of_refused hphase
    rw [hafter]
    exact .refl _

end Call

end AjpGateway
