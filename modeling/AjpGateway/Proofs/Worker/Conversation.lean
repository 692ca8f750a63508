import AjpGateway.Proofs.Packet.Decoding
import AjpGateway.Proofs.Results
import AjpGateway.Proofs.Worker.Body
import AjpGateway.Worker.Backend

/-!
# Conversations with a container

An exchange hears one reply after another and heeds each, until the response ends.  What it hears
are the packets that the connection delivers, in order and no more of them; what it does about a
reply depends on the reply alone.

    b.nextReply.run t = (.ok reply, u) → ∃ payload, t.Heard payload reply u    (heard_of_nextReply)
    (b.heed reply).run t = (.ok (), u) → ∃ piece, t.Heeded reply piece u            (heeded_of_heed)
    (b.relay fuel status?).run t = (.ok r, w) →
      ∃ told u, Relayed b t told u ∧ u.Heard _ (.endResponse r.2) w            (relayed_of_relay)
-/

namespace AjpGateway

open Packet

namespace Packet.Reply

/-- The status that a reply gives. -/
def status? : Reply → Option Nat
  | sendHeaders status _ _ => some status.toNat
  | _ => none

/-- Whether more replies may follow. -/
def goesOn : Reply → Bool
  | endResponse _ | pong => false
  | _ => true

/-- The status given last. -/
def lastStatus? (before : Option Nat) (replies : List Reply) : Option Nat :=
  replies.foldl (fun s reply => reply.status?.or s) before

/-- The bytes that a reply demands of the request's body. -/
def demand : Reply → Nat
  | getBody requested => requested.toNat
  | _ => 0

end Packet.Reply

/-! ## Hearing -/

/-- A packet was received, and is the reply. -/
structure Talk.Heard (t : Talk) (payload : Bytes) (reply : Reply) (u : Talk) : Prop where
  spells : Reply.ofPayload payload = .ok reply
  available : t.connection.stream.available =
    Wire.packet fromContainer payload ++ u.connection.stream.available
  willing : t.connection.stream.Willing → u.connection.stream.Willing
  id : u.connection.id = t.connection.id
  request : u.request = t.request
  room : u.reply.capacity = t.reply.capacity
  tx : u.job.tx = t.job.tx
  world : u.job.world =
    t.job.world.note (.received t.connection.id (headerSize + payload.length))

namespace Backend

section
variable {b : Backend} {t u : Talk} {reply : Reply}

theorem run_nextReply_of_receive {size count : Nat} {m : Buffer} {s : Stream}
    (hr : Packet.receive t.connection.stream t.reply fromContainer = (.ok size, m, s, count)) :
    b.nextReply.run t = (b.packetStep Talk.decoded).run { t with
      connection.stream := s
      reply := m
      job.world := t.job.world.note (.received t.connection.id count) } := by
  unfold nextReply
  refine run_bind_of_ok (a := ()) ?_
  show (t.collect.1.mapError _, t.collect.2) = _
  unfold Talk.collect
  rw [hr]
  rfl

/-- Nothing is heard unless a packet was received. -/
theorem receive_of_nextReply (h : b.nextReply.run t = (.ok reply, u)) :
    ∃ size, (Packet.receive t.connection.stream t.reply fromContainer).1 = .ok size := by
  unfold nextReply at h
  obtain ⟨_, v, hv, -⟩ := run_bind_eq_ok_iff.1 h
  have hcollect : t.collect.1 = .ok () := mapError_eq_ok_iff.1 (Prod.mk.inj hv).1
  unfold Talk.collect at hcollect
  exact (map_eq_ok_iff.1 hcollect).imp fun _ h => h.1

theorem run_decoded :
    (b.packetStep Talk.decoded).run t =
      ((Reply.decode.run t.reply).1.mapError (.packet b.name),
        { t with reply := (Reply.decode.run t.reply).2 }) :=
  rfl

/-- A received packet that holds a reply is heard. -/
theorem nextReply_of_receive {payload : Bytes} {m : Buffer} {s : Stream} {size : Nat}
    (hr : Packet.receive t.connection.stream t.reply fromContainer =
      (.ok size, m, s, headerSize + payload.length))
    (hav : t.connection.stream.available = Wire.packet fromContainer payload ++ s.available)
    (hm : m.WellFormed) (hp : m.pos = headerSize) (hu : m.unread = payload)
    (hc : m.capacity = t.reply.capacity) (hspells : Reply.ofPayload payload = .ok reply) :
    ∃ u, b.nextReply.run t = (.ok reply, u) ∧ t.Heard payload reply u ∧
      u.connection.stream = s := by
  have hdecode := Reply.decode_eq hm hp
  have hstorage := Reply.perusal_decode.storage m
  rw [hu, hspells] at hdecode
  rcases hd : Reply.decode.run m with ⟨r, m'⟩
  rw [hd] at hdecode hstorage
  obtain rfl : r = .ok reply := hdecode
  refine ⟨{ t with
      connection.stream := s
      reply := m'
      job.world := t.job.world.note (.received t.connection.id (headerSize + payload.length)) },
    ?_, ⟨hspells, hav, fun hw => ?_, rfl, rfl, ?_, rfl, rfl⟩, rfl⟩
  · rw [run_nextReply_of_receive hr, run_decoded]
    dsimp only
    rw [hd]
    rfl
  · obtain ⟨reads, hs⟩ := Packet.receive_writes t.connection.stream t.reply fromContainer
    rw [hr] at hs
    obtain rfl : s = { t.connection.stream with reads } := hs
    exact ⟨hw.drains, hw.moves⟩
  · show m'.storage.size = _
    rw [show m'.storage = m.storage from hstorage]
    exact hc

/-- **What is there is heard**: a packet that fits, and says a reply. -/
theorem nextReply_of_available {payload more : Bytes}
    (hspells : Reply.ofPayload payload = .ok reply)
    (hav : t.connection.stream.available = Wire.packet fromContainer payload ++ more)
    (hp : payload.length ≤ 0xFFFF) (hc : headerSize + payload.length ≤ t.reply.capacity) :
    ∃ u, b.nextReply.run t = (.ok reply, u) ∧ t.Heard payload reply u ∧
      u.connection.stream.available = more := by
  obtain ⟨m, s, hr, hm, hunread, hmore⟩ := receive_frame hav hp hc
  obtain ⟨payload', -, -, -, -, hpos, hunread', hcap⟩ :=
    of_receive (Nat.le_trans (Nat.le_add_right ..) hc) hr
  obtain ⟨u, hrun, hheard, hs⟩ := nextReply_of_receive (b := b) hr (by rw [hav, hmore]) hm hpos
    hunread hcap hspells
  exact ⟨u, hrun, hheard, by rw [hs, hmore]⟩

/-- **What is heard was there.** -/
theorem heard_of_nextReply (hc : headerSize ≤ t.reply.capacity)
    (h : b.nextReply.run t = (.ok reply, u)) :
    ∃ payload, payload.length ≤ 0xFFFF ∧ t.Heard payload reply u := by
  obtain ⟨size, hok⟩ := receive_of_nextReply h
  rcases hr : Packet.receive t.connection.stream t.reply fromContainer with ⟨r, m, s, count⟩
  rw [hr] at hok
  obtain rfl : r = .ok size := hok
  obtain ⟨payload, hav, hword, rfl, hm, hpos, hunread, hcap⟩ := of_receive hc hr
  have hrun := h
  rw [run_nextReply_of_receive hr, run_decoded] at hrun
  have hspells : Reply.ofPayload payload = .ok reply := by
    rw [← hunread, ← Reply.decode_eq hm hpos]
    exact mapError_eq_ok_iff.1 (Prod.mk.inj hrun).1
  obtain ⟨u', hrun', hheard, -⟩ :=
    nextReply_of_receive (b := b) hr hav hm hpos hunread hcap hspells
  rw [h] at hrun'
  cases hrun'
  exact ⟨payload, hword, hheard⟩

end

end Backend

/-! ## Heeding -/

/-- The channel once a reply was given to the client. -/
def Channel.told (c : Channel) : Reply → Channel
  | .sendHeaders status reason headers => { c with
      headerCalls := c.headerCalls + 1
      status? := some status.toNat
      reason? := some (reason.getD "")
      headers }
  | .sendBody data => { c with
      bodyCalls := c.bodyCalls + 1
      response := c.response ++ data }
  | _ => c

theorem Channel.SameAnswer.told {c d : Channel} (h : c.SameAnswer d) (reply : Reply) :
    (c.told reply).SameAnswer (d.told reply) := by
  obtain ⟨unread, consumed, reads, rfl⟩ := h
  cases reply <;> exact ⟨unread, consumed, reads, rfl⟩

theorem Channel.SameAnswer.foldl_told {c d : Channel} (h : c.SameAnswer d) (replies : List Reply) :
    (replies.foldl Channel.told c).SameAnswer (replies.foldl Channel.told d) := by
  induction replies generalizing c d with
  | nil => exact h
  | cons reply replies ih => exact ih (h.told reply)

/-- What heeding a reply shows: the client is given its part of the response, or the container a
piece of the body. -/
def Packet.Reply.steps (connection : Nat) (piece : Bytes) : Reply → List Event
  | sendHeaders status reason headers => [.headersWritten status.toNat (reason.getD "") headers]
  | sendBody data => [.bodyWritten data]
  | getBody _ =>
    [.read true piece, .sent connection .body (Wire.packet toContainer (Wire.piece piece))]
  | _ => []

/-- A reply was heeded, and the container given the piece if it demanded one. -/
structure Talk.Heeded (t : Talk) (reply : Reply) (piece : Bytes) (u : Talk) : Prop where
  available : u.connection.stream.available = t.connection.stream.available
  id : u.connection.id = t.connection.id
  request : u.request.capacity = t.request.capacity
  room : u.reply = t.reply
  channel : (t.job.tx.channel.told reply).SameAnswer u.job.tx.channel
  history : u.job.world.history =
    (reply.steps t.connection.id piece).reverse ++ t.job.world.history
  owes : ∀ rest, t.job.tx.Owes rest →
    piece = rest.take (min reply.demand (bodyRoom t.request.capacity)) ∧
      u.job.tx.Owes (rest.drop (min reply.demand (bodyRoom t.request.capacity)))

/-- A packet was sent whole. -/
structure Talk.Sent (t : Talk) (what : Sending) (bytes : Bytes) (u : Talk) : Prop where
  reads : u.connection.stream.reads = t.connection.stream.reads
  id : u.connection.id = t.connection.id
  request : u.request.capacity = t.request.capacity
  room : u.reply = t.reply
  tx : u.job.tx = t.job.tx
  world : u.job.world = t.job.world.note (.sent t.connection.id what bytes)

namespace Job

variable {j k : Job} {status : UInt16} {reason : Option String} {headers : List (String × String)}
  {data : Bytes}

/-- The job once a reply was given to the client. -/
def telling (j : Job) (reply : Reply) : Job where
  tx := { j.tx with channel := j.tx.channel.told reply, started := true }
  world := { j.world with history := (reply.steps 0 []).reverse ++ j.world.history }

theorem owes_telling {rest : Bytes} (h : j.tx.Owes rest) (reply : Reply) :
    (j.telling reply).tx.Owes rest := by
  obtain ⟨hdelivers, hremaining, hunread⟩ := h
  cases reply <;> exact ⟨hdelivers, hremaining, hunread⟩

theorem of_writeHeaders
    (h : (writeHeaders status.toNat (reason.getD "") headers).run j = (.ok (), k)) :
    k = j.telling (.sendHeaders status reason headers) := by
  have h : writeHeaders status.toNat (reason.getD "") headers j = (.ok (), k) := h
  unfold writeHeaders Channel.writeHeaders at h
  cases hp : j.tx.channel.plan.headers j.tx.channel.headerCalls with
  | error f =>
    rw [hp] at h
    cases h
  | ok _ =>
    rw [hp] at h
    cases h
    rfl

theorem of_writeBody (h : (writeBody data).run j = (.ok (), k)) :
    k = j.telling (.sendBody data) := by
  have h : writeBody data j = (.ok (), k) := h
  unfold writeBody Channel.writeBody at h
  cases hp : j.tx.channel.plan.body j.tx.channel.bodyCalls with
  | error f =>
    rw [hp] at h
    cases h
  | ok _ =>
    rw [hp] at h
    cases h
    rfl

theorem writeHeaders_ok (hp : ∀ n, j.tx.channel.plan.headers n = .ok ()) :
    (writeHeaders status.toNat (reason.getD "") headers).run j =
      (.ok (), j.telling (.sendHeaders status reason headers)) := by
  show writeHeaders status.toNat (reason.getD "") headers j = _
  unfold writeHeaders Channel.writeHeaders
  rw [hp]
  rfl

theorem writeBody_ok (hp : ∀ n, j.tx.channel.plan.body n = .ok ()) :
    (writeBody data).run j = (.ok (), j.telling (.sendBody data)) := by
  show writeBody data j = _
  unfold writeBody Channel.writeBody
  rw [hp]
  rfl

end Job

/-- The sizes of packets that may be configured. -/
def Admissible (size : Nat) : Prop := defaultSize ≤ size ∧ size ≤ largestSize

namespace Backend

/-- What an exchange does about a reply that more may follow. -/
def heed (b : Backend) : Reply → Talking Unit
  | .sendHeaders status reason headers =>
    Talk.onJob (Job.writeHeaders status.toNat (reason.getD "") headers)
  | .sendBody data => Talk.onJob (Job.writeBody data)
  | .getBody requested => do
    let room := min requested.toNat (bodyRoom (← get).request.capacity)
    let data ← Talk.onJob (Job.nextPiece room)
    b.sendBody data
  | .endResponse _ => pure ()
  | .pong => pure ()

section
variable {b : Backend} {t u : Talk}

theorem of_transmit {what : Sending}
    (h : (b.netStep (·.transmit what)).run t = (.ok (), u)) :
    ∃ s, s.reads = t.connection.stream.reads ∧ u = { t with
      connection.stream := s
      job.world := t.job.world.note (.sent t.connection.id what t.request.frame) } := by
  rcases hs : t.connection.stream.send t.request.frame with ⟨r, taken, s⟩
  have hrun : (b.netStep (·.transmit what)).run t =
      (r.mapError (b.transport · t.job.tx), { t with
        connection.stream := s
        job.world := t.job.world.note (.sent t.connection.id what taken) }) := by
    show ((t.transmit what).1.mapError _, (t.transmit what).2) = _
    unfold Talk.transmit
    rw [hs]
  rw [h] at hrun
  obtain ⟨hr, hu⟩ := Prod.mk.inj hrun
  rw [mapError_eq_ok_iff.1 hr.symm] at hs
  obtain ⟨htaken, hreads⟩ := Stream.taken_of_send hs
  rw [htaken] at hu
  exact ⟨s, hreads, hu⟩

theorem transmit_of_willing (hw : t.connection.stream.Willing) (what : Sending) :
    ∃ u, (b.netStep (·.transmit what)).run t = (.ok (), u) ∧ u.connection.stream.Willing := by
  obtain ⟨s, hs, hs', -⟩ := hw.send t.request.frame
  refine ⟨{ t with
    connection.stream := s
    job.world := t.job.world.note (.sent t.connection.id what t.request.frame) }, ?_, hs'⟩
  show ((t.transmit what).1.mapError _, (t.transmit what).2) = _
  unfold Talk.transmit
  rw [hs]
  rfl

theorem run_onRequest {act : Marshal Unit} {m : Buffer} (h : act.run t.request = (.ok (), m)) :
    (b.packetStep (Talk.onRequest act)).run t = (.ok (), { t with request := m }) := by
  show ((Talk.onRequest act t).1.mapError _, (Talk.onRequest act t).2) = _
  unfold Talk.onRequest
  rw [h]
  rfl

theorem run_onJob {α : Type} {act : Serving α} {r : Except ServiceError α} {j : Job}
    (h : act.run t.job = (r, j)) :
    @ExceptT.run ServiceError (StateM Talk) α (Talk.onJob act) t = (r, { t with job := j }) := by
  show Talk.onJob act t = _
  unfold Talk.onJob
  rw [h]

theorem of_onJob {α : Type} {act : Serving α} {a : α}
    (h : @ExceptT.run ServiceError (StateM Talk) α (Talk.onJob act) t = (.ok a, u)) :
    ∃ j, act.run t.job = (.ok a, j) ∧ u = { t with job := j } := by
  rcases hj : act.run t.job with ⟨r, j⟩
  rw [run_onJob hj] at h
  cases h
  exact ⟨j, rfl, rfl⟩

/-! ### Pieces of the body -/

/-- The talk when a piece of the body lies in the request buffer. -/
theorem run_sendBody {data : Bytes} (hsize : Admissible t.request.capacity)
    (hd : data.length ≤ bodyRoom t.request.capacity) :
    (b.sendBody data).run t = (b.netStep (·.transmit .body)).run
      { t with request := t.request.message toContainer (Wire.piece data) } := by
  unfold sendBody
  exact run_bind_of_ok (run_onRequest (run_encodeBody hsize.1 hsize.2 hd))

theorem sent_of_sendBody {data : Bytes} (hsize : Admissible t.request.capacity)
    (hd : data.length ≤ bodyRoom t.request.capacity)
    (h : (b.sendBody data).run t = (.ok (), u)) :
    t.Sent .body (Wire.packet toContainer (Wire.piece data)) u := by
  rw [run_sendBody hsize hd] at h
  obtain ⟨s, hs, rfl⟩ := of_transmit h
  refine ⟨hs, rfl, Buffer.capacity_message .., rfl, rfl, ?_⟩
  dsimp only
  rw [frame_piece hsize.1 hd]

theorem sendBody_of_willing {data : Bytes} (hsize : Admissible t.request.capacity)
    (hd : data.length ≤ bodyRoom t.request.capacity) (hw : t.connection.stream.Willing) :
    ∃ u, (b.sendBody data).run t = (.ok (), u) ∧ u.connection.stream.Willing := by
  rw [run_sendBody hsize hd]
  exact transmit_of_willing (t := { t with request := t.request.message toContainer _ }) hw .body

/-! ### Replies -/

variable {reply : Reply}

theorem heeded_telling (hr : reply.demand = 0)
    (hs : ∀ c piece, reply.steps c piece = reply.steps 0 []) :
    t.Heeded reply [] { t with job := t.job.telling reply } where
  available := rfl
  id := rfl
  request := rfl
  room := rfl
  channel := Channel.SameAnswer.refl _
  history := by rw [hs]; rfl
  owes rest h := by
    rw [hr, Nat.zero_min]
    exact ⟨rfl, Job.owes_telling h reply⟩

/-- The piece is the one that the client gave, and no more than was demanded. -/
theorem heeded_of_heed (hsize : Admissible t.request.capacity)
    (h : (b.heed reply).run t = (.ok (), u)) : ∃ piece, t.Heeded reply piece u := by
  cases reply with
  | sendHeaders status reason headers =>
    unfold heed at h
    obtain ⟨j, hj, rfl⟩ := of_onJob h
    rw [Job.of_writeHeaders hj]
    exact ⟨[], heeded_telling rfl fun _ _ => rfl⟩
  | sendBody data =>
    unfold heed at h
    obtain ⟨j, hj, rfl⟩ := of_onJob h
    rw [Job.of_writeBody hj]
    exact ⟨[], heeded_telling rfl fun _ _ => rfl⟩
  | getBody requested =>
    unfold heed at h
    rw [run_bind_of_ok (run_get t)] at h
    obtain ⟨piece, v, hpiece, hsend⟩ := run_bind_eq_ok_iff.1 h
    obtain ⟨j, hj, rfl⟩ := of_onJob hpiece
    obtain ⟨hlen, hsame, hworld⟩ := Job.of_nextPiece hj
    have hsent := sent_of_sendBody (t := { t with job := j }) hsize
      (Nat.le_trans hlen (Nat.min_le_right ..)) hsend
    refine ⟨piece, congrArg Stream.delivered hsent.reads, hsent.id, hsent.request, hsent.room, ?_,
      ?_, fun rest howes => ?_⟩
    · rw [hsent.tx]
      exact hsame
    · rw [hsent.world]
      show _ :: j.world.history = _
      rw [hworld]
      rfl
    · rw [hsent.tx]
      obtain ⟨k, hk, howes', -⟩ :=
        Job.nextPiece_of_owes howes (min requested.toNat (bodyRoom t.request.capacity))
      rw [hk] at hj
      cases hj
      exact ⟨rfl, howes'⟩
  | endResponse reuse =>
    cases h
    exact ⟨[], rfl, rfl, rfl, rfl, Channel.SameAnswer.refl _, rfl, fun rest h => ⟨rfl, h⟩⟩
  | pong =>
    cases h
    exact ⟨[], rfl, rfl, rfl, rfl, Channel.SameAnswer.refl _, rfl, fun rest h => ⟨rfl, h⟩⟩

end

end Backend

/-! ## Rounds -/

/-- A reply with its packet's payload, and the piece of the body given for it. -/
structure Round where
  payload : Bytes
  reply : Reply
  piece : Bytes

namespace Round

/-- What a round shows. -/
def events (connection : Nat) (round : Round) : List Event :=
  .received connection (headerSize + round.payload.length) ::
    round.reply.steps connection round.piece

/-- The packets that were received. -/
def packets (rounds : List Round) : Bytes :=
  rounds.flatMap fun round => Wire.packet fromContainer round.payload

end Round

/-- The replies are heard and heeded in turn. -/
inductive Talk.Relayed : Talk → List Round → Talk → Prop
  | done (t : Talk) : t.Relayed [] t
  | round {t u v w : Talk} {round : Round} {rounds : List Round}
      (hears : t.Heard round.payload round.reply u)
      (goesOn : round.reply.goesOn = true) (heeds : u.Heeded round.reply round.piece v)
      (rest : v.Relayed rounds w) : t.Relayed (round :: rounds) w

namespace Talk.Relayed

variable {t u : Talk} {rounds : List Round}

theorem id (h : t.Relayed rounds u) : u.connection.id = t.connection.id := by
  induction h with
  | done t => rfl
  | round hears _ heeds _ ih => rw [ih, heeds.id, hears.id]

/-- The connection delivered the packets of the replies, and nothing between them. -/
theorem available (h : t.Relayed rounds u) :
    t.connection.stream.available = Round.packets rounds ++ u.connection.stream.available := by
  induction h with
  | done t => rfl
  | round hears _ heeds _ ih =>
    rw [hears.available, ← heeds.available, ih, ← List.append_assoc]
    rfl

theorem spells (h : t.Relayed rounds u) :
    ∀ round ∈ rounds, Reply.ofPayload round.payload = .ok round.reply := by
  induction h with
  | done t => exact List.forall_mem_nil _
  | round hears _ _ _ ih => exact List.forall_mem_cons.2 ⟨hears.spells, ih⟩

theorem channel (h : t.Relayed rounds u) :
    ((rounds.map Round.reply).foldl Channel.told t.job.tx.channel).SameAnswer u.job.tx.channel := by
  induction h with
  | done t => exact Channel.SameAnswer.refl _
  | round hears _ heeds _ ih =>
    have hstep := heeds.channel
    rw [hears.tx] at hstep
    exact (hstep.foldl_told _).trans ih

theorem history (h : t.Relayed rounds u) :
    u.job.world.history =
      (rounds.flatMap (Round.events t.connection.id)).reverse ++ t.job.world.history := by
  induction h with
  | done t => rfl
  | round hears _ heeds _ ih =>
    rw [ih, heeds.history, hears.world, heeds.id, hears.id, List.flatMap_cons, Round.events,
      List.reverse_append, List.reverse_cons]
    simp only [List.append_assoc]
    rfl

end Talk.Relayed

namespace Backend

variable {b : Backend} {t u w : Talk} {reply : Reply} {fuel : Nat} {status? : Option Nat}

/-! ### Relaying -/

theorem run_relay_of_error {e : ServiceError} (hn : b.nextReply.run t = (.error e, u)) :
    (b.relay fuel status?).run t = (.error e, u) := by
  unfold relay
  exact run_bind_of_error hn

/-- A reply that ends the relay is the last thing that it does, however many were to come. -/
theorem run_relay_of_not_goesOn (status? : Option Nat) (hn : b.nextReply.run t = (.ok reply, u))
    (hr : reply.goesOn = false) : ∃ r, ∀ fuel, (b.relay fuel status?).run t = (r, u) := by
  unfold relay
  simp only [run_bind_of_ok hn]
  cases reply with
  | endResponse reuse =>
    cases status? with
    | some status => exact ⟨_, fun _ => rfl⟩
    | none => exact ⟨_, fun _ => rfl⟩
  | pong => exact ⟨_, fun _ => rfl⟩
  | sendHeaders status reason headers => cases hr
  | sendBody data => cases hr
  | getBody requested => cases hr

theorem run_relay_of_goesOn (hn : b.nextReply.run t = (.ok reply, u)) (hr : reply.goesOn = true) :
    (b.relay fuel status?).run t =
      (b.heed reply >>= fun _ => relay.next b fuel (reply.status?.or status?)).run u := by
  unfold relay
  rw [run_bind_of_ok hn]
  cases reply with
  | sendHeaders status reason headers => rfl
  | sendBody data => cases status? <;> rfl
  | getBody requested =>
    unfold heed
    simp only [bind_assoc]
    cases status? <;> rfl
  | endResponse reuse => cases hr
  | pong => cases hr

theorem run_relay_of_endResponse {status : Nat} {reuse : Bool}
    (hn : b.nextReply.run t = (.ok (.endResponse reuse), u)) :
    (b.relay fuel (some status)).run t = (.ok (status, reuse), u) := by
  unfold relay
  rw [run_bind_of_ok hn]
  rfl

/-- What a relay that ends does first. -/
theorem of_run_relay {r : Nat × Bool} (h : (b.relay fuel status?).run t = (.ok r, w)) :
    ∃ reply u, b.nextReply.run t = (.ok reply, u) ∧
      (reply = .endResponse r.2 ∧ status? = some r.1 ∧ u = w ∨
        reply.goesOn = true ∧ ∃ v, (b.heed reply).run u = (.ok (), v) ∧
          (relay.next b fuel (reply.status?.or status?)).run v = (.ok r, w)) := by
  have hbind := h
  unfold relay at hbind
  obtain ⟨reply, u, hn, hrest⟩ := run_bind_eq_ok_iff.1 hbind
  refine ⟨reply, u, hn, ?_⟩
  by_cases hg : reply.goesOn = true
  · rw [run_relay_of_goesOn hn hg] at h
    obtain ⟨_, v, hv, hnext⟩ := run_bind_eq_ok_iff.1 h
    exact .inr ⟨hg, v, hv, hnext⟩
  · cases reply with
    | endResponse reuse =>
      cases status? with
      | some status =>
        cases hrest
        exact .inl ⟨rfl, rfl, rfl⟩
      | none => cases hrest
    | pong => cases hrest
    | sendHeaders status reason headers => exact absurd rfl hg
    | sendBody data => exact absurd rfl hg
    | getBody requested => exact absurd rfl hg

/-- **A response that ends was told in rounds**, the last of which ended it.  By induction on the
packets that there may be. -/
theorem relayed_of_relay {r : Nat × Bool} (hsize : Admissible t.request.capacity)
    (hroom : headerSize ≤ t.reply.capacity) (h : (b.relay fuel status?).run t = (.ok r, w)) :
    ∃ rounds u payload, t.Relayed rounds u ∧ u.Heard payload (.endResponse r.2) w ∧
      Reply.lastStatus? status? (rounds.map Round.reply) = some r.1 := by
  induction fuel generalizing t status? with
  | zero =>
    obtain ⟨reply, u, hn, ⟨rfl, rfl, rfl⟩ | ⟨-, v, -, hnext⟩⟩ := of_run_relay h
    · obtain ⟨payload, -, hheard⟩ := heard_of_nextReply hroom hn
      exact ⟨[], t, payload, .done t, hheard, rfl⟩
    · unfold relay.next at hnext
      cases hnext
  | succ fuel ih =>
    obtain ⟨reply, u, hn, ⟨rfl, rfl, rfl⟩ | ⟨hg, v, hv, hnext⟩⟩ := of_run_relay h
    · obtain ⟨payload, -, hheard⟩ := heard_of_nextReply hroom hn
      exact ⟨[], t, payload, .done t, hheard, rfl⟩
    · obtain ⟨payload, -, hheard⟩ := heard_of_nextReply hroom hn
      rw [← hheard.request] at hsize
      obtain ⟨piece, hheeded⟩ := heeded_of_heed hsize hv
      rw [← hheeded.request] at hsize
      rw [← hheard.room, ← hheeded.room] at hroom
      unfold relay.next at hnext
      obtain ⟨rounds, u', last, hrelayed, hlast, hstatus⟩ := ih hsize hroom hnext
      exact ⟨⟨payload, reply, piece⟩ :: rounds, u', last, .round hheard hg hheeded hrelayed, hlast,
        hstatus⟩

end Backend

end AjpGateway
