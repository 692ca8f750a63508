import AjpGateway.Proofs.Worker.Exchange
import AjpGateway.Proofs.Worker.Opening
import Mathlib.Algebra.GroupWithZero.Nat

/-!
# Relaying a response

Whatever a container answers in due form reaches the client as it was sent: the status and headers
once, then each piece of the body, and the connection is left where the response ended.  How the
bytes are cut into reads does not matter, nor what the buffer held before, nor how often the
container demands more of the request's body in between.

    t.Ready → t.connection.stream.available = payloads.flatMap (Wire.packet fromContainer) ++ more →
      (b.relay fuel none).run t = (.ok (status, reuse), w) ∧ t.Relayed rounds u ∧ …      (relay_ok)
    b.exchange line job = (.ok (response.status.toNat, response.reuse), line', job') ∧ …
                                                                        (exchange_relays_response)
-/

namespace AjpGateway

open Packet

/-- A client on whose side no call fails. -/
structure ChannelPlan.NeverFails (plan : ChannelPlan) : Prop where
  read : ∀ n, ∃ limit?, plan.read n = .ok limit?
  headers : ∀ n, plan.headers n = .ok ()
  body : ∀ n, plan.body n = .ok ()

/-- Nothing stands in the way of an exchange. -/
structure Talk.Ready (t : Talk) : Prop where
  request : Admissible t.request.capacity
  reply : t.reply.capacity ≤ largestSize
  willing : t.connection.stream.Willing
  client : t.job.tx.channel.plan.NeverFails

@[simp] theorem Channel.plan_told (c : Channel) (reply : Reply) : (c.told reply).plan = c.plan := by
  cases reply <;> rfl

namespace Talk.Ready

variable {t u : Talk} {payload piece : Bytes} {reply : Reply}

theorem heard (h : t.Ready) (hu : t.Heard payload reply u) : u.Ready where
  request := by rw [hu.request]; exact h.request
  reply := by rw [hu.room]; exact h.reply
  willing := hu.willing h.willing
  client := by rw [hu.tx]; exact h.client

theorem heeded (h : t.Ready) (hu : t.Heeded reply piece u) (hw : u.connection.stream.Willing) :
    u.Ready where
  request := by rw [hu.request]; exact h.request
  reply := by rw [hu.room]; exact h.reply
  willing := hw
  client := by
    rw [hu.channel.plan, Channel.plan_told]
    exact h.client

end Talk.Ready

namespace Backend

variable {b : Backend} {t : Talk}

/-- Where nothing stands in the way, every reply is heeded. -/
theorem heed_ok (ht : t.Ready) (reply : Reply) :
    ∃ u piece, (b.heed reply).run t = (.ok (), u) ∧ t.Heeded reply piece u ∧ u.Ready := by
  have hok : ∃ u, (b.heed reply).run t = (.ok (), u) ∧ u.connection.stream.Willing := by
    cases reply with
    | sendHeaders status reason headers =>
      unfold heed
      exact ⟨_, run_onJob (Job.writeHeaders_ok ht.client.headers), ht.willing⟩
    | sendBody data =>
      unfold heed
      exact ⟨_, run_onJob (Job.writeBody_ok ht.client.body), ht.willing⟩
    | getBody requested =>
      obtain ⟨piece, j, hj⟩ := Job.nextPiece_ok ht.client.read
        (min requested.toNat (bodyRoom t.request.capacity))
      obtain ⟨hlen, -, -⟩ := Job.of_nextPiece hj
      unfold heed
      rw [run_bind_of_ok (run_get t), run_bind_of_ok (run_onJob hj)]
      exact sendBody_of_willing (t := { t with job := j }) ht.request
        (Nat.le_trans hlen (Nat.min_le_right ..)) ht.willing
    | endResponse reuse => exact ⟨t, rfl, ht.willing⟩
    | pong => exact ⟨t, rfl, ht.willing⟩
  obtain ⟨u, hu, hw⟩ := hok
  obtain ⟨piece, hheeded⟩ := heeded_of_heed ht.request hu
  exact ⟨u, piece, hu, hheeded, ht.heeded hheeded hw⟩

/-- **What is told is relayed.**  By induction on the packets. -/
theorem relay_ok {payloads : List Bytes} {told : List Reply} {last more : Bytes} {reuse : Bool}
    {status? : Option Nat} {status fuel : Nat} (ht : t.Ready)
    (hspells : List.Forall₂ (fun payload reply => Reply.ofPayload payload = .ok reply)
      payloads told)
    (hlast : Reply.ofPayload last = .ok (.endResponse reuse))
    (hgoesOn : ∀ reply ∈ told, reply.goesOn = true)
    (hfits : ∀ payload ∈ payloads, headerSize + payload.length ≤ t.reply.capacity)
    (hfitsLast : headerSize + last.length ≤ t.reply.capacity)
    (hstatus : Reply.lastStatus? status? told = some status) (hfuel : told.length ≤ fuel)
    (hav : t.connection.stream.available =
      payloads.flatMap (Wire.packet fromContainer) ++ (Wire.packet fromContainer last ++ more)) :
    ∃ rounds u w, (b.relay fuel status?).run t = (.ok (status, reuse), w) ∧ t.Relayed rounds u ∧
      u.Heard last (.endResponse reuse) w ∧ w.connection.stream.available = more ∧
      rounds.map Round.payload = payloads ∧ rounds.map Round.reply = told := by
  induction hspells generalizing t status? fuel with
  | nil =>
    obtain rfl : status? = some status := hstatus
    obtain ⟨w, hn, hheard, hmore⟩ := nextReply_of_available (b := b) hlast hav
      (length_le_of_fits ht.reply hfitsLast) hfitsLast
    exact ⟨[], t, w, run_relay_of_endResponse hn, .done t, hheard, hmore, rfl, rfl⟩
  | @cons payload reply payloads told hspells _ ih =>
    obtain ⟨hfitsFirst, hfits⟩ := List.forall_mem_cons.1 hfits
    obtain ⟨hgoesOnFirst, hgoesOn⟩ := List.forall_mem_cons.1 hgoesOn
    obtain ⟨n, rfl⟩ : ∃ n, fuel = n + 1 := ⟨fuel - 1, by rw [List.length_cons] at hfuel; omega⟩
    rw [List.flatMap_cons, List.append_assoc] at hav
    obtain ⟨u, hn, hheard, hmore⟩ := nextReply_of_available (b := b) hspells hav
      (length_le_of_fits ht.reply hfitsFirst) hfitsFirst
    obtain ⟨v, piece, hheed, hheeded, hv⟩ := heed_ok (b := b) (ht.heard hheard) reply
    have hroom : v.reply.capacity = t.reply.capacity := by rw [hheeded.room, hheard.room]
    rw [← hroom] at hfits hfitsLast
    obtain ⟨rounds, u', w, hrun, hrelayed, hend, hrest, hpayloads, hreplies⟩ :=
      ih hv hgoesOn hfits hfitsLast hstatus (Nat.le_of_succ_le_succ hfuel)
        (hheeded.available.trans hmore)
    refine ⟨⟨payload, reply, piece⟩ :: rounds, u', w, ?_,
      .round hheard hgoesOnFirst hheeded hrelayed, hend, hrest, ?_, ?_⟩
    · rw [run_relay_of_goesOn hn hgoesOnFirst, run_bind_of_ok hheed]
      unfold relay.next
      exact hrun
    · rw [List.map_cons, hpayloads]
    · rw [List.map_cons, hreplies]

end Backend

/-! ## Responses -/

namespace Event

/-- A step that gives the client a part of the response. -/
def isAnswer : Event → Bool
  | headersWritten .. | bodyWritten _ => true
  | _ => false

/-- The bytes received. -/
def count : Event → Nat
  | received _ n => n
  | _ => 0

end Event

theorem Opens.quiet {c : Nat} {first : Bytes} {events : List Event} (h : Opens c first events) :
    ∀ e ∈ events, e.isAnswer = false ∧ e.count = 0 := by
  obtain ⟨bytes, reads, hreads, rfl⟩ := h
  refine List.forall_mem_cons.2 ⟨⟨rfl, rfl⟩, fun e he => ?_⟩
  rcases List.mem_append.1 he with he | he
  · rcases hreads with rfl | rfl
    · cases he
    · rw [List.mem_singleton.1 he]
      exact ⟨rfl, rfl⟩
  · split at he
    · cases he
    · rw [List.mem_singleton.1 he]
      exact ⟨rfl, rfl⟩

namespace Packet.Reply

def isDemand : Reply → Bool
  | getBody _ => true
  | _ => false

/-- What the client sees of a reply. -/
def answer : Reply → List Event
  | sendHeaders status reason headers => [.headersWritten status.toNat (reason.getD "") headers]
  | sendBody data => [.bodyWritten data]
  | _ => []

/-- What demands leave as it is may be folded without them. -/
theorem foldl_demands {α : Type} {f : α → Reply → α} (hf : ∀ a n, f a (getBody n) = a)
    (replies : List Reply) (a : α) :
    replies.foldl f a = (replies.filter fun reply => !reply.isDemand).foldl f a := by
  induction replies generalizing a with
  | nil => rfl
  | cons reply replies ih =>
    cases reply with
    | getBody n => exact (congrArg (replies.foldl f) (hf a n)).trans (ih a)
    | sendHeaders status reason headers => exact ih _
    | sendBody data => exact ih _
    | endResponse reuse => exact ih _
    | pong => exact ih _

theorem flatMap_answer_demands (replies : List Reply) :
    replies.flatMap answer = (replies.filter fun reply => !reply.isDemand).flatMap answer := by
  induction replies with
  | nil => rfl
  | cons reply replies ih =>
    cases reply with
    | getBody n => exact ih
    | sendHeaders status reason headers => exact congrArg (_ ++ ·) ih
    | sendBody data => exact congrArg (_ ++ ·) ih
    | endResponse reuse => exact congrArg (_ ++ ·) ih
    | pong => exact congrArg (_ ++ ·) ih

end Packet.Reply

/-- A response as a container gives it. -/
structure Response where
  status : UInt16
  reason : Option String
  headers : List (String × String)
  pieces : List Bytes
  reuse : Bool

namespace Response

variable {r : Response} {told : List Reply}

/-- The replies up to the end: the status and headers, then the pieces, and demands for the
request's body anywhere. -/
def Tells (r : Response) (told : List Reply) : Prop :=
  (told.filter fun reply => !reply.isDemand) =
    .sendHeaders r.status r.reason r.headers :: r.pieces.map .sendBody

/-- What the client is to see. -/
def steps (r : Response) : List Event :=
  .headersWritten r.status.toNat (r.reason.getD "") r.headers :: r.pieces.map .bodyWritten

/-- The channel once the response was given to the client. -/
def givenTo (r : Response) (c : Channel) : Channel := { c with
  headerCalls := c.headerCalls + 1
  bodyCalls := c.bodyCalls + r.pieces.length
  status? := some r.status.toNat
  reason? := some (r.reason.getD "")
  headers := r.headers
  response := c.response ++ r.pieces.flatten }

theorem sameAnswer_givenTo {c d : Channel} (h : c.SameAnswer d) :
    (r.givenTo c).SameAnswer (r.givenTo d) := by
  obtain ⟨unread, consumed, reads, rfl⟩ := h
  exact ⟨unread, consumed, reads, rfl⟩

theorem Tells.goesOn (h : r.Tells told) : ∀ reply ∈ told, reply.goesOn = true := by
  intro reply hreply
  by_cases hd : reply.isDemand = true
  · cases reply with
    | getBody n => rfl
    | _ => cases hd
  · have hmem : reply ∈ told.filter fun reply => !reply.isDemand :=
      List.mem_filter.2 ⟨hreply, by simpa using hd⟩
    rw [h] at hmem
    rcases List.mem_cons.1 hmem with rfl | hmem
    · rfl
    · obtain ⟨data, -, rfl⟩ := List.mem_map.1 hmem
      rfl

theorem Tells.lastStatus? (h : r.Tells told) :
    Reply.lastStatus? none told = some r.status.toNat := by
  have hpieces (s : Option Nat) (pieces : List Bytes) :
      (pieces.map Reply.sendBody).foldl (fun s reply => reply.status?.or s) s = s := by
    induction pieces with
    | nil => rfl
    | cons data pieces ih => exact ih
  unfold Reply.lastStatus?
  rw [Reply.foldl_demands (fun _ _ => rfl), h, List.foldl_cons, hpieces]
  rfl

theorem Tells.foldl_told (h : r.Tells told) (c : Channel) :
    told.foldl Channel.told c = r.givenTo c := by
  have hpieces (c : Channel) (pieces : List Bytes) :
      (pieces.map Reply.sendBody).foldl Channel.told c = { c with
        bodyCalls := c.bodyCalls + pieces.length
        response := c.response ++ pieces.flatten } := by
    induction pieces generalizing c with
    | nil => simp
    | cons data pieces ih =>
      rw [List.map_cons, List.foldl_cons, ih, List.length_cons, List.flatten_cons]
      unfold Channel.told
      rw [Nat.add_assoc, Nat.add_comm 1, List.append_assoc]
  rw [Reply.foldl_demands (fun _ _ => rfl), h, List.foldl_cons, hpieces]
  rfl

theorem Tells.flatMap_answer (h : r.Tells told) : told.flatMap Reply.answer = r.steps := by
  have hpieces (pieces : List Bytes) :
      (pieces.map Reply.sendBody).flatMap Reply.answer = pieces.map .bodyWritten := by
    induction pieces with
    | nil => rfl
    | cons data pieces ih => exact congrArg (_ ++ ·) ih
  rw [Reply.flatMap_answer_demands, h, List.flatMap_cons, hpieces]
  rfl

end Response

/-! ## Rounds in all -/

namespace Round

theorem filter_events (c : Nat) (rounds : List Round) :
    (rounds.flatMap (events c)).filter Event.isAnswer =
      (rounds.map reply).flatMap Reply.answer := by
  induction rounds with
  | nil => rfl
  | cons round rounds ih =>
    obtain ⟨payload, reply, piece⟩ := round
    rw [List.flatMap_cons, List.filter_append, ih, List.map_cons, List.flatMap_cons]
    cases reply <;> rfl

theorem count_events (c : Nat) (rounds : List Round) :
    ((rounds.flatMap (events c)).map Event.count).sum =
      ((rounds.map payload).flatMap (Wire.packet fromContainer)).length := by
  induction rounds with
  | nil => rfl
  | cons round rounds ih =>
    obtain ⟨payload, reply, piece⟩ := round
    rw [List.flatMap_cons, List.map_append, List.sum_append, ih, List.map_cons, List.flatMap_cons,
      List.length_append, Wire.length_packet]
    congr 1
    cases reply <;> rfl

end Round

theorem length_le_length_packets (payloads : List Bytes) :
    payloads.length ≤ (payloads.flatMap (Wire.packet fromContainer)).length := by
  induction payloads with
  | nil => exact Nat.le_refl 0
  | cons payload payloads ih =>
    have hheader : headerSize = 4 := rfl
    rw [List.flatMap_cons, List.length_append, Wire.length_packet, List.length_cons]
    omega

/-! ## Exchanges on a new connection -/

namespace Backend

variable {b : Backend} {line : Line} {job : Job} {world : World} {connection : Connection}
  {address : Address}

/-- Without a connection kept, an exchange is a talk on a new one. -/
theorem exchange_of_connect (hnew : line.connection? = none) (haddress : b.address? = some address)
    (hconnect : job.world.connect address b.options = (.ok connection, world)) :
    b.exchange line job =
      let (r, t) := b.talk.run
        { connection, request := line.request, reply := line.reply, job := { job with world } }
      (r, { connection? := some t.connection, request := t.request, reply := t.reply }, t.job) := by
  have hprobe : b.probe line job = (line, job) := by
    unfold probe
    rw [hnew]
  have hconnected : b.connected line job = (.ok connection, { job with world }) := by
    unfold connected
    rw [hnew, haddress]
    dsimp only
    rw [hconnect]
    rfl
  exact exchange_of_connected hprobe hconnected

/-- A request that encodes in an empty buffer of the packet size encodes in every buffer of that
size. -/
theorem encode_of_size {r : ForwardRequest} {m : Buffer} {size : Nat} (hsize : Admissible size)
    (hm : m.capacity = size) (h : (r.encode.run (.new size)).1 = .ok ()) :
    ∃ m', r.encode.run m = (.ok (), m') := by
  have hheader : headerSize ≤ size := Nat.le_trans (by decide) hsize.1
  have hcap := Buffer.capacity_new_of_le hheader
  rcases hr : r.encode.run (.new size) with ⟨result, sent⟩
  rw [hr] at h
  obtain rfl : result = .ok () := h
  exact ForwardRequest.encode_of_capacity (by rw [hcap]; exact hsize.2) (hm.trans hcap.symm) hr

/-- The talk of an exchange in which nothing fails: its opening, the rounds of what is told, and the
reply that ends the response. -/
theorem talk_of_told {t : Talk} {payloads : List Bytes} {told : List Reply} {last more : Bytes}
    {status : Nat} {reuse : Bool} (ht : t.Ready) (hkept : t.job.tx.KeepsFirst)
    (hencode : ∃ m, (b.forwardRequest t.job.tx).encode.run t.request = (.ok (), m))
    (hgoesOn : ∀ reply ∈ told, reply.goesOn = true)
    (hstatus : Reply.lastStatus? none told = some status)
    (hspells : List.Forall₂ (fun payload reply => Reply.ofPayload payload = .ok reply)
      payloads told)
    (hlast : Reply.ofPayload last = .ok (.endResponse reuse))
    (hfits : ∀ payload ∈ payloads, headerSize + payload.length ≤ t.reply.capacity)
    (hfitsLast : headerSize + last.length ≤ t.reply.capacity)
    (hav : t.connection.stream.available =
      payloads.flatMap (Wire.packet fromContainer) ++ (Wire.packet fromContainer last ++ more)) :
    ∃ first u rounds v w, b.talk.run t = (.ok (status, reuse), w) ∧ t.Begun first u ∧
      u.Relayed rounds v ∧ v.Heard last (.endResponse reuse) w ∧
      w.connection.stream.available = more ∧ rounds.map Round.payload = payloads ∧
      rounds.map Round.reply = told := by
  obtain ⟨u, hopening, hw⟩ := opening_ok ht.request hkept hencode ht.willing ht.client.read
  obtain ⟨first, hbegun⟩ := begun_of_opening ht.request hkept hopening
  have hu : u.Ready := {
    request := by rw [hbegun.request]; exact ht.request
    reply := by rw [hbegun.room]; exact ht.reply
    willing := hw
    client := by rw [hbegun.channel.plan]; exact ht.client }
  rw [← hbegun.room] at hfits hfitsLast
  rw [← hbegun.available] at hav
  have hfuel : told.length ≤ u.supply := by
    have hsupply := u.connection.stream.available_isPrefix.length_le
    have hpackets := length_le_length_packets payloads
    have hlen : u.connection.stream.available.length = _ := congrArg List.length hav
    rw [List.length_append] at hlen
    rw [← hspells.length_eq]
    unfold Talk.supply
    omega
  obtain ⟨rounds, v, w, hrun, hrelayed, hend, hmore, hpayloads, hreplies⟩ :=
    relay_ok (b := b) hu hspells hlast hgoesOn hfits hfitsLast hstatus hfuel hav
  refine ⟨first, u, rounds, v, w, ?_, hbegun, hrelayed, hend, hmore, hpayloads, hreplies⟩
  rw [talk_eq, run_bind_of_ok hopening, run_bind_of_ok (run_get u)]
  exact hrun

/-- The talk that relays a response. -/
theorem talk_ok {t : Talk} {r : Response} {payloads : List Bytes} {told : List Reply}
    {last more : Bytes} (ht : t.Ready) (hkept : t.job.tx.KeepsFirst)
    (hencode : ∃ m, (b.forwardRequest t.job.tx).encode.run t.request = (.ok (), m))
    (htold : r.Tells told)
    (hspells : List.Forall₂ (fun payload reply => Reply.ofPayload payload = .ok reply)
      payloads told)
    (hlast : Reply.ofPayload last = .ok (.endResponse r.reuse))
    (hfits : ∀ payload ∈ payloads, headerSize + payload.length ≤ t.reply.capacity)
    (hfitsLast : headerSize + last.length ≤ t.reply.capacity)
    (hav : t.connection.stream.available =
      payloads.flatMap (Wire.packet fromContainer) ++ (Wire.packet fromContainer last ++ more)) :
    ∃ first u rounds v w, b.talk.run t = (.ok (r.status.toNat, r.reuse), w) ∧ t.Begun first u ∧
      u.Relayed rounds v ∧ v.Heard last (.endResponse r.reuse) w ∧
      w.connection.stream.available = more ∧ rounds.map Round.payload = payloads ∧
      rounds.map Round.reply = told :=
  talk_of_told ht hkept hencode htold.goesOn htold.lastStatus? hspells hlast hfits hfitsLast hav

/-- **A response is relayed as it was sent.**  On a new connection that takes what is sent and
delivers the packets of a response, an exchange returns its status and whether the connection may
be kept; the client was given the status, the reason and the headers once and then each piece as it
was; and nothing after the last packet was received. -/
theorem exchange_relays_response (b : Backend) {size : Nat} (hsize : Admissible size) {line : Line}
    (hnew : line.connection? = none) (hrequest : line.request.capacity = size)
    (hreply : line.reply.capacity = size) {job : Job} (hkept : job.tx.KeepsFirst)
    (hencode : ((b.forwardRequest job.tx).encode.run (.new size)).1 = .ok ())
    (hclient : job.tx.channel.plan.NeverFails) {address : Address}
    (haddress : b.address? = some address) {connection : Connection} {world : World}
    (hconnect : job.world.connect address b.options = (.ok connection, world))
    (hwrites : connection.stream.Willing) {r : Response} {told : List Reply} (htold : r.Tells told)
    {payloads : List Bytes}
    (hspells : List.Forall₂ (fun payload reply => Reply.ofPayload payload = .ok reply) payloads
      (told ++ [.endResponse r.reuse]))
    (hfits : ∀ payload ∈ payloads, headerSize + payload.length ≤ size) {more : Bytes}
    (hstream : connection.stream.available =
      payloads.flatMap (Wire.packet fromContainer) ++ more) :
    ∃ (line' : Line) (job' : Job) (kept : Connection) (events : List Event),
      b.exchange line job = (.ok (r.status.toNat, r.reuse), line', job') ∧
      (r.givenTo job.tx.channel).SameAnswer job'.tx.channel ∧
      job'.world.history = events.reverse ++ world.history ∧
      events.filter Event.isAnswer = r.steps ∧
      line'.connection? = some kept ∧ kept.id = connection.id ∧ kept.stream.available = more ∧
      (events.map Event.count).sum =
        (payloads.flatMap (Wire.packet fromContainer)).length := by
  -- the payloads up to the last, and the last
  obtain ⟨first, last, rfl, hspellsFirst, hspellsLast⟩ : ∃ first last, payloads = first ++ [last] ∧
      List.Forall₂ (fun payload reply => Reply.ofPayload payload = .ok reply) first told ∧
      Reply.ofPayload last = .ok (.endResponse r.reuse) := by
    have htake := List.forall₂_take_append _ _ _ hspells
    have hdrop := List.forall₂_drop_append _ _ _ hspells
    obtain ⟨last, rest, hlast, hrest, hd⟩ := List.forall₂_cons_right_iff.1 hdrop
    rw [List.forall₂_nil_right_iff.1 hrest] at hd
    exact ⟨_, last, by rw [← hd, List.take_append_drop], htake, hlast⟩
  rw [List.forall_mem_append] at hfits
  rw [List.flatMap_append, List.append_assoc] at hstream
  obtain ⟨t, ht⟩ : ∃ t : Talk, t = {
    connection, request := line.request, reply := line.reply, job := { job with world } } := ⟨_, rfl⟩
  have hready : t.Ready := by
    rw [ht]
    exact ⟨hrequest ▸ hsize, hreply ▸ hsize.2, hwrites, hclient⟩
  have hroom : t.reply.capacity = size := by rw [ht]; exact hreply
  have hav : t.connection.stream.available = first.flatMap (Wire.packet fromContainer) ++
      (Wire.packet fromContainer last ++ more) := by
    rw [ht]
    simpa using hstream
  obtain ⟨piece, u, rounds, v, w, hrun, hbegun, hrelayed, hend, hmore, hpayloads, hreplies⟩ :=
    talk_ok (b := b) hready (by rw [ht]; exact hkept)
      (by rw [ht]; exact encode_of_size hsize hrequest hencode) htold hspellsFirst hspellsLast
      (by rw [hroom]; exact hfits.1) (by rw [hroom]; exact hfits.2 last (List.mem_singleton_self _))
      hav
  obtain ⟨opening, hopens, hopened⟩ := hbegun.history
  have hquiet := hopens.quiet
  refine ⟨{ connection? := some w.connection, request := w.request, reply := w.reply }, w.job,
    w.connection, opening ++ (rounds.flatMap (Round.events u.connection.id) ++
      [.received v.connection.id (headerSize + last.length)]), ?_, ?_, ?_, ?_, rfl, ?_, hmore, ?_⟩
  · rw [exchange_of_connect hnew haddress hconnect, ← ht, hrun]
  · have hgiven := hrelayed.channel
    rw [hreplies, htold.foldl_told] at hgiven
    have hbegunChannel : job.tx.channel.SameAnswer u.job.tx.channel := by
      have h := hbegun.channel
      rwa [ht] at h
    rw [hend.tx]
    exact (Response.sameAnswer_givenTo hbegunChannel).trans hgiven
  · rw [hend.world]
    show _ :: v.job.world.history = _
    rw [hrelayed.history, hopened, ht]
    simp only [List.reverse_append, List.reverse_cons, List.append_assoc]
    rfl
  · have hopening : opening.filter Event.isAnswer = [] :=
      List.filter_eq_nil_iff.2 fun e he => by rw [(hquiet e he).1]; exact Bool.false_ne_true
    rw [List.filter_append, List.filter_append, hopening, Round.filter_events, hreplies,
      htold.flatMap_answer]
    exact List.append_nil _
  · rw [hend.id, hrelayed.id, hbegun.id, ht]
  · have hopening : (opening.map Event.count).sum = 0 :=
      List.sum_eq_zero_iff_forall_eq_nat.2 <| List.forall_mem_map.2 fun e he => (hquiet e he).2
    rw [List.map_append, List.map_append, List.sum_append, List.sum_append, hopening,
      Round.count_events, hpayloads, List.flatMap_append, List.length_append, Nat.zero_add]
    congr 1
    rw [List.flatMap_singleton, Wire.length_packet]
    rfl

/-! ### A greeting in pieces -/

/-- A demand for more of the request's body, then the response `hi` without a reason. -/
def greeting : Response where
  status := 200
  reason := none
  headers := []
  pieces := [[104, 105]]
  reuse := true

/-- The packets arrive in three reads, with an interruption, and more bytes behind them. -/
def greetingStream : Stream where
  reads := [.data [0x41, 0x42, 0, 3, 6, 0x1F, 0xFA, 0x41], .fault (.ofKind .interrupted),
    .data [0x42, 0, 7, 4, 0, 200, 0xFF, 0xFF, 0, 0, 0x41, 0x42, 0, 6, 3, 0, 2, 104, 105, 0, 0x41],
    .data [0x42, 0, 2, 5, 1, 7]]
  drains := true

/-- What its packets hold up to the last. -/
def greetingPayloads : List Bytes :=
  [[6, 0x1F, 0xFA], [4, 0, 200, 0xFF, 0xFF, 0, 0], [3, 0, 2, 104, 105, 0]]

def greetingReplies : List Reply := [.getBody 8186, .sendHeaders 200 none [], .sendBody [104, 105]]

theorem greeting_tells : greeting.Tells greetingReplies := rfl

theorem greetingPayloads_spell : List.Forall₂
    (fun payload reply => Reply.ofPayload payload = .ok reply) greetingPayloads greetingReplies :=
  .cons rfl (.cons rfl (.cons rfl .nil))

theorem available_greetingStream : greetingStream.available =
    greetingPayloads.flatMap (Wire.packet fromContainer) ++
      (Wire.packet fromContainer [5, 1] ++ [7]) := by
  decide

theorem willing_greetingStream : greetingStream.Willing := ⟨rfl, List.forall_mem_nil _⟩

def greeter : Backend where
  name := "a"
  address? := some ⟨.localhost, 8009, 0⟩

/-- A request, in a world where the greeter accepts one connection. -/
def greeted : Job where
  tx := .begin { uri := "/" } {}
  world := { network := { listeners := [⟨⟨.localhost, 8009, 0⟩, [.accepted greetingStream],
    .fault .refused⟩] } }

/-- Whoever reaches the greeter over a new line gets the greeting, and may keep the connection. -/
theorem exchange_of_greeting {b : Backend} {job : Job} {connection : Connection} {world : World}
    (haddress : b.address? = some ⟨.localhost, 8009, 0⟩)
    (hconnect : job.world.connect ⟨.localhost, 8009, 0⟩ b.options = (.ok connection, world))
    (hstream : connection.stream = greetingStream) (hclient : job.tx.channel.plan.NeverFails)
    (hkept : job.tx.KeepsFirst)
    (hencode : ∃ m, (b.forwardRequest job.tx).encode.run (.new defaultSize) = (.ok (), m)) :
    ∃ w : Talk, w.connection.id = connection.id ∧ b.exchange (.new defaultSize) job =
      (.ok (200, true),
        { connection? := some w.connection, request := w.request, reply := w.reply }, w.job) := by
  have hcapacity := Buffer.capacity_new_of_le (by decide : headerSize ≤ defaultSize)
  have hsize : Admissible defaultSize := ⟨Nat.le_refl _, by decide⟩
  obtain ⟨t, ht⟩ : ∃ t : Talk, t = {
    connection, request := .new defaultSize, reply := .new defaultSize,
    job := { job with world } } := ⟨_, rfl⟩
  have htx : t.job.tx = job.tx := by rw [ht]
  have hrequest : t.request.capacity = defaultSize := by rw [ht]; exact hcapacity
  have hreply : t.reply.capacity = defaultSize := by rw [ht]; exact hcapacity
  have hid : t.connection.id = connection.id := by rw [ht]
  have hstream : t.connection.stream = greetingStream := by rw [ht]; exact hstream
  have hready : t.Ready := {
    request := hrequest ▸ hsize
    reply := hreply ▸ hsize.2
    willing := hstream ▸ willing_greetingStream
    client := htx ▸ hclient }
  have hlast : Reply.ofPayload [5, 1] = .ok (.endResponse true) := rfl
  obtain ⟨piece, u, rounds, v, w, hrun, hbegun, hrelayed, hend, -⟩ := talk_ok (b := b) hready
    (htx ▸ hkept) (by rw [ht]; exact hencode) greeting_tells greetingPayloads_spell hlast
    (by rw [hreply]; decide) (by rw [hreply]; decide) (hstream ▸ available_greetingStream)
  refine ⟨w, hend.id.trans (hrelayed.id.trans (hbegun.id.trans hid)), ?_⟩
  have hnew : (Line.new defaultSize).connection? = none := rfl
  have hexchange := exchange_of_connect hnew haddress hconnect
  rw [show Line.new defaultSize =
    { request := .new defaultSize, reply := .new defaultSize } from rfl] at hexchange ⊢
  dsimp only at hexchange
  rw [← ht, hrun] at hexchange
  exact hexchange

theorem exchange_relays_greeting :
    Admissible defaultSize ∧
      ∃ (line' : Line) (job' : Job) (kept : Connection) (events : List Event),
        greeter.exchange (.new defaultSize) greeted = (.ok (200, true), line', job') ∧
        (greeting.givenTo {}).SameAnswer job'.tx.channel ∧
        job'.world.history = events.reverse ++ [.opened 0 ⟨.localhost, 8009, 0⟩] ∧
        events.filter Event.isAnswer = [.headersWritten 200 "" [], .bodyWritten [104, 105]] ∧
        line'.connection? = some kept ∧ kept.id = 0 ∧ kept.stream.available = [7] ∧
        (events.map Event.count).sum = 34 := by
  have hsize : Admissible defaultSize := ⟨Nat.le_refl _, by decide⟩
  have hcap : (Buffer.new defaultSize).capacity = defaultSize := by
    rw [Buffer.capacity_new]
    rfl
  have hencode := ForwardRequest.run_encode (r := greeter.forwardRequest greeted.tx)
    (m := .new defaultSize) (by decide : methodCode? "GET" = some 2) (by decide)
    (by rw [hcap]; exact hsize.2) (by rw [hcap]; decide)
  have hspells : List.Forall₂ (fun payload reply => Reply.ofPayload payload = .ok reply)
      (greetingPayloads ++ [[5, 1]]) (greetingReplies ++ [.endResponse true]) :=
    List.rel_append greetingPayloads_spell (.cons rfl .nil)
  have hstream : greetingStream.available =
      (greetingPayloads ++ [[5, 1]]).flatMap (Wire.packet fromContainer) ++ [7] := by
    rw [available_greetingStream, List.flatMap_append, List.flatMap_singleton, List.append_assoc]
  have hkept : greeted.tx.KeepsFirst := by
    intro bytes h
    cases h
  exact ⟨hsize, exchange_relays_response greeter hsize rfl hcap hcap hkept
    (congrArg Prod.fst hencode) ⟨fun _ => ⟨none, rfl⟩, fun _ => rfl, fun _ => rfl⟩ rfl rfl
    willing_greetingStream greeting_tells hspells (by decide) hstream⟩

end Backend

end AjpGateway
