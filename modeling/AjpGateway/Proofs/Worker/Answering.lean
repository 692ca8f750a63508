import AjpGateway.Proofs.Worker.Endpoints
import AjpGateway.Proofs.Worker.Relaying

/-!
# What the client is given

The status, the headers and the pieces of a response are given to the client as the replies of the
container come, one call for each of them, whatever their order is.  Nothing else is given: not by
the opening of an exchange, and not where it fails.

A client expects the headers once, and no piece of the body before them.  Nothing in an exchange
sees to that: what the client is given is in this order exactly if what the container said is.

    Talk.Answers b.talk                                                            (answers_talk)
    Event.Orderly (replies.flatMap answer) ↔
      (∀ reply ∈ replies, reply.isDemand = true) ∨ ∃ r, r.Tells replies      (orderly_answers_iff)
-/

namespace AjpGateway

open Packet

/-! ## Worlds -/

/-- From one world to a later one, in which the client was given this and no more. -/
def World.Gives (w : World) (given : List Event) (w' : World) : Prop :=
  ∃ events : List Event, w'.history = events.reverse ++ w.history ∧
    events.filter Event.isAnswer = given

namespace World.Gives

variable {w w' w'' : World} {given more : List Event} {e : Event}

theorem refl (w : World) : w.Gives [] w := ⟨[], rfl, rfl⟩

theorem trans (h : w.Gives given w') (h' : w'.Gives more w'') : w.Gives (given ++ more) w'' := by
  obtain ⟨x, hx, hgiven⟩ := h
  obtain ⟨y, hy, hmore⟩ := h'
  refine ⟨x ++ y, ?_, ?_⟩
  · rw [hy, hx, List.reverse_append, List.append_assoc]
  · rw [List.filter_append, hgiven, hmore]

/-- A step that the client does not see. -/
theorem quiet (h : w.Gives given w') (hw : w''.history = e :: w'.history)
    (he : e.isAnswer = false) : w.Gives given w'' := by
  obtain ⟨x, hx, hgiven⟩ := h
  refine ⟨x ++ [e], ?_, ?_⟩
  · rw [hw, hx, List.reverse_append]
    rfl
  · rw [List.filter_append, hgiven, List.filter_singleton, he]
    exact List.append_nil _

theorem same (h : w.Gives given w') (hw : w''.history = w'.history) : w.Gives given w'' := by
  obtain ⟨x, hx, hgiven⟩ := h
  exact ⟨x, hw.trans hx, hgiven⟩

theorem read (w' : World) (demanded : Bool) (bytes : Bytes) (h : w.Gives given w') :
    w.Gives given (w'.note (.read demanded bytes)) :=
  h.quiet rfl rfl

end World.Gives

/-! ## Talks -/

/-- What a connection delivers begins with the packets of these replies. -/
structure Connection.Says (c : Connection) (replies : List Reply) : Prop where
  goesOn : ∀ reply ∈ replies, reply.goesOn = true
  packets : ∃ payloads more,
    List.Forall₂ (fun payload reply => Reply.ofPayload payload = .ok reply) payloads replies ∧
      c.stream.available = payloads.flatMap (Wire.packet fromContainer) ++ more

namespace Connection.Says

theorem nil (c : Connection) : c.Says [] := ⟨List.forall_mem_nil _, [], _, .nil, rfl⟩

theorem same {c c' : Connection} {replies : List Reply} (h : c.Says replies)
    (hc : c'.stream.available = c.stream.available) : c'.Says replies := by
  obtain ⟨hgoesOn, payloads, more, hspells, havailable⟩ := h
  exact ⟨hgoesOn, payloads, more, hspells, hc.trans havailable⟩

theorem cons {t u : Talk} {payload : Bytes} {reply : Reply} {replies : List Reply}
    (hu : t.Heard payload reply u) (hreply : reply.goesOn = true)
    (h : u.connection.Says replies) : t.connection.Says (reply :: replies) := by
  obtain ⟨hgoesOn, payloads, more, hspells, havailable⟩ := h
  refine ⟨List.forall_mem_cons.2 ⟨hreply, hgoesOn⟩, payload :: payloads, more,
    .cons hu.spells hspells, ?_⟩
  rw [hu.available, havailable, List.flatMap_cons, List.append_assoc]

end Connection.Says

/-- Work that gives the client what the connection says, reply by reply, also where it fails. -/
def Talk.Answers {α : Type} (act : Talking α) : Prop :=
  ∀ t : Talk, Admissible t.request.capacity → headerSize ≤ t.reply.capacity →
    ∃ replies, t.connection.Says replies ∧
      t.job.world.Gives (replies.flatMap Reply.answer) (act.run t).2.job.world

namespace Backend

variable {b : Backend} {w : World} {given : List Event} {fuel : Nat} {status? : Option Nat}

theorem gives_nextReply : Keeps (fun t : Talk => w.Gives given t.job.world) b.nextReply := by
  unfold nextReply
  exact Keeps.bind (fun _ h => h.quiet rfl rfl) fun _ => fun _ h => h

theorem gives_sendBody (data : Bytes) :
    Keeps (fun t : Talk => w.Gives given t.job.world) (b.sendBody data) := by
  unfold sendBody
  exact Keeps.bind (fun _ h => h) fun _ => fun _ h => h.quiet rfl rfl

/-- An opening shows the client nothing. -/
theorem gives_opening : Keeps (fun t : Talk => w.Gives given t.job.world) b.opening := by
  refine Keeps.get.bind fun t => Keeps.bind (fun _ h => h) fun _ =>
    Keeps.bind (fun _ h => h.quiet rfl rfl) fun _ =>
      Keeps.bind (fun t h => Job.keeps_firstPiece .read t.job h) fun first => ?_
  by_cases hf : first ≠ []
  · rw [if_pos hf]
    exact gives_sendBody first
  · rw [if_neg hf]
    exact Keeps.pure ()

/-- To heed a reply is to give the client what it says, whether or not the client takes it. -/
theorem gives_heed (reply : Reply) (t : Talk) :
    t.job.world.Gives reply.answer ((b.heed reply).run t).2.job.world := by
  cases reply with
  | sendHeaders status reason headers => exact ⟨[.headersWritten ..], rfl, rfl⟩
  | sendBody data => exact ⟨[.bodyWritten data], rfl, rfl⟩
  | getBody requested =>
    have hpiece : Keeps (fun u : Talk => t.job.world.Gives [] u.job.world)
        (b.heed (.getBody requested)) := by
      unfold heed
      refine Keeps.get.bind fun _ => Keeps.bind (fun u h => ?_) gives_sendBody
      exact Job.keeps_nextPiece .read _ u.job h
    exact hpiece t (.refl _)
  | endResponse reuse => exact .refl _
  | pong => exact .refl _

theorem answers_relay_of_next (hnext : ∀ s?, Talk.Answers (relay.next b fuel s?)) :
    Talk.Answers (b.relay fuel status?) := by
  intro t hsize hroom
  have hquiet := gives_nextReply (b := b) t (.refl t.job.world)
  rcases hn : b.nextReply.run t with ⟨r, u⟩
  rw [hn] at hquiet
  cases r with
  | error e =>
    refine ⟨[], .nil _, ?_⟩
    rw [run_relay_of_error hn]
    exact hquiet
  | ok reply =>
    obtain ⟨payload, -, hu⟩ := heard_of_nextReply hroom hn
    by_cases hg : reply.goesOn = true
    · rw [run_relay_of_goesOn hn hg, run_bind]
      have hgiven := hquiet.trans (gives_heed (b := b) reply u)
      rcases hh : (b.heed reply).run u with ⟨r, v⟩
      rw [hh] at hgiven
      cases r with
      | error e =>
        refine ⟨[reply], .cons hu hg (.nil _), ?_⟩
        rw [List.flatMap_singleton]
        exact hgiven
      | ok _ =>
        rw [← hu.request] at hsize
        obtain ⟨piece, hv⟩ := heeded_of_heed hsize hh
        rw [← hv.request] at hsize
        rw [← hu.room, ← hv.room] at hroom
        obtain ⟨replies, hdelivers, hgives⟩ := hnext (reply.status?.or status?) v hsize hroom
        refine ⟨reply :: replies, .cons hu hg (hdelivers.same hv.available.symm), ?_⟩
        rw [List.flatMap_cons]
        exact hgiven.trans hgives
    · -- no reply is heeded that ends the exchange
      obtain ⟨r, hrun⟩ := run_relay_of_not_goesOn status? hn (Bool.eq_false_iff.2 hg)
      refine ⟨[], .nil _, ?_⟩
      rw [hrun]
      exact hquiet

/-- By induction on the packets that there may be. -/
theorem answers_relay (fuel : Nat) (status? : Option Nat) :
    Talk.Answers (b.relay fuel status?) := by
  induction fuel generalizing status? with
  | zero =>
    refine answers_relay_of_next fun s? t _ _ => ?_
    unfold relay.next
    exact ⟨[], .nil _, .refl _⟩
  | succ n ih =>
    refine answers_relay_of_next fun s? => ?_
    unfold relay.next
    exact ih s?

theorem answers_talk (b : Backend) : Talk.Answers b.talk := by
  intro t hsize hroom
  have hquiet := gives_opening (b := b) t (.refl t.job.world)
  rw [talk_eq, run_bind]
  rcases ho : b.opening.run t with ⟨r, u⟩
  rw [ho] at hquiet
  cases r with
  | error e => exact ⟨[], .nil _, hquiet⟩
  | ok _ =>
    obtain ⟨havailable, -, hrequest, hreply⟩ := of_opening ho
    rw [← hrequest] at hsize
    rw [← hreply] at hroom
    obtain ⟨replies, hdelivers, hgives⟩ := answers_relay u.supply none u hsize hroom
    exact ⟨replies, hdelivers.same havailable.symm, hquiet.trans hgives⟩

/-! ## Exchanges -/

variable {size : Nat} {line : Line} {job : Job}

/-- The connection on which an exchange runs, or why there is none. -/
def reached (b : Backend) (line : Line) (job : Job) : Except ServiceError Connection :=
  (b.connected (b.probe line job).1 (b.probe line job).2).1

theorem gives_probe (b : Backend) (line : Line) (job : Job) :
    job.world.Gives [] (b.probe line job).2.world :=
  probe_keeps (I := fun j => job.world.Gives [] j.world) (fun _ _ _ h => h.quiet rfl rfl)
    (fun _ _ _ h => h.quiet rfl rfl) b line (.refl _)

theorem gives_connect (world : World) (address : Address) (options : SocketOptions) :
    world.Gives [] (world.connect address options).2 := by
  obtain ⟨e, network, hconnect, -⟩ | ⟨c, network, hconnect, -, -⟩ :=
    world.connect_cases address options
  · rw [hconnect]
    exact World.Gives.same (.refl world) rfl
  · rw [hconnect]
    exact World.Gives.quiet (.refl world) rfl rfl

theorem gives_connected (b : Backend) (line : Line) (job : Job) :
    job.world.Gives [] (b.connected line job).2.world := by
  unfold connected
  cases line.connection? with
  | some connection => exact .refl _
  | none =>
    cases b.address? with
    | none => exact .refl _
    | some address => exact gives_connect job.world address b.options

/-- An exchange gives the client what its connection says. -/
theorem answers_exchange (b : Backend) (hsize : Admissible size) (hline : line.Fits size)
    (job : Job) :
    ∃ replies, job.world.Gives (replies.flatMap Reply.answer) (b.exchange line job).2.2.world ∧
      (replies = [] ∨ ∃ c, b.reached line job = .ok c ∧ c.Says replies) := by
  have hprobe := b.gives_probe line job
  obtain ⟨hfits, -⟩ := b.fits_probe job hline
  unfold exchange reached
  rcases hp : b.probe line job with ⟨line₁, job₁⟩
  rw [hp] at hprobe hfits
  have hconnected := hprobe.trans (b.gives_connected line₁ job₁)
  dsimp only at hfits ⊢
  rcases hc : b.connected line₁ job₁ with ⟨r, job₂⟩
  rw [hc] at hconnected
  cases r with
  | error e => exact ⟨[], hconnected, .inl rfl⟩
  | ok c =>
    obtain ⟨replies, hdelivers, hgives⟩ := b.answers_talk
      { connection := c, request := line₁.request, reply := line₁.reply, job := job₂ }
      (by rw [hfits.1]; exact hsize) (by rw [hfits.2]; exact Nat.le_trans (by decide) hsize.1)
    exact ⟨replies, hconnected.trans hgives, .inr ⟨c, rfl, hdelivers⟩⟩

end Backend

/-! ## The order of a response -/

namespace Event

def isHeaders : Event → Bool
  | headersWritten .. => true
  | _ => false

/-- What a client expects: the headers once, and no piece of the body before them. -/
structure Orderly (events : List Event) : Prop where
  once : (events.filter isHeaders).length ≤ 1
  first : ∀ earlier data later, events = earlier ++ .bodyWritten data :: later →
    ∃ e ∈ earlier, e.isHeaders = true

theorem orderly_nil : Orderly [] where
  once := Nat.zero_le 1
  first earlier data later h := by cases earlier <;> cases h

theorem not_orderly_body (data : Bytes) (events : List Event) :
    ¬ Orderly (.bodyWritten data :: events) := by
  intro h
  obtain ⟨e, he, -⟩ := h.first [] data events rfl
  cases he

theorem orderly_headers_iff {status : Nat} {reason : String} {headers : List (String × String)}
    {events : List Event} :
    Orderly (.headersWritten status reason headers :: events) ↔ events.filter isHeaders = [] := by
  constructor
  · intro h
    have hlength : (events.filter isHeaders).length + 1 ≤ 1 := h.once
    exact List.eq_nil_of_length_eq_zero (by omega)
  · refine fun h => ⟨?_, fun earlier data later hsplit => ?_⟩
    · show (events.filter isHeaders).length + 1 ≤ 1
      rw [h]
      exact Nat.le_refl 1
    · cases earlier with
      | nil => cases hsplit
      | cons e earlier =>
        obtain ⟨rfl, -⟩ := List.cons.inj hsplit
        exact ⟨_, List.mem_cons_self, rfl⟩

end Event

namespace Packet.Reply

/-- Parts of a response without headers are pieces of its body. -/
theorem exists_pieces {told : List Reply}
    (htold : ∀ reply ∈ told, reply.goesOn = true ∧ reply.isDemand = false)
    (h : (told.flatMap answer).filter Event.isHeaders = []) :
    ∃ pieces : List Bytes, told = pieces.map sendBody := by
  induction told with
  | nil => exact ⟨[], rfl⟩
  | cons reply told ih =>
    obtain ⟨⟨hgoesOn, hdemand⟩, hrest⟩ := List.forall_mem_cons.1 htold
    cases reply with
    | sendBody data =>
      obtain ⟨pieces, rfl⟩ := ih hrest h
      exact ⟨data :: pieces, rfl⟩
    | sendHeaders status reason headers => cases h
    | getBody requested => cases hdemand
    | endResponse reuse => cases hgoesOn
    | pong => cases hgoesOn

/-- **What replies give the client is in order** exactly if they give nothing, or a response: the
status and headers, and then pieces of the body. -/
theorem orderly_answers_iff {replies : List Reply} (h : ∀ reply ∈ replies, reply.goesOn = true) :
    Event.Orderly (replies.flatMap answer) ↔
      (∀ reply ∈ replies, reply.isDemand = true) ∨ ∃ r : Response, r.Tells replies := by
  constructor
  · intro horderly
    rw [flatMap_answer_demands] at horderly
    have htold : ∀ reply ∈ replies.filter fun reply => !reply.isDemand,
        reply.goesOn = true ∧ reply.isDemand = false := by
      intro reply hreply
      obtain ⟨hmem, hdemand⟩ := List.mem_filter.1 hreply
      exact ⟨h reply hmem, by simpa using hdemand⟩
    -- the replies are all demands, or one is the first that is none
    rcases hf : replies.filter fun reply => !reply.isDemand with _ | ⟨reply, told⟩
    · refine .inl fun reply hreply => ?_
      have hnone := List.filter_eq_nil_iff.1 hf reply hreply
      simpa using hnone
    · rw [hf] at horderly htold
      obtain ⟨⟨hgoesOn, hdemand⟩, hrest⟩ := List.forall_mem_cons.1 htold
      cases reply with
      | sendHeaders status reason headers =>
        obtain ⟨pieces, rfl⟩ := exists_pieces hrest (Event.orderly_headers_iff.1 horderly)
        exact .inr ⟨⟨status, reason, headers, pieces, true⟩, hf⟩
      | sendBody data => exact absurd horderly (Event.not_orderly_body data _)
      | getBody requested => cases hdemand
      | endResponse reuse => cases hgoesOn
      | pong => cases hgoesOn
  · rintro (hdemands | ⟨r, hr⟩)
    · have hnone : (replies.filter fun reply => !reply.isDemand) = [] :=
        List.filter_eq_nil_iff.2 fun reply hreply => by simpa using hdemands reply hreply
      rw [flatMap_answer_demands, hnone]
      exact Event.orderly_nil
    · rw [hr.flatMap_answer]
      refine Event.orderly_headers_iff.2 (List.filter_eq_nil_iff.2 fun e he => ?_)
      obtain ⟨data, -, rfl⟩ := List.mem_map.1 he
      exact Bool.false_ne_true

end Packet.Reply

namespace Backend

/-! ## Any order is relayed -/

/-- Nothing stands in the way of an exchange, on a new connection that delivers these bytes. -/
structure Clear (b : Backend) (size : Nat) (line : Line) (job : Job) (available : Bytes) :
    Prop where
  new : line.connection? = none
  first : job.tx.KeepsFirst
  encodes : ((b.forwardRequest job.tx).encode.run (.new size)).1 = .ok ()
  client : job.tx.channel.plan.NeverFails
  connects : ∃ address c world, b.address? = some address ∧
    job.world.connect address b.options = (.ok c, world) ∧ c.stream.Willing ∧
    c.stream.available = available

variable {b : Backend} {size : Nat} {line : Line} {job : Job}

/-- What is told before a response ends reaches the client, if it has a status: no order is
refused. -/
theorem exchange_of_told {payloads : List Bytes} {told : List Reply} {last more : Bytes}
    {status : Nat} {reuse : Bool} (hsize : Admissible size) (hline : line.Fits size)
    (hclear : b.Clear size line job
      (payloads.flatMap (Wire.packet fromContainer) ++ (Wire.packet fromContainer last ++ more)))
    (hgoesOn : ∀ reply ∈ told, reply.goesOn = true)
    (hstatus : Reply.lastStatus? none told = some status)
    (hspells : List.Forall₂ (fun payload reply => Reply.ofPayload payload = .ok reply)
      payloads told)
    (hlast : Reply.ofPayload last = .ok (.endResponse reuse))
    (hfits : ∀ payload ∈ payloads, headerSize + payload.length ≤ size)
    (hfitsLast : headerSize + last.length ≤ size) :
    (b.exchange line job).1 = .ok (status, reuse) ∧
      job.world.Gives (told.flatMap Reply.answer) (b.exchange line job).2.2.world := by
  obtain ⟨address, c, world, haddress, hconnect, hwilling, havailable⟩ := hclear.connects
  obtain ⟨t, ht⟩ : ∃ t : Talk, t = {
    connection := c, request := line.request, reply := line.reply,
    job := { job with world } } := ⟨_, rfl⟩
  have hready : t.Ready := by
    rw [ht]
    exact ⟨hline.1 ▸ hsize, hline.2 ▸ hsize.2, hwilling, hclear.client⟩
  have hroom : t.reply.capacity = size := by rw [ht]; exact hline.2
  obtain ⟨piece, u, rounds, v, w, hrun, hbegun, hrelayed, hend, -, -, hreplies⟩ :=
    talk_of_told (b := b) hready (by rw [ht]; exact hclear.first)
      (by rw [ht]; exact encode_of_size hsize hline.1 hclear.encodes) hgoesOn hstatus hspells hlast
      (by rw [hroom]; exact hfits) (by rw [hroom]; exact hfitsLast) (by rw [ht]; exact havailable)
  have hexchange := exchange_of_connect hclear.new haddress hconnect
  rw [← ht, hrun] at hexchange
  rw [hexchange]
  refine ⟨rfl, ?_⟩
  obtain ⟨opening, hopens, hopened⟩ := hbegun.history
  have hbefore : job.world.Gives [] t.job.world := by
    have hgives := gives_connect job.world address b.options
    rw [hconnect] at hgives
    rw [ht]
    exact hgives
  have hopening : t.job.world.Gives [] u.job.world := ⟨opening, hopened,
    List.filter_eq_nil_iff.2 fun e he => by rw [(hopens.quiet e he).1]; exact Bool.false_ne_true⟩
  have hrounds : u.job.world.Gives (told.flatMap Reply.answer) v.job.world :=
    ⟨_, hrelayed.history, by rw [Round.filter_events, hreplies]⟩
  exact ((hbefore.trans hopening).trans hrounds).quiet (congrArg World.history hend.world) rfl

/-- **The client is given what the container says, in the container's order.**  Whatever becomes of
an exchange, the calls made to the client are those of the replies that the connection delivered up
to some point; so the headers come once and before the body exactly if the container gave a
response, or nothing, up to there.  Nothing else sees to it: where nothing stands in the way, every
sequence of replies with a status in it is relayed whole, in any order and number. -/
theorem gives_as_told (b : Backend) (hsize : Admissible size) (hline : line.Fits size) (job : Job) :
    (∃ replies, job.world.Gives (replies.flatMap Reply.answer) (b.exchange line job).2.2.world ∧
      (replies = [] ∨ ∃ c, b.reached line job = .ok c ∧ c.Says replies) ∧
      (Event.Orderly (replies.flatMap Reply.answer) ↔
        (∀ reply ∈ replies, reply.isDemand = true) ∨ ∃ r : Response, r.Tells replies)) ∧
    ∀ (payloads : List Bytes) (told : List Reply) (last more : Bytes) (status : Nat) (reuse : Bool),
      b.Clear size line job
        (payloads.flatMap (Wire.packet fromContainer) ++ (Wire.packet fromContainer last ++ more)) →
      (∀ reply ∈ told, reply.goesOn = true) → Reply.lastStatus? none told = some status →
      List.Forall₂ (fun payload reply => Reply.ofPayload payload = .ok reply) payloads told →
      Reply.ofPayload last = .ok (.endResponse reuse) →
      (∀ payload ∈ payloads, headerSize + payload.length ≤ size) →
      headerSize + last.length ≤ size →
      (b.exchange line job).1 = .ok (status, reuse) ∧
        job.world.Gives (told.flatMap Reply.answer) (b.exchange line job).2.2.world := by
  refine ⟨?_, fun _ _ _ _ _ _ hclear hgoesOn hstatus hspells hlast hfits hfitsLast =>
    exchange_of_told hsize hline hclear hgoesOn hstatus hspells hlast hfits hfitsLast⟩
  obtain ⟨replies, hgives, hdelivers⟩ := b.answers_exchange hsize hline job
  refine ⟨replies, hgives, hdelivers, Reply.orderly_answers_iff ?_⟩
  rcases hdelivers with rfl | ⟨c, -, hdelivers⟩
  · exact List.forall_mem_nil _
  · exact hdelivers.goesOn

/-! ### A muddle -/

/-- A piece of the body, then two statuses, and the end. -/
def muddle : List Bytes :=
  [[3, 0, 1, 120, 0], [4, 0, 200, 0xFF, 0xFF, 0, 0], [4, 1, 0xF4, 0xFF, 0xFF, 0, 0]]

def muddleStream : Stream where
  reads := [.data (muddle.flatMap (Wire.packet fromContainer) ++ Wire.packet fromContainer [5, 1])]
  drains := true

/-- A request, in a world where the greeter sends the muddle. -/
def muddled : Job where
  tx := .begin { uri := "/" } {}
  world := { network := { listeners := [⟨⟨.localhost, 8009, 0⟩, [.accepted muddleStream],
    .fault .refused⟩] } }

/-- The client gets the piece before the headers, and these twice. -/
theorem gives_as_told_muddle :
    Admissible defaultSize ∧ (Line.new defaultSize).Fits defaultSize ∧
      (greeter.exchange (.new defaultSize) muddled).1 = .ok (500, true) ∧
      muddled.world.Gives
        [.bodyWritten [120], .headersWritten 200 "" [], .headersWritten 500 "" []]
        (greeter.exchange (.new defaultSize) muddled).2.2.world ∧
      ¬ Event.Orderly
        [.bodyWritten [120], .headersWritten 200 "" [], .headersWritten 500 "" []] := by
  have hsize : Admissible defaultSize := ⟨Nat.le_refl _, by decide⟩
  have hline : (Line.new defaultSize).Fits defaultSize := Line.fits_new (by decide)
  have hcap : (Buffer.new defaultSize).capacity = defaultSize := hline.1
  have hencode := ForwardRequest.run_encode (r := greeter.forwardRequest muddled.tx)
    (m := .new defaultSize) (by decide : methodCode? "GET" = some 2) (by decide)
    (by rw [hcap]; exact hsize.2) (by rw [hcap]; decide)
  have hclear : greeter.Clear defaultSize (.new defaultSize) muddled
      (muddle.flatMap (Wire.packet fromContainer) ++ (Wire.packet fromContainer [5, 1] ++ [])) := {
    new := rfl
    first := nofun
    encodes := congrArg Prod.fst hencode
    client := ⟨fun _ => ⟨none, rfl⟩, fun _ => rfl, fun _ => rfl⟩
    connects := ⟨_, _, _, rfl, rfl, ⟨rfl, List.forall_mem_nil _⟩, by decide⟩ }
  have hspells : List.Forall₂ (fun payload reply => Reply.ofPayload payload = .ok reply) muddle
      [.sendBody [120], .sendHeaders 200 none [], .sendHeaders 500 none []] :=
    .cons rfl (.cons rfl (.cons rfl .nil))
  obtain ⟨hresult, hgives⟩ := (gives_as_told greeter hsize hline muddled).2 _ _ _ _ _ _ hclear
    (by decide) rfl hspells rfl (by decide) (by decide)
  exact ⟨hsize, hline, hresult, hgives, Event.not_orderly_body _ _⟩

end Backend

end AjpGateway
