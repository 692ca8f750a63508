import AjpGateway.Proofs.Worker.Opening

/-!
# Uploads

What a container gets of the request's body in an exchange that ends: the first piece, and then one
piece for each demand, as large as it may be.  Together they are the beginning of the body, without
a gap and without a byte twice.

    t.Relayed rounds u → t.job.tx.Owes rest → Continues room rest (Round.given rounds)
                                                                              (Relayed.continues)
    b.talk.run t = (.ok r, w) → t.job.tx.Awaits body →
      ∃ first rounds, … ∧ Upload body room first (Round.given rounds)             (uploads_of_talk)
-/

namespace AjpGateway

open Packet

/-! ## Pieces of a body -/

/-- The pieces given for demands, one for each: as much of the rest as is demanded and has room. -/
inductive Continues (room : Nat) : Bytes → List (Nat × Bytes) → Prop
  | done (rest : Bytes) : Continues room rest []
  | piece {rest : Bytes} {n : Nat} {given : List (Nat × Bytes)}
      (more : Continues room (rest.drop (min n room)) given) :
      Continues room rest ((n, rest.take (min n room)) :: given)

/-- The pieces given are the beginning of the rest, and each is as large as what is left allows. -/
theorem Continues.split {room : Nat} {rest : Bytes} {given : List (Nat × Bytes)}
    (h : Continues room rest given) {before after : List (Nat × Bytes)} {n : Nat} {piece : Bytes}
    (hg : given = before ++ (n, piece) :: after) :
    ∃ left, rest = (before.map Prod.snd).flatten ++ left ∧ piece = left.take (min n room) := by
  induction h generalizing before with
  | done rest => exact absurd hg.symm (by simp)
  | @piece rest n given _ ih =>
    cases before with
    | nil =>
      cases hg
      exact ⟨rest, rfl, rfl⟩
    | cons p before =>
      obtain ⟨rfl, hmore⟩ := List.cons.inj hg
      obtain ⟨left, hrest, hpiece⟩ := ih hmore
      refine ⟨left, ?_, hpiece⟩
      rw [List.map_cons, List.flatten_cons, List.append_assoc, ← hrest, List.take_append_drop]

theorem Continues.isPrefix {room : Nat} {rest : Bytes} {given : List (Nat × Bytes)}
    (h : Continues room rest given) : (given.map Prod.snd).flatten <+: rest := by
  induction h with
  | done rest => exact List.nil_prefix
  | @piece rest n given _ ih =>
    rw [List.map_cons, List.flatten_cons]
    conv_rhs => rw [← List.take_append_drop (min n room) rest]
    exact (List.prefix_append_right_inj _).2 ih

/-- The body as a container got it: a first piece, and a piece for each demand. -/
structure Upload (body : Bytes) (room : Nat) (first : Bytes) (given : List (Nat × Bytes)) :
    Prop where
  /-- the first piece is as large as may be kept -/
  kept : first = body.take Transaction.keptSize
  /-- no byte is lost and none comes twice -/
  contiguous : first ++ (given.map Prod.snd).flatten <+: body
  /-- each piece is as large as the demand, the packet and the bytes left allow -/
  full : ∀ before n piece after, given = before ++ (n, piece) :: after →
    piece.length = min n (min room (body.length - (first ++ (before.map Prod.snd).flatten).length))
  /-- a piece is empty exactly if there is nothing left -/
  exhausted : ∀ before n piece after, given = before ++ (n, piece) :: after → 1 ≤ n →
    (piece = [] ↔ first ++ (before.map Prod.snd).flatten = body)

theorem Continues.upload {body : Bytes} {room : Nat} {given : List (Nat × Bytes)} (hroom : 1 ≤ room)
    (h : Continues room (body.drop Transaction.keptSize) given) :
    Upload body room (body.take Transaction.keptSize) given where
  kept := rfl
  contiguous := by
    conv_rhs => rw [← List.take_append_drop Transaction.keptSize body]
    exact (List.prefix_append_right_inj _).2 h.isPrefix
  full before n piece after hg := by
    obtain ⟨left, hrest, rfl⟩ := h.split hg
    have hbody := congrArg List.length (List.take_append_drop Transaction.keptSize body)
    rw [hrest, List.length_append, List.length_append] at hbody
    rw [List.length_take, List.length_append]
    omega
  exhausted before n piece after hg hn := by
    obtain ⟨left, hrest, rfl⟩ := h.split hg
    have hsome : min n room ≠ 0 := by omega
    have hbody := List.take_append_drop Transaction.keptSize body
    rw [hrest, ← List.append_assoc] at hbody
    rw [List.take_eq_nil_iff]
    constructor
    · intro hnil
      rwa [hnil.resolve_left hsome, List.append_nil] at hbody
    · intro hall
      rw [hall] at hbody
      exact .inr (List.append_right_eq_self.1 hbody)

/-! ## An exchange that ends -/

namespace Round

/-- A demand and the piece given for it. -/
def given? (round : Round) : Option (Nat × Bytes) :=
  match round.reply with
  | .getBody requested => some (requested.toNat, round.piece)
  | _ => none

/-- The demands and the pieces given for them. -/
def given (rounds : List Round) : List (Nat × Bytes) := rounds.filterMap given?

end Round

/-- By induction on the rounds: a demand takes its piece off the rest of the body, and no other
reply takes anything. -/
theorem Talk.Relayed.continues {t u : Talk} {rounds : List Round} (h : t.Relayed rounds u)
    {rest : Bytes} (howes : t.job.tx.Owes rest) :
    Continues (bodyRoom t.request.capacity) rest (Round.given rounds) := by
  induction h generalizing rest with
  | done t => exact .done rest
  | @round t u v w round rounds hears goesOn heeds _ ih =>
    obtain ⟨payload, reply, piece⟩ := round
    rw [← hears.tx] at howes
    obtain ⟨hpiece, howes⟩ := heeds.owes rest howes
    have hmore := ih howes
    rw [heeds.request, hears.request] at hmore
    rw [hears.request] at hpiece
    have hnothing : rest.drop (min 0 (bodyRoom t.request.capacity)) = rest := by
      rw [Nat.zero_min, List.drop_zero]
    cases reply with
    | getBody requested =>
      obtain rfl : piece = rest.take (min requested.toNat (bodyRoom t.request.capacity)) := hpiece
      exact .piece hmore
    | sendHeaders status reason headers => exact hnothing ▸ hmore
    | sendBody data => exact hnothing ▸ hmore
    | endResponse reuse => cases goesOn
    | pong => cases goesOn

namespace Event

/-- A packet with a piece of the body. -/
def bodyPacket? : Event → Option Bytes
  | sent _ .body bytes => some bytes
  | _ => none

end Event

theorem Opens.filterMap_bodyPacket? {c : Nat} {first : Bytes} {events : List Event}
    (h : Opens c first events) :
    events.filterMap Event.bodyPacket? =
      (if first = [] then [] else [first]).map fun piece =>
        Wire.packet toContainer (Wire.piece piece) := by
  obtain ⟨bytes, reads, hreads, rfl⟩ := h
  by_cases hf : first = []
  · rw [if_pos hf, if_pos hf]
    rcases hreads with rfl | rfl <;> rfl
  · rw [if_neg hf, if_neg hf]
    rcases hreads with rfl | rfl <;> rfl

theorem Round.filterMap_bodyPacket? (c : Nat) (rounds : List Round) :
    (rounds.flatMap (Round.events c)).filterMap Event.bodyPacket? =
      (Round.given rounds).map fun p => Wire.packet toContainer (Wire.piece p.2) := by
  induction rounds with
  | nil => rfl
  | cons round rounds ih =>
    obtain ⟨payload, reply, piece⟩ := round
    rw [List.flatMap_cons, List.filterMap_append, ih]
    cases reply <;> rfl

namespace Backend

/-- What an exchange that ends was: the request and the first piece of its body were sent, and each
packet of the container was answered, the last of which ended the response. -/
structure Exchanged (t : Talk) (first : Bytes) (rounds : List Round) (last : Bytes) (reuse : Bool)
    (w : Talk) : Prop where
  available : t.connection.stream.available =
    Round.packets rounds ++ (Wire.packet fromContainer last ++ w.connection.stream.available)
  spells : ∀ round ∈ rounds, Reply.ofPayload round.payload = .ok round.reply
  ends : Reply.ofPayload last = .ok (.endResponse reuse)
  history : ∃ opening, Opens t.connection.id first opening ∧
    w.job.world.history = (opening ++ rounds.flatMap (Round.events t.connection.id) ++
      [Event.received t.connection.id (headerSize + last.length)]).reverse ++ t.job.world.history

/-- The packets with pieces of the body are the first piece, unless it is empty, and the pieces that
were demanded. -/
theorem Exchanged.bodyPackets {t w : Talk} {first : Bytes} {rounds : List Round} {last : Bytes}
    {reuse : Bool} (h : Exchanged t first rounds last reuse w) :
    ∃ events : List Event, w.job.world.history = events.reverse ++ t.job.world.history ∧
      events.filterMap Event.bodyPacket? =
        ((if first = [] then [] else [first]) ++ (Round.given rounds).map Prod.snd).map
          fun piece => Wire.packet toContainer (Wire.piece piece) := by
  obtain ⟨opening, hopens, hhistory⟩ := h.history
  refine ⟨_, hhistory, ?_⟩
  rw [List.filterMap_append, List.filterMap_append, hopens.filterMap_bodyPacket?,
    Round.filterMap_bodyPacket?, List.map_append, List.map_map]
  exact List.append_nil _

/-- What a container got of the body in an exchange that ended: its packets with pieces of the body
are the first piece, unless it is empty, and the pieces given for its demands. -/
def Uploads (body : Bytes) (t : Talk) (reuse : Bool) (w : Talk) : Prop :=
  ∃ first rounds last, Exchanged t first rounds last reuse w ∧
    Upload body (bodyRoom t.request.capacity) first (Round.given rounds) ∧
    ∃ events : List Event, w.job.world.history = events.reverse ++ t.job.world.history ∧
      events.filterMap Event.bodyPacket? =
        ((if first = [] then [] else [first]) ++ (Round.given rounds).map Prod.snd).map
          fun piece => Wire.packet toContainer (Wire.piece piece)

/-- **An exchange that ends uploads the body from its beginning.** -/
theorem uploads_of_talk {b : Backend} {t w : Talk} {r : Nat × Bool} {body : Bytes}
    (hrequest : Admissible t.request.capacity) (hreply : headerSize ≤ t.reply.capacity)
    (hbody : t.job.tx.Awaits body) (h : b.talk.run t = (.ok r, w)) : Uploads body t r.2 w := by
  rw [talk_eq] at h
  obtain ⟨_, u, hopening, hrelay⟩ := run_bind_eq_ok_iff.1 h
  obtain ⟨first, hbegun⟩ := begun_of_opening hrequest hbody.keepsFirst hopening
  rw [run_bind_of_ok (run_get u)] at hrelay
  have hrequest' : Admissible u.request.capacity := by rwa [hbegun.request]
  have hreply' : headerSize ≤ u.reply.capacity := by rwa [hbegun.room]
  obtain ⟨rounds, v, last, hrelayed, hend, -⟩ := relayed_of_relay hrequest' hreply' hrelay
  obtain ⟨opening, hopens, hopened⟩ := hbegun.history
  obtain ⟨hfirst, howes⟩ := hbegun.owes body hbody
  have hcontinues := hrelayed.continues howes
  rw [hbegun.request] at hcontinues
  have hroom : 1 ≤ bodyRoom t.request.capacity :=
    Nat.le_trans (by decide) (keptSize_le_bodyRoom hrequest)
  have hexchanged : Exchanged t first rounds last r.2 w := by
    refine ⟨?_, hrelayed.spells, hend.spells, opening, hopens, ?_⟩
    · rw [← hbegun.available, hrelayed.available, hend.available]
    · rw [hend.world]
      show _ :: v.job.world.history = _
      rw [hrelayed.history, hopened, hrelayed.id, hbegun.id]
      simp only [List.reverse_append, List.append_assoc]
      rfl
  refine ⟨first, rounds, last, hexchanged, ?_, hexchanged.bodyPackets⟩
  rw [hfirst]
  exact hcontinues.upload hroom

end Backend

end AjpGateway
