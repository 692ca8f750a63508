import AjpGateway.Proofs.Packet.Capacity
import AjpGateway.Proofs.Worker.Conversation

/-!
# Openings of an exchange

An exchange opens with the request and, unless it is empty, the first piece of its body; then it
relays the response.  The opening receives nothing, and fails only where the request does not
encode, the connection does not take it or the client does not give the first piece.

    b.talk = b.opening >>= fun _ => do b.relay (← get).supply none                        (talk_eq)
    b.opening.run t = (.ok (), u) → ∃ first, t.Begun first u                     (begun_of_opening)
-/

namespace AjpGateway

open Packet

namespace Transaction

/-- A piece that was kept is no larger than may be kept. -/
def KeepsFirst (tx : Transaction) : Prop := ∀ bytes, tx.first = some bytes → bytes.length ≤ keptSize

theorem Awaits.keepsFirst {tx : Transaction} {body : Bytes} (h : tx.Awaits body) :
    tx.KeepsFirst := by
  intro bytes hb
  rcases h with ⟨hnone, -⟩ | ⟨hsome, -⟩
  · rw [hnone] at hb
    cases hb
  · rw [hsome] at hb
    cases hb
    exact List.length_take_le ..

end Transaction

/-- The largest first piece fits in every packet. -/
theorem keptSize_le_bodyRoom {size : Nat} (h : Admissible size) :
    Transaction.keptSize ≤ bodyRoom size := by
  have hkept : Transaction.keptSize = 8186 := rfl
  have hdefault : defaultSize = 8192 := rfl
  have hsize := h.1
  rw [bodyRoom_of_le h.1]
  omega

/-- What an opening shows: the request is sent, and then the first piece of its body, which may have
to be read before. -/
def Opens (connection : Nat) (first : Bytes) (events : List Event) : Prop :=
  ∃ bytes reads, (reads = [] ∨ reads = [Event.read false first]) ∧
    events = .sent connection .forward bytes :: (reads ++
      if first = [] then []
      else [.sent connection .body (Wire.packet toContainer (Wire.piece first))])

/-- The request was sent, with the first piece of its body. -/
structure Talk.Begun (t : Talk) (first : Bytes) (u : Talk) : Prop where
  available : u.connection.stream.available = t.connection.stream.available
  id : u.connection.id = t.connection.id
  request : u.request.capacity = t.request.capacity
  room : u.reply = t.reply
  channel : t.job.tx.channel.SameAnswer u.job.tx.channel
  history : ∃ events, Opens t.connection.id first events ∧
    u.job.world.history = events.reverse ++ t.job.world.history
  owes : ∀ body, t.job.tx.Awaits body →
    first = body.take Transaction.keptSize ∧ u.job.tx.Owes (body.drop Transaction.keptSize)

namespace Backend

variable {b : Backend} {t u : Talk}

/-- The exchange up to the response. -/
def opening (b : Backend) : Talking Unit := do
  let request := b.forwardRequest (← get).job.tx
  b.packetStep (Talk.onRequest request.encode)
  b.netStep (·.transmit .forward)
  let first ← Talk.onJob Job.firstPiece
  if first ≠ [] then b.sendBody first

theorem talk_eq (b : Backend) :
    b.talk = (do b.opening; b.relay (← get).supply none : Talking (Nat × Bool)) := by
  unfold talk opening
  simp only [bind_assoc]
  refine bind_congr fun t => bind_congr fun _ => bind_congr fun _ => bind_congr fun first => ?_
  by_cases hf : first ≠ []
  · simp only [if_pos hf]
  · simp only [if_neg hf, pure_bind]

theorem of_onRequest {act : Marshal Unit}
    (h : (b.packetStep (Talk.onRequest act)).run t = (.ok (), u)) :
    ∃ m, act.run t.request = (.ok (), m) ∧ u = { t with request := m } := by
  rcases hm : act.run t.request with ⟨r, m⟩
  have hrun : (b.packetStep (Talk.onRequest act)).run t =
      (r.mapError (.packet b.name), { t with request := m }) := by
    show ((Talk.onRequest act t).1.mapError _, (Talk.onRequest act t).2) = _
    unfold Talk.onRequest
    rw [hm]
  rw [h] at hrun
  obtain ⟨hr, hu⟩ := Prod.mk.inj hrun
  rw [mapError_eq_ok_iff.1 hr.symm]
  exact ⟨m, rfl, hu⟩

/-- The request was sent whole. -/
theorem sent_of_forward {r : ForwardRequest} {v : Talk}
    (hencode : (b.packetStep (Talk.onRequest r.encode)).run t = (.ok (), v))
    (hforward : (b.netStep (·.transmit .forward)).run v = (.ok (), u)) :
    ∃ bytes, t.Sent .forward bytes u := by
  obtain ⟨m, hm, rfl⟩ := of_onRequest hencode
  obtain ⟨s, hs, rfl⟩ := of_transmit hforward
  have hcapacity := r.keeps_encode.capacity t.request
  rw [hm] at hcapacity
  exact ⟨m.frame, hs, rfl, hcapacity, rfl, rfl, rfl⟩

/-- The first piece was read or kept, and fits in a packet. -/
theorem length_firstPiece_le {j k : Job} {first : Bytes} {size : Nat} (hsize : Admissible size)
    (hkept : j.tx.KeepsFirst) (h : Job.firstPiece.run j = (.ok first, k)) :
    first.length ≤ bodyRoom size := by
  obtain ⟨hkeeps, hreads, -⟩ := Job.of_firstPiece h
  refine Nat.le_trans ?_ (keptSize_le_bodyRoom hsize)
  cases hk : j.tx.first with
  | none => exact hreads hk
  | some bytes =>
    rw [hkeeps bytes hk]
    exact hkept bytes hk

/-- **An opening that goes through** sends the request and the first piece of its body, the one that
the transaction offers. -/
theorem begun_of_offers (hsize : Admissible t.request.capacity) (hkept : t.job.tx.KeepsFirst)
    (h : b.opening.run t = (.ok (), u)) : ∃ first, t.job.tx.offers = .ok first ∧ t.Begun first u := by
  unfold opening at h
  rw [run_bind_of_ok (run_get t)] at h
  obtain ⟨_, v, hencode, h⟩ := run_bind_eq_ok_iff.1 h
  obtain ⟨_, w, hforward, h⟩ := run_bind_eq_ok_iff.1 h
  obtain ⟨bytes, hsent⟩ := sent_of_forward hencode hforward
  obtain ⟨first, x, hfirst, h⟩ := run_bind_eq_ok_iff.1 h
  obtain ⟨j, hj, rfl⟩ := of_onJob hfirst
  obtain ⟨-, -, hsame, hworld⟩ := Job.of_firstPiece hj
  have hoffers : t.job.tx.offers = .ok first := by
    rw [← hsent.tx]
    obtain ⟨f, k, -, -, hk, -⟩ | ⟨first', k, hoffers, hk, -⟩ := w.job.firstPiece_cases
    · cases hk.symm.trans hj
    · cases hk.symm.trans hj
      exact hoffers
  have howes : ∀ body, t.job.tx.Awaits body →
      first = body.take Transaction.keptSize ∧ j.tx.Owes (body.drop Transaction.keptSize) := by
    intro body hbody
    rw [← hsent.tx] at hbody
    obtain ⟨k, hk, -, howes, -⟩ := Job.firstPiece_of_awaits hbody
    rw [hk] at hj
    cases hj
    exact ⟨rfl, howes⟩
  obtain ⟨reads, hor, hhistory⟩ : ∃ reads, (reads = [] ∨ reads = [Event.read false first]) ∧
      j.world.history =
        reads.reverse ++ .sent t.connection.id .forward bytes :: t.job.world.history := by
    rcases hworld with hworld | hworld
    · exact ⟨[], .inl rfl, by rw [hworld, hsent.world]; rfl⟩
    · exact ⟨_, .inr rfl, by rw [hworld, hsent.world]; rfl⟩
  rw [hsent.tx] at hsame
  refine ⟨first, hoffers, ?_⟩
  by_cases hf : first = []
  · rw [if_neg (not_not_intro hf)] at h
    cases h
    refine ⟨congrArg Stream.delivered hsent.reads, hsent.id, hsent.request, hsent.room, hsame,
      ⟨_, ⟨bytes, reads, hor, rfl⟩, ?_⟩, howes⟩
    rw [hhistory, if_pos hf, List.append_nil, List.reverse_cons, List.append_assoc]
    rfl
  · rw [if_pos hf] at h
    rw [← hsent.request] at hsize
    have hpiece := sent_of_sendBody (t := { w with job := j }) hsize
      (length_firstPiece_le hsize (hsent.tx ▸ hkept) hj) h
    refine ⟨congrArg Stream.delivered (hpiece.reads.trans hsent.reads), hpiece.id.trans hsent.id,
      hpiece.request.trans hsent.request, hpiece.room.trans hsent.room, ?_,
      ⟨_, ⟨bytes, reads, hor, rfl⟩, ?_⟩, ?_⟩
    · rw [hpiece.tx]
      exact hsame
    · rw [hpiece.world]
      show .sent w.connection.id .body _ :: j.world.history = _
      rw [hhistory, if_neg hf, hsent.id, List.reverse_cons, List.reverse_append, List.append_assoc]
      rfl
    · rw [hpiece.tx]
      exact howes

theorem begun_of_opening (hsize : Admissible t.request.capacity) (hkept : t.job.tx.KeepsFirst)
    (h : b.opening.run t = (.ok (), u)) : ∃ first, t.Begun first u :=
  (begun_of_offers hsize hkept h).imp fun _ h => h.2

/-- **An opening goes through** if the request encodes, on a connection that takes what is sent. -/
theorem opening_ok (hsize : Admissible t.request.capacity) (hkept : t.job.tx.KeepsFirst)
    (hencode : ∃ m, (b.forwardRequest t.job.tx).encode.run t.request = (.ok (), m))
    (hw : t.connection.stream.Willing)
    (hread : ∀ n, ∃ limit?, t.job.tx.channel.plan.read n = .ok limit?) :
    ∃ u, b.opening.run t = (.ok (), u) ∧ u.connection.stream.Willing := by
  obtain ⟨m, hm⟩ := hencode
  have hstep := run_onRequest (b := b) hm
  obtain ⟨u, hforward, hu⟩ := transmit_of_willing (b := b) (t := { t with request := m }) hw .forward
  obtain ⟨bytes, hsent⟩ := sent_of_forward hstep hforward
  unfold opening
  rw [run_bind_of_ok (run_get t), run_bind_of_ok hstep, run_bind_of_ok hforward]
  rw [← hsent.tx] at hread hkept
  rw [← hsent.request] at hsize
  obtain ⟨first, j, hj⟩ := Job.firstPiece_ok hread
  rw [run_bind_of_ok (run_onJob hj)]
  by_cases hf : first = []
  · rw [if_neg (not_not_intro hf)]
    exact ⟨_, rfl, hu⟩
  · rw [if_pos hf]
    exact sendBody_of_willing (t := { u with job := j }) hsize
      (length_firstPiece_le hsize hkept hj) hu

end Backend

end AjpGateway
