import AjpGateway.Proofs.Worker.Course
import AjpGateway.Proofs.Worker.Replacing

/-!
# Announcing a body

A container that is told of a body waits for its first piece.  An exchange sends that directly
behind the request, before it awaits a reply, but not where the piece is empty: then it awaits the
reply at once, whatever length was declared.

The piece is the same in every attempt, so it is empty in all of them exactly if the client gave
nothing when it was first asked.

    Transaction.Reached request channel tx →
      tx.offers = (channel.fill (min declared keptSize)).1                         (Reached.offers)
    b.Announces t ↔ (channel.read (min declared keptSize)).1 ≠ .ok []              (announces_iff)
-/

namespace AjpGateway

open Packet

namespace Transaction

theorem lasting_first (first : Bytes) : Lasting fun tx => tx.first = some first where
  firstPiece j hj := by
    rw [Job.run_firstPiece_of_first hj]
    exact hj
  nextPiece most j hj := by
    unfold Job.nextPiece
    rw [run_bind_of_ok (run_modify ..)]
    show (Job.pull true most { j with tx.streamed := true }).2.tx.first = _
    unfold Job.pull
    split <;> exact hj
  writeHeaders _ _ _ _ h := h
  writeBody _ _ h := h

end Transaction

namespace Backend

variable {b : Backend} {t u : Talk}

/-! ## Attempts -/

theorem keeps_first_answer (first : Bytes) (b : Backend) :
    Keeps (fun t : Talk => t.job.tx.first = some first) b.answer := by
  intro t h
  exact ((Talk.lasting_holds (Transaction.lasting_first first)).answer b t ⟨rfl, rfl, h⟩).tx

/-- What follows a request begins as if the first piece had been kept before. -/
theorem answer_of_firstPiece {first : Bytes} {k : Job}
    (h : Job.firstPiece.run t.job = (.ok first, k)) (hfirst : k.tx.first = some first) :
    b.answer.run t = b.answer.run { t with job := k } := by
  have hkept : Job.firstPiece.run ({ t with job := k } : Talk).job = (.ok first, k) :=
    Job.run_firstPiece_of_first hfirst
  unfold answer
  rw [run_bind_of_ok (run_onJob h), run_bind_of_ok (run_onJob hkept)]

theorem offers_answer {e : ServiceError} (h : b.answer.run t = (.error e, u))
    (he : e.recoverable = true) : u.job.tx.offers = t.job.tx.offers := by
  obtain ⟨f, k, -, -, hrun, -⟩ | ⟨first, k, hoffers, hrun, hfirst⟩ := t.job.firstPiece_cases
  · unfold answer at h
    rw [run_bind_of_error (run_onJob hrun)] at h
    cases h
    cases he
  · rw [answer_of_firstPiece hrun hfirst] at h
    have hkept := b.keeps_first_answer first { t with job := k } hfirst
    rw [h] at hkept
    rw [hoffers]
    exact Transaction.offers_of_first hkept

/-- An attempt after which another may follow leaves it the first piece that it had itself. -/
theorem offers_talk {e : ServiceError} (h : b.talk.run t = (.error e, u))
    (he : e.recoverable = true) : u.job.tx.offers = t.job.tx.offers := by
  unfold talk at h
  rw [run_bind_of_ok (run_get t)] at h
  obtain h | ⟨_, v, hencode, h⟩ := run_bind_eq_error_iff.1 h
  · cases (recoverable_packetStep (congrArg Prod.fst h)).symm.trans he
  have hv : v.job = t.job := (congrArg (fun p => p.2.job) hencode).symm
  obtain h | ⟨_, w, hforward, h⟩ := run_bind_eq_error_iff.1 h
  · have hu : u.job.tx = v.job.tx := (congrArg (fun p => p.2.job.tx) h).symm
    rw [hu, hv]
  · have hw : w.job.tx = v.job.tx := (congrArg (fun p => p.2.job.tx) hforward).symm
    rw [← hv, ← hw]
    exact offers_answer h he

end Backend

/-- **Every attempt has the same first piece.** -/
theorem Transaction.Reached.offers {request : ClientRequest} {channel : Channel}
    {tx : Transaction} (h : Reached request channel tx) :
    tx.offers = (channel.fill (min (request.contentLength?.getD 0) keptSize)).1 := by
  induction h with
  | begun => rfl
  | aimed _ _ ih => exact ih
  | failed _ hrun he ih => exact (Backend.offers_talk hrun he).trans ih

theorem Transaction.Reached.keepsFirst {request : ClientRequest} {channel : Channel}
    {tx : Transaction} (h : Reached request channel tx) : tx.KeepsFirst := by
  intro bytes hfirst
  have hoffers := h.offers
  rw [offers_of_first hfirst] at hoffers
  have hfill : channel.fill (min (request.contentLength?.getD 0) keptSize) =
      (.ok bytes, (channel.fill (min (request.contentLength?.getD 0) keptSize)).2) :=
    Prod.ext hoffers.symm rfl
  exact Nat.le_trans (Channel.of_fill hfill).1 (Nat.min_le_right ..)

namespace Backend

variable {b : Backend} {t u : Talk}

/-! ## What follows the request -/

/-- A reply is awaited before all else. -/
theorem receives_nextReply (b : Backend) (t : Talk) :
    ∃ n, Talk.StaysOn (t.job.world.note (.received t.connection.id n)) t.connection.id
      (b.nextReply.run t).2 := by
  rcases hr : Packet.receive t.connection.stream t.reply fromContainer with ⟨r, m, s, n⟩
  refine ⟨n, ?_⟩
  cases r with
  | ok size =>
    rw [run_nextReply_of_receive hr]
    exact ⟨rfl, .refl _⟩
  | error e =>
    have hcollect : t.collect = (.error e, { t with
        connection.stream := s
        reply := m
        job.world := t.job.world.note (.received t.connection.id n) }) := by
      unfold Talk.collect
      rw [hr]
      rfl
    unfold nextReply
    rw [run_bind]
    simp only [ExceptT.run, hcollect]
    exact ⟨rfl, .refl _⟩

/-- A relay awaits a reply before all else, and stays on the connection. -/
theorem receives_relay (b : Backend) (fuel : Nat) (status? : Option Nat) (t : Talk) :
    ∃ n, Talk.StaysOn (t.job.world.note (.received t.connection.id n)) t.connection.id
      ((b.relay fuel status?).run t).2 := by
  obtain ⟨n, hn⟩ := b.receives_nextReply t
  refine ⟨n, ?_⟩
  have hI := Talk.lasting_staysOn (w := t.job.world.note (.received t.connection.id n))
    (c := t.connection.id)
  rcases hreply : b.nextReply.run t with ⟨r, u⟩
  rw [hreply] at hn
  cases r with
  | error e =>
    rw [run_relay_of_error hreply]
    exact hn
  | ok reply =>
    by_cases hg : reply.goesOn = true
    · rw [run_relay_of_goesOn hreply hg]
      refine (hI.heed reply).bind (fun _ => ?_) u hn
      unfold relay.next
      cases fuel with
      | zero => exact Keeps.throw _
      | succ fuel => exact hI.relay fuel _
    · obtain ⟨r, hrun⟩ := run_relay_of_not_goesOn status? hreply (Bool.eq_false_iff.2 hg)
      rw [hrun]
      exact hn

/-- Sending a piece never fails by the client. -/
theorem fails_sendBody_isClient (b : Backend) (data : Bytes) :
    FailsWith (fun e => e.isClient = false) (b.sendBody data) := by
  refine FailsWith.bind (fun _ _ h => ?_) fun _ _ _ h => ?_
  · exact of_mapError (P := fun e => e.isClient = false) h fun _ => rfl
  · exact of_mapError (P := fun e => e.isClient = false) h fun _ => rfl

/-- **Only the first piece can fail by the client**: then the request was sent, and nothing
followed. -/
theorem client_of_opening {e : ServiceError} (h : b.opening.run t = (.error e, u))
    (he : e.isClient = true) :
    ∃ f bytes came, e = .client f ∧ t.job.tx.offers = .error f ∧ u.job.world.history =
      .read false came :: .sent t.connection.id .forward bytes :: t.job.world.history := by
  unfold opening at h
  rw [run_bind_of_ok (run_get t)] at h
  obtain h | ⟨_, v, hencode, h⟩ := run_bind_eq_error_iff.1 h
  · have hpacket := of_mapError (P := fun e => e.isClient = false) (congrArg Prod.fst h)
      fun _ => rfl
    cases hpacket.symm.trans he
  obtain h | ⟨_, w, hforward, h⟩ := run_bind_eq_error_iff.1 h
  · have hnet := of_mapError (P := fun e => e.isClient = false) (congrArg Prod.fst h)
      fun _ => rfl
    cases hnet.symm.trans he
  obtain ⟨bytes, hsent⟩ := sent_of_forward hencode hforward
  obtain ⟨f, k, came, hoffers, hk, hworld⟩ | ⟨first, k, -, hk, -⟩ := w.job.firstPiece_cases
  · rw [run_bind_of_error (run_onJob hk)] at h
    cases h
    rw [hsent.tx] at hoffers
    refine ⟨f, bytes, came, rfl, hoffers, ?_⟩
    show k.world.history = _
    rw [hworld, hsent.world]
    rfl
  · rw [run_bind_of_ok (run_onJob hk)] at h
    by_cases hf : first ≠ []
    · rw [if_pos hf] at h
      cases (b.fails_sendBody_isClient first _ _ (congrArg Prod.fst h)).symm.trans he
    · rw [if_neg hf] at h
      cases h

/-! ## Announcing -/

/-- What a talk did began with these events. -/
def Shows (b : Backend) (t : Talk) (events : List Event) : Prop :=
  ∃ later, (b.talk.run t).2.job.world.history = (events ++ later).reverse ++ t.job.world.history

/-- The body is announced before a reply is awaited: its first piece, in one packet, is all that is
sent behind the request, unless the client fails to give it. -/
def Announces (b : Backend) (t : Talk) : Prop :=
  (∃ f bytes came, (b.talk.run t).1 = .error (.client f) ∧ (b.talk.run t).2.job.world.history =
    .read false came :: .sent t.connection.id .forward bytes :: t.job.world.history) ∨
  ∃ piece bytes reads n, (reads = [] ∨ reads = [Event.read false piece]) ∧
    b.Shows t (.sent t.connection.id .forward bytes :: (reads ++
      [.sent t.connection.id .body (Wire.packet toContainer (Wire.piece piece)),
        .received t.connection.id n]))

/-- A reply is awaited with nothing sent behind the request. -/
def Withholds (b : Backend) (t : Talk) : Prop :=
  ∃ bytes reads n, (reads = [] ∨ reads = [Event.read false []]) ∧
    b.Shows t (.sent t.connection.id .forward bytes :: (reads ++ [.received t.connection.id n]))

/-- A history begins in one way. -/
theorem Shows.append_eq {x y : List Event} (hx : b.Shows t x) (hy : b.Shows t y) :
    ∃ later later', x ++ later = y ++ later' := by
  obtain ⟨later, hx⟩ := hx
  obtain ⟨later', hy⟩ := hy
  exact ⟨later, later', List.reverse_injective (List.append_cancel_right (hx.symm.trans hy))⟩

theorem Withholds.not_announces (h : b.Withholds t) : ¬ b.Announces t := by
  obtain ⟨bytes, reads, n, hreads, hshows⟩ := h
  rintro (⟨f, bytes', came, -, hhistory⟩ | ⟨piece, bytes', reads', n', hreads', hshows'⟩)
  · obtain ⟨later, hlater⟩ := hshows
    have heq : [.sent t.connection.id .forward bytes', .read false came] =
        .sent t.connection.id .forward bytes :: (reads ++ [.received t.connection.id n]) ++ later :=
      List.reverse_injective (List.append_cancel_right (hhistory.symm.trans hlater))
    obtain rfl | rfl := hreads <;> simp at heq
  · obtain ⟨later, later', heq⟩ := hshows.append_eq hshows'
    obtain rfl | rfl := hreads <;> obtain rfl | rfl := hreads' <;> simp at heq

theorem shows_of_opening (hopening : b.opening.run t = (.ok (), u)) {events : List Event}
    (hhistory : u.job.world.history = events.reverse ++ t.job.world.history) :
    ∃ n, b.Shows t (events ++ [.received u.connection.id n]) := by
  obtain ⟨n, -, -, later, hlater, -⟩ := b.receives_relay u.supply none u
  refine ⟨n, later, ?_⟩
  rw [talk_eq, run_bind_of_ok hopening, run_bind_of_ok (run_get u), hlater]
  show later.reverse ++ .received u.connection.id n :: u.job.world.history = _
  rw [hhistory]
  simp

/-- **A declared body is announced unless the client gives nothing** when it is first asked: then
an exchange whose request encodes, on a connection that takes what is sent, awaits its reply at
once. -/
theorem announces_iff {request : ClientRequest} {channel : Channel} {declared : Nat}
    (hreached : Transaction.Reached request channel t.job.tx)
    (hdeclared : request.contentLength? = some declared) (hpos : 0 < declared)
    (hsize : Admissible t.request.capacity)
    (hwrites : ∀ e, (b.opening.run t).1 = .error e → e.isClient = true) :
    (b.Announces t ↔ (channel.read (min declared Transaction.keptSize)).1 ≠ .ok []) ∧
      ((channel.read (min declared Transaction.keptSize)).1 = .ok [] → b.Withholds t) := by
  have hroom : 0 < min declared Transaction.keptSize := Nat.lt_min.2 ⟨hpos, by decide⟩
  have hoffers := hreached.offers
  rw [hdeclared, Option.getD_some] at hoffers
  rw [ne_eq, ← channel.fill_eq_nil_iff hroom, ← hoffers]
  rcases hopening : b.opening.run t with ⟨r, u⟩
  cases r with
  | error e =>
    obtain ⟨f, bytes, came, rfl, hfirst, hhistory⟩ :=
      client_of_opening hopening (hwrites e (congrArg Prod.fst hopening))
    rw [hfirst]
    have htalk : b.talk.run t = (.error (.client f), u) := by
      rw [talk_eq, run_bind_of_error hopening]
    have hannounces : b.Announces t := .inl ⟨f, bytes, came, by rw [htalk], by rw [htalk, hhistory]⟩
    exact ⟨iff_of_true hannounces nofun, nofun⟩
  | ok _ =>
    obtain ⟨first, hfirst, hbegun⟩ := begun_of_offers hsize hreached.keepsFirst hopening
    obtain ⟨events, ⟨bytes, reads, hreads, rfl⟩, hhistory⟩ := hbegun.history
    obtain ⟨n, hshows⟩ := shows_of_opening hopening hhistory
    rw [hbegun.id, List.cons_append, List.append_assoc] at hshows
    rw [hfirst]
    by_cases hempty : first = []
    · subst hempty
      have hwithholds : b.Withholds t := ⟨bytes, reads, n, hreads, hshows⟩
      exact ⟨iff_of_false hwithholds.not_announces (not_not_intro rfl), fun _ => hwithholds⟩
    · rw [if_neg hempty] at hshows
      exact ⟨iff_of_true (.inr ⟨first, bytes, reads, n, hreads, hshows⟩) fun h =>
        hempty (Except.ok.inj h), fun h => absurd (Except.ok.inj h) hempty⟩

/-! ### A body that never comes -/

/-- A request whose body was declared, of which the client gives nothing. -/
def promised : ClientRequest where
  method := "POST"
  uri := "/"
  headers := [("Content-Length", "5")]

/-- Its exchange with a container that takes everything and gives nothing. -/
def unfed : Talk where
  connection := ⟨0, ⟨.localhost, 8009, 0⟩, {}, silent⟩
  request := .new defaultSize
  reply := .new defaultSize
  job := { tx := .begin promised {}, world := {} }

/-- Both sides wait: the container for the body, the gateway for the reply. -/
theorem announces_iff_unfed :
    promised.contentLength? = some 5 ∧ (wary.opening.run unfed).1 = .ok () ∧
      wary.Withholds unfed ∧ ¬ wary.Announces unfed ∧
      ∀ f, (wary.talk.run unfed).1 ≠ .error (.client f) := by
  have hdeclared : promised.contentLength? = some 5 := by decide +kernel
  have hopening : (wary.opening.run unfed).1 = .ok () := isOk_iff.1 (by decide +kernel)
  have hsize : Admissible unfed.request.capacity := by
    show Admissible (Buffer.new defaultSize).capacity
    rw [Buffer.capacity_new]
    exact ⟨by decide, by decide⟩
  have hempty : (({} : Channel).read (min 5 Transaction.keptSize)).1 = .ok [] := by rfl
  obtain ⟨hiff, hwithholds⟩ := announces_iff (b := wary) (t := unfed) .begun hdeclared
    (by decide) hsize (fun e he => by cases hopening.symm.trans he)
  refine ⟨hdeclared, hopening, hwithholds hempty, fun h => hiff.1 h hempty, fun f hclient => ?_⟩
  obtain ⟨hretries, -⟩ := talk_of_unanswered (b := wary) (t := unfed) (by decide +kernel)
    (by decide +kernel)
  rw [hclient] at hretries
  cases hretries

end Backend

end AjpGateway
