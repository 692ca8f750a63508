import AjpGateway.Proofs.Packet.Capacity
import AjpGateway.Proofs.Worker.Conversation
import AjpGateway.Proofs.Worker.Exchange

/-!
# What an exchange keeps

Whatever becomes of an exchange, the buffers keep their capacities; and as long as another attempt
may follow, the body of the request stands where an attempt finds it.  An exchange is made of a few
kinds of steps, four of which touch the transaction, so what these keep is kept by every exchange.

    Talk.Lasting I → Keeps I b.talk                                          (Talk.Lasting.talk)
    Transaction.Lasting P → Keeps (Talk.Holds c d P) b.talk                          (keeps_talk)
    b.Carries R → R line job (b.exchange line job).2.1 (b.exchange line job).2.2
                                                                               (Carries.exchange)
    line.Fits size → (b.exchange line job).2.1.Fits size                          (fits_exchange)
-/

namespace AjpGateway

open Packet

/-! ## Transactions -/

/-- What no step of an exchange takes from a transaction. -/
structure Transaction.Lasting (P : Transaction → Prop) : Prop where
  firstPiece : Keeps (fun j : Job => P j.tx) Job.firstPiece
  nextPiece : ∀ most, Keeps (fun j : Job => P j.tx) (Job.nextPiece most)
  writeHeaders : ∀ status reason headers,
    Keeps (fun j : Job => P j.tx) (Job.writeHeaders status reason headers)
  writeBody : ∀ data, Keeps (fun j : Job => P j.tx) (Job.writeBody data)

namespace Job

section
variable {I : World → Prop} (hread : ∀ w demanded bytes, I w → I (w.note (.read demanded bytes)))

include hread

/-- To read the body is all that a job does to the world before it answers. -/
theorem keeps_pull (demanded : Bool) (most : Nat) :
    Keeps (fun j : Job => I j.world) (pull demanded most) := by
  intro j h
  obtain ⟨bytes, hworld, -⟩ := noted_pull demanded most j
  rw [hworld]
  exact hread _ _ _ h

theorem keeps_firstPiece : Keeps (fun j : Job => I j.world) firstPiece := by
  unfold firstPiece
  refine Keeps.get.bind fun j => ?_
  cases j.tx.first with
  | some bytes => exact Keeps.pure bytes
  | none =>
    exact (keeps_pull hread false _).bind fun bytes =>
      Keeps.bind (Keeps.modify fun _ h => h) fun _ => Keeps.pure bytes

theorem keeps_nextPiece (most : Nat) : Keeps (fun j : Job => I j.world) (nextPiece most) := by
  unfold nextPiece
  exact Keeps.bind (Keeps.modify fun _ h => h) fun _ => keeps_pull hread true most

end

theorem committed_nextPiece (most : Nat) (j : Job) :
    ((nextPiece most).run j).2.tx.uncommitted = false := by
  obtain ⟨-, -, -, hkept⟩ := noted_pull true most { j with tx.streamed := true }
  unfold nextPiece
  rw [run_bind_of_ok (run_modify ..)]
  exact hkept.trans (Bool.and_false _)

end Job

namespace Transaction

theorem lasting_true : Lasting fun _ => True where
  firstPiece _ _ := trivial
  nextPiece _ _ _ := trivial
  writeHeaders _ _ _ _ _ := trivial
  writeBody _ _ _ := trivial

/-- As long as another attempt may follow, the body stands where it finds it. -/
def Stands (body : Bytes) (tx : Transaction) : Prop := tx.uncommitted = true → tx.Awaits body

/-- Reading the first piece is the only step after which another attempt may follow. -/
theorem lasting_stands (body : Bytes) : Lasting (Stands body) where
  firstPiece j hj hopen := by
    obtain ⟨⟨events, hgoes, -⟩, -⟩ := Job.local_firstPiece j
    obtain ⟨k, hrun, hfirst, howes, -⟩ :=
      Job.firstPiece_of_awaits (hj (hgoes.uncommitted hopen).1)
    rw [hrun]
    exact .inr ⟨hfirst, howes⟩
  nextPiece most j _ hopen := by
    rw [Job.committed_nextPiece] at hopen
    cases hopen
  writeHeaders _ _ _ _ _ hopen := by cases hopen
  writeBody _ _ _ hopen := by cases hopen

end Transaction

/-! ## Talks -/

/-- What no step of an exchange takes from a talk. -/
structure Talk.Lasting (I : Talk → Prop) : Prop where
  onRequest : ∀ {α : Type} {act : Marshal α}, KeepsCapacity act →
    ∀ t, I t → I (Talk.onRequest act t).2
  transmit : ∀ what t, I t → I (t.transmit what).2
  collect : ∀ t, I t → I t.collect.2
  decoded : ∀ t, I t → I t.decoded.2
  firstPiece : Keeps I (Talk.onJob Job.firstPiece : Talking Bytes)
  nextPiece : ∀ most, Keeps I (Talk.onJob (Job.nextPiece most) : Talking Bytes)
  writeHeaders : ∀ status reason headers,
    Keeps I (Talk.onJob (Job.writeHeaders status reason headers) : Talking Unit)
  writeBody : ∀ data, Keeps I (Talk.onJob (Job.writeBody data) : Talking Unit)

namespace Talk.Lasting

variable {I : Talk → Prop} {b : Backend} (hI : Talk.Lasting I)

include hI

theorem nextReply : Keeps I b.nextReply := by
  unfold Backend.nextReply
  exact Keeps.bind (fun t h => hI.collect t h) fun _ => fun t h => hI.decoded t h

theorem sendBody (data : Bytes) : Keeps I (b.sendBody data) := by
  unfold Backend.sendBody
  exact Keeps.bind (fun t h => hI.onRequest (keeps_encodeBody data) t h)
    fun _ => fun t h => hI.transmit .body t h

theorem heed (reply : Reply) : Keeps I (b.heed reply) := by
  unfold Backend.heed
  cases reply with
  | sendHeaders status reason headers => exact hI.writeHeaders _ _ _
  | sendBody data => exact hI.writeBody data
  | getBody requested =>
    exact Keeps.get.bind fun t => (hI.nextPiece _).bind fun data => hI.sendBody data
  | endResponse reuse => exact Keeps.pure ()
  | pong => exact Keeps.pure ()

theorem relay_of_next {fuel : Nat} {status? : Option Nat}
    (hnext : ∀ s?, Keeps I (Backend.relay.next b fuel s?)) : Keeps I (b.relay fuel status?) := by
  unfold Backend.relay
  refine hI.nextReply.bind fun reply => ?_
  cases reply with
  | sendHeaders status reason headers =>
    exact (hI.writeHeaders _ _ _).bind fun _ => hnext _
  | sendBody data => exact (hI.writeBody data).bind fun _ => hnext _
  | getBody requested =>
    refine Keeps.get.bind fun t => ?_
    refine (hI.nextPiece _).bind fun data => ?_
    exact (hI.sendBody data).bind fun _ => hnext _
  | endResponse reuse =>
    cases status? with
    | some status => exact Keeps.pure (status, reuse)
    | none => exact Keeps.throw _
  | pong => exact Keeps.throw _

theorem relay (fuel : Nat) (status? : Option Nat) : Keeps I (b.relay fuel status?) := by
  induction fuel generalizing status? with
  | zero =>
    refine hI.relay_of_next fun s? => ?_
    unfold Backend.relay.next
    exact Keeps.throw _
  | succ n ih =>
    refine hI.relay_of_next fun s? => ?_
    unfold Backend.relay.next
    exact ih s?

theorem answer (b : Backend) : Keeps I b.answer := by
  have hrest : Keeps I (do b.relay (← get).supply none : Talking (Nat × Bool)) :=
    Keeps.get.bind fun t => hI.relay t.supply none
  unfold Backend.answer
  refine hI.firstPiece.bind fun first => ?_
  by_cases hf : first ≠ []
  · rw [if_pos hf]
    exact (hI.sendBody first).bind fun _ => hrest
  · rw [if_neg hf]
    exact hrest

/-- **An exchange keeps what its steps keep.** -/
theorem talk (b : Backend) : Keeps I b.talk :=
  Keeps.get.bind fun t =>
    Keeps.bind (fun u h => hI.onRequest (b.forwardRequest t.job.tx).keeps_encode u h) fun _ =>
      Keeps.bind (fun u h => hI.transmit .forward u h) fun _ => hI.answer b

/-- A probe keeps it too. -/
theorem answersProbe {t : Talk} (h : I t) : I (Backend.answersProbe t).2 :=
  Backend.answersProbe_keeps (fun t h => hI.onRequest keeps_encodePing t h) (hI.transmit .probe)
    hI.collect hI.decoded h

end Talk.Lasting

/-- A talk with buffers of these capacities, and a transaction of which `P` holds. -/
structure Talk.Holds (request reply : Nat) (P : Transaction → Prop) (t : Talk) : Prop where
  request : t.request.capacity = request
  reply : t.reply.capacity = reply
  tx : P t.job.tx

section
variable {c d : Nat} {P : Transaction → Prop} {t : Talk}

namespace Talk

theorem Holds.onRequest {α : Type} {act : Marshal α} (ha : KeepsCapacity act) (h : t.Holds c d P) :
    (Talk.onRequest act t).2.Holds c d P :=
  ⟨(ha.capacity t.request).trans h.request, h.reply, h.tx⟩

theorem Holds.transmit (h : t.Holds c d P) (what : Sending) : (t.transmit what).2.Holds c d P :=
  ⟨h.request, h.reply, h.tx⟩

theorem Holds.collect (h : t.Holds c d P) : t.collect.2.Holds c d P :=
  ⟨h.request, (capacity_receive t.connection.stream t.reply fromContainer).trans h.reply, h.tx⟩

theorem Holds.decoded (h : t.Holds c d P) : t.decoded.2.Holds c d P :=
  ⟨h.request, (Reply.perusal_decode.keepsCapacity.capacity t.reply).trans h.reply, h.tx⟩

theorem Holds.onJob {α : Type} {act : Serving α} (ha : Keeps (fun j : Job => P j.tx) act) :
    Keeps (Holds c d P) (Talk.onJob act : Talking α) :=
  fun t h => ⟨h.request, h.reply, ha t.job h.tx⟩

theorem lasting_holds (hP : Transaction.Lasting P) : Lasting (Holds c d P) where
  onRequest ha _ h := h.onRequest ha
  transmit what _ h := h.transmit what
  collect _ h := h.collect
  decoded _ h := h.decoded
  firstPiece := Holds.onJob hP.firstPiece
  nextPiece most := Holds.onJob (hP.nextPiece most)
  writeHeaders status reason headers := Holds.onJob (hP.writeHeaders status reason headers)
  writeBody data := Holds.onJob (hP.writeBody data)

end Talk

/-- **An exchange keeps** the capacities of its buffers, and of the transaction what its steps
keep. -/
theorem Backend.keeps_talk (hP : Transaction.Lasting P) (b : Backend) :
    Keeps (Talk.Holds c d P) b.talk :=
  (Talk.lasting_holds hP).talk b

end

/-! ## Lines -/

/-- A line with buffers for packets of the size. -/
def Line.Fits (size : Nat) (line : Line) : Prop :=
  line.request.capacity = size ∧ line.reply.capacity = size

/-- A line fits whatever its connection is. -/
theorem Line.Fits.anew {size : Nat} {line : Line} (h : line.Fits size) :
    Line.Fits size { line with connection? := none } := h

theorem Line.fits_new {size : Nat} (h : headerSize ≤ size) : (Line.new size).Fits size :=
  ⟨Buffer.capacity_new_of_le h, Buffer.capacity_new_of_le h⟩

namespace Backend

variable {b : Backend} {size : Nat} {line : Line} {job : Job}

theorem holds_answersProbe {c d : Nat} {P : Transaction → Prop} {t : Talk} (h : t.Holds c d P) :
    (answersProbe t).2.Holds c d P :=
  answersProbe_keeps (fun _ h => h.onRequest keeps_encodePing) (fun _ h => h.transmit .probe)
    (fun _ h => h.collect) (fun _ h => h.decoded) h

theorem fits_probe (b : Backend) (job : Job) (h : line.Fits size) :
    (b.probe line job).1.Fits size ∧ (b.probe line job).2.tx = job.tx := by
  obtain hp | ⟨c, u, left?, -, rfl, hp, -⟩ := b.probe_cases line job
  · rw [hp]
    exact ⟨h, rfl⟩
  · have hprobed := holds_answersProbe (P := (· = job.tx)) (t := line.over c job) ⟨h.1, h.2, rfl⟩
    rw [hp]
    exact ⟨⟨hprobed.request, hprobed.reply⟩, hprobed.tx⟩

theorem tx_connected (b : Backend) (line : Line) (job : Job) :
    (b.connected line job).2.tx = job.tx := by
  unfold connected
  cases line.connection? with
  | some connection => rfl
  | none => cases b.address? <;> rfl

/-- **An exchange** finds no connection, or it is a talk over one. -/
theorem exchange_cases (b : Backend) (job : Job) (h : line.Fits size) :
    (∃ e line' job', b.exchange line job = (.error e, line', job') ∧ line'.Fits size ∧
      job'.tx = job.tx) ∨
    ∃ t r u, t.Holds size size (· = job.tx) ∧ b.talk.run t = (r, u) ∧ b.exchange line job =
      (r, { connection? := some u.connection, request := u.request, reply := u.reply }, u.job) := by
  obtain ⟨hfits, htx⟩ := b.fits_probe job h
  rcases hprobe : b.probe line job with ⟨line', job'⟩
  rw [hprobe] at hfits htx
  have hconnected := b.tx_connected line' job'
  rcases hc : b.connected line' job' with ⟨r, job''⟩
  rw [hc] at hconnected
  cases r with
  | error e =>
    exact .inl ⟨e, line', job'', exchange_of_unconnected hprobe hc, hfits, hconnected.trans htx⟩
  | ok connection =>
    exact .inr ⟨line'.over connection job'', _, _, ⟨hfits.1, hfits.2, hconnected.trans htx⟩, rfl,
      exchange_of_connected hprobe hc⟩

/-- A relation of a line and a job to what becomes of them, that holds from the beginning of every
part of an exchange to its end. -/
structure Carries (b : Backend) (R : Line → Job → Line → Job → Prop) : Prop where
  refl : ∀ line job, R line job line job
  trans : ∀ {line line' line'' job job' job''},
    R line job line' job' → R line' job' line'' job'' → R line job line'' job''
  probe : ∀ line job, R line job (b.probe line job).1 (b.probe line job).2
  unconnected : ∀ {line job e job'}, b.connected line job = (.error e, job') → R line job line job'
  connected : ∀ {line job c job'}, b.connected line job = (.ok c, job') →
    R line job { line with connection? := some c } job'
  talk : ∀ t : Talk, R t.line t.job (b.talk.run t).2.line (b.talk.run t).2.job
  close : ∀ line job, R line job { line with connection? := none } job

namespace Carries

variable {R : Line → Job → Line → Job → Prop}

theorem exchange (h : b.Carries R) (line : Line) (job : Job) :
    R line job (b.exchange line job).2.1 (b.exchange line job).2.2 := by
  have hprobe := h.probe line job
  rcases hp : b.probe line job with ⟨line', job'⟩
  rw [hp] at hprobe
  rcases hc : b.connected line' job' with ⟨r, job''⟩
  cases r with
  | error e =>
    rw [exchange_of_unconnected hp hc]
    exact h.trans hprobe (h.unconnected hc)
  | ok connection =>
    rw [exchange_of_connected hp hc]
    exact h.trans (h.trans hprobe (h.connected hc)) (h.talk (line'.over connection job''))

/-- The second exchange begins where the first one left the job, on a line without a connection. -/
theorem exchangeTwice (h : b.Carries R) (line : Line) (job : Job) :
    R line job (b.exchangeTwice line job).2.1 (b.exchangeTwice line job).2.2 := by
  have hfirst := h.exchange line job
  unfold Backend.exchangeTwice
  rcases hr : b.exchange line job with ⟨r, line', job'⟩
  rw [hr] at hfirst
  cases r with
  | ok r => exact hfirst
  | error e =>
    dsimp only
    split
    · exact h.trans (h.trans hfirst (h.close line' job')) (h.exchange _ job')
    · exact hfirst

end Carries

/-- An exchange leaves a line that fits as one. -/
theorem carries_fits (b : Backend) (size : Nat) :
    b.Carries fun line _ line' _ => line.Fits size → line'.Fits size where
  refl _ _ h := h
  trans h h' hline := h' (h hline)
  probe _ job h := (b.fits_probe job h).1
  unconnected _ h := h
  connected _ h := h
  talk t h := by
    have hu := keeps_talk Transaction.lasting_true b t ⟨h.1, h.2, trivial⟩
    exact ⟨hu.request, hu.reply⟩
  close _ _ h := h.anew

theorem fits_exchange (b : Backend) (job : Job) (h : line.Fits size) :
    (b.exchange line job).2.1.Fits size :=
  (b.carries_fits size).exchange line job h

theorem fits_exchangeTwice (b : Backend) (job : Job) (h : line.Fits size) :
    (b.exchangeTwice line job).2.1.Fits size :=
  (b.carries_fits size).exchangeTwice line job h

end Backend

end AjpGateway
