import AjpGateway.Net.Stream

/-!
# Transfers

A transfer is made of single calls, each of which moves some of the bytes that are still to be
moved.  An interrupted call is made again; any other call that moves nothing ends the transfer with
the number of bytes moved until then.  Sending is such a transfer by single writes, and receiving
one by single reads, and nothing else is: the relation is the loop as it is run, one rule for each
result of a call.

    s.send data = (result, taken, s') ↔ Transfers .send data.length (writing data) 0 s result taken s'
                                                                              (send_iff)
    s.receive room = (result, bytes, s') ↔ Transfers .recv room (reading room) 0 s result bytes s'
                                                                              (receive_iff)

What holds of every transfer is proved once, by induction on its calls: it is complete exactly if
no byte is missing, a failure counts what was moved, nothing is moved twice or lost, and
interruptions do not show.
-/

namespace AjpGateway

/-! ## Calls one after another -/

/-- What a call that moved nothing makes of a transfer of which `k` bytes were moved. -/
inductive Stops (op : NetOp) (k : Nat) : Except Fault Bytes → NetFailure → Prop
  | closed : Stops op k (.ok []) (.closed op k)
  | late {f : Fault} (h : f.kind = .wouldBlock ∨ f.kind = .timedOut) :
    Stops op k (.error f) (.timeout op k)
  | broken {f : Fault} (hi : f.kind ≠ .interrupted) (hw : f.kind ≠ .wouldBlock)
    (ht : f.kind ≠ .timedOut) : Stops op k (.error f) (.broken op k f)

/-- A transfer of `total` bytes of which `k` are moved: what comes of it, the bytes moved from here
on, and the state then.  `call k` is the next call. -/
inductive Transfers {σ : Type} (op : NetOp) (total : Nat) (call : Nat → σ → Except Fault Bytes × σ) :
    Nat → σ → Except NetFailure Unit → Bytes → σ → Prop
  | whole {k : Nat} {s : σ} (hk : k = total) : Transfers op total call k s (.ok ()) [] s
  | moved {k : Nat} {s s' t : σ} {result : Except NetFailure Unit} {bytes more : Bytes}
    (hk : k < total) (hc : call k s = (.ok bytes, s')) (hb : bytes ≠ [])
    (rest : Transfers op total call (k + bytes.length) s' result more t) :
    Transfers op total call k s result (bytes ++ more) t
  | interrupted {k : Nat} {s s' t : σ} {result : Except NetFailure Unit} {more : Bytes} {f : Fault}
    (hk : k < total) (hc : call k s = (.error f, s')) (hf : f.kind = .interrupted)
    (rest : Transfers op total call k s' result more t) :
    Transfers op total call k s result more t
  | stopped {k : Nat} {s s' : σ} {r : Except Fault Bytes} {e : NetFailure}
    (hk : k < total) (hc : call k s = (r, s')) (he : Stops op k r e) :
    Transfers op total call k s (.error e) [] s'

/-- The bytes that a call moved. -/
def movedBy : Except Fault Bytes → Bytes
  | .ok bytes => bytes
  | .error _ => []

namespace Stops

variable {op : NetOp} {k : Nat} {r : Except Fault Bytes} {e e' : NetFailure}

theorem movedBy_eq (h : Stops op k r e) : movedBy r = [] := by
  cases h <;> rfl

theorem not_ok (h : Stops op k r e) {bytes : Bytes} (hb : bytes ≠ []) : r ≠ .ok bytes := by
  rintro rfl
  exact hb h.movedBy_eq

theorem not_interrupted (h : Stops op k r e) {f : Fault} (hf : f.kind = .interrupted) :
    r ≠ .error f := by
  rintro rfl
  cases h with
  | late hl =>
    rw [hf] at hl
    exact hl.elim nofun nofun
  | broken hi => exact hi hf

theorem det (h : Stops op k r e) (h' : Stops op k r e') : e = e' := by
  cases h with
  | closed =>
    cases h'
    rfl
  | late hl =>
    cases h' with
    | late => rfl
    | broken _ hw ht => exact (hl.elim hw ht).elim
  | broken hi hw ht =>
    cases h' with
    | late hl => exact (hl.elim hw ht).elim
    | broken => rfl

theorem ofFault {f : Fault} (h : f.kind ≠ .interrupted) :
    Stops op k (.error f) (.ofFault op k f) := by
  unfold NetFailure.ofFault
  split
  · next hw => exact .late (.inl hw)
  · next ht => exact .late (.inr ht)
  · next hw ht => exact .broken h hw ht

end Stops

namespace Transfers

variable {σ : Type} {op : NetOp} {total k : Nat} {call : Nat → σ → Except Fault Bytes × σ}
  {s t : σ} {result : Except NetFailure Unit} {bytes : Bytes}

/-- What comes of a transfer is decided by its calls. -/
theorem det {result' : Except NetFailure Unit} {bytes' : Bytes} {t' : σ}
    (h : Transfers op total call k s result bytes t)
    (h' : Transfers op total call k s result' bytes' t') :
    result = result' ∧ bytes = bytes' ∧ t = t' := by
  induction h generalizing result' bytes' with
  | whole hk =>
    cases h' with
    | whole => exact ⟨rfl, rfl, rfl⟩
    | moved hk' => exact (Nat.ne_of_lt hk' hk).elim
    | interrupted hk' => exact (Nat.ne_of_lt hk' hk).elim
    | stopped hk' => exact (Nat.ne_of_lt hk' hk).elim
  | moved hk hc hb _ ih =>
    cases h' with
    | whole hk' => exact (Nat.ne_of_lt hk hk').elim
    | moved _ hc' _ rest' =>
      cases hc.symm.trans hc'
      obtain ⟨hresult, hmore, ht⟩ := ih rest'
      exact ⟨hresult, by rw [hmore], ht⟩
    | interrupted _ hc' => cases hc.symm.trans hc'
    | stopped _ hc' he =>
      cases hc.symm.trans hc'
      exact (he.not_ok hb rfl).elim
  | interrupted hk hc hf _ ih =>
    cases h' with
    | whole hk' => exact (Nat.ne_of_lt hk hk').elim
    | moved _ hc' => cases hc.symm.trans hc'
    | interrupted _ hc' _ rest' =>
      cases hc.symm.trans hc'
      exact ih rest'
    | stopped _ hc' he =>
      cases hc.symm.trans hc'
      exact (he.not_interrupted hf rfl).elim
  | stopped hk hc he =>
    cases h' with
    | whole hk' => exact (Nat.ne_of_lt hk hk').elim
    | moved _ hc' hb =>
      cases hc.symm.trans hc'
      exact (he.not_ok hb rfl).elim
    | interrupted _ hc' hf =>
      cases hc.symm.trans hc'
      exact (he.not_interrupted hf rfl).elim
    | stopped _ hc' he' =>
      cases hc.symm.trans hc'
      exact ⟨by rw [he.det he'], rfl, rfl⟩

/-! ## What holds of every transfer -/

theorem length_of_ok (h : Transfers op total call k s (.ok ()) bytes t) :
    k + bytes.length = total := by
  generalize hr : (Except.ok () : Except NetFailure Unit) = result at h
  induction h with
  | whole hk => exact hk
  | moved _ _ _ _ ih =>
    rw [List.length_append, ← Nat.add_assoc]
    exact ih hr
  | interrupted _ _ _ _ ih => exact ih hr
  | stopped => cases hr

/-- A transfer that failed ended with a call that moved nothing, short of its total. -/
theorem stops_of_error {e : NetFailure} (h : Transfers op total call k s (.error e) bytes t) :
    k + bytes.length < total ∧
      ∃ s₀ r, call (k + bytes.length) s₀ = (r, t) ∧ Stops op (k + bytes.length) r e := by
  generalize hr : (Except.error e : Except NetFailure Unit) = result at h
  induction h with
  | whole => cases hr
  | moved _ _ _ _ ih =>
    rw [List.length_append, ← Nat.add_assoc]
    exact ih hr
  | interrupted _ _ _ _ ih => exact ih hr
  | stopped hk hc he =>
    cases hr
    exact ⟨hk, _, _, hc, he⟩

theorem ok_iff (h : Transfers op total call k s result bytes t) :
    result = .ok () ↔ k + bytes.length = total := by
  constructor
  · rintro rfl
    exact h.length_of_ok
  · intro hlen
    cases result with
    | ok _ => rfl
    | error e => exact absurd hlen (Nat.ne_of_lt h.stops_of_error.1)

/-- What each call takes off the state, all calls take off in turn. -/
theorem conserves {held : σ → Bytes}
    (hcall : ∀ k s r s', call k s = (r, s') → held s = movedBy r ++ held s')
    (h : Transfers op total call k s result bytes t) : held s = bytes ++ held t := by
  induction h with
  | whole => rfl
  | moved _ hc _ _ ih => rw [hcall _ _ _ _ hc, ih, ← List.append_assoc, movedBy]
  | interrupted _ hc _ _ ih => rw [hcall _ _ _ _ hc, ih, movedBy, List.nil_append]
  | stopped _ hc he => rw [hcall _ _ _ _ hc, he.movedBy_eq]

/-- Where each call moves the next bytes, all calls move a part from the front. -/
theorem isPrefix {data : Bytes}
    (hcall : ∀ k s bytes s', call k s = (.ok bytes, s') → bytes <+: data.drop k)
    (h : Transfers op total call k s result bytes t) : bytes <+: data.drop k := by
  induction h with
  | whole => exact List.nil_prefix
  | moved _ hc _ _ ih =>
    obtain ⟨later, hlater⟩ := hcall _ _ _ _ hc
    rw [← List.drop_drop, ← hlater, List.drop_left] at ih
    rw [← hlater]
    exact (List.prefix_append_right_inj _).2 ih
  | interrupted _ _ _ _ ih => exact ih
  | stopped => exact List.nil_prefix

theorem length_le (h : Transfers op total call k s result bytes t) :
    k + bytes.length ≤ total := by
  cases result with
  | ok _ => exact Nat.le_of_eq h.length_of_ok
  | error e => exact Nat.le_of_lt h.stops_of_error.1

/-- Interruptions do not show: a state without those to come leads to the same. -/
theorem quiet {q : σ → σ}
    (hcall : ∀ k s r s', call k s = (r, s') →
      (∃ f, r = .error f ∧ f.kind = .interrupted ∧ q s' = q s) ∨ call k (q s) = (r, q s'))
    (h : Transfers op total call k s result bytes t) :
    Transfers op total call k (q s) result bytes (q t) := by
  induction h with
  | whole hk => exact .whole hk
  | moved hk hc hb _ ih =>
    obtain ⟨f, hr, -⟩ | hc' := hcall _ _ _ _ hc
    · cases hr
    · exact .moved hk hc' hb ih
  | interrupted hk hc hf _ ih =>
    obtain ⟨f, -, -, hq⟩ | hc' := hcall _ _ _ _ hc
    · rwa [hq] at ih
    · exact .interrupted hk hc' hf ih
  | stopped hk hc he =>
    obtain ⟨f, hr, hf, -⟩ | hc' := hcall _ _ _ _ hc
    · exact (he.not_interrupted hf hr).elim
    · exact .stopped hk hc' he

end Transfers

/-! ## Streams call by call -/

def ReadResult.isInterruption : ReadResult → Bool
  | .data _ => false
  | .fault f => f.kind == .interrupted

def WriteResult.isInterruption : WriteResult → Bool
  | .accepts _ => false
  | .fault f => f.kind == .interrupted

namespace Stream

/-- One write: the bytes that were taken. -/
def write (s : Stream) (offered : Bytes) : Except Fault Bytes × Stream :=
  match s.writes with
  | [] => (.ok (if s.drains then offered else []), s)
  | .accepts n :: writes => (.ok (offered.take n), { s with writes })
  | .fault f :: writes => (.error f, { s with writes })

/-- One read: the bytes that came, no more than there is room for. -/
def read (s : Stream) (room : Nat) : Except Fault Bytes × Stream :=
  match s.reads with
  | [] => (.ok [], s)
  | .data bytes :: reads =>
    if room < bytes.length then
      (.ok (bytes.take room), { s with reads := .data (bytes.drop room) :: reads })
    else (.ok bytes, { s with reads })
  | .fault f :: reads => (.error f, { s with reads })

/-- The write that offers what is left of `data` after `k` bytes. -/
def writing (data : Bytes) (k : Nat) (s : Stream) : Except Fault Bytes × Stream :=
  s.write (data.drop k)

/-- The read into what is left of `room` after `k` bytes. -/
def reading (room k : Nat) (s : Stream) : Except Fault Bytes × Stream :=
  s.read (room - k)

/-- The stream without interruptions. -/
def uninterrupted (s : Stream) : Stream where
  reads := s.reads.filter (!·.isInterruption)
  writes := s.writes.filter (!·.isInterruption)
  drains := s.drains

theorem write_isPrefix {s s' : Stream} {offered taken : Bytes}
    (h : s.write offered = (.ok taken, s')) : taken <+: offered := by
  unfold write at h
  split at h
  · cases h
    split
    · exact List.prefix_rfl
    · exact List.nil_prefix
  · cases h
    exact List.take_prefix ..
  · cases h

theorem pending_of_read {s s' : Stream} {room : Nat} {r : Except Fault Bytes}
    (h : s.read room = (r, s')) : s.pending = movedBy r ++ s'.pending := by
  obtain ⟨reads, writes, drains⟩ := s
  unfold read at h
  cases reads with
  | nil =>
    cases h
    rfl
  | cons first reads =>
    cases first with
    | data bytes =>
      dsimp only at h
      split at h
      · cases h
        show bytes ++ reads.flatMap ReadResult.bytes =
          bytes.take room ++ (bytes.drop room ++ reads.flatMap ReadResult.bytes)
        rw [← List.append_assoc, List.take_append_drop]
      · cases h
        rfl
    | fault f =>
      cases h
      rfl

/-- An interrupted call leaves the stream as it is without interruptions, any other call is made
there too. -/
theorem quiet_write {s s' : Stream} {offered : Bytes} {r : Except Fault Bytes}
    (h : s.write offered = (r, s')) :
    (∃ f, r = .error f ∧ f.kind = .interrupted ∧ s'.uninterrupted = s.uninterrupted) ∨
      s.uninterrupted.write offered = (r, s'.uninterrupted) := by
  obtain ⟨reads, writes, drains⟩ := s
  cases writes with
  | nil =>
    cases h
    exact .inr rfl
  | cons first writes =>
    cases first with
    | accepts n =>
      cases h
      exact .inr rfl
    | fault f =>
      cases h
      by_cases hf : f.kind = .interrupted
      · exact .inl ⟨f, rfl, hf, by simp [uninterrupted, WriteResult.isInterruption, hf]⟩
      · exact .inr (by simp [uninterrupted, WriteResult.isInterruption, hf, write])

theorem quiet_read {s s' : Stream} {room : Nat} {r : Except Fault Bytes}
    (h : s.read room = (r, s')) :
    (∃ f, r = .error f ∧ f.kind = .interrupted ∧ s'.uninterrupted = s.uninterrupted) ∨
      s.uninterrupted.read room = (r, s'.uninterrupted) := by
  obtain ⟨reads, writes, drains⟩ := s
  cases reads with
  | nil =>
    cases h
    exact .inr rfl
  | cons first reads =>
    cases first with
    | data bytes =>
      refine .inr ?_
      by_cases hl : room < bytes.length
      · simp only [read, hl, if_true, Prod.mk.injEq] at h
        obtain ⟨rfl, rfl⟩ := h
        simp [uninterrupted, ReadResult.isInterruption, read, hl]
      · simp only [read, hl, if_false, Prod.mk.injEq] at h
        obtain ⟨rfl, rfl⟩ := h
        simp [uninterrupted, ReadResult.isInterruption, read, hl]
    | fault f =>
      cases h
      by_cases hf : f.kind = .interrupted
      · exact .inl ⟨f, rfl, hf, by simp [uninterrupted, ReadResult.isInterruption, hf]⟩
      · exact .inr (by simp [uninterrupted, ReadResult.isInterruption, hf, read])

/-! ## Sending and receiving -/

theorem sendLoop_transfers (reads : List ReadResult) (drains : Bool) {data : Bytes}
    (script : List WriteResult) {k : Nat} {rest : Bytes} (hrest : data.drop k = rest)
    (htotal : data.length = k + rest.length) :
    k ≤ (sendLoop drains script k rest).2.1 ∧
      Transfers .send data.length (writing data) k ⟨reads, script, drains⟩
        (sendLoop drains script k rest).1 (rest.take ((sendLoop drains script k rest).2.1 - k))
        ⟨reads, (sendLoop drains script k rest).2.2, drains⟩ := by
  have hlt {n : Nat} {b : UInt8} {more : Bytes} (h : data.length = n + (b :: more).length) :
      n < data.length := by
    rw [h, List.length_cons]
    omega
  fun_induction sendLoop drains script k rest with
  | case1 script k =>
    -- nothing is left
    rw [List.take_nil]
    exact ⟨Nat.le_refl _, .whole htotal.symm⟩
  | case2 k b rest hd =>
    -- past the script all is taken
    have hcall : writing data k ⟨reads, [], drains⟩ = (.ok (b :: rest), ⟨reads, [], drains⟩) := by
      simp only [writing, write, hrest, if_pos hd]
    dsimp only
    rw [Nat.add_sub_cancel_left, List.take_length, ← List.append_nil (b :: rest)]
    refine ⟨Nat.le_add_right _ _, ?_⟩
    exact .moved (hlt htotal) hcall (List.cons_ne_nil b rest) (.whole htotal.symm)
  | case3 k b rest hd =>
    have hcall : writing data k ⟨reads, [], drains⟩ = (.ok [], ⟨reads, [], drains⟩) := by
      simp only [writing, write, if_neg hd]
    dsimp only
    rw [Nat.sub_self, List.take_zero]
    exact ⟨Nat.le_refl _, .stopped (hlt htotal) hcall .closed⟩
  | case4 script k b rest =>
    have hcall : writing data k ⟨reads, .accepts 0 :: script, drains⟩ =
        (.ok [], ⟨reads, script, drains⟩) := rfl
    dsimp only
    rw [Nat.sub_self, List.take_zero]
    exact ⟨Nat.le_refl _, .stopped (hlt htotal) hcall .closed⟩
  | case5 n script k b rest hn taken ih =>
    have hle : taken ≤ (b :: rest).length := Nat.min_le_right ..
    have hlen : ((b :: rest).take taken).length = taken := List.length_take_of_le hle
    have hne : (b :: rest).take taken ≠ [] := by
      rw [← List.length_pos_iff, hlen]
      exact Nat.lt_min.2 ⟨Nat.pos_of_ne_zero hn, Nat.succ_pos _⟩
    have hcall : writing data k ⟨reads, .accepts n :: script, drains⟩ =
        (.ok ((b :: rest).take taken), ⟨reads, script, drains⟩) := by
      simp only [writing, write, hrest]
      rw [List.take_eq_take_min]
    obtain ⟨hsent, hrun⟩ := ih (by rw [← List.drop_drop, hrest])
      (by rw [htotal, List.length_drop]; omega)
    generalize sendLoop drains script (k + taken) ((b :: rest).drop taken) = sent at hsent hrun
    have hsplit : sent.2.1 - k = taken + (sent.2.1 - (k + taken)) := by omega
    rw [hsplit, List.take_add]
    refine ⟨Nat.le_trans (Nat.le_add_right _ _) hsent, .moved (hlt htotal) hcall hne ?_⟩
    rwa [hlen]
  | case6 f script k b rest hf ih =>
    have hcall : writing data k ⟨reads, .fault f :: script, drains⟩ =
        (.error f, ⟨reads, script, drains⟩) := rfl
    obtain ⟨hle, hrun⟩ := ih hrest htotal
    exact ⟨hle, .interrupted (hlt htotal) hcall hf hrun⟩
  | case7 f script k b rest hf =>
    have hcall : writing data k ⟨reads, .fault f :: script, drains⟩ =
        (.error f, ⟨reads, script, drains⟩) := rfl
    dsimp only
    rw [Nat.sub_self, List.take_zero]
    exact ⟨Nat.le_refl _, .stopped (hlt htotal) hcall (.ofFault hf)⟩

theorem receiveLoop_transfers (writes : List WriteResult) (drains : Bool)
    (script : List ReadResult) {total k room : Nat} (htotal : total = k + room) :
    Transfers .recv total (reading total) k ⟨script, writes, drains⟩
      (receiveLoop script k room).1 (receiveLoop script k room).2.1
      ⟨(receiveLoop script k room).2.2, writes, drains⟩ := by
  fun_induction receiveLoop script k room with
  | case1 script k => exact .whole htotal.symm
  | case2 k room => exact .stopped (by omega) rfl .closed
  | case3 script k room => exact .stopped (by omega) rfl .closed
  | case4 bytes script k room hb hl =>
    -- what does not fit is left for the next read
    have hlen : (bytes.take (room + 1)).length = room + 1 := List.length_take_of_le (by omega)
    have hne : bytes.take (room + 1) ≠ [] := List.ne_nil_of_length_eq_add_one hlen
    have hcall : reading total k ⟨.data bytes :: script, writes, drains⟩ =
        (.ok (bytes.take (room + 1)), ⟨.data (bytes.drop (room + 1)) :: script, writes, drains⟩) := by
      rw [reading, htotal, Nat.add_sub_cancel_left]
      simp only [read, if_pos hl]
    rw [← List.append_nil (bytes.take (room + 1))]
    exact .moved (by omega) hcall hne (.whole (by rw [hlen, htotal]))
  | case5 bytes script k room hb hl result more left hr ih =>
    have hcall : reading total k ⟨.data bytes :: script, writes, drains⟩ =
        (.ok bytes, ⟨script, writes, drains⟩) := by
      rw [reading, htotal, Nat.add_sub_cancel_left]
      simp only [read, if_neg hl]
    rw [hr] at ih
    exact .moved (by omega) hcall hb (ih (by omega))
  | case6 f script k room hf ih => exact .interrupted (by omega) rfl hf (ih htotal)
  | case7 f script k room hf => exact .stopped (by omega) rfl (.ofFault hf)

/-- **Sending is writing** what is left until nothing is. -/
theorem send_transfers (s : Stream) (data : Bytes) :
    Transfers .send data.length (writing data) 0 s (s.send data).1 (s.send data).2.1
      (s.send data).2.2 :=
  (sendLoop_transfers s.reads s.drains s.writes rfl (Nat.zero_add _).symm).2

/-- **Receiving is reading** into the room that is left until there is none. -/
theorem receive_transfers (s : Stream) (room : Nat) :
    Transfers .recv room (reading room) 0 s (s.receive room).1 (s.receive room).2.1
      (s.receive room).2.2 :=
  receiveLoop_transfers s.writes s.drains s.reads (Nat.zero_add _).symm

theorem send_iff {s s' : Stream} {data taken : Bytes} {result : Except NetFailure Unit} :
    s.send data = (result, taken, s') ↔
      Transfers .send data.length (writing data) 0 s result taken s' := by
  have hsend := send_transfers s data
  constructor
  · intro h
    rwa [h] at hsend
  · intro h
    obtain ⟨rfl, rfl, rfl⟩ := hsend.det h
    rfl

theorem receive_iff {s s' : Stream} {room : Nat} {bytes : Bytes}
    {result : Except NetFailure Unit} :
    s.receive room = (result, bytes, s') ↔
      Transfers .recv room (reading room) 0 s result bytes s' := by
  have hreceive := receive_transfers s room
  constructor
  · intro h
    rwa [h] at hreceive
  · intro h
    obtain ⟨rfl, rfl, rfl⟩ := hreceive.det h
    rfl

section Sending

variable {s s' : Stream} {data taken : Bytes} {result : Except NetFailure Unit}

theorem isPrefix_of_send (h : s.send data = (result, taken, s')) : taken <+: data :=
  (send_iff.1 h).isPrefix fun _ _ _ _ => write_isPrefix

theorem send_eq_ok_iff (h : s.send data = (result, taken, s')) :
    result = .ok () ↔ taken = data := by
  rw [(send_iff.1 h).ok_iff, Nat.zero_add]
  exact ⟨(isPrefix_of_send h).eq_of_length, congrArg List.length⟩

theorem quiet_send (h : s.send data = (result, taken, s')) :
    s.uninterrupted.send data = (result, taken, s'.uninterrupted) :=
  send_iff.2 ((send_iff.1 h).quiet fun _ _ _ _ => quiet_write)

/-- What comes of sending `data`. -/
structure Sends (s : Stream) (data : Bytes) (result : Except NetFailure Unit) (taken : Bytes)
    (s' : Stream) : Prop where
  run : Transfers .send data.length (writing data) 0 s result taken s'
  complete : result = .ok () ↔ taken = data
  front : taken <+: data
  failed : ∀ e, result = .error e →
    ∃ s₀ r, writing data taken.length s₀ = (r, s') ∧ Stops .send taken.length r e
  quiet : s.uninterrupted.send data = (result, taken, s'.uninterrupted)

theorem sends_send (h : s.send data = (result, taken, s')) : s.Sends data result taken s' where
  run := send_iff.1 h
  complete := send_eq_ok_iff h
  front := isPrefix_of_send h
  failed := by
    rintro e rfl
    have hstops := (send_iff.1 h).stops_of_error.2
    rwa [Nat.zero_add] at hstops
  quiet := quiet_send h

end Sending

section Receiving

variable {s s' : Stream} {room : Nat} {bytes : Bytes} {result : Except NetFailure Unit}

theorem pending_of_receive (h : s.receive room = (result, bytes, s')) :
    s.pending = bytes ++ s'.pending :=
  (receive_iff.1 h).conserves fun _ _ _ _ => pending_of_read

theorem length_le_of_receive (h : s.receive room = (result, bytes, s')) : bytes.length ≤ room := by
  have hle := (receive_iff.1 h).length_le
  rwa [Nat.zero_add] at hle

theorem receive_eq_ok_iff (h : s.receive room = (result, bytes, s')) :
    result = .ok () ↔ bytes.length = room := by
  rw [(receive_iff.1 h).ok_iff, Nat.zero_add]

theorem quiet_receive (h : s.receive room = (result, bytes, s')) :
    s.uninterrupted.receive room = (result, bytes, s'.uninterrupted) :=
  receive_iff.2 ((receive_iff.1 h).quiet fun _ _ _ _ => quiet_read)

end Receiving

end Stream

end AjpGateway
