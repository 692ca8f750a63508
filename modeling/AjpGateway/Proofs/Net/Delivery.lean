import AjpGateway.Proofs.Net.Transfer

/-!
# What a stream delivers

The pieces in which bytes arrive, and the interruptions between them, do not show: as long as a
stream has enough to deliver, receiving takes the next bytes and leaves the others, and it takes
them only then.  A stream that ended has closed.  A willing stream takes all that is sent.

    room ≤ s.available.length →
      s.receive room = (.ok (), s.available.take room, s') ∧ s'.available = s.available.drop room
                                                                          (receive_of_le)
    s.receive room = (.ok (), bytes, s') →
      bytes.length = room ∧ s.available = bytes ++ s'.available           (available_of_receive)
    s.Delivers [] → 0 < room → (s.receive room).1 = .error (.closed .recv 0)
                                                                     (receive_of_delivers_nil)
    s.Willing → s.send data = (.ok (), data, s') ∧ s'.Willing             (Willing.send)
-/

namespace AjpGateway.Stream

/-- The bytes that a script delivers before its first failure or its end. -/
def delivered : List ReadResult → Bytes
  | [] => []
  | .data bytes :: script => if bytes = [] then [] else bytes ++ delivered script
  | .fault f :: script => if f.kind = .interrupted then delivered script else []

def available (s : Stream) : Bytes := delivered s.reads

theorem receiveLoop_of_le {script : List ReadResult} (got : Nat) {room : Nat}
    (h : room ≤ (delivered script).length) :
    ∃ left, receiveLoop script got room = (.ok (), (delivered script).take room, left) ∧
      delivered left = (delivered script).drop room := by
  induction script generalizing got room with
  | nil =>
    obtain rfl : room = 0 := Nat.le_zero.1 h
    exact ⟨[], by simp [receiveLoop], rfl⟩
  | cons result script ih =>
    cases room with
    | zero => exact ⟨result :: script, by simp [receiveLoop], rfl⟩
    | succ room =>
      cases result with
      | data bytes =>
        by_cases hb : bytes = []
        · rw [delivered, if_pos hb] at h
          cases h
        · rw [delivered, if_neg hb, List.length_append] at h
          rw [receiveLoop, if_neg hb, delivered, if_neg hb]
          by_cases hl : room + 1 < bytes.length
          · have hd : bytes.drop (room + 1) ≠ [] := by
              rw [Ne, List.drop_eq_nil_iff]
              omega
            refine ⟨.data (bytes.drop (room + 1)) :: script, ?_, ?_⟩
            · rw [if_pos hl, List.take_append_of_le_length (by omega)]
            · rw [delivered, if_neg hd, List.drop_append_of_le_length (by omega)]
          · have hmore : room + 1 - bytes.length ≤ (delivered script).length := by omega
            obtain ⟨left, hr, hd⟩ := ih (got + bytes.length) hmore
            have ht : bytes.take (room + 1) = bytes := List.take_of_length_le (by omega)
            have hn : bytes.drop (room + 1) = [] := List.drop_eq_nil_of_le (by omega)
            refine ⟨left, ?_, ?_⟩
            · rw [if_neg hl, hr, List.take_append, ht]
            · rw [hd, List.drop_append, hn, List.nil_append]
      | fault f =>
        by_cases hf : f.kind = .interrupted
        · rw [delivered, if_pos hf] at h
          obtain ⟨left, hr, hd⟩ := ih got h
          refine ⟨left, ?_, ?_⟩
          · rw [receiveLoop, if_pos hf, delivered, if_pos hf, hr]
          · rw [delivered, if_pos hf, hd]
        · rw [delivered, if_neg hf] at h
          cases h

theorem receive_of_le {s : Stream} {room : Nat} (h : room ≤ s.available.length) :
    ∃ s', s.receive room = (.ok (), s.available.take room, s') ∧
      s'.available = s.available.drop room := by
  obtain ⟨left, hr, hd⟩ := receiveLoop_of_le 0 h
  refine ⟨{ s with reads := left }, ?_, hd⟩
  rw [receive, hr]
  rfl

/-- What was received whole was there, and the rest is left. -/
theorem delivered_of_receiveLoop {script left : List ReadResult} {got room : Nat} {bytes : Bytes}
    (h : receiveLoop script got room = (.ok (), bytes, left)) :
    bytes.length = room ∧ delivered script = bytes ++ delivered left := by
  induction script generalizing got room bytes with
  | nil =>
    cases room with
    | zero =>
      cases h
      exact ⟨rfl, rfl⟩
    | succ room => cases h
  | cons result script ih =>
    cases room with
    | zero =>
      rw [receiveLoop] at h
      cases h
      exact ⟨rfl, rfl⟩
    | succ room =>
      cases result with
      | data piece =>
        rw [receiveLoop] at h
        by_cases hp : piece = []
        · rw [if_pos hp] at h
          cases h
        rw [if_neg hp] at h
        rw [delivered, if_neg hp]
        by_cases hl : room + 1 < piece.length
        · rw [if_pos hl] at h
          cases h
          have hd : piece.drop (room + 1) ≠ [] := by
            rw [Ne, List.drop_eq_nil_iff]
            omega
          refine ⟨List.length_take_of_le (Nat.le_of_lt hl), ?_⟩
          rw [delivered, if_neg hd, ← List.append_assoc, List.take_append_drop]
        · rw [if_neg hl] at h
          rcases hr : receiveLoop script (got + piece.length) (room + 1 - piece.length) with
            ⟨result, more, left'⟩
          rw [hr] at h
          cases h
          obtain ⟨hlen, hdel⟩ := ih hr
          refine ⟨?_, by rw [hdel, List.append_assoc]⟩
          rw [List.length_append, hlen]
          omega
      | fault f =>
        rw [receiveLoop] at h
        by_cases hf : f.kind = .interrupted
        · rw [if_pos hf] at h
          rw [delivered, if_pos hf]
          exact ih h
        · rw [if_neg hf] at h
          cases h

theorem available_of_receive {s s' : Stream} {room : Nat} {bytes : Bytes}
    (h : s.receive room = (.ok (), bytes, s')) :
    bytes.length = room ∧ s.available = bytes ++ s'.available := by
  unfold receive at h
  rcases hr : receiveLoop s.reads 0 room with ⟨result, got, left⟩
  rw [hr] at h
  cases h
  exact delivered_of_receiveLoop hr

/-- What is delivered before the first failure is part of what there is. -/
theorem delivered_isPrefix (script : List ReadResult) :
    delivered script <+: script.flatMap ReadResult.bytes := by
  induction script with
  | nil => exact List.prefix_rfl
  | cons result script ih =>
    rw [List.flatMap_cons]
    cases result with
    | data bytes =>
      rw [delivered]
      split
      · exact List.nil_prefix
      · exact (List.prefix_append_right_inj bytes).2 ih
    | fault f =>
      rw [delivered]
      split
      · exact ih
      · exact List.nil_prefix

theorem available_isPrefix (s : Stream) : s.available <+: s.pending := delivered_isPrefix s.reads

/-! ## Streams that end -/

/-- A read that gives something, or is to be tried again. -/
def Arrives : ReadResult → Prop
  | .data bytes => bytes ≠ []
  | .fault f => f.kind = .interrupted

/-- A stream that delivers the bytes, in whatever pieces, and then ends. -/
structure Delivers (s : Stream) (bytes : Bytes) : Prop where
  arrives : ∀ r ∈ s.reads, Arrives r
  available : s.available = bytes

theorem arrives_of_receiveLoop {script : List ReadResult} (h : ∀ r ∈ script, Arrives r)
    (got room : Nat) : ∀ r ∈ (receiveLoop script got room).2.2, Arrives r := by
  induction script generalizing got room with
  | nil => cases room <;> exact h
  | cons result script ih =>
    obtain ⟨hresult, hscript⟩ := List.forall_mem_cons.1 h
    cases room with
    | zero => exact h
    | succ room =>
      cases result with
      | data bytes =>
        have hb : bytes ≠ [] := hresult
        rw [receiveLoop, if_neg hb]
        by_cases hl : room + 1 < bytes.length
        · -- what does not fit is left, and it is something
          have hd : bytes.drop (room + 1) ≠ [] := by
            rw [Ne, List.drop_eq_nil_iff]
            omega
          rw [if_pos hl]
          exact List.forall_mem_cons.2 ⟨hd, hscript⟩
        · rw [if_neg hl]
          exact ih hscript _ _
      | fault f =>
        have hf : f.kind = .interrupted := hresult
        rw [receiveLoop, if_pos hf]
        exact ih hscript got (room + 1)

/-- A stream that ends before the room is filled has closed, after all that it delivers. -/
theorem receiveLoop_of_lt {script : List ReadResult} (h : ∀ r ∈ script, Arrives r) (got : Nat)
    {room : Nat} (hroom : (delivered script).length < room) :
    receiveLoop script got room =
      (.error (.closed .recv (got + (delivered script).length)), delivered script, []) := by
  obtain ⟨room, rfl⟩ := Nat.exists_eq_add_one_of_ne_zero (Nat.ne_zero_of_lt hroom)
  induction script generalizing got room with
  | nil => rfl
  | cons result script ih =>
    obtain ⟨hresult, hscript⟩ := List.forall_mem_cons.1 h
    cases result with
    | data bytes =>
      have hb : bytes ≠ [] := hresult
      rw [delivered, if_neg hb, List.length_append] at hroom ⊢
      have hmore : room + 1 - bytes.length = room - bytes.length + 1 := by omega
      rw [receiveLoop, if_neg hb, if_neg (by omega), hmore,
        ih hscript _ _ (by omega), Nat.add_assoc]
    | fault f =>
      have hf : f.kind = .interrupted := hresult
      rw [delivered, if_pos hf] at hroom ⊢
      rw [receiveLoop, if_pos hf, ih hscript got room hroom]

theorem receive_of_delivers_nil {s : Stream} (hs : s.Delivers []) {room : Nat} (hroom : 0 < room) :
    s.receive room = (.error (.closed .recv 0), [], { s with reads := [] }) := by
  have hd : delivered s.reads = [] := hs.available
  rw [receive, receiveLoop_of_lt hs.arrives 0 (by rwa [hd]), hd]
  rfl

/-! ## Sending -/

/-- A write that takes something, or is to be tried again. -/
def Moves : WriteResult → Prop
  | .accepts n => 0 < n
  | .fault f => f.kind = .interrupted

/-- A stream on which no write fails. -/
structure Willing (s : Stream) : Prop where
  drains : s.drains = true
  moves : ∀ w ∈ s.writes, Moves w

theorem sendLoop_of_moves {script : List WriteResult} (hm : ∀ w ∈ script, Moves w) (sent : Nat)
    (rest : Bytes) :
    ∃ left, sendLoop true script sent rest = (.ok (), sent + rest.length, left) ∧
      ∀ w ∈ left, Moves w := by
  induction script generalizing sent rest with
  | nil =>
    cases rest with
    | nil => exact ⟨[], by simp [sendLoop], hm⟩
    | cons b rest => exact ⟨[], by simp [sendLoop], hm⟩
  | cons w script ih =>
    obtain ⟨hw, hscript⟩ := List.forall_mem_cons.1 hm
    cases rest with
    | nil => exact ⟨w :: script, by simp [sendLoop], hm⟩
    | cons b rest =>
      cases w with
      | accepts n =>
        have hn : ¬ n = 0 := Nat.pos_iff_ne_zero.1 hw
        obtain ⟨left, hr, hl⟩ := ih hscript (sent + min n (b :: rest).length)
          ((b :: rest).drop (min n (b :: rest).length))
        refine ⟨left, ?_, hl⟩
        rw [sendLoop, if_neg hn]
        dsimp only
        rw [hr, List.length_drop]
        congr 2
        omega
      | fault f =>
        have hf : f.kind = .interrupted := hw
        obtain ⟨left, hr, hl⟩ := ih hscript sent (b :: rest)
        exact ⟨left, by rw [sendLoop, if_pos hf, hr], hl⟩

theorem Willing.send {s : Stream} (hs : s.Willing) (data : Bytes) :
    ∃ s', s.send data = (.ok (), data, s') ∧ s'.Willing ∧ s'.reads = s.reads := by
  obtain ⟨left, hr, hl⟩ := sendLoop_of_moves hs.moves 0 data
  rw [← hs.drains, Nat.zero_add] at hr
  refine ⟨{ s with writes := left }, ?_, ⟨hs.drains, hl⟩, rfl⟩
  unfold Stream.send
  rw [hr]
  dsimp only
  rw [List.take_length]

theorem taken_of_send {s s' : Stream} {data taken : Bytes}
    (h : s.send data = (.ok (), taken, s')) : taken = data ∧ s'.reads = s.reads :=
  ⟨(send_eq_ok_iff h).1 rfl, (congrArg (fun p => p.2.2.reads) h).symm⟩

end AjpGateway.Stream
