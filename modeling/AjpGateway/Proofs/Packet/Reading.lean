import AjpGateway.Proofs.Packet.Headers

/-!
# Steps that only read

Packets are decoded in steps that only read, and this is all that the steps have in common: they
look at bytes, take bytes or take a text, and may go by how much is left.  What each such step does
holds of every sequence of them.  The read position goes on and stays within the packet, and
nothing is written; and two buffers that hold the same packet, read up to the same place, are read
alike, errors included, whatever the storage holds beside it.

    Reading sized act stops → m.Ahead (act.run m).2 ∧ ∀ v ∈ stops m, m.Ahead v      (Reading.ahead)
    Reading sized act stops → m.Alike n → (act.run m).1 = (act.run n).1 ∧ …         (Reading.alike)
    Perusal sized (decodeHeaders table readValue n)                   (perusal_decodeHeaders)
-/

namespace AjpGateway.Packet

open Buffer

namespace Buffer

/-- Two buffers with the same packet, read up to the same place. -/
structure Alike (m n : Buffer) : Prop where
  left : m.WellFormed
  right : n.WellFormed
  pos : m.pos = n.pos
  len : m.len = n.len
  unread : m.unread = n.unread

section
variable {m n : Buffer} {k : Nat}

theorem Alike.advance (h : m.Alike n) (hk : ¬ m.len < m.pos + k) :
    (m.advance k).Alike (n.advance k) := by
  have hroom : k ≤ m.unread.length := by
    rw [h.left.length_unread]
    omega
  refine ⟨h.left.advance hroom, h.right.advance (h.unread ▸ hroom), ?_, h.len, ?_⟩
  · exact congrArg (· + k) h.pos
  · rw [unread_advance, unread_advance, h.unread]

theorem Alike.exhausted (h : m.Alike n) (k : Nat) : m.exhausted k = n.exhausted k := by
  rw [Buffer.exhausted, Buffer.exhausted, h.pos, h.len]

theorem Alike.remaining (h : m.Alike n) : m.remaining = n.remaining := by
  rw [Buffer.remaining, Buffer.remaining, h.len, h.pos]

theorem Alike.lt_iff (h : m.Alike n) (k : Nat) : m.len < m.pos + k ↔ n.len < n.pos + k := by
  rw [h.len, h.pos]

/-- `v` is `m` after more of its packet was read. -/
structure Ahead (m v : Buffer) : Prop where
  storage : v.storage = m.storage
  len : v.len = m.len
  pos_le : m.pos ≤ v.pos
  within : m.pos ≤ m.len → v.pos ≤ v.len

theorem Ahead.refl (m : Buffer) : m.Ahead m := ⟨rfl, rfl, Nat.le_refl _, id⟩

theorem Ahead.trans {u v : Buffer} (huv : m.Ahead u) (hvw : u.Ahead v) : m.Ahead v where
  storage := hvw.storage.trans huv.storage
  len := hvw.len.trans huv.len
  pos_le := Nat.le_trans huv.pos_le hvw.pos_le
  within h := hvw.within (huv.within h)

theorem Ahead.remaining_le {v : Buffer} (h : m.Ahead v) : v.remaining ≤ m.remaining := by
  show v.len - v.pos ≤ m.len - m.pos
  rw [h.len]
  exact Nat.sub_le_sub_left h.pos_le _

theorem ahead_advance (h : ¬ m.len < m.pos + k) : m.Ahead (m.advance k) :=
  ⟨rfl, rfl, Nat.le_add_right .., fun _ => Nat.le_of_not_lt h⟩

/-- A buffer with a payload and nothing beside it. -/
def holding (payload : Bytes) : Buffer where
  storage := (List.replicate headerSize 0 ++ payload).toArray
  len := headerSize + payload.length
  pos := headerSize

theorem wellFormed_holding (payload : Bytes) : (holding payload).WellFormed where
  header_le_pos := Nat.le_refl _
  pos_le_len := Nat.le_add_right ..
  len_le_capacity := by
    have hsize : (holding payload).capacity = headerSize + payload.length := by
      rw [holding, capacity, List.size_toArray, List.length_append, List.length_replicate]
    exact Nat.le_of_eq hsize.symm

theorem unread_holding (payload : Bytes) : (holding payload).unread = payload := by
  have hd : (List.replicate headerSize (0 : UInt8) ++ payload).drop headerSize = payload :=
    List.drop_left' List.length_replicate
  rw [unread_eq, holding, hd, Nat.add_sub_cancel_left, List.take_length]

/-! ## Running out -/

theorem run_peek_of_lt (h : m.len < m.pos + k) : (peek k).run m = (.error (m.exhausted k), m) := by
  unfold peek
  rw [run_bind_of_ok (run_get m), if_pos h, run_throw]

theorem run_peek_of_le (h : ¬ m.len < m.pos + k) : (peek k).run m = (.ok (m.unread.take k), m) := by
  unfold peek
  rw [run_bind_of_ok (run_get m), if_neg h, run_pure, slice_pos h]

theorem run_take_of_lt (h : m.len < m.pos + k) : (take k).run m = (.error (m.exhausted k), m) := by
  unfold take
  rw [run_bind_of_error (run_peek_of_lt h)]

theorem run_take_of_le (h : ¬ m.len < m.pos + k) :
    (take k).run m = (.ok (m.unread.take k), m.advance k) := by
  unfold take
  rw [run_bind_of_ok (run_peek_of_le h)]
  rfl

theorem run_readWord_of_lt (h : m.len < m.pos + 2) :
    readWord.run m = (.error (m.exhausted 2), m) := by
  unfold readWord
  rw [run_bind_of_error (run_take_of_lt h)]

theorem run_readWord_of_le (h : ¬ m.len < m.pos + 2) :
    readWord.run m = (.ok (wordOf (m.unread.take 2)), m.advance 2) := by
  unfold readWord
  rw [run_bind_of_ok (run_take_of_le h), run_pure]

theorem run_readText?_of_lt (h : m.len < m.pos + 2) :
    readText?.run m = (.error (m.exhausted 2), m) := by
  unfold readText?
  rw [run_bind_of_ok (run_get m), run_bind_of_error (run_readWord_of_lt h)]

/-- What `readText?` does once it has the length of the text. -/
theorem run_readText?_of_le (h : ¬ m.len < m.pos + 2) :
    readText?.run m =
      if wordOf (m.unread.take 2) = absentLength then (.ok none, m.advance 2)
      else
        let n := (wordOf (m.unread.take 2)).toNat
        if m.len < m.pos + (n + 3) then (.error ((m.advance 2).exhausted (n + 1)), m)
        else (.ok (some (Text.readText ((m.unread.drop 2).take n))), m.advance (n + 3)) := by
  unfold readText?
  rw [run_bind_of_ok (run_get m), run_bind_of_ok (run_readWord_of_le h)]
  by_cases ha : wordOf (m.unread.take 2) = absentLength
  · rw [if_pos ha, if_pos ha, run_pure]
  · rw [if_neg ha, if_neg ha]
    dsimp only
    generalize (wordOf (m.unread.take 2)).toNat = n
    have hend : m.pos + 2 + n + 1 = m.pos + (n + 3) := by omega
    rw [run_bind_of_ok (run_get _)]
    show (if m.len < m.pos + 2 + n + 1 then _ else _ : Marshal (Option String)).run _ = _
    rw [hend]
    by_cases hn : m.len < m.pos + (n + 3)
    · rw [if_pos hn, if_pos hn, run_bind_of_ok (run_set ..), run_throw]
      rfl
    · have hs : (m.advance 2).slice (m.pos + 2) n = (m.unread.drop 2).take n :=
        slice_pos_add m (by omega)
      rw [if_neg hn, if_neg hn, run_bind_of_ok (run_set ..), run_pure]
      show (Except.ok (some (Text.readText ((m.advance 2).slice (m.pos + 2) n))),
        { m with pos := m.pos + 2 + n + 1 }) = _
      rw [hs, hend]
      rfl

end

end Buffer

/-! ## Readings -/

section
variable {α β : Type}

/-- Where `act` stops at `first`, and what follows a result stops at `after`. -/
def stopsOf (act : Marshal α) (first : Buffer → List Buffer) (after : α → Buffer → List Buffer)
    (m : Buffer) : List Buffer :=
  first m ++ match act.run m with
    | (.ok a, v) => after a v
    | (.error _, _) => []

/-- Work that only reads the packet, step by step, and the buffers that its steps leave.  Whether it
may go by how much is left to read is up to `sized`. -/
inductive Reading (sized : Prop) : {α : Type} → Marshal α → (Buffer → List Buffer) → Prop
  | pure {α : Type} (a : α) : Reading sized (pure a) fun _ => []
  | throw {α : Type} (e : PacketError) : Reading sized (throw e : Marshal α) fun _ => []
  | peek (n : Nat) : Reading sized (peek n) fun _ => []
  | take (n : Nat) : Reading sized (take n) fun m => [((take n).run m).2]
  /-- stops behind the length and behind the end -/
  | text : Reading sized readText? fun m => [(readWord.run m).2, (readText?.run m).2]
  | remaining {α : Type} {f : Nat → Marshal α} {stops : Nat → Buffer → List Buffer} (hs : sized)
      (hf : ∀ k, Reading sized (f k) (stops k)) :
      Reading sized (do f (← get).remaining) fun m => stops m.remaining m
  | bind {α β : Type} {act : Marshal α} {f : α → Marshal β} {first : Buffer → List Buffer}
      {after : α → Buffer → List Buffer} (ha : Reading sized act first)
      (hf : ∀ a, Reading sized (f a) (after a)) :
      Reading sized (act >>= f) (stopsOf act first after)

/-- Work that only reads. -/
def Perusal (sized : Prop) (act : Marshal α) : Prop := ∃ stops, Reading sized act stops

end

section
variable {α β : Type} {sized : Prop}

theorem ahead_take (n : Nat) (m : Buffer) : m.Ahead ((take n).run m).2 := by
  by_cases hn : m.len < m.pos + n
  · rw [run_take_of_lt hn]
    exact .refl m
  · rw [run_take_of_le hn]
    exact ahead_advance hn

theorem ahead_readWord (m : Buffer) : m.Ahead (readWord.run m).2 := by
  by_cases h2 : m.len < m.pos + 2
  · rw [run_readWord_of_lt h2]
    exact .refl m
  · rw [run_readWord_of_le h2]
    exact ahead_advance h2

theorem ahead_readText? (m : Buffer) : m.Ahead (readText?.run m).2 := by
  by_cases h2 : m.len < m.pos + 2
  · rw [run_readText?_of_lt h2]
    exact .refl m
  · rw [run_readText?_of_le h2]
    dsimp only
    split
    · exact ahead_advance h2
    · split
      · exact .refl m
      · next hend => exact ahead_advance hend

/-- **A reading goes on within the packet** at each of its steps, and writes nothing. -/
theorem Reading.ahead {act : Marshal α} {stops : Buffer → List Buffer}
    (h : Reading sized act stops) (m : Buffer) :
    m.Ahead (act.run m).2 ∧ ∀ v ∈ stops m, m.Ahead v := by
  induction h generalizing m with
  | pure a => exact ⟨.refl m, fun _ hv => nomatch hv⟩
  | throw e => exact ⟨.refl m, fun _ hv => nomatch hv⟩
  | peek n =>
    refine ⟨?_, fun _ hv => nomatch hv⟩
    by_cases hn : m.len < m.pos + n
    · rw [run_peek_of_lt hn]
      exact .refl m
    · rw [run_peek_of_le hn]
      exact .refl m
  | take n =>
    refine ⟨ahead_take n m, fun v hv => ?_⟩
    rw [List.mem_singleton.1 hv]
    exact ahead_take n m
  | text =>
    refine ⟨ahead_readText? m, fun v hv => ?_⟩
    simp only [List.mem_cons, List.not_mem_nil, or_false] at hv
    obtain rfl | rfl := hv
    · exact ahead_readWord m
    · exact ahead_readText? m
  | remaining _ _ ih => exact ih m.remaining m
  | @bind _ _ act f first after _ _ iha ihf =>
    obtain ⟨hlast, hfirst⟩ := iha m
    unfold stopsOf
    rw [run_bind]
    rcases hr : act.run m with ⟨r, u⟩
    rw [hr] at hlast
    cases r with
    | error e => exact ⟨hlast, fun v hv => hfirst v (by simpa using hv)⟩
    | ok a =>
      obtain ⟨hend, hafter⟩ := ihf a u
      refine ⟨hlast.trans hend, fun v hv => ?_⟩
      rcases List.mem_append.1 hv with hv | hv
      · exact hfirst v hv
      · exact hlast.trans (hafter v hv)

/-- **A reading goes by the packet alone**, whatever the storage holds beside it. -/
theorem Reading.alike {act : Marshal α} {stops : Buffer → List Buffer}
    (h : Reading sized act stops) {m n : Buffer} (hmn : m.Alike n) :
    (act.run m).1 = (act.run n).1 ∧ (act.run m).2.Alike (act.run n).2 := by
  induction h generalizing m n with
  | pure a => exact ⟨rfl, hmn⟩
  | throw e => exact ⟨rfl, hmn⟩
  | peek k =>
    by_cases hk : m.len < m.pos + k
    · rw [run_peek_of_lt hk, run_peek_of_lt ((hmn.lt_iff k).1 hk), hmn.exhausted]
      exact ⟨rfl, hmn⟩
    · rw [run_peek_of_le hk, run_peek_of_le (fun hn => hk ((hmn.lt_iff k).2 hn)), hmn.unread]
      exact ⟨rfl, hmn⟩
  | take k =>
    by_cases hk : m.len < m.pos + k
    · rw [run_take_of_lt hk, run_take_of_lt ((hmn.lt_iff k).1 hk), hmn.exhausted]
      exact ⟨rfl, hmn⟩
    · rw [run_take_of_le hk, run_take_of_le (fun hn => hk ((hmn.lt_iff k).2 hn)), hmn.unread]
      exact ⟨rfl, hmn.advance hk⟩
  | text =>
    by_cases h2 : m.len < m.pos + 2
    · rw [run_readText?_of_lt h2, run_readText?_of_lt ((hmn.lt_iff 2).1 h2), hmn.exhausted]
      exact ⟨rfl, hmn⟩
    · rw [run_readText?_of_le h2, run_readText?_of_le (fun hn => h2 ((hmn.lt_iff 2).2 hn)),
        hmn.unread]
      dsimp only
      split
      · exact ⟨rfl, hmn.advance h2⟩
      · generalize (wordOf (n.unread.take 2)).toNat = j
        by_cases hj : m.len < m.pos + (j + 3)
        · rw [if_pos hj, if_pos ((hmn.lt_iff _).1 hj), (hmn.advance h2).exhausted]
          exact ⟨rfl, hmn⟩
        · rw [if_neg hj, if_neg (fun hn => hj ((hmn.lt_iff _).2 hn))]
          exact ⟨rfl, hmn.advance hj⟩
  | remaining _ _ ih =>
    rw [run_bind_of_ok (run_get m), run_bind_of_ok (run_get n), hmn.remaining]
    exact ih n.remaining hmn
  | @bind _ _ act f _ _ _ _ iha ihf =>
    obtain ⟨hresult, hleft⟩ := iha hmn
    rw [run_bind, run_bind]
    rcases hm : act.run m with ⟨r, m'⟩
    rcases hn : act.run n with ⟨r', n'⟩
    rw [hm, hn] at hresult hleft
    obtain rfl : r = r' := hresult
    cases r with
    | error e => exact ⟨rfl, hleft⟩
    | ok a => exact ihf a hleft

/-! ## Perusals -/

theorem Perusal.ahead {act : Marshal α} (h : Perusal sized act) (m : Buffer) :
    m.Ahead (act.run m).2 :=
  let ⟨_, hr⟩ := h
  (hr.ahead m).1

theorem Perusal.storage {act : Marshal α} (h : Perusal sized act) (m : Buffer) :
    (act.run m).2.storage = m.storage :=
  (h.ahead m).storage

theorem Perusal.alike {act : Marshal α} (h : Perusal sized act) {m n : Buffer} (hmn : m.Alike n) :
    (act.run m).1 = (act.run n).1 :=
  let ⟨_, hr⟩ := h
  (hr.alike hmn).1

theorem Perusal.pure (a : α) : Perusal sized (pure a : Marshal α) := ⟨_, .pure a⟩

theorem Perusal.throw (e : PacketError) : Perusal sized (throw e : Marshal α) := ⟨_, .throw e⟩

theorem Perusal.bind {act : Marshal α} {f : α → Marshal β} (ha : Perusal sized act)
    (hf : ∀ a, Perusal sized (f a)) : Perusal sized (act >>= f) := by
  obtain ⟨_, ha⟩ := ha
  obtain ⟨_, hf⟩ := Classical.axiomOfChoice hf
  exact ⟨_, .bind ha hf⟩

/-- How much is left to read is a matter of the packet. -/
theorem Perusal.remaining {f : Nat → Marshal α} (hs : sized) (hf : ∀ k, Perusal sized (f k)) :
    Perusal sized (do f (← get).remaining) := by
  obtain ⟨_, hf⟩ := Classical.axiomOfChoice hf
  exact ⟨_, .remaining hs hf⟩

theorem Perusal.take (n : Nat) : Perusal sized (take n) := ⟨_, .take n⟩

theorem Perusal.readByte : Perusal sized readByte :=
  (Perusal.take 1).bind fun _ => Perusal.pure _

theorem Perusal.readWord : Perusal sized readWord :=
  (Perusal.take 2).bind fun _ => Perusal.pure _

theorem Perusal.peekWord : Perusal sized peekWord :=
  Perusal.bind ⟨_, .peek 2⟩ fun _ => Perusal.pure _

theorem Perusal.readText? : Perusal sized readText? := ⟨_, .text⟩

theorem Perusal.readText (field : String) : Perusal sized (readText field) := by
  refine Perusal.readText?.bind fun s => ?_
  cases s with
  | none => exact Perusal.throw _
  | some s => exact Perusal.pure s

/-! ## Header lists -/

theorem perusal_decodeHeaderName (table : List String) :
    Perusal sized (decodeHeaderName table) := by
  unfold decodeHeaderName
  refine Perusal.peekWord.bind fun w => ?_
  by_cases hw : isCodedHeader w = true
  · simp only [if_pos hw]
    refine Perusal.readWord.bind fun code => ?_
    cases headerName? table code with
    | none => exact Perusal.throw _
    | some name => exact Perusal.pure name
  · simp only [if_neg hw]
    exact Perusal.readText _

theorem perusal_decodeHeaders (table : List String) {readValue : Marshal String}
    (hv : Perusal sized readValue) (n : Nat) :
    Perusal sized (decodeHeaders table readValue n) := by
  induction n with
  | zero => exact Perusal.pure []
  | succ n ih =>
    exact (perusal_decodeHeaderName table).bind fun _ => hv.bind fun _ =>
      ih.bind fun _ => Perusal.pure _

end

end AjpGateway.Packet
