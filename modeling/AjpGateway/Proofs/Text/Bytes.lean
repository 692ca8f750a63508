import AjpGateway.Text.Utf8

/-!
# Characters and bytes

A byte below `0x80` is never part of a longer sequence, so where one stands among the bytes of a
text, the text can be cut: the bytes before it are those of the characters before, and likewise
behind it.  Two texts with the same bytes are the same.

    b ∈ encoding c → b < 0x80 → encoding c = [b]                       (encoding_of_mem)
    utf8Of s = x ++ b :: y → b < 0x80 →
      ∃ a c t, s = a ++ c :: t ∧ utf8Of a = x ∧ encoding c = [b] ∧ utf8Of t = y  (exists_cut_of_ascii)
    utf8 s <+: utf8 t ↔ s.toList <+: t.toList                          (utf8_prefix_iff)
-/

namespace AjpGateway.Text

/-- The bytes of a character. -/
abbrev encoding (c : Char) : Bytes := String.utf8EncodeChar c

/-- The bytes of characters. -/
def utf8Of (s : List Char) : Bytes := s.flatMap encoding

theorem utf8_eq (s : String) : utf8 s = utf8Of s.toList := by
  have h : s.toByteArray = (utf8Of s.toList).toByteArray := by
    rw [← String.utf8Encode_toList, List.utf8Encode]
    rfl
  rw [utf8, String.toUTF8_eq_toByteArray, h, List.data_toByteArray]

@[simp] theorem utf8Of_append (a b : List Char) : utf8Of (a ++ b) = utf8Of a ++ utf8Of b :=
  List.flatMap_append

@[simp] theorem utf8Of_cons (c : Char) (s : List Char) :
    utf8Of (c :: s) = encoding c ++ utf8Of s :=
  List.flatMap_cons

theorem utf8Of_inj {a b : List Char} : utf8Of a = utf8Of b ↔ a = b := by
  refine ⟨fun h => ?_, fun h => h ▸ rfl⟩
  have hs : utf8 (String.ofList a) = utf8 (String.ofList b) := by
    rw [utf8_eq, utf8_eq, String.toList_ofList, String.toList_ofList, h]
  have hread := congrArg readText hs
  rw [readText_utf8, readText_utf8] at hread
  exact String.ofList_injective hread

theorem encoding_inj {c d : Char} : encoding c = encoding d ↔ c = d := by
  have h : utf8Of [c] = utf8Of [d] ↔ [c] = [d] := utf8Of_inj
  simpa [utf8Of] using h

/-! ## ASCII -/

/-- Every byte of a longer sequence has its highest bit set. -/
theorem encoding_of_mem {c : Char} {b : UInt8} (h : b ∈ encoding c) (hb : b < 0x80) :
    encoding c = [b] := by
  have hb : b.toNat < 0x80 := hb
  unfold encoding String.utf8EncodeChar at *
  dsimp only at *
  split at h
  · next hv =>
    rw [if_pos hv, List.mem_singleton.1 h]
  · exfalso
    -- the bytes of longer sequences are sums with `0x80` or more
    split at h
    · simp only [List.mem_cons, List.not_mem_nil, or_false] at h
      rcases h with rfl | rfl <;> rw [UInt8.toNat_ofNat'] at hb <;> omega
    · split at h
      · simp only [List.mem_cons, List.not_mem_nil, or_false] at h
        rcases h with rfl | rfl | rfl <;> rw [UInt8.toNat_ofNat'] at hb <;> omega
      · simp only [List.mem_cons, List.not_mem_nil, or_false] at h
        rcases h with rfl | rfl | rfl | rfl <;> rw [UInt8.toNat_ofNat'] at hb <;> omega

/-- A text is cut at each ASCII byte. -/
theorem exists_cut_of_ascii {s : List Char} {x y : Bytes} {b : UInt8} (h : utf8Of s = x ++ b :: y)
    (hb : b < 0x80) :
    ∃ a c t, s = a ++ c :: t ∧ utf8Of a = x ∧ encoding c = [b] ∧ utf8Of t = y := by
  induction s generalizing x with
  | nil => exact absurd h (by simp [utf8Of])
  | cons d s ih =>
    rw [utf8Of_cons] at h
    rcases List.append_eq_append_iff.1 h with ⟨x', rfl, hs⟩ | ⟨e, hd, hs⟩
    · -- the byte lies behind the first character
      obtain ⟨a, c, t, rfl, rfl, hc, ht⟩ := ih hs
      exact ⟨d :: a, c, t, rfl, utf8Of_cons d a, hc, ht⟩
    · cases e with
      | nil =>
        rw [List.append_nil] at hd
        rw [List.nil_append] at hs
        obtain ⟨a, c, t, rfl, ha, hc, ht⟩ := ih (x := []) hs.symm
        exact ⟨d :: a, c, t, rfl, by rw [utf8Of_cons, ha, List.append_nil, hd], hc, ht⟩
      | cons b' e =>
        obtain ⟨rfl, hy⟩ := List.cons.inj hs
        -- the byte is of the first character, and so is that character
        have hone : encoding d = [b] := encoding_of_mem (by rw [hd]; simp) hb
        rw [hone, List.singleton_eq_append_iff] at hd
        rcases hd with ⟨rfl, he⟩ | ⟨-, he⟩
        · obtain rfl := (List.cons.inj he).2
          exact ⟨[], d, s, rfl, rfl, hone, hy.symm⟩
        · cases he

/-! ## Starts -/

theorem utf8_prefix_iff {s t : String} : utf8 s <+: utf8 t ↔ s.toList <+: t.toList := by
  constructor
  · rintro ⟨rest, h⟩
    refine List.isPrefix_of_utf8Encode_append_eq_utf8Encode rest.toByteArray ?_
    rw [String.utf8Encode_toList, String.utf8Encode_toList]
    apply ByteArray.ext
    rw [ByteArray.data_append, List.data_toByteArray]
    apply Array.toList_inj.1
    rw [Array.toList_append]
    exact h
  · rintro ⟨rest, h⟩
    rw [utf8_eq, utf8_eq, ← h, utf8Of_append]
    exact List.prefix_append _ _

end AjpGateway.Text
