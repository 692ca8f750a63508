import AjpGateway.Proofs.Packet.Capacity
import Mathlib.Algebra.GroupWithZero.Nat

/-!
# Which requests can be written

The size of a packet is a sum over the fields of its request.  A request is written exactly if its
method has a code, its headers can be counted, its texts can be measured and its packet has room;
then the packet has that size and announces what follows the header.  Otherwise the buffer stays
well formed, and the error says which it was.

    headerSize + (r.payload code).length = r.encodedSize                    (size_payload)
    (r.encode.run m).1 = .ok () ↔ r.Fits m.capacity                         (encode_iff_fits)
-/

namespace AjpGateway.Packet

open Buffer

/-! ## Sizes -/

/-- A text is written behind its length and before a NUL. -/
def textSize (s : String) : Nat := 3 + s.utf8ByteSize

/-- The length of an absent text is all that is written of it. -/
def optionalSize : Option String → Nat
  | none => 2
  | some s => textSize s

/-- A code in place of a name takes a word. -/
def headerNameSize (name : String) : Nat :=
  if (headerCode? requestHeaders name).isSome then 2 else textSize name

def headerFieldSize (h : String × String) : Nat := headerNameSize h.1 + textSize h.2

def Attribute.size : Attribute → Nat
  | named _ value => 1 + textSize value
  | sslKeySize _ => 1 + 2
  | custom name value => 1 + textSize name + textSize value

/-- The texts among a header: its name, unless there is a code for it, and its value. -/
def headerTexts (h : String × String) : List String :=
  if (headerCode? requestHeaders h.1).isSome then [h.2] else [h.1, h.2]

def Attribute.texts : Attribute → List String
  | named _ value => [value]
  | sslKeySize _ => []
  | custom name value => [name, value]

namespace ForwardRequest

/-- The size of the packet: message type, method and leading texts; port, scheme and the number of
headers; headers and attributes, and the end of these. -/
def encodedSize (r : ForwardRequest) : Nat :=
  headerSize + (1 + 1 + textSize r.protocol + textSize r.uri + textSize r.remoteAddr +
    optionalSize r.remoteHost + textSize r.serverName + 2 + 1 + 2 +
    (r.headers.map headerFieldSize).sum + (r.attributes.map Attribute.size).sum + 1)

/-- Every text that is written. -/
def texts (r : ForwardRequest) : List String :=
  [r.protocol, r.uri, r.remoteAddr] ++ r.remoteHost.toList ++ [r.serverName] ++
    r.headers.flatMap headerTexts ++ r.attributes.flatMap Attribute.texts

/-- The longest text that is not taken for an absent one. -/
def longestText : Nat := 65534

/-- The request can be written into a buffer of this capacity. -/
structure Fits (r : ForwardRequest) (capacity : Nat) : Prop where
  method : (methodCode? r.method).isSome
  headers : r.headers.length ≤ 65535
  texts : ∀ s ∈ r.texts, s.utf8ByteSize ≤ longestText
  size : r.encodedSize ≤ capacity

instance (r : ForwardRequest) (capacity : Nat) : Decidable (r.Fits capacity) :=
  decidable_of_iff ((methodCode? r.method).isSome ∧ r.headers.length ≤ 65535 ∧
      (∀ s ∈ r.texts, s.utf8ByteSize ≤ longestText) ∧ r.encodedSize ≤ capacity)
    ⟨fun ⟨hm, hh, ht, hs⟩ => ⟨hm, hh, ht, hs⟩, fun h => ⟨h.method, h.headers, h.texts, h.size⟩⟩

end ForwardRequest

/-! ## The size of a payload -/

namespace Wire

theorem length_text_eq (s : String) : (text s).length = textSize s := by
  rw [length_text, textSize, Nat.add_comm]

theorem length_text? (s : Option String) : (text? s).length = optionalSize s := by
  cases s with
  | none => rfl
  | some s => exact length_text_eq s

theorem length_headerName (name : String) :
    (headerName requestHeaders name).length = headerNameSize name := by
  unfold headerName headerNameSize
  cases headerCode? requestHeaders name with
  | some code => rfl
  | none => exact length_text_eq name

theorem length_headers_eq (headers : List (String × String)) :
    (Wire.headers requestHeaders headers).length = (headers.map headerFieldSize).sum := by
  induction headers with
  | nil => rfl
  | cons h rest ih =>
    rw [Wire.headers, List.length_append, List.length_append, ih, length_headerName,
      length_text_eq, List.map_cons, List.sum_cons, headerFieldSize, Nat.add_assoc]

theorem length_attribute (a : Attribute) : ([a.code] ++ attributeValue a).length = a.size := by
  rw [List.length_append]
  cases a with
  | named name value => exact congrArg (1 + ·) (length_text_eq value)
  | sslKeySize bits => rfl
  | custom name value =>
    rw [attributeValue, List.length_append, length_text_eq, length_text_eq, ← Nat.add_assoc]
    rfl

theorem length_attributes_eq (as : List Attribute) :
    (attributes as).length = (as.map Attribute.size).sum := by
  induction as with
  | nil => rfl
  | cons a rest ih =>
    rw [attributes, ← List.append_assoc, List.length_append, ih, length_attribute, List.map_cons,
      List.sum_cons]

end Wire

namespace ForwardRequest

theorem size_payload (r : ForwardRequest) (code : UInt8) :
    headerSize + (r.payload code).length = r.encodedSize := by
  unfold payload leading encodedSize
  simp only [List.length_append, Wire.length_text_eq, Wire.length_text?, Wire.length_headers_eq,
    Wire.length_attributes_eq, length_wordBytes, List.length_singleton]
  omega

/-! ## Texts in a packet -/

theorem textSize_le_headerFieldSize {s : String} {h : String × String} (hs : s ∈ headerTexts h) :
    textSize s ≤ headerFieldSize h := by
  unfold headerTexts at hs
  unfold headerFieldSize headerNameSize
  split at hs
  · rw [List.mem_singleton.1 hs]
    exact Nat.le_add_left ..
  · next hplain =>
    rw [if_neg hplain]
    simp only [List.mem_cons, List.not_mem_nil, or_false] at hs
    obtain rfl | rfl := hs
    · exact Nat.le_add_right ..
    · exact Nat.le_add_left ..

theorem textSize_le_attributeSize {s : String} {a : Attribute} (hs : s ∈ a.texts) :
    textSize s ≤ a.size := by
  cases a with
  | named name value =>
    rw [List.mem_singleton.1 hs]
    exact Nat.le_add_left ..
  | sslKeySize bits => cases hs
  | custom name value =>
    simp only [Attribute.texts, List.mem_cons, List.not_mem_nil, or_false] at hs
    have hsize : (Attribute.custom name value).size = 1 + textSize name + textSize value := rfl
    obtain rfl | rfl := hs <;> omega

/-- What is written of a part of a list is written of the list. -/
theorem textSize_le_sum {α : Type} {size : α → Nat} {texts : α → List String}
    (hsize : ∀ {s x}, s ∈ texts x → textSize s ≤ size x) {s : String} {xs : List α}
    (hs : s ∈ xs.flatMap texts) : textSize s ≤ (xs.map size).sum := by
  induction xs with
  | nil => cases hs
  | cons x rest ih =>
    rw [List.map_cons, List.sum_cons]
    rcases List.mem_append.1 hs with hx | hrest
    · exact Nat.le_trans (hsize hx) (Nat.le_add_right ..)
    · exact Nat.le_trans (ih hrest) (Nat.le_add_left ..)

/-- A packet is larger than each text in it, by its header at least. -/
theorem textSize_le_encodedSize {r : ForwardRequest} {s : String} (hs : s ∈ r.texts) :
    headerSize + textSize s ≤ r.encodedSize := by
  unfold encodedSize
  refine Nat.add_le_add_left ?_ headerSize
  unfold texts at hs
  simp only [List.mem_append] at hs
  obtain (((hlead | hhost) | hserver) | hheaders) | hattributes := hs
  · simp only [List.mem_cons, List.not_mem_nil, or_false] at hlead
    obtain rfl | rfl | rfl := hlead <;> omega
  · rw [Option.mem_toList.1 hhost, optionalSize]
    omega
  · rw [List.mem_singleton.1 hserver]
    omega
  · have h : textSize s ≤ (r.headers.map headerFieldSize).sum :=
      textSize_le_sum textSize_le_headerFieldSize hheaders
    omega
  · have h : textSize s ≤ (r.attributes.map Attribute.size).sum :=
      textSize_le_sum textSize_le_attributeSize hattributes
    omega

/-- In a buffer of an admissible size no text that has room is too long to be written. -/
theorem fits_iff {r : ForwardRequest} {capacity : Nat} (hc : capacity ≤ largestSize) :
    r.Fits capacity ↔ (∃ code, methodCode? r.method = some code) ∧
      r.headers.length ≤ 0xFFFF ∧ r.encodedSize ≤ capacity := by
  constructor
  · exact fun h => ⟨Option.isSome_iff_exists.1 h.method, h.headers, h.size⟩
  · rintro ⟨hm, hh, hs⟩
    refine ⟨Option.isSome_iff_exists.2 hm, hh, fun s hmem => ?_, hs⟩
    have hlimits : largestSize = 65536 ∧ headerSize = 4 := ⟨rfl, rfl⟩
    have hsize := textSize_le_encodedSize hmem
    unfold textSize at hsize
    show s.utf8ByteSize ≤ 65534
    omega

/-! ## Acceptance -/

section
variable {r : ForwardRequest} {m : Buffer}

/-- A request that fits is written whole. -/
theorem Fits.run_encode (h : r.Fits m.capacity) (hc : m.capacity ≤ largestSize) :
    ∃ code, r.encode.run m = (.ok (), m.message toContainer (r.payload code)) ∧
      headerSize + (r.payload code).length ≤ m.capacity := by
  obtain ⟨⟨code, hcode⟩, hh, hs⟩ := (fits_iff hc).1 h
  rw [← r.size_payload code] at hs
  exact ⟨code, ForwardRequest.run_encode hcode hh hc hs, hs⟩

/-- A request without a code for its method is refused as such, and any other that does not fit
overflows: its headers a word, or its packet the buffer. -/
theorem run_encode_of_not_fits (hm : m.WellFormed) (hc : m.capacity ≤ largestSize)
    (h : ¬ r.Fits m.capacity) :
    ∃ e, (r.encode.run m).1 = .error e ∧
      (methodCode? r.method = none ∧ e = .unknownMethod r.method ∨
        (methodCode? r.method).isSome ∧ ∃ offset needed limit, e = .overflow offset needed limit) := by
  cases hcode : methodCode? r.method with
  | none =>
    rw [encode_of_unknown hcode]
    exact ⟨_, rfl, .inl ⟨rfl, rfl⟩⟩
  | some code =>
    by_cases hh : r.headers.length ≤ 0xFFFF
    · have hfull : m.capacity < headerSize + (r.payload code).length := by
        rw [r.size_payload code]
        exact Nat.lt_of_not_le fun hs => h ((fits_iff hc).2 ⟨⟨code, hcode⟩, hh, hs⟩)
      obtain ⟨offset, needed, limit, m', hrun⟩ := (r.writes_encodeFields code).overflows
        (wellFormed_reset hm.header_le_capacity) hc hfull
      rw [encode_eq hcode hh, run_bind_of_ok (run_modify ..), run_bind_of_error hrun]
      exact ⟨_, rfl, .inr ⟨rfl, offset, needed, limit, rfl⟩⟩
    · rw [encode_of_many hcode (Nat.lt_of_not_le hh), run_bind_of_ok (run_get m)]
      exact ⟨_, rfl, .inr ⟨rfl, _, _, _, rfl⟩⟩

/-- The header of a message is its magic word and the length of its payload, which fits in a
word. -/
theorem header_message (magic : UInt16) {payload : Bytes} (hc : m.capacity ≤ largestSize)
    (hf : headerSize + payload.length ≤ m.capacity) :
    ∃ size : UInt16, (m.message magic payload).frame.take headerSize =
        wordBytes magic ++ wordBytes size ∧
      size.toNat = (m.message magic payload).payloadSize := by
  have hsize := length_le_of_fits hc hf
  refine ⟨UInt16.ofNat payload.length, ?_, ?_⟩
  · rw [frame_message magic hf]
    exact List.take_left' rfl
  · rw [payloadSize_message, UInt16.toNat_ofNat']
    omega

/-- **A request is written exactly if it fits**, and its packet is as large as its fields and says
so.  Where it is not written, the end of the packet stays within the buffer, and the error is that
the method has no code, or an overflow. -/
theorem encode_iff_fits (hm : m.WellFormed) (hc : m.capacity ≤ largestSize) :
    ((r.encode.run m).1 = .ok () ↔ r.Fits m.capacity) ∧
      (∀ sent, r.encode.run m = (.ok (), sent) →
        sent.len = r.encodedSize ∧
          ∃ size : UInt16, sent.frame.take headerSize = wordBytes 0x1234 ++ wordBytes size ∧
            size.toNat = sent.len - headerSize) ∧
      ∀ e left, r.encode.run m = (.error e, left) →
        left.len ≤ left.capacity ∧ left.capacity = m.capacity ∧
          (methodCode? r.method = none ∧ e = .unknownMethod r.method ∨
            (methodCode? r.method).isSome ∧
              ∃ offset needed limit, e = .overflow offset needed limit) := by
  refine ⟨⟨fun hok => ?_, fun h => ?_⟩, fun sent hrun => ?_, fun e left hrun => ⟨?_, ?_, ?_⟩⟩
  · refine Decidable.byContradiction fun h => ?_
    obtain ⟨e, herror, -⟩ := run_encode_of_not_fits hm hc h
    rw [herror] at hok
    cases hok
  · obtain ⟨code, hrun, -⟩ := h.run_encode hc
    rw [hrun]
  · obtain ⟨code, -, -, hf, rfl⟩ := eq_of_run_encode hc hrun
    exact ⟨r.size_payload code, header_message toContainer hc hf⟩
  · have hkept := lasting_wellFormed.encode r m hm
    rw [hrun] at hkept
    exact hkept.len_le_capacity
  · have hkept := r.keeps_encode.capacity m
    rwa [hrun] at hkept
  · by_cases h : r.Fits m.capacity
    · obtain ⟨code, hok, -⟩ := h.run_encode hc
      rw [hok] at hrun
      cases hrun
    · obtain ⟨e', herror, hwhy⟩ := run_encode_of_not_fits hm hc h
      rw [hrun] at herror
      cases herror
      exact hwhy

end

/-- One byte less than the packet is refused. -/
theorem encode_iff_fits_mixedCase :
    (∃ sent, mixedCase.encode.run (new 108) = (.ok (), sent) ∧ sent.len = 108) ∧
      ∃ left offset needed limit,
        mixedCase.encode.run (new 107) = (.error (.overflow offset needed limit), left) ∧
          left.len ≤ left.capacity := by
  have hsmall (n : Nat) (hn : n ≤ largestSize) : (new n).capacity ≤ largestSize := by
    rw [capacity_new]
    exact Nat.max_le.2 ⟨hn, by decide⟩
  constructor
  · obtain ⟨hiff, hok, -⟩ := encode_iff_fits (r := mixedCase) (wellFormed_new 108)
      (hsmall 108 (by decide))
    rcases hrun : mixedCase.encode.run (new 108) with ⟨result, sent⟩
    rw [hrun, capacity_new] at hiff
    obtain rfl : result = .ok () := hiff.2 (by decide)
    exact ⟨sent, rfl, (hok sent hrun).1⟩
  · obtain ⟨hiff, -, herror⟩ := encode_iff_fits (r := mixedCase) (wellFormed_new 107)
      (hsmall 107 (by decide))
    rcases hrun : mixedCase.encode.run (new 107) with ⟨result, left⟩
    rw [hrun, capacity_new] at hiff
    cases result with
    | ok _ => exact absurd (hiff.1 rfl) (by decide)
    | error e =>
      obtain ⟨hlen, -, ⟨hnone, -⟩ | ⟨-, offset, needed, limit, rfl⟩⟩ := herror e left hrun
      · exact absurd hnone (by decide)
      · exact ⟨left, offset, needed, limit, rfl, hlen⟩

end ForwardRequest

end AjpGateway.Packet
