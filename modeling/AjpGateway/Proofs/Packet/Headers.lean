import AjpGateway.Packet.ForwardRequest
import AjpGateway.Proofs.Packet.Field

/-!
# Header lists on the wire

Requests and replies write their headers one after another, each name as its code or as a text.
What is read back depends on the names: one with a code comes back in the spelling of the table,
and one without comes back as it was, unless its length is written as the word of a code.

    code ≠ none → Reads (decodeHeaderName table) (wordBytes code) (spelling table name)
                                                             (reads_decodeHeaderName_coded)
    code = none, ¬ LooksCoded → Reads (decodeHeaderName table) (Wire.text name) name
                                                             (reads_decodeHeaderName_plain)
    Writes (encodeHeaders table headers) (Wire.headers table headers)    (writes_encodeHeaders)
    no name LooksCoded → Reads (decodeHeaders …) (Wire.headers table headers) (respell table headers)
                                                                         (reads_decodeHeaders)
-/

namespace AjpGateway.Packet

open Buffer

variable {table : List String}

/-! ## Names -/

/-- The spelling in which a name is read back: that of the table if the table has it. -/
def spelling (table : List String) (name : String) : String :=
  (table.find? (Text.sameIgnoringCase · name)).getD name

def respell (table : List String) (headers : List (String × String)) : List (String × String) :=
  headers.map fun h => (spelling table h.1, h.2)

/-- A name without a code, and with a length that is written as the word of a code. -/
def LooksCoded (table : List String) (name : String) : Prop :=
  headerCode? table name = none ∧ 0xA000 ≤ name.utf8ByteSize ∧ name.utf8ByteSize ≤ 0xA0FF

theorem headerCode?_eq_some {name : String} {code : UInt16} (hs : table.length < 0x100)
    (h : headerCode? table name = some code) :
    ∃ i s, table[i]? = some s ∧ table.find? (Text.sameIgnoringCase · name) = some s ∧
      code.toNat = 0xA000 + (i + 1) ∧ i < table.length := by
  obtain ⟨i, hi, rfl⟩ := Option.map_eq_some_iff.1 h
  obtain ⟨hlt, hsame, hfirst⟩ := List.findIdx?_eq_some_iff_getElem.1 hi
  refine ⟨i, table[i], List.getElem?_eq_getElem hlt,
    List.find?_eq_some_iff_getElem.2 ⟨hsame, i, hlt, rfl, fun j hj => by simpa using hfirst j hj⟩,
    ?_, hlt⟩
  show (codedHeader + UInt16.ofNat (i + 1)).toNat = _
  rw [UInt16.toNat_add, UInt16.toNat_ofNat']
  show (0xA000 + (i + 1) % 2 ^ 16) % 2 ^ 16 = _
  omega

theorem spelling_of_headerCode?_eq_none {name : String} (h : headerCode? table name = none) :
    spelling table name = name := by
  have hi : table.findIdx? (Text.sameIgnoringCase · name) = none := Option.map_eq_none_iff.1 h
  have hf : table.find? (Text.sameIgnoringCase · name) = none :=
    List.find?_eq_none.2 fun s hs => by simp [List.findIdx?_eq_none_iff.1 hi s hs]
  rw [spelling, hf, Option.getD_none]

/-- The names behind codes have codes. -/
theorem headerCode?_ne_none {code : UInt16} {s : String} (h : headerName? table code = some s) :
    headerCode? table s ≠ none := by
  unfold headerName? at h
  split at h
  · cases h
  · intro hn
    have hi := List.findIdx?_eq_none_iff.1 (Option.map_eq_none_iff.1 hn) s (List.mem_of_getElem? h)
    rw [Text.sameIgnoringCase, beq_self_eq_true] at hi
    cases hi

namespace Wire

/-- A header name, by its code if the table has one. -/
def headerName (table : List String) (name : String) : Bytes :=
  match headerCode? table name with
  | some code => wordBytes code
  | none => text name

def headers (table : List String) : List (String × String) → Bytes
  | [] => []
  | (name, value) :: rest => headerName table name ++ (text value ++ headers table rest)

/-- A header takes at least a word for its name, and a word and a NUL for its value. -/
theorem length_headers (table : List String) (hs : List (String × String)) :
    5 * hs.length ≤ (headers table hs).length := by
  induction hs with
  | nil => exact Nat.le_refl _
  | cons h rest ih =>
    obtain ⟨name, value⟩ := h
    have hn : 2 ≤ (headerName table name).length := by
      unfold headerName
      split
      · exact Nat.le_refl _
      · rw [length_text]
        omega
    rw [headers, List.length_append, List.length_append, length_text, List.length_cons]
    omega

end Wire

/-! ## Writing -/

theorem writes_encodeHeaderName (table : List String) (name : String) :
    Writes (encodeHeaderName table name) (Wire.headerName table name) := by
  unfold encodeHeaderName Wire.headerName
  cases headerCode? table name with
  | some code => exact writes_appendWord code
  | none => exact writes_appendText name

theorem writes_encodeHeaders (table : List String) (headers : List (String × String)) :
    Writes (encodeHeaders table headers) (Wire.headers table headers) := by
  induction headers with
  | nil => exact Writes.nothing
  | cons h rest ih =>
    exact (writes_encodeHeaderName table h.1).seq ((writes_appendText h.2).seq ih)

/-! ## Reading -/

theorem reads_decodeHeaderName_coded {name : String} {code : UInt16} (hs : table.length < 0x100)
    (h : headerCode? table name = some code) :
    Reads (decodeHeaderName table) (wordBytes code) (spelling table name) := by
  obtain ⟨i, s, hi, hf, hc, hlt⟩ := headerCode?_eq_some hs h
  have hcoded : isCodedHeader code := (isCodedHeader_iff code).2 (by omega)
  have hname : headerName? table code = some s := by
    have hgt : ¬ code ≤ codedHeader := by
      rw [UInt16.le_iff_toNat_le, hc]
      show ¬ 0xA000 + (i + 1) ≤ 0xA000
      omega
    have hidx : code.toNat - codedHeader.toNat - 1 = i := by
      rw [hc]
      show 0xA000 + (i + 1) - 0xA000 - 1 = i
      omega
    rw [headerName?, if_neg hgt, hidx, hi]
  intro m rest hm hu
  unfold decodeHeaderName
  rw [run_bind_of_ok (run_peekWord hm hu), if_pos hcoded,
    run_bind_of_ok (reads_readWord code m rest hm hu), hname, spelling, hf]
  rfl

theorem toNat_length_of_fits {name : String} (hf : (Wire.text name).length ≤ 0xFFFF) :
    (UInt16.ofNat (Text.utf8 name).length).toNat = name.utf8ByteSize := by
  rw [Wire.length_text] at hf
  rw [Text.length_utf8, UInt16.toNat_ofNat']
  omega

theorem reads_decodeHeaderName_plain {name : String} (hf : (Wire.text name).length ≤ 0xFFFF)
    (h : ¬ (0xA000 ≤ name.utf8ByteSize ∧ name.utf8ByteSize ≤ 0xA0FF)) :
    Reads (decodeHeaderName table) (Wire.text name) name := by
  have hplain : ¬ isCodedHeader (UInt16.ofNat (Text.utf8 name).length) := by
    rw [isCodedHeader_iff, toNat_length_of_fits hf]
    omega
  intro m rest hm hu
  have hw : m.unread = wordBytes (UInt16.ofNat (Text.utf8 name).length) ++
      (Text.utf8 name ++ [0] ++ rest) := by
    rw [hu, Wire.text]
    simp only [List.append_assoc]
  unfold decodeHeaderName
  rw [run_bind_of_ok (run_peekWord hm hw), if_neg hplain]
  exact reads_readText hf "header name" m rest hm hu

theorem reads_decodeHeaderName {name : String} (hs : table.length < 0x100)
    (hf : (Wire.headerName table name).length ≤ 0xFFFF) (h : ¬ LooksCoded table name) :
    Reads (decodeHeaderName table) (Wire.headerName table name) (spelling table name) := by
  unfold Wire.headerName at *
  cases hc : headerCode? table name with
  | some code => exact reads_decodeHeaderName_coded hs hc
  | none =>
    rw [hc] at hf
    rw [spelling_of_headerCode?_eq_none hc]
    exact reads_decodeHeaderName_plain hf fun hl => h ⟨hc, hl⟩

/-- A name that looks coded is read, if it is, as one of the table. -/
theorem headerCode?_ne_none_of_looksCoded {name received : String} {m m' : Buffer} {rest : Bytes}
    (hm : m.WellFormed) (hu : m.unread = Wire.text name ++ rest) (h : LooksCoded table name)
    (hr : (decodeHeaderName table).run m = (.ok received, m')) :
    headerCode? table received ≠ none := by
  obtain ⟨-, hlo, hhi⟩ := h
  have hcoded : isCodedHeader (UInt16.ofNat (Text.utf8 name).length) := by
    rw [isCodedHeader_iff, toNat_length_of_fits (by rw [Wire.length_text]; omega)]
    omega
  have hw : m.unread = wordBytes (UInt16.ofNat (Text.utf8 name).length) ++
      (Text.utf8 name ++ [0] ++ rest) := by
    rw [hu, Wire.text]
    simp only [List.append_assoc]
  unfold decodeHeaderName at hr
  rw [run_bind_of_ok (run_peekWord hm hw), if_pos hcoded,
    run_bind_of_ok (reads_readWord _ m _ hm hw)] at hr
  cases hn : headerName? table (UInt16.ofNat (Text.utf8 name).length) with
  | none =>
    rw [hn] at hr
    cases hr
  | some s =>
    rw [hn] at hr
    cases hr
    exact headerCode?_ne_none hn

section
variable {readValue : Marshal String}
  (hvalue : ∀ value, (Wire.text value).length ≤ 0xFFFF → Reads readValue (Wire.text value) value)
include hvalue

theorem reads_decodeHeaders (hs : table.length < 0x100) {headers : List (String × String)}
    (hf : (Wire.headers table headers).length ≤ 0xFFFF)
    (h : ∀ p ∈ headers, ¬ LooksCoded table p.1) :
    Reads (decodeHeaders table readValue headers.length) (Wire.headers table headers)
      (respell table headers) := by
  induction headers with
  | nil => exact Reads.pure []
  | cons p rest ih =>
    rw [Wire.headers, List.length_append, List.length_append] at hf
    have hname := reads_decodeHeaderName hs (by omega) (h p List.mem_cons_self)
    have hrest := ih (by omega) fun q hq => h q (List.mem_cons_of_mem _ hq)
    exact hname.bind ((hvalue p.2 (by omega)).bind hrest.bind_pure)

end

end AjpGateway.Packet
