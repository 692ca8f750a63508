import AjpGateway.Proofs.Packet.Decoding
import AjpGateway.Proofs.Packet.Request

/-!
# The capacity of a buffer

What each step of writing a message keeps of a buffer, the whole message keeps, also where it
fails: the capacity, and that the end of the packet lies within it.  Reading and receiving keep the
capacity too.

    Lasting I → Keeps I r.encode                                                (Lasting.encode)
    Keeps (fun m => m.capacity = c) r.encode                                     (keeps_encode)
    Lasting WellFormed                                                     (lasting_wellFormed)
    (receive s m magic).2.1.capacity = m.capacity                            (capacity_receive)
-/

namespace AjpGateway.Packet

open Buffer

/-- Work on a buffer that keeps its capacity. -/
abbrev KeepsCapacity {α : Type} (act : Marshal α) : Prop :=
  ∀ c, Keeps (fun m : Buffer => m.capacity = c) act

theorem KeepsCapacity.capacity {α : Type} {act : Marshal α} (h : KeepsCapacity act) (m : Buffer) :
    (act.run m).2.capacity = m.capacity :=
  h m.capacity m rfl

theorem Perusal.keepsCapacity {α : Type} {sized : Prop} {act : Marshal α}
    (h : Perusal sized act) : KeepsCapacity act :=
  fun _ m hm => (congrArg Array.size (h.storage m)).trans hm

/-! ## Writing -/

/-- An invariant that a buffer keeps while a message is written in place of what it held. -/
structure Lasting (I : Buffer → Prop) : Prop where
  reset : ∀ m, I m → I m.reset
  append : ∀ bytes, Keeps I (append bytes)
  finish : ∀ magic m, I m → I (m.finish magic)

/-- What is put where it fits is appended, and nothing else. -/
theorem keeps_append {I : Buffer → Prop} {bytes : Bytes}
    (h : ∀ m, I m → m.len + bytes.length ≤ m.capacity → I (m.put bytes)) :
    Keeps I (append bytes) := by
  intro m hm
  by_cases hfits : m.len + bytes.length ≤ m.capacity
  · rw [run_append_of_le hfits]
    exact h m hm hfits
  · rw [run_append_of_lt (Nat.lt_of_not_le hfits)]
    exact hm

theorem lasting_capacity (c : Nat) : Lasting fun m => m.capacity = c where
  reset m hm := by rwa [capacity_reset]
  append bytes := keeps_append fun m hm _ => (capacity_put m bytes).trans hm
  finish magic m hm := (capacity_overwrite ..).trans hm

theorem lasting_wellFormed : Lasting WellFormed where
  reset _ hm := wellFormed_reset hm.header_le_capacity
  append _ := keeps_append fun _ hm => hm.put
  finish magic m hm := by
    refine ⟨hm.header_le_pos, hm.pos_le_len, ?_⟩
    have hc : (m.finish magic).capacity = m.capacity := capacity_overwrite ..
    rw [hc]
    exact hm.len_le_capacity

namespace Lasting

variable {I : Buffer → Prop} (hI : Lasting I)
include hI

theorem appendText (s : String) : Keeps I (appendText s) := by
  unfold Buffer.appendText
  dsimp only
  split
  · exact Keeps.get.bind fun _ => Keeps.throw _
  · exact hI.append _

theorem appendText? (s : Option String) : Keeps I (appendText? s) := by
  cases s with
  | none => exact hI.append _
  | some s => exact hI.appendText s

theorem appendChunk (data : Bytes) : Keeps I (appendChunk data) := by
  unfold Buffer.appendChunk
  split
  · exact Keeps.get.bind fun _ => Keeps.throw _
  · exact hI.append _

theorem encodeHeaders (table : List String) (headers : List (String × String)) :
    Keeps I (encodeHeaders table headers) := by
  induction headers with
  | nil => exact Keeps.pure ()
  | cons h rest ih =>
    have hname : Keeps I (encodeHeaderName table h.1) := by
      unfold encodeHeaderName
      cases headerCode? table h.1 with
      | some code => exact hI.append _
      | none => exact hI.appendText _
    exact hname.bind fun _ => (hI.appendText h.2).bind fun _ => ih

theorem encodeAttribute (a : Attribute) : Keeps I a.encode := by
  cases a with
  | named name value => exact (hI.append _).bind fun _ => hI.appendText value
  | sslKeySize bits => exact (hI.append _).bind fun _ => hI.append _
  | custom name value =>
    exact (hI.append _).bind fun _ => (hI.appendText name).bind fun _ => hI.appendText value

theorem encodeAttributes (as : List Attribute) :
    Keeps I (ForwardRequest.encodeAttributes as) := by
  induction as with
  | nil => exact Keeps.pure ()
  | cons a rest ih => exact (hI.encodeAttribute a).bind fun _ => ih

/-- A message in place of what the buffer held. -/
theorem message {act : Marshal Unit} (h : Keeps I act) (magic : UInt16) :
    Keeps I (do modify Buffer.reset; act; modify fun m => m.finish magic) :=
  (Keeps.modify hI.reset).bind fun _ => h.bind fun _ => Keeps.modify (hI.finish magic)

theorem encodeFields (r : ForwardRequest) (code : UInt8) : Keeps I (r.encodeFields code) :=
  (hI.append _).bind fun _ => (hI.append _).bind fun _ => (hI.appendText _).bind fun _ =>
    (hI.appendText _).bind fun _ => (hI.appendText _).bind fun _ => (hI.appendText? _).bind fun _ =>
    (hI.appendText _).bind fun _ => (hI.append _).bind fun _ => (hI.append _).bind fun _ =>
    (hI.append _).bind fun _ => (hI.encodeHeaders _ _).bind fun _ =>
    (hI.encodeAttributes _).bind fun _ => hI.append _

theorem encode (r : ForwardRequest) : Keeps I r.encode := by
  cases hcode : methodCode? r.method with
  | none =>
    rw [ForwardRequest.encode_of_unknown hcode]
    exact Keeps.throw _
  | some code =>
    by_cases hh : r.headers.length ≤ 0xFFFF
    · rw [ForwardRequest.encode_eq hcode hh]
      exact hI.message (hI.encodeFields r code) toContainer
    · rw [ForwardRequest.encode_of_many hcode (Nat.lt_of_not_le hh)]
      exact Keeps.get.bind fun _ => Keeps.throw _

theorem encodeBody (data : Bytes) : Keeps I (encodeBody data) := by
  unfold Packet.encodeBody
  by_cases hd : data ≠ []
  · simp only [if_pos hd]
    exact hI.message (hI.appendChunk data) toContainer
  · simp only [if_neg hd]
    exact hI.message (Keeps.pure ()) toContainer

end Lasting

theorem ForwardRequest.keeps_encode (r : ForwardRequest) : KeepsCapacity r.encode :=
  fun c => (lasting_capacity c).encode r

theorem keeps_encodeBody (data : Bytes) : KeepsCapacity (encodeBody data) :=
  fun c => (lasting_capacity c).encodeBody data

theorem keeps_encodePing : KeepsCapacity encodePing :=
  fun c => (lasting_capacity c).message ((lasting_capacity c).append _) toContainer

/-! ## Receiving -/

theorem keeps_parseHeader (expected : UInt16) : KeepsCapacity (parseHeader expected) := by
  intro c m hm
  unfold parseHeader
  rw [run_bind_of_ok (run_get m)]
  split
  · dsimp only
    split
    · exact hm
    · split
      · exact hm
      · exact hm
  · exact hm

theorem capacity_receive (s : Stream) (m : Buffer) (magic : UInt16) :
    (receive s m magic).2.1.capacity = m.capacity := by
  unfold receive
  rcases s.receive headerSize with ⟨result, header, s₁⟩
  cases result with
  | error e => exact capacity_overwrite ..
  | ok _ =>
    have hparse := (keeps_parseHeader magic).capacity (m.overwrite 0 header)
    rw [capacity_overwrite] at hparse
    dsimp only
    rcases hp : (parseHeader magic).run (m.overwrite 0 header) with ⟨result, m₁⟩
    rw [hp] at hparse
    cases result with
    | error e => exact hparse
    | ok size =>
      dsimp only
      rcases s₁.receive size with ⟨result, payload, s₂⟩
      cases result with
      | error e => exact (capacity_overwrite ..).trans hparse
      | ok _ => exact (capacity_overwrite ..).trans hparse

end AjpGateway.Packet
