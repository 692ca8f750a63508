import AjpGateway.Proofs.Packet.Piece
import AjpGateway.Proofs.Packet.Reply

/-!
# Replies and pieces read back

What a reply or a piece of a body is written as is received in any buffer with room for it, and
read as it was.  A reply comes back with the known names of its headers in the spelling of the
table, and only the data of a body piece leaves a byte behind it unread.

    act.run b = (.ok a, b.advance x.length) where b.unread = x ++ rest →
      (m.message magic (x ++ rest)).ReadAs magic act a rest                   (readAs_message)
    r.encode.run m = (.ok (), sent) → sent.ReadAs fromContainer Reply.decode r.canonical r.trailing
    (encodeBody data).run m = (.ok (), sent) → sent.ReadAs toContainer decodeBody data []
                                                                              (read_as_written)
-/

namespace AjpGateway.Packet

open Buffer

/-- The packet in the buffer, whatever follows it, is received in every buffer with room for it;
`act` then gives `a`, and `rest` stays unread. -/
def Buffer.ReadAs {α : Type} (sent : Buffer) (magic : UInt16) (act : Marshal α) (a : α)
    (rest : Bytes) : Prop :=
  ∀ (s : Stream) (b : Buffer) (more : Bytes), s.available = sent.frame ++ more →
    sent.len ≤ b.capacity →
    ∃ received s' final,
      receive s b magic = (.ok sent.payloadSize, received, s', sent.len) ∧
      s'.available = more ∧ act.run received = (.ok a, final) ∧ final.unread = rest ∧
      final.remaining = rest.length

theorem readAs_message {α : Type} {act : Marshal α} {a : α} {m : Buffer} {magic : UInt16}
    {x rest : Bytes} (hc : m.capacity ≤ largestSize)
    (hf : headerSize + (x ++ rest).length ≤ m.capacity)
    (ha : ∀ b : Buffer, b.WellFormed → b.unread = x ++ rest →
      act.run b = (.ok a, b.advance x.length)) :
    (m.message magic (x ++ rest)).ReadAs magic act a rest := by
  intro s b more hs hb
  obtain ⟨received, s', hreceive, hwf, hu, hmore⟩ := receive_message hc hf hs hb
  obtain ⟨hwf', hrest⟩ := hwf.advance_of_unread hu
  have hcount : (received.advance x.length).remaining = rest.length := by
    rw [← hrest]
    exact hwf'.length_unread.symm
  exact ⟨received, s', _, hreceive, hmore, ha received hwf hu, hrest, hcount⟩

/-- A name without a code of less than `0xA000` bytes has a length below the words of the codes. -/
theorem Reply.readAs_canonical {r : Reply} {m sent : Buffer} (hc : m.capacity ≤ largestSize)
    (hnames : ∀ h ∈ r.headers,
      headerCode? responseHeaders h.1 = none → h.1.utf8ByteSize < 0xA000)
    (h : r.encode.run m = (.ok (), sent)) :
    sent.len ≤ m.capacity ∧
      sent.ReadAs fromContainer Reply.decode r.canonical r.trailing := by
  obtain ⟨hf, rfl⟩ := eq_of_run_encode hc h
  have hplain : ∀ p ∈ r.headers, ¬ LooksCoded responseHeaders p.1 := by
    intro p hp hl
    have hshort := hnames p hp hl.1
    have hlong := hl.2.1
    omega
  obtain ⟨x, hx, hreads⟩ := r.reads_decode (length_le_of_fits hc hf) hplain
  refine ⟨hf, ?_⟩
  rw [hx] at hf ⊢
  exact readAs_message hc hf fun b hb hu => hreads b r.trailing hb hu

/-- A piece ends with the packet, and that ends the body where the piece is empty. -/
theorem readAs_piece {data : Bytes} {m sent : Buffer} (hm : headerSize ≤ m.capacity)
    (hc : m.capacity ≤ largestSize) (h : (encodeBody data).run m = (.ok (), sent)) :
    sent.len ≤ m.capacity ∧ sent.ReadAs toContainer decodeBody data [] := by
  obtain ⟨hf, rfl⟩ := eq_of_run_encodeBody hm hc h
  have hsize := length_le_of_fits hc hf
  refine ⟨hf, ?_⟩
  rw [← List.append_nil (Wire.piece data)] at hf ⊢
  refine readAs_message hc hf fun b hb hu => ?_
  rw [List.append_nil] at hu
  exact run_decodeBody hsize hb hu

/-- **What is written is read back**: every reply as its canonical form and every piece of a body
as it was. -/
theorem read_as_written {m : Buffer} (hm : headerSize ≤ m.capacity)
    (hc : m.capacity ≤ largestSize) :
    (∀ (r : Reply) (sent : Buffer),
      (∀ h ∈ r.headers, headerCode? responseHeaders h.1 = none → h.1.utf8ByteSize < 0xA000) →
      r.encode.run m = (.ok (), sent) →
      sent.len ≤ m.capacity ∧
        sent.ReadAs fromContainer Reply.decode r.canonical r.trailing) ∧
    ∀ (data : Bytes) (sent : Buffer), (encodeBody data).run m = (.ok (), sent) →
      sent.len ≤ m.capacity ∧ sent.ReadAs toContainer decodeBody data [] :=
  ⟨fun _ _ hnames h => Reply.readAs_canonical hc hnames h, fun _ _ h => readAs_piece hm hc h⟩

/-- A redirect without a reason, with known names in mixed case and a name without a code given
twice. -/
def redirect : Reply :=
  .sendHeaders 302 none
    [("location", "/app"), ("X-Trace", "b"), ("SET-COOKIE", "a=1"), ("X-Trace", "a")]

theorem read_redirect_and_piece :
    (∃ sent, redirect.encode.run (new defaultSize) = (.ok (), sent) ∧
      sent.len ≤ (new defaultSize).capacity ∧
      sent.ReadAs fromContainer Reply.decode
        (.sendHeaders 302 none
          [("Location", "/app"), ("X-Trace", "b"), ("Set-Cookie", "a=1"), ("X-Trace", "a")]) []) ∧
    (∃ sent, (Reply.sendBody [7, 0]).encode.run (new defaultSize) = (.ok (), sent) ∧
      sent.len ≤ (new defaultSize).capacity ∧
      sent.ReadAs fromContainer Reply.decode (.sendBody [7, 0]) [0]) ∧
    ∃ sent, (encodeBody [7, 0]).run (new defaultSize) = (.ok (), sent) ∧
      sent.len ≤ (new defaultSize).capacity ∧
      sent.ReadAs toContainer decodeBody [7, 0] [] := by
  have hroom : (new defaultSize).capacity = defaultSize := by
    rw [capacity_new]
    decide
  have hm : headerSize ≤ (new defaultSize).capacity := by
    rw [hroom]
    decide
  have hc : (new defaultSize).capacity ≤ largestSize := by
    rw [hroom]
    decide
  have hredirect : redirect.encode.run (new defaultSize) = (.ok (), _) :=
    Reply.run_encode hc (by rw [hroom]; decide)
  have hdata : (Reply.sendBody [7, 0]).encode.run (new defaultSize) = (.ok (), _) :=
    Reply.run_encode hc (by rw [hroom]; decide)
  have hpiece : (encodeBody [7, 0]).run (new defaultSize) = (.ok (), _) :=
    run_encodeBody (Nat.le_of_eq hroom.symm) hc (by rw [hroom]; decide)
  have hcanonical : redirect.canonical = .sendHeaders 302 none
      [("Location", "/app"), ("X-Trace", "b"), ("Set-Cookie", "a=1"), ("X-Trace", "a")] := by
    decide
  have h := (read_as_written hm hc).1 redirect _ (by decide) hredirect
  rw [hcanonical] at h
  exact ⟨⟨_, hredirect, h⟩,
    ⟨_, hdata, (read_as_written hm hc).1 (.sendBody [7, 0]) _ (by decide) hdata⟩,
    ⟨_, hpiece, (read_as_written hm hc).2 [7, 0] _ hpiece⟩⟩

end AjpGateway.Packet
