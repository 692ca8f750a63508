import AjpGateway.Proofs.Packet.Decoding
import AjpGateway.Proofs.Packet.Request

/-!
# Reading attributes to their end

The attributes of a request are read until their end, however many there are.  Each turn takes a
byte of the packet at least, so with as many turns as there are bytes left the end is reached, or
the end of the packet; more turns change nothing.

    m.remaining ≤ k → (AttributesRead m out ↔ (decodeAttributes k).run m = out)
                                                                     (attributesRead_iff)
    RequestRead m out ↔ decode.run m = out                              (requestRead_iff)
    m.remaining ≤ k → decode.run m = (decodeWith k).run m                    (run_decode)
-/

namespace AjpGateway.Packet

open Buffer

/-! ## Attributes -/

/-- What comes of reading attributes one after another, up to the byte that ends them. -/
inductive AttributesRead : Buffer → Except PacketError (List Attribute) × Buffer → Prop
  | missing {m v : Buffer} {e : PacketError} (hb : readByte.run m = (.error e, v)) :
      AttributesRead m (.error e, v)
  | ended {m v : Buffer} (hb : readByte.run m = (.ok Attribute.endCode, v)) :
      AttributesRead m (.ok [], v)
  | broken {m u v : Buffer} {code : UInt8} {e : PacketError}
      (hb : readByte.run m = (.ok code, u)) (hcode : code ≠ Attribute.endCode)
      (ha : (Attribute.decode code).run u = (.error e, v)) : AttributesRead m (.error e, v)
  | next {m u w v : Buffer} {code : UInt8} {a : Attribute}
      {result : Except PacketError (List Attribute)} (hb : readByte.run m = (.ok code, u))
      (hcode : code ≠ Attribute.endCode) (ha : (Attribute.decode code).run u = (.ok a, w))
      (hrest : AttributesRead w (result, v)) : AttributesRead m (result.map (a :: ·), v)

/-- A byte that was read is no longer left. -/
theorem remaining_lt_of_readByte {m u : Buffer} {code : UInt8}
    (h : readByte.run m = (.ok code, u)) : u.remaining < m.remaining := by
  unfold readByte at h
  by_cases h1 : m.len < m.pos + 1
  · rw [run_bind_of_error (run_take_of_lt h1)] at h
    cases h
  · rw [run_bind_of_ok (run_take_of_le h1), run_pure] at h
    cases h
    show m.len - (m.pos + 1) < m.len - m.pos
    omega

section
variable {sized : Prop}

theorem perusal_attribute (code : UInt8) : Perusal sized (Attribute.decode code) := by
  unfold Attribute.decode
  split
  · exact (Perusal.readText _).bind fun _ => Perusal.pure _
  · split
    · exact (Perusal.readText _).bind fun _ => (Perusal.readText _).bind fun _ => Perusal.pure _
    · split
      · exact Perusal.readWord.bind fun _ => Perusal.pure _
      · exact Perusal.throw _

theorem remaining_le_of_attribute {code : UInt8} {u w : Buffer} {a : Attribute}
    (h : (Attribute.decode code).run u = (.ok a, w)) : w.remaining ≤ u.remaining := by
  have hp : Perusal False (Attribute.decode code) := perusal_attribute code
  have hw := hp.ahead u
  rw [h] at hw
  exact hw.remaining_le

theorem perusal_decodeAttributes (k : Nat) :
    Perusal sized (ForwardRequest.decodeAttributes k) := by
  induction k with
  | zero =>
    unfold ForwardRequest.decodeAttributes
    refine Perusal.readByte.bind fun code => ?_
    split
    · exact Perusal.pure []
    · exact (perusal_attribute code).bind fun _ => Perusal.pure _
  | succ k ih =>
    unfold ForwardRequest.decodeAttributes
    refine Perusal.readByte.bind fun code => ?_
    split
    · exact Perusal.pure []
    · exact (perusal_attribute code).bind fun _ => ih.bind fun _ => Perusal.pure _

end

namespace ForwardRequest

/-- As many turns as there are bytes left are enough. -/
theorem attributesRead (k : Nat) {m : Buffer} (hk : m.remaining ≤ k) :
    AttributesRead m ((decodeAttributes k).run m) := by
  induction k using Nat.strongRecOn generalizing m with
  | ind k ih =>
    unfold decodeAttributes
    rcases hb : readByte.run m with ⟨result, u⟩
    cases result with
    | error e =>
      rw [run_bind_of_error hb]
      exact .missing hb
    | ok code =>
      have hlt := remaining_lt_of_readByte hb
      rw [run_bind_of_ok hb]
      by_cases hcode : code = Attribute.endCode
      · rw [if_pos hcode]
        exact .ended (hcode ▸ hb)
      · rw [if_neg hcode]
        rcases ha : (Attribute.decode code).run u with ⟨result, w⟩
        cases result with
        | error e =>
          rw [run_bind_of_error ha]
          exact .broken hb hcode ha
        | ok a =>
          have hle := remaining_le_of_attribute ha
          obtain ⟨n, rfl⟩ : ∃ n, k = n + 1 := ⟨k - 1, by omega⟩
          rw [run_bind_of_ok ha, run_bind_pure]
          exact .next hb hcode ha (ih n (Nat.lt_succ_self n) (by omega))

/-- Nothing else comes of it than of that many turns. -/
theorem run_of_attributesRead {k : Nat} {m : Buffer}
    {out : Except PacketError (List Attribute) × Buffer} (h : AttributesRead m out)
    (hk : m.remaining ≤ k) : (decodeAttributes k).run m = out := by
  induction h generalizing k with
  | missing hb =>
    unfold decodeAttributes
    exact run_bind_of_error hb
  | ended hb =>
    unfold decodeAttributes
    rw [run_bind_of_ok hb, if_pos rfl, run_pure]
  | broken hb hcode ha =>
    unfold decodeAttributes
    rw [run_bind_of_ok hb, if_neg hcode]
    exact run_bind_of_error ha
  | next hb hcode ha _ ih =>
    have hlt := remaining_lt_of_readByte hb
    have hle := remaining_le_of_attribute ha
    obtain ⟨n, rfl⟩ : ∃ n, k = n + 1 := ⟨k - 1, by omega⟩
    unfold decodeAttributes
    rw [run_bind_of_ok hb, if_neg hcode, run_bind_of_ok ha, run_bind_pure, ih (by omega)]

/-- **The loop over the attributes ends**, with the outcome of `k` turns. -/
theorem attributesRead_iff {k : Nat} {m : Buffer} (hk : m.remaining ≤ k)
    {out : Except PacketError (List Attribute) × Buffer} :
    AttributesRead m out ↔ (decodeAttributes k).run m = out := by
  constructor
  · exact fun h => run_of_attributesRead h hk
  · rintro rfl
    exact attributesRead k hk

/-! ## Requests -/

/-- Reads a request up to its attributes. -/
def decodeFields : Marshal ForwardRequest := do
  let kind ← readByte
  if kind ≠ MessageType.forwardRequest.code then throw (.unexpectedMessage kind)
  let code ← readByte
  let some method := methodName? code | throw (.unknownMethodCode code)
  let protocol ← readText "protocol"
  let uri ← readText "req_uri"
  let remoteAddr ← readText "remote_addr"
  let remoteHost ← readText?
  let serverName ← readText "server_name"
  let serverPort ← readWord
  let isSsl := (← readByte) != 0
  let count ← readWord
  let headers ← decodeHeaders requestHeaders (readText "header value") count.toNat
  return {
    method, protocol, uri, remoteAddr, remoteHost, serverName, serverPort, isSsl, headers,
    attributes := [] }

/-- Reads a request of at most `k` attributes. -/
def decodeWith (k : Nat) : Marshal ForwardRequest := do
  let r ← decodeFields
  return { r with attributes := ← decodeAttributes k }

theorem decode_eq : decode = (do
    let r ← decodeFields
    let attributes ← decodeAttributes (← get).remaining
    return { r with attributes }) := by
  unfold decode decodeFields
  simp only [bind_assoc]
  refine bind_congr fun kind => ?_
  by_cases hkind : kind = MessageType.forwardRequest.code
  · rw [if_neg (not_not_intro hkind), if_neg (not_not_intro hkind), bind_assoc]
    refine bind_congr fun code => ?_
    cases methodName? code with
    | none => rfl
    | some method => simp only [bind_assoc, pure_bind]
  · rw [if_pos hkind, if_pos hkind]
    rfl

section
variable {sized : Prop}

theorem perusal_decodeFields : Perusal sized decodeFields := by
  unfold decodeFields
  refine Perusal.readByte.bind fun kind => ?_
  split
  · show Perusal sized (throw (PacketError.unexpectedMessage kind) : Marshal ForwardRequest)
    exact Perusal.throw _
  refine Perusal.readByte.bind fun code => ?_
  cases methodName? code with
  | none => exact Perusal.throw _
  | some method =>
    exact (Perusal.readText _).bind fun _ => (Perusal.readText _).bind fun _ =>
      (Perusal.readText _).bind fun _ => Perusal.readText?.bind fun _ =>
      (Perusal.readText _).bind fun _ => Perusal.readWord.bind fun _ => Perusal.readByte.bind fun _ =>
      Perusal.readWord.bind fun count =>
      (perusal_decodeHeaders _ (Perusal.readText _) count.toNat).bind fun _ => Perusal.pure _

theorem perusal_decodeWith (k : Nat) : Perusal sized (decodeWith k) :=
  perusal_decodeFields.bind fun _ => (perusal_decodeAttributes k).bind fun _ => Perusal.pure _

end

/-- A request is read off its packet; how many attributes are looked for goes by how much is
left. -/
theorem perusal_decode : Perusal True decode := by
  rw [decode_eq]
  exact perusal_decodeFields.bind fun r =>
    Perusal.remaining (f := fun k => do return { r with attributes := ← decodeAttributes k })
      trivial fun k => (perusal_decodeAttributes k).bind fun _ => Perusal.pure _

/-- What comes of reading a request whose attributes are read to their end. -/
inductive RequestRead : Buffer → Except PacketError ForwardRequest × Buffer → Prop
  | broken {m v : Buffer} {e : PacketError} (hr : decodeFields.run m = (.error e, v)) :
      RequestRead m (.error e, v)
  | fields {m u v : Buffer} {r : ForwardRequest} {result : Except PacketError (List Attribute)}
      (hr : decodeFields.run m = (.ok r, u)) (ha : AttributesRead u (result, v)) :
      RequestRead m (result.map fun attributes => { r with attributes }, v)

/-- **Reading a request ends**, with the outcome of `decode`. -/
theorem requestRead_iff {m : Buffer} {out : Except PacketError ForwardRequest × Buffer} :
    RequestRead m out ↔ decode.run m = out := by
  rw [decode_eq]
  constructor
  · intro h
    cases h with
    | broken hr => exact run_bind_of_error hr
    | fields hr ha =>
      rw [run_bind_of_ok hr, run_bind_of_ok (run_get _), run_bind_pure,
        (attributesRead_iff (Nat.le_refl _)).1 ha]
  · rintro rfl
    rcases hr : decodeFields.run m with ⟨result, u⟩
    cases result with
    | error e =>
      rw [run_bind_of_error hr]
      exact .broken hr
    | ok r =>
      rw [run_bind_of_ok hr, run_bind_of_ok (run_get u), run_bind_pure]
      exact .fields hr (attributesRead _ (Nat.le_refl _))

/-- More turns than there are bytes left change nothing. -/
theorem run_decode {k : Nat} {m : Buffer} (hk : m.remaining ≤ k) :
    decode.run m = (decodeWith k).run m := by
  rw [decode_eq]
  unfold decodeWith
  rcases hr : decodeFields.run m with ⟨result, u⟩
  cases result with
  | error e => rw [run_bind_of_error hr, run_bind_of_error hr]
  | ok r =>
    have hp : Perusal False decodeFields := perusal_decodeFields
    have hu := hp.ahead m
    rw [hr] at hu
    have hattributes := (attributesRead_iff (Nat.le_trans hu.remaining_le hk)).1
      (attributesRead _ (Nat.le_refl u.remaining))
    rw [run_bind_of_ok hr, run_bind_of_ok hr, run_bind_of_ok (run_get u), run_bind_pure,
      run_bind_pure, hattributes]

end ForwardRequest

end AjpGateway.Packet
