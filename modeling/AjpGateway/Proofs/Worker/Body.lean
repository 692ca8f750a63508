import AjpGateway.Proofs.Packet.Piece
import AjpGateway.Worker.Transaction

/-!
# The body of a request

A client that delivers the body it declared gives every piece that is asked for, in whatever reads,
until the body is exhausted.  The first piece is kept, so before each attempt the body stands at its
beginning, or behind a first piece that is known.

    j.tx.Owes rest → (pull demanded most).run j = (.ok (rest.take most), k) ∧
      k.tx.Owes (rest.drop most)                                              (pull_of_owes)
    j.tx.Awaits body → firstPiece.run j = (.ok (body.take keptSize), k) ∧
      k.tx.Owes (body.drop keptSize)                                          (firstPiece_of_awaits)
-/

namespace AjpGateway

/-! ## Reads of the client -/

/-- No read fails, and each brings a byte if there is one. -/
def ChannelPlan.Delivers (plan : ChannelPlan) : Prop :=
  ∀ n, ∃ limit?, plan.read n = .ok limit? ∧ limit? ≠ some 0

namespace Channel

/-- What reading leaves as it is: all but the bytes and their counts. -/
def SameAnswer (c c' : Channel) : Prop :=
  ∃ unread consumed reads, c' = { c with unread, consumed, reads }

theorem SameAnswer.refl (c : Channel) : c.SameAnswer c := ⟨_, _, _, rfl⟩

theorem SameAnswer.trans {c d e : Channel} (hc : c.SameAnswer d) (hd : d.SameAnswer e) :
    c.SameAnswer e := by
  obtain ⟨_, _, _, rfl⟩ := hc
  obtain ⟨u, n, k, rfl⟩ := hd
  exact ⟨u, n, k, rfl⟩

theorem SameAnswer.plan {c c' : Channel} (h : c.SameAnswer c') : c'.plan = c.plan := by
  obtain ⟨_, _, _, rfl⟩ := h
  rfl

theorem sameAnswer_read (c : Channel) (room : Nat) : c.SameAnswer (c.read room).2 := by
  unfold read
  dsimp only
  cases c.plan.read c.reads with
  | error f => exact ⟨_, _, _, rfl⟩
  | ok limit? => exact ⟨_, _, _, rfl⟩

/-- A read takes the next bytes, no more than there is room for. -/
theorem of_read {c c' : Channel} {room : Nat} {bytes : Bytes}
    (h : c.read room = (.ok bytes, c')) :
    bytes.length ≤ room ∧ c.unread = bytes ++ c'.unread := by
  unfold read at h
  dsimp only at h
  cases hr : c.plan.read c.reads with
  | error f =>
    rw [hr] at h
    cases h
  | ok limit? =>
    rw [hr] at h
    cases h
    refine ⟨Nat.le_trans (List.length_take_le _ _) (Nat.min_le_left _ _), ?_⟩
    show _ = _ ++ c.unread.drop (c.unread.take _).length
    rw [List.length_take, List.take_eq_take_min, List.take_append_drop]

theorem sameAnswer_fill (c : Channel) (room : Nat) : c.SameAnswer (c.fill room).2 := by
  fun_induction fill c room with
  | case1 c room hroom f c₁ hr =>
    have h := c.sameAnswer_read room
    rwa [hr] at h
  | case2 c room hroom c₁ hr =>
    have h := c.sameAnswer_read room
    rwa [hr] at h
  | case3 c room hroom b bytes c₁ hr rest c₂ hf ih =>
    have h := c.sameAnswer_read room
    rw [hr] at h
    rw [hf] at ih
    exact h.trans ih
  | case4 c room hroom => exact SameAnswer.refl c

/-- Reads on end take the next bytes too. -/
theorem of_fill {c c' : Channel} {room : Nat} {bytes : Bytes} (h : c.fill room = (.ok bytes, c')) :
    bytes.length ≤ room ∧ c.unread = bytes ++ c'.unread := by
  fun_induction fill c room generalizing bytes with
  | case1 c room hroom f c₁ hr => cases h
  | case2 c room hroom c₁ hr =>
    cases h
    exact of_read hr
  | case3 c room hroom b piece c₁ hr rest c₂ hf ih =>
    obtain ⟨hl, hu⟩ := of_read hr
    cases rest with
    | error f => cases h
    | ok rest =>
      cases h
      obtain ⟨hlrest, hurest⟩ := ih hf
      refine ⟨?_, by rw [hu, hurest, List.append_assoc]⟩
      rw [List.length_append]
      omega
  | case4 c room hroom =>
    cases h
    exact ⟨Nat.zero_le _, rfl⟩

/-- Whether or not it fails, a read counts the bytes that it takes. -/
theorem consumed_read (c : Channel) (room : Nat) :
    ∃ bytes, c.unread = bytes ++ (c.read room).2.unread ∧
      (c.read room).2.consumed = c.consumed + bytes.length := by
  rcases hr : c.read room with ⟨r, c'⟩
  cases r with
  | error f =>
    unfold read at hr
    dsimp only at hr
    cases hp : c.plan.read c.reads with
    | error f' =>
      rw [hp] at hr
      cases hr
      exact ⟨[], rfl, rfl⟩
    | ok limit? =>
      rw [hp] at hr
      cases hr
  | ok bytes =>
    refine ⟨bytes, (of_read hr).2, ?_⟩
    unfold read at hr
    dsimp only at hr
    cases hp : c.plan.read c.reads with
    | error f =>
      rw [hp] at hr
      cases hr
    | ok limit? =>
      rw [hp] at hr
      cases hr
      rfl

theorem consumed_fill (c : Channel) (room : Nat) :
    ∃ bytes, c.unread = bytes ++ (c.fill room).2.unread ∧
      (c.fill room).2.consumed = c.consumed + bytes.length := by
  fun_induction fill c room with
  | case1 c room hroom f c₁ hr =>
    have h := c.consumed_read room
    rwa [hr] at h
  | case2 c room hroom c₁ hr =>
    have h := c.consumed_read room
    rwa [hr] at h
  | case3 c room hroom b piece c₁ hr rest c₂ hf ih =>
    obtain ⟨bytes, hunread, hconsumed⟩ := c.consumed_read room
    rw [hr] at hunread hconsumed
    rw [hf] at ih
    obtain ⟨more, hmore, hconsumed'⟩ := ih
    refine ⟨bytes ++ more, ?_, ?_⟩
    · rw [hunread, hmore, List.append_assoc]
    · rw [hconsumed', hconsumed, List.length_append, Nat.add_assoc]
  | case4 c room hroom => exact ⟨[], rfl, rfl⟩

/-- What was read since is what is no longer there. -/
theorem unread_eq_readSince_append (c : Channel) (room : Nat) :
    c.unread = (c.fill room).2.readSince c ++ (c.fill room).2.unread := by
  obtain ⟨bytes, hunread, hconsumed⟩ := c.consumed_fill room
  have htaken : c.unread.take bytes.length = bytes := by rw [hunread, List.take_left]
  unfold readSince
  rw [hconsumed, Nat.add_sub_cancel_left, htaken]
  exact hunread

theorem read_ok {c : Channel} (hc : ∀ n, ∃ limit?, c.plan.read n = .ok limit?) (room : Nat) :
    ∃ bytes, (c.read room).1 = .ok bytes := by
  obtain ⟨limit?, hl⟩ := hc c.reads
  unfold read
  dsimp only
  rw [hl]
  exact ⟨_, rfl⟩

theorem fill_ok {c : Channel} (hc : ∀ n, ∃ limit?, c.plan.read n = .ok limit?) (room : Nat) :
    ∃ bytes, (c.fill room).1 = .ok bytes := by
  fun_induction fill c room with
  | case1 c room hroom f c₁ hr =>
    obtain ⟨bytes, h⟩ := read_ok hc room
    rw [hr] at h
    cases h
  | case2 c room hroom c₁ hr => exact ⟨[], rfl⟩
  | case3 c room hroom b piece c₁ hr rest c₂ hf ih =>
    have hplan : c₁.plan = c.plan := by
      have h := c.sameAnswer_read room
      rw [hr] at h
      exact h.plan
    obtain ⟨more, hmore⟩ := ih (by rwa [hplan])
    rw [hf] at hmore
    obtain rfl : rest = .ok more := hmore
    exact ⟨_, rfl⟩
  | case4 c room hroom => exact ⟨[], rfl⟩

/-- A read that brings nothing says that there is nothing. -/
theorem unread_of_read {c c' : Channel} (hc : c.plan.Delivers) {room : Nat} (hroom : 0 < room)
    (h : c.read room = (.ok [], c')) : c.unread = [] := by
  obtain ⟨limit?, hl, hz⟩ := hc c.reads
  unfold read at h
  dsimp only at h
  rw [hl] at h
  have htake : c.unread.take (min room (limit?.getD room)) = [] := Except.ok.inj (Prod.mk.inj h).1
  have hlimit : min room (limit?.getD room) ≠ 0 := by
    cases limit? with
    | none => simpa using Nat.pos_iff_ne_zero.1 hroom
    | some n =>
      have hn : n ≠ 0 := fun h => hz (by rw [h])
      show min room n ≠ 0
      omega
  rcases List.take_eq_nil_iff.1 htake with h | h
  · exact absurd h hlimit
  · exact h

theorem length_fill {c c' : Channel} (hc : c.plan.Delivers) {room : Nat} {bytes : Bytes}
    (hr : room ≤ c.unread.length) (h : c.fill room = (.ok bytes, c')) : bytes.length = room := by
  fun_induction fill c room generalizing bytes with
  | case1 c room hroom f c₁ hread => cases h
  | case2 c room hroom c₁ hread =>
    rw [unread_of_read hc hroom hread] at hr
    exact absurd hroom (Nat.not_lt.2 hr)
  | case3 c room hroom b piece c₁ hread rest c₂ hf ih =>
    obtain ⟨hl, hu⟩ := of_read hread
    have hplan : c₁.plan = c.plan := by
      have h := c.sameAnswer_read room
      rw [hread] at h
      exact h.plan
    rw [hu, List.length_append] at hr
    cases rest with
    | error f => cases h
    | ok rest =>
      cases h
      have hrest := ih (by rwa [hplan]) (by omega) hf
      rw [List.length_append, hrest]
      omega
  | case4 c room hroom =>
    cases h
    exact (Nat.eq_zero_of_not_pos hroom).symm

/-- A client that delivers fills the room, if it has as many bytes. -/
theorem fill_of_delivers {c : Channel} (hc : c.plan.Delivers) {room : Nat}
    (hr : room ≤ c.unread.length) :
    ∃ c', c.fill room = (.ok (c.unread.take room), c') ∧ c'.unread = c.unread.drop room ∧
      c.SameAnswer c' := by
  obtain ⟨bytes, hok⟩ := fill_ok (fun n => (hc n).imp fun _ h => h.1) room
  have hsame := c.sameAnswer_fill room
  rcases hf : c.fill room with ⟨r, c'⟩
  rw [hf] at hok hsame
  obtain rfl : r = .ok bytes := hok
  obtain ⟨-, hu⟩ := of_fill hf
  have hl := length_fill hc hr hf
  refine ⟨c', ?_, ?_, hsame⟩
  · rw [hu, List.take_left' hl]
  · rw [hu, List.drop_left' hl]

/-- Reads on end give nothing exactly if the first one does. -/
theorem fill_eq_nil_iff (c : Channel) {room : Nat} (h : 0 < room) :
    (c.fill room).1 = .ok [] ↔ (c.read room).1 = .ok [] := by
  rw [fill, dif_pos h]
  rcases c.read room with ⟨r, c'⟩
  match r with
  | .error f => exact ⟨nofun, nofun⟩
  | .ok [] => exact Iff.rfl
  | .ok (b :: bytes) =>
    dsimp only
    rcases c'.fill (room - (b :: bytes).length) with ⟨r, c''⟩
    cases r with
    | error f => exact ⟨nofun, nofun⟩
    | ok rest => exact ⟨nofun, nofun⟩

end Channel

/-! ## Where the body stands -/

namespace Transaction

/-- The rest of the declared body is there to be read. -/
structure Owes (tx : Transaction) (rest : Bytes) : Prop where
  delivers : tx.channel.plan.Delivers
  remaining : tx.remaining = rest.length
  unread : ∃ more, tx.channel.unread = rest ++ more

/-- Before an attempt the body stands at its beginning, or behind its first piece, which is kept. -/
def Awaits (tx : Transaction) (body : Bytes) : Prop :=
  tx.first = none ∧ tx.Owes body ∨
    tx.first = some (body.take keptSize) ∧ tx.Owes (body.drop keptSize)

/-- The first piece of the body, as an attempt gets it. -/
def offers (tx : Transaction) : Except Fault Bytes :=
  match tx.first with
  | some bytes => .ok bytes
  | none => (tx.channel.fill (min tx.remaining keptSize)).1

theorem offers_of_first {tx : Transaction} {first : Bytes} (h : tx.first = some first) :
    tx.offers = .ok first := by
  unfold offers
  rw [h]

theorem awaits_begin {request : ClientRequest} {channel : Channel} {body more : Bytes}
    (hplan : channel.plan.Delivers) (hbody : channel.unread = body ++ more)
    (hlen : request.contentLength?.getD 0 = body.length) : (begin request channel).Awaits body :=
  .inl ⟨rfl, hplan, hlen, more, hbody⟩

end Transaction

namespace Job

open Transaction

theorem run_pull {j : Job} {demanded : Bool} {most : Nat} {bytes : Bytes} {channel : Channel}
    (h : j.tx.channel.fill (min j.tx.remaining most) = (.ok bytes, channel)) :
    (pull demanded most).run j = (.ok bytes, {
      tx := { j.tx with channel, remaining := j.tx.remaining - bytes.length }
      world := j.world.note (.read demanded bytes) }) := by
  show pull demanded most j = _
  unfold pull
  rw [h]

theorem run_pull_of_error {j : Job} {demanded : Bool} {most : Nat} {f : Fault} {channel : Channel}
    (h : j.tx.channel.fill (min j.tx.remaining most) = (.error f, channel)) :
    (pull demanded most).run j = (.error (.client f), {
      tx := { j.tx with channel }
      world := j.world.note (.read demanded (channel.readSince j.tx.channel)) }) := by
  show pull demanded most j = _
  unfold pull
  rw [h]

/-- A piece that was read is what the reads on end gave. -/
theorem fill_of_pull {j k : Job} {demanded : Bool} {most : Nat} {bytes : Bytes}
    (h : (pull demanded most).run j = (.ok bytes, k)) :
    ∃ channel, j.tx.channel.fill (min j.tx.remaining most) = (.ok bytes, channel) ∧ k = {
      tx := { j.tx with channel, remaining := j.tx.remaining - bytes.length }
      world := j.world.note (.read demanded bytes) } := by
  rcases hf : j.tx.channel.fill (min j.tx.remaining most) with ⟨r, channel⟩
  cases r with
  | error f =>
    rw [run_pull_of_error hf] at h
    cases h
  | ok piece =>
    rw [run_pull hf] at h
    cases h
    exact ⟨channel, rfl, rfl⟩

/-- Reading a piece brings no more than was asked for, and leaves the answer as it is. -/
theorem of_pull {j k : Job} {demanded : Bool} {most : Nat} {bytes : Bytes}
    (h : (pull demanded most).run j = (.ok bytes, k)) :
    bytes.length ≤ most ∧ j.tx.channel.SameAnswer k.tx.channel ∧
      k.world = j.world.note (.read demanded bytes) := by
  have hsame := j.tx.channel.sameAnswer_fill (min j.tx.remaining most)
  obtain ⟨channel, hf, rfl⟩ := fill_of_pull h
  rw [hf] at hsame
  exact ⟨Nat.le_trans (Channel.of_fill hf).1 (Nat.min_le_right ..), hsame, rfl⟩

/-- **Whatever comes of a read, it is noted**: the history shows the bytes that it took from the
client, and the job is as open as it was. -/
theorem noted_pull (demanded : Bool) (most : Nat) (j : Job) :
    ∃ bytes, ((pull demanded most).run j).2.world = j.world.note (.read demanded bytes) ∧
      j.tx.channel.unread = bytes ++ ((pull demanded most).run j).2.tx.channel.unread ∧
      ((pull demanded most).run j).2.tx.uncommitted = j.tx.uncommitted := by
  rcases hf : j.tx.channel.fill (min j.tx.remaining most) with ⟨r, channel⟩
  cases r with
  | error f =>
    have htaken := j.tx.channel.unread_eq_readSince_append (min j.tx.remaining most)
    rw [hf] at htaken
    rw [run_pull_of_error hf]
    exact ⟨_, rfl, htaken, rfl⟩
  | ok bytes =>
    rw [run_pull hf]
    exact ⟨bytes, rfl, (Channel.of_fill hf).2, rfl⟩

theorem pull_ok {j : Job} (hread : ∀ n, ∃ limit?, j.tx.channel.plan.read n = .ok limit?)
    (demanded : Bool) (most : Nat) : ∃ bytes k, (pull demanded most).run j = (.ok bytes, k) := by
  obtain ⟨bytes, hok⟩ := Channel.fill_ok hread (min j.tx.remaining most)
  rcases hf : j.tx.channel.fill (min j.tx.remaining most) with ⟨r, channel⟩
  rw [hf] at hok
  obtain rfl : r = .ok bytes := hok
  exact ⟨bytes, _, run_pull hf⟩

/-- A piece of the body that is there is read, and no more. -/
theorem pull_of_owes {j : Job} {rest : Bytes} (h : j.tx.Owes rest) (demanded : Bool) (most : Nat) :
    ∃ k, (pull demanded most).run j = (.ok (rest.take most), k) ∧ k.tx.Owes (rest.drop most) ∧
      k.tx.first = j.tx.first ∧ k.world = j.world.note (.read demanded (rest.take most)) := by
  obtain ⟨more, hmore⟩ := h.unread
  have hroom : min j.tx.remaining most ≤ j.tx.channel.unread.length := by
    rw [h.remaining, hmore, List.length_append]
    omega
  have hmin : min rest.length most = min most rest.length := Nat.min_comm ..
  have hle : min most rest.length ≤ rest.length := Nat.min_le_right ..
  obtain ⟨channel, hfill, hunread, hsame⟩ := Channel.fill_of_delivers h.delivers hroom
  have htake : j.tx.channel.unread.take (min j.tx.remaining most) = rest.take most := by
    rw [hmore, h.remaining, hmin, List.take_append_of_le_length hle, ← List.take_eq_take_min]
  have hdrop : j.tx.channel.unread.drop (min j.tx.remaining most) = rest.drop most ++ more := by
    rw [hmore, h.remaining, hmin, List.drop_append_of_le_length hle, ← List.drop_eq_drop_min]
  rw [htake] at hfill
  refine ⟨_, run_pull hfill, ⟨?_, ?_, more, ?_⟩, rfl, rfl⟩
  · show channel.plan.Delivers
    rw [hsame.plan]
    exact h.delivers
  · show j.tx.remaining - (rest.take most).length = (rest.drop most).length
    rw [h.remaining, List.length_take, List.length_drop]
    omega
  · exact hunread.trans hdrop

theorem firstPiece_of_awaits {j : Job} {body : Bytes} (h : j.tx.Awaits body) :
    ∃ k, firstPiece.run j = (.ok (body.take keptSize), k) ∧
      k.tx.first = some (body.take keptSize) ∧ k.tx.Owes (body.drop keptSize) ∧
      (k.world = j.world ∨ k.world = j.world.note (.read false (body.take keptSize))) := by
  unfold firstPiece
  rw [run_bind_of_ok (run_get j)]
  rcases h with ⟨hfirst, howes⟩ | ⟨hfirst, howes⟩
  · obtain ⟨k, hpull, howes, -, hworld⟩ := pull_of_owes howes false keptSize
    rw [hfirst]
    refine ⟨{ k with tx.first := some (body.take keptSize) }, ?_, rfl, ?_, .inr hworld⟩
    · rw [run_bind_of_ok hpull, run_bind_of_ok (run_modify ..), run_pure]
    · exact ⟨howes.delivers, howes.remaining, howes.unread⟩
  · rw [hfirst]
    exact ⟨j, rfl, hfirst, howes, .inl rfl⟩

/-- A first piece is no larger than what is kept. -/
theorem of_firstPiece {j k : Job} {piece : Bytes} (h : firstPiece.run j = (.ok piece, k)) :
    (∀ bytes, j.tx.first = some bytes → piece = bytes) ∧
      (j.tx.first = none → piece.length ≤ keptSize) ∧ j.tx.channel.SameAnswer k.tx.channel ∧
      (k.world = j.world ∨ k.world = j.world.note (.read false piece)) := by
  unfold firstPiece at h
  rw [run_bind_of_ok (run_get j)] at h
  cases hfirst : j.tx.first with
  | some bytes =>
    rw [hfirst] at h
    cases h
    exact ⟨fun _ h => Option.some.inj h, nofun, Channel.SameAnswer.refl _, .inl rfl⟩
  | none =>
    rw [hfirst] at h
    obtain ⟨bytes, l, hpull, hrest⟩ := run_bind_eq_ok_iff.1 h
    obtain ⟨hlen, hsame, hworld⟩ := of_pull hpull
    rw [run_bind_of_ok (run_modify ..), run_pure] at hrest
    cases hrest
    exact ⟨nofun, fun _ => hlen, hsame, .inr hworld⟩

theorem run_firstPiece_of_first {j : Job} {first : Bytes} (h : j.tx.first = some first) :
    firstPiece.run j = (.ok first, j) := by
  unfold firstPiece
  rw [run_bind_of_ok (run_get j), h]
  rfl

/-- The first piece is what the transaction offers, and then it is kept. -/
theorem firstPiece_cases (j : Job) :
    (∃ f k bytes, j.tx.offers = .error f ∧ firstPiece.run j = (.error (.client f), k) ∧
      k.world = j.world.note (.read false bytes)) ∨
    ∃ first k, j.tx.offers = .ok first ∧ firstPiece.run j = (.ok first, k) ∧
      k.tx.first = some first := by
  unfold firstPiece offers
  rw [run_bind_of_ok (run_get j)]
  cases hfirst : j.tx.first with
  | some bytes => exact .inr ⟨bytes, j, rfl, rfl, hfirst⟩
  | none =>
    rcases hf : j.tx.channel.fill (min j.tx.remaining keptSize) with ⟨r, channel⟩
    cases r with
    | error f => exact .inl ⟨f, _, _, rfl, run_bind_of_error (run_pull_of_error hf), rfl⟩
    | ok bytes =>
      obtain ⟨k, hpull⟩ : ∃ k, (pull false keptSize).run j = (.ok bytes, k) := ⟨_, run_pull hf⟩
      refine .inr ⟨bytes, { k with tx.first := some bytes }, rfl, ?_, rfl⟩
      rw [run_bind_of_ok hpull, run_bind_of_ok (run_modify ..), run_pure]

theorem firstPiece_ok {j : Job} (hread : ∀ n, ∃ limit?, j.tx.channel.plan.read n = .ok limit?) :
    ∃ piece k, firstPiece.run j = (.ok piece, k) := by
  unfold firstPiece
  rw [run_bind_of_ok (run_get j)]
  cases j.tx.first with
  | some bytes => exact ⟨bytes, j, rfl⟩
  | none =>
    obtain ⟨bytes, k, hpull⟩ := pull_ok hread false keptSize
    exact ⟨bytes, _, by rw [run_bind_of_ok hpull, run_bind_of_ok (run_modify ..), run_pure]⟩

theorem of_nextPiece {j k : Job} {most : Nat} {piece : Bytes}
    (h : (nextPiece most).run j = (.ok piece, k)) :
    piece.length ≤ most ∧ j.tx.channel.SameAnswer k.tx.channel ∧
      k.world = j.world.note (.read true piece) := by
  unfold nextPiece at h
  rw [run_bind_of_ok (run_modify ..)] at h
  obtain ⟨hlen, hsame, hworld⟩ := of_pull h
  exact ⟨hlen, hsame, hworld⟩

theorem nextPiece_ok {j : Job} (hread : ∀ n, ∃ limit?, j.tx.channel.plan.read n = .ok limit?)
    (most : Nat) : ∃ piece k, (nextPiece most).run j = (.ok piece, k) := by
  unfold nextPiece
  rw [run_bind_of_ok (run_modify ..)]
  exact pull_ok (j := { j with tx.streamed := true }) hread true most

theorem nextPiece_of_owes {j : Job} {rest : Bytes} (h : j.tx.Owes rest) (most : Nat) :
    ∃ k, (nextPiece most).run j = (.ok (rest.take most), k) ∧ k.tx.Owes (rest.drop most) ∧
      k.world = j.world.note (.read true (rest.take most)) := by
  have hset : ({ j with tx.streamed := true } : Job).tx.Owes rest :=
    ⟨h.delivers, h.remaining, h.unread⟩
  obtain ⟨k, hpull, howes, -, hworld⟩ := pull_of_owes hset true most
  refine ⟨k, ?_, howes, hworld⟩
  unfold nextPiece
  rw [run_bind_of_ok (run_modify ..), hpull]

end Job

end AjpGateway
