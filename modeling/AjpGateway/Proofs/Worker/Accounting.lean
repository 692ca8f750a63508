import AjpGateway.Proofs.Worker.Body

/-!
# Accounting for a body

While a request is served, its first piece may be asked for again and again, and further pieces of
any size in between.  Whatever the reads of the client bring, short ones and early ends included,
what was read so far and what is yet to be read make up the declared length.  So nothing is read
past the body that the request declared, where the next request on the connection may begin.

    call.run.run j = (.ok bytes, k) → Took j bytes call k                            (took_of_run)
    Calls j takes k → j.Spends (pieces j.tx.first.isSome takes).flatten k           (Calls.spends)
-/

namespace AjpGateway

namespace Channel

variable {c c' : Channel}

/-! ## Any client -/

/-- What reads with these rooms bring, one after another. -/
def answers (c : Channel) : (rooms : List Nat) → List (Except Fault Bytes)
  | [] => []
  | room :: rest => (c.read room).1 :: (c.read room).2.answers rest

/-- The plan of a client that gives these answers. -/
def scripted (script : List (Nat × Except Fault Bytes)) : ChannelPlan where
  read n :=
    match script[n]? with
    | some (_, r) => r.map fun bytes => some bytes.length
    | none => .ok none
  headers _ := .ok ()
  body _ := .ok ()

/-- The bytes that answers bring. -/
def brought (script : List (Nat × Except Fault Bytes)) : Bytes :=
  script.flatMap fun e => e.2.toOption.getD []

/-- By induction on the answers yet to come. -/
theorem answers_scripted {earlier rest : List (Nat × Except Fault Bytes)}
    (h : ∀ room bytes, (room, .ok bytes) ∈ rest → bytes.length ≤ room)
    (hplan : c.plan = scripted (earlier ++ rest)) (hreads : c.reads = earlier.length)
    (hunread : c.unread = brought rest) :
    c.answers (rest.map Prod.fst) = rest.map Prod.snd := by
  induction rest generalizing earlier c with
  | nil => rfl
  | cons e rest ih =>
    obtain ⟨room, r⟩ := e
    have hanswer : c.plan.read c.reads = r.map fun bytes => some bytes.length := by
      rw [hplan, hreads, scripted]
      simp
    have hplan' : c.plan = scripted ((earlier ++ [(room, r)]) ++ rest) := by
      rw [hplan, List.append_assoc]
      rfl
    have hreads' : c.reads + 1 = (earlier ++ [(room, r)]).length := by
      rw [hreads, List.length_append]
      rfl
    have hrest := fun room bytes hmem => h room bytes (List.mem_cons_of_mem _ hmem)
    show (c.read room).1 :: (c.read room).2.answers (rest.map Prod.fst) = r :: rest.map Prod.snd
    unfold read
    dsimp only
    rw [hanswer]
    cases r with
    | error f =>
      refine congrArg _ (ih hrest hplan' hreads' ?_)
      exact hunread
    | ok bytes =>
      have hfits := h room bytes List.mem_cons_self
      have hunread : c.unread = bytes ++ brought rest := hunread
      have hmin : min room bytes.length = bytes.length := by omega
      have htake : c.unread.take (min room ((some bytes.length).getD room)) = bytes := by
        rw [hunread, Option.getD_some, hmin, List.take_left]
      dsimp only [Except.map]
      rw [htake]
      refine congrArg _ (ih hrest hplan' hreads' ?_)
      show c.unread.drop bytes.length = brought rest
      rw [hunread, List.drop_left]

/-- Whatever a client answers, so long as it keeps to the room, some channel answers so. -/
theorem exists_answers (script : List (Nat × Except Fault Bytes))
    (h : ∀ room bytes, (room, .ok bytes) ∈ script → bytes.length ≤ room) :
    ∃ c : Channel, c.answers (script.map Prod.fst) = script.map Prod.snd := by
  have hplan : scripted script = scripted ([] ++ script) := rfl
  exact ⟨{ plan := scripted script, unread := brought script }, answers_scripted h hplan rfl rfl⟩

/-! ## Failing reads -/

/-- Reads on end fail with a read that failed. -/
theorem error_of_fill {room : Nat} {f : Fault} (h : c.fill room = (.error f, c')) :
    ∃ n, c.reads ≤ n ∧ n < c'.reads ∧ c.plan.read n = .error f := by
  fun_induction fill c room with
  | case1 c room hroom f' c₁ hread =>
    cases h
    unfold read at hread
    dsimp only at hread
    cases hr : c.plan.read c.reads with
    | ok limit? =>
      rw [hr] at hread
      cases hread
    | error f' =>
      rw [hr] at hread
      cases hread
      exact ⟨c.reads, Nat.le_refl _, Nat.lt_succ_self _, hr⟩
  | case2 c room hroom c₁ hread => cases h
  | case3 c room hroom b piece c₁ hread rest c₂ hf ih =>
    have hplan : c₁.plan = c.plan := by
      have h := c.sameAnswer_read room
      rw [hread] at h
      exact h.plan
    have hreads : c₁.reads = c.reads + 1 := by
      have h : (c.read room).2.reads = c.reads + 1 := by
        unfold read
        dsimp only
        cases c.plan.read c.reads <;> rfl
      rwa [hread] at h
    cases rest with
    | ok rest => cases h
    | error f' =>
      cases h
      obtain ⟨n, hle, hlt, hn⟩ := ih hf
      exact ⟨n, by omega, hlt, by rwa [← hplan]⟩
  | case4 c room hroom => cases h

end Channel

/-! ## Calls for the body -/

/-- A call for a piece of the body: the first one, or the next one of at most so many bytes. -/
inductive BodyCall where
  | first
  | next (room : Nat)

namespace BodyCall

def run : BodyCall → Serving Bytes
  | first => Job.firstPiece
  | next room => Job.nextPiece room

/-- The most bytes that a call gives. -/
def most : BodyCall → Nat
  | first => Transaction.keptSize
  | next room => room

end BodyCall

/-- The bytes were read from the client, and are no longer among those yet to be read. -/
structure Job.Spends (j : Job) (bytes : Bytes) (k : Job) : Prop where
  unread : j.tx.channel.unread = bytes ++ k.tx.channel.unread
  remaining : bytes.length + k.tx.remaining = j.tx.remaining
  plan : k.tx.channel.plan = j.tx.channel.plan

namespace Job

variable {j k l : Job}

theorem Spends.refl (j : Job) : j.Spends [] j := ⟨rfl, Nat.zero_add _, rfl⟩

theorem Spends.trans {bytes more : Bytes} (h : j.Spends bytes l) (h' : l.Spends more k) :
    j.Spends (bytes ++ more) k where
  unread := by rw [h.unread, h'.unread, List.append_assoc]
  remaining := by
    have hl := h.remaining
    have hk := h'.remaining
    rw [List.length_append]
    omega
  plan := h'.plan.trans h.plan

theorem spends_of_pull {demanded : Bool} {most : Nat} {bytes : Bytes}
    (h : (pull demanded most).run j = (.ok bytes, k)) :
    j.Spends bytes k ∧ bytes.length ≤ most ∧ k.tx.first = j.tx.first := by
  obtain ⟨hlen, hsame, -⟩ := of_pull h
  obtain ⟨channel, hf, rfl⟩ := fill_of_pull h
  obtain ⟨hroom, hunread⟩ := Channel.of_fill hf
  refine ⟨⟨hunread, ?_, hsame.plan⟩, hlen, rfl⟩
  show bytes.length + (j.tx.remaining - bytes.length) = j.tx.remaining
  omega

theorem error_of_pull {demanded : Bool} {most : Nat} {e : ServiceError}
    (h : (pull demanded most).run j = (.error e, k)) :
    ∃ f n, e = .client f ∧ j.tx.channel.plan.read n = .error f ∧
      j.tx.channel.reads ≤ n ∧ n < k.tx.channel.reads := by
  rcases hf : j.tx.channel.fill (min j.tx.remaining most) with ⟨r, channel⟩
  cases r with
  | ok piece =>
    rw [run_pull hf] at h
    cases h
  | error f =>
    rw [run_pull_of_error hf] at h
    cases h
    obtain ⟨n, hle, hlt, hn⟩ := Channel.error_of_fill hf
    exact ⟨f, n, rfl, hn, hle, hlt⟩

end Job

namespace BodyCall

variable {call : BodyCall} {j k : Job} {bytes : Bytes}

/-- What a call that returned has done. -/
inductive Took (j : Job) (bytes : Bytes) : BodyCall → Job → Prop where
  /-- the first piece was known, and is given without a read -/
  | again (h : j.tx.first = some bytes) : Took j bytes first j
  | first {k : Job} (hnone : j.tx.first = none) (hfirst : k.tx.first = some bytes)
      (hlen : bytes.length ≤ Transaction.keptSize) (hspends : j.Spends bytes k) :
      Took j bytes first k
  | next {k : Job} {room : Nat} (hfirst : k.tx.first = j.tx.first) (hlen : bytes.length ≤ room)
      (hspends : j.Spends bytes k) : Took j bytes (next room) k

theorem took_of_run (h : call.run.run j = (.ok bytes, k)) : Took j bytes call k := by
  cases call with
  | first =>
    have h : Job.firstPiece.run j = (.ok bytes, k) := h
    cases hfirst : j.tx.first with
    | some piece =>
      rw [Job.run_firstPiece_of_first hfirst] at h
      cases h
      exact .again hfirst
    | none =>
      unfold Job.firstPiece at h
      rw [run_bind_of_ok (run_get j), hfirst] at h
      obtain ⟨piece, l, hpull, hrest⟩ := run_bind_eq_ok_iff.1 h
      rw [run_bind_of_ok (run_modify ..), run_pure] at hrest
      cases hrest
      obtain ⟨⟨hunread, hremaining, hplan⟩, hlen, -⟩ := Job.spends_of_pull hpull
      exact .first hfirst rfl hlen ⟨hunread, hremaining, hplan⟩
  | next room =>
    have h : (Job.nextPiece room).run j = (.ok bytes, k) := h
    unfold Job.nextPiece at h
    rw [run_bind_of_ok (run_modify ..)] at h
    obtain ⟨⟨hunread, hremaining, hplan⟩, hlen, hfirst⟩ := Job.spends_of_pull h
    exact .next hfirst hlen ⟨hunread, hremaining, hplan⟩

/-- A call fails only with a read of the client that fails. -/
theorem error_of_run {e : ServiceError} (h : call.run.run j = (.error e, k)) :
    ∃ f n, e = .client f ∧ j.tx.channel.plan.read n = .error f ∧
      j.tx.channel.reads ≤ n ∧ n < k.tx.channel.reads := by
  cases call with
  | first =>
    have h : Job.firstPiece.run j = (.error e, k) := h
    unfold Job.firstPiece at h
    rw [run_bind_of_ok (run_get j)] at h
    cases hfirst : j.tx.first with
    | some piece =>
      rw [hfirst] at h
      cases h
    | none =>
      rw [hfirst] at h
      rcases run_bind_eq_error_iff.1 h with hpull | ⟨piece, l, -, hrest⟩
      · exact Job.error_of_pull hpull
      · rw [run_bind_of_ok (run_modify ..), run_pure] at hrest
        cases hrest
  | next room =>
    have h : (Job.nextPiece room).run j = (.error e, k) := h
    unfold Job.nextPiece at h
    rw [run_bind_of_ok (run_modify ..)] at h
    obtain ⟨f, n, rfl, hn, hle, hlt⟩ := Job.error_of_pull h
    exact ⟨f, n, rfl, hn, hle, hlt⟩

end BodyCall

/-! ## Runs of calls -/

/-- Calls for the body that returned one after another, each with the bytes that it gave. -/
inductive Calls : Job → List (BodyCall × Bytes) → Job → Prop where
  | nil (j : Job) : Calls j [] j
  | cons {j k l : Job} {call : BodyCall} {bytes : Bytes} {takes : List (BodyCall × Bytes)}
      (hcall : call.run.run j = (.ok bytes, l)) (h : Calls l takes k) :
      Calls j ((call, bytes) :: takes) k

/-- The pieces that calls gave.  The first one counts once, and not at all if it was `known`. -/
def pieces (known : Bool) : List (BodyCall × Bytes) → List Bytes
  | [] => []
  | (.first, bytes) :: rest => if known then pieces true rest else bytes :: pieces true rest
  | (.next _, bytes) :: rest => bytes :: pieces known rest

namespace Calls

variable {j k : Job} {takes : List (BodyCall × Bytes)}

/-- By induction on the calls: the pieces are what was read, in turn. -/
theorem spends (h : Calls j takes k) : j.Spends (pieces j.tx.first.isSome takes).flatten k := by
  induction h with
  | nil j => exact .refl j
  | @cons j k l call bytes takes hcall _ ih =>
    cases BodyCall.took_of_run hcall with
    | again hfirst =>
      rw [hfirst] at ih ⊢
      exact ih
    | first hnone hfirst _ hspends =>
      rw [hfirst] at ih
      rw [hnone]
      exact hspends.trans ih
    | next hfirst _ hspends =>
      rw [hfirst] at ih
      exact hspends.trans ih

/-- A first piece that is known stays. -/
theorem first_eq {bytes : Bytes} (h : Calls j takes k) (hfirst : j.tx.first = some bytes) :
    k.tx.first = some bytes := by
  induction h with
  | nil j => exact hfirst
  | cons hcall _ ih =>
    cases BodyCall.took_of_run hcall with
    | again _ => exact ih hfirst
    | first hnone _ _ _ =>
      rw [hfirst] at hnone
      cases hnone
    | next hsame _ _ => exact ih (hsame.trans hfirst)

/-- What was given as the first piece is kept. -/
theorem first_of_mem {bytes : Bytes} (h : Calls j takes k) (hmem : (.first, bytes) ∈ takes) :
    k.tx.first = some bytes := by
  induction h with
  | nil j => cases hmem
  | cons hcall hrest ih =>
    rcases List.mem_cons.1 hmem with heq | hmem
    · cases heq
      cases BodyCall.took_of_run hcall with
      | again hfirst => exact hrest.first_eq hfirst
      | first _ hfirst _ _ => exact hrest.first_eq hfirst
    · exact ih hmem

/-- No call gives more than it may, if no more than that was kept before. -/
theorem length_le (h : Calls j takes k)
    (hj : ∀ bytes, j.tx.first = some bytes → bytes.length ≤ Transaction.keptSize) :
    ∀ take ∈ takes, take.2.length ≤ take.1.most := by
  induction h with
  | nil j => exact List.forall_mem_nil _
  | @cons j k l call bytes takes hcall _ ih =>
    cases BodyCall.took_of_run hcall with
    | again hfirst => exact List.forall_mem_cons.2 ⟨hj bytes hfirst, ih hj⟩
    | first _ hfirst hlen _ =>
      refine List.forall_mem_cons.2 ⟨hlen, ih fun piece hpiece => ?_⟩
      rw [hfirst] at hpiece
      cases hpiece
      exact hlen
    | next hsame hlen _ =>
      refine List.forall_mem_cons.2 ⟨hlen, ih fun piece hpiece => hj piece ?_⟩
      rwa [← hsame]

/-- By induction on the calls: they return, up to one that fails with a read that fails. -/
theorem returns_or_fails (j : Job) (calls : List BodyCall) :
    (∃ takes k, takes.map Prod.fst = calls ∧ Calls j takes k) ∨
    ∃ takes call later k f l n, calls = takes.map Prod.fst ++ call :: later ∧ Calls j takes k ∧
      call.run.run k = (.error (.client f), l) ∧ j.tx.channel.plan.read n = .error f ∧
      k.tx.channel.reads ≤ n ∧ n < l.tx.channel.reads := by
  induction calls generalizing j with
  | nil => exact .inl ⟨[], j, rfl, .nil j⟩
  | cons call rest ih =>
    rcases hrun : call.run.run j with ⟨r, l⟩
    cases r with
    | error e =>
      obtain ⟨f, n, rfl, hn, hle, hlt⟩ := BodyCall.error_of_run hrun
      exact .inr ⟨[], call, rest, j, f, l, n, rfl, .nil j, hrun, hn, hle, hlt⟩
    | ok bytes =>
      rcases ih l with ⟨takes, k, rfl, h⟩ |
        ⟨takes, call', later, k, f, l', n, rfl, h, hfail, hn, hreads⟩
      · exact .inl ⟨(call, bytes) :: takes, k, rfl, .cons hrun h⟩
      · have hplan : l.tx.channel.plan = j.tx.channel.plan :=
          (Calls.cons hrun (.nil l)).spends.plan
        rw [hplan] at hn
        exact .inr ⟨(call, bytes) :: takes, call', later, k, f, l', n, rfl, .cons hrun h, hfail,
          hn, hreads⟩

end Calls

/-! ## The account -/

/-- What holds after calls for the body of a request whose client had a channel at the start. -/
structure Calls.Accounted (declared : Nat) (channel : Channel) (takes : List (BodyCall × Bytes))
    (k : Job) : Prop where
  /-- the pieces are what was read, in turn -/
  read : channel.unread = (pieces false takes).flatten ++ k.tx.channel.unread
  balance : (pieces false takes).flatten.length + k.tx.remaining = declared
  fits : ∀ take ∈ takes, take.2.length ≤ take.1.most
  /-- the first piece is given again as it was, and nothing is read -/
  again : ∀ bytes, (.first, bytes) ∈ takes → Job.firstPiece.run k = (.ok bytes, k)

/-- **No more is read than was declared.**  Calls for the body return, up to one for which a read of
the client fails; and after any that returned, the bytes that were read and those yet to be read
make up the declared length, where a request that declares none has length zero.  The channel may be
that of any client that keeps to the room it is given. -/
theorem accounted_of_calls (request : ClientRequest) (channel : Channel) (world : World) :
    (∀ calls, (∃ takes k, takes.map Prod.fst = calls ∧
        Calls { tx := .begin request channel, world } takes k) ∨
      ∃ takes call later k f l n, calls = takes.map Prod.fst ++ call :: later ∧
        Calls { tx := .begin request channel, world } takes k ∧
        call.run.run k = (.error (.client f), l) ∧ channel.plan.read n = .error f ∧
        k.tx.channel.reads ≤ n ∧ n < l.tx.channel.reads) ∧
    (∀ takes k, Calls { tx := .begin request channel, world } takes k →
      Calls.Accounted (request.contentLength?.getD 0) channel takes k) ∧
    ∀ script : List (Nat × Except Fault Bytes),
      (∀ room bytes, (room, .ok bytes) ∈ script → bytes.length ≤ room) →
      ∃ c : Channel, c.answers (script.map Prod.fst) = script.map Prod.snd := by
  refine ⟨fun calls => Calls.returns_or_fails _ calls, fun takes k h => ?_,
    Channel.exists_answers⟩
  obtain ⟨hread, hbalance, -⟩ := h.spends
  exact {
    read := hread
    balance := hbalance
    fits := h.length_le nofun
    again := fun bytes hmem => Job.run_firstPiece_of_first (h.first_of_mem hmem) }

end AjpGateway
