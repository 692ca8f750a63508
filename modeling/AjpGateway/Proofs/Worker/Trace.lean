import AjpGateway.Proofs.Worker.Body

/-!
# What a run of a job shows

A run adds events to the history.  Some of them commit the job: a part of the response was given
to the client, or more of the body was read for a container.  Others begin an attempt: they open a
connection, probe it or send the request.  A run is answered once if no attempt begins after a
commitment, and all that follows the last request sent is on the connection of that request.

    j.Goes x k → k.Goes y l → j.Goes (x ++ y) l                              (Goes.trans)
    no event of x commits → OneExchange y → OneExchange (x ++ y)             (OneExchange.append)
    OneExchange events → NoReplay events                                     (OneExchange.noReplay)
-/

namespace AjpGateway

namespace Event

/-- After such a step no further attempt is possible. -/
def commits : Event → Bool
  | headersWritten .. | bodyWritten _ | read true _ => true
  | _ => false

/-- A step that begins an attempt, or is the first to send the request. -/
def attempts : Event → Bool
  | opened .. | sent _ .probe _ | sent _ .forward _ => true
  | _ => false

def connection? : Event → Option Nat
  | opened c _ | sent c _ _ | received c _ => some c
  | _ => none

/-- A step of an exchange under way on a connection. -/
def StaysOn (c : Nat) (e : Event) : Prop :=
  e.attempts = false ∧ ∀ c', e.connection? = some c' → c' = c

/-- A step that only the client sees. -/
def IsLocal (e : Event) : Prop := e.attempts = false ∧ e.connection? = none

theorem IsLocal.staysOn {e : Event} (h : e.IsLocal) (c : Nat) : e.StaysOn c := by
  refine ⟨h.1, fun c' hc => ?_⟩
  rw [h.2] at hc
  cases hc

end Event

/-- No attempt begins once the job is committed. -/
def NoReplay (events : List Event) : Prop :=
  events.Pairwise fun e later => e.commits = true → later.attempts = false

/-- The answer comes from one exchange: nothing is committed up to the request that was sent last,
and from then on no attempt begins and no other connection is used.  A monitor answers without a
connection. -/
def OneExchange (events : List Event) : Prop :=
  ∃ earlier answer, events = earlier ++ answer ∧ (∀ e ∈ earlier, e.commits = false) ∧
    ((∀ e ∈ answer, e.IsLocal) ∨
      ∃ c bytes, earlier.getLast? = some (.sent c .forward bytes) ∧ ∀ e ∈ answer, e.StaysOn c)

theorem OneExchange.noReplay {events : List Event} (h : OneExchange events) : NoReplay events := by
  obtain ⟨earlier, answer, rfl, hearlier, hanswer⟩ := h
  have hquiet : ∀ e ∈ answer, e.attempts = false := by
    intro e he
    rcases hanswer with hlocal | ⟨c, bytes, -, hstays⟩
    · exact (hlocal e he).1
    · exact (hstays e he).1
  refine List.pairwise_append.2 ⟨?_, ?_, ?_⟩
  · refine List.pairwise_of_forall_mem_list fun e he later _ hc => ?_
    rw [hearlier e he] at hc
    cases hc
  · exact List.pairwise_of_forall_mem_list fun _ _ later hl _ => hquiet later hl
  · exact fun _ _ later hl _ => hquiet later hl

/-- Nothing was answered. -/
theorem OneExchange.of_uncommitted {events : List Event} (h : ∀ e ∈ events, e.commits = false) :
    OneExchange events :=
  ⟨events, [], by rw [List.append_nil], h, .inl (List.forall_mem_nil _)⟩

theorem OneExchange.of_local {events : List Event} (h : ∀ e ∈ events, e.IsLocal) :
    OneExchange events :=
  ⟨[], events, rfl, List.forall_mem_nil _, .inl h⟩

theorem OneExchange.of_forward {c : Nat} {bytes : Bytes} {events : List Event}
    (h : ∀ e ∈ events, e.StaysOn c) : OneExchange (.sent c .forward bytes :: events) := by
  refine ⟨[.sent c .forward bytes], events, rfl, ?_, .inr ⟨c, bytes, rfl, h⟩⟩
  intro e he
  rw [List.mem_singleton.1 he]
  rfl

/-- What committed nothing may come before. -/
theorem OneExchange.append {x y : List Event} (hx : ∀ e ∈ x, e.commits = false)
    (hy : OneExchange y) : OneExchange (x ++ y) := by
  obtain ⟨earlier, answer, rfl, hearlier, hanswer⟩ := hy
  refine ⟨x ++ earlier, answer, (List.append_assoc ..).symm, ?_, ?_⟩
  · intro e he
    rcases List.mem_append.1 he with he | he
    · exact hx e he
    · exact hearlier e he
  · rcases hanswer with hlocal | ⟨c, bytes, hlast, hstays⟩
    · exact .inl hlocal
    · refine .inr ⟨c, bytes, ?_, hstays⟩
      rw [List.getLast?_append, hlast]
      rfl

namespace Job

/-! ## Steps of a job -/

/-- A run from one job to another: what it adds to the history, and that a job left uncommitted
was so before, and no event committed it. -/
structure Goes (j : Job) (events : List Event) (k : Job) : Prop where
  history : k.world.history = events.reverse ++ j.world.history
  uncommitted : k.tx.uncommitted = true →
    j.tx.uncommitted = true ∧ ∀ e ∈ events, e.commits = false

theorem Goes.refl (j : Job) : j.Goes [] j :=
  ⟨rfl, fun h => ⟨h, List.forall_mem_nil _⟩⟩

theorem Goes.trans {j k l : Job} {x y : List Event} (hx : j.Goes x k) (hy : k.Goes y l) :
    j.Goes (x ++ y) l where
  history := by
    rw [hy.history, hx.history, List.reverse_append, List.append_assoc]
  uncommitted h := by
    obtain ⟨hk, hyc⟩ := hy.uncommitted h
    obtain ⟨hj, hxc⟩ := hx.uncommitted hk
    refine ⟨hj, fun e he => ?_⟩
    rcases List.mem_append.1 he with he | he
    · exact hxc e he
    · exact hyc e he

theorem Goes.silent {j k : Job} (hw : k.world.history = j.world.history)
    (ht : k.tx.uncommitted = j.tx.uncommitted) : j.Goes [] k :=
  ⟨hw, fun h => ⟨ht ▸ h, List.forall_mem_nil _⟩⟩

/-- A step that shows one event, and commits the job if the event does. -/
theorem Goes.single {j k : Job} {e : Event} (hw : k.world.history = e :: j.world.history)
    (ht : k.tx.uncommitted = true → j.tx.uncommitted = true ∧ e.commits = false) :
    j.Goes [e] k := by
  refine ⟨hw, fun h => ⟨(ht h).1, fun e' he => ?_⟩⟩
  rw [List.mem_singleton.1 he]
  exact (ht h).2

/-- A run that commits nothing, and leaves the job as open as it was. -/
def Prepares (j k : Job) : Prop :=
  ∃ events, j.Goes events k ∧ (∀ e ∈ events, e.commits = false) ∧
    k.tx.uncommitted = j.tx.uncommitted

/-- A step that shows nothing. -/
theorem prepares_silent {j k : Job} (hw : k.world.history = j.world.history)
    (ht : k.tx.uncommitted = j.tx.uncommitted) : Prepares j k :=
  ⟨[], Goes.silent hw ht, List.forall_mem_nil _, ht⟩

theorem Prepares.refl (j : Job) : Prepares j j := prepares_silent rfl rfl

theorem Prepares.trans {j k l : Job} (hj : Prepares j k) (hk : Prepares k l) : Prepares j l := by
  obtain ⟨x, hx, hxc, htx⟩ := hj
  obtain ⟨y, hy, hyc, hty⟩ := hk
  refine ⟨x ++ y, hx.trans hy, fun e hm => ?_, hty.trans htx⟩
  rcases List.mem_append.1 hm with hm | hm
  · exact hxc e hm
  · exact hyc e hm

theorem prepares_note {j k : Job} {e : Event} (hw : k.world.history = e :: j.world.history)
    (ht : k.tx = j.tx) (he : e.commits = false) : Prepares j k := by
  refine ⟨[e], Goes.single hw fun h => ⟨by rwa [ht] at h, he⟩, fun e' hm => ?_, by rw [ht]⟩
  rw [List.mem_singleton.1 hm]
  exact he

theorem prepares_now (j : Job) : Prepares j j.now.2 := prepares_silent rfl rfl

/-- Work on a job that only the client sees, and that fails for the client's sake only. -/
def Local {β : Type} (act : Serving β) : Prop :=
  ∀ j, (∃ events, j.Goes events (act.run j).2 ∧ ∀ e ∈ events, e.IsLocal) ∧
    ∀ e, (act.run j).1 = .error e → e.recoverable = false

section
variable {β γ : Type}

/-- A step that shows nothing and does not fail. -/
theorem local_of_silent {act : Serving β}
    (hact : ∀ j, ((act.run j).2.world.history = j.world.history ∧
      (act.run j).2.tx.uncommitted = j.tx.uncommitted) ∧ ∃ b, (act.run j).1 = .ok b) :
    Local act := by
  intro j
  obtain ⟨⟨hw, ht⟩, b, hb⟩ := hact j
  refine ⟨⟨[], Goes.silent hw ht, List.forall_mem_nil _⟩, fun e he => ?_⟩
  rw [hb] at he
  cases he

theorem Local.pure (b : β) : Local (pure b : Serving β) :=
  local_of_silent fun _ => ⟨⟨rfl, rfl⟩, b, rfl⟩

theorem Local.bind {act : Serving β} {f : β → Serving γ} (ha : Local act)
    (hf : ∀ b, Local (f b)) : Local (act >>= f) := by
  intro j
  obtain ⟨⟨x, hx, hlx⟩, he⟩ := ha j
  rw [run_bind]
  rcases hr : act.run j with ⟨r, k⟩
  rw [hr] at hx he
  cases r with
  | error e => exact ⟨⟨x, hx, hlx⟩, fun e' h => he e' (by cases h; rfl)⟩
  | ok b =>
    obtain ⟨⟨y, hy, hly⟩, he'⟩ := hf b k
    refine ⟨⟨x ++ y, hx.trans hy, fun e hm => ?_⟩, he'⟩
    rcases List.mem_append.1 hm with hm | hm
    · exact hlx e hm
    · exact hly e hm

theorem Local.get : Local (get : Serving Job) :=
  local_of_silent fun j => ⟨⟨rfl, rfl⟩, j, rfl⟩

end

/-- Reading on a container's demand commits, so it may come only after `streamed` is set. -/
theorem goes_pull {demanded : Bool} (most : Nat) {j : Job}
    (h : demanded = true → j.tx.streamed = true) :
    (∃ events, j.Goes events ((pull demanded most).run j).2 ∧ ∀ e ∈ events, e.IsLocal) ∧
      ∀ e, ((pull demanded most).run j).1 = .error e → e.recoverable = false := by
  obtain ⟨bytes, hworld, -, hopen⟩ := noted_pull demanded most j
  constructor
  · refine ⟨[.read demanded bytes], Goes.single (by rw [hworld]; rfl) fun hu => ?_, ?_⟩
    · rw [hopen] at hu
      refine ⟨hu, ?_⟩
      cases demanded with
      | false => rfl
      | true =>
        have hboth : (!j.tx.started && !j.tx.streamed) = true := hu
        rw [h rfl, Bool.not_true, Bool.and_false] at hboth
        cases hboth
    · intro e he
      rw [List.mem_singleton.1 he]
      exact ⟨rfl, rfl⟩
  · intro e he
    rcases hf : j.tx.channel.fill (min j.tx.remaining most) with ⟨r, channel⟩
    cases r with
    | error f =>
      rw [run_pull_of_error hf] at he
      cases he
      rfl
    | ok bytes =>
      rw [run_pull hf] at he
      cases he

theorem local_firstPiece : Local firstPiece := by
  unfold firstPiece
  refine Local.get.bind fun j => ?_
  cases j.tx.first with
  | some bytes => exact Local.pure bytes
  | none =>
    refine Local.bind (fun j => goes_pull _ fun h => by cases h) fun bytes => ?_
    exact Local.bind (local_of_silent fun _ => ⟨⟨rfl, rfl⟩, (), rfl⟩) fun _ => Local.pure bytes

theorem local_nextPiece (most : Nat) : Local (nextPiece most) := by
  intro j
  have hstreamed : ({ j with tx.streamed := true } : Job).tx.streamed = true := rfl
  obtain ⟨⟨events, hgoes, hlocal⟩, he⟩ := goes_pull most fun _ => hstreamed
  have hset : j.Goes [] { j with tx.streamed := true } := by
    refine ⟨rfl, fun h => ?_⟩
    have hboth : (!j.tx.started && !true) = true := h
    rw [Bool.not_true, Bool.and_false] at hboth
    cases hboth
  unfold nextPiece
  rw [run_bind_of_ok (run_modify ..)]
  exact ⟨⟨events, hset.trans hgoes, hlocal⟩, he⟩

theorem local_of_started {act : Serving Unit} {e : Event} (hlocal : e.IsLocal)
    (hact : ∀ j, ((act.run j).2.world.history = e :: j.world.history ∧
      (act.run j).2.tx.started = true) ∧ ∀ e, (act.run j).1 = .error e → e.recoverable = false) :
    Local act := by
  intro j
  obtain ⟨⟨hw, hs⟩, herror⟩ := hact j
  refine ⟨⟨[e], Goes.single hw fun h => ?_, ?_⟩, herror⟩
  · rw [Transaction.uncommitted, hs] at h
    cases h
  · intro e' he
    rw [List.mem_singleton.1 he]
    exact hlocal

theorem recoverable_of_mapError_client {β : Type} {r : Except Fault β} {e : ServiceError}
    (h : r.mapError .client = .error e) : e.recoverable = false := by
  cases r with
  | ok b => cases h
  | error f =>
    cases h
    rfl

theorem local_writeHeaders (status : Nat) (reason : String) (headers : List (String × String)) :
    Local (writeHeaders status reason headers) :=
  local_of_started (e := .headersWritten status reason headers) ⟨rfl, rfl⟩ fun _ =>
    ⟨⟨rfl, rfl⟩, fun _ h => recoverable_of_mapError_client h⟩

theorem local_writeBody (data : Bytes) : Local (writeBody data) :=
  local_of_started (e := .bodyWritten data) ⟨rfl, rfl⟩ fun _ =>
    ⟨⟨rfl, rfl⟩, fun _ h => recoverable_of_mapError_client h⟩

end Job

end AjpGateway
