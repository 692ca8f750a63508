import AjpGateway.Proofs.Worker.Endpoints
import AjpGateway.Proofs.Worker.Failing

/-!
# Which connections a call tries

A call tries the connection of its line, if there is one and the probe leaves it, or a new one.  A
line that had a connection gives the call a second exchange on a new one, where the first exchange
failed while another attempt was possible.  Whether the line had a connection is asked before the
probe, so a call whose probe dropped it may try two new connections, one after the other.

    b.Chooses line job (b.exchange line job).2.2.world tries                      (chooses_exchange)
    b.phase = .initialized → b.Serves line job                                              (serves)
    b.ReplacesKept line job ↔ ¬ (b.busy.repeats line job ∧
      (b.probe line job).1.connection? = none)                                  (replacesKept_iff)
-/

namespace AjpGateway

open Packet

/-! ## Tries -/

/-- A connection is opened, or the request is begun on one. -/
inductive Try where
  | opens (connection : Nat)
  | forwards (connection : Nat)
deriving DecidableEq, Repr

def Try.isOpening : Try → Bool
  | opens _ => true
  | forwards _ => false

namespace Event

def attempt? : Event → Option Try
  | opened c _ => some (.opens c)
  | sent c .forward _ => some (.forwards c)
  | _ => none

theorem attempt?_eq_none {e : Event} (h : e.attempts = false) : e.attempt? = none := by
  cases e with
  | opened => cases h
  | sent c what bytes =>
    cases what with
    | forward => cases h
    | body => rfl
    | probe => rfl
  | received => rfl
  | read => rfl
  | headersWritten => rfl
  | bodyWritten => rfl

end Event

/-- From one world to a later one, in which these tries were made and no more. -/
def World.Tries (w : World) (tries : List Try) (w' : World) : Prop :=
  ∃ events : List Event, w'.history = events.reverse ++ w.history ∧
    events.filterMap Event.attempt? = tries

namespace World.Tries

variable {w w' w'' : World} {tries more : List Try} {e : Event}

theorem refl (w : World) : w.Tries [] w := ⟨[], rfl, rfl⟩

theorem trans (h : w.Tries tries w') (h' : w'.Tries more w'') : w.Tries (tries ++ more) w'' := by
  obtain ⟨x, hx, htries⟩ := h
  obtain ⟨y, hy, hmore⟩ := h'
  refine ⟨x ++ y, ?_, ?_⟩
  · rw [hy, hx, List.reverse_append, List.append_assoc]
  · rw [List.filterMap_append, htries, hmore]

theorem same (h : w.Tries tries w') (hw : w''.history = w'.history) : w.Tries tries w'' := by
  obtain ⟨x, hx, htries⟩ := h
  exact ⟨x, hw.trans hx, htries⟩

theorem note {x : Try} (h : w.Tries tries w') (hw : w''.history = e :: w'.history)
    (he : e.attempt? = some x) : w.Tries (tries ++ [x]) w'' :=
  h.trans ⟨[e], hw, List.filterMap_cons_some he⟩

theorem quiet (h : w.Tries tries w') (hw : w''.history = e :: w'.history)
    (he : e.attempt? = none) : w.Tries tries w'' := by
  have hnote := h.trans ⟨[e], hw, List.filterMap_cons_none he⟩
  rwa [List.filterMap_nil, List.append_nil] at hnote

end World.Tries

namespace Backend

variable {b : Backend} {line : Line} {job : Job}

/-! ## Exchanges -/

/-- What follows the request tries nothing. -/
theorem tries_answer (b : Backend) (t : Talk) :
    t.job.world.Tries [] (b.answer.run t).2.job.world := by
  obtain ⟨-, ⟨events, hgoes, hstays⟩, -⟩ := b.relays_answer t
  exact ⟨events, hgoes.history,
    List.filterMap_eq_nil_iff.2 fun e he => Event.attempt?_eq_none (hstays e he).1⟩

/-- Whether another attempt may follow such a result. -/
def retries {α : Type} : Except ServiceError α → Bool
  | .ok _ => false
  | .error e => mayRetry e

/-- The tries of a talk on a connection: the request is begun there, unless it does not encode. -/
def Begins (b : Backend) (connection : Nat) (r : Except ServiceError (Nat × Bool))
    (tries : List Try) : Prop :=
  tries = [.forwards connection] ∨ tries = [] ∧ ∃ e, r = .error (.packet b.name e)

theorem Begins.of_retries {c : Nat} {r : Except ServiceError (Nat × Bool)} {tries : List Try}
    (h : b.Begins c r tries) (hr : retries r = true) : tries = [.forwards c] := by
  obtain h | ⟨-, e, rfl⟩ := h
  · exact h
  · cases hr

theorem tries_talk (b : Backend) (t : Talk) :
    ∃ tries, t.job.world.Tries tries (b.talk.run t).2.job.world ∧
      b.Begins t.connection.id (b.talk.run t).1 tries := by
  unfold talk
  rw [run_bind_of_ok (run_get t), run_bind]
  rcases hp : (b.packetStep (Talk.onRequest (b.forwardRequest t.job.tx).encode)).run t with ⟨r, u⟩
  have hjob : u.job = t.job := (congrArg (fun p => p.2.job) hp).symm
  have hid : u.connection = t.connection := (congrArg (fun p => p.2.connection) hp).symm
  cases r with
  | error e =>
    obtain ⟨e', rfl⟩ := of_mapError (P := fun e => ∃ e', e = .packet b.name e')
      (congrArg Prod.fst hp) fun d => ⟨d, rfl⟩
    exact ⟨[], .same (.refl _) (by rw [hjob]), .inr ⟨rfl, e', rfl⟩⟩
  | ok _ =>
    refine ⟨_, ?_, .inl rfl⟩
    show t.job.world.Tries _
      ((b.netStep (·.transmit .forward) >>= fun _ => b.answer).run u).2.job.world
    rw [run_bind]
    rcases hf : (b.netStep (·.transmit .forward)).run u with ⟨r, v⟩
    have hsent : v.job.world = u.job.world.note (.sent u.connection.id .forward _) :=
      (congrArg (fun p => p.2.job.world) hf).symm
    have hbegun : t.job.world.Tries [.forwards t.connection.id] v.job.world := by
      rw [← hid]
      exact World.Tries.note (.refl _) (by rw [hsent, hjob]; rfl) rfl
    cases r with
    | error e => exact hbegun
    | ok _ => exact hbegun.trans (b.tries_answer v)

theorem tries_probe (b : Backend) (line : Line) (job : Job) :
    job.world.Tries [] (b.probe line job).2.world :=
  probe_keeps (I := fun j => job.world.Tries [] j.world) (fun _ _ _ h => h.quiet rfl rfl)
    (fun _ _ _ h => h.quiet rfl rfl) b line (.refl _)

/-- Without a connection, one is opened or there is none. -/
theorem connected_cases (hline : line.connection? = none) :
    (∃ e job', b.connected line job = (.error e, job') ∧ job.world.Tries [] job'.world) ∨
      ∃ c job', b.connected line job = (.ok c, job') ∧
        job.world.Tries [.opens c.id] job'.world ∧
        job.world.network.opened ≤ c.id ∧ c.id < job'.world.network.opened := by
  unfold connected
  rw [hline]
  cases b.address? with
  | none => exact .inl ⟨_, _, rfl, .refl _⟩
  | some address =>
    dsimp only
    obtain ⟨e, network, hconnect, -⟩ | ⟨c, network, hconnect, hid, hopened⟩ :=
      job.world.connect_cases address b.options
    · rw [hconnect]
      exact .inl ⟨_, _, rfl, World.Tries.same (.refl job.world) rfl⟩
    · rw [hconnect]
      refine .inr ⟨c, _, rfl, World.Tries.note (.refl job.world) rfl rfl,
        Nat.le_of_eq hid.symm, ?_⟩
      show c.id < network.opened
      omega

/-- The tries of an exchange: on the connection that the probe left, or on a new one. -/
inductive Chooses (b : Backend) (line : Line) (job : Job) (tries : List Try) : Prop
  | kept {k : Connection} (left : (b.probe line job).1.connection? = some k)
    (same : line.ids = [k.id]) (begins : b.Begins k.id (b.exchange line job).1 tries)
  | unconnected (none : (b.probe line job).1.connection? = none)
    (error : ∃ e, (b.exchange line job).1 = .error e) (tries : tries = [])
  | new {c : Nat} {begun : List Try} (none : (b.probe line job).1.connection? = none)
    (le : job.world.network.opened ≤ c)
    (lt : c < (b.exchange line job).2.2.world.network.opened)
    (begins : b.Begins c (b.exchange line job).1 begun) (tries : tries = .opens c :: begun)

theorem chooses_exchange (b : Backend) (line : Line) (job : Job) :
    ∃ tries, job.world.Tries tries (b.exchange line job).2.2.world ∧ b.Chooses line job tries := by
  have hprobe := b.tries_probe line job
  have hleads := (b.leads_probe line job).reaches.opened
  rcases hp : b.probe line job with ⟨line', job'⟩
  rw [hp] at hprobe hleads
  dsimp only at hprobe hleads
  have hleft : (b.probe line job).1.connection? = line'.connection? := by rw [hp]
  cases hline : line'.connection? with
  | some k =>
    have hc : b.connected line' job' = (.ok k, job') := by
      unfold connected
      rw [hline]
    have hexchange := exchange_of_connected hp hc
    obtain ⟨tries, htalk, hbegins⟩ := b.tries_talk (line'.over k job')
    refine ⟨tries, ?_, .kept (hleft.trans hline) (ids_probe (hleft.trans hline)) ?_⟩
    · rw [hexchange]
      exact hprobe.trans htalk
    · rw [hexchange]
      exact hbegins
  | none =>
    rcases @connected_cases b line' job' hline with
      ⟨e, job'', hc, htries⟩ | ⟨c, job'', hc, htries, hle, hlt⟩
    · have hexchange := exchange_of_unconnected hp hc
      refine ⟨[], ?_, .unconnected (hleft.trans hline) ⟨e, ?_⟩ rfl⟩
      · rw [hexchange]
        exact hprobe.trans htries
      · rw [hexchange]
    · have hexchange := exchange_of_connected hp hc
      obtain ⟨tries, htalk, hbegins⟩ := b.tries_talk (line'.over c job'')
      have hstays :=
        (Talk.lasting_staysOn.talk b (line'.over c job'') ⟨rfl, .refl _⟩).reaches.opened
      refine ⟨.opens c.id :: tries, ?_,
        .new (hleft.trans hline) (Nat.le_trans hleads hle) ?_ ?_ rfl⟩
      · rw [hexchange]
        exact hprobe.trans (htries.trans htalk)
      · rw [hexchange]
        exact Nat.lt_of_lt_of_le hlt hstays
      · rw [hexchange]
        exact hbegins

/-! ## Calls -/

/-- Tries on a connection opened between two worlds, if there is one. -/
def Fresh (w w' : World) (tries : List Try) : Prop :=
  tries = [] ∨ ∃ c, w.network.opened ≤ c ∧ c < w'.network.opened ∧
    (tries = [.opens c] ∨ tries = [.opens c, .forwards c])

theorem Chooses.fresh {tries : List Try} (h : b.Chooses line job tries)
    (hnone : (b.probe line job).1.connection? = none) :
    Fresh job.world (b.exchange line job).2.2.world tries := by
  cases h with
  | kept left => cases hnone.symm.trans left
  | unconnected _ _ htries => exact .inl htries
  | @new c begun _ hle hlt hbegins htries =>
    refine .inr ⟨c, hle, hlt, ?_⟩
    obtain rfl | ⟨rfl, -⟩ := hbegins
    · exact .inr htries
    · exact .inl htries

/-- Whether a second exchange follows the first. -/
def repeats (b : Backend) (line : Line) (job : Job) : Bool :=
  line.connection?.isSome && retries (b.exchange line job).1

/-- The exchange that is run again, on the line without its connection. -/
def again (b : Backend) (line : Line) (job : Job) :
    Except ServiceError (Nat × Bool) × Line × Job :=
  b.exchange (b.exchange line job).2.1.closed (b.exchange line job).2.2

theorem exchangeTwice_eq (b : Backend) (line : Line) (job : Job) :
    b.exchangeTwice line job =
      if b.repeats line job then b.again line job else b.exchange line job := by
  unfold exchangeTwice repeats again
  rcases b.exchange line job with ⟨r, line', job'⟩
  cases r with
  | ok r =>
    rw [show retries (.ok r) = false from rfl, Bool.and_false]
    rfl
  | error e => rfl

/-- A call gives what its exchanges give, and nothing else of it is seen. -/
theorem serve_of_initialized (hphase : b.phase = .initialized) (line : Line) (job : Job) :
    (b.serve line job).1 = (b.busy.exchangeTwice line job).1.map Prod.fst ∧
      (b.serve line job).2.2.2.world.history =
        (b.busy.exchangeTwice line job).2.2.world.history := by
  unfold serve
  rw [Phase.ready_eq_ok_iff.2 hphase]
  dsimp only
  rw [show ({ b with requests := b.requests + 1 } : Backend) = b.busy from rfl]
  rcases b.busy.exchangeTwice line job with ⟨r, line', job'⟩
  cases r with
  | ok r => exact ⟨rfl, rfl⟩
  | error e =>
    dsimp only
    split <;> exact ⟨rfl, rfl⟩

/-- Every way that a call tries its connections. -/
inductive Serves (b : Backend) (line : Line) (job : Job) : Prop
  /-- on one connection, that of the line or a new one -/
  | once {tries : List Try} (once : b.busy.repeats line job = false)
    (outcome : (b.serve line job).1 = (b.busy.exchange line job).1.map Prod.fst)
    (made : job.world.Tries tries (b.serve line job).2.2.2.world)
    (chooses : b.busy.Chooses line job tries)
  /-- on that of the line, which failed, and on a new one in its place -/
  | replaced {k : Connection} {more : List Try} (again : b.busy.repeats line job = true)
    (left : (b.probe line job).1.connection? = some k) (same : line.ids = [k.id])
    (outcome : (b.serve line job).1 = (b.busy.again line job).1.map Prod.fst)
    (made : job.world.Tries (.forwards k.id :: more) (b.serve line job).2.2.2.world)
    (fresh : Fresh (b.busy.exchange line job).2.2.world (b.busy.again line job).2.2.world more)
  /-- the probe dropped that of the line, and what failed was a new one, or to open one -/
  | repeated {tries more : List Try} (again : b.busy.repeats line job = true)
    (dropped : (b.probe line job).1.connection? = none)
    (outcome : (b.serve line job).1 = (b.busy.again line job).1.map Prod.fst)
    (made : job.world.Tries (tries ++ more) (b.serve line job).2.2.2.world)
    (first : tries = [] ∨ ∃ c, c < (b.busy.exchange line job).2.2.world.network.opened ∧
      tries = [.opens c, .forwards c])
    (fresh : Fresh (b.busy.exchange line job).2.2.world (b.busy.again line job).2.2.world more)

theorem serves (hphase : b.phase = .initialized) (line : Line) (job : Job) :
    b.Serves line job := by
  obtain ⟨houtcome, hhistory⟩ := serve_of_initialized hphase line job
  obtain ⟨tries, htries, hchooses⟩ := b.busy.chooses_exchange line job
  rw [exchangeTwice_eq] at houtcome hhistory
  cases hagain : b.busy.repeats line job with
  | false =>
    rw [hagain] at houtcome hhistory
    exact .once hagain houtcome (htries.same hhistory) hchooses
  | true =>
    rw [hagain] at houtcome hhistory
    obtain ⟨more, hmore, hchooses'⟩ := b.busy.chooses_exchange
      (b.busy.exchange line job).2.1.closed (b.busy.exchange line job).2.2
    have hfresh := hchooses'.fresh rfl
    have hmade := (htries.trans hmore).same hhistory
    have hretries := (Bool.and_eq_true_iff.1 hagain).2
    cases hchooses with
    | kept left same begins =>
      obtain rfl := begins.of_retries hretries
      exact .replaced hagain left same houtcome hmade hfresh
    | unconnected none _ tries =>
      exact .repeated hagain none houtcome hmade (.inl tries) hfresh
    | new none _ lt begins tries =>
      obtain rfl := begins.of_retries hretries
      exact .repeated hagain none houtcome hmade (.inr ⟨_, lt, tries⟩) hfresh

/-- A call replaces only the connection of its line: it opens one connection at most, and a second
exchange follows only the failure of the one that the line had. -/
def ReplacesKept (b : Backend) (line : Line) (job : Job) : Prop :=
  (∃ tries, job.world.Tries tries (b.serve line job).2.2.2.world ∧
    (tries.filter Try.isOpening).length ≤ 1) ∧
  (b.busy.repeats line job = true →
    ∃ k, (b.probe line job).1.connection? = some k ∧ line.ids = [k.id])

theorem length_opened_of_fresh {w w' : World} {tries : List Try} (h : Fresh w w' tries) :
    (tries.filter Try.isOpening).length ≤ 1 := by
  obtain rfl | ⟨c, -, -, rfl | rfl⟩ := h
  · exact Nat.zero_le 1
  · exact Nat.le_refl 1
  · exact Nat.le_refl 1

theorem length_opened_of_chooses {tries : List Try} (h : b.Chooses line job tries) :
    (tries.filter Try.isOpening).length ≤ 1 := by
  cases hleft : (b.probe line job).1.connection? with
  | none => exact length_opened_of_fresh (h.fresh hleft)
  | some k =>
    cases h with
    | kept _ _ begins => obtain rfl | ⟨rfl, -⟩ := begins <;> exact Nat.zero_le 1
    | unconnected none => cases none.symm.trans hleft
    | new none => cases none.symm.trans hleft

/-- **Only the connection of the line is replaced**, except where the probe dropped it: then, if
the exchange in its place fails while another attempt is possible, a second one follows on another
new connection, and the request may be sent on both.  The other ways are those of `Serves`. -/
theorem replacesKept_iff (hphase : b.phase = .initialized) (line : Line) (job : Job) :
    b.Serves line job ∧ (b.ReplacesKept line job ↔
      ¬ (b.busy.repeats line job = true ∧ (b.probe line job).1.connection? = none)) := by
  have hserves := serves hphase line job
  refine ⟨hserves, ?_, ?_⟩
  · rintro ⟨-, hkept⟩ ⟨hagain, hnone⟩
    obtain ⟨k, hk, -⟩ := hkept hagain
    cases hnone.symm.trans hk
  · intro hstale
    cases hserves with
    | once once _ made chooses =>
      refine ⟨⟨_, made, length_opened_of_chooses chooses⟩, fun hagain => ?_⟩
      rw [once] at hagain
      cases hagain
    | replaced _ left same _ made fresh =>
      have hmore := length_opened_of_fresh fresh
      exact ⟨⟨_, made, hmore⟩, fun _ => ⟨_, left, same⟩⟩
    | repeated again dropped => exact absurd ⟨again, dropped⟩ hstale

/-! ### A container that was started again -/

/-- A backend whose connections are probed. -/
def wary : Backend where
  name := "a"
  phase := .initialized
  settings := { probeTimeout := 3000 }
  address? := some ⟨.localhost, 8009, 0⟩

/-- A peer that takes everything and gives nothing. -/
def silent : Stream where
  drains := true

/-- A line with a connection that has gone stale. -/
def staleLine : Line :=
  { Line.new defaultSize with connection? := some ⟨0, ⟨.localhost, 8009, 0⟩, {}, silent⟩ }

/-- A request, in a world where new connections are accepted and closed without an answer. -/
def unheard : Job where
  tx := .begin { uri := "/" } {}
  world := { network := {
    listeners := [⟨⟨.localhost, 8009, 0⟩, [], .accepted silent⟩]
    opened := 1 } }

/-- A talk in which the first reply fails to come. -/
theorem talk_of_unanswered {t : Talk} (ho : (b.opening.run t).1.isOk = true)
    (hn : retries (b.nextReply.run (b.opening.run t).2).1 = true) :
    retries (b.talk.run t).1 = true ∧
      (b.talk.run t).2 = (b.nextReply.run (b.opening.run t).2).2 := by
  rcases hopening : b.opening.run t with ⟨r, u⟩
  rw [hopening] at ho hn
  cases r with
  | error e => cases ho
  | ok _ =>
    rw [talk_eq, run_bind_of_ok hopening, run_bind_of_ok (run_get u)]
    rcases hreply : b.nextReply.run u with ⟨r, v⟩
    rw [hreply] at hn
    cases r with
    | ok reply => cases hn
    | error e =>
      rw [run_relay_of_error hreply]
      exact ⟨hn, rfl⟩

/-- An exchange on a new connection, on which the first reply fails to come. -/
theorem exchange_of_unanswered {c : Connection} {t u : Talk}
    (ht : t = (b.probe line job).1.over c
      (b.connected (b.probe line job).1 (b.probe line job).2).2)
    (hu : u = (b.nextReply.run (b.opening.run t).2).2)
    (hc : (b.connected (b.probe line job).1 (b.probe line job).2).1.toOption = some c)
    (ho : (b.opening.run t).1.isOk = true)
    (hn : retries (b.nextReply.run (b.opening.run t).2).1 = true) :
    retries (b.exchange line job).1 = true ∧ (b.exchange line job).2 = (u.line, u.job) := by
  obtain ⟨hretries, hleft⟩ := talk_of_unanswered ho hn
  have hp : b.probe line job = ((b.probe line job).1, (b.probe line job).2) := rfl
  rcases hr : b.connected (b.probe line job).1 (b.probe line job).2 with ⟨r, job'⟩
  rw [hr] at ht hc
  cases r with
  | error e => cases hc
  | ok c' =>
    cases hc
    rw [exchange_of_connected hp hr, ← ht, hleft, ← hu]
    exact ⟨hretries, rfl⟩

/-- The request is sent twice, on two new connections. -/
theorem replacesKept_iff_unheard :
    wary.busy.repeats staleLine unheard = true ∧
      (wary.probe staleLine unheard).1.connection? = none ∧
      ¬ wary.ReplacesKept staleLine unheard ∧
      unheard.world.Tries [.opens 1, .forwards 1, .opens 2, .forwards 2]
        (wary.serve staleLine unheard).2.2.2.world := by
  have hnone : (wary.probe staleLine unheard).1.connection? = none := by decide +kernel
  obtain ⟨t, ht⟩ : ∃ t, t = (wary.busy.probe staleLine unheard).1.over
      ⟨1, ⟨.localhost, 8009, 0⟩, {}, silent⟩ (wary.busy.connected
        (wary.busy.probe staleLine unheard).1 (wary.busy.probe staleLine unheard).2).2 := ⟨_, rfl⟩
  obtain ⟨u, hu⟩ : ∃ u, u = (wary.busy.nextReply.run (wary.busy.opening.run t).2).2 := ⟨_, rfl⟩
  obtain ⟨t', ht'⟩ : ∃ t', t' = (wary.busy.probe u.line.closed u.job).1.over
      ⟨2, ⟨.localhost, 8009, 0⟩, {}, silent⟩ (wary.busy.connected
        (wary.busy.probe u.line.closed u.job).1
        (wary.busy.probe u.line.closed u.job).2).2 := ⟨_, rfl⟩
  obtain ⟨u', hu'⟩ : ∃ u', u' = (wary.busy.nextReply.run (wary.busy.opening.run t').2).2 :=
    ⟨_, rfl⟩
  obtain ⟨hretries, hfirst⟩ := exchange_of_unanswered ht hu (by decide +kernel)
    (by rw [ht]; decide +kernel) (by rw [ht]; decide +kernel)
  obtain ⟨-, hsecond⟩ := exchange_of_unanswered ht' hu' (by rw [hu, ht]; decide +kernel)
    (by rw [ht', hu, ht]; decide +kernel) (by rw [ht', hu, ht]; decide +kernel)
  have hagain : wary.busy.repeats staleLine unheard = true :=
    Bool.and_eq_true_iff.2 ⟨rfl, hretries⟩
  have hleft : (wary.busy.again staleLine unheard).2 = (u'.line, u'.job) := by
    unfold again
    rw [hfirst]
    exact hsecond
  have hhistory := (serve_of_initialized rfl staleLine unheard (b := wary)).2
  rw [exchangeTwice_eq, hagain, if_pos rfl, hleft] at hhistory
  refine ⟨hagain, hnone, ?_, ?_⟩
  · rw [(replacesKept_iff rfl staleLine unheard).2]
    exact not_not_intro ⟨hagain, hnone⟩
  · refine ⟨u'.job.world.history.reverse, ?_, ?_⟩
    · rw [hhistory, List.reverse_reverse]
      exact (List.append_nil _).symm
    · rw [hu', ht', hu, ht]
      decide +kernel

end Backend

end AjpGateway
