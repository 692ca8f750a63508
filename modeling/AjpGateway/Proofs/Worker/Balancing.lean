import AjpGateway.Proofs.Balancer.Attempts
import AjpGateway.Worker.Target

/-!
# Requests behind a balancer

An open balancer serves a request by one run over its members (`RunOf`).  Whatever the members are
and answer, the run asks each of them once at most and ends with the first answer that decides:

    b.InTurn r.2.balancer (asked log) r.1                                       (asked_in_turn)

and where sessions are not forced, it finds no member only if none was left that may be asked:

    log.getLast? = some t ∧ t.seen.members[i]? = some m ∧ t.Excuses i m    (nobody_passed_over)

Both hold of any records that lie beside the workers in the same number, as they do in every state
that a balancer comes to.
-/

namespace AjpGateway

open Bench (Run Turn asked)

/-! ## What a request leaves -/

/-- A request that asked members in turn: its answers, its outcome `r`, and the balancer before and
after it. -/
structure Balancer.InTurn {Load : Type} (before after : Balancer Load)
    (answers : List (Nat × Outcome)) (r : Outcome) : Prop where
  once : (answers.map Prod.fst).Nodup
  known : ∀ i ∈ answers.map Prod.fst, i < before.members.length
  bounded : answers.length ≤ before.members.length
  /-- the request is served exactly if the last answer is a status -/
  served : ∀ status, r = .ok status ↔ ∃ i, answers.getLast? = some (i, .ok status)
  /-- the member that served is marked as sound -/
  marked : ∀ i status, answers.getLast? = some (i, .ok status) →
    ∃ m, after.members[i]? = some m ∧
      m.inError = false ∧ m.recovering = false ∧ m.errorTime? = none
  /-- an error on the client's side, or one that leaves nothing to another member, is the outcome -/
  stopped : ∀ earlier later i e, answers = earlier ++ (i, .error e) :: later →
    e.isClient = true ∨ e.recoverable = false → later = [] ∧ r = .error e
  /-- without an answer that decides, no member could serve -/
  unserved : (∀ x ∈ answers, Outcome.decides x.2 = false) → r = .error (.unavailable after.name)
  blamed : ∀ i outcome, (i, outcome) ∈ answers →
    after.errorsOf i = before.errorsOf i + if Outcome.blames outcome = true then 1 else 0
  unblamed : ∀ i, i ∉ answers.map Prod.fst → after.errorsOf i = before.errorsOf i

namespace Bench

section
variable {Load α : Type} [OfNat Load 0] [Add Load] [Max Load] [LT Load] [DecidableLT Load]
  {ask : Nat → Bench Load α → Outcome × Bench Load α} {routes : List String} {n : Nat}
  {tried : List Bool} {first : Bool} {s : Bench Load α} {log : List (Turn Load)}
  {r : Outcome × Bench Load α}

theorem Run.inTurn (hkeeps : ∀ i s, (ask i s).2.balancer = s.balancer)
    (h : Run ask routes n tried first s log r) (htried : tried.length = s.balancer.members.length)
    (hn : n ≤ s.balancer.members.length) :
    s.balancer.InTurn r.2.balancer (asked log) r.1 where
  once := (h.nodup_asked hkeeps htried).1
  known i hi := ((h.nodup_asked hkeeps htried).2 i hi).2
  bounded := Nat.le_trans h.length_asked_le hn
  served := h.served
  marked _ _ hlast := h.marked hkeeps hlast
  stopped earlier later i e hlog he := by
    have hdecides : Outcome.decides (.error e) = true := by
      rcases he with he | he <;> simp [Outcome.decides, he]
    exact h.stopped hlog hdecides
  unserved hopen := by
    rcases h.ends with ⟨earlier, a, hlog, -, ha, -⟩ | ⟨-, hr⟩
    · have hfalse := hopen a (by rw [hlog]; exact List.mem_append_right _ List.mem_cons_self)
      rw [ha] at hfalse
      cases hfalse
    · exact hr
  blamed := (h.errorsOf_asked hkeeps htried).1
  unblamed := (h.errorsOf_asked hkeeps htried).2

end

end Bench

/-! ## A balancer's run -/

namespace Worker

variable {α : Type} {servers : List (Server α)} {view : Worker α → List WorkerStatus}
  {b : Balancer Float} {ws : List (Worker α)} {job : Job}

/-- Asks the server of one member. -/
def asking (servers : List (Server α)) (view : Worker α → List WorkerStatus) (i : Nat)
    (s : Bench Float (Worker α)) : Outcome × Bench Float (Worker α) :=
  match servers[i]? with
  | none => (.error (.noEndpoint s.balancer.name), s)
  | some server =>
    let (r, w, job) := server (fun w => view (.balancer s.balancer (s.workers.set i w))) s.job
    (r, { s with workers := s.workers.set i w, job })

theorem balancer_asking (i : Nat) (s : Bench Float (Worker α)) :
    (asking servers view i s).2.balancer = s.balancer := by
  unfold asking
  cases servers[i]? <;> rfl

/-- The run of a request over all members. -/
def RunOf (servers : List (Server α)) (view : Worker α → List WorkerStatus) (b : Balancer Float)
    (ws : List (Worker α)) (job : Job) :
    List (Turn Float) → Outcome × Bench Float (Worker α) → Prop :=
  Run (asking servers view) (Session.routes job.tx.request) ws.length
    (List.replicate ws.length false) true { balancer := b, workers := ws, job }

theorem exists_runOf (servers : List (Server α)) (view : Worker α → List WorkerStatus)
    (ws : List (Worker α)) (job : Job) (hphase : b.phase = .initialized) :
    ∃ log r, RunOf servers view b ws job log r ∧
      serveMembers servers b ws view job =
        (r.1, .balancer r.2.balancer r.2.workers, r.2.job) := by
  have hready : b.phase.ready b.name = .ok () := Phase.ready_eq_ok_iff.2 hphase
  obtain ⟨log, hrun⟩ := Bench.exists_run (asking servers view) (Session.routes job.tx.request)
    ws.length (List.replicate ws.length false) true { balancer := b, workers := ws, job }
  refine ⟨log, _, hrun, ?_⟩
  unfold serveMembers
  rw [hready]
  rfl

theorem initialized_of_unavailable {w : String}
    (h : (serveMembers servers b ws view job).1 = .error (.unavailable w)) :
    b.phase = .initialized := by
  cases hready : b.phase.ready b.name with
  | ok _ => exact Phase.ready_eq_ok_iff.1 hready
  | error e =>
    have he : e = .unavailable w := by
      unfold serveMembers at h
      rw [hready] at h
      exact Except.error.inj h
    subst he
    cases hphase : b.phase <;> rw [hphase] at hready <;> cases hready

/-- **Members are asked in turn.**  An open balancer asks each member once at most, whatever they
answer: it goes on up to the first answer that decides, and counts each failure once, at the member
that failed. -/
theorem asked_in_turn (hphase : b.phase = .initialized) (hlength : b.members.length = ws.length) :
    ∃ log r, RunOf servers view b ws job log r ∧
      serveMembers servers b ws view job =
        (r.1, .balancer r.2.balancer r.2.workers, r.2.job) ∧
      b.InTurn r.2.balancer (asked log) r.1 := by
  obtain ⟨log, r, hrun, hserve⟩ := exists_runOf servers view ws job hphase
  have htried : (List.replicate ws.length false).length = b.members.length := by
    rw [List.length_replicate, hlength]
  exact ⟨log, r, hrun, hserve, hrun.inTurn balancer_asking htried (Nat.le_of_eq hlength.symm)⟩

/-- Two members, neither of which failed yet. -/
def pair : Balancer Float where
  name := "pair"
  phase := .initialized
  members := [
    { name := "a", route := "a", factor := 1, load := 0 },
    { name := "b", route := "b", factor := 1, load := 0 }]

/-- The workers of the pair: the first is never opened. -/
def monitors (second : Phase) : List (Worker Target) :=
  [.leaf (.monitor { name := "a" }), .leaf (.monitor { name := "b", phase := second })]

/-- A request to them. -/
def visit : Job where
  tx := .begin { uri := "/" } {}
  world := {}

/-- The second member serves what the first could not. -/
theorem asked_in_turn_pair :
    (serve (.balancer pair (monitors .initialized)) (fun _ => []) visit).1 = .ok 200 ∧
    ∃ log r, RunOf (Worker.servers (monitors .initialized)) (fun _ => []) pair
        (monitors .initialized) visit log r ∧
      serveMembers (Worker.servers (monitors .initialized)) pair (monitors .initialized)
        (fun _ => []) visit = (r.1, .balancer r.2.balancer r.2.workers, r.2.job) ∧
      pair.InTurn r.2.balancer (asked log) r.1 :=
  ⟨rfl, asked_in_turn rfl rfl⟩

/-- **No member is passed over.**  Where sessions are not forced, a balancer that finds no member
for a request was left none: its last selection chose the last one to be tried, or found all of them
tried, disabled, stopped or at rest after an error.  A selection that chooses nobody finds no other
member in any state. -/
theorem nobody_passed_over (hforce : b.settings.forceSticky = false)
    (hlength : b.members.length = ws.length) :
    (∀ w, (serveMembers servers b ws view job).1 = .error (.unavailable w) →
      ∃ log r, RunOf servers view b ws job log r ∧
        serveMembers servers b ws view job =
          (r.1, .balancer r.2.balancer r.2.workers, r.2.job) ∧
        ∀ i < ws.length, ∃ t m, log.getLast? = some t ∧ t.seen.members[i]? = some m ∧
          t.Excuses i m) ∧
    ∀ now routes tried first, (∀ p, (b.select now routes tried first).1 ≠ .picked p) →
      (b.select now routes tried first).1 = .exhausted ∧ b.AtRest now tried := by
  constructor
  · intro w h
    obtain ⟨log, r, hrun, hserve⟩ := exists_runOf servers view ws job
      (initialized_of_unavailable h)
    refine ⟨log, r, hrun, hserve, fun i hi => ?_⟩
    have htried : (List.replicate ws.length false).length = b.members.length := by
      rw [List.length_replicate, hlength]
    have hcount : (List.replicate ws.length false).count false ≤ ws.length :=
      Nat.le_of_eq List.count_replicate_self
    rw [hserve] at h
    rcases hrun.givenUp balancer_asking htried hcount hforce h with ⟨-, hn⟩ | ⟨t, ht, hall⟩
    · omega
    · obtain ⟨m, hm, hexcuses⟩ := hall i (by rw [hlength]; exact hi)
      exact ⟨t, m, ht, hm, hexcuses⟩
  · intro now routes tried first hnone
    exact Balancer.exhausted_of_unpicked hforce hnone

/-- A pair of which no worker is open has no member for the request. -/
theorem nobody_passed_over_pair :
    (serve (.balancer pair (monitors .validated)) (fun _ => []) visit).1 =
      .error (.unavailable "pair") ∧
    ∃ log r, RunOf (Worker.servers (monitors .validated)) (fun _ => []) pair (monitors .validated)
        visit log r ∧
      serveMembers (Worker.servers (monitors .validated)) pair (monitors .validated)
        (fun _ => []) visit = (r.1, .balancer r.2.balancer r.2.workers, r.2.job) ∧
      ∀ i < 2, ∃ t m, log.getLast? = some t ∧ t.seen.members[i]? = some m ∧ t.Excuses i m :=
  ⟨rfl, (nobody_passed_over rfl rfl).1 "pair" rfl⟩

end Worker

end AjpGateway
