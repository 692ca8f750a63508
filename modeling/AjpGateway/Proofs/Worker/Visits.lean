import AjpGateway.Proofs.Worker.Alike
import AjpGateway.Proofs.Worker.Commitment
import AjpGateway.Proofs.Worker.Forwarding

/-!
# Visits of a request

A request that goes through a tree comes to one leaf after another: each balancer on the way chooses
a member, and only a failure leads it to the next.  What the request shows it shows at the leaves.

A balancer gives the request the route of the member that it chose, in place of whatever route was
there.  So at each leaf the request has the route of the record that the leaf's own balancer has of
it, however many balancers are above and whatever attempts went before.

    ∃ visits, job.Visits visits (w.serve view job).2.2 ∧ ∀ v ∈ visits, v.In w job      (visited)
    … ∧ (b.forwardRequest v.before.tx).jvmRoutes = [m.route]               (sends_route_of_member)
-/

namespace AjpGateway

open Bench (Run Turn)

/-! ## From leaf to leaf -/

/-- Between its visits a request may get another route, and time goes by. -/
structure Job.Waits (j k : Job) : Prop where
  history : k.world.history = j.world.history
  network : k.world.network = j.world.network
  tx : ∃ route, k.tx = { j.tx with route }

namespace Job.Waits

variable {j k l : Job}

theorem refl (j : Job) : j.Waits j := ⟨rfl, rfl, j.tx.route, rfl⟩

theorem trans (h : j.Waits k) (h' : k.Waits l) : j.Waits l := by
  obtain ⟨_, htx⟩ := h.tx
  obtain ⟨route, htx'⟩ := h'.tx
  exact ⟨h'.history.trans h.history, h'.network.trans h.network, route, by rw [htx', htx]⟩

end Job.Waits

/-- What follows an attempt shows nothing. -/
theorem Bench.waits_settle {Load α : Type} (s : Bench Load α) (i : Nat) (outcome : Outcome) :
    s.job.Waits (s.settle i outcome).job := by
  unfold settle
  cases outcome with
  | ok status => exact .refl _
  | error e =>
    dsimp only
    split
    · exact .refl _
    · exact ⟨rfl, rfl, _, rfl⟩

/-- A leaf that a request comes to: the way that leads there, and the job before and after it. -/
structure Worker.Visit (α : Type) where
  way : List Nat
  leaf : α
  before : Job
  after : Job

/-- The same visit, where the tree is the member at a place. -/
def Worker.Visit.behind {α : Type} (i : Nat) (v : Worker.Visit α) : Worker.Visit α :=
  { v with way := i :: v.way }

/-- The visits that lead from one job to another. -/
inductive Job.Visits {α : Type} : Job → List (Worker.Visit α) → Job → Prop
  | none {j k : Job} (h : j.Waits k) : Visits j [] k
  | visit {j k : Job} {v : Worker.Visit α} {vs : List (Worker.Visit α)} (h : j.Waits v.before)
      (hs : Visits v.after vs k) : Visits j (v :: vs) k

namespace Job.Visits

variable {α : Type} {j k l : Job} {vs vs' : List (Worker.Visit α)}

theorem waiting (h : j.Waits k) (hs : k.Visits vs l) : j.Visits vs l := by
  cases hs with
  | none h' => exact .none (h.trans h')
  | visit h' hs => exact .visit (h.trans h') hs

/-- By induction on the visits that come first. -/
theorem append (hs : j.Visits vs k) (hs' : k.Visits vs' l) : j.Visits (vs ++ vs') l := by
  induction hs with
  | none h => exact hs'.waiting h
  | visit h _ ih => exact .visit h (ih hs')

theorem behind (i : Nat) (hs : j.Visits vs k) : j.Visits (vs.map (Worker.Visit.behind i)) k := by
  induction hs with
  | none h => exact .none h
  | visit h _ ih => exact .visit h ih

end Job.Visits

/-! ## Members that are visited -/

/-- At the moment the balancer, in a state that it had then, chose the member at the place, of which
it had the record. -/
inductive Balancer.Chooses (b : Balancer Float) (now : Moment) : Nat → Member Float → Prop
  | intro {seen after : Balancer Float} {routes : List String} {tried : List Bool} {first : Bool}
      {p : Pick} {m : Member Float} (setup : seen.setup = b.setup)
      (picked : seen.select now routes tried first = (.picked p, after))
      (record : seen.members[p.index]? = some m) : Chooses b now p.index m

/-- A chosen member is asked with the route of its record. -/
theorem Bench.chooses_of_select {α : Type} {s : Bench Float α} {b chosen : Balancer Float}
    {routes : List String} {tried : List Bool} {first : Bool} {p : Pick}
    (hsetup : s.balancer.setup = b.setup)
    (hselect : s.balancer.select s.job.now.1 routes tried first = (.picked p, chosen)) :
    ∃ m, b.Chooses ((s.selected chosen).aim p.route).job.world.clock p.index m ∧
      ((s.selected chosen).aim p.route).job.tx.route = some m.route := by
  obtain ⟨m, heligible, helected⟩ := exists_eligible_of_select hselect
  have hroute : p.route = m.route := congrArg Pick.route (Choice.picked.inj helected.pick)
  exact ⟨m, .intro hsetup hselect heligible.member, congrArg some hroute⟩

/-- A visit of a leaf of the tree.  If the leaf is a member, its balancer has chosen it for this
visit, and the job has the route that was on its record. -/
structure Worker.Visit.In {α : Type} [Leaf α] (w : Worker α) (job : Job)
    (v : Worker.Visit α) : Prop where
  place : w.behind? v.way = some (.leaf v.leaf)
  serves : ∃ view, v.after = (Leaf.serve view v.leaf v.before).2.2
  alone : v.way = [] → v.before = job
  member : ∀ way i, v.way = way ++ [i] → ∃ b ws m, w.behind? way = some (.balancer b ws) ∧
    b.Chooses v.before.world.clock i m ∧ v.before.tx.route = some m.route

namespace Worker

variable {α : Type} [Leaf α]

theorem getElem?_servers (ws : List (Worker α)) (i : Nat) :
    (servers ws)[i]? = ws[i]?.map serve := by
  induction ws generalizing i with
  | nil => rfl
  | cons w rest ih =>
    cases i with
    | zero => rfl
    | succ i => exact ih i

/-- A visit of a tree that lies in another at the place of a member. -/
theorem in_of_member {b : Balancer Float} {ws : List (Worker α)} {w : Worker α} {i : Nat}
    {m : Member Float} {v : Visit α} {job : Job} (hw : ws[i]? = some w)
    (hchooses : b.Chooses job.world.clock i m) (hroute : job.tx.route = some m.route)
    (h : v.In w job) (job₀ : Job) : (v.behind i).In (balancer b ws) job₀ where
  place := by
    show ws[i]?.bind (behind? · v.way) = _
    rw [hw]
    exact h.place
  serves := h.serves
  alone := nofun
  member := by
    intro way j hway
    cases way with
    | nil =>
      -- the member is the leaf itself
      obtain ⟨rfl, hnil⟩ := List.cons.inj hway
      have hbefore := h.alone hnil
      exact ⟨b, ws, m, rfl, hbefore ▸ hchooses, hbefore ▸ hroute⟩
    | cons i' way =>
      obtain ⟨rfl, htail⟩ := List.cons.inj hway
      obtain ⟨b', ws', m', hbehind, hrest⟩ := h.member way j htail
      refine ⟨b', ws', m', ?_, hrest⟩
      show ws[i]?.bind (behind? · way) = _
      rw [hw]
      exact hbehind

/-- To serve a job is to visit leaves of the worker. -/
def Visited (w : Worker α) : Prop :=
  ∀ (view : Worker α → List WorkerStatus) (job : Job),
    ∃ vs : List (Visit α), job.Visits vs (w.serve view job).2.2 ∧ ∀ v ∈ vs, v.In w job

section
variable {b : Balancer Float} {ws : List (Worker α)} {view : Worker α → List WorkerStatus}
  {routes : List String} {n : Nat} {tried : List Bool} {first : Bool}
  {s s' : Bench Float (Worker α)} {p : Pick} {chosen : Balancer Float} {outcome : Outcome}

/-- An attempt visits leaves of the member that was chosen. -/
theorem visits_ask (h : ∀ w ∈ ws, w.Visited) (hsetup : s.balancer.setup = b.setup)
    (hselect : s.balancer.select s.job.now.1 routes tried first = (.picked p, chosen))
    (hask : asking (servers ws) view p.index ((s.selected chosen).aim p.route) = (outcome, s'))
    (job₀ : Job) :
    ∃ vs : List (Visit α), s.job.Visits vs s'.job ∧ ∀ v ∈ vs, v.In (balancer b ws) job₀ := by
  obtain ⟨m, hchooses, hroute⟩ := Bench.chooses_of_select hsetup hselect
  have hwaits : s.job.Waits ((s.selected chosen).aim p.route).job := ⟨rfl, rfl, _, rfl⟩
  unfold asking at hask
  rw [getElem?_servers] at hask
  cases hw : ws[p.index]? with
  | none =>
    rw [hw] at hask
    cases hask
    exact ⟨[], .none hwaits, List.forall_mem_nil _⟩
  | some w =>
    rw [hw] at hask
    obtain ⟨-, rfl⟩ := Prod.mk.inj hask
    obtain ⟨vs, hvisits, hin⟩ := h w (List.mem_of_getElem? hw)
      (fun w => view (.balancer chosen (s.workers.set p.index w)))
      ((s.selected chosen).aim p.route).job
    refine ⟨vs.map (Visit.behind p.index), (hvisits.behind p.index).waiting hwaits, fun v hv => ?_⟩
    obtain ⟨u, hu, rfl⟩ := List.mem_map.1 hv
    exact in_of_member hw hchooses hroute (hin u hu) job₀

/-- By induction on the run: it visits leaves behind the balancer. -/
theorem visits_run (h : ∀ w ∈ ws, w.Visited) {log : List (Turn Float)}
    {r : Outcome × Bench Float (Worker α)}
    (hrun : Run (asking (servers ws) view) routes n tried first s log r)
    (hsetup : s.balancer.setup = b.setup) (job₀ : Job) :
    ∃ vs : List (Visit α), s.job.Visits vs r.2.job ∧ ∀ v ∈ vs, v.In (balancer b ws) job₀ := by
  induction hrun with
  | spent => exact ⟨[], .none (.refl _), List.forall_mem_nil _⟩
  | unchosen _ _ => exact ⟨[], .none ⟨rfl, rfl, _, rfl⟩, List.forall_mem_nil _⟩
  | @answered n tried first s s' p chosen outcome hselect hask _ =>
    obtain ⟨vs, hvisits, hin⟩ := visits_ask h hsetup hselect hask job₀
    have hend := hvisits.append (.none (Bench.waits_settle s' p.index outcome))
    rw [List.append_nil] at hend
    exact ⟨vs, hend, hin⟩
  | @failed n tried first s s' p chosen outcome log r hselect hask _ _ ih =>
    obtain ⟨vs, hvisits, hin⟩ := visits_ask h hsetup hselect hask job₀
    have hnext : s'.job.Waits (s'.settle p.index outcome).failover.job :=
      (Bench.waits_settle s' p.index outcome).trans ⟨rfl, rfl, _, rfl⟩
    obtain ⟨vs', hvisits', hin'⟩ :=
      ih ((Bench.setup_step balancer_asking hselect hask).trans hsetup)
    exact ⟨vs ++ vs', hvisits.append (hvisits'.waiting hnext),
      List.forall_mem_append.2 ⟨hin, hin'⟩⟩

theorem visited_balancer (b : Balancer Float) (h : ∀ w ∈ ws, w.Visited) :
    (balancer b ws).Visited := by
  intro view job
  show ∃ vs : List (Visit α), job.Visits vs (serveMembers (servers ws) b ws view job).2.2 ∧ _
  cases hready : b.phase.ready b.name with
  | error e =>
    unfold serveMembers
    rw [hready]
    exact ⟨[], .none (.refl job), List.forall_mem_nil _⟩
  | ok _ =>
    obtain ⟨log, r, hrun, hserve⟩ :=
      exists_runOf (servers ws) view ws job (Phase.ready_eq_ok_iff.1 hready)
    rw [hserve]
    exact visits_run h hrun rfl job

end

mutual

/-- By induction on the tree. -/
theorem visited : ∀ w : Worker α, w.Visited
  | leaf a => fun view job =>
    ⟨[⟨[], a, job, (Leaf.serve (fun a => view (leaf a)) a job).2.2⟩],
      .visit (.refl job) (.none (.refl _)),
      List.forall_mem_singleton.2 ⟨rfl, ⟨_, rfl⟩, fun _ => rfl, fun way i h => by simp at h⟩⟩
  | balancer b ws => visited_balancer b (visited_members ws)

theorem visited_members : ∀ ws : List (Worker α), ∀ w ∈ ws, w.Visited
  | [], w, hw => absurd hw List.not_mem_nil
  | w :: rest, w', hw => by
    rcases List.mem_cons.1 hw with h | hw
    · exact h ▸ visited w
    · exact visited_members rest w' hw

end

end Worker

/-! ## Routes -/

/-- What a leaf sends for a request is the request of a backend. -/
theorem Target.forwards_serve (t : Target) (view : Target → List WorkerStatus) (job : Job) :
    job.world.Forwards (fun bytes => ∃ b, t = .backend b ∧ (b.forwardRequest job.tx).Fills bytes)
      (Leaf.serve view t job).2.2.world := by
  cases t with
  | backend b =>
    rw [serve_backend]
    exact (b.repeats_serveAlone job).forwards.mono fun bytes h => ⟨b, rfl, h⟩
  | monitor m =>
    rw [serve_monitor]
    cases m.phase.ready m.name with
    | error e => exact .silent rfl
    | ok _ =>
      obtain ⟨⟨events, hgoes, hlocal⟩, -⟩ := m.local_respond (view (.monitor m)) job
      exact .of_attempts hgoes.history fun e he => (hlocal e he).1

/-- **The JvmRoute attribute names the serving member.**  A request that goes through a tree visits
one leaf after another.  A leaf that is a member has been chosen by its own balancer for this visit,
and all packets with a request that it sends then, on whatever connections, have one JvmRoute
attribute, which holds the route that was on the member's record at that moment. -/
theorem Worker.sends_route_of_member (w : Worker Target) (view : Worker Target → List WorkerStatus)
    (job : Job) :
    ∃ visits : List (Worker.Visit Target), job.Visits visits (w.serve view job).2.2 ∧
      ∀ v ∈ visits, v.In w job ∧ ∀ way i, v.way = way ++ [i] → ∃ lb ws m,
        w.behind? way = some (.balancer lb ws) ∧ lb.Chooses v.before.world.clock i m ∧
        v.before.world.Forwards (fun bytes => ∃ b, v.leaf = .backend b ∧
          (b.forwardRequest v.before.tx).Fills bytes ∧
          (b.forwardRequest v.before.tx).jvmRoutes = [m.route]) v.after.world := by
  obtain ⟨visits, hvisits, hin⟩ := w.visited view job
  refine ⟨visits, hvisits, fun v hv => ⟨hin v hv, fun way i hway => ?_⟩⟩
  obtain ⟨view', hafter⟩ := (hin v hv).serves
  obtain ⟨lb, ws, m, hbehind, hchooses, hroute⟩ := (hin v hv).member way i hway
  refine ⟨lb, ws, m, hbehind, hchooses, ?_⟩
  rw [hafter]
  refine (v.leaf.forwards_serve view' v.before).mono fun bytes ⟨b, hb, hfills⟩ =>
    ⟨b, hb, hfills, ?_⟩
  rw [b.jvmRoutes_forwardRequest, hroute]
  rfl

end AjpGateway
