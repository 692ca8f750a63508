import AjpGateway.Proofs.Worker.Building
import AjpGateway.Proofs.Worker.Conversation
import AjpGateway.Proofs.Worker.Keeping

/-!
# Packet sizes

A backend's packet size is one that may be configured, and every line that it keeps has buffers of
that size.  So it is when a worker is built, and requests and new settings keep it so.

    build hosts p room name = .ok w → w.Sized                                    (sized_build)
    w.Sized → (w.serve view job).2.1.Sized                                       (sized_serve)
    w.Sized → (w.refresh p).2.Sized                                            (sized_refresh)
-/

namespace AjpGateway

open Packet

theorem Pool.mem_of_take {α : Type} (pool : Pool α) (now : Moment) {a : α} :
    ((pool.take now).1 = some a → a ∈ pool.toList) ∧
      (a ∈ (pool.take now).2.toList → a ∈ pool.toList) := by
  have hmem (e : α × Moment) (he : e ∈ pool.entries.filter (pool.fresh now)) :
      e.1 ∈ pool.toList :=
    List.mem_map_of_mem (List.mem_of_mem_filter he)
  unfold take
  cases hf : pool.entries.filter (pool.fresh now) with
  | nil => exact ⟨nofun, fun h => absurd h List.not_mem_nil⟩
  | cons e rest =>
    rw [hf] at hmem
    constructor
    · intro h
      cases h
      exact hmem e List.mem_cons_self
    · intro h
      obtain ⟨e', he', rfl⟩ := List.mem_map.1 h
      exact hmem e' (List.mem_cons_of_mem _ he')

theorem Pool.mem_of_put {α : Type} {pool : Pool α} {now : Moment} {a b : α}
    (h : a ∈ (pool.put b now).2.toList) : a = b ∨ a ∈ pool.toList := by
  unfold put at h
  split at h
  · exact .inr h
  · exact List.mem_cons.1 h

/-! ## Backends -/

/-- Only sizes that may be configured are read. -/
theorem BackendSettings.admissible_of_read {p : Properties} {name : String} {s : BackendSettings}
    (h : BackendSettings.read p name = .ok s) : Admissible s.packetSize := by
  unfold BackendSettings.read at h
  obtain ⟨size, -, h⟩ := bind_eq_ok_iff.1 h
  by_cases hsize : size < defaultSize ∨ largestSize < size
  · dsimp only at h
    rw [if_pos hsize] at h
    cases h
  · dsimp only at h
    rw [if_neg hsize] at h
    obtain ⟨port, -, h⟩ := bind_eq_ok_iff.1 h
    obtain ⟨socketTimeout, -, h⟩ := bind_eq_ok_iff.1 h
    obtain ⟨connectTimeout, -, h⟩ := bind_eq_ok_iff.1 h
    obtain ⟨probeTimeout, -, h⟩ := bind_eq_ok_iff.1 h
    obtain ⟨keepAlive, -, h⟩ := bind_eq_ok_iff.1 h
    obtain ⟨cacheSize, -, h⟩ := bind_eq_ok_iff.1 h
    obtain ⟨cacheTimeout, -, h⟩ := bind_eq_ok_iff.1 h
    cases h
    exact ⟨Nat.not_lt.1 (not_or.1 hsize).1, Nat.not_lt.1 (not_or.1 hsize).2⟩

/-- The packet size may be configured, and the lines are of that size. -/
structure Backend.Sized (b : Backend) : Prop where
  size : Admissible b.settings.packetSize
  lines : ∀ pool, b.pool? = some pool → ∀ line ∈ pool.toList, line.Fits b.settings.packetSize

namespace Backend

variable {b : Backend}

/-- A line that is handed out fits, and so do those that stay. -/
theorem Sized.acquire (h : b.Sized) (job : Job) :
    (b.acquire job).2.1.Sized ∧ (b.acquire job).2.1.settings = b.settings ∧
      ∀ line, (b.acquire job).1 = .ok line → line.Fits b.settings.packetSize := by
  unfold Backend.acquire
  cases b.phase.ready b.name with
  | error e => exact ⟨h, rfl, nofun⟩
  | ok _ =>
    cases hpool : b.pool? with
    | none => exact ⟨h, rfl, nofun⟩
    | some pool =>
      have htake := fun line : Line => pool.mem_of_take job.now.1 (a := line)
      refine ⟨⟨h.size, fun pool' hp line hline => ?_⟩, rfl, fun line hline => ?_⟩
      · obtain rfl := Option.some.inj hp
        exact h.lines pool hpool line ((htake line).2 hline)
      · obtain rfl := Except.ok.inj hline
        cases ht : (pool.take job.now.1).1 with
        | none => exact Line.fits_new (Nat.le_trans (by decide) h.size.1)
        | some line => exact h.lines pool hpool line ((htake line).1 ht)

/-- Serving changes the counts only, and hands back a line that fits. -/
theorem fits_serve {size : Nat} {line : Line} (b : Backend) (job : Job) (h : line.Fits size) :
    (b.serve line job).2.2.1.settings = b.settings ∧
      (b.serve line job).2.2.1.pool? = b.pool? ∧
      ∀ line', (b.serve line job).2.1 = some line' → line'.Fits size := by
  unfold serve
  cases b.phase.ready b.name with
  | error e => exact ⟨rfl, rfl, nofun⟩
  | ok _ =>
    have hfits := fits_exchangeTwice { b with requests := b.requests + 1 } job h
    dsimp only
    rcases hx : exchangeTwice { b with requests := b.requests + 1 } line job with ⟨r, line', job'⟩
    rw [hx] at hfits
    cases r with
    | ok r =>
      refine ⟨rfl, rfl, fun line'' hline => ?_⟩
      dsimp only at hline
      split at hline
      · cases hline
        exact hfits
      · cases hline
    | error e =>
      dsimp only
      split <;> exact ⟨rfl, rfl, nofun⟩

theorem Sized.keep (h : b.Sized) {line : Line} (hline : line.Fits b.settings.packetSize)
    (job : Job) : (b.keep line job).1.Sized := by
  unfold Backend.keep
  split
  · cases hpool : b.pool? with
    | none => exact h
    | some pool =>
      refine ⟨h.size, fun pool' hp line' hmem => ?_⟩
      obtain rfl := Option.some.inj hp
      rcases Pool.mem_of_put hmem with rfl | hmem
      · exact hline
      · exact h.lines pool hpool line' hmem
  · exact h

theorem Sized.serveOn (h : b.Sized) {line : Line} (hline : line.Fits b.settings.packetSize)
    (job : Job) : (b.serveOn line job).2.1.Sized := by
  obtain ⟨hsettings, hpool, hback⟩ := fits_serve b job hline
  unfold Backend.serveOn
  rcases hs : b.serve line job with ⟨r, line?, b', job'⟩
  rw [hs] at hsettings hpool hback
  have hsettings : b'.settings = b.settings := hsettings
  have hpool : b'.pool? = b.pool? := hpool
  have hsized : b'.Sized := by
    refine ⟨?_, ?_⟩
    · rw [hsettings]
      exact h.size
    · rw [hsettings, hpool]
      exact h.lines
  cases line? with
  | none => exact hsized
  | some line' =>
    refine hsized.keep ?_ job'
    rw [hsettings]
    exact hback line' rfl

theorem Sized.refresh (h : b.Sized) (p : Properties) : (b.refresh p).2.Sized := by
  unfold Backend.refresh
  cases hs : BackendSettings.read p b.name with
  | error e => exact h
  | ok s =>
    refine ⟨h.size, fun pool hp line hline => ?_⟩
    obtain ⟨pool₀, hpool, rfl⟩ := Option.map_eq_some_iff.1 hp
    refine h.lines pool₀ hpool line ?_
    dsimp only at hline
    split at hline
    · exact List.map_subset _ (List.take_subset ..) hline
    · exact absurd hline List.not_mem_nil

/-- Serves a job over a line of its own. -/
def serveAlone (b : Backend) (job : Job) : Outcome × Backend × Job :=
  match b.acquire job with
  | (.error e, b, job) => (.error e, b, job)
  | (.ok line, b, job) => b.serveOn line job

theorem Sized.serveAlone (h : b.Sized) (job : Job) : (b.serveAlone job).2.1.Sized := by
  obtain ⟨hsized, hsettings, hline⟩ := h.acquire job
  unfold Backend.serveAlone
  rcases ha : b.acquire job with ⟨r, b', job'⟩
  rw [ha] at hsized hsettings hline
  cases r with
  | error e => exact hsized
  | ok line =>
    refine hsized.serveOn ?_ job'
    rw [hsettings]
    exact hline line rfl

end Backend

/-! ## Leaves -/

namespace Target

theorem serve_backend (view : Target → List WorkerStatus) (b : Backend) (job : Job) :
    Leaf.serve view (.backend b) job =
      ((b.serveAlone job).1, .backend (b.serveAlone job).2.1, (b.serveAlone job).2.2) := by
  rcases ha : b.acquire job with ⟨r, b', job'⟩
  have hacquire : Leaf.acquire (Target.backend b) job = (r.map Hold.line, .backend b', job') := by
    show (Target.backend b).acquire job = _
    unfold Target.acquire
    dsimp only
    rw [ha]
  unfold Leaf.serve Backend.serveAlone
  rw [hacquire, ha]
  cases r <;> rfl

theorem serve_monitor (view : Target → List WorkerStatus) {m : Monitor} (job : Job) :
    Leaf.serve view (.monitor m) job = match m.phase.ready m.name with
      | .error e => (.error e, .monitor m, job)
      | .ok _ => (((m.respond (view (.monitor m))).run job).1, .monitor m,
          ((m.respond (view (.monitor m))).run job).2) := by
  have hacquire : Leaf.acquire (Target.monitor m) job =
      ((m.phase.ready m.name).map fun _ => Hold.report, .monitor m, job) := rfl
  unfold Leaf.serve
  rw [hacquire]
  cases m.phase.ready m.name <;> rfl

def Sized : Target → Prop
  | backend b => b.Sized
  | monitor _ => True

theorem Sized.serve {t : Target} (h : t.Sized) (view : Target → List WorkerStatus) (job : Job) :
    (Leaf.serve view t job).2.1.Sized := by
  cases t with
  | backend b =>
    rw [serve_backend]
    exact Backend.Sized.serveAlone h job
  | monitor m =>
    rw [serve_monitor]
    cases m.phase.ready m.name <;> trivial

theorem Sized.refresh {t : Target} (h : t.Sized) (p : Properties) : (t.refresh p).2.Sized := by
  cases t with
  | backend b => exact Backend.Sized.refresh h p
  | monitor m => trivial

end Target

/-! ## Trees -/

namespace Worker

theorem serve_backend (b : Backend) (view : Worker Target → List WorkerStatus) (job : Job) :
    serve (.leaf (Target.backend b)) view job =
      ((b.serveAlone job).1, .leaf (Target.backend (b.serveAlone job).2.1),
        (b.serveAlone job).2.2) := by
  unfold serve
  dsimp only
  rw [Target.serve_backend]

/-- Every leaf is of a packet size that may be configured. -/
def Sized (w : Worker Target) : Prop := ∀ t ∈ w.leaves, t.Sized

section
variable {α : Type} {P : α → Prop}

theorem leaves_serveMembers {servers : List (Server α)}
    (h : ∀ server ∈ servers, ∀ view job, ∀ a ∈ (server view job).2.1.leaves, P a)
    {b : Balancer Float} {ws : List (Worker α)} (hws : ∀ w ∈ ws, ∀ a ∈ w.leaves, P a)
    (view : Worker α → List WorkerStatus) (job : Job) :
    ∀ a ∈ (serveMembers servers b ws view job).2.1.leaves, P a := by
  unfold serveMembers
  cases b.phase.ready b.name with
  | error e => exact forall_leaves_iff.2 hws
  | ok _ =>
    refine forall_leaves_iff.2 ?_
    refine Bench.serve_keeps
      (fun s : Bench Float (Worker α) => ∀ w ∈ s.workers, ∀ a ∈ w.leaves, P a)
      (fun _ _ hs => hs) (fun _ _ _ hs => hs) (fun i s hs => ?_) hws
    dsimp only
    cases hi : servers[i]? with
    | none => exact hs
    | some server =>
      intro w hw
      rcases List.mem_or_eq_of_mem_set hw with hw | rfl
      · exact hs w hw
      · exact h server (List.mem_of_getElem? hi) _ s.job

mutual

/-- By induction on the tree: what serving keeps of every leaf, it keeps of a tree. -/
theorem leaves_serve [Leaf α] (hleaf : ∀ view a job, P a → P (Leaf.serve view a job).2.1) :
    ∀ w : Worker α, (∀ a ∈ w.leaves, P a) →
      ∀ view job, ∀ a ∈ (w.serve view job).2.1.leaves, P a
  | leaf a, h, view, job =>
    forall_leaves_leaf.2 (hleaf (fun a => view (.leaf a)) a job (forall_leaves_leaf.1 h))
  | balancer _ ws, h, view, job =>
    leaves_serveMembers (leaves_servers hleaf ws (forall_leaves_iff.1 h)) (forall_leaves_iff.1 h)
      view job

theorem leaves_servers [Leaf α] (hleaf : ∀ view a job, P a → P (Leaf.serve view a job).2.1) :
    ∀ ws : List (Worker α), (∀ w ∈ ws, ∀ a ∈ w.leaves, P a) →
      ∀ server ∈ servers ws, ∀ view job, ∀ a ∈ (server view job).2.1.leaves, P a
  | [], _, server, hs => absurd hs List.not_mem_nil
  | w :: rest, h, server, hs => by
    obtain ⟨hw, hrest⟩ := List.forall_mem_cons.1 h
    rcases List.mem_cons.1 hs with rfl | hs
    · exact leaves_serve hleaf w hw
    · exact leaves_servers hleaf rest hrest server hs

end

end

/-- **Requests keep packet sizes.** -/
theorem sized_serve {w : Worker Target} (h : w.Sized) (view : Worker Target → List WorkerStatus)
    (job : Job) : (w.serve view job).2.1.Sized :=
  leaves_serve (fun view _ job h => Target.Sized.serve h view job) w h view job

mutual

/-- By induction on the tree: new settings keep packet sizes. -/
theorem sized_refresh (p : Properties) : ∀ {w : Worker Target}, w.Sized → (w.refresh p).2.Sized
  | leaf t, h => forall_leaves_leaf.2 (Target.Sized.refresh (forall_leaves_leaf.1 h) p)
  | balancer b ws, h => by
    rw [refresh]
    have hws := sized_refreshAll p (forall_leaves_iff.1 h)
    split
    · exact h
    · split
      · exact h
      · split <;> next hr => exact forall_leaves_iff.2 (by rw [hr] at hws; exact hws)

theorem sized_refreshAll (p : Properties) : ∀ {ws : List (Worker Target)}, (∀ w ∈ ws, w.Sized) →
    ∀ w ∈ (refreshAll p ws).2, w.Sized
  | [], _ => List.forall_mem_nil _
  | w :: rest, h => by
    obtain ⟨hw, hrest⟩ := List.forall_mem_cons.1 h
    have hw' := sized_refresh p hw
    rw [refreshAll]
    split
    · next hr =>
      rw [hr] at hw'
      exact List.forall_mem_cons.2 ⟨hw', hrest⟩
    · next hr =>
      rw [hr] at hw'
      exact List.forall_mem_cons.2 ⟨hw', sized_refreshAll p hrest⟩

end

/-- By induction on the room: a worker is built with packet sizes that may be configured. -/
theorem sized_build {hosts : Hosts} {p : Properties} {room : Nat} {name : String}
    {w : Worker Target} (h : build hosts p room name = .ok w) : w.Sized := by
  induction room generalizing name w with
  | zero => cases h
  | succ room ih =>
    obtain ⟨kind, -, h⟩ := bind_eq_ok_iff.1 h
    cases kind with
    | ajp13 =>
      obtain ⟨s, address, hs, -, -, rfl⟩ := new_backend_eq_ok_iff.1 h
      refine forall_leaves_leaf.2 ⟨BackendSettings.admissible_of_read hs, fun pool hp line hline => ?_⟩
      obtain rfl := Option.some.inj hp
      exact absurd hline List.not_mem_nil
    | status =>
      cases h
      exact forall_leaves_leaf.2 trivial
    | lb =>
      obtain ⟨s, members, -, hmembers, rfl⟩ := balance_eq_ok_iff.1 h
      refine forall_leaves_iff.2 fun w hw => ?_
      obtain ⟨x, hx, rfl⟩ := List.mem_map.1 hw
      obtain ⟨m, -, t, -, hm, -⟩ := exists_of_forall₂_right hmembers hx
      exact ih hm

end Worker

end AjpGateway
