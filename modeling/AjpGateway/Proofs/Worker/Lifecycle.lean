import AjpGateway.Proofs.Worker.Alike
import AjpGateway.Proofs.Worker.Building
import AjpGateway.Proofs.Worker.Lending
import Mathlib.Data.List.Induction
import Mathlib.Logic.Relation

/-!
# The life of a worker

A worker goes from one phase to the next, and never back, whatever is called at it or at the workers
behind it, and in whatever order.  To validate and to open it may fail, and then leave it as it was,
although they change it step by step.  Once it is destroyed it stays so, with all that lies behind
it, and nothing that comes late puts a connection into a pool.

    (validateInPlace hosts p).run w = attempted w (w.validate hosts p)       (run_validateInPlace)
    Step w w' → w.Onward w'                                                          (Step.onward)
    w.Opened → Course w.destroy w' → w'.Closed                                  (closed_of_course)
-/

namespace AjpGateway

theorem Phase.code_le (p : Phase) : p.code ≤ destroyed.code := by cases p <;> decide

theorem Phase.eq_destroyed_iff {p : Phase} : p = destroyed ↔ destroyed.code ≤ p.code := by
  cases p <;> decide

/-! ## Calls in place -/

/-- A call that changes what it is made at step by step, and may fail halfway. -/
abbrev InPlace (σ : Type) := ExceptT ConfigError (StateM σ)

/-- What a call comes to if it changes nothing where it fails. -/
def attempted {σ : Type} (s : σ) : Except ConfigError σ → Except ConfigError Unit × σ
  | .ok s' => (.ok (), s')
  | .error e => (.error e, s)

theorem attempted_map {σ τ : Type} (f : σ → τ) (s : σ) (x : Except ConfigError σ) :
    attempted (f s) (x.map f) = ((attempted s x).1, f (attempted s x).2) := by
  cases x <;> rfl

theorem exists_map_eq_ok_iff {ε α β : Type} {x : Except ε α} {f : α → β} :
    (∃ b, x.map f = .ok b) ↔ ∃ a, x = .ok a := by
  cases x <;> simp [Except.map]

/-- A call that goes on with what it has read fails where nothing can be read. -/
theorem run_ofExcept_bind {σ α : Type} {s : σ} {x : Except ConfigError α} {f : α → InPlace σ Unit}
    {g : α → Except ConfigError σ} (h : ∀ a, x = .ok a → (f a).run s = attempted s (g a)) :
    ((MonadExcept.ofExcept x : InPlace σ α) >>= f).run s = attempted s (x >>= g) := by
  cases x with
  | error e => rfl
  | ok a => exact h a rfl

namespace Backend

/-- Validates in place: what was read is written once the phase has changed. -/
def validateInPlace (hosts : Hosts) (p : Properties) : InPlace Backend Unit := do
  let b ← get
  let settings ← MonadExcept.ofExcept ((BackendSettings.read p b.name).mapError .setting)
  let address ← MonadExcept.ofExcept ((hosts.resolve settings.host settings.port).mapError fun e =>
    .setting (.invalidValue (Properties.workerKey b.name "host")
      (settings.host ++ ":" ++ toString settings.port ++ " (" ++ e.message ++ ")")))
  let phase ← MonadExcept.ofExcept (b.phase.move b.name .unvalidated .validated)
  modify fun b => { b with phase }
  modify fun b => { b with options := settings.socketOptions }
  modify fun b => { b with settings }
  modify fun b => { b with address? := some address }

/-- Opens in place: the pool is made once the phase has changed. -/
def initInPlace : InPlace Backend Unit := do
  let b ← get
  let phase ← MonadExcept.ofExcept (b.phase.move b.name .validated .initialized)
  modify fun b => { b with phase }
  match Pool.new? Line.size b.settings.cacheSize b.settings.cacheLimit? with
  | some pool => modify fun b => { b with pool? := some pool }
  | none => throw .noRoom

theorem run_validateInPlace (hosts : Hosts) (p : Properties) (b : Backend) :
    (validateInPlace hosts p).run b = attempted b (b.validate hosts p) := by
  unfold validateInPlace validate
  rw [run_bind_of_ok (run_get b)]
  refine run_ofExcept_bind fun settings _ => ?_
  refine run_ofExcept_bind fun address _ => ?_
  exact run_ofExcept_bind fun phase _ => rfl

/-- To open fails halfway only if there is no room for the pool. -/
theorem run_initInPlace {b : Backend} (h : b.init ≠ .error .noRoom) :
    initInPlace.run b = attempted b b.init := by
  unfold initInPlace
  unfold init at h ⊢
  rw [run_bind_of_ok (run_get b)]
  refine run_ofExcept_bind fun phase hphase => ?_
  rw [hphase] at h
  cases hpool : Pool.new? Line.size b.settings.cacheSize b.settings.cacheLimit? with
  | some pool => rfl
  | none =>
    rw [hpool] at h
    exact absurd rfl h

end Backend

namespace Monitor

def validateInPlace : InPlace Monitor Unit := do
  let m ← get
  let phase ← MonadExcept.ofExcept (m.phase.move m.name .unvalidated .validated)
  modify fun m => { m with phase }

def initInPlace : InPlace Monitor Unit := do
  let m ← get
  let phase ← MonadExcept.ofExcept (m.phase.move m.name .validated .initialized)
  modify fun m => { m with phase }

theorem run_validateInPlace (m : Monitor) : validateInPlace.run m = attempted m m.validate := by
  unfold validateInPlace validate
  rw [run_bind_of_ok (run_get m)]
  cases m.phase.move m.name .unvalidated .validated <;> rfl

theorem run_initInPlace (m : Monitor) : initInPlace.run m = attempted m m.init := by
  unfold initInPlace init
  rw [run_bind_of_ok (run_get m)]
  cases m.phase.move m.name .validated .initialized <;> rfl

end Monitor

namespace Balancer

variable {Load : Type}

def validateInPlace (p : Properties) : InPlace (Balancer Load) Unit := do
  let b ← get
  let settings ← MonadExcept.ofExcept ((BalancerSettings.read p b.name).mapError .setting)
  let phase ← MonadExcept.ofExcept (b.phase.move b.name .unvalidated .validated)
  modifyThe (Balancer Load) fun b => { b with phase }
  modifyThe (Balancer Load) fun b => { b with settings }

def initInPlace : InPlace (Balancer Load) Unit := do
  let b ← get
  if b.members.isEmpty then
    throw (.setting (.missing (Properties.workerKey b.name "balance_workers")))
  let phase ← MonadExcept.ofExcept (b.phase.move b.name .validated .initialized)
  modifyThe (Balancer Load) fun b => { b with phase }

theorem run_validateInPlace (p : Properties) (b : Balancer Load) :
    (validateInPlace p).run b = attempted b (b.validate p) := by
  unfold validateInPlace validate
  rw [run_bind_of_ok (run_get b)]
  refine run_ofExcept_bind fun settings _ => ?_
  exact run_ofExcept_bind fun phase _ => rfl

theorem run_initInPlace (b : Balancer Load) : initInPlace.run b = attempted b b.init := by
  unfold initInPlace init
  rw [run_bind_of_ok (run_get b)]
  by_cases h : b.members.isEmpty = true
  · simp only [if_pos h]
    rfl
  · simp only [if_neg h]
    exact run_ofExcept_bind fun phase _ => rfl

end Balancer

namespace Worker

/-- Reads the settings and moves on from the first phase, in place. -/
def validateInPlace (hosts : Hosts) (p : Properties) : InPlace (Worker Target) Unit
  | leaf (.backend b) =>
    let (r, b) := (Backend.validateInPlace hosts p).run b
    (r, leaf (.backend b))
  | leaf (.monitor m) =>
    let (r, m) := Monitor.validateInPlace.run m
    (r, leaf (.monitor m))
  | balancer b members =>
    let (r, b) := (Balancer.validateInPlace p).run b
    (r, balancer b members)

/-- Opens the worker for service, in place. -/
def initInPlace : InPlace (Worker Target) Unit
  | leaf (.backend b) =>
    let (r, b) := Backend.initInPlace.run b
    (r, leaf (.backend b))
  | leaf (.monitor m) =>
    let (r, m) := Monitor.initInPlace.run m
    (r, leaf (.monitor m))
  | balancer b members =>
    let (r, b) := Balancer.initInPlace.run b
    (r, balancer b members)

/-- **A worker that cannot be validated stays as it was.** -/
theorem run_validateInPlace (hosts : Hosts) (p : Properties) (w : Worker Target) :
    (validateInPlace hosts p).run w = attempted w (w.validate hosts p) := by
  cases w with
  | balancer b members =>
    refine Eq.trans ?_ (attempted_map (balancer · members) b (b.validate p)).symm
    rw [← b.run_validateInPlace p]
    rfl
  | leaf t =>
    cases t with
    | backend b =>
      refine Eq.trans ?_
        (attempted_map (fun b => leaf (Target.backend b)) b (b.validate hosts p)).symm
      rw [← b.run_validateInPlace hosts p]
      rfl
    | monitor m =>
      refine Eq.trans ?_ (attempted_map (fun m => leaf (Target.monitor m)) m m.validate).symm
      rw [← m.run_validateInPlace]
      rfl

/-- A worker that cannot be opened stays as it was, unless memory has no room for its pool. -/
theorem run_initInPlace {w : Worker Target} (h : w.init ≠ .error .noRoom) :
    initInPlace.run w = attempted w w.init := by
  cases w with
  | balancer b members =>
    refine Eq.trans ?_ (attempted_map (balancer · members) b b.init).symm
    rw [← b.run_initInPlace]
    rfl
  | leaf t =>
    cases t with
    | backend b =>
      refine Eq.trans ?_ (attempted_map (fun b => leaf (Target.backend b)) b b.init).symm
      rw [← b.run_initInPlace fun hb =>
        h (congrArg (Except.map fun b => leaf (Target.backend b)) hb)]
      rfl
    | monitor m =>
      refine Eq.trans ?_ (attempted_map (fun m => leaf (Target.monitor m)) m m.init).symm
      rw [← m.run_initInPlace]
      rfl

end Worker

/-! ## Backends -/

namespace Backend

/-- An open backend has a pool, and any other keeps no connection. -/
structure Opened (b : Backend) : Prop where
  pool : b.phase = .initialized → b.pool?.isSome = true
  empty : b.phase ≠ .initialized → b.pooled = []

/-- What becomes of a backend whose phase is left alone. -/
structure Stays (b b' : Backend) : Prop where
  phase : b'.phase = b.phase
  pool : b'.pool?.isSome = b.pool?.isSome
  empty : b.phase ≠ .initialized → b.pooled = [] → b'.pooled = []

/-- What becomes of a backend: its phase never moves back. -/
structure Onward (b b' : Backend) : Prop where
  phase : b.phase.code ≤ b'.phase.code
  opened : b.Opened → b'.Opened

variable {b b' b'' : Backend}

theorem Stays.refl (b : Backend) : b.Stays b := ⟨rfl, rfl, fun _ h => h⟩

theorem Stays.trans (h : b.Stays b') (k : b'.Stays b'') : b.Stays b'' where
  phase := k.phase.trans h.phase
  pool := k.pool.trans h.pool
  empty hphase hempty := k.empty (h.phase ▸ hphase) (h.empty hphase hempty)

theorem Stays.onward (h : b.Stays b') : b.Onward b' where
  phase := Nat.le_of_eq (congrArg Phase.code h.phase.symm)
  opened hopened :=
    { pool := fun hphase => h.pool ▸ hopened.pool (h.phase ▸ hphase)
      empty := fun hphase =>
        have hphase := h.phase ▸ hphase
        h.empty hphase (hopened.empty hphase) }

theorem stays_acquire (b : Backend) (job : Job) : b.Stays (b.acquire job).2.1 := by
  unfold acquire
  cases hready : b.phase.ready b.name with
  | error e => exact .refl b
  | ok _ =>
    cases hpool : b.pool? with
    | none => exact .refl b
    | some pool =>
      refine ⟨rfl, ?_, fun hphase => absurd (Phase.ready_eq_ok_iff.1 hready) hphase⟩
      rw [hpool]
      rfl

theorem stays_serveAt (b : Backend) (e : Endpoint) (job : Job) :
    b.Stays (b.serveAt e job).2.2.1 := by
  obtain ⟨requests, errors, hworker⟩ := Call.worker_eq ⟨b, e, job⟩
  show b.Stays (Call.worker ⟨b, e, job⟩)
  rw [hworker]
  exact ⟨rfl, rfl, fun _ hempty => hempty⟩

theorem stays_keep (b : Backend) (line : Line) (job : Job) : b.Stays (b.keep line job).1 := by
  unfold keep
  split
  · next hkept =>
    cases hpool : b.pool? with
    | none => exact .refl b
    | some pool =>
      refine ⟨rfl, ?_, fun hphase => absurd hkept.1 hphase⟩
      rw [hpool]
      rfl
  · exact .refl b

theorem stays_release (b : Backend) (e : Endpoint) (job : Job) : b.Stays (b.release e job).1 := by
  unfold release
  split
  · exact b.stays_keep e.line job
  · exact .refl b

theorem stays_serveOn (b : Backend) (line : Line) (job : Job) :
    b.Stays (b.serveOn line job).2.1 := by
  rw [serveOn_eq]
  exact (b.stays_serveAt { line } job).trans (stays_release _ _ _)

theorem stays_serveAlone (b : Backend) (job : Job) : b.Stays (b.serveAlone job).2.1 := by
  have hacquired := b.stays_acquire job
  unfold serveAlone
  rcases ha : b.acquire job with ⟨r, b', job'⟩
  rw [ha] at hacquired
  cases r with
  | error e => exact hacquired
  | ok line => exact hacquired.trans (b'.stays_serveOn line job')

theorem stays_refresh (b : Backend) (p : Properties) : b.Stays (b.refresh p).2 := by
  obtain ⟨hphase, -, hsub⟩ := b.refresh_keeps p
  refine ⟨hphase, ?_, fun _ hempty => List.sublist_nil.1 (hempty ▸ hsub)⟩
  unfold refresh
  cases BackendSettings.read p b.name with
  | error e => rfl
  | ok s => exact Option.isSome_map

theorem onward_destroy (b : Backend) : b.Onward b.destroy where
  phase := b.phase.code_le
  opened _ := ⟨nofun, fun _ => b.pooled_destroy⟩

theorem onward_validate {hosts : Hosts} {p : Properties} (h : b.validate hosts p = .ok b') :
    b.phase = .unvalidated ∧ b'.phase = .validated ∧ b.Onward b' := by
  have hphase : b.phase = .unvalidated := by
    unfold validate at h
    obtain ⟨s, -, h⟩ := bind_eq_ok_iff.1 h
    obtain ⟨address, -, h⟩ := bind_eq_ok_iff.1 h
    obtain ⟨phase, hmove, -⟩ := bind_eq_ok_iff.1 h
    exact (Phase.move_eq_ok_iff.1 hmove).1
  obtain ⟨s, address, -, -, rfl⟩ := (validate_eq_ok_iff hphase).1 h
  refine ⟨hphase, rfl, ?_, fun hopened => ⟨nofun, fun _ => hopened.empty ?_⟩⟩
  · rw [hphase]
    exact Nat.zero_le _
  · rw [hphase]
    exact nofun

theorem onward_init (h : b.init = .ok b') :
    b.phase = .validated ∧ b'.phase = .initialized ∧ b.Onward b' := by
  have hphase : b.phase = .validated := by
    unfold init at h
    obtain ⟨phase, hmove, -⟩ := bind_eq_ok_iff.1 h
    exact (Phase.move_eq_ok_iff.1 hmove).1
  obtain ⟨-, rfl⟩ := (init_eq_ok_iff hphase).1 h
  refine ⟨hphase, rfl, ?_, fun _ => ⟨fun _ => rfl, fun h => absurd rfl h⟩⟩
  rw [hphase]
  exact Nat.le_succ 1

/-- A line can be had exactly while the backend is open. -/
theorem acquire_ok_iff (h : b.Opened) (job : Job) :
    (∃ line, (b.acquire job).1 = .ok line) ↔ b.phase = .initialized := by
  unfold acquire
  cases hready : b.phase.ready b.name with
  | error e =>
    refine iff_of_false (fun ⟨line, hline⟩ => by cases hline) fun hphase => ?_
    rw [Phase.ready_eq_ok_iff.2 hphase] at hready
    cases hready
  | ok _ =>
    have hphase := Phase.ready_eq_ok_iff.1 hready
    obtain ⟨pool, hpool⟩ := Option.isSome_iff_exists.1 (h.pool hphase)
    rw [hpool]
    exact iff_of_true ⟨_, rfl⟩ hphase

end Backend

namespace Monitor

variable {m m' : Monitor}

theorem phases_of_validate (h : m.validate = .ok m') :
    m.phase = .unvalidated ∧ m'.phase = .validated := by
  obtain ⟨phase, hmove, rfl⟩ := map_eq_ok_iff.1 h
  exact Phase.move_eq_ok_iff.1 hmove

theorem phases_of_init (h : m.init = .ok m') : m.phase = .validated ∧ m'.phase = .initialized := by
  obtain ⟨phase, hmove, rfl⟩ := map_eq_ok_iff.1 h
  exact Phase.move_eq_ok_iff.1 hmove

end Monitor

namespace Balancer

variable {Load : Type} {b b' : Balancer Load}

theorem phases_of_validate {p : Properties} (h : b.validate p = .ok b') :
    b.phase = .unvalidated ∧ b'.phase = .validated := by
  unfold validate at h
  obtain ⟨s, -, h⟩ := bind_eq_ok_iff.1 h
  obtain ⟨phase, hmove, h⟩ := bind_eq_ok_iff.1 h
  cases h
  exact Phase.move_eq_ok_iff.1 hmove

theorem phases_of_init (h : b.init = .ok b') : b.phase = .validated ∧ b'.phase = .initialized := by
  unfold init at h
  by_cases hm : b.members.isEmpty = true
  · rw [if_pos hm] at h
    cases h
  · rw [if_neg hm] at h
    obtain ⟨phase, hmove, h⟩ := bind_eq_ok_iff.1 h
    cases h
    exact Phase.move_eq_ok_iff.1 hmove

end Balancer

/-! ## Leaves -/

namespace Target

/-- The lines that a leaf keeps. -/
def pooled : Target → List Line
  | backend b => b.pooled
  | monitor _ => []

def Opened : Target → Prop
  | backend b => b.Opened
  | monitor _ => True

/-- What becomes of a leaf: its phase never moves back. -/
structure Onward (t t' : Target) : Prop where
  phase : t.phase.code ≤ t'.phase.code
  opened : t.Opened → t'.Opened

variable {t t' t'' : Target}

theorem Onward.refl (t : Target) : t.Onward t := ⟨Nat.le_refl _, id⟩

theorem Onward.trans (h : t.Onward t') (k : t'.Onward t'') : t.Onward t'' :=
  ⟨Nat.le_trans h.phase k.phase, fun hopened => k.opened (h.opened hopened)⟩

theorem Onward.backend {b b' : Backend} (h : b.Onward b') : (backend b).Onward (.backend b') :=
  ⟨h.phase, h.opened⟩

theorem Onward.monitor {m m' : Monitor} (h : m.phase.code ≤ m'.phase.code) :
    (monitor m).Onward (.monitor m') :=
  ⟨h, id⟩

theorem onward_acquire (t : Target) (job : Job) : t.Onward (t.acquire job).2.1 := by
  cases t with
  | backend b => exact .backend (b.stays_acquire job).onward
  | monitor m => exact .refl _

theorem onward_serveOn (view : Target → List WorkerStatus) (h : Hold) (t : Target) (job : Job) :
    t.Onward (t.serveOn view h job).2.1 := by
  cases h with
  | line l =>
    cases t with
    | backend b => exact .backend (b.stays_serveOn l job).onward
    | monitor m => exact .refl _
  | report =>
    cases t with
    | backend b => exact .refl _
    | monitor m => exact .refl _

theorem onward_serve (view : Target → List WorkerStatus) (t : Target) (job : Job) :
    t.Onward (Leaf.serve view t job).2.1 := by
  cases t with
  | backend b =>
    rw [serve_backend]
    exact .backend (b.stays_serveAlone job).onward
  | monitor m =>
    rw [serve_monitor]
    cases m.phase.ready m.name <;> exact .refl _

theorem onward_refresh (p : Properties) (t : Target) : t.Onward (t.refresh p).2 := by
  cases t with
  | backend b => exact .backend (b.stays_refresh p).onward
  | monitor m => exact .refl _

theorem onward_destroy (t : Target) : t.Onward (Leaf.destroy t) := by
  cases t with
  | backend b => exact .backend b.onward_destroy
  | monitor m => exact .monitor m.phase.code_le

theorem onward_attach (t : Target) : t.Onward (Leaf.attach t) := by
  cases t with
  | backend b => exact .refl _
  | monitor m => exact .monitor (Nat.le_refl _)

/-- A leaf can be had exactly while it is open. -/
theorem acquire_ok_iff (h : t.Opened) (job : Job) :
    (∃ hold, (t.acquire job).1 = .ok hold) ↔ t.phase = .initialized := by
  cases t with
  | monitor m =>
    have hready : (∃ a, m.phase.ready m.name = .ok a) ↔ m.phase = .initialized :=
      ⟨fun ⟨⟨⟩, h⟩ => Phase.ready_eq_ok_iff.1 h, fun h => ⟨(), Phase.ready_eq_ok_iff.2 h⟩⟩
    exact exists_map_eq_ok_iff.trans hready
  | backend b => exact exists_map_eq_ok_iff.trans (Backend.acquire_ok_iff h job)

end Target

/-! ## Trees -/

namespace Worker

/-- What becomes of a tree: no worker of it ever moves back. -/
def Onward : Worker Target → Worker Target → Prop :=
  Alike Target.Onward fun b b' => b.phase.code ≤ b'.phase.code

variable {w w' v : Worker Target}

theorem Onward.refl (w : Worker Target) : w.Onward w :=
  Alike.refl Target.Onward.refl (fun _ => Nat.le_refl _) w

theorem Onward.trans (h : w.Onward w') (k : w'.Onward v) : w.Onward v :=
  Alike.trans (R := Target.Onward) (Q := fun b b' => b.phase.code ≤ b'.phase.code)
    Target.Onward.trans Nat.le_trans h k

theorem Onward.leaf {t t' : Target} (h : t.Onward t') : (leaf t).Onward (leaf t') := Alike.leaf h

theorem Onward.balancer {b b' : Balancer Float} {ws ws' : List (Worker Target)}
    (h : b.phase.code ≤ b'.phase.code) (hs : List.Forall₂ Onward ws ws') :
    (balancer b ws).Onward (balancer b' ws') :=
  Alike.balancer h hs

/-- A change of a balancer that leaves its members' workers alone. -/
theorem Onward.front {b b' : Balancer Float} (h : b.phase.code ≤ b'.phase.code)
    (ws : List (Worker Target)) : (Worker.balancer b ws).Onward (Worker.balancer b' ws) :=
  .balancer h (List.forall₂_same.2 fun w _ => .refl w)

/-! ### Calls -/

theorem onward_serve (w : Worker Target) (view : Worker Target → List WorkerStatus) (job : Job) :
    w.Onward (w.serve view job).2.1 :=
  alike_serve Target.Onward.refl (fun _ h => Nat.le_of_eq (congrArg Phase.code h.symm))
    Target.onward_serve w view job

theorem onward_acquire (w : Worker Target) (job : Job) : w.Onward (w.acquire job).2.1 := by
  cases w with
  | leaf t => exact .leaf (t.onward_acquire job)
  | balancer b members => exact .refl _

theorem onward_serveOn (e : Endpoint Target) (w : Worker Target)
    (view : Worker Target → List WorkerStatus) (job : Job) :
    w.Onward (w.serveOn e view job).2.1 := by
  cases e with
  | leaf hold =>
    cases w with
    | leaf t => exact .leaf (t.onward_serveOn (fun t => view (Worker.leaf t)) hold job)
    | balancer b members => exact .refl _
  | balancer =>
    cases w with
    | leaf t => exact .refl _
    | balancer b members => exact onward_serve _ view job

theorem onward_refresh (p : Properties) (w : Worker Target) : w.Onward (w.refresh p).2 :=
  alike_refresh Target.Onward.refl (fun _ => Nat.le_refl _) (Target.onward_refresh p)
    (fun _ _ _ => Nat.le_refl _) w

theorem onward_destroy (w : Worker Target) : w.Onward w.destroy :=
  alike_destroy Target.onward_destroy (fun b => b.phase.code_le) w

theorem onward_attach (w : Worker Target) : w.Onward w.attach :=
  alike_attach Target.onward_attach (fun _ => Nat.le_refl _) w

/-- A worker is validated out of the first phase only. -/
theorem onward_validate {hosts : Hosts} {p : Properties} (h : w.validate hosts p = .ok w') :
    w.phase = .unvalidated ∧ w'.phase = .validated ∧ w.Onward w' := by
  have hmoved {q q' : Phase} (hq : q = .unvalidated ∧ q' = .validated) : q.code ≤ q'.code := by
    rw [hq.1]
    exact Nat.zero_le _
  cases w with
  | balancer b members =>
    obtain ⟨b', hb, rfl⟩ := map_eq_ok_iff.1 h
    have hphases := Balancer.phases_of_validate hb
    exact ⟨hphases.1, hphases.2, .front (hmoved hphases) members⟩
  | leaf t =>
    cases t with
    | backend b =>
      obtain ⟨b', hb, rfl⟩ := map_eq_ok_iff.1 h
      obtain ⟨hphase, hphase', honward⟩ := Backend.onward_validate hb
      exact ⟨hphase, hphase', .leaf (.backend honward)⟩
    | monitor m =>
      obtain ⟨m', hm, rfl⟩ := map_eq_ok_iff.1 h
      have hphases := Monitor.phases_of_validate hm
      exact ⟨hphases.1, hphases.2, .leaf (.monitor (hmoved hphases))⟩

/-- A worker is opened out of the second phase only. -/
theorem onward_init (h : w.init = .ok w') :
    w.phase = .validated ∧ w'.phase = .initialized ∧ w.Onward w' := by
  have hmoved {q q' : Phase} (hq : q = .validated ∧ q' = .initialized) : q.code ≤ q'.code := by
    rw [hq.1, hq.2]
    decide
  cases w with
  | balancer b members =>
    obtain ⟨b', hb, rfl⟩ := map_eq_ok_iff.1 h
    have hphases := Balancer.phases_of_init hb
    exact ⟨hphases.1, hphases.2, .front (hmoved hphases) members⟩
  | leaf t =>
    cases t with
    | backend b =>
      obtain ⟨b', hb, rfl⟩ := map_eq_ok_iff.1 h
      obtain ⟨hphase, hphase', honward⟩ := Backend.onward_init hb
      exact ⟨hphase, hphase', .leaf (.backend honward)⟩
    | monitor m =>
      obtain ⟨m', hm, rfl⟩ := map_eq_ok_iff.1 h
      have hphases := Monitor.phases_of_init hm
      exact ⟨hphases.1, hphases.2, .leaf (.monitor (hmoved hphases))⟩

/-- A call moves a worker from one phase to another, or fails and leaves it as it was. -/
structure Moves (w : Worker Target) (before after : Phase)
    (x : Except ConfigError Unit × Worker Target) : Prop where
  moved : x.1 = .ok () → w.phase = before ∧ x.2.phase = after
  failed : ∀ e, x.1 = .error e → x.2 = w

theorem moves_validate (hosts : Hosts) (p : Properties) (w : Worker Target) :
    w.Moves .unvalidated .validated ((validateInPlace hosts p).run w) := by
  rw [run_validateInPlace]
  cases h : w.validate hosts p with
  | error e => exact ⟨nofun, fun _ _ => rfl⟩
  | ok w' =>
    obtain ⟨hphase, hphase', -⟩ := onward_validate h
    exact ⟨fun _ => ⟨hphase, hphase'⟩, nofun⟩

theorem moves_init (h : w.init ≠ .error .noRoom) :
    w.Moves .validated .initialized (initInPlace.run w) := by
  rw [run_initInPlace h]
  cases h : w.init with
  | error e => exact ⟨nofun, fun _ _ => rfl⟩
  | ok w' =>
    obtain ⟨hphase, hphase', -⟩ := onward_init h
    exact ⟨fun _ => ⟨hphase, hphase'⟩, nofun⟩

/-! ### Steps -/

/-- Something that happens to a worker or to one behind it.  Calls are made with any job, view and
endpoint, so an endpoint may be used and given back at any time after it was had; and a balancer's
request may be anywhere in its course while other calls are made. -/
inductive Step : Worker Target → Worker Target → Prop where
  | validate (hosts : Hosts) (p : Properties) (w : Worker Target) :
      Step w ((validateInPlace hosts p).run w).2
  /-- does not return where memory has no room for the pool -/
  | init {w : Worker Target} (returns : w.init ≠ .error .noRoom) : Step w (initInPlace.run w).2
  | acquire (w : Worker Target) (job : Job) : Step w (w.acquire job).2.1
  /-- serves a job and gives the endpoint back -/
  | serveOn (e : Endpoint Target) (w : Worker Target) (view : Worker Target → List WorkerStatus)
      (job : Job) : Step w (w.serveOn e view job).2.1
  | serveAt (b : Backend) (e : AjpGateway.Endpoint) (job : Job) :
      Step (leaf (.backend b)) (leaf (.backend (b.serveAt e job).2.2.1))
  | release (b : Backend) (e : AjpGateway.Endpoint) (job : Job) :
      Step (leaf (.backend b)) (leaf (.backend (b.release e job).1))
  /-- chooses a member for a request in its course -/
  | select (b : Balancer Float) (ws : List (Worker Target)) (now : Moment) (routes : List String)
      (tried : List Bool) (first : Bool) :
      Step (balancer b ws) (balancer (b.select now routes tried first).2 ws)
  /-- marks what came of a member -/
  | mark (b : Balancer Float) (ws : List (Worker Target)) (i : Nat) (now : Moment)
      (outcome : Outcome) : Step (balancer b ws) (balancer (b.mark i now outcome) ws)
  | refresh (p : Properties) (w : Worker Target) : Step w (w.refresh p).2
  | destroy (w : Worker Target) : Step w w.destroy
  | attach (w : Worker Target) : Step w w.attach
  | member {w w' : Worker Target} (b : Balancer Float) (before after : List (Worker Target))
      (h : Step w w') :
      Step (balancer b (before ++ w :: after)) (balancer b (before ++ w' :: after))

/-- Any number of steps, in any order. -/
abbrev Course : Worker Target → Worker Target → Prop := Relation.ReflTransGen Step

/-- A worker that was made, however it was put together and whatever happened to it. -/
inductive Made : Worker Target → Prop where
  | new (kind : WorkerKind) (name : String) : Made (new kind name)
  | step {w w' : Worker Target} (h : Made w) (hs : Step w w') : Made w'
  | join {b : Balancer Float} {ws : List (Worker Target)} {w : Worker Target}
      (h : Made (balancer b ws)) (m : Member Float) (hw : Made w) :
      Made (balancer { b with members := b.members ++ [m] } (ws ++ [w]))

/-- By induction on the step, for steps of members: no worker of the tree moves back. -/
theorem Step.onward (h : Step w w') : w.Onward w' := by
  induction h with
  | validate hosts p w =>
    rw [run_validateInPlace]
    cases hw : w.validate hosts p with
    | error e => exact .refl w
    | ok w' => exact (onward_validate hw).2.2
  | @init w returns =>
    rw [run_initInPlace returns]
    cases hw : w.init with
    | error e => exact .refl w
    | ok w' => exact (onward_init hw).2.2
  | acquire w job => exact w.onward_acquire job
  | serveOn e w view job => exact onward_serveOn e w view job
  | serveAt b e job => exact .leaf (.backend (b.stays_serveAt e job).onward)
  | release b e job => exact .leaf (.backend (b.stays_release e job).onward)
  | select b ws now routes tried first =>
    refine .front (Nat.le_of_eq ?_) ws
    rw [b.phase_select now routes tried first]
  | mark b ws i now outcome =>
    refine .front (Nat.le_of_eq ?_) ws
    rw [b.phase_mark i now outcome]
  | refresh p w => exact onward_refresh p w
  | destroy w => exact w.onward_destroy
  | attach w => exact w.onward_attach
  | member b before after _ ih =>
    refine .balancer (Nat.le_refl _) (List.rel_append ?_ (.cons ih ?_))
    · exact List.forall₂_same.2 fun w _ => .refl w
    · exact List.forall₂_same.2 fun w _ => .refl w

theorem Course.onward (h : Course w w') : w.Onward w' := by
  induction h with
  | refl => exact .refl w
  | tail _ hs ih => exact ih.trans hs.onward

/-! ### Open and closed trees -/

/-- Every backend of the tree has a pool if it is open, and keeps no connection otherwise. -/
def Opened (w : Worker Target) : Prop := ∀ t ∈ w.leaves, t.Opened

/-- The lines that a worker keeps by itself. -/
def pooled : Worker Target → List Line
  | leaf t => t.pooled
  | balancer _ _ => []

/-- All workers are destroyed, and no connection is kept. -/
def Closed (w : Worker Target) : Prop := ∀ u ∈ w.all, u.phase = .destroyed ∧ u.pooled = []

theorem Onward.phase (h : w.Onward w') : w.phase.code ≤ w'.phase.code := by
  cases h with
  | leaf h => exact h.phase
  | balancer h _ => exact h

theorem Onward.opened (h : w.Onward w') (hw : w.Opened) : w'.Opened := by
  intro t' ht'
  obtain ⟨t, ht, h⟩ := h.exists_mem_leaves ht'
  exact h.opened (hw t ht)

theorem Opened.of_mem (h : w.Opened) {u : Worker Target} (hu : u ∈ w.all) : u.Opened :=
  fun t ht => h t (leaf_mem_all_iff.1 (mem_all_trans hu (leaf_mem_all_iff.2 ht)))

theorem Made.opened (h : Made w) : w.Opened := by
  induction h with
  | new kind name =>
    cases kind with
    | ajp13 => exact forall_leaves_leaf.2 ⟨nofun, fun _ => rfl⟩
    | status => exact forall_leaves_leaf.2 trivial
    | lb => exact List.forall_mem_nil _
  | step _ hs ih => exact hs.onward.opened ih
  | join _ _ _ ih ihw =>
    refine forall_leaves_iff.2 (List.forall_mem_append.2 ⟨forall_leaves_iff.1 ih, ?_⟩)
    exact List.forall_mem_singleton.2 ihw

/-- **An endpoint can be had exactly while the worker is open**, wherever it lies in the tree. -/
theorem Opened.acquire_ok_iff (h : w.Opened) {u : Worker Target} (hu : u ∈ w.all) (job : Job) :
    (∃ e, (u.acquire job).1 = .ok e) ↔ u.phase = .initialized := by
  cases u with
  | leaf t =>
    have ht := h t (leaf_mem_all_iff.1 hu)
    exact exists_map_eq_ok_iff.trans (Target.acquire_ok_iff ht job)
  | balancer b members =>
    refine exists_map_eq_ok_iff.trans ⟨?_, fun hphase => ⟨(), Phase.ready_eq_ok_iff.2 hphase⟩⟩
    rintro ⟨⟨⟩, hready⟩
    exact Phase.ready_eq_ok_iff.1 hready

/-- Where all workers are destroyed, no pool holds anything. -/
theorem Opened.closed (h : w.Opened) (hphase : ∀ u ∈ w.all, u.phase = .destroyed) : w.Closed := by
  intro u hu
  refine ⟨hphase u hu, ?_⟩
  cases u with
  | balancer b members => rfl
  | leaf t =>
    have ht := h t (leaf_mem_all_iff.1 hu)
    cases t with
    | monitor m => rfl
    | backend b =>
      have hdestroyed : b.phase = .destroyed := hphase _ hu
      exact Backend.Opened.empty ht (by rw [hdestroyed]; exact nofun)

theorem Opened.closed_destroy (h : w.Opened) : w.destroy.Closed := by
  refine (w.onward_destroy.opened h).closed fun u hu => ?_
  have halike : Alike (fun _ t' : Target => t'.phase = .destroyed)
      (fun _ b' : Balancer Float => b'.phase = .destroyed) w w.destroy := by
    refine alike_destroy (fun t => ?_) (fun _ => Eq.refl Phase.destroyed) w
    cases t <;> rfl
  obtain ⟨v, -, h⟩ := halike.exists_mem_all u hu
  cases h with
  | leaf h => exact h
  | balancer h _ => exact h

theorem Closed.onward (h : w.Closed) (hw : w.Opened) (ho : w.Onward w') : w'.Closed := by
  refine (ho.opened hw).closed fun u' hu' => ?_
  obtain ⟨u, hu, ho⟩ := ho.exists_mem_all u' hu'
  have hle := Onward.phase ho
  rw [(h u hu).1] at hle
  exact Phase.eq_destroyed_iff.2 hle

/-- **What is destroyed stays destroyed**, whatever is called late. -/
theorem closed_of_course (h : w.Opened) (hc : Course w.destroy w') : w'.Closed :=
  h.closed_destroy.onward (w.onward_destroy.opened h) hc.onward

/-! ### Workers that a configuration gives -/

variable {hosts : Hosts} {p : Properties} {name : String}

theorem Made.validate (h : Made w) (hw : w.validate hosts p = .ok w') : Made w' := by
  have hs := Step.validate hosts p w
  rw [run_validateInPlace, hw] at hs
  exact h.step hs

theorem Made.init (h : Made w) (hw : w.init = .ok w') : Made w' := by
  have hreturns : w.init ≠ .error .noRoom := by
    rw [hw]
    exact nofun
  have hs := Step.init hreturns
  rw [run_initInPlace hreturns, hw] at hs
  exact h.step hs

theorem Made.join_all {b : Balancer Float} (h : Made (balancer b [])) (hb : b.members = [])
    {members : List (Member Float × Worker Target)} (hm : ∀ x ∈ members, Made x.2) :
    Made (balancer { b with members := members.map Prod.fst } (members.map Prod.snd)) := by
  induction members using List.reverseRecOn with
  | nil => rwa [List.map_nil, List.map_nil, ← hb]
  | append_singleton members x ih =>
    obtain ⟨hmembers, hx⟩ := List.forall_mem_append.1 hm
    rw [List.map_append, List.map_append]
    exact (ih hmembers).join x.1 (hx x List.mem_cons_self)

/-- By induction on the room: what a configuration gives was made by such steps. -/
theorem made_build {room : Nat} (h : build hosts p room name = .ok w) : Made w := by
  induction room generalizing name w with
  | zero => cases h
  | succ room ih =>
    obtain ⟨kind, -, h⟩ := bind_eq_ok_iff.1 h
    have hleaf (h : ((new kind name).validate hosts p).bind Worker.init = .ok w) : Made w := by
      obtain ⟨v, hv, hw⟩ := bind_eq_ok_iff.1 h
      exact ((Made.new kind name).validate hv).init hw
    cases kind with
    | ajp13 => exact hleaf h
    | status => exact hleaf h
    | lb =>
      obtain ⟨s, members, hs, hmembers, rfl⟩ := balance_eq_ok_iff.1 h
      have hvalidated : (new .lb name).validate hosts p =
          .ok (balancer { name, phase := .validated, settings := s } []) :=
        map_eq_ok_iff.2 ⟨_, (Balancer.validate_eq_ok_iff rfl).2 ⟨s, hs, rfl⟩, rfl⟩
      have hjoined := ((Made.new .lb name).validate hvalidated).join_all rfl fun x hx => by
        obtain ⟨m, -, t, -, hm, -⟩ := exists_of_forall₂_right hmembers hx
        exact ih hm
      refine hjoined.init (map_eq_ok_iff.2 ⟨_, (Balancer.init_eq_ok_iff rfl).2 ⟨?_, rfl⟩, rfl⟩)
      intro h
      rw [List.map_eq_nil_iff.1 h, List.forall₂_nil_right_iff] at hmembers
      exact (BalancerSettings.members_of_read hs).2 hmembers

end Worker

end AjpGateway
