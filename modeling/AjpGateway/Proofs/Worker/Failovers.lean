import AjpGateway.Proofs.Worker.Endpoints
import AjpGateway.Proofs.Worker.Nesting

/-!
# Failovers

A balancer counts a failover whenever a member fails in a way that leaves another attempt open,
before it is known whether another member will be tried.  So what is counted in a run are these
failures, and not the retries that follow them:

    r.2.job.world.failovers name =
      s.job.world.failovers name + (asked log).countP fun a => !decides a.2        (Run.failovers)

A run that ends with an answer made one attempt more than it counted.  A run that ends without one
counted its last attempt too, after which there was no retry.
-/

namespace AjpGateway

open Bench (Run Turn asked)

/-- Whether a balancer found no member that serves. -/
def Outcome.isUnserved : Outcome → Bool
  | .error (.unavailable _) => true
  | _ => false

/-- A request without a member that serves it goes on to another balancer. -/
theorem Outcome.isUnserved_of_decides {outcome : Outcome} (h : outcome.decides = true) :
    outcome.isUnserved = false := by
  cases outcome with
  | ok status => rfl
  | error e =>
    cases e with
    | unavailable w => cases h
    | _ => rfl

/-- The failovers counted for a balancer. -/
def World.failovers (w : World) (name : String) : Nat := w.counters.value (.failover name)

theorem World.failovers_count_self (w : World) (name : String) :
    (w.count (.failover name)).failovers name = w.failovers name + 1 :=
  w.counters.value_record_self _

theorem World.failovers_count_of_ne (w : World) {name : String} {m : Metric}
    (h : m ≠ .failover name) : (w.count m).failovers name = w.failovers name :=
  w.counters.value_record_of_ne h.symm

/-! ## What a leaf counts -/

section
variable (name : String)

theorem Talk.lasting_failovers (n : Nat) :
    Talk.Lasting fun t => t.job.world.failovers name = n where
  onRequest _ _ h := h
  transmit _ _ h := h
  collect _ h := h
  decoded _ h := h
  firstPiece t h :=
    Job.keeps_firstPiece (I := fun w => w.failovers name = n) (fun _ _ _ h => h) t.job h
  nextPiece most t h :=
    Job.keeps_nextPiece (I := fun w => w.failovers name = n) (fun _ _ _ h => h) most t.job h
  writeHeaders _ _ _ _ h := h
  writeBody _ _ h := h

namespace Backend

/-- An exchange counts nothing. -/
theorem carries_failovers (b : Backend) :
    b.Carries fun _ job _ job' => job'.world.failovers name = job.world.failovers name where
  refl _ _ := rfl
  trans h h' := h'.trans h
  probe line job :=
    probe_keeps (I := fun j => j.world.failovers name = job.world.failovers name)
      (fun _ _ _ h => h) (fun _ _ _ h => h) b line rfl
  unconnected {line job _ _} h := by
    have hkept := connected_keeps (I := fun j => j.world.failovers name = job.world.failovers name)
      (fun _ _ h => h) (fun _ _ _ h => h) b line rfl
    rwa [h] at hkept
  connected {line job _ _} h := by
    have hkept := connected_keeps (I := fun j => j.world.failovers name = job.world.failovers name)
      (fun _ _ h => h) (fun _ _ _ h => h) b line rfl
    rwa [h] at hkept
  talk t := (Talk.lasting_failovers name _).talk b t rfl
  close _ _ := rfl

/-- A backend counts its errors under another metric. -/
theorem failovers_blame (b : Backend) (f : ServiceError) (job : Job) :
    (b.blame f job).2.world.failovers name = job.world.failovers name := by
  unfold blame
  split
  · rfl
  · exact job.world.failovers_count_of_ne nofun

theorem failovers_keep (b : Backend) (line : Line) (job : Job) :
    (b.keep line job).2.world.failovers name = job.world.failovers name := by
  unfold keep
  split
  · cases b.pool? <;> rfl
  · rfl

theorem failovers_serveOn (b : Backend) (line : Line) (job : Job) :
    (b.serveOn line job).2.2.world.failovers name = job.world.failovers name := by
  have hcall : (Call.after ⟨b, { line }, job⟩).world.failovers name = job.world.failovers name :=
    Call.carries (c := ⟨b, { line }, job⟩)
      (R := fun _ j _ k => k.world.failovers name = j.world.failovers name)
      (b.busy.carries_failovers name) fun f _ j => b.busy.failovers_blame name f j
  rw [serveOn_eq]
  refine Eq.trans ?_ hcall
  show (release _ _ _).2.world.failovers name = _
  unfold release
  split
  · exact failovers_keep name _ _ _
  · rfl

theorem failovers_acquire (b : Backend) (job : Job) :
    (b.acquire job).2.2.world.failovers name = job.world.failovers name := by
  unfold acquire
  split <;> rfl

theorem failovers_serveAlone (b : Backend) (job : Job) :
    (b.serveAlone job).2.2.world.failovers name = job.world.failovers name := by
  have hacquire := b.failovers_acquire name job
  unfold serveAlone
  rcases ha : b.acquire job with ⟨r, b', job'⟩
  rw [ha] at hacquire
  cases r with
  | error e => exact hacquire
  | ok line => exact (b'.failovers_serveOn name line job').trans hacquire

end Backend

theorem Monitor.keeps_failovers (m : Monitor) (workers : List WorkerStatus) (n : Nat) :
    Keeps (fun j : Job => j.world.failovers name = n) (m.respond workers) := by
  unfold respond
  refine Keeps.bind (fun _ h => h) fun _ => Keeps.get.bind fun j => ?_
  split
  · exact Keeps.bind (fun _ h => h) fun _ => Keeps.pure 200
  · exact Keeps.pure 200

theorem Target.failovers_serve (view : Target → List WorkerStatus) (t : Target) (job : Job) :
    (Leaf.serve view t job).2.2.world.failovers name = job.world.failovers name := by
  cases t with
  | backend b =>
    rw [serve_backend]
    exact b.failovers_serveAlone name job
  | monitor m =>
    rw [serve_monitor]
    cases m.phase.ready m.name with
    | error e => rfl
    | ok _ => exact m.keeps_failovers name _ _ job rfl

end

/-! ## What a run counts -/

namespace Bench

variable {Load α : Type} {name : String}

theorem failovers_settle (s : Bench Load α) (i : Nat) (outcome : Outcome) :
    (s.settle i outcome).job.world.failovers name = s.job.world.failovers name := by
  unfold settle
  cases outcome with
  | ok status => rfl
  | error e =>
    dsimp only
    split <;> rfl

section
variable [OfNat Load 0] [Add Load] [Max Load] [LT Load] [DecidableLT Load]
  {ask : Nat → Bench Load α → Outcome × Bench Load α} {routes : List String} {n : Nat}
  {tried : List Bool} {first : Bool} {s : Bench Load α} {log : List (Turn Load)}
  {r : Outcome × Bench Load α}

/-- By induction on the run, where the members count no failover under the name: each attempt that
failed and left another one open is counted, whether another one follows or not. -/
theorem Run.failovers (hkeeps : ∀ i s, (ask i s).2.balancer = s.balancer)
    (hspares : ∀ i s, (ask i s).2.job.world.failovers name = s.job.world.failovers name)
    (h : Run ask routes n tried first s log r) :
    r.2.job.world.failovers name = s.job.world.failovers name +
      if s.balancer.name = name then (asked log).countP fun a => !Outcome.decides a.2 else 0 := by
  have hasked {s s' : Bench Load α} {p : Pick} {balancer : Balancer Load} {outcome : Outcome}
      (hask : ask p.index ((s.selected balancer).aim p.route) = (outcome, s')) :
      (s'.settle p.index outcome).job.world.failovers name = s.job.world.failovers name := by
    have hspared := hspares p.index ((s.selected balancer).aim p.route)
    rw [hask] at hspared
    exact (failovers_settle s' p.index outcome).trans hspared
  induction h with
  | spent => simp [asked]
  | @unchosen n tried first s choice balancer _ _ =>
    have hsame : (s.selected balancer).job.world.failovers name = s.job.world.failovers name := rfl
    simp [asked, hsame]
  | @answered n tried first s s' p balancer outcome _ hask hdecides =>
    have hsame := hasked hask
    simp [asked, hdecides, hsame]
  | @failed n tried first s s' p balancer outcome log r hselect hask hdecides _ ih =>
    have hname : (s'.settle p.index outcome).balancer.name = s.balancer.name :=
      congrArg Balancer.Setup.name (setup_step hkeeps hselect hask)
    have hname' : (s'.settle p.index outcome).failover.balancer.name = s.balancer.name := hname
    have hcount : asked (⟨s.balancer, s.job.now.1, tried, some (p.index, outcome)⟩ :: log) =
        (p.index, outcome) :: asked log := rfl
    rw [ih, hname', hcount, List.countP_cons_of_pos (by simp [hdecides]), ← hasked hask]
    by_cases hs : s.balancer.name = name
    · have hcounted : (s'.settle p.index outcome).failover.job.world.failovers name =
          (s'.settle p.index outcome).job.world.failovers name + 1 := by
        rw [← hname] at hs
        rw [← hs]
        exact World.failovers_count_self _ _
      rw [if_pos hs, if_pos hs, hcounted]
      omega
    · rw [if_neg hs, if_neg hs]
      refine World.failovers_count_of_ne _ fun h => hs ?_
      rw [← hname]
      exact Metric.failover.inj h

/-- Every attempt left another one open but the last, which did so if nobody served. -/
theorem Run.countP_asked (h : Run ask routes n tried first s log r) :
    (asked log).countP (fun a => !Outcome.decides a.2) =
      if Outcome.isUnserved r.1 then (asked log).length else (asked log).length - 1 := by
  rcases h.ends with ⟨earlier, a, hlog, hearlier, ha, hr⟩ | ⟨hall, hr⟩
  · have hanswer : Outcome.isUnserved r.1 = false := by
      rw [hr]
      exact Outcome.isUnserved_of_decides ha
    have hfailed : earlier.countP (fun a => !Outcome.decides a.2) = earlier.length :=
      List.countP_eq_length.2 fun x hx => by simp [hearlier x hx]
    rw [hanswer, hlog, List.countP_append, hfailed]
    simp [ha]
  · rw [hr]
    exact List.countP_eq_length.2 fun x hx => by simp [hall x hx]

end

end Bench

/-! ## Trees -/

namespace Worker

section
variable {α : Type}

/-- A server that counts no failover under the name. -/
def Spares (name : String) (server : Server α) : Prop :=
  ∀ view job, (server view job).2.2.world.failovers name = job.world.failovers name

theorem spares_asking {name : String} {servers : List (Server α)}
    (h : ∀ server ∈ servers, Spares name server) (view : Worker α → List WorkerStatus) (i : Nat)
    (s : Bench Float (Worker α)) :
    (asking servers view i s).2.job.world.failovers name = s.job.world.failovers name := by
  unfold asking
  cases hi : servers[i]? with
  | none => rfl
  | some server => exact h server (List.mem_of_getElem? hi) _ _

/-- A balancer counts failovers under its own name only. -/
theorem spares_serveMembers {name : String} {servers : List (Server α)}
    (h : ∀ server ∈ servers, Spares name server) {b : Balancer Float} (hb : b.name ≠ name)
    (ws : List (Worker α)) : Spares name (serveMembers servers b ws) := by
  intro view job
  by_cases hphase : b.phase = .initialized
  · obtain ⟨log, r, hrun, hserve⟩ := exists_runOf servers view ws job hphase
    have hcounted := hrun.failovers balancer_asking (spares_asking h view)
    rw [hserve, hcounted, if_neg hb]
    rfl
  · unfold serveMembers
    cases hready : b.phase.ready b.name with
    | error e => rfl
    | ok _ => exact absurd (Phase.ready_eq_ok_iff.1 hready) hphase

end

/-- No balancer of the tree has the name. -/
def Lacks (name : String) (w : Worker Target) : Prop :=
  ∀ b ws, balancer b ws ∈ w.all → b.name ≠ name

mutual

theorem spares_serve {name : String} : ∀ w : Worker Target, w.Lacks name → Spares name w.serve
  | leaf t => fun _ view job => t.failovers_serve name (fun t => view (leaf t)) job
  | balancer b ws => fun h =>
    spares_serveMembers (spares_servers ws fun w hw b' ws' hmem =>
      h b' ws' (List.mem_cons_of_mem _ (mem_allOf_iff.2 ⟨w, hw, hmem⟩)))
      (h b ws List.mem_cons_self) ws

theorem spares_servers {name : String} : ∀ ws : List (Worker Target),
    (∀ w ∈ ws, w.Lacks name) → ∀ server ∈ servers ws, Spares name server
  | [], _ => List.forall_mem_nil _
  | w :: rest, h => by
    obtain ⟨hw, hrest⟩ := List.forall_mem_cons.1 h
    exact List.forall_mem_cons.2 ⟨spares_serve w hw, spares_servers rest hrest⟩

end

/-! ## Names in a tree -/

variable {hosts : Hosts} {p : Properties}

/-- The members of a balancer that was built are those that it names, and were built too. -/
theorem members_of_build {room : Nat} {name : String} {b : Balancer Float}
    {ws : List (Worker Target)} (h : build hosts p room name = .ok (balancer b ws)) :
    ∀ w ∈ ws, p.Nests name w.name ∧ ∃ room, build hosts p room w.name = .ok w := by
  cases room with
  | zero => cases h
  | succ room =>
    obtain ⟨kind, hkind, h⟩ := bind_eq_ok_iff.1 h
    rw [mapError_eq_ok_iff] at hkind
    cases kind with
    | ajp13 =>
      obtain ⟨s, address, -, -, -, hw⟩ := new_backend_eq_ok_iff.1 h
      cases hw
    | status => cases h
    | lb =>
      obtain ⟨s, members, hs, hmembers, hw⟩ := balance_eq_ok_iff.1 h
      cases hw
      intro w hw
      obtain ⟨x, hx, rfl⟩ := List.mem_map.1 hw
      obtain ⟨m, hm, t, -, hbuilt, -⟩ := exists_of_forall₂_right hmembers hx
      rw [(BalancerSettings.members_of_read hs).1] at hm
      rw [(follows_build hbuilt).1]
      exact ⟨⟨hkind, hm⟩, room, hbuilt⟩

/-- By induction on the path: what lies in a tree that was built has been built, and its name is
reached from the name of the top. -/
theorem built_of_behind {room : Nat} {w u : Worker Target} {path : List Nat}
    (h : build hosts p room w.name = .ok w) (hu : w.behind? path = some u) :
    Relation.ReflTransGen p.Nests w.name u.name ∧ ∃ room, build hosts p room u.name = .ok u := by
  induction path generalizing room w with
  | nil =>
    cases hu
    exact ⟨.refl, room, h⟩
  | cons i path ih =>
    cases w with
    | leaf t => cases hu
    | balancer b ws =>
      obtain ⟨v, hv, hu⟩ := Option.bind_eq_some_iff.1 hu
      obtain ⟨hnests, room', hbuilt⟩ := members_of_build h v (List.mem_of_getElem? hv)
      obtain ⟨hreach, hu⟩ := ih hbuilt hu
      exact ⟨.head hnests hreach, hu⟩

/-- A configuration gives no balancer that has its own name among those behind it: the names would
make a cycle. -/
theorem lacks_of_create {name : String} {w : Worker Target} {path : List Nat} {b : Balancer Float}
    {ws : List (Worker Target)} (h : create hosts p name = .ok w)
    (hb : w.behind? path = some (balancer b ws)) : ∀ u ∈ ws, u.Lacks b.name := by
  intro v hv b' ws' hmem hname
  have hw := (follows_build h).1
  unfold create at h
  rw [← hw] at h
  obtain ⟨hreach, room, hbuilt⟩ := built_of_behind h hb
  obtain ⟨hnests, room', hbuilt'⟩ := members_of_build hbuilt v hv
  obtain ⟨path', hpath'⟩ := exists_behind_of_mem_all hmem
  obtain ⟨hreach', -⟩ := built_of_behind hbuilt' hpath'
  have hcycle : Relation.TransGen p.Nests b.name b.name := by
    have hback : Relation.ReflTransGen p.Nests v.name b.name := hname ▸ hreach'
    exact .head' hnests hback
  exact not_build_of_cycle ⟨b.name, hreach, hcycle⟩ _ ⟨w, h⟩

/-! ## Retries -/

/-- **Failovers are failures, not retries.**  Whatever an open balancer's members answer, so long as
they count no failover under its name, its counter grows by the attempts that failed and left
another one open.  These are the attempts but the last if the request is answered, so then they are
the retries; if nobody serves it they are all the attempts, one more than the retries unless nobody
was asked.  In a tree that a configuration gives, no member counts under the balancer's name. -/
theorem failovers_counted {b : Balancer Float} (hphase : b.phase = .initialized)
    (ws : List (Worker Target)) :
    (∀ servers : List (Server Target), (∀ server ∈ servers, Spares b.name server) →
      ∀ view job, ∃ log r, RunOf servers view b ws job log r ∧
        serveMembers servers b ws view job =
          (r.1, .balancer r.2.balancer r.2.workers, r.2.job) ∧
        r.2.job.world.failovers b.name = job.world.failovers b.name +
          (if Outcome.isUnserved r.1 then (asked log).length else (asked log).length - 1) ∧
        (r.2.job.world.failovers b.name =
            job.world.failovers b.name + ((asked log).length - 1) ↔
          asked log = [] ∨ Outcome.isUnserved r.1 = false)) ∧
    ((∀ w ∈ ws, w.Lacks b.name) → ∀ server ∈ servers ws, Spares b.name server) ∧
    ∀ hosts p name w path, create hosts p name = .ok w →
      w.behind? path = some (balancer b ws) → ∀ u ∈ ws, u.Lacks b.name := by
  refine ⟨fun servers hspares view job => ?_, fun h => spares_servers ws h,
    fun hosts p name w path h hb => lacks_of_create h hb⟩
  obtain ⟨log, r, hrun, hserve⟩ := exists_runOf servers view ws job hphase
  have hgrown : r.2.job.world.failovers b.name = job.world.failovers b.name +
      (if Outcome.isUnserved r.1 then (asked log).length else (asked log).length - 1) := by
    have hcounted := hrun.failovers balancer_asking (spares_asking hspares view)
    rwa [if_pos rfl, hrun.countP_asked] at hcounted
  refine ⟨log, r, hrun, hserve, hgrown, ?_⟩
  rw [hgrown]
  cases hunserved : Outcome.isUnserved r.1 with
  | false => simp
  | true =>
    -- all attempts are counted, which is as many as the retries only if there were none
    cases asked log with
    | nil => simp
    | cons a rest => simp

/-- Where no worker of a pair is open, both are asked.  That is one retry, and two failovers. -/
theorem failovers_counted_pair :
    ∃ log r, RunOf (servers (monitors .validated)) (fun _ => []) pair (monitors .validated) visit
        log r ∧
      (asked log).length = 2 ∧ Outcome.isUnserved r.1 = true ∧
      r.2.job.world.failovers "pair" = visit.world.failovers "pair" + 2 := by
  have hlacks : ∀ w ∈ monitors .validated, w.Lacks pair.name := by
    intro w hw b ws hmem
    simp only [monitors, List.mem_cons, List.not_mem_nil, or_false] at hw
    rcases hw with rfl | rfl <;> simp [all] at hmem
  obtain ⟨hcounted, hspares, -⟩ := failovers_counted (b := pair) rfl (monitors .validated)
  obtain ⟨log, r, hrun, hserve, hgrown, -⟩ :=
    hcounted (servers (monitors .validated)) (hspares hlacks) (fun _ => []) visit
  have houtcome : Outcome.isUnserved r.1 = true := by
    rw [← congrArg Prod.fst hserve]
    rfl
  have hjob : (serveMembers (servers (monitors .validated)) pair (monitors .validated)
      (fun _ => []) visit).2.2 = r.2.job := congrArg (fun x => x.2.2) hserve
  have hcount : r.2.job.world.failovers pair.name = 2 := by
    rw [← hjob]
    rfl
  rw [if_pos houtcome, hcount] at hgrown
  have hnone : visit.world.failovers pair.name = 0 := rfl
  exact ⟨log, r, hrun, by omega, houtcome, hcount⟩

end Worker

end AjpGateway
