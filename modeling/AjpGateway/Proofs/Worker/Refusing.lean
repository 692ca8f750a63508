import AjpGateway.Proofs.Worker.Lifecycle

/-!
# Endpoints of destroyed workers

An endpoint may be held while its worker is destroyed, and used later.  Backends and balancers look
at their phase again when they are to serve, so they refuse the request and leave it as it was.  A
monitor looks at its phase only when it hands out an endpoint: one that is held goes on serving.

    Course w w' → w.Same w'                                                        (same_of_course)
    w.kind ≠ .status → w.phase = .destroyed → w.Refuses e                    (refuses_of_destroyed)
    w.kind = .status → w.Reports e                                              (reports_of_status)
-/

namespace AjpGateway

/-! ## Names and kinds -/

/-- A leaf of the same name and kind. -/
structure Target.Same (t t' : Target) : Prop where
  name : t'.name = t.name
  kind : Leaf.kind t' = Leaf.kind t

namespace Target

theorem Same.refl (t : Target) : t.Same t := ⟨rfl, rfl⟩

theorem Same.trans {t t' t'' : Target} (h : t.Same t') (k : t'.Same t'') : t.Same t'' :=
  ⟨k.name.trans h.name, k.kind.trans h.kind⟩

theorem same_acquire (t : Target) (job : Job) : t.Same (t.acquire job).2.1 where
  name := LawfulLeaf.name_acquire t job
  kind := by cases t <;> rfl

theorem same_serveOn (view : Target → List WorkerStatus) (h : Hold) (t : Target) (job : Job) :
    t.Same (t.serveOn view h job).2.1 where
  name := LawfulLeaf.name_serveOn view h t job
  kind := by cases h <;> cases t <;> rfl

theorem same_serve (view : Target → List WorkerStatus) (t : Target) (job : Job) :
    t.Same (Leaf.serve view t job).2.1 where
  name := Leaf.name_serve view t job
  kind := by
    cases t with
    | backend b =>
      rw [serve_backend]
      rfl
    | monitor m =>
      rw [serve_monitor]
      cases m.phase.ready m.name <;> rfl

theorem same_refresh (p : Properties) (t : Target) : t.Same (t.refresh p).2 where
  name := LawfulLeaf.name_refresh p t
  kind := by cases t <;> rfl

theorem same_destroy (t : Target) : t.Same (Leaf.destroy t) where
  name := LawfulLeaf.name_destroy t
  kind := by cases t <;> rfl

theorem same_attach (t : Target) : t.Same (Leaf.attach t) where
  name := LawfulLeaf.name_attach t
  kind := by cases t <;> rfl

end Target

/-! ## Destroyed backends -/

/-- A destroyed backend refuses before it takes up the line of the endpoint. -/
theorem Backend.serveAt_of_destroyed {b : Backend} (h : b.phase = .destroyed) (e : Endpoint)
    (job : Job) : b.serveAt e job = (.error (.destroyed b.name), e, b, job) := by
  unfold serveAt
  rw [h]
  rfl

/-! ## Reports -/

namespace Monitor

variable (m : Monitor) (workers : List WorkerStatus) (job : Job)

/-- The headers are given once, also where the client does not take them. -/
theorem headerCalls_respond :
    ((m.respond workers).run job).2.tx.channel.headerCalls =
      job.tx.channel.headerCalls + 1 := by
  have hheaders (headers : List (String × String)) :
      ((Job.writeHeaders 200 "OK" headers).run job).2.tx.channel.headerCalls =
        job.tx.channel.headerCalls + 1 := by
    show (Channel.writeHeaders _ _ _ _).2.headerCalls = _
    unfold Channel.writeHeaders
    cases job.tx.channel.plan.headers job.tx.channel.headerCalls <;> rfl
  have hbody (n : Nat) (data : Bytes) :
      Keeps (fun j : Job => j.tx.channel.headerCalls = n) (Job.writeBody data) := by
    intro j hj
    show (Channel.writeBody _ _).2.headerCalls = _
    unfold Channel.writeBody
    cases j.tx.channel.plan.body j.tx.channel.bodyCalls <;> exact hj
  unfold respond
  dsimp only
  generalize [("Content-Type", "application/json"), _] = headers
  have hheaders := hheaders headers
  rw [run_bind]
  rcases hr : (Job.writeHeaders 200 "OK" headers).run job with ⟨r, j⟩
  rw [hr] at hheaders
  cases r with
  | error e => exact hheaders
  | ok _ =>
    have hheaders : j.tx.channel.headerCalls = job.tx.channel.headerCalls + 1 := hheaders
    refine Keeps.get.bind (I := fun j : Job => j.tx.channel.headerCalls = _) (fun k => ?_) j
      hheaders
    split
    · exact (hbody _ _).bind fun _ => Keeps.pure 200
    · exact Keeps.pure 200

/-- A client that takes everything is answered, whatever the monitor's phase. -/
theorem respond_willing (hheaders : ∀ n, job.tx.channel.plan.headers n = .ok ())
    (hbody : ∀ n, job.tx.channel.plan.body n = .ok ()) :
    ((m.respond workers).run job).1 = .ok 200 ∧
      ((m.respond workers).run job).2.tx.channel.status? = some 200 := by
  have hheaders (headers : List (String × String)) :
      (Job.writeHeaders 200 "OK" headers).run job =
        (.ok (), job.telling (.sendHeaders 200 (some "OK") headers)) := by
    have hok : (Job.writeHeaders (200 : UInt16).toNat ((some "OK").getD "") headers).run job =
        (.ok (), job.telling (.sendHeaders 200 (some "OK") headers)) := Job.writeHeaders_ok hheaders
    exact hok
  unfold respond
  dsimp only
  generalize Text.utf8 _ = document
  generalize [("Content-Type", "application/json"), _] = headers
  rw [run_bind_of_ok (hheaders headers), run_bind_of_ok (run_get _)]
  have hbody : ∀ n, (job.telling (.sendHeaders 200 (some "OK") headers)).tx.channel.plan.body n =
      .ok () := hbody
  split
  · rw [run_bind_of_ok (Job.writeBody_ok hbody)]
    exact ⟨rfl, rfl⟩
  · exact ⟨rfl, rfl⟩

end Monitor

namespace Worker

/-- A tree of the same workers: each has the name and the kind that it had. -/
def Same : Worker Target → Worker Target → Prop :=
  Alike Target.Same fun b b' => b'.name = b.name

variable {w w' v : Worker Target}

theorem Same.refl (w : Worker Target) : w.Same w :=
  Alike.refl (R := Target.Same) (Q := fun b b' => b'.name = b.name) Target.Same.refl
    (fun _ => rfl) w

theorem Same.trans (h : w.Same w') (k : w'.Same v) : w.Same v :=
  Alike.trans (R := Target.Same) (Q := fun b b' => b'.name = b.name) Target.Same.trans
    (fun h k => k.trans h) h k

theorem Same.leaf {t t' : Target} (h : t.Same t') : (leaf t).Same (leaf t') := Alike.leaf h

/-- A change of a balancer that leaves its members' workers alone. -/
theorem Same.front {b b' : Balancer Float} (h : b'.name = b.name) (ws : List (Worker Target)) :
    (Worker.balancer b ws).Same (Worker.balancer b' ws) :=
  Alike.balancer h (List.forall₂_same.2 fun w _ => Same.refl w)

theorem Same.name (h : w.Same w') : w'.name = w.name := by
  cases h with
  | leaf h => exact h.name
  | balancer h _ => exact h

theorem Same.kind (h : w.Same w') : w'.kind = w.kind := by
  cases h with
  | leaf h => exact h.kind
  | balancer _ _ => rfl

theorem same_serve (w : Worker Target) (view : Worker Target → List WorkerStatus) (job : Job) :
    w.Same (w.serve view job).2.1 :=
  alike_serve Target.Same.refl (fun hsetup _ => congrArg Balancer.Setup.name hsetup)
    Target.same_serve w view job

theorem same_serveOn (e : Endpoint Target) (w : Worker Target)
    (view : Worker Target → List WorkerStatus) (job : Job) : w.Same (w.serveOn e view job).2.1 := by
  cases e with
  | leaf hold =>
    cases w with
    | leaf t => exact .leaf (t.same_serveOn (fun t => view (Worker.leaf t)) hold job)
    | balancer b ws => exact Same.refl _
  | balancer =>
    cases w with
    | leaf t => exact Same.refl _
    | balancer b ws => exact same_serve _ view job

theorem same_validate {hosts : Hosts} {p : Properties} (h : w.validate hosts p = .ok w') :
    w.Same w' := by
  cases w with
  | balancer b ws =>
    obtain ⟨b', hb, rfl⟩ := map_eq_ok_iff.1 h
    obtain ⟨s, -, rfl⟩ := (Balancer.validate_eq_ok_iff (Balancer.phases_of_validate hb).1).1 hb
    refine Same.front ?_ ws
    rfl
  | leaf t =>
    cases t with
    | backend b =>
      obtain ⟨b', hb, rfl⟩ := map_eq_ok_iff.1 h
      obtain ⟨s, address, -, -, rfl⟩ :=
        (Backend.validate_eq_ok_iff (Backend.onward_validate hb).1).1 hb
      exact .leaf ⟨rfl, rfl⟩
    | monitor m =>
      obtain ⟨m', hm, rfl⟩ := map_eq_ok_iff.1 h
      obtain ⟨phase, -, rfl⟩ := map_eq_ok_iff.1 hm
      exact .leaf ⟨rfl, rfl⟩

theorem same_init (h : w.init = .ok w') : w.Same w' := by
  cases w with
  | balancer b ws =>
    obtain ⟨b', hb, rfl⟩ := map_eq_ok_iff.1 h
    obtain ⟨-, rfl⟩ := (Balancer.init_eq_ok_iff (Balancer.phases_of_init hb).1).1 hb
    refine Same.front ?_ ws
    rfl
  | leaf t =>
    cases t with
    | backend b =>
      obtain ⟨b', hb, rfl⟩ := map_eq_ok_iff.1 h
      obtain ⟨-, rfl⟩ := (Backend.init_eq_ok_iff (Backend.onward_init hb).1).1 hb
      exact .leaf ⟨rfl, rfl⟩
    | monitor m =>
      obtain ⟨m', hm, rfl⟩ := map_eq_ok_iff.1 h
      obtain ⟨phase, -, rfl⟩ := map_eq_ok_iff.1 hm
      exact .leaf ⟨rfl, rfl⟩

/-- By induction on the step, for steps of members. -/
theorem Step.same (h : Step w w') : w.Same w' := by
  induction h with
  | validate hosts p w =>
    rw [run_validateInPlace]
    cases hw : w.validate hosts p with
    | error e => exact Same.refl w
    | ok w' => exact same_validate hw
  | @init w returns =>
    rw [run_initInPlace returns]
    cases hw : w.init with
    | error e => exact Same.refl w
    | ok w' => exact same_init hw
  | acquire w job =>
    cases w with
    | leaf t => exact .leaf (t.same_acquire job)
    | balancer b ws => exact Same.refl _
  | serveOn e w view job => exact same_serveOn e w view job
  | serveAt b e job =>
    obtain ⟨requests, errors, hworker⟩ := Call.worker_eq ⟨b, e, job⟩
    show (leaf (.backend b)).Same (leaf (.backend (Call.worker ⟨b, e, job⟩)))
    rw [hworker]
    exact .leaf ⟨rfl, rfl⟩
  | release b e job =>
    refine .leaf ⟨?_, rfl⟩
    show (b.release e job).1.name = b.name
    unfold Backend.release
    split
    · exact b.name_keep e.line job
    · rfl
  | select b ws now routes tried first =>
    exact Same.front (congrArg Balancer.Setup.name (b.setup_select now routes tried first)) ws
  | mark b ws i now outcome =>
    refine Same.front ?_ ws
    unfold Balancer.mark
    cases outcome with
    | ok status => rfl
    | error e =>
      dsimp only
      split <;> rfl
  | refresh p w =>
    exact alike_refresh (Q := fun b b' => b'.name = b.name) Target.Same.refl (fun _ => rfl)
      (Target.same_refresh p) (fun _ _ _ => rfl) w
  | destroy w =>
    exact alike_destroy (Q := fun b b' => b'.name = b.name) Target.same_destroy (fun _ => rfl) w
  | attach w =>
    exact alike_attach (Q := fun b b' => b'.name = b.name) Target.same_attach (fun _ => rfl) w
  | member b before after _ ih =>
    refine Alike.balancer rfl (List.rel_append ?_ (.cons ih ?_))
    · exact List.forall₂_same.2 fun w _ => Same.refl w
    · exact List.forall₂_same.2 fun w _ => Same.refl w

theorem same_of_course (h : Course w w') : w.Same w' := by
  induction h with
  | refl => exact Same.refl w
  | tail _ hs ih => exact ih.trans hs.same

/-! ## Destroyed trees -/

/-- What lies at a place of a tree keeps its name and kind, and once destroyed it stays so. -/
theorem Course.behind (h : Course w w') {path : List Nat} {u : Worker Target}
    (hu : w.behind? path = some u) :
    ∃ u', w'.behind? path = some u' ∧ u.Same u' ∧
      (u.phase = .destroyed → u'.phase = .destroyed) := by
  obtain ⟨u', hu', hsame⟩ := Alike.exists_behind (same_of_course h) hu
  obtain ⟨v, hv, honward⟩ := Alike.exists_behind h.onward hu
  have huv : v = u' := Option.some.inj (hv.symm.trans hu')
  subst huv
  refine ⟨v, hu', hsame, fun hphase => Phase.eq_destroyed_iff.2 ?_⟩
  have hle := Onward.phase honward
  rwa [hphase] at hle

/-! ## Held endpoints -/

/-- The kind of the workers that hand out an endpoint. -/
def Endpoint.kind : Endpoint Target → WorkerKind
  | .leaf (.line _) => .ajp13
  | .leaf .report => .status
  | .balancer => .lb

theorem kind_of_acquire {e : Endpoint Target} {job : Job} (h : (w.acquire job).1 = .ok e) :
    e.kind = w.kind := by
  cases w with
  | balancer b ws =>
    obtain ⟨a, -, rfl⟩ := map_eq_ok_iff.1 h
    rfl
  | leaf t =>
    obtain ⟨hold, hhold, rfl⟩ := map_eq_ok_iff.1 h
    cases t with
    | backend b =>
      obtain ⟨line, -, rfl⟩ := map_eq_ok_iff.1 hhold
      rfl
    | monitor m =>
      obtain ⟨a, -, rfl⟩ := map_eq_ok_iff.1 hhold
      rfl

/-- The worker answers that it was destroyed, and leaves itself and the request as they were. -/
def Refuses (w : Worker Target) (e : Endpoint Target) : Prop :=
  ∀ view job, w.serveOn e view job = (.error (.destroyed w.name), w, job)

/-- The worker gives headers to the client, and a client that takes everything is answered. -/
def Reports (w : Worker Target) (e : Endpoint Target) : Prop :=
  ∀ view job, (w.serveOn e view job).2.2.tx.channel.headerCalls =
      job.tx.channel.headerCalls + 1 ∧
    ((∀ n, job.tx.channel.plan.headers n = .ok ()) → (∀ n, job.tx.channel.plan.body n = .ok ()) →
      (w.serveOn e view job).1 = .ok 200 ∧
        (w.serveOn e view job).2.2.tx.channel.status? = some 200)

/-- Backends and balancers look at their phase when they are to serve. -/
theorem refuses_of_destroyed {e : Endpoint Target} (hkind : e.kind = w.kind)
    (hstatus : w.kind ≠ .status) (hphase : w.phase = .destroyed) : w.Refuses e := by
  intro view job
  cases w with
  | balancer b ws =>
    have hphase : b.phase = .destroyed := hphase
    cases e with
    | leaf hold => cases hold <;> cases hkind
    | balancer =>
      show serveMembers (servers ws) b ws view job = _
      unfold serveMembers
      rw [hphase]
      rfl
  | leaf t =>
    cases t with
    | monitor m => exact absurd rfl hstatus
    | backend b =>
      have hphase : b.phase = .destroyed := hphase
      cases e with
      | balancer => cases hkind
      | leaf hold =>
        cases hold with
        | report => cases hkind
        | line l =>
          have hserve : b.serveOn l job = (.error (.destroyed b.name), b, job) := by
            rw [Backend.serveOn_eq, Backend.serveAt_of_destroyed hphase]
            rfl
          show (fun x => (x.1, leaf (Target.backend x.2.1), x.2.2)) (b.serveOn l job) = _
          rw [hserve]
          rfl

/-- A monitor does not. -/
theorem reports_of_status {e : Endpoint Target} (hkind : e.kind = .status)
    (hstatus : w.kind = .status) : w.Reports e := by
  intro view job
  cases w with
  | balancer b ws => cases hstatus
  | leaf t =>
    cases t with
    | backend b => cases hstatus
    | monitor m =>
      cases e with
      | balancer => cases hkind
      | leaf hold =>
        cases hold with
        | line l => cases hkind
        | report => exact ⟨m.headerCalls_respond _ job, m.respond_willing _ job⟩

/-- A worker cannot both leave a request as it was and give headers to its client. -/
theorem Refuses.not_reports {e : Endpoint Target} (h : w.Refuses e) : ¬ w.Reports e := by
  intro hreports
  have hcalls := (hreports (fun _ => []) visit).1
  rw [h (fun _ => []) visit] at hcalls
  exact Nat.succ_ne_self _ hcalls.symm

/-- **A held endpoint is refused once its worker is destroyed, unless the worker is a monitor.**
The worker lies anywhere in a tree, and anything may happen in the tree between the three calls.
Services in between may have left the endpoint with another line.  A backend refuses at whatever
endpoint is used, also where that is not given back. -/
theorem refused_unless_status {u u₁ : Worker Target} {e e' : Endpoint Target} {path : List Nat}
    {job : Job} (hu : w.behind? path = some u) (hacquire : (u.acquire job).1 = .ok e)
    (hused : e'.kind = e.kind) (hheld : Course w w') (hu₁ : w'.behind? path = some u₁)
    (hdestroyed : u₁.phase = .destroyed) (hlate : Course w' v) :
    ∃ u₂, v.behind? path = some u₂ ∧ u₂.name = u.name ∧ u₂.kind = u.kind ∧
      (u₂.Refuses e' ↔ u.kind ≠ .status) ∧ (u₂.Reports e' ↔ u.kind = .status) ∧
      ∀ b, u₂ = leaf (.backend b) → ∀ (held : AjpGateway.Endpoint) (job : Job),
        b.serveAt held job = (.error (.destroyed u.name), held, b, job) := by
  have hkind := hused.trans (kind_of_acquire hacquire)
  obtain ⟨u₁', hu₁', hsame, -⟩ := hheld.behind hu
  cases Option.some.inj (hu₁.symm.trans hu₁')
  obtain ⟨u₂, hu₂, hsame', hstays⟩ := hlate.behind hu₁
  have hsame : u.Same u₂ := hsame.trans hsame'
  have hphase : u₂.phase = .destroyed := hstays hdestroyed
  have hrefuses (h : u.kind ≠ .status) : u₂.Refuses e' :=
    refuses_of_destroyed (hkind.trans hsame.kind.symm) (hsame.kind ▸ h) hphase
  have hreports (h : u.kind = .status) : u₂.Reports e' :=
    reports_of_status (hkind.trans h) (hsame.kind.trans h)
  refine ⟨u₂, hu₂, hsame.name, hsame.kind, ⟨fun h hs => ?_, hrefuses⟩, ⟨fun h => ?_, hreports⟩,
    fun b hb held job => ?_⟩
  · exact h.not_reports (hreports hs)
  · by_contra hs
    exact (hrefuses hs).not_reports h
  · subst hb
    rw [Backend.serveAt_of_destroyed hphase, ← hsame.name]
    rfl

/-- A monitor that is destroyed after its endpoint was had goes on reporting at it. -/
theorem refused_unless_status_monitor :
    ∃ e : Endpoint Target, ((leaf (.monitor { name := "s", phase := .initialized })).acquire
        visit).1 = .ok e ∧
      (leaf (.monitor { name := "s", phase := .destroyed })).Reports e ∧
      ¬ (leaf (.monitor { name := "s", phase := .destroyed })).Refuses e := by
  have hbehind : (leaf (.monitor { name := "s", phase := .initialized })).behind? [] =
      some (leaf (Target.monitor { name := "s", phase := .initialized })) := rfl
  have hacquire : ((leaf (Target.monitor { name := "s", phase := .initialized })).acquire visit).1 =
      .ok (.leaf .report) := rfl
  have hdestroy : Course (leaf (.monitor { name := "s", phase := .initialized }))
      (leaf (.monitor { name := "s", phase := .destroyed })) := .single (.destroy _)
  have hused : Endpoint.kind (.leaf .report) = Endpoint.kind (.leaf .report) := rfl
  obtain ⟨u₂, hu₂, -, -, hrefuses, hreports, -⟩ :=
    refused_unless_status hbehind hacquire hused hdestroy rfl rfl .refl
  cases hu₂
  exact ⟨.leaf .report, hacquire, hreports.2 rfl, fun h => hrefuses.1 h rfl⟩

end Worker

end AjpGateway
