import AjpGateway.Proofs.Gateway.Mapping
import AjpGateway.Proofs.Worker.Lifecycle

/-!
# Shutting down

Once a gateway is shut down all workers of its registry are destroyed, with all that lies behind
them, and they stay so.  Requests, new mounts and new settings may still come: the table goes on
finding ways, and the worker that each of them leads to refuses the request.

    g.Settled → Step p g q g' → g'.Settled                                         (Step.settled)
    no worker moves back, and none serves after the shutdown               (workers_move_onward)
-/

namespace AjpGateway

/-! ## Destroyed workers -/

namespace Worker

theorem serve_of_destroyed {w : Worker Target} (h : w.phase = .destroyed)
    (view : Worker Target → List WorkerStatus) (job : Job) :
    (w.serve view job).1 = .error (.destroyed w.name) := by
  cases w with
  | balancer b members =>
    have h : b.phase = .destroyed := h
    show (serveMembers (servers members) b members view job).1 = _
    unfold serveMembers
    rw [h]
    rfl
  | leaf t =>
    cases t with
    | backend b =>
      have h : b.phase = .destroyed := h
      rw [serve_backend]
      unfold Backend.serveAlone Backend.acquire
      rw [h]
      rfl
    | monitor m =>
      have h : m.phase = .destroyed := h
      show (Leaf.serve (fun t => view (leaf t)) (Target.monitor m) job).1 = _
      rw [Target.serve_monitor, h]
      rfl

end Worker

/-! ## Registries -/

namespace Registry

variable {r : Registry Target}

theorem exists_of_mem_refresh {p : Properties} {e' : String × Worker Target}
    (h : e' ∈ (r.refresh p).2.entries) : ∃ e ∈ r.entries, e.2.Onward e'.2 := by
  have hentries : ∀ entries : List (String × Worker Target),
      e' ∈ (refreshEntries p entries).2 → ∃ e ∈ entries, e.2.Onward e'.2 := by
    intro entries
    induction entries with
    | nil => exact fun h => absurd h List.not_mem_nil
    | cons e rest ih =>
      have hw := Worker.onward_refresh p e.2
      intro h
      unfold refreshEntries at h
      rcases hr : e.2.refresh p with ⟨x, w'⟩
      rw [hr] at h hw
      cases x with
      | error f =>
        rcases List.mem_cons.1 h with rfl | h
        · exact ⟨e, List.mem_cons_self, hw⟩
        · exact ⟨e', List.mem_cons_of_mem _ h, .refl _⟩
      | ok _ =>
        rcases List.mem_cons.1 h with rfl | h
        · exact ⟨e, List.mem_cons_self, hw⟩
        · obtain ⟨e₀, he₀, h⟩ := ih h
          exact ⟨e₀, List.mem_cons_of_mem _ he₀, h⟩
  exact hentries r.entries h

theorem exists_of_mem_serve? {r' : Registry Target} {name : String} {job job' : Job} {o : Outcome}
    (hs : r.serve? name job = some (o, r', job')) {e' : String × Worker Target}
    (h : e' ∈ r'.entries) : ∃ e ∈ r.entries, e.2.Onward e'.2 := by
  obtain ⟨w, w', hw, hserve, rfl⟩ := serve?_eq_some_iff.1 hs
  rcases mem_of_mem_insert h with rfl | h
  · have honward := w.onward_serve (fun w => (r.insert w).statuses job.world.clock) job
    rw [hserve] at honward
    exact ⟨_, mem_of_find? hw, honward⟩
  · exact ⟨e', h, .refl _⟩

theorem opened_ofProperties {hosts : Hosts} {p : Properties} (h : ofProperties hosts p = .ok r) :
    ∀ e ∈ r.entries, e.2.Opened := by
  obtain ⟨ws, hws, rfl⟩ := ofProperties_eq_ok_iff.1 h
  intro e he
  obtain ⟨e₀, he₀, rfl⟩ := List.mem_map.1 he
  rcases mem_of_mem_foldl_insert he₀ with ⟨w, hw, rfl⟩ | he₀
  · obtain ⟨name, -, hw⟩ := exists_of_forall₂_right hws hw
    exact w.onward_attach.opened (Worker.made_build hw).opened
  · exact absurd he₀ List.not_mem_nil

end Registry

namespace Gateway

variable {hosts : Hosts} {p₀ p q : Properties} {g₀ g g' : Gateway}

/-- Every registered worker is sound, and closed if the gateway is shut down. -/
def Settled (g : Gateway) : Prop :=
  ∀ e ∈ g.registry.entries, e.2.Opened ∧ (g.shutDown = true → e.2.Closed)

theorem settled_ofProperties (h : ofProperties hosts p = .ok g) : g.Settled := by
  obtain ⟨-, hr, -, hs⟩ := ofProperties_eq_ok_iff.1 h
  intro e he
  refine ⟨Registry.opened_ofProperties hr e he, fun hdown => ?_⟩
  rw [hs] at hdown
  cases hdown

/-- Workers may move on. -/
theorem Settled.onward (h : g.Settled) (hdown : g'.shutDown = g.shutDown)
    (hentries : ∀ e' ∈ g'.registry.entries, ∃ e ∈ g.registry.entries, e.2.Onward e'.2) :
    g'.Settled := by
  intro e' he'
  obtain ⟨e, he, honward⟩ := hentries e' he'
  obtain ⟨hopened, hclosed⟩ := h e he
  refine ⟨honward.opened hopened, fun hd => ?_⟩
  exact (hclosed (hdown ▸ hd)).onward hopened honward

theorem Settled.shutdown (h : g.Settled) : g.shutdown.Settled := by
  unfold Gateway.shutdown
  split
  · exact h
  · intro e he
    obtain ⟨e₀, he₀, rfl⟩ := List.mem_map.1 he
    obtain ⟨hopened, -⟩ := h e₀ he₀
    exact ⟨e₀.2.onward_destroy.opened hopened, fun _ => hopened.closed_destroy⟩

theorem shutDown_shutdown (g : Gateway) : g.shutdown.shutDown = true := by
  unfold shutdown
  split
  · assumption
  · rfl

/-- What a refresh leaves, be it accepted or not. -/
theorem of_refresh (g : Gateway) (q : Properties) :
    (g.refresh q).2.shutDown = g.shutDown ∧ ((g.refresh q).2.registry = g.registry ∨
      (g.refresh q).2.registry = (g.registry.refresh q).2) := by
  unfold refresh
  cases g.checkRefresh q with
  | error e => exact ⟨rfl, .inl rfl⟩
  | ok _ =>
    dsimp only
    rcases g.registry.refresh q with ⟨r, registry⟩
    cases r with
    | error e => exact ⟨rfl, .inr rfl⟩
    | ok _ =>
      dsimp only
      cases g.table.reload q.mounts <;> exact ⟨rfl, .inr rfl⟩

theorem Settled.refresh (h : g.Settled) {x : Except ConfigError Unit}
    (hg : g.refresh q = (x, g')) : g'.Settled ∧ g'.shutDown = g.shutDown := by
  obtain ⟨hdown, hregistry⟩ := g.of_refresh q
  rw [hg] at hdown hregistry
  refine ⟨h.onward hdown fun e' he' => ?_, hdown⟩
  rcases hregistry with hregistry | hregistry <;> rw [hregistry] at he'
  · exact ⟨e', he', .refl _⟩
  · exact Registry.exists_of_mem_refresh he'

/-- **One step** keeps every worker sound, and closed after a shutdown. -/
theorem Step.settled (hs : Step p g q g') (h : g.Settled) :
    g'.Settled ∧ (g.shutDown = true → g'.shutDown = true) := by
  cases hs with
  | serve job =>
    have hserved := g.served_serve job
    generalize (g.serve job).1 = o, (g.serve job).2.1 = g' at hserved
    cases hserved with
    | unmapped => exact ⟨h, id⟩
    | unknown => exact ⟨h, id⟩
    | served _ hr => exact ⟨h.onward rfl fun e' => Registry.exists_of_mem_serve? hr, id⟩
  | reload hg =>
    obtain ⟨-, table, -, rfl⟩ := reload_eq_ok_iff.1 hg
    exact ⟨h, id⟩
  | reloadFile => exact ⟨h, id⟩
  | refresh hg =>
    obtain ⟨hsettled, hdown⟩ := h.refresh hg
    exact ⟨hsettled, fun hd => hdown.trans hd⟩
  | refuse hg =>
    obtain ⟨hsettled, hdown⟩ := h.refresh hg
    exact ⟨hsettled, fun hd => hdown.trans hd⟩
  | shutdown => exact ⟨h.shutdown, fun _ => g.shutDown_shutdown⟩

theorem Life.settled (h : Life p g q g') (hg : g.Settled) :
    g'.Settled ∧ (g.shutDown = true → g'.shutDown = true) := by
  induction h with
  | start => exact ⟨hg, id⟩
  | step _ hs ih =>
    obtain ⟨hsettled, hdown⟩ := hs.settled ih.1
    exact ⟨hsettled, fun hd => hdown (ih.2 hd)⟩

theorem Life.trans (h : Life p₀ g₀ p g) (k : Life p g q g') : Life p₀ g₀ q g' := by
  induction k with
  | start => exact h
  | step _ hs ih => exact ih.step hs

theorem Settled.serve_eq_destroyed (h : g.Settled) (hdown : g.shutDown = true) (hm : g.Mapped)
    (hf : g.registry.Follows p₀ p) {job : Job} {r : Resolution}
    (hr : g.table.resolve job.tx.request.uri = some r) :
    (g.serve job).1 = .error (.destroyed r.worker) := by
  have hserved := g.served_serve job
  generalize (g.serve job).1 = o, (g.serve job).2.1 = g' at hserved
  cases hserved with
  | unmapped hnone =>
    rw [hnone] at hr
    cases hr
  | unknown hfound hnone =>
    have hcontains := hm.contains_of_resolve hfound
    rw [Registry.contains, hnone] at hcontains
    cases hcontains
  | served hfound hs =>
    cases hr.symm.trans hfound
    obtain ⟨w, w', hw, hserve, -⟩ := Registry.serve?_eq_some_iff.1 hs
    have hmem := Registry.mem_of_find? hw
    have hphase := ((h _ hmem).2 hdown w w.self_mem_all).1
    have hname : r.worker = w.name := (hf _ hmem).1
    rw [hname]
    exact (congrArg Prod.fst hserve).symm.trans (Worker.serve_of_destroyed hphase _ _)

/-- **Workers only move on.**  Whatever is called at a worker or behind it, no worker of its tree
goes back to an earlier phase, and what is closed stays closed.  A worker of the tree is validated
out of the first phase and opened out of the second, or stays as it was; an endpoint of it can be
had exactly while it is open; and to destroy it closes it with all that lies behind it.  Whatever a
gateway goes through after it was shut down, it refuses every request that has a way. -/
theorem workers_move_onward (hb : ofProperties hosts p₀ = .ok g₀) (hl : Life p₀ g₀ p g)
    (hdown : Life p g.shutdown q g') {w w' : Worker Target} (hw : w.Made)
    (hc : Worker.Course w w') :
    (∀ path u, w.behind? path = some u → ∃ u', w'.behind? path = some u' ∧
      u.phase.code ≤ u'.phase.code ∧ (u.Closed → u'.Closed)) ∧
    (∀ u ∈ w'.all,
      (∀ hosts p, u.Moves .unvalidated .validated ((Worker.validateInPlace hosts p).run u)) ∧
      (u.init ≠ .error .noRoom → u.Moves .validated .initialized (Worker.initInPlace.run u)) ∧
      (∀ job, (∃ e, (u.acquire job).1 = .ok e) ↔ u.phase = .initialized) ∧
      u.destroy.Closed) ∧
    ∀ job r, g'.table.resolve job.tx.request.uri = some r →
      (g'.serve job).1 = .error (.destroyed r.worker) := by
  have hopened := hc.onward.opened hw.opened
  refine ⟨fun path u hu => ?_, fun u hu => ?_, fun job r hr => ?_⟩
  · obtain ⟨u', hu', honward⟩ := hc.onward.exists_behind hu
    refine ⟨u', hu', Worker.Onward.phase honward, fun hclosed => ?_⟩
    exact hclosed.onward (hw.opened.of_mem (Worker.mem_all_of_behind hu)) honward
  · have hu' := hopened.of_mem hu
    exact ⟨u.moves_validate, Worker.moves_init, hopened.acquire_ok_iff hu, hu'.closed_destroy⟩
  · have hf := Registry.follows_ofProperties (ofProperties_eq_ok_iff.1 hb).2.1
    have hlife := (hl.step .shutdown).trans hdown
    have hsettled := (hlife.settled (settled_ofProperties hb)).1
    have hdown := (hdown.settled ((hl.settled (settled_ofProperties hb)).1.shutdown)).2
    exact hsettled.serve_eq_destroyed (hdown g.shutDown_shutdown)
      (hlife.mapped hf (mapped_ofProperties hb)) (hlife.follows hf) hr

/-- Looks for a page of the tuned twins. -/
def shopper : Job where
  tx := .begin { uri := "/shop/cart" } {}
  world := {}

/-- Twins are destroyed, and tuned after that; where their gateway was shut down and then tuned, its
new rule leads to a destroyed worker. -/
theorem workers_move_onward_twins : ∃ g w, ofProperties .loopback twins = .ok g ∧
    Worker.create .loopback twins "twins" = .ok w ∧
    (∀ path u, w.behind? path = some u → ∃ u',
      (w.destroy.refresh twinsTuned).2.behind? path = some u' ∧
      u.phase.code ≤ u'.phase.code ∧ (u.Closed → u'.Closed)) ∧
    ((g.shutdown.refresh twinsTuned).2.serve shopper).1 = .error (.destroyed "twins") := by
  have heval : (ofProperties .loopback twins).toOption.any (fun g =>
      (g.shutdown.refresh twinsTuned).1.isOk && (g.shutdown.refresh twinsTuned).2.table.resolve
        "/shop/cart" == some ⟨"twins", .under, 6, false⟩) = true := by decide +kernel
  have hcreate : (Worker.create .loopback twins "twins").isOk = true := by decide +kernel
  obtain ⟨g, hg, heval⟩ := any_toOption_iff.1 heval
  obtain ⟨hok, hfound⟩ := Bool.and_eq_true_iff.1 heval
  obtain ⟨w, hw⟩ : ∃ w, Worker.create .loopback twins "twins" = .ok w := by
    cases h : Worker.create .loopback twins "twins" with
    | ok w => exact ⟨w, rfl⟩
    | error e =>
      rw [h] at hcreate
      cases hcreate
  have hcourse : Worker.Course w (w.destroy.refresh twinsTuned).2 :=
    .tail (.single (.destroy w)) (.refresh twinsTuned _)
  obtain ⟨honward, -, hrefused⟩ := workers_move_onward hg Life.start
    (Life.start.step (.refresh (Prod.ext (isOk_iff.1 hok) rfl))) (Worker.made_build hw) hcourse
  exact ⟨g, w, hg, hw, honward, hrefused shopper _ (beq_iff_eq.1 hfound)⟩

end Gateway

end AjpGateway
