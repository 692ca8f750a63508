import AjpGateway.Proofs.Config.Validity
import AjpGateway.Proofs.Gateway.Life
import AjpGateway.Proofs.Worker.Failing

/-!
# Mapped requests

Every rule in use names a registered worker.  The mounts of the first configuration name listed
workers, mounts and configurations that come later are checked against the registry, and no worker
ever leaves it.  So a request that has a way meets a worker, whose failures are its own.

    g.Mapped → Step p g q g' → g'.Mapped                                          (Step.mapped)
    no request is ever refused for an unknown worker                            (worker_known)
-/

namespace AjpGateway

namespace Gateway

variable {hosts : Hosts} {p₀ p q : Properties} {g₀ g g' : Gateway}

/-- The table in use is one of mounts whose workers are registered. -/
def Mapped (g : Gateway) : Prop :=
  ∃ mounts generation, RuleTable.build mounts generation = .ok g.table.table ∧
    ∀ m ∈ mounts, Text.trimmed m.worker ∈ g.registry.names

theorem Mapped.contains (h : g.Mapped) {r : Rule} (hr : r ∈ g.table.table.all) :
    g.registry.contains r.worker = true := by
  obtain ⟨mounts, generation, hbuild, hknown⟩ := h
  obtain ⟨m, hm, hworker⟩ := RuleTable.exists_mount hbuild hr
  rw [hworker]
  exact Registry.contains_iff.2 (hknown m hm)

theorem Mapped.contains_of_resolve (h : g.Mapped) {uri : String} {found : Resolution}
    (hf : g.table.resolve uri = some found) : g.registry.contains found.worker = true := by
  have hcontains := fun r => h.contains (r := r)
  obtain ⟨mounts, generation, hbuild, -⟩ := h
  obtain ⟨r, hr, hworker⟩ := RuleTable.exists_rule_of_resolve hbuild hf
  exact hworker ▸ hcontains r hr

theorem mapped_ofProperties (h : ofProperties hosts p = .ok g) : g.Mapped := by
  obtain ⟨hv, hr, ht, -⟩ := ofProperties_eq_ok_iff.1 h
  refine ⟨p.mounts, 1, LiveTable.table_of_new ht, fun m hm => ?_⟩
  rw [← Registry.contains_iff, Registry.contains_ofProperties_iff hr]
  exact (Config.mount_of_validate hv hm).2

theorem checkMounts_eq_ok_iff {mounts : List Mount} : g.checkMounts mounts = .ok () ↔
    ∀ m ∈ mounts, Text.trimmed m.worker ∈ g.registry.names := by
  unfold checkMounts
  rw [Config.checkMounts_eq_ok_iff]
  simp only [Registry.contains_iff]

theorem Step.mapped (hs : Step p g q g') (hf : g.registry.Follows p₀ p) (h : g.Mapped) :
    g'.Mapped := by
  cases hs with
  | serve job =>
    have hserved := g.served_serve job
    generalize (g.serve job).1 = o, (g.serve job).2.1 = g' at hserved
    cases hserved with
    | unmapped => exact h
    | unknown => exact h
    | served _ hr =>
      obtain ⟨mounts, generation, hbuild, hknown⟩ := h
      exact ⟨mounts, generation, hbuild, fun m hm => Registry.mem_names_of_serve? hr (hknown m hm)⟩
  | reload hg =>
    obtain ⟨hm, table, ht, rfl⟩ := reload_eq_ok_iff.1 hg
    exact ⟨_, _, LiveTable.table_of_reload ht, checkMounts_eq_ok_iff.1 hm⟩
  | reloadFile hg =>
    obtain ⟨r, -, hm, ht⟩ := LiveTable.reloadFile_eq_ok_iff.1 hg
    refine ⟨_, _, LiveTable.table_of_reload ht, fun m hmem => ?_⟩
    exact hm _ rfl m hmem
  | refresh hg =>
    obtain ⟨hc, hr⟩ := renewed_of_refresh hf hg
    obtain ⟨-, hm, -⟩ := checkRefresh_eq_ok_iff.1 hc
    refine ⟨_, _, hr.rules, ?_⟩
    rw [hr.workers.names_eq]
    exact checkMounts_eq_ok_iff.1 hm
  | refuse hg =>
    rw [eq_of_refresh_error hf hg]
    exact h
  | shutdown =>
    obtain ⟨mounts, generation, hbuild, hknown⟩ := h
    unfold Gateway.shutdown
    split
    · exact ⟨mounts, generation, hbuild, hknown⟩
    · refine ⟨mounts, generation, hbuild, ?_⟩
      dsimp only [Registry.destroy]
      rw [Registry.names_map]
      exact hknown

theorem Life.mapped (h : Life p₀ g₀ p g) (hf : g₀.registry.Follows p₀ p₀) (hm : g₀.Mapped) :
    g.Mapped := by
  induction h with
  | start => exact hm
  | step h hs ih => exact hs.mapped (h.follows hf) ih

/-- A mapped gateway finds a worker for every way, and a worker does not fail for an unknown one. -/
theorem Mapped.serve_ne_unknownWorker (h : g.Mapped) (job : Job) (name : String) :
    (g.serve job).1 ≠ .error (.unknownWorker name) := by
  have hserved := g.served_serve job
  generalize (g.serve job).1 = o, (g.serve job).2.1 = g' at hserved
  cases hserved with
  | unmapped =>
    intro he
    cases he
  | unknown hfound hr =>
    have hcontains := h.contains_of_resolve hfound
    rw [Registry.contains, hr] at hcontains
    cases hcontains
  | served _ hr =>
    rintro rfl
    obtain ⟨w, w', -, hw, -⟩ := Registry.serve?_eq_some_iff.1 hr
    exact Worker.ofWorker_of_serve (congrArg Prod.fst hw)

/-- **A mapped request never meets an unknown worker.**  Whatever a gateway went through, the rules
in use name registered workers, and no request is refused because its worker is unknown. -/
theorem worker_known (hb : ofProperties hosts p₀ = .ok g₀) (h : Life p₀ g₀ p g) :
    (∀ r ∈ g.table.table.all, g.registry.contains r.worker = true) ∧
    ∀ job name, (g.serve job).1 ≠ .error (.unknownWorker name) := by
  have hf := Registry.follows_ofProperties (ofProperties_eq_ok_iff.1 hb).2.1
  have hm := h.mapped hf (mapped_ofProperties hb)
  exact ⟨fun r hr => hm.contains hr, hm.serve_ne_unknownWorker⟩

/-- Twins that were tuned and shut down still know their worker. -/
theorem worker_known_twins : ∃ g, ofProperties .loopback twins = .ok g ∧
    (g.refresh twinsTuned).1 = .ok () ∧
    (∀ r ∈ (g.refresh twinsTuned).2.shutdown.table.table.all,
      (g.refresh twinsTuned).2.shutdown.registry.contains r.worker = true) ∧
    ∀ job name, ((g.refresh twinsTuned).2.shutdown.serve job).1 ≠ .error (.unknownWorker name) := by
  have heval : (ofProperties .loopback twins).toOption.any
      (fun g => (g.refresh twinsTuned).1.isOk) = true := by decide +kernel
  obtain ⟨g, hg, hok⟩ := any_toOption_iff.1 heval
  have hlife : Life twins g twinsTuned (g.refresh twinsTuned).2.shutdown :=
    (Life.start.step (.refresh (Prod.ext (isOk_iff.1 hok) rfl))).step .shutdown
  exact ⟨g, hg, isOk_iff.1 hok, worker_known hg hlife⟩

end Gateway

end AjpGateway
