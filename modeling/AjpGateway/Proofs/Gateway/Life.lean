import AjpGateway.Gateway
import AjpGateway.Proofs.Routing.Reloading
import AjpGateway.Proofs.Worker.Registered

/-!
# The life of a gateway

A gateway serves jobs, takes over mounts and configurations or refuses them, and is shut down, in
any order.  All along its balancers have the members that the first configuration named, under the
settings of the last one that was accepted.

    Life p₀ g₀ p g → g₀.registry.Follows p₀ p₀ → g.registry.Follows p₀ p            (Life.follows)
    a refresh is all or nothing                                                    (refresh_atomic)
-/

namespace AjpGateway.Gateway

/-! ## Refreshes -/

/-- What a refresh makes of a gateway: every worker is under its new settings, and the rules are
those of the configuration, in the next generation. -/
structure Renewed (p : Properties) (g g' : Gateway) : Prop where
  workers : g.registry.Renewed p g'.registry
  rules : RuleTable.build p.mounts (g.table.generation + 1) = .ok g'.table.table
  generation : g'.table.generation = g.table.generation + 1
  shutDown : g'.shutDown = g.shutDown

variable {p₀ p q : Properties} {g₀ g g' : Gateway}

theorem checkRefresh_eq_ok_iff : g.checkRefresh q = .ok () ↔
    Config.validate q = .ok () ∧ g.checkMounts q.mounts = .ok () ∧
      (∃ t, RuleTable.build q.mounts 0 = .ok t) ∧ g.registry.checkRefresh q = .ok () := by
  unfold checkRefresh
  simp only [bind_eq_ok_iff, mapError_eq_ok_iff]
  constructor
  · rintro ⟨_, hv, _, hm, t, ht, hr⟩
    exact ⟨hv, hm, ⟨t, ht⟩, hr⟩
  · rintro ⟨hv, hm, ⟨t, ht⟩, hr⟩
    exact ⟨(), hv, (), hm, t, ht, hr⟩

/-- What the checks accept is taken over: neither the workers nor the table refuse it. -/
theorem refresh_of_checkRefresh (ha : ∀ e ∈ g.registry.entries, e.2.Aligned)
    (h : g.checkRefresh q = .ok ()) : ∃ registry table,
      g.registry.refresh q = (.ok (), registry) ∧ g.table.reload q.mounts = .ok table ∧
      g.refresh q = (.ok (), { g with registry, table }) ∧
      g.Renewed q { g with registry, table } := by
  obtain ⟨-, -, ⟨t, ht⟩, hchecked⟩ := checkRefresh_eq_ok_iff.1 h
  obtain ⟨registry, hregistry, hrenewed⟩ := Registry.refresh_of_checkRefresh ha hchecked
  -- the checks built the same rules in generation 0
  have hbuild := RuleTable.build_again ht (g.table.generation + 1)
  have htable := LiveTable.reload_eq_ok_iff.2 ⟨_, hbuild, rfl⟩
  refine ⟨registry, _, hregistry, htable, ?_, hrenewed, ?_, ?_, rfl⟩
  · unfold refresh
    rw [h, hregistry, htable]
  · exact LiveTable.table_of_reload htable
  · exact RuleTable.generation_of_build (LiveTable.table_of_reload htable)

theorem refresh_of_checkRefresh_error {e : ConfigError} (h : g.checkRefresh q = .error e) :
    g.refresh q = (.error e, g) := by
  unfold refresh
  rw [h]

/-! ## Steps -/

/-- One step of a gateway, from the configuration accepted last to the one accepted then. -/
inductive Step : Properties → Gateway → Properties → Gateway → Prop where
  | serve {p : Properties} {g : Gateway} (job : Job) : Step p g p (g.serve job).2.1
  | reload {p : Properties} {g g' : Gateway} {mounts : List Mount}
      (h : g.reload mounts = .ok g') : Step p g p g'
  /-- a watched file of mounts has changed -/
  | reloadFile {p : Properties} {g : Gateway} {env : Environment} {file : File} {table : LiveTable}
      (h : g.table.reloadFile env (some g.registry.names) file = .ok table) :
      Step p g p { g with table }
  | refresh {p q : Properties} {g g' : Gateway} (h : g.refresh q = (.ok (), g')) : Step p g q g'
  | refuse {p q : Properties} {g g' : Gateway} {e : ConfigError}
      (h : g.refresh q = (.error e, g')) : Step p g p g'
  | shutdown {p : Properties} {g : Gateway} : Step p g p g.shutdown

/-- A gateway `g` that was `g₀` under `p₀` once, and accepted `p` last. -/
inductive Life (p₀ : Properties) (g₀ : Gateway) : Properties → Gateway → Prop where
  | start : Life p₀ g₀ p₀ g₀
  | step {p q : Properties} {g g' : Gateway} (h : Life p₀ g₀ p g) (hs : Step p g q g') :
      Life p₀ g₀ q g'

/-- How a request may end: it has no way, its way leads to no worker, or a worker serves it. -/
inductive Served (g : Gateway) (uri : String) : Outcome → Gateway → Prop where
  | unmapped (h : g.table.resolve uri = none) : Served g uri (.error (.unmapped uri)) g
  | unknown {r : Resolution} (h : g.table.resolve uri = some r)
      (hr : g.registry.find? r.worker = none) :
      Served g uri (.error (.unknownWorker r.worker)) g
  | served {r : Resolution} {o : Outcome} {registry : Registry Target} {job job' : Job}
      (h : g.table.resolve uri = some r)
      (hr : g.registry.serve? r.worker job = some (o, registry, job')) :
      Served g uri o { g with registry }

theorem served_serve (g : Gateway) (job : Job) :
    g.Served job.tx.request.uri (g.serve job).1 (g.serve job).2.1 := by
  unfold serve resolve
  dsimp only
  split
  · next h => exact .unmapped h
  · next r h =>
    split
    · next hr => exact .unknown h (Option.map_eq_none_iff.1 hr)
    · next hr => exact .served h hr

theorem reload_eq_ok_iff {mounts : List Mount} :
    g.reload mounts = .ok g' ↔ g.checkMounts mounts = .ok () ∧
      ∃ table, g.table.reload mounts = .ok table ∧ g' = { g with table } := by
  unfold reload
  simp only [bind_eq_ok_iff, mapError_eq_ok_iff]
  constructor
  · rintro ⟨_, hm, table, ht, h⟩
    exact ⟨hm, table, ht, (Except.ok.inj h).symm⟩
  · rintro ⟨hm, table, ht, rfl⟩
    exact ⟨(), hm, table, ht, rfl⟩

/-! ## Configurations that are followed -/

theorem ofProperties_eq_ok_iff {hosts : Hosts} : ofProperties hosts p = .ok g ↔
    Config.validate p = .ok () ∧ Registry.ofProperties hosts p = .ok g.registry ∧
      LiveTable.new p.mounts = .ok g.table ∧ g.shutDown = false := by
  unfold ofProperties
  simp only [bind_eq_ok_iff, mapError_eq_ok_iff]
  constructor
  · rintro ⟨_, hv, registry, hr, table, ht, h⟩
    cases h
    exact ⟨hv, hr, ht, rfl⟩
  · rintro ⟨hv, hr, ht, hs⟩
    refine ⟨(), hv, g.registry, hr, g.table, ht, ?_⟩
    rw [← hs]
    rfl

theorem aligned_of_follows (h : g.registry.Follows p₀ p) :
    ∀ e ∈ g.registry.entries, e.2.Aligned :=
  fun e he => (h e he).2.aligned

theorem renewed_of_refresh (hf : g.registry.Follows p₀ p) (h : g.refresh q = (.ok (), g')) :
    g.checkRefresh q = .ok () ∧ g.Renewed q g' := by
  cases hc : g.checkRefresh q with
  | error e =>
    rw [refresh_of_checkRefresh_error hc] at h
    cases h
  | ok _ =>
    obtain ⟨registry, table, -, -, hg, hr⟩ := refresh_of_checkRefresh (aligned_of_follows hf) hc
    rw [hg] at h
    cases h
    exact ⟨rfl, hr⟩

theorem eq_of_refresh_error {e : ConfigError} (hf : g.registry.Follows p₀ p)
    (h : g.refresh q = (.error e, g')) : g' = g := by
  cases hc : g.checkRefresh q with
  | error e =>
    rw [refresh_of_checkRefresh_error hc] at h
    cases h
    rfl
  | ok _ =>
    obtain ⟨registry, table, -, -, hg, -⟩ := refresh_of_checkRefresh (aligned_of_follows hf) hc
    rw [hg] at h
    cases h

theorem Step.follows (hs : Step p g q g') (h : g.registry.Follows p₀ p) :
    g'.registry.Follows p₀ q := by
  cases hs with
  | serve job =>
    have hserved := g.served_serve job
    generalize (g.serve job).1 = o, (g.serve job).2.1 = g' at hserved
    cases hserved with
    | unmapped => exact h
    | unknown => exact h
    | served _ hr => exact h.serve? hr
  | reload hg =>
    obtain ⟨-, table, -, rfl⟩ := reload_eq_ok_iff.1 hg
    exact h
  | reloadFile => exact h
  | refresh hg => exact h.renewed (renewed_of_refresh h hg).2.workers
  | refuse hg =>
    rw [eq_of_refresh_error h hg]
    exact h
  | shutdown =>
    unfold Gateway.shutdown
    split
    · exact h
    · exact h.destroy

/-- **All along**, the first configuration names the members and the last accepted one gives the
settings. -/
theorem Life.follows (h : Life p₀ g₀ p g) (h₀ : g₀.registry.Follows p₀ p₀) :
    g.registry.Follows p₀ p := by
  induction h with
  | start => exact h₀
  | step _ hs ih => exact hs.follows ih

/-! ## All or nothing -/

/-- **A refresh is all or nothing.**  Whatever a gateway went through, it answers a refresh by what
its checks say.  Where they refuse, nothing is changed; where they accept, every worker is under the
new settings and the rules are those of the next generation, since then neither the workers nor the
table can refuse. -/
theorem refresh_atomic {hosts : Hosts} (h₀ : Registry.ofProperties hosts p₀ = .ok g₀.registry)
    (h : Life p₀ g₀ p g) (q : Properties) :
    (g.refresh q).1 = g.checkRefresh q ∧
    (∀ e, (g.refresh q).1 = .error e → (g.refresh q).2 = g) ∧
    ((g.refresh q).1 = .ok () → g.Renewed q (g.refresh q).2) ∧
    (g.checkRefresh q = .ok () →
      (g.registry.refresh q).1 = .ok () ∧ ∃ table, g.table.reload q.mounts = .ok table) := by
  have hf := h.follows (Registry.follows_ofProperties h₀)
  cases hc : g.checkRefresh q with
  | error e =>
    rw [refresh_of_checkRefresh_error hc]
    refine ⟨rfl, fun _ _ => rfl, ?_, ?_⟩
    · intro hok
      cases hok
    · intro hok
      cases hok
  | ok _ =>
    obtain ⟨registry, table, hregistry, htable, hg, hr⟩ :=
      refresh_of_checkRefresh (aligned_of_follows hf) hc
    rw [hg, hregistry]
    refine ⟨rfl, ?_, fun _ => hr, fun _ => ⟨rfl, table, htable⟩⟩
    intro e' herr
    cases herr

/-- A balancer over two containers. -/
def twins : Properties := ⟨[
  ("worker.list", "twins"), ("worker.twins.type", "lb"), ("worker.twins.balance_workers", "a, b"),
  ("worker.a.host", "127.0.0.1"), ("worker.b.host", "127.0.0.1"), ("/app/*", "twins")]⟩

/-- Prefers a member, and has other mounts. -/
def twinsTuned : Properties := ⟨[
  ("worker.list", "twins"), ("worker.twins.type", "lb"), ("worker.twins.balance_workers", "a, b"),
  ("worker.a.host", "127.0.0.1"), ("worker.b.host", "127.0.0.1"), ("worker.a.lbfactor", "2"),
  ("/shop/*", "twins")]⟩

theorem refresh_atomic_twins : ∃ g, ofProperties .loopback twins = .ok g ∧
    g.checkRefresh twinsTuned = .ok () ∧ g.Renewed twinsTuned (g.refresh twinsTuned).2 := by
  have heval : (ofProperties .loopback twins).toOption.any
      (fun g => (g.checkRefresh twinsTuned).isOk) = true := by decide +kernel
  obtain ⟨g, hg, hc⟩ := any_toOption_iff.1 heval
  obtain ⟨-, hr, -⟩ := ofProperties_eq_ok_iff.1 hg
  obtain ⟨hanswer, -, hrenewed, -⟩ := refresh_atomic hr Life.start twinsTuned
  exact ⟨g, hg, isOk_iff.1 hc, hrenewed (hanswer.trans (isOk_iff.1 hc))⟩

end AjpGateway.Gateway
