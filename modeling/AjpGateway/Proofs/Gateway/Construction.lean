import AjpGateway.Gateway
import AjpGateway.Proofs.Config.Validity
import AjpGateway.Proofs.Gateway.Life

/-!
# Building gateways

What a valid configuration has to grant beside its validity for the gateway to be built.  Validation
looks no host up and measures no cache, and it does not look into a balancer that is a member of
another: such a balancer may be named without members, or have settings that cannot be read.

    validate p = .ok () → ((∃ g, ofProperties hosts p = .ok g) ↔
      every worker below a listed one is granted)                               (built_iff_granted)
-/

namespace AjpGateway

variable {hosts : Hosts} {p : Properties}

/-- What validation leaves open about a worker, `depth` levels below a listed one. -/
structure Worker.Granted (hosts : Hosts) (p : Properties) (depth : Nat) (name : String) : Prop where
  depth : depth ≤ maxDepth
  /-- the host of a container can be found -/
  host : ∀ s, WorkerKind.read p name = .ok .ajp13 → BackendSettings.read p name = .ok s →
    ∃ address, hosts.resolve s.host s.port = .ok address
  /-- the connections that a container may keep fit into one block -/
  cache : ∀ s, WorkerKind.read p name = .ok .ajp13 → BackendSettings.read p name = .ok s →
    Line.size * s.cacheSize ≤ Pool.blockLimit
  /-- a balancer that is only a member can be read -/
  nested : WorkerKind.read p name = .ok .lb → name ∉ p.workers → p.ReadableBalancer name

namespace Worker

variable {top name : String} {depth : Nat}

theorem Fit.readable (h : Fit hosts p name) : p.Readable name := by
  cases h with
  | backend hk hs => exact ⟨⟨_, hk⟩, fun _ => ⟨_, hs⟩⟩
  | monitor hk => exact ⟨⟨_, hk⟩, fun hk' => by rw [hk] at hk'; cases hk'⟩
  | balancer hk => exact ⟨⟨_, hk⟩, fun hk' => by rw [hk] at hk'; cases hk'⟩

/-- What is built was granted. -/
theorem granted_of_fit (h : ∀ d n, Below p top d n → d < maxDepth + 1 ∧ Fit hosts p n)
    (hb : Below p top depth name) : Granted hosts p depth name := by
  obtain ⟨hdepth, hfit⟩ := h depth name hb
  refine ⟨Nat.le_of_lt_succ hdepth, ?_, ?_, ?_⟩
  · intro s hk hs
    cases hfit with
    | backend _ hs' ha _ =>
      cases hs.symm.trans hs'
      exact ⟨_, ha⟩
    | monitor hk' => cases hk.symm.trans hk'
    | balancer hk' => cases hk.symm.trans hk'
  · intro s hk hs
    cases hfit with
    | backend _ hs' _ hroom =>
      cases hs.symm.trans hs'
      exact hroom
    | monitor hk' => cases hk.symm.trans hk'
    | balancer hk' => cases hk.symm.trans hk'
  · intro hk _
    cases hfit with
    | backend hk' => cases hk.symm.trans hk'
    | monitor hk' => cases hk.symm.trans hk'
    | balancer _ hs hrecords =>
      exact ⟨⟨_, hs⟩, hrecords, fun m hm => (h _ m (hb.deeper hk hm)).2.readable⟩

section
variable (hv : Config.validate p = .ok ())

include hv

theorem readableBalancer_of_granted (hg : Granted hosts p depth name)
    (hk : WorkerKind.read p name = .ok .lb) : p.ReadableBalancer name := by
  by_cases hlisted : name ∈ p.workers
  · exact Config.readableBalancer_of_validate hv hlisted hk
  · exact hg.nested hk hlisted

/-- A worker below a listed one is readable, as a listed one or by the balancer that it is a member
of. -/
theorem readable_of_granted (htop : top ∈ p.workers)
    (h : ∀ d n, Below p top d n → Granted hosts p d n) (hb : Below p top depth name) :
    p.Readable name := by
  cases depth with
  | zero =>
    cases hb
    exact Config.readable_of_validate hv htop
  | succ depth =>
    obtain ⟨b, hbelow, hk, hm⟩ := hb.exists_balancer
    exact (readableBalancer_of_granted hv (h depth b hbelow) hk).members name hm

theorem fit_of_granted (htop : top ∈ p.workers)
    (h : ∀ d n, Below p top d n → Granted hosts p d n) (hb : Below p top depth name) :
    Fit hosts p name := by
  have hg := h depth name hb
  obtain ⟨⟨kind, hk⟩, hbackend⟩ := readable_of_granted hv htop h hb
  cases kind with
  | ajp13 =>
    obtain ⟨s, hs⟩ := hbackend hk
    obtain ⟨address, ha⟩ := hg.host s hk hs
    exact .backend hk hs ha (hg.cache s hk hs)
  | status => exact .monitor hk
  | lb =>
    obtain ⟨⟨s, hs⟩, hrecords, -⟩ := readableBalancer_of_granted hv hg hk
    exact .balancer hk hs hrecords

theorem exists_create_iff_granted (htop : top ∈ p.workers) :
    (∃ w, create hosts p top = .ok w) ↔ ∀ d n, Below p top d n → Granted hosts p d n := by
  unfold create
  rw [exists_build_iff]
  constructor
  · exact fun h d n hb => granted_of_fit h hb
  · exact fun h d n hb =>
      ⟨Nat.lt_succ_of_le (h d n hb).depth, fit_of_granted hv htop h hb⟩

end

end Worker

namespace Gateway

/-- Every worker below a listed one is granted. -/
def Granted (hosts : Hosts) (p : Properties) : Prop :=
  ∀ top ∈ p.workers, ∀ d name, Worker.Below p top d name → Worker.Granted hosts p d name

/-- **What construction needs beside validity.**  The mounts of a valid configuration always make a
table.  The registry, and with it the gateway, is built exactly if every worker below a listed one
is granted: no balancer lies too deep, each host is found, each cache fits into memory, and each
balancer that is only a member can be read. -/
theorem built_iff_granted (hv : Config.validate p = .ok ()) :
    (∃ table, LiveTable.new p.mounts = .ok table) ∧
    ((∃ registry, Registry.ofProperties hosts p = .ok registry) ↔ Granted hosts p) ∧
    ((∃ g, ofProperties hosts p = .ok g) ↔ Granted hosts p) := by
  have htable : ∃ table, LiveTable.new p.mounts = .ok table := by
    obtain ⟨t, ht⟩ := RuleTable.exists_build_iff.2 fun m hm => (Config.mount_of_validate hv hm).1
    exact ⟨_, map_eq_ok_iff.2 ⟨t, ht, rfl⟩⟩
  have hregistry : (∃ registry, Registry.ofProperties hosts p = .ok registry) ↔
      Granted hosts p := by
    rw [Registry.exists_ofProperties_iff]
    exact forall₂_congr fun top htop => Worker.exists_create_iff_granted hv htop
  refine ⟨htable, hregistry, ?_⟩
  rw [← hregistry]
  constructor
  · rintro ⟨g, hg⟩
    exact ⟨g.registry, (ofProperties_eq_ok_iff.1 hg).2.1⟩
  · rintro ⟨registry, hr⟩
    obtain ⟨table, ht⟩ := htable
    exact ⟨{ table, registry }, ofProperties_eq_ok_iff.2 ⟨hv, hr, ht, rfl⟩⟩

/-- A balancer whose only member is a balancer, with a time that is no number. -/
def unreadable : Properties := ⟨[
  ("worker.list", "outer"), ("worker.outer.type", "lb"),
  ("worker.outer.balance_workers", "inner"), ("worker.inner.type", "lb"),
  ("worker.inner.balance_workers", "a"), ("worker.inner.recover_time", "soon"),
  ("worker.a.host", "127.0.0.1")]⟩

theorem below_unreadable {d : Nat} {name : String}
    (h : Worker.Below unreadable "outer" d name) :
    (d, name) ∈ [(0, "outer"), (1, "inner"), (2, "a")] := by
  have houter : BalancerSettings.memberNames unreadable "outer" = ["inner"] := by decide +kernel
  have hinner : BalancerSettings.memberNames unreadable "inner" = ["a"] := by decide +kernel
  cases h with
  | top => exact List.mem_cons_self
  | member _ hm h =>
    rw [houter, List.mem_singleton] at hm
    subst hm
    cases h with
    | top => exact .tail _ List.mem_cons_self
    | member _ hm h =>
      rw [hinner, List.mem_singleton] at hm
      subst hm
      cases h with
      | top => exact .tail _ (.tail _ List.mem_cons_self)
      | member hk _ _ => exact absurd hk (by decide +kernel)

/-- It is valid, its host is found and it is not deep, but it is not built. -/
theorem not_built_unreadable : Config.validate unreadable = .ok () ∧
    (∀ d name, Worker.Below unreadable "outer" d name → d ≤ Worker.maxDepth ∧
      ∀ s, BackendSettings.read unreadable name = .ok s →
        ∃ address, Hosts.loopback.resolve s.host s.port = .ok address) ∧
    ¬ ∃ g, ofProperties .loopback unreadable = .ok g := by
  have hv : Config.validate unreadable = .ok () :=
    Config.validate_eq_ok_iff.2 (by decide +kernel)
  refine ⟨hv, fun d name hb => ?_, fun hbuilt => ?_⟩
  · have hall : ∀ x ∈ [(0, "outer"), (1, "inner"), (2, "a")], x.1 ≤ Worker.maxDepth ∧
        (BackendSettings.read unreadable x.2).toOption.all
          (fun s => (Hosts.loopback.resolve s.host s.port).toOption.isSome) = true := by
      decide +kernel
    obtain ⟨hdepth, hfound⟩ := hall _ (below_unreadable hb)
    refine ⟨hdepth, fun s hs => ?_⟩
    rw [hs] at hfound
    exact isSome_toOption_iff.1 hfound
  · have hbelow : Worker.Below unreadable "outer" 1 "inner" :=
      .member (by decide +kernel) (by decide +kernel) (.top "inner")
    have hg := (built_iff_granted hv).2.2.1 hbuilt "outer" (by decide +kernel) 1 "inner" hbelow
    have hread := (hg.nested (by decide +kernel) (by decide +kernel)).settings
    exact absurd (isSome_toOption_iff.2 hread) (by decide +kernel)

end Gateway

end AjpGateway
