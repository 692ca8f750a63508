import AjpGateway.Proofs.Config.Validity
import AjpGateway.Proofs.Gateway.Life
import Mathlib.Data.List.Perm.Subperm

/-!
# Routes of members

The routes that a balancer's records have at any time are those that the configuration accepted last
gives to the members that the first one named.  They are distinct where that configuration was
checked for it: the balancer is listed, and it names all of the members still.  Nothing else keeps
them apart.

    b.members.map Member.route = (memberNames p₀ b.name).map p.routeOf           (routes_of_life)
-/

namespace AjpGateway

/-- The route that a member's section gives it. -/
def Properties.routeOf (p : Properties) (name : String) : String :=
  ((p.worker? name "route").or (p.worker? name "jvm_route")).getD name

theorem MemberSettings.route_of_read {p : Properties} {name : String} {s : MemberSettings Float}
    (h : MemberSettings.read p name = .ok s) : s.route = p.routeOf name := by
  unfold MemberSettings.read at h
  dsimp only at h
  obtain ⟨factor, -, h⟩ := bind_eq_ok_iff.1 h
  split at h
  · obtain ⟨disabled, -, h⟩ := bind_eq_ok_iff.1 h
    obtain ⟨stopped, -, h⟩ := bind_eq_ok_iff.1 h
    cases h
    rfl
  · cases h

theorem map_route_of_read {p : Properties} {names : List String} {ss : List (MemberSettings Float)}
    (h : List.Forall₂ (fun m s => MemberSettings.read p m = .ok s) names ss) :
    ss.map MemberSettings.route = names.map p.routeOf :=
  map_eq_of_forall₂ (fun _ _ hs => MemberSettings.route_of_read hs) h

/-- The members of a listed balancer have routes of their own. -/
theorem Config.nodup_routes_of_validate {p : Properties} (hv : validate p = .ok ()) {name : String}
    (hname : name ∈ p.workers) (hk : WorkerKind.read p name = .ok .lb) :
    ((BalancerSettings.memberNames p name).map p.routeOf).Nodup := by
  obtain ⟨ss, hss, hnodup⟩ := exists_settings_of_validate hv hname hk
  rw [← map_route_of_read hss]
  exact hnodup

theorem Worker.SetupFollows.map_route {p₀ p : Properties} {b : Balancer Float} {names : List String}
    (h : SetupFollows p₀ p b.setup names) :
    b.members.map Member.route = (BalancerSettings.memberNames p₀ b.name).map p.routeOf := by
  have hnames : b.members.map Member.name = BalancerSettings.memberNames p₀ b.name := by
    rw [← Balancer.map_fst_members_setup, h.members, h.listed]
    rfl
  rw [← hnames, List.map_map]
  refine List.map_congr_left fun m hm => ?_
  exact MemberSettings.route_of_read (h.settings (m.name, m.settings) (List.mem_map_of_mem hm))

namespace Gateway

variable {hosts : Hosts} {p₀ p q : Properties} {g₀ g g' : Gateway}

/-! ## Accepted configurations -/

theorem Step.valid (hs : Step p g q g') (hf : g.registry.Follows p₀ p)
    (h : Config.validate p = .ok ()) : Config.validate q = .ok () := by
  cases hs with
  | refresh hg => exact (checkRefresh_eq_ok_iff.1 (renewed_of_refresh hf hg).1).1
  | _ => exact h

theorem Life.valid (h : Life p₀ g₀ p g) (hf : g₀.registry.Follows p₀ p₀)
    (hv : Config.validate p₀ = .ok ()) : Config.validate p = .ok () := by
  induction h with
  | start => exact hv
  | step h hs ih => exact hs.valid (h.follows hf) ih

/-! ## Routes -/

/-- **Whose routes are distinct.**  Whatever a gateway went through, a balancer's records have the
routes that the configuration accepted last gives to the members that the first one named.  They are
distinct if the last one lists the balancer and names all of these members. -/
theorem routes_of_life (hb : ofProperties hosts p₀ = .ok g₀) (h : Life p₀ g₀ p g) :
    ∀ e ∈ g.registry.entries, ∀ x ∈ e.2.balancers,
      x.1.members.map Member.route =
        (BalancerSettings.memberNames p₀ x.1.name).map p.routeOf ∧
      (x.1.name ∈ p.workers → WorkerKind.read p x.1.name = .ok .lb →
        (BalancerSettings.memberNames p₀ x.1.name).Subperm
          (BalancerSettings.memberNames p x.1.name) →
        (x.1.members.map Member.route).Nodup) := by
  obtain ⟨hv₀, hr, -⟩ := ofProperties_eq_ok_iff.1 hb
  have hf₀ := Registry.follows_ofProperties hr
  have hv := h.valid hf₀ hv₀
  intro e he x hx
  have hroutes := ((h.follows hf₀ e he).2 x hx).map_route
  refine ⟨hroutes, fun hname hk hsub => ?_⟩
  obtain ⟨names, hperm, hnames⟩ := hsub
  have hnodup := Config.nodup_routes_of_validate hv hname hk
  rw [hroutes, ← (hperm.map p.routeOf).nodup_iff]
  exact hnodup.sublist (hnames.map p.routeOf)

/-- Names one of two members only, and gives both the same route. -/
def twinsHalved : Properties := ⟨[
  ("worker.list", "twins"), ("worker.twins.type", "lb"), ("worker.twins.balance_workers", "a"),
  ("worker.a.host", "127.0.0.1"), ("worker.a.route", "node"), ("worker.b.route", "node")]⟩

/-- The twins have routes of their own, until a configuration is accepted that names one of them
only. -/
theorem routes_twins : ∃ g, ofProperties .loopback twins = .ok g ∧
    (∀ e ∈ g.registry.entries, ∀ x ∈ e.2.balancers, x.1.name = "twins" →
      (x.1.members.map Member.route).Nodup) ∧
    (g.refresh twinsHalved).1 = .ok () ∧
    ∃ e ∈ (g.refresh twinsHalved).2.registry.entries, ∃ x ∈ e.2.balancers,
      x.1.members.map Member.route = ["node", "node"] := by
  have heval : (ofProperties .loopback twins).toOption.any (fun g =>
      (g.refresh twinsHalved).1.isOk && (g.refresh twinsHalved).2.registry.entries.any fun e =>
        e.2.balancers.any fun x => x.1.name == "twins") = true := by decide +kernel
  obtain ⟨g, hg, hrefresh⟩ := any_toOption_iff.1 heval
  obtain ⟨hok, hentries⟩ := Bool.and_eq_true_iff.1 hrefresh
  refine ⟨g, hg, fun e he x hx hname => ?_, isOk_iff.1 hok, ?_⟩
  · have hdistinct := (routes_of_life hg Life.start e he x hx).2
    rw [hname] at hdistinct
    exact hdistinct (by decide +kernel) (by decide +kernel) (List.Subperm.refl _)
  · obtain ⟨e, he, hbalancers⟩ := List.any_eq_true.1 hentries
    obtain ⟨x, hx, hname⟩ := List.any_eq_true.1 hbalancers
    have hlife : Life twins g twinsHalved (g.refresh twinsHalved).2 :=
      Life.start.step (.refresh (Prod.ext (isOk_iff.1 hok) rfl))
    refine ⟨e, he, x, hx, ?_⟩
    rw [(routes_of_life hg hlife e he x hx).1, eq_of_beq hname]
    decide +kernel

end Gateway

end AjpGateway
