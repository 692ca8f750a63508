import AjpGateway.Config.Loading
import AjpGateway.Proofs.Results

/-!
# What a valid configuration says

A configuration is valid if every listed worker and every mount is.  A listed balancer is valid if
its settings can be read and its members are defined, can be read and have routes of their own; of
a member that is itself a balancer nothing is asked but that it leads to no cycle.

    validate p = .ok () ↔ …                                                (validate_eq_ok_iff)
    memberProblems p b [] names = [] ↔ …                             (memberProblems_eq_nil_iff)
-/

namespace AjpGateway

/-! ## Readable workers -/

/-- The kind of a worker can be read, and so can the settings of a container. -/
structure Properties.Readable (p : Properties) (name : String) : Prop where
  kind : ∃ k, WorkerKind.read p name = .ok k
  backend : WorkerKind.read p name = .ok .ajp13 → ∃ s, BackendSettings.read p name = .ok s

/-- The settings of a balancer can be read, and its members are readable. -/
structure Properties.ReadableBalancer (p : Properties) (name : String) : Prop where
  settings : ∃ s, BalancerSettings.read p name = .ok s
  records : ∀ m ∈ BalancerSettings.memberNames p name, ∃ s, MemberSettings.read p m = .ok s
  members : ∀ m ∈ BalancerSettings.memberNames p name, p.Readable m

namespace Validation

variable {p : Properties}

/-! ## Members -/

theorem readable_of_backendProblems {name : String} (h : backendProblems p name = []) :
    ∃ s, BackendSettings.read p name = .ok s := by
  unfold backendProblems at h
  split at h
  · cases h
  · next s hs => exact ⟨s, hs⟩

theorem readable_of_memberWorkerProblems {balancer member : String}
    (h : memberWorkerProblems p balancer member = []) : p.Readable member := by
  unfold memberWorkerProblems at h
  split at h
  · cases h
  · next hk => exact ⟨⟨_, hk⟩, fun _ => readable_of_backendProblems h⟩
  · cases h
  · next hk => exact ⟨⟨_, hk⟩, fun hk' => by rw [hk] at hk'; cases hk'⟩

theorem lookup_eq_none_iff {routes : List (String × String)} {route : String} :
    routes.lookup route = none ↔ route ∉ routes.map Prod.fst := by
  rw [List.lookup_eq_none_iff]
  simp only [List.mem_map, not_exists, not_and, bne_iff_ne, ne_eq]
  exact ⟨fun h e he heq => h e he heq.symm, fun h e he heq => h e he heq.symm⟩

/-- The first member, after members with some routes. -/
theorem memberProblems_cons_eq_nil_iff {balancer member : String}
    {routes : List (String × String)} {names : List String} :
    memberProblems p balancer routes (member :: names) = [] ↔
      p.defines member = true ∧ memberWorkerProblems p balancer member = [] ∧
      ∃ s, MemberSettings.read p member = .ok s ∧ s.route ∉ routes.map Prod.fst ∧
        memberProblems p balancer ((s.route, member) :: routes) names = [] := by
  rw [memberProblems]
  by_cases hd : p.defines member = true
  · rw [if_pos hd, List.append_eq_nil_iff, and_iff_right hd]
    refine and_congr_right fun _ => ?_
    cases hs : MemberSettings.read p member with
    | error e =>
      constructor
      · intro h
        cases h
      · rintro ⟨s, h, -⟩
        cases h
    | ok s =>
      rw [List.append_eq_nil_iff]
      constructor
      · rintro ⟨hdup, hrest⟩
        refine ⟨s, rfl, lookup_eq_none_iff.1 ?_, hrest⟩
        cases hl : routes.lookup s.route with
        | none => rfl
        | some first =>
          rw [hl] at hdup
          cases hdup
      · rintro ⟨s', h, hfresh, hrest⟩
        cases h
        rw [lookup_eq_none_iff.2 hfresh]
        exact ⟨rfl, hrest⟩
  · rw [if_neg hd]
    constructor
    · intro h
      cases h
    · exact fun h => absurd h.1 hd

/-- The members in turn, after members with some routes. -/
theorem memberProblems_eq_nil_iff {balancer : String} {routes : List (String × String)}
    {names : List String} :
    memberProblems p balancer routes names = [] ↔
      (∀ m ∈ names, p.defines m = true ∧ memberWorkerProblems p balancer m = []) ∧
      ∃ ss, List.Forall₂ (fun m s => MemberSettings.read p m = .ok s) names ss ∧
        (ss.map MemberSettings.route).Nodup ∧
        ∀ r ∈ ss.map MemberSettings.route, r ∉ routes.map Prod.fst := by
  induction names generalizing routes with
  | nil => simp [memberProblems]
  | cons m names ih =>
    rw [memberProblems_cons_eq_nil_iff, List.forall_mem_cons]
    simp only [ih]
    constructor
    · rintro ⟨hd, hw, s, hs, hfresh, hrest, ss, hss, hnodup, hnew⟩
      -- the route of `m` was taken when the others were checked
      refine ⟨⟨⟨hd, hw⟩, hrest⟩, s :: ss, .cons hs hss, ?_, ?_⟩
      · rw [List.map_cons, List.nodup_cons]
        exact ⟨fun h => hnew _ h List.mem_cons_self, hnodup⟩
      · rw [List.map_cons, List.forall_mem_cons]
        exact ⟨hfresh, fun r hr h => hnew r hr (List.mem_cons_of_mem _ h)⟩
    · rintro ⟨⟨⟨hd, hw⟩, hrest⟩, ss, hss, hnodup, hnew⟩
      obtain ⟨s, ss', hs, hss', rfl⟩ := List.forall₂_cons_left_iff.1 hss
      rw [List.map_cons, List.nodup_cons] at hnodup
      rw [List.map_cons, List.forall_mem_cons] at hnew
      refine ⟨hd, hw, s, hs, hnew.1, hrest, ss', hss', hnodup.2, fun r hr h => ?_⟩
      rcases List.mem_cons.1 h with rfl | h
      · exact hnodup.1 hr
      · exact hnew.2 r hr h

/-! ## Listed workers -/

theorem readable_of_workerProblems {name : String} (h : workerProblems p name = []) :
    p.Readable name := by
  unfold workerProblems at h
  split at h
  · cases h
  · next hk => exact ⟨⟨_, hk⟩, fun _ => readable_of_backendProblems h⟩
  · next hk => exact ⟨⟨_, hk⟩, fun hk' => by rw [hk] at hk'; cases hk'⟩
  · next hk => exact ⟨⟨_, hk⟩, fun hk' => by rw [hk] at hk'; cases hk'⟩

theorem balancerProblems_of_workerProblems {name : String} (h : workerProblems p name = [])
    (hk : WorkerKind.read p name = .ok .lb) :
    (∃ s, BalancerSettings.read p name = .ok s) ∧
      memberProblems p name [] (BalancerSettings.memberNames p name) = [] := by
  unfold workerProblems at h
  rw [hk] at h
  dsimp only [balancerProblems] at h
  split at h
  · cases h
  · next s hs => exact ⟨⟨s, hs⟩, h⟩

theorem readableBalancer_of_workerProblems {name : String} (h : workerProblems p name = [])
    (hk : WorkerKind.read p name = .ok .lb) : p.ReadableBalancer name := by
  obtain ⟨hs, h⟩ := balancerProblems_of_workerProblems h hk
  obtain ⟨hmembers, ss, hss, -⟩ := memberProblems_eq_nil_iff.1 h
  refine ⟨hs, fun m hm => ?_, fun m hm => readable_of_memberWorkerProblems (hmembers m hm).2⟩
  obtain ⟨s, -, hs⟩ := exists_of_forall₂_left hss hm
  exact ⟨s, hs⟩

/-! ## Mounts -/

theorem mountProblems_eq_nil_iff {workers : List String} {m : Mount} :
    mountProblems workers m = [] ↔
      (∃ rules, Rule.readMount m.pattern m.worker = .ok rules) ∧
        Text.trimmed m.worker ∈ workers := by
  unfold mountProblems
  cases Rule.readMount m.pattern m.worker with
  | error e => simp
  | ok rules => simp

theorem problems_eq_nil_iff : problems p = [] ↔ p.workers ≠ [] ∧
    (∀ name ∈ p.workers, workerProblems p name = []) ∧
      ∀ m ∈ p.mounts, mountProblems p.workers m = [] := by
  unfold problems
  rw [List.append_eq_nil_iff, List.append_eq_nil_iff, List.flatMap_eq_nil_iff,
    List.flatMap_eq_nil_iff, and_assoc]
  refine and_congr_left fun _ => ?_
  cases p.workers <;> simp

end Validation

namespace Config

variable {p : Properties}

theorem validate_eq_ok_iff : validate p = .ok () ↔ Validation.problems p = [] := by
  unfold validate
  split
  · next h => exact ⟨fun _ => h, fun _ => rfl⟩
  · next h =>
    constructor
    · intro he
      cases he
    · exact fun hp => absurd hp h

variable (hv : validate p = .ok ())

include hv

theorem readable_of_validate {name : String} (hname : name ∈ p.workers) : p.Readable name :=
  Validation.readable_of_workerProblems
    ((Validation.problems_eq_nil_iff.1 (validate_eq_ok_iff.1 hv)).2.1 name hname)

theorem readableBalancer_of_validate {name : String} (hname : name ∈ p.workers)
    (hk : WorkerKind.read p name = .ok .lb) : p.ReadableBalancer name :=
  Validation.readableBalancer_of_workerProblems
    ((Validation.problems_eq_nil_iff.1 (validate_eq_ok_iff.1 hv)).2.1 name hname) hk

/-- The members of a listed balancer have settings with routes of their own. -/
theorem exists_settings_of_validate {name : String} (hname : name ∈ p.workers)
    (hk : WorkerKind.read p name = .ok .lb) : ∃ ss,
      List.Forall₂ (fun m s => MemberSettings.read p m = .ok s)
        (BalancerSettings.memberNames p name) ss ∧ (ss.map MemberSettings.route).Nodup := by
  obtain ⟨-, h⟩ := Validation.balancerProblems_of_workerProblems
    ((Validation.problems_eq_nil_iff.1 (validate_eq_ok_iff.1 hv)).2.1 name hname) hk
  obtain ⟨-, ss, hss, hnodup, -⟩ := Validation.memberProblems_eq_nil_iff.1 h
  exact ⟨ss, hss, hnodup⟩

theorem mount_of_validate {m : Mount} (hm : m ∈ p.mounts) :
    (∃ rules, Rule.readMount m.pattern m.worker = .ok rules) ∧ Text.trimmed m.worker ∈ p.workers :=
  Validation.mountProblems_eq_nil_iff.1
    ((Validation.problems_eq_nil_iff.1 (validate_eq_ok_iff.1 hv)).2.2 m hm)

end Config

end AjpGateway
