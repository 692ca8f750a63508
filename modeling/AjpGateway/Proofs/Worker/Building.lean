import AjpGateway.Proofs.Worker.Renewal

/-!
# Building workers

A worker is built exactly if every worker that lies below it can be: at no more levels than there
is room for, each with entries that are fit for its kind.

    (∃ w, build hosts p room top = .ok w) ↔
      ∀ d name, Below p top d name → d < room ∧ Fit hosts p name             (exists_build_iff)

What was built has the balancers that the configuration describes.

    build hosts p room name = .ok w → w.name = name ∧ w.Follows p p            (follows_build)
-/

namespace AjpGateway

variable {p : Properties}

/-! ## Settings of a balancer -/

theorem BalancerSettings.members_of_read {name : String} {s : BalancerSettings}
    (h : BalancerSettings.read p name = .ok s) :
    s.members = memberNames p name ∧ s.members ≠ [] := by
  unfold BalancerSettings.read at h
  dsimp only at h
  by_cases hm : memberNames p name = []
  · rw [if_pos hm] at h
    cases h
  · rw [if_neg hm] at h
    obtain ⟨sticky, -, h⟩ := bind_eq_ok_iff.1 h
    obtain ⟨forceSticky, -, h⟩ := bind_eq_ok_iff.1 h
    obtain ⟨recoverTime, -, h⟩ := bind_eq_ok_iff.1 h
    obtain ⟨maintainTime, -, h⟩ := bind_eq_ok_iff.1 h
    cases h
    exact ⟨rfl, hm⟩

namespace Worker

/-! ## What lies below a worker -/

/-- A worker lies some levels below a top: the members of a balancer lie one level below it. -/
inductive Below (p : Properties) : (top : String) → (depth : Nat) → (name : String) → Prop where
  | top (name : String) : Below p name 0 name
  | member {top m name : String} {depth : Nat} (hkind : WorkerKind.read p top = .ok .lb)
      (hm : m ∈ BalancerSettings.memberNames p top) (h : Below p m depth name) :
      Below p top (depth + 1) name

theorem Below.deeper {top name m : String} {depth : Nat} (h : Below p top depth name)
    (hkind : WorkerKind.read p name = .ok .lb) (hm : m ∈ BalancerSettings.memberNames p name) :
    Below p top (depth + 1) m := by
  induction h with
  | top => exact .member hkind hm (.top m)
  | member hk hmem _ ih => exact .member hk hmem (ih hkind hm)

/-- What lies below the top is the member of a balancer one level higher. -/
theorem Below.exists_balancer {top name : String} {depth : Nat} (h : Below p top (depth + 1) name) :
    ∃ balancer, Below p top depth balancer ∧ WorkerKind.read p balancer = .ok .lb ∧
      name ∈ BalancerSettings.memberNames p balancer := by
  induction depth generalizing top with
  | zero =>
    cases h with
    | member hk hm h =>
      cases h
      exact ⟨top, .top top, hk, hm⟩
  | succ depth ih =>
    cases h with
    | member hk hm h =>
      obtain ⟨b, hb, hkb, hmb⟩ := ih h
      exact ⟨b, .member hk hm hb, hkb, hmb⟩

/-- The entries of a worker say all that its kind needs. -/
inductive Fit (hosts : Hosts) (p : Properties) : (name : String) → Prop where
  | backend {name : String} {s : BackendSettings} {address : Address}
      (hkind : WorkerKind.read p name = .ok .ajp13) (hs : BackendSettings.read p name = .ok s)
      (haddress : hosts.resolve s.host s.port = .ok address)
      (hroom : Line.size * s.cacheSize ≤ Pool.blockLimit) : Fit hosts p name
  | monitor {name : String} (hkind : WorkerKind.read p name = .ok .status) : Fit hosts p name
  | balancer {name : String} {s : BalancerSettings} (hkind : WorkerKind.read p name = .ok .lb)
      (hs : BalancerSettings.read p name = .ok s)
      (hmembers : ∀ m ∈ BalancerSettings.memberNames p name, ∃ t, MemberSettings.read p m = .ok t) :
      Fit hosts p name

end Worker

/-! ## Leaves -/

variable {hosts : Hosts}

theorem Backend.validate_eq_ok_iff {b b' : Backend} (hb : b.phase = .unvalidated) :
    b.validate hosts p = .ok b' ↔ ∃ s address, BackendSettings.read p b.name = .ok s ∧
      hosts.resolve s.host s.port = .ok address ∧ b' = { b with
        phase := .validated
        settings := s
        address? := some address
        options := s.socketOptions } := by
  unfold validate
  simp only [bind_eq_ok_iff, mapError_eq_ok_iff, Phase.move_eq_ok_iff]
  constructor
  · rintro ⟨s, hs, address, ha, phase, ⟨-, rfl⟩, h⟩
    exact ⟨s, address, hs, ha, (Except.ok.inj h).symm⟩
  · rintro ⟨s, address, hs, ha, rfl⟩
    exact ⟨s, hs, address, ha, .validated, ⟨hb, rfl⟩, rfl⟩

theorem Backend.init_eq_ok_iff {b b' : Backend} (hb : b.phase = .validated) :
    b.init = .ok b' ↔ Line.size * b.settings.cacheSize ≤ Pool.blockLimit ∧ b' = { b with
      phase := .initialized
      pool? := some {
        capacity := b.settings.cacheSize
        idleLimit? := b.settings.cacheLimit? } } := by
  unfold init Pool.new?
  simp only [bind_eq_ok_iff, Phase.move_eq_ok_iff]
  by_cases hroom : Line.size * b.settings.cacheSize ≤ Pool.blockLimit
  · simp only [if_pos hroom]
    constructor
    · rintro ⟨phase, ⟨-, rfl⟩, h⟩
      exact ⟨hroom, (Except.ok.inj h).symm⟩
    · rintro ⟨-, rfl⟩
      exact ⟨.initialized, ⟨hb, rfl⟩, rfl⟩
  · simp only [if_neg hroom]
    constructor
    · rintro ⟨phase, -, h⟩
      cases h
    · exact fun h => absurd h.1 hroom

namespace Worker

variable {name : String}

theorem new_backend_eq_ok_iff {w : Worker Target} :
    ((new .ajp13 name).validate hosts p).bind init = .ok w ↔ ∃ s address,
      BackendSettings.read p name = .ok s ∧ hosts.resolve s.host s.port = .ok address ∧
      Line.size * s.cacheSize ≤ Pool.blockLimit ∧ w = .leaf (.backend {
        name
        phase := .initialized
        settings := s
        address? := some address
        options := s.socketOptions
        pool? := some { capacity := s.cacheSize, idleLimit? := s.cacheLimit? } }) := by
  constructor
  · intro h
    obtain ⟨v, hv, hw⟩ := bind_eq_ok_iff.1 h
    obtain ⟨b, hb, rfl⟩ := map_eq_ok_iff.1 hv
    obtain ⟨s, address, hs, ha, rfl⟩ := (Backend.validate_eq_ok_iff rfl).1 hb
    obtain ⟨b, hb, rfl⟩ := map_eq_ok_iff.1 hw
    obtain ⟨hroom, rfl⟩ := (Backend.init_eq_ok_iff rfl).1 hb
    exact ⟨s, address, hs, ha, hroom, rfl⟩
  · rintro ⟨s, address, hs, ha, hroom, rfl⟩
    have hb := (Backend.validate_eq_ok_iff (b := { name }) rfl).2 ⟨s, address, hs, ha, rfl⟩
    refine bind_eq_ok_iff.2 ⟨_, map_eq_ok_iff.2 ⟨_, hb, rfl⟩, ?_⟩
    exact map_eq_ok_iff.2 ⟨_, (Backend.init_eq_ok_iff rfl).2 ⟨hroom, rfl⟩, rfl⟩

end Worker

/-! ## Balancers -/

theorem Balancer.validate_eq_ok_iff {b b' : Balancer Float} (hb : b.phase = .unvalidated) :
    b.validate p = .ok b' ↔ ∃ s, BalancerSettings.read p b.name = .ok s ∧
      b' = { b with settings := s, phase := .validated } := by
  unfold validate
  simp only [bind_eq_ok_iff, mapError_eq_ok_iff, Phase.move_eq_ok_iff]
  constructor
  · rintro ⟨s, hs, phase, ⟨-, rfl⟩, h⟩
    exact ⟨s, hs, (Except.ok.inj h).symm⟩
  · rintro ⟨s, hs, rfl⟩
    exact ⟨s, hs, .validated, ⟨hb, rfl⟩, rfl⟩

theorem Balancer.init_eq_ok_iff {b b' : Balancer Float} (hb : b.phase = .validated) :
    b.init = .ok b' ↔ b.members ≠ [] ∧ b' = { b with phase := .initialized } := by
  unfold init
  by_cases hm : b.members = []
  · rw [if_pos (List.isEmpty_iff.2 hm)]
    constructor
    · intro h
      cases h
    · exact fun h => absurd hm h.1
  · rw [if_neg (mt List.isEmpty_iff.1 hm)]
    simp only [bind_eq_ok_iff, Phase.move_eq_ok_iff]
    constructor
    · rintro ⟨phase, ⟨-, rfl⟩, h⟩
      exact ⟨hm, (Except.ok.inj h).symm⟩
    · rintro ⟨-, rfl⟩
      exact ⟨.initialized, ⟨hb, rfl⟩, rfl⟩

namespace Worker

variable {name : String} {α : Type} {make : String → Except ConfigError (Worker α)}

/-- The record and the worker of a member that `make` builds. -/
def MemberBuilt (p : Properties) (make : String → Except ConfigError (Worker α)) (m : String)
    (x : Member Float × Worker α) : Prop :=
  ∃ s, MemberSettings.read p m = .ok s ∧ make m = .ok x.2 ∧ x.1 = .ofSettings m s

theorem balance_eq_ok_iff {w : Worker α} :
    balance p name make = .ok w ↔ ∃ s members, BalancerSettings.read p name = .ok s ∧
      List.Forall₂ (MemberBuilt p make) s.members members ∧ w = .balancer {
        name
        phase := .initialized
        settings := s
        members := members.map Prod.fst } (members.map Prod.snd) := by
  have hmember (m : String) (x : Member Float × Worker α) :
      (∃ s, MemberSettings.read p m = .ok s ∧ ∃ v, make m = .ok v ∧
        (pure (.ofSettings m s, v) : Except ConfigError _) = .ok x) ↔ MemberBuilt p make m x := by
    constructor
    · rintro ⟨s, hs, v, hv, h⟩
      cases h
      exact ⟨s, hs, hv, rfl⟩
    · rintro ⟨s, hs, hv, hm⟩
      exact ⟨s, hs, x.2, hv, by rw [← hm]; rfl⟩
  unfold balance
  simp only [bind_eq_ok_iff, mapM_eq_ok_iff, mapError_eq_ok_iff, hmember]
  constructor
  · rintro ⟨b, hb, members, hmembers, b', hb', h⟩
    obtain ⟨s, hs, rfl⟩ := (Balancer.validate_eq_ok_iff rfl).1 hb
    obtain ⟨-, rfl⟩ := (Balancer.init_eq_ok_iff rfl).1 hb'
    exact ⟨s, members, hs, hmembers, (Except.ok.inj h).symm⟩
  · rintro ⟨s, members, hs, hmembers, rfl⟩
    refine ⟨_, (Balancer.validate_eq_ok_iff rfl).2 ⟨s, hs, rfl⟩, members, hmembers, _,
      (Balancer.init_eq_ok_iff rfl).2 ⟨?_, rfl⟩, rfl⟩
    intro h
    rw [List.map_eq_nil_iff.1 h, List.forall₂_nil_right_iff] at hmembers
    exact (BalancerSettings.members_of_read hs).2 hmembers

theorem exists_balance_iff :
    (∃ w, balance p name make = .ok w) ↔ (∃ s, BalancerSettings.read p name = .ok s) ∧
      ∀ m ∈ BalancerSettings.memberNames p name,
        (∃ s, MemberSettings.read p m = .ok s) ∧ ∃ w, make m = .ok w := by
  simp only [balance_eq_ok_iff]
  constructor
  · rintro ⟨w, s, members, hs, hmembers, -⟩
    refine ⟨⟨s, hs⟩, fun m hm => ?_⟩
    rw [← (BalancerSettings.members_of_read hs).1] at hm
    obtain ⟨x, -, t, ht, hx, -⟩ := exists_of_forall₂_left hmembers hm
    exact ⟨⟨t, ht⟩, x.2, hx⟩
  · rintro ⟨⟨s, hs⟩, hmembers⟩
    have hbuilt : ∀ m ∈ s.members, ∃ x, MemberBuilt p make m x := by
      intro m hm
      rw [(BalancerSettings.members_of_read hs).1] at hm
      obtain ⟨⟨t, ht⟩, w, hw⟩ := hmembers m hm
      exact ⟨(.ofSettings m t, w), t, ht, hw, rfl⟩
    obtain ⟨members, hmembers⟩ := exists_forall₂ hbuilt
    exact ⟨_, s, members, hs, hmembers, rfl⟩

/-! ## Trees -/

/-- What is needed for a worker with room for one level more. -/
theorem exists_build_succ_iff {room : Nat} :
    (∃ w, build hosts p (room + 1) name = .ok w) ↔ Fit hosts p name ∧
      (WorkerKind.read p name = .ok .lb →
        ∀ m ∈ BalancerSettings.memberNames p name, ∃ w, build hosts p room m = .ok w) := by
  simp only [build, bind_eq_ok_iff, mapError_eq_ok_iff]
  constructor
  · rintro ⟨w, kind, hk, h⟩
    cases kind with
    | ajp13 =>
      obtain ⟨s, address, hs, ha, hroom, -⟩ := new_backend_eq_ok_iff.1 h
      exact ⟨.backend hk hs ha hroom, fun hlb => by rw [hk] at hlb; cases hlb⟩
    | status => exact ⟨.monitor hk, fun hlb => by rw [hk] at hlb; cases hlb⟩
    | lb =>
      obtain ⟨⟨s, hs⟩, hmembers⟩ := exists_balance_iff.1 ⟨w, h⟩
      exact ⟨.balancer hk hs fun m hm => (hmembers m hm).1, fun _ m hm => (hmembers m hm).2⟩
  · rintro ⟨hfit, hmembers⟩
    cases hfit with
    | backend hk hs ha hroom =>
      exact ⟨_, .ajp13, hk, new_backend_eq_ok_iff.2 ⟨_, _, hs, ha, hroom, rfl⟩⟩
    | monitor hk => exact ⟨_, .status, hk, rfl⟩
    | balancer hk hs hread =>
      obtain ⟨w, hw⟩ := exists_balance_iff.2 ⟨⟨_, hs⟩, fun m hm => ⟨hread m hm, hmembers hk m hm⟩⟩
      exact ⟨w, .lb, hk, hw⟩

theorem forall_below_iff {P : Nat → String → Prop} :
    (∀ d n, Below p name d n → P d n) ↔ P 0 name ∧ (WorkerKind.read p name = .ok .lb →
      ∀ m ∈ BalancerSettings.memberNames p name, ∀ d n, Below p m d n → P (d + 1) n) := by
  constructor
  · exact fun h => ⟨h 0 name (.top name), fun hk m hm d n hb => h (d + 1) n (.member hk hm hb)⟩
  · rintro ⟨htop, hmembers⟩ d n hb
    cases hb with
    | top => exact htop
    | member hk hm hb => exact hmembers hk _ hm _ _ hb

/-- **A worker is built exactly if all that lies below it fits.** -/
theorem exists_build_iff {room : Nat} :
    (∃ w, build hosts p room name = .ok w) ↔
      ∀ d n, Below p name d n → d < room ∧ Fit hosts p n := by
  induction room generalizing name with
  | zero =>
    constructor
    · rintro ⟨w, h⟩
      cases h
    · exact fun h => absurd (h 0 name (.top name)).1 (Nat.lt_irrefl 0)
  | succ room ih =>
    rw [exists_build_succ_iff, forall_below_iff]
    simp only [ih, Nat.zero_lt_succ, true_and, Nat.succ_lt_succ_iff]

/-! ## What was built -/

theorem follows_balance {make : String → Except ConfigError (Worker Target)} {w : Worker Target}
    (hmake : ∀ m w, make m = .ok w → w.name = m ∧ w.Follows p p)
    (h : balance p name make = .ok w) : w.name = name ∧ w.Follows p p := by
  obtain ⟨s, members, hs, hmembers, rfl⟩ := balance_eq_ok_iff.1 h
  refine ⟨rfl, forall_balancers_iff.2 ⟨⟨?members, ?listed, ?settings⟩, ?below⟩⟩
  case members =>
    rw [Balancer.map_fst_members_setup, List.map_map, List.map_map]
    refine List.map_congr_left fun x hx => ?_
    obtain ⟨m, -, t, -, hw, ht⟩ := exists_of_forall₂_right hmembers hx
    dsimp only [Function.comp]
    rw [(hmake m x.2 hw).1, ht]
    rfl
  case listed =>
    rw [List.map_map]
    refine (map_eq_of_forall₂ (f := id) ?_ hmembers).trans ?_
    · rintro m x ⟨t, -, hw, -⟩
      exact (hmake m x.2 hw).1
    · rw [List.map_id]
      exact (BalancerSettings.members_of_read hs).1
  case settings =>
    intro m hm
    obtain ⟨r, hr, rfl⟩ := List.mem_map.1 hm
    obtain ⟨x, hx, rfl⟩ := List.mem_map.1 hr
    obtain ⟨m, -, t, hread, -, ht⟩ := exists_of_forall₂_right hmembers hx
    rw [ht]
    exact hread
  case below =>
    intro w hw
    obtain ⟨x, hx, rfl⟩ := List.mem_map.1 hw
    obtain ⟨m, -, t, -, hw, -⟩ := exists_of_forall₂_right hmembers hx
    exact (hmake m x.2 hw).2

/-- By induction on the room: a worker that was built follows its configuration. -/
theorem follows_build {room : Nat} {w : Worker Target} (h : build hosts p room name = .ok w) :
    w.name = name ∧ w.Follows p p := by
  induction room generalizing name w with
  | zero => cases h
  | succ room ih =>
    obtain ⟨kind, -, h⟩ := bind_eq_ok_iff.1 h
    cases kind with
    | ajp13 =>
      obtain ⟨s, address, -, -, -, rfl⟩ := new_backend_eq_ok_iff.1 h
      exact ⟨rfl, fun x hx => absurd hx List.not_mem_nil⟩
    | status =>
      cases h
      exact ⟨rfl, fun x hx => absurd hx List.not_mem_nil⟩
    | lb => exact follows_balance (fun m w hw => ih hw) h

end Worker

end AjpGateway
