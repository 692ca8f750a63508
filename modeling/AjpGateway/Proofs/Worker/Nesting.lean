import AjpGateway.Proofs.Config.Cycles
import AjpGateway.Proofs.Worker.Alike
import AjpGateway.Proofs.Worker.Building

/-!
# Nesting

A balancer is built from its members one level further down, whatever the configuration says of
them, so only the bound on the levels brings the building to its end.  What it ends with is a tree
that lies within the bound: each worker is where the configuration has it, open, and a balancer has
a record and a worker for each member.  Below a cycle there is no such tree.

    Builds hosts p depth name r ↔ r = build hosts p (maxDepth + 1 - depth) name    (builds_iff)
    build hosts p room name = .ok w → w.behind? path = some u →
      path.length < room ∧ Placed p name path u                                   (placed_build)
    p.ReachesCycle name → ¬ ∃ w, build hosts p room name = .ok w              (not_build_of_cycle)
-/

namespace AjpGateway.Worker

open Relation (ReflTransGen TransGen)

variable {hosts : Hosts} {p : Properties} {name : String}

/-! ## Building without a bound on the steps -/

/-- Why a worker that would lie too deep is not built. -/
def tooDeep (name : String) : ConfigError :=
  .setting (.invalidValue (Properties.workerKey name "balance_workers")
    ("nesting deeper than " ++ toString maxDepth))

/-- What comes of building a worker that lies some levels below the top.  The levels are counted and
compared with the bound; nothing else ends the recursion.  All members are asked for, those behind
one that fails as well. -/
inductive Builds (hosts : Hosts) (p : Properties) :
    (depth : Nat) → (name : String) → (result : Except ConfigError (Worker Target)) → Prop where
  | tooDeep {depth : Nat} {name : String} (h : maxDepth < depth) :
      Builds hosts p depth name (.error (tooDeep name))
  | unreadable {depth : Nat} {name : String} {e : SettingError} (h : depth ≤ maxDepth)
      (hkind : WorkerKind.read p name = .error e) : Builds hosts p depth name (.error (.setting e))
  | leaf {depth : Nat} {name : String} {kind : WorkerKind} (h : depth ≤ maxDepth)
      (hkind : WorkerKind.read p name = .ok kind) (hleaf : kind ≠ .lb) :
      Builds hosts p depth name (((new kind name).validate hosts p).bind init)
  | balancer {depth : Nat} {name : String} {make : String → Except ConfigError (Worker Target)}
      (h : depth ≤ maxDepth) (hkind : WorkerKind.read p name = .ok .lb)
      (hmake : ∀ m ∈ BalancerSettings.memberNames p name, Builds hosts p (depth + 1) m (make m)) :
      Builds hosts p depth name (balance p name make)

/-- Only the members that the settings name are made. -/
theorem balance_congr {α : Type} {make make' : String → Except ConfigError (Worker α)}
    (h : ∀ m ∈ BalancerSettings.memberNames p name, make m = make' m) :
    balance p name make = balance p name make' := by
  unfold balance
  cases hb : ({ name : Balancer Float }).validate p with
  | error e => rfl
  | ok b =>
    obtain ⟨s, hs, rfl⟩ := (Balancer.validate_eq_ok_iff rfl).1 hb
    rw [← (BalancerSettings.members_of_read hs).1] at h
    change (s.members.mapM _ : Except ConfigError _) >>= _ = s.members.mapM _ >>= _
    refine congrArg₂ bind (mapM_congr fun m hm => ?_) rfl
    rw [h m hm]

theorem builds_build {depth room : Nat} (hroom : maxDepth + 1 - depth = room) :
    Builds hosts p depth name (build hosts p room name) := by
  induction room generalizing depth name with
  | zero => exact .tooDeep (by omega)
  | succ room ih =>
    have hdepth : depth ≤ maxDepth := by omega
    unfold build
    cases hkind : WorkerKind.read p name with
    | error e => exact .unreadable hdepth hkind
    | ok kind =>
      cases kind with
      | ajp13 => exact .leaf hdepth hkind (by decide)
      | status => exact .leaf hdepth hkind (by decide)
      | lb => exact .balancer hdepth hkind fun m _ => ih (by omega)

theorem Builds.eq_build {depth : Nat} {r : Except ConfigError (Worker Target)}
    (h : Builds hosts p depth name r) : r = build hosts p (maxDepth + 1 - depth) name := by
  induction h with
  | tooDeep h =>
    rw [Nat.sub_eq_zero_of_le h]
    rfl
  | unreadable h hkind =>
    rw [Nat.sub_add_comm h, build, hkind]
    rfl
  | @leaf _ _ kind h hkind hleaf =>
    rw [Nat.sub_add_comm h, build, hkind]
    cases kind with
    | lb => exact absurd rfl hleaf
    | ajp13 => rfl
    | status => rfl
  | balancer h hkind _ ih =>
    rw [Nat.sub_add_comm h, build, hkind]
    refine balance_congr fun m hm => (ih m hm).trans ?_
    rw [Nat.add_sub_add_right]

/-- **The building ends**, at whatever level it starts, and in one way. -/
theorem builds_iff {depth : Nat} {r : Except ConfigError (Worker Target)} :
    Builds hosts p depth name r ↔ r = build hosts p (maxDepth + 1 - depth) name := by
  constructor
  · exact Builds.eq_build
  · rintro rfl
    exact builds_build rfl

/-! ## Places in a tree -/

section

variable {α : Type} [Leaf α]

/-- A balancer has the members that the configuration names, each with a record and a worker. -/
structure Enrolled (p : Properties) (b : Balancer Float) (ws : List (Worker α)) : Prop where
  settings : b.settings.members = BalancerSettings.memberNames p b.name
  records : b.members.map Member.name = BalancerSettings.memberNames p b.name
  workers : ws.map Worker.name = BalancerSettings.memberNames p b.name

/-- A worker at a place of the tree of a top. -/
structure Placed (p : Properties) (top : String) (path : List Nat) (u : Worker α) : Prop where
  below : Below p top path.length u.name
  phase : u.phase = .initialized
  enrolled : ∀ b ws, u = balancer b ws → Enrolled p b ws

end

/-! ## What is built -/

theorem enrolled_balance {make : String → Except ConfigError (Worker Target)} {s : BalancerSettings}
    {members : List (Member Float × Worker Target)} {phase : Phase}
    (hmake : ∀ m w, make m = .ok w → w.name = m) (hs : BalancerSettings.read p name = .ok s)
    (hmembers : List.Forall₂ (MemberBuilt p make) s.members members) :
    Enrolled p { name, phase, settings := s, members := members.map Prod.fst }
      (members.map Prod.snd) := by
  have hnames := (BalancerSettings.members_of_read hs).1
  refine ⟨hnames, ?_, ?_⟩
  · rw [List.map_map, ← hnames]
    refine (map_eq_of_forall₂ (f := id) ?_ hmembers).trans (List.map_id _)
    rintro m x ⟨t, -, -, hx⟩
    rw [Function.comp, hx]
    rfl
  · rw [List.map_map, ← hnames]
    refine (map_eq_of_forall₂ (f := id) ?_ hmembers).trans (List.map_id _)
    rintro m x ⟨t, -, hw, -⟩
    exact hmake m x.2 hw

/-- By induction on the room. -/
theorem placed_build {room : Nat} {w u : Worker Target} {path : List Nat}
    (h : build hosts p room name = .ok w) (hu : w.behind? path = some u) :
    path.length < room ∧ Placed p name path u := by
  induction room generalizing name w path with
  | zero => cases h
  | succ room ih =>
    obtain ⟨kind, hkind, h⟩ := bind_eq_ok_iff.1 h
    rw [mapError_eq_ok_iff] at hkind
    cases kind with
    | ajp13 =>
      obtain ⟨s, address, -, -, -, rfl⟩ := new_backend_eq_ok_iff.1 h
      obtain ⟨rfl, rfl⟩ := behind_leaf hu
      exact ⟨Nat.zero_lt_succ _, .top name, rfl, nofun⟩
    | status =>
      cases h
      obtain ⟨rfl, rfl⟩ := behind_leaf hu
      exact ⟨Nat.zero_lt_succ _, .top name, rfl, nofun⟩
    | lb =>
      obtain ⟨s, members, hs, hmembers, rfl⟩ := balance_eq_ok_iff.1 h
      cases path with
      | nil =>
        cases hu
        refine ⟨Nat.zero_lt_succ _, .top name, rfl, fun b ws h => ?_⟩
        cases h
        exact enrolled_balance (fun m w hw => (follows_build hw).1) hs hmembers
      | cons i path =>
        obtain ⟨v, hv, hu⟩ := Option.bind_eq_some_iff.1 hu
        obtain ⟨x, hx, rfl⟩ := List.mem_map.1 (List.mem_of_getElem? hv)
        obtain ⟨m, hm, -, -, hw, -⟩ := exists_of_forall₂_right hmembers hx
        rw [(BalancerSettings.members_of_read hs).1] at hm
        obtain ⟨hless, hplaced⟩ := ih hw hu
        exact ⟨Nat.succ_lt_succ hless, .member hkind hm hplaced.below, hplaced.phase,
          hplaced.enrolled⟩

/-! ## Cycles -/

theorem Below.exists_of_reach {top a b : String} {d : Nat} (ha : Below p top d a)
    (h : ReflTransGen p.Nests a b) : ∃ e, d ≤ e ∧ Below p top e b := by
  induction h with
  | refl => exact ⟨d, Nat.le_refl d, ha⟩
  | tail _ hn ih =>
    obtain ⟨e, he, hb⟩ := ih
    exact ⟨e + 1, Nat.le_succ_of_le he, hb.deeper hn.1 hn.2⟩

/-- What lies below itself lies below at any depth: each round leads further down. -/
theorem exists_below_of_reachesCycle (h : p.ReachesCycle name) (k : Nat) :
    ∃ d n, k ≤ d ∧ Below p name d n := by
  obtain ⟨w, hreach, hcycle⟩ := h
  obtain ⟨m, hm, hback⟩ := TransGen.head'_iff.1 hcycle
  suffices ∃ d, k ≤ d ∧ Below p name d w by
    obtain ⟨d, hd, hw⟩ := this
    exact ⟨d, w, hd, hw⟩
  induction k with
  | zero =>
    obtain ⟨d, -, hw⟩ := (Below.top name).exists_of_reach hreach
    exact ⟨d, Nat.zero_le d, hw⟩
  | succ k ih =>
    obtain ⟨d, hd, hw⟩ := ih
    obtain ⟨e, he, hw⟩ := (hw.deeper hm.1 hm.2).exists_of_reach hback
    exact ⟨e, Nat.le_trans (Nat.succ_le_succ hd) he, hw⟩

/-- However much room there is. -/
theorem not_build_of_cycle (h : p.ReachesCycle name) (room : Nat) :
    ¬ ∃ w, build hosts p room name = .ok w := by
  intro hbuilt
  obtain ⟨d, n, hd, hn⟩ := exists_below_of_reachesCycle h room
  exact absurd (exists_build_iff.1 hbuilt d n hn).1 (Nat.not_lt.2 hd)

/-- **Building a worker.**  It ends for every configuration.  What it succeeds with is a tree no
deeper than the bound in which each worker lies where the configuration has it and is open, and
each balancer has a record and a worker for each member, in order.  Where a cycle is reached it
fails. -/
theorem create_placed (hosts : Hosts) (p : Properties) (name : String) :
    (∀ depth name, ∃! r, Builds hosts p depth name r) ∧
    Builds hosts p 0 name (create hosts p name) ∧
    (∀ w, create hosts p name = .ok w →
      (∀ u, u ∈ w.all ↔ ∃ path, w.behind? path = some u) ∧
      ∀ path u, w.behind? path = some u → path.length ≤ maxDepth ∧ Placed p name path u) ∧
    (p.ReachesCycle name → ∃ e, create hosts p name = .error e) := by
  refine ⟨fun depth name => ⟨_, builds_iff.2 rfl, fun r h => builds_iff.1 h⟩, builds_iff.2 rfl,
    fun w hw => ⟨fun u => mem_all_iff_behind, fun path u hu => ?_⟩, fun hcycle => ?_⟩
  · obtain ⟨hless, hplaced⟩ := placed_build hw hu
    exact ⟨Nat.le_of_lt_succ hless, hplaced⟩
  · cases hw : create hosts p name with
    | error e => exact ⟨e, rfl⟩
    | ok w => exact absurd ⟨w, hw⟩ (not_build_of_cycle hcycle _)

/-- A balancer within a balancer, and none of them listed. -/
def nested : Properties := ⟨[
  ("worker.top.type", "lb"), ("worker.top.balance_workers", "inner, a"),
  ("worker.inner.type", "lb"), ("worker.inner.balance_workers", "a, b"),
  ("worker.a.host", "127.0.0.1"), ("worker.b.host", "127.0.0.1")]⟩

/-- The last member of the inner balancer lies at its place; the other configuration is cyclic. -/
theorem create_placed_nested :
    (∃ w, create .loopback nested "top" = .ok w ∧ ∃ u, w.behind? [0, 1] = some u ∧
      u.name = "b" ∧ Placed nested "top" [0, 1] u) ∧
    Validation.looping.ReachesCycle "top" ∧
    ∃ e, create .loopback Validation.looping "top" = .error e := by
  have heval : (create .loopback nested "top").toOption.any (fun w =>
      (w.behind? [0, 1]).any fun u => u.name == "b") = true := by decide +kernel
  obtain ⟨w, hw, hb⟩ := any_toOption_iff.1 heval
  obtain ⟨u, hu, hname⟩ := (Option.any_eq_true _ _).1 hb
  have hplaced := ((create_placed .loopback nested "top").2.2.1 w hw).2 [0, 1] u hu
  have htop : Validation.looping.Nests "top" "left" := by
    constructor <;> decide +kernel
  have hcycle := Validation.reachesCycle_looping.head htop
  exact ⟨⟨w, hw, u, hu, eq_of_beq hname, hplaced.2⟩, hcycle,
    (create_placed .loopback Validation.looping "top").2.2.2 hcycle⟩

end AjpGateway.Worker
