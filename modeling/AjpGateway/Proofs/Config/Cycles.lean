import AjpGateway.Proofs.Config.Validity
import Mathlib.Logic.Relation

/-!
# Cycles of balancers

A balancer is over its members, which may be balancers again, so a configuration may lead from a
balancer back to it.  Validation looks for that by a walk that keeps the path from the top alone.
The walk comes to an end, since each balancer on the path has an entry of its own for its kind; and
it finds a worker exactly if a cycle can be reached, which need not pass through the top.

    ∃! found, Walk p path name found                                       (existsUnique_walk)
    Walk p [balancer] member (cycle? p balancer member)                          (walk_cycle?)
    (∃ found, cycle? p balancer member = some found) ↔ p.ReachesCycle member (exists_cycle?_iff)
-/

namespace AjpGateway

open Relation (ReflTransGen TransGen)

/-- A balancer names a member. -/
def Properties.Nests (p : Properties) (balancer member : String) : Prop :=
  WorkerKind.read p balancer = .ok .lb ∧ member ∈ BalancerSettings.memberNames p balancer

/-- A worker leads down to one that leads down to itself. -/
def Properties.ReachesCycle (p : Properties) (name : String) : Prop :=
  ∃ w, ReflTransGen p.Nests name w ∧ TransGen p.Nests w w

variable {p : Properties}

theorem Properties.ReachesCycle.head {balancer member : String} (hm : p.Nests balancer member)
    (h : p.ReachesCycle member) : p.ReachesCycle balancer :=
  h.imp fun _ hw => ⟨.head hm hw.1, hw.2⟩

/-! ## Kinds and their entries -/

/-- The key of a worker's kind. -/
def kindKey (name : String) : String := Properties.workerKey name "type"

theorem kindKey_inj {a b : String} (h : kindKey a = kindKey b) : a = b := by
  have h := congrArg String.toList h
  simp only [kindKey, Properties.workerKey, String.toList_append, List.append_assoc] at h
  exact String.toList_inj.1 (List.append_cancel_right (List.append_cancel_left h))

/-- What is declared to be a balancer has an entry that says so. -/
theorem kindKey_mem_of_lb {name : String} (h : WorkerKind.read p name = .ok .lb) :
    kindKey name ∈ p.keys := by
  unfold WorkerKind.read Properties.worker? Properties.get? at h
  cases hraw : p.entries.lookup (Properties.workerKey name "type") with
  | none =>
    rw [hraw] at h
    cases h
  | some raw =>
    obtain ⟨before, after, hentries, -⟩ := List.lookup_eq_some_iff.1 hraw
    unfold Properties.keys
    rw [hentries]
    simp [kindKey]

namespace Validation

theorem isBalancer_iff {name : String} :
    isBalancer p name = true ↔ WorkerKind.read p name = .ok .lb := by
  unfold isBalancer
  split <;> simp_all

/-! ## The walk -/

mutual

/-- The walk down from a worker below those of a path, without a bound on its steps, and the worker
that it finds. -/
inductive Walk (p : Properties) :
    (path : List String) → (name : String) → (found : Option String) → Prop where
  | met {path : List String} {name : String} (hmem : name ∈ path) : Walk p path name (some name)
  | leaf {path : List String} {name : String} (hnew : name ∉ path)
      (hkind : WorkerKind.read p name ≠ .ok .lb) : Walk p path name none
  | balancer {path : List String} {name : String} {found : Option String} (hnew : name ∉ path)
      (hkind : WorkerKind.read p name = .ok .lb)
      (hmembers : WalkAll p (name :: path) (BalancerSettings.memberNames p name) found) :
      Walk p path name found

/-- The walks down from workers in turn, up to the first that finds one. -/
inductive WalkAll (p : Properties) :
    (path : List String) → (names : List String) → (found : Option String) → Prop where
  | nil {path : List String} : WalkAll p path [] none
  | found {path rest : List String} {name x : String} (h : Walk p path name (some x)) :
      WalkAll p path (name :: rest) (some x)
  | next {path rest : List String} {name : String} {found : Option String}
      (h : Walk p path name none) (hrest : WalkAll p path rest found) :
      WalkAll p path (name :: rest) found

end

mutual

theorem Walk.unique {path : List String} {name : String} {x : Option String} :
    Walk p path name x → ∀ y, Walk p path name y → x = y
  | .met hmem, _, h => by
    cases h with
    | met => rfl
    | leaf hnew => exact absurd hmem hnew
    | balancer hnew => exact absurd hmem hnew
  | .leaf hnew hkind, _, h => by
    cases h with
    | met hmem => exact absurd hmem hnew
    | leaf => rfl
    | balancer _ hk => exact absurd hk hkind
  | .balancer hnew hkind hmembers, y, h => by
    cases h with
    | met hmem => exact absurd hmem hnew
    | leaf _ hk => exact absurd hkind hk
    | balancer _ _ h => exact WalkAll.unique hmembers y h

theorem WalkAll.unique {path names : List String} {x : Option String} :
    WalkAll p path names x → ∀ y, WalkAll p path names y → x = y
  | .nil, _, h => by cases h; rfl
  | .found hw, _, h => by
    cases h with
    | found hw' => exact Walk.unique hw _ hw'
    | next hw' => cases Walk.unique hw _ hw'
  | .next hw hrest, y, h => by
    cases h with
    | found hw' => cases Walk.unique hw _ hw'
    | next _ hrest' => exact WalkAll.unique hrest y hrest'

end

/-- The entries for kinds of balancers that are not on the path. -/
def ahead (p : Properties) (path : List String) : Nat :=
  (p.keys.filter fun key => key ∉ path.map kindKey).length

theorem ahead_le (p : Properties) (path : List String) : ahead p path ≤ p.entries.length :=
  le_of_le_of_eq (List.length_filter_le _ _) (List.length_map _)

/-- A balancer that joins the path takes its entry with it. -/
theorem ahead_cons_lt {path : List String} {name : String} (hnew : name ∉ path)
    (hkind : WorkerKind.read p name = .ok .lb) : ahead p (name :: path) < ahead p path := by
  have hkey : kindKey name ∈ p.keys.filter fun key => key ∉ path.map kindKey := by
    refine List.mem_filter.2 ⟨kindKey_mem_of_lb hkind, ?_⟩
    simp only [List.mem_map, decide_eq_true_eq, not_exists, not_and]
    exact fun other hother heq => hnew (kindKey_inj heq ▸ hother)
  have hsplit : (p.keys.filter fun key => key ∉ (name :: path).map kindKey) =
      (p.keys.filter fun key => key ∉ path.map kindKey).filter (· ≠ kindKey name) := by
    rw [List.filter_filter]
    congr 1
    funext key
    rw [List.map_cons, Bool.eq_iff_iff]
    simp [not_or]
  unfold ahead
  rw [hsplit]
  exact List.length_filter_lt_length_iff_exists.2 ⟨kindKey name, hkey, by simp⟩

theorem walkAll_findSome? {path names : List String} {f : String → Option String}
    (h : ∀ m ∈ names, Walk p path m (f m)) : WalkAll p path names (names.findSome? f) := by
  induction names with
  | nil => exact .nil
  | cons m names ih =>
    obtain ⟨hm, hnames⟩ := List.forall_mem_cons.1 h
    rw [List.findSome?_cons]
    cases hf : f m with
    | some x => exact .found (hf ▸ hm)
    | none => exact .next (hf ▸ hm) (ih hnames)

/-- By induction on the steps: as many are enough as there are balancers ahead. -/
theorem walk_repeated? {n : Nat} {path : List String} {name : String} (h : ahead p path ≤ n) :
    Walk p path name (repeated? p n path name) := by
  induction n generalizing path name with
  | zero =>
    unfold repeated?
    split
    · next hmem => exact .met hmem
    · next hnew =>
      split
      · next hkind => exact absurd (ahead_cons_lt hnew (isBalancer_iff.1 hkind)) (by omega)
      · next hkind => exact .leaf hnew (mt isBalancer_iff.2 hkind)
  | succ n ih =>
    unfold repeated?
    split
    · next hmem => exact .met hmem
    · next hnew =>
      split
      · next hkind =>
        have hlb := isBalancer_iff.1 hkind
        have hless := ahead_cons_lt hnew hlb
        exact .balancer hnew hlb (walkAll_findSome? fun m _ => ih (by omega))
      · next hkind => exact .leaf hnew (mt isBalancer_iff.2 hkind)

/-- **The walk ends**, from every worker below every path. -/
theorem existsUnique_walk (p : Properties) (path : List String) (name : String) :
    ∃! found, Walk p path name found := by
  have hwalk : Walk p path name (repeated? p (ahead p path) path name) :=
    walk_repeated? (Nat.le_refl _)
  exact ⟨_, hwalk, fun found h => h.unique _ hwalk⟩

theorem walk_cycle? (p : Properties) (balancer member : String) :
    Walk p [balancer] member (cycle? p balancer member) :=
  walk_repeated? (Nat.le_trans (ahead_le p _) (Nat.le_succ _))

/-! ## What the walk finds -/

mutual

/-- Where the path leads down to a worker, what the walk finds lies below it and below itself. -/
theorem Walk.found_on_cycle {path : List String} {name : String} {found : Option String} :
    Walk p path name found → (∀ y ∈ path, TransGen p.Nests y name) → ∀ x ∈ found,
      ReflTransGen p.Nests name x ∧ TransGen p.Nests x x
  | .met hmem, hpath, x, hx => by
    cases hx
    exact ⟨.refl, hpath name hmem⟩
  | .leaf .., _, x, hx => nomatch hx
  | .balancer _ hkind hmembers, hpath, x, hx => by
    -- a member lies below the balancer, so the longer path leads down to it as well
    have hlonger : ∀ m ∈ BalancerSettings.memberNames p name, ∀ y ∈ name :: path,
        TransGen p.Nests y m := by
      intro m hm y hy
      rcases List.mem_cons.1 hy with rfl | hy
      · exact .single ⟨hkind, hm⟩
      · exact (hpath y hy).tail ⟨hkind, hm⟩
    obtain ⟨m, hm, hreach, hcycle⟩ := WalkAll.found_on_cycle hmembers hlonger x hx
    exact ⟨.head ⟨hkind, hm⟩ hreach, hcycle⟩

theorem WalkAll.found_on_cycle {path names : List String} {found : Option String} :
    WalkAll p path names found → (∀ m ∈ names, ∀ y ∈ path, TransGen p.Nests y m) → ∀ x ∈ found,
      ∃ m ∈ names, ReflTransGen p.Nests m x ∧ TransGen p.Nests x x
  | .nil, _, x, hx => nomatch hx
  | .found h, hpath, x, hx =>
    ⟨_, List.mem_cons_self, Walk.found_on_cycle h (hpath _ List.mem_cons_self) x hx⟩
  | .next _ hrest, hpath, x, hx => by
    obtain ⟨m, hm, h⟩ := WalkAll.found_on_cycle hrest (fun m hm => hpath m (.tail _ hm)) x hx
    exact ⟨m, .tail _ hm, h⟩

end

mutual

/-- Where nothing is found, no worker of the path lies below, and no cycle. -/
theorem Walk.none_below {path : List String} {name : String} {found : Option String} :
    Walk p path name found → found = none → ∀ w, ReflTransGen p.Nests name w →
      w ∉ path ∧ ¬ TransGen p.Nests w w
  | .met .., h, _, _ => nomatch h
  | .leaf hnew hkind, _, w, hreach => by
    have hend : ∀ m, ¬ p.Nests name m := fun m h => hkind h.1
    rcases hreach.cases_head with rfl | ⟨m, hm, -⟩
    · refine ⟨hnew, fun hcycle => ?_⟩
      obtain ⟨m, hm, -⟩ := TransGen.head'_iff.1 hcycle
      exact hend m hm
    · exact absurd hm (hend m)
  | .balancer hnew _ hmembers, h, w, hreach => by
    have hbelow := WalkAll.none_below hmembers h
    rcases hreach.cases_head with rfl | ⟨m, hm, hreach⟩
    · -- a cycle would lead from a member back to the balancer, which is on the path by then
      refine ⟨hnew, fun hcycle => ?_⟩
      obtain ⟨m, hm, hback⟩ := TransGen.head'_iff.1 hcycle
      exact (hbelow m hm.2 _ hback).1 List.mem_cons_self
    · obtain ⟨hnot, hcycle⟩ := hbelow m hm.2 w hreach
      exact ⟨fun hmem => hnot (.tail _ hmem), hcycle⟩

theorem WalkAll.none_below {path names : List String} {found : Option String} :
    WalkAll p path names found → found = none → ∀ m ∈ names, ∀ w, ReflTransGen p.Nests m w →
      w ∉ path ∧ ¬ TransGen p.Nests w w
  | .nil, _, m, hm => absurd hm List.not_mem_nil
  | .found _, h, _, _ => nomatch h
  | .next hw hrest, h, m, hm => by
    have hfirst := Walk.none_below hw rfl
    have hothers := WalkAll.none_below hrest h
    rcases List.mem_cons.1 hm with rfl | hm
    · exact hfirst
    · exact hothers m hm

end

/-- The walk from a member finds a worker on a cycle below it. -/
theorem on_cycle_of_cycle? {balancer member found : String} (hm : p.Nests balancer member)
    (h : cycle? p balancer member = some found) :
    ReflTransGen p.Nests member found ∧ TransGen p.Nests found found := by
  have habove : ∀ y ∈ [balancer], TransGen p.Nests y member := by
    intro y hy
    rw [List.mem_singleton.1 hy]
    exact .single hm
  exact (walk_cycle? p balancer member).found_on_cycle habove found h

theorem exists_cycle?_iff {balancer member : String} (hm : p.Nests balancer member) :
    (∃ found, cycle? p balancer member = some found) ↔ p.ReachesCycle member := by
  constructor
  · rintro ⟨found, h⟩
    exact ⟨found, on_cycle_of_cycle? hm h⟩
  · rintro ⟨w, hreach, hcycle⟩
    refine Option.ne_none_iff_exists'.1 fun hnone => ?_
    exact ((walk_cycle? p balancer member).none_below hnone w hreach).2 hcycle

/-! ## What is reported -/

/-- Validation refuses the configuration with a problem among others. -/
def Reports (p : Properties) (x : Problem) : Prop :=
  ∃ found, Config.validate p = .error (.invalid found) ∧ x ∈ found

theorem reports_iff {x : Problem} : Reports p x ↔ x ∈ problems p := by
  unfold Reports Config.validate
  cases problems p with
  | nil =>
    constructor
    · rintro ⟨found, h, -⟩
      cases h
    · exact fun h => absurd h List.not_mem_nil
  | cons y ys =>
    constructor
    · rintro ⟨found, h, hx⟩
      cases h
      exact hx
    · exact fun h => ⟨_, rfl, h⟩

variable {balancer member name found : String}

theorem cycle_not_mem_backendProblems : Problem.cycle balancer found ∉ backendProblems p name := by
  unfold backendProblems
  split
  · simp
  · split <;> split <;> simp

theorem cycle_not_mem_mountProblems {workers : List String} {m : Mount} :
    Problem.cycle balancer found ∉ mountProblems workers m := by
  unfold mountProblems
  split
  · simp
  · split <;> simp

theorem cycle_mem_memberWorkerProblems_iff {top : String} :
    Problem.cycle top found ∈ memberWorkerProblems p balancer member ↔
      top = balancer ∧ WorkerKind.read p member = .ok .lb ∧
        cycle? p balancer member = some found := by
  unfold memberWorkerProblems
  split
  · next h => simp [h]
  · next h => simp [h, cycle_not_mem_backendProblems]
  · next h => simp [h]
  · next h =>
    cases hfound : cycle? p balancer member with
    | none => simp
    | some x => simp [h, eq_comm]

/-- The routes of the members before do not matter. -/
theorem cycle_mem_memberProblems_iff {top : String} {routes : List (String × String)}
    {names : List String} :
    Problem.cycle top found ∈ memberProblems p balancer routes names ↔
      top = balancer ∧ ∃ m ∈ names, p.defines m = true ∧ WorkerKind.read p m = .ok .lb ∧
        cycle? p balancer m = some found := by
  induction names generalizing routes with
  | nil => simp [memberProblems]
  | cons m names ih =>
    rw [memberProblems, List.exists_mem_cons_iff]
    by_cases hd : p.defines m = true
    · rw [if_pos hd, List.mem_append, cycle_mem_memberWorkerProblems_iff, and_or_left,
        and_iff_right hd]
      refine or_congr_right ?_
      cases MemberSettings.read p m with
      | error e => simp [ih]
      | ok s =>
        dsimp only
        split <;> simp [ih]
    · rw [if_neg hd]
      simp [ih, hd]

theorem cycle_mem_workerProblems_iff (hk : WorkerKind.read p name = .ok .lb)
    (hs : ∃ s, BalancerSettings.read p name = .ok s) :
    Problem.cycle name found ∈ workerProblems p name ↔
      ∃ m ∈ BalancerSettings.memberNames p name, p.defines m = true ∧
        WorkerKind.read p m = .ok .lb ∧ cycle? p name m = some found := by
  obtain ⟨s, hs⟩ := hs
  unfold workerProblems balancerProblems
  rw [hk, hs]
  dsimp only
  rw [cycle_mem_memberProblems_iff, and_iff_right rfl]

/-- A cycle is reported for no balancer but the one that was looked at. -/
theorem eq_of_cycle_mem_workerProblems (h : Problem.cycle balancer found ∈ workerProblems p name) :
    balancer = name := by
  unfold workerProblems balancerProblems at h
  split at h
  · simp at h
  · exact absurd h cycle_not_mem_backendProblems
  · simp at h
  · split at h
    · simp at h
    · exact (cycle_mem_memberProblems_iff.1 h).1

theorem cycle_mem_problems_iff (hname : name ∈ p.workers)
    (hk : WorkerKind.read p name = .ok .lb) (hs : ∃ s, BalancerSettings.read p name = .ok s) :
    Problem.cycle name found ∈ problems p ↔
      ∃ m ∈ BalancerSettings.memberNames p name, p.defines m = true ∧
        WorkerKind.read p m = .ok .lb ∧ cycle? p name m = some found := by
  rw [← cycle_mem_workerProblems_iff hk hs]
  unfold problems
  rw [List.mem_append, List.mem_append, List.mem_flatMap, List.mem_flatMap]
  constructor
  · rintro ((h | ⟨other, -, h⟩) | ⟨m, -, h⟩)
    · split at h <;> simp at h
    · rwa [← eq_of_cycle_mem_workerProblems h] at h
    · exact absurd h cycle_not_mem_mountProblems
  · exact fun h => .inl (.inr ⟨name, hname, h⟩)

/-- **Cycles are found, and nothing else.**  The walk ends wherever it starts, and validation takes
it from each member.  A listed balancer is reported for a cycle exactly if a member that is defined
and a balancer reaches one, and the worker that is named lies on one. -/
theorem reports_cycle_iff (p : Properties) :
    (∀ path name, ∃! found, Walk p path name found) ∧
    (∀ balancer member, Walk p [balancer] member (cycle? p balancer member)) ∧
    ∀ name ∈ p.workers, WorkerKind.read p name = .ok .lb →
      (∃ s, BalancerSettings.read p name = .ok s) →
      ((∃ found, Reports p (.cycle name found)) ↔
        ∃ m ∈ BalancerSettings.memberNames p name, p.defines m = true ∧
          WorkerKind.read p m = .ok .lb ∧ p.ReachesCycle m) ∧
      ∀ found, Reports p (.cycle name found) →
        ∃ m ∈ BalancerSettings.memberNames p name, WorkerKind.read p m = .ok .lb ∧
          ReflTransGen p.Nests m found ∧ TransGen p.Nests found found := by
  refine ⟨existsUnique_walk p, walk_cycle? p, fun name hname hk hs => ?_⟩
  have hreports (found : String) : Reports p (.cycle name found) ↔ _ :=
    reports_iff.trans (cycle_mem_problems_iff hname hk hs)
  constructor
  · constructor
    · rintro ⟨found, h⟩
      obtain ⟨m, hm, hd, hkm, h⟩ := (hreports found).1 h
      exact ⟨m, hm, hd, hkm, (exists_cycle?_iff ⟨hk, hm⟩).1 ⟨found, h⟩⟩
    · rintro ⟨m, hm, hd, hkm, h⟩
      obtain ⟨found, h⟩ := (exists_cycle?_iff ⟨hk, hm⟩).2 h
      exact ⟨found, (hreports found).2 ⟨m, hm, hd, hkm, h⟩⟩
  · intro found h
    obtain ⟨m, hm, -, hkm, h⟩ := (hreports found).1 h
    exact ⟨m, hm, hkm, on_cycle_of_cycle? ⟨hk, hm⟩ h⟩

/-- The cycle does not pass through the listed balancer. -/
def looping : Properties := ⟨[
  ("worker.list", "top"), ("worker.top.type", "lb"), ("worker.top.balance_workers", "left, right"),
  ("worker.left.type", "lb"), ("worker.left.balance_workers", "right"),
  ("worker.right.type", "lb"), ("worker.right.balance_workers", "left")]⟩

/-- Two members share a balancer, which is no cycle. -/
def sharing : Properties := ⟨[
  ("worker.list", "top"), ("worker.top.type", "lb"), ("worker.top.balance_workers", "left, right"),
  ("worker.left.type", "lb"), ("worker.left.balance_workers", "shared"),
  ("worker.right.type", "lb"), ("worker.right.balance_workers", "shared, left"),
  ("worker.shared.type", "lb"), ("worker.shared.balance_workers", "a")]⟩

theorem reachesCycle_looping : looping.ReachesCycle "left" := by
  have hright : looping.Nests "left" "right" := by
    constructor <;> decide +kernel
  have hleft : looping.Nests "right" "left" := by
    constructor <;> decide +kernel
  exact ⟨"left", .refl, .tail (.single hright) hleft⟩

/-- Both are listed balancers with members: the one is reported and the other is not. -/
theorem reports_cycle_looping :
    (∃ found, Reports looping (.cycle "top" found)) ∧ looping.ReachesCycle "left" ∧
      (¬ ∃ found, Reports sharing (.cycle "top" found)) ∧ ¬ sharing.ReachesCycle "right" := by
  have hfound := (reports_cycle_iff looping).2.2 "top" (by decide +kernel) (by decide +kernel)
    ⟨_, rfl⟩
  have hnone := (reports_cycle_iff sharing).2.2 "top" (by decide +kernel) (by decide +kernel)
    ⟨_, rfl⟩
  have hquiet : ¬ ∃ found, Reports sharing (.cycle "top" found) := by
    have hproblems : problems sharing = [] := by decide +kernel
    rintro ⟨found, h⟩
    rw [reports_iff, hproblems] at h
    cases h
  refine ⟨hfound.1.2 ⟨"left", ?_, ?_, ?_, reachesCycle_looping⟩, reachesCycle_looping, hquiet,
    fun h => hquiet ?_⟩
  · decide +kernel
  · decide +kernel
  · decide +kernel
  · exact hnone.1.2 ⟨"right", by decide +kernel, by decide +kernel, by decide +kernel, h⟩

end Validation

end AjpGateway
