import AjpGateway.Proofs.Balancer.Setup
import AjpGateway.Proofs.Results
import AjpGateway.Worker.Target

/-!
# What requests leave of a worker

A leaf keeps its name whatever is done with it.  Where a worker keeps its name too, and every
balancer of its tree, at any depth, has the setup that it had and workers of the same names, what
was said of the setups still holds.

    SameSetup w w' → (what balancers of w were set up with holds of w')  (SameSetup.forall_setup)
-/

namespace AjpGateway

open Balancer (Setup)

/-- A leaf keeps its name. -/
class LawfulLeaf (α : Type) [Leaf α] : Prop where
  name_acquire (a : α) (job : Job) : Leaf.name (Leaf.acquire a job).2.1 = Leaf.name a
  name_serveOn (view : α → List WorkerStatus) (e : Leaf.Endpoint α) (a : α) (job : Job) :
    Leaf.name (Leaf.serveOn view e a job).2.1 = Leaf.name a
  name_refresh (p : Properties) (a : α) : Leaf.name (Leaf.refresh p a).2 = Leaf.name a
  name_destroy (a : α) : Leaf.name (Leaf.destroy a) = Leaf.name a
  name_attach (a : α) : Leaf.name (Leaf.attach a) = Leaf.name a

theorem Leaf.name_serve {α : Type} [Leaf α] [LawfulLeaf α] (view : α → List WorkerStatus) (a : α)
    (job : Job) : Leaf.name (Leaf.serve view a job).2.1 = Leaf.name a := by
  have hname := LawfulLeaf.name_acquire a job
  unfold Leaf.serve
  rcases h : Leaf.acquire a job with ⟨r, a', job'⟩
  rw [h] at hname
  cases r with
  | error e => exact hname
  | ok endpoint => exact (LawfulLeaf.name_serveOn view endpoint a' job').trans hname

namespace Worker

variable {α : Type}

/-! ## The balancers of a tree -/

mutual

/-- The balancers of a tree, each with the workers of its members. -/
def balancers : Worker α → List (Balancer Float × List (Worker α))
  | leaf _ => []
  | balancer b members => (b, members) :: balancersAll members

def balancersAll : List (Worker α) → List (Balancer Float × List (Worker α))
  | [] => []
  | w :: rest => w.balancers ++ balancersAll rest

end

theorem balancersAll_eq (ws : List (Worker α)) : balancersAll ws = ws.flatMap balancers := by
  induction ws with
  | nil => rfl
  | cons w rest ih => rw [balancersAll, ih, List.flatMap_cons]

theorem forall_balancers_iff {b : Balancer Float} {ws : List (Worker α)}
    {P : Balancer Float × List (Worker α) → Prop} :
    (∀ x ∈ (balancer b ws).balancers, P x) ↔ P (b, ws) ∧ ∀ w ∈ ws, ∀ x ∈ w.balancers, P x := by
  rw [balancers, balancersAll_eq, List.forall_mem_cons]
  simp only [List.mem_flatMap, forall_exists_index, and_imp]
  exact and_congr_right fun _ => ⟨fun h w hw x hx => h x w hw hx, fun h x w hw hx => h w hw x hx⟩

/-! ## The leaves of a tree -/

mutual

def leaves : Worker α → List α
  | leaf a => [a]
  | balancer _ members => leavesAll members

def leavesAll : List (Worker α) → List α
  | [] => []
  | w :: rest => w.leaves ++ leavesAll rest

end

theorem leavesAll_eq (ws : List (Worker α)) : leavesAll ws = ws.flatMap leaves := by
  induction ws with
  | nil => rfl
  | cons w rest ih => rw [leavesAll, ih, List.flatMap_cons]

@[simp] theorem forall_leaves_leaf {a : α} {P : α → Prop} :
    (∀ x ∈ (leaf a).leaves, P x) ↔ P a :=
  List.forall_mem_singleton

theorem forall_leaves_iff {b : Balancer Float} {ws : List (Worker α)} {P : α → Prop} :
    (∀ a ∈ (balancer b ws).leaves, P a) ↔ ∀ w ∈ ws, ∀ a ∈ w.leaves, P a := by
  rw [leaves, leavesAll_eq]
  simp only [List.mem_flatMap, forall_exists_index, and_imp]
  exact ⟨fun h w hw a ha => h a w hw ha, fun h a w hw ha => h w hw a ha⟩

variable [Leaf α]

/-- What the balancers of a tree were set up with, and what their members' workers are called. -/
def setups (w : Worker α) : List (Setup Float × List String) :=
  w.balancers.map fun x => (x.1.setup, x.2.map name)

theorem setups_balancer (b : Balancer Float) (ws : List (Worker α)) :
    (balancer b ws).setups = (b.setup, ws.map name) :: ws.flatMap setups := by
  rw [setups, balancers, List.map_cons, balancersAll_eq, List.map_flatMap]
  rfl

/-- The name and the setup of every balancer are the same. -/
structure SameSetup (w w' : Worker α) : Prop where
  name_eq : w'.name = w.name
  setups_eq : w'.setups = w.setups

theorem SameSetup.map_name {ws ws' : List (Worker α)} (h : List.Forall₂ SameSetup ws ws') :
    ws'.map name = ws.map name :=
  map_eq_of_forall₂ (fun _ _ h => h.name_eq) h

theorem SameSetup.balancer {b b' : Balancer Float} {ws ws' : List (Worker α)}
    (hb : b'.setup = b.setup) (h : List.Forall₂ SameSetup ws ws') :
    SameSetup (balancer b ws) (balancer b' ws') where
  name_eq := congrArg Setup.name hb
  setups_eq := by
    have hsetups : ws'.flatMap setups = ws.flatMap setups := by
      induction h with
      | nil => rfl
      | cons h _ ih => rw [List.flatMap_cons, List.flatMap_cons, h.setups_eq, ih]
    rw [setups_balancer, setups_balancer, hb, SameSetup.map_name h, hsetups]

/-- What holds of the setup of every balancer of a tree holds of one with the same setup. -/
theorem SameSetup.forall_setup {w w' : Worker α} (h : SameSetup w w')
    {P : Setup Float → List String → Prop}
    (hw : ∀ x ∈ w.balancers, P x.1.setup (x.2.map name)) :
    ∀ x ∈ w'.balancers, P x.1.setup (x.2.map name) := by
  intro x hx
  have hmem : (x.1.setup, x.2.map name) ∈ w.setups := h.setups_eq ▸ List.mem_map_of_mem hx
  obtain ⟨y, hy, he⟩ := List.mem_map.1 hmem
  obtain ⟨hsetup, hnames⟩ := Prod.mk.inj he
  exact hsetup ▸ hnames ▸ hw y hy

end Worker

/-! ## The gateway's leaves -/

theorem Backend.name_acquire (b : Backend) (job : Job) : (b.acquire job).2.1.name = b.name := by
  unfold acquire
  cases b.phase.ready b.name with
  | error e => rfl
  | ok _ => cases b.pool? <;> rfl

theorem Backend.name_serve (b : Backend) (line : Line) (job : Job) :
    (b.serve line job).2.2.1.name = b.name := by
  unfold serve
  cases b.phase.ready b.name with
  | error e => rfl
  | ok _ =>
    dsimp only
    split
    · rfl
    · split <;> rfl

theorem Backend.name_keep (b : Backend) (line : Line) (job : Job) :
    (b.keep line job).1.name = b.name := by
  unfold keep
  split
  · cases b.pool? <;> rfl
  · rfl

theorem Backend.name_serveOn (b : Backend) (line : Line) (job : Job) :
    (b.serveOn line job).2.1.name = b.name := by
  have hname := b.name_serve line job
  unfold serveOn
  rcases h : b.serve line job with ⟨r, line?, b', job'⟩
  rw [h] at hname
  cases line? with
  | none => exact hname
  | some line' => exact (b'.name_keep line' job').trans hname

theorem Backend.name_refresh (p : Properties) (b : Backend) : (b.refresh p).2.name = b.name := by
  unfold refresh
  split <;> rfl

instance : LawfulLeaf Target where
  name_acquire
    | .backend b, job => b.name_acquire job
    | .monitor _, _ => rfl
  name_serveOn
    | _, .line l, .backend b, job => b.name_serveOn l job
    | _, .line _, .monitor _, _ => rfl
    | _, .report, .backend _, _ => rfl
    | _, .report, .monitor _, _ => rfl
  name_refresh
    | p, .backend b => b.name_refresh p
    | _, .monitor _ => rfl
  name_destroy
    | .backend _ => rfl
    | .monitor _ => rfl
  name_attach
    | .backend _ => rfl
    | .monitor _ => rfl

end AjpGateway
