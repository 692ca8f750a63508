import AjpGateway.Proofs.Worker.Balancing
import AjpGateway.Proofs.Worker.Setup

/-!
# Trees of one form

Whatever is done with a worker, its tree keeps its form.  So what is done can be said leaf by leaf
and balancer by balancer: a relation that holds between a leaf and what becomes of it, and between a
balancer and what becomes of it, holds all over the tree.

    Alike R Q w (w.serve view job).2.1      (alike_serve)
    Alike R Q w (w.refresh p).2             (alike_refresh)
    Alike R Q w w.destroy                   (alike_destroy)
    SameSetup w (w.serve view job).2.1      (sameSetup_serve)
-/

namespace AjpGateway

/-! ## Phases of balancers -/

namespace Balancer

variable {Load : Type}

@[simp] theorem phase_elect (b : Balancer Load) (i : Nat) : (b.elect i).2.phase = b.phase := rfl

theorem phase_mark (b : Balancer Load) (i : Nat) (now : Moment) (outcome : Outcome) :
    (b.mark i now outcome).phase = b.phase := by
  unfold mark
  cases outcome with
  | ok status => rfl
  | error e => by_cases h : e.isClient = true <;> simp only [h] <;> rfl

theorem phase_maintain [OfNat Load 0] [Max Load] (b : Balancer Load) (now : Moment) :
    (b.maintain now).phase = b.phase := by
  unfold maintain
  split <;> rfl

/-- No stage of a selection changes the phase. -/
theorem phase_select [OfNat Load 0] [Add Load] [Max Load] [LT Load] [DecidableLT Load]
    (b : Balancer Load) (now : Moment) (routes : List String) (tried : List Bool) (first : Bool) :
    (b.select now routes tried first).2.phase = b.phase := by
  have hstaged := staged_select b now routes tried first
  generalize b.select now routes tried first = x at hstaged ⊢
  rw [← phase_maintain b now]
  generalize b.maintain now = b at hstaged ⊢
  cases hstaged with
  | @session i m x _ _ _ chosen =>
    unfold chooseSession at chosen
    dsimp only at chosen
    split at chosen
    · cases chosen
      rw [phase_elect]
      split <;> rfl
    · split at chosen
      · cases chosen
        rfl
      · split at chosen <;> cases chosen
        rfl
  | balanced chosen =>
    obtain ⟨⟨i, load⟩, -, rfl⟩ := Option.map_eq_some_iff.1 chosen
    rfl
  | resting chosen =>
    obtain ⟨⟨i, time⟩, -, rfl⟩ := Option.map_eq_some_iff.1 chosen
    rfl
  | exhausted _ _ => rfl

end Balancer

namespace Bench

variable {Load α : Type} [OfNat Load 0] [Add Load] [Max Load] [LT Load] [DecidableLT Load]
  {ask : Nat → Bench Load α → Outcome × Bench Load α} {routes : List String} {n : Nat}
  {tried : List Bool} {first : Bool} {s : Bench Load α} {log : List (Turn Load)}
  {r : Outcome × Bench Load α}

/-- By induction on the run: a request leaves its balancer in the phase that it is in. -/
theorem Run.phase_eq (hkeeps : ∀ i s, (ask i s).2.balancer = s.balancer)
    (h : Run ask routes n tried first s log r) : r.2.balancer.phase = s.balancer.phase := by
  have hselected {tried : List Bool} {first : Bool} {s : Bench Load α} {choice : Choice}
      {balancer : Balancer Load}
      (hselect : s.balancer.select s.job.now.1 routes tried first = (choice, balancer)) :
      balancer.phase = s.balancer.phase := by
    have hphase := s.balancer.phase_select s.job.now.1 routes tried first
    rwa [hselect] at hphase
  have hsettled {tried : List Bool} {first : Bool} {s s' : Bench Load α} {p : Pick}
      {balancer : Balancer Load} {outcome : Outcome}
      (hselect : s.balancer.select s.job.now.1 routes tried first = (.picked p, balancer))
      (hask : ask p.index ((s.selected balancer).aim p.route) = (outcome, s')) :
      (s'.settle p.index outcome).balancer.phase = s.balancer.phase := by
    rw [balancer_settle, Balancer.phase_mark, balancer_of_ask hkeeps hask]
    exact hselected hselect
  induction h with
  | spent => rfl
  | unchosen hselect _ => exact hselected hselect
  | answered hselect hask _ => exact hsettled hselect hask
  | failed hselect hask _ _ ih => exact ih.trans (hsettled hselect hask)

theorem phase_serve (hkeeps : ∀ i s, (ask i s).2.balancer = s.balancer) (s : Bench Load α) :
    (serve ask s).2.balancer.phase = s.balancer.phase := by
  obtain ⟨log, h⟩ := exists_run ask (Session.routes s.job.tx.request) s.workers.length
    (List.replicate s.workers.length false) true s
  exact h.phase_eq hkeeps

end Bench

namespace Worker

variable {α : Type}

/-- Trees of one form, related leaf by leaf and balancer by balancer. -/
inductive Alike (R : α → α → Prop) (Q : Balancer Float → Balancer Float → Prop) :
    Worker α → Worker α → Prop where
  | leaf {a a' : α} (h : R a a') : Alike R Q (leaf a) (leaf a')
  | balancer {b b' : Balancer Float} {ws ws' : List (Worker α)} (h : Q b b')
      (hs : List.Forall₂ (Alike R Q) ws ws') : Alike R Q (balancer b ws) (balancer b' ws')

/-! ## The workers of a tree -/

mutual

/-- A worker and all that lies behind it. -/
def all : Worker α → List (Worker α)
  | leaf a => [leaf a]
  | balancer b members => balancer b members :: allOf members

def allOf : List (Worker α) → List (Worker α)
  | [] => []
  | w :: rest => w.all ++ allOf rest

end

theorem mem_allOf_iff {ws : List (Worker α)} {u : Worker α} :
    u ∈ allOf ws ↔ ∃ w ∈ ws, u ∈ w.all := by
  induction ws with
  | nil => simp [allOf]
  | cons w rest ih => rw [allOf, List.mem_append, ih, List.exists_mem_cons_iff]

theorem self_mem_all (w : Worker α) : w ∈ w.all := by
  cases w <;> rw [all] <;> exact List.mem_cons_self

mutual

/-- What lies behind a worker of a tree lies in the tree. -/
theorem mem_all_trans {u v : Worker α} : ∀ {w : Worker α}, v ∈ w.all → u ∈ v.all → u ∈ w.all
  | leaf a, hv, hu => by
    rw [all, List.mem_singleton] at hv
    exact hv ▸ hu
  | balancer b ws, hv, hu => by
    rw [all, List.mem_cons] at hv
    rcases hv with rfl | hv
    · exact hu
    · rw [all]
      exact List.mem_cons_of_mem _ (mem_allOf_trans hv hu)

theorem mem_allOf_trans {u v : Worker α} :
    ∀ {ws : List (Worker α)}, v ∈ allOf ws → u ∈ v.all → u ∈ allOf ws
  | [], hv, _ => absurd hv List.not_mem_nil
  | w :: rest, hv, hu => by
    rw [allOf, List.mem_append] at hv ⊢
    exact hv.imp (mem_all_trans · hu) (mem_allOf_trans · hu)

end

mutual

/-- The leaves of a tree are those of its workers that are no balancers. -/
theorem leaf_mem_all_iff {a : α} : ∀ {w : Worker α}, leaf a ∈ w.all ↔ a ∈ w.leaves
  | leaf a' => by
    rw [all, leaves, List.mem_singleton, List.mem_singleton]
    exact ⟨leaf.inj, congrArg leaf⟩
  | balancer b ws => by
    rw [all, leaves, List.mem_cons, ← leaf_mem_allOf_iff]
    exact or_iff_right nofun

theorem leaf_mem_allOf_iff {a : α} : ∀ {ws : List (Worker α)}, leaf a ∈ allOf ws ↔ a ∈ leavesAll ws
  | [] => by rw [allOf, leavesAll]; exact iff_of_false List.not_mem_nil List.not_mem_nil
  | w :: rest => by
    rw [allOf, leavesAll, List.mem_append, List.mem_append, leaf_mem_all_iff, leaf_mem_allOf_iff]

end

/-- The worker that a path of places leads to. -/
def behind? : Worker α → List Nat → Option (Worker α)
  | w, [] => some w
  | leaf _, _ :: _ => none
  | balancer _ members, i :: path => members[i]?.bind (behind? · path)

theorem mem_all_of_behind {w u : Worker α} {path : List Nat} (h : w.behind? path = some u) :
    u ∈ w.all := by
  induction path generalizing w with
  | nil =>
    unfold behind? at h
    cases h
    exact self_mem_all u
  | cons i path ih =>
    cases w with
    | leaf a => cases h
    | balancer b ws =>
      obtain ⟨v, hv, h⟩ := Option.bind_eq_some_iff.1 h
      rw [all]
      exact List.mem_cons_of_mem _ (mem_allOf_iff.2 ⟨v, List.mem_of_getElem? hv, ih h⟩)

theorem behind_leaf {a : α} {path : List Nat} {u : Worker α}
    (h : (leaf a).behind? path = some u) : path = [] ∧ u = leaf a := by
  cases path with
  | nil => exact ⟨rfl, (Option.some.inj h).symm⟩
  | cons i path => cases h

mutual

theorem exists_behind_of_mem_all {u : Worker α} : ∀ {w : Worker α}, u ∈ w.all →
    ∃ path, w.behind? path = some u
  | leaf a, hu => by
    rw [all, List.mem_singleton] at hu
    exact ⟨[], by rw [behind?, hu]⟩
  | balancer b ws, hu => by
    rw [all, List.mem_cons] at hu
    rcases hu with rfl | hu
    · exact ⟨[], rfl⟩
    · obtain ⟨i, v, path, hv, h⟩ := exists_behind_of_mem_allOf hu
      exact ⟨i :: path, by rw [behind?, hv]; exact h⟩

theorem exists_behind_of_mem_allOf {u : Worker α} : ∀ {ws : List (Worker α)}, u ∈ allOf ws →
    ∃ (i : Nat) (v : Worker α) (path : List Nat), ws[i]? = some v ∧ v.behind? path = some u
  | [], hu => absurd hu List.not_mem_nil
  | w :: rest, hu => by
    rw [allOf, List.mem_append] at hu
    rcases hu with hu | hu
    · obtain ⟨path, h⟩ := exists_behind_of_mem_all hu
      exact ⟨0, w, path, rfl, h⟩
    · obtain ⟨i, v, path, hv, h⟩ := exists_behind_of_mem_allOf hu
      exact ⟨i + 1, v, path, hv, h⟩

end

/-- The workers of a tree are those at its places. -/
theorem mem_all_iff_behind {w u : Worker α} : u ∈ w.all ↔ ∃ path, w.behind? path = some u :=
  ⟨exists_behind_of_mem_all, fun ⟨_, h⟩ => mem_all_of_behind h⟩

namespace Alike

variable {R : α → α → Prop} {Q : Balancer Float → Balancer Float → Prop}

mutual

theorem refl (hR : ∀ a, R a a) (hQ : ∀ b, Q b b) : ∀ w : Worker α, Alike R Q w w
  | .leaf a => .leaf (hR a)
  | .balancer b ws => .balancer (hQ b) (reflAll hR hQ ws)

theorem reflAll (hR : ∀ a, R a a) (hQ : ∀ b, Q b b) :
    ∀ ws : List (Worker α), List.Forall₂ (Alike R Q) ws ws
  | [] => .nil
  | w :: rest => .cons (refl hR hQ w) (reflAll hR hQ rest)

end

mutual

theorem trans (hR : ∀ {a b c}, R a b → R b c → R a c) (hQ : ∀ {a b c}, Q a b → Q b c → Q a c) :
    ∀ {u v w : Worker α}, Alike R Q u v → Alike R Q v w → Alike R Q u w
  | .leaf _, _, _, .leaf h, .leaf k => .leaf (hR h k)
  | .balancer _ _, _, _, .balancer h hs, .balancer k ks => .balancer (hQ h k) (transAll hR hQ hs ks)

theorem transAll (hR : ∀ {a b c}, R a b → R b c → R a c) (hQ : ∀ {a b c}, Q a b → Q b c → Q a c) :
    ∀ {us vs ws : List (Worker α)}, List.Forall₂ (Alike R Q) us vs →
      List.Forall₂ (Alike R Q) vs ws → List.Forall₂ (Alike R Q) us ws
  | [], _, _, .nil, .nil => .nil
  | _ :: _, _, _, .cons h hs, .cons k ks => .cons (trans hR hQ h k) (transAll hR hQ hs ks)

end

mutual

/-- Every worker of a tree has its counterpart in the other. -/
theorem exists_mem_all : ∀ {w w' : Worker α}, Alike R Q w w' →
    ∀ u' ∈ w'.all, ∃ u ∈ w.all, Alike R Q u u'
  | .leaf a, .leaf a', h, u', hu' => by
    rw [all, List.mem_singleton] at hu'
    exact ⟨_, self_mem_all _, hu' ▸ h⟩
  | .balancer b ws, .balancer b' ws', h@(.balancer _ hs), u', hu' => by
    rw [all, List.mem_cons] at hu'
    rcases hu' with rfl | hu'
    · exact ⟨_, self_mem_all _, h⟩
    · obtain ⟨u, hu, h⟩ := exists_mem_allOf hs u' hu'
      rw [all]
      exact ⟨u, List.mem_cons_of_mem _ hu, h⟩

theorem exists_mem_allOf : ∀ {ws ws' : List (Worker α)}, List.Forall₂ (Alike R Q) ws ws' →
    ∀ u' ∈ allOf ws', ∃ u ∈ allOf ws, Alike R Q u u'
  | [], [], .nil, u', hu' => absurd hu' List.not_mem_nil
  | w :: ws, w' :: ws', .cons h hs, u', hu' => by
    rw [allOf, List.mem_append] at hu'
    rw [allOf]
    rcases hu' with hu' | hu'
    · obtain ⟨u, hu, h⟩ := exists_mem_all h u' hu'
      exact ⟨u, List.mem_append_left _ hu, h⟩
    · obtain ⟨u, hu, h⟩ := exists_mem_allOf hs u' hu'
      exact ⟨u, List.mem_append_right _ hu, h⟩

end

/-- The same path leads to workers that are related. -/
theorem exists_behind {w w' : Worker α} (h : Alike R Q w w') {path : List Nat} {u : Worker α}
    (hu : w.behind? path = some u) : ∃ u', w'.behind? path = some u' ∧ Alike R Q u u' := by
  induction path generalizing w w' with
  | nil =>
    unfold behind? at hu ⊢
    cases hu
    exact ⟨w', rfl, h⟩
  | cons i path ih =>
    cases h with
    | leaf _ => cases hu
    | @balancer b b' ws ws' _ hs =>
      obtain ⟨v, hv, hu⟩ := Option.bind_eq_some_iff.1 hu
      obtain ⟨hi, rfl⟩ := List.getElem?_eq_some_iff.1 hv
      have hi' : i < ws'.length := hs.length_eq ▸ hi
      obtain ⟨u', hu', h⟩ := ih (hs.get hi hi') hu
      refine ⟨u', ?_, h⟩
      unfold behind?
      rw [List.getElem?_eq_getElem hi']
      exact hu'

/-- Every leaf comes of one that it is related to. -/
theorem exists_mem_leaves {w w' : Worker α} (h : Alike R Q w w') {a' : α} (ha' : a' ∈ w'.leaves) :
    ∃ a ∈ w.leaves, R a a' := by
  obtain ⟨u, hu, h⟩ := h.exists_mem_all _ (leaf_mem_all_iff.2 ha')
  cases h with
  | leaf h => exact ⟨_, leaf_mem_all_iff.1 hu, h⟩

end Alike

/-! ## What becomes of a tree -/

section
variable {R : α → α → Prop} {Q : Balancer Float → Balancer Float → Prop}

/-- A worker's server leaves a tree of the same form. -/
def KeepsForm (R : α → α → Prop) (Q : Balancer Float → Balancer Float → Prop) (w : Worker α)
    (server : Server α) : Prop :=
  ∀ view job, Alike R Q w (server view job).2.1

theorem forall₂_alike_set {members ws : List (Worker α)} {servers : List (Server α)}
    (hservers : List.Forall₂ (KeepsForm R Q) members servers)
    (h : List.Forall₂ (Alike R Q) members ws) {i : Nat} {server : Server α}
    (hi : servers[i]? = some server) (view : Worker α → List WorkerStatus) (job : Job) :
    List.Forall₂ (Alike R Q) members (ws.set i (server view job).2.1) := by
  induction hservers generalizing ws i with
  | nil => cases hi
  | cons hserver _ ih =>
    cases h with
    | cons hw h =>
      cases i with
      | zero =>
        cases hi
        exact .cons (hserver view job) h
      | succ i => exact .cons hw (ih h hi)

theorem alike_serveMembers (hR : ∀ a, R a a)
    (hQ : ∀ {b b' : Balancer Float}, b'.setup = b.setup → b'.phase = b.phase → Q b b')
    {members : List (Worker α)} {servers : List (Server α)}
    (h : List.Forall₂ (KeepsForm R Q) members servers) (b : Balancer Float) :
    KeepsForm R Q (balancer b members) (serveMembers servers b members) := by
  intro view job
  have hrefl := Alike.reflAll hR (fun _ => hQ rfl rfl) members
  unfold serveMembers
  cases b.phase.ready b.name with
  | error e => exact .balancer (hQ rfl rfl) hrefl
  | ok _ =>
    refine .balancer (hQ (And.left ?kept) ?phase) (And.right ?kept)
    case phase => exact Bench.phase_serve (@balancer_asking α servers view) _
    refine Bench.serve_keeps
      (fun s => s.balancer.setup = b.setup ∧ List.Forall₂ (Alike R Q) members s.workers)
      (fun _ _ hs => hs) (fun _ _ hb hs => ⟨hb.trans hs.1, hs.2⟩) ?_ ⟨rfl, hrefl⟩
    intro i s hs
    dsimp only
    cases hi : servers[i]? with
    | none => exact hs
    | some server => exact ⟨hs.1, forall₂_alike_set h hs.2 hi _ _⟩

variable [Leaf α]

mutual

/-- By induction on the tree: requests. -/
theorem alike_serve (hR : ∀ a, R a a)
    (hQ : ∀ {b b' : Balancer Float}, b'.setup = b.setup → b'.phase = b.phase → Q b b')
    (hleaf : ∀ view a job, R a (Leaf.serve view a job).2.1) :
    ∀ w : Worker α, KeepsForm R Q w w.serve
  | leaf a => fun view job => .leaf (hleaf (fun a => view (leaf a)) a job)
  | balancer b members => alike_serveMembers hR hQ (alike_servers hR hQ hleaf members) b

theorem alike_servers (hR : ∀ a, R a a)
    (hQ : ∀ {b b' : Balancer Float}, b'.setup = b.setup → b'.phase = b.phase → Q b b')
    (hleaf : ∀ view a job, R a (Leaf.serve view a job).2.1) :
    ∀ ws : List (Worker α), List.Forall₂ (KeepsForm R Q) ws (servers ws)
  | [] => .nil
  | w :: rest => .cons (alike_serve hR hQ hleaf w) (alike_servers hR hQ hleaf rest)

end

mutual

/-- By induction on the tree: new settings. -/
theorem alike_refresh {p : Properties} (hR : ∀ a, R a a) (hQ : ∀ b, Q b b)
    (hleaf : ∀ a, R a (Leaf.refresh p a).2) (happly : ∀ b settings members,
      Q b (Balancer.apply b settings members)) : ∀ w : Worker α, Alike R Q w (w.refresh p).2
  | leaf a => .leaf (hleaf a)
  | balancer b members => by
    have hmembers := alike_refreshAll hR hQ hleaf happly members
    have hrefl := Alike.reflAll hR hQ members
    rw [refresh]
    split
    · exact .balancer (hQ b) hrefl
    · split
      · exact .balancer (hQ b) hrefl
      · split
        · next hr =>
          rw [hr] at hmembers
          exact .balancer (hQ b) hmembers
        · next hr =>
          rw [hr] at hmembers
          exact .balancer (happly b _ _) hmembers

theorem alike_refreshAll {p : Properties} (hR : ∀ a, R a a) (hQ : ∀ b, Q b b)
    (hleaf : ∀ a, R a (Leaf.refresh p a).2) (happly : ∀ b settings members,
      Q b (Balancer.apply b settings members)) :
    ∀ ws : List (Worker α), List.Forall₂ (Alike R Q) ws (refreshAll p ws).2
  | [] => .nil
  | w :: rest => by
    have hw := alike_refresh hR hQ hleaf happly w
    rw [refreshAll]
    split
    · next hr =>
      rw [hr] at hw
      exact .cons hw (Alike.reflAll hR hQ rest)
    · next hr =>
      rw [hr] at hw
      exact .cons hw (alike_refreshAll hR hQ hleaf happly rest)

end

mutual

theorem alike_destroy (hleaf : ∀ a, R a (Leaf.destroy a))
    (hQ : ∀ b : Balancer Float, Q b { b with phase := .destroyed }) :
    ∀ w : Worker α, Alike R Q w w.destroy
  | leaf a => .leaf (hleaf a)
  | balancer b members => .balancer (hQ b) (alike_destroyAll hleaf hQ members)

theorem alike_destroyAll (hleaf : ∀ a, R a (Leaf.destroy a))
    (hQ : ∀ b : Balancer Float, Q b { b with phase := .destroyed }) :
    ∀ ws : List (Worker α), List.Forall₂ (Alike R Q) ws (destroyAll ws)
  | [] => .nil
  | w :: rest => .cons (alike_destroy hleaf hQ w) (alike_destroyAll hleaf hQ rest)

end

mutual

theorem alike_attach (hleaf : ∀ a, R a (Leaf.attach a)) (hQ : ∀ b, Q b b) :
    ∀ w : Worker α, Alike R Q w w.attach
  | leaf a => .leaf (hleaf a)
  | balancer b members => .balancer (hQ b) (alike_attachAll hleaf hQ members)

theorem alike_attachAll (hleaf : ∀ a, R a (Leaf.attach a)) (hQ : ∀ b, Q b b) :
    ∀ ws : List (Worker α), List.Forall₂ (Alike R Q) ws (attachAll ws)
  | [] => .nil
  | w :: rest => .cons (alike_attach hleaf hQ w) (alike_attachAll hleaf hQ rest)

end

end

/-! ## Setups -/

section
variable [Leaf α]

mutual

/-- A tree keeps its setups where its leaves keep their names and its balancers their setup. -/
theorem sameSetup_of_alike : ∀ {w w' : Worker α}, Alike (fun a a' => Leaf.name a' = Leaf.name a)
    (fun b b' => b'.setup = b.setup) w w' → SameSetup w w'
  | .leaf _, _, .leaf h => ⟨h, rfl⟩
  | .balancer _ _, _, .balancer h hs => SameSetup.balancer h (forall₂_sameSetup_of_alike hs)

theorem forall₂_sameSetup_of_alike : ∀ {ws ws' : List (Worker α)},
    List.Forall₂ (Alike (fun a a' => Leaf.name a' = Leaf.name a)
      (fun b b' => b'.setup = b.setup)) ws ws' → List.Forall₂ SameSetup ws ws'
  | [], _, .nil => .nil
  | _ :: _, _, .cons h hs => .cons (sameSetup_of_alike h) (forall₂_sameSetup_of_alike hs)

end

/-- A worker's server leaves its setup as it is. -/
def KeepsSetup (w : Worker α) (server : Server α) : Prop :=
  ∀ view job, SameSetup w (server view job).2.1

variable [LawfulLeaf α]

/-- No request changes what the balancers of a tree were set up with. -/
theorem sameSetup_serve (w : Worker α) : KeepsSetup w w.serve := by
  intro view job
  refine sameSetup_of_alike (alike_serve ?_ ?_ ?_ w view job)
  · exact fun _ => rfl
  · exact fun hsetup _ => hsetup
  · exact Leaf.name_serve

theorem sameSetup_destroy (w : Worker α) : SameSetup w w.destroy := by
  refine sameSetup_of_alike (alike_destroy ?_ ?_ w)
  · exact LawfulLeaf.name_destroy
  · exact fun _ => rfl

theorem sameSetup_attach (w : Worker α) : SameSetup w w.attach := by
  refine sameSetup_of_alike (alike_attach ?_ ?_ w)
  · exact LawfulLeaf.name_attach
  · exact fun _ => rfl

end

end Worker

end AjpGateway
