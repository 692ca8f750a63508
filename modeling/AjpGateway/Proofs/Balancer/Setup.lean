import AjpGateway.Balancer.Service

/-!
# What requests leave of a balancer

A request changes loads, errors and places of choice, but not what a balancer was set up with: its
name, its settings, and the names and settings of its members.

    Staged (b.maintain now) now routes tried first (b.select now routes tried first)
                                                                                 (staged_select)
    (b.select now routes tried first).2.setup = b.setup                          (setup_select)
    every step of an attempt keeps I → I s → I (serve ask s).2                    (serve_keeps)
-/

namespace AjpGateway

variable {Load : Type}

/-- Changing one item and then mapping is mapping and then changing that item. -/
theorem map_modify {α β : Type} {f : α → α} {g : α → β} {f' : β → β}
    (h : ∀ a, g (f a) = f' (g a)) (l : List α) (i : Nat) :
    (l.modify i f).map g = (l.map g).modify i f' := by
  apply List.ext_getElem?
  intro j
  rw [List.getElem?_map, List.getElem?_modify, List.getElem?_modify, List.getElem?_map]
  by_cases hij : i = j
  · cases l[j]? with
    | none => rfl
    | some a => simp [hij, h]
  · simp [hij]

/-- The settings that a member is under. -/
def Member.settings (m : Member Load) : MemberSettings Load where
  factor := m.factor
  route := m.route
  redirect := m.redirect
  disabled := m.disabled
  stopped := m.stopped

namespace Balancer

/-- What a balancer was set up with. -/
structure Setup (Load : Type) where
  name : String
  settings : BalancerSettings
  /-- the members' names with their settings -/
  members : List (String × MemberSettings Load)

def setup (b : Balancer Load) : Setup Load where
  name := b.name
  settings := b.settings
  members := b.members.map fun m => (m.name, m.settings)

@[simp] theorem map_fst_members_setup (b : Balancer Load) :
    b.setup.members.map Prod.fst = b.members.map Member.name := by
  simp [setup]

theorem length_eq_of_setup {b b' : Balancer Load} (h : b'.setup = b.setup) :
    b'.members.length = b.members.length := by
  have hmembers := congrArg (fun s => s.members.length) h
  simpa [setup] using hmembers

theorem setup_modify {f : Member Load → Member Load}
    (hf : ∀ m, (f m).name = m.name ∧ (f m).settings = m.settings) (b : Balancer Load) (i : Nat) :
    (b.modify i f).setup = b.setup := by
  have hkept : ∀ m, ((f m).name, (f m).settings) = id (m.name, m.settings) :=
    fun m => Prod.ext (hf m).1 (hf m).2
  have hmembers : (b.members.modify i f).map (fun m => (m.name, m.settings)) =
      b.members.map fun m => (m.name, m.settings) := by
    rw [map_modify hkept, List.modify_id]
  simp only [setup, modify, hmembers]

@[simp] theorem setup_succeeded (b : Balancer Load) (i : Nat) : (b.succeeded i).setup = b.setup :=
  setup_modify (by exact fun _ => ⟨rfl, rfl⟩) b i

@[simp] theorem setup_failed (b : Balancer Load) (i : Nat) (now : Moment) :
    (b.failed i now).setup = b.setup :=
  setup_modify (by exact fun _ => ⟨rfl, rfl⟩) b i

@[simp] theorem setup_elect (b : Balancer Load) (i : Nat) : (b.elect i).2.setup = b.setup :=
  setup_modify (by exact fun _ => ⟨rfl, rfl⟩) b i

/-! ## Selection -/

@[simp] theorem setup_maintain [OfNat Load 0] [Max Load] (b : Balancer Load) (now : Moment) :
    (b.maintain now).setup = b.setup := by
  unfold maintain
  split
  · rfl
  · simp only [setup, List.map_map]
    refine congrArg (Setup.mk b.name b.settings <| b.members.map ·) (funext fun m => ?_)
    dsimp only [Function.comp]
    split <;> rfl

variable {now : Moment} {tried : List Bool} {x : Choice × Balancer Load} {b : Balancer Load}

theorem setup_chooseSession {first : Bool} {i : Nat} {m : Member Load}
    (h : b.chooseSession now tried first i m = some x) : x.2.setup = b.setup := by
  unfold chooseSession at h
  dsimp only at h
  split at h
  · cases h
    rw [setup_elect]
    split
    · exact setup_modify (by exact fun _ => ⟨rfl, rfl⟩) b i
    · rfl
  · split at h
    · cases h
      exact setup_elect b _
    · split at h
      · cases h
        rfl
      · cases h

theorem setup_chooseBalanced [Add Load] [LT Load] [DecidableLT Load]
    (h : b.chooseBalanced tried = some x) : x.2.setup = b.setup := by
  obtain ⟨⟨i, load⟩, -, rfl⟩ := Option.map_eq_some_iff.1 h
  rw [setup_elect]
  exact setup_modify (by exact fun _ => ⟨rfl, rfl⟩) { b with next := (i + 1) % b.members.length } i

theorem setup_chooseResting [OfNat Load 0] [Add Load] [Max Load]
    (h : b.chooseResting now tried = some x) : x.2.setup = b.setup := by
  obtain ⟨⟨i, time⟩, -, rfl⟩ := Option.map_eq_some_iff.1 h
  rw [setup_elect]
  exact setup_modify (by exact fun _ => ⟨rfl, rfl⟩) b i

/-- What a selection goes through once members were looked after: its stages in turn, up to the
first that comes to a choice. -/
inductive Staged [OfNat Load 0] [Add Load] [Max Load] [LT Load] [DecidableLT Load]
    (b : Balancer Load) (now : Moment) (routes : List String) (tried : List Bool) (first : Bool) :
    Choice × Balancer Load → Prop
  | session {i : Nat} {m : Member Load} {x : Choice × Balancer Load}
      (sticky : b.settings.sticky = true) (known : b.sessionMember? routes = some i)
      (member : b.members[i]? = some m) (chosen : b.chooseSession now tried first i m = some x) :
      Staged b now routes tried first x
  | balanced {x : Choice × Balancer Load} (chosen : b.chooseBalanced tried = some x) :
      Staged b now routes tried first x
  | resting {x : Choice × Balancer Load} (chosen : b.chooseResting now tried = some x) :
      Staged b now routes tried first x
  | exhausted (hbalanced : b.chooseBalanced tried = none)
      (hresting : b.chooseResting now tried = none) :
      Staged b now routes tried first (.exhausted, b)

theorem staged_select [OfNat Load 0] [Add Load] [Max Load] [LT Load] [DecidableLT Load]
    (b : Balancer Load) (now : Moment) (routes : List String) (tried : List Bool) (first : Bool) :
    Staged (b.maintain now) now routes tried first (b.select now routes tried first) := by
  unfold select
  generalize b.maintain now = b
  dsimp only
  cases hs : (if b.settings.sticky then b.sessionMember? routes else none).bind fun i =>
    b.members[i]?.bind fun m => b.chooseSession now tried first i m with
  | some x =>
    obtain ⟨i, hi, hbind⟩ := Option.bind_eq_some_iff.1 hs
    obtain ⟨m, hm, hx⟩ := Option.bind_eq_some_iff.1 hbind
    by_cases hsticky : b.settings.sticky = true
    · rw [if_pos hsticky] at hi
      exact .session hsticky hi hm hx
    · rw [if_neg hsticky] at hi
      cases hi
  | none =>
    cases hb : b.chooseBalanced tried with
    | some x => exact .balanced hb
    | none =>
      cases hr : b.chooseResting now tried with
      | some x => exact .resting hr
      | none => exact .exhausted hb hr

@[simp] theorem setup_select [OfNat Load 0] [Add Load] [Max Load] [LT Load] [DecidableLT Load]
    (b : Balancer Load) (now : Moment) (routes : List String) (tried : List Bool) (first : Bool) :
    (b.select now routes tried first).2.setup = b.setup := by
  have hstaged := staged_select b now routes tried first
  generalize b.select now routes tried first = x at hstaged ⊢
  rw [← setup_maintain b now]
  cases hstaged with
  | session _ _ _ chosen => exact setup_chooseSession chosen
  | balanced chosen => exact setup_chooseBalanced chosen
  | resting chosen => exact setup_chooseResting chosen
  | exhausted _ _ => rfl

end Balancer

/-! ## Attempts -/

namespace Bench

variable {α : Type} (I : Bench Load α → Prop)
  (hjob : ∀ s job, I s → I { s with job })
  (hbalancer : ∀ s balancer, balancer.setup = s.balancer.setup → I s → I { s with balancer })

include hjob hbalancer

theorem settle_keeps (i : Nat) (outcome : Outcome) {s : Bench Load α} (hs : I s) :
    I (s.settle i outcome) := by
  unfold settle
  cases outcome with
  | ok status => exact hbalancer s _ (Balancer.setup_succeeded s.balancer i) hs
  | error e =>
    dsimp only
    split
    · exact hs
    · exact hjob _ _ (hbalancer s _ (Balancer.setup_failed s.balancer i _) hs)

/-- By induction on the attempts left: what asking a member keeps, whatever becomes of the job and
of all but the balancer's setup, is kept by serving. -/
theorem attempts_keeps [OfNat Load 0] [Add Load] [Max Load] [LT Load] [DecidableLT Load]
    {ask : Nat → Bench Load α → Outcome × Bench Load α} (hask : ∀ i s, I s → I (ask i s).2)
    (routes : List String) (n : Nat) (tried : List Bool) (first : Bool) {s : Bench Load α}
    (hs : I s) : I (attempts ask routes n tried first s).2 := by
  induction n generalizing tried first s with
  | zero => exact hs
  | succ n ih =>
    unfold attempts
    dsimp only
    have hselect := Balancer.setup_select s.balancer s.job.now.1 routes tried first
    rcases hr : s.balancer.select s.job.now.1 routes tried first with ⟨choice, balancer⟩
    rw [hr] at hselect
    have hs₁ : I { s with balancer, job := s.job.now.2 } :=
      hjob { s with balancer } _ (hbalancer s balancer hselect hs)
    cases choice with
    | exhausted => exact hs₁
    | refused => exact hs₁
    | picked p =>
      dsimp only
      generalize hs₂ : aim { balancer, workers := s.workers, job := s.job.now.2 } p.route = s₂
      have hasked := hask p.index s₂ (hs₂ ▸ hjob _ _ hs₁)
      rcases hr : ask p.index s₂ with ⟨outcome, s₃⟩
      rw [hr] at hasked
      have hsettled := settle_keeps I hjob hbalancer p.index outcome hasked
      cases outcome with
      | ok status => exact hsettled
      | error e =>
        dsimp only
        split
        · exact hsettled
        · exact ih _ _ (hjob _ _ hsettled)

theorem serve_keeps [OfNat Load 0] [Add Load] [Max Load] [LT Load] [DecidableLT Load]
    {ask : Nat → Bench Load α → Outcome × Bench Load α} (hask : ∀ i s, I s → I (ask i s).2)
    {s : Bench Load α} (hs : I s) : I (serve ask s).2 :=
  attempts_keeps I hjob hbalancer hask _ _ _ _ hs

end Bench

end AjpGateway
