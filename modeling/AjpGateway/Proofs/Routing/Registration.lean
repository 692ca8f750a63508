import AjpGateway.Routing.Table
import Mathlib.Data.List.Induction

/-!
# Rules in force

Which rules a list of mounts leaves in force, said without the table: the last rule of each key,
where the key is the pattern together with whether the rule is an exclusion.  A table that was
built holds exactly these (`mem_all_iff`), each key once (`pairwise_all`), so what is said of
tables can be said of mounts.

    build mounts g = .ok t → (r ∈ t.all ↔ InForce mounts r)                   (mem_all_iff)
    build mounts g = .ok t → (r ∈ t.rules ↔ Active mounts r)                  (mem_rules_iff)
    build mounts g = .ok t → (r ∈ t.exclusions ↔ ActiveExclusion mounts r)    (mem_exclusions_iff)
-/

namespace AjpGateway

namespace Rule

/-- Two rules of which a table holds only the later. -/
def SameKey (r s : Rule) : Prop := r.pattern = s.pattern ∧ r.excludes = s.excludes

instance (r s : Rule) : Decidable (SameKey r s) := inferInstanceAs (Decidable (_ ∧ _))

theorem SameKey.symm {r s : Rule} (h : SameKey r s) : SameKey s r := ⟨h.1.symm, h.2.symm⟩

theorem SameKey.trans {r s u : Rule} (h : SameKey r s) (k : SameKey s u) : SameKey r u :=
  ⟨h.1.trans k.1, h.2.trans k.2⟩

/-- The rules that mounts stand for, in order. -/
def ofMounts (mounts : List Mount) : Except RuleError (List Rule) :=
  (mounts.mapM fun m => readMount m.pattern m.worker).map List.flatten

end Rule

namespace RuleTable

/-- `r` stands in a list of rules and no later one has its key. -/
def LastOfKey (rules : List Rule) (r : Rule) : Prop :=
  ∃ before after, rules = before ++ r :: after ∧ ∀ s ∈ after, ¬ r.SameKey s

/-- `r` is among the rules of the mounts and no later one replaces it. -/
def InForce (mounts : List Mount) (r : Rule) : Prop :=
  ∃ rules, Rule.ofMounts mounts = .ok rules ∧ LastOfKey rules r

/-- `r` is in force, switched on and sends URIs to its worker. -/
def Active (mounts : List Mount) (r : Rule) : Prop :=
  InForce mounts r ∧ r.disabled = false ∧ r.excludes = false

/-- `r` is in force, switched on and denies URIs to its worker. -/
def ActiveExclusion (mounts : List Mount) (r : Rule) : Prop :=
  InForce mounts r ∧ r.disabled = false ∧ r.excludes = true

/-! ## Registering one rule -/

theorem register_cons (x a : Rule) (rest : List Rule) :
    register x (a :: rest) = if a.SameKey x then x :: rest else a :: register x rest := rfl

theorem mem_of_mem_register {x r : Rule} {all : List Rule} (h : r ∈ register x all) :
    r = x ∨ r ∈ all := by
  induction all with
  | nil => exact .inl (by simpa [register] using h)
  | cons a rest ih =>
    rw [register_cons] at h
    split at h
    · rcases List.mem_cons.1 h with rfl | h
      · exact .inl rfl
      · exact .inr (List.mem_cons_of_mem _ h)
    · rcases List.mem_cons.1 h with rfl | h
      · exact .inr List.mem_cons_self
      · exact (ih h).imp_right (List.mem_cons_of_mem _)

/-- Where every key stands once, registering a rule takes out the one with its key. -/
theorem mem_register_iff {x r : Rule} {all : List Rule}
    (hd : all.Pairwise fun a b => ¬ a.SameKey b) :
    r ∈ register x all ↔ r = x ∨ (r ∈ all ∧ ¬ r.SameKey x) := by
  induction all with
  | nil => simp [register]
  | cons a rest ih =>
    rw [List.pairwise_cons] at hd
    by_cases hk : a.SameKey x
    · have hrest : ∀ s ∈ rest, ¬ s.SameKey x := fun s hs h => hd.1 s hs (hk.trans h.symm)
      rw [register_cons, if_pos hk, List.mem_cons, List.mem_cons]
      constructor
      · rintro (rfl | h)
        · exact .inl rfl
        · exact .inr ⟨.inr h, hrest r h⟩
      · rintro (rfl | ⟨rfl | h, hn⟩)
        · exact .inl rfl
        · exact absurd hk hn
        · exact .inr h
    · rw [register_cons, if_neg hk, List.mem_cons, List.mem_cons, ih hd.2]
      constructor
      · rintro (rfl | rfl | ⟨h, hn⟩)
        · exact .inr ⟨.inl rfl, hk⟩
        · exact .inl rfl
        · exact .inr ⟨.inr h, hn⟩
      · rintro (rfl | ⟨rfl | h, hn⟩)
        · exact .inr (.inl rfl)
        · exact .inl rfl
        · exact .inr (.inr ⟨h, hn⟩)

theorem pairwise_register {x : Rule} {all : List Rule}
    (hd : all.Pairwise fun a b => ¬ a.SameKey b) :
    (register x all).Pairwise fun a b => ¬ a.SameKey b := by
  induction all with
  | nil => simp [register]
  | cons a rest ih =>
    rw [List.pairwise_cons] at hd
    rw [register_cons]
    split
    · next hk =>
      exact List.pairwise_cons.2 ⟨fun s hs h => hd.1 s hs (hk.trans h), hd.2⟩
    · next hk =>
      refine List.pairwise_cons.2 ⟨fun s hs => ?_, ih hd.2⟩
      rcases mem_of_mem_register hs with rfl | hs
      · exact hk
      · exact hd.1 s hs

/-! ## Registering all rules -/

/-- The rules that a table holds once all were registered in turn. -/
def registerAll (rules : List Rule) : List Rule := rules.foldl (fun all r => register r all) []

theorem registerAll_concat (rules : List Rule) (x : Rule) :
    registerAll (rules ++ [x]) = register x (registerAll rules) := by
  simp [registerAll, List.foldl_append]

theorem pairwise_registerAll (rules : List Rule) :
    (registerAll rules).Pairwise fun a b => ¬ a.SameKey b := by
  induction rules using List.reverseRecOn with
  | nil => exact .nil
  | append_singleton rules x ih =>
    rw [registerAll_concat]
    exact pairwise_register ih

theorem lastOfKey_concat_iff {rules : List Rule} {x r : Rule} :
    LastOfKey (rules ++ [x]) r ↔ r = x ∨ (LastOfKey rules r ∧ ¬ r.SameKey x) := by
  constructor
  · rintro ⟨before, after, e, hafter⟩
    rcases List.eq_nil_or_concat after with rfl | ⟨after', y, rfl⟩
    · obtain ⟨-, hx⟩ := List.append_inj' e rfl
      exact .inl (List.singleton_inj.1 hx).symm
    · rw [List.concat_eq_append] at e hafter
      have e' : rules ++ [x] = (before ++ r :: after') ++ [y] := by simpa using e
      obtain ⟨hrules, hx⟩ := List.append_inj' e' rfl
      obtain rfl := List.singleton_inj.1 hx
      refine .inr ⟨⟨before, after', hrules, fun s hs => hafter s (List.mem_append_left _ hs)⟩, ?_⟩
      exact hafter x (by simp)
  · rintro (rfl | ⟨⟨before, after, rfl, hafter⟩, hx⟩)
    · exact ⟨rules, [], rfl, by simp⟩
    · refine ⟨before, after ++ [x], by simp, fun s hs => ?_⟩
      rcases List.mem_append.1 hs with hs | hs
      · exact hafter s hs
      · rwa [List.mem_singleton.1 hs]

theorem mem_registerAll_iff {rules : List Rule} {r : Rule} :
    r ∈ registerAll rules ↔ LastOfKey rules r := by
  induction rules using List.reverseRecOn generalizing r with
  | nil => simp [registerAll, LastOfKey]
  | append_singleton rules x ih =>
    rw [registerAll_concat, mem_register_iff (pairwise_registerAll rules), ih,
      lastOfKey_concat_iff]

/-! ## Tables that were built -/

theorem registerMounts_eq (mounts : List Mount) (all : List Rule) :
    registerMounts mounts all =
      (Rule.ofMounts mounts).map fun rules => rules.foldl (fun all r => register r all) all := by
  induction mounts generalizing all with
  | nil => rfl
  | cons m rest ih =>
    unfold registerMounts Rule.ofMounts
    rw [List.mapM_cons]
    cases h : Rule.readMount m.pattern m.worker with
    | error e => rfl
    | ok rules =>
      simp only [ih, Rule.ofMounts]
      cases rest.mapM fun m => Rule.readMount m.pattern m.worker with
      | error e => rfl
      | ok more => simp [Except.map, bind, Except.bind, pure, Except.pure, List.foldl_append]

section
variable {mounts : List Mount} {generation : Nat} {t : RuleTable}
  (h : build mounts generation = .ok t)

include h

theorem exists_rules_of_build :
    ∃ rules, Rule.ofMounts mounts = .ok rules ∧ t = ofRules (registerAll rules) generation := by
  unfold build at h
  rw [registerMounts_eq] at h
  cases hr : Rule.ofMounts mounts with
  | error e => rw [hr] at h; cases h
  | ok rules => rw [hr] at h; exact ⟨rules, rfl, (Except.ok.inj h).symm⟩

theorem mem_all_iff {r : Rule} : r ∈ t.all ↔ InForce mounts r := by
  obtain ⟨rules, hr, rfl⟩ := exists_rules_of_build h
  show r ∈ registerAll rules ↔ _
  rw [mem_registerAll_iff]
  constructor
  · exact fun hl => ⟨rules, hr, hl⟩
  · rintro ⟨rules', hr', hl⟩
    rwa [Except.ok.inj (hr.symm.trans hr')]

theorem pairwise_all : t.all.Pairwise fun a b => ¬ a.SameKey b := by
  obtain ⟨rules, -, rfl⟩ := exists_rules_of_build h
  exact pairwise_registerAll rules

theorem mem_rules_iff {r : Rule} : r ∈ t.rules ↔ Active mounts r := by
  have hall := mem_all_iff h (r := r)
  obtain ⟨rules, -, rfl⟩ := exists_rules_of_build h
  simp only [ofRules, List.mem_mergeSort, List.mem_filter, Active]
  rw [← hall]
  simp [ofRules]

theorem mem_exclusions_iff {r : Rule} : r ∈ t.exclusions ↔ ActiveExclusion mounts r := by
  have hall := mem_all_iff h (r := r)
  obtain ⟨rules, -, rfl⟩ := exists_rules_of_build h
  simp only [ofRules, List.mem_filter, ActiveExclusion]
  rw [← hall]
  simp [ofRules]

end

end RuleTable

end AjpGateway
