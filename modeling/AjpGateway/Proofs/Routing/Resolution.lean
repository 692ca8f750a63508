import AjpGateway.Proofs.Routing.Registration
import Mathlib.Data.List.Pairwise

/-!
# Where a URI goes

What a table answers, said of the mounts it was built from.  Of the active rules that accept the
path the answer is the one that precedes all others; where none accepts it, the one that precedes
all others that recognise its disguise; and nothing where an active exclusion of that rule's worker
accepts the path.

The table finds that rule by taking the first of its sorted list.  This is the preceding one since
`Rule.order` is total on rules of distinct patterns, and a table holds a pattern once among its
rules.

    build mounts g = .ok t → (t.resolve uri = answer ↔ Resolves mounts uri answer)
                                                             (resolve_eq_iff_resolves)
-/

namespace AjpGateway

/-! ## The order of rules -/

/-- Among rules with contexts of one length, exact patterns come before those with an extension,
and these before those for whatever lies under the context. -/
inductive Shape.Precedes : Shape → Shape → Prop
  | exact_ending (e : String) : Precedes .exact (.ending e)
  | exact_under : Precedes .exact .under
  | ending_under (e : String) : Precedes (.ending e) .under

theorem Shape.rank_lt_iff {a b : Shape} : b.rank < a.rank ↔ a.Precedes b := by
  constructor
  · intro h
    cases a with
    | exact =>
      cases b with
      | exact => exact absurd h (Nat.lt_irrefl _)
      | under => exact .exact_under
      | ending e => exact .exact_ending e
    | under => exact absurd h (Nat.not_lt_zero _)
    | ending e =>
      cases b with
      | exact => exact absurd h (by simp [rank])
      | under => exact .ending_under e
      | ending e' => exact absurd h (Nat.lt_irrefl _)
  · intro h
    cases h <;> simp [rank]

theorem Shape.rank_eq_iff {a b : Shape} : a.rank = b.rank ↔ a.name = b.name := by
  cases a <;> cases b <;> simp [rank, name]

namespace Rule

/-- The longer context comes first, then the shape, then the smaller pattern. -/
def Precedes (a b : Rule) : Prop :=
  b.contextSize < a.contextSize ∨
    a.contextSize = b.contextSize ∧
      (a.shape.Precedes b.shape ∨ a.shape.name = b.shape.name ∧ a.pattern < b.pattern)

theorem compare_pattern_eq_lt_iff {a b : Rule} :
    compare a.pattern b.pattern = .lt ↔ a.pattern < b.pattern :=
  compareOfLessAndEq_eq_lt

theorem order_eq_lt_iff {a b : Rule} : a.order b = .lt ↔ a.Precedes b := by
  simp only [order, Ordering.then_eq_lt, Nat.compare_eq_lt, Nat.compare_eq_eq,
    compare_pattern_eq_lt_iff, Shape.rank_lt_iff, Precedes, eq_comm (a := b.contextSize),
    eq_comm (a := b.shape.rank), Shape.rank_eq_iff]

theorem order_eq_swap (a b : Rule) : a.order b = (b.order a).swap := by
  simp only [order, Ordering.swap_then]
  rw [Std.OrientedOrd.eq_swap (a := b.contextSize), Std.OrientedOrd.eq_swap (a := b.shape.rank),
    Std.OrientedOrd.eq_swap (a := a.pattern)]

theorem Precedes.asymm {a b : Rule} (h : a.Precedes b) : ¬ b.Precedes a := by
  rw [← order_eq_lt_iff] at h ⊢
  rw [order_eq_swap, h]
  decide

theorem pattern_eq_of_order_eq {a b : Rule} (h : a.order b = .eq) : a.pattern = b.pattern := by
  simp only [order, Ordering.then_eq_eq] at h
  exact Std.LawfulEqOrd.eq_of_compare h.2.2

theorem isLE_order_total (a b : Rule) : (a.order b).isLE || (b.order a).isLE := by
  rw [order_eq_swap b a]
  cases a.order b <;> rfl

theorem isLE_order_trans (a b c : Rule) (h : (a.order b).isLE) (k : (b.order c).isLE) :
    (a.order c).isLE := by
  simp only [order, Ordering.isLE_then_iff_or, Nat.compare_eq_lt, Nat.compare_eq_eq] at h k ⊢
  rcases h with h | ⟨hc, h⟩
  · left
    rcases k with k | ⟨kc, -⟩ <;> omega
  · rcases k with k | ⟨kc, k⟩
    · left
      omega
    · refine .inr ⟨by omega, ?_⟩
      rcases h with h | ⟨hr, h⟩
      · left
        rcases k with k | ⟨kr, -⟩ <;> omega
      · rcases k with k | ⟨kr, k⟩
        · left
          omega
        · exact .inr ⟨by omega, Std.TransOrd.isLE_trans h k⟩

end Rule

namespace RuleTable

/-! ## The answer -/

/-- `r` is a candidate and precedes all others. -/
def Best (candidate : Rule → Prop) (r : Rule) : Prop :=
  candidate r ∧ ∀ s, candidate s → s ≠ r → r.Precedes s

/-- The rule for a path, and whether only a disguise led to it. -/
inductive Chosen (mounts : List Mount) (path : List Char) : Rule → Bool → Prop
  | accepting {r : Rule} (best : Best (fun s => Active mounts s ∧ s.accepts path) r) :
      Chosen mounts path r false
  | disguised {r : Rule} (unmatched : ∀ s, Active mounts s → s.accepts path = false)
      (best : Best (fun s => Active mounts s ∧ s.recognisesDisguise path) r) :
      Chosen mounts path r true

/-- An active exclusion keeps a path from a worker. -/
def Denied (mounts : List Mount) (worker : String) (path : List Char) : Prop :=
  ∃ x, ActiveExclusion mounts x ∧ x.worker = worker ∧ x.accepts path

/-- What a table of the mounts should answer. -/
inductive Resolves (mounts : List Mount) (uri : String) : Option Resolution → Prop
  | notAPath (h : uri.toList.head? ≠ some '/') : Resolves mounts uri none
  | unmatched (h : uri.toList.head? = some '/')
      (accepting : ∀ s, Active mounts s → s.accepts (SessionMarker.strip uri.toList) = false)
      (disguised : ∀ s, Active mounts s →
        s.recognisesDisguise (SessionMarker.strip uri.toList) = false) :
      Resolves mounts uri none
  | denied {r : Rule} {fraud : Bool} (h : uri.toList.head? = some '/')
      (chosen : Chosen mounts (SessionMarker.strip uri.toList) r fraud)
      (denied : Denied mounts r.worker (SessionMarker.strip uri.toList)) :
      Resolves mounts uri none
  | sent {r : Rule} {fraud : Bool} (h : uri.toList.head? = some '/')
      (chosen : Chosen mounts (SessionMarker.strip uri.toList) r fraud)
      (allowed : ¬ Denied mounts r.worker (SessionMarker.strip uri.toList)) :
      Resolves mounts uri
        (some { worker := r.worker, shape := r.shape, contextSize := r.contextSize, fraud })

/-! ## Answers of a table -/

theorem resolve_of_not_path {t : RuleTable} {uri : String} (hu : uri.toList.head? ≠ some '/') :
    t.resolve uri = none :=
  if_pos hu

theorem resolve_of_choose?_eq_none {t : RuleTable} {uri : String}
    (hc : t.choose? (SessionMarker.strip uri.toList) = none) : t.resolve uri = none := by
  unfold resolve
  split
  · rfl
  · simp only [hc, Option.bind_none]

theorem resolve_of_choose?_eq_some {t : RuleTable} {uri : String} {found : Rule × Bool}
    (hu : uri.toList.head? = some '/')
    (hc : t.choose? (SessionMarker.strip uri.toList) = some found) :
    t.resolve uri =
      if t.excluded found.1.worker (SessionMarker.strip uri.toList) then none
      else some ⟨found.1.worker, found.1.shape, found.1.contextSize, found.2⟩ := by
  unfold resolve
  rw [if_neg (not_not.2 hu)]
  simp only [hc, Option.bind_some]

/-! ## Tables that were built -/

section
variable {mounts : List Mount} {generation : Nat} {t : RuleTable}
  (h : build mounts generation = .ok t)

include h

theorem eq_of_pattern_eq {r s : Rule} (hr : Active mounts r) (hs : Active mounts s)
    (hp : r.pattern = s.pattern) : r = s := by
  apply Classical.byContradiction
  intro hne
  have : Std.Symm fun a b : Rule => ¬ a.SameKey b := ⟨fun _ _ hn hk => hn hk.symm⟩
  have hd := (pairwise_all h).forall ((mem_all_iff h).2 hr.1) ((mem_all_iff h).2 hs.1) hne
  exact hd ⟨hp, hr.2.2.trans hs.2.2.symm⟩

theorem pairwise_rules : t.rules.Pairwise fun a b => (a.order b).isLE := by
  obtain ⟨rules, -, rfl⟩ := exists_rules_of_build h
  exact List.pairwise_mergeSort Rule.isLE_order_trans Rule.isLE_order_total _

/-- The first rule of the sorted list with a property is the best of all that have it. -/
theorem best_of_find?_eq_some {p : Rule → Bool} {r : Rule} (hf : t.rules.find? p = some r) :
    Best (fun s => Active mounts s ∧ p s) r := by
  have hr : Active mounts r := (mem_rules_iff h).1 (List.mem_of_find?_eq_some hf)
  obtain ⟨hp, before, after, hrules, hbefore⟩ := List.find?_eq_some_iff_append.1 hf
  refine ⟨⟨hr, hp⟩, fun s ⟨hs, hps⟩ hne => ?_⟩
  have hmem : s ∈ before ++ r :: after := hrules ▸ (mem_rules_iff h).2 hs
  have hafter : s ∈ after := by
    rcases List.mem_append.1 hmem with hm | hm
    · exact absurd hps (by simpa using hbefore s hm)
    · exact (List.mem_cons.1 hm).resolve_left hne
  have hsorted := pairwise_rules h
  rw [hrules, List.pairwise_append, List.pairwise_cons] at hsorted
  have hle := hsorted.2.1.1 s hafter
  rw [Ordering.isLE_iff_eq_lt_or_eq_eq, Rule.order_eq_lt_iff] at hle
  refine hle.resolve_right fun he => hne ?_
  exact (eq_of_pattern_eq h hr hs (Rule.pattern_eq_of_order_eq he)).symm

theorem find?_eq_some_iff_best {p : Rule → Bool} {r : Rule} :
    t.rules.find? p = some r ↔ Best (fun s => Active mounts s ∧ p s) r := by
  refine ⟨best_of_find?_eq_some h, fun hb => ?_⟩
  cases hf : t.rules.find? p with
  | none =>
    exact absurd hb.1.2 (List.find?_eq_none.1 hf r ((mem_rules_iff h).2 hb.1.1))
  | some s =>
    have hs := best_of_find?_eq_some h hf
    by_cases he : s = r
    · rw [he]
    · exact absurd (hb.2 s hs.1 he) (hs.2 r hb.1 (Ne.symm he)).asymm

theorem find?_eq_none_iff_active {p : Rule → Bool} :
    t.rules.find? p = none ↔ ∀ s, Active mounts s → p s = false := by
  rw [List.find?_eq_none]
  simp only [mem_rules_iff h, Bool.not_eq_true]

theorem choose?_eq_some_iff {path : List Char} {r : Rule} {fraud : Bool} :
    t.choose? path = some (r, fraud) ↔ Chosen mounts path r fraud := by
  unfold choose?
  cases hf : t.rules.find? (·.accepts path) with
  | some s =>
    have hs := (find?_eq_some_iff_best h).1 hf
    constructor
    · intro e
      cases e
      exact .accepting hs
    · rintro (hb | ⟨hn, -⟩)
      · rw [Option.some.inj (hf.symm.trans ((find?_eq_some_iff_best h).2 hb))]
      · exact absurd hs.1.2 (by simp [hn s hs.1.1])
  | none =>
    have hn := (find?_eq_none_iff_active h).1 hf
    rw [Option.map_eq_some_iff]
    constructor
    · rintro ⟨s, hs, e⟩
      cases e
      exact .disguised hn ((find?_eq_some_iff_best h).1 hs)
    · rintro (hb | ⟨-, hb⟩)
      · exact absurd hb.1.2 (by simp [hn r hb.1.1])
      · exact ⟨r, (find?_eq_some_iff_best h).2 hb, rfl⟩

theorem choose?_eq_none_iff {path : List Char} :
    t.choose? path = none ↔ (∀ s, Active mounts s → s.accepts path = false) ∧
      ∀ s, Active mounts s → s.recognisesDisguise path = false := by
  rw [← find?_eq_none_iff_active h, ← find?_eq_none_iff_active h]
  unfold choose?
  cases t.rules.find? (·.accepts path) <;> simp

theorem excluded_iff_denied {worker : String} {path : List Char} :
    t.excluded worker path ↔ Denied mounts worker path := by
  unfold excluded Denied
  rw [List.any_eq_true]
  simp only [mem_exclusions_iff h, Bool.and_eq_true, beq_iff_eq]

theorem resolves_resolve (uri : String) : Resolves mounts uri (t.resolve uri) := by
  by_cases hu : uri.toList.head? = some '/'
  · cases hc : t.choose? (SessionMarker.strip uri.toList) with
    | none =>
      rw [resolve_of_choose?_eq_none hc]
      obtain ⟨ha, hd⟩ := (choose?_eq_none_iff h).1 hc
      exact .unmatched hu ha hd
    | some found =>
      have hch := (choose?_eq_some_iff h).1 hc
      rw [resolve_of_choose?_eq_some hu hc]
      split
      · next hx => exact .denied hu hch ((excluded_iff_denied h).1 hx)
      · next hx => exact .sent hu hch (mt (excluded_iff_denied h).2 hx)
  · rw [resolve_of_not_path hu]
    exact .notAPath hu

/-- A table answers what the mounts it was built from ask for, and nothing else is asked for. -/
theorem resolve_eq_iff_resolves (uri : String) (answer : Option Resolution) :
    t.resolve uri = answer ↔ Resolves mounts uri answer := by
  constructor
  · rintro rfl
    exact resolves_resolve h uri
  · intro hr
    cases hr with
    | notAPath hu => exact resolve_of_not_path hu
    | unmatched _ ha hd => exact resolve_of_choose?_eq_none ((choose?_eq_none_iff h).2 ⟨ha, hd⟩)
    | denied hu hch hx =>
      rw [resolve_of_choose?_eq_some hu ((choose?_eq_some_iff h).2 hch)]
      exact if_pos ((excluded_iff_denied h).2 hx)
    | sent hu hch hx =>
      rw [resolve_of_choose?_eq_some hu ((choose?_eq_some_iff h).2 hch)]
      exact if_neg (mt (excluded_iff_denied h).1 hx)

end

/-- The second mount takes the place of the first, so the disguise leads to its worker. -/
theorem resolves_disguised_page :
    build [⟨"/app/*.jsp", "a"⟩, ⟨"/app/*.jsp", "b"⟩, ⟨"!/app/in/*", "b"⟩] 1 =
        .ok (ofRules [⟨"/app/*.jsp", .ending ".jsp", "b", "/app/", false, false⟩,
          ⟨"/app/in/*", .under, "b", "/app/in/", true, false⟩] 1) ∧
      Resolves [⟨"/app/*.jsp", "a"⟩, ⟨"/app/*.jsp", "b"⟩, ⟨"!/app/in/*", "b"⟩]
        "/app/p.jsp.;jsessionid=1.r" (some ⟨"b", .ending ".jsp", 5, true⟩) := by
  have hb : build [⟨"/app/*.jsp", "a"⟩, ⟨"/app/*.jsp", "b"⟩, ⟨"!/app/in/*", "b"⟩] 1 =
      .ok (ofRules [⟨"/app/*.jsp", .ending ".jsp", "b", "/app/", false, false⟩,
        ⟨"/app/in/*", .under, "b", "/app/in/", true, false⟩] 1) := by
    decide +kernel
  have hc : (ofRules [⟨"/app/*.jsp", .ending ".jsp", "b", "/app/", false, false⟩,
      ⟨"/app/in/*", .under, "b", "/app/in/", true, false⟩] 1).choose?
        (SessionMarker.strip "/app/p.jsp.;jsessionid=1.r".toList) =
      some (⟨"/app/*.jsp", .ending ".jsp", "b", "/app/", false, false⟩, true) := by
    decide +kernel
  refine ⟨hb, (resolve_eq_iff_resolves hb _ _).1 ?_⟩
  rw [resolve_of_choose?_eq_some (by decide) hc]
  decide

end RuleTable

end AjpGateway
