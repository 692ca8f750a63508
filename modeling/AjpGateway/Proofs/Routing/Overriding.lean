import AjpGateway.Proofs.Routing.Reloading
import AjpGateway.Proofs.Routing.Resolution

/-!
# Rules that replace others

A table answers by the last rule of each key and by nothing else.  So mounts may be put in any order
as long as no two of them have a key in common, and a mount does nothing where later mounts have all
of its keys, be their rules switched off or not.

    build mounts g = .ok t → (last? mounts key = some r ↔ InForce mounts r ∧ r.key = key)
                                                                              (last?_eq_some_iff)
    build mounts g = .ok t → build others g' = .ok u →
      (∀ key, last? mounts key = last? others key) → t.resolve uri = u.resolve uri
                                                                              (resolve_eq_of_last)
-/

namespace AjpGateway

/-- What a table holds once: a pattern without its flags, for an exclusion or for another rule. -/
def Rule.key (r : Rule) : String × Bool := (r.pattern, r.excludes)

theorem Rule.sameKey_iff {r s : Rule} : r.SameKey s ↔ r.key = s.key := by
  simp only [SameKey, key, Prod.mk.injEq]

namespace Mount

/-- The rules that a mount stands for, none if it cannot be read. -/
def rules (m : Mount) : List Rule := (Rule.readMount m.pattern m.worker).toOption.getD []

def keys (m : Mount) : List (String × Bool) := m.rules.map Rule.key

/-- No rule of one mount replaces a rule of the other. -/
def Apart (m n : Mount) : Prop := ∀ key ∈ m.keys, key ∉ n.keys

instance (m n : Mount) : Decidable (Apart m n) :=
  inferInstanceAs (Decidable (∀ key ∈ m.keys, key ∉ n.keys))

theorem Apart.symm {m n : Mount} (h : Apart m n) : Apart n m :=
  fun key hn hm => h key hm hn

end Mount

namespace RuleTable

/-! ## The last rule of a key -/

def lastOf? (rules : List Rule) (key : String × Bool) : Option Rule :=
  rules.reverse.find? (·.key = key)

/-- The last rule that mounts give for a key. -/
def last? (mounts : List Mount) (key : String × Bool) : Option Rule :=
  lastOf? (mounts.flatMap Mount.rules) key

/-- The second list is the first with mounts put in whose keys all stand in later mounts. -/
inductive Padded : List Mount → List Mount → Prop
  | nil : Padded [] []
  | kept (m : Mount) {mounts padded : List Mount} (h : Padded mounts padded) :
      Padded (m :: mounts) (m :: padded)
  | overridden (m : Mount) {mounts padded : List Mount} (h : Padded mounts padded)
      (later : ∀ key ∈ m.keys, ∃ n ∈ padded, key ∈ n.keys) : Padded mounts (m :: padded)

section
variable {rules : List Rule} {key : String × Bool} {r : Rule}

theorem lastOf?_append (rules rest : List Rule) (key : String × Bool) :
    lastOf? (rules ++ rest) key = (lastOf? rest key).or (lastOf? rules key) := by
  unfold lastOf?
  rw [List.reverse_append, List.find?_append]

theorem lastOf?_eq_none_iff : lastOf? rules key = none ↔ key ∉ rules.map Rule.key := by
  simp [lastOf?]

theorem lastOf?_eq_some_iff : lastOf? rules key = some r ↔ LastOfKey rules r ∧ r.key = key := by
  unfold lastOf? LastOfKey
  rw [List.find?_eq_some_iff_append]
  simp only [Rule.sameKey_iff, decide_eq_true_eq, Bool.not_eq_true', decide_eq_false_iff_not]
  constructor
  · rintro ⟨hkey, after, before, hrules, hafter⟩
    refine ⟨⟨before.reverse, after.reverse, ?_, fun s hs => ?_⟩, hkey⟩
    · rw [← List.reverse_reverse rules, hrules]
      simp
    · exact fun h => hafter s (List.mem_reverse.1 hs) (h.symm.trans hkey)
  · rintro ⟨⟨before, after, rfl, hafter⟩, hkey⟩
    refine ⟨hkey, after.reverse, before.reverse, by simp, fun s hs h => ?_⟩
    exact hafter s (List.mem_reverse.1 hs) (hkey.trans h.symm)

end

section
variable {mounts others padded : List Mount} {m : Mount} {key : String × Bool} {r : Rule}

theorem last?_cons (m : Mount) (mounts : List Mount) (key : String × Bool) :
    last? (m :: mounts) key = (last? mounts key).or (lastOf? m.rules key) := by
  unfold last?
  rw [List.flatMap_cons, lastOf?_append]

theorem last?_eq_none_iff : last? mounts key = none ↔ ∀ m ∈ mounts, key ∉ m.keys := by
  unfold last?
  rw [lastOf?_eq_none_iff, List.map_flatMap, List.mem_flatMap]
  simp only [not_exists, not_and, Mount.keys]

/-- Two mounts that are apart may change places. -/
theorem last?_swap {m n : Mount} (h : m.Apart n) (mounts : List Mount) (key : String × Bool) :
    last? (m :: n :: mounts) key = last? (n :: m :: mounts) key := by
  simp only [last?_cons]
  by_cases hm : key ∈ m.keys
  · rw [lastOf?_eq_none_iff.2 (h key hm), Option.or_none, Option.or_none]
  · rw [lastOf?_eq_none_iff.2 hm, Option.or_none, Option.or_none]

theorem last?_perm (hperm : mounts.Perm others) (hapart : mounts.Pairwise Mount.Apart)
    (key : String × Bool) : last? mounts key = last? others key := by
  induction hperm with
  | nil => rfl
  | cons m hperm ih => rw [last?_cons, last?_cons, ih hapart.of_cons]
  | swap m n mounts =>
    exact last?_swap (List.rel_of_pairwise_cons hapart List.mem_cons_self) mounts key
  | trans hfirst hsecond ihfirst ihsecond =>
    have hmiddle := (hfirst.pairwise_iff (R := Mount.Apart) fun h => h.symm).1 hapart
    exact (ihfirst hapart).trans (ihsecond hmiddle)

/-- A mount whose keys all stand in later mounts has no rule in force. -/
theorem last?_overridden (h : ∀ key ∈ m.keys, ∃ n ∈ mounts, key ∈ n.keys) (key : String × Bool) :
    last? (m :: mounts) key = last? mounts key := by
  rw [last?_cons]
  by_cases hm : key ∈ m.keys
  · obtain ⟨n, hn, hkey⟩ := h key hm
    have hsome : last? mounts key ≠ none := fun hnone => last?_eq_none_iff.1 hnone n hn hkey
    obtain ⟨r, hr⟩ := Option.ne_none_iff_exists'.1 hsome
    rw [hr, Option.some_or]
  · rw [lastOf?_eq_none_iff.2 hm, Option.or_none]

theorem Padded.last?_eq (h : Padded mounts padded) (key : String × Bool) :
    last? padded key = last? mounts key := by
  induction h with
  | nil => rfl
  | kept m h ih => rw [last?_cons, last?_cons, ih]
  | overridden m h later ih => rw [last?_overridden later, ih]

end

/-! ## Tables that were built -/

section
variable {mounts others : List Mount} {g g' : Nat} {t u : RuleTable}

theorem ofMounts_of_build (ht : build mounts g = .ok t) :
    Rule.ofMounts mounts = .ok (mounts.flatMap Mount.rules) := by
  have hread := exists_build_iff.1 ⟨t, ht⟩
  refine map_eq_ok_iff.2 ⟨mounts.map Mount.rules, mapM_eq_ok_iff.2 ?_, rfl⟩
  refine List.forall₂_map_right_iff.2 (List.forall₂_same.2 fun m hm => ?_)
  obtain ⟨rules, hrules⟩ := hread m hm
  rw [Mount.rules, hrules]
  rfl

/-- The last rule of a key is the one in force. -/
theorem last?_eq_some_iff (ht : build mounts g = .ok t) (key : String × Bool) (r : Rule) :
    last? mounts key = some r ↔ InForce mounts r ∧ r.key = key := by
  have hrules := ofMounts_of_build ht
  unfold last?
  rw [lastOf?_eq_some_iff]
  constructor
  · rintro ⟨hlast, hkey⟩
    exact ⟨⟨_, hrules, hlast⟩, hkey⟩
  · rintro ⟨⟨rules, hrules', hlast⟩, hkey⟩
    cases hrules.symm.trans hrules'
    exact ⟨hlast, hkey⟩

variable (ht : build mounts g = .ok t) (hu : build others g' = .ok u)

include ht hu

theorem inForce_iff_of_last (h : ∀ key, last? mounts key = last? others key) (r : Rule) :
    InForce mounts r ↔ InForce others r := by
  have hmounts := last?_eq_some_iff ht r.key r
  have hothers := last?_eq_some_iff hu r.key r
  rw [h, hothers] at hmounts
  simpa using hmounts.symm

/-- Where the same rules are in force, the first rule with a property is the same. -/
theorem find?_rules_eq (h : ∀ r, InForce mounts r ↔ InForce others r) (p : Rule → Bool) :
    t.rules.find? p = u.rules.find? p := by
  refine Option.ext fun r => ?_
  rw [find?_eq_some_iff_best ht, find?_eq_some_iff_best hu]
  simp only [Active, h]

theorem excluded_eq (h : ∀ r, InForce mounts r ↔ InForce others r) (worker : String)
    (path : List Char) : t.excluded worker path = u.excluded worker path := by
  rw [Bool.eq_iff_iff, excluded_iff_denied ht, excluded_iff_denied hu]
  simp only [Denied, ActiveExclusion, h]

theorem resolve_eq_of_inForce (h : ∀ r, InForce mounts r ↔ InForce others r) (uri : String) :
    t.resolve uri = u.resolve uri := by
  have hchoose (path : List Char) : t.choose? path = u.choose? path := by
    unfold choose?
    rw [find?_rules_eq ht hu h, find?_rules_eq ht hu h]
  unfold resolve
  simp only [hchoose, excluded_eq ht hu h]

/-- Two tables answer alike where their mounts give the same last rule for each key, so where one
list is a permutation of the other and no two of its mounts have a key in common, and where the one
has nothing over the other but mounts that are overridden later. -/
theorem resolve_eq_of_last :
    ((∀ key, last? mounts key = last? others key) → ∀ uri, t.resolve uri = u.resolve uri) ∧
    (mounts.Perm others → mounts.Pairwise Mount.Apart → ∀ uri, t.resolve uri = u.resolve uri) ∧
    (Padded mounts others → ∀ uri, t.resolve uri = u.resolve uri) := by
  have hlast (h : ∀ key, last? mounts key = last? others key) (uri : String) :
      t.resolve uri = u.resolve uri :=
    resolve_eq_of_inForce ht hu (inForce_iff_of_last ht hu h) uri
  refine ⟨hlast, fun hperm hapart => ?_, fun hpadded => ?_⟩
  · exact hlast (last?_perm hperm hapart)
  · exact hlast fun key => (hpadded.last?_eq key).symm

end

/-- The mounts may change places, and what the switched off rule overrides may be left out. -/
theorem resolve_pages :
    ∃ t u v,
      build [⟨"/*", "a"⟩, ⟨"-/*.jsp", "b"⟩, ⟨"!/in|/*", "a"⟩] 1 = .ok t ∧
      build [⟨"-/*.jsp", "b"⟩, ⟨"/*", "a"⟩, ⟨"!/in|/*", "a"⟩] 2 = .ok u ∧
      build [⟨"/*.jsp", "c"⟩, ⟨"-/*.jsp", "b"⟩, ⟨"/*", "a"⟩, ⟨"!/in", "c"⟩, ⟨"!/in|/*", "a"⟩] 3 =
        .ok v ∧
      t.resolve "/p.jsp" = some ⟨"a", .under, 1, false⟩ ∧
      (∀ uri, t.resolve uri = u.resolve uri) ∧ ∀ uri, u.resolve uri = v.resolve uri := by
  have ht : build [⟨"/*", "a"⟩, ⟨"-/*.jsp", "b"⟩, ⟨"!/in|/*", "a"⟩] 1 =
      .ok (ofRules [⟨"/*", .under, "a", "/", false, false⟩,
        ⟨"/*.jsp", .ending ".jsp", "b", "/", false, true⟩, ⟨"/in", .exact, "a", "/in", true, false⟩,
        ⟨"/in/*", .under, "a", "/in/", true, false⟩] 1) := by
    decide +kernel
  have hu : build [⟨"-/*.jsp", "b"⟩, ⟨"/*", "a"⟩, ⟨"!/in|/*", "a"⟩] 2 =
      .ok (ofRules [⟨"/*.jsp", .ending ".jsp", "b", "/", false, true⟩,
        ⟨"/*", .under, "a", "/", false, false⟩, ⟨"/in", .exact, "a", "/in", true, false⟩,
        ⟨"/in/*", .under, "a", "/in/", true, false⟩] 2) := by
    decide +kernel
  have hv : build
      [⟨"/*.jsp", "c"⟩, ⟨"-/*.jsp", "b"⟩, ⟨"/*", "a"⟩, ⟨"!/in", "c"⟩, ⟨"!/in|/*", "a"⟩] 3 =
      .ok (ofRules [⟨"/*.jsp", .ending ".jsp", "b", "/", false, true⟩,
        ⟨"/*", .under, "a", "/", false, false⟩, ⟨"/in", .exact, "a", "/in", true, false⟩,
        ⟨"/in/*", .under, "a", "/in/", true, false⟩] 3) := by
    decide +kernel
  refine ⟨_, _, _, ht, hu, hv, by decide +kernel, ?_, ?_⟩
  · refine (resolve_eq_of_last ht hu).2.1 (.swap _ _ _) ?_
    decide +kernel
  · refine (resolve_eq_of_last hu hv).2.2 ?_
    refine .overridden _ (.kept _ (.kept _ (.overridden _ (.kept _ .nil) ?_))) ?_ <;> decide +kernel

end RuleTable

end AjpGateway
