import AjpGateway.Config.Properties
import Mathlib.Data.List.Induction
import Mathlib.Data.List.Nodup

/-!
# Entries set one after another

Setting a key that is there replaces its value in place, and a new key comes to the end.  So entries
set one after another are the distinct keys in the order in which each first came, with the values
that came last.

    (p.set k v).keys = if k ∈ p.keys then p.keys else p.keys ++ [k]              (keys_set)
    (p.set k v).get? k' = if k' = k then some v else p.get? k'                    (get?_set)
    Overridden pairs (setAll {} pairs).entries                            (overridden_setAll)
-/

namespace AjpGateway.Properties

variable {p : Properties} {key value : String}

/-! ## One entry -/

theorem lookup_cons_eq (e : String × String) (rest : List (String × String)) (k : String) :
    (e :: rest).lookup k = if k = e.1 then some e.2 else rest.lookup k := by
  rw [List.lookup_cons]
  by_cases hk : k = e.1
  · rw [if_pos hk, beq_iff_eq.2 hk]
  · rw [if_neg hk, beq_eq_false_iff_ne.2 hk]

theorem keys_set (p : Properties) (key value : String) :
    (p.set key value).keys = if key ∈ p.keys then p.keys else p.keys ++ [key] := by
  obtain ⟨entries⟩ := p
  show (setEntry key value entries).map Prod.fst =
    if key ∈ entries.map Prod.fst then entries.map Prod.fst else entries.map Prod.fst ++ [key]
  induction entries with
  | nil => rfl
  | cons e rest ih =>
    by_cases he : e.1 = key
    · simp [setEntry, he]
    · have hne : key ≠ e.1 := fun h => he h.symm
      simp only [setEntry, if_neg he, List.map_cons, ih, List.mem_cons, hne, false_or]
      split <;> rfl

theorem get?_set (p : Properties) (key value k : String) :
    (p.set key value).get? k = if k = key then some value else p.get? k := by
  obtain ⟨entries⟩ := p
  show (setEntry key value entries).lookup k = if k = key then some value else entries.lookup k
  induction entries with
  | nil => exact lookup_cons_eq (key, value) [] k
  | cons e rest ih =>
    by_cases he : e.1 = key
    · rw [setEntry, if_pos he, lookup_cons_eq, lookup_cons_eq, he]
      split <;> rfl
    · rw [setEntry, if_neg he, lookup_cons_eq, lookup_cons_eq, ih]
      by_cases hk : k = key
      · have hne : k ≠ e.1 := fun h => he (h.symm.trans hk)
        rw [if_neg hne, if_pos hk, if_pos hk]
      · rw [if_neg hk, if_neg hk]

theorem nodup_keys_set (h : p.keys.Nodup) : (p.set key value).keys.Nodup := by
  rw [keys_set]
  split
  · exact h
  · next hkey => exact List.nodup_append'.2 ⟨h, List.nodup_singleton key, by simpa using hkey⟩

/-- An entry of a store with distinct keys is the value of its key. -/
theorem mem_entries_iff (h : p.keys.Nodup) :
    (key, value) ∈ p.entries ↔ p.get? key = some value := by
  obtain ⟨entries⟩ := p
  show (key, value) ∈ entries ↔ entries.lookup key = some value
  induction entries with
  | nil => simp
  | cons e rest ih =>
    obtain ⟨hfirst, hrest⟩ := List.nodup_cons.1 (show (e.1 :: rest.map Prod.fst).Nodup from h)
    obtain ⟨k, v⟩ := e
    rw [List.mem_cons, lookup_cons_eq, Prod.mk.injEq]
    by_cases hk : key = k
    · subst hk
      have hnone : ¬ rest.lookup key = some value := by
        rw [← ih hrest]
        exact fun hmem => hfirst (List.mem_map.2 ⟨_, hmem, rfl⟩)
      rw [if_pos rfl, ih hrest, or_iff_left hnone, Option.some.injEq, and_iff_right rfl, eq_comm]
    · simp [hk, ih hrest]

/-! ## Many entries -/

/-- The store once all pairs were set in turn. -/
def setAll (p : Properties) (pairs : List (String × String)) : Properties :=
  pairs.foldl (fun p e => p.set e.1 e.2) p

theorem setAll_concat (p : Properties) (pairs : List (String × String)) (e : String × String) :
    p.setAll (pairs ++ [e]) = (p.setAll pairs).set e.1 e.2 := by
  simp [setAll]

/-- Entries are what is left of pairs of which later ones override earlier ones: the distinct keys
in the order in which each first came, with the value that came last. -/
structure Overridden (pairs entries : List (String × String)) : Prop where
  keys : entries.map Prod.fst = (pairs.map Prod.fst).eraseDups
  values : ∀ key value, (key, value) ∈ entries ↔
    ∃ before after, pairs = before ++ (key, value) :: after ∧ key ∉ after.map Prod.fst

theorem keys_setAll (pairs : List (String × String)) :
    (setAll {} pairs).keys = (pairs.map Prod.fst).eraseDups := by
  induction pairs using List.reverseRecOn with
  | nil => rfl
  | append_singleton pairs e ih =>
    rw [setAll_concat, keys_set, ih, List.map_append, List.map_singleton, List.eraseDups_append]
    by_cases hmem : e.1 ∈ pairs.map Prod.fst
    · simp [hmem, List.removeAll]
    · simp [hmem, List.removeAll, List.eraseDups_cons]

theorem nodup_keys_setAll (pairs : List (String × String)) : (setAll {} pairs).keys.Nodup := by
  induction pairs using List.reverseRecOn with
  | nil => exact List.nodup_nil
  | append_singleton pairs e ih =>
    rw [setAll_concat]
    exact nodup_keys_set ih

theorem get?_setAll (pairs : List (String × String)) (key : String) :
    (setAll {} pairs).get? key = pairs.reverse.lookup key := by
  induction pairs using List.reverseRecOn with
  | nil => rfl
  | append_singleton pairs e ih =>
    rw [setAll_concat, get?_set, ih, List.reverse_concat, lookup_cons_eq]

theorem lookup_reverse_eq_some_iff {pairs : List (String × String)} :
    pairs.reverse.lookup key = some value ↔
      ∃ before after, pairs = before ++ (key, value) :: after ∧ key ∉ after.map Prod.fst := by
  rw [List.lookup_eq_some_iff]
  simp only [bne_iff_ne, List.mem_map, not_exists, not_and]
  constructor
  · rintro ⟨later, earlier, hpairs, hlater⟩
    refine ⟨earlier.reverse, later.reverse, ?_, fun e he h => ?_⟩
    · rw [← List.reverse_reverse pairs, hpairs]
      simp
    · exact hlater e (List.mem_reverse.1 he) h.symm
  · rintro ⟨before, after, rfl, hafter⟩
    refine ⟨after.reverse, before.reverse, by simp, fun e he h => ?_⟩
    exact hafter e (List.mem_reverse.1 he) h.symm

theorem overridden_setAll (pairs : List (String × String)) :
    Overridden pairs (setAll {} pairs).entries where
  keys := keys_setAll pairs
  values key value := by
    rw [mem_entries_iff (nodup_keys_setAll pairs), get?_setAll, lookup_reverse_eq_some_iff]

end AjpGateway.Properties
