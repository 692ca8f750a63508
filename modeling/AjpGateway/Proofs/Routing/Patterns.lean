import AjpGateway.Proofs.Results
import AjpGateway.Routing.Rule

/-!
# Shapes of patterns

A pattern without a wildcard is its context.  In any other the wildcard is the only one, follows the
context with its last slash, and nothing or an extension follows it.

    readShape p = .ok (context, shape) ↔ PatternOf p context shape            (readShape_eq_ok_iff)
    read raw worker = .ok r → ∃ p context, PatternOf p context r.shape ∧ …         (exists_pattern)
-/

namespace AjpGateway.Rule

/-- The pattern of a context and a shape. -/
inductive PatternOf : (pattern context : List Char) → Shape → Prop
  | exact {context : List Char} (plain : '*' ∉ context) : PatternOf context context .exact
  | under {context : List Char} (plain : '*' ∉ context) (slash : context.getLast? = some '/') :
      PatternOf (context ++ ['*']) context .under
  | ending {context extension : List Char} (plain : '*' ∉ context)
      (slash : context.getLast? = some '/') (given : extension ≠ []) (single : '*' ∉ extension)
      (flat : '/' ∉ extension) :
      PatternOf (context ++ '*' :: '.' :: extension) context
        (.ending (String.ofList ('.' :: extension)))

theorem readShape_eq_ok_iff {pattern context : List Char} {shape : Shape} :
    readShape pattern = .ok (context, shape) ↔ PatternOf pattern context shape := by
  constructor
  · intro h
    unfold readShape at h
    split at h
    · next hc =>
      cases h
      exact .exact (Text.cutAt?_eq_none_iff.1 hc)
    · next before rest hc =>
      obtain ⟨rfl, hplain⟩ := Text.cutAt?_eq_some_iff.1 hc
      by_cases hstar : '*' ∈ rest
      · rw [if_pos hstar] at h
        cases h
      rw [if_neg hstar] at h
      by_cases hslash : before.getLast? = some '/'
      · rw [if_neg (not_not.2 hslash)] at h
        cases rest with
        | nil =>
          cases h
          exact .under hplain hslash
        | cons c extension =>
          dsimp only at h
          by_cases hdot : c = '.'
          · subst hdot
            rw [if_neg (not_not.2 rfl)] at h
            by_cases hsome : extension = []
            · rw [if_pos hsome] at h
              cases h
            rw [if_neg hsome] at h
            by_cases hflat : '/' ∈ extension
            · rw [if_pos hflat] at h
              cases h
            rw [if_neg hflat] at h
            cases h
            exact .ending hplain hslash hsome (fun hs => hstar (List.mem_cons_of_mem _ hs)) hflat
          · rw [if_pos hdot] at h
            cases h
      · rw [if_pos hslash] at h
        cases h
  · intro h
    unfold readShape
    cases h with
    | exact plain => rw [Text.cutAt?_eq_none_iff.2 plain]
    | under plain slash =>
      rw [Text.cutAt?_eq_some_iff.2 ⟨rfl, plain⟩]
      simp [slash]
    | ending plain slash given single flat =>
      rw [Text.cutAt?_eq_some_iff.2 ⟨rfl, plain⟩]
      simp [slash, given, single, flat]

/-- A rule that is read has the pattern of its context and its shape. -/
theorem exists_pattern {raw worker : String} {r : Rule} (h : read raw worker = .ok r) :
    PatternOf r.pattern.toList r.context.toList r.shape := by
  have h := mapError_eq_ok_iff.1 h
  unfold readParts at h
  dsimp only at h
  split at h
  · cases h
  · split at h
    · cases h
    · split at h
      · cases h
      · split at h
        · cases h
        · obtain ⟨⟨context, shape⟩, hshape, rfl⟩ := map_eq_ok_iff.1 h
          simpa only [String.toList_ofList] using readShape_eq_ok_iff.1 hshape

end AjpGateway.Rule
