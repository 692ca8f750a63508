import AjpGateway.Text.Cut

/-!
# Texts put together

A text put together from parts is cut into these parts again, if no part holds what the cut is made
at.  A phrase whose first character does not come again in it cannot begin in the part before it.
How lines end is seen only in carriage returns at their ends.

    cutPhrase? (c :: w) (a ++ (c :: w ++ b)) = some (a, b)                       (cutPhrase?_append)
    lines (a ++ '\n' :: s) = dropReturn a :: lines s                             (lines_append_cons)
    Lined ls s → (lines s).map f = ls.map f, where f does not see returns          (Lined.map_lines)
-/

namespace AjpGateway.Text

variable {c : Char} {w a b s : List Char}

/-! ## Phrases -/

/-- A phrase that began in `a` and reached beyond it would have its first character twice. -/
theorem not_prefix_append (hc : c ∉ w) (ha : a ≠ []) (h : ¬ c :: w <+: a) :
    ¬ c :: w <+: a ++ c :: b := by
  rintro ⟨t, ht⟩
  rcases List.append_eq_append_iff.1 ht with ⟨u, hu, -⟩ | ⟨u, hu, hb⟩
  · exact h ⟨u, hu.symm⟩
  · obtain ⟨x, a, rfl⟩ := List.exists_cons_of_ne_nil ha
    cases u with
    | nil => exact h ⟨[], by rw [hu, List.append_nil, List.append_nil]⟩
    | cons y u =>
      obtain rfl : c = y := (List.cons.inj hb).1
      refine hc ?_
      rw [(List.cons.inj hu).2]
      exact List.mem_append_right _ List.mem_cons_self

theorem cutPhrase?_append (hc : c ∉ w) (ha : ¬ c :: w <:+: a) :
    cutPhrase? (c :: w) (a ++ (c :: w ++ b)) = some (a, b) := by
  induction a with
  | nil =>
    rw [List.nil_append, List.cons_append, cutPhrase?, ← List.cons_append,
      after?_eq_some_iff.2 rfl]
  | cons x a ih =>
    rw [List.infix_cons_iff, not_or] at ha
    have hnone : after? (c :: w) (x :: (a ++ (c :: w ++ b))) = none :=
      after?_eq_none_iff.2 (not_prefix_append hc (List.cons_ne_nil x a) ha.1)
    rw [List.cons_append, cutPhrase?, hnone, ih ha.2]
    rfl

/-! ## Lines -/

/-- The text of some lines.  A line ends with a newline, with or without a carriage return; the last
may end with the text, and is then not empty. -/
inductive Lined : List (List Char) → List Char → Prop where
  | none : Lined [] []
  | last {line : List Char} (hline : '\n' ∉ line) (hne : line ≠ []) : Lined [line] line
  | newline {line rest : List Char} {lines : List (List Char)} (hline : '\n' ∉ line)
      (h : Lined lines rest) : Lined (line :: lines) (line ++ '\n' :: rest)
  | returned {line rest : List Char} {lines : List (List Char)} (hline : '\n' ∉ line)
      (h : Lined lines rest) : Lined (line :: lines) (line ++ '\r' :: '\n' :: rest)

theorem splitOnP_newline (h : '\n' ∉ a) : a.splitOnP (· == '\n') = [a] := by
  refine List.splitOnP_eq_singleton fun x hx => ?_
  rw [beq_eq_false_iff_ne]
  rintro rfl
  exact h hx

theorem lines_append_cons (h : '\n' ∉ a) : lines (a ++ '\n' :: s) = dropReturn a :: lines s := by
  unfold lines
  rw [List.splitOnP_append_cons a s (by decide), splitOnP_newline h, List.singleton_append,
    List.reverse_cons]
  obtain ⟨last, ended, hs⟩ := List.exists_cons_of_ne_nil
    (List.reverse_ne_nil_iff.2 (List.splitOnP_ne_nil (· == '\n') s))
  rw [hs]
  simp

theorem lines_of_not_mem (h : '\n' ∉ a) (hne : a ≠ []) : lines a = [a] := by
  unfold lines
  rw [splitOnP_newline h]
  simp [hne]

theorem dropReturn_concat (a : List Char) : dropReturn (a ++ ['\r']) = a := by
  simp [dropReturn]

theorem dropReturn_cases (a : List Char) : dropReturn a = a ∨ a = dropReturn a ++ ['\r'] := by
  unfold dropReturn
  split
  · next r hr =>
    right
    rw [← List.reverse_cons, ← hr, List.reverse_reverse]
  · left
    rfl

/-- What does not see returns at the end of a line reads the lines as they were written. -/
theorem Lined.map_lines {β : Type} {f : List Char → β} (hf : ∀ l, f (l ++ ['\r']) = f l)
    {ls : List (List Char)} (h : Lined ls s) : (lines s).map f = ls.map f := by
  induction h with
  | none => rfl
  | last hline hne => rw [lines_of_not_mem hline hne]
  | @newline line rest ls hline _ ih =>
    have hdrop : f (dropReturn line) = f line := by
      rcases dropReturn_cases line with h | h
      · rw [h]
      · exact (hf _).symm.trans (congrArg f h.symm)
    rw [lines_append_cons hline, List.map_cons, List.map_cons, hdrop, ih]
  | @returned line rest ls hline _ ih =>
    have hreturn : '\n' ∉ line ++ ['\r'] := by
      rw [List.mem_append, not_or]
      exact ⟨hline, by decide⟩
    rw [List.append_cons line '\r', lines_append_cons hreturn, dropReturn_concat, List.map_cons,
      List.map_cons, ih]

end AjpGateway.Text
