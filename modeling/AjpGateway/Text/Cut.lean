import AjpGateway.Text.Blank

/-!
# Cutting text

Texts are cut at characters, at phrases and at line ends.  A cut loses nothing but what it cuts
at:

    cutAt? c s = some (a, b) ↔ s = a ++ c :: b ∧ c ∉ a        (cutAt?_eq_some_iff)
    cutPhrase? w s = some (a, b) → s = a ++ w ++ b            (eq_of_cutPhrase?)
    cutPhrase? w s = none ↔ ¬ w <:+: s                        (cutPhrase?_eq_none_iff)
    after? w s = some r ↔ s = w ++ r                          (after?_eq_some_iff)
-/

namespace AjpGateway.Text

/-- The parts before and after the first `c`. -/
def cutAt? (c : Char) : List Char → Option (List Char × List Char)
  | [] => none
  | x :: r => if x = c then some ([], r) else (cutAt? c r).map fun p => (x :: p.1, p.2)

/-- What follows `w` at the start of a text. -/
def after? : (w s : List Char) → Option (List Char)
  | [], s => some s
  | _ :: _, [] => none
  | a :: w, b :: s => if a = b then after? w s else none

/-- The parts before and after the first occurrence of `w`. -/
def cutPhrase? (w : List Char) : List Char → Option (List Char × List Char)
  | [] => if w = [] then some ([], []) else none
  | x :: r =>
    match after? w (x :: r) with
    | some rest => some ([], rest)
    | none => (cutPhrase? w r).map fun p => (x :: p.1, p.2)

/-- The pieces between the characters of the class, empty pieces dropped. -/
def pieces (p : Char → Bool) (s : List Char) : List (List Char) :=
  (s.splitOnP p).filter (! ·.isEmpty)

/-- Lists are separated by commas and blanks, in any number. -/
def listItems (s : String) : List String :=
  (pieces (fun c => c == ',' || isBlank c) s.toList).map String.ofList

/-- A line without the carriage return of its line end. -/
def dropReturn (s : List Char) : List Char :=
  match s.reverse with
  | '\r' :: r => r.reverse
  | _ => s

/-- The lines of a text.  A line ends with `\n` or `\r\n`; the last may end with the text, and
then keeps a carriage return. -/
def lines (s : List Char) : List (List Char) :=
  match (s.splitOnP (· == '\n')).reverse with
  | [] => []
  | last :: ended =>
    ended.reverse.map dropReturn ++ (if last = [] then [] else [last])

/-- ASCII letters to lower case, all else kept. -/
def lowerAscii (s : String) : String := String.ofList (s.toList.map Char.toLower)

/-- Equality up to the case of ASCII letters. -/
def sameIgnoringCase (a b : String) : Bool := a.toList.map Char.toLower == b.toList.map Char.toLower

/-! ## Lemmas -/

theorem cutAt?_eq_some_iff {c : Char} {s a b : List Char} :
    cutAt? c s = some (a, b) ↔ s = a ++ c :: b ∧ c ∉ a := by
  induction s generalizing a b with
  | nil => simp [cutAt?]
  | cons x r ih =>
    by_cases hx : x = c
    · subst hx
      constructor
      · intro h
        simp only [cutAt?, if_true, Option.some.injEq, Prod.mk.injEq] at h
        obtain ⟨rfl, rfl⟩ := h
        simp
      · rintro ⟨h, hm⟩
        cases a with
        | nil => simp only [List.nil_append, List.cons.injEq, true_and] at h; simp [cutAt?, h]
        | cons y a =>
          simp only [List.cons_append, List.cons.injEq] at h
          exact absurd (by simp [h.1]) hm
    · simp only [cutAt?, if_neg hx, Option.map_eq_some_iff, Prod.exists, Prod.mk.injEq]
      constructor
      · rintro ⟨a', b', h, rfl, rfl⟩
        obtain ⟨rfl, hm⟩ := ih.1 h
        exact ⟨by simp, by simp [hm, Ne.symm hx]⟩
      · rintro ⟨h, hm⟩
        cases a with
        | nil => exact absurd (List.cons.inj h).1 hx
        | cons y a =>
          simp only [List.cons_append, List.cons.injEq] at h
          obtain ⟨rfl, h⟩ := h
          exact ⟨a, b, ih.2 ⟨h, fun hc => hm (List.mem_cons_of_mem _ hc)⟩, rfl, rfl⟩

theorem cutAt?_eq_none_iff {c : Char} {s : List Char} : cutAt? c s = none ↔ c ∉ s := by
  induction s with
  | nil => simp [cutAt?]
  | cons x r ih =>
    by_cases hx : x = c
    · simp [cutAt?, hx]
    · simp [cutAt?, hx, ih, show c ≠ x from fun h => hx h.symm]

theorem after?_eq_some_iff {w s r : List Char} : after? w s = some r ↔ s = w ++ r := by
  induction w generalizing s with
  | nil => simp [after?]
  | cons a w ih =>
    cases s with
    | nil => simp [after?]
    | cons b s =>
      by_cases hab : a = b
      · subst hab
        simp [after?, ih]
      · simp [after?, hab, Ne.symm hab]

theorem eq_of_cutPhrase? {w s a b : List Char} (h : cutPhrase? w s = some (a, b)) :
    s = a ++ w ++ b := by
  induction s generalizing a b with
  | nil =>
    simp only [cutPhrase?] at h
    split at h
    · next hw => simp only [Option.some.injEq, Prod.mk.injEq] at h; simp [hw, ← h.1, ← h.2]
    · cases h
  | cons x r ih =>
    simp only [cutPhrase?] at h
    split at h
    · next rest hp =>
      simp only [Option.some.injEq, Prod.mk.injEq] at h
      obtain ⟨rfl, rfl⟩ := h
      simpa using after?_eq_some_iff.1 hp
    · obtain ⟨p, hp, he⟩ := Option.map_eq_some_iff.1 h
      obtain ⟨rfl, rfl⟩ := Prod.mk.inj he
      simpa using ih hp

theorem after?_eq_none_iff {w s : List Char} : after? w s = none ↔ ¬ w <+: s := by
  rw [Option.eq_none_iff_forall_ne_some]
  simp only [ne_eq, after?_eq_some_iff]
  constructor
  · rintro h ⟨r, hr⟩
    exact h r hr.symm
  · rintro h r rfl
    exact h (List.prefix_append w r)

theorem cutPhrase?_eq_none_iff {w s : List Char} : cutPhrase? w s = none ↔ ¬ w <:+: s := by
  induction s with
  | nil => by_cases hw : w = [] <;> simp [cutPhrase?, hw]
  | cons x r ih =>
    rw [List.infix_cons_iff, not_or, ← after?_eq_none_iff, ← ih]
    cases ha : after? w (x :: r) <;> simp [cutPhrase?, ha]

end AjpGateway.Text
