import AjpGateway.Text.Blank
import Mathlib.Data.List.DropRight

/-!
# Trimmed texts

Trimming takes off the blanks at both ends and nothing else, so a text is left as it is exactly if
no blank stands at either end of it.

    s = a ++ trim s ++ b, all of a and b blank                              (exists_blanks)
    Tight (trim s)                                                          (tight_trim)
    trim s = s ↔ Tight s                                                    (trim_eq_self_iff)
    trim (a ++ s ++ b) = s, all of a and b blank and Tight s                     (trim_around)
-/

namespace AjpGateway.Text

variable {p : Char → Bool} {a b s : List Char} {c : Char}

/-! ## Dropping from the end -/

theorem dropWhileEnd_eq_rdropWhile (p : Char → Bool) (s : List Char) :
    dropWhileEnd p s = s.rdropWhile p := rfl

theorem dropWhileEnd_eq_self_iff :
    dropWhileEnd p s = s ↔ ∀ c, s.getLast? = some c → p c = false := by
  rw [dropWhileEnd_eq_rdropWhile, List.rdropWhile_eq_self_iff]
  constructor
  · intro h c hc
    obtain ⟨r, rfl⟩ := List.getLast?_eq_some_iff.1 hc
    simpa using h (by simp)
  · intro h hne
    exact Bool.eq_false_iff.1 (h _ (List.getLast?_eq_some_getLast hne))

theorem last_dropWhileEnd (h : (dropWhileEnd p s).getLast? = some c) : p c = false :=
  dropWhileEnd_eq_self_iff.1 (List.rdropWhile_idempotent p s) c h

theorem exists_dropped (p : Char → Bool) (s : List Char) :
    ∃ b, s = dropWhileEnd p s ++ b ∧ ∀ c ∈ b, p c = true :=
  ⟨s.rtakeWhile p, List.rdropWhile_append_rtakeWhile.symm, fun _ h => List.mem_rtakeWhile_imp h⟩

theorem length_dropWhileEnd_le (p : Char → Bool) (s : List Char) :
    (dropWhileEnd p s).length ≤ s.length :=
  (List.rdropWhile_prefix p s).length_le

theorem head?_dropWhileEnd (h : dropWhileEnd p s ≠ []) : (dropWhileEnd p s).head? = s.head? := by
  obtain ⟨b, hs, -⟩ := exists_dropped p s
  obtain ⟨c, r, hr⟩ := List.exists_cons_of_ne_nil h
  rw [hr] at hs ⊢
  rw [hs]
  rfl

/-- What is dropped from the end of a text is dropped from longer texts as well. -/
theorem dropWhileEnd_append_of_forall (h : ∀ c ∈ b, p c = true) :
    dropWhileEnd p (a ++ b) = dropWhileEnd p a := by
  unfold dropWhileEnd
  rw [List.reverse_append, List.dropWhile_append_of_pos fun c hc => h c (List.mem_reverse.1 hc)]

/-- Where something of the end is left, what stands before it is left too. -/
theorem dropWhileEnd_append (h : dropWhileEnd p b ≠ []) :
    dropWhileEnd p (a ++ b) = a ++ dropWhileEnd p b := by
  obtain ⟨d, hb, hd⟩ := exists_dropped p b
  have hlast : ∀ c, (a ++ dropWhileEnd p b).getLast? = some c → p c = false := by
    intro c hc
    rw [List.getLast?_append_of_ne_nil _ h] at hc
    exact last_dropWhileEnd hc
  calc dropWhileEnd p (a ++ b)
      = dropWhileEnd p (a ++ dropWhileEnd p b ++ d) := by rw [List.append_assoc, ← hb]
    _ = dropWhileEnd p (a ++ dropWhileEnd p b) := dropWhileEnd_append_of_forall hd
    _ = a ++ dropWhileEnd p b := dropWhileEnd_eq_self_iff.2 hlast

/-- What stands around a text is dropped from both ends, if none of it stands at the ends of the
text. -/
theorem dropWhileEnd_dropWhile_around (ha : ∀ c ∈ a, p c = true)
    (hhead : ∀ c, s.head? = some c → p c = false) (hlast : ∀ c, s.getLast? = some c → p c = false)
    (hb : ∀ c ∈ b, p c = true) : dropWhileEnd p ((a ++ s ++ b).dropWhile p) = s := by
  rw [List.append_assoc, List.dropWhile_append_of_pos ha]
  cases s with
  | nil =>
    rw [List.nil_append, List.dropWhile_eq_nil_iff.2 hb]
    rfl
  | cons c s =>
    rw [List.cons_append, List.dropWhile_cons_of_neg (by simp [hhead c rfl]), ← List.cons_append]
    exact (dropWhileEnd_append_of_forall hb).trans (dropWhileEnd_eq_self_iff.2 hlast)

/-! ## Trimming -/

/-- No blank stands at either end of the text. -/
structure Tight (s : List Char) : Prop where
  head : ∀ c, s.head? = some c → isBlank c = false
  last : ∀ c, s.getLast? = some c → isBlank c = false

theorem trim_eq_trimEnd (h : ∀ c, s.head? = some c → isBlank c = false) : trim s = trimEnd s := by
  cases s with
  | nil => rfl
  | cons c s => rw [trim, trimStart, List.dropWhile_cons_of_neg (by simp [h c rfl])]

theorem exists_blanks (s : List Char) : ∃ a b, s = a ++ trim s ++ b ∧
    (∀ c ∈ a, isBlank c = true) ∧ ∀ c ∈ b, isBlank c = true := by
  obtain ⟨b, hb, hblank⟩ := exists_dropped isBlank (trimStart s)
  refine ⟨s.takeWhile isBlank, b, ?_, fun _ h => List.mem_takeWhile_imp h, hblank⟩
  rw [List.append_assoc]
  exact (List.takeWhile_append_dropWhile).symm.trans (congrArg _ hb)

theorem tight_trim (s : List Char) : Tight (trim s) where
  head c hc := by
    obtain ⟨b, hb, -⟩ := exists_dropped isBlank (trimStart s)
    have hkept : (dropWhileEnd isBlank (trimStart s)).head? = some c := hc
    have hstart : (s.dropWhile isBlank).head? = some c := by
      show (trimStart s).head? = some c
      rw [hb, List.head?_append, hkept, Option.some_or]
    have hnot := List.head?_dropWhile_not isBlank s
    rwa [hstart] at hnot
  last _ hc := last_dropWhileEnd hc

theorem trim_eq_self_iff : trim s = s ↔ Tight s := by
  constructor
  · intro h
    rw [← h]
    exact tight_trim s
  · intro h
    rw [trim_eq_trimEnd h.head]
    exact dropWhileEnd_eq_self_iff.2 h.last

/-- Blanks around a text without blanks at its ends are what is trimmed. -/
theorem trim_around (ha : ∀ c ∈ a, isBlank c = true) (hs : Tight s)
    (hb : ∀ c ∈ b, isBlank c = true) : trim (a ++ s ++ b) = s :=
  dropWhileEnd_dropWhile_around ha hs.head hs.last hb

theorem trim_append_of_forall (hb : ∀ c ∈ b, isBlank c = true) : trim (s ++ b) = trim s := by
  obtain ⟨a, d, hs, ha, hd⟩ := exists_blanks s
  have hall : ∀ c ∈ d ++ b, isBlank c = true := List.forall_mem_append.2 ⟨hd, hb⟩
  conv_lhs => rw [hs, List.append_assoc]
  exact trim_around ha (tight_trim s) hall

instance (s : List Char) : Decidable (Tight s) := decidable_of_iff (trim s = s) trim_eq_self_iff

theorem length_trim_le (s : List Char) : (trim s).length ≤ s.length :=
  (length_dropWhileEnd_le isBlank _).trans (List.dropWhile_sublist isBlank).length_le

/-- What is no blank stands in a text as often as in the trimmed text. -/
theorem count_trim (h : isBlank c = false) (s : List Char) : (trim s).count c = s.count c := by
  obtain ⟨a, b, hs, ha, hb⟩ := exists_blanks s
  have hnone {l : List Char} (hl : ∀ c ∈ l, isBlank c = true) : l.count c = 0 :=
    List.count_eq_zero.2 fun hc => by simp [hl c hc] at h
  conv_rhs => rw [hs]
  rw [List.count_append, List.count_append, hnone ha, hnone hb, Nat.zero_add, Nat.add_zero]

end AjpGateway.Text
