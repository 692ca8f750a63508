import AjpGateway.Proofs.Routing.Patterns
import AjpGateway.Proofs.Text.Trimming
import Mathlib.Data.List.TakeWhile

/-!
# The grammar of rules

A text is read as a rule exactly if a run of flags and a pattern stand in it and its worker has a
name without blanks; all of the rule is in the text.  Written again, a rule is read as itself.

    splitFlags {} s = (flagsOf (flagRun s), unflagged s)                        (splitFlags_start)
    read raw worker = .ok r ↔ ReadFrom (trim raw) (trim worker) r                 (read_eq_ok_iff)
    (∃ r, ReadFrom text worker r) ↔ … IsPattern (unflagged text)             (exists_readFrom_iff)
    ReadFrom text worker r → Tight text → read r.mark r.worker = .ok r           (ReadFrom.reread)
-/

namespace AjpGateway

/-- The pattern that a shape makes of a context. -/
def Shape.spelled (context : String) : Shape → String
  | .exact => context
  | .under => context ++ "*"
  | .ending e => context ++ "*" ++ e

namespace Rule

variable {s p run text worker : List Char} {r : Rule}

/-! ## Flags -/

def isFlag (c : Char) : Bool := c == '!' || c == '-'

/-- The flags in front of a text. -/
def flagRun (s : List Char) : List Char := s.takeWhile isFlag

/-- What stands behind the flags. -/
def unflagged (s : List Char) : List Char := s.dropWhile isFlag

/-- The flags that a run switches on. -/
def flagsOf (run : List Char) : Flags := ⟨run.contains '!', run.contains '-'⟩

def flags (r : Rule) : Flags := ⟨r.excludes, r.disabled⟩

/-- Taking off flags adds to those taken off before. -/
theorem splitFlags_eq (f : Flags) (s : List Char) : splitFlags f s =
    (⟨f.excludes || (flagsOf (flagRun s)).excludes, f.disabled || (flagsOf (flagRun s)).disabled⟩,
      unflagged s) := by
  fun_induction splitFlags f s with
  | case1 f s ih => simp [ih, flagsOf, flagRun, unflagged, isFlag]
  | case2 f s ih => simp [ih, flagsOf, flagRun, unflagged, isFlag]
  | case3 f s hmark hdash =>
    cases s with
    | nil => simp [flagsOf, flagRun, unflagged]
    | cons c s =>
      have hc : isFlag c = false := by
        simp only [isFlag, Bool.or_eq_false_iff, beq_eq_false_iff_ne]
        exact ⟨fun h => hmark s (by rw [h]), fun h => hdash s (by rw [h])⟩
      simp [flagsOf, flagRun, unflagged, hc]

theorem splitFlags_start (s : List Char) :
    splitFlags {} s = (flagsOf (flagRun s), unflagged s) := by
  rw [splitFlags_eq, Bool.false_or, Bool.false_or]

theorem flagRun_append (hrun : ∀ c ∈ run, isFlag c = true) (s : List Char) :
    flagRun (run ++ s) = run ++ flagRun s :=
  List.takeWhile_append_of_pos hrun

theorem unflagged_append (hrun : ∀ c ∈ run, isFlag c = true) (s : List Char) :
    unflagged (run ++ s) = unflagged s :=
  List.dropWhile_append_of_pos hrun

theorem ne_nil_of_slash (h : p.head? = some '/') : p ≠ [] := by
  rintro rfl
  cases h

/-- A path has no flags. -/
theorem flagRun_path (h : p.head? = some '/') : flagRun p = [] ∧ unflagged p = p := by
  obtain ⟨q, rfl⟩ := List.head?_eq_some_iff.1 h
  exact ⟨rfl, rfl⟩

theorem flagRun_append_unflagged (s : List Char) : flagRun s ++ unflagged s = s :=
  List.takeWhile_append_dropWhile

theorem isBlank_of_isFlag {c : Char} (h : isFlag c = true) : Text.isBlank c = false := by
  simp only [isFlag, Bool.or_eq_true, beq_iff_eq] at h
  rcases h with rfl | rfl <;> decide

/-- Flags and a path begin with a flag or with the slash. -/
theorem head_of_flags_path (hrun : ∀ c ∈ run, isFlag c = true) (h : p.head? = some '/') (c : Char)
    (hc : (run ++ p).head? = some c) : Text.isBlank c = false := by
  cases run with
  | nil =>
    obtain rfl : '/' = c := Option.some.inj (h.symm.trans hc)
    decide
  | cons x xs =>
    obtain rfl : x = c := Option.some.inj hc
    exact isBlank_of_isFlag (hrun x List.mem_cons_self)

theorem isFlag_of_mem_text {f : Flags} {c : Char} (h : c ∈ f.text) : isFlag c = true := by
  obtain ⟨excludes, disabled⟩ := f
  cases excludes <;> cases disabled <;> simp_all [Flags.text, isFlag, or_comm]

theorem flagsOf_text (f : Flags) : flagsOf f.text = f := by
  obtain ⟨excludes, disabled⟩ := f
  cases excludes <;> cases disabled <;> rfl

/-! ## Patterns -/

/-- There is no wildcard, or a single one behind a slash and before nothing or an extension. -/
def Wildcarded (p : List Char) : Prop :=
  '*' ∉ p ∨ ∃ before after, p = before ++ '/' :: '*' :: after ∧ '*' ∉ before ∧ '*' ∉ after ∧
    (after = [] ∨ ∃ extension, after = '.' :: extension ∧ extension ≠ [] ∧ '/' ∉ extension)

/-- The paths that are patterns: `/a`, `/a/*` and `/a/*.x`. -/
structure IsPattern (p : List Char) : Prop where
  slash : p.head? = some '/'
  noMark : '?' ∉ p
  wildcard : Wildcarded p

theorem exists_patternOf_iff : (∃ context shape, PatternOf p context shape) ↔ Wildcarded p := by
  constructor
  · rintro ⟨context, shape, h⟩
    cases h with
    | exact plain => exact .inl plain
    | under plain slash =>
      obtain ⟨before, rfl⟩ := List.getLast?_eq_some_iff.1 slash
      refine .inr ⟨before, [], by simp, ?_, List.not_mem_nil, .inl rfl⟩
      exact fun h => plain (List.mem_append_left _ h)
    | @ending _ extension plain slash given single flat =>
      obtain ⟨before, rfl⟩ := List.getLast?_eq_some_iff.1 slash
      refine .inr ⟨before, '.' :: extension, by simp, ?_, ?_, .inr ⟨extension, rfl, given, flat⟩⟩
      · exact fun h => plain (List.mem_append_left _ h)
      · simpa using single
  · rintro (plain | ⟨before, after, rfl, hbefore, hafter, rfl | ⟨extension, rfl, given, flat⟩⟩)
    · exact ⟨p, .exact, .exact plain⟩
    · have hplain : '*' ∉ before ++ ['/'] := by simpa using hbefore
      refine ⟨before ++ ['/'], .under, ?_⟩
      simpa using PatternOf.under hplain List.getLast?_concat
    · have hplain : '*' ∉ before ++ ['/'] := by simpa using hbefore
      refine ⟨before ++ ['/'], .ending (String.ofList ('.' :: extension)), ?_⟩
      simpa using PatternOf.ending hplain List.getLast?_concat given
        (fun h => hafter (List.mem_cons_of_mem _ h)) flat

/-- A pattern is spelled by its context, which has no wildcard, and its shape, whose extension is
dotted. -/
theorem PatternOf.spelled {pattern context : String} {shape : Shape}
    (h : PatternOf pattern.toList context.toList shape) :
    pattern = shape.spelled context ∧ '*' ∉ context.toList ∧
      ∀ e, shape = .ending e →
        ∃ extension, e.toList = '.' :: extension ∧ extension ≠ [] ∧ '/' ∉ extension := by
  generalize hp : pattern.toList = p at h
  generalize hc : context.toList = c at h
  cases h with
  | exact plain =>
    refine ⟨String.toList_inj.1 (hp.trans hc.symm), plain, fun e he => ?_⟩
    cases he
  | under plain slash =>
    refine ⟨String.toList_inj.1 ?_, plain, fun e he => by cases he⟩
    rw [hp, Shape.spelled, String.toList_append, hc]
    rfl
  | @ending _ extension plain slash given single flat =>
    refine ⟨String.toList_inj.1 ?_, plain, fun e he => ?_⟩
    · rw [hp, Shape.spelled, String.toList_append, String.toList_append, hc, String.toList_ofList]
      simp
    · obtain rfl := Shape.ending.inj he
      exact ⟨extension, String.toList_ofList, given, flat⟩

/-! ## Reading -/

/-- The rule that a trimmed text and a trimmed name are read as. -/
structure ReadFrom (text worker : List Char) (r : Rule) : Prop where
  named : worker ≠ []
  noBlank : ∀ c ∈ worker, Text.isBlank c = false
  slash : (unflagged text).head? = some '/'
  noMark : '?' ∉ unflagged text
  pattern : r.pattern.toList = unflagged text
  shape : PatternOf (unflagged text) r.context.toList r.shape
  worker_eq : r.worker.toList = worker
  flags_eq : r.flags = flagsOf (flagRun text)

theorem read_eq_ok_iff {raw worker : String} : read raw worker = .ok r ↔
    ReadFrom (Text.trim raw.toList) (Text.trim worker.toList) r := by
  generalize htext : Text.trim raw.toList = text
  generalize hname : Text.trim worker.toList = name
  unfold read readParts
  rw [mapError_eq_ok_iff, htext, hname, splitFlags_start]
  dsimp only
  constructor
  · intro h
    split at h
    · cases h
    · next hnamed =>
      split at h
      · cases h
      · next hblank =>
        split at h
        · cases h
        · next hslash =>
          split at h
          · cases h
          · next hmark =>
            obtain ⟨⟨context, shape⟩, hshape, rfl⟩ := map_eq_ok_iff.1 h
            exact {
              named := hnamed
              noBlank := by simpa using hblank
              slash := not_not.1 hslash
              noMark := hmark
              pattern := String.toList_ofList
              shape := by simpa only [String.toList_ofList] using readShape_eq_ok_iff.1 hshape
              worker_eq := String.toList_ofList
              flags_eq := rfl }
  · intro h
    have hblank : ¬ name.any Text.isBlank = true := by simpa using h.noBlank
    rw [if_neg h.named, if_neg hblank, if_neg (not_not.2 h.slash), if_neg h.noMark]
    refine map_eq_ok_iff.2 ⟨_, readShape_eq_ok_iff.2 h.shape, ?_⟩
    obtain ⟨hexcludes, hdisabled⟩ := Flags.mk.inj h.flags_eq
    obtain ⟨pattern, shape, worker, context, excludes, disabled⟩ := r
    simp only [mk.injEq, ← h.pattern, ← h.worker_eq, String.ofList_toList, true_and]
    exact ⟨hexcludes.symm, hdisabled.symm⟩

/-- A rule is read exactly from a name and a pattern behind flags. -/
theorem exists_readFrom_iff : (∃ r, ReadFrom text worker r) ↔
    (worker ≠ [] ∧ ∀ c ∈ worker, Text.isBlank c = false) ∧ IsPattern (unflagged text) := by
  constructor
  · rintro ⟨r, h⟩
    exact ⟨⟨h.named, h.noBlank⟩, h.slash, h.noMark, exists_patternOf_iff.1 ⟨_, _, h.shape⟩⟩
  · rintro ⟨⟨named, noBlank⟩, hpattern⟩
    obtain ⟨context, shape, h⟩ := exists_patternOf_iff.2 hpattern.wildcard
    exact ⟨{
      pattern := String.ofList (unflagged text)
      shape
      worker := String.ofList worker
      context := String.ofList context
      excludes := (flagRun text).contains '!'
      disabled := (flagRun text).contains '-' }, {
        named
        noBlank
        slash := hpattern.slash
        noMark := hpattern.noMark
        pattern := String.toList_ofList
        shape := by simpa only [String.toList_ofList] using h
        worker_eq := String.toList_ofList
        flags_eq := rfl }⟩

/-- The rule as a text without its worker. -/
def mark (r : Rule) : String := String.ofList (r.flags.text ++ r.pattern.toList)

theorem text_eq (r : Rule) : r.text = r.mark ++ "=" ++ r.worker := by
  apply String.toList_inj.1
  cases hd : r.disabled <;> cases he : r.excludes <;>
    simp [text, mark, flags, Flags.text, hd, he]

theorem ReadFrom.tight_mark (h : ReadFrom text worker r) (ht : Text.Tight text) :
    Text.Tight (r.flags.text ++ r.pattern.toList) := by
  rw [h.pattern]
  have hne : unflagged text ≠ [] := ne_nil_of_slash h.slash
  constructor
  · exact head_of_flags_path (fun c hc => isFlag_of_mem_text hc) h.slash
  · intro c hc
    rw [List.getLast?_append_of_ne_nil _ hne] at hc
    refine ht.last c ?_
    rw [← flagRun_append_unflagged text, List.getLast?_append_of_ne_nil _ hne, hc]

/-- **A rule that is written again is read as itself.** -/
theorem ReadFrom.reread (h : ReadFrom text worker r) (ht : Text.Tight text) :
    read r.mark r.worker = .ok r := by
  have hflags : ∀ c ∈ r.flags.text, isFlag c = true := fun c hc => isFlag_of_mem_text hc
  have hpath := flagRun_path (p := r.pattern.toList) (by rw [h.pattern]; exact h.slash)
  rw [read_eq_ok_iff, mark, String.toList_ofList, Text.trim_eq_self_iff.2 (h.tight_mark ht),
    h.worker_eq, Text.trim_eq_self h.noBlank]
  have hbehind : unflagged (r.flags.text ++ r.pattern.toList) = unflagged text := by
    rw [unflagged_append hflags, hpath.2, h.pattern]
  exact { h with
    slash := by rw [hbehind]; exact h.slash
    noMark := by rw [hbehind]; exact h.noMark
    pattern := by rw [hbehind]; exact h.pattern
    shape := by rw [hbehind]; exact h.shape
    flags_eq := by rw [flagRun_append hflags, hpath.1, List.append_nil, flagsOf_text] }

/-- **The grammar of rules.**  A rule is read exactly where the worker has a name without blanks
and a pattern follows the flags; it has their parts, and what is written of it is read as it. -/
theorem read_grammatical (raw worker : String) :
    ((∃ r, read raw worker = .ok r) ↔
      (Text.trim worker.toList ≠ [] ∧ ∀ c ∈ Text.trim worker.toList, Text.isBlank c = false) ∧
        IsPattern (unflagged (Text.trim raw.toList))) ∧
    ∀ r, read raw worker = .ok r →
      r.worker = Text.trimmed worker ∧ r.pattern.toList = unflagged (Text.trim raw.toList) ∧
      r.pattern = r.shape.spelled r.context ∧ '*' ∉ r.context.toList ∧
      (∀ e, r.shape = .ending e →
        ∃ extension, e.toList = '.' :: extension ∧ extension ≠ [] ∧ '/' ∉ extension) ∧
      (r.excludes = true ↔ '!' ∈ flagRun (Text.trim raw.toList)) ∧
      (r.disabled = true ↔ '-' ∈ flagRun (Text.trim raw.toList)) ∧
      r.text = r.mark ++ "=" ++ r.worker ∧ read r.mark r.worker = .ok r := by
  constructor
  · simp only [read_eq_ok_iff]
    exact exists_readFrom_iff
  · intro r hr
    have h := read_eq_ok_iff.1 hr
    have hshape := h.shape
    rw [← h.pattern] at hshape
    obtain ⟨hspelled, hplain, hdotted⟩ := hshape.spelled
    obtain ⟨hexcludes, hdisabled⟩ := Flags.mk.inj h.flags_eq
    refine ⟨?_, h.pattern, hspelled, hplain, hdotted, ?_, ?_, text_eq r, ?_⟩
    · exact String.toList_inj.1 (h.worker_eq.trans String.toList_ofList.symm)
    · rw [hexcludes, List.contains_iff_mem]
    · rw [hdisabled, List.contains_iff_mem]
    · exact h.reread (Text.tight_trim _)

/-- Flags in any order and number are read, and written in one. -/
theorem read_grammatical_pages :
    ∃ r, read "  !-!/app/*.jsp " " w\t" = .ok r ∧ r.shape = .ending ".jsp" ∧
      r.mark = "-!/app/*.jsp" ∧ read r.mark r.worker = .ok r := by
  have hread : read "  !-!/app/*.jsp " " w\t" =
      .ok ⟨"/app/*.jsp", .ending ".jsp", "w", "/app/", true, true⟩ := by
    decide +kernel
  obtain ⟨-, -, -, -, -, -, -, -, hagain⟩ := (read_grammatical _ _).2 _ hread
  exact ⟨_, hread, rfl, by decide +kernel, hagain⟩

end Rule

end AjpGateway
