import AjpGateway.Proofs.Routing.Grammar

/-!
# Mounts with a bar

A mount with a bar stands for the rule before the bar and for a second one: the path of the first,
without the slashes at its end, and what follows the bar.  The second is put together from the text
as written and read on its own, so it is the one that is meant exactly if the two fit together: as a
rule, if no blank stands at the bar.  Where nothing is left of the path, flags behind the bar would
be taken for flags of the second rule.

    readMount raw worker = .ok [first, second] →
      (second lies under first at what follows the bar ↔ Seamless path tail)  (readMount_under_iff)
-/

namespace AjpGateway

namespace Rule

variable {path tail base : List Char} {worker : List Char} {first second : Rule}

/-- A path without the slashes at its end. -/
def stem (path : List Char) : List Char := Text.dropWhileEnd (· == '/') path

/-- The path before the bar, as written, and what follows it fit together. -/
inductive Seamless (path tail : List Char) : Prop where
  /-- no blank stands at the bar -/
  | tight (hstem : stem path ≠ []) (htail : tail ≠ [])
      (before : ∀ c, path.getLast? = some c → Text.isBlank c = false)
      (after : ∀ c, tail.head? = some c → Text.isBlank c = false)
  /-- nothing follows the bar; blanks and slashes may be dropped in either order -/
  | bare (hstem : stem path ≠ []) (htail : tail = [])
      (either : Text.trimEnd (stem path) = stem (Text.trimEnd path))
  /-- nothing is left of the path, and no flag follows the bar -/
  | root (hstem : stem path = []) (unflagged : flagRun (Text.trim tail) = [])

/-! ## Before the bar -/

/-- A path that blanks follow has its flags in front as before. -/
theorem flagRun_append_path {s b : List Char} (h : (unflagged s).head? = some '/') :
    flagRun (s ++ b) = flagRun s ∧ unflagged (s ++ b) = unflagged s ++ b := by
  have hrun : ∀ c ∈ flagRun s, isFlag c = true := fun c hc => List.mem_takeWhile_imp hc
  have hpath : (unflagged s ++ b).head? = some '/' := by
    rw [List.head?_append, h, Option.some_or]
  have hs : s ++ b = flagRun s ++ (unflagged s ++ b) := by
    rw [← List.append_assoc, flagRun_append_unflagged]
  obtain ⟨hnone, hall⟩ := flagRun_path hpath
  constructor
  · rw [hs, flagRun_append hrun, hnone, List.append_nil]
  · rw [hs, unflagged_append hrun, hall]

/-- What the rule before the bar has of the text as written. -/
structure Heads (base : List Char) (first : Rule) : Prop where
  flags : first.flags = flagsOf (flagRun base)
  slash : (unflagged base).head? = some '/'
  pattern : first.pattern.toList = Text.trimEnd (unflagged base)

theorem ReadFrom.heads (h : ReadFrom (Text.trim base) worker first)
    (hbase : ∀ c, base.head? = some c → Text.isBlank c = false) : Heads base first := by
  rw [Text.trim_eq_trimEnd hbase] at h
  have hlast : ∀ c, (Text.trimEnd base).getLast? = some c → Text.isBlank c = false :=
    fun c hc => Text.last_dropWhileEnd hc
  obtain ⟨b, hb, hblank⟩ := Text.exists_dropped Text.isBlank base
  change base = Text.trimEnd base ++ b at hb
  generalize Text.trimEnd base = t at h hb hlast
  subst hb
  obtain ⟨hrun, hpath⟩ := flagRun_append_path (b := b) h.slash
  have hne : unflagged t ≠ [] := ne_nil_of_slash h.slash
  -- the blanks at the end of the text are those at the end of its path
  have hkept : Text.trimEnd (unflagged t) = unflagged t := by
    refine Text.dropWhileEnd_eq_self_iff.2 fun c hc => hlast c ?_
    rw [← flagRun_append_unflagged t, List.getLast?_append_of_ne_nil _ hne, hc]
  exact {
    flags := by rw [h.flags_eq, hrun]
    slash := by rw [hpath, List.head?_append, h.slash, Option.some_or]
    pattern := by
      rw [h.pattern, hpath]
      exact ((Text.dropWhileEnd_append_of_forall hblank).trans hkept).symm }

/-! ## Behind the bar -/

theorem stem_eq_nil_iff : stem path = [] ↔ ∀ c ∈ path, c = '/' := by
  unfold stem
  rw [Text.dropWhileEnd_eq_rdropWhile, List.rdropWhile_eq_nil_iff]
  simp

/-- Flags and a path are trimmed at the end of the path alone. -/
theorem trim_flags_path {run : List Char} (hrun : ∀ c ∈ run, isFlag c = true)
    (h : path.head? = some '/') :
    Text.trim (run ++ path) = run ++ Text.trimEnd path ∧ (Text.trimEnd path).head? = some '/' := by
  have hslash : '/' ∈ path := List.mem_of_head? h
  have hne : Text.trimEnd path ≠ [] := by
    unfold Text.trimEnd
    rw [Text.dropWhileEnd_eq_rdropWhile, Ne, List.rdropWhile_eq_nil_iff]
    exact fun hall => absurd (hall '/' hslash) (by decide)
  constructor
  · rw [Text.trim_eq_trimEnd (head_of_flags_path hrun h)]
    exact Text.dropWhileEnd_append hne
  · exact (Text.head?_dropWhileEnd hne).trans h

/-- Where something is left of the path, the second rule has it and the flags of the first. -/
theorem second_of_stem {f : Flags} (hslash : path.head? = some '/') (hne : stem path ≠ [])
    (h : ReadFrom (Text.trim (f.text ++ stem path ++ tail)) worker second) :
    second.flags = f ∧ second.pattern.toList = Text.trimEnd (stem path ++ tail) := by
  have hrun : ∀ c ∈ f.text, isFlag c = true := fun c hc => isFlag_of_mem_text hc
  have hhead : (stem path ++ tail).head? = some '/' := by
    rw [List.head?_append, stem, Text.head?_dropWhileEnd hne, hslash, Option.some_or]
  obtain ⟨htrim, hpath⟩ := trim_flags_path hrun hhead
  rw [List.append_assoc, htrim] at h
  obtain ⟨hnone, hall⟩ := flagRun_path hpath
  constructor
  · rw [h.flags_eq, flagRun_append hrun, hnone, List.append_nil, flagsOf_text]
  · rw [h.pattern, unflagged_append hrun, hall]

/-- Behind a flag nothing is trimmed in front, so a path has to begin at once. -/
theorem trim_flags_tail {run : List Char} (hrun : ∀ c ∈ run, isFlag c = true)
    (htail : ∀ c, tail.getLast? = some c → Text.isBlank c = false)
    (h : (unflagged (Text.trim (run ++ tail))).head? = some '/') :
    Text.trim (run ++ tail) = run ++ Text.trim tail := by
  cases run with
  | nil => rfl
  | cons x xs =>
    have htight : Text.Tight (x :: xs ++ tail) := by
      constructor
      · intro c hc
        obtain rfl : x = c := Option.some.inj hc
        exact isBlank_of_isFlag (hrun x List.mem_cons_self)
      · intro c hc
        rcases List.eq_nil_or_concat tail with rfl | ⟨s, y, rfl⟩
        · rw [List.append_nil] at hc
          exact isBlank_of_isFlag (hrun c (List.mem_of_getLast? hc))
        · refine htail c ?_
          rwa [List.getLast?_append_of_ne_nil _ (by simp)] at hc
    rw [Text.trim_eq_self_iff.2 htight, unflagged_append hrun] at h
    have hstart : ∀ c, tail.head? = some c → Text.isBlank c = false := by
      rw [← flagRun_append_unflagged tail]
      exact head_of_flags_path (fun c hc => List.mem_takeWhile_imp hc) h
    rw [Text.trim_eq_self_iff.2 htight, Text.trim_eq_self_iff.2 ⟨hstart, htail⟩]

/-- Where nothing is left of the path, the second rule is read from the flags and what follows. -/
theorem second_of_root {f : Flags}
    (htail : ∀ c, tail.getLast? = some c → Text.isBlank c = false)
    (h : ReadFrom (Text.trim (f.text ++ tail)) worker second) :
    second.flags = flagsOf (f.text ++ flagRun (Text.trim tail)) ∧
      second.pattern.toList = unflagged (Text.trim tail) := by
  have hrun : ∀ c ∈ f.text, isFlag c = true := fun c hc => isFlag_of_mem_text hc
  rw [trim_flags_tail hrun htail h.slash] at h
  constructor
  · rw [h.flags_eq, flagRun_append hrun]
  · rw [h.pattern, unflagged_append hrun]

/-! ## Mounts -/

theorem exists_of_readMount_bar {raw worker : String} {rules : List Rule}
    (hbar : '|' ∈ raw.toList) (h : readMount raw worker = .ok rules) :
    ∃ base tail first second, Text.trim raw.toList = base ++ '|' :: tail ∧
      '|' ∉ base ∧ '|' ∉ tail ∧ rules = [first, second] ∧
      read (String.ofList base) worker = .ok first ∧
      read (String.ofList ((flagsOf (flagRun base)).text ++ stem (unflagged base) ++ tail)) worker =
        .ok second := by
  unfold readMount at h
  dsimp only at h
  split at h
  · next hcut =>
    have hcount := Text.count_trim (c := '|') (by decide) raw.toList
    rw [List.count_eq_zero.2 (Text.cutAt?_eq_none_iff.1 hcut)] at hcount
    exact absurd hbar (List.count_eq_zero.1 hcount.symm)
  · next base tail hcut =>
    obtain ⟨htext, hbase⟩ := Text.cutAt?_eq_some_iff.1 hcut
    split at h
    · cases h
    · next htail =>
      rw [splitFlags_start] at h
      dsimp only at h
      split at h
      · cases h
      · next first hfirst =>
        obtain ⟨second, hsecond, rfl⟩ := map_eq_ok_iff.1 h
        exact ⟨base, tail, first, second, htext, hbase, htail, rfl, hfirst, hsecond⟩

/-- The second rule has the flags of the first and lies under its path. -/
def Under (first second : Rule) (tail : List Char) : Prop :=
  second.flags = first.flags ∧
    second.pattern.toList = stem first.pattern.toList ++ Text.trim tail

section
variable (hfirst : Heads base first)

include hfirst

theorem under_iff_of_root (hstem : stem (unflagged base) = [])
    (hsecond : second.flags = flagsOf (first.flags.text ++ flagRun (Text.trim tail)) ∧
      second.pattern.toList = unflagged (Text.trim tail)) :
    Under first second tail ↔ flagRun (Text.trim tail) = [] := by
  -- a path of slashes alone ends in no blank
  have hpattern : first.pattern.toList = unflagged base := by
    rw [hfirst.pattern]
    refine Text.dropWhileEnd_eq_self_iff.2 fun c hc => ?_
    rw [stem_eq_nil_iff.1 hstem c (List.mem_of_getLast? hc)]
    decide
  unfold Under
  rw [hsecond.1, hsecond.2, hpattern, hstem, List.nil_append]
  have hsplit := flagRun_append_unflagged (Text.trim tail)
  constructor
  · rintro ⟨-, htail⟩
    rw [htail] at hsplit
    exact List.append_left_eq_self.1 hsplit
  · intro hnone
    rw [hnone, List.nil_append] at hsplit
    rw [hnone, List.append_nil, flagsOf_text]
    exact ⟨rfl, hsplit⟩

/-- Something follows the bar: a blank beside the bar stays in the second rule. -/
theorem under_iff_of_stem (htail : tail ≠ [])
    (hlast : ∀ c, tail.getLast? = some c → Text.isBlank c = false)
    (hsecond : second.flags = first.flags ∧
      second.pattern.toList = Text.trimEnd (stem (unflagged base) ++ tail)) :
    Under first second tail ↔
      (∀ c, (unflagged base).getLast? = some c → Text.isBlank c = false) ∧
        ∀ c, tail.head? = some c → Text.isBlank c = false := by
  have hpattern : Text.trimEnd (stem (unflagged base) ++ tail) = stem (unflagged base) ++ tail := by
    refine Text.dropWhileEnd_eq_self_iff.2 fun c hc => hlast c ?_
    rwa [List.getLast?_append_of_ne_nil _ htail] at hc
  unfold Under
  rw [hsecond.1, hsecond.2, hpattern, hfirst.pattern, and_iff_right rfl]
  constructor
  · intro h
    have hbefore : ∀ c, (unflagged base).getLast? = some c → Text.isBlank c = false := by
      intro c hc
      by_contra hblank
      -- behind a blank no slash is dropped, so the second rule would be longer than meant
      have hkeep : stem (unflagged base) = unflagged base := by
        refine Text.dropWhileEnd_eq_self_iff.2 fun d hd => ?_
        obtain rfl : c = d := Option.some.inj (hc.symm.trans hd)
        rw [beq_eq_false_iff_ne]
        rintro rfl
        exact hblank (by decide)
      have hlength := congrArg List.length h
      rw [hkeep, List.length_append, List.length_append] at hlength
      have hstem : (stem (Text.trimEnd (unflagged base))).length ≤
          (Text.trimEnd (unflagged base)).length := Text.length_dropWhileEnd_le _ _
      have htrim := Text.length_trim_le tail
      have hwhole : Text.trimEnd (unflagged base) = unflagged base :=
        (List.rdropWhile_prefix _ _).eq_of_length_le (by
          show (unflagged base).length ≤ (Text.trimEnd (unflagged base)).length
          omega)
      exact hblank (Text.dropWhileEnd_eq_self_iff.1 hwhole c hc)
    refine ⟨hbefore, ?_⟩
    rw [Text.trimEnd, Text.dropWhileEnd_eq_self_iff.2 hbefore] at h
    exact (Text.trim_eq_self_iff.1 (List.append_cancel_left h).symm).head
  · rintro ⟨hbefore, hafter⟩
    rw [Text.trim_eq_self_iff.2 ⟨hafter, hlast⟩]
    exact congrArg (stem · ++ tail) (Text.dropWhileEnd_eq_self_iff.2 hbefore).symm

/-- Nothing follows the bar. -/
theorem under_iff_of_nil
    (hsecond : second.flags = first.flags ∧
      second.pattern.toList = Text.trimEnd (stem (unflagged base))) :
    Under first second [] ↔
      Text.trimEnd (stem (unflagged base)) = stem (Text.trimEnd (unflagged base)) := by
  have hnil : Text.trim [] = [] := rfl
  unfold Under
  rw [hsecond.1, hsecond.2, hfirst.pattern, hnil, List.append_nil, and_iff_right rfl]

theorem under_iff_seamless (hlast : ∀ c, tail.getLast? = some c → Text.isBlank c = false)
    (hsecond : ReadFrom
      (Text.trim (first.flags.text ++ stem (unflagged base) ++ tail)) worker second) :
    Under first second tail ↔ Seamless (unflagged base) tail := by
  by_cases hstem : stem (unflagged base) = []
  · rw [hstem, List.append_nil] at hsecond
    rw [under_iff_of_root hfirst hstem (second_of_root hlast hsecond)]
    constructor
    · exact .root hstem
    · rintro (⟨hne, -⟩ | ⟨hne, -⟩ | ⟨-, hnone⟩)
      · exact absurd hstem hne
      · exact absurd hstem hne
      · exact hnone
  · have hsecond := second_of_stem hfirst.slash hstem hsecond
    by_cases htail : tail = []
    · subst htail
      rw [List.append_nil] at hsecond
      rw [under_iff_of_nil hfirst hsecond]
      constructor
      · exact .bare hstem rfl
      · rintro (⟨-, hne, -⟩ | ⟨-, -, heither⟩ | ⟨hnil, -⟩)
        · exact absurd rfl hne
        · exact heither
        · exact absurd hnil hstem
    · rw [under_iff_of_stem hfirst htail hlast hsecond]
      constructor
      · rintro ⟨hbefore, hafter⟩
        exact .tight hstem htail hbefore hafter
      · rintro (⟨-, -, hbefore, hafter⟩ | ⟨-, hnil, -⟩ | ⟨hnil, -⟩)
        · exact ⟨hbefore, hafter⟩
        · exact absurd hnil htail
        · exact absurd hnil hstem

end

/-- **What a mount with a bar stands for.**  There is one bar and there are two rules, of one worker;
the first is read before the bar.  The second has its flags and lies under its path, at what follows
the bar, exactly if the text fits together there. -/
theorem readMount_under_iff {raw worker : String} {rules : List Rule} (hbar : '|' ∈ raw.toList)
    (h : readMount raw worker = .ok rules) :
    raw.toList.count '|' = 1 ∧ ∃ base tail first second,
      Text.trim raw.toList = base ++ '|' :: tail ∧ '|' ∉ base ∧ rules = [first, second] ∧
      read (String.ofList base) worker = .ok first ∧ second.worker = first.worker ∧
      (second.flags = first.flags ∧
          second.pattern.toList = stem first.pattern.toList ++ Text.trim tail ↔
        Seamless (unflagged base) tail) := by
  obtain ⟨base, tail, first, second, htext, hbase, htail, rfl, hfirst, hsecond⟩ :=
    exists_of_readMount_bar hbar h
  have htight := Text.tight_trim raw.toList
  rw [htext] at htight
  have hread := read_eq_ok_iff.1 hfirst
  have hread' := read_eq_ok_iff.1 hsecond
  rw [String.toList_ofList] at hread hread'
  have hhead : ∀ c, base.head? = some c → Text.isBlank c = false := by
    intro c hc
    exact htight.head c (by rw [List.head?_append, hc, Option.some_or])
  have hlast : ∀ c, tail.getLast? = some c → Text.isBlank c = false := by
    intro c hc
    refine htight.last c ?_
    rw [List.getLast?_append_of_ne_nil _ (List.cons_ne_nil _ _),
      List.getLast?_cons_of_ne_nil (by rintro rfl; cases hc), hc]
  have hheads := hread.heads hhead
  refine ⟨?_, base, tail, first, second, htext, hbase, rfl, hfirst, ?_, ?_⟩
  · rw [← Text.count_trim (by decide), htext, List.count_append, List.count_eq_zero.2 hbase,
      List.count_cons_self, List.count_eq_zero.2 htail]
  · exact String.toList_inj.1 (hread'.worker_eq.trans hread.worker_eq.symm)
  · rw [← hheads.flags] at hread'
    exact under_iff_seamless hheads hlast hread'

/-- A blank before the bar stays in the second rule: what was to be excluded is not.  Without the
blank the rule is as meant. -/
theorem readMount_under_docs :
    readMount "!/docs |/*.pdf" "w" = .ok [⟨"/docs", .exact, "w", "/docs", true, false⟩,
      ⟨"/docs /*.pdf", .ending ".pdf", "w", "/docs /", true, false⟩] ∧
    ¬ Seamless "/docs ".toList "/*.pdf".toList ∧
    readMount "!/docs|/*.pdf" "w" = .ok [⟨"/docs", .exact, "w", "/docs", true, false⟩,
      ⟨"/docs/*.pdf", .ending ".pdf", "w", "/docs/", true, false⟩] ∧
    Seamless "/docs".toList "/*.pdf".toList := by
  have hapart : readMount "!/docs |/*.pdf" "w" =
      .ok [⟨"/docs", .exact, "w", "/docs", true, false⟩,
        ⟨"/docs /*.pdf", .ending ".pdf", "w", "/docs /", true, false⟩] := by
    decide +kernel
  have hunder : readMount "!/docs|/*.pdf" "w" =
      .ok [⟨"/docs", .exact, "w", "/docs", true, false⟩,
        ⟨"/docs/*.pdf", .ending ".pdf", "w", "/docs/", true, false⟩] := by
    decide +kernel
  refine ⟨hapart, ?_, hunder, ?_⟩
  · obtain ⟨-, base, tail, first, second, htext, hbase, hrules, -, -, hiff⟩ :=
      readMount_under_iff (by decide +kernel) hapart
    have hcut := Text.cutAt?_eq_some_iff.2 ⟨htext, hbase⟩
    rw [show Text.cutAt? '|' (Text.trim "!/docs |/*.pdf".toList) =
      some ("!/docs ".toList, "/*.pdf".toList) by decide +kernel] at hcut
    cases hcut
    cases hrules
    exact fun h => absurd (hiff.2 h).2 (by decide +kernel)
  · obtain ⟨-, base, tail, first, second, htext, hbase, hrules, -, -, hiff⟩ :=
      readMount_under_iff (by decide +kernel) hunder
    have hcut := Text.cutAt?_eq_some_iff.2 ⟨htext, hbase⟩
    rw [show Text.cutAt? '|' (Text.trim "!/docs|/*.pdf".toList) =
      some ("!/docs".toList, "/*.pdf".toList) by decide +kernel] at hcut
    cases hcut
    cases hrules
    exact hiff.1 (by decide +kernel)

end Rule

end AjpGateway
