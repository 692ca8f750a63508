import AjpGateway.Proofs.Routing.Patterns
import AjpGateway.Proofs.Text.Bytes
import Mathlib.Data.List.Infix

/-!
# Hidden extensions

A URI hides an extension where the bytes of the extension stand somewhere in it with a dot, a slash
or a blank behind them.  A rule looks at occurrences from the left that do not overlap.  So whatever
it recognises is hidden, and it misses what is hidden by an occurrence that overlaps an earlier one
only; that can happen for the extensions that overlap themselves in a certain way, and for each of
these it does.

    disguised e skip s → e occurs in s before a disguise                  (exists_of_disguised)
    e occurs in s before a disguise → disguised e skip s ∨ an earlier occurrence reaches into it
                                                                          (disguised_or_overlapped)
    Overlaps e → a text with e before a disguise is missed                            (missed_lead)
    read raw worker = .ok r → (r recognises all that it hides ↔ no extension of r Overlaps …)
                                                                             (recognises_all_iff)
-/

namespace AjpGateway.Rule

/-- Under the context of a rule for an extension the bytes of the extension stand somewhere, and a
dot, a slash or a blank stands behind them. -/
def Hides (r : Rule) (uri : String) : Prop :=
  ∃ e, r.shape = .ending e ∧ Text.utf8 r.context <+: Text.utf8 uri ∧
    ∃ before b after, Text.utf8 uri = before ++ Text.utf8 e ++ b :: after ∧
      b ∈ ([0x2E, 0x2F, 0x20] : Bytes)

/-- Two occurrences can overlap so that the first is not followed by a disguise: a start of the
extension is an end of it as well, and the character next to that start is none. -/
def Overlaps (e : List Char) : Prop :=
  ∃ n < e.length, 0 < n ∧ e.take n <:+ e ∧ e[n]?.any (!isDisguise ·)

instance (e : List Char) : Decidable (Overlaps e) := by
  unfold Overlaps
  infer_instance

example : ¬ Overlaps ".jsp".toList ∧ Overlaps ".ab.a".toList := by decide

section
variable {e s w p a b : List Char} {c d : Char} {skip : Nat}

theorem overlaps_iff : Overlaps e ↔
    ∃ border c rest lead, border ≠ [] ∧ e = border ++ c :: rest ∧ e = lead ++ border ∧
      isDisguise c = false := by
  constructor
  · rintro ⟨n, hn, hpos, ⟨lead, hlead⟩, hany⟩
    rw [List.getElem?_eq_getElem hn] at hany
    refine ⟨e.take n, e[n], e.drop (n + 1), lead, ?_, ?_, hlead.symm, by simpa using hany⟩
    · rw [Ne, List.take_eq_nil_iff]
      rintro (h | rfl)
      · omega
      · exact absurd hn (Nat.not_lt_zero n)
    · rw [← List.drop_eq_getElem_cons hn, List.take_append_drop]
  · rintro ⟨border, c, rest, lead, hne, rfl, hlead, hc⟩
    refine ⟨border.length, ?_, List.length_pos_iff.2 hne, ?_, by simpa using hc⟩
    · rw [List.length_append, List.length_cons]
      omega
    · rw [List.take_left]
      exact ⟨lead, hlead.symm⟩

/-! ## Scanning -/

/-- What is found is an occurrence before a disguise. -/
theorem exists_of_disguised (h : disguised e skip s = true) :
    ∃ a c b, s = a ++ e ++ c :: b ∧ isDisguise c = true := by
  induction s generalizing skip with
  | nil => cases skip <;> cases h
  | cons x r ih =>
    have hlater {k : Nat} (hr : disguised e k r = true) :
        ∃ a c b, x :: r = a ++ e ++ c :: b ∧ isDisguise c = true := by
      obtain ⟨a, c, b, rfl, hc⟩ := ih hr
      exact ⟨x :: a, c, b, rfl, hc⟩
    cases skip with
    | succ skip => exact hlater h
    | zero =>
      rw [disguised] at h
      cases hafter : Text.after? e (x :: r) with
      | none =>
        rw [hafter] at h
        exact hlater h
      | some after =>
        rw [hafter] at h
        have hs := Text.after?_eq_some_iff.1 hafter
        rcases Bool.or_eq_true_iff.1 h with hhead | hr
        · cases after with
          | nil => cases hhead
          | cons c b => exact ⟨[], c, b, hs, hhead⟩
        · exact hlater hr

/-- An occurrence before a disguise is found, unless an earlier one that is not before a disguise
reaches into it. -/
theorem disguised_or_overlapped (hc : isDisguise c = true) (hskip : skip ≤ a.length)
    (hs : s = a ++ e ++ c :: b) :
    disguised e skip s = true ∨
      ∃ x y d z, a = x ++ y ∧ y ≠ [] ∧ y.length < e.length ∧ s = x ++ e ++ d :: z ∧
        isDisguise d = false := by
  induction s generalizing skip a with
  | nil => simp at hs
  | cons h r ih =>
    -- what holds of the rest, behind one more character
    have hlater {k : Nat} {a' : List Char} (ha : a = h :: a') (hk : k ≤ a'.length)
        (hd : disguised e k r = true → disguised e skip (h :: r) = true) :
        disguised e skip (h :: r) = true ∨
          ∃ x y d z, a = x ++ y ∧ y ≠ [] ∧ y.length < e.length ∧ h :: r = x ++ e ++ d :: z ∧
            isDisguise d = false := by
      subst ha
      have hr : r = a' ++ e ++ c :: b := (List.cons.inj hs).2
      rcases ih hk hr with hfound | ⟨x, y, d, z, rfl, hy, hlt, hx, hplain⟩
      · exact .inl (hd hfound)
      · exact .inr ⟨h :: x, y, d, z, rfl, hy, hlt, by rw [hx]; rfl, hplain⟩
    cases skip with
    | succ skip =>
      cases a with
      | nil => cases hskip
      | cons h' a' =>
        obtain rfl : h = h' := (List.cons.inj hs).1
        exact hlater rfl (Nat.le_of_succ_le_succ hskip) id
    | zero =>
      cases hafter : Text.after? e (h :: r) with
      | none =>
        cases a with
        | nil =>
          rw [hs, List.nil_append, Text.after?_eq_none_iff] at hafter
          exact absurd (List.prefix_append _ _) hafter
        | cons h' a' =>
          obtain rfl : h = h' := (List.cons.inj hs).1
          refine hlater rfl (Nat.zero_le _) fun hd => ?_
          rw [disguised, hafter]
          exact hd
      | some after =>
        have hocc := Text.after?_eq_some_iff.1 hafter
        have hscan : disguised e 0 (h :: r) =
            (after.head?.any isDisguise || disguised e (e.length - 1) r) := by
          rw [disguised, hafter]
        by_cases hhead : after.head?.any isDisguise = true
        · exact .inl (by rw [hscan, hhead, Bool.true_or])
        cases a with
        | nil =>
          rw [hocc, List.nil_append] at hs
          rw [List.append_cancel_left hs] at hhead
          exact absurd hc hhead
        | cons h' a' =>
          obtain rfl : h = h' := (List.cons.inj hs).1
          by_cases hlt : (h :: a').length < e.length
          · -- the occurrence here reaches into the one that is looked for
            have hlen := congrArg List.length (hocc.symm.trans hs)
            simp only [List.length_append, List.length_cons] at hlen hlt
            cases after with
            | nil =>
              rw [List.length_nil] at hlen
              omega
            | cons d z =>
              exact .inr ⟨[], h :: a', d, z, rfl, List.cons_ne_nil _ _, hlt, hocc,
                Bool.eq_false_iff.2 hhead⟩
          · have hclear : e.length - 1 ≤ a'.length := by
              rw [List.length_cons] at hlt
              omega
            refine hlater rfl hclear fun hd => ?_
            rw [hscan, hd, Bool.or_true]

/-- Two occurrences that overlap, the first without a disguise, make the extension overlap. -/
theorem overlaps_of_two {x y z : List Char} (hy : y ≠ []) (hlt : y.length < e.length)
    (h : x ++ y ++ e ++ c :: b = x ++ e ++ d :: z) (hd : isDisguise d = false) : Overlaps e := by
  have h : y ++ (e ++ c :: b) = e ++ d :: z := by
    simpa only [List.append_assoc, List.append_cancel_left_eq] using h
  -- `e` starts with `y`, and what is left of it is the border
  have hstart : y <+: e ++ d :: z := h ▸ List.prefix_append y _
  obtain ⟨border, rfl⟩ :=
    List.prefix_of_prefix_length_le hstart (List.prefix_append e _) (Nat.le_of_lt hlt)
  have h : (y ++ border) ++ c :: b = border ++ d :: z := by
    rw [List.append_assoc y border (d :: z)] at h
    exact List.append_cancel_left h
  have hend : border <+: (y ++ border) ++ c :: b := h ▸ List.prefix_append border _
  obtain ⟨rest, hrest⟩ :=
    List.prefix_of_prefix_length_le hend (List.prefix_append _ _) (by simp)
  rw [overlaps_iff]
  cases rest with
  | nil =>
    have hlen := congrArg List.length hrest
    rw [List.length_append, List.length_append, List.length_nil] at hlen
    exact absurd (List.length_eq_zero_iff.1 (by omega)) hy
  | cons d' rest =>
    have hne : border ≠ [] := by
      rintro rfl
      rw [List.append_nil] at hlt
      exact absurd hlt (Nat.lt_irrefl _)
    rw [← hrest, List.append_assoc] at h
    obtain rfl : d' = d := (List.cons.inj (List.append_cancel_left h)).1
    exact ⟨border, d', rest, y, hne, hrest.symm, rfl, hd⟩

/-! ## What is missed -/

/-- An extension without a slash does not reach over one. -/
theorem after?_slash (he : '/' ∉ e) (p w : List Char) :
    Text.after? e (p ++ '/' :: w) = (Text.after? e (p ++ ['/'])).map (· ++ w) := by
  induction e generalizing p with
  | nil => simp [Text.after?]
  | cons x e ih =>
    obtain ⟨hx, he⟩ := not_or.1 (mt List.mem_cons.2 he)
    cases p with
    | nil => simp [Text.after?, Ne.symm hx]
    | cons y p =>
      by_cases hxy : x = y
      · simp only [List.cons_append, Text.after?, if_pos hxy]
        exact ih he p
      · simp only [List.cons_append, Text.after?, if_neg hxy, Option.map_none]

/-- What lies up to a slash and what lies behind it are looked at apart. -/
theorem disguised_slash (he : '/' ∉ e) (hne : e ≠ []) (hskip : skip ≤ p.length) :
    disguised e skip (p ++ '/' :: w) = (disguised e skip (p ++ ['/']) || disguised e 0 w) := by
  induction p generalizing skip with
  | nil =>
    obtain rfl : skip = 0 := Nat.le_zero.1 hskip
    cases e with
    | nil => exact absurd rfl hne
    | cons x e =>
      have hx : x ≠ '/' := fun h => he (h ▸ List.mem_cons_self)
      simp [disguised, Text.after?, hx]
  | cons c p ih =>
    cases skip with
    | succ skip => exact ih (Nat.le_of_succ_le_succ hskip)
    | zero =>
      have hafter := after?_slash he (c :: p) w
      simp only [List.cons_append] at hafter ⊢
      rw [disguised, disguised, hafter]
      cases hfound : Text.after? e (c :: (p ++ ['/'])) with
      | none => exact ih (Nat.zero_le _)
      | some after =>
        have hocc : c :: p ++ ['/'] = e ++ after := Text.after?_eq_some_iff.1 hfound
        have hsome : after ≠ [] := by
          rintro rfl
          rw [List.append_nil] at hocc
          exact he (hocc ▸ List.mem_append_right _ List.mem_cons_self)
        have hclear : e.length - 1 ≤ p.length := by
          have hlen := congrArg List.length hocc
          have hpos := List.length_pos_iff.2 hsome
          rw [List.length_append, List.length_append, List.length_cons, List.length_singleton]
            at hlen
          omega
        simp only [Option.map_some, List.head?_append_of_ne_nil _ hsome, ih hclear, Bool.or_assoc]

theorem disguised_skip (s w : List Char) : disguised e s.length (s ++ w) = disguised e 0 w := by
  induction s with
  | nil => rfl
  | cons c s ih => exact ih

/-- An extension that overlaps, written so that two occurrences do, with a dot behind the second. -/
theorem missed_lead {border rest lead : List Char} (hne : border ≠ [])
    (he : e = border ++ c :: rest) (hlead : e = lead ++ border) (hc : isDisguise c = false) :
    disguised e 0 (lead ++ e ++ ['.']) = false := by
  have hs : lead ++ e ++ ['.'] = e ++ c :: (rest ++ ['.']) :=
    calc lead ++ e ++ ['.'] = lead ++ (border ++ c :: rest) ++ ['.'] := by rw [← he]
      _ = (lead ++ border) ++ c :: (rest ++ ['.']) := by simp only [List.append_assoc, List.cons_append]
      _ = e ++ c :: (rest ++ ['.']) := by rw [← hlead]
  rw [hs]
  have hsecond : disguised e 0 (c :: (rest ++ ['.'])) = false := by
    rw [Bool.eq_false_iff]
    intro hd
    obtain ⟨a, d, b, h, -⟩ := exists_of_disguised hd
    -- there is no room for a second occurrence and its disguise
    have hpos := List.length_pos_iff.2 hne
    have hlen := congrArg List.length h
    simp only [he, List.length_append, List.length_cons, List.length_nil] at hlen
    omega
  cases hx : e with
  | nil =>
    rw [hx] at he
    exact absurd he (by simp)
  | cons x e' =>
    have hafter : Text.after? (x :: e') (x :: (e' ++ c :: (rest ++ ['.']))) =
        some (c :: (rest ++ ['.'])) :=
      Text.after?_eq_some_iff.2 rfl
    rw [hx] at hsecond
    rw [List.cons_append, disguised, hafter]
    simp only [List.head?_cons, Option.any_some, hc, Bool.false_or, List.length_cons,
      Nat.add_sub_cancel]
    rw [disguised_skip, hsecond]

end

/-! ## Rules -/

variable {r : Rule} {e : String} {uri : List Char}

theorem isDisguise_iff_encoding {c : Char} :
    isDisguise c = true ↔ ∃ b ∈ ([0x2E, 0x2F, 0x20] : Bytes), Text.encoding c = [b] := by
  have hchar (d : Char) (b : UInt8) (hd : Text.encoding d = [b]) : c = d ↔ Text.encoding c = [b] := by
    rw [← hd, Text.encoding_inj]
  simp only [isDisguise, Bool.or_eq_true, beq_iff_eq, List.mem_cons, List.not_mem_nil, or_false,
    exists_eq_or_imp, exists_eq_left]
  rw [hchar '.' 0x2E rfl, hchar '/' 0x2F rfl, hchar ' ' 0x20 rfl, or_assoc]

/-- An extension with its dot stands among the bytes where it stands among the characters. -/
theorem hides_iff {ext : List Char} (hs : r.shape = .ending e) (he : e.toList = '.' :: ext)
    (uri : String) :
    r.Hides uri ↔ r.context.toList <+: uri.toList ∧
      ∃ a c b, uri.toList = a ++ e.toList ++ c :: b ∧ isDisguise c = true := by
  have hbytes : Text.utf8 e = 0x2E :: Text.utf8Of ext := by
    rw [Text.utf8_eq, he, Text.utf8Of_cons]
    rfl
  unfold Hides
  rw [hs]
  simp only [Shape.ending.injEq, exists_eq_left', Text.utf8_prefix_iff, and_congr_right_iff, hbytes,
    he]
  intro _
  rw [Text.utf8_eq uri]
  constructor
  · rintro ⟨before, b, after, huri, hb⟩
    rw [List.append_assoc, List.cons_append] at huri
    obtain ⟨a, dot, t, huri', -, hdot, ht⟩ := Text.exists_cut_of_ascii huri (by decide)
    have hascii : b < 0x80 := by
      simp only [List.mem_cons, List.not_mem_nil, or_false] at hb
      rcases hb with rfl | rfl | rfl <;> decide
    obtain ⟨x, c, y, rfl, hx, hc, -⟩ := Text.exists_cut_of_ascii ht hascii
    obtain rfl : x = ext := Text.utf8Of_inj.1 hx
    obtain rfl : dot = '.' := Text.encoding_inj.1 (hdot.trans rfl)
    refine ⟨a, c, y, ?_, isDisguise_iff_encoding.2 ⟨b, hb, hc⟩⟩
    rw [huri', List.append_assoc, List.cons_append]
  · rintro ⟨a, c, b, huri, hc⟩
    obtain ⟨b', hb', hencoding⟩ := isDisguise_iff_encoding.1 hc
    refine ⟨Text.utf8Of a, b', Text.utf8Of b, ?_, hb'⟩
    rw [huri, Text.utf8Of_append, Text.utf8Of_append, Text.utf8Of_cons, Text.utf8Of_cons, hencoding]
    rfl

theorem recognisesDisguise_iff (hs : r.shape = .ending e) :
    r.recognisesDisguise uri = true ↔
      r.context.toList <+: uri ∧ disguised e.toList 0 uri = true := by
  simp [recognisesDisguise, hs, List.isPrefixOf_iff_prefix]

theorem PatternOf.exists_ending {p context : List Char} {shape : Shape}
    (h : PatternOf p context shape) (hs : shape = .ending e) :
    ∃ ext stem, e.toList = '.' :: ext ∧ '/' ∉ e.toList ∧ context = stem ++ ['/'] := by
  cases h with
  | exact => cases hs
  | under => cases hs
  | @ending context extension plain slash given single flat =>
    obtain rfl := Shape.ending.inj hs
    obtain ⟨stem, rfl⟩ := List.getLast?_eq_some_iff.1 slash
    refine ⟨extension, stem, String.toList_ofList, ?_, rfl⟩
    rw [String.toList_ofList, List.mem_cons, not_or]
    exact ⟨by decide, flat⟩

/-- **What is recognised is hidden, and a rule misses something hidden exactly if its extension
overlaps** (unless its own context is recognised, and with it all that lies under it). -/
theorem recognises_all_iff {raw worker : String} (h : read raw worker = .ok r) :
    (∀ uri : String, r.recognisesDisguise uri.toList = true → r.Hides uri) ∧
    ((∀ uri : String, r.Hides uri → r.recognisesDisguise uri.toList = true) ↔
      ∀ e, r.shape = .ending e → Overlaps e.toList →
        r.recognisesDisguise r.context.toList = true) := by
  have hpattern := exists_pattern h
  constructor
  · intro uri hr
    cases hs : r.shape with
    | exact => simp [recognisesDisguise, hs] at hr
    | under => simp [recognisesDisguise, hs] at hr
    | ending e =>
      obtain ⟨ext, -, he, -, -⟩ := hpattern.exists_ending hs
      obtain ⟨hcontext, hd⟩ := (recognisesDisguise_iff hs).1 hr
      exact (hides_iff hs he uri).2 ⟨hcontext, exists_of_disguised hd⟩
  constructor
  · intro hall e hs hover
    obtain ⟨ext, stem, he, hslash, hstem⟩ := hpattern.exists_ending hs
    obtain ⟨border, c, rest, lead, hne, hborder, hlead, hc⟩ := overlaps_iff.1 hover
    -- two occurrences that overlap, right behind the context
    obtain ⟨w, hw⟩ : ∃ w, w = lead ++ e.toList ++ ['.'] := ⟨_, rfl⟩
    have hhides : r.Hides (String.ofList (r.context.toList ++ w)) := by
      rw [hides_iff hs he, String.toList_ofList]
      refine ⟨List.prefix_append _ _, r.context.toList ++ lead, '.', [], ?_, rfl⟩
      rw [hw]
      simp only [List.append_assoc]
    have hfound := hall _ hhides
    rw [recognisesDisguise_iff hs, String.toList_ofList, hstem, List.append_assoc,
      List.singleton_append,
      disguised_slash hslash (by rw [he]; exact List.cons_ne_nil _ _) (Nat.zero_le _), hw,
      missed_lead hne hborder hlead hc, Bool.or_false, ← hstem] at hfound
    exact (recognisesDisguise_iff hs).2 ⟨List.prefix_refl _, hfound.2⟩
  · intro hover uri hhides
    obtain ⟨e, hs, -⟩ := id hhides
    obtain ⟨ext, stem, he, hslash, hstem⟩ := hpattern.exists_ending hs
    obtain ⟨hcontext, a, c, b, huri, hc⟩ := (hides_iff hs he uri).1 hhides
    refine (recognisesDisguise_iff hs).2 ⟨hcontext, ?_⟩
    rcases disguised_or_overlapped hc (Nat.zero_le _) huri with
      hd | ⟨x, y, d, z, rfl, hy, hlt, htwo, hplain⟩
    · exact hd
    · have hown := hover e hs (overlaps_of_two hy hlt (huri.symm.trans htwo) hplain)
      obtain ⟨w, hw⟩ := hcontext
      have hd := ((recognisesDisguise_iff hs).1 hown).2
      rw [← hw, hstem, List.append_assoc, List.singleton_append,
        disguised_slash hslash (by rw [he]; exact List.cons_ne_nil _ _) (Nat.zero_le _), ← hstem, hd,
        Bool.true_or]

/-- The second occurrence of the extension stands before a dot, but begins within the first. -/
theorem recognises_not_all_archive :
    ∃ r, read "/app/*.ab.a" "w" = .ok r ∧ r.Hides "/app/x.ab.ab.a." ∧
      r.recognisesDisguise "/app/x.ab.ab.a.".toList = false ∧
      r.recognisesDisguise "/app/x.ab.a.".toList = true ∧
      ¬ ∀ uri : String, r.Hides uri → r.recognisesDisguise uri.toList = true := by
  have hread : read "/app/*.ab.a" "w" =
      .ok ⟨"/app/*.ab.a", .ending ".ab.a", "w", "/app/", false, false⟩ := by
    decide +kernel
  refine ⟨_, hread, ?_, by decide +kernel, by decide +kernel, fun hall => ?_⟩
  · exact ⟨".ab.a", rfl, by decide +kernel, Text.utf8 "/app/x.ab", 0x2E, [], by decide +kernel,
      by decide⟩
  · have hcontext := (recognises_all_iff hread).2.1 hall ".ab.a" rfl (by decide)
    exact absurd hcontext (by decide +kernel)

end AjpGateway.Rule
