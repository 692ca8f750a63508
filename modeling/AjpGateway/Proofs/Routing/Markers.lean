import AjpGateway.Proofs.Text.Trimming
import AjpGateway.Routing.Table
import Mathlib.Data.List.Infix
import Mathlib.Logic.Function.Iterate

/-!
# Session markers and routing

A table looks at a URI without its first marker.  A URI with one marker goes where it would go
without it.  A second marker stays, and the exclusion of a path does not see the path behind it.

    ¬ Marked (plain uri)                                                       (not_marked_plain)
    ¬ Marked (strip uri) → t.resolve uri = t.resolve (plain uri)                  (resolve_plain)
    Marked (strip uri) → a table that denies `plain uri` may route `uri`          (resolve_plain)
-/

namespace AjpGateway

namespace SessionMarker

/-- A marker stands somewhere in the URI. -/
def Marked (uri : List Char) : Prop := word <:+: uri

instance (uri : List Char) : Decidable (Marked uri) := inferInstanceAs (Decidable (word <:+: uri))

/-- The URI from which markers were taken until none was left.  Each takes a character at least,
so there are no more of them than characters. -/
def plain (uri : List Char) : List Char := strip^[uri.length] uri

theorem strip_eq_self {uri : List Char} (h : ¬ Marked uri) : strip uri = uri := by
  unfold strip
  rw [Text.cutPhrase?_eq_none_iff.2 h]

theorem exists_cut {uri : List Char} (h : Marked uri) :
    ∃ before after, uri = before ++ word ++ after ∧
      strip uri = before ++ after.dropWhile (· != '/') := by
  cases hc : Text.cutPhrase? word uri with
  | none => exact absurd h (Text.cutPhrase?_eq_none_iff.1 hc)
  | some p =>
    refine ⟨p.1, p.2, Text.eq_of_cutPhrase? hc, ?_⟩
    unfold strip
    rw [hc]

theorem length_strip_lt {uri : List Char} (h : Marked uri) : (strip uri).length < uri.length := by
  obtain ⟨before, after, huri, hstrip⟩ := exists_cut h
  have hdrop := (List.dropWhile_suffix (· != '/') (l := after)).length_le
  have hword : word.length = 11 := rfl
  rw [hstrip, huri, List.length_append, List.length_append, List.length_append]
  omega

theorem not_marked_iterate {n : Nat} {uri : List Char} (hn : uri.length ≤ n) :
    ¬ Marked (strip^[n] uri) := by
  induction n generalizing uri with
  | zero =>
    rw [List.length_eq_zero_iff.1 (Nat.le_zero.1 hn)]
    decide
  | succ n ih =>
    rw [Function.iterate_succ_apply]
    by_cases h : Marked uri
    · exact ih (Nat.le_of_lt_succ (Nat.lt_of_lt_of_le (length_strip_lt h) hn))
    · -- nothing is taken off any more
      rw [strip_eq_self h, Function.iterate_fixed (strip_eq_self h)]
      exact h

theorem not_marked_plain (uri : List Char) : ¬ Marked (plain uri) :=
  not_marked_iterate (Nat.le_refl _)

theorem plain_eq_strip {uri : List Char} (h : ¬ Marked (strip uri)) : plain uri = strip uri := by
  unfold plain
  cases hl : uri.length with
  | zero =>
    rw [List.length_eq_zero_iff.1 hl]
    decide
  | succ n => rw [Function.iterate_succ_apply, Function.iterate_fixed (strip_eq_self h)]

theorem head?_strip {uri : List Char} (h : uri.head? = some '/') :
    (strip uri).head? = some '/' := by
  by_cases hm : Marked uri
  · obtain ⟨before, after, rfl, hstrip⟩ := exists_cut hm
    have hword : word.head? = some ';' := by decide
    rw [hstrip]
    cases before with
    | nil =>
      rw [List.nil_append, List.head?_append, hword] at h
      cases h
    | cons c before => exact h
  · rw [strip_eq_self hm]
    exact h

theorem head?_plain {uri : List Char} (h : uri.head? = some '/') :
    (plain uri).head? = some '/' := by
  unfold plain
  induction uri.length with
  | zero => exact h
  | succ n ih =>
    rw [Function.iterate_succ_apply']
    exact head?_strip ih

end SessionMarker

/-! ## Paths as patterns -/

/-- A path that can be mounted as it is: without a wildcard or a bar, and not ending in a blank. -/
structure Rule.Mountable (path : List Char) : Prop where
  slash : path.head? = some '/'
  noStar : '*' ∉ path
  noMark : '?' ∉ path
  noBar : '|' ∉ path
  noBlank : ∀ c, path.getLast? = some c → Text.isBlank c = false

namespace Rule

/-- The exclusion of a path that is mountable. -/
def exclusionOf (path : List Char) (worker : String) : Rule where
  pattern := String.ofList path
  shape := .exact
  worker := worker
  context := String.ofList path
  excludes := true
  disabled := false

theorem splitFlags_of_slash {path : List Char} (h : path.head? = some '/') (f : Flags) :
    splitFlags f path = (f, path) := by
  cases path with
  | nil => cases h
  | cons c path =>
    obtain rfl : c = '/' := Option.some.inj h
    unfold splitFlags
    rfl

theorem readMount_exclusion {path : List Char} (h : Mountable path) :
    readMount (String.ofList ('!' :: path)) "w" = .ok [exclusionOf path "w"] := by
  have hne : path ≠ [] := by
    rintro rfl
    cases h.slash
  have htrim : Text.trim ('!' :: path) = '!' :: path := by
    refine Text.trim_eq_self_iff.2 ⟨?_, fun c hc => h.noBlank c ?_⟩
    · intro c hc
      cases hc
      decide
    · rwa [List.getLast?_cons_of_ne_nil hne] at hc
  have hbar : Text.cutAt? '|' ('!' :: path) = none := by
    rw [Text.cutAt?_eq_none_iff, List.mem_cons, not_or]
    exact ⟨by decide, h.noBar⟩
  have hworker : Text.trim "w".toList = ['w'] := by decide
  have hflags : splitFlags {} ('!' :: path) = ({ excludes := true }, path) :=
    splitFlags_of_slash h.slash { excludes := true }
  have hshape : readShape path = .ok (path, .exact) := by
    unfold readShape
    rw [Text.cutAt?_eq_none_iff.2 h.noStar]
  have hread : readParts ('!' :: path) "w".toList = .ok (exclusionOf path "w") := by
    unfold readParts
    rw [hworker, htrim]
    simp only [hflags, h.slash, h.noMark, hshape]
    rfl
  unfold readMount
  simp only [String.toList_ofList, htrim, hbar, read, hread]
  rfl

end Rule

/-! ## Routing -/

namespace RuleTable

open SessionMarker

/-- URIs that leave the same path go the same way. -/
theorem resolve_congr {t : RuleTable} {uri uri' : String} (h : uri.toList.head? = some '/')
    (h' : uri'.toList.head? = some '/') (hs : strip uri.toList = strip uri'.toList) :
    t.resolve uri = t.resolve uri' := by
  unfold resolve
  rw [if_neg (not_not.2 h), if_neg (not_not.2 h'), hs]

/-- All paths go to a worker, but for one. -/
def allBut (path : List Char) : List Mount :=
  [⟨"/*", "w"⟩, ⟨String.ofList ('!' :: path), "w"⟩]

/-- The rule for all paths. -/
def everything : Rule := ⟨"/*", .under, "w", "/", false, false⟩

theorem build_allBut {path : List Char} (h : Rule.Mountable path) :
    build (allBut path) 1 =
      .ok { generation := 1, rules := [everything], exclusions := [Rule.exclusionOf path "w"],
            all := [everything, Rule.exclusionOf path "w"] } := by
  have hall : Rule.readMount "/*" "w" = .ok [everything] := by decide +kernel
  have hregister : registerMounts (allBut path) [] =
      .ok [everything, Rule.exclusionOf path "w"] := by
    simp only [allBut, registerMounts, hall, Rule.readMount_exclusion h]
    simp [register, everything, Rule.exclusionOf]
  rw [build, hregister]
  simp [Except.map, ofRules, everything, Rule.exclusionOf]

theorem accepts_everything {path : List Char} (h : path.head? = some '/') :
    everything.accepts path = true := by
  cases path with
  | nil => cases h
  | cons c path =>
    obtain rfl : c = '/' := Option.some.inj h
    rfl

theorem resolve_allBut {path : List Char} {uri : String} {t : RuleTable}
    (ht : build (allBut path) 1 = .ok t) (hm : Rule.Mountable path)
    (hu : uri.toList.head? = some '/') :
    t.resolve uri =
      if strip uri.toList = path then none else some ⟨"w", .under, 1, false⟩ := by
  cases (build_allBut hm).symm.trans ht
  have haccepts := accepts_everything (head?_strip hu)
  unfold resolve
  rw [if_neg (not_not.2 hu)]
  simp only [choose?, List.find?_cons, haccepts, Option.bind_some]
  simp only [excluded, List.any_cons, List.any_nil, Bool.or_false, Rule.exclusionOf, Rule.accepts,
    String.toList_ofList, everything]
  by_cases hp : strip uri.toList = path
  · simp [hp]
  · simp [hp]
    rfl

/-- **One marker never changes routing, and a second one may.**  If the first marker is the only
one, a URI goes where it goes without it, and is denied where that is.  If another stays, the URI is
routed by a table that denies it without its markers. -/
theorem resolve_plain {uri : String} (h : uri.toList.head? = some '/') :
    (¬ Marked (strip uri.toList) → ∀ t : RuleTable,
      t.resolve uri = t.resolve (String.ofList (strip uri.toList)) ∧
        t.resolve uri = t.resolve (String.ofList (plain uri.toList))) ∧
    (Marked (strip uri.toList) → Rule.Mountable (plain uri.toList) →
      ∃ t, build (allBut (plain uri.toList)) 1 = .ok t ∧
        t.resolve (String.ofList (plain uri.toList)) = none ∧
        t.resolve uri = some ⟨"w", .under, 1, false⟩) := by
  have hstrip := head?_strip h
  have hplain := head?_plain h
  constructor
  · intro hone t
    have hsame : t.resolve uri = t.resolve (String.ofList (strip uri.toList)) := by
      refine resolve_congr h ?_ ?_
      · rw [String.toList_ofList]
        exact hstrip
      · rw [String.toList_ofList, strip_eq_self hone]
    exact ⟨hsame, by rw [plain_eq_strip hone]; exact hsame⟩
  · intro hmore hm
    have ht := build_allBut hm
    refine ⟨_, ht, ?_, ?_⟩
    · have hhead : (String.ofList (plain uri.toList)).toList.head? = some '/' := by
        rw [String.toList_ofList]
        exact hplain
      rw [resolve_allBut ht hm hhead, String.toList_ofList, strip_eq_self (not_marked_plain _),
        if_pos rfl]
    · rw [resolve_allBut ht hm h, if_neg]
      intro he
      exact not_marked_plain uri.toList (he ▸ hmore)

/-- With one marker a page is denied as it is without, and with two it comes past its exclusion. -/
theorem resolve_secret_page :
    "/app;jsessionid=1/secret;jsessionid=2".toList.head? = some '/' ∧
      plain "/app;jsessionid=1/secret;jsessionid=2".toList = "/app/secret".toList ∧
      ∃ t, build [⟨"/*", "w"⟩, ⟨"!/app/secret", "w"⟩] 1 = .ok t ∧
        t.resolve "/app/secret" = none ∧
        t.resolve "/app;jsessionid=1/secret" = none ∧
        t.resolve "/app;jsessionid=1/secret;jsessionid=2" = some ⟨"w", .under, 1, false⟩ := by
  have hplain : plain "/app;jsessionid=1/secret;jsessionid=2".toList = "/app/secret".toList := by
    decide +kernel
  have hhead : "/app;jsessionid=1/secret;jsessionid=2".toList.head? = some '/' := by decide
  have hm : Rule.Mountable (plain "/app;jsessionid=1/secret;jsessionid=2".toList) := by
    rw [hplain]
    exact ⟨by decide, by decide, by decide, by decide, by simp; decide⟩
  obtain ⟨t, ht, hdenied, hrouted⟩ := (resolve_plain hhead).2 (by decide +kernel) hm
  rw [hplain] at ht hdenied
  have hone : strip "/app;jsessionid=1/secret".toList = "/app/secret".toList := by decide +kernel
  have hheadOne : "/app;jsessionid=1/secret".toList.head? = some '/' := by decide
  have hsame := ((resolve_plain hheadOne).1 (by rw [hone]; decide +kernel) t).1
  rw [hone] at hsame
  exact ⟨hhead, hplain, t, ht, hdenied, hsame.trans hdenied, hrouted⟩

end RuleTable

end AjpGateway
