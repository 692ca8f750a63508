import AjpGateway.Proofs.Config.Entries
import AjpGateway.Proofs.Config.References

/-!
# Layouts of a configuration

The same assignments can be laid out as text in many ways: with blank lines and comments, with
blanks around what is read, with line ends of either kind, and with a value over several lines.  All
layouts of a list of assignments are read as the entries that these leave when later ones override
earlier ones.

    Tight s → '#' ∉ s → bare (m.around s) = s                                    (bare_around)
    Broken start value lines → reading the lines adds the line start ++ value     (Broken.lines_eq)
    Laid as lines → reading the lines sets all of as                               (Laid.lines_eq)
    Layout as text → parse env text is what as leave                               (parse_layout)
-/

namespace AjpGateway.Properties

open Text (Tight isBlank)

variable {env : Environment} {start value : List Char}

/-! ## Lines as they are read -/

/-- What is read of a line: its text before a comment, without the blanks around. -/
def bare (line : List Char) : List Char := Text.trim (line.takeWhile (· != '#'))

theorem takeWhile_append_of_plain {s : List Char} (h : '#' ∉ s) (rest : List Char) :
    (s ++ rest).takeWhile (· != '#') = s ++ rest.takeWhile (· != '#') := by
  refine List.takeWhile_append_of_pos fun c hc => ?_
  rw [bne_iff_ne]
  rintro rfl
  exact h hc

theorem bare_comment {s : List Char} (h : '#' ∉ s) (t : List Char) :
    bare (s ++ '#' :: t) = Text.trim s := by
  rw [bare, takeWhile_append_of_plain h, List.takeWhile_cons_of_neg (by decide), List.append_nil]

theorem bare_plain {s : List Char} (h : '#' ∉ s) : bare s = Text.trim s := by
  have := takeWhile_append_of_plain h []
  rw [List.takeWhile_nil, List.append_nil] at this
  rw [bare, this]

theorem not_mem_of_blank {b : List Char} (h : ∀ c ∈ b, isBlank c = true) : '#' ∉ b :=
  fun hc => absurd (h '#' hc) (by decide)

theorem bare_append_blanks (line : List Char) {b : List Char} (h : ∀ c ∈ b, isBlank c = true) :
    bare (line ++ b) = bare line := by
  cases hcut : Text.cutAt? '#' line with
  | none =>
    have hline := Text.cutAt?_eq_none_iff.1 hcut
    have happend : '#' ∉ line ++ b := by
      rw [List.mem_append, not_or]
      exact ⟨hline, not_mem_of_blank h⟩
    rw [bare_plain happend, bare_plain hline, Text.trim_append_of_forall h]
  | some cut =>
    obtain ⟨rfl, hs⟩ := Text.cutAt?_eq_some_iff.1 hcut
    rw [List.append_assoc, List.cons_append, bare_comment hs, bare_comment hs]

/-- The entry that is open before a line: where it started, and its text. -/
def Reader.started (r : Reader) (number : Nat) : Nat := (r.open?.map Prod.fst).getD number

def Reader.head (r : Reader) : List Char := (r.open?.map Prod.snd).getD []

theorem Reader.line_eq (r : Reader) (number : Nat) (raw : List Char) :
    r.line env number raw =
      match dropFinal? '\\' (r.head ++ bare raw) with
      | some head => .ok { r with open? := some (r.started number, head) }
      | none => (r.props.addLine env (r.started number) (r.head ++ bare raw)).map fun p =>
          { props := p } := by
  obtain ⟨p, open?⟩ := r
  cases open? <;> rfl

/-- Lines are read by what is read of each. -/
theorem Reader.lines_congr {raws raws' : List (List Char)} (h : raws.map bare = raws'.map bare)
    (r : Reader) (number : Nat) :
    Reader.lines env r number raws = Reader.lines env r number raws' := by
  induction raws generalizing raws' r number with
  | nil =>
    obtain rfl := List.map_eq_nil_iff.1 h.symm
    rfl
  | cons raw raws ih =>
    obtain ⟨raw', rest, rfl, hraw, hrest⟩ := List.map_eq_cons_iff.1 h.symm
    have hline : r.line env number raw = r.line env number raw' := by
      rw [Reader.line_eq, Reader.line_eq, hraw]
    rw [Reader.lines, Reader.lines, hline]
    cases r.line env number raw' with
    | error e => rfl
    | ok r => exact ih hrest.symm r (number + 1)

/-! ## Lines as they are written -/

/-- What stands around the text of a line. -/
structure Margin where
  indent : List Char := []
  trail : List Char := []
  comment : List Char := []
  indent_blank : ∀ c ∈ indent, isBlank c = true := by exact List.all_eq_true.1 rfl
  trail_blank : ∀ c ∈ trail, isBlank c = true := by exact List.all_eq_true.1 rfl
  comment_marked : ∀ c, comment.head? = some c → c = '#' := by simp

def Margin.around (m : Margin) (text : List Char) : List Char :=
  m.indent ++ text ++ m.trail ++ m.comment

theorem bare_around (m : Margin) {text : List Char} (htight : Tight text) (hplain : '#' ∉ text) :
    bare (m.around text) = text := by
  have hbefore : '#' ∉ m.indent ++ text ++ m.trail := by
    simp only [List.mem_append, not_or]
    exact ⟨⟨not_mem_of_blank m.indent_blank, hplain⟩, not_mem_of_blank m.trail_blank⟩
  have htrim := Text.trim_around m.indent_blank htight m.trail_blank
  unfold Margin.around
  cases hc : m.comment with
  | nil => rw [List.append_nil, bare_plain hbefore, htrim]
  | cons c comment =>
    obtain rfl : c = '#' := m.comment_marked c (by rw [hc]; rfl)
    rw [bare_comment hbefore, htrim]

/-- A value behind the start of its line, as lines.  All but the last end in a backslash; a blank
may stand before a cut, and not behind it. -/
inductive Broken : (start value : List Char) → List (List Char) → Prop where
  | whole (m : Margin) {start value : List Char} : Broken start value [m.around (start ++ value)]
  | cut (m : Margin) {start piece rest : List Char} {lines : List (List Char)}
      (hrest : ∀ c, rest.head? = some c → isBlank c = false) (h : Broken [] rest lines) :
      Broken start (piece ++ rest) (m.around (start ++ piece ++ ['\\']) :: lines)

theorem dropFinal?_concat (c : Char) (s : List Char) : dropFinal? c (s ++ [c]) = some s := by
  simp [dropFinal?]

theorem dropFinal?_eq_none {c : Char} {s : List Char} (h : s.getLast? ≠ some c) :
    dropFinal? c s = none := by
  unfold dropFinal?
  split
  · rfl
  · next x r hr =>
    refine if_neg fun hx => h ?_
    rw [← List.head?_reverse, hr, hx]
    rfl

/-- The lines of a value are read as the one line that it was broken from. -/
theorem Broken.lines_eq {lines : List (List Char)} (h : Broken start value lines)
    (htight : Tight (start ++ value)) (hplain : '#' ∉ start ++ value) {r : Reader}
    (hlast : (r.head ++ (start ++ value)).getLast? ≠ some '\\') {p : Properties}
    (hadd : ∀ number, r.props.addLine env number (r.head ++ (start ++ value)) = .ok p)
    (number : Nat) (rest : List (List Char)) :
    Reader.lines env r number (lines ++ rest) =
      Reader.lines env { props := p } (number + lines.length) rest := by
  induction h generalizing r number with
  | @whole m start value =>
    have hline : r.line env number (m.around (start ++ value)) = .ok { props := p } := by
      rw [Reader.line_eq, bare_around m htight hplain, dropFinal?_eq_none hlast, hadd]
      rfl
    rw [List.singleton_append, Reader.lines, hline]
    rfl
  | @cut m start piece value lines hvalue h ih =>
    have htext : Tight (start ++ piece ++ ['\\']) := by
      refine ⟨fun c hc => ?_, fun c hc => ?_⟩
      · by_cases hnil : start ++ piece = []
        · rw [hnil] at hc
          cases hc
          decide
        · refine htight.head c ?_
          rw [← List.append_assoc, List.head?_append_of_ne_nil _ hnil]
          rwa [List.head?_append_of_ne_nil _ hnil] at hc
      · rw [List.getLast?_concat] at hc
        cases hc
        decide
    rw [← List.append_assoc] at htight hplain
    have hopen : '#' ∉ start ++ piece ++ ['\\'] := by
      rw [List.mem_append, not_or]
      exact ⟨fun hc => hplain (List.mem_append_left _ hc), by decide⟩
    -- the reader that is left has the text before the cut in hand
    have hline : r.line env number (m.around (start ++ piece ++ ['\\'])) =
        .ok { r with open? := some (r.started number, r.head ++ (start ++ piece)) } := by
      rw [Reader.line_eq, bare_around m htext hopen, ← List.append_assoc, dropFinal?_concat]
    have hrest : Tight ([] ++ value) := by
      refine ⟨hvalue, fun c hc => htight.last c ?_⟩
      rw [List.nil_append] at hc
      rw [List.getLast?_append, hc, Option.some_or]
    have hhead : r.head ++ (start ++ (piece ++ value)) =
        r.head ++ (start ++ piece) ++ ([] ++ value) := by simp
    rw [hhead] at hlast hadd
    rw [List.cons_append, Reader.lines, hline, List.length_cons, Nat.add_comm lines.length,
      ← Nat.add_assoc]
    exact ih hrest (fun hc => hplain (List.mem_append_right _ hc))
      (r := ⟨r.props, some (r.started number, r.head ++ (start ++ piece))⟩) hlast hadd (number + 1)

/-! ## Layouts -/

/-- A key and a value that can be laid out as text. -/
structure Assignment where
  key : String
  value : String
  key_ne : key.toList ≠ [] := by decide +kernel
  key_tight : Tight key.toList := by decide +kernel
  key_plain : '=' ∉ key.toList ∧ '#' ∉ key.toList := by decide +kernel
  value_ne : value.toList ≠ [] := by decide +kernel
  value_tight : Tight value.toList := by decide +kernel
  value_plain : '#' ∉ value.toList := by decide +kernel
  value_literal : Literal value.toList := by decide +kernel
  value_closed : value.toList.getLast? ≠ some '\\' := by decide +kernel

def Assignment.pair (a : Assignment) : String × String := (a.key, a.value)

/-- The lines of some assignments: blank lines and comments, and for each assignment the lines of
its value behind the key and `=`, with blanks around both. -/
inductive Laid : List Assignment → List (List Char) → Prop where
  | nil : Laid [] []
  | blank (m : Margin) {as : List Assignment} {lines : List (List Char)} (h : Laid as lines) :
      Laid as (m.around [] :: lines)
  | assignment (a : Assignment) {gap gap' : List Char} (hgap : ∀ c ∈ gap, isBlank c = true)
      (hgap' : ∀ c ∈ gap', isBlank c = true) {first : List (List Char)}
      (hfirst : Broken (a.key.toList ++ gap ++ '=' :: gap') a.value.toList first)
      {as : List Assignment} {lines : List (List Char)} (h : Laid as lines) :
      Laid (a :: as) (first ++ lines)

/-- A text that lays out the assignments.  No key or value then has a newline in it. -/
def Layout (as : List Assignment) (text : String) : Prop :=
  ∃ lines, Laid as lines ∧ Text.Lined lines text.toList

section
variable {a : Assignment} {gap gap' : List Char}

theorem tight_assignment : Tight (a.key.toList ++ gap ++ '=' :: gap' ++ a.value.toList) := by
  refine ⟨fun c hc => a.key_tight.head c ?_, fun c hc => a.value_tight.last c ?_⟩
  · rwa [List.append_assoc, List.append_assoc, List.head?_append_of_ne_nil _ a.key_ne] at hc
  · rwa [List.getLast?_append_of_ne_nil _ a.value_ne] at hc

variable (hgap : ∀ c ∈ gap, isBlank c = true) (hgap' : ∀ c ∈ gap', isBlank c = true)

include hgap hgap'

theorem plain_assignment : '#' ∉ a.key.toList ++ gap ++ '=' :: gap' ++ a.value.toList := by
  simp only [List.mem_append, List.mem_cons, not_or]
  exact ⟨⟨⟨a.key_plain.2, not_mem_of_blank hgap⟩, by decide, not_mem_of_blank hgap'⟩, a.value_plain⟩

theorem addLine_assignment (p : Properties) (number : Nat) :
    p.addLine env number (a.key.toList ++ gap ++ '=' :: gap' ++ a.value.toList) =
      .ok (p.set a.key a.value) := by
  have hkey : '=' ∉ a.key.toList ++ gap := by
    rw [List.mem_append, not_or]
    exact ⟨a.key_plain.1, fun hc => absurd (hgap '=' hc) (by decide)⟩
  have hkeyTrim : Text.trim (a.key.toList ++ gap) = a.key.toList := by
    rw [Text.trim_append_of_forall hgap, Text.trim_eq_self_iff.2 a.key_tight]
  have hvalueTrim : Text.trim (gap' ++ a.value.toList) = a.value.toList := by
    have := Text.trim_around hgap' a.value_tight (List.forall_mem_nil _)
    rwa [List.append_nil] at this
  have hvalue : p.substitute env a.value.toList = a.value := by
    rw [substitute, expand_literal a.value_literal, String.ofList_toList]
  rw [List.append_assoc, List.cons_append,
    addLine_eq p env number hkey (by rw [hkeyTrim]; exact a.key_ne)
      (by rw [hvalueTrim]; exact a.value_ne),
    hkeyTrim, hvalueTrim, hvalue, String.ofList_toList]

end

theorem Laid.lines_eq {as : List Assignment} {lines : List (List Char)} (h : Laid as lines)
    (p : Properties) (number : Nat) :
    Reader.lines env { props := p } number lines =
      .ok { props := p.setAll (as.map Assignment.pair) } := by
  induction h generalizing p number with
  | nil => rfl
  | blank m _ ih =>
    have htight : Tight [] := ⟨nofun, nofun⟩
    have hline : Reader.line { props := p } env number (m.around []) = .ok { props := p } := by
      rw [Reader.line_eq, bare_around m htight List.not_mem_nil]
      rfl
    rw [Reader.lines, hline]
    exact ih p (number + 1)
  | @assignment a gap gap' hgap hgap' first hfirst as lines _ ih =>
    have hlast : (a.key.toList ++ gap ++ '=' :: gap' ++ a.value.toList).getLast? ≠ some '\\' := by
      rw [List.getLast?_append_of_ne_nil _ a.value_ne]
      exact a.value_closed
    rw [hfirst.lines_eq tight_assignment (plain_assignment hgap hgap') (r := { props := p }) hlast
      (addLine_assignment hgap hgap' p)]
    exact ih (p.set a.key a.value) _

/-- **All layouts are read.**  However assignments are laid out as text, the text is read, and its
entries are the distinct keys in the order in which each first came, with the value that came
last. -/
theorem parse_layout (env : Environment) {as : List Assignment} {text : String}
    (h : Layout as text) :
    ∃ p, parse env text = .ok p ∧ Overridden (as.map Assignment.pair) p.entries := by
  obtain ⟨lines, hlaid, hlined⟩ := h
  have hbare : (Text.lines text.toList).map bare = lines.map bare :=
    hlined.map_lines fun line => bare_append_blanks line (by simp; decide)
  refine ⟨setAll {} (as.map Assignment.pair), ?_, overridden_setAll _⟩
  rw [parse, Reader.lines_congr hbare, hlaid.lines_eq]

def members : Assignment := { key := "list", value := "a,b" }

def port : Assignment := { key := "port", value := "=80" }

def membersAgain : Assignment := { key := "list", value := "c" }

/-- A comment, a blank line, line ends of both kinds, a broken value and an open last line. -/
theorem layout_members :
    Layout [members, port, membersAgain]
      "# a\r\n list\t= a,\\ \r\n  b # two\n\nport==80\nlist=c" := by
  let note : Margin := { comment := "# a".toList }
  let indented : Margin := { indent := [' '], trail := [' '] }
  let noted : Margin := { indent := [' ', ' '], trail := [' '], comment := "# two".toList }
  have hnone : ∀ c ∈ ([] : List Char), isBlank c = true := List.forall_mem_nil _
  have htab : ∀ c ∈ ['\t'], isBlank c = true := List.forall_mem_singleton.2 rfl
  have hspace : ∀ c ∈ [' '], isBlank c = true := List.forall_mem_singleton.2 rfl
  have hbroken : Broken (members.key.toList ++ ['\t'] ++ '=' :: [' ']) members.value.toList
      [indented.around (members.key.toList ++ ['\t'] ++ '=' :: [' '] ++ ['a', ','] ++ ['\\']),
        noted.around ([] ++ ['b'])] := by
    rw [show members.value.toList = ['a', ','] ++ ['b'] by decide +kernel]
    exact .cut indented (by simp; decide) (.whole noted)
  have hlaid := Laid.blank note (.assignment members htab hspace hbroken (.blank {}
    (.assignment port hnone hnone (.whole {})
      (.assignment membersAgain hnone hnone (.whole {}) .nil))))
  refine ⟨_, hlaid, ?_⟩
  have htext : "# a\r\n list\t= a,\\ \r\n  b # two\n\nport==80\nlist=c".toList =
      note.around [] ++ '\r' :: '\n' ::
      (indented.around (members.key.toList ++ ['\t'] ++ '=' :: [' '] ++ ['a', ','] ++ ['\\']) ++
        '\r' :: '\n' :: (noted.around ([] ++ ['b']) ++ '\n' :: (Margin.around {} [] ++ '\n' ::
        (Margin.around {} (port.key.toList ++ [] ++ '=' :: [] ++ port.value.toList) ++ '\n' ::
        Margin.around {}
          (membersAgain.key.toList ++ [] ++ '=' :: [] ++ membersAgain.value.toList))))) := by
    decide +kernel
  rw [htext]
  exact .returned (by decide +kernel) (.returned (by decide +kernel) (.newline (by decide +kernel)
    (.newline (by decide +kernel) (.newline (by decide +kernel)
      (.last (by decide +kernel) (by decide +kernel))))))

theorem parse_layout_members :
    Layout [members, port, membersAgain] "# a\r\n list\t= a,\\ \r\n  b # two\n\nport==80\nlist=c" ∧
    ∃ p, parse (fun _ => none) "# a\r\n list\t= a,\\ \r\n  b # two\n\nport==80\nlist=c" = .ok p ∧
      Overridden [("list", "a,b"), ("port", "=80"), ("list", "c")] p.entries :=
  ⟨layout_members, parse_layout _ layout_members⟩

example : parse (fun _ => none) "# a\r\n list\t= a,\\ \r\n  b # two\n\nport==80\nlist=c" =
    .ok ⟨[("list", "c"), ("port", "=80")]⟩ := by
  decide +kernel

end AjpGateway.Properties
