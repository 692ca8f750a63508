import AjpGateway.Config.Properties
import AjpGateway.Proofs.Text.Joining
import AjpGateway.Proofs.Text.Trimming

/-!
# References in values

A value is read once, from its start to its end.  What a reference stands for is put in its place,
and reading goes on behind the reference: whatever was put in, no reference is found in it, and none
that it would form with the text around it.

    expand value? (n + 1) (s ++ r.written ++ t) = s ++ r.replaced value? ++ expand value? n t
                                                                              (expand_reference)
    expand value? n (s ++ refs) = s ++ (n refs replaced) ++ (the rest as written)
                                                                             (expand_references)
-/

namespace AjpGateway.Properties

/-- A text in which no reference begins. -/
def Literal (s : List Char) : Prop := ¬ ['$', '('] <:+: s

instance (s : List Char) : Decidable (Literal s) :=
  inferInstanceAs (Decidable (¬ ['$', '('] <:+: s))

/-- A reference, and the text between it and the next one. -/
structure Reference where
  name : List Char
  after : List Char
  closed : ')' ∉ name
  literal : Literal after

namespace Reference

def written (r : Reference) : List Char := '$' :: '(' :: (r.name ++ [')'])

/-- What comes in the place of the reference: its value, or the reference as written. -/
def replaced (value? : String → Option String) (r : Reference) : List Char :=
  match value? (String.ofList r.name) with
  | some v => v.toList
  | none => r.written

/-- The text with the references in it. -/
def text (refs : List Reference) : List Char := refs.flatMap fun r => r.written ++ r.after

/-- The text with something in the place of each reference. -/
def textOf (value? : String → Option String) (refs : List Reference) : List Char :=
  refs.flatMap fun r => r.replaced value? ++ r.after

end Reference

variable {value? : String → Option String} {start : List Char}

theorem expand_literal (h : Literal start) (n : Nat) : expand value? n start = start := by
  cases n with
  | zero => rfl
  | succ n => rw [expand, Text.cutPhrase?_eq_none_iff.2 h]

/-- One reference: what comes behind it is read next. -/
theorem expand_reference (h : Literal start) (r : Reference) (n : Nat) (rest : List Char) :
    expand value? (n + 1) (start ++ (r.written ++ rest)) =
      start ++ (r.replaced value? ++ expand value? n rest) := by
  have hphrase : Text.cutPhrase? ['$', '('] (start ++ (r.written ++ rest)) =
      some (start, r.name ++ ')' :: rest) := by
    have := Text.cutPhrase?_append (b := r.name ++ ')' :: rest) (c := '$') (w := ['('])
      (by decide) h
    rw [← this]
    simp [Reference.written]
  have hname : Text.cutAt? ')' (r.name ++ ')' :: rest) = some (r.name, rest) :=
    Text.cutAt?_eq_some_iff.2 ⟨rfl, r.closed⟩
  simp only [expand, hphrase, hname]
  rw [List.append_assoc]
  rfl

/-- By induction on the references, so far as they are looked at. -/
theorem expand_references (h : Literal start) (refs : List Reference) (n : Nat) :
    expand value? n (start ++ Reference.text refs) =
      start ++ (Reference.textOf value? (refs.take n) ++ Reference.text (refs.drop n)) := by
  induction refs generalizing start n with
  | nil =>
    rw [List.take_nil, List.drop_nil]
    exact (expand_literal (by simpa [Reference.text] using h) n).trans rfl
  | cons r refs ih =>
    cases n with
    | zero => rfl
    | succ n =>
      have htext : Reference.text (r :: refs) = r.written ++ (r.after ++ Reference.text refs) := by
        simp [Reference.text]
      rw [htext, expand_reference h, ih r.literal]
      simp [Reference.textOf]

/-- A line sets its key to its value with the references replaced. -/
theorem addLine_eq (p : Properties) (env : Environment) (number : Nat) {key value : List Char}
    (hkey : '=' ∉ key) (hkeyNe : Text.trim key ≠ []) (hvalue : Text.trim value ≠ []) :
    p.addLine env number (key ++ '=' :: value) =
      .ok (p.set (String.ofList (Text.trim key)) (p.substitute env (Text.trim value))) := by
  have hne : key ++ '=' :: value ≠ [] := by simp
  unfold addLine
  rw [if_neg hne, Text.cutAt?_eq_some_iff.2 ⟨rfl, hkey⟩]
  exact if_neg (not_or.2 ⟨hkeyNe, hvalue⟩)

/-- **References are replaced once.**  Each reference of a value, of which there are not too many,
gives way to the entry of its name, else to the variable of its name, else it stays; all else stays
as written.  A line that sets a key to such a value refers to the entries before it, that of its own
key among them. -/
theorem substitute_references (p : Properties) (env : Environment) {refs : List Reference}
    (hstart : Literal start) (hfew : refs.length ≤ maxReferences) :
    p.substitute env (start ++ Reference.text refs) =
      String.ofList (start ++
        Reference.textOf (fun name => (p.get? name).or (env name)) refs) ∧
    ∀ number key, '=' ∉ key → Text.trim key ≠ [] → start ++ Reference.text refs ≠ [] →
      Text.Tight (start ++ Reference.text refs) →
      p.addLine env number (key ++ '=' :: (start ++ Reference.text refs)) =
        .ok (p.set (String.ofList (Text.trim key)) (String.ofList (start ++
          Reference.textOf (fun name => (p.get? name).or (env name)) refs))) := by
  have hreplaced : p.substitute env (start ++ Reference.text refs) = String.ofList (start ++
      Reference.textOf (fun name => (p.get? name).or (env name)) refs) := by
    unfold substitute
    rw [expand_references hstart, List.take_of_length_le hfew, List.drop_of_length_le hfew]
    refine congrArg String.ofList (congrArg (start ++ ·) ?_)
    exact List.append_nil _
  refine ⟨hreplaced, fun number key hkey hkeyNe hne htight => ?_⟩
  have htrim := Text.trim_eq_self_iff.2 htight
  rw [addLine_eq p env number hkey hkeyNe (by rwa [htrim]), htrim, hreplaced]

/-- Values that hold references, or begin one that the text behind them would go on with. -/
def joining : Properties := ⟨[("open", "$"), ("self", "$(self)")]⟩

def home : Environment := fun name => if name = "HOME" then some "/home)" else none

/-- The references of `$(open)(self) $(self)$(HOME)$(nowhere)`. -/
def joined : List Reference := [
  ⟨"open".toList, "(self) ".toList, by decide +kernel, by decide +kernel⟩,
  ⟨"self".toList, [], by decide +kernel, by decide +kernel⟩,
  ⟨"HOME".toList, [], by decide +kernel, by decide +kernel⟩,
  ⟨"nowhere".toList, [], by decide +kernel, by decide +kernel⟩]

/-- What is put in forms references, by itself and with what follows; none of them is replaced. -/
theorem substitute_joining :
    Literal "go ".toList ∧ joined.length ≤ maxReferences ∧
    joining.substitute home "go $(open)(self) $(self)$(HOME)$(nowhere)".toList =
      "go $(self) $(self)/home)$(nowhere)" ∧
    joining.addLine home 3 "self=go $(open)(self) $(self)$(HOME)$(nowhere)".toList =
      .ok ⟨[("open", "$"), ("self", "go $(self) $(self)/home)$(nowhere)")]⟩ := by
  have hstart : Literal "go ".toList := by decide +kernel
  have hfew : joined.length ≤ maxReferences := by decide
  have htext : "go ".toList ++ Reference.text joined =
      "go $(open)(self) $(self)$(HOME)$(nowhere)".toList := by decide +kernel
  obtain ⟨hvalue, hline⟩ := substitute_references joining home hstart hfew
  rw [htext] at hvalue hline
  refine ⟨hstart, hfew, hvalue.trans (by decide +kernel), ?_⟩
  have hset := hline 3 "self".toList (by decide) (by decide +kernel) (by decide)
    (Text.trim_eq_self_iff.1 (by decide +kernel))
  exact hset.trans (by decide +kernel)

end AjpGateway.Properties
