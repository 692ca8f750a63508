/-!
# White space

The characters with the Unicode property White_Space, and trimming by them.  Every blank that
the gateway's texts know (around keys, values, rules and header fields) is one of these.

    (∀ c ∈ s, isBlank c = false) → trim s = s            (trim_eq_self)
-/

namespace AjpGateway.Text

/-- The ranges of the property White_Space, ends included. -/
def blankRanges : List (Nat × Nat) :=
  [(0x09, 0x0D), (0x20, 0x20), (0x85, 0x85), (0xA0, 0xA0), (0x1680, 0x1680), (0x2000, 0x200A),
   (0x2028, 0x2029), (0x202F, 0x202F), (0x205F, 0x205F), (0x3000, 0x3000)]

def isBlank (c : Char) : Bool :=
  blankRanges.any fun r => r.1 ≤ c.toNat && c.toNat ≤ r.2

def trimStart (s : List Char) : List Char := s.dropWhile isBlank

/-- Drops the characters of the class from the end. -/
def dropWhileEnd (p : Char → Bool) (s : List Char) : List Char := (s.reverse.dropWhile p).reverse

def trimEnd (s : List Char) : List Char := dropWhileEnd isBlank s

/-- The text without the blanks around it. -/
def trim (s : List Char) : List Char := trimEnd (trimStart s)

/-- `trim` on strings. -/
def trimmed (s : String) : String := String.ofList (trim s.toList)

/-! ## Lemmas -/

theorem dropWhileEnd_eq_self {p : Char → Bool} {s : List Char} (h : ∀ c ∈ s, p c = false) :
    dropWhileEnd p s = s := by
  have hr : s.reverse.dropWhile p = s.reverse := by
    cases hs : s.reverse with
    | nil => rfl
    | cons a r =>
      have : p a = false := h a (List.mem_reverse.1 (by rw [hs]; exact List.mem_cons_self))
      simp [this]
  simp [dropWhileEnd, hr]

theorem trim_eq_self {s : List Char} (h : ∀ c ∈ s, isBlank c = false) : trim s = s := by
  have hs : trimStart s = s := by
    cases s with
    | nil => rfl
    | cons a r => simp [trimStart, h a List.mem_cons_self]
  rw [trim, hs]
  exact dropWhileEnd_eq_self h

end AjpGateway.Text
