import AjpGateway.Decimal.Layout
import AjpGateway.Text.Hex

/-!
# JSON documents

A document with its compact and its indented text.  Objects keep the order they are built in;
`sorted` puts every object in the order of its keys.
-/

namespace AjpGateway

inductive Json where
  | null
  | bool (b : Bool)
  | nat (n : Nat)
  | float (x : Float)
  | str (s : String)
  | arr (items : List Json)
  | obj (fields : List (String × Json))

namespace Json

/-- The written form of one character inside a string. -/
def escapedChar (c : Char) : String :=
  match c with
  | '"' => "\\\""
  | '\\' => "\\\\"
  | '\n' => "\\n"
  | '\r' => "\\r"
  | '\t' => "\\t"
  | '\x08' => "\\b"
  | '\x0c' => "\\f"
  | c => if c.toNat < 0x20 then "\\u" ++ Text.paddedHex 4 c.toNat else c.toString

def text (s : String) : String := "\"" ++ String.join (s.toList.map escapedChar) ++ "\""

/-- The text of a value that holds no other. -/
def scalar : Json → String
  | null => "null"
  | bool b => if b then "true" else "false"
  | nat n => toString n
  | float x => Decimal.documentFloat.write x
  | str s => text s
  | arr _ => "[]"
  | obj _ => "\x7b\x7d"

mutual

/-- Without blanks. -/
def compact : Json → String
  | arr items => "[" ++ ",".intercalate (compactItems items) ++ "]"
  | obj fields => "\x7b" ++ ",".intercalate (compactFields fields) ++ "\x7d"
  | v => v.scalar

def compactItems : List Json → List String
  | [] => []
  | v :: rest => v.compact :: compactItems rest

def compactFields : List (String × Json) → List String
  | [] => []
  | (k, v) :: rest => (text k ++ ":" ++ v.compact) :: compactFields rest

end

def newline (depth : Nat) : String := "\n" ++ String.ofList (List.replicate (2 * depth) ' ')

mutual

/-- The text of a value at a nesting depth, one item a line, two blanks a level. -/
def indented (depth : Nat) : Json → String
  | arr (v :: rest) =>
    "[" ++ newline (depth + 1) ++ ("," ++ newline (depth + 1)).intercalate
      (indentedItems (depth + 1) (v :: rest)) ++ newline depth ++ "]"
  | obj (f :: rest) =>
    "\x7b" ++ newline (depth + 1) ++ ("," ++ newline (depth + 1)).intercalate
      (indentedFields (depth + 1) (f :: rest)) ++ newline depth ++ "\x7d"
  | v => v.scalar

def indentedItems (depth : Nat) : List Json → List String
  | [] => []
  | v :: rest => v.indented depth :: indentedItems depth rest

def indentedFields (depth : Nat) : List (String × Json) → List String
  | [] => []
  | (k, v) :: rest => (text k ++ ": " ++ v.indented depth) :: indentedFields depth rest

end

def pretty (v : Json) : String := v.indented 0

/-- Inserts a field before the first one with a greater key. -/
def insertField (f : String × Json) : List (String × Json) → List (String × Json)
  | [] => [f]
  | g :: rest => if f.1 < g.1 then f :: g :: rest else g :: insertField f rest

mutual

/-- Every object in the order of its keys. -/
def sorted : Json → Json
  | arr items => arr (sortedItems items)
  | obj fields => obj (sortedFields fields)
  | v => v

def sortedItems : List Json → List Json
  | [] => []
  | v :: rest => v.sorted :: sortedItems rest

def sortedFields : List (String × Json) → List (String × Json)
  | [] => []
  | (k, v) :: rest => insertField (k, v.sorted) (sortedFields rest)

end

def ofStr? : Option String → Json
  | none => null
  | some s => str s

end Json

end AjpGateway
