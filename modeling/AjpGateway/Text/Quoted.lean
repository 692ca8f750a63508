import AjpGateway.Text.Hex
import AjpGateway.Text.Printable

/-!
# Quoted text

Messages show a text between double quotes.  A quote and a backslash are preceded by a backslash,
line ends, tabs and NUL have letters of their own, and a character that would not show on its own
(unprintable, or a mark joining its neighbour) is written by its code point.
-/

namespace AjpGateway.Text

/-- The written form of one character. -/
def quotedChar (c : Char) : String :=
  match c with
  | '\x00' => "\\0"
  | '\t' => "\\t"
  | '\n' => "\\n"
  | '\r' => "\\r"
  | '"' => "\\\""
  | '\\' => "\\\\"
  | c => if isExtending c || isUnprintable c then "\\u\x7b" ++ hexOf c.toNat ++ "\x7d" else c.toString

def quoted (s : String) : String := "\"" ++ String.join (s.toList.map quotedChar) ++ "\""

end AjpGateway.Text
