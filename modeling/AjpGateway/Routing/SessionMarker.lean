import AjpGateway.Text.Cut

/-!
# Session markers

A client without cookies carries its session in the path, as in `/a;jsessionid=1.r/b`.  The marker
plays no part in routing.
-/

namespace AjpGateway.SessionMarker

def word : List Char := ";jsessionid".toList

/-- The URI without its first marker, which reaches to the next slash. -/
def strip (uri : List Char) : List Char :=
  match Text.cutPhrase? word uri with
  | none => uri
  | some (before, after) => before ++ after.dropWhile (· != '/')

end AjpGateway.SessionMarker
