import AjpGateway.Client.Request
import AjpGateway.Routing.SessionMarker

/-!
# Sessions of a request

A session is named `<id>.<route>`; the route names the member of a balancer that began it.  A
request carries sessions in the marker of its path and in cookies.
-/

namespace AjpGateway.Session

/-- The name of the cookie, in any case. -/
def cookieName : String := "JSESSIONID"

/-- Whether a character ends a session in a path. -/
def endsId (c : Char) : Bool := c == ';' || c == '/' || c == '?' || c == '#'

/-- The session in the path. -/
def ofPath? (uri : List Char) : Option (List Char) :=
  match Text.cutPhrase? SessionMarker.word uri with
  | some (_, '=' :: rest) =>
    let id := rest.takeWhile fun c => !endsId c
    if id = [] then none else some id
  | _ => none

def trimQuotes (s : List Char) : List Char := Text.dropWhileEnd (· == '"') (s.dropWhile (· == '"'))

/-- The session of a cookie `name=value`. -/
def ofCookie? (cookie : List Char) : Option (List Char) :=
  match Text.cutAt? '=' cookie with
  | none => none
  | some (name, value) =>
    if Text.sameIgnoringCase (String.ofList (Text.trim name)) cookieName then
      let id := trimQuotes (Text.trim value)
      if id = [] then none else some id
    else none

/-- The sessions of a cookie header. -/
def ofHeader (header : String) : List (List Char) :=
  (header.toList.splitOnP fun c => c == ';' || c == ',').filterMap ofCookie?

/-- Every session, the one in the path first. -/
def ids (r : ClientRequest) : List String :=
  ((ofPath? r.uri.toList).toList ++ (r.headerValues "cookie").flatMap ofHeader).map String.ofList

/-- What follows the first dot, unless it is empty. -/
def route? (id : String) : Option String :=
  match Text.cutAt? '.' id.toList with
  | some (_, c :: route) => some (String.ofList (c :: route))
  | _ => none

/-- The routes of the sessions, in order. -/
def routes (r : ClientRequest) : List String := (ids r).filterMap route?

end AjpGateway.Session
