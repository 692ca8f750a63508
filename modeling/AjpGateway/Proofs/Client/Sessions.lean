import AjpGateway.Client.Session
import AjpGateway.Proofs.Routing.Markers
import AjpGateway.Proofs.Text.Joining

/-!
# Sessions as they are written

A request carries a session in the marker of its path and others in its cookies.  A header lists
cookies as `name=value`, each with blanks around name and value, the value bare or in quotes, with
semicolons or commas between them.  The sessions of a request are the one in the path and the values
of the session cookies, in the order in which they are written.

    c.Written s → ofCookie? s = if c.isSession then some c.value else none    (Written.ofCookie?)
    Listed cs s → the sessions of the header s are those of cs                  (Listed.ofHeader)
    InPath path? uri → ofPath? uri = path?                                       (InPath.ofPath?)
    InPath path? uri → Carried cs headers → ids = path? ++ sessions cs             (ids_carried)
-/

namespace AjpGateway.Session

open Text (Tight isBlank)
open SessionMarker (Marked)

/-- Whether a character stands between cookies. -/
def separates (x : Char) : Bool := x == ';' || x == ','

theorem separates_of_blank {x : Char} (h : isBlank x = true) : separates x = false := by
  by_contra hsep
  rw [Bool.not_eq_false, separates, Bool.or_eq_true, beq_iff_eq, beq_iff_eq] at hsep
  rcases hsep with rfl | rfl
  · exact absurd h (by decide)
  · exact absurd h (by decide)

theorem separates_of_not_mem {s : List Char} (hsemi : ';' ∉ s) (hcomma : ',' ∉ s) :
    ∀ x ∈ s, separates x = false := by
  intro x hx
  rw [separates, Bool.or_eq_false_iff, beq_eq_false_iff_ne, beq_eq_false_iff_ne]
  exact ⟨fun h => hsemi (h ▸ hx), fun h => hcomma (h ▸ hx)⟩

/-! ## Cookies -/

/-- A name and a value that a cookie header can list. -/
structure Cookie where
  name : List Char
  value : List Char
  name_tight : Tight name := by decide +kernel
  name_plain : '=' ∉ name ∧ ';' ∉ name ∧ ',' ∉ name := by decide +kernel
  value_tight : Tight value := by decide +kernel
  value_plain : ';' ∉ value ∧ ',' ∉ value ∧ '"' ∉ value := by decide +kernel

namespace Cookie

/-- Whether the cookie carries a session: its name says so, in any case, and it has a value. -/
def isSession (c : Cookie) : Bool :=
  Text.sameIgnoringCase (String.ofList c.name) cookieName && !c.value.isEmpty

/-- How a value may be written. -/
inductive Shown (value : List Char) : List Char → Prop where
  | bare : Shown value value
  | quoted : Shown value (['"'] ++ value ++ ['"'])

/-- How a cookie may be written. -/
inductive Written (c : Cookie) : List Char → Prop where
  | pair {a b d e shown : List Char} (ha : ∀ x ∈ a, isBlank x = true)
      (hb : ∀ x ∈ b, isBlank x = true) (hd : ∀ x ∈ d, isBlank x = true)
      (he : ∀ x ∈ e, isBlank x = true) (hshown : Shown c.value shown) :
      Written c (a ++ c.name ++ b ++ '=' :: (d ++ shown ++ e))

variable {c : Cookie} {shown s : List Char}

theorem Shown.tight (h : Shown c.value shown) : Tight shown := by
  cases h with
  | bare => exact c.value_tight
  | quoted =>
    refine ⟨fun x hx => ?_, fun x hx => ?_⟩
    · cases hx
      decide
    · rw [List.getLast?_concat] at hx
      cases hx
      decide

theorem Shown.trimQuotes (h : Shown c.value shown) : trimQuotes shown = c.value := by
  have hnone : ∀ x ∈ c.value, (x == '"') = false := by
    intro x hx
    rw [beq_eq_false_iff_ne]
    rintro rfl
    exact c.value_plain.2.2 hx
  have hhead : ∀ x, c.value.head? = some x → (x == '"') = false :=
    fun x hx => hnone x (List.mem_of_mem_head? hx)
  have hlast : ∀ x, c.value.getLast? = some x → (x == '"') = false :=
    fun x hx => hnone x (List.mem_of_mem_getLast? hx)
  cases h with
  | bare =>
    have := Text.dropWhileEnd_dropWhile_around (List.forall_mem_nil _) hhead hlast
      (List.forall_mem_nil _)
    rwa [List.nil_append, List.append_nil] at this
  | quoted => exact Text.dropWhileEnd_dropWhile_around (by simp) hhead hlast (by simp)

theorem Shown.not_separated (h : Shown c.value shown) : ∀ x ∈ shown, separates x = false := by
  have hbare := separates_of_not_mem c.value_plain.1 c.value_plain.2.1
  have hquote : ∀ x ∈ ['"'], separates x = false := List.forall_mem_singleton.2 rfl
  cases h with
  | bare => exact hbare
  | quoted =>
    exact List.forall_mem_append.2 ⟨List.forall_mem_append.2 ⟨hquote, hbare⟩, hquote⟩

theorem Written.ofCookie? (h : c.Written s) :
    ofCookie? s = if c.isSession then some c.value else none := by
  obtain @⟨a, b, d, e, shown, ha, hb, hd, he, hshown⟩ := h
  have hname : '=' ∉ a ++ c.name ++ b := by
    have hblank {l : List Char} (hl : ∀ x ∈ l, isBlank x = true) : '=' ∉ l :=
      fun hx => absurd (hl '=' hx) (by decide)
    simp only [List.mem_append, not_or]
    exact ⟨⟨hblank ha, c.name_plain.1⟩, hblank hb⟩
  unfold Session.ofCookie?
  rw [Text.cutAt?_eq_some_iff.2 ⟨rfl, hname⟩]
  simp only [Text.trim_around ha c.name_tight hb, Text.trim_around hd hshown.tight he,
    hshown.trimQuotes, isSession]
  by_cases hsame : Text.sameIgnoringCase (String.ofList c.name) cookieName = true <;>
    by_cases hvalue : c.value = [] <;> simp [hsame, hvalue]

/-- What separates cookies does not stand in one. -/
theorem Written.not_separated (h : c.Written s) : ∀ x ∈ s, separates x = false := by
  obtain @⟨a, b, d, e, shown, ha, hb, hd, he, hshown⟩ := h
  have hname := separates_of_not_mem c.name_plain.2.1 c.name_plain.2.2
  intro x hx
  simp only [List.mem_append, List.mem_cons] at hx
  rcases hx with ((hx | hx) | hx) | rfl | (hx | hx) | hx
  · exact separates_of_blank (ha x hx)
  · exact hname x hx
  · exact separates_of_blank (hb x hx)
  · decide
  · exact separates_of_blank (hd x hx)
  · exact hshown.not_separated x hx
  · exact separates_of_blank (he x hx)

end Cookie

/-! ## Headers -/

/-- The text of a header that lists some cookies.  A separator may stand behind the last of them. -/
inductive Listed : List Cookie → List Char → Prop where
  | none {b : List Char} (hb : ∀ x ∈ b, isBlank x = true) : Listed [] b
  | last {c : Cookie} {s : List Char} (h : c.Written s) : Listed [c] s
  | cons {c : Cookie} {s rest : List Char} {sep : Char} {cs : List Cookie} (h : c.Written s)
      (hsep : sep = ';' ∨ sep = ',') (hrest : Listed cs rest) : Listed (c :: cs) (s ++ sep :: rest)

/-- The cookies in the headers of a request, in order.  A header of another name has none. -/
inductive Carried : List Cookie → List (String × String) → Prop where
  | nil : Carried [] []
  | cookies {name value : String} {cs cs' : List Cookie} {headers : List (String × String)}
      (hname : Text.sameIgnoringCase name "cookie" = true) (hlisted : Listed cs value.toList)
      (h : Carried cs' headers) : Carried (cs ++ cs') ((name, value) :: headers)
  | other {name value : String} {cs : List Cookie} {headers : List (String × String)}
      (hname : Text.sameIgnoringCase name "cookie" = false) (h : Carried cs headers) :
      Carried cs ((name, value) :: headers)

/-- The values of the session cookies. -/
def sessions (cs : List Cookie) : List (List Char) := (cs.filter Cookie.isSession).map Cookie.value

theorem sessions_append (cs cs' : List Cookie) :
    sessions (cs ++ cs') = sessions cs ++ sessions cs' := by
  simp [sessions]

theorem Cookie.Written.filterMap_ofCookie? {c : Cookie} {s : List Char} (h : c.Written s) :
    [s].filterMap Session.ofCookie? = sessions [c] := by
  cases hc : c.isSession <;> simp [sessions, h.ofCookie?, hc]

theorem Listed.ofHeader {cs : List Cookie} {header : String} (h : Listed cs header.toList) :
    ofHeader header = sessions cs := by
  show (header.toList.splitOnP separates).filterMap ofCookie? = sessions cs
  generalize header.toList = s at h
  induction h with
  | @none b hb =>
    have hpair : '=' ∉ b := fun hx => absurd (hb '=' hx) (by decide)
    rw [List.splitOnP_eq_singleton fun x hx => separates_of_blank (hb x hx)]
    simp [ofCookie?, Text.cutAt?_eq_none_iff.2 hpair, sessions]
  | last h =>
    rw [List.splitOnP_eq_singleton h.not_separated, h.filterMap_ofCookie?]
  | @cons c s rest sep cs h hsep _ ih =>
    have hsep : separates sep = true := by
      rcases hsep with rfl | rfl <;> rfl
    rw [List.splitOnP_append_cons s rest hsep, List.splitOnP_eq_singleton h.not_separated,
      List.filterMap_append, h.filterMap_ofCookie?, ih]
    exact (sessions_append [c] cs).symm

theorem Carried.headerValues {cs : List Cookie} {r : ClientRequest} (h : Carried cs r.headers) :
    (r.headerValues "cookie").flatMap ofHeader = sessions cs := by
  unfold ClientRequest.headerValues
  generalize r.headers = headers at h
  induction h with
  | nil => rfl
  | cookies hname hlisted _ ih =>
    rw [List.filter_cons, if_pos hname, List.map_cons, List.flatMap_cons, hlisted.ofHeader, ih,
      sessions_append]
  | other hname _ ih =>
    rw [List.filter_cons, if_neg (Bool.eq_false_iff.1 hname), ih]

/-! ## Paths -/

/-- The session in a path, behind its first marker, if the path has a marker. -/
inductive InPath : Option (List Char) → List Char → Prop where
  | none {uri : List Char} (h : ¬ Marked uri) : InPath none uri
  | marked {before id rest : List Char} (hbefore : ¬ Marked before) (hne : id ≠ [])
      (hid : ∀ c ∈ id, endsId c = false) (hrest : ∀ c, rest.head? = some c → endsId c = true) :
      InPath (some id) (before ++ (SessionMarker.word ++ '=' :: (id ++ rest)))

theorem InPath.ofPath? {path? : Option (List Char)} {uri : List Char} (h : InPath path? uri) :
    ofPath? uri = path? := by
  unfold Session.ofPath?
  cases h with
  | none h => rw [Text.cutPhrase?_eq_none_iff.2 h]
  | @marked before id rest hbefore hne hid hrest =>
    have hcut : Text.cutPhrase? SessionMarker.word
        (before ++ (SessionMarker.word ++ '=' :: (id ++ rest))) =
        some (before, '=' :: (id ++ rest)) := Text.cutPhrase?_append (by decide) hbefore
    have hstop : rest.takeWhile (fun c => !endsId c) = [] := by
      cases rest with
      | nil => rfl
      | cons c rest => rw [List.takeWhile_cons_of_neg (by simp [hrest c rfl])]
    have htake : (id ++ rest).takeWhile (fun c => !endsId c) = id := by
      rw [List.takeWhile_append_of_pos fun c hc => by rw [hid c hc]; rfl, hstop, List.append_nil]
    rw [hcut]
    simp [htake, hne]

/-! ## Requests -/

theorem route?_eq_some_iff {id route : String} :
    route? id = some route ↔
      ∃ before, id.toList = before ++ '.' :: route.toList ∧ '.' ∉ before ∧ route.toList ≠ [] := by
  simp only [← and_assoc, ← Text.cutAt?_eq_some_iff]
  unfold route?
  rcases Text.cutAt? '.' id.toList with _ | ⟨first, _ | ⟨c, rest⟩⟩
  · simp
  · -- nothing follows the dot
    simp only [reduceCtorEq, Option.some.injEq, Prod.mk.injEq, false_iff, not_exists, not_and]
    rintro before ⟨-, hnil⟩ hne
    exact hne hnil.symm
  · simp only [Option.some.injEq, Prod.mk.injEq]
    constructor
    · rintro rfl
      exact ⟨first, ⟨rfl, String.toList_ofList.symm⟩, by simp⟩
    · rintro ⟨-, ⟨-, hroute⟩, -⟩
      rw [hroute, String.ofList_toList]

/-- **The sessions of a request.**  They are the one in the path, if it has one, and the values of
the session cookies that are not empty, in the order of the headers and of the cookies in each; no
other header or cookie adds to them.  The routes are what follows the first dot of each, where
something does. -/
theorem ids_carried {r : ClientRequest} {path? : Option (List Char)} {cs : List Cookie}
    (hpath : InPath path? r.uri.toList) (hcookies : Carried cs r.headers) :
    ids r = (path?.toList ++ sessions cs).map String.ofList ∧
    routes r = ((path?.toList ++ sessions cs).map String.ofList).filterMap route? ∧
    ∀ id route, route? id = some route ↔
      ∃ before, id.toList = before ++ '.' :: route.toList ∧ '.' ∉ before ∧ route.toList ≠ [] := by
  have hids : ids r = (path?.toList ++ sessions cs).map String.ofList := by
    unfold ids
    rw [hpath.ofPath?, hcookies.headerValues]
  refine ⟨hids, ?_, fun id route => route?_eq_some_iff⟩
  rw [routes, hids]

def theme : Cookie := { name := "theme".toList, value := "d".toList }

def quoted : Cookie := { name := "JSessionID".toList, value := "C1.b.c".toList }

def empty : Cookie := { name := "JSESSIONID".toList, value := [] }

theorem listed_theme :
    Listed [theme, quoted, empty] "theme=d; JSessionID = \"C1.b.c\" ,JSESSIONID=".toList := by
  have hnone : ∀ x ∈ ([] : List Char), isBlank x = true := List.forall_mem_nil _
  have hone : ∀ x ∈ [' '], isBlank x = true := List.forall_mem_singleton.2 rfl
  have htheme := Cookie.Written.pair (c := theme) hnone hnone hnone hnone .bare
  have hquoted := Cookie.Written.pair (c := quoted) hone hone hone hone .quoted
  have hempty := Cookie.Written.pair (c := empty) hnone hnone hnone hnone .bare
  have hall := Listed.cons htheme (.inl rfl) (.cons hquoted (.inr rfl) (.last hempty))
  exact (congrArg (Listed _) (by decide +kernel)).mp hall

/-- A session in the path, one in quotes among other cookies, and an empty one. -/
def visit : ClientRequest where
  uri := "/jsessionid;x;jsessionid=P.a/b"
  headers := [("X-Cookie", "JSESSIONID=no"),
    ("COOKIE", "theme=d; JSessionID = \"C1.b.c\" ,JSESSIONID=")]

theorem ids_carried_visit :
    InPath (some "P.a".toList) visit.uri.toList ∧
    Carried [theme, quoted, empty] visit.headers ∧
    ids visit = ["P.a", "C1.b.c"] ∧ routes visit = ["a", "b.c"] := by
  have hpath : InPath (some "P.a".toList) visit.uri.toList := by
    have hid : ∀ c ∈ "P.a".toList, endsId c = false := by simp [endsId]
    have hmarked : InPath (some "P.a".toList)
        ("/jsessionid;x".toList ++ (SessionMarker.word ++ '=' :: ("P.a".toList ++ "/b".toList))) :=
      .marked (by decide +kernel) (by decide) hid (by simp; decide)
    exact (congrArg (InPath _) (by decide +kernel)).mp hmarked
  have hcookies : Carried [theme, quoted, empty] visit.headers :=
    .other (by decide +kernel) (.cookies (by decide +kernel) listed_theme .nil)
  obtain ⟨hids, hroutes, -⟩ := ids_carried hpath hcookies
  exact ⟨hpath, hcookies, hids.trans (by decide +kernel), hroutes.trans (by decide +kernel)⟩

end AjpGateway.Session
