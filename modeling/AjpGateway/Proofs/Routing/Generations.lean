import AjpGateway.Proofs.Routing.Reloading
import Mathlib.Data.List.Induction

/-!
# Generations

A live table through a run of calls: changes of its mounts, directly or from a watched file, and
handles taken on the table in use.  Which changes are accepted does not depend on the table.  Each
that is accepted brings the next generation, the others leave everything as it was, and a handle
stays the table that it was taken on.

    t.change c = .ok t' ↔ the mounts of `c` are accepted, and `t'` has their table in use
                                                                              (change_eq_ok_iff)
    a run in which k changes are accepted ends in generation 1 + k, with the table of the last of
    them in use                                                          (runs_through_generations)
-/

namespace AjpGateway.LiveTable

/-! ## Changes -/

/-- A change of the rules: to other mounts, or to those of a watched file.  Where workers are known,
every mount of the file has to name one. -/
inductive Change where
  | mounts (mounts : List Mount)
  | file (env : Environment) (known? : Option (List String)) (file : File)

namespace Change

/-- The workers that the rules of a change may name, if they are restricted. -/
def known? : Change → Option (List String)
  | mounts _ => none
  | file _ known? _ => known?

/-- The mounts that a change asks for, unless its file is missing or is no configuration. -/
def mounts? : Change → Option (List Mount)
  | mounts l => some l
  | file env _ text => (Config.read env text).toOption.map Properties.mounts

/-- A mount that can be accepted: it stands for rules, and its worker is known. -/
def admits (c : Change) (m : Mount) : Bool :=
  (Rule.readMount m.pattern m.worker).toOption.isSome &&
    c.known?.all fun known => known.contains (Text.trimmed m.worker)

/-- The mounts of a change that is accepted. -/
def accepted? (c : Change) : Option (List Mount) := c.mounts?.filter fun l => l.all c.admits

theorem admits_iff {c : Change} {m : Mount} : c.admits m = true ↔
    (∃ rules, Rule.readMount m.pattern m.worker = .ok rules) ∧
      ∀ known, c.known? = some known → Text.trimmed m.worker ∈ known := by
  unfold admits
  rw [Bool.and_eq_true, isSome_toOption_iff]
  cases c.known? with
  | none => simp
  | some known => simp

theorem accepted?_eq_some_iff {c : Change} {l : List Mount} :
    c.accepted? = some l ↔ c.mounts? = some l ∧ ∀ m ∈ l, c.admits m = true := by
  unfold accepted?
  rw [Option.filter_eq_some_iff, List.all_eq_true]

end Change

/-- The table after a change. -/
def change (t : LiveTable) : Change → Except ConfigError LiveTable
  | .mounts l => (t.reload l).mapError .rule
  | .file env known? file => t.reloadFile env known? file

variable {t t' : LiveTable} {c : Change}

theorem change_eq_ok_iff_reload : t.change c = .ok t' ↔ ∃ l, c.mounts? = some l ∧
    (∀ known, c.known? = some known → ∀ m ∈ l, Text.trimmed m.worker ∈ known) ∧
      t.reload l = .ok t' := by
  cases c with
  | mounts l =>
    rw [change, mapError_eq_ok_iff]
    constructor
    · intro h
      refine ⟨l, rfl, ?_, h⟩
      intro known hknown
      cases hknown
    · rintro ⟨l', hl, -, h⟩
      cases hl
      exact h
  | file env known? text =>
    rw [change, reloadFile_eq_ok_iff]
    constructor
    · rintro ⟨p, hp, hknown, h⟩
      exact ⟨p.mounts, by rw [Change.mounts?, hp]; rfl, hknown, h⟩
    · rintro ⟨l, hl, hknown, h⟩
      obtain ⟨p, hp, rfl⟩ := Option.map_eq_some_iff.1 hl
      exact ⟨p, toOption_eq_some_iff.1 hp, hknown, h⟩

/-- A change is accepted with its mounts, whatever the table is, and puts their table in use, in the
next generation. -/
theorem change_eq_ok_iff : t.change c = .ok t' ↔ ∃ l next, c.accepted? = some l ∧
    RuleTable.build l (t.generation + 1) = .ok next ∧ (t.store next).turn = t' := by
  simp only [change_eq_ok_iff_reload, Change.accepted?_eq_some_iff, reload_eq_ok_iff]
  constructor
  · rintro ⟨l, hl, hknown, next, hnext, ht⟩
    have hread := RuleTable.exists_build_iff.1 ⟨next, hnext⟩
    refine ⟨l, next, ⟨hl, fun m hm => ?_⟩, hnext, ht⟩
    exact Change.admits_iff.2 ⟨hread m hm, fun known hk => hknown known hk m hm⟩
  · rintro ⟨l, next, ⟨hl, hadmits⟩, hnext, ht⟩
    refine ⟨l, hl, fun known hk m hm => ?_, next, hnext, ht⟩
    exact (Change.admits_iff.1 (hadmits m hm)).2 known hk

/-- Accepted mounts make a table of any generation. -/
theorem Change.exists_build {l : List Mount} (h : c.accepted? = some l) (generation : Nat) :
    ∃ next, RuleTable.build l generation = .ok next :=
  RuleTable.exists_build_iff.2 fun m hm =>
    (admits_iff.1 ((accepted?_eq_some_iff.1 h).2 m hm)).1

/-- What a change does to a table, and what it answers: the generation that it put in use, or why it
was refused. -/
def apply (t : LiveTable) (c : Change) : Except ConfigError Nat × LiveTable :=
  match t.change c with
  | .ok t' => (.ok t'.generation, t')
  | .error e => (.error e, t)

theorem apply_of_accepted {l : List Mount} (h : c.accepted? = some l) :
    ∃ next, RuleTable.build l (t.generation + 1) = .ok next ∧
      t.apply c = (.ok (t.generation + 1), (t.store next).turn) := by
  obtain ⟨next, hnext⟩ := Change.exists_build h (t.generation + 1)
  have hchange : t.change c = .ok (t.store next).turn :=
    change_eq_ok_iff.2 ⟨l, next, h, hnext, rfl⟩
  refine ⟨next, hnext, ?_⟩
  rw [apply, hchange]
  dsimp only
  rw [generation, table_turn_store, RuleTable.generation_of_build hnext]

theorem apply_of_refused (h : c.accepted? = none) : ∃ e, t.apply c = (.error e, t) := by
  cases hc : t.change c with
  | ok t' =>
    obtain ⟨l, next, hl, -, -⟩ := change_eq_ok_iff.1 hc
    rw [h] at hl
    cases hl
  | error e => exact ⟨e, by rw [apply, hc]⟩

/-- An accepted change of watched mounts leaves rules of known workers only. -/
theorem known_of_apply {g : Nat} {known : List String} (h : (t.apply c).1 = .ok g)
    (hknown : c.known? = some known) : ∀ r ∈ (t.apply c).2.table.all, r.worker ∈ known := by
  cases hl : c.accepted? with
  | none =>
    obtain ⟨e, he⟩ := apply_of_refused (t := t) hl
    rw [he] at h
    cases h
  | some l =>
    obtain ⟨next, hnext, hok⟩ := apply_of_accepted (t := t) hl
    rw [hok, table_turn_store]
    intro r hr
    obtain ⟨m, hm, hworker⟩ := RuleTable.exists_mount hnext hr
    have hadmits := (Change.accepted?_eq_some_iff.1 hl).2 m hm
    rw [hworker]
    exact (Change.admits_iff.1 hadmits).2 known hknown

/-! ## Runs -/

/-- A use of a live table. -/
inductive Call where
  | change (c : Change)
  /-- take a handle on the table in use -/
  | handle

namespace Call

/-- The mounts of a change that is accepted. -/
def accepted? : Call → Option (List Mount)
  | change c => c.accepted?
  | handle => none

def isHandle : Call → Bool
  | change _ => false
  | handle => true

end Call

/-- A live table, the answers that it gave, and the handles that were taken, in order. -/
structure Course where
  live : LiveTable
  answers : List (Except ConfigError Nat) := []
  handles : List RuleTable := []

namespace Course

def call (s : Course) : Call → Course
  | .change c => { s with live := (s.live.apply c).2, answers := s.answers ++ [(s.live.apply c).1] }
  | .handle => { s with handles := s.handles ++ [s.live.table] }

def run (s : Course) (calls : List Call) : Course := calls.foldl call s

theorem run_append (s : Course) (calls more : List Call) :
    s.run (calls ++ more) = (s.run calls).run more :=
  List.foldl_append

/-- Where a run stands: the mounts that were accepted last are in use, and the changes that were
accepted answered their generations. -/
structure Stands (first : List Mount) (calls : List Call) (s : Course) : Prop where
  table : RuleTable.build ((calls.filterMap Call.accepted?).getLastD first)
    (1 + (calls.filterMap Call.accepted?).length) = .ok s.live.table
  answers : s.answers.filterMap Except.toOption =
    List.range' 2 (calls.filterMap Call.accepted?).length

variable {first : List Mount} {calls : List Call} {s : Course}

theorem Stands.generation (h : Stands first calls s) :
    s.live.generation = 1 + (calls.filterMap Call.accepted?).length :=
  RuleTable.generation_of_build h.table

theorem Stands.call (h : Stands first calls s) (c : Call) :
    Stands first (calls ++ [c]) (s.call c) := by
  cases c with
  | handle =>
    have hsame : (calls ++ [Call.handle]).filterMap Call.accepted? =
        calls.filterMap Call.accepted? := by
      simp [Call.accepted?]
    constructor
    · rw [hsame]
      exact h.table
    · rw [hsame]
      exact h.answers
  | change c =>
    cases hl : c.accepted? with
    | none =>
      obtain ⟨e, he⟩ := apply_of_refused (t := s.live) hl
      have hsame : (calls ++ [Call.change c]).filterMap Call.accepted? =
          calls.filterMap Call.accepted? := by
        simp [Call.accepted?, hl]
      rw [Course.call, he]
      constructor
      · rw [hsame]
        exact h.table
      · rw [hsame, List.filterMap_append, h.answers]
        simp [Except.toOption]
    | some l =>
      obtain ⟨next, hnext, hok⟩ := apply_of_accepted (t := s.live) hl
      have hmore : (calls ++ [Call.change c]).filterMap Call.accepted? =
          calls.filterMap Call.accepted? ++ [l] := by
        simp [Call.accepted?, hl]
      rw [Course.call, hok]
      constructor
      · rw [hmore, List.getLastD_concat, List.length_append, List.length_singleton,
          ← Nat.add_assoc, ← h.generation]
        dsimp only
        rw [table_turn_store]
        exact hnext
      · rw [hmore, List.filterMap_append, h.answers, List.length_append, List.length_singleton,
          List.range'_concat, h.generation]
        simp [Except.toOption]
        omega

theorem stands_run {t : LiveTable} (h : LiveTable.new first = .ok t) (calls : List Call) :
    Stands first calls (run { live := t } calls) := by
  induction calls using List.reverseRecOn with
  | nil => exact ⟨table_of_new h, rfl⟩
  | append_singleton calls c ih =>
    rw [run_append]
    exact ih.call c

/-! ## Handles -/

theorem length_handles_run (s : Course) (calls : List Call) :
    (s.run calls).handles.length = s.handles.length + calls.countP Call.isHandle := by
  induction calls generalizing s with
  | nil => rfl
  | cons c calls ih =>
    rw [run, List.foldl_cons, ← run, ih, List.countP_cons]
    cases c with
    | change c => rfl
    | handle =>
      have hone : Call.handle.isHandle = true := rfl
      rw [call, List.length_append, List.length_singleton, if_pos hone, Nat.add_assoc,
        Nat.add_comm 1]

/-- Handles are kept through any run. -/
theorem handles_prefix_run (s : Course) (calls : List Call) :
    s.handles <+: (s.run calls).handles := by
  induction calls generalizing s with
  | nil => exact List.prefix_rfl
  | cons c calls ih =>
    refine List.IsPrefix.trans ?_ (ih (s.call c))
    cases c with
    | change c => exact List.prefix_rfl
    | handle => exact List.prefix_append _ _

/-- A handle is the table that was in use when it was taken. -/
theorem getElem?_handles_run (s : Course) (earlier later : List Call) :
    (s.run (earlier ++ .handle :: later)).handles[
      s.handles.length + earlier.countP Call.isHandle]? = some (s.run earlier).live.table := by
  obtain ⟨rest, hrest⟩ := handles_prefix_run ((s.run earlier).call .handle) later
  have hrun : s.run (earlier ++ .handle :: later) = ((s.run earlier).call .handle).run later :=
    run_append s earlier (.handle :: later)
  rw [hrun, ← hrest, ← length_handles_run, call, List.append_assoc]
  simp

end Course

/-! ## Generations -/

/-- Tables of the same mounts send a URI the same way, whatever their generations. -/
theorem resolve_congr_of_build {l : List Mount} {g g' : Nat} {r r' : RuleTable}
    (h : RuleTable.build l g = .ok r) (h' : RuleTable.build l g' = .ok r') (uri : String) :
    r.resolve uri = r'.resolve uri := by
  cases (RuleTable.build_again h g').symm.trans h'
  rfl

/-- **A live table goes through its generations.**  After any run in which `k` changes were accepted it
is in generation `1 + k`, the accepted changes answered the generations from 2 on, and URIs go where the
mounts send them that were accepted last.  A further change is answered by the generation that it puts
in use, where a watched file leaves rules of known workers only, or is refused and leaves the table
as it was.  A handle sends a URI where the table sent it when the handle was taken. -/
theorem runs_through_generations {first : List Mount} {t₀ : LiveTable} (h : new first = .ok t₀)
    (calls : List Call) :
    let s := Course.run { live := t₀ } calls
    let taken := calls.filterMap Call.accepted?
    s.live.generation = 1 + taken.length ∧
    s.answers.filterMap Except.toOption = List.range' 2 taken.length ∧
    RuleTable.build (taken.getLastD first) (1 + taken.length) = .ok s.live.table ∧
    (∀ g r, RuleTable.build (taken.getLastD first) g = .ok r →
      ∀ uri, s.live.resolve uri = r.resolve uri) ∧
    (∀ c l, c.accepted? = some l → ∃ t', s.live.apply c = (.ok t'.generation, t') ∧
      RuleTable.build l (s.live.generation + 1) = .ok t'.table ∧
      ∀ known, c.known? = some known → ∀ r ∈ t'.table.all, r.worker ∈ known) ∧
    (∀ c, c.accepted? = none → ∃ e, s.live.apply c = (.error e, s.live)) ∧
    ∀ earlier later, calls = earlier ++ .handle :: later →
      ∃ handle, s.handles[earlier.countP Call.isHandle]? = some handle ∧
        ∀ uri, handle.resolve uri = (Course.run { live := t₀ } earlier).live.resolve uri := by
  intro s taken
  have hs : Course.Stands first calls s := Course.stands_run h calls
  refine ⟨hs.generation, hs.answers, hs.table, ?_, ?_, fun c hc => apply_of_refused hc, ?_⟩
  · intro g r hr uri
    exact resolve_congr_of_build hs.table hr uri
  · intro c l hl
    obtain ⟨next, hnext, hok⟩ := apply_of_accepted (t := s.live) hl
    have hgeneration : (s.live.store next).turn.generation = s.live.generation + 1 := by
      rw [generation, table_turn_store, RuleTable.generation_of_build hnext]
    refine ⟨(s.live.store next).turn, by rw [hok, hgeneration], ?_, fun known hknown => ?_⟩
    · rw [table_turn_store]
      exact hnext
    · have hrules := known_of_apply (t := s.live) (congrArg Prod.fst hok) hknown
      rwa [hok] at hrules
  · rintro earlier later rfl
    have hhandle := Course.getElem?_handles_run { live := t₀ } earlier later
    rw [List.length_nil, Nat.zero_add] at hhandle
    exact ⟨_, hhandle, fun uri => rfl⟩

/-- Mounts that are accepted, one handle, and then mounts that cannot be read, a missing file, a file
with an unknown worker, and a file that is accepted. -/
def shopping : List Call := [
  .change (.mounts [⟨"/shop/*", "b"⟩]),
  .handle,
  .change (.mounts [⟨"/ok/*", "b"⟩, ⟨"/bad*", "c"⟩]),
  .change (.file (fun _ => none) (some ["a"]) (.error .notFound)),
  .change (.file (fun _ => none) (some ["a"]) (.ok (Text.utf8 "/shop/*=b\n"))),
  .change (.file (fun _ => none) (some ["a"]) (.ok (Text.utf8 "/app/* = a\n")))]

theorem runs_through_shopping : ∃ t₀, new [⟨"/app/*", "z"⟩] = .ok t₀ ∧
    (Course.run { live := t₀ } shopping).live.generation = 3 ∧
    (Course.run { live := t₀ } shopping).answers.filterMap Except.toOption = [2, 3] ∧
    (Course.run { live := t₀ } shopping).live.resolve "/app/x" = some ⟨"a", .under, 5, false⟩ ∧
    ∃ handle, (Course.run { live := t₀ } shopping).handles[0]? = some handle ∧
      handle.resolve "/shop/x" = some ⟨"b", .under, 6, false⟩ := by
  have hfirst : RuleTable.build [⟨"/app/*", "z"⟩] 1 =
      .ok (RuleTable.ofRules [⟨"/app/*", .under, "z", "/app/", false, false⟩] 1) := by
    decide +kernel
  have hshop : RuleTable.build [⟨"/shop/*", "b"⟩] 2 =
      .ok (RuleTable.ofRules [⟨"/shop/*", .under, "b", "/shop/", false, false⟩] 2) := by
    decide +kernel
  have happ : RuleTable.build [⟨"/app/*", "a"⟩] 3 =
      .ok (RuleTable.ofRules [⟨"/app/*", .under, "a", "/app/", false, false⟩] 3) := by
    decide +kernel
  have htaken : shopping.filterMap Call.accepted? = [[⟨"/shop/*", "b"⟩], [⟨"/app/*", "a"⟩]] := by
    decide +kernel
  have hnew : new [⟨"/app/*", "z"⟩] =
      .ok ⟨RuleTable.ofRules [⟨"/app/*", .under, "z", "/app/", false, false⟩] 1, {}, .left⟩ := by
    rw [new, hfirst]
    rfl
  obtain ⟨hgeneration, hanswers, -, hresolve, -, -, hhandles⟩ :=
    runs_through_generations hnew shopping
  rw [htaken] at hgeneration hanswers hresolve
  -- the handle was taken after the first change
  obtain ⟨handle, hhandle, hsame⟩ := hhandles [.change (.mounts [⟨"/shop/*", "b"⟩])] _ rfl
  obtain ⟨-, -, -, hearlier, -⟩ :=
    runs_through_generations hnew [.change (.mounts [⟨"/shop/*", "b"⟩])]
  have htakenEarlier : [Call.change (.mounts [⟨"/shop/*", "b"⟩])].filterMap Call.accepted? =
      [[⟨"/shop/*", "b"⟩]] := by
    decide +kernel
  rw [htakenEarlier] at hearlier
  refine ⟨_, hnew, hgeneration, hanswers, ?_, handle, hhandle, ?_⟩
  · rw [hresolve 3 _ happ]
    decide +kernel
  · rw [hsame, hearlier 2 _ hshop]
    decide +kernel

end AjpGateway.LiveTable
