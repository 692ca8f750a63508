import AjpGateway.Proofs.Routing.Reloading
import Mathlib.Logic.Function.Basic

/-!
# Readers beside reloads

A live table that readers and reloads share.  A resolve takes two steps: it looks up the slot in use
and then takes the table in that slot.  A reload takes two steps as well: it stores the next table
in the other slot and then turns over to it.  Reloads wait for one another; everything else comes in
between as it likes.

A resolve takes a table that was in use at some moment between its steps unless it is overtaken: its
slot has fallen out of use, and the reload after that has stored into the slot and has yet to turn
over.  Then it takes the table that is about to be put in use, one generation ahead, and the next
resolve of the same reader may go back by that generation.

    x.Timely ↔ ¬x.Overtaken                                                        (timely_iff)
    x.Overtaken → x.table = x.ready.live.turn.table                     (table_of_overtaken)
    x.start.live.generation ≤ x.table.generation ≤ x.ready.live.generation + 1
                                                       (le_generation, generation_le_add_one)
-/

namespace AjpGateway

/-! ## Slots -/

theorem Slot.eq_other_of_ne {a b : Slot} (h : a ≠ b) : a = b.other := by
  cases a <;> cases b <;> first | rfl | exact absurd rfl h

namespace LiveTable

variable (t : LiveTable) (next : RuleTable)

@[simp] theorem active_store : (t.store next).active = t.active := by
  obtain ⟨left, right, active⟩ := t
  cases active <;> rfl

@[simp] theorem table_store : (t.store next).table = t.table := by
  obtain ⟨left, right, active⟩ := t
  cases active <;> rfl

@[simp] theorem inSlot_other_store : (t.store next).inSlot t.active.other = next := by
  obtain ⟨left, right, active⟩ := t
  cases active <;> rfl

@[simp] theorem inSlot_turn (a : Slot) : t.turn.inSlot a = t.inSlot a := by
  cases a <;> rfl

end LiveTable

/-! ## Steps -/

structure SharedTable where
  live : LiveTable
  /-- whether a reload has stored its table and has yet to turn over to it -/
  stored : Bool := false
  /-- the slots that readers have looked up and have yet to read -/
  found : Nat → Option Slot := fun _ => none

namespace SharedTable

inductive Event where
  | look (reader : Nat)
  | take (reader : Nat) (table : RuleTable)
  | store (next : RuleTable)
  | turn

/-- The reader whose step it is. -/
def Event.reader? : Event → Option Nat
  | look r | take r _ => some r
  | store _ | turn => none

/-- After a reader has looked up the slot in use. -/
def looking (s : SharedTable) (r : Nat) : SharedTable :=
  { s with found := Function.update s.found r (some s.live.active) }

/-- After a reader has taken the table in its slot. -/
def resolved (s : SharedTable) (r : Nat) : SharedTable :=
  { s with found := Function.update s.found r none }

def storing (s : SharedTable) (next : RuleTable) : SharedTable :=
  { s with live := s.live.store next, stored := true }

def turning (s : SharedTable) : SharedTable := { s with live := s.live.turn, stored := false }

/-- One step of a reader or of a reload.  Only the reload whose turn it is changes the table in use,
so what it builds on is still there when it stores. -/
inductive Step : SharedTable → Event → SharedTable → Prop
  | look {s : SharedTable} {r : Nat} (idle : s.found r = none) : Step s (.look r) (s.looking r)
  | take {s : SharedTable} {r : Nat} {a : Slot} (found : s.found r = some a) :
    Step s (.take r (s.live.inSlot a)) (s.resolved r)
  | store {s : SharedTable} {mounts : List Mount} {next : RuleTable} (free : s.stored = false)
    (built : RuleTable.build mounts (s.live.generation + 1) = .ok next) :
    Step s (.store next) (s.storing next)
  | turn {s : SharedTable} (ready : s.stored = true) : Step s .turn s.turning

inductive Run (s : SharedTable) : List Event → SharedTable → Prop
  | refl : Run s [] s
  | step {events : List Event} {u v : SharedTable} {e : Event} (run : Run s events u)
    (last : Step u e v) : Run s (events ++ [e]) v

variable {s u v : SharedTable} {e : Event} {events : List Event} {r : Nat}

theorem Run.single (h : Step s e u) : Run s [e] u := .step .refl h

theorem Run.eq_of_nil (h : Run s [] u) : u = s := by
  generalize hevents : [] = events at h
  cases h with
  | refl => rfl
  | step run last => exact absurd hevents.symm (List.append_ne_nil_of_right_ne_nil _ (by simp))

theorem Run.trans {later : List Event} (h : Run s events u) (h' : Run u later v) :
    Run s (events ++ later) v := by
  induction h' with
  | refl => rwa [List.append_nil]
  | step _ last ih =>
    rw [← List.append_assoc]
    exact .step ih last

/-- A reload is its two steps, with nothing between them. -/
theorem run_of_reload {t t' : LiveTable} {mounts : List Mount} (h : t.reload mounts = .ok t') :
    Run { live := t } [.store t'.table, .turn] { live := t' } := by
  obtain ⟨next, hnext, rfl⟩ := LiveTable.reload_eq_ok_iff.1 h
  rw [LiveTable.table_turn_store]
  have hstore : Step { live := t } (.store next) (storing { live := t } next) := .store rfl hnext
  exact (Run.single hstore).trans (.single (.turn rfl))

/-! ## What steps change -/

/-- Readers leave the tables as they are; a reload stores the next generation, or turns over. -/
theorem Step.live_cases (h : Step s e u) : (u.live = s.live ∧ u.stored = s.stored) ∨
    (s.stored = false ∧ u.stored = true ∧ ∃ next : RuleTable,
      next.generation = s.live.generation + 1 ∧ u.live = s.live.store next) ∨
    (s.stored = true ∧ u.stored = false ∧ u.live = s.live.turn) := by
  cases h with
  | look idle => exact .inl ⟨rfl, rfl⟩
  | take found => exact .inl ⟨rfl, rfl⟩
  | store free built =>
    exact .inr (.inl ⟨free, rfl, _, RuleTable.generation_of_build built, rfl⟩)
  | turn ready => exact .inr (.inr ⟨ready, rfl, rfl⟩)

theorem Step.of_take {table : RuleTable} (h : Step s (.take r table) u) :
    ∃ a, s.found r = some a ∧ table = s.live.inSlot a := by
  cases h with
  | take found => exact ⟨_, found, rfl⟩

/-- The slot of a reader is its own. -/
theorem Step.found_of_reader_ne (h : Step s e u) (he : e.reader? ≠ some r) :
    u.found r = s.found r := by
  cases h with
  | look idle => exact Function.update_of_ne (fun hr => he (congrArg some hr.symm)) _ _
  | take found => exact Function.update_of_ne (fun hr => he (congrArg some hr.symm)) _ _
  | store free built => rfl
  | turn ready => rfl

theorem Run.found_of_reader_ne (h : Run s events u) (he : ∀ e ∈ events, e.reader? ≠ some r) :
    u.found r = s.found r := by
  induction h with
  | refl => rfl
  | step _ last ih =>
    obtain ⟨hevents, hlast⟩ := List.forall_mem_append.1 he
    rw [last.found_of_reader_ne (hlast _ (List.mem_singleton_self _)), ih hevents]

/-- A table that is stored and not yet in use is of the generation after the one in use. -/
def Ordered (s : SharedTable) : Prop :=
  s.stored = true → (s.live.inSlot s.live.active.other).generation = s.live.generation + 1

theorem ordered_of_free (h : s.stored = false) : s.Ordered := by
  intro hstored
  rw [h] at hstored
  cases hstored

theorem Step.ordered (h : Step s e u) (hs : s.Ordered) : u.Ordered := by
  obtain ⟨hlive, hstored⟩ | ⟨-, -, next, hnext, hlive⟩ | ⟨-, hfree, -⟩ := h.live_cases
  · unfold Ordered
    rwa [hlive, hstored]
  · intro _
    rw [hlive, LiveTable.active_store, LiveTable.inSlot_other_store, hnext]
    exact congrArg (·.generation + 1) (s.live.table_store next).symm
  · exact ordered_of_free hfree

theorem Step.generation_le (h : Step s e u) (hs : s.Ordered) :
    s.live.generation ≤ u.live.generation := by
  obtain ⟨hlive, -⟩ | ⟨-, -, next, -, hlive⟩ | ⟨hready, -, hlive⟩ := h.live_cases
  · exact Nat.le_of_eq (congrArg LiveTable.generation hlive.symm)
  · rw [hlive]
    exact Nat.le_of_eq (congrArg RuleTable.generation (s.live.table_store next).symm)
  · have hnext : u.live.generation = s.live.generation + 1 := by
      rw [← hs hready, hlive]
      exact congrArg RuleTable.generation (s.live.inSlot_turn s.live.active.other)
    rw [hnext]
    exact Nat.le_succ _

theorem Run.ordered (h : Run s events u) (hs : s.Ordered) : u.Ordered := by
  induction h with
  | refl => exact hs
  | step _ last ih => exact last.ordered ih

/-- Generations never go back where they are put in use. -/
theorem Run.generation_le (h : Run s events u) (hs : s.Ordered) :
    s.live.generation ≤ u.live.generation := by
  induction h with
  | refl => exact Nat.le_refl _
  | step run last ih => exact Nat.le_trans ih (last.generation_le (run.ordered hs))

/-! ## Tables in use -/

/-- The table was in use at some moment of a run. -/
def WasInUse (table : RuleTable) (s : SharedTable) (events : List Event) (u : SharedTable) : Prop :=
  ∃ before m after, events = before ++ after ∧ Run s before m ∧ Run m after u ∧ m.live.table = table

theorem WasInUse.step {table : RuleTable} (h : WasInUse table s events u) (last : Step u e v) :
    WasInUse table s (events ++ [e]) v := by
  obtain ⟨before, m, after, rfl, hbefore, hafter, hm⟩ := h
  exact ⟨before, m, after ++ [e], List.append_assoc .., hbefore, .step hafter last, hm⟩

theorem Run.wasInUse_last (h : Run s events u) : WasInUse u.live.table s events u :=
  ⟨events, u, [], (List.append_nil _).symm, h, .refl, rfl⟩

theorem WasInUse.generation_le {table : RuleTable} (h : WasInUse table s events u)
    (hs : s.Ordered) :
    s.live.generation ≤ table.generation ∧ table.generation ≤ u.live.generation := by
  obtain ⟨before, m, after, -, hbefore, hafter, rfl⟩ := h
  exact ⟨hbefore.generation_le hs, hafter.generation_le (hbefore.ordered hs)⟩

/-- What lies in the slot that was in use: the table in use, or, until it is stored over, one that
was. -/
theorem Run.wasInUse_or_stored (h : Run s events u) :
    u.live.active = s.live.active ∨ u.stored = true ∨
      WasInUse (u.live.inSlot s.live.active) s events u := by
  induction h with
  | refl => exact .inl rfl
  | @step events u v e run last ih =>
    obtain ⟨hlive, hstored⟩ | ⟨-, hstored, -⟩ | ⟨hready, -, hlive⟩ := last.live_cases
    · rw [hlive, hstored]
      exact ih.imp_right (.imp_right fun h => h.step last)
    · exact .inr (.inl hstored)
    · by_cases ha : u.live.active = s.live.active
      · -- the slot falls out of use, with the table that was in use until now
        right; right
        rw [hlive, LiveTable.inSlot_turn, ← ha]
        exact run.wasInUse_last.step last
      · left
        rw [hlive]
        exact (Slot.eq_other_of_ne (Ne.symm ha)).symm

/-! ## Resolves -/

/-- A resolve in a run: the reader looks up the slot in use, others go on in the meantime, and it
takes the table in that slot. -/
structure Resolve (r : Nat) where
  start : SharedTable
  meantime : List Event
  ready : SharedTable
  table : RuleTable
  done : SharedTable
  look : Step start (.look r) (start.looking r)
  wait : Run (start.looking r) meantime ready
  alone : ∀ e ∈ meantime, e.reader? ≠ some r
  take : Step ready (.take r table) done

namespace Resolve

/-- The table was in use at some moment between the two steps. -/
def Timely (x : Resolve r) : Prop := WasInUse x.table (x.start.looking r) x.meantime x.ready

/-- The slot has fallen out of use, and a reload has stored into it and has yet to turn over. -/
def Overtaken (x : Resolve r) : Prop :=
  x.ready.live.active ≠ x.start.live.active ∧ x.ready.stored = true

variable (x : Resolve r)

theorem found_ready : x.ready.found r = some x.start.live.active := by
  rw [x.wait.found_of_reader_ne x.alone]
  exact Function.update_self ..

theorem table_eq : x.table = x.ready.live.inSlot x.start.live.active := by
  obtain ⟨a, hfound, htable⟩ := x.take.of_take
  rw [x.found_ready] at hfound
  cases hfound
  exact htable

/-- A resolve by itself takes the table in use. -/
theorem table_of_alone (h : x.meantime = []) : x.table = x.start.live.table := by
  have hwait := x.wait
  rw [h] at hwait
  rw [x.table_eq, hwait.eq_of_nil]
  rfl

/-- Whatever comes in the meantime, a reader that has looked up its slot can take a table. -/
def through {ready : SharedTable} {meantime : List Event} (idle : s.found r = none)
    (wait : Run (s.looking r) meantime ready) (alone : ∀ e ∈ meantime, e.reader? ≠ some r) :
    Resolve r where
  start := s
  meantime
  ready
  table := ready.live.inSlot s.live.active
  done := ready.resolved r
  look := .look idle
  wait
  alone
  take := .take (by
    rw [wait.found_of_reader_ne alone]
    exact Function.update_self ..)

variable {x}

/-- An overtaken reader takes the table that is about to be put in use. -/
theorem table_of_overtaken (h : x.Overtaken) : x.table = x.ready.live.turn.table := by
  rw [x.table_eq, Slot.eq_other_of_ne h.1.symm]
  exact (x.ready.live.inSlot_turn x.ready.live.active.other).symm

theorem timely_of_not_overtaken (h : ¬x.Overtaken) : x.Timely := by
  unfold Timely
  rw [x.table_eq]
  have hlast (ha : x.ready.live.active = x.start.live.active) :
      WasInUse (x.ready.live.inSlot x.start.live.active) (x.start.looking r) x.meantime x.ready := by
    rw [← ha]
    exact x.wait.wasInUse_last
  rcases x.wait.wasInUse_or_stored with ha | hstored | hwas
  · exact hlast ha
  · exact hlast (Decidable.not_not.1 fun hne => h ⟨hne, hstored⟩)
  · exact hwas

variable (hs : x.start.Ordered)

include hs

theorem generation_of_overtaken (h : x.Overtaken) :
    x.table.generation = x.ready.live.generation + 1 := by
  rw [x.table_eq, Slot.eq_other_of_ne h.1.symm]
  exact x.wait.ordered hs h.2

theorem not_timely_of_overtaken (h : x.Overtaken) : ¬x.Timely := by
  intro htimely
  have hle := (htimely.generation_le hs).2
  rw [generation_of_overtaken hs h] at hle
  exact Nat.not_succ_le_self _ hle

/-- A resolve takes a table that was in use while it went on, unless it is overtaken. -/
theorem timely_iff : x.Timely ↔ ¬x.Overtaken :=
  ⟨fun htimely h => not_timely_of_overtaken hs h htimely, timely_of_not_overtaken⟩

theorem generation_le (h : ¬x.Overtaken) : x.table.generation ≤ x.ready.live.generation :=
  ((timely_of_not_overtaken h).generation_le hs).2

theorem generation_le_add_one : x.table.generation ≤ x.ready.live.generation + 1 := by
  by_cases h : x.Overtaken
  · exact Nat.le_of_eq (generation_of_overtaken hs h)
  · exact Nat.le_succ_of_le (generation_le hs h)

theorem le_generation : x.start.live.generation ≤ x.table.generation := by
  by_cases h : x.Overtaken
  · rw [generation_of_overtaken hs h]
    exact Nat.le_succ_of_le (x.wait.generation_le hs)
  · exact ((timely_of_not_overtaken h).generation_le hs).1

/-- The generation in use when a resolve takes its table is not beyond that of a later resolve. -/
theorem ready_le_generation {r' : Nat} {y : Resolve r'} {between : List Event}
    (hy : Run x.done between y.start) : x.ready.live.generation ≤ y.table.generation := by
  have hready : x.ready.Ordered := x.wait.ordered hs
  have hrun : Run x.ready (.take r x.table :: between) y.start := (Run.single x.take).trans hy
  exact Nat.le_trans (hrun.generation_le hready) (le_generation (hrun.ordered hready))

end Resolve

/-- **Resolves beside reloads.**  A resolve takes a table that was in use at some moment between its
steps, unless it is overtaken.  Then it takes the next table before it is put in use, and a later
resolve goes back by at most that one generation. -/
theorem resolves_beside_reloads {t : LiveTable} (x : Resolve r)
    (hx : Run { live := t } events x.start) :
    (x.Timely ↔ ¬x.Overtaken) ∧ (x.Overtaken → x.table = x.ready.live.turn.table) ∧
      ∀ (y : Resolve r) (between : List Event), Run x.done between y.start →
        x.table.generation ≤ y.table.generation + 1 ∧
          (¬x.Overtaken → x.table.generation ≤ y.table.generation) := by
  have hs : x.start.Ordered := hx.ordered (ordered_of_free rfl)
  refine ⟨Resolve.timely_iff hs, Resolve.table_of_overtaken, fun y between hy => ?_⟩
  have hready := Resolve.ready_le_generation hs hy
  constructor
  · exact Nat.le_trans (Resolve.generation_le_add_one hs) (Nat.succ_le_succ hready)
  · exact fun h => Nat.le_trans (Resolve.generation_le hs h) hready

/-! ## A reader that is overtaken -/

/-- A table with one rule. -/
def appTable (worker : String) (generation : Nat) : RuleTable :=
  RuleTable.ofRules [⟨"/app/*", .under, worker, "/app/", false, false⟩] generation

def first : SharedTable := { live := { left := appTable "a" 1 } }

/-- While a reader waits, one reload goes through and the next one has stored its table. -/
theorem run_second_third : Run (first.looking 0)
    [.store (appTable "b" 2), .turn, .store (appTable "c" 3)]
    (((first.looking 0).storing (appTable "b" 2)).turning.storing (appTable "c" 3)) := by
  have hsecond : RuleTable.build [⟨"/app/*", "b"⟩] 2 = .ok (appTable "b" 2) := by decide +kernel
  have hthird : RuleTable.build [⟨"/app/*", "c"⟩] 3 = .ok (appTable "c" 3) := by decide +kernel
  exact .step (.step (.step .refl (.store rfl hsecond)) (.turn rfl)) (.store rfl hthird)

def slow : Resolve 0 := .through (s := first) rfl run_second_third (by simp [Event.reader?])

def afterSlow : Resolve 0 := .through (s := slow.done) rfl .refl (by simp)

theorem slow_overtaken : slow.Overtaken := ⟨by decide, rfl⟩

theorem slow_beside_reloads : ¬slow.Timely ∧ slow.table = slow.ready.live.turn.table ∧
    slow.table.generation ≤ afterSlow.table.generation + 1 := by
  obtain ⟨htimely, htable, hlater⟩ :=
    resolves_beside_reloads slow (.refl : Run { live := { left := appTable "a" 1 } } [] slow.start)
  exact ⟨fun h => htimely.1 h slow_overtaken, htable slow_overtaken, (hlater afterSlow [] .refl).1⟩

/-- A reader can take a table that was not in use while it resolved, and one of an earlier
generation after that. -/
theorem takes_table_before_use : ∃ (t : LiveTable) (x y : Resolve 0),
    LiveTable.new [⟨"/app/*", "a"⟩] = .ok t ∧ Run { live := t } [] x.start ∧
      Run x.done [] y.start ∧ ¬x.Timely ∧ y.table.generation < x.table.generation := by
  have hfirst : RuleTable.build [⟨"/app/*", "a"⟩] 1 = .ok (appTable "a" 1) := by decide +kernel
  have hnew : LiveTable.new [⟨"/app/*", "a"⟩] = .ok { left := appTable "a" 1 } := by
    rw [LiveTable.new, hfirst]
    rfl
  have hslow : ¬slow.Timely :=
    Resolve.not_timely_of_overtaken (ordered_of_free rfl) slow_overtaken
  exact ⟨_, slow, afterSlow, hnew, .refl, .refl, hslow, by decide⟩

end SharedTable

end AjpGateway
