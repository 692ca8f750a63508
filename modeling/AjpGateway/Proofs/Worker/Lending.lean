import AjpGateway.Proofs.Worker.Endpoints
import AjpGateway.Proofs.Worker.Relaying
import Mathlib.Data.List.Flatten
import Mathlib.Data.List.Perm.Subperm

/-!
# Lending connections

Any number of requests hold endpoints of a backend beside one another.  They take them from the
pool, are served at them as often as they like, and give them back, and in between the settings are
renewed or the backend is closed.

Every connection in the pool was left there by a call that ended in due form, and has not been used
since.  Each connection is in one place at a time, the pool or one endpoint, and once a call has
left it in another way it is nowhere, and no later call has it.

    Step s calls s' → s.Sound log → s'.Sound (log ++ calls)                           (Sound.step)
    Run ⟨b, world, []⟩ log s → (what the pool holds, and what becomes of the rest)  (pooled_ended)
-/

namespace AjpGateway

open Packet

/-! ## Places of connections -/

/-- The connection that a call used may be used again after it. -/
def Call.Spares (c : Call) (id : Nat) : Prop := ∃ line, c.Ends line ∧ id ∈ line.ids

/-- The numbers of the connections of some lines. -/
def Line.allIds (lines : List Line) : List Nat := lines.flatMap ids

theorem Line.allIds_cons (line : Line) (lines : List Line) :
    allIds (line :: lines) = line.ids ++ allIds lines :=
  List.flatMap_cons

theorem Line.mem_allIds_cons {line : Line} {lines : List Line} {id : Nat} :
    id ∈ allIds (line :: lines) ↔ id ∈ line.ids ∨ id ∈ allIds lines := by
  rw [allIds_cons, List.mem_append]

theorem Line.mem_allIds_of_mem {line : Line} {lines : List Line} (hline : line ∈ lines) {id : Nat}
    (hid : id ∈ line.ids) : id ∈ allIds lines :=
  List.mem_flatMap.2 ⟨line, hline, hid⟩

/-- The connections of all lines are accounted for by the calls made so far, when so many
connections have been opened. -/
structure Accounted (log : List Call) (lines : List Line) (opened : Nat) : Prop where
  once : ∀ id, (Line.allIds lines).count id ≤ 1
  numbered : ∀ id ∈ Line.allIds lines, id < opened
  used : ∀ call ∈ log, ∀ id, call.Uses id → id < opened
  ended : ∀ line ∈ lines, ∀ id ∈ line.ids, ∃ before call after, log = before ++ call :: after ∧
    call.Ends line ∧ ∀ later ∈ after, ¬ later.Uses id
  gone : ∀ before call after, log = before ++ call :: after → ∀ id, call.Uses id →
    ¬ call.Spares id → id ∉ Line.allIds lines ∧ ∀ later ∈ after, ¬ later.Uses id

namespace Accounted

variable {log : List Call} {lines others : List Line} {opened : Nat}

/-- Lines may be dropped and change their places, and connections be opened elsewhere. -/
theorem mono (h : Accounted log lines opened) {lines' : List Line} (hlines : lines'.Subperm lines)
    {opened' : Nat} (hopened : opened ≤ opened') : Accounted log lines' opened' := by
  have hids : (Line.allIds lines').Subperm (Line.allIds lines) := by
    obtain ⟨l, hperm, hsub⟩ := hlines
    exact ⟨_, hperm.flatMap_right _, hsub.flatMap _⟩
  exact {
    once := fun id => Nat.le_trans (hids.count_le id) (h.once id)
    numbered := fun id hid => Nat.lt_of_lt_of_le (h.numbered id (hids.subset hid)) hopened
    used := fun call hcall id hid => Nat.lt_of_lt_of_le (h.used call hcall id hid) hopened
    ended := fun line hline => h.ended line (hlines.subset hline)
    gone := fun before call after hlog id huses hspares =>
      (h.gone before call after hlog id huses hspares).imp_left fun hid hid' =>
        hid (hids.subset hid') }

/-- A line without a connection may be added. -/
theorem cons (h : Accounted log lines opened) {line : Line} (hline : line.ids = []) :
    Accounted log (line :: lines) opened := by
  have hids : Line.allIds (line :: lines) = Line.allIds lines := by
    rw [Line.allIds_cons, hline, List.nil_append]
  exact {
    once := by rw [hids]; exact h.once
    numbered := by rw [hids]; exact h.numbered
    used := h.used
    ended := by
      refine List.forall_mem_cons.2 ⟨?_, h.ended⟩
      rw [hline]
      exact List.forall_mem_nil _
    gone := by rw [hids]; exact h.gone }

section
variable {c : Call}

/-- What a call has in hand is not in another place, and no call before it has lost it. -/
theorem offers_apart (h : Accounted log (c.endpoint.line :: others) c.job.world.network.opened)
    {id : Nat} (hid : c.endpoint.line.Offers c.job.world c.after.world id) :
    id ∉ Line.allIds others ∧ ∀ before call after, log = before ++ call :: after →
      call.Uses id → call.Spares id := by
  have honce := h.once id
  rw [Line.allIds_cons, List.count_append] at honce
  rcases hid with hid | ⟨hle, -⟩
  · have hpos := List.count_pos_iff.2 hid
    refine ⟨fun hother => ?_, fun before call after hlog huses => ?_⟩
    · have hpos' := List.count_pos_iff.2 hother
      omega
    · refine Classical.byContradiction fun hspares => ?_
      exact (h.gone before call after hlog id huses hspares).1 (Line.mem_allIds_cons.2 (.inl hid))
  · refine ⟨fun hother => ?_, fun before call after hlog huses => ?_⟩
    · have hlt := h.numbered id (Line.mem_allIds_cons.2 (.inr hother))
      omega
    · have hmem : call ∈ log := by
        rw [hlog]
        exact List.mem_append_right _ List.mem_cons_self
      have hlt := h.used call hmem id huses
      omega

/-- A call leaves the ends of other connections as they are. -/
theorem ended_concat {line : Line} {id : Nat} (hc : ¬ c.Uses id)
    (h : ∃ before call after, log = before ++ call :: after ∧ call.Ends line ∧
      ∀ later ∈ after, ¬ later.Uses id) :
    ∃ before call after, log ++ [c] = before ++ call :: after ∧ call.Ends line ∧
      ∀ later ∈ after, ¬ later.Uses id := by
  obtain ⟨before, call, after, rfl, hends, hlater⟩ := h
  refine ⟨before, call, after ++ [c], by simp, hends, List.forall_mem_append.2 ⟨hlater, ?_⟩⟩
  exact List.forall_mem_singleton.2 hc

/-- The connection that a call leaves was left in due form, by this call or by an earlier one. -/
theorem ended_left (h : Accounted log (c.endpoint.line :: others) opened) (hgoes : c.Goes)
    {id : Nat} (hid : id ∈ c.left.line.ids) :
    ∃ before call after, log ++ [c] = before ++ call :: after ∧ call.Ends c.left.line ∧
      ∀ later ∈ after, ¬ later.Uses id := by
  obtain ⟨hphase, hleft⟩ | hends := hgoes.of_mem_ids hid
  · rw [hleft] at hid ⊢
    exact ended_concat (fun huses => hphase huses.1)
      (h.ended c.endpoint.line List.mem_cons_self id hid)
  · exact ⟨log, c, [], rfl, hends, List.forall_mem_nil _⟩

/-- What a call loses is in no place afterwards. -/
theorem gone_left (h : Accounted log (c.endpoint.line :: others) c.job.world.network.opened)
    (hgoes : c.Goes) {id : Nat} (huses : c.Uses id) (hspares : ¬ c.Spares id) :
    id ∉ Line.allIds (c.left.line :: others) := by
  intro hid
  rcases Line.mem_allIds_cons.1 hid with hid | hid
  · obtain ⟨hphase, -⟩ | hends := hgoes.of_mem_ids hid
    · exact hphase huses.1
    · exact hspares ⟨c.left.line, hends, hid⟩
  · exact (h.offers_apart huses.2).1 hid

/-- What an earlier call has lost stays lost. -/
theorem gone_concat (h : Accounted log (c.endpoint.line :: others) c.job.world.network.opened)
    {before after : List Call} {call : Call} (hlog : log = before ++ call :: after) {id : Nat}
    (huses : call.Uses id) (hspares : ¬ call.Spares id) :
    id ∉ Line.allIds (c.left.line :: others) ∧ ∀ later ∈ after ++ [c], ¬ later.Uses id := by
  have hnot : ¬ c.endpoint.line.Offers c.job.world c.after.world id := fun hoffers =>
    hspares ((h.offers_apart hoffers).2 before call after hlog huses)
  obtain ⟨hgone, hlater⟩ := h.gone before call after hlog id huses hspares
  refine ⟨fun hid => ?_, List.forall_mem_append.2 ⟨hlater, ?_⟩⟩
  · rcases Line.mem_allIds_cons.1 hid with hid | hid
    · exact hnot (c.leads.ids id hid)
    · exact hgone (Line.mem_allIds_cons.2 (.inr hid))
  · exact List.forall_mem_singleton.2 fun huses => hnot huses.2

/-- **One call**: the connections that it has in hand are its own, and it leaves one of them only if
it ended in due form. -/
theorem call (h : Accounted log (c.endpoint.line :: others) c.job.world.network.opened)
    (hgoes : c.Goes) :
    Accounted (log ++ [c]) (c.left.line :: others) c.after.world.network.opened := by
  have hopened := c.leads.reaches.opened
  have hbound : ∀ id, c.endpoint.line.Offers c.job.world c.after.world id →
      id < c.after.world.network.opened := by
    rintro id (hid | ⟨-, hlt⟩)
    · exact Nat.lt_of_lt_of_le (h.numbered id (Line.mem_allIds_cons.2 (.inl hid))) hopened
    · exact hlt
  constructor
  case once =>
    intro id
    have honce := h.once id
    rw [Line.allIds_cons, List.count_append] at honce ⊢
    by_cases hid : id ∈ c.left.line.ids
    · have hother := List.count_eq_zero.2 (h.offers_apart (c.leads.ids id hid)).1
      have hone : c.left.line.ids.count id ≤ 1 :=
        Nat.le_trans List.count_le_length (Line.length_ids_le _)
      omega
    · have hzero := List.count_eq_zero.2 hid
      omega
  case numbered =>
    intro id hid
    rcases Line.mem_allIds_cons.1 hid with hid | hid
    · exact hbound id (c.leads.ids id hid)
    · exact Nat.lt_of_lt_of_le (h.numbered id (Line.mem_allIds_cons.2 (.inr hid))) hopened
  case used =>
    intro call hcall id huses
    rcases List.mem_append.1 hcall with hcall | hcall
    · exact Nat.lt_of_lt_of_le (h.used call hcall id huses) hopened
    · cases List.mem_singleton.1 hcall
      exact hbound id huses.2
  case ended =>
    intro line hline id hid
    rcases List.mem_cons.1 hline with rfl | hline
    · exact h.ended_left hgoes hid
    · refine ended_concat (fun huses => ?_) (h.ended line (List.mem_cons_of_mem _ hline) id hid)
      exact (h.offers_apart huses.2).1 (Line.mem_allIds_of_mem hline hid)
  case gone =>
    intro before call after hlog id huses hspares
    rcases List.eq_nil_or_concat after with rfl | ⟨after, last, rfl⟩
    · obtain ⟨-, hc⟩ := List.append_inj' hlog rfl
      cases hc
      exact ⟨h.gone_left hgoes huses hspares, List.forall_mem_nil _⟩
    · rw [List.concat_eq_append, ← List.cons_append, ← List.append_assoc] at hlog
      obtain ⟨hbefore, hlast⟩ := List.append_inj' hlog rfl
      cases hlast
      rw [List.concat_eq_append]
      exact h.gone_concat hbefore huses hspares

end

end Accounted

/-! ## What moves lines -/

/-- What a pool gives is no longer in it. -/
theorem Pool.sublist_of_take {α : Type} (pool : Pool α) (now : Moment) :
    ((pool.take now).1.toList ++ (pool.take now).2.toList).Sublist pool.toList := by
  have hsub : ((pool.entries.filter (pool.fresh now)).map Prod.fst).Sublist pool.toList :=
    List.filter_sublist.map Prod.fst
  unfold take
  cases hf : pool.entries.filter (pool.fresh now) with
  | nil => exact List.nil_sublist _
  | cons e rest =>
    rw [hf] at hsub
    exact hsub

namespace Backend

/-- The lines in the pool, the latest first. -/
def pooled (b : Backend) : List Line := (b.pool?.map Pool.toList).getD []

variable {b b' : Backend} {job job' : Job} {line : Line}

/-- A line that is handed out comes out of the pool, or has no connection. -/
theorem acquire_ok (h : b.acquire job = (.ok line, b', job')) :
    b'.phase = b.phase ∧ job'.world.network = job.world.network ∧
      ∃ taken : List Line, (taken ++ b'.pooled).Sublist b.pooled ∧
        (taken = [line] ∨ taken = [] ∧ line.ids = []) := by
  unfold acquire at h
  cases hready : b.phase.ready b.name with
  | error e =>
    rw [hready] at h
    cases h
  | ok _ =>
    cases hpool : b.pool? with
    | none =>
      rw [hready, hpool] at h
      cases h
    | some pool =>
      rw [hready, hpool] at h
      dsimp only at h
      obtain ⟨hline, h⟩ := Prod.mk.inj h
      obtain ⟨rfl, rfl⟩ := Prod.mk.inj h
      obtain rfl := Except.ok.inj hline
      have hsub := pool.sublist_of_take job.now.1
      have hpooled : b.pooled = pool.toList := by
        unfold pooled
        rw [hpool]
        rfl
      refine ⟨rfl, rfl, (pool.take job.now.1).1.toList, hpooled ▸ hsub, ?_⟩
      cases (pool.take job.now.1).1 with
      | none => exact .inr ⟨rfl, rfl⟩
      | some line => exact .inl rfl

theorem acquire_error {e : ServiceError} (h : b.acquire job = (.error e, b', job')) :
    b' = b ∧ job' = job := by
  unfold acquire at h
  cases hready : b.phase.ready b.name with
  | error e =>
    rw [hready] at h
    cases h
    exact ⟨rfl, rfl⟩
  | ok _ =>
    cases hpool : b.pool? with
    | none =>
      rw [hready, hpool] at h
      cases h
      exact ⟨rfl, rfl⟩
    | some pool =>
      rw [hready, hpool] at h
      cases h

/-- A line comes into the pool of an open backend only, and with its connection. -/
theorem keep_cases (b : Backend) (line : Line) (job : Job) :
    (b.keep line job).1.phase = b.phase ∧ (b.keep line job).1.settings = b.settings ∧
      (b.keep line job).2.world.network = job.world.network ∧
      ((b.keep line job).1.pooled = b.pooled ∨ (b.keep line job).1.pooled = line :: b.pooled ∧
        b.phase = .initialized ∧ line.connection?.isSome = true) := by
  unfold keep
  by_cases h : b.phase = .initialized ∧ line.connection?.isSome = true
  · rw [if_pos h]
    cases hpool : b.pool? with
    | none => exact ⟨rfl, rfl, rfl, .inl rfl⟩
    | some pool =>
      have hpooled : b.pooled = pool.toList := by
        unfold pooled
        rw [hpool]
        rfl
      refine ⟨rfl, rfl, rfl, ?_⟩
      rw [hpooled]
      unfold pooled Pool.put
      dsimp only
      split
      · exact .inl rfl
      · exact .inr ⟨rfl, h⟩
  · rw [if_neg h]
    exact ⟨rfl, rfl, rfl, .inl rfl⟩

/-- New settings drop lines at most. -/
theorem refresh_keeps (b : Backend) (p : Properties) :
    (b.refresh p).2.phase = b.phase ∧
      (b.refresh p).2.settings.packetSize = b.settings.packetSize ∧
      (b.refresh p).2.pooled.Sublist b.pooled := by
  unfold refresh
  cases BackendSettings.read p b.name with
  | error e => exact ⟨rfl, rfl, .refl _⟩
  | ok s =>
    refine ⟨rfl, rfl, ?_⟩
    unfold pooled apply
    cases b.pool? with
    | none => exact List.nil_sublist _
    | some pool =>
      dsimp only [Option.map_some, Option.getD_some]
      split
      · exact (List.take_sublist ..).map Prod.fst
      · exact List.nil_sublist _

theorem pooled_destroy (b : Backend) : b.destroy.pooled = [] := by
  unfold pooled destroy
  cases b.pool? <;> rfl

theorem Sized.destroy (h : b.Sized) : b.destroy.Sized := by
  refine ⟨h.size, fun pool hp line hline => ?_⟩
  obtain ⟨pool₀, -, rfl⟩ := Option.map_eq_some_iff.1 hp
  exact absurd hline List.not_mem_nil

end Backend

/-! ## Steps -/

/-- An endpoint in use, with the last call on it. -/
structure Held where
  endpoint : Endpoint
  last? : Option Call := none

def Held.line (h : Held) : Line := h.endpoint.line

/-- A backend, the world and the endpoints in use. -/
structure Lending where
  backend : Backend
  world : World
  held : List Held := []

namespace Lending

/-- The lines in the pool and at the endpoints. -/
def lines (s : Lending) : List Line :=
  s.backend.pooled ++ s.held.map Held.line

/-- Something that happens to a backend or to one of its endpoints, with the call that is made. -/
inductive Step : Lending → List Call → Lending → Prop
  | acquire {s : Lending} {tx : Transaction} {line : Line} {backend : Backend} {job : Job}
      (acquired : s.backend.acquire ⟨tx, s.world⟩ = (.ok line, backend, job)) :
    Step s [] { backend, world := job.world, held := s.held ++ [{ endpoint := { line } }] }
  /-- no endpoint is to be had -/
  | turnAway {s : Lending} {tx : Transaction} {e : ServiceError} {backend : Backend} {job : Job}
      (refused : s.backend.acquire ⟨tx, s.world⟩ = (.error e, backend, job)) :
    Step s [] { s with backend, world := job.world }
  | serve {s : Lending} {before after : List Held} {h : Held} (held : s.held = before ++ h :: after)
      {call : Call} (backend : call.backend = s.backend) (endpoint : call.endpoint = h.endpoint)
      (world : call.job.world = s.world) :
    Step s [call]
      { backend := call.worker
        world := call.after.world
        held := before ++ { endpoint := call.left, last? := some call } :: after }
  | release {s : Lending} {before after : List Held} {h : Held}
      (held : s.held = before ++ h :: after) {job : Job} (world : job.world = s.world) :
    Step s []
      { backend := (s.backend.release h.endpoint job).1
        world := (s.backend.release h.endpoint job).2.world
        held := before ++ after }
  | refresh (s : Lending) (p : Properties) :
    Step s [] { s with backend := (s.backend.refresh p).2 }
  | destroy (s : Lending) : Step s [] { s with backend := s.backend.destroy }
  /-- others open connections, and time goes by -/
  | elsewhere {s : Lending} {world : World}
      (opened : s.world.network.opened ≤ world.network.opened) : Step s [] { s with world }

/-- Any number of steps, in any order, with all calls that were made. -/
inductive Run : Lending → List Call → Lending → Prop
  | refl (s : Lending) : Run s [] s
  | step {s s' s'' : Lending} {log calls : List Call} (h : Run s log s')
      (hs : Step s' calls s'') : Run s (log ++ calls) s''

/-- What holds of all that is reached. -/
structure Sound (log : List Call) (s : Lending) : Prop where
  sized : s.backend.Sized
  fits : ∀ h ∈ s.held, h.endpoint.line.Fits s.backend.settings.packetSize
  connected : ∀ line ∈ s.backend.pooled, line.connection?.isSome = true
  earned : ∀ h ∈ s.held, h.endpoint.reuse = true → ∃ call, h.last? = some call ∧
    (s.backend.phase = .initialized → call.Ends h.endpoint.line)
  goes : ∀ call ∈ log, call.Goes
  accounted : Accounted log s.lines s.world.network.opened

variable {s s' : Lending} {log calls : List Call}

/-! ### One step -/

theorem Sound.acquire (hs : s.Sound log) {tx : Transaction} {line : Line} {b : Backend} {job : Job}
    (h : s.backend.acquire ⟨tx, s.world⟩ = (.ok line, b, job)) :
    Sound log ⟨b, job.world, s.held ++ [{ endpoint := { line } }]⟩ := by
  obtain ⟨hsized, hsettings, hline⟩ := hs.sized.acquire ⟨tx, s.world⟩
  rw [h] at hsized hsettings hline
  have hsettings : b.settings = s.backend.settings := hsettings
  obtain ⟨hphase, hnetwork, taken, hsub, htaken⟩ := Backend.acquire_ok h
  have hlines : (b.pooled ++ (s.held ++ [(⟨{ line }, none⟩ : Held)]).map Held.line).Perm
      (line :: (b.pooled ++ s.held.map Held.line)) := by
    rw [List.map_append, ← List.append_assoc]
    exact List.perm_append_singleton ..
  refine ⟨hsized, ?_, ?_, ?_, hs.goes, ?_⟩
  · rw [hsettings]
    refine List.forall_mem_append.2 ⟨hs.fits, List.forall_mem_singleton.2 (hline line rfl)⟩
  · exact fun line' hline' => hs.connected line' (hsub.subset (List.mem_append_right _ hline'))
  · rw [hphase]
    exact List.forall_mem_append.2 ⟨hs.earned, List.forall_mem_singleton.2 nofun⟩
  · show Accounted log (b.pooled ++ _) job.world.network.opened
    rw [hnetwork]
    rcases htaken with rfl | ⟨rfl, hids⟩
    · exact hs.accounted.mono (hlines.subperm.trans (hsub.append_right _).subperm) (Nat.le_refl _)
    · have hrest := hs.accounted.mono (hsub.append_right _).subperm (Nat.le_refl _)
      exact (hrest.cons hids).mono hlines.subperm (Nat.le_refl _)

theorem forall_mem_middle {α : Type} {P : α → Prop} {before after : List α} {a : α} :
    (∀ x ∈ before ++ a :: after, P x) ↔ P a ∧ ∀ x ∈ before ++ after, P x := by
  rw [← List.forall_mem_cons]
  exact forall_congr' fun x => by rw [List.perm_middle.mem_iff]

/-- The line of an endpoint in use, before all other lines. -/
theorem perm_lines (pooled : List Line) (before after : List Held) (h : Held) :
    (pooled ++ (before ++ h :: after).map Held.line).Perm
      (h.line :: (pooled ++ (before ++ after).map Held.line)) :=
  ((List.perm_middle.map Held.line).append_left pooled).trans List.perm_middle

/-- One endpoint in use, and those beside it. -/
theorem Sound.apart (hs : s.Sound log) {before after : List Held} {h : Held}
    (hheld : s.held = before ++ h :: after) :
    h.endpoint.line.Fits s.backend.settings.packetSize ∧
      (∀ g ∈ before ++ after, g.endpoint.line.Fits s.backend.settings.packetSize) ∧
      (∀ g ∈ before ++ after, g.endpoint.reuse = true → ∃ call, g.last? = some call ∧
        (s.backend.phase = .initialized → call.Ends g.endpoint.line)) ∧
      Accounted log (h.line :: (s.backend.pooled ++ (before ++ after).map Held.line))
        s.world.network.opened := by
  have hfits := hs.fits
  have hearned := hs.earned
  have haccounted := hs.accounted
  unfold lines at haccounted
  rw [hheld] at hfits hearned haccounted
  exact ⟨(forall_mem_middle.1 hfits).1, (forall_mem_middle.1 hfits).2,
    (forall_mem_middle.1 hearned).2,
    haccounted.mono (perm_lines ..).symm.subperm (Nat.le_refl _)⟩

theorem Sound.serve (hs : s.Sound log) {before after : List Held} {h : Held}
    (hheld : s.held = before ++ h :: after) {c : Call} (hbackend : c.backend = s.backend)
    (hendpoint : c.endpoint = h.endpoint) (hworld : c.job.world = s.world) :
    Sound (log ++ [c]) ⟨c.worker, c.after.world,
      before ++ { endpoint := c.left, last? := some c } :: after⟩ := by
  obtain ⟨hfits, hfitsRest, hearnedRest, haccounted⟩ := hs.apart hheld
  rw [← hendpoint] at hfits
  have hgoes := Call.goes hs.sized.size hfits
  have hleft := Call.fits hfits
  obtain ⟨hphase, hsettings, hpool⟩ := c.worker_keeps
  have hpooled : c.worker.pooled = s.backend.pooled := by
    unfold Backend.pooled
    rw [hpool, hbackend]
  rw [hbackend] at hphase hsettings hpool
  refine ⟨⟨?_, ?_⟩, ?_, ?_, ?_, ?_, ?_⟩
  · rw [hsettings]
    exact hs.sized.size
  · rw [hsettings, hpool]
    exact hs.sized.lines
  · rw [hsettings]
    exact forall_mem_middle.2 ⟨hleft, hfitsRest⟩
  · rw [hpooled]
    exact hs.connected
  · rw [hphase]
    refine forall_mem_middle.2 ⟨fun hreuse => ?_, hearnedRest⟩
    exact ⟨c, rfl, fun hopen => hgoes.of_reuse (hbackend ▸ hopen) hreuse⟩
  · exact List.forall_mem_append.2 ⟨hs.goes, List.forall_mem_singleton.2 hgoes⟩
  · show Accounted _ (c.worker.pooled ++ _) c.after.world.network.opened
    rw [show h.line = c.endpoint.line from congrArg Endpoint.line hendpoint.symm, ← hworld]
      at haccounted
    rw [hpooled]
    exact (haccounted.call hgoes).mono (perm_lines ..).subperm (Nat.le_refl _)

theorem Sound.release (hs : s.Sound log) {before after : List Held} {h : Held}
    (hheld : s.held = before ++ h :: after) {job : Job} (hworld : job.world = s.world) :
    Sound log ⟨(s.backend.release h.endpoint job).1, (s.backend.release h.endpoint job).2.world,
      before ++ after⟩ := by
  obtain ⟨hfits, hfitsRest, hearnedRest, haccounted⟩ := hs.apart hheld
  have hdropped := haccounted.mono (List.sublist_cons_self ..).subperm (Nat.le_refl _)
  unfold Backend.release
  by_cases hreuse : h.endpoint.reuse = true
  · rw [if_pos hreuse]
    obtain ⟨hphase, hsettings, hnetwork, hpooled⟩ := s.backend.keep_cases h.endpoint.line job
    refine ⟨hs.sized.keep hfits job, ?_, ?_, ?_, hs.goes, ?_⟩
    · rw [hsettings]
      exact hfitsRest
    · rcases hpooled with hpooled | ⟨hpooled, -, hsome⟩
      · rw [hpooled]
        exact hs.connected
      · rw [hpooled]
        exact List.forall_mem_cons.2 ⟨hsome, hs.connected⟩
    · rw [hphase]
      exact hearnedRest
    · show Accounted log (_ ++ _) (s.backend.keep h.endpoint.line job).2.world.network.opened
      rw [hnetwork, hworld]
      rcases hpooled with hpooled | ⟨hpooled, -, -⟩
      · rw [hpooled]
        exact hdropped
      · rw [hpooled]
        exact haccounted
  · rw [if_neg hreuse]
    refine ⟨hs.sized, hfitsRest, hs.connected, hearnedRest, hs.goes, ?_⟩
    show Accounted log (_ ++ _) job.world.network.opened
    rw [hworld]
    exact hdropped

/-- **What holds of all that is reached is kept by each step.** -/
theorem Sound.step (hs : s.Sound log) (h : Step s calls s') : s'.Sound (log ++ calls) := by
  cases h with
  | acquire acquired =>
    rw [List.append_nil]
    exact hs.acquire acquired
  | turnAway refused =>
    rw [List.append_nil]
    obtain ⟨rfl, rfl⟩ := Backend.acquire_error refused
    exact hs
  | serve held backend endpoint world => exact hs.serve held backend endpoint world
  | release held world =>
    rw [List.append_nil]
    exact hs.release held world
  | refresh p =>
    rw [List.append_nil]
    obtain ⟨hphase, hsize, hsub⟩ := s.backend.refresh_keeps p
    refine ⟨hs.sized.refresh p, ?_, fun line hline => hs.connected line (hsub.subset hline), ?_,
      hs.goes, hs.accounted.mono (hsub.append_right _).subperm (Nat.le_refl _)⟩
    · rw [hsize]
      exact hs.fits
    · rw [hphase]
      exact hs.earned
  | destroy =>
    rw [List.append_nil]
    have hsub : (s.backend.destroy.pooled ++ s.held.map Held.line).Sublist s.lines := by
      rw [s.backend.pooled_destroy]
      exact List.sublist_append_right ..
    refine ⟨hs.sized.destroy, hs.fits, ?_, ?_, hs.goes,
      hs.accounted.mono hsub.subperm (Nat.le_refl _)⟩
    · rw [s.backend.pooled_destroy]
      exact List.forall_mem_nil _
    · intro h hh hreuse
      obtain ⟨call, hlast, -⟩ := hs.earned h hh hreuse
      exact ⟨call, hlast, nofun⟩
  | elsewhere opened =>
    rw [List.append_nil]
    exact ⟨hs.sized, hs.fits, hs.connected, hs.earned, hs.goes,
      hs.accounted.mono (List.Subperm.refl _) opened⟩

/-- A line comes into the pool only from an endpoint whose line may be kept, and only while the
backend is open. -/
theorem Step.pooled (h : Step s calls s') {line : Line} (hline : line ∈ s'.backend.pooled) :
    line ∈ s.backend.pooled ∨ s.backend.phase = .initialized ∧
      ∃ h ∈ s.held, h.line = line ∧ h.endpoint.reuse = true := by
  cases h with
  | acquire acquired =>
    obtain ⟨-, -, taken, hsub, -⟩ := Backend.acquire_ok acquired
    exact .inl (hsub.subset (List.mem_append_right _ hline))
  | turnAway refused =>
    obtain ⟨rfl, -⟩ := Backend.acquire_error refused
    exact .inl hline
  | @serve before after h held c backend endpoint world =>
    have hpool : c.worker.pooled = s.backend.pooled := by
      unfold Backend.pooled
      rw [c.worker_keeps.2.2, backend]
    exact .inl (hpool ▸ hline)
  | @release before after h held job world =>
    have hmem : h ∈ s.held := by
      rw [held]
      exact List.mem_append_right _ List.mem_cons_self
    unfold Backend.release at hline
    by_cases hreuse : h.endpoint.reuse = true
    · rw [if_pos hreuse] at hline
      obtain ⟨-, -, -, hpooled | ⟨hpooled, hphase, -⟩⟩ := s.backend.keep_cases h.endpoint.line job
      · exact .inl (hpooled ▸ hline)
      · rw [hpooled] at hline
        rcases List.mem_cons.1 hline with rfl | hline
        · exact .inr ⟨hphase, h, hmem, rfl, hreuse⟩
        · exact .inl hline
    · rw [if_neg hreuse] at hline
      exact .inl hline
  | refresh p =>
    obtain ⟨-, -, hsub⟩ := s.backend.refresh_keeps p
    exact .inl (hsub.subset hline)
  | destroy =>
    rw [s.backend.pooled_destroy] at hline
    cases hline
  | elsewhere opened => exact .inl hline

/-! ### Runs -/

/-- By induction on the steps. -/
theorem Sound.run (hs : s.Sound []) (h : Run s log s') : s'.Sound log := by
  induction h with
  | refl => exact hs
  | step _ hstep ih => exact ih.step hstep

/-- An endpoint is taken, and a job is served at it. -/
theorem run_of_call {b b' : Backend} {job job' : Job} {line : Line} (held : List Held)
    (h : b.acquire job = (.ok line, b', job')) {c : Call} (hc : c = ⟨b', { line }, job'⟩) :
    Run ⟨b, job.world, held⟩ [c]
      ⟨c.worker, c.after.world, held ++ [⟨c.left, some c⟩]⟩ := by
  have hacquire : Step ⟨b, job.world, held⟩ [] ⟨b', job'.world, held ++ [⟨{ line }, none⟩]⟩ :=
    .acquire h
  have hserve : Step ⟨b', job'.world, held ++ [⟨{ line }, none⟩]⟩ [c]
      ⟨c.worker, c.after.world, held ++ [⟨c.left, some c⟩]⟩ :=
    .serve rfl (by rw [hc]) (by rw [hc]) (by rw [hc])
  exact ((Run.refl _).step hacquire).step hserve

/-- An endpoint is taken, a job is served at it, and it is given back. -/
theorem run_of_acquire {b b' : Backend} {job job' : Job} {line : Line} (held : List Held)
    (h : b.acquire job = (.ok line, b', job')) {c : Call} (hc : c = ⟨b', { line }, job'⟩) :
    Run ⟨b, job.world, held⟩ [c]
      ⟨(c.worker.release c.left c.after).1, (c.worker.release c.left c.after).2.world, held⟩ := by
  have hrelease : Step ⟨c.worker, c.after.world, held ++ [⟨c.left, some c⟩]⟩ []
      ⟨(c.worker.release c.left c.after).1, (c.worker.release c.left c.after).2.world,
        held ++ []⟩ :=
    @Step.release _ held [] ⟨c.left, some c⟩ rfl c.after rfl
  rw [List.append_nil] at hrelease
  exact (run_of_call held h hc).step hrelease

/-- To serve a job, with nothing in between, is to take such steps. -/
theorem run_of_serveAlone (b : Backend) (job : Job) (held : List Held) :
    ∃ log, Run ⟨b, job.world, held⟩ log
      ⟨(b.serveAlone job).2.1, (b.serveAlone job).2.2.world, held⟩ := by
  unfold Backend.serveAlone
  rcases ha : b.acquire job with ⟨r, b', job'⟩
  cases r with
  | error e => exact ⟨_, (Run.refl _).step (.turnAway ha)⟩
  | ok line =>
    dsimp only
    rw [b'.serveOn_eq line job']
    exact ⟨_, run_of_acquire held ha rfl⟩

/-- A backend is built with an empty pool. -/
theorem sound_of_create {hosts : Hosts} {p : Properties} {name : String} {b : Backend}
    (h : Worker.create hosts p name = .ok (.leaf (.backend b))) (world : World) :
    Sound [] ⟨b, world, []⟩ := by
  have hsized : (Target.backend b).Sized :=
    Worker.forall_leaves_leaf.1 (Worker.sized_build h)
  have hpooled : b.pooled = [] := by
    obtain ⟨kind, -, h⟩ := bind_eq_ok_iff.1 h
    cases kind with
    | ajp13 =>
      obtain ⟨settings, address, -, -, -, hw⟩ := Worker.new_backend_eq_ok_iff.1 h
      cases hw
      rfl
    | status => cases h
    | lb =>
      obtain ⟨settings, members, -, -, hw⟩ := Worker.balance_eq_ok_iff.1 h
      cases hw
  have hlines : lines ⟨b, world, []⟩ = [] := by
    unfold lines
    rw [hpooled]
    rfl
  refine ⟨hsized, List.forall_mem_nil _, ?_, List.forall_mem_nil _, List.forall_mem_nil _, ?_⟩
  · rw [hpooled]
    exact List.forall_mem_nil _
  · rw [hlines]
    exact {
      once := fun _ => Nat.zero_le _
      numbered := List.forall_mem_nil _
      used := List.forall_mem_nil _
      ended := List.forall_mem_nil _
      gone := fun before _ _ h => absurd h.symm (by simp) }

/-- **Only connections of exchanges that ended are pooled.**  In every run of a backend from when it
is built, a line comes into the pool only while the backend is open, from an endpoint whose last
call gave a status after an end of the response with the byte 1.  The connections in the pool have
not been used since then.  And a connection that a call leaves in any other way, after an error,
another byte or none, is closed: it is nowhere, and no later call has it. -/
theorem pooled_ended {hosts : Hosts} {p : Properties} {name : String} {b : Backend}
    (hb : Worker.create hosts p name = .ok (.leaf (.backend b))) {world : World}
    {log : List Call} {s : Lending} (hrun : Run ⟨b, world, []⟩ log s) :
    (∀ calls s', Step s calls s' → ∀ line ∈ s'.backend.pooled, line ∈ s.backend.pooled ∨
      s.backend.phase = .initialized ∧
        ∃ h ∈ s.held, h.line = line ∧ ∃ call, h.last? = some call ∧ call.Ends line) ∧
    (∀ line ∈ s.backend.pooled, ∃ connection, line.connection? = some connection ∧
      ∃ before call after, log = before ++ call :: after ∧ call.Ends line ∧
        ∀ later ∈ after, ¬ later.Uses connection.id) ∧
    ∀ before call after, log = before ++ call :: after →
      call.Goes ∧ call.job.world.Reaches call.Uses call.after.world ∧
      ∀ id, call.Uses id → ¬ call.Spares id →
        id ∉ Line.allIds s.lines ∧ ∀ later ∈ after, ¬ later.Uses id := by
  have hsound := (sound_of_create hb world).run hrun
  refine ⟨fun calls s' hstep line hline => ?_, fun line hline => ?_,
    fun before call after hlog => ⟨?_, call.reaches, hsound.accounted.gone before call after hlog⟩⟩
  · rcases hstep.pooled hline with hline | ⟨hphase, h, hh, rfl, hreuse⟩
    · exact .inl hline
    · obtain ⟨call, hlast, hends⟩ := hsound.earned h hh hreuse
      exact .inr ⟨hphase, h, hh, rfl, call, hlast, hends hphase⟩
  · obtain ⟨connection, hconnection⟩ := Option.isSome_iff_exists.1 (hsound.connected line hline)
    exact ⟨connection, hconnection, hsound.accounted.ended line (List.mem_append_left _ hline)
      connection.id (Line.mem_ids.2 ⟨connection, hconnection, rfl⟩)⟩
  · exact hsound.goes call (hlog ▸ List.mem_append_right _ List.mem_cons_self)

/-! ### A connection that is kept -/

/-- A backend as it is built where nothing is set. -/
def porter : Backend where
  name := "a"
  phase := .initialized
  address? := some ⟨.localhost, 8009, 0⟩
  options := ({} : BackendSettings).socketOptions
  pool? := some { capacity := 1, idleLimit? := ({} : BackendSettings).cacheLimit? }

theorem create_porter : Worker.create .loopback ⟨[]⟩ "a" = .ok (.leaf (.backend porter)) := by
  have hkind : WorkerKind.read ⟨[]⟩ "a" = .ok .ajp13 := by decide +kernel
  unfold Worker.create Worker.build
  rw [hkind]
  have hread : BackendSettings.read ⟨[]⟩ "a" = .ok {} := by decide +kernel
  have hresolve : Hosts.loopback.resolve "localhost" 8009 = .ok ⟨.localhost, 8009, 0⟩ := by
    decide +kernel
  exact Worker.new_backend_eq_ok_iff.2 ⟨{}, _, hread, hresolve, by decide, rfl⟩

/-- The porter's first call, by a greeted client. -/
def welcome : Call where
  backend := porter
  endpoint := { line := .new defaultSize }
  job := { Backend.greeted with world.clock := 1 }

/-- The greeting ends so that its connection, the first one, may be kept. -/
theorem left_welcome :
    ∃ line connection, welcome.left = { line, reuse := true } ∧ welcome.worker = porter.busy ∧
      line.connection? = some connection ∧ connection.id = 0 := by
  have hcapacity := Buffer.capacity_new_of_le (by decide : headerSize ≤ defaultSize)
  have hmethod : methodCode? (porter.busy.forwardRequest welcome.job.tx).method = some 2 := by
    decide
  have hencode := ForwardRequest.run_encode (m := .new defaultSize) hmethod (by decide)
    (by rw [hcapacity]; decide) (by rw [hcapacity]; decide)
  obtain ⟨connection, world, hconnect, hstream, hfirst⟩ : ∃ connection world,
      welcome.job.world.connect ⟨.localhost, 8009, 0⟩ porter.busy.options =
        (.ok connection, world) ∧
      connection.stream = Backend.greetingStream ∧ connection.id = 0 :=
    ⟨_, _, rfl, rfl, rfl⟩
  have hclient : welcome.job.tx.channel.plan.NeverFails :=
    ⟨fun _ => ⟨none, rfl⟩, fun _ => rfl, fun _ => rfl⟩
  obtain ⟨w, hid, hx⟩ :=
    Backend.exchange_of_greeting rfl hconnect hstream hclient nofun ⟨_, hencode⟩
  have htwice : welcome.backend.busy.exchangeTwice welcome.endpoint.line welcome.job =
      (.ok (200, true),
        { connection? := some w.connection, request := w.request, reply := w.reply }, w.job) := by
    unfold Backend.exchangeTwice
    rw [show welcome.backend.busy = porter.busy from rfl,
      show welcome.endpoint.line = .new defaultSize from rfl, hx]
  obtain ⟨-, hleft, hworker, -⟩ := Call.of_ok rfl htwice
  exact ⟨_, w.connection, hleft, hworker, rfl, hid.trans hfirst⟩

/-- Released, it lies in the pool, where that call left it. -/
theorem pooled_ended_welcome :
    ∃ s line connection, Worker.create .loopback ⟨[]⟩ "a" = .ok (.leaf (.backend porter)) ∧
      Run ⟨porter, Backend.greeted.world, []⟩ [welcome] s ∧ s.backend.pooled = [line] ∧
      line.connection? = some connection ∧ connection.id = 0 ∧
      ∃ before call after, [welcome] = before ++ call :: after ∧ call.Ends line ∧
        ∀ later ∈ after, ¬ later.Uses 0 := by
  obtain ⟨line, connection, hleft, hworker, hconnection, hid⟩ := left_welcome
  have hacquire : porter.acquire ⟨Backend.greeted.tx, Backend.greeted.world⟩ =
      (.ok (.new defaultSize), porter, welcome.job) := rfl
  have hrun := run_of_acquire [] hacquire (c := welcome) rfl
  obtain ⟨r, hr⟩ : ∃ r, welcome.worker.release welcome.left welcome.after = r := ⟨_, rfl⟩
  rw [hr] at hrun
  have hpooled : r.1.pooled = [line] := by
    rw [← hr, hleft, hworker]
    unfold Backend.release Backend.keep
    have hkept : porter.busy.phase = .initialized ∧ line.connection?.isSome = true := by
      rw [hconnection]
      exact ⟨rfl, rfl⟩
    rw [if_pos rfl, if_pos hkept]
    rfl
  obtain ⟨-, hclean, -⟩ := pooled_ended create_porter hrun
  obtain ⟨connection', hconnection', hlog⟩ := hclean line (hpooled ▸ List.mem_singleton_self line)
  obtain rfl : connection' = connection := Option.some.inj (hconnection'.symm.trans hconnection)
  rw [hid] at hlog
  exact ⟨_, line, connection', create_porter, hrun, hpooled, hconnection, hid, hlog⟩

end Lending

end AjpGateway
