import AjpGateway.Proofs.Results
import AjpGateway.Proofs.Worker.Setup
import AjpGateway.Worker.Registry

/-!
# New settings

What becomes of workers that take over another configuration: every worker of a tree is under its
settings, and keeps what they do not say.  A tree that accepts a configuration takes it over, since
nothing is read that was not read for acceptance.

    w.checkRefresh p = .ok () → ∃ w', w.refresh p = (.ok (), w') ∧ w.Renewed p w'
                                                                       (refresh_of_checkRefresh)

The records of a balancer's members are given the settings of its workers in turn, so they have to
lie in the same order (`Worker.Aligned`).
-/

namespace AjpGateway

open Balancer (Setup)

/-! ## Under new settings -/

/-- A container's worker.  It keeps its address and packet size.  Of its connections those go that
there is no room for, and all of them where sockets are opened with other options. -/
structure Backend.Renewed (p : Properties) (b b' : Backend) : Prop where
  settings : ∃ s, BackendSettings.read p b.name = .ok s ∧ b'.settings = { s with
    host := b.settings.host, port := b.settings.port, packetSize := b.settings.packetSize }
  options : b'.options = b'.settings.socketOptions
  pool : b'.pool? = b.pool?.map fun pool => {
    entries := if b'.options = b.options then pool.entries.take b'.settings.cacheSize else []
    capacity := b'.settings.cacheSize
    idleLimit? := b'.settings.cacheLimit? }
  kept : b'.name = b.name ∧ b'.phase = b.phase ∧ b'.address? = b.address? ∧
    b'.requests = b.requests ∧ b'.errors = b.errors

inductive Target.Renewed (p : Properties) : Target → Target → Prop where
  | backend {b b' : Backend} (h : b.Renewed p b') : Renewed p (.backend b) (.backend b')
  | monitor (m : Monitor) : Renewed p (.monitor m) (.monitor m)

/-- A member's record.  Its load starts again. -/
structure Member.Renewed (p : Properties) (m m' : Member Float) : Prop where
  settings : MemberSettings.read p m.name = .ok m'.settings
  load : m'.load = 0
  kept : m'.name = m.name ∧ m'.inError = m.inError ∧ m'.recovering = m.recovering ∧
    m'.errorTime? = m.errorTime? ∧ m'.elected = m.elected ∧ m'.errors = m.errors

/-- A balancer.  It keeps its members. -/
structure Balancer.Renewed (p : Properties) (b b' : Balancer Float) : Prop where
  settings : ∃ s, BalancerSettings.read p b.name = .ok s ∧
    b'.settings = { s with members := b.settings.members }
  members : List.Forall₂ (Member.Renewed p) b.members b'.members
  kept : b'.name = b.name ∧ b'.phase = b.phase ∧ b'.next = b.next ∧ b'.maintained = b.maintained

inductive Worker.Renewed (p : Properties) : Worker Target → Worker Target → Prop where
  | leaf {t t' : Target} (h : t.Renewed p t') : Renewed p (.leaf t) (.leaf t')
  | balancer {b b' : Balancer Float} {ws ws' : List (Worker Target)} (h : b.Renewed p b')
      (hs : List.Forall₂ (Renewed p) ws ws') : Renewed p (.balancer b ws) (.balancer b' ws')

/-- All workers, under the names that they are registered by. -/
def Registry.Renewed (p : Properties) (r r' : Registry Target) : Prop :=
  List.Forall₂ (fun e e' => e'.1 = e.1 ∧ e.2.Renewed p e'.2) r.entries r'.entries

variable {p : Properties}

/-! ## Taking settings over -/

theorem Pool.clear_reconfigure_unless {α : Type} (pool : Pool α) (capacity : Nat)
    (idleLimit? : Option Duration) (c : Prop) [Decidable c] :
    (if c then pool.reconfigure capacity idleLimit?
      else (pool.reconfigure capacity idleLimit?).clear) =
      { entries := if c then pool.entries.take capacity else [], capacity, idleLimit? } := by
  by_cases h : c
  · rw [if_pos h, if_pos h]
    rfl
  · rw [if_neg h, if_neg h]
    rfl

theorem Backend.renewed_apply {b : Backend} {s : BackendSettings}
    (h : BackendSettings.read p b.name = .ok s) : b.Renewed p (b.apply s) where
  settings := ⟨s, h, rfl⟩
  options := rfl
  pool := congrArg b.pool?.map (funext fun pool => pool.clear_reconfigure_unless _ _ _)
  kept := ⟨rfl, rfl, rfl, rfl, rfl⟩

theorem Target.refresh_of_checkRefresh {t : Target} (h : Leaf.checkRefresh p t = .ok ()) :
    ∃ t', t.refresh p = (.ok (), t') ∧ t.Renewed p t' := by
  cases t with
  | monitor m => exact ⟨.monitor m, rfl, .monitor m⟩
  | backend b =>
    have h : b.checkRefresh p = .ok () := h
    unfold Backend.checkRefresh at h
    cases hs : BackendSettings.read p b.name with
    | error e =>
      rw [hs] at h
      cases h
    | ok s =>
      refine ⟨.backend (b.apply s), ?_, .backend (Backend.renewed_apply hs)⟩
      simp only [Target.refresh, Backend.refresh, hs]

theorem Member.renewed_apply {m : Member Float} {s : MemberSettings Float}
    (h : MemberSettings.read p m.name = .ok s) :
    m.Renewed p { m.apply s with load := 0 } where
  settings := h
  load := rfl
  kept := ⟨rfl, rfl, rfl, rfl, rfl, rfl⟩

namespace Balancer

/-- What is read for a balancer: its own settings, and those of the names given. -/
theorem readSettings_eq_ok_iff {b : Balancer Float} {names : List String} {s : BalancerSettings}
    {ss : List (MemberSettings Float)} :
    b.readSettings names p = .ok (s, ss) ↔ BalancerSettings.read p b.name = .ok s ∧
      List.Forall₂ (fun name s => MemberSettings.read p name = .ok s) names ss := by
  unfold readSettings
  simp only [bind_eq_ok_iff, mapM_eq_ok_iff, mapError_eq_ok_iff]
  constructor
  · rintro ⟨s', hs, ss', hss, h⟩
    cases h
    exact ⟨hs, hss⟩
  · rintro ⟨hs, hss⟩
    exact ⟨s, hs, ss, hss, rfl⟩

theorem renewed_refreshed {ms : List (Member Float)} {ss : List (MemberSettings Float)}
    (h : List.Forall₂ (fun name s => MemberSettings.read p name = .ok s) (ms.map Member.name) ss) :
    List.Forall₂ (Member.Renewed p) ms (apply.refreshed ms ss) := by
  induction ms generalizing ss with
  | nil =>
    rw [List.forall₂_nil_left_iff.1 h]
    exact .nil
  | cons m ms ih =>
    obtain ⟨s, ss', hs, hss, rfl⟩ := List.forall₂_cons_left_iff.1 h
    exact .cons (Member.renewed_apply hs) (ih hss)

theorem renewed_apply {b : Balancer Float} {s : BalancerSettings}
    {ss : List (MemberSettings Float)}
    (h : b.readSettings (b.members.map Member.name) p = .ok (s, ss)) :
    b.Renewed p (b.apply s ss) where
  settings := ⟨s, (readSettings_eq_ok_iff.1 h).1, rfl⟩
  members := renewed_refreshed (readSettings_eq_ok_iff.1 h).2
  kept := ⟨rfl, rfl, rfl, rfl⟩

end Balancer

/-! ## Trees -/

namespace Worker

/-- Every balancer has a record for each of its workers, in the same order. -/
def Aligned {α : Type} [Leaf α] (w : Worker α) : Prop :=
  ∀ x ∈ w.balancers, x.1.members.map Member.name = x.2.map name

mutual

/-- By induction on the tree: what accepts a configuration takes it over. -/
theorem refresh_of_checkRefresh : ∀ {w : Worker Target}, w.Aligned → w.checkRefresh p = .ok () →
    ∃ w', w.refresh p = (.ok (), w') ∧ w.Renewed p w'
  | leaf t, _, h => by
    obtain ⟨t', ht, hr⟩ := Target.refresh_of_checkRefresh h
    have ht : Leaf.refresh p t = (.ok (), t') := ht
    refine ⟨leaf t', ?_, .leaf hr⟩
    rw [refresh, ht]
  | balancer b ws, ha, h => by
    obtain ⟨hnames, hws⟩ := forall_balancers_iff.1 ha
    rw [checkRefresh] at h
    cases hread : b.readSettings (ws.map name) p with
    | error e =>
      rw [hread] at h
      cases h
    | ok read =>
      rw [hread] at h
      obtain ⟨ws', hr, hrs⟩ := refreshAll_of_checkRefreshAll hws h
      refine ⟨balancer (b.apply read.1 read.2) ws', ?_, .balancer ?_ hrs⟩
      · rw [refresh, hread]
        dsimp only at h ⊢
        rw [h, hr]
      · -- settings were read for the workers and go to the records
        rw [← hnames] at hread
        exact Balancer.renewed_apply hread

theorem refreshAll_of_checkRefreshAll : ∀ {ws : List (Worker Target)}, (∀ w ∈ ws, w.Aligned) →
    checkRefreshAll p ws = .ok () →
    ∃ ws', refreshAll p ws = (.ok (), ws') ∧ List.Forall₂ (Renewed p) ws ws'
  | [], _, _ => ⟨[], rfl, .nil⟩
  | w :: rest, ha, h => by
    obtain ⟨hw, hrest⟩ := List.forall_mem_cons.1 ha
    rw [checkRefreshAll] at h
    cases hc : w.checkRefresh p with
    | error e =>
      rw [hc] at h
      cases h
    | ok _ =>
      rw [hc] at h
      obtain ⟨w', hw', hr⟩ := refresh_of_checkRefresh hw hc
      obtain ⟨rest', hrest', hrs⟩ := refreshAll_of_checkRefreshAll hrest h
      refine ⟨w' :: rest', ?_, .cons hr hrs⟩
      rw [refreshAll, hw']
      dsimp only
      rw [hrest']

end

/-! ## What stays -/

theorem Renewed.name_eq {w w' : Worker Target} (h : w.Renewed p w') : w'.name = w.name := by
  cases h with
  | balancer h _ => exact h.kept.1
  | leaf h =>
    cases h with
    | backend h => exact h.kept.1
    | monitor m => rfl

theorem Renewed.map_name {ws ws' : List (Worker Target)} (h : List.Forall₂ (Renewed p) ws ws') :
    ws'.map name = ws.map name :=
  map_eq_of_forall₂ (fun _ _ h => h.name_eq) h

mutual

/-- Every balancer of a renewed tree was there before, with workers of the same names. -/
theorem Renewed.exists_balancer : ∀ {w w' : Worker Target}, w.Renewed p w' →
    ∀ x' ∈ w'.balancers, ∃ x ∈ w.balancers, x.1.Renewed p x'.1 ∧ x'.2.map name = x.2.map name
  | _, _, .leaf _, x', hx => absurd hx List.not_mem_nil
  | .balancer b ws, .balancer b' ws', .balancer h hs, x', hx => by
    rw [balancers] at hx ⊢
    rcases List.mem_cons.1 hx with rfl | hx
    · exact ⟨(b, ws), List.mem_cons_self, h, Renewed.map_name hs⟩
    · obtain ⟨x, hmem, hx⟩ := RenewedAll.exists_balancer hs x' hx
      exact ⟨x, List.mem_cons_of_mem _ hmem, hx⟩

theorem RenewedAll.exists_balancer : ∀ {ws ws' : List (Worker Target)},
    List.Forall₂ (Renewed p) ws ws' → ∀ x' ∈ balancersAll ws',
      ∃ x ∈ balancersAll ws, x.1.Renewed p x'.1 ∧ x'.2.map name = x.2.map name
  | [], [], _, x', hx => absurd hx List.not_mem_nil
  | w :: ws, w' :: ws', .cons h hs, x', hx => by
    rw [balancersAll] at hx ⊢
    rcases List.mem_append.1 hx with hx | hx
    · obtain ⟨x, hmem, hx⟩ := Renewed.exists_balancer h x' hx
      exact ⟨x, List.mem_append_left _ hmem, hx⟩
    · obtain ⟨x, hmem, hx⟩ := RenewedAll.exists_balancer hs x' hx
      exact ⟨x, List.mem_append_right _ hmem, hx⟩

end

/-! ## Configurations that trees follow -/

/-- A balancer over the members that one configuration names, each under the settings that another
gives it. -/
structure SetupFollows (p₀ p : Properties) (s : Setup Float) (names : List String) : Prop where
  members : s.members.map Prod.fst = names
  listed : names = BalancerSettings.memberNames p₀ s.name
  settings : ∀ m ∈ s.members, MemberSettings.read p m.1 = .ok m.2

/-- Every balancer of the tree follows: `p₀` chose the members and `p` gave the settings. -/
def Follows (p₀ p : Properties) (w : Worker Target) : Prop :=
  ∀ x ∈ w.balancers, SetupFollows p₀ p x.1.setup (x.2.map name)

variable {p₀ q : Properties}

theorem Follows.aligned {w : Worker Target} (h : w.Follows p₀ p) : w.Aligned := by
  intro x hx
  rw [← (h x hx).members, Balancer.map_fst_members_setup]

theorem Follows.sameSetup {w w' : Worker Target} (h : w.Follows p₀ p) (hs : SameSetup w w') :
    w'.Follows p₀ p :=
  hs.forall_setup h

theorem Follows.renewed {w w' : Worker Target} (h : w.Follows p₀ p) (hr : w.Renewed q w') :
    w'.Follows p₀ q := by
  intro x' hx'
  obtain ⟨x, hx, hb, hnames⟩ := hr.exists_balancer x' hx'
  exact {
    members := by
      rw [hnames, ← (h x hx).members, Balancer.map_fst_members_setup,
        Balancer.map_fst_members_setup]
      exact map_eq_of_forall₂ (fun _ _ hm => hm.kept.1) hb.members
    listed := by
      rw [hnames, (h x hx).listed]
      exact congrArg _ hb.kept.1.symm
    settings := by
      intro m hm
      obtain ⟨m', hm', rfl⟩ := List.mem_map.1 hm
      obtain ⟨r, -, hr⟩ := exists_of_forall₂_right hb.members hm'
      show MemberSettings.read q m'.name = .ok m'.settings
      rw [hr.kept.1, hr.settings] }

end Worker

/-! ## Registries -/

namespace Registry

theorem refreshEntries_of_checkRefresh {entries : List (String × Worker Target)}
    (ha : ∀ e ∈ entries, e.2.Aligned) (h : ∀ e ∈ entries, e.2.checkRefresh p = .ok ()) :
    ∃ entries', refreshEntries p entries = (.ok (), entries') ∧
      List.Forall₂ (fun e e' => e'.1 = e.1 ∧ e.2.Renewed p e'.2) entries entries' := by
  induction entries with
  | nil => exact ⟨[], rfl, .nil⟩
  | cons e rest ih =>
    obtain ⟨hae, harest⟩ := List.forall_mem_cons.1 ha
    obtain ⟨he, hrest⟩ := List.forall_mem_cons.1 h
    obtain ⟨w', hw', hr⟩ := Worker.refresh_of_checkRefresh hae he
    obtain ⟨rest', hrest', hrs⟩ := ih harest hrest
    refine ⟨(e.1, w') :: rest', ?_, .cons ⟨rfl, hr⟩ hrs⟩
    unfold refreshEntries
    rw [hw']
    dsimp only
    rw [hrest']

/-- **A registry that accepts a configuration takes it over.** -/
theorem refresh_of_checkRefresh {r : Registry Target} (ha : ∀ e ∈ r.entries, e.2.Aligned)
    (h : r.checkRefresh p = .ok ()) : ∃ r', r.refresh p = (.ok (), r') ∧ r.Renewed p r' := by
  obtain ⟨entries, he, hr⟩ := refreshEntries_of_checkRefresh ha (forM_eq_ok_iff.1 h)
  refine ⟨⟨entries⟩, ?_, hr⟩
  unfold refresh
  rw [he]

end Registry

end AjpGateway
