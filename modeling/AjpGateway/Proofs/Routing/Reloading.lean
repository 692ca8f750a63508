import AjpGateway.Config.Loading
import AjpGateway.Proofs.Results
import AjpGateway.Proofs.Routing.Registration

/-!
# Reloading tables

Whether mounts make a table does not depend on its generation, and a reload puts the table of the
next generation in use.  The rules of a table name the workers of its mounts, without the blanks
around them.

    build mounts g = .ok t → build mounts g' = .ok { t with generation := g' }        (build_again)
    t.reload mounts = .ok t' ↔ ∃ next, build mounts (t.generation + 1) = .ok next ∧ …
                                                                              (reload_eq_ok_iff)
    build mounts g = .ok t → r ∈ t.all → ∃ m ∈ mounts, r.worker = Text.trimmed m.worker
                                                                                (exists_mount)
-/

namespace AjpGateway

/-! ## The workers of rules -/

theorem Rule.worker_of_read {raw worker : String} {r : Rule} (h : read raw worker = .ok r) :
    r.worker = Text.trimmed worker := by
  have h := mapError_eq_ok_iff.1 h
  unfold readParts at h
  dsimp only at h
  split at h
  · cases h
  · split at h
    · cases h
    · split at h
      · cases h
      · split at h
        · cases h
        · obtain ⟨x, -, rfl⟩ := map_eq_ok_iff.1 h
          rfl

theorem Rule.worker_of_readMount {raw worker : String} {rules : List Rule}
    (h : readMount raw worker = .ok rules) : ∀ r ∈ rules, r.worker = Text.trimmed worker := by
  unfold readMount at h
  dsimp only at h
  split at h
  · obtain ⟨r, hr, rfl⟩ := map_eq_ok_iff.1 h
    exact List.forall_mem_singleton.2 (worker_of_read hr)
  · split at h
    · cases h
    · split at h
      · cases h
      · next first hfirst =>
        obtain ⟨second, hsecond, rfl⟩ := map_eq_ok_iff.1 h
        exact List.forall_mem_cons.2
          ⟨worker_of_read hfirst, List.forall_mem_singleton.2 (worker_of_read hsecond)⟩

namespace RuleTable

variable {mounts : List Mount} {generation : Nat} {t : RuleTable}

theorem exists_mount (h : build mounts generation = .ok t) {r : Rule} (hr : r ∈ t.all) :
    ∃ m ∈ mounts, r.worker = Text.trimmed m.worker := by
  obtain ⟨rules, hrules, before, after, he, -⟩ := (mem_all_iff h).1 hr
  obtain ⟨lists, hlists, rfl⟩ := map_eq_ok_iff.1 hrules
  have hmem : r ∈ lists.flatten := he ▸ List.mem_append_right before List.mem_cons_self
  obtain ⟨list, hlist, hmem⟩ := List.mem_flatten.1 hmem
  obtain ⟨m, hm, hread⟩ := exists_of_forall₂_right (mapM_eq_ok_iff.1 hlists) hlist
  exact ⟨m, hm, Rule.worker_of_readMount hread r hmem⟩

theorem mem_all_of_mem_rules (h : build mounts generation = .ok t) {r : Rule} (hr : r ∈ t.rules) :
    r ∈ t.all :=
  (mem_all_iff h).2 ((mem_rules_iff h).1 hr).1

/-- The worker of a URI is named by a rule of the table. -/
theorem exists_rule_of_resolve (h : build mounts generation = .ok t) {uri : String}
    {found : Resolution} (hf : t.resolve uri = some found) :
    ∃ r ∈ t.all, r.worker = found.worker := by
  unfold resolve at hf
  split at hf
  · cases hf
  · obtain ⟨⟨r, fraud⟩, hchosen, hf⟩ := Option.bind_eq_some_iff.1 hf
    dsimp only at hf
    split at hf
    · cases hf
    · cases hf
      refine ⟨r, mem_all_of_mem_rules h ?_, rfl⟩
      unfold choose? at hchosen
      split at hchosen
      · next hfind =>
        cases hchosen
        exact List.mem_of_find?_eq_some hfind
      · obtain ⟨r', hfind, he⟩ := Option.map_eq_some_iff.1 hchosen
        cases he
        exact List.mem_of_find?_eq_some hfind

theorem exists_build_iff : (∃ t, build mounts generation = .ok t) ↔
    ∀ m ∈ mounts, ∃ rules, Rule.readMount m.pattern m.worker = .ok rules := by
  unfold build
  simp only [map_eq_ok_iff, registerMounts_eq, Rule.ofMounts, mapM_eq_ok_iff]
  constructor
  · rintro ⟨t, rules, ⟨-, ⟨lists, hlists, -⟩, -⟩, -⟩ m hm
    obtain ⟨list, -, hlist⟩ := exists_of_forall₂_left hlists hm
    exact ⟨list, hlist⟩
  · intro h
    obtain ⟨lists, hlists⟩ := exists_forall₂ h
    exact ⟨_, _, ⟨_, ⟨lists, hlists, rfl⟩, rfl⟩, rfl⟩

/-! ## Generations -/

theorem generation_of_build (h : build mounts generation = .ok t) : t.generation = generation := by
  obtain ⟨rules, -, rfl⟩ := map_eq_ok_iff.1 h
  rfl

theorem build_again (h : build mounts generation = .ok t) (next : Nat) :
    build mounts next = .ok { t with generation := next } := by
  obtain ⟨rules, hrules, rfl⟩ := map_eq_ok_iff.1 h
  exact map_eq_ok_iff.2 ⟨rules, hrules, rfl⟩

end RuleTable

namespace LiveTable

@[simp] theorem table_turn_store (t : LiveTable) (next : RuleTable) :
    (t.store next).turn.table = next := by
  obtain ⟨left, right, active⟩ := t
  cases active <;> rfl

theorem table_of_new {mounts : List Mount} {t : LiveTable} (h : new mounts = .ok t) :
    RuleTable.build mounts 1 = .ok t.table := by
  obtain ⟨next, hnext, rfl⟩ := map_eq_ok_iff.1 h
  exact hnext

theorem reload_eq_ok_iff {mounts : List Mount} {t t' : LiveTable} :
    t.reload mounts = .ok t' ↔
      ∃ next, RuleTable.build mounts (t.generation + 1) = .ok next ∧ (t.store next).turn = t' :=
  map_eq_ok_iff

theorem table_of_reload {mounts : List Mount} {t t' : LiveTable} (h : t.reload mounts = .ok t') :
    RuleTable.build mounts (t.generation + 1) = .ok t'.table := by
  obtain ⟨next, hnext, rfl⟩ := reload_eq_ok_iff.1 h
  rw [table_turn_store]
  exact hnext

end LiveTable

/-! ## Checked mounts -/

theorem Config.checkMounts_eq_ok_iff {known : String → Bool} {mounts : List Mount} :
    checkMounts known mounts = .ok () ↔ ∀ m ∈ mounts, known (Text.trimmed m.worker) = true := by
  unfold checkMounts unknownMount?
  cases h : mounts.find? fun m => !known (Text.trimmed m.worker) with
  | none => simpa using h
  | some m =>
    have hm := List.mem_of_find?_eq_some h
    have hunknown := List.find?_some h
    constructor
    · intro h
      cases h
    · intro h
      rw [h m hm] at hunknown
      cases hunknown

/-- A watched file is taken over if it can be read, its workers are known where they have to be, and
its mounts make a table. -/
theorem LiveTable.reloadFile_eq_ok_iff {t t' : LiveTable} {env : Environment}
    {known? : Option (List String)} {file : File} :
    t.reloadFile env known? file = .ok t' ↔ ∃ p, Config.read env file = .ok p ∧
      (∀ known, known? = some known → ∀ m ∈ p.mounts, Text.trimmed m.worker ∈ known) ∧
      t.reload p.mounts = .ok t' := by
  unfold reloadFile
  cases known? with
  | none =>
    simp only [bind_eq_ok_iff, mapError_eq_ok_iff]
    constructor
    · rintro ⟨p, hp, ht⟩
      refine ⟨p, hp, ?_, ht⟩
      intro known hknown
      cases hknown
    · rintro ⟨p, hp, -, ht⟩
      exact ⟨p, hp, ht⟩
  | some known =>
    simp only [bind_eq_ok_iff, mapError_eq_ok_iff]
    constructor
    · rintro ⟨p, hp, _, hm, ht⟩
      refine ⟨p, hp, ?_, ht⟩
      intro known' hknown m hmem
      cases hknown
      exact List.contains_iff_mem.1 (Config.checkMounts_eq_ok_iff.1 hm m hmem)
    · rintro ⟨p, hp, hm, ht⟩
      refine ⟨p, hp, (), Config.checkMounts_eq_ok_iff.2 fun m hmem => ?_, ht⟩
      exact List.contains_iff_mem.2 (hm known rfl m hmem)

end AjpGateway
