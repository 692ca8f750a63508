import AjpGateway.Proofs.Worker.Alike
import AjpGateway.Proofs.Worker.Building

/-!
# Registered workers

A registry of a configuration holds the listed workers, each under its name.  No request and no
change of settings takes a worker out of it, and its balancers keep following the configuration
that chose their members and the one that gave their settings.

    ofProperties hosts p = .ok r → (r.contains name ↔ name ∈ p.workers)  (contains_ofProperties_iff)
    r.Follows p₀ p → r.serve? name job = some (o, r', j) → r'.Follows p₀ p        (Follows.serve?)
-/

namespace AjpGateway.Registry

/-! ## Entries -/

section
variable {α : Type}

theorem mem_of_mem_insertEntry {name : String} {w : Worker α} {entries : List (String × Worker α)}
    {e : String × Worker α} (h : e ∈ insertEntry name w entries) : e = (name, w) ∨ e ∈ entries := by
  induction entries with
  | nil => exact .inl (List.mem_singleton.1 h)
  | cons a rest ih =>
    unfold insertEntry at h
    split at h
    · exact (List.mem_cons.1 h).imp_right (List.mem_cons_of_mem a)
    · split at h
      · exact List.mem_cons.1 h
      · rcases List.mem_cons.1 h with rfl | h
        · exact .inr List.mem_cons_self
        · exact (ih h).imp_right (List.mem_cons_of_mem a)

theorem mem_names_insertEntry_iff {name x : String} {w : Worker α}
    {entries : List (String × Worker α)} :
    x ∈ (insertEntry name w entries).map Prod.fst ↔ x = name ∨ x ∈ entries.map Prod.fst := by
  induction entries with
  | nil => exact List.mem_cons
  | cons a rest ih =>
    unfold insertEntry
    by_cases he : name = a.1
    · rw [if_pos he, List.map_cons, List.map_cons, List.mem_cons, List.mem_cons, ← he, ← or_assoc,
        or_self]
    · rw [if_neg he]
      by_cases hlt : name < a.1
      · rw [if_pos hlt]
        exact List.mem_cons
      · rw [if_neg hlt, List.map_cons, List.map_cons, List.mem_cons, List.mem_cons, ih,
          or_left_comm]

theorem contains_iff {r : Registry α} {name : String} :
    r.contains name = true ↔ name ∈ r.names := by
  simp [contains, find?, names, List.lookup_isSome_iff]

theorem mem_of_find? {r : Registry α} {name : String} {w : Worker α} (h : r.find? name = some w) :
    (name, w) ∈ r.entries := by
  obtain ⟨before, after, he, -⟩ := List.lookup_eq_some_iff.1 h
  rw [he]
  exact List.mem_append_right before List.mem_cons_self

@[simp] theorem names_map (f : Worker α → Worker α) (r : Registry α) :
    (r.map f).names = r.names := by
  simp [names, map]

variable [Leaf α]

theorem mem_of_mem_insert {r : Registry α} {w : Worker α} {e : String × Worker α}
    (h : e ∈ (r.insert w).entries) : e = (w.name, w) ∨ e ∈ r.entries :=
  mem_of_mem_insertEntry h

theorem mem_names_insert_iff {r : Registry α} {w : Worker α} {x : String} :
    x ∈ (r.insert w).names ↔ x = w.name ∨ x ∈ r.names :=
  mem_names_insertEntry_iff

theorem mem_of_mem_foldl_insert {ws : List (Worker α)} {r : Registry α} {e : String × Worker α}
    (h : e ∈ (ws.foldl insert r).entries) : (∃ w ∈ ws, e = (w.name, w)) ∨ e ∈ r.entries := by
  induction ws generalizing r with
  | nil => exact .inr h
  | cons w ws ih =>
    rcases ih h with ⟨v, hv, he⟩ | h
    · exact .inl ⟨v, List.mem_cons_of_mem w hv, he⟩
    · exact (mem_of_mem_insert h).imp_left fun he => ⟨w, List.mem_cons_self, he⟩

theorem mem_names_foldl_insert_iff {ws : List (Worker α)} {r : Registry α} {x : String} :
    x ∈ (ws.foldl insert r).names ↔ x ∈ ws.map Worker.name ∨ x ∈ r.names := by
  induction ws generalizing r with
  | nil => simp
  | cons w ws ih =>
    rw [List.foldl_cons, ih, mem_names_insert_iff, List.map_cons, List.mem_cons, or_assoc,
      or_left_comm]

/-- What serving a job leaves: the worker of the name is as its server left it. -/
theorem serve?_eq_some_iff {r r' : Registry α} {name : String} {job job' : Job} {o : Outcome} :
    r.serve? name job = some (o, r', job') ↔ ∃ w w', r.find? name = some w ∧
      w.serve (fun w => (r.insert w).statuses job.world.clock) job = (o, w', job') ∧
      r' = r.insert w' := by
  unfold serve?
  rw [Option.map_eq_some_iff]
  constructor
  · rintro ⟨w, hw, h⟩
    cases h
    exact ⟨w, _, hw, rfl, rfl⟩
  · rintro ⟨w, w', hw, h, rfl⟩
    refine ⟨w, hw, ?_⟩
    dsimp only
    rw [h]

end

/-! ## The registry of a configuration -/

variable {hosts : Hosts} {p : Properties}

theorem ofProperties_eq_ok_iff {r : Registry Target} :
    ofProperties hosts p = .ok r ↔ ∃ ws,
      List.Forall₂ (fun name w => Worker.create hosts p name = .ok w) p.workers ws ∧
      r = attach (ws.foldl insert {}) := by
  unfold ofProperties
  simp only [map_eq_ok_iff, foldlM_map_eq_ok_iff]
  constructor
  · rintro ⟨r', ⟨ws, hws, rfl⟩, rfl⟩
    exact ⟨ws, hws, rfl⟩
  · rintro ⟨ws, hws, rfl⟩
    exact ⟨_, ⟨ws, hws, rfl⟩, rfl⟩

theorem exists_ofProperties_iff :
    (∃ r, ofProperties hosts p = .ok r) ↔
      ∀ name ∈ p.workers, ∃ w, Worker.create hosts p name = .ok w := by
  simp only [ofProperties_eq_ok_iff]
  constructor
  · rintro ⟨r, ws, hws, -⟩ name hname
    obtain ⟨w, -, hw⟩ := exists_of_forall₂_left hws hname
    exact ⟨w, hw⟩
  · intro h
    obtain ⟨ws, hws⟩ := exists_forall₂ h
    exact ⟨_, ws, hws, rfl⟩

theorem contains_ofProperties_iff {r : Registry Target} (h : ofProperties hosts p = .ok r)
    {name : String} : r.contains name = true ↔ name ∈ p.workers := by
  obtain ⟨ws, hws, rfl⟩ := ofProperties_eq_ok_iff.1 h
  have hnames : ws.map Worker.name = p.workers.map id :=
    map_eq_of_forall₂ (f := id) (g := Worker.name) (fun _ _ hw => (Worker.follows_build hw).1) hws
  rw [contains_iff, attach, names_map, mem_names_foldl_insert_iff, hnames, List.map_id]
  simp [names]

/-! ## Registries that follow -/

/-- Each worker stands under its name, and its balancers follow. -/
def Follows (p₀ p : Properties) (r : Registry Target) : Prop :=
  ∀ e ∈ r.entries, e.1 = e.2.name ∧ e.2.Follows p₀ p

theorem follows_ofProperties {r : Registry Target} (h : ofProperties hosts p = .ok r) :
    r.Follows p p := by
  obtain ⟨ws, hws, rfl⟩ := ofProperties_eq_ok_iff.1 h
  intro e he
  obtain ⟨e₀, he₀, rfl⟩ := List.mem_map.1 he
  rcases mem_of_mem_foldl_insert he₀ with ⟨w, hw, rfl⟩ | he₀
  · obtain ⟨name, -, hw⟩ := exists_of_forall₂_right hws hw
    have hs := Worker.sameSetup_attach w
    exact ⟨hs.name_eq.symm, (Worker.follows_build hw).2.sameSetup hs⟩
  · exact absurd he₀ List.not_mem_nil

variable {p₀ q : Properties} {r r' : Registry Target}

theorem Follows.serve? (h : r.Follows p₀ p) {name : String} {job job' : Job} {o : Outcome}
    (hs : r.serve? name job = some (o, r', job')) : r'.Follows p₀ p := by
  obtain ⟨w, w', hw, hserve, rfl⟩ := serve?_eq_some_iff.1 hs
  intro e he
  rcases mem_of_mem_insert he with rfl | he
  · have hsame := Worker.sameSetup_serve w (fun w => (r.insert w).statuses job.world.clock) job
    rw [hserve] at hsame
    exact ⟨rfl, (h _ (mem_of_find? hw)).2.sameSetup hsame⟩
  · exact h e he

theorem Follows.destroy (h : r.Follows p₀ p) : r.destroy.Follows p₀ p := by
  intro e he
  obtain ⟨e₀, he₀, rfl⟩ := List.mem_map.1 he
  have hs := Worker.sameSetup_destroy e₀.2
  exact ⟨(h e₀ he₀).1.trans hs.name_eq.symm, (h e₀ he₀).2.sameSetup hs⟩

theorem Follows.renewed (h : r.Follows p₀ p) (hr : r.Renewed q r') : r'.Follows p₀ q := by
  intro e' he'
  obtain ⟨e, he, hname, hw⟩ := exists_of_forall₂_right hr he'
  exact ⟨by rw [hname, (h e he).1, hw.name_eq], (h e he).2.renewed hw⟩

/-! ## Names -/

theorem mem_names_of_serve? {name x : String} {job job' : Job} {o : Outcome}
    (hs : r.serve? name job = some (o, r', job')) (hx : x ∈ r.names) : x ∈ r'.names := by
  obtain ⟨w, w', -, -, rfl⟩ := serve?_eq_some_iff.1 hs
  exact mem_names_insert_iff.2 (.inr hx)

theorem Renewed.names_eq (hr : r.Renewed q r') : r'.names = r.names :=
  map_eq_of_forall₂ (fun _ _ h => h.1) hr

end AjpGateway.Registry
