import AjpGateway.Proofs.Config.Layout

/-!
# A store with an index

Entries are kept in a vector, with an index beside it of where the entry of each key stands.  A key
that is set again is found by the index, and its value is replaced in place; a new key goes to the
end of the vector and into the index.

To read a configuration, a store is asked only to set keys and to look them up.  So the same reading
fills entries, a vector with its index, or a log of the calls that set keys, and what it leaves in
the others follows from the log.

    s.Holds p → (s.set key value).Holds (p.set key value)                             (Holds.set)
    T.Simulates U R → Agree R (T.parse env text) (U.parse env text)             (Simulates.parse)
    plain.parse env text = Properties.parse env text                               (parse_plain)
-/

namespace AjpGateway.Properties

variable {p : Properties} {key value : String}

/-! ## Places of keys -/

theorem position?_eq_findIdx? (p : Properties) (key : String) :
    p.position? key = p.keys.findIdx? (· == key) := by
  rw [position?, keys, List.findIdx?_map]
  rfl

theorem position?_eq_none_iff : p.position? key = none ↔ key ∉ p.keys := by
  rw [position?_eq_findIdx?, List.findIdx?_eq_none_iff]
  constructor
  · intro h hkey
    simpa using h key hkey
  · rintro h k hk
    refine beq_eq_false_iff_ne.2 ?_
    rintro rfl
    exact h hk

/-- Where keys are distinct, a key has one place. -/
theorem position?_eq_some_iff (h : p.keys.Nodup) {i : Nat} :
    p.position? key = some i ↔ p.keys[i]? = some key := by
  rw [position?_eq_findIdx?, List.findIdx?_eq_some_iff_getElem, List.getElem?_eq_some_iff]
  constructor
  · rintro ⟨hi, hkey, -⟩
    exact ⟨hi, by simpa using hkey⟩
  · rintro ⟨hi, hkey⟩
    refine ⟨hi, by simpa using hkey, fun j hj => ?_⟩
    rw [beq_iff_eq, ← hkey, h.getElem_inj_iff]
    omega

theorem position?_set_of_mem (h : key ∈ p.keys) (value k : String) :
    (p.set key value).position? k = p.position? k := by
  rw [position?_eq_findIdx?, position?_eq_findIdx?, keys_set, if_pos h]

theorem position?_set_of_not_mem (h : key ∉ p.keys) (value k : String) :
    (p.set key value).position? k =
      if key = k then some p.entries.length else p.position? k := by
  rw [position?_eq_findIdx?, keys_set, if_neg h, List.findIdx?_append, ← position?_eq_findIdx?]
  by_cases hk : key = k
  · subst hk
    rw [position?_eq_none_iff.2 h, if_pos rfl]
    simp [keys]
  · rw [if_neg hk]
    simp [hk]

/-- The value of a key is that of the entry at its place. -/
theorem get?_eq_bind_position? (p : Properties) (key : String) :
    p.get? key = (p.position? key).bind fun i => p.entries[i]?.map Prod.snd := by
  obtain ⟨entries⟩ := p
  show entries.lookup key = (entries.findIdx? (·.1 == key)).bind _
  induction entries with
  | nil => rfl
  | cons e rest ih =>
    rw [lookup_cons_eq, List.findIdx?_cons]
    by_cases he : key = e.1
    · simp [he]
    · have he' : ¬ (e.1 == key) = true := fun h => he (beq_iff_eq.1 h).symm
      rw [if_neg he, if_neg he', ih, Option.bind_map]
      rfl

theorem contains_iff : p.contains key = true ↔ key ∈ p.keys := by
  have hnone : p.get? key = none ↔ key ∉ p.keys := by
    rw [get?, List.lookup_eq_none_iff, keys]
    simp only [List.mem_map, not_exists, not_and, bne_iff_ne, ne_eq]
    exact forall₂_congr fun e _ => not_congr eq_comm
  rw [contains, Option.isSome_iff_ne_none, ne_eq, hnone, not_not]

/-- An entry is set at the place of its key, or behind all others. -/
theorem entries_set (p : Properties) (key value : String) :
    (p.set key value).entries =
      match p.position? key with
      | some i => p.entries.modify i fun e => (e.1, value)
      | none => p.entries ++ [(key, value)] := by
  obtain ⟨entries⟩ := p
  show setEntry key value entries =
    match entries.findIdx? (·.1 == key) with
    | some i => entries.modify i fun e => (e.1, value)
    | none => entries ++ [(key, value)]
  induction entries with
  | nil => rfl
  | cons e rest ih =>
    rw [setEntry, List.findIdx?_cons]
    by_cases he : e.1 = key
    · rw [if_pos he, if_pos (beq_iff_eq.2 he), ← he]
      rfl
    · have he' : ¬ (e.1 == key) = true := fun h => he (beq_iff_eq.1 h)
      rw [if_neg he, if_neg he', ih]
      cases rest.findIdx? (·.1 == key) <;> rfl

/-! ## Entries and an index -/

/-- Entries in a vector, and where the entry of each key stands in it. -/
structure Store where
  entries : Array (String × String) := #[]
  index : Std.HashMap String Nat := {}

namespace Store

/-- Sets a key at the place that the index knows, or at the end. -/
def set (s : Store) (key value : String) : Store :=
  match s.index[key]? with
  | some i => { s with entries := s.entries.modify i fun e => (e.1, value) }
  | none =>
    { entries := s.entries.push (key, value), index := s.index.insert key s.entries.size }

def get? (s : Store) (key : String) : Option String :=
  s.index[key]?.bind fun i => s.entries[i]?.map Prod.snd

def contains (s : Store) (key : String) : Bool := s.index.contains key

/-- The vector holds the entries, and the index knows their places and nothing else. -/
structure Holds (s : Store) (p : Properties) : Prop where
  entries : s.entries.toList = p.entries
  index : ∀ key, s.index[key]? = p.position? key

variable {s : Store}

theorem holds_empty : ({} : Store).Holds {} where
  entries := rfl
  index _ := Std.HashMap.getElem?_empty

theorem Holds.set (h : s.Holds p) (key value : String) :
    (s.set key value).Holds (p.set key value) := by
  have hentries := entries_set p key value
  unfold Store.set
  rw [h.index key]
  cases hplace : p.position? key with
  | some i =>
    rw [hplace] at hentries
    have hkey : key ∈ p.keys := by
      by_contra hkey
      rw [position?_eq_none_iff.2 hkey] at hplace
      cases hplace
    refine ⟨?_, fun k => ?_⟩
    · show (s.entries.modify i _).toList = _
      rw [Array.toList_modify, h.entries, hentries]
    · rw [position?_set_of_mem hkey]
      exact h.index k
  | none =>
    rw [hplace] at hentries
    have hkey := position?_eq_none_iff.1 hplace
    have hsize : s.entries.size = p.entries.length := by rw [← h.entries, Array.length_toList]
    refine ⟨?_, fun k => ?_⟩
    · show (s.entries.push (key, value)).toList = _
      rw [Array.toList_push, h.entries, hentries]
    · rw [position?_set_of_not_mem hkey]
      show (s.index.insert key s.entries.size)[k]? = _
      rw [Std.HashMap.getElem?_insert, h.index k, hsize]
      by_cases hk : key = k
      · rw [if_pos hk, if_pos (beq_iff_eq.2 hk)]
      · rw [if_neg hk, if_neg fun h => hk (beq_iff_eq.1 h)]

theorem Holds.get? (h : s.Holds p) (key : String) : s.get? key = p.get? key := by
  rw [get?_eq_bind_position?, ← h.index key, ← h.entries]
  simp only [Store.get?, Array.getElem?_toList]

theorem Holds.contains (h : s.Holds p) (key : String) : s.contains key = true ↔ key ∈ p.keys := by
  rw [Store.contains, Std.HashMap.contains_eq_isSome_getElem?, h.index key,
    Option.isSome_iff_ne_none, ne_eq, position?_eq_none_iff, not_not]

end Store

/-! ## Reading into a table -/

/-- What is asked of a store while a configuration is read into it. -/
structure Table (σ : Type) where
  empty : σ
  set : σ → String → String → σ
  get? : σ → String → Option String

/-- Two results of one form, with related values. -/
inductive Agree {ε α β : Type} (R : α → β → Prop) : Except ε α → Except ε β → Prop where
  | ok {a : α} {b : β} (h : R a b) : Agree R (.ok a) (.ok b)
  | error (e : ε) : Agree R (.error e) (.error e)

theorem Agree.map {ε α β γ δ : Type} {R : α → β → Prop} {S : γ → δ → Prop} {f : α → γ} {g : β → δ}
    {x : Except ε α} {y : Except ε β} (h : Agree R x y) (hfg : ∀ {a b}, R a b → S (f a) (g b)) :
    Agree S (x.map f) (y.map g) := by
  cases h with
  | ok h => exact .ok (hfg h)
  | error e => exact .error e

namespace Table

variable {σ τ : Type}

/-- Adds the entry of a complete line. -/
def addLine (T : Table σ) (s : σ) (env : Environment) (number : Nat) (line : List Char) :
    Except ParseError σ :=
  if line = [] then .ok s
  else
    match Text.cutAt? '=' line with
    | none => .error ⟨number, .notAPair (String.ofList line)⟩
    | some (key, value) =>
      let key := Text.trim key
      let value := Text.trim value
      if key = [] ∨ value = [] then .ok s
      else
        let value? (name : String) : Option String := (T.get? s name).or (env name)
        .ok (T.set s (String.ofList key) (String.ofList (expand value? maxReferences value)))

/-- Reads one line, into a store and the entry still open. -/
def line (T : Table σ) (r : σ × Option (Nat × List Char)) (env : Environment) (number : Nat)
    (raw : List Char) : Except ParseError (σ × Option (Nat × List Char)) :=
  let (start, text) :=
    match r.2 with
    | some (start, head) => (start, head ++ bare raw)
    | none => (number, bare raw)
  match dropFinal? '\\' text with
  | some head => .ok (r.1, some (start, head))
  | none => (T.addLine r.1 env start text).map fun s => (s, none)

def lines (T : Table σ) (env : Environment) : σ × Option (Nat × List Char) → Nat →
    List (List Char) → Except ParseError (σ × Option (Nat × List Char))
  | r, _, [] => .ok r
  | r, number, raw :: rest =>
    match T.line r env number raw with
    | .ok r => T.lines env r (number + 1) rest
    | .error e => .error e

/-- What a text leaves in a store that was empty. -/
def parse (T : Table σ) (env : Environment) (text : String) : Except ParseError σ :=
  match T.lines env (T.empty, none) 1 (Text.lines text.toList) with
  | .error e => .error e
  | .ok (_, some (start, _)) => .error ⟨start, .openContinuation⟩
  | .ok (s, none) => .ok s

/-- Tables that are set alike answer alike. -/
structure Simulates (T : Table σ) (U : Table τ) (R : σ → τ → Prop) : Prop where
  empty : R T.empty U.empty
  set : ∀ {s t}, R s t → ∀ key value, R (T.set s key value) (U.set t key value)
  get? : ∀ {s t}, R s t → ∀ key, T.get? s key = U.get? t key

section
variable {T : Table σ} {U : Table τ} {R : σ → τ → Prop} (h : T.Simulates U R)
include h

theorem Simulates.addLine {s : σ} {t : τ} (hst : R s t) (env : Environment) (number : Nat)
    (line : List Char) : Agree R (T.addLine s env number line) (U.addLine t env number line) := by
  have hvalue : (fun name => (T.get? s name).or (env name)) =
      fun name => (U.get? t name).or (env name) := by
    funext name
    rw [h.get? hst name]
  unfold Table.addLine
  split
  · exact .ok hst
  · split
    · exact .error _
    · dsimp only
      split
      · exact .ok hst
      · rw [hvalue]
        exact .ok (h.set hst _ _)

theorem Simulates.line {s : σ} {t : τ} (hst : R s t) (open? : Option (Nat × List Char))
    (env : Environment) (number : Nat) (raw : List Char) :
    Agree (fun r r' => R r.1 r'.1 ∧ r.2 = r'.2) (T.line (s, open?) env number raw)
      (U.line (t, open?) env number raw) := by
  unfold Table.line
  dsimp only
  split
  · exact .ok ⟨hst, rfl⟩
  · exact (h.addLine hst env _ _).map fun h => ⟨h, rfl⟩

/-- By induction on the lines. -/
theorem Simulates.lines (env : Environment) {s : σ} {t : τ} (hst : R s t)
    (open? : Option (Nat × List Char)) (number : Nat) (raws : List (List Char)) :
    Agree (fun r r' => R r.1 r'.1 ∧ r.2 = r'.2) (T.lines env (s, open?) number raws)
      (U.lines env (t, open?) number raws) := by
  induction raws generalizing s t open? number with
  | nil => exact .ok ⟨hst, rfl⟩
  | cons raw rest ih =>
    have hline := h.line hst open? env number raw
    unfold Table.lines
    generalize T.line (s, open?) env number raw = x at hline ⊢
    generalize U.line (t, open?) env number raw = y at hline ⊢
    cases hline with
    | error e => exact .error e
    | @ok r r' hr =>
      obtain ⟨s', open'?⟩ := r
      obtain ⟨t', open''?⟩ := r'
      obtain ⟨hst', rfl⟩ := hr
      exact ih hst' _ _

theorem Simulates.parse (env : Environment) (text : String) :
    Agree R (T.parse env text) (U.parse env text) := by
  have hlines := h.lines env h.empty none 1 (Text.lines text.toList)
  unfold Table.parse
  generalize T.lines env (T.empty, none) 1 (Text.lines text.toList) = x at hlines ⊢
  generalize U.lines env (U.empty, none) 1 (Text.lines text.toList) = y at hlines ⊢
  cases hlines with
  | error e => exact .error e
  | @ok r r' hr =>
    obtain ⟨s, open?⟩ := r
    obtain ⟨t, open'?⟩ := r'
    obtain ⟨hst, rfl⟩ := hr
    cases open? with
    | none => exact .ok hst
    | some start => exact .error _

end

end Table

/-! ## Three tables -/

/-- Entries as they are kept by `Properties`. -/
def plain : Table Properties := ⟨{}, set, get?⟩

def Store.table : Table Store := ⟨{}, Store.set, Store.get?⟩

/-- A log of the calls that set keys, in which a key has the value that it was set to last. -/
def calls : Table (List (String × String)) where
  empty := []
  set log key value := log ++ [(key, value)]
  get? log key := log.reverse.lookup key

theorem line_plain (r : Reader) (env : Environment) (number : Nat) (raw : List Char) :
    plain.line (r.props, r.open?) env number raw =
      (r.line env number raw).map fun r => (r.props, r.open?) := by
  have hline : plain.line (r.props, r.open?) env number raw =
      match dropFinal? '\\' (r.head ++ bare raw) with
      | some head => .ok (r.props, some (r.started number, head))
      | none => (r.props.addLine env (r.started number) (r.head ++ bare raw)).map fun p =>
          (p, none) := by
    obtain ⟨p, open?⟩ := r
    cases open? <;> rfl
  rw [hline, Reader.line_eq]
  cases dropFinal? '\\' (r.head ++ bare raw) with
  | some head => rfl
  | none => cases r.props.addLine env (r.started number) (r.head ++ bare raw) <;> rfl

theorem lines_plain (env : Environment) (r : Reader) (number : Nat) (raws : List (List Char)) :
    plain.lines env (r.props, r.open?) number raws =
      (Reader.lines env r number raws).map fun r => (r.props, r.open?) := by
  induction raws generalizing r number with
  | nil => rfl
  | cons raw rest ih =>
    rw [Table.lines, Reader.lines, line_plain]
    cases r.line env number raw with
    | error e => rfl
    | ok r => exact ih r (number + 1)

/-- **To read into entries is to parse.** -/
theorem parse_plain (env : Environment) (text : String) :
    plain.parse env text = parse env text := by
  have hlines : plain.lines env (plain.empty, none) 1 (Text.lines text.toList) = _ :=
    lines_plain env {} 1 (Text.lines text.toList)
  unfold Table.parse parse
  rw [hlines]
  cases Reader.lines env {} 1 (Text.lines text.toList) with
  | error e => rfl
  | ok r =>
    obtain ⟨p, open?⟩ := r
    cases open? <;> rfl

theorem simulates_plain_calls : plain.Simulates calls fun p log => p = setAll {} log where
  empty := rfl
  set hp key value := by
    subst hp
    exact (setAll_concat {} _ (key, value)).symm
  get? hp key := by
    subst hp
    exact get?_setAll _ key

theorem simulates_table_calls :
    Store.table.Simulates calls fun s log => s.Holds (setAll {} log) where
  empty := Store.holds_empty
  set hs key value := by
    show Store.Holds _ (setAll {} (_ ++ [(key, value)]))
    rw [setAll_concat]
    exact hs.set key value
  get? hs key := (hs.get? key).trans (get?_setAll _ key)

/-! ## Mounts -/

/-- Where keys are distinct, the entries are the keys with what is found for them. -/
theorem entries_eq_map_keys (h : p.keys.Nodup) :
    p.entries = p.keys.map fun key => (key, (p.get? key).getD "") := by
  rw [keys, List.map_map]
  refine (List.map_id' p.entries).symm.trans (List.map_congr_left fun e he => ?_)
  have hvalue : p.get? e.1 = some e.2 := (mem_entries_iff h).1 he
  show e = (e.1, (p.get? e.1).getD "")
  rw [hvalue]
  rfl

/-- Mounts are the patterns with their workers, and then the patterns that workers list. -/
theorem mounts_eq (h : p.keys.Nodup) :
    p.mounts = (p.keys.filter isPattern).map (fun key => ⟨key, (p.get? key).getD ""⟩) ++
      p.keys.flatMap fun key =>
        match mountOwner? key with
        | none => []
        | some worker => (p.list key).map (⟨·, worker⟩) := by
  have hlist (key : String) : Text.listItems ((p.get? key).getD "") = p.list key := by
    unfold list
    cases p.get? key with
    | none => rfl
    | some v => rfl
  unfold mounts
  rw [entries_eq_map_keys h, List.filter_map, List.map_map, List.flatMap_map]
  simp only [hlist]
  rfl

/-- A key that is a pattern has only `-` and `!` before its first slash. -/
theorem isPattern_iff {key : String} :
    isPattern key = true ↔
      ∃ signs path, key.toList = signs ++ '/' :: path ∧ ∀ c ∈ signs, c = '-' ∨ c = '!' := by
  have hsign (c : Char) : (c == '-' || c == '!') = true ↔ c = '-' ∨ c = '!' := by simp
  unfold isPattern
  rw [beq_iff_eq]
  constructor
  · intro h
    obtain ⟨path, hpath⟩ := List.head?_eq_some_iff.1 h
    refine ⟨key.toList.takeWhile fun c => c == '-' || c == '!', path, ?_, fun c hc => ?_⟩
    · rw [← hpath, List.takeWhile_append_dropWhile]
    · have hc := List.mem_takeWhile_imp hc
      exact (hsign c).1 hc
  · rintro ⟨signs, path, hkey, hsigns⟩
    rw [hkey, List.dropWhile_append_of_pos fun c hc => (hsign c).2 (hsigns c hc)]
    rfl

theorem isSuffixOf?_eq_some_iff {w s r : List Char} :
    w.isSuffixOf? s = some r ↔ s = r ++ w := by
  rw [List.isSuffixOf?, Option.map_eq_some_iff]
  constructor
  · rintro ⟨t, ht, rfl⟩
    have ht : w.reverse ++ t = s.reverse := List.isPrefixOf?_eq_some_iff_append_eq.1 ht
    rw [← List.reverse_reverse s, ← ht]
    simp
  · rintro rfl
    refine ⟨r.reverse, List.isPrefixOf?_eq_some_iff_append_eq.2 ?_, List.reverse_reverse r⟩
    rw [List.reverse_append]

/-- A worker lists its patterns at one key. -/
theorem mountOwner?_eq_some_iff {key worker : String} :
    mountOwner? key = some worker ↔ key = workerKey worker "mount" := by
  have hkey : workerKey worker "mount" =
      String.ofList ("worker.".toList ++ (worker.toList ++ ".mount".toList)) := by
    rw [workerKey, ← String.toList_inj]
    simp [String.toList_append]
  rw [mountOwner?, Option.bind_eq_some_iff]
  constructor
  · rintro ⟨rest, hafter, howner⟩
    obtain ⟨w, hw, rfl⟩ := Option.map_eq_some_iff.1 howner
    rw [Text.after?_eq_some_iff, isSuffixOf?_eq_some_iff.1 hw] at hafter
    have htext : (String.ofList w).toList = w := String.toList_ofList
    rw [hkey, htext, ← hafter, String.ofList_toList]
  · rintro rfl
    refine ⟨worker.toList ++ ".mount".toList, Text.after?_eq_some_iff.2 ?_,
      Option.map_eq_some_iff.2 ⟨worker.toList, isSuffixOf?_eq_some_iff.2 rfl,
        String.ofList_toList⟩⟩
    rw [hkey, String.toList_ofList]

/-! ## What is kept -/

/-- The store once all pairs were set in turn. -/
def Store.setAll (s : Store) (pairs : List (String × String)) : Store :=
  pairs.foldl (fun s e => s.set e.1 e.2) s

theorem Store.Holds.setAll {s : Store} (h : s.Holds p) (pairs : List (String × String)) :
    (s.setAll pairs).Holds (p.setAll pairs) := by
  induction pairs generalizing s p with
  | nil => exact h
  | cons e rest ih => exact ih (h.set e.1 e.2)

theorem setAll_append (p : Properties) (pairs pairs' : List (String × String)) :
    p.setAll (pairs ++ pairs') = (p.setAll pairs).setAll pairs' :=
  List.foldl_append

/-- What is left of the calls that set keys, in either form of a store. -/
structure Kept (log : List (String × String)) (s : Store) (p : Properties) : Prop where
  entries : s.entries.toList = p.entries
  once : p.keys.Nodup
  /-- keys are in the order in which each was set first -/
  order : p.keys = (log.map Prod.fst).eraseDups
  /-- the index knows the places of the keys, and no other key -/
  index : ∀ (key : String) (i : Nat), s.index[key]? = some i ↔ p.keys[i]? = some key
  found : ∀ key, s.get? key = p.get? key
  last : ∀ key value, p.get? key = some value ↔
    ∃ before after, log = before ++ (key, value) :: after ∧ key ∉ after.map Prod.fst
  known : ∀ key, (s.contains key = true ↔ key ∈ log.map Prod.fst) ∧
    s.contains key = p.contains key
  mounts : p.mounts = (p.keys.filter isPattern).map (fun key => ⟨key, (p.get? key).getD ""⟩) ++
    p.keys.flatMap fun key =>
      match mountOwner? key with
      | none => []
      | some worker => (p.list key).map (⟨·, worker⟩)

theorem Store.Holds.kept {s : Store} {log : List (String × String)}
    (h : s.Holds (Properties.setAll {} log)) : Kept log s (Properties.setAll {} log) := by
  have hnodup := nodup_keys_setAll log
  refine ⟨h.entries, hnodup, keys_setAll log, fun key i => ?_, h.get?, fun key value => ?_,
    fun key => ⟨?_, ?_⟩, mounts_eq hnodup⟩
  · rw [h.index, position?_eq_some_iff hnodup]
  · rw [get?_setAll, lookup_reverse_eq_some_iff]
  · rw [h.contains, keys_setAll, List.mem_eraseDups]
  · rw [Bool.eq_iff_iff, h.contains, contains_iff]

/-- **A vector with an index is a store.**  After any calls that set keys, and after a text was read
and any calls then: each key is there once, in the order in which it was set first, with the value
that it was set to last; the index knows the place of each key and of no other; and the mounts are
the keys that are patterns, and then what is listed at the mount key of each worker. -/
theorem kept_of_sets (pairs : List (String × String)) :
    Kept pairs (Store.setAll {} pairs) (setAll {} pairs) ∧
    (∀ env text,
      match parse env text with
      | .error e => Store.table.parse env text = .error e
      | .ok p => ∃ log s, calls.parse env text = .ok log ∧ Store.table.parse env text = .ok s ∧
          Kept (log ++ pairs) (s.setAll pairs) (p.setAll pairs)) ∧
    (∀ key, isPattern key = true ↔
      ∃ signs path, key.toList = signs ++ '/' :: path ∧ ∀ c ∈ signs, c = '-' ∨ c = '!') ∧
    ∀ key worker, mountOwner? key = some worker ↔ key = workerKey worker "mount" := by
  refine ⟨(Store.holds_empty.setAll pairs).kept, fun env text => ?_, fun _ => isPattern_iff,
    fun _ _ => mountOwner?_eq_some_iff⟩
  have hplain := simulates_plain_calls.parse env text
  have htable := simulates_table_calls.parse env text
  rw [parse_plain] at hplain
  generalize parse env text = x at hplain ⊢
  generalize Store.table.parse env text = y at htable ⊢
  generalize calls.parse env text = z at hplain htable ⊢
  cases hplain with
  | error e =>
    cases htable
    rfl
  | @ok p log hp =>
    cases htable with
    | @ok s log hs =>
      subst hp
      have hkept := hs.setAll pairs
      rw [← setAll_append] at hkept
      refine ⟨log, s, rfl, rfl, ?_⟩
      rw [← setAll_append]
      exact hkept.kept

/-- A key that is set again keeps its place. -/
example : (setAll {} [("/a", "x"), ("worker.w.mount", "/b"), ("/a", "y")]).mounts =
    [⟨"/a", "y"⟩, ⟨"/b", "w"⟩] := by decide

end AjpGateway.Properties
