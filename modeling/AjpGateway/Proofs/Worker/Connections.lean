import AjpGateway.Proofs.Worker.Keeping

/-!
# The connections of an exchange

Whatever becomes of an exchange, what it does on a connection it does on the one of its line or on
one that it opens itself, and the line that it leaves has no other connection.  Connections are
numbered as they are opened, so those opened meanwhile are told from all others by their numbers.

    Keeps (Talk.StaysOn w c) b.talk                                         (Talk.lasting_staysOn)
    b.Carries Line.Leads                                                          (carries_leads)
-/

namespace AjpGateway

open Packet

/-! ## Worlds -/

/-- From one world to a later one: connections are only opened, and whatever was done on a
connection was done on one of these. -/
structure World.Reaches (P : Nat → Prop) (w w' : World) : Prop where
  opened : w.network.opened ≤ w'.network.opened
  history : ∃ events : List Event, w'.history = events.reverse ++ w.history ∧
    ∀ e ∈ events, ∀ id, e.connection? = some id → P id

namespace World.Reaches

variable {P Q : Nat → Prop} {w w' w'' : World}

theorem refl (w : World) : w.Reaches P w := ⟨Nat.le_refl _, [], rfl, List.forall_mem_nil _⟩

theorem trans (h : w.Reaches P w') (h' : w'.Reaches P w'') : w.Reaches P w'' := by
  obtain ⟨hopened, x, hx, hxP⟩ := h
  obtain ⟨hopened', y, hy, hyP⟩ := h'
  refine ⟨Nat.le_trans hopened hopened', x ++ y, ?_, List.forall_mem_append.2 ⟨hxP, hyP⟩⟩
  rw [hy, hx, List.reverse_append, List.append_assoc]

theorem mono (h : w.Reaches P w') (hPQ : ∀ id, P id → Q id) : w.Reaches Q w' := by
  obtain ⟨hopened, x, hx, hxP⟩ := h
  exact ⟨hopened, x, hx, fun e he id hid => hPQ id (hxP e he id hid)⟩

theorem note (h : w.Reaches P w') {e : Event} (he : ∀ id, e.connection? = some id → P id) :
    w.Reaches P (w'.note e) := by
  refine h.trans ⟨Nat.le_refl _, [e], rfl, fun e' he' => ?_⟩
  rw [List.mem_singleton.1 he']
  exact he

end World.Reaches

/-- An attempt to connect opens the next connection, or none. -/
theorem World.connect_cases (w : World) (peer : Address) (options : SocketOptions) :
    (∃ e network, w.connect peer options = (.error e, { w with network }) ∧
      network.opened = w.network.opened) ∨
    ∃ c network, w.connect peer options = (.ok c, { w with network }.note (.opened c.id peer)) ∧
      c.id = w.network.opened ∧ network.opened = w.network.opened + 1 := by
  unfold World.connect Network.connect
  rcases Network.answer peer w.network.elsewhere w.network.listeners with ⟨answer, listeners⟩
  cases answer with
  | fault f => exact .inl ⟨_, _, rfl, rfl⟩
  | accepted stream => exact .inr ⟨_, _, rfl, rfl, rfl⟩

/-! ## Talks -/

/-- A talk on the connection, that used no other since a world. -/
structure Talk.StaysOn (w : World) (c : Nat) (t : Talk) : Prop where
  id : t.connection.id = c
  reaches : w.Reaches (· = c) t.job.world

namespace Talk

variable {w : World} {c : Nat}

/-- Work on the job that uses no connection. -/
theorem StaysOn.onJob {α : Type} {act : Serving α}
    (ha : Keeps (fun j : Job => w.Reaches (· = c) j.world) act) :
    Keeps (StaysOn w c) (Talk.onJob act : Talking α) :=
  fun t h => ⟨h.id, ha t.job h.reaches⟩

theorem lasting_staysOn : Lasting (StaysOn w c) where
  onRequest _ _ h := ⟨h.id, h.reaches⟩
  transmit _ _ h := ⟨h.id, h.reaches.note fun _ hid => (Option.some.inj hid).symm.trans h.id⟩
  collect _ h := ⟨h.id, h.reaches.note fun _ hid => (Option.some.inj hid).symm.trans h.id⟩
  decoded _ h := ⟨h.id, h.reaches⟩
  firstPiece := StaysOn.onJob (Job.keeps_firstPiece fun _ _ _ h => h.note nofun)
  nextPiece most := StaysOn.onJob (Job.keeps_nextPiece (fun _ _ _ h => h.note nofun) most)
  writeHeaders _ _ _ _ h := ⟨h.id, h.reaches.note nofun⟩
  writeBody _ _ h := ⟨h.id, h.reaches.note nofun⟩

end Talk

/-! ## Lines -/

namespace Line

/-- The number of the connection, if there is one. -/
def ids (line : Line) : List Nat := (line.connection?.map Connection.id).toList

theorem mem_ids {line : Line} {id : Nat} :
    id ∈ line.ids ↔ ∃ c, line.connection? = some c ∧ c.id = id := by
  unfold ids
  rw [Option.mem_toList]
  exact Option.map_eq_some_iff

theorem length_ids_le (line : Line) : line.ids.length ≤ 1 := by
  unfold ids
  cases line.connection? with
  | none => exact Nat.zero_le 1
  | some c => exact Nat.le_refl 1

/-- The line without its connection. -/
def closed (line : Line) : Line := { line with connection? := none }

/-- The connection of a line, or one that was opened between two worlds. -/
def Offers (line : Line) (w w' : World) (id : Nat) : Prop :=
  id ∈ line.ids ∨ w.network.opened ≤ id ∧ id < w'.network.opened

/-- From a job over a line to the job and the line that it left: no connection was used, and none is
left, but what the line offers. -/
structure Leads (line : Line) (job : Job) (line' : Line) (job' : Job) : Prop where
  reaches : job.world.Reaches (line.Offers job.world job'.world) job'.world
  ids : ∀ id ∈ line'.ids, line.Offers job.world job'.world id

variable {line line' line'' : Line} {job job' job'' : Job}

theorem Leads.refl (line : Line) (job : Job) : line.Leads job line job :=
  ⟨.refl _, fun _ hid => .inl hid⟩

theorem Leads.trans (h : line.Leads job line' job') (h' : line'.Leads job' line'' job'') :
    line.Leads job line'' job'' := by
  have hopened := h.reaches.opened
  have hopened' := h'.reaches.opened
  have hfirst : ∀ id, line.Offers job.world job'.world id →
      line.Offers job.world job''.world id := by
    rintro id (hid | ⟨hle, hlt⟩)
    · exact .inl hid
    · exact .inr ⟨hle, Nat.lt_of_lt_of_le hlt hopened'⟩
  have hsecond : ∀ id, line'.Offers job'.world job''.world id →
      line.Offers job.world job''.world id := by
    rintro id (hid | ⟨hle, hlt⟩)
    · exact hfirst id (h.ids id hid)
    · exact .inr ⟨Nat.le_trans hopened hle, hlt⟩
  exact ⟨(h.reaches.mono hfirst).trans (h'.reaches.mono hsecond),
    fun id hid => hsecond id (h'.ids id hid)⟩

theorem Leads.silent (h : line.Leads job line' job')
    (hnetwork : job''.world.network = job'.world.network)
    (hhistory : job''.world.history = job'.world.history) : line.Leads job line' job'' :=
  h.trans ⟨⟨Nat.le_of_eq (by rw [hnetwork]), [], hhistory, List.forall_mem_nil _⟩,
    fun _ hid => .inl hid⟩

/-- To close a connection is to leave none. -/
theorem Leads.close (h : line.Leads job line' job') : line.Leads job line'.closed job' :=
  ⟨h.reaches, nofun⟩

end Line

namespace Backend

/-- A probe leaves no connection but that of the line. -/
theorem ids_probe {b : Backend} {line : Line} {job : Job} {k : Connection}
    (h : (b.probe line job).1.connection? = some k) : line.ids = [k.id] := by
  have hids {c : Connection} (hc : line.connection? = some c) : line.ids = [c.id] := by
    unfold Line.ids
    rw [hc]
    rfl
  obtain hp | ⟨c, u, left?, hc, rfl, hp, rfl | rfl⟩ := b.probe_cases line job
  · rw [hp] at h
    exact hids h
  · rw [hp] at h
    cases h
  · rw [hp] at h
    cases h
    have hsame := Talk.lasting_staysOn.answersProbe (t := line.over c job) ⟨rfl, .refl job.world⟩
    rw [hids hc, hsame.id]
    rfl

theorem leads_probe (b : Backend) (line : Line) (job : Job) :
    line.Leads job (b.probe line job).1 (b.probe line job).2 := by
  refine ⟨?_, fun id hid => .inl ?_⟩
  · obtain hp | ⟨c, u, left?, hc, rfl, hp, -⟩ := b.probe_cases line job
    · rw [hp]
      exact .refl _
    · have hprobed := Talk.lasting_staysOn.answersProbe (t := line.over c job) ⟨rfl, .refl job.world⟩
      rw [hp]
      exact hprobed.reaches.mono fun id hid => .inl (Line.mem_ids.2 ⟨c, hc, hid.symm⟩)
  · obtain ⟨c, hleft, rfl⟩ := Line.mem_ids.1 hid
    rw [ids_probe hleft]
    exact List.mem_singleton_self _

/-- To connect is to take the connection that there is, or to open one. -/
theorem leads_connected (b : Backend) (line : Line) (job : Job) :
    match b.connected line job with
    | (.error _, job') => line.Leads job line job'
    | (.ok c, job') => line.Leads job { line with connection? := some c } job' := by
  unfold connected
  cases hline : line.connection? with
  | some connection =>
    dsimp only
    rw [← hline]
    exact .refl line job
  | none =>
    cases b.address? with
    | none => exact .refl line job
    | some address =>
      dsimp only
      obtain ⟨e, network, hconnect, hopened⟩ | ⟨c, network, hconnect, hid, hopened⟩ :=
        job.world.connect_cases address b.options
      · rw [hconnect]
        exact ⟨⟨Nat.le_of_eq hopened.symm, [], rfl, List.forall_mem_nil _⟩, fun _ hid => .inl hid⟩
      · rw [hconnect]
        -- the new connection is the only one opened meanwhile
        have hnew : line.Offers job.world ({ job.world with network }.note (.opened c.id address))
            c.id := by
          refine .inr ⟨Nat.le_of_eq hid.symm, ?_⟩
          show c.id < network.opened
          omega
        refine ⟨⟨?_, [.opened c.id address], rfl, ?_⟩, ?_⟩
        · show job.world.network.opened ≤ network.opened
          omega
        · intro e he id hid
          cases List.mem_singleton.1 he
          cases hid
          exact hnew
        · intro id hid
          obtain ⟨c', hc', rfl⟩ := Line.mem_ids.1 hid
          cases hc'
          exact hnew

/-- **An exchange leads a line and a job on**: each of its parts does. -/
theorem carries_leads (b : Backend) : b.Carries Line.Leads where
  refl := .refl
  trans := .trans
  probe := b.leads_probe
  unconnected {line job _ _} h := by
    have hconnected := b.leads_connected line job
    rw [h] at hconnected
    exact hconnected
  connected {line job _ _} h := by
    have hconnected := b.leads_connected line job
    rw [h] at hconnected
    exact hconnected
  talk t := by
    have htalk := Talk.lasting_staysOn.talk b t ⟨rfl, .refl _⟩
    refine ⟨htalk.reaches.mono fun id hid => .inl (Line.mem_ids.2 ⟨_, rfl, hid.symm⟩), ?_⟩
    intro id hid
    obtain ⟨c, hleft, rfl⟩ := Line.mem_ids.1 hid
    cases hleft
    exact .inl (Line.mem_ids.2 ⟨_, rfl, htalk.id.symm⟩)
  close line job := (Line.Leads.refl line job).close

end Backend

end AjpGateway
