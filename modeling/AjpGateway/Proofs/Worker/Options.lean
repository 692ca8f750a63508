import AjpGateway.Proofs.Worker.Lending
import AjpGateway.Proofs.Worker.Renewal

/-!
# Socket options

A connection keeps the options that it was opened with.  A refresh that changes the options of a
backend empties its pool, but it does not reach the endpoints in use: what such an endpoint gives
back comes into the pool under the new options, and the next request has it.

So a connection in the pool has the options in effect, or it was at an endpoint when they changed.

    Step s calls s' → (the connections of s' are those of s or newly opened)           (Step.drawn)
    s.Dated start log → Step s calls s' → s'.Dated start (log ++ calls)                (Dated.step)
    Run ⟨b, world, []⟩ log s → (the pool, a refresh and a release)                 (pooled_options)
-/

namespace AjpGateway

open Packet

/-! ## Connections that stay -/

/-- A connection at two moments. -/
structure Connection.Same (c c' : Connection) : Prop where
  id : c'.id = c.id
  options : c'.options = c.options

namespace Connection.Same

variable {c c' c'' : Connection}

theorem refl (c : Connection) : c.Same c := ⟨rfl, rfl⟩

theorem trans (h : c.Same c') (h' : c'.Same c'') : c.Same c'' :=
  ⟨h'.id.trans h.id, h'.options.trans h.options⟩

end Connection.Same

/-- No step of an exchange changes the connection that it runs over. -/
theorem Talk.lasting_same (c : Connection) : Lasting fun t => c.Same t.connection where
  onRequest _ _ h := h
  transmit _ _ h := ⟨h.id, h.options⟩
  collect _ h := ⟨h.id, h.options⟩
  decoded _ h := h
  firstPiece _ h := h
  nextPiece _ _ h := h
  writeHeaders _ _ _ _ h := h
  writeBody _ _ h := h

/-- From a line to what becomes of it: the connection that it has then is its own, or was opened
with the options. -/
def Line.Draws (line : Line) (options : SocketOptions) (line' : Line) : Prop :=
  ∀ c', line'.connection? = some c' →
    c'.options = options ∨ ∃ c, line.connection? = some c ∧ c.Same c'

namespace Line.Draws

variable {line line' line'' : Line} {options : SocketOptions}

theorem refl (line : Line) : line.Draws options line := fun c hc => .inr ⟨c, hc, .refl c⟩

theorem closed (line line' : Line) : line.Draws options line'.closed := nofun

theorem trans (h : line.Draws options line') (h' : line'.Draws options line'') :
    line.Draws options line'' := by
  intro c'' hc''
  rcases h' c'' hc'' with hopened | ⟨c', hc', hsame'⟩
  · exact .inl hopened
  · rcases h c' hc' with hopened | ⟨c, hc, hsame⟩
    · exact .inl (hsame'.options.trans hopened)
    · exact .inr ⟨c, hc, hsame.trans hsame'⟩

end Line.Draws

theorem World.options_connect {w w' : World} {peer : Address} {options : SocketOptions}
    {c : Connection} (h : w.connect peer options = (.ok c, w')) : c.options = options := by
  revert h
  unfold World.connect Network.connect
  rcases Network.answer peer w.network.elsewhere w.network.listeners with ⟨answer, listeners⟩
  cases answer with
  | fault f => exact nofun
  | accepted stream =>
    rintro h
    cases h
    rfl

namespace Backend

variable {b b' : Backend}

theorem draws_probe (b : Backend) (line : Line) (job : Job) (options : SocketOptions) :
    line.Draws options (b.probe line job).1 := by
  obtain hp | ⟨c, u, left?, hc, rfl, hp, rfl | rfl⟩ := b.probe_cases line job
  · rw [hp]
    exact .refl line
  · rw [hp]
    exact nofun
  · rw [hp]
    rintro c' ⟨⟩
    have hsame := (Talk.lasting_same c).answersProbe (t := line.over c job) (.refl c)
    exact .inr ⟨c, hc, hsame⟩

theorem draws_connected {line : Line} {job job' : Job} {c : Connection}
    (h : b.connected line job = (.ok c, job')) :
    line.Draws b.options { line with connection? := some c } := by
  unfold connected at h
  cases hline : line.connection? with
  | some connection =>
    rw [hline] at h
    cases h
    intro c' hc'
    cases hc'
    exact .inr ⟨c, hline, .refl c⟩
  | none =>
    rw [hline] at h
    cases haddress : b.address? with
    | none =>
      rw [haddress] at h
      cases h
    | some address =>
      rw [haddress] at h
      dsimp only at h
      rcases hconnect : job.world.connect address b.options with ⟨r, world⟩
      rw [hconnect] at h
      cases r with
      | error e => cases h
      | ok connection =>
        cases h
        intro c' hc'
        cases hc'
        exact .inl (World.options_connect hconnect)

theorem carries_draws (b : Backend) :
    b.Carries fun line _ line' _ => line.Draws b.options line' where
  refl line _ := .refl line
  trans := .trans
  probe line job := b.draws_probe line job b.options
  unconnected _ := .refl _
  connected := draws_connected
  talk t := by
    intro c' hc'
    cases hc'
    exact .inr ⟨t.connection, rfl, (Talk.lasting_same t.connection).talk b t (.refl _)⟩
  close line _ := .closed line line

/-! ## Options of a backend -/

theorem options_acquire (b : Backend) (job : Job) : (b.acquire job).2.1.options = b.options := by
  unfold acquire
  split <;> rfl

theorem options_keep (b : Backend) (line : Line) (job : Job) :
    (b.keep line job).1.options = b.options := by
  unfold keep
  split
  · split <;> rfl
  · rfl

theorem options_release (b : Backend) (e : Endpoint) (job : Job) :
    (b.release e job).1.options = b.options := by
  unfold release
  split
  · exact b.options_keep e.line job
  · rfl

/-- A refresh leaves the options as they are, or it empties the pool. -/
theorem pooled_refresh (b : Backend) (p : Properties) (h : (b.refresh p).2.options ≠ b.options) :
    (b.refresh p).2.pooled = [] := by
  cases hs : BackendSettings.read p b.name with
  | error e =>
    have hrefresh : (b.refresh p).2 = b := by
      unfold refresh
      rw [hs]
    exact absurd (congrArg options hrefresh) h
  | ok s =>
    have hrefresh : (b.refresh p).2 = b.apply s := by
      unfold refresh
      rw [hs]
    rw [hrefresh] at h ⊢
    unfold pooled
    rw [(renewed_apply hs).pool]
    cases b.pool? with
    | none => rfl
    | some pool =>
      dsimp only [Option.map_some, Option.getD_some]
      rw [if_neg h]
      rfl

/-- What may be kept is put into a pool with room, and is taken before anything else. -/
theorem release_of_room {b : Backend} {e : Endpoint} {pool : Pool Line} (job : Job)
    (hphase : b.phase = .initialized) (hpool : b.pool? = some pool)
    (hroom : pool.size < pool.capacity) (hreuse : e.reuse = true)
    (hconnection : e.line.connection?.isSome = true) :
    ∃ b', b.release e job = (b', job.now.2) ∧ b'.options = b.options ∧
      b'.pooled = e.line :: b.pooled ∧
      ∀ next : Job, (∀ limit, pool.idleLimit? = some limit → elapsed next.now.1 job.now.1 ≤ limit) →
        (b'.acquire next).1 = .ok e.line := by
  obtain ⟨pool', hpool'⟩ : ∃ pool' : Pool Line, pool' = { pool with
    entries := (e.line, job.now.1) :: pool.entries } := ⟨_, rfl⟩
  have hentries : pool'.entries = (e.line, job.now.1) :: pool.entries := by rw [hpool']
  refine ⟨{ b with pool? := some pool' }, ?_, rfl, ?_, fun next hlimit => ?_⟩
  · unfold release keep
    rw [if_pos hreuse, if_pos ⟨hphase, hconnection⟩, hpool]
    dsimp only
    unfold Pool.put
    rw [if_neg (Nat.not_le.2 hroom), hpool']
  · unfold pooled
    rw [hpool, hpool']
    rfl
  · have hfresh : pool'.fresh next.now.1 (e.line, job.now.1) = true := by
      rw [hpool']
      unfold Pool.fresh
      cases hl : pool.idleLimit? with
      | none => rfl
      | some limit => exact decide_eq_true (hlimit limit hl)
    unfold acquire
    rw [Phase.ready_eq_ok_iff.2 hphase]
    unfold Pool.take
    dsimp only
    rw [hentries, List.filter_cons_of_pos hfresh]
    rfl

end Backend

namespace Call

theorem draws (c : Call) : c.endpoint.line.Draws c.backend.options c.left.line :=
  carries c.backend.busy.carries_draws fun _ line _ => .refl line

theorem options_worker (c : Call) : c.worker.options = c.backend.options := by
  obtain ⟨requests, errors, hworker⟩ := c.worker_eq
  rw [hworker]

end Call

/-! ## Connections that options change under -/

namespace Lending

variable {start s s' : Lending} {log calls : List Call} {c c' : Connection}

/-- A connection in the pool or at an endpoint. -/
def Has (s : Lending) (c : Connection) : Prop :=
  (∃ line ∈ s.backend.pooled, line.connection? = some c) ∨
    ∃ h ∈ s.held, h.line.connection? = some c

/-- What is held after a step was held before it, taken from the pool or put on a new line, or it
has been served at. -/
theorem Step.held_drawn (h : Step s calls s') (hc : ∃ h ∈ s'.held, h.line.connection? = some c') :
    c'.options = s.backend.options ∨ ∃ c, s.Has c ∧ c.Same c' := by
  obtain ⟨h', hh', hc'⟩ := hc
  have hstays : h' ∈ s.held → c'.options = s.backend.options ∨ ∃ c, s.Has c ∧ c.Same c' :=
    fun hh => .inr ⟨c', .inr ⟨h', hh, hc'⟩, .refl c'⟩
  cases h with
  | @acquire tx line backend job acquired =>
    rcases List.mem_append.1 hh' with hh' | hh'
    · exact hstays hh'
    · obtain rfl := List.mem_singleton.1 hh'
      obtain ⟨-, -, taken, hsub, rfl | ⟨-, hids⟩⟩ := Backend.acquire_ok acquired
      · exact .inr ⟨c', .inl ⟨line, hsub.subset List.mem_cons_self, hc'⟩, .refl c'⟩
      · have hid : c'.id ∈ line.ids := Line.mem_ids.2 ⟨c', hc', rfl⟩
        rw [hids] at hid
        cases hid
  | turnAway refused => exact hstays hh'
  | @serve before after h held call backend endpoint world =>
    rw [held] at hstays
    rcases List.mem_append.1 hh' with hh' | hh'
    · exact hstays (List.mem_append_left _ hh')
    · rcases List.mem_cons.1 hh' with rfl | hh'
      · have hdraws := call.draws
        rw [backend, endpoint] at hdraws
        refine (hdraws c' hc').imp_right fun ⟨c, hc, hsame⟩ => ⟨c, .inr ⟨h, ?_, hc⟩, hsame⟩
        rw [held]
        exact List.mem_append_right _ List.mem_cons_self
      · exact hstays (List.mem_append_right _ (List.mem_cons_of_mem _ hh'))
  | release held world =>
    rw [held] at hstays
    refine hstays ((List.mem_append.1 hh').elim (List.mem_append_left _) fun hh' => ?_)
    exact List.mem_append_right _ (List.mem_cons_of_mem _ hh')
  | refresh p => exact hstays hh'
  | destroy => exact hstays hh'
  | elsewhere opened => exact hstays hh'

/-- A connection that is there after a step was there before it, or it has been opened with the
options in effect. -/
theorem Step.drawn (h : Step s calls s') (hc : s'.Has c') :
    c'.options = s.backend.options ∨ ∃ c, s.Has c ∧ c.Same c' := by
  rcases hc with ⟨line, hline, hc⟩ | hheld
  · rcases h.pooled hline with hline | ⟨-, h, hh, rfl, -⟩
    · exact .inr ⟨c', .inl ⟨line, hline, hc⟩, .refl c'⟩
    · exact .inr ⟨c', .inr ⟨h, hh, hc⟩, .refl c'⟩
  · exact h.held_drawn hheld

/-- Where other settings have been taken over. -/
def renewed (s : Lending) (p : Properties) : Lending :=
  { s with backend := (s.backend.refresh p).2 }

/-- A step leaves the options as they are, or it is a refresh that changes them. -/
theorem Step.options (h : Step s calls s') : s'.backend.options = s.backend.options ∨
    ∃ p, calls = [] ∧ s' = s.renewed p ∧ (s.renewed p).backend.options ≠ s.backend.options := by
  cases h with
  | @acquire tx line backend job acquired =>
    have hoptions := s.backend.options_acquire ⟨tx, s.world⟩
    rw [acquired] at hoptions
    exact .inl hoptions
  | turnAway refused =>
    obtain ⟨rfl, -⟩ := Backend.acquire_error refused
    exact .inl rfl
  | @serve before after h held call backend endpoint world =>
    exact .inl (call.options_worker.trans (congrArg Backend.options backend))
  | release held world => exact .inl (s.backend.options_release _ _)
  | refresh p =>
    by_cases hp : (s.backend.refresh p).2.options = s.backend.options
    · exact .inl hp
    · exact .inr ⟨p, rfl, rfl, hp⟩
  | destroy => exact .inl rfl
  | elsewhere opened => exact .inl rfl

/-- During the run, the connection was at an endpoint, with the options in effect, when a refresh
changed them. -/
inductive Overtaken (start : Lending) (log : List Call) (s : Lending) (c : Connection) : Prop
  | intro {early late : List Call} {at₀ : Lending} {p : Properties} {c₀ : Connection}
      (calls : log = early ++ late) (before : Run start early at₀)
      (held : ∃ h ∈ at₀.held, h.line.connection? = some c₀) (same : c₀.Same c)
      (current : c₀.options = at₀.backend.options)
      (changed : (at₀.renewed p).backend.options ≠ at₀.backend.options)
      (after : Run (at₀.renewed p) late s)

theorem Overtaken.step (h : Overtaken start log s c) (hstep : Step s calls s') (hsame : c.Same c') :
    Overtaken start (log ++ calls) s' c' := by
  obtain ⟨rfl, before, held, same, current, changed, after⟩ := h
  exact .intro (List.append_assoc ..) before held (same.trans hsame) current changed
    (after.step hstep)

/-- Every connection has the options in effect, unless it was at an endpoint when they changed. -/
def Dated (start : Lending) (log : List Call) (s : Lending) : Prop :=
  ∀ c, s.Has c → c.options = s.backend.options ∨ Overtaken start log s c

/-- **What a step leaves is dated.**  Where the options change, the pool is empty, and what is at an
endpoint with the former ones is overtaken by this step. -/
theorem Dated.step (hs : Dated start log s) (hrun : Run start log s) (hstep : Step s calls s') :
    Dated start (log ++ calls) s' := by
  intro c' hc'
  obtain hoptions | ⟨p, rfl, rfl, hchanged⟩ := hstep.options
  · rw [hoptions]
    rcases hstep.drawn hc' with hopened | ⟨c, hc, hsame⟩
    · exact .inl hopened
    · exact (hs c hc).imp hsame.options.trans fun h => h.step hstep hsame
  · rcases hc' with ⟨line, hline, -⟩ | hheld
    · rw [show (s.renewed p).backend.pooled = [] from s.backend.pooled_refresh p hchanged] at hline
      cases hline
    · rcases hs c' (.inr hheld) with hcurrent | hovertaken
      · exact .inr (.intro rfl hrun hheld (.refl c') hcurrent hchanged (.refl _))
      · exact .inr (hovertaken.step hstep (.refl c'))

/-- By induction on the steps. -/
theorem Dated.run (hs : Dated start [] start) (hrun : Run start log s) : Dated start log s := by
  induction hrun with
  | refl => exact hs
  | step hrun hstep ih => exact ih.step hrun hstep

theorem Sound.dated (h : Sound [] start) : Dated start [] start := by
  intro c hc
  obtain ⟨line, hline, hc⟩ : ∃ line ∈ start.lines, line.connection? = some c := by
    rcases hc with ⟨line, hline, hc⟩ | ⟨h, hh, hc⟩
    · exact ⟨line, List.mem_append_left _ hline, hc⟩
    · exact ⟨h.line, List.mem_append_right _ (List.mem_map_of_mem hh), hc⟩
  obtain ⟨before, call, after, hlog, -⟩ := h.accounted.ended line hline c.id
    (Line.mem_ids.2 ⟨c, hc, rfl⟩)
  exact absurd hlog.symm (by simp)

/-! ### Options that change under a connection -/

/-- A configuration that gives sockets a timeout. -/
def timed : Properties := ⟨[("worker.a.socket_timeout", "3")]⟩

theorem read_timed : BackendSettings.read timed "a" = .ok { socketTimeout := 3 } := by
  decide +kernel

/-- The porter takes it over while its first connection is in use. -/
theorem run_timed :
    ∃ world line c, Run ⟨porter, Backend.greeted.world, []⟩ [welcome]
        ⟨porter.busy.apply { socketTimeout := 3 }, world,
          [⟨{ line, reuse := true }, some welcome⟩]⟩ ∧
      line.connection? = some c ∧ c.options = porter.options := by
  obtain ⟨line, c, hleft, hworker, hc, -⟩ := left_welcome
  have hacquire : porter.acquire ⟨Backend.greeted.tx, Backend.greeted.world⟩ =
      (.ok (.new defaultSize), porter, welcome.job) := rfl
  have hrun := run_of_call [] hacquire (c := welcome) rfl
  have hdraws := welcome.draws
  rw [hleft] at hrun hdraws
  rw [hworker] at hrun
  obtain ⟨world, hworld⟩ : ∃ world, welcome.after.world = world := ⟨_, rfl⟩
  obtain ⟨held, hheld⟩ : ∃ held : List Held, [⟨{ line, reuse := true }, some welcome⟩] = held :=
    ⟨_, rfl⟩
  rw [List.nil_append, hworld, hheld] at hrun
  have hrefresh : (porter.busy.refresh timed).2 = porter.busy.apply { socketTimeout := 3 } := by
    have hread : BackendSettings.read timed porter.busy.name = .ok { socketTimeout := 3 } :=
      read_timed
    unfold Backend.refresh
    rw [hread]
  have hstep : Step ⟨porter.busy, world, held⟩ []
      ⟨porter.busy.apply { socketTimeout := 3 }, world, held⟩ :=
    hrefresh ▸ .refresh ⟨porter.busy, world, held⟩ timed
  refine ⟨world, line, c, hheld ▸ hrun.step hstep, hc, ?_⟩
  -- its line had no connection, so this one has been opened
  rcases hdraws c hc with hopened | ⟨c₀, hc₀, -⟩
  · exact hopened
  · cases hc₀

/-- It is given back, and lies in the pool with the options that it was opened with.  The next
request has it, unless that comes too late. -/
theorem released_timed :
    ∃ s line c, Run ⟨porter, Backend.greeted.world, []⟩ [welcome] s ∧ s.backend.pooled = [line] ∧
      line.connection? = some c ∧ c.options ≠ s.backend.options ∧
      ∀ next : Job, elapsed next.now.1 s.world.clock ≤ .ofSeconds 15 →
        (s.backend.acquire next).1 = .ok line := by
  obtain ⟨world, line, c, hrun, hc, hoptions⟩ := run_timed
  obtain ⟨b', hrelease, hoptions', hpooled, htaken⟩ :=
    Backend.release_of_room (b := porter.busy.apply { socketTimeout := 3 })
      (e := { line, reuse := true }) ⟨Backend.greeted.tx, world⟩ rfl rfl (by decide) rfl
      (by rw [hc]; rfl)
  have hstep : Step _ [] ⟨b', world.now.2, []⟩ :=
    hrelease ▸ @Step.release ⟨porter.busy.apply { socketTimeout := 3 }, world,
      [⟨{ line, reuse := true }, some welcome⟩]⟩ [] [] _ rfl ⟨Backend.greeted.tx, world⟩ rfl
  refine ⟨_, line, c, hrun.step hstep, hpooled, hc, ?_, fun next hnext => ?_⟩
  · rw [hoptions, hoptions']
    decide
  · refine htaken next fun limit hlimit => ?_
    cases hlimit
    exact hnext

/-- **The options of pooled connections.**  In every run of a backend from when it is built, a
connection in the pool has the options in effect, unless it was at an endpoint when a refresh
changed them.  Such a refresh empties the pool.  But a line that may be kept goes into a pool with
room whatever its options are, and the next request has it. -/
theorem pooled_options {hosts : Hosts} {p : Properties} {name : String} {b : Backend}
    (hb : Worker.create hosts p name = .ok (.leaf (.backend b))) {world : World} {log : List Call}
    {s : Lending} (hrun : Run ⟨b, world, []⟩ log s) :
    (∀ line ∈ s.backend.pooled, ∃ c, line.connection? = some c ∧
      (c.options = s.backend.options ∨ Overtaken ⟨b, world, []⟩ log s c)) ∧
    (∀ q, (s.renewed q).backend.options ≠ s.backend.options →
      (s.renewed q).backend.pooled = []) ∧
    ∀ h ∈ s.held, h.endpoint.reuse = true → s.backend.phase = .initialized →
      ∀ pool, s.backend.pool? = some pool → pool.size < pool.capacity → ∀ job : Job,
        ∃ b', s.backend.release h.endpoint job = (b', job.now.2) ∧
          b'.options = s.backend.options ∧ b'.pooled = h.line :: s.backend.pooled ∧
          ∀ next : Job, (∀ limit, pool.idleLimit? = some limit →
            elapsed next.now.1 job.now.1 ≤ limit) → (b'.acquire next).1 = .ok h.line := by
  have hstart := sound_of_create hb world
  have hsound := hstart.run hrun
  refine ⟨fun line hline => ?_, fun q hq => s.backend.pooled_refresh q hq, ?_⟩
  · obtain ⟨c, hc⟩ := Option.isSome_iff_exists.1 (hsound.connected line hline)
    exact ⟨c, hc, hstart.dated.run hrun c (.inl ⟨line, hline, hc⟩)⟩
  · intro h hh hreuse hphase pool hpool hroom job
    obtain ⟨call, -, hends⟩ := hsound.earned h hh hreuse
    obtain ⟨-, status, w, -, hline⟩ := hends hphase
    have hconnection : h.endpoint.line.connection?.isSome = true := by
      rw [hline]
      rfl
    exact Backend.release_of_room job hphase hpool hroom hreuse hconnection

/-- The porter keeps the connection that the refresh overtook. -/
theorem pooled_options_timed :
    (∃ s line c, Run ⟨porter, Backend.greeted.world, []⟩ [welcome] s ∧ s.backend.pooled = [line] ∧
      line.connection? = some c ∧
      Overtaken ⟨porter, Backend.greeted.world, []⟩ [welcome] s c) ∧
    ∃ s h, Run ⟨porter, Backend.greeted.world, []⟩ [welcome] s ∧ s.held = [h] ∧
      ∀ job, ∃ b', s.backend.release h.endpoint job = (b', job.now.2) ∧ b'.pooled = [h.line] := by
  constructor
  · obtain ⟨s, line, c, hrun, hpooled, hc, hoptions, -⟩ := released_timed
    have hline : line ∈ s.backend.pooled := by
      rw [hpooled]
      exact List.mem_singleton_self line
    obtain ⟨c', hc', hdated⟩ := (pooled_options create_porter hrun).1 line hline
    obtain rfl : c' = c := Option.some.inj (hc'.symm.trans hc)
    exact ⟨s, line, c', hrun, hpooled, hc, hdated.resolve_left hoptions⟩
  · obtain ⟨world, line, c, hrun, -, -⟩ := run_timed
    refine ⟨_, _, hrun, rfl, fun job => ?_⟩
    obtain ⟨b', hrelease, -, hpooled, -⟩ := (pooled_options create_porter hrun).2.2 _
      List.mem_cons_self rfl rfl _ rfl (by decide) job
    exact ⟨b', hrelease, hpooled⟩

/-- A connection in the pool need not have the options in effect. -/
theorem pooled_untimed :
    ¬ ∀ (hosts : Hosts) (p : Properties) (name : String) (b : Backend) (world : World)
        (log : List Call) (s : Lending), Worker.create hosts p name = .ok (.leaf (.backend b)) →
      Run ⟨b, world, []⟩ log s → ∀ line ∈ s.backend.pooled, ∀ c, line.connection? = some c →
        c.options = s.backend.options := by
  intro hall
  obtain ⟨s, line, c, hrun, hpooled, hc, hoptions, -⟩ := released_timed
  exact hoptions (hall _ _ _ _ _ _ _ create_porter hrun line (by rw [hpooled]; simp) c hc)

end Lending

end AjpGateway
