import AjpGateway.Proofs.Worker.Connections
import AjpGateway.Proofs.Worker.Endpoints

/-!
# What a backend forwards

A backend that serves a job sends the request of that job and no other.  The request has the route
that the job was given as its only JvmRoute attribute.  An exchange leaves the route as it is, so
the second exchange, on a new connection, sends the same request again.

    (b.forwardRequest tx).jvmRoutes = tx.route.toList                 (jvmRoutes_forwardRequest)
    b.Repeats job (b.serveAlone job).2.2                                    (repeats_serveAlone)
-/

namespace AjpGateway

open Packet

/-! ## Attributes of a request -/

/-- The route that a JvmRoute attribute holds. -/
def Packet.Attribute.jvmRoute? : Attribute → Option String
  | .named .jvmRoute route => some route
  | _ => none

/-- What the JvmRoute attributes of a request hold. -/
def Packet.ForwardRequest.jvmRoutes (r : ForwardRequest) : List String :=
  r.attributes.filterMap Attribute.jvmRoute?

/-- Attributes of other names are not routes. -/
theorem filterMap_jvmRoute?_named {name : AttributeName} (h : name ≠ .jvmRoute)
    (value : Option String) :
    (value.map (Attribute.named name)).toList.filterMap Attribute.jvmRoute? = [] := by
  cases value with
  | none => rfl
  | some value => cases name <;> first | rfl | exact absurd rfl h

/-- A request has the route of its job, and no other. -/
theorem Backend.jvmRoutes_forwardRequest (b : Backend) (tx : Transaction) :
    (b.forwardRequest tx).jvmRoutes = tx.route.toList := by
  have hroute : (tx.route.map (Attribute.named .jvmRoute)).toList.filterMap Attribute.jvmRoute? =
      tx.route.toList := by
    cases tx.route <;> rfl
  have hsize : ∀ size : Option UInt16,
      (size.map Attribute.sslKeySize).toList.filterMap Attribute.jvmRoute? = [] := by
    intro size
    cases size <;> rfl
  have hcustom : ∀ as : List (String × String),
      (as.map fun a => Attribute.custom a.1 a.2).filterMap Attribute.jvmRoute? = [] := by
    intro as
    rw [List.filterMap_map]
    exact List.filterMap_eq_nil_iff.2 fun _ _ => rfl
  unfold ForwardRequest.jvmRoutes forwardRequest attributes
  dsimp only
  simp only [List.filterMap_append, hroute, hsize, hcustom,
    filterMap_jvmRoute?_named (by decide : AttributeName.remoteUser ≠ .jvmRoute),
    filterMap_jvmRoute?_named (by decide : AttributeName.authType ≠ .jvmRoute),
    filterMap_jvmRoute?_named (by decide : AttributeName.queryString ≠ .jvmRoute),
    filterMap_jvmRoute?_named (by decide : AttributeName.sslCert ≠ .jvmRoute),
    filterMap_jvmRoute?_named (by decide : AttributeName.sslCipher ≠ .jvmRoute),
    filterMap_jvmRoute?_named (by decide : AttributeName.sslSession ≠ .jvmRoute),
    filterMap_jvmRoute?_named (by decide : AttributeName.secret ≠ .jvmRoute),
    List.nil_append, List.append_nil]

/-- Nothing that an exchange does to a transaction changes the request that is forwarded. -/
theorem Transaction.lasting_forwardRequest (b : Backend) (r : ForwardRequest) :
    Lasting fun tx => b.forwardRequest tx = r := by
  have hpull : ∀ demanded most,
      Keeps (fun j : Job => b.forwardRequest j.tx = r) (Job.pull demanded most) := by
    intro demanded most j h
    show b.forwardRequest (Job.pull demanded most j).2.tx = r
    unfold Job.pull
    rcases j.tx.channel.fill (min j.tx.remaining most) with ⟨_ | _, channel⟩ <;> exact h
  constructor
  case firstPiece =>
    unfold Job.firstPiece
    refine Keeps.get.bind fun j => ?_
    cases j.tx.first with
    | some bytes => exact Keeps.pure bytes
    | none =>
      refine (hpull false _).bind fun bytes => ?_
      exact Keeps.bind (Keeps.modify fun _ h => h) fun _ => Keeps.pure bytes
  case nextPiece =>
    intro most
    unfold Job.nextPiece
    exact Keeps.bind (Keeps.modify fun _ h => h) fun _ => hpull true most
  case writeHeaders => exact fun _ _ _ _ h => h
  case writeBody => exact fun _ _ h => h

/-! ## Requests sent -/

/-- The bytes are the packet of the request, or as much of it as was taken. -/
def Packet.ForwardRequest.Fills (r : ForwardRequest) (bytes : Bytes) : Prop :=
  ∃ m sent, r.encode.run m = (.ok (), sent) ∧ bytes <+: sent.frame

/-- From one world to a later one, where every packet with a request that was sent meanwhile has the
property. -/
def World.Forwards (P : Bytes → Prop) (w w' : World) : Prop :=
  ∃ events : List Event, w'.history = events.reverse ++ w.history ∧
    ∀ c bytes, .sent c .forward bytes ∈ events → P bytes

namespace World.Forwards

variable {P Q : Bytes → Prop} {w w' w'' : World}

theorem silent (h : w'.history = w.history) : w.Forwards P w' := ⟨[], h, nofun⟩

theorem trans (h : w.Forwards P w') (h' : w'.Forwards P w'') : w.Forwards P w'' := by
  obtain ⟨x, hx, hxP⟩ := h
  obtain ⟨y, hy, hyP⟩ := h'
  refine ⟨x ++ y, ?_, fun c bytes hmem => ?_⟩
  · rw [hy, hx, List.reverse_append, List.append_assoc]
  · rcases List.mem_append.1 hmem with hmem | hmem
    · exact hxP c bytes hmem
    · exact hyP c bytes hmem

theorem mono (h : w.Forwards P w') (hPQ : ∀ bytes, P bytes → Q bytes) : w.Forwards Q w' := by
  obtain ⟨x, hx, hxP⟩ := h
  exact ⟨x, hx, fun c bytes hmem => hPQ bytes (hxP c bytes hmem)⟩

/-- One event. -/
theorem single {e : Event} (h : w'.history = e :: w.history)
    (he : ∀ c bytes, e = .sent c .forward bytes → P bytes) : w.Forwards P w' :=
  ⟨[e], h, fun c bytes hmem => he c bytes (List.mem_singleton.1 hmem).symm⟩

/-- Events that begin no attempt. -/
theorem of_attempts {events : List Event} (h : w'.history = events.reverse ++ w.history)
    (hattempts : ∀ e ∈ events, e.attempts = false) : w.Forwards P w' := by
  refine ⟨events, h, fun c bytes hmem => ?_⟩
  have hforward := hattempts _ hmem
  cases hforward

end World.Forwards

/-! ## Exchanges -/

namespace Backend

/-- From one job to a later one of the same request, where no other request was sent. -/
structure Repeats (b : Backend) (job job' : Job) : Prop where
  forwards : job.world.Forwards (b.forwardRequest job.tx).Fills job'.world
  same : b.forwardRequest job'.tx = b.forwardRequest job.tx

variable {b : Backend}

namespace Repeats

variable {job job' job'' : Job}

theorem silent (hworld : job'.world.history = job.world.history) (htx : job'.tx = job.tx) :
    b.Repeats job job' :=
  ⟨.silent hworld, by rw [htx]⟩

theorem refl (job : Job) : b.Repeats job job := silent rfl rfl

theorem trans (h : b.Repeats job job') (h' : b.Repeats job' job'') : b.Repeats job job'' :=
  ⟨h.forwards.trans (h.same ▸ h'.forwards), h'.same.trans h.same⟩

/-- An event that sends no request. -/
theorem note {e : Event} (hworld : job'.world.history = e :: job.world.history)
    (htx : job'.tx = job.tx) (he : ∀ c bytes, e ≠ .sent c .forward bytes) : b.Repeats job job' :=
  ⟨.single hworld fun c bytes h => absurd h (he c bytes), by rw [htx]⟩

/-- Backends of the same settings forward the same. -/
theorem of_settings {c : Backend} (hsettings : c.settings = b.settings)
    (h : c.Repeats job job') : b.Repeats job job' := by
  have hsame : c.forwardRequest = b.forwardRequest := by
    unfold forwardRequest attributes
    rw [hsettings]
  exact ⟨hsame ▸ h.forwards, hsame ▸ h.same⟩

end Repeats

theorem repeats_probe (b : Backend) (line : Line) (job : Job) :
    b.Repeats job (b.probe line job).2 :=
  probe_keeps (fun _ _ _ h => h.trans (.note rfl rfl nofun))
    (fun _ _ _ h => h.trans (.note rfl rfl nofun)) b line (.refl job)

theorem repeats_connected (b : Backend) (line : Line) (job : Job) :
    b.Repeats job (b.connected line job).2 :=
  connected_keeps (fun _ _ h => h.trans (.silent rfl rfl))
    (fun _ _ _ h => h.trans (.note rfl rfl nofun)) b line (.refl job)

/-- A talk sends the request first, and then stays on its connection. -/
theorem forwards_talk (b : Backend) (t : Talk) :
    t.job.world.Forwards (b.forwardRequest t.job.tx).Fills (b.talk.run t).2.job.world := by
  unfold talk
  rw [run_bind_of_ok (run_get t), run_bind]
  rcases hp : (b.packetStep (Talk.onRequest (b.forwardRequest t.job.tx).encode)).run t with ⟨r, u⟩
  have hu : u.job = t.job := (congrArg (fun p => p.2.job) hp).symm
  cases r with
  | error e => exact .silent (congrArg (fun j : Job => j.world.history) hu)
  | ok _ =>
    obtain ⟨m, hm, rfl⟩ := of_onRequest hp
    show t.job.world.Forwards _ ((b.netStep (·.transmit .forward) >>= fun _ =>
      b.answer).run { t with request := m }).2.job.world
    rw [run_bind]
    rcases hf : (b.netStep (·.transmit .forward)).run { t with request := m } with ⟨r, v⟩
    have hsent : t.job.world.Forwards (b.forwardRequest t.job.tx).Fills v.job.world := by
      refine .single (congrArg (fun p => p.2.job.world.history) hf).symm fun c bytes he => ?_
      cases he
      exact ⟨t.request, m, hm, List.take_prefix ..⟩
    cases r with
    | error e => exact hsent
    | ok _ =>
      obtain ⟨-, ⟨events, hgoes, hstays⟩, -⟩ := b.relays_answer v
      exact hsent.trans (.of_attempts hgoes.history fun e he => (hstays e he).1)

theorem repeats_talk (b : Backend) (t : Talk) : b.Repeats t.job (b.talk.run t).2.job where
  forwards := b.forwards_talk t
  same :=
    (keeps_talk (Transaction.lasting_forwardRequest b _) b t ⟨rfl, rfl, rfl⟩).tx

theorem carries_repeats (b : Backend) : b.Carries fun _ job _ job' => b.Repeats job job' where
  refl _ := .refl
  trans := .trans
  probe := b.repeats_probe
  unconnected {line job _ _} h := by
    have hconnected := b.repeats_connected line job
    rw [h] at hconnected
    exact hconnected
  connected {line job _ _} h := by
    have hconnected := b.repeats_connected line job
    rw [h] at hconnected
    exact hconnected
  talk := b.repeats_talk
  close _ := .refl

/-! ## Jobs -/

theorem repeats_serve (b : Backend) (line : Line) (job : Job) :
    b.Repeats job (b.serve line job).2.2.2 := by
  unfold serve
  cases b.phase.ready b.name with
  | error e => exact .refl job
  | ok _ =>
    have htwice : b.Repeats job (b.busy.exchangeTwice line job).2.2 :=
      .of_settings (c := b.busy) rfl (b.busy.carries_repeats.exchangeTwice line job)
    dsimp only
    rw [show b.busy = { b with requests := b.requests + 1 } from rfl] at htwice
    rcases hx : exchangeTwice { b with requests := b.requests + 1 } line job with ⟨r, line', job'⟩
    rw [hx] at htwice
    cases r with
    | ok r => exact htwice
    | error e =>
      dsimp only
      split
      · exact htwice
      · exact htwice.trans (.silent rfl rfl)

theorem repeats_serveOn (b : Backend) (line : Line) (job : Job) :
    b.Repeats job (b.serveOn line job).2.2 := by
  have hserve := b.repeats_serve line job
  unfold serveOn
  rcases hs : b.serve line job with ⟨r, line?, b', job'⟩
  rw [hs] at hserve
  cases line? with
  | none => exact hserve
  | some line' =>
    -- the line is put back, and nothing is sent
    refine hserve.trans ?_
    show b.Repeats job' (b'.keep line' job').2
    unfold keep
    split
    · cases b'.pool? with
      | none => exact .refl job'
      | some pool => exact .silent rfl rfl
    · exact .refl job'

/-- **To serve a job sends its request only**, as often as it takes. -/
theorem repeats_serveAlone (b : Backend) (job : Job) :
    b.Repeats job (b.serveAlone job).2.2 := by
  have hacquire : b.Repeats job (b.acquire job).2.2 ∧
      (b.acquire job).2.1.settings = b.settings := by
    unfold acquire
    split
    · exact ⟨.refl job, rfl⟩
    · exact ⟨.refl job, rfl⟩
    · exact ⟨.silent rfl rfl, rfl⟩
  unfold serveAlone
  rcases ha : b.acquire job with ⟨r, b', job'⟩
  rw [ha] at hacquire
  cases r with
  | error e => exact hacquire.1
  | ok line => exact hacquire.1.trans (.of_settings hacquire.2 (b'.repeats_serveOn line job'))

end Backend

end AjpGateway
