import AjpGateway.Proofs.Worker.Commitment
import AjpGateway.Proofs.Worker.Relaying
import AjpGateway.Proofs.Worker.Sizing
import AjpGateway.Proofs.Worker.Upload

/-!
# The course of a request

A request is served by attempts, of which all but the last failed so that another could follow.
Before each of them the body stands at its beginning, or behind a first piece that is sent again;
so the container whose exchange ends the course gets the body from its beginning, whatever the
others got of it.

    Transaction.Reached request channel tx → tx.Awaits body                    (Reached.awaits)
    Courses … (w.serve view job).1 (w.serve view job).2.2                       (courses_serve)
    w.serve view job = (.ok status, …) → … ∧ Upload body room first given        (uploads_body)
-/

namespace AjpGateway

open Packet

variable {request : ClientRequest} {channel : Channel}

namespace Transaction

/-- A request before an attempt: earlier ones, on whatever connections, failed so that another may
follow. -/
inductive Reached (request : ClientRequest) (channel : Channel) : Transaction → Prop
  | begun : Reached request channel (.begin request channel)
  | aimed {tx : Transaction} (h : Reached request channel tx) (route : Option String) :
      Reached request channel { tx with route }
  | failed {b : Backend} {t u : Talk} {e : ServiceError} (h : Reached request channel t.job.tx)
      (hrun : b.talk.run t = (.error e, u)) (he : e.recoverable = true) :
      Reached request channel u.job.tx

theorem Reached.uncommitted {tx : Transaction} (h : Reached request channel tx) :
    tx.uncommitted = true := by
  induction h with
  | begun => rfl
  | aimed _ _ ih => exact ih
  | @failed b t u e _ hrun he ih =>
    have htalk := b.attempted_talk ih
    rw [hrun] at htalk
    exact htalk.uncommitted e rfl he

/-- By induction on the attempts: none of them takes more of the body than the first piece. -/
theorem Reached.awaits {tx : Transaction} (h : Reached request channel tx) {body more : Bytes}
    (hplan : channel.plan.Delivers) (hbody : channel.unread = body ++ more)
    (hlength : request.contentLength?.getD 0 = body.length) : tx.Awaits body := by
  induction h with
  | begun => exact awaits_begin hplan hbody hlength
  | aimed _ _ ih =>
    rcases ih with ⟨hfirst, ⟨hd, hr, hu⟩⟩ | ⟨hfirst, ⟨hd, hr, hu⟩⟩
    · exact .inl ⟨hfirst, hd, hr, hu⟩
    · exact .inr ⟨hfirst, hd, hr, hu⟩
  | @failed b t u e h hrun he ih =>
    have hkept := Backend.keeps_talk (lasting_stands body) b t ⟨rfl, rfl, fun _ => ih⟩
    rw [hrun] at hkept
    exact hkept.tx (Reached.failed h hrun he).uncommitted

end Transaction

open Transaction (Reached)

/-! ## What an attempt leaves -/

/-- A failure after which another attempt may follow leaves the request before one, and a result is
one that `ended` describes. -/
structure Courses (request : ClientRequest) (channel : Channel) {β : Type} (ended : β → Job → Prop)
    (r : Except ServiceError β) (k : Job) : Prop where
  reached : ∀ e, r = .error e → e.recoverable = true → Reached request channel k.tx
  ended : ∀ a, r = .ok a → ended a k

namespace Courses

variable {β γ : Type} {ended : β → Job → Prop} {e : ServiceError} {k l : Job}

theorem of_reached (h : Reached request channel k.tx) :
    Courses request channel ended (.error e) k :=
  ⟨fun _ _ _ => h, nofun⟩

theorem of_ended {a : β} (h : ended a k) : Courses request channel ended (.ok a) k :=
  ⟨nofun, fun _ ha => Except.ok.inj ha ▸ h⟩

/-- An error of another kind of result, after steps that leave the transaction as it is. -/
theorem error {ended' : γ → Job → Prop} (h : Courses request channel ended (.error e) k)
    (htx : l.tx = k.tx) : Courses request channel ended' (.error e) l :=
  ⟨fun e' he hrec => htx ▸ h.reached e' (congrArg Except.error (Except.error.inj he)) hrec, nofun⟩

end Courses

/-! ## Backends -/

namespace Backend

/-- An exchange of the backend that ended, after attempts that failed, and left the job. -/
structure Ends (request : ClientRequest) (channel : Channel) (b : Backend) (t : Talk)
    (r : Nat × Bool) (u : Talk) (k : Job) : Prop where
  run : ∃ b' : Backend, b'.name = b.name ∧ b'.settings = b.settings ∧ b'.talk.run t = (.ok r, u)
  holds : t.Holds b.settings.packetSize b.settings.packetSize (Reached request channel)
  tx : k.tx = u.job.tx
  history : k.world.history = u.job.world.history

/-- Such an exchange gave the status. -/
def Ended (request : ClientRequest) (channel : Channel) (b : Backend) (status : Nat) (k : Job) :
    Prop :=
  ∃ t reuse u, b.Ends request channel t (status, reuse) u k

variable {b : Backend} {line : Line} {job : Job}

theorem courses_exchange (hline : line.Fits b.settings.packetSize)
    (hjob : Reached request channel job.tx) :
    Courses request channel (fun r k => b.Ended request channel r.1 k) (b.exchange line job).1
      (b.exchange line job).2.2 := by
  rcases b.exchange_cases job hline with ⟨e, line', job', hx, -, htx⟩ | ⟨t, r, u, ht, hrun, hx⟩
  · rw [hx]
    exact .of_reached (htx ▸ hjob)
  · have hreached : Reached request channel t.job.tx := ht.tx ▸ hjob
    rw [hx]
    cases r with
    | error e =>
      refine ⟨fun e' he hrec => ?_, nofun⟩
      cases he
      exact .failed hreached hrun hrec
    | ok r =>
      exact .of_ended ⟨t, r.2, u, ⟨b, rfl, rfl, hrun⟩, ⟨ht.request, ht.reply, hreached⟩, rfl, rfl⟩

theorem courses_exchangeTwice (hline : line.Fits b.settings.packetSize)
    (hjob : Reached request channel job.tx) :
    Courses request channel (fun r k => b.Ended request channel r.1 k)
      (b.exchangeTwice line job).1 (b.exchangeTwice line job).2.2 := by
  have hfirst := courses_exchange hline hjob
  have hfits := b.fits_exchange job hline
  unfold exchangeTwice
  rcases hx : b.exchange line job with ⟨r, line', job'⟩
  rw [hx] at hfirst hfits
  cases r with
  | ok r => exact hfirst
  | error e =>
    dsimp only
    by_cases hagain : (line.connection?.isSome && mayRetry e) = true
    · rw [if_pos hagain]
      have hrec := recoverable_of_mayRetry (Bool.and_eq_true_iff.1 hagain).2
      exact courses_exchange hfits.anew (hfirst.reached e rfl hrec)
    · rw [if_neg hagain]
      exact hfirst

theorem courses_serve (hline : line.Fits b.settings.packetSize)
    (hjob : Reached request channel job.tx) :
    Courses request channel (b.Ended request channel) (b.serve line job).1
      (b.serve line job).2.2.2 := by
  unfold serve
  cases b.phase.ready b.name with
  | error e => exact .of_reached hjob
  | ok _ =>
    have htwice :=
      courses_exchangeTwice (b := { b with requests := b.requests + 1 }) hline hjob
    dsimp only
    rcases hx : exchangeTwice { b with requests := b.requests + 1 } line job with ⟨r, line', job'⟩
    rw [hx] at htwice
    cases r with
    | ok r =>
      obtain ⟨status, reuse⟩ := r
      obtain ⟨t, reuse, u, run, holds, tx, history⟩ := htwice.ended _ rfl
      exact .of_ended ⟨t, reuse, u, run, holds, tx, history⟩
    | error e =>
      dsimp only
      by_cases hclient : e.isClient = true
      · rw [if_pos hclient]
        exact htwice.error rfl
      · rw [if_neg hclient]
        exact htwice.error rfl

/-- Keeping a line reads the clock only. -/
theorem keep_job (b : Backend) (line : Line) (job : Job) :
    (b.keep line job).2.tx = job.tx ∧
      (b.keep line job).2.world.history = job.world.history := by
  unfold keep
  split
  · cases b.pool? <;> exact ⟨rfl, rfl⟩
  · exact ⟨rfl, rfl⟩

theorem courses_serveOn (hline : line.Fits b.settings.packetSize)
    (hjob : Reached request channel job.tx) :
    Courses request channel (b.Ended request channel) (b.serveOn line job).1
      (b.serveOn line job).2.2 := by
  have hserve := courses_serve hline hjob
  unfold serveOn
  rcases hs : b.serve line job with ⟨r, line?, b', job'⟩
  rw [hs] at hserve
  cases line? with
  | none => exact hserve
  | some line' =>
    obtain ⟨htx, hhistory⟩ := b'.keep_job line' job'
    cases r with
    | error e => exact hserve.error htx
    | ok status =>
      obtain ⟨t, reuse, u, run, holds, tx, history⟩ := hserve.ended status rfl
      exact .of_ended ⟨t, reuse, u, run, holds, htx.trans tx, hhistory.trans history⟩

theorem tx_acquire (b : Backend) (job : Job) : (b.acquire job).2.2.tx = job.tx := by
  unfold acquire
  cases b.phase.ready b.name with
  | error e => rfl
  | ok _ => cases b.pool? <;> rfl

theorem courses_serveAlone (hb : b.Sized) (hjob : Reached request channel job.tx) :
    Courses request channel (b.Ended request channel) (b.serveAlone job).1
      (b.serveAlone job).2.2 := by
  obtain ⟨-, hsettings, hline⟩ := hb.acquire job
  have hname := b.name_acquire job
  have htx := b.tx_acquire job
  unfold serveAlone
  rcases ha : b.acquire job with ⟨r, b', job'⟩
  rw [ha] at hsettings hline hname htx
  have hjob' : Reached request channel job'.tx := by
    rw [show job'.tx = job.tx from htx]
    exact hjob
  cases r with
  | error e => exact .of_reached hjob'
  | ok line =>
    have hfits := hline line rfl
    rw [← hsettings] at hfits
    have hserve := courses_serveOn hfits hjob'
    refine ⟨hserve.reached, fun status hr => ?_⟩
    obtain ⟨t, reuse, u, run, holds, tx, history⟩ := hserve.ended status hr
    dsimp only at hsettings hname
    rw [hname, hsettings] at run
    rw [hsettings] at holds
    exact ⟨t, reuse, u, run, holds, tx, history⟩

theorem outcome_serveAlone {b' : Backend} {line line' : Line} {job job' job'' : Job}
    {status : Nat} {reuse : Bool} (hacquire : b.acquire job = (.ok line, b', job'))
    (hphase : b'.phase = .initialized)
    (hx : exchange { b' with requests := b'.requests + 1 } line job' =
      (.ok (status, reuse), line', job'')) : (b.serveAlone job).1 = .ok status := by
  unfold serveAlone
  rw [hacquire]
  dsimp only
  unfold serveOn serve
  rw [Phase.ready_eq_ok_iff.2 hphase]
  dsimp only
  unfold exchangeTwice
  rw [hx]
  cases reuse <;> rfl

end Backend

/-! ## Leaves -/

/-- How a leaf came to a status: a backend by an exchange that ended, a monitor by itself. -/
inductive Target.Ended (request : ClientRequest) (channel : Channel) (status : Nat) (k : Job) :
    Target → Prop
  | backend {b : Backend} (h : b.Ended request channel status k) :
      Ended request channel status k (.backend b)
  | monitor {m : Monitor} {workers : List WorkerStatus} {j : Job}
      (h : (m.respond workers).run j = (.ok status, k)) :
      Ended request channel status k (.monitor m)

theorem Target.courses_serve {t : Target} (ht : t.Sized) (view : Target → List WorkerStatus)
    {job : Job} (hjob : Reached request channel job.tx) :
    Courses request channel (fun status k => t.Ended request channel status k)
      (Leaf.serve view t job).1 (Leaf.serve view t job).2.2 := by
  cases t with
  | backend b =>
    rw [serve_backend]
    have hserve := Backend.courses_serveAlone ht hjob
    exact ⟨hserve.reached, fun status hr => .backend (hserve.ended status hr)⟩
  | monitor m =>
    rw [serve_monitor]
    cases m.phase.ready m.name with
    | error e => exact .of_reached hjob
    | ok _ =>
      obtain ⟨-, hlasting⟩ := m.local_respond (view (.monitor m)) job
      refine ⟨fun e he hrec => ?_, fun status hr => ?_⟩
      · rw [hlasting e he] at hrec
        cases hrec
      · exact .monitor (Prod.ext hr rfl)

/-! ## Members of a balancer -/

/-- By induction on the attempts left: each begins where the ones before it left the request. -/
theorem Bench.courses_attempts {Load α : Type} [OfNat Load 0] [Add Load] [Max Load] [LT Load]
    [DecidableLT Load] {ask : Nat → Bench Load α → Outcome × Bench Load α}
    {ended : Nat → Job → Prop}
    (hask : ∀ i s, Reached request channel s.job.tx →
      Courses request channel ended (ask i s).1 (ask i s).2.job)
    (routes : List String) (n : Nat) (tried : List Bool) (first : Bool) {s : Bench Load α}
    (hs : Reached request channel s.job.tx) :
    Courses request channel ended (attempts ask routes n tried first s).1
      (attempts ask routes n tried first s).2.job := by
  induction n generalizing tried first s with
  | zero => exact .of_reached hs
  | succ n ih =>
    unfold attempts
    dsimp only
    rcases s.balancer.select s.job.now.1 routes tried first with ⟨choice, balancer⟩
    cases choice with
    | exhausted => exact .of_reached hs
    | refused => exact .of_reached hs
    | picked p =>
      dsimp only
      have hone := hask p.index (aim { balancer, workers := s.workers, job := s.job.now.2 } p.route)
        (.aimed hs (some p.route))
      rcases hr : ask p.index (aim { balancer, workers := s.workers, job := s.job.now.2 } p.route)
        with ⟨outcome, s'⟩
      rw [hr] at hone
      cases outcome with
      | ok status => exact hone
      | error e =>
        obtain ⟨-, htx⟩ := settle_job s' p.index (.error e)
        dsimp only
        by_cases he : (e.isClient || !e.recoverable) = true
        · rw [if_pos he]
          exact hone.error htx
        · rw [if_neg he]
          refine ih _ _ ?_
          show Reached request channel (s'.settle p.index (.error e)).job.tx
          rw [htx]
          exact hone.reached e rfl (recoverable_of_goesOn he)

/-! ## Trees -/

/-- Serving leaves a request as an attempt does. -/
def CoursesServing (request : ClientRequest) (channel : Channel) {α : Type}
    (ended : Nat → Job → Prop) (serve : (α → List WorkerStatus) → Job → Outcome × α × Job) : Prop :=
  ∀ view job, Reached request channel job.tx →
    Courses request channel ended (serve view job).1 (serve view job).2.2

namespace Worker

variable {α : Type} {ended : Nat → Job → Prop}

theorem courses_serveMembers {servers : List (Server α)}
    (h : ∀ server ∈ servers, CoursesServing request channel ended server) (b : Balancer Float)
    (ws : List (Worker α)) : CoursesServing request channel ended (serveMembers servers b ws) := by
  intro view job hjob
  unfold serveMembers
  cases b.phase.ready b.name with
  | error e => exact .of_reached hjob
  | ok _ =>
    refine Bench.courses_attempts (fun i s hs => ?_) _ _ _ _ hjob
    dsimp only
    cases hi : servers[i]? with
    | none => exact .of_reached hs
    | some server => exact h server (List.mem_of_getElem? hi) _ s.job hs

mutual

/-- By induction on the tree: balancers leave a request as their members do. -/
theorem courses_serve [Leaf α] : ∀ w : Worker α,
    (∀ a ∈ w.leaves, CoursesServing request channel ended fun view => Leaf.serve view a) →
      CoursesServing request channel ended w.serve
  | leaf _, h => fun view job hjob =>
    forall_leaves_leaf.1 h (fun a => view (.leaf a)) job hjob
  | balancer b ws, h => courses_serveMembers (courses_servers ws (forall_leaves_iff.1 h)) b ws

theorem courses_servers [Leaf α] : ∀ ws : List (Worker α),
    (∀ w ∈ ws, ∀ a ∈ w.leaves,
      CoursesServing request channel ended fun view => Leaf.serve view a) →
      ∀ server ∈ servers ws, CoursesServing request channel ended server
  | [], _, server, hs => absurd hs List.not_mem_nil
  | w :: rest, h, server, hs => by
    obtain ⟨hw, hrest⟩ := List.forall_mem_cons.1 h
    rcases List.mem_cons.1 hs with rfl | hs
    · exact courses_serve w hw
    · exact courses_servers rest hrest server hs

end

theorem exists_ended_of_serve {w : Worker Target} (hw : w.Sized)
    (view : Worker Target → List WorkerStatus) (world : World) {status : Nat}
    (h : (w.serve view { tx := .begin request channel, world }).1 = .ok status) :
    ∃ t ∈ w.leaves, t.Ended request channel status
      (w.serve view { tx := .begin request channel, world }).2.2 := by
  have hleaves : ∀ t ∈ w.leaves, CoursesServing request channel
      (fun status k => ∃ t ∈ w.leaves, t.Ended request channel status k)
      fun view => Leaf.serve view t := by
    intro t ht view job hjob
    have hcourses := Target.courses_serve (hw t ht) view hjob
    exact ⟨hcourses.reached, fun status hr => ⟨t, ht, hcourses.ended status hr⟩⟩
  exact (courses_serve w hleaves view _ .begun).ended status h

/-- **The body of a request is uploaded from its beginning**, whatever attempts failed before.  A
client that delivers the body gives every piece, and each is written.  Of an exchange that ends,
before which any others may have failed so that another could follow, the container got the first
piece of the body and one piece for each demand, as large as may be, without a gap or a byte twice.
And by such an exchange of one of its backends a tree comes to a status, unless a monitor gives
it. -/
theorem uploads_body (hplan : channel.plan.Delivers) {body more : Bytes}
    (hbody : channel.unread = body ++ more)
    (hlength : request.contentLength?.getD 0 = body.length) :
    (∀ (m : Buffer) (j : Job), Admissible m.capacity →
      (Reached request channel j.tx → ∃ k m',
        Job.firstPiece.run j = (.ok (body.take Transaction.keptSize), k) ∧
        (encodeBody (body.take Transaction.keptSize)).run m = (.ok (), m')) ∧
      ∀ n piece k, (Job.nextPiece (min n (bodyRoom m.capacity))).run j = (.ok piece, k) →
        ∃ m', (encodeBody piece).run m = (.ok (), m')) ∧
    (∀ (b : Backend) (t u : Talk) (r : Nat × Bool), Admissible t.request.capacity →
      headerSize ≤ t.reply.capacity → Reached request channel t.job.tx →
      b.talk.run t = (.ok r, u) → Backend.Uploads body t r.2 u) ∧
    ∀ (w w' : Worker Target) (view : Worker Target → List WorkerStatus) (world : World)
      (status : Nat) (k : Job), w.Sized →
      w.serve view { tx := .begin request channel, world } = (.ok status, w', k) →
      (∃ m workers j, Target.monitor m ∈ w.leaves ∧
        (m.respond workers).run j = (.ok status, k)) ∨
      ∃ b t reuse u, Target.backend b ∈ w.leaves ∧
        b.Ends request channel t (status, reuse) u k ∧ Backend.Uploads body t reuse u := by
  refine ⟨fun m j hm => ⟨fun hj => ?_, fun n piece k hpiece => ?_⟩, ?_, ?_⟩
  · obtain ⟨k, hfirst, -⟩ := Job.firstPiece_of_awaits (hj.awaits hplan hbody hlength)
    exact ⟨k, _, hfirst, run_encodeBody hm.1 hm.2
      (Nat.le_trans (List.length_take_le ..) (keptSize_le_bodyRoom hm))⟩
  · obtain ⟨hpieceLength, -⟩ := Job.of_nextPiece hpiece
    exact ⟨_, run_encodeBody hm.1 hm.2 (Nat.le_trans hpieceLength (Nat.min_le_right ..))⟩
  · intro b t u r hrequest hreply hreached hrun
    exact Backend.uploads_of_talk hrequest hreply (hreached.awaits hplan hbody hlength) hrun
  · intro w w' view world status k hw hserve
    obtain ⟨x, hx, hended⟩ := exists_ended_of_serve hw view world (congrArg Prod.fst hserve)
    rw [hserve] at hended
    cases hended with
    | monitor h => exact .inl ⟨_, _, _, hx, h⟩
    | @backend b h =>
      obtain ⟨t, reuse, u, hends⟩ := h
      obtain ⟨b', -, -, hrun⟩ := hends.run
      have hsize : Admissible b.settings.packetSize := (hw _ hx).size
      refine .inr ⟨b, t, reuse, u, hx, hends, ?_⟩
      exact Backend.uploads_of_talk (r := (status, reuse)) (hends.holds.request ▸ hsize)
        (hends.holds.reply ▸ Nat.le_trans (by decide) hsize.1)
        (hends.holds.tx.awaits hplan hbody hlength) hrun

/-! ### A letter -/

/-- The greeter of one connection, open for requests. -/
def reception : Backend :=
  { Backend.greeter with phase := .initialized, pool? := some { capacity := 1 } }

/-- A request with a body of two bytes, in a world where the reception is reached. -/
def letter : Job where
  tx := .begin { method := "POST", uri := "/", headers := [("Content-Length", "2")] }
    { unread := [104, 105] }
  world := Backend.greeted.world

theorem sized_reception : reception.Sized := by
  refine ⟨⟨Nat.le_refl _, by decide⟩, fun pool hp line hline => ?_⟩
  obtain rfl := Option.some.inj hp
  exact absurd hline List.not_mem_nil

/-- The reception demands more of the body than is left, and answers. -/
theorem outcome_reception : (reception.serveAlone letter).1 = .ok 200 := by
  obtain ⟨b, hb⟩ : ∃ b : Backend, b = { reception with requests := 1 } := ⟨_, rfl⟩
  -- the job with a line, and its connection once it is opened
  obtain ⟨job, connection, world, hacquire, htx, hconnect, hstream⟩ :
      ∃ (job : Job) (connection : Connection) (world : World),
        reception.acquire letter = (.ok (.new defaultSize), reception, job) ∧
        job.tx = letter.tx ∧
        job.world.connect ⟨.localhost, 8009, 0⟩ b.options = (.ok connection, world) ∧
        connection.stream = Backend.greetingStream :=
    ⟨_, _, _, rfl, rfl, by rw [hb]; rfl, rfl⟩
  have hencode : ∃ m, (b.forwardRequest job.tx).encode.run (.new defaultSize) = (.ok (), m) := by
    have hforward : b.forwardRequest job.tx = reception.forwardRequest letter.tx := by
      rw [hb, htx]
      rfl
    have hcapacity := Buffer.capacity_new_of_le (by decide : headerSize ≤ defaultSize)
    rw [hforward]
    have hmethod : methodCode? (reception.forwardRequest letter.tx).method = some 4 := by decide
    exact ⟨_, ForwardRequest.run_encode hmethod (by decide)
      (by rw [hcapacity]; exact sized_reception.size.2) (by rw [hcapacity]; decide)⟩
  obtain ⟨w, -, hexchange⟩ := Backend.exchange_of_greeting (by rw [hb]; rfl) hconnect hstream
    (htx ▸ ⟨fun _ => ⟨none, rfl⟩, fun _ => rfl, fun _ => rfl⟩) (htx ▸ nofun) hencode
  rw [hb] at hexchange
  exact Backend.outcome_serveAlone hacquire rfl hexchange

/-- A tree of the reception alone. -/
def office : Worker Target := .leaf (.backend reception)

/-- The reception got the whole letter. -/
theorem uploads_body_letter :
    (office.serve (fun _ => []) letter).1 = .ok 200 ∧
    ∃ b t reuse u, Target.backend b ∈ office.leaves ∧
      b.Ends letter.tx.request letter.tx.channel t (200, reuse) u
        (office.serve (fun _ => []) letter).2.2 ∧ Backend.Uploads [104, 105] t reuse u := by
  have hsized : office.Sized := forall_leaves_leaf.2 sized_reception
  have hserve : (office.serve (fun _ => []) letter).1 = .ok 200 := by
    rw [office, serve_backend]
    dsimp only
    exact outcome_reception
  refine ⟨hserve, ?_⟩
  rcases hs : office.serve (fun _ => []) letter with ⟨r, w', k⟩
  rw [hs] at hserve
  obtain rfl : r = .ok 200 := hserve
  have hplan : letter.tx.channel.plan.Delivers := fun _ => ⟨none, rfl, nofun⟩
  have hbody : letter.tx.channel.unread = [104, 105] ++ [] := rfl
  have hlength : letter.tx.request.contentLength?.getD 0 = ([104, 105] : Bytes).length := by decide
  rcases (uploads_body hplan hbody hlength).2.2 office w' (fun _ => []) letter.world 200 k hsized hs
    with ⟨m, workers, j, hm, -⟩ | h
  · cases List.mem_singleton.1 hm
  · exact h

end Worker

end AjpGateway
