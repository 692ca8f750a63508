import AjpGateway.Proofs.Worker.Balancing
import AjpGateway.Proofs.Worker.Sizing

/-!
# Requests that no packet holds

A request may have a method without a code, or be too large for a packet.  No backend sends it, yet
each balancer on its way counts the failure against the member that it asked, and marks the last one
as failed.

    b.Rejects … → ∃ e, (b.serveAlone job).1 = .error (.packet b.name e)    (serveAlone_of_rejects)
    every leaf rejects the request → w.Blamed (w.serve view job).1 (w.serve view job).2.1
                                                                             (blamed_for_rejected)
-/

namespace AjpGateway

open Packet
open Bench (Run Turn asked)

/-! ## Networks -/

/-- Every attempt is answered by a connection. -/
def Listener.Welcomes (l : Listener) : Prop :=
  (∀ a ∈ l.pending, ∃ stream, a = .accepted stream) ∧ ∃ stream, l.later = .accepted stream

namespace Network

/-- The listener at an address welcomes everyone. -/
def Accepts (n : Network) (peer : Address) : Prop :=
  ∃ l, n.listeners.find? (·.address = peer) = some l ∧ l.Welcomes

theorem answer_of_welcomes {peer : Address} (elsewhere : Fault) {ls : List Listener} {l : Listener}
    (hfind : ls.find? (·.address = peer) = some l) (hl : l.Welcomes) :
    ∃ stream ls', answer peer elsewhere ls = (.accepted stream, ls') := by
  induction ls with
  | nil => cases hfind
  | cons l₀ rest ih =>
    unfold answer
    by_cases h : l₀.address = peer
    · rw [List.find?_cons_of_pos (by simpa using h)] at hfind
      obtain rfl := Option.some.inj hfind
      obtain ⟨hpending, stream, hlater⟩ := hl
      rw [if_pos h]
      cases hp : l₀.pending with
      | nil => exact ⟨stream, _, by rw [← hlater]⟩
      | cons a pending =>
        obtain ⟨stream, rfl⟩ := hpending a (by rw [hp]; exact List.mem_cons_self)
        exact ⟨stream, _, rfl⟩
    · rw [List.find?_cons_of_neg (by simpa using h)] at hfind
      obtain ⟨stream, ls', hrest⟩ := ih hfind
      rw [if_neg h, hrest]
      exact ⟨stream, _, rfl⟩

/-- By induction on the listeners: the one that answers has the same address as before, and fewer
answers. -/
theorem find?_answer {peer : Address} (peer' : Address) (elsewhere : Fault) {ls : List Listener}
    {l : Listener} (hfind : ls.find? (·.address = peer) = some l) (hl : l.Welcomes) :
    ∃ l', (answer peer' elsewhere ls).2.find? (·.address = peer) = some l' ∧ l'.Welcomes := by
  induction ls with
  | nil => cases hfind
  | cons l₀ rest ih =>
    unfold answer
    by_cases h' : l₀.address = peer'
    · rw [if_pos h']
      cases hp : l₀.pending with
      | nil => exact ⟨l, hfind, hl⟩
      | cons a pending =>
        by_cases h : l₀.address = peer
        · rw [List.find?_cons_of_pos (by simpa using h)] at hfind
          obtain rfl := Option.some.inj hfind
          refine ⟨{ l₀ with pending }, List.find?_cons_of_pos (by simpa using h), fun b hb => ?_,
            hl.2⟩
          exact hl.1 b (by rw [hp]; exact List.mem_cons_of_mem _ hb)
        · rw [List.find?_cons_of_neg (by simpa using h)] at hfind
          exact ⟨l, (List.find?_cons_of_neg (by simpa using h)).trans hfind, hl⟩
    · rw [if_neg h']
      by_cases h : l₀.address = peer
      · rw [List.find?_cons_of_pos (by simpa using h)] at hfind
        exact ⟨l, (List.find?_cons_of_pos (by simpa using h)).trans hfind, hl⟩
      · rw [List.find?_cons_of_neg (by simpa using h)] at hfind
        obtain ⟨l', hrest, hl'⟩ := ih hfind
        exact ⟨l', (List.find?_cons_of_neg (by simpa using h)).trans hrest, hl'⟩

theorem Accepts.connect {n : Network} {peer : Address} (h : n.Accepts peer) (peer' : Address)
    (options : SocketOptions) : (n.connect peer' options).2.Accepts peer := by
  obtain ⟨l, hfind, hl⟩ := h
  have hanswer := find?_answer peer' n.elsewhere hfind hl
  unfold Network.connect
  rcases hr : answer peer' n.elsewhere n.listeners with ⟨a, ls⟩
  rw [hr] at hanswer
  cases a <;> exact hanswer

theorem Accepts.connect_ok {n : Network} {peer : Address} (h : n.Accepts peer)
    (options : SocketOptions) : ∃ c, (n.connect peer options).1 = .ok c := by
  obtain ⟨l, hfind, hl⟩ := h
  obtain ⟨stream, ls, hanswer⟩ := answer_of_welcomes n.elsewhere hfind hl
  unfold Network.connect
  rw [hanswer]
  exact ⟨_, rfl⟩

end Network

/-! ## What a rejected request leaves of a job -/

/-- A step that gives nobody a part of the request or of a response. -/
def Event.aside : Event → Bool
  | opened .. | sent _ .probe _ | received .. => true
  | _ => false

namespace Job

/-- Neither a container nor the client got anything, and whoever accepts connections does so
still. -/
structure Spared (j k : Job) : Prop where
  request : k.tx.request = j.tx.request
  accepts : ∀ peer, j.world.network.Accepts peer → k.world.network.Accepts peer
  history : ∃ events : List Event, k.world.history = events.reverse ++ j.world.history ∧
    ∀ e ∈ events, e.aside = true

/-- A step that shows nothing. -/
theorem spared_silent {j k : Job} (hrequest : k.tx.request = j.tx.request)
    (hnetwork : k.world.network = j.world.network) (hhistory : k.world.history = j.world.history) :
    Spared j k :=
  ⟨hrequest, fun _ h => hnetwork ▸ h, [], hhistory, List.forall_mem_nil _⟩

theorem Spared.refl (j : Job) : Spared j j := spared_silent rfl rfl rfl

theorem spared_note {j k : Job} {e : Event} (hrequest : k.tx.request = j.tx.request)
    (hnetwork : ∀ peer, j.world.network.Accepts peer → k.world.network.Accepts peer)
    (hhistory : k.world.history = e :: j.world.history) (he : e.aside = true) : Spared j k :=
  ⟨hrequest, hnetwork, [e], hhistory, List.forall_mem_singleton.2 he⟩

theorem Spared.trans {j k l : Job} (hj : Spared j k) (hk : Spared k l) : Spared j l := by
  obtain ⟨x, hx, hax⟩ := hj.history
  obtain ⟨y, hy, hay⟩ := hk.history
  refine ⟨hk.request.trans hj.request, fun peer h => hk.accepts peer (hj.accepts peer h),
    x ++ y, ?_, List.forall_mem_append.2 ⟨hax, hay⟩⟩
  rw [hy, hx, List.reverse_append, List.append_assoc]

theorem spared_now (j : Job) : Spared j j.now.2 := spared_silent rfl rfl rfl

end Job

/-! ## Backends -/

/-- An open backend that is reached, and whose packets do not hold the request. -/
structure Backend.Rejects (b : Backend) (request : ClientRequest) (network : Network) : Prop where
  sized : b.Sized
  opened : b.phase = .initialized ∧ b.pool?.isSome = true
  reached : ∃ address, b.address? = some address ∧ network.Accepts address
  rejects : ∀ tx : Transaction, tx.request = request →
    ∃ e, ((b.forwardRequest tx).encode.run (.new b.settings.packetSize)).1 = .error e

namespace Backend

variable {b : Backend} {line : Line} {job : Job}

theorem Rejects.spared {k : Job} (h : b.Rejects job.tx.request job.world.network)
    (hk : job.Spared k) : b.Rejects k.tx.request k.world.network where
  sized := h.sized
  opened := h.opened
  reached := h.reached.imp fun address ha => ⟨ha.1, hk.accepts address ha.2⟩
  rejects := hk.request ▸ h.rejects

/-- A request is rejected in every buffer of the packet size. -/
theorem Rejects.encode {request : ClientRequest} {network : Network}
    (h : b.Rejects request network) (tx : Transaction) (htx : tx.request = request) {m : Buffer}
    (hm : m.capacity = b.settings.packetSize) :
    ∃ e sent, (b.forwardRequest tx).encode.run m = (.error e, sent) := by
  rcases hr : (b.forwardRequest tx).encode.run m with ⟨r, sent⟩
  cases r with
  | error e => exact ⟨e, sent, rfl⟩
  | ok _ =>
    -- it would encode in an empty buffer too
    have hheader : headerSize ≤ b.settings.packetSize :=
      Nat.le_trans (by decide) h.sized.size.1
    have hnew : (Buffer.new b.settings.packetSize).capacity = m.capacity := by
      rw [Buffer.capacity_new, hm]
      exact Nat.max_eq_left hheader
    obtain ⟨sent', hsent⟩ :=
      ForwardRequest.encode_of_capacity (hm ▸ h.sized.size.2) hnew hr
    obtain ⟨e, he⟩ := h.rejects tx htx
    rw [hsent] at he
    cases he

/-- A talk whose request does not encode sends nothing. -/
theorem talk_of_rejected {t : Talk} {e : PacketError} {sent : Buffer}
    (h : (b.forwardRequest t.job.tx).encode.run t.request = (.error e, sent)) :
    b.talk.run t = (.error (.packet b.name e), { t with request := sent }) := by
  have hstep : (b.packetStep (Talk.onRequest (b.forwardRequest t.job.tx).encode)).run t =
      (.error (.packet b.name e), { t with request := sent }) := by
    show ((Talk.onRequest (b.forwardRequest t.job.tx).encode t).1.mapError _,
      (Talk.onRequest (b.forwardRequest t.job.tx).encode t).2) = _
    unfold Talk.onRequest
    rw [h]
    rfl
  unfold talk
  rw [run_bind_of_ok (run_get t), run_bind_of_error hstep]

theorem spared_probe (b : Backend) (line : Line) (job : Job) :
    job.Spared (b.probe line job).2 :=
  probe_keeps (fun _ _ _ h => h.trans (Job.spared_note rfl (fun _ h => h) rfl rfl))
    (fun _ _ _ h => h.trans (Job.spared_note rfl (fun _ h => h) rfl rfl)) b line
    (Job.Spared.refl job)

theorem connected_of_rejects (h : b.Rejects job.tx.request job.world.network) (line : Line) :
    ∃ connection k, b.connected line job = (.ok connection, k) ∧ job.Spared k ∧ k.tx = job.tx := by
  unfold connected
  cases line.connection? with
  | some connection => exact ⟨connection, job, rfl, Job.Spared.refl job, rfl⟩
  | none =>
    obtain ⟨address, haddress, haccepts⟩ := h.reached
    obtain ⟨c, hc⟩ := haccepts.connect_ok b.options
    have hkept := fun peer (hp : job.world.network.Accepts peer) => hp.connect address b.options
    rw [haddress]
    dsimp only
    unfold World.connect
    rcases hr : job.world.network.connect address b.options with ⟨r, network⟩
    rw [hr] at hc hkept
    obtain rfl : r = .ok c := hc
    exact ⟨c, _, rfl, Job.spared_note rfl hkept rfl rfl, rfl⟩

theorem exchange_of_rejects (h : b.Rejects job.tx.request job.world.network)
    (hline : line.Fits b.settings.packetSize) :
    ∃ e line' k, b.exchange line job = (.error (.packet b.name e), line', k) ∧ job.Spared k := by
  obtain ⟨hfits, -⟩ := b.fits_probe job hline
  have hprobed := b.spared_probe line job
  rcases hp : b.probe line job with ⟨line', job'⟩
  rw [hp] at hfits hprobed
  obtain ⟨connection, k, hconnected, hk, -⟩ := connected_of_rejects (h.spared hprobed) line'
  have hspared := hprobed.trans hk
  obtain ⟨e, sent, hencode⟩ := (h.spared hspared).encode k.tx rfl hfits.1
  rw [exchange_of_connected hp hconnected,
    talk_of_rejected (t := line'.over connection k) hencode]
  exact ⟨e, _, k, rfl, hspared⟩

theorem serve_of_rejects (h : b.Rejects job.tx.request job.world.network)
    (hline : line.Fits b.settings.packetSize) :
    ∃ e b' k, b.serve line job = (.error (.packet b.name e), none, b', k) ∧
      b'.errors = b.errors + 1 ∧ job.Spared k := by
  have hcounted : Rejects { b with requests := b.requests + 1 } job.tx.request job.world.network :=
    ⟨⟨h.sized.size, h.sized.lines⟩, h.opened, h.reached, h.rejects⟩
  obtain ⟨e, line', k, hx, hk⟩ := exchange_of_rejects hcounted hline
  unfold serve
  rw [Phase.ready_eq_ok_iff.2 h.opened.1]
  dsimp only
  unfold exchangeTwice
  rw [hx]
  dsimp only
  rw [if_neg (by simp [mayRetry])]
  exact ⟨e, _, _, rfl, rfl, hk.trans (Job.spared_silent rfl rfl rfl)⟩

/-- **A backend fails a request that its packets do not hold**, and counts that as an error of its
own.  It may have opened or probed a connection. -/
theorem serveAlone_of_rejects (h : b.Rejects job.tx.request job.world.network) :
    ∃ e b' k, b.serveAlone job = (.error (.packet b.name e), b', k) ∧
      b'.errors = b.errors + 1 ∧ job.Spared k := by
  obtain ⟨pool, hpool⟩ := Option.isSome_iff_exists.1 h.opened.2
  have hacquire : b.acquire job = (.ok ((pool.take job.now.1).1.getD (.new b.settings.packetSize)),
      { b with pool? := some (pool.take job.now.1).2 }, job.now.2) := by
    unfold acquire
    rw [Phase.ready_eq_ok_iff.2 h.opened.1, hpool]
  obtain ⟨hsized, -, hline⟩ := h.sized.acquire job
  rw [hacquire] at hsized hline
  have hnow := h.spared (Job.spared_now job)
  have hopen : Rejects { b with pool? := some (pool.take job.now.1).2 } job.now.2.tx.request
      job.now.2.world.network := ⟨hsized, ⟨h.opened.1, rfl⟩, hnow.reached, hnow.rejects⟩
  obtain ⟨e, b', k, hserve, herrors, hk⟩ := serve_of_rejects hopen (hline _ rfl)
  unfold serveAlone serveOn
  rw [hacquire]
  dsimp only
  rw [hserve]
  exact ⟨e, b', k, rfl, herrors, (Job.spared_now job).trans hk⟩

end Backend

/-! ## Members of a balancer -/

/-- The error of a backend that rejected the request, or of a balancer that asked nobody. -/
def Outcome.Refuses (r : Outcome) : Prop :=
  (∃ name e, r = .error (.packet name e)) ∨ ∃ name, r = .error (.unavailable name)

theorem Outcome.Refuses.blames {r : Outcome} (h : r.Refuses) : r.blames = true := by
  rcases h with ⟨name, e, rfl⟩ | ⟨name, rfl⟩ <;> rfl

namespace Bench

variable {Load α : Type}

theorem spared_settle (s : Bench Load α) (i : Nat) (outcome : Outcome) :
    s.job.Spared (s.settle i outcome).job ∧ (s.settle i outcome).workers = s.workers := by
  unfold settle
  cases outcome with
  | ok status => exact ⟨Job.Spared.refl s.job, rfl⟩
  | error e =>
    dsimp only
    split
    · exact ⟨Job.Spared.refl s.job, rfl⟩
    · exact ⟨Job.spared_now s.job, rfl⟩

section
variable [OfNat Load 0] [Add Load] [Max Load] [LT Load] [DecidableLT Load]
  {ask : Nat → Bench Load α → Outcome × Bench Load α} {routes : List String} {n : Nat}
  {tried : List Bool} {first : Bool} {s : Bench Load α} {log : List (Turn Load)}
  {r : Outcome × Bench Load α} {R : Nat → Outcome → α → Prop} {j : Job}

/-- A step sets the worker that is asked as it answers. -/
theorem worker_step {k : Nat} (hasks : ∀ i s, i < k → j.Spared s.job → ∃ w,
      (ask i s).2.workers = s.workers.set i w ∧ R i (ask i s).1 w ∧ j.Spared (ask i s).2.job)
    {s' : Bench Load α} {p : Pick} {balancer : Balancer Load} {outcome : Outcome}
    (hselect : s.balancer.select s.job.now.1 routes tried first = (.picked p, balancer))
    (hask : ask p.index ((s.selected balancer).aim p.route) = (outcome, s'))
    (hmembers : s.balancer.members.length = k) (hs : j.Spared s.job) :
    p.index < k ∧ ∃ w, (s'.settle p.index outcome).workers = s.workers.set p.index w ∧
      R p.index outcome w ∧ j.Spared (s'.settle p.index outcome).job := by
  obtain ⟨m, heligible, -⟩ := exists_eligible_of_select hselect
  have hlt : p.index < k := by
    rw [← hmembers]
    exact heligible.lt
  obtain ⟨w, hw, hR, hjob⟩ := hasks p.index ((s.selected balancer).aim p.route) hlt
    (hs.trans (Job.spared_silent rfl rfl rfl))
  rw [hask] at hw hR hjob
  obtain ⟨hsettled, hset⟩ := s'.spared_settle p.index outcome
  exact ⟨hlt, w, hset.trans hw, hR, hjob.trans hsettled⟩

/-- By induction on the run: each worker that is asked is left as it answers, and the others are
left as they were. -/
theorem Run.workers (hkeeps : ∀ i s, (ask i s).2.balancer = s.balancer)
    {k : Nat} (hasks : ∀ i s, i < k → j.Spared s.job → ∃ w,
      (ask i s).2.workers = s.workers.set i w ∧ R i (ask i s).1 w ∧ j.Spared (ask i s).2.job)
    (h : Run ask routes n tried first s log r) (htried : tried.length = k)
    (hmembers : s.balancer.members.length = k) (hworkers : s.workers.length = k)
    (hs : j.Spared s.job) :
    (∀ i outcome, (i, outcome) ∈ asked log → ∃ w, r.2.workers[i]? = some w ∧ R i outcome w) ∧
    (∀ i, i ∉ (asked log).map Prod.fst → r.2.workers[i]? = s.workers[i]?) ∧
    j.Spared r.2.job := by
  induction h with
  | spent => exact ⟨fun _ _ h => absurd h List.not_mem_nil, fun _ _ => rfl, hs⟩
  | unchosen _ _ =>
    exact ⟨fun _ _ h => absurd h List.not_mem_nil, fun _ _ => rfl, hs.trans (Job.spared_now _)⟩
  | @answered n tried first s s' p balancer outcome hselect hask _ =>
    obtain ⟨hlt, w, hw, hR, hjob⟩ := worker_step hasks hselect hask hmembers hs
    refine ⟨fun i outcome' hi => ?_, fun i hi => ?_, hjob⟩
    · cases List.mem_singleton.1 hi
      refine ⟨w, ?_, hR⟩
      rw [hw, List.getElem?_set_self (hworkers ▸ hlt)]
    · have hne : p.index ≠ i := fun h => hi (List.mem_singleton.2 h.symm)
      rw [hw, List.getElem?_set_ne hne]
  | @failed n tried first s s' p balancer outcome log r hselect hask hdecides hrest ih =>
    obtain ⟨hlt, w, hw, hR, hjob⟩ := worker_step hasks hselect hask hmembers hs
    have hw : (s'.settle p.index outcome).failover.workers = s.workers.set p.index w := hw
    have hlength := length_step hkeeps hselect hask
    obtain ⟨hasked, hothers, hlast⟩ := ih
      (by rw [List.length_set, htried]) (hlength.trans hmembers)
      (by rw [hw, List.length_set, hworkers])
      (hjob.trans (Job.spared_silent rfl rfl rfl))
    -- the member asked here is asked no more
    have hnodup := (Run.nodup_asked hkeeps (.failed hselect hask hdecides hrest)
      (htried.trans hmembers.symm)).1
    have hgone : p.index ∉ (asked log).map Prod.fst := (List.nodup_cons.1 hnodup).1
    refine ⟨fun i outcome' hi => ?_, fun i hi => ?_, hlast⟩
    · rcases List.mem_cons.1 hi with heq | hi
      · cases heq
        refine ⟨w, ?_, hR⟩
        rw [hothers p.index hgone, hw, List.getElem?_set_self (hworkers ▸ hlt)]
      · exact hasked i outcome' hi
    · have hne : p.index ≠ i := fun h => hi (List.mem_cons.2 (.inl h.symm))
      have hnot : i ∉ (asked log).map Prod.fst := fun h => hi (List.mem_cons_of_mem _ h)
      rw [hothers i hnot, hw, List.getElem?_set_ne hne]

/-- A member whose failure ended the run is marked as failed. -/
theorem Run.marked_failed (hkeeps : ∀ i s, (ask i s).2.balancer = s.balancer)
    (h : Run ask routes n tried first s log r) {i : Nat} {e : ServiceError}
    (hlast : (asked log).getLast? = some (i, .error e)) (hclient : e.isClient = false)
    (hrecoverable : e.recoverable = false) :
    ∃ m, r.2.balancer.members[i]? = some m ∧ m.inError = true ∧ m.errorTime?.isSome = true := by
  induction h with
  | spent => cases hlast
  | unchosen _ _ => cases hlast
  | @answered n tried first s s' p balancer outcome hselect hask _ =>
    cases hlast
    obtain ⟨m, -, helected⟩ := exists_eligible_of_select hselect
    obtain ⟨m', hm', -⟩ := helected.sound
    refine ⟨m'.failed s'.job.now.1, ?_, rfl, rfl⟩
    unfold settle
    dsimp only
    rw [if_neg (by rw [hclient]; exact Bool.false_ne_true)]
    show (s'.balancer.members.modify p.index (·.failed s'.job.now.1))[p.index]? = _
    rw [balancer_of_ask hkeeps hask, List.getElem?_modify, hm']
    simp
  | @failed n tried first s s' p balancer outcome log r _ _ hdecides _ ih =>
    have hcons : (asked log).getLast?.getD (p.index, outcome) = (i, .error e) :=
      Option.some.inj (List.getLast?_cons.symm.trans hlast)
    cases hrest : (asked log).getLast? with
    | none =>
      rw [hrest] at hcons
      cases hcons
      rw [Outcome.decides, hrecoverable, Bool.not_false, Bool.or_true] at hdecides
      cases hdecides
    | some a =>
      rw [hrest] at hcons
      exact ih (hrest.trans (congrArg some hcons))

end

end Bench

/-! ## Trees -/

/-- A backend that rejects the request. -/
def Target.Rejects (t : Target) (job : Job) : Prop :=
  ∃ b, t = .backend b ∧ b.Rejects job.tx.request job.world.network

namespace Worker

/-- An open tree of backends that reject the request. -/
structure Rejects (w : Worker Target) (job : Job) : Prop where
  leaves : ∀ t ∈ w.leaves, t.Rejects job
  opened : ∀ x ∈ w.balancers, x.1.phase = .initialized ∧ x.1.members.length = x.2.length

theorem Rejects.spared {w : Worker Target} {j k : Job} (h : w.Rejects j) (hk : j.Spared k) :
    w.Rejects k where
  leaves t ht := (h.leaves t ht).imp fun _ hb => ⟨hb.1, hb.2.spared hk⟩
  opened := h.opened

theorem Rejects.member {b : Balancer Float} {ws : List (Worker Target)} {job : Job}
    (h : (balancer b ws).Rejects job) {w : Worker Target} (hw : w ∈ ws) : w.Rejects job :=
  ⟨forall_leaves_iff.1 h.leaves w hw, (forall_balancers_iff.1 h.opened).2 w hw⟩

/-- A tree before and after a request that was refused.  A backend counts the error, and so does a
balancer against each member that it asked; the last of them is marked as failed if it rejected the
request. -/
inductive Blamed : Worker Target → Outcome → Worker Target → Prop
  | leaf {b b' : Backend} {e : PacketError} (errors : b'.errors = b.errors + 1) :
      Blamed (.leaf (.backend b)) (.error (.packet b.name e)) (.leaf (.backend b'))
  | balancer {b b' : Balancer Float} {ws ws' : List (Worker Target)}
      {answers : List (Nat × Outcome)} {r : Outcome} (turns : b.InTurn b' answers r)
      (blamed : ∀ i ∈ answers.map Prod.fst, b'.errorsOf i = b.errorsOf i + 1)
      (failed : ∀ name e, r = .error (.packet name e) → ∃ i m,
        answers.getLast? = some (i, r) ∧ b'.members[i]? = some m ∧ m.inError = true ∧
          m.errorTime?.isSome = true)
      (asked : ∀ i outcome w w', (i, outcome) ∈ answers → ws[i]? = some w → ws'[i]? = some w' →
        Blamed w outcome w')
      (others : ∀ i, i ∉ answers.map Prod.fst → ws'[i]? = ws[i]?) :
      Blamed (.balancer b ws) r (.balancer b' ws')

/-- Serving refuses a request that the worker rejects, and blames for it whoever was asked. -/
def BlamesServing (w : Worker Target) (server : Server Target) : Prop :=
  ∀ view job, w.Rejects job → (server view job).1.Refuses ∧
    w.Blamed (server view job).1 (server view job).2.1 ∧ job.Spared (server view job).2.2

theorem blames_serveMembers {ws : List (Worker Target)} {servers : List (Server Target)}
    (h : List.Forall₂ BlamesServing ws servers) (b : Balancer Float) :
    BlamesServing (balancer b ws) (serveMembers servers b ws) := by
  intro view job hrejects
  obtain ⟨⟨hphase, hlength⟩, -⟩ := forall_balancers_iff.1 hrejects.opened
  obtain ⟨log, r, hrun, hserve⟩ := exists_runOf servers view ws job hphase
  have htried : (List.replicate ws.length false).length = ws.length := List.length_replicate
  have hturns : b.InTurn r.2.balancer (asked log) r.1 :=
    hrun.inTurn balancer_asking (htried.trans hlength.symm) (Nat.le_of_eq hlength.symm)
  obtain ⟨hasked, hothers, hspared⟩ := hrun.workers (j := job) (k := ws.length)
    (R := fun i outcome w' => outcome.Refuses ∧ ∀ w, ws[i]? = some w → w.Blamed outcome w')
    balancer_asking (fun i s hi hs => by
      have hi' : i < servers.length := h.length_eq ▸ hi
      have hserver := h.get hi hi' (fun w => view (.balancer s.balancer (s.workers.set i w))) s.job
        ((hrejects.member (List.getElem_mem hi)).spared hs)
      obtain ⟨hrefuses, hblamed, hk⟩ := hserver
      unfold asking
      rw [List.getElem?_eq_getElem hi']
      refine ⟨_, rfl, ⟨hrefuses, fun w hw => ?_⟩, hs.trans hk⟩
      rw [List.getElem?_eq_getElem hi] at hw
      obtain rfl := Option.some.inj hw
      exact hblamed) htried hlength rfl (Job.Spared.refl job)
  have hrefuses : ∀ a ∈ asked log, a.2.Refuses := fun a ha => by
    obtain ⟨w, -, hr, -⟩ := hasked a.1 a.2 ha
    exact hr
  rw [hserve]
  refine ⟨?_, .balancer hturns (fun i hi => ?_) (fun name e hr => ?_) ?_ hothers, hspared⟩
  · rcases hrun.ends with ⟨earlier, a, hlog, -, -, hr⟩ | ⟨-, hr⟩
    · rw [hr]
      exact hrefuses a (by rw [hlog]; exact List.mem_append_right _ List.mem_cons_self)
    · exact .inr ⟨_, hr⟩
  · obtain ⟨a, ha, rfl⟩ := List.mem_map.1 hi
    rw [hturns.blamed a.1 a.2 ha, if_pos (hrefuses a ha).blames]
  · rcases hrun.ends with ⟨earlier, a, hlog, -, -, hlast⟩ | ⟨-, hlast⟩
    · have ha : (asked log).getLast? = some (a.1, r.1) := by
        rw [hlog, List.getLast?_concat, hlast]
      have hmarked := hrun.marked_failed balancer_asking (ha.trans (by rw [hr])) rfl rfl
      exact ⟨a.1, hmarked.choose, ha, hmarked.choose_spec⟩
    · rw [hlast] at hr
      cases hr
  · intro i outcome w w' ha hw hw'
    obtain ⟨w'', hw'', -, hblamed⟩ := hasked i outcome ha
    rw [hw'] at hw''
    obtain rfl := Option.some.inj hw''
    exact hblamed w hw

mutual

/-- By induction on the tree: what one member is blamed for, every balancer above it blames its own
member for. -/
theorem blames_serve : ∀ w : Worker Target, BlamesServing w w.serve
  | leaf t => by
    intro view job hrejects
    obtain ⟨b, rfl, hb⟩ := forall_leaves_leaf.1 hrejects.leaves
    obtain ⟨e, b', k, hserve, herrors, hk⟩ := Backend.serveAlone_of_rejects hb
    rw [serve_backend, hserve]
    exact ⟨.inl ⟨_, _, rfl⟩, .leaf herrors, hk⟩
  | balancer b ws => blames_serveMembers (blames_servers ws) b

theorem blames_servers : ∀ ws : List (Worker Target), List.Forall₂ BlamesServing ws (servers ws)
  | [] => .nil
  | w :: rest => .cons (blames_serve w) (blames_servers rest)

end

/-- **A request that no packet holds is blamed on the members that were asked.**  Where containers
accept connections, an open tree refuses a request that its backends cannot send.  None of it
reaches a container; but in each balancer that was asked, the errors of every member that it asked
grow by one, and the member whose backend rejected the request is marked as failed. -/
theorem blamed_for_rejected {w : Worker Target} {job : Job} (h : w.Rejects job)
    (view : Worker Target → List WorkerStatus) :
    (w.serve view job).1.Refuses ∧ w.Blamed (w.serve view job).1 (w.serve view job).2.1 ∧
      job.Spared (w.serve view job).2.2 :=
  blames_serve w view job h

/-! ### Coffee -/

/-- An open backend with a connection for everyone. -/
def kitchen : Backend where
  name := "a"
  phase := .initialized
  address? := some ⟨.localhost, 8009, 0⟩
  pool? := some { capacity := 1 }

/-- A balancer over the kitchen, which never failed. -/
def counter : Balancer Float where
  name := "lb"
  phase := .initialized
  members := [{ name := "a", route := "a", factor := 1, load := 0 }]

def cafe : Worker Target := .balancer counter [.leaf (.backend kitchen)]

/-- A request whose method has no code, where connections to the kitchen are accepted. -/
def coffee : Job where
  tx := .begin { method := "BREW", uri := "/" } {}
  world := { network := { listeners := [{
    address := ⟨.localhost, 8009, 0⟩
    later := .accepted {} }] } }

/-- A method without a code is rejected whatever the buffer. -/
theorem rejects_kitchen : kitchen.Rejects coffee.tx.request coffee.world.network where
  sized := by
    refine ⟨⟨Nat.le_refl _, by decide⟩, fun pool hp line hline => ?_⟩
    obtain rfl := Option.some.inj hp
    exact absurd hline List.not_mem_nil
  opened := ⟨rfl, rfl⟩
  reached := ⟨_, rfl, _, rfl, List.forall_mem_nil _, _, rfl⟩
  rejects tx htx := by
    have hmethod : methodCode? (kitchen.forwardRequest tx).method = none := by
      show methodCode? tx.request.method = none
      rw [htx]
      decide
    unfold ForwardRequest.encode
    rw [hmethod]
    exact ⟨_, rfl⟩

/-- A request for coffee takes the kitchen out of rotation. -/
theorem blamed_for_coffee : cafe.Rejects coffee ∧
    (cafe.serve (fun _ => []) coffee).1 = .error (.packet "a" (.unknownMethod "BREW")) ∧
    ∃ b ws m, (cafe.serve (fun _ => []) coffee).2.1 = .balancer b ws ∧
      b.errorsOf 0 = counter.errorsOf 0 + 1 ∧ b.members[0]? = some m ∧ m.inError = true ∧
      m.errorTime?.isSome = true := by
  have hrejects : cafe.Rejects coffee := by
    refine ⟨forall_leaves_iff.2 fun w hw => ?_, forall_balancers_iff.2 ⟨⟨rfl, rfl⟩, fun w hw => ?_⟩⟩
    · obtain rfl := List.mem_singleton.1 hw
      exact forall_leaves_leaf.2 ⟨kitchen, rfl, rejects_kitchen⟩
    · obtain rfl := List.mem_singleton.1 hw
      exact List.forall_mem_nil _
  have houtcome : (cafe.serve (fun _ => []) coffee).1 =
      .error (.packet "a" (.unknownMethod "BREW")) := rfl
  obtain ⟨-, hblamed, -⟩ := blamed_for_rejected hrejects (fun _ => [])
  refine ⟨hrejects, houtcome, ?_⟩
  rcases hs : cafe.serve (fun _ => []) coffee with ⟨r, w, k⟩
  rw [hs] at hblamed houtcome
  dsimp only at hblamed houtcome
  unfold cafe at hblamed
  cases hblamed with
  | @balancer _ b' _ ws' answers _ turns blamed failed _ _ =>
    obtain ⟨i, m, hlast, hm, herror⟩ := failed _ _ houtcome
    have hmem : i ∈ answers.map Prod.fst :=
      List.mem_map.2 ⟨_, List.mem_of_getLast? hlast, rfl⟩
    obtain rfl : i = 0 := Nat.lt_one_iff.1 (turns.known i hmem)
    exact ⟨b', ws', m, rfl, blamed 0 hmem, hm, herror⟩

end Worker

end AjpGateway
