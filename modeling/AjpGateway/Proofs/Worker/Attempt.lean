import AjpGateway.Proofs.Worker.Trace

/-!
# Attempts on a job

Serving a job is one attempt after another.  Each sends the request once at most, and one that
leaves the job uncommitted may be followed by another: what answers in the end is one exchange.

    Attempted (.error e) j k → e.recoverable → Attempted r k l → Attempted r j l
                                                                             (Attempted.retry)
    j.Prepares k → Attempted r k l → Attempted r j l                      (Prepares.attempted)
-/

namespace AjpGateway

/-- A run that begins attempts on a job: one exchange answers, if any does, and a failure after
which another worker may be asked leaves the job uncommitted. -/
structure Attempted {β : Type} (r : Except ServiceError β) (j k : Job) : Prop where
  answers : ∃ events, j.Goes events k ∧ OneExchange events
  uncommitted : ∀ e, r = .error e → e.recoverable = true → k.tx.uncommitted = true

namespace Attempted

variable {β γ : Type} {r : Except ServiceError β} {j k l : Job} {events : List Event}

theorem of_local (hg : j.Goes events k) (hl : ∀ e ∈ events, e.IsLocal)
    (hr : ∀ e, r = .error e → e.recoverable = false) : Attempted r j k := by
  refine ⟨⟨events, hg, OneExchange.of_local hl⟩, fun e he hrec => ?_⟩
  rw [hr e he] at hrec
  cases hrec

/-- Nothing was tried. -/
theorem of_uncommitted (hj : j.tx.uncommitted = true) (hg : j.Goes [] k)
    (hk : k.tx.uncommitted = j.tx.uncommitted) : Attempted r j k :=
  ⟨⟨[], hg, OneExchange.of_uncommitted (List.forall_mem_nil _)⟩,
    fun _ _ _ => hk.trans hj⟩

/-- An attempt after steps that committed nothing. -/
theorem after (hg : j.Goes events k) (hq : ∀ e ∈ events, e.commits = false)
    (h : Attempted r k l) : Attempted r j l := by
  obtain ⟨⟨x, hx, hone⟩, hopen⟩ := h
  exact ⟨⟨events ++ x, hg.trans hx, hone.append hq⟩, hopen⟩

/-- **A recoverable failure may be followed by another attempt.** -/
theorem retry {e : ServiceError} (h : Attempted (.error e : Except ServiceError γ) j k)
    (he : e.recoverable = true) (hr : Attempted r k l) : Attempted r j l := by
  obtain ⟨⟨x, hx, -⟩, hopen⟩ := h
  exact hr.after hx (hx.uncommitted (hopen e rfl he)).2

/-- A step after the attempt that shows nothing. -/
theorem silently (h : Attempted r j k) (hw : l.world.history = k.world.history)
    (ht : l.tx.uncommitted = k.tx.uncommitted) : Attempted r j l := by
  obtain ⟨⟨x, hx, hone⟩, hopen⟩ := h
  have hg := hx.trans (Job.Goes.silent hw ht)
  rw [List.append_nil] at hg
  exact ⟨⟨x, hg, hone⟩, fun e he hrec => ht.trans (hopen e he hrec)⟩

/-- Another form of the result. -/
theorem result {r' : Except ServiceError γ} (h : Attempted r j k)
    (hr : ∀ e, r' = .error e → r = .error e) : Attempted r' j k :=
  ⟨h.answers, fun e he => h.uncommitted e (hr e he)⟩

end Attempted

/-- Steps that commit nothing may come before an attempt. -/
theorem Job.Prepares.attempted {β : Type} {r : Except ServiceError β} {j k l : Job}
    (hp : j.Prepares k) (h : Attempted r k l) : Attempted r j l := by
  obtain ⟨x, hx, hq, -⟩ := hp
  exact h.after hx hq

theorem Job.Prepares.uncommitted {j k : Job} (hp : j.Prepares k) (hj : j.tx.uncommitted = true) :
    k.tx.uncommitted = true := by
  obtain ⟨x, -, -, ht⟩ := hp
  exact ht.trans hj

theorem Job.Prepares.failed {β : Type} {r : Except ServiceError β} {j k : Job} (hp : j.Prepares k)
    (hj : j.tx.uncommitted = true) : Attempted r j k :=
  hp.attempted (Attempted.of_uncommitted (hp.uncommitted hj) (Job.Goes.refl k) rfl)

end AjpGateway
