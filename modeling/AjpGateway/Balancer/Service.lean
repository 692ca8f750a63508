import AjpGateway.Balancer.Selection
import AjpGateway.Client.Session
import AjpGateway.Worker.Transaction

/-!
# Service of a balancer

A balancer asks one member after another until one serves the request.  A failure that another
member could make good leads to the next attempt; any other error is the answer.  The members'
workers are of any type: `ask` serves the job by the worker of one member.
-/

namespace AjpGateway

/-- A balancer, its members' workers and the job they serve. -/
structure Bench (Load α : Type) where
  balancer : Balancer Load
  workers : List α
  job : Job

namespace Bench

variable {Load α : Type}

/-- Marks the outcome of an attempt on a member.  A client's error says nothing about it. -/
def settle (s : Bench Load α) (i : Nat) : Outcome → Bench Load α
  | .ok _ => { s with balancer := s.balancer.succeeded i }
  | .error e =>
    if e.isClient then s
    else
      let (now, job) := s.job.now
      { s with balancer := s.balancer.failed i now, job }

/-- Gives the job the route of the chosen member. -/
def aim (s : Bench Load α) (route : String) : Bench Load α :=
  { s with job.tx.route := some route }

/-- At most `n` more attempts. -/
def attempts [OfNat Load 0] [Add Load] [Max Load] [LT Load] [DecidableLT Load]
    (ask : Nat → Bench Load α → Outcome × Bench Load α) (routes : List String) :
    (n : Nat) → (tried : List Bool) → (firstAttempt : Bool) → Bench Load α →
      Outcome × Bench Load α
  | 0, _, _, s => (.error (.unavailable s.balancer.name), s)
  | n + 1, tried, firstAttempt, s =>
    let (now, job) := s.job.now
    let (choice, balancer) := s.balancer.select now routes tried firstAttempt
    let s := { s with balancer, job }
    match choice with
    | .exhausted | .refused => (.error (.unavailable s.balancer.name), s)
    | .picked p =>
      let (outcome, s) := ask p.index (s.aim p.route)
      let s := s.settle p.index outcome
      match outcome with
      | .ok status => (.ok status, s)
      | .error e =>
        if e.isClient || !e.recoverable then (.error e, s)
        else
          attempts ask routes n (tried.set p.index true) false
            { s with job := s.job.count (.failover s.balancer.name) }

/-- Serves the job by the members. -/
def serve [OfNat Load 0] [Add Load] [Max Load] [LT Load] [DecidableLT Load]
    (ask : Nat → Bench Load α → Outcome × Bench Load α) (s : Bench Load α) :
    Outcome × Bench Load α :=
  let n := s.workers.length
  attempts ask (Session.routes s.job.tx.request) n (List.replicate n false) true s

end Bench

end AjpGateway
