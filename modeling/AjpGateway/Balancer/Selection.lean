import AjpGateway.Balancer.Basic

/-!
# Selection

Chooses the member for one attempt.  A request of a session goes to the member of the first route
that is known; if that member cannot take it, to the member it redirects to, or to none where
sessions are forced.  Any other request goes to the usable member with the least load, the first
from a place that moves round; if none is usable, to the failed member that has rested longest.
-/

namespace AjpGateway

/-- A chosen member and its route. -/
structure Pick where
  index : Nat
  route : String
deriving DecidableEq, Repr

/-- The outcome of a selection. -/
inductive Choice where
  | picked (p : Pick)
  /-- no member is eligible -/
  | exhausted
  /-- the member of a forced session cannot take the request -/
  | refused
deriving DecidableEq, Repr

namespace Balancer

variable {Load : Type}

def isTried (tried : List Bool) (i : Nat) : Bool := tried.getD i false

/-- Puts the members back whose rest is over, at most once an interval. -/
def maintain [OfNat Load 0] [Max Load] (b : Balancer Load) (now : Moment) : Balancer Load :=
  if elapsed now b.maintained < b.settings.maintainInterval then b
  else
    let load := b.greatestLoad
    { b with
      maintained := now
      members := b.members.map fun m =>
        if m.recoveryDue now b.settings.recoverWindow then m.recover load else m }

/-- Elects a member. -/
def elect (b : Balancer Load) (i : Nat) : Choice × Balancer Load :=
  (.picked ⟨i, (b.members[i]?.map Member.route).getD ""⟩, b.modify i Member.elect)

/-- The member of the first route that a member has. -/
def sessionMember? (b : Balancer Load) (routes : List String) : Option Nat :=
  routes.findSome? fun route => b.members.findIdx? (·.route == route)

/-- The usable member that a member redirects to. -/
def redirected? (b : Balancer Load) (tried : List Bool) (m : Member Load) : Option Nat :=
  (m.redirect.bind fun name => b.members.findIdx? (·.name == name)).filter fun j =>
    !isTried tried j && b.members[j]?.any Member.usable

/-- The choice for a session of member `i`; none where the request is free to go elsewhere.  A
member whose rest is over is put back by the first attempt. -/
def chooseSession (b : Balancer Load) (now : Moment) (tried : List Bool) (firstAttempt : Bool)
    (i : Nat) (m : Member Load) : Option (Choice × Balancer Load) :=
  let reactivate := m.inError && firstAttempt && m.recoveryDue now b.settings.recoverWindow
  if !isTried tried i && !m.stopped && (!m.inError || reactivate) then
    some ((if reactivate then b.modify i fun m => m.recover m.load else b).elect i)
  else
    match b.redirected? tried m with
    | some j => some (b.elect j)
    | none => if b.settings.forceSticky then some (.refused, b) else none

/-- Every place, from the one where the next choice starts. -/
def rotation (b : Balancer Load) : List Nat :=
  (List.range b.members.length).map fun k => (b.next + k) % b.members.length

/-- The first place with the least load of those given. -/
def leastLoaded [LT Load] [DecidableLT Load] (b : Balancer Load) :
    List Nat → Option (Nat × Load)
  | [] => none
  | i :: rest =>
    match b.members[i]? with
    | none => leastLoaded b rest
    | some m =>
      match leastLoaded b rest with
      | none => some (i, m.load)
      | some (j, load) => if load < m.load then some (j, load) else some (i, m.load)

/-- The choice by load. -/
def chooseBalanced [Add Load] [LT Load] [DecidableLT Load] (b : Balancer Load)
    (tried : List Bool) : Option (Choice × Balancer Load) :=
  let eligible := b.rotation.filter fun i => !isTried tried i && b.members[i]?.any Member.usable
  (b.leastLoaded eligible).map fun (i, _) =>
    ({ b with next := (i + 1) % b.members.length }.modify i
      fun m => { m with load := m.load + m.factor }).elect i

/-- The place of the failed member that may be put back and failed first. -/
def longestResting? (now : Moment) (window : Duration) (tried : List Bool) :
    (i : Nat) → List (Member Load) → Option (Nat × Option Moment)
  | _, [] => none
  | i, m :: rest =>
    let later := longestResting? now window tried (i + 1) rest
    if !isTried tried i && !m.disabled && !m.stopped && m.recoveryDue now window then
      match later with
      | none => some (i, m.errorTime?)
      | some (j, t) => if before t m.errorTime? then some (j, t) else some (i, m.errorTime?)
    else later
where
  /-- A failure at no known moment counts as the earliest. -/
  before : Option Moment → Option Moment → Bool
    | none, some _ => true
    | some s, some t => s < t
    | _, none => false

/-- The choice where no member is usable. -/
def chooseResting [OfNat Load 0] [Add Load] [Max Load] (b : Balancer Load) (now : Moment)
    (tried : List Bool) : Option (Choice × Balancer Load) :=
  (longestResting? now b.settings.recoverWindow tried 0 b.members).map fun (i, _) =>
    (b.modify i fun m => m.recover (b.greatestLoad + m.factor)).elect i

/-- The member for one attempt.  `routes` are those of the request's sessions, `tried` marks the
members asked before. -/
def select [OfNat Load 0] [Add Load] [Max Load] [LT Load] [DecidableLT Load] (b : Balancer Load)
    (now : Moment) (routes : List String) (tried : List Bool) (firstAttempt : Bool) :
    Choice × Balancer Load :=
  let b := b.maintain now
  let session := if b.settings.sticky then b.sessionMember? routes else none
  let choice := session.bind fun i =>
    b.members[i]?.bind fun m => b.chooseSession now tried firstAttempt i m
  ((choice.or (b.chooseBalanced tried)).or (b.chooseResting now tried)).getD (.exhausted, b)

end Balancer

end AjpGateway
