import AjpGateway.Balancer.Member
import AjpGateway.Worker.Readiness

/-!
# Balancers

A balancer's own state: its phase, its settings and a record of each member.  The workers behind
the members lie beside it, in the same order.
-/

namespace AjpGateway

structure Balancer (Load : Type) where
  name : String
  phase : Phase := .unvalidated
  settings : BalancerSettings := {}
  members : List (Member Load) := []
  /-- where the next balanced choice starts -/
  next : Nat := 0
  /-- when members were last looked after -/
  maintained : Moment := 0
deriving Repr

namespace Balancer

variable {Load : Type}

/-- Changes one member. -/
def modify (b : Balancer Load) (i : Nat) (f : Member Load → Member Load) : Balancer Load :=
  { b with members := b.members.modify i f }

def succeeded (b : Balancer Load) (i : Nat) : Balancer Load := b.modify i Member.succeeded

def failed (b : Balancer Load) (i : Nat) (now : Moment) : Balancer Load :=
  b.modify i (·.failed now)

/-- The greatest load, at least zero. -/
def greatestLoad [OfNat Load 0] [Max Load] (b : Balancer Load) : Load :=
  b.members.foldl (fun top m => max top m.load) 0

/-! ## Settings -/

/-- Reads the settings and moves on from the first phase. -/
def validate (b : Balancer Load) (p : Properties) : Except ConfigError (Balancer Load) := do
  let settings ← (BalancerSettings.read p b.name).mapError .setting
  let phase ← b.phase.move b.name .unvalidated .validated
  return { b with settings, phase }

/-- Opens the balancer, which has to have members. -/
def init (b : Balancer Load) : Except ConfigError (Balancer Load) := do
  if b.members.isEmpty then
    throw (.setting (.missing (Properties.workerKey b.name "balance_workers")))
  let phase ← b.phase.move b.name .validated .initialized
  return { b with phase }

/-- New settings for the balancer and for members of the given names. -/
def readSettings (b : Balancer Load) (names : List String) (p : Properties) :
    Except ConfigError (BalancerSettings × List (MemberSettings Float)) := do
  let settings ← (BalancerSettings.read p b.name).mapError .setting
  let members ← names.mapM fun name => (MemberSettings.read p name).mapError .setting
  return (settings, members)

/-- Takes over new settings.  The members stay the same; their loads start again at zero. -/
def apply [OfNat Load 0] (b : Balancer Load) (settings : BalancerSettings)
    (members : List (MemberSettings Load)) : Balancer Load :=
  { b with
    settings := { settings with members := b.settings.members }
    members := refreshed b.members members }
where
  refreshed : List (Member Load) → List (MemberSettings Load) → List (Member Load)
    | m :: ms, s :: ss => { m.apply s with load := 0 } :: refreshed ms ss
    | ms, _ => ms

end Balancer

end AjpGateway
