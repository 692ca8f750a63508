import AjpGateway.Clock
import AjpGateway.Config.Settings

/-!
# Members of a balancer

What a balancer keeps of each member: its settings, the load it was given, and whether it rests
after a failure.  Loads are numbers of any kind; the gateway runs on floats.
-/

namespace AjpGateway

structure Member (Load : Type) where
  name : String
  /-- the route of the sessions that the member began -/
  route : String
  /-- what each balanced request adds to the load -/
  factor : Load
  load : Load
  inError : Bool := false
  recovering : Bool := false
  errorTime? : Option Moment := none
  redirect : Option String := none
  /-- serves its own sessions only -/
  disabled : Bool := false
  /-- serves nothing -/
  stopped : Bool := false
  elected : Nat := 0
  errors : Nat := 0
deriving Repr

namespace Member

variable {Load : Type}

/-- Takes over settings; what the member went through is kept. -/
def apply (m : Member Load) (s : MemberSettings Load) : Member Load :=
  { m with
    route := s.route, factor := s.factor, redirect := s.redirect, disabled := s.disabled
    stopped := s.stopped }

def ofSettings [OfNat Load 0] (name : String) (s : MemberSettings Load) : Member Load where
  name
  route := s.route
  factor := s.factor
  load := 0
  redirect := s.redirect
  disabled := s.disabled
  stopped := s.stopped

/-- Whether balanced requests may go to the member. -/
def usable (m : Member Load) : Bool := !m.inError && !m.disabled && !m.stopped

/-- Whether the member failed and has rested for the window. -/
def recoveryDue (m : Member Load) (now : Moment) (window : Duration) : Bool :=
  m.inError && (m.errorTime?.all fun t => window ≤ elapsed now t)

def succeeded (m : Member Load) : Member Load :=
  { m with inError := false, recovering := false, errorTime? := none }

def failed (m : Member Load) (now : Moment) : Member Load :=
  { m with inError := true, recovering := false, errorTime? := some now, errors := m.errors + 1 }

/-- Puts the member back into rotation with a load. -/
def recover (m : Member Load) (load : Load) : Member Load :=
  { m with inError := false, recovering := true, errorTime? := none, load }

def elect (m : Member Load) : Member Load := { m with elected := m.elected + 1 }

end Member

end AjpGateway
