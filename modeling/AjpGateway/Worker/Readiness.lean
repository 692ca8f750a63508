import AjpGateway.Config.Error
import AjpGateway.Worker.Error

/-!
# Moves between phases

A worker moves from one phase to the next only out of the phase it should be in, and hands out
endpoints only while it is initialized.
-/

namespace AjpGateway.Phase

/-- Moves to `next` out of `expected`. -/
def move (current : Phase) (worker : String) (expected next : Phase) : Except ConfigError Phase :=
  if current = expected then .ok next else .error (.lifecycle worker current expected)

/-- Whether endpoints can be had. -/
def ready (current : Phase) (worker : String) : Except ServiceError Unit :=
  match current with
  | initialized => .ok ()
  | destroyed => .error (.destroyed worker)
  | unvalidated | validated => .error (.noEndpoint worker)

theorem ready_eq_ok_iff {current : Phase} {worker : String} :
    current.ready worker = .ok () ↔ current = initialized := by
  cases current <;> simp [ready]

theorem move_eq_ok_iff {current expected next p : Phase} {worker : String} :
    current.move worker expected next = .ok p ↔ current = expected ∧ p = next := by
  by_cases h : current = expected <;> simp [move, h, eq_comm]

end AjpGateway.Phase
