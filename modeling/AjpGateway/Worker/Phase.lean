/-!
# Phases of a worker

A worker is validated, then initialized, and at last destroyed.  Only an initialized worker hands
out endpoints.
-/

namespace AjpGateway

inductive Phase where
  | unvalidated
  | validated
  | initialized
  | destroyed
deriving DecidableEq, Repr

namespace Phase

def name : Phase → String
  | unvalidated => "unvalidated"
  | validated => "validated"
  | initialized => "initialized"
  | destroyed => "destroyed"

def ofCode (n : Nat) : Phase :=
  match n with
  | 1 => validated
  | 2 => initialized
  | 3 => destroyed
  | _ => unvalidated

def code : Phase → Nat
  | unvalidated => 0
  | validated => 1
  | initialized => 2
  | destroyed => 3

theorem ofCode_code (p : Phase) : ofCode p.code = p := by cases p <;> rfl

end Phase

end AjpGateway
