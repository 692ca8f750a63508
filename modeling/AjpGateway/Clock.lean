/-!
# Time

Moments and durations are whole nanoseconds.  A moment counts from a start that lies before every
moment in use, and the time between two moments is zero when they are out of order.
-/

namespace AjpGateway

abbrev Moment := Nat

abbrev Duration := Nat

namespace Duration

-- A product unfolds along its second factor, so the large one stands first.

def ofSeconds (n : Nat) : Duration := 1000000000 * n

def ofMillis (n : Nat) : Duration := 1000000 * n

def toMillis (d : Duration) : Nat := d / 1000000

def toSeconds (d : Duration) : Nat := d / 1000000000

end Duration

/-- The time from `earlier` to `now`. -/
def elapsed (now earlier : Moment) : Duration := now - earlier

end AjpGateway
