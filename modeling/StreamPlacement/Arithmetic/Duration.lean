import StreamPlacement.Arithmetic.Binary64
import StreamPlacement.Fault

/-!
Spans of time as whole nanoseconds.
-/

namespace StreamPlacement

/-- A span of time. -/
structure Duration where
  nanoseconds : Nat
  deriving DecidableEq, Repr

namespace Duration

def nanosPerSecond : Nat := 1000000000

/-- The span nearest to a number of seconds, a half to the even nanosecond. There is none below
zero, and none for `2 ^ 64` seconds and more. -/
def ofSeconds (seconds : Float) : Except Fault Duration :=
  match Binary64.ofFloat seconds with
  | .finite negative significand exponent =>
    let size := Binary64.magnitude significand exponent
    let nanoseconds := roundDiv (size.1 * nanosPerSecond) size.2 .even
    if (negative && significand ≠ 0) || Nat.pow 2 64 * nanosPerSecond ≤ nanoseconds then
      .error (.breakdown .beyondClock)
    else .ok ⟨nanoseconds⟩
  | _ => .error (.breakdown .beyondClock)

/-- The milliseconds that are begun before the span is over. -/
def millis (d : Duration) : Nat := (d.nanoseconds + 999999) / 1000000

/-- The span in seconds: whole seconds and the fraction are turned into doubles one by one. -/
def seconds (d : Duration) : Float :=
  Float.ofNat (d.nanoseconds / nanosPerSecond)
    + Float.ofNat (d.nanoseconds % nanosPerSecond) / Float.ofNat nanosPerSecond

end Duration

end StreamPlacement
