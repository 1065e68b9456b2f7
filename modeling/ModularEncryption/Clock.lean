import ModularEncryption.Error.Basic

/-! # Points in time

Time is counted in nanoseconds of a clock that only runs forward. The clock counts its seconds in
signed 64 bits, so a point in time past the last second it can show does not exist: adding a
duration may fail. -/

namespace ModularEncryption

/-- A point in time, in nanoseconds. -/
abbrev Instant := Nat

/-- A length of time, in nanoseconds. -/
abbrev Duration := Nat

/-- The nanoseconds of a second. -/
def second : Duration := 1000000000

/-- The first point in time that the clock cannot show. -/
def endOfTime : Instant := 0x8000000000000000 * second

/-- The point in time a while later, if the clock can show it. -/
def Instant.after? (now : Instant) (d : Duration) : Option Instant :=
  if now + d < endOfTime then some (now + d) else none

end ModularEncryption
