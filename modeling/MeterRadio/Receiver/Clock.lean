/-!
# Clocks

Captures are stamped with a time in milliseconds that wraps after 32 bits. All that a sampler needs
of a clock is a reading; what a reading does to the clock is up to the clock.

A replay keeps pace with the recording, and to that end it looks at the moment in nanoseconds and
sleeps. What time passes between two looks is again up to the clock; a lawful one never goes back and
lets no sleep end too soon.
-/

namespace MeterRadio

/-- Types whose values can be read as clocks. -/
class Clock (C : Type) where
  /-- The time in milliseconds and the clock after the reading. -/
  read : C → UInt32 × C

/-- Clocks that can be slept on. -/
class Timer (C : Type) extends Clock C where
  /-- The moment in nanoseconds and the clock after the look at it. -/
  now : C → Nat × C
  /-- The clock after a sleep of some nanoseconds. -/
  sleep : (duration : Nat) → C → C

/-- Sleeps until a moment. If it has come already, nobody sleeps. -/
def Timer.sleepUntil {C : Type} [Timer C] (moment : Nat) (clock : C) : C :=
  let (now, clock) := now clock
  if now < moment then sleep (moment - now) clock else clock

/-- Clocks that never go back and on which no sleep ends too soon. -/
class LawfulTimer (C : Type) [Timer C] : Prop where
  now_le (clock : C) : (Timer.now clock).1 ≤ (Timer.now (Timer.now clock).2).1
  now_add_le (duration : Nat) (clock : C) :
    (Timer.now clock).1 + duration ≤ (Timer.now (Timer.sleep duration clock)).1

/-- A clock that stands still between readings and moves on by a fixed step at each of them. -/
structure SteppedClock where
  /-- The next reading. -/
  now : UInt32 := 0
  /-- What is added after each reading. -/
  step : UInt32 := 0
  deriving DecidableEq, Repr

instance : Clock SteppedClock where
  read c := (c.now, { c with now := c.now + c.step })

/-- A clock that counts the nanoseconds since it was started. Each look at it takes `step` of them, and
all other time passes in sleep. -/
structure MonotonicClock where
  elapsed : Nat := 0
  step : Nat := 0
  deriving DecidableEq, Repr

namespace MonotonicClock

/-- Nanoseconds of a millisecond. -/
def millisecond : Nat := 1000000

instance : Timer MonotonicClock where
  read c := (UInt32.ofNat (c.elapsed / millisecond), { c with elapsed := c.elapsed + c.step })
  now c := (c.elapsed, { c with elapsed := c.elapsed + c.step })
  sleep duration c := { c with elapsed := c.elapsed + duration }

instance : LawfulTimer MonotonicClock where
  now_le c := Nat.le_add_right c.elapsed c.step
  now_add_le duration c := Nat.le_refl (c.elapsed + duration)

end MonotonicClock

end MeterRadio
