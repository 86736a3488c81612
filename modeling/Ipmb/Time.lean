import Mathlib.Algebra.Group.Int.Defs
import Mathlib.Algebra.Group.Nat.Defs
import Mathlib.Data.Int.Basic

namespace Ipmb.Time

def nanosPerSec : Nat := 1000000000

/-- A duration in nanoseconds: unsigned 64-bit seconds and a subsecond part. -/
structure Duration where
  nanos : Nat
  bounded : nanos < 2 ^ 64 * nanosPerSec
deriving DecidableEq

namespace Duration

/-- The duration of `n` nanoseconds, up to the largest one. -/
def ofNanos (n : Nat) : Duration := ⟨min n (2 ^ 64 * nanosPerSec - 1), by
  have hpos : 0 < 2 ^ 64 * nanosPerSec := by decide
  omega⟩

def zero : Duration := ofNanos 0

def isZero (d : Duration) : Bool := d.nanos == 0

end Duration

/-- A reading of the monotonic clock: signed 64-bit seconds and a subsecond part,
kept as nanoseconds. -/
structure Instant where
  nanos : Int
  lower : -(2 ^ 63 * nanosPerSec) ≤ nanos
  upper : nanos < 2 ^ 63 * nanosPerSec
deriving DecidableEq

namespace Instant

instance : LT Instant := ⟨fun s t => s.nanos < t.nanos⟩

instance : LE Instant := ⟨fun s t => s.nanos ≤ t.nanos⟩

instance (s t : Instant) : Decidable (s < t) := inferInstanceAs (Decidable (s.nanos < t.nanos))

instance (s t : Instant) : Decidable (s ≤ t) := inferInstanceAs (Decidable (s.nanos ≤ t.nanos))

@[simp] theorem not_lt (s t : Instant) : ¬ s < t ↔ t ≤ s := Int.not_lt

/-- The reading `n` nanoseconds after zero, up to the last one. -/
def ofNanos (n : Nat) : Instant := ⟨min n (2 ^ 63 * nanosPerSec - 1),
  by
    have hpos : (0 : Int) < 2 ^ 63 * nanosPerSec := by decide
    omega,
  by
    have hpos : (0 : Int) < 2 ^ 63 * nanosPerSec := by decide
    omega⟩

/-- `Instant + Duration`: `none` stands for the panic on overflow. -/
def add (t : Instant) (d : Duration) : Option Instant :=
  if h : t.nanos + d.nanos < 2 ^ 63 * nanosPerSec then
    some ⟨t.nanos + d.nanos, by have := t.lower; omega, h⟩
  else none

/-- `Instant - Instant` in nanoseconds, which saturates at zero. -/
def since (t s : Instant) : Nat := (t.nanos - s.nanos).toNat

end Instant

end Ipmb.Time
