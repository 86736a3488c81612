import Mathlib.Data.List.Basic
import Mathlib.Tactic.Ring

namespace Ipmb.Bytes

/-- The `k` low bytes of `n`, least significant first. -/
def leBytes : Nat → Nat → List UInt8
  | 0, _ => []
  | k + 1, n => UInt8.ofNat n :: leBytes k (n / 256)

def leValue : List UInt8 → Nat
  | [] => 0
  | b :: bs => b.toNat + 256 * leValue bs

@[simp] theorem length_leBytes (k n : Nat) : (leBytes k n).length = k := by
  induction k generalizing n with
  | zero => rfl
  | succ k ih => rw [leBytes, List.length_cons, ih]

theorem leValue_leBytes (k n : Nat) : leValue (leBytes k n) = n % 256 ^ k := by
  induction k generalizing n with
  | zero => simp [leBytes, leValue, Nat.mod_one]
  | succ k ih =>
    have hb : (UInt8.ofNat n).toNat = n % 256 := by simp
    rw [leBytes, leValue, ih, hb, Nat.pow_succ', Nat.mod_mul]

theorem leValue_lt (bs : List UInt8) : leValue bs < 256 ^ bs.length := by
  induction bs with
  | nil => simp [leValue]
  | cons b bs ih =>
    have hb := b.toNat_lt
    rw [leValue, List.length_cons, Nat.pow_succ']
    omega

/-- Overwrite part of a buffer. -/
def writeAt (buf : List UInt8) (off : Nat) (data : List UInt8) : List UInt8 :=
  buf.take off ++ data ++ buf.drop (off + data.length)

/-- The bytes of a buffer in a range, which must lie inside it. -/
def readAt (buf : List UInt8) (off len : Nat) : Option (List UInt8) :=
  if off + len ≤ buf.length then some ((buf.drop off).take len) else none

theorem readAt_eq_some {buf : List UInt8} {off len : Nat} (h : off + len ≤ buf.length) :
    readAt buf off len = some ((buf.drop off).take len) := if_pos h

theorem readAt_eq_none {buf : List UInt8} {off len : Nat} :
    readAt buf off len = none ↔ buf.length < off + len := by
  rw [readAt]
  split <;> simp <;> omega

/-- Reading is determined by what stands before and after the range. -/
theorem readAt_append (pre data post : List UInt8) (off len : Nat) (ho : pre.length = off)
    (hl : data.length = len) : readAt (pre ++ data ++ post) off len = some data := by
  subst ho hl
  rw [readAt_eq_some (by simp), List.append_assoc, List.drop_left, List.take_left]

/-- Writing at the end of a prefix that is already known. -/
theorem writeAt_append (pre buf data : List UInt8) {off : Nat} (ho : pre.length = off) :
    writeAt (pre ++ buf) off data = pre ++ data ++ buf.drop data.length := by
  subst ho
  rw [writeAt, List.take_left, ← List.drop_drop, List.drop_left]

end Ipmb.Bytes
