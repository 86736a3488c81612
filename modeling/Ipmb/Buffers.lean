import Ipmb.Bytes

namespace Ipmb.Buffers

open Bytes

/-- `Align4 for usize`. -/
def align4 (n : Nat) : Nat := if n % 4 ≠ 0 then n - n % 4 + 4 else n

/-- `Align4 for u32`: `none` when the addition overflows. -/
def align4U32 (n : Nat) : Option Nat :=
  if n % 4 ≠ 0 then
    if n - n % 4 + 4 < 2 ^ 32 then some (n - n % 4 + 4) else none
  else some n

theorem align4_mod (n : Nat) : align4 n % 4 = 0 := by
  unfold align4
  split <;> omega

theorem le_align4 (n : Nat) : n ≤ align4 n := by
  unfold align4
  split <;> omega

theorem align4_lt (n : Nat) : align4 n < n + 4 := by
  unfold align4
  split <;> omega

theorem align4_of_mod {n : Nat} (h : n % 4 = 0) : align4 n = n := by
  rw [align4, if_neg (by omega)]

theorem align4U32_eq_some {n : Nat} (h : align4 n < 2 ^ 32) : align4U32 n = some (align4 n) := by
  unfold align4 at h ⊢
  unfold align4U32
  split
  · rw [if_pos] at h
    · rw [if_pos h]
    · assumption
  · rfl

theorem align4U32_eq_none {n : Nat} (h : 2 ^ 32 ≤ align4 n) (hn : n < 2 ^ 32) :
    align4U32 n = none := by
  unfold align4 at h
  unfold align4U32
  split
  · rw [if_pos] at h
    · rw [if_neg (by omega)]
    · assumption
  · rw [if_neg] at h
    · omega
    · assumption

/-- `alloc_buffer::<T>(size)` for a `T` of `t` bytes, whose contents are whatever the
heap holds there. -/
def allocBuffer (t size : Nat) (heap : Nat → UInt8) : List UInt8 :=
  (List.range (if size % t ≠ 0 then (size / t + 1) * t else size / t * t)).map heap

theorem length_allocBuffer_u32 (size : Nat) (heap : Nat → UInt8) :
    (allocBuffer 4 size heap).length = align4 size := by
  rw [allocBuffer, List.length_map, List.length_range, align4]
  split <;> omega

theorem length_allocBuffer_usize {size : Nat} (h : size % 8 = 0) (heap : Nat → UInt8) :
    (allocBuffer 8 size heap).length = size := by
  rw [allocBuffer, List.length_map, List.length_range, if_neg (by omega)]
  omega

/-- A file descriptor, as the bits of an `i32`. -/
abbrev RawFd := BitVec 32

def cmsgAlign (n : Nat) : Nat := if n % 8 ≠ 0 then n - n % 8 + 8 else n

/-- `size_of::<cmsghdr>()`: the length, the level and the type. -/
def cmsghdrSize : Nat := 16

def cmsgLen (n : Nat) : Nat := cmsgAlign cmsghdrSize + n

def cmsgSpace (n : Nat) : Nat := cmsgAlign n + cmsgAlign cmsghdrSize

def solSocket : Nat := 1

def scmRights : Nat := 1

def fdBytes (fd : RawFd) : List UInt8 := leBytes 4 fd.toNat

/-- A control record that carries descriptors, without its padding. -/
def rightsRecord (fds : List RawFd) : List UInt8 :=
  leBytes 8 (cmsgLen (4 * fds.length)) ++ leBytes 4 solSocket ++ leBytes 4 scmRights ++
    fds.flatMap fdBytes

theorem cmsgLen_eq (n : Nat) : cmsgLen n = 16 + n := rfl

theorem cmsgSpace_eq (n : Nat) : cmsgSpace n = cmsgAlign n + 16 := rfl

theorem cmsgSpace_mod (n : Nat) : cmsgSpace n % 8 = 0 := by
  rw [cmsgSpace_eq, cmsgAlign]
  split <;> omega

theorem cmsgLen_le_cmsgSpace (n : Nat) : cmsgLen n ≤ cmsgSpace n := by
  rw [cmsgSpace_eq, cmsgLen_eq, cmsgAlign]
  split <;> omega

theorem cmsgSpace_lt (n : Nat) : cmsgSpace n < n + 24 := by
  rw [cmsgSpace_eq, cmsgAlign]
  split <;> omega

@[simp] theorem length_fdBytes (fd : RawFd) : (fdBytes fd).length = 4 := length_leBytes 4 _

theorem length_flatMap_fdBytes (fds : List RawFd) : (fds.flatMap fdBytes).length = 4 * fds.length := by
  induction fds with
  | nil => rfl
  | cons fd fds ih =>
    rw [List.flatMap_cons, List.length_append, ih, length_fdBytes, List.length_cons]
    omega

theorem length_rightsRecord (fds : List RawFd) :
    (rightsRecord fds).length = cmsgLen (4 * fds.length) := by
  simp only [rightsRecord, List.length_append, length_leBytes, length_flatMap_fdBytes, cmsgLen_eq]

end Ipmb.Buffers
