import Mathlib.Data.Finset.Basic

namespace Ipmb.Locks

open Function

/-- A lock held by one writer or by any number of readers. -/
structure RwLock (T : Type) where
  readers : Finset T
  writer : Option T
  exclusive : writer = none ∨ readers = ∅

/-- The way in which a thread holds the lock. -/
inductive Mode where
  | out
  | shared
  | exclusive
deriving DecidableEq

variable {T : Type}

def free : RwLock T := ⟨∅, none, Or.inl rfl⟩

namespace RwLock

def isFree (l : RwLock T) : Prop := l.writer = none ∧ l.readers = ∅

def unlockWrite (l : RwLock T) : RwLock T := ⟨l.readers, none, Or.inl rfl⟩

variable [DecidableEq T]

instance (l : RwLock T) : Decidable l.isFree := inferInstanceAs (Decidable (_ ∧ _))

def read (l : RwLock T) (t : T) : Option (RwLock T) :=
  if l.writer = none then some ⟨insert t l.readers, none, Or.inl rfl⟩ else none

def unlockRead (l : RwLock T) (t : T) : RwLock T :=
  ⟨l.readers.erase t, l.writer, l.exclusive.imp_right fun h => by rw [h, Finset.erase_empty]⟩

def write (l : RwLock T) (t : T) : Option (RwLock T) :=
  if l.isFree then some ⟨∅, some t, Or.inr rfl⟩ else none

theorem isFree.read {l : RwLock T} (h : l.isFree) (t : T) :
    ∃ l', l.read t = some l' ∧ (l'.unlockRead t).isFree := by
  refine ⟨_, if_pos h.1, rfl, ?_⟩
  simp [unlockRead, h.2]

theorem isFree.write {l : RwLock T} (h : l.isFree) (t : T) : ∃ l', l.write t = some l' :=
  ⟨_, if_pos h⟩

end RwLock

/-- The lock is held by the threads that believe they hold it, each in its way. -/
structure Follows (l : RwLock T) (mode : T → Mode) : Prop where
  shared : ∀ t, mode t = .shared ↔ t ∈ l.readers
  exclusive : ∀ t, mode t = .exclusive ↔ l.writer = some t

namespace Follows

theorem free : Follows (free : RwLock T) (fun _ => .out) :=
  ⟨by simp [Locks.free], by simp [Locks.free]⟩

variable {l l' : RwLock T} {mode : T → Mode} {t u : T}

/-- While a thread writes, no other holds the lock. -/
theorem sole (h : Follows l mode) (ht : mode t = .exclusive) (hu : mode u ≠ .out) : u = t := by
  have hw := (h.exclusive t).mp ht
  cases hm : mode u with
  | out => exact absurd hm hu
  | shared =>
    have hr := (h.shared u).mp hm
    rw [l.exclusive.resolve_left (by simp [hw])] at hr
    exact absurd hr (Finset.notMem_empty u)
  | exclusive =>
    have hw' := (h.exclusive u).mp hm
    exact Option.some.inj (hw'.symm.trans hw)

theorem isFree_unlockWrite (h : Follows l mode) (ht : mode t = .exclusive) : l.unlockWrite.isFree :=
  ⟨rfl, l.exclusive.resolve_left (by simp [(h.exclusive t).mp ht])⟩

variable [DecidableEq T]

theorem unchanged (h : Follows l mode) {m : Mode} (hm : mode t = m) :
    Follows l (update mode t m) := by
  rw [← hm, update_eq_self]
  exact h

theorem read (h : Follows l mode) (hl : l.read t = some l') :
    Follows l' (update mode t .shared) := by
  rw [RwLock.read] at hl
  split at hl
  · rename_i hw
    cases hl
    refine ⟨fun u => ?_, fun u => ?_⟩
    · by_cases hu : u = t
      · simp [hu]
      · simp [hu, h.shared u]
    · by_cases hu : u = t
      · simp [hu]
      · simp [hu, h.exclusive u, hw]
  · cases hl

theorem unlockRead (h : Follows l mode) (ht : mode t = .shared) :
    Follows (l.unlockRead t) (update mode t .out) := by
  refine ⟨fun u => ?_, fun u => ?_⟩
  · by_cases hu : u = t
    · simp [hu, RwLock.unlockRead]
    · simp [hu, RwLock.unlockRead, h.shared u]
  · by_cases hu : u = t
    · have hw : mode t ≠ .exclusive := by simp [ht]
      simpa [hu, RwLock.unlockRead] using (h.exclusive t).not.mp hw
    · simp [hu, RwLock.unlockRead, h.exclusive u]

theorem write (h : Follows l mode) (hl : l.write t = some l') :
    Follows l' (update mode t .exclusive) := by
  rw [RwLock.write] at hl
  split at hl
  · rename_i hfree
    cases hl
    refine ⟨fun u => ?_, fun u => ?_⟩
    · by_cases hu : u = t
      · simp [hu]
      · simp [hu, h.shared u, hfree.2]
    · by_cases hu : u = t
      · simp [hu]
      · simp [hu, h.exclusive u, hfree.1, Ne.symm hu]
  · cases hl

theorem unlockWrite (h : Follows l mode) (ht : mode t = .exclusive) :
    Follows l.unlockWrite (update mode t .out) := by
  have hempty := (h.isFree_unlockWrite ht).2
  refine ⟨fun u => ?_, fun u => ?_⟩
  · by_cases hu : u = t
    · simp [hu, hempty]
    · simp [hu, RwLock.unlockWrite, h.shared u]
  · by_cases hu : u = t
    · simp [hu, RwLock.unlockWrite]
    · have hne : mode u ≠ .exclusive := fun hm => hu (h.sole ht (by simp [hm]))
      simpa [hu, RwLock.unlockWrite] using hne

end Follows

end Ipmb.Locks
