import Ipmb.Programs
import Ipmb.Regions

namespace Ipmb.Registry

open Time Programs Regions

/-- A `Box<dyn FnOnce()>`, by the order in which they are passed in. -/
abbrev Closure := Nat

/-- What a registry does to memory regions, and to the closures it was given. A region is
dropped with the guard next to it, if there is one. -/
inductive Call where
  | load (f : File)
  | clone (f : File)
  | new (size : Nat)
  | drop (f : File) (guard : Option Closure)
  | free (f : File) (closure : Closure)

abbrev Call.Answer : Call → Type
  | .load _ => BitVec 32
  | .clone _ => Bool
  | .new _ => Option File
  | .drop _ _ => Unit
  | .free _ _ => Unit

abbrev Program := Prog Call Call.Answer

def load (f : File) : Program (BitVec 32) := .perform (Call.load f)

def clone (f : File) : Program Bool := .perform (Call.clone f)

def new (size : Nat) : Program (Option File) := .perform (Call.new size)

def drop (f : File) (guard : Option Closure) : Program Unit := .perform (Call.drop f guard)

def free (f : File) (closure : Closure) : Program Unit := .perform (Call.free f closure)

structure MemoryRegionEntry where
  region : File
  lastAlloc : Instant
  tag : Option String
  guard : Option Closure
deriving DecidableEq

/-- The entries by their sizes, as the `BTreeMap` has them. -/
abbrev Inner := List (Nat × List MemoryRegionEntry)

/-- The `Drop` of the guard: the closure is called. -/
def MemoryRegionEntry.dropGuard (r : MemoryRegionEntry) : Program Unit :=
  match r.guard with
  | some closure => free r.region closure
  | none => pure ()

/-- The `Drop` of an entry: first the region goes, then the guard. -/
def MemoryRegionEntry.dropEntry (r : MemoryRegionEntry) : Program Unit := do
  drop r.region r.guard
  r.dropGuard

/-- The age at which an entry is no longer retained. -/
def maxAge : Nat := 5 * nanosPerSec

def MemoryRegionEntry.shouldRetain (now : Instant) (r : MemoryRegionEntry) : Bool :=
  decide (now.since r.lastAlloc < maxAge)

/-- The closure is called as soon as the region is seen to be free. -/
def MemoryRegionEntry.clearGuard (r : MemoryRegionEntry) : Program MemoryRegionEntry := do
  let count ← load r.region
  if count = 1 then do
    r.dropGuard
    pure { r with guard := none }
  else pure r

section Maintain

variable (now : Instant)

def retain : List MemoryRegionEntry → Program (List MemoryRegionEntry)
  | [] => pure []
  | r :: rs => do
    let r ← r.clearGuard
    if r.shouldRetain now then do
      let rs ← retain rs
      pure (r :: rs)
    else do
      r.dropEntry
      retain rs

def maintainInner : Inner → Program Inner
  | [] => pure []
  | (size, rs) :: inner => do
    let rs ← retain now rs
    let inner ← maintainInner inner
    pure (if rs.isEmpty then inner else (size, rs) :: inner)

end Maintain

section Alloc

variable (now : Instant) (tag : Option String) (closure : Option Closure)

/-- An entry that is free and has the tag is given out again, unless its region cannot be
cloned. -/
def MemoryRegionEntry.reuse (r : MemoryRegionEntry) : Program (MemoryRegionEntry × Option File) := do
  let cloned ← clone r.region
  if cloned then do
    r.dropGuard
    pure ({ r with lastAlloc := now, guard := closure }, some r.region)
  else pure ({ r with lastAlloc := now }, none)

/-- The search ends at the first entry that is free and has the tag. -/
def search : List MemoryRegionEntry → Program (Option (List MemoryRegionEntry × Option File))
  | [] => pure none
  | r :: rs => do
    let count ← load r.region
    if count = 1 ∧ tag = r.tag then do
      let reused ← r.reuse now closure
      pure (some (reused.1 :: rs, reused.2))
    else do
      let found ← search rs
      pure (found.map fun x => (r :: x.1, x.2))

/-- Only the sizes of the range are searched. -/
def searchSize (lower upper size : Nat) (rs : List MemoryRegionEntry) :
    Program (Option (List MemoryRegionEntry × Option File)) :=
  if lower ≤ size ∧ size < upper then search now tag closure rs else pure none

def searchRange (lower upper : Nat) : Inner → Program (Option (Inner × Option File))
  | [] => pure none
  | (size, rs) :: inner => do
    let found ← searchSize now tag closure lower upper size rs
    match found with
    | some x => pure (some ((size, x.1) :: inner, x.2))
    | none => do
      let found ← searchRange lower upper inner
      pure (found.map fun x => ((size, rs) :: x.1, x.2))

/-- `entry(size).or_default()`, extended by some entries. -/
def extendEntry (size : Nat) (new : List MemoryRegionEntry) : Inner → Inner
  | [] => [(size, new)]
  | (size', rs) :: inner =>
    if size < size' then (size, new) :: (size', rs) :: inner
    else if size = size' then (size', rs ++ new) :: inner
    else (size', rs) :: extendEntry size new inner

/-- `min_size * 2` must not overflow. A region of which the registry cannot keep a clone is
dropped again, and so is the closure, without being called. -/
def allocInner (minSize : Nat) (inner : Inner) : Program (Inner × Option File) := do
  let found ← searchRange now tag closure minSize (2 * minSize) inner
  match found with
  | some (inner, none) => pure (inner, none)
  | some (inner, some region) => do
    let inner ← maintainInner now inner
    pure (inner, some region)
  | none => do
    let inner ← maintainInner now inner
    let created ← new minSize
    match created with
    | none => pure (inner, none)
    | some r => do
      let cloned ← clone r
      if cloned then pure (extendEntry minSize [⟨r, now, tag, closure⟩] inner, some r)
      else do
        drop r none
        pure (extendEntry minSize [] inner, none)

end Alloc

/-- The `Drop` of the registry. -/
def dropEntries : List MemoryRegionEntry → Program Unit
  | [] => pure ()
  | r :: rs => do
    r.dropEntry
    dropEntries rs

def dropInner (inner : Inner) : Program Unit := dropEntries (inner.flatMap Prod.snd)

end Ipmb.Registry
