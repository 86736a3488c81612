import Ipmb.Owners
import Ipmb.Simulation
import Ipmb.Wrappers

namespace Ipmb.WrapperValues

open Labels Messages JoinLoop Owners Simulation Wrappers
open NodeReceiver (ofMillis)
open NodeWorker (RecvError)
open Function (update update_self update_of_ne)

/-- Every wrapper holds its value itself. -/
structure Values (c : Crate) where
  object : (p : Opaque × Nat) → Option (c.Rust p.1)
  world : c.World

/-- It fails where an empty wrapper is used, and where a wrapper is constructed in the place of
another one. -/
abbrev Value (c : Crate) := StateT (Values c) Option

variable {c : Crate} {m : Allocator} {α β : Type}

def outside (f : c.World → α × c.World) : Value c α := fun s =>
  let (x, world) := f s.world
  some (x, { s with world })

def take (k : Opaque) (x : Nat) : Value c (c.Rust k) := fun s => do
  let v ← s.object (k, x)
  return (v, { s with object := update s.object (k, x) none })

def peek (k : Opaque) (x : Nat) : Value c (c.Rust k) := fun s => do
  let v ← s.object (k, x)
  return (v, s)

def call (k : Opaque) (x : Nat) (f : c.Rust k → c.World → α × c.Rust k × c.World) : Value c α := fun s => do
  let v ← s.object (k, x)
  let (y, v, world) := f v s.world
  return (y, { s with object := update s.object (k, x) (some v), world })

def put (k : Opaque) (x : Nat) (v : Option (c.Rust k)) : Value c Unit := fun s =>
  match s.object (k, x) with
  | none => some ((), { s with object := update s.object (k, x) v })
  | some _ => none

def dropped (k : Opaque) : Option (c.Rust k) → c.World → c.World
  | none, w => w
  | some v, w => c.drop k v w

/-- The value that the wrapper had is dropped. -/
def assign (k : Opaque) (x : Nat) (v : Option (c.Rust k)) : Value c Unit := fun s =>
  some ((), ⟨update s.object (k, x) v, dropped k (s.object (k, x)) s.world⟩)

def move (k : Opaque) (x y : Nat) : Value c Unit := fun s =>
  assign k x (s.object (k, y)) { s with object := update s.object (k, y) none }

def failure : JoinError → Cpp.Error
  | .versionMismatch _ => .versionMismatch
  | .tokenMismatch => .tokenMismatch
  | .timeout => .timeout
  | .permissionDenied => .permissionDenied

def recvFailure : RecvError → Cpp.Error
  | .decode => .decode
  | .timeout => .timeout
  | .versionMismatch _ => .versionMismatch
  | .tokenMismatch => .tokenMismatch
  | .permissionDenied => .permissionDenied

def text (c : Crate) (s : List UInt8) : String := c.toStringLossy (cStr s)

def labelOf (c : Crate) (list : List (List UInt8)) : Label :=
  list.foldl (fun l i => l.insert (text c i)) .default

def selectorOf (labelOp : LabelOp) : SelectorMode → Selector
  | .unicast => .unicast labelOp
  | .multicast => .multicast labelOp

/-- A mapping that is not at null. -/
def located : Option (UInt64 × UInt64) → UInt64 × UInt64 × Cpp.Error
  | some (ptr, size) => if ptr ≠ 0 then (ptr, size, .success) else (0, 0, .unknown)
  | none => (0, 0, .unknown)

def objectAt (index : Nat) (message : Message c.toTypes) : UInt64 :=
  (message.objects[index]?.map c.asRaw).getD 0

/-- The region goes to the wrapper `x`. -/
def region (x : Nat) : Option c.MemoryRegion → Value c Result
  | some region => do
    put .memoryRegion x (some region)
    return .error .success
  | none => do
    put .memoryRegion x none
    return .error .unknown

def sent : Except JoinError Unit → Cpp.Error
  | .ok () => .success
  | .error e => failure e

/-- The message goes to the wrapper `x`. -/
def received (x : Nat) : Except RecvError (Message c.toTypes) → Value c Result
  | .ok message => do
    put .message x (some message)
    return .error .success
  | .error e => do
    put .message x none
    return .error (recvFailure e)

/-- The two ends of the connection go to the wrappers `x` and `y`. -/
def joined (x y : Nat) : Except Cpp.Error (c.EndpointSender × c.EndpointReceiver) → Value c Result
  | .ok (sender, receiver) => do
    put .sender x (some sender)
    put .receiver y (some receiver)
    return .error .success
  | .error e => do
    put .sender x none
    put .receiver y none
    return .error e

/-- What the calls mean. -/
def denote : Call → Value c Result
  | .version => do
    outside fun w => ((), c.drop .rString c.versionPre w)
    return .version (c.version, c.versionPre)
  | .label x list => .void <$> put .label x (some (labelOf c list))
  | .append x s => .void <$> call .label x fun label w => ((), label.insert (text c s), w)
  | .labelOpBool x v => .void <$> put .labelOp x (some (if v then .true else .false))
  | .labelOpLeaf x s => .void <$> put .labelOp x (some (.leaf (text c s)))
  | .opNot x => do
    let left ← take .labelOp x
    .void <$> assign .labelOp x (some (.not left))
  | .opAnd x y => do
    let right ← take .labelOp y
    let left ← take .labelOp x
    .void <$> assign .labelOp x (some (.and left right))
  | .opOr x y => do
    let right ← take .labelOp y
    let left ← take .labelOp x
    .void <$> assign .labelOp x (some (.or left right))
  | .create x size => do region x (← outside (c.newRegion size))
  | .clone x y => do
    let v ← peek .memoryRegion x
    region y (← outside (c.clone v))
  | .map x offset size => do
    let range := if size < 0 then none else some (offset + size.toUInt64)
    return .mapped (located (← call .memoryRegion x (c.map offset range)))
  | .refCount x => do
    let v ← peek .memoryRegion x
    return .refCount (← outside (c.refCount v), .success)
  | .memoryRegistry x => .void <$> put .memoryRegistry x (some c.registry)
  | .alloc x minSize tag y => do region y (← call .memoryRegistry x (c.alloc minSize (tag.map (text c))))
  | .allocWithFree x minSize tag free y => do
    region y (← call .memoryRegistry x (c.allocWithFree minSize (tag.map (text c)) free))
  | .maintain x => do
    call .memoryRegistry x c.maintain
    return .error .success
  | .message x selector format data => do
    let labelOp ← peek .labelOp selector.labelOp
    let selector := { selectorOf labelOp selector.mode with ttl := ofMillis selector.ttl }
    .void <$> put .message x (some (.new selector ⟨format, data⟩))
  | .bytesData x => do
    let ⟨format, data⟩ := (← peek .message x).payload
    return .data ((format, data, data.length.toUInt32), .success)
  | .objectAppend x obj => .void <$> call .message x fun message w =>
    ((), { message with objects := message.objects ++ [c.fromRaw obj] }, w)
  | .objectRetrieve x index => do
    let obj ← call .message x fun message w => (objectAt index message,
      { message with objects := message.objects.eraseIdx index }, w)
    return .object (Cpp.objectOf obj)
  | .objectGet x index => do
    return .object (Cpp.objectOf (objectAt index (← peek .message x)))
  | .memoryRegionAppend x y => do
    let region ← take .memoryRegion y
    .void <$> call .message x fun message w =>
      ((), { message with memoryRegions := message.memoryRegions ++ [region] }, w)
  | .memoryRegionRetrieve x index y => do
    region y (← call .message x fun message w => (message.memoryRegions[index]?,
      { message with memoryRegions := message.memoryRegions.eraseIdx index }, w))
  | .send x y => do
    let message ← take .message y
    return .error (sent (← call .sender x (c.send message)))
  | .recv x timeout y => do received y (← call .receiver x (c.recv (Ffi.waits timeout)))
  | .join options timeout x y =>
    match c.toStr (cStr options.identifier), c.toStr (cStr options.token) with
    | some identifier, some token => do
      let label ← peek .label options.label
      let r ← outside (c.join ⟨identifier, label, token, options.controllerAffinity⟩ (Ffi.waits timeout))
      joined x y (r.mapError failure)
    | _, _ => joined x y (.error .unknown)
  | .move k x y => .void <$> move k x y
  | .destroy k x => .void <$> assign k x none

def boot (c : Crate) (world : c.World) : Values c := ⟨fun _ => none, world⟩

/-- The box of a value, by its wrapper. -/
def Values.boxed (t : Values c) (p : Opaque × Nat) : Option (Sigma c.Rust) :=
  (t.object p).map fun v => ⟨p.1, v⟩

/-- Every box is owned by one wrapper, and holds its value. -/
structure Refines (s : Mem c m) (t : Values c) : Prop where
  owns : Owns (fun a => s.boxes.lookup a) s.ptr t.boxed
  world : s.world = t.world

theorem refines_boot (allocator : m.State) (world : c.World) :
    Refines (Wrappers.boot c m allocator world) (boot c world) :=
  ⟨owns_nothing, rfl⟩

variable {s : Mem c m} {t : Values c} {k : Opaque} {x : Nat} {a : Addr}

@[simp] theorem unbox_mk (v : c.Rust k) : unbox k ⟨k, v⟩ = some v := by simp [unbox]

theorem lookup_insert (boxes : AList fun _ : Addr => Sigma c.Rust) (a : Addr) (b : Sigma c.Rust) :
    (fun a' => (boxes.insert a b).lookup a') = update (fun a' => boxes.lookup a') a (some b) := by
  funext a'
  by_cases h : a' = a
  · subst h
    rw [update_self, AList.lookup_insert]
  · rw [update_of_ne h, AList.lookup_insert_ne h]

theorem lookup_erase (boxes : AList fun _ : Addr => Sigma c.Rust) (a : Addr) :
    (fun a' => (boxes.erase a).lookup a') = update (fun a' => boxes.lookup a') a none := by
  funext a'
  by_cases h : a' = a
  · subst h
    rw [update_self, AList.lookup_erase]
  · rw [update_of_ne h, AList.lookup_erase_ne h]

theorem boxed_update (object : (p : Opaque × Nat) → Option (c.Rust p.1)) (w : c.World) (p : Opaque × Nat)
    (v : Option (c.Rust p.1)) :
    Values.boxed ⟨update object p v, w⟩ = update (Values.boxed ⟨object, w⟩) p (v.map fun v => ⟨p.1, v⟩) := by
  funext q
  by_cases h : q = p
  · subst h
    simp only [Values.boxed, update_self]
  · simp only [Values.boxed, update_of_ne h]

theorem malloc_fresh (s : Mem c m) : s.boxes.lookup (m.malloc s.allocator s.boxes.keys).1 = none :=
  AList.lookup_eq_none.mpr (m.fresh s.allocator s.boxes.keys)

theorem Refines.empty (h : Refines s t) (hx : s.ptr (k, x) = none) : t.object (k, x) = none :=
  Option.map_eq_none_iff.mp (h.owns.null hx)

theorem Refines.full (h : Refines s t) (hx : s.ptr (k, x) = some a) :
    ∃ v, t.object (k, x) = some v ∧ s.boxes.lookup a = some ⟨k, v⟩ ∧
      load s.boxes k (some a) = some (a, v) := by
  have hbox : t.boxed (k, x) = s.boxes.lookup a := h.owns.get hx
  obtain ⟨b, hb⟩ := Option.isSome_iff_exists.mp (h.owns.live (k, x) a hx)
  obtain ⟨v, hv, rfl⟩ := Option.map_eq_some_iff.mp (hbox.trans hb)
  refine ⟨v, hv, hb, ?_⟩
  simp [load, hb]

theorem load_none (boxes : AList fun _ : Addr => Sigma c.Rust) (k : Opaque) : load boxes k none = none := rfl

theorem load_insert {b : Addr} {boxes : AList fun _ : Addr => Sigma c.Rust} (h : a ≠ b) (y : Sigma c.Rust)
    (k : Opaque) : load (boxes.insert b y) k (some a) = load boxes k (some a) := by
  simp [load, AList.lookup_insert_ne h]

theorem load_insert_self (boxes : AList fun _ : Addr => Sigma c.Rust) (a : Addr) (v : c.Rust k) :
    load (boxes.insert a ⟨k, v⟩) k (some a) = some (a, v) := by
  simp [load, AList.lookup_insert]

theorem load_erase {b : Addr} {boxes : AList fun _ : Addr => Sigma c.Rust} (h : a ≠ b) (k : Opaque) :
    load (boxes.erase b) k (some a) = load boxes k (some a) := by
  simp [load, AList.lookup_erase_ne h]

theorem load_erase_self (boxes : AList fun _ : Addr => Sigma c.Rust) (k : Opaque) (a : Addr) :
    load (boxes.erase a) k (some a) = none := by
  simp [load, AList.lookup_erase]

theorem load_fst {boxes : AList fun _ : Addr => Sigma c.Rust} {y : Addr × c.Rust k}
    (h : load boxes k (some a) = some y) : y.1 = a := by
  simp only [load, Option.bind_eq_bind, Option.bind_some, Option.bind_eq_some_iff] at h
  obtain ⟨b, -, v, -, hy⟩ := h
  cases hy
  rfl

theorem load_erase_of_load {boxes : AList fun _ : Addr => Sigma c.Rust} {raw : Option Addr}
    {y : Addr × c.Rust k} (h : load boxes k raw = some y) (k' : Opaque) (raw' : Option Addr) :
    load (boxes.erase y.1) k' raw' = if raw = raw' then none else load boxes k' raw' := by
  cases raw with
  | none => cases h
  | some a =>
    rw [load_fst h]
    cases raw' with
    | none => rfl
    | some b =>
      by_cases hab : a = b
      · subst hab
        rw [if_pos rfl, load_erase_self]
      · rw [load_erase (Ne.symm hab), if_neg (by simpa using hab)]

theorem Refines.outside (h : Refines s t) (w : c.World) :
    Refines { s with world := w } { t with world := w } :=
  ⟨h.owns, rfl⟩

theorem Refines.free (h : Refines s t) (hx : s.ptr (k, x) = some a) :
    Refines { s with boxes := s.boxes.erase a, ptr := update s.ptr (k, x) none }
      { t with object := update t.object (k, x) none } := by
  refine ⟨?_, h.world⟩
  rw [lookup_erase, boxed_update]
  exact h.owns.free hx

theorem Refines.alloc (h : Refines s t) (hx : s.ptr (k, x) = none) (ha : s.boxes.lookup a = none)
    (allocator : m.State) (v : c.Rust k) :
    Refines { s with boxes := s.boxes.insert a ⟨k, v⟩, allocator, ptr := update s.ptr (k, x) (some a) }
      { t with object := update t.object (k, x) (some v) } := by
  refine ⟨?_, h.world⟩
  rw [lookup_insert, boxed_update]
  exact h.owns.alloc hx ha _

/-- The wrapper has a new box, and the old one is gone. -/
theorem Refines.replace {b : Addr} (h : Refines s t) (hx : s.ptr (k, x) = some a)
    (hb : s.boxes.lookup b = none)
    (allocator : m.State) (v : c.Rust k) :
    Refines
      { s with boxes := (s.boxes.insert b ⟨k, v⟩).erase a, allocator, ptr := update s.ptr (k, x) (some b) }
      { t with object := update t.object (k, x) (some v) } := by
  refine ⟨?_, h.world⟩
  have hba : b ≠ a := by
    rintro rfl
    have hlive := h.owns.live (k, x) b hx
    rw [hb] at hlive
    cases hlive
  have hfree := h.owns.free hx
  have hnone : update (fun a => s.boxes.lookup a) a none b = none := by rw [update_of_ne hba, hb]
  have hrest := hfree.alloc (update_self ..) hnone ⟨k, v⟩
  rw [Function.update_idem, Function.update_idem] at hrest
  rw [lookup_erase, lookup_insert, Function.update_comm hba, boxed_update]
  exact hrest

/-- A box that was made and is gone again. -/
theorem Refines.temporary (h : Refines s t) (ha : s.boxes.lookup a = none) (allocator : m.State)
    (b : Sigma c.Rust) :
    Refines { s with boxes := (s.boxes.insert a b).erase a, allocator } t := by
  refine ⟨?_, h.world⟩
  have hcell : update (fun a => s.boxes.lookup a) a none = fun a => s.boxes.lookup a :=
    Function.update_eq_self_iff.mpr ha.symm
  rw [lookup_erase, lookup_insert, Function.update_idem, hcell]
  exact h.owns

theorem Refines.write (h : Refines s t) (hx : s.ptr (k, x) = some a) (v : c.Rust k) :
    Refines { s with boxes := s.boxes.insert a ⟨k, v⟩ }
      { t with object := update t.object (k, x) (some v) } := by
  refine ⟨?_, h.world⟩
  rw [lookup_insert, boxed_update]
  exact h.owns.write hx _

theorem Refines.vacant (h : Refines s t) (hx : s.ptr (k, x) = none) (hv : t.object (k, x) = none) :
    Refines { s with ptr := update s.ptr (k, x) none } { t with object := update t.object (k, x) none } := by
  rw [Function.update_eq_self_iff.mpr hx.symm, Function.update_eq_self_iff.mpr hv.symm]
  exact h

theorem Refines.move (h : Refines s t) (hx : s.ptr (k, x) = none) (y : Nat) :
    Refines { s with ptr := update (update s.ptr (k, y) none) (k, x) (s.ptr (k, y)) }
      { t with object := update (update t.object (k, y) none) (k, x) (t.object (k, y)) } := by
  refine ⟨?_, h.world⟩
  rw [boxed_update, boxed_update]
  exact h.owns.move hx (k, y)

end Ipmb.WrapperValues
