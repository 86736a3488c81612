import Ipmb.JoinLoop
import Ipmb.NodeWorker
import Ipmb.RegistrySizes
import Mathlib.Data.List.AList

namespace Ipmb.Wrappers

open Labels Messages Time JoinLoop Registry RegistrySizes
open NodeReceiver (ofMillis)
open NodeWorker (RecvError)
open Function (update)

/-- The types of the crate behind opaque pointers, and the world outside of the wrappers. -/
structure Types where
  World : Type
  Object : Type
  MemoryRegion : Type
  MemoryRegistry : Type
  EndpointSender : Type
  EndpointReceiver : Type

structure BytesMessage where
  format : UInt16
  data : List UInt8

def BytesMessage.uuid : Uuid := 0xdd95ba8e127947cf925e83e614e79588

structure Message (t : Types) where
  selector : Selector
  payload : BytesMessage
  objects : List t.Object
  memoryRegions : List t.MemoryRegion

def Message.new {t : Types} (selector : Selector) (payload : BytesMessage) : Message t :=
  ⟨{ selector with uuid := BytesMessage.uuid }, payload, [], []⟩

/-- The parameters of `join` of the crate. -/
structure Options where
  identifier : String
  label : Label
  token : String
  controllerAffinity : Bool

/-- The types of pointers that `opaque_type!` declares. -/
inductive Opaque where
  | rString
  | label
  | labelOp
  | memoryRegion
  | memoryRegistry
  | message
  | sender
  | receiver
deriving DecidableEq

/-- What a pointer of this type points to. -/
abbrev Types.Rust (t : Types) : Opaque → Type
  | .rString => String
  | .label => Label
  | .labelOp => LabelOp
  | .memoryRegion => t.MemoryRegion
  | .memoryRegistry => t.MemoryRegistry
  | .message => Message t
  | .sender => t.EndpointSender
  | .receiver => t.EndpointReceiver

/-- What the interface calls in the crate and in its standard library. None of it panics, and a
closure that the crate calls does not call the wrappers. -/
structure Crate extends Types where
  version : UInt8 × UInt8 × UInt8
  versionPre : String
  toStr : List UInt8 → Option String
  toStringLossy : List UInt8 → String
  fromRaw : UInt64 → Object
  asRaw : Object → UInt64
  drop : (k : Opaque) → toTypes.Rust k → World → World
  join : Options → Option Duration → World → Except JoinError (EndpointSender × EndpointReceiver) × World
  send : Message toTypes → EndpointSender → World → Except JoinError Unit × EndpointSender × World
  recv : Option Duration → EndpointReceiver → World →
    Except RecvError (Message toTypes) × EndpointReceiver × World
  registry : MemoryRegistry
  alloc : UInt64 → Option String → MemoryRegistry → World → Option MemoryRegion × MemoryRegistry × World
  allocWithFree : UInt64 → Option String → Closure → MemoryRegistry → World →
    Option MemoryRegion × MemoryRegistry × World
  maintain : MemoryRegistry → World → Unit × MemoryRegistry × World
  newRegion : UInt64 → World → Option MemoryRegion × World
  map : UInt64 → Option UInt64 → MemoryRegion → World → Option (UInt64 × UInt64) × MemoryRegion × World
  refCount : MemoryRegion → World → UInt32 × World
  clone : MemoryRegion → World → Option MemoryRegion × World

abbrev Addr := Nat

/-- The allocator of `Box`: what it hands out is not in use. -/
structure Allocator where
  State : Type
  malloc : State → List Addr → Addr × State
  fresh : ∀ s used, (malloc s used).1 ∉ used

/-- An allocator that hands out the address behind all that are in use. -/
abbrev behindAll : Allocator where
  State := Unit
  malloc _ used := (used.max?.getD 0 + 1, ())
  fresh _ _ hmem := Nat.not_succ_le_self _ (List.le_max?_getD_of_mem hmem)

/-- The boxes on the heap, and the pointer in each wrapper; a wrapper is known by its type and a
number. -/
structure Mem (c : Crate) (m : Allocator) where
  boxes : AList fun _ : Addr => Sigma c.Rust
  allocator : m.State
  ptr : Opaque × Nat → Option Addr
  world : c.World

/-- It fails where the behavior of the code is undefined, and where a wrapper is constructed in the
place of a live one. -/
abbrev Memory (c : Crate) (m : Allocator) := StateT (Mem c m) Option

variable {c : Crate} {m : Allocator} {α : Type}

def outside (f : c.World → α × c.World) : Memory c m α := fun s =>
  let (x, world) := f s.world
  some (x, { s with world })

/-- The value in a box, when it is of this type. -/
def unbox (k : Opaque) (b : Sigma c.Rust) : Option (c.Rust k) :=
  if h : b.1 = k then some (h ▸ b.2) else none

def load (boxes : AList fun _ : Addr => Sigma c.Rust) (k : Opaque) (raw : Option Addr) :
    Option (Addr × c.Rust k) := do
  let a ← raw
  let b ← boxes.lookup a
  let v ← unbox k b
  return (a, v)

/-- `From<$rust> for $ffi` -/
def intoRaw (k : Opaque) (v : c.Rust k) : Memory c m (Option Addr) := fun s =>
  let r := m.malloc s.allocator s.boxes.keys
  some (some r.1, { s with boxes := s.boxes.insert r.1 ⟨k, v⟩, allocator := r.2 })

/-- `From<$ffi> for $rust` -/
def fromRaw (k : Opaque) (raw : Option Addr) : Memory c m (c.Rust k) := fun s => do
  let (a, v) ← load s.boxes k raw
  return (v, { s with boxes := s.boxes.erase a })

/-- `Deref for $ffi` -/
def deref (k : Opaque) (raw : Option Addr) : Memory c m (c.Rust k) := fun s => do
  let (_, v) ← load s.boxes k raw
  return (v, s)

/-- `DerefMut for $ffi`, for the call of a method. -/
def derefMut (k : Opaque) (raw : Option Addr) (f : c.Rust k → c.World → α × c.Rust k × c.World) :
    Memory c m α := fun s => do
  let (a, v) ← load s.boxes k raw
  let (x, v, world) := f v s.world
  return (x, { s with boxes := s.boxes.insert a ⟨k, v⟩, world })

/-- `Drop for $ffi` -/
def dropRaw (k : Opaque) (raw : Option Addr) : Memory c m Unit := do
  let v ← fromRaw k raw
  outside fun w => ((), c.drop k v w)

/-- `ptr_.get()` -/
def OwnedPtr.get (k : Opaque) (x : Nat) : Memory c m (Option Addr) := fun s => some (s.ptr (k, x), s)

/-- `ptr_.release()` -/
def OwnedPtr.release (k : Opaque) (x : Nat) : Memory c m (Option Addr) := fun s =>
  some (s.ptr (k, x), { s with ptr := update s.ptr (k, x) none })

/-- The deleter of the wrapper, which is not called for null. -/
def delete (k : Opaque) : Option Addr → Memory c m Unit
  | none => pure ()
  | some a => dropRaw k (some a)

/-- `ptr_.reset(raw)` -/
def OwnedPtr.reset (k : Opaque) (x : Nat) (raw : Option Addr) : Memory c m Unit := fun s =>
  delete k (s.ptr (k, x)) { s with ptr := update s.ptr (k, x) raw }

/-- The constructor of a wrapper, `ptr_(raw, deleter)`. -/
def construct (k : Opaque) (x : Nat) (raw : Option Addr) : Memory c m Unit := fun s =>
  match s.ptr (k, x) with
  | none => some ((), { s with ptr := update s.ptr (k, x) raw })
  | some _ => none

/-- `CStr::from_ptr` of `c_str()`: the bytes before the first zero. -/
def cStr (s : List UInt8) : List UInt8 := s.takeWhile (· != 0)

namespace Ffi

def errorCodeTimeout : Int := -2

def errorCodeDecode : Int := -3

def errorCodeVersionMismatch : Int := -4

def errorCodeTokenMismatch : Int := -5

def errorCodePermissionDenied : Int := -6

def timeoutInfinite : UInt32 := 0xffffffff

def waits (timeout : UInt32) : Option Duration :=
  if timeout = timeoutInfinite then none else some (ofMillis timeout)

structure Options where
  identifier : List UInt8
  label : Option Addr
  token : List UInt8
  controllerAffinity : Bool

structure Selector where
  labelOp : Option Addr
  mode : SelectorMode
  ttl : UInt32

def ipmbRstringData (rstring : Option Addr) : Memory c m String := deref .rString rstring

def ipmbRstringDrop (rstring : Option Addr) : Memory c m Unit := dropRaw .rString rstring

def ipmbVersionPre : Memory c m (Option Addr) := intoRaw .rString c.versionPre

/-- The code for an error of `join` or of `send`. -/
def joinCode : JoinError → Int
  | .versionMismatch _ => errorCodeVersionMismatch
  | .tokenMismatch => errorCodeTokenMismatch
  | .permissionDenied => errorCodePermissionDenied
  | .timeout => errorCodeTimeout

def sendCode : Except JoinError Unit → Int
  | .ok () => errorCodeSuccess
  | .error e => joinCode e

def recvCode : RecvError → Int
  | .timeout => errorCodeTimeout
  | .decode => errorCodeDecode
  | .versionMismatch _ => errorCodeVersionMismatch
  | .tokenMismatch => errorCodeTokenMismatch
  | .permissionDenied => errorCodePermissionDenied

/-- The code, and what is written for the sender and for the receiver. -/
def outEndpoint : Except JoinError (c.EndpointSender × c.EndpointReceiver) →
    Memory c m (Int × Option Addr × Option Addr)
  | .ok (sender, receiver) => do
    let pSender ← intoRaw .sender sender
    let pReceiver ← intoRaw .receiver receiver
    return (errorCodeSuccess, pSender, pReceiver)
  | .error e => return (joinCode e, none, none)

def ipmbJoin (options : Options) (timeout : UInt32) : Memory c m (Int × Option Addr × Option Addr) := do
  match c.toStr (cStr options.identifier) with
  | none => return (errorCodeUnknown, none, none)
  | some identifier =>
    match c.toStr (cStr options.token) with
    | none => return (errorCodeUnknown, none, none)
    | some token =>
      let label ← deref .label options.label
      outEndpoint (← outside (c.join ⟨identifier, label, token, options.controllerAffinity⟩ (waits timeout)))

def ipmbSend (sender message : Option Addr) : Memory c m Int := do
  let message ← fromRaw .message message
  return sendCode (← derefMut .sender sender (c.send message))

/-- The code, and what is written for the message. -/
def outMessage : Except RecvError (Message c.toTypes) → Memory c m (Int × Option Addr)
  | .ok message => return (errorCodeSuccess, ← intoRaw .message message)
  | .error e => return (recvCode e, none)

def ipmbRecv (receiver : Option Addr) (timeout : UInt32) : Memory c m (Int × Option Addr) := do
  outMessage (← derefMut .receiver receiver (c.recv (waits timeout)))

def ipmbMemoryRegistry : Memory c m (Option Addr) := intoRaw .memoryRegistry c.registry

/-- The code, and what is written for the region that the crate returns. -/
def outRegion : Option c.MemoryRegion → Memory c m (Int × Option Addr)
  | some region => return (errorCodeSuccess, ← intoRaw .memoryRegion region)
  | none => return (errorCodeUnknown, none)

def ipmbMemoryRegistryAlloc (registry : Option Addr) (minSize : UInt64) (tag : Option (List UInt8)) :
    Memory c m (Int × Option Addr) := do
  let tag := tag.map fun tag => c.toStringLossy (cStr tag)
  outRegion (← derefMut .memoryRegistry registry (c.alloc minSize tag))

def ipmbMemoryRegistryAllocWithFree (registry : Option Addr) (minSize : UInt64) (tag : Option (List UInt8))
    (free : Option Closure) : Memory c m (Int × Option Addr) := do
  let tag := tag.map fun tag => c.toStringLossy (cStr tag)
  outRegion (← derefMut .memoryRegistry registry <| match free with
    | some free => c.allocWithFree minSize tag free
    | none => c.alloc minSize tag)

def ipmbMemoryRegistryMaintain (registry : Option Addr) : Memory c m Unit :=
  derefMut .memoryRegistry registry c.maintain

/-- `From<Selector> for ipmb::Selector` -/
def Selector.into (v : Selector) : Memory c m Messages.Selector := do
  let labelOp ← deref .labelOp v.labelOp
  let s : Messages.Selector := match v.mode with
    | .unicast => .unicast labelOp
    | .multicast => .multicast labelOp
  return { s with ttl := ofMillis v.ttl }

def ipmbMessage (selector : Selector) (format : UInt16) (data : List UInt8) : Memory c m (Option Addr) := do
  let selector ← selector.into
  intoRaw .message (.new selector ⟨format, data⟩)

def ipmbMessageBytesData (message : Option Addr) : Memory c m (UInt16 × List UInt8 × UInt32) := do
  let message ← deref .message message
  return (message.payload.format, message.payload.data, message.payload.data.length.toUInt32)

def ipmbMessageObjectAppend (message : Option Addr) (obj : UInt64) : Memory c m Unit :=
  derefMut .message message fun message w =>
    ((), { message with objects := message.objects ++ [c.fromRaw obj] }, w)

/-- The object at the index, and the message without it. -/
def objectRetrieve (index : Nat) (message : Message c.toTypes) : UInt64 × Message c.toTypes :=
  match message.objects[index]? with
  | some obj => (c.asRaw obj, { message with objects := message.objects.eraseIdx index })
  | none => (0, message)

def ipmbMessageObjectRetrieve (message : Option Addr) (index : Nat) : Memory c m UInt64 :=
  derefMut .message message fun message w =>
    let (obj, message) := objectRetrieve index message
    (obj, message, w)

def objectGet (index : Nat) (message : Message c.toTypes) : UInt64 :=
  match message.objects[index]? with
  | some obj => c.asRaw obj
  | none => 0

def ipmbMessageObjectGet (message : Option Addr) (index : Nat) : Memory c m UInt64 := do
  return objectGet index (← deref .message message)

def ipmbMessageMemoryRegionAppend (message region : Option Addr) : Memory c m Unit := do
  let region ← fromRaw .memoryRegion region
  derefMut .message message fun message w =>
    ((), { message with memoryRegions := message.memoryRegions ++ [region] }, w)

/-- The region at the index, and the message without it. -/
def memoryRegionRetrieve (index : Nat) (message : Message c.toTypes) :
    Option c.MemoryRegion × Message c.toTypes :=
  match message.memoryRegions[index]? with
  | some region => (some region, { message with memoryRegions := message.memoryRegions.eraseIdx index })
  | none => (none, message)

def orNull : Option c.MemoryRegion → Memory c m (Option Addr)
  | some region => intoRaw .memoryRegion region
  | none => return none

def ipmbMessageMemoryRegionRetrieve (message : Option Addr) (index : Nat) : Memory c m (Option Addr) := do
  orNull (← derefMut .message message fun message w =>
    let (region, message) := memoryRegionRetrieve index message
    (region, message, w))

def ipmbMemoryRegion (size : UInt64) : Memory c m (Int × Option Addr) := do
  outRegion (← outside (c.newRegion size))

/-- The address, zero for null, and the size. -/
def mapped : Option (UInt64 × UInt64) → UInt64 × UInt64
  | some (ptr, size) => (ptr, size)
  | none => (0, 0)

/-- `offset + size` wraps, as in a release build. -/
def ipmbMemoryRegionMap (region : Option Addr) (offset : UInt64) (size : Int64) :
    Memory c m (UInt64 × UInt64) := do
  let range := if size < 0 then none else some (offset + size.toUInt64)
  return mapped (← derefMut .memoryRegion region (c.map offset range))

def ipmbMemoryRegionRefCount (region : Option Addr) : Memory c m UInt32 := do
  let region ← deref .memoryRegion region
  outside (c.refCount region)

def ipmbMemoryRegionClone (region : Option Addr) : Memory c m (Int × Option Addr) := do
  let region ← deref .memoryRegion region
  outRegion (← outside (c.clone region))

def ipmbLabel : Memory c m (Option Addr) := intoRaw .label .default

def ipmbLabelInsert (label : Option Addr) (s : List UInt8) : Memory c m Unit :=
  derefMut .label label fun label w => ((), label.insert (c.toStringLossy (cStr s)), w)

def ipmbLabelOpBool (v : Bool) : Memory c m (Option Addr) := intoRaw .labelOp (if v then .true else .false)

def ipmbLabelOpLeaf (s : List UInt8) : Memory c m (Option Addr) :=
  intoRaw .labelOp (.leaf (c.toStringLossy (cStr s)))

def ipmbLabelOpNot (left : Option Addr) : Memory c m (Option Addr) := do
  let left ← fromRaw .labelOp left
  intoRaw .labelOp (.not left)

def ipmbLabelOpAnd (left right : Option Addr) : Memory c m (Option Addr) := do
  let left ← fromRaw .labelOp left
  let right ← fromRaw .labelOp right
  intoRaw .labelOp (.and left right)

def ipmbLabelOpOr (left right : Option Addr) : Memory c m (Option Addr) := do
  let left ← fromRaw .labelOp left
  let right ← fromRaw .labelOp right
  intoRaw .labelOp (.or left right)

end Ffi

namespace Cpp

inductive Error where
  | success
  | unknown
  | timeout
  | decode
  | versionMismatch
  | tokenMismatch
  | permissionDenied
deriving DecidableEq

/-- The `switch` of `send`, `recv` and `join`. -/
def Error.ofCode (r : Int) : Error :=
  if r = errorCodeSuccess then .success
  else if r = Ffi.errorCodeTimeout then .timeout
  else if r = Ffi.errorCodeDecode then .decode
  else if r = Ffi.errorCodeTokenMismatch then .tokenMismatch
  else if r = Ffi.errorCodeVersionMismatch then .versionMismatch
  else if r = Ffi.errorCodePermissionDenied then .permissionDenied
  else .unknown

/-- The label is the number of the member. -/
structure Options where
  identifier : List UInt8
  label : Nat
  token : List UInt8
  controllerAffinity : Bool

structure Selector where
  labelOp : Nat
  mode : SelectorMode
  ttl : UInt32

def Version.new : Memory c m ((UInt8 × UInt8 × UInt8) × String) := do
  let preRaw ← Ffi.ipmbVersionPre
  let pre ← Ffi.ipmbRstringData preRaw
  Ffi.ipmbRstringDrop preRaw
  return (c.version, pre)

def Label.append (x : Nat) (s : List UInt8) : Memory c m Unit := do
  let raw ← OwnedPtr.get .label x
  Ffi.ipmbLabelInsert raw s

def Label.insertAll (raw : Option Addr) : List (List UInt8) → Memory c m Unit
  | [] => return ()
  | i :: list => do
    Ffi.ipmbLabelInsert raw i
    Label.insertAll raw list

def Label.new (x : Nat) (list : List (List UInt8)) : Memory c m Unit := do
  let raw ← Ffi.ipmbLabel
  construct .label x raw
  let raw ← OwnedPtr.get .label x
  Label.insertAll raw list

def LabelOp.ofBool (x : Nat) (v : Bool) : Memory c m Unit := do
  let raw ← Ffi.ipmbLabelOpBool v
  construct .labelOp x raw

def LabelOp.leaf (x : Nat) (s : List UInt8) : Memory c m Unit := do
  let raw ← Ffi.ipmbLabelOpLeaf s
  construct .labelOp x raw

def LabelOp.opNot (x : Nat) : Memory c m Unit := do
  let left ← OwnedPtr.release .labelOp x
  let raw ← Ffi.ipmbLabelOpNot left
  OwnedPtr.reset .labelOp x raw

/-- A wrapper that is passed by value goes to the parameter before anything else. -/
def LabelOp.opAnd (x y : Nat) : Memory c m Unit := do
  let right ← OwnedPtr.release .labelOp y
  let left ← OwnedPtr.release .labelOp x
  let raw ← Ffi.ipmbLabelOpAnd left right
  OwnedPtr.reset .labelOp x raw

def LabelOp.opOr (x y : Nat) : Memory c m Unit := do
  let right ← OwnedPtr.release .labelOp y
  let left ← OwnedPtr.release .labelOp x
  let raw ← Ffi.ipmbLabelOpOr left right
  OwnedPtr.reset .labelOp x raw

def Options.asFfi (options : Options) : Memory c m Ffi.Options := do
  let labelRaw ← OwnedPtr.get .label options.label
  return ⟨options.identifier, labelRaw, options.token, options.controllerAffinity⟩

def Selector.asFfi (selector : Selector) : Memory c m Ffi.Selector := do
  let labelOpRaw ← OwnedPtr.get .labelOp selector.labelOp
  return ⟨labelOpRaw, selector.mode, selector.ttl⟩

/-- The `switch` of the methods that return a region. -/
def returned (x : Nat) (r : Int) (raw : Option Addr) : Memory c m Error :=
  if r = errorCodeSuccess then do
    construct .memoryRegion x raw
    return .success
  else do
    construct .memoryRegion x none
    return .unknown

def MemoryRegion.create (x : Nat) (size : UInt64) : Memory c m Error := do
  let (r, raw) ← Ffi.ipmbMemoryRegion size
  returned x r raw

def MemoryRegion.clone (x y : Nat) : Memory c m Error := do
  let raw ← OwnedPtr.get .memoryRegion x
  let (r, clonedRaw) ← Ffi.ipmbMemoryRegionClone raw
  returned y r clonedRaw

def MemoryRegion.map (x : Nat) (offset : UInt64) (size : Int64) : Memory c m (UInt64 × UInt64 × Error) := do
  let raw ← OwnedPtr.get .memoryRegion x
  let (ptr, realSize) ← Ffi.ipmbMemoryRegionMap raw offset size
  return if ptr ≠ 0 then (ptr, realSize, .success) else (0, 0, .unknown)

def MemoryRegion.refCount (x : Nat) : Memory c m (UInt32 × Error) := do
  let raw ← OwnedPtr.get .memoryRegion x
  return (← Ffi.ipmbMemoryRegionRefCount raw, .success)

def MemoryRegistry.new (x : Nat) : Memory c m Unit := do
  let raw ← Ffi.ipmbMemoryRegistry
  construct .memoryRegistry x raw

def MemoryRegistry.alloc (x : Nat) (minSize : UInt64) (tag : Option (List UInt8)) (y : Nat) :
    Memory c m Error := do
  let raw ← OwnedPtr.get .memoryRegistry x
  let (r, regionRaw) ← Ffi.ipmbMemoryRegistryAlloc raw minSize tag
  returned y r regionRaw

/-- `free` stands for the copy of the `std::function` that the registry is given. -/
def MemoryRegistry.allocWithFree (x : Nat) (minSize : UInt64) (tag : Option (List UInt8)) (free : Closure)
    (y : Nat) : Memory c m Error := do
  let raw ← OwnedPtr.get .memoryRegistry x
  let (r, regionRaw) ← Ffi.ipmbMemoryRegistryAllocWithFree raw minSize tag (some free)
  returned y r regionRaw

def MemoryRegistry.maintain (x : Nat) : Memory c m Error := do
  let raw ← OwnedPtr.get .memoryRegistry x
  Ffi.ipmbMemoryRegistryMaintain raw
  return .success

def Message.new (x : Nat) (selector : Selector) (format : UInt16) (data : List UInt8) : Memory c m Unit := do
  let selector ← selector.asFfi
  let raw ← Ffi.ipmbMessage selector format data
  construct .message x raw

def Message.bytesData (x : Nat) : Memory c m ((UInt16 × List UInt8 × UInt32) × Error) := do
  let raw ← OwnedPtr.get .message x
  return (← Ffi.ipmbMessageBytesData raw, .success)

def Message.objectAppend (x : Nat) (obj : UInt64) : Memory c m Unit := do
  let raw ← OwnedPtr.get .message x
  Ffi.ipmbMessageObjectAppend raw obj

/-- The value zero stands for an error. -/
def objectOf (obj : UInt64) : UInt64 × Error := if obj ≠ 0 then (obj, .success) else (0, .unknown)

def Message.objectRetrieve (x : Nat) (index : Nat) : Memory c m (UInt64 × Error) := do
  let raw ← OwnedPtr.get .message x
  return objectOf (← Ffi.ipmbMessageObjectRetrieve raw index)

def Message.objectGet (x : Nat) (index : Nat) : Memory c m (UInt64 × Error) := do
  let raw ← OwnedPtr.get .message x
  return objectOf (← Ffi.ipmbMessageObjectGet raw index)

def Message.memoryRegionAppend (x y : Nat) : Memory c m Unit := do
  let region ← OwnedPtr.release .memoryRegion y
  let raw ← OwnedPtr.get .message x
  Ffi.ipmbMessageMemoryRegionAppend raw region

def Message.memoryRegionRetrieve (x : Nat) (index : Nat) (y : Nat) : Memory c m Error := do
  let raw ← OwnedPtr.get .message x
  let regionRaw ← Ffi.ipmbMessageMemoryRegionRetrieve raw index
  construct .memoryRegion y regionRaw
  return if regionRaw.isSome then .success else .unknown

def Sender.send (x y : Nat) : Memory c m Error := do
  let message ← OwnedPtr.release .message y
  let raw ← OwnedPtr.get .sender x
  let r ← Ffi.ipmbSend raw message
  return .ofCode r

def Receiver.recv (x : Nat) (timeout : UInt32) (y : Nat) : Memory c m Error := do
  let raw ← OwnedPtr.get .receiver x
  let (r, mRaw) ← Ffi.ipmbRecv raw timeout
  let error := Error.ofCode r
  construct .message y (if error = .success then mRaw else none)
  return error

def join (options : Options) (timeout : UInt32) (x y : Nat) : Memory c m Error := do
  let options ← options.asFfi
  let (r, sRaw, rRaw) ← Ffi.ipmbJoin options timeout
  let error := Error.ofCode r
  construct .sender x (if error = .success then sRaw else none)
  construct .receiver y (if error = .success then rRaw else none)
  return error

/-- The assignment `x = std::move(y)` of two wrappers of one type. -/
def move (k : Opaque) (x y : Nat) : Memory c m Unit := do
  let raw ← OwnedPtr.release k y
  OwnedPtr.reset k x raw

/-- The destructor of a wrapper. -/
def destroy (k : Opaque) (x : Nat) : Memory c m Unit := OwnedPtr.reset k x none

end Cpp

/-- What a program does with wrappers, where the results get a wrapper of their own. -/
inductive Call where
  | version
  | label (x : Nat) (list : List (List UInt8))
  | append (x : Nat) (s : List UInt8)
  | labelOpBool (x : Nat) (v : Bool)
  | labelOpLeaf (x : Nat) (s : List UInt8)
  | opNot (x : Nat)
  | opAnd (x y : Nat)
  | opOr (x y : Nat)
  | create (x : Nat) (size : UInt64)
  | clone (x y : Nat)
  | map (x : Nat) (offset : UInt64) (size : Int64)
  | refCount (x : Nat)
  | memoryRegistry (x : Nat)
  | alloc (x : Nat) (minSize : UInt64) (tag : Option (List UInt8)) (y : Nat)
  | allocWithFree (x : Nat) (minSize : UInt64) (tag : Option (List UInt8)) (free : Closure) (y : Nat)
  | maintain (x : Nat)
  | message (x : Nat) (selector : Cpp.Selector) (format : UInt16) (data : List UInt8)
  | bytesData (x : Nat)
  | objectAppend (x : Nat) (obj : UInt64)
  | objectRetrieve (x index : Nat)
  | objectGet (x index : Nat)
  | memoryRegionAppend (x y : Nat)
  | memoryRegionRetrieve (x index y : Nat)
  | send (x y : Nat)
  | recv (x : Nat) (timeout : UInt32) (y : Nat)
  | join (options : Cpp.Options) (timeout : UInt32) (x y : Nat)
  | move (k : Opaque) (x y : Nat)
  | destroy (k : Opaque) (x : Nat)

/-- What a call returns, other than wrappers. -/
inductive Result where
  | done
  | version (version : (UInt8 × UInt8 × UInt8) × String)
  | error (error : Cpp.Error)
  | mapped (ptr : UInt64 × UInt64 × Cpp.Error)
  | refCount (count : UInt32 × Cpp.Error)
  | data (data : (UInt16 × List UInt8 × UInt32) × Cpp.Error)
  | object (obj : UInt64 × Cpp.Error)
deriving DecidableEq

def Result.void (_ : Unit) : Result := .done

def exec : Call → Memory c m Result
  | .version => .version <$> Cpp.Version.new
  | .label x list => .void <$> Cpp.Label.new x list
  | .append x s => .void <$> Cpp.Label.append x s
  | .labelOpBool x v => .void <$> Cpp.LabelOp.ofBool x v
  | .labelOpLeaf x s => .void <$> Cpp.LabelOp.leaf x s
  | .opNot x => .void <$> Cpp.LabelOp.opNot x
  | .opAnd x y => .void <$> Cpp.LabelOp.opAnd x y
  | .opOr x y => .void <$> Cpp.LabelOp.opOr x y
  | .create x size => .error <$> Cpp.MemoryRegion.create x size
  | .clone x y => .error <$> Cpp.MemoryRegion.clone x y
  | .map x offset size => .mapped <$> Cpp.MemoryRegion.map x offset size
  | .refCount x => .refCount <$> Cpp.MemoryRegion.refCount x
  | .memoryRegistry x => .void <$> Cpp.MemoryRegistry.new x
  | .alloc x minSize tag y => .error <$> Cpp.MemoryRegistry.alloc x minSize tag y
  | .allocWithFree x minSize tag free y => .error <$> Cpp.MemoryRegistry.allocWithFree x minSize tag free y
  | .maintain x => .error <$> Cpp.MemoryRegistry.maintain x
  | .message x selector format data => .void <$> Cpp.Message.new x selector format data
  | .bytesData x => .data <$> Cpp.Message.bytesData x
  | .objectAppend x obj => .void <$> Cpp.Message.objectAppend x obj
  | .objectRetrieve x index => .object <$> Cpp.Message.objectRetrieve x index
  | .objectGet x index => .object <$> Cpp.Message.objectGet x index
  | .memoryRegionAppend x y => .void <$> Cpp.Message.memoryRegionAppend x y
  | .memoryRegionRetrieve x index y => .error <$> Cpp.Message.memoryRegionRetrieve x index y
  | .send x y => .error <$> Cpp.Sender.send x y
  | .recv x timeout y => .error <$> Cpp.Receiver.recv x timeout y
  | .join options timeout x y => .error <$> Cpp.join options timeout x y
  | .move k x y => .void <$> Cpp.move k x y
  | .destroy k x => .void <$> Cpp.destroy k x

def boot (c : Crate) (m : Allocator) (allocator : m.State) (world : c.World) : Mem c m :=
  ⟨∅, allocator, fun _ => none, world⟩

end Ipmb.Wrappers
