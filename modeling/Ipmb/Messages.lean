import Ipmb.Labels
import Ipmb.Time

namespace Ipmb.Messages

open Labels Time

/-- A crate version: major, minor and patch numbers. -/
structure Version where
  major : UInt8
  minor : UInt8
  patch : UInt8
deriving DecidableEq

def Version.compatible (v rhs : Version) : Bool :=
  if v.major == 0 && rhs.major == 0 then v.minor == rhs.minor else v.major == rhs.major

theorem Version.compatible_refl (v : Version) : v.compatible v = true := by
  simp [Version.compatible]

theorem Version.compatible_comm (v rhs : Version) : v.compatible rhs = rhs.compatible v := by
  simp only [Version.compatible, Bool.and_comm (v.major == 0), BEq.comm (a := v.minor),
    BEq.comm (a := v.major) (b := rhs.major)]

/-- Two versions compatible with a third one are compatible with each other. -/
theorem Version.compatible_trans {u v w : Version} (h : u.compatible v = true)
    (h' : v.compatible w = true) : u.compatible w = true := by
  simp only [Version.compatible, Bool.and_eq_true, beq_iff_eq] at h h' ⊢
  grind

abbrev Uuid := BitVec 128

abbrev EndpointID := BitVec 128

inductive SelectorMode where
  | unicast
  | multicast
deriving DecidableEq

structure Selector where
  labelOp : LabelOp
  mode : SelectorMode
  uuid : Uuid
  memoryRegionCount : UInt16
  ttl : Duration
deriving DecidableEq

def Selector.unicast (labelOp : LabelOp) : Selector := ⟨labelOp, .unicast, 0, 0, .zero⟩

def Selector.multicast (labelOp : LabelOp) : Selector := ⟨labelOp, .multicast, 0, 0, .zero⟩

structure ConnectMessage where
  version : Version
  token : String
  label : Label
deriving DecidableEq

def ConnectMessage.uuid : Uuid := 0xb2c1deb330914a74a99cc8e8d710d4b2

inductive ConnectMessageAck where
  | ok (id : EndpointID)
  | errVersion (v : Version)
  | errToken
deriving DecidableEq

def ConnectMessageAck.uuid : Uuid := 0xc3de9eb4c3104c149747093d62c09998

/-- The errors of the crate; `R` is the platform's remote. -/
inductive Error (R : Type) where
  | encode
  | decode
  | typeUuidNotFound
  | timeout
  | disconnect
  | versionMismatch (v : Version) (remote : Option R)
  | tokenMismatch
  | identifierInUse
  | identifierNotInUse
  | ioError
  | memoryRegionMapping
  | permissionDenied
  | unknown
deriving DecidableEq

def Error.map {R S : Type} (f : R → S) : Error R → Error S
  | .encode => .encode
  | .decode => .decode
  | .typeUuidNotFound => .typeUuidNotFound
  | .timeout => .timeout
  | .disconnect => .disconnect
  | .versionMismatch v remote => .versionMismatch v (remote.map f)
  | .tokenMismatch => .tokenMismatch
  | .identifierInUse => .identifierInUse
  | .identifierNotInUse => .identifierNotInUse
  | .ioError => .ioError
  | .memoryRegionMapping => .memoryRegionMapping
  | .permissionDenied => .permissionDenied
  | .unknown => .unknown

/-- `MessageBox::decode` at a type with the uuid `typeUuid`. -/
def decodeBox {T R : Type} (typeUuid : Uuid) (decode : List UInt8 → Option T) (uuid : Uuid)
    (data : List UInt8) : Except (Error R) T :=
  if uuid = typeUuid then
    match decode data with
    | some payload => .ok payload
    | none => .error .decode
  else .error .typeUuidNotFound

end Ipmb.Messages
