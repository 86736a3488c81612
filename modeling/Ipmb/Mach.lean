import Ipmb.RoundTrip

namespace Ipmb.Mach

open Messages Bytes Buffers Encoding Faults Decoding RoundTrip

/-- `mach_port_t`, as the bits of a `u32`. -/
abbrev Port := RawFd

def machMsghBitsComplex : Nat := 0x80000000

def machMsgPortDescriptor : Nat := 0

def machMsgTypeCopySend : Nat := 19

def machPortNull : Port := 0

def machMsghBitsSet (remote localPort voucher other : Nat) : Nat :=
  remote ||| localPort <<< 8 ||| voucher <<< 16 ||| other

/-- The fields of `mach_msg_header_t` that are written. -/
structure Header where
  bits : Nat
  size : Nat
  remotePort : Port
  localPort : Port
deriving DecidableEq

structure PortDescriptor where
  name : Port
  disposition : Nat
  type : Nat
deriving DecidableEq

/-- The body counts the descriptors, and the data part follows them. -/
structure MachMsg where
  header : Header
  descriptors : List PortDescriptor
  data : List UInt8
deriving DecidableEq

/-- `payload_data` is a slice of the data part. -/
structure EncodedMessage where
  selector : Selector
  payloadData : Span
  machMsg : MachMsg
  objects : List Port
  memoryRegions : List MemoryRegion
deriving DecidableEq

/-- `size_of::<BaseMessage>()`: the header and the count of the descriptors. -/
def baseMessageSize : Nat := 28

def portDescriptorSize : Nat := 12

/-- The data part is laid out as it is in a datagram. -/
def encodeInner (codec : Codec) (version : Version) (msg : Message) (heap : Nat → UInt8) :
    Span × MachMsg :=
  let data := encodeIov codec version msg heap
  (data.1,
    { header :=
        { bits := machMsghBitsSet machMsgTypeCopySend 0 0 machMsghBitsComplex
          size := baseMessageSize + msg.attachments.length * portDescriptorSize + data.2.length
          remotePort := machPortNull
          localPort := machPortNull }
      descriptors := msg.attachments.map (⟨·, machMsgTypeCopySend, machMsgPortDescriptor⟩)
      data := data.2 })

def intoEncoded (codec : Codec) (version : Version) (msg : Message) (heap : Nat → UInt8) :
    EncodedMessage :=
  let encoded := encodeInner codec version msg heap
  ⟨msg.selector, encoded.1, encoded.2, msg.objects, msg.memoryRegions⟩

/-- What the receiver of a message finds in its buffer: `f` renumbers the ports for it,
and the data part is followed by the trailer and the rest of the buffer. -/
def deliver (f : Port → Port) (header : Header) (trailer : List UInt8) (m : MachMsg) : MachMsg :=
  ⟨header, m.descriptors.map (fun d => { d with name := f d.name }), m.data ++ trailer⟩

/-- `msgh_size`, computed in `u32`. -/
def routeSize (count selectorSize payloadSize : Nat) : Option Nat :=
  (align4U32 selectorSize).bind fun selector =>
  (align4U32 payloadSize).bind fun payload =>
    let size := baseMessageSize + count * portDescriptorSize + 4 + 4 + selector + 4 + payload
    if size < 2 ^ 32 then some size else none

/-- `EncodedMessage::new`; `none` when the assertion on the descriptors fails. -/
def new (k : Kernel) (codec : Codec) (version : Version) (m : MachMsg) :
    Option (Parse EncodedMessage) :=
  if m.descriptors.all (fun d => d.type == machMsgPortDescriptor) then
    some <|
      (readVersion version m.data).bind fun _ =>
      (readSelector codec m.data).bind fun selector =>
      (splitObjects k (m.descriptors.map PortDescriptor.name)
        selector.2.memoryRegionCount.toNat).bind fun attached =>
      (readPayload m.data selector.1).bind fun payloadData =>
        match routeSize m.descriptors.length selector.1 payloadData.len with
        | none => .error (.fault .overflow)
        | some size =>
          .ok ⟨selector.2, payloadData,
            { header :=
                { m.header with
                  bits := machMsghBitsSet machMsgTypeCopySend 0 0 machMsghBitsComplex
                  size := size
                  localPort := machPortNull }
              descriptors := m.descriptors.map fun d => { d with disposition := machMsgTypeCopySend }
              data := m.data },
            attached.1, attached.2⟩
  else none

/-- A message of an incompatible version is given up, with nobody to answer. -/
theorem new_deliver (k : Kernel) (codec : Codec) {ours version : Version} (msg : Message)
    (heap : Nat → UInt8) (hv : ours.compatible version = false) (f : Port → Port) (header : Header)
    (trailer : List UInt8) :
    new k codec ours (deliver f header trailer (encodeInner codec version msg heap).2) =
      some (.error (.error (.versionMismatch version none))) := by
  obtain ⟨pad, pad', -, -, hdata⟩ := encodeIov_layout codec version msg heap
  have hall : (deliver f header trailer (encodeInner codec version msg heap).2).descriptors.all
      (fun d => d.type == machMsgPortDescriptor) = true := by
    simp [deliver, encodeInner]
  have hversion : readVersion ours (deliver f header trailer
      (encodeInner codec version msg heap).2).data =
      .error (.error (.versionMismatch version none)) := by
    simp only [deliver, encodeInner, hdata, layout, List.append_assoc]
    rw [readVersion_append, hv]
    rfl
  rw [new, if_pos hall, hversion]
  rfl

end Ipmb.Mach
