import Ipmb.Mach

namespace Ipmb.Mach

open Messages Bytes Buffers Encoding Faults Decoding Reception RoundTrip

/-- `MACH_MSG_TYPE_PORT_SEND`, the disposition of a right that has been received. -/
def machMsgTypePortSend : Nat := 17

def EncodedMessage.attachments (msg : EncodedMessage) : List Port :=
  msg.objects ++ msg.memoryRegions.map MemoryRegion.obj

/-- The bytes that `payload_data` points to. -/
def EncodedMessage.payload (msg : EncodedMessage) : List UInt8 :=
  (readAt msg.machMsg.data msg.payloadData.start msg.payloadData.len).getD []

/-- What the kernel takes of a buffer: `msgh_size` bytes. -/
def MachMsg.sent (m : MachMsg) : MachMsg :=
  { m with data := m.data.take (m.header.size - baseMessageSize - m.descriptors.length * portDescriptorSize) }

/-- What the receiver finds in its buffer: the descriptors name its own rights, and the data
part is followed by the trailer and the rest of the buffer. -/
def arrive (names : List Port) (header : Header) (trailer : List UInt8) (m : MachMsg) : MachMsg :=
  ⟨header, m.descriptors.zipWith
    (fun d name => { d with name := name, disposition := machMsgTypePortSend }) names, m.data ++ trailer⟩

def copySend (name : Port) : PortDescriptor := ⟨name, machMsgTypeCopySend, machMsgPortDescriptor⟩

/-- The fields of a message are what its buffer says: its data part, up to `msgh_size`, is `body`. -/
structure Shaped (codec : Codec) (version : Version) (payload body : List UInt8) (msg : EncodedMessage) :
    Prop where
  data : ∃ sel pad pad', sel.length + pad.length = align4 sel.length ∧
    payload.length + pad'.length = align4 payload.length ∧ codec.decode sel = some msg.selector ∧
    msg.payloadData = ⟨12 + align4 sel.length, payload.length⟩ ∧
    body = Encoding.layout version sel payload pad pad'
  buffer : ∃ rest, msg.machMsg.data = body ++ rest
  descriptors : msg.machMsg.descriptors = msg.attachments.map copySend
  size : msg.machMsg.header.size =
    baseMessageSize + msg.attachments.length * portDescriptorSize + body.length
  regions : msg.selector.memoryRegionCount.toNat = msg.memoryRegions.length
  small : msg.machMsg.header.size < 2 ^ 32

section Shape

variable {codec : Codec} {version ours : Version} {payload body : List UInt8} {msg : EncodedMessage}

theorem intoEncoded_shaped {msg : Message} (heap : Nat → UInt8)
    (hdec : codec.decode (codec.encode msg.selector) = some msg.selector)
    (hcount : msg.selector.memoryRegionCount.toNat = msg.memoryRegions.length)
    (hlt : (intoEncoded codec version msg heap).machMsg.header.size < 2 ^ 32) :
    Shaped codec version msg.payload (intoEncoded codec version msg heap).machMsg.data
      (intoEncoded codec version msg heap) := by
  obtain ⟨pad, pad', hpad, hpad', hlayout⟩ := encodeIov_layout codec version msg heap
  have hattach : (intoEncoded codec version msg heap).attachments = msg.attachments := rfl
  have hle := le_align4 (codec.encode msg.selector).length
  have hle' := le_align4 msg.payload.length
  refine ⟨⟨codec.encode msg.selector, pad, pad', ?_, ?_, hdec, ?_, hlayout⟩,
    ⟨[], (List.append_nil _).symm⟩, ?_,
    ?_, hcount, hlt⟩
  · omega
  · omega
  · simp only [intoEncoded, encodeInner, encodeIov, Span.mk.injEq, and_true]
    omega
  · rw [hattach]
    rfl
  · rw [hattach]
    rfl

/-- No byte behind the message is sent along with it. -/
theorem Shaped.sent_data (h : Shaped codec version payload body msg) : msg.machMsg.sent.data = body := by
  obtain ⟨rest, hrest⟩ := h.buffer
  have hlen : msg.machMsg.header.size - baseMessageSize - msg.machMsg.descriptors.length * portDescriptorSize =
      body.length := by
    rw [h.size, h.descriptors, List.length_map]
    omega
  rw [MachMsg.sent, hlen, hrest, List.take_left]

theorem zipWith_copySend {old names : List Port} (hlen : names.length = old.length) :
    (old.map copySend).zipWith (fun d name => { d with name := name, disposition := machMsgTypePortSend })
      names = names.map fun name => ⟨name, machMsgTypePortSend, machMsgPortDescriptor⟩ := by
  rw [List.zipWith_map_left]
  induction names generalizing old with
  | nil => simp
  | cons name names ih =>
    obtain _ | ⟨n, old⟩ := old
    · cases hlen
    · rw [List.zipWith_cons_cons, ih (Nat.succ.inj hlen), List.map_cons]
      rfl

theorem mapM_fromObject_obj {k : Kernel} {names : List Port} {regions : List MemoryRegion}
    (h : names.mapM (fromObject k) = .ok regions) : regions.map MemoryRegion.obj = names := by
  induction names generalizing regions with
  | nil =>
    cases h
    rfl
  | cons name names ih =>
    rw [List.mapM_cons, fromObject] at h
    cases hname : k.mapHeader name with
    | none =>
      rw [hname] at h
      cases h
    | some size =>
      cases hrest : names.mapM (fromObject k) with
      | error e =>
        rw [hname, hrest] at h
        cases h
      | ok rest =>
        rw [hname, hrest] at h
        cases h
        rw [List.map_cons, ih hrest]

theorem splitObjects_spec {k : Kernel} {names : List Port} {count : Nat}
    {attached : List Port × List MemoryRegion} (h : splitObjects k names count = .ok attached) :
    attached.1 ++ attached.2.map MemoryRegion.obj = names ∧ attached.2.length = count := by
  rw [splitObjects] at h
  split at h
  · cases h
  · rename_i hle
    cases hregions : (names.drop (names.length - count)).mapM (fromObject k) with
    | error e =>
      rw [hregions] at h
      cases h
    | ok regions =>
      rw [hregions] at h
      cases h
      have hkeys := mapM_fromObject_obj hregions
      refine ⟨?_, ?_⟩
      · rw [hkeys, List.take_append_drop]
      · have hlen := congrArg List.length hkeys
        rw [List.length_map, List.length_drop] at hlen
        simp only
        omega

/-- What the receiver makes of a message whose rights have got these names. -/
def received (msg : EncodedMessage) (names : List Port) (header : Header) (body trailer : List UInt8)
    (attached : List Port × List MemoryRegion) : EncodedMessage :=
  { msg with
    machMsg :=
      { header :=
          { header with
            bits := machMsghBitsSet machMsgTypeCopySend 0 0 machMsghBitsComplex
            size := msg.machMsg.header.size
            localPort := machPortNull }
        descriptors := names.map copySend
        data := body ++ trailer }
    objects := attached.1
    memoryRegions := attached.2 }

/-- What may follow the message is not looked at. -/
theorem Shaped.reads (h : Shaped codec version payload body msg) (trailer : List UInt8) :
    ∃ sel : List UInt8, readSelector codec (body ++ trailer) = .ok (sel.length, msg.selector) ∧
      readPayload (body ++ trailer) sel.length = .ok msg.payloadData ∧ msg.payloadData.len = payload.length ∧
      routeSize msg.attachments.length sel.length payload.length = some msg.machMsg.header.size ∧
      readAt (body ++ trailer) msg.payloadData.start msg.payloadData.len = some payload := by
  obtain ⟨sel, pad, pad', hpad, hpad', hdec, hspan, rfl⟩ := h.data
  have hsmall := h.small
  have hsize := h.size
  have hbase : baseMessageSize = 28 := rfl
  rw [hsize] at hsmall
  rw [Encoding.length_layout] at hsmall hsize
  have hword := readWord_append (versionBytes version) (sel ++ pad ++ leBytes 4 payload.length ++ payload ++
    pad' ++ trailer) 4 sel.length 4 rfl (by omega)
  have hread := readAt_append (versionBytes version ++ leBytes 4 sel.length) sel
    (pad ++ leBytes 4 payload.length ++ payload ++ pad' ++ trailer) 8 sel.length rfl rfl
  have hfront : (versionBytes version ++ leBytes 4 sel.length ++ sel ++ pad).length = 8 + align4 sel.length := by
    simp only [List.length_append, length_leBytes, versionBytes, List.length_cons, List.length_nil]
    omega
  have hlen := readWord_append (versionBytes version ++ leBytes 4 sel.length ++ sel ++ pad)
    (payload ++ pad' ++ trailer) 4 payload.length _ hfront (by omega)
  have hpay := readAt_append (versionBytes version ++ leBytes 4 sel.length ++ sel ++ pad ++
    leBytes 4 payload.length) payload (pad' ++ trailer) (12 + align4 sel.length) payload.length
    (by rw [List.length_append, hfront, length_leBytes]; omega) rfl
  simp only [List.append_assoc] at hword hread hlen hpay
  refine ⟨sel, ?_, ?_, by rw [hspan], ?_, ?_⟩
  · simp only [readSelector, Encoding.layout, List.append_assoc]
    rw [hword, Except.bind, hread]
    simp only [hdec]
  · rw [readPayload, align4U32_eq_some (by omega)]
    simp only [Encoding.layout, List.append_assoc]
    rw [hlen, Except.bind, hspan]
    have hroom : 8 + align4 sel.length + 4 + payload.length ≤ (versionBytes version ++ (leBytes 4 sel.length ++
        (sel ++ (pad ++ (leBytes 4 payload.length ++ (payload ++ (pad' ++ trailer))))))).length := by
      simp only [List.length_append, length_leBytes, versionBytes, List.length_cons, List.length_nil]
      omega
    rw [if_pos hroom, Nat.add_right_comm]
  · rw [routeSize, align4U32_eq_some (by omega), align4U32_eq_some (by omega)]
    simp only [Option.bind_some]
    rw [if_pos (by omega), hsize]
    congr 1
    omega
  · rw [hspan]
    simp only [Encoding.layout, List.append_assoc]
    exact hpay

/-- The payload is where `payload_data` points to. -/
theorem Shaped.payload_eq (h : Shaped codec version payload body msg) : msg.payload = payload := by
  obtain ⟨rest, hrest⟩ := h.buffer
  obtain ⟨sel, -, -, -, -, hread⟩ := h.reads rest
  rw [EncodedMessage.payload, hrest, hread, Option.getD_some]

/-- Whatever relays a message has passed, its receiver finds what its sender has put there, and
a receiver of another version gives it up. -/
theorem Shaped.new_arrive (h : Shaped codec version payload body msg) (k : Kernel) {names : List Port}
    (hlen : names.length = msg.attachments.length) (header : Header) (trailer : List UInt8) :
    new k codec ours (arrive names header trailer msg.machMsg.sent) = some
      (if ours.compatible version = true then
        (splitObjects k names msg.selector.memoryRegionCount.toNat).map
          (received msg names header body trailer)
      else .error (.error (.versionMismatch version none))) := by
  have hdescriptors : msg.machMsg.sent.descriptors = msg.attachments.map copySend := h.descriptors
  have harrive : arrive names header trailer msg.machMsg.sent =
      ⟨header, names.map fun name => ⟨name, machMsgTypePortSend, machMsgPortDescriptor⟩, body ++ trailer⟩ := by
    rw [arrive, hdescriptors, zipWith_copySend hlen, h.sent_data]
  have hversion : readVersion ours (body ++ trailer) =
      if ours.compatible version = true then .ok version
      else .error (.error (.versionMismatch version none)) := by
    obtain ⟨sel, pad, pad', -, -, -, -, rfl⟩ := h.data
    simp only [Encoding.layout, List.append_assoc]
    exact readVersion_append _
  obtain ⟨sel, hselector, hpayload, hpaylen, hroute, -⟩ := h.reads trailer
  rw [harrive, new, if_pos (by simp), hversion]
  split
  · rw [Except.bind, hselector, Except.bind]
    simp only [List.map_map]
    have hnames : names.map (PortDescriptor.name ∘ fun name => (⟨name, machMsgTypePortSend,
        machMsgPortDescriptor⟩ : PortDescriptor)) = names := List.map_id names
    rw [hnames]
    cases splitObjects k names msg.selector.memoryRegionCount.toNat with
    | error e => rfl
    | ok attached =>
      simp only [Except.bind, Except.map, hpayload, hpaylen]
      rw [List.length_map, hlen, hroute]
      rfl
  · rfl

theorem Shaped.receive (h : Shaped codec version payload body msg) {k : Kernel} {names : List Port}
    {attached : List Port × List MemoryRegion} (hlen : names.length = msg.attachments.length)
    (hsplit : splitObjects k names msg.selector.memoryRegionCount.toNat = .ok attached) (header : Header)
    (trailer : List UInt8) :
    Shaped codec version payload body (received msg names header body trailer attached) ∧
      (received msg names header body trailer attached).attachments = names := by
  obtain ⟨hnames, hregions⟩ := splitObjects_spec hsplit
  have hattach : (received msg names header body trailer attached).attachments = names := hnames
  refine ⟨⟨h.data, ⟨trailer, rfl⟩, ?_, ?_, hregions.symm, h.small⟩, hattach⟩
  · rw [hattach]
    rfl
  · rw [hattach, hlen]
    exact h.size

end Shape

end Ipmb.Mach
