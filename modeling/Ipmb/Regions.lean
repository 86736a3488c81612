import Ipmb.Attachments
import Ipmb.Counters

namespace Ipmb.Regions

open Messages Buffers Encoding Faults Decoding Attachments Counters

/-- A shared memory object, by the order of creation. -/
abbrev File := Nat

/-- What every process that maps the object sees in front of the buffer. -/
structure Header where
  refCount : BitVec 32
  bufferSize : Nat

/-- `HEADER_REFERENCE_COUNT + HEADER_BUFFER_SIZE`. -/
def headerLength : Nat := 4 + 8

/-- `ref_count_inner`, when it changes the count. -/
def Header.refCountInner (val : Int) (h : Header) : Header :=
  { h with refCount := h.refCount + BitVec.ofInt 32 val }

/-- A datagram in the queue of a socket, and the memory regions of its message. -/
structure Parcel where
  datagram : Datagram
  regions : List File

/-- The values that own memory regions, and the calls in progress that do: `send`, which
has counted the first `n` regions for the receiver, `send` after an error, which has taken
back the first `n` of them, and `from_local`, which has opened `done`, made a region of `half`
without giving up the sender's count of it, and has yet to open `todo`. -/
inductive Item where
  | region (f : File)
  | draft (regions : List File)
  | message (msg : EncodedMessage) (regions : List File)
  | counting (msg : EncodedMessage) (regions : List File) (socket n : Nat)
  | uncounting (msg : EncodedMessage) (regions : List File) (n : Nat)
  | opening (got : EncodedMessage) (todo : List File) (half : Option File) (done : List File)

/-- The `MemoryRegion`s among them. -/
def Item.handles : Item → List File
  | .region f => [f]
  | .draft regions | .message _ regions => regions
  | .counting _ regions _ _ | .uncounting _ regions _ => regions
  | .opening _ _ half done => half.toList ++ done

/-- What has been counted for a receiver that does not have its region yet. -/
def Item.transit : Item → List File
  | .counting _ regions _ n => regions.take n
  | .uncounting _ regions n => regions.drop n
  | .opening _ todo half _ => half.toList ++ todo
  | _ => []

def Item.units (i : Item) : List File := i.handles ++ i.transit

/-- The memory objects, the processes with what they own, and the sockets. `lost` lists what
is counted for somebody who will never give it up. -/
structure State where
  headers : List Header
  items : List (Nat × Item)
  flight : List (Nat × Parcel)
  lost : List File

def State.counts (s : State) : List (BitVec 32) := s.headers.map Header.refCount

def State.sizes (s : State) : List Nat := s.headers.map Header.bufferSize

def itemUnits (x : Nat × Item) : List File := x.2.units

def parcelUnits (x : Nat × Parcel) : List File := x.2.regions

/-- What is counted for somebody who may give it up again. -/
def State.live (s : State) : List File := s.items.flatMap itemUnits ++ s.flight.flatMap parcelUnits

/-- All that is counted. -/
def State.units (s : State) : List File := s.live ++ s.lost

def State.become (s : State) (j : Nat) (new : List (Nat × Item)) : State :=
  { s with items := splice s.items j new }

def State.refCountInner (s : State) (f : File) (val : Int) : State :=
  { s with headers := s.headers.modify f (Header.refCountInner val) }

inductive Action where
  | new (p size : Nat)
  | clone (j : Nat)
  | drop (j : Nat)
  | write (p : Nat)
  | attach (j k : Nat)
  | unpack (j : Nat)
  | encode (j : Nat) (msg : Message) (heap : Heap)
  | send (j socket : Nat)
  | count (j : Nat)
  | sendmsg (j : Nat) (f : RawFd → RawFd)
  | refuse (j : Nat)
  | uncount (j : Nat)
  | fromLocal (p j : Nat) (heap : Heap)
  | fromObject (j : Nat)
  | handOver (j : Nat)
  | finish (j : Nat)
  | close (socket : Nat)
  | die (p : Nat)

variable (k : Kernel) (codec : Codec) (versions : Nat → Version)

/-- `sendmsg` has taken the message. -/
def State.deliver (s : State) (j p : Nat) (msg : EncodedMessage) (regions : List File) (socket : Nat)
    (f : RawFd → RawFd) : Option State :=
  if msg.objects.length + regions.length ≤ scmMaxFd then
    (transmit k f msg).map fun d =>
      { s.become j [(p, .message msg regions)] with flight := s.flight ++ [(socket, ⟨d, regions⟩)] }
  else none

/-- `recvmsg` has taken the datagram. An error leaves it at that; otherwise the last objects
become memory regions, as many as the selector says, which is never more than there are. -/
def State.receive (s : State) (p j : Nat) (parcel : Parcel) :
    Except (Error RawFd) EncodedMessage → Option State
  | .ok got =>
    let n := got.memoryRegions.length
    let rest := parcel.regions.length - n
    if n ≤ parcel.regions.length then
      some { s with
        items := (p, .opening got (parcel.regions.drop rest) none []) :: s.items
        flight := splice s.flight j []
        lost := parcel.regions.take rest ++ s.lost }
    else none
  | .error _ => some { s with flight := splice s.flight j [], lost := parcel.regions ++ s.lost }

def step (s : State) : Action → Option State
  | .new p size =>
    if headerLength + size < 2 ^ 64 then
      some { s with headers := s.headers ++ [⟨1, size⟩], items := (p, .region s.headers.length) :: s.items }
    else none
  | .clone j =>
    match s.items[j]? with
    | some (p, .region f) => some ((s.become j [(p, .region f), (p, .region f)]).refCountInner f 1)
    | _ => none
  | .drop j =>
    match s.items[j]? with
    | some (_, .region f) => some ((s.become j []).refCountInner f (-1))
    | _ => none
  | .write p => some { s with items := (p, .draft []) :: s.items }
  | .attach j i =>
    match s.items[i]? with
    | some (p, .region f) =>
      match (splice s.items i [])[j]? with
      | some (q, .draft regions) =>
        if p = q then some ((s.become i []).become j [(p, .draft (regions ++ [f]))]) else none
      | _ => none
    | _ => none
  | .unpack j =>
    match s.items[j]? with
    | some (p, .draft regions) | some (p, .message _ regions) =>
      some (s.become j (regions.map fun f => (p, .region f)))
    | _ => none
  | .encode j msg heap =>
    match s.items[j]? with
    | some (p, .draft regions) =>
      if msg.memoryRegions.length = regions.length then
        some (s.become j [(p, .message (intoEncoded codec (versions p) (counted msg) heap) regions)])
      else none
    | _ => none
  | .send j socket =>
    match s.items[j]? with
    | some (p, .message msg regions) => some (s.become j [(p, .counting msg regions socket 0)])
    | _ => none
  | .count j =>
    match s.items[j]? with
    | some (p, .counting msg regions socket n) =>
      (regions[n]?).map fun f =>
        (s.become j [(p, .counting msg regions socket (n + 1))]).refCountInner f 1
    | _ => none
  | .sendmsg j f =>
    match s.items[j]? with
    | some (p, .counting msg regions socket n) =>
      if n = regions.length then s.deliver k j p msg regions socket f else none
    | _ => none
  | .refuse j =>
    match s.items[j]? with
    | some (p, .counting msg regions _ n) =>
      if n = regions.length then some (s.become j [(p, .uncounting msg regions 0)]) else none
    | _ => none
  | .uncount j =>
    match s.items[j]? with
    | some (p, .uncounting msg regions n) =>
      (regions[n]?).map fun f =>
        (s.become j [(p, .uncounting msg regions (n + 1))]).refCountInner f (-1)
    | _ => none
  | .fromLocal p j heap =>
    match s.flight[j]? with
    | some (socket, parcel) =>
      -- the oldest datagram of the socket
      if (s.flight.take j).all (fun x => x.1 != socket) then
        (outcome (fromLocal k codec (versions p) heap (some parcel.datagram))).bind (s.receive p j parcel)
      else none
    | none => none
  | .fromObject j =>
    match s.items[j]? with
    | some (p, .opening got (f :: todo) none done) =>
      some ((s.become j [(p, .opening got todo (some f) done)]).refCountInner f 1)
    | _ => none
  | .handOver j =>
    match s.items[j]? with
    | some (p, .opening got todo (some f) done) =>
      some ((s.become j [(p, .opening got todo none (done ++ [f]))]).refCountInner f (-1))
    | _ => none
  | .finish j =>
    match s.items[j]? with
    | some (p, .uncounting msg regions n) =>
      if n = regions.length then some (s.become j [(p, .message msg regions)]) else none
    | some (p, .opening got [] none done) => some (s.become j [(p, .message got done)])
    | _ => none
  | .close socket => some { s with
      flight := s.flight.filter fun x => !(x.1 == socket)
      lost := (s.flight.filter fun x => x.1 == socket).flatMap parcelUnits ++ s.lost }
  | .die p => some { s with
      items := s.items.filter fun x => !(x.1 == p)
      lost := (s.items.filter fun x => x.1 == p).flatMap itemUnits ++ s.lost }

def start : State := ⟨[], [], [], []⟩

end Ipmb.Regions
