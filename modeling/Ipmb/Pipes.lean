import Ipmb.Frames
import Ipmb.Hub
import Ipmb.Windows
import Mathlib.Logic.Function.Basic

namespace Ipmb.Pipes

open Function Bytes Frames
open Windows (Handle)
open Hub (TryRecv swapRemove)

inductive WinError where
  | pipeConnected
  | pipeListening
  | ioPending
  | ioIncomplete
  | moreData
  | abandonedWait0
  | timeout
  | waitTimeout
  | other (code : Nat)
deriving DecidableEq

/-- What a call returns: `TRUE`, or `FALSE` with the error of `GetLastError`. -/
abbrev Answer := Option WinError

inductive NamedPipeStatus where
  | free
  | readable
  | pending
  | ready
  | offline
deriving DecidableEq

/-- `buffer` is the allocation of the vector, whose length stays 0 here. -/
structure NamedPipe where
  handle : Handle
  status : NamedPipeStatus
  buffer : List UInt8
  messageSize : Nat
deriving DecidableEq

/-- The allocations of a vector without elements. Growing keeps the bytes that are there, and the
capacity grows as `Vec` does it. -/
structure Alloc where
  withCapacity : Nat → List UInt8
  reserve : List UInt8 → Nat → List UInt8
  capacity n : (withCapacity n).length = n
  grows b n : b.length < n → (reserve b n).length = max (2 * b.length) n
  keeps b n : b <+: reserve b n

/-- The part of the buffer that a `ReadFile` may fill. -/
structure ReadRequest where
  offset : Nat
  length : Nat
deriving DecidableEq

/-- What `read` does: the pipe after it, the `ReadFile` that the system works on, and the message
with its size. -/
structure ReadOutcome where
  pipe : NamedPipe
  request : Option ReadRequest
  message : Option (List UInt8 × Nat)

/-- `NamedPipe::new` -/
def NamedPipe.new (alloc : Alloc) (handle : Handle) (status : NamedPipeStatus) : NamedPipe :=
  ⟨handle, status, alloc.withCapacity 64, 0⟩

/-- `NamedPipe::listen`, with the answer of `ConnectNamedPipe`; `none` is `unreachable!`. -/
def NamedPipe.listen (pipe : NamedPipe) (answer : Answer) : Option NamedPipe :=
  match pipe.status with
  | .free =>
    some { pipe with
      status := match answer with
        | some .pipeConnected => .readable
        | none | some .pipeListening | some .ioPending => .pending
        | some _ => .offline }
  | .pending | .offline => some pipe
  | .readable | .ready => none

/-- The call of `ReadFile`: the length is a `u32`. -/
def NamedPipe.readFile (pipe : NamedPipe) (answer : Answer) : ReadOutcome where
  pipe := { pipe with
    status := match answer with
      | none | some .moreData | some .ioPending | some .ioIncomplete => .pending
      | some _ => .offline }
  request := some ⟨pipe.messageSize, (pipe.buffer.length - pipe.messageSize) % 2 ^ 32⟩
  message := none

/-- `NamedPipe::read`, with the answer of `ReadFile`; `none` is `unreachable!`. -/
def NamedPipe.read (alloc : Alloc) (pipe : NamedPipe) (answer : Answer) : Option ReadOutcome :=
  match pipe.status with
  | .readable => some (pipe.readFile answer)
  | .pending | .offline => some ⟨pipe, none, none⟩
  | .ready =>
    let pipe := { pipe with status := .readable }
    if 0 < pipe.messageSize then
      some ⟨{ pipe with buffer := alloc.withCapacity 64, messageSize := 0 }, none,
        some (pipe.buffer, pipe.messageSize)⟩
    else some (pipe.readFile answer)
  | .free => none

/-- `bus_receiver` is there as long as the channel is connected. -/
structure IoHub where
  busReceiver : Bool
  pipes : List NamedPipe
  listeningPipe : Option NamedPipe
deriving DecidableEq

/-- A valid handle is never 0. -/
def waker : Handle := 0

def IoHub.forBusController (listeningPipe : NamedPipe) : IoHub := ⟨true, [], some listeningPipe⟩

def IoHub.forEndpoint (pipe : NamedPipe) : IoHub := ⟨false, [pipe], none⟩

/-- Where `recv` is: not called, in the loop of `listen`, before `try_recv`, in the loop over the
pipes, in `GetQueuedCompletionStatus`, or at an `unreachable!`. -/
inductive Pc where
  | idle
  | listening
  | polling
  | reading (i : Nat)
  | waiting
  | panicked
deriving DecidableEq

/-- `IoMultiplexing::create_instance`; the handle is a new one. -/
def createInstance (alloc : Alloc) (fresh : Handle) : NamedPipe := .new alloc fresh .free

/-- The listening pipe is connected: a new instance takes its place. -/
def IoHub.connected (alloc : Alloc) (hub : IoHub) (pipe : NamedPipe) (fresh : Handle) : IoHub :=
  { hub with
    pipes := hub.pipes ++ [{ pipe with status := .readable }]
    listeningPipe := some (createInstance alloc fresh) }

/-- One turn of the loop in `IoHub::listen`. -/
def IoHub.listen (alloc : Alloc) (hub : IoHub) (answer : Answer) (fresh : Handle) : IoHub × Pc :=
  match hub.listeningPipe with
  | none => (hub, .polling)
  | some pipe =>
    match pipe.listen answer with
    | none => (hub, .panicked)
    | some pipe =>
      match pipe.status with
      | .readable => (hub.connected alloc pipe fresh, .listening)
      | .pending => ({ hub with listeningPipe := some pipe }, .polling)
      | .offline => ({ hub with listeningPipe := some (createInstance alloc fresh) }, .listening)
      | .free | .ready => (hub, .panicked)

/-- A message from the channel is returned. -/
def IoHub.tryRecv (hub : IoHub) (r : TryRecv Unit) : IoHub × Pc :=
  if hub.busReceiver then
    match r with
    | .message _ => (hub, .idle)
    | .empty => (hub, .reading 0)
    | .disconnected => ({ hub with busReceiver := false }, .reading 0)
  else (hub, .reading 0)

/-- One turn of the loop over the pipes, whose pipe `read` has been called for. -/
def IoHub.readTurn (hub : IoHub) (i : Nat) (o : ReadOutcome) : IoHub × Pc :=
  let hub := { hub with pipes := hub.pipes.set i o.pipe }
  match o.message with
  | some _ => (hub, .idle)
  | none =>
    match o.pipe.status with
    | .pending => (hub, .reading (i + 1))
    | .offline => ({ hub with pipes := swapRemove hub.pipes i }, .reading i)
    | .free | .readable | .ready => (hub, .panicked)

/-- Behind the loop over the pipes; `Error::Disconnect` is returned if nothing can come. -/
def IoHub.afterPipes (hub : IoHub) : Pc :=
  if !hub.busReceiver && hub.listeningPipe.isNone && hub.pipes.isEmpty then .idle else .waiting

/-- The first pipe with this handle. -/
def modifyPipe (pipes : List NamedPipe) (key : Handle) (f : NamedPipe → NamedPipe) : List NamedPipe :=
  pipes.modify (pipes.findIdx (·.handle == key)) f

/-- What the completion of a read does to its pipe. -/
def NamedPipe.completed (alloc : Alloc) (n : Nat) (answer : Answer) (pipe : NamedPipe) : NamedPipe :=
  match answer with
  | none => { pipe with messageSize := pipe.messageSize + n, status := .ready }
  | some .moreData =>
    { pipe with
      messageSize := pipe.messageSize + n
      buffer := alloc.reserve pipe.buffer (pipe.buffer.length * 2)
      status := .readable }
  | some .ioPending | some .ioIncomplete => pipe
  | some _ => { pipe with status := .offline }

/-- What the completion of `ConnectNamedPipe` does. -/
def IoHub.listened (alloc : Alloc) (hub : IoHub) (pipe : NamedPipe) (answer : Answer) (fresh : Handle) :
    IoHub :=
  match answer with
  | none | some .pipeConnected => hub.connected alloc pipe fresh
  | some .pipeListening | some .ioPending => hub
  | some _ => { hub with listeningPipe := some (createInstance alloc fresh) }

/-- `recv` behind `GetQueuedCompletionStatus`, which has set `key` and `n`. -/
def IoHub.waited (alloc : Alloc) (hub : IoHub) (answer : Answer) (key : Handle) (n : Nat) (fresh : Handle) :
    IoHub × Pc :=
  match answer with
  | some .abandonedWait0 => (hub, .listening)
  | some .timeout | some .waitTimeout => (hub, .idle)
  | answer =>
    if key = waker then (hub, .listening)
    else
      match hub.listeningPipe.filter (·.handle == key) with
      | some pipe => (hub.listened alloc pipe answer fresh, .listening)
      | none =>
        ({ hub with pipes := modifyPipe hub.pipes key (·.completed alloc n answer) }, .listening)

/-- What `WriteFile` can write at once: the length is a `u32`. -/
abbrev Message := { bytes : List UInt8 // bytes.length < 2 ^ 32 }

/-- A packet of the completion port for the operation on a handle that has come to an end. -/
structure Packet where
  size : Nat
  answer : Answer
deriving DecidableEq

/-- The system's side of a pipe: what has been written to it, what has not been read yet, whether
`ConnectNamedPipe` is under way, the reads under way, and the packets not taken yet. -/
structure Channel where
  written : List Message := []
  queue : List (List UInt8) := []
  connecting : Bool := false
  reads : List ReadRequest := []
  packets : List Packet := []

def Channel.messages (c : Channel) : List (List UInt8) := c.written.map Subtype.val

/-- `passed` is what `EncodedMessage::new` has been given, for each pipe. -/
structure State where
  hub : IoHub
  pc : Pc
  channels : Handle → Channel
  passed : Handle → List (List UInt8 × Nat)

/-- What `GetQueuedCompletionStatus` returns with. -/
inductive Event where
  | packet (key : Handle)
  | wake
  | expired (error : WinError)
deriving DecidableEq

/-- A step of `recv`, with what the system answers, or one of the system and the writers. Any handle
that is not in use may be that of a new instance. -/
inductive Action where
  | recv
  | listen (answer : Answer) (fresh : Handle)
  | tryRecv (r : TryRecv Unit)
  | read (answer : Answer)
  | wait (event : Event) (fresh : Handle)
  | write (handle : Handle) (message : Message)
  | connect (handle : Handle) (answer : Answer)
  | complete (handle : Handle)
  | fail (handle : Handle) (error : WinError)

/-- The handles that are open. -/
def IoHub.handles (hub : IoHub) : List Handle := (hub.listeningPipe.toList ++ hub.pipes).map NamedPipe.handle

/-- The handle can be that of a new instance. -/
def State.Unused (s : State) (fresh : Handle) : Prop := fresh ≠ waker ∧ fresh ∉ s.hub.handles

instance (s : State) (fresh : Handle) : Decidable (s.Unused fresh) := inferInstanceAs (Decidable (_ ∧ _))

def State.advance (s : State) (next : IoHub × Pc) : State := { s with hub := next.1, pc := next.2 }

/-- `ConnectNamedPipe` is called for the listening pipe if it is free, and may be under way then. -/
def State.connecting (s : State) (answer : Answer) : Handle → Channel :=
  match s.hub.listeningPipe with
  | some ⟨handle, .free, _, _⟩ =>
    match answer with
    | none | some .pipeListening | some .ioPending =>
      update s.channels handle { s.channels handle with connecting := true }
    | some _ => s.channels
  | _ => s.channels

/-- The read is under way unless it has failed, and the message is given to `EncodedMessage::new`. -/
def State.readAt (s : State) (i : Nat) (o : ReadOutcome) : State :=
  let next := s.hub.readTurn i o
  let c := s.channels o.pipe.handle
  { s with
    hub := next.1
    pc := next.2
    channels := update s.channels o.pipe.handle
      { c with reads := c.reads ++ if o.pipe.status = .pending then o.request.toList else [] }
    passed := update s.passed o.pipe.handle (s.passed o.pipe.handle ++ o.message.toList) }

/-- The system serves a read: it fills the buffer and puts a packet into the completion port. -/
def State.complete (s : State) (handle : Handle) : Option State :=
  let c := s.channels handle
  match c.reads with
  | [] => none
  | r :: reads =>
    (take r.length c.queue).map fun (fragment, queue) =>
      { s with
        hub := { s.hub with
          pipes := modifyPipe s.hub.pipes handle fun pipe =>
            { pipe with buffer := writeAt pipe.buffer r.offset fragment.data } }
        channels := update s.channels handle { c with
          queue := queue
          reads := reads
          packets := c.packets ++
            [⟨fragment.data.length, if fragment.more then some .moreData else none⟩] } }

def step (alloc : Alloc) (s : State) : Action → Option State
  | .recv => if s.pc = .idle then some { s with pc := .listening } else none
  | .listen answer fresh =>
    if s.pc = .listening ∧ s.Unused fresh then
      some { s.advance (s.hub.listen alloc answer fresh) with channels := s.connecting answer }
    else none
  | .tryRecv r =>
    if s.pc = .polling then some (s.advance (s.hub.tryRecv r)) else none
  | .read answer =>
    match s.pc with
    | .reading i =>
      match s.hub.pipes[i]? with
      | none => some { s with pc := s.hub.afterPipes }
      | some pipe =>
        match pipe.read alloc answer with
        | none => some { s with pc := .panicked }
        | some o => some (s.readAt i o)
    | _ => none
  | .wait event fresh =>
    if s.pc = .waiting ∧ s.Unused fresh then
      match event with
      | .wake => some (s.advance (s.hub.waited alloc none waker 0 fresh))
      | .expired error => some (s.advance (s.hub.waited alloc (some error) waker 0 fresh))
      | .packet key =>
        match (s.channels key).packets with
        | [] => none
        | packet :: packets =>
          some { s.advance (s.hub.waited alloc packet.answer key packet.size fresh) with
            channels := update s.channels key { s.channels key with packets := packets } }
    else none
  | .write handle message =>
    let c := s.channels handle
    if handle ∈ s.hub.handles then
      some { s with
        channels := update s.channels handle { c with
          written := c.written ++ [message]
          queue := c.queue ++ [message.val] } }
    else none
  | .connect handle answer =>
    let c := s.channels handle
    if c.connecting then
      some { s with
        channels := update s.channels handle { c with
          connecting := false
          packets := c.packets ++ [⟨0, answer⟩] } }
    else none
  | .complete handle => s.complete handle
  | .fail handle error =>
    let c := s.channels handle
    match c.reads with
    | [] => none
    | _ :: reads =>
      some { s with
        channels := update s.channels handle { c with
          reads := reads
          packets := c.packets ++ [⟨0, some error⟩] } }

/-- No pipe fails by this step. -/
def Action.Sound : Action → Prop
  | .listen answer _ => answer ∈ [none, some .pipeConnected, some .pipeListening, some .ioPending]
  | .read answer => answer ∈ [none, some .moreData, some .ioPending, some .ioIncomplete]
  | .connect _ answer => answer ∈ [none, some .pipeConnected]
  | .fail _ _ => False
  | _ => True

/-- The state after `register`, or in `join` before its first `recv`. -/
inductive Opened (alloc : Alloc) : State → Prop
  | busController (handle : Handle) (valid : handle ≠ waker) :
    Opened alloc ⟨.forBusController (.new alloc handle .free), .idle, fun _ => {}, fun _ => []⟩
  | endpoint (handle : Handle) (valid : handle ≠ waker) :
    Opened alloc ⟨.forEndpoint (.new alloc handle .readable), .idle, fun _ => {}, fun _ => []⟩

end Ipmb.Pipes
