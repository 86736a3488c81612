import Ipmb.Custody
import Ipmb.MacSend
import Ipmb.MachFormat
import Ipmb.Run

namespace Ipmb.MachRights

open Messages Mach Custody
open Encoding (Codec Message)
open Decoding (Kernel)
open MacSend (addressed)
open Function (update)

abbrev Task := Nat

/-- `MACH_PORT_DEAD`, which stands for every right to a port that is no more. -/
def machPortDead : Port := BitVec.allOnes 32

structure MachPort where
  port : Port
  receiveRight : Bool
deriving DecidableEq

/-- What a message has been made to carry, and the bytes of its data part. -/
structure Origin where
  version : Version
  selector : Selector
  payload : List UInt8
  body : List UInt8
  ports : List Nat
deriving DecidableEq

structure Letter where
  msg : EncodedMessage
  origin : Origin

/-- A message in the queue of a port. The kernel has its rights, `none` is one to a dead port. -/
structure Packet where
  machMsg : MachMsg
  rights : List (Option Nat)
  origin : Origin

/-- A port, with the task that receives from it. The port of a memory object is the kernel's, and
the region behind it has its size in its header. -/
structure PortState where
  home : Option Task
  alive : Bool
  bufferSize : Option UInt64
  queue : List Packet

/-- A name of a task, with the port that it has been given for. -/
abbrev Entry := Port × Nat

/-- The name spaces of some tasks, with the user references of the names, and the `MachPort`s
that account for them. -/
structure World where
  alive : Task → Bool
  space : Task → Port → Option (Nat × Nat)
  loose : Task → List (MachPort × Nat)
  raw : Task → List Entry
  held : Task → List Letter
  ports : List PortState
  made : List Origin

def World.boot : World := ⟨fun _ => true, fun _ _ => none, fun _ => [], fun _ => [], fun _ => [], [], []⟩

inductive Action where
  /-- `MachPort::with_receive_right` -/
  | withReceiveRight (p : Task) (name : Port)
  /-- `MemoryRegion::obj_new` -/
  | objNew (p : Task) (name : Port) (size : UInt64)
  /-- `bootstrap_look_up` -/
  | lookUp (p : Task) (name : Port) (port : Nat)
  | clone (p : Task) (name : Port)
  | intoRaw (p : Task) (name : Port)
  | fromRaw (p : Task) (name : Port)
  | drop (p : Task) (x : MachPort)
  /-- `into_encoded` -/
  | make (p : Task) (msg : Message) (heap : Nat → UInt8)
  /-- The objects and regions of a message become values of their own. -/
  | unpack (p : Task) (i : Nat)
  | discard (p : Task) (i : Nat)
  /-- `send`, and whether the kernel takes the message at last. -/
  | send (p : Task) (i : Nat) (remote : Port) (ok : Bool)
  /-- `read` and `EncodedMessage::new`, with the names that the kernel gives to the rights. -/
  | receive (port : Nat) (header : Header) (trailer : List UInt8) (names : List Port)
  | die (p : Task)

def Letter.entries (letter : Letter) : List Entry := letter.msg.attachments.zip letter.origin.ports

def MachPort.entry (x : MachPort × Nat) : Entry := (x.1.port, x.2)

/-- Who has a user reference. -/
def World.ledger (w : World) (p : Task) : List Entry :=
  (w.loose p).map MachPort.entry ++ w.raw p ++ (w.held p).flatMap Letter.entries

def World.portAlive (w : World) (k : Nat) : Bool := w.ports[k]?.any PortState.alive

def World.mapHeader (w : World) (p : Task) (name : Port) : Option UInt64 :=
  (w.space p name).bind fun e => w.ports[e.1]?.bind PortState.bufferSize

/-- The receive right of a task to this port is gone, if it had one. -/
def PortState.leave (p : Task) (port : PortState) : PortState :=
  if port.home = some p then { port with alive := false, queue := [] } else port

def PortState.post (packet : Packet) (port : PortState) : PortState :=
  { port with queue := port.queue ++ [packet] }

/-- The kernel may give this name to a right to this port. -/
def grants (space : Port → Option (Nat × Nat)) (name : Port) (k : Nat) : Bool :=
  name ≠ machPortNull && name ≠ machPortDead && (space name).all fun e => e.1 == k

/-- The rights that the names in a message stand for, unless one stands for none. -/
def World.copyin (w : World) (p : Task) (names : List Port) : Option (List (Option Nat)) :=
  names.mapM fun name =>
    if name = machPortDead then some none
    else (w.space p name).map fun e => if w.portAlive e.1 then some e.1 else none

/-- The rights of a message are entered under these names. -/
def copyout (alive : Nat → Bool) :
    (Port → Option (Nat × Nat)) → List (Option Nat) → List Port → Option (Port → Option (Nat × Nat))
  | space, [], [] => some space
  | space, right :: rights, name :: names =>
    match right.filter alive with
    | some k => if grants space name k then copyout alive (retain space name k) rights names else none
    | none => if name = machPortDead then copyout alive space rights names else none
  | _, _, _ => none

/-- A message is sent from its buffer, where the remote is entered. -/
def Letter.address (letter : Letter) (remote : Port) : Letter :=
  ⟨{ letter.msg with machMsg := addressed letter.msg remote }, letter.origin⟩

section Step

variable (kernel : Kernel) (codec : Codec) (crate : Task → Version) (w : World)

/-- A task gets a `MachPort` for one more reference. -/
def World.granted (p : Task) (x : MachPort) (k : Nat) : World :=
  { w with
    space := update w.space p (retain (w.space p) x.port k)
    loose := update w.loose p (w.loose p ++ [(x, k)]) }

/-- The ports once a `MachPort` has dropped its receive right. -/
def World.withoutReceiver (p : Task) (x : MachPort) : List PortState :=
  match w.space p x.port with
  | some (k, _) => if x.receiveRight then w.ports.modify k (PortState.leave p) else w.ports
  | none => w.ports

/-- A packet has been taken from its port, and its rights are entered. -/
def World.taken (p : Task) (k : Nat) (port : PortState) (queue : List Packet)
    (space : Port → Option (Nat × Nat)) : World :=
  { w with
    space := update w.space p space
    ports := w.ports.set k { port with queue := queue } }

def World.step : Action → Option World
  | .withReceiveRight p name =>
    if w.alive p ∧ grants (w.space p) name w.ports.length ∧ w.space p name = none then
      some { w.granted p ⟨name, true⟩ w.ports.length with ports := w.ports ++ [⟨some p, true, none, []⟩] }
    else none
  | .objNew p name size =>
    if w.alive p ∧ grants (w.space p) name w.ports.length ∧ w.space p name = none then
      some { w.granted p ⟨name, false⟩ w.ports.length with
        ports := w.ports ++ [⟨none, true, some size, []⟩] }
    else none
  | .lookUp p name k =>
    if w.alive p ∧ grants (w.space p) name k ∧ w.portAlive k then some (w.granted p ⟨name, false⟩ k)
    else none
  | .clone p name =>
    -- a dead name has no send right to add a reference to
    match w.space p name with
    | some (k, _) =>
      if w.alive p ∧ name ≠ machPortDead ∧ w.portAlive k then some (w.granted p ⟨name, false⟩ k) else some w
    | none => some w
  | .intoRaw p name =>
    ((w.loose p).find? fun e => e.1 == ⟨name, false⟩).map fun e =>
      { w with
        loose := update w.loose p ((w.loose p).erase e)
        raw := update w.raw p (w.raw p ++ [MachPort.entry e]) }
  | .fromRaw p name =>
    ((w.raw p).find? fun e => e.1 == name).map fun e =>
      { w with
        loose := update w.loose p (w.loose p ++ [(⟨e.1, false⟩, e.2)])
        raw := update w.raw p ((w.raw p).erase e) }
  | .drop p x =>
    ((w.loose p).find? fun e => e.1 == x).map fun e =>
      { w with
        ports := w.withoutReceiver p x
        space := update w.space p (release (w.space p) x.port)
        loose := update w.loose p ((w.loose p).erase e) }
  | .make p msg heap =>
    if w.alive p then
      (takeAll (w.loose p) (msg.attachments.map (⟨·, false⟩))).map fun x =>
        let encoded := intoEncoded codec (crate p) msg heap
        let origin := ⟨crate p, msg.selector, msg.payload, encoded.machMsg.data, x.1.map Prod.snd⟩
        { w with
          loose := update w.loose p x.2
          held := update w.held p (w.held p ++ [⟨encoded, origin⟩])
          made := w.made ++ [origin] }
    else none
  | .unpack p i =>
    ((w.held p)[i]?).map fun letter =>
      { w with
        loose := update w.loose p (w.loose p ++ letter.entries.map fun e => (⟨e.1, false⟩, e.2))
        held := update w.held p ((w.held p).eraseIdx i) }
  | .discard p i =>
    ((w.held p)[i]?).map fun letter =>
      { w with
        space := update w.space p (letter.msg.attachments.foldl release (w.space p))
        held := update w.held p ((w.held p).eraseIdx i) }
  | .send p i remote ok =>
    ((w.held p)[i]?).bind fun letter =>
      let letter := letter.address remote
      let w' := { w with held := update w.held p ((w.held p).set i letter) }
      if ok then
        match w.space p remote, w.copyin p (letter.msg.machMsg.descriptors.map PortDescriptor.name) with
        | some (k, _), some rights =>
          if w.portAlive k then
            some { w' with
              ports := w.ports.modify k (PortState.post ⟨letter.msg.machMsg.sent, rights, letter.origin⟩) }
          else none
        | _, _ => none
      else some w'
  | .receive k header trailer names =>
    (w.ports[k]?).bind fun port =>
      match port.home, port.queue with
      | some p, packet :: queue =>
        (copyout w.portAlive (w.space p) packet.rights names).bind fun space =>
          let w' := w.taken p k port queue space
          let arrived := arrive names header trailer packet.machMsg
          match new { kernel with mapHeader := w'.mapHeader p } codec (crate p) arrived with
          | some (.ok msg) =>
            some { w' with held := update w.held p (w.held p ++ [⟨msg, packet.origin⟩]) }
          | some (.error (.error _)) =>
            -- the objects are dropped
            some { w' with
              space := update w.space p
                ((arrived.descriptors.map PortDescriptor.name).foldl release space) }
          | _ => none
      | _, _ => none
  | .die p =>
    some { w with
      alive := update w.alive p false
      space := update w.space p fun _ => none
      loose := update w.loose p []
      raw := update w.raw p []
      held := update w.held p []
      ports := w.ports.map (PortState.leave p) }

/-- The selector of a new message survives its encoding and counts the regions, and the size
fits into its word. -/
def Action.Fits : Action → Prop
  | .make p msg heap =>
    codec.decode (codec.encode msg.selector) = some msg.selector ∧
      msg.selector.memoryRegionCount.toNat = msg.memoryRegions.length ∧
      (intoEncoded codec (crate p) msg heap).machMsg.header.size < 2 ^ 32
  | _ => True

/-- The outcomes of a step. -/
inductive Moved : World → Prop
  | idle : Moved w
  | created {p x port} : w.alive p = true → grants (w.space p) x.port w.ports.length = true →
      w.space p x.port = none → port.alive = true → port.queue = [] →
      port.home = (if x.receiveRight then some p else none) →
      Moved { w.granted p x w.ports.length with ports := w.ports ++ [port] }
  | granted {p name k} : w.alive p = true → name ≠ machPortDead →
      (∀ k' n, w.space p name = some (k', n) → k' = k) → w.portAlive k = true →
      Moved (w.granted p ⟨name, false⟩ k)
  | forgotten {p name k} : (⟨name, false⟩, k) ∈ w.loose p →
      Moved { w with
        loose := update w.loose p ((w.loose p).erase (⟨name, false⟩, k))
        raw := update w.raw p (w.raw p ++ [(name, k)]) }
  | adopted {p e} : e ∈ w.raw p →
      Moved { w with
        loose := update w.loose p (w.loose p ++ [(⟨e.1, false⟩, e.2)])
        raw := update w.raw p ((w.raw p).erase e) }
  | dropped {p x k} : (x, k) ∈ w.loose p →
      Moved { w with
        ports := w.withoutReceiver p x
        space := update w.space p (release (w.space p) x.port)
        loose := update w.loose p ((w.loose p).erase (x, k)) }
  | made {p msg heap taken rest} : Action.Fits codec crate (.make p msg heap) → w.alive p = true →
      takeAll (w.loose p) (msg.attachments.map (⟨·, false⟩)) = some (taken, rest) →
      Moved { w with
        loose := update w.loose p rest
        held := update w.held p (w.held p ++ [⟨intoEncoded codec (crate p) msg heap, ⟨crate p,
          msg.selector, msg.payload, (intoEncoded codec (crate p) msg heap).machMsg.data,
          taken.map Prod.snd⟩⟩])
        made := w.made ++ [⟨crate p, msg.selector, msg.payload,
          (intoEncoded codec (crate p) msg heap).machMsg.data, taken.map Prod.snd⟩] }
  | unpacked {p i letter} : (w.held p)[i]? = some letter →
      Moved { w with
        loose := update w.loose p (w.loose p ++ letter.entries.map fun e => (⟨e.1, false⟩, e.2))
        held := update w.held p ((w.held p).eraseIdx i) }
  | discarded {p i letter} : (w.held p)[i]? = some letter →
      Moved { w with
        space := update w.space p (letter.msg.attachments.foldl release (w.space p))
        held := update w.held p ((w.held p).eraseIdx i) }
  | kept {p i letter remote} : (w.held p)[i]? = some letter →
      Moved { w with held := update w.held p ((w.held p).set i (letter.address remote)) }
  | sent {p i letter remote k n rights} : (w.held p)[i]? = some letter →
      w.space p remote = some (k, n) → w.portAlive k = true →
      w.copyin p ((letter.address remote).msg.machMsg.descriptors.map PortDescriptor.name) = some rights →
      Moved { w with
        held := update w.held p ((w.held p).set i (letter.address remote))
        ports := w.ports.modify k
          (PortState.post ⟨(letter.address remote).msg.machMsg.sent, rights, letter.origin⟩) }
  | received {p k port packet queue header trailer names space msg} : w.ports[k]? = some port →
      port.home = some p → port.queue = packet :: queue →
      copyout w.portAlive (w.space p) packet.rights names = some space →
      new { kernel with mapHeader := (w.taken p k port queue space).mapHeader p } codec (crate p)
        (arrive names header trailer packet.machMsg) = some (.ok msg) →
      Moved { w.taken p k port queue space with
        held := update w.held p (w.held p ++ [⟨msg, packet.origin⟩]) }
  | refused {p k port packet queue header trailer names space e} : w.ports[k]? = some port →
      port.home = some p → port.queue = packet :: queue →
      copyout w.portAlive (w.space p) packet.rights names = some space →
      new { kernel with mapHeader := (w.taken p k port queue space).mapHeader p } codec (crate p)
        (arrive names header trailer packet.machMsg) = some (.error (.error e)) →
      Moved { w.taken p k port queue space with
        space := update w.space p (((arrive names header trailer packet.machMsg).descriptors.map
          PortDescriptor.name).foldl release space) }
  | died {p} :
      Moved { w with
        alive := update w.alive p false
        space := update w.space p fun _ => none
        loose := update w.loose p []
        raw := update w.raw p []
        held := update w.held p []
        ports := w.ports.map (PortState.leave p) }

theorem grants_iff {space : Port → Option (Nat × Nat)} {name : Port} {k : Nat} :
    grants space name k = true ↔ name ≠ machPortNull ∧ name ≠ machPortDead ∧
      ∀ k' n, space name = some (k', n) → k' = k := by
  rw [grants]
  obtain _ | ⟨k', n⟩ := space name <;> simp [and_assoc]

section Outcomes

variable {w' : World}

/-- A name that is dead, or for a dead port, is not cloned. -/
theorem clone_moved {p : Task} {name : Port}
    (h : w.step kernel codec crate (.clone p name) = some w') :
    Moved kernel codec crate w w' := by
  simp only [World.step] at h
  split at h
  · rename_i k n hspace
    split at h
    · rename_i hc
      cases h
      refine .granted hc.1 hc.2.1 ?_ hc.2.2
      intro k' n' hspace'
      rw [hspace] at hspace'
      cases hspace'
      rfl
    · cases h
      exact .idle
  · cases h
    exact .idle

theorem send_moved {p : Task} {i : Nat} {remote : Port} {ok : Bool}
    (h : w.step kernel codec crate (.send p i remote ok) = some w') :
    Moved kernel codec crate w w' := by
  obtain ⟨letter, hletter, h⟩ := Option.bind_eq_some_iff.mp h
  simp only [] at h
  split at h
  · split at h
    · rename_i hspace hrights
      split at h
      · cases h
        exact .sent hletter hspace ‹_› hrights
      · cases h
    · cases h
  · cases h
    exact .kept hletter

theorem receive_moved {k : Nat} {header : Header} {trailer : List UInt8} {names : List Port}
    (h : w.step kernel codec crate (.receive k header trailer names) = some w') :
    Moved kernel codec crate w w' := by
  obtain ⟨port, hport, h⟩ := Option.bind_eq_some_iff.mp h
  split at h
  · rename_i p packet queue hhome hqueue
    obtain ⟨space, hspace, h⟩ := Option.bind_eq_some_iff.mp h
    simp only [] at h
    split at h
    · cases h
      exact .received hport hhome hqueue hspace ‹_›
    · cases h
      exact .refused hport hhome hqueue hspace ‹_›
    · cases h
  · cases h

end Outcomes

theorem step_moved {w' : World} {a : Action} (hfits : a.Fits codec crate)
    (h : w.step kernel codec crate a = some w') : Moved kernel codec crate w w' := by
  cases a with
  | withReceiveRight p name =>
    simp only [World.step] at h
    split at h
    · rename_i hc
      cases h
      exact .created (x := ⟨name, true⟩) hc.1 hc.2.1 hc.2.2 rfl rfl rfl
    · cases h
  | objNew p name size =>
    simp only [World.step] at h
    split at h
    · rename_i hc
      cases h
      exact .created (x := ⟨name, false⟩) hc.1 hc.2.1 hc.2.2 rfl rfl rfl
    · cases h
  | lookUp p name k =>
    simp only [World.step] at h
    split at h
    · rename_i hc
      cases h
      have hgrants := grants_iff.mp hc.2.1
      exact .granted hc.1 hgrants.2.1 hgrants.2.2 hc.2.2
    · cases h
  | clone p name => exact clone_moved kernel codec crate w h
  | intoRaw p name =>
    obtain ⟨⟨x, k⟩, he, rfl⟩ := Option.map_eq_some_iff.mp h
    obtain rfl : x = ⟨name, false⟩ := by simpa using List.find?_some he
    exact .forgotten (List.mem_of_find?_eq_some he)
  | fromRaw p name =>
    obtain ⟨e, he, rfl⟩ := Option.map_eq_some_iff.mp h
    exact .adopted (List.mem_of_find?_eq_some he)
  | drop p x =>
    obtain ⟨⟨x', k⟩, he, rfl⟩ := Option.map_eq_some_iff.mp h
    obtain rfl : x' = x := by simpa using List.find?_some he
    exact .dropped (List.mem_of_find?_eq_some he)
  | make p msg heap =>
    simp only [World.step] at h
    split at h
    · obtain ⟨⟨taken, rest⟩, htake, rfl⟩ := Option.map_eq_some_iff.mp h
      exact .made hfits ‹_› htake
    · cases h
  | unpack p i =>
    obtain ⟨letter, hletter, rfl⟩ := Option.map_eq_some_iff.mp h
    exact .unpacked hletter
  | discard p i =>
    obtain ⟨letter, hletter, rfl⟩ := Option.map_eq_some_iff.mp h
    exact .discarded hletter
  | send p i remote ok => exact send_moved kernel codec crate w h
  | receive k header trailer names => exact receive_moved kernel codec crate w h
  | die p =>
    cases h
    exact .died

end Step

end Ipmb.MachRights
