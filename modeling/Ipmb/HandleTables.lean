import Ipmb.Custody
import Ipmb.PipeFormat
import Ipmb.Run

namespace Ipmb.HandleTables

open Messages Bytes Windows Faults Custody
open Encoding (Codec)

abbrev Pid := Nat

/-- What a handle names. -/
inductive Object where
  | process (pid : Pid)
  | writeEnd (pipe : Nat)
  | mapping (id : Nat) (bufferSize : UInt64)
  | other (id : Nat)
deriving DecidableEq

/-- The size in the header of a region. -/
def Object.bufferSize : Object → Option UInt64
  | .mapping _ size => some size
  | _ => none

/-- The pseudo handle that `GetCurrentProcess` returns. -/
def currentProcess : Handle := BitVec.allOnes 64

/-- A handle of a process, with what it names there. -/
abbrev Entry := Handle × Object

/-- What a message has been made to carry. -/
structure Origin where
  version : Version
  selector : Selector
  payload : List UInt8
  objects : List Object
deriving DecidableEq

structure Letter where
  msg : EncodedMessage
  origin : Origin

/-- A call of `send_helper`: the handles it has put into the buffer, and the `RemoteHandle`s
that it holds. -/
structure Send where
  pid : Pid
  target : Pid
  remote : Remote
  letter : Letter
  handles : List Handle
  guards : List Entry
  failed : Bool

structure Packet where
  bytes : List UInt8
  origin : Origin

/-- A pipe, with the process that reads it. -/
structure Pipe where
  home : Pid
  reading : Bool
  queue : List Packet

/-- The handle tables of some processes, and who is responsible for each handle. -/
structure World where
  alive : Pid → Bool
  table : Pid → Handle → Option Object
  loose : Pid → List Entry
  held : Pid → List Letter
  sends : List Send
  pipes : List Pipe
  lost : Pid → List Entry
  made : List Origin

def World.boot : World :=
  ⟨fun _ => true, fun _ _ => none, fun _ => [], fun _ => [], [], [], fun _ => [], []⟩

inductive Action where
  /-- A call that opens a handle, such as `OpenProcess` or `CreateFileMappingW`. -/
  | create (p : Pid) (h : Handle) (o : Object)
  | current (p : Pid)
  | listen (p : Pid)
  /-- The reader drops its end of the pipe. -/
  | shut (pipe : Nat)
  | close (p : Pid) (h : Handle)
  /-- `into_encoded`. -/
  | make (p : Pid) (msg : Message) (heap : Nat → UInt8)
  /-- The objects and regions of a message become values of their own. -/
  | unpack (p : Pid) (i : Nat)
  | discard (p : Pid) (i : Nat)
  | begin (p : Pid) (i : Nat) (remote : Remote)
  /-- `to_remote`: the new handle in the target, unless the call fails. -/
  | duplicate (t : Nat) (answer : Option Handle)
  /-- `WriteFile`, and whether it succeeds. -/
  | write (t : Nat) (ok : Bool)
  /-- A failed call drops its next `RemoteHandle`, or returns. -/
  | unwind (t : Nat)
  | read (pipe : Nat)
  | die (p : Pid)

def World.resolve (w : World) (p : Pid) (h : Handle) : Option Object :=
  if h = currentProcess then some (.process p) else w.table p h

def World.mapHeader (w : World) (p : Pid) (h : Handle) : Option UInt64 :=
  (w.resolve p h).bind Object.bufferSize

/-- `CloseHandle` does nothing to the pseudo handle. -/
def closeAll (table : Handle → Option Object) (handles : List Handle) (h : Handle) : Option Object :=
  if handles.contains h ∧ h ≠ currentProcess then none else table h

def Remote.handles (remote : Remote) : List Handle := remote.pipe :: remote.process.toList

/-- A call of `send_helper` borrows its remote. -/
def World.borrowed (w : World) (p : Pid) (h : Handle) : Bool :=
  w.sends.any fun s => s.pid == p && (Remote.handles s.remote).contains h

def Letter.entries (letter : Letter) : List Entry := letter.msg.attachments.zip letter.origin.objects

def Packet.entries (packet : Packet) : List Entry := (readObjects packet.bytes).zip packet.origin.objects

/-- The handles of the message that a call sends for `p`. -/
def Send.own (p : Pid) (s : Send) : List Entry := if s.pid = p then s.letter.entries else []

/-- The handles that a call has opened in `p`. -/
def Send.guarded (p : Pid) (s : Send) : List Entry := if s.target = p then s.guards else []

/-- The handles on their way to `p`. -/
def Pipe.flight (p : Pid) (pipe : Pipe) : List Entry :=
  if pipe.home = p then pipe.queue.flatMap Packet.entries else []

/-- Who is responsible for the handles of a process: its values, the calls of
`send_helper` that read or have made them, and the packets on their way to it. The handles that
are lost are open, with nobody to close them. -/
def World.ledger (w : World) (p : Pid) : List Entry :=
  w.loose p ++ (w.held p).flatMap Letter.entries ++
    w.sends.flatMap (Send.own p) ++ w.sends.flatMap (Send.guarded p) ++ w.pipes.flatMap (Pipe.flight p) ++
    w.lost p

section Step

variable (codec : Codec) (crate : Pid → Version) (w : World)

open Function (update)

def World.returned (s : Send) (sends : List Send) : World :=
  { w with
    sends := sends
    held := update w.held s.pid (w.held s.pid ++ [⟨filled s.letter.msg s.handles, s.letter.origin⟩]) }

def World.step : Action → Option World
  | .create p h o =>
    if w.alive p ∧ w.table p h = none ∧ h ≠ currentProcess then
      some { w with
        table := update w.table p (update (w.table p) h (some o))
        loose := update w.loose p (w.loose p ++ [(h, o)]) }
    else none
  | .current p =>
    if w.alive p then
      some { w with loose := update w.loose p (w.loose p ++ [(currentProcess, .process p)]) }
    else none
  | .listen p => if w.alive p then some { w with pipes := w.pipes ++ [⟨p, true, []⟩] } else none
  | .shut k =>
    (w.pipes[k]?).map fun pipe =>
      { w with
        pipes := w.pipes.set k ⟨pipe.home, false, []⟩
        lost := update w.lost pipe.home (w.lost pipe.home ++ pipe.queue.flatMap Packet.entries) }
  | .close p h =>
    if w.borrowed p h then none
    else
      ((w.loose p).find? fun e => e.1 == h).map fun e =>
        { w with
          table := update w.table p (closeAll (w.table p) [h])
          loose := update w.loose p ((w.loose p).erase e) }
  | .make p msg heap =>
    if w.alive p ∧ (msg.attachments.all fun h => !w.borrowed p h) ∧
        msg.memoryRegions.all fun r => w.mapHeader p r.obj = some r.bufferSize then
      (takeAll (w.loose p) msg.attachments).map fun x =>
        let origin := ⟨crate p, msg.selector, msg.payload, x.1.map Prod.snd⟩
        { w with
          loose := update w.loose p x.2
          held := update w.held p (w.held p ++ [⟨intoEncoded codec (crate p) msg heap, origin⟩])
          made := w.made ++ [origin] }
    else none
  | .unpack p i =>
    ((w.held p)[i]?).map fun letter =>
      { w with
        loose := update w.loose p (w.loose p ++ letter.entries)
        held := update w.held p ((w.held p).eraseIdx i) }
  | .discard p i =>
    ((w.held p)[i]?).map fun letter =>
      { w with
        table := update w.table p (closeAll (w.table p) letter.msg.attachments)
        held := update w.held p ((w.held p).eraseIdx i) }
  | .begin p i remote =>
    ((w.held p)[i]?).bind fun letter =>
      match w.resolve p remote.pipe with
      | some (.writeEnd k) =>
        (w.pipes[k]?).bind fun pipe =>
          if w.alive p ∧ (Remote.handles remote).all ((w.loose p).map Prod.fst).contains ∧
              (remote.process.bind (w.resolve p) = some (.process pipe.home) ∨
                letter.msg.attachments = []) then
            some { w with
              held := update w.held p ((w.held p).eraseIdx i)
              sends := w.sends ++ [⟨p, pipe.home, remote, letter, [], [], false⟩] }
          else none
      | _ => none
  | .duplicate t answer =>
    (w.sends[t]?).bind fun s =>
      if s.failed then none
      else
        (s.letter.msg.attachments[s.handles.length]?).bind fun h =>
          match answer with
          | none => some { w with sends := w.sends.set t { s with failed := true } }
          | some h' =>
            match s.remote.process.bind (w.resolve s.pid), w.resolve s.pid h with
            | some (.process q), some o =>
              if w.alive q ∧ w.table q h' = none ∧ h' ≠ currentProcess then
                some { w with
                  table := update w.table q (update (w.table q) h' (some o))
                  sends := w.sends.set t
                    { s with handles := s.handles ++ [h'], guards := s.guards ++ [(h', o)] } }
              else none
            | _, _ => none
  | .write t ok =>
    (w.sends[t]?).bind fun s =>
      if s.failed ∨ s.handles.length ≠ s.letter.msg.attachments.length then none
      else if ok then
        match w.resolve s.pid s.remote.pipe with
        | some (.writeEnd k) =>
          (w.pipes[k]?).bind fun pipe =>
            if pipe.reading then
              some { w.returned s (w.sends.eraseIdx t) with
                pipes := w.pipes.set k
                  { pipe with
                    queue := pipe.queue ++ [⟨written s.letter.msg s.handles, s.letter.origin⟩] } }
            else none
        | _ => none
      else some { w with sends := w.sends.set t { s with failed := true } }
  | .unwind t =>
    (w.sends[t]?).bind fun s =>
      if s.failed then
        match s.guards with
        | [] => some (w.returned s (w.sends.eraseIdx t))
        | e :: guards =>
          match s.remote.process.bind (w.resolve s.pid) with
          | some (.process q) =>
            some { w with
              table := update w.table q (closeAll (w.table q) [e.1])
              sends := w.sends.set t { s with guards := guards } }
          | _ => none
      else none
  | .read k =>
    (w.pipes[k]?).bind fun pipe =>
      match pipe.queue with
      | [] => none
      | packet :: queue =>
        if w.alive pipe.home then
          match new (w.mapHeader pipe.home) codec (crate pipe.home) packet.bytes with
          | .ok msg =>
            some { w with
              pipes := w.pipes.set k { pipe with queue := queue }
              held := update w.held pipe.home (w.held pipe.home ++ [⟨msg, packet.origin⟩]) }
          | .error (.error _) =>
            some { w with
              pipes := w.pipes.set k { pipe with queue := queue }
              table := update w.table pipe.home
                (closeAll (w.table pipe.home) (readObjects packet.bytes)) }
          | .error (.fault _) => none
        else none
  | .die p =>
    some { w with
      alive := update w.alive p false
      table := update w.table p fun _ => none
      loose := update w.loose p []
      held := update w.held p []
      sends := w.sends.filter fun s => s.pid ≠ p
      pipes := w.pipes.map fun pipe => if pipe.home = p then ⟨p, false, []⟩ else pipe
      lost := fun q => w.lost q ++
        (w.sends.filter fun s => !decide (s.pid ≠ p)).flatMap (Send.guarded q) }

/-- The selector of a new message survives its encoding and counts the regions, and the sizes
fit into their words. -/
def Action.Fits (codec : Codec) (crate : Pid → Version) : Action → Prop
  | .make p msg heap =>
    codec.decode (codec.encode msg.selector) = some msg.selector ∧
      msg.selector.memoryRegionCount.toNat = msg.memoryRegions.length ∧
      (intoEncoded codec (crate p) msg heap).msgSize < 2 ^ 32
  | _ => True

/-- The outcomes of a step. -/
inductive Moved : Action → World → Prop
  | created {p h o} : w.alive p = true → w.table p h = none → h ≠ currentProcess →
      Moved (.create p h o) { w with
        table := update w.table p (update (w.table p) h (some o))
        loose := update w.loose p (w.loose p ++ [(h, o)]) }
  | current {p} : w.alive p = true →
      Moved (.current p) { w with loose := update w.loose p (w.loose p ++ [(currentProcess, .process p)]) }
  | listened {p} : w.alive p = true → Moved (.listen p) { w with pipes := w.pipes ++ [⟨p, true, []⟩] }
  | shut {k pipe} : w.pipes[k]? = some pipe →
      Moved (.shut k) { w with
        pipes := w.pipes.set k ⟨pipe.home, false, []⟩
        lost := update w.lost pipe.home (w.lost pipe.home ++ pipe.queue.flatMap Packet.entries) }
  | closed {p e} : w.borrowed p e.1 = false → e ∈ w.loose p →
      Moved (.close p e.1) { w with
        table := update w.table p (closeAll (w.table p) [e.1])
        loose := update w.loose p ((w.loose p).erase e) }
  | made {p msg heap taken rest} : Action.Fits codec crate (.make p msg heap) → w.alive p = true →
      (∀ h ∈ msg.attachments, w.borrowed p h = false) →
      (∀ r ∈ msg.memoryRegions, w.mapHeader p r.obj = some r.bufferSize) →
      takeAll (w.loose p) msg.attachments = some (taken, rest) →
      Moved (.make p msg heap) { w with
        loose := update w.loose p rest
        held := update w.held p (w.held p ++
          [⟨intoEncoded codec (crate p) msg heap,
            ⟨crate p, msg.selector, msg.payload, taken.map Prod.snd⟩⟩])
        made := w.made ++ [⟨crate p, msg.selector, msg.payload, taken.map Prod.snd⟩] }
  | unpacked {p i letter} : (w.held p)[i]? = some letter →
      Moved (.unpack p i) { w with
        loose := update w.loose p (w.loose p ++ letter.entries)
        held := update w.held p ((w.held p).eraseIdx i) }
  | discarded {p i letter} : (w.held p)[i]? = some letter →
      Moved (.discard p i) { w with
        table := update w.table p (closeAll (w.table p) letter.msg.attachments)
        held := update w.held p ((w.held p).eraseIdx i) }
  | begun {p i remote letter k pipe} : w.alive p = true → (w.held p)[i]? = some letter →
      w.resolve p remote.pipe = some (.writeEnd k) → w.pipes[k]? = some pipe →
      (∀ h ∈ Remote.handles remote, h ∈ (w.loose p).map Prod.fst) →
      (remote.process.bind (w.resolve p) = some (.process pipe.home) ∨ letter.msg.attachments = []) →
      Moved (.begin p i remote) { w with
        held := update w.held p ((w.held p).eraseIdx i)
        sends := w.sends ++ [⟨p, pipe.home, remote, letter, [], [], false⟩] }
  | denied {t s a} : a = .duplicate t none ∨ a = .write t false → w.sends[t]? = some s →
      Moved a { w with sends := w.sends.set t { s with failed := true } }
  | duplicated {t s h h' q o} : w.sends[t]? = some s → s.failed = false →
      s.letter.msg.attachments[s.handles.length]? = some h →
      s.remote.process.bind (w.resolve s.pid) = some (.process q) → w.resolve s.pid h = some o →
      w.alive q = true → w.table q h' = none → h' ≠ currentProcess →
      Moved (.duplicate t (some h')) { w with
        table := update w.table q (update (w.table q) h' (some o))
        sends := w.sends.set t
          { s with handles := s.handles ++ [h'], guards := s.guards ++ [(h', o)] } }
  | delivered {t s k pipe} : w.sends[t]? = some s → s.failed = false →
      s.handles.length = s.letter.msg.attachments.length →
      w.resolve s.pid s.remote.pipe = some (.writeEnd k) → w.pipes[k]? = some pipe →
      pipe.reading = true →
      Moved (.write t true) { w.returned s (w.sends.eraseIdx t) with
        pipes := w.pipes.set k
          { pipe with queue := pipe.queue ++ [⟨written s.letter.msg s.handles, s.letter.origin⟩] } }
  | released {t s e guards q} : w.sends[t]? = some s → s.failed = true → s.guards = e :: guards →
      s.remote.process.bind (w.resolve s.pid) = some (.process q) →
      Moved (.unwind t) { w with
        table := update w.table q (closeAll (w.table q) [e.1])
        sends := w.sends.set t { s with guards := guards } }
  | failed {t s} : w.sends[t]? = some s → s.failed = true → s.guards = [] →
      Moved (.unwind t) (w.returned s (w.sends.eraseIdx t))
  | read {k pipe packet queue msg} : w.pipes[k]? = some pipe → pipe.queue = packet :: queue →
      w.alive pipe.home = true →
      new (w.mapHeader pipe.home) codec (crate pipe.home) packet.bytes = .ok msg →
      Moved (.read k) { w with
        pipes := w.pipes.set k { pipe with queue := queue }
        held := update w.held pipe.home (w.held pipe.home ++ [⟨msg, packet.origin⟩]) }
  | refused {k pipe packet queue e} : w.pipes[k]? = some pipe → pipe.queue = packet :: queue →
      w.alive pipe.home = true →
      new (w.mapHeader pipe.home) codec (crate pipe.home) packet.bytes = .error (.error e) →
      Moved (.read k) { w with
        pipes := w.pipes.set k { pipe with queue := queue }
        table := update w.table pipe.home (closeAll (w.table pipe.home) (readObjects packet.bytes)) }
  | died {p} :
      Moved (.die p) { w with
        alive := update w.alive p false
        table := update w.table p fun _ => none
        loose := update w.loose p []
        held := update w.held p []
        sends := w.sends.filter fun s => s.pid ≠ p
        pipes := w.pipes.map fun pipe => if pipe.home = p then ⟨p, false, []⟩ else pipe
        lost := fun q => w.lost q ++
          (w.sends.filter fun s => !decide (s.pid ≠ p)).flatMap (Send.guarded q) }

section Outcomes

variable {w' : World}

theorem begin_moved {p : Pid} {i : Nat} {remote : Remote}
    (h : w.step codec crate (.begin p i remote) = some w') :
    Moved codec crate w (.begin p i remote) w' := by
  obtain ⟨letter, hletter, h⟩ := Option.bind_eq_some_iff.mp h
  split at h
  · rename_i k hk
    obtain ⟨pipe, hpipe, h⟩ := Option.bind_eq_some_iff.mp h
    split at h
    · rename_i hc
      cases h
      exact .begun hc.1 hletter hk hpipe
        (by simpa only [List.all_eq_true, List.contains_iff_mem] using hc.2.1) hc.2.2
    · cases h
  · cases h

theorem duplicate_moved {t : Nat} {answer : Option Handle}
    (h : w.step codec crate (.duplicate t answer) = some w') :
    Moved codec crate w (.duplicate t answer) w' := by
  obtain ⟨s, hs, h⟩ := Option.bind_eq_some_iff.mp h
  split at h
  · cases h
  · rename_i hfailed
    obtain ⟨handle, hhandle, h⟩ := Option.bind_eq_some_iff.mp h
    cases answer with
    | none =>
      cases h
      exact .denied (Or.inl rfl) hs
    | some h' =>
      simp only [] at h
      split at h
      · rename_i q o hq ho
        split at h
        · rename_i hc
          cases h
          exact .duplicated hs (by simpa using hfailed) hhandle hq ho hc.1 hc.2.1 hc.2.2
        · cases h
      · cases h

theorem write_moved {t : Nat} {ok : Bool} (h : w.step codec crate (.write t ok) = some w') :
    Moved codec crate w (.write t ok) w' := by
  obtain ⟨s, hs, h⟩ := Option.bind_eq_some_iff.mp h
  split at h
  · cases h
  · rename_i hready
    obtain ⟨hfailed, hlen⟩ := not_or.mp hready
    cases ok with
    | true =>
      simp only [if_true] at h
      split at h
      · rename_i k hk
        obtain ⟨pipe, hpipe, h⟩ := Option.bind_eq_some_iff.mp h
        split at h
        · cases h
          exact .delivered hs (by simpa using hfailed) (not_not.mp hlen) hk hpipe ‹_›
        · cases h
      · cases h
    | false =>
      cases h
      exact .denied (Or.inr rfl) hs

/-- A failed call drops its next `RemoteHandle`, and returns after the last one. -/
theorem unwind_moved {t : Nat} (h : w.step codec crate (.unwind t) = some w') :
    Moved codec crate w (.unwind t) w' := by
  obtain ⟨s, hs, h⟩ := Option.bind_eq_some_iff.mp h
  split at h
  · rename_i hfailed
    split at h
    · cases h
      exact .failed hs hfailed ‹_›
    · split at h
      · cases h
        exact .released hs hfailed ‹_› ‹_›
      · cases h
  · cases h

theorem read_moved {k : Nat} (h : w.step codec crate (.read k) = some w') :
    Moved codec crate w (.read k) w' := by
  obtain ⟨pipe, hpipe, h⟩ := Option.bind_eq_some_iff.mp h
  split at h
  · cases h
  · rename_i packet queue hqueue
    split at h
    · split at h
      · cases h
        exact .read hpipe hqueue ‹_› ‹_›
      · cases h
        exact .refused hpipe hqueue ‹_› ‹_›
      · cases h
    · cases h

end Outcomes

theorem step_moved {w' : World} {a : Action} (hfits : a.Fits codec crate)
    (h : w.step codec crate a = some w') :
    Moved codec crate w a w' := by
  cases a with
  | create p h o =>
    simp only [World.step] at h
    split at h
    · rename_i hc
      cases h
      exact .created hc.1 hc.2.1 hc.2.2
    · cases h
  | current p =>
    simp only [World.step] at h
    split at h
    · cases h
      exact .current ‹_›
    · cases h
  | listen p =>
    simp only [World.step] at h
    split at h
    · cases h
      exact .listened ‹_›
    · cases h
  | shut k =>
    obtain ⟨pipe, hpipe, rfl⟩ := Option.map_eq_some_iff.mp h
    exact .shut hpipe
  | close p handle =>
    simp only [World.step] at h
    split at h
    · cases h
    · rename_i hfree
      obtain ⟨e, he, rfl⟩ := Option.map_eq_some_iff.mp h
      obtain rfl : e.1 = handle := by simpa using List.find?_some he
      exact .closed (by simpa using hfree) (List.mem_of_find?_eq_some he)
  | make p msg heap =>
    simp only [World.step] at h
    split at h
    · rename_i hc
      obtain ⟨⟨taken, rest⟩, htake, rfl⟩ := Option.map_eq_some_iff.mp h
      exact .made hfits hc.1 (by simpa using hc.2.1) (by simpa using hc.2.2) htake
    · cases h
  | unpack p i =>
    obtain ⟨letter, hletter, rfl⟩ := Option.map_eq_some_iff.mp h
    exact .unpacked hletter
  | discard p i =>
    obtain ⟨letter, hletter, rfl⟩ := Option.map_eq_some_iff.mp h
    exact .discarded hletter
  | begin p i remote => exact begin_moved codec crate w h
  | duplicate t answer => exact duplicate_moved codec crate w h
  | write t ok => exact write_moved codec crate w h
  | unwind t => exact unwind_moved codec crate w h
  | read k => exact read_moved codec crate w h
  | die p =>
    cases h
    exact .died

end Step

end Ipmb.HandleTables
