import Ipmb.Forwarding
import Ipmb.Order

namespace Ipmb.Network

open Labels Messages Time Bytes Buffers Encoding Faults Decoding Reception RoundTrip Relay Refusals Backend Run
  Controller Journal Ledger Destinations Accounting Conservation History Linux Hub HubSteps Bus Forwarding
open Ipmb.Order (deliveredTo)
open Function (update)

/-- A message as it was sent; `fds` are its descriptors on the other side. -/
structure Letter where
  version : Version
  msg : Message
  heap : Heap
  fds : List RawFd

def Letter.encoded (codec : Codec) (letter : Letter) : EncodedMessage :=
  intoEncoded codec letter.version letter.msg letter.heap

def Letter.datagram (codec : Codec) (letter : Letter) : Datagram :=
  ⟨(letter.encoded codec).iovData, letter.fds⟩

/-- An endpoint that has been registered by message number `registration`. It has read the first
`taken` messages for it; `reads` are the arms in which it has read them, and `numbers` tells which of
them it has returned. -/
structure Reader (P : Type) where
  registration : Nat
  kernel : Kernel
  version : Version
  label : Label
  taken : Nat
  reads : List (Arm P)
  numbers : List Nat
  receiver : Receiver P

/-- The controller's own endpoint. It has read the first `taken` messages of its channel, in these
arms, and returned those with these numbers. A call that times out leaves no trace. -/
structure OwnReader (P : Type) where
  taken : Nat
  numbers : List Nat
  arms : List (Arm P)

/-- The controller, and what was sent to it: over the connections, and by its own endpoint over the
channel. Of the messages of each source it has read the first ones. `origins` tells for all that it has
received which message of which source it was. -/
structure World (W P : Type) where
  thread : Thread W
  sent : Source → List Letter
  taken : Source → Nat
  origins : List (Option (Source × Nat))
  readers : List (Reader P)
  own : OwnReader P

inductive Action (W : Type) where
  | send (source : Source) (letter : Letter)
  /-- A call of `recv` in the controller. -/
  | control (input : Input W)
  | register (registration : Nat) (kernel : Kernel) (version : Version) (label : Label) (fd waker : RawFd)
  /-- A call of `recv` in an endpoint. -/
  | read (i : Nat) (call : Call)
  /-- The controller's own endpoint reads a message. -/
  | readOwn

variable {W P : Type}

/-- The connection that is read next. -/
def reading (s : Thread W) : Option Nat :=
  match s.pc with
  | .draining (ev :: _) => (s.hub.localList[place s.hub ev]?).map Local.connection
  | _ => none

/-- The messages that an endpoint has returned. -/
def deliveries (arms : List (Arm P)) : List (Delivery P) :=
  arms.filterMap fun arm => match arm with
    | .done msg => some msg
    | _ => none

section Model

variable (typeUuid : Uuid) (decode : List UInt8 → Option P) (host : Host W) (codec : Codec)
  (control : Control) (version : Version) (label : Label) (token : String) (now : Instant) (w₀ : W)

def World.boot (listener waker : RawFd) : World W P :=
  ⟨Bus.boot label token now w₀ listener waker, fun _ => [], fun _ => 0, [], [], ⟨0, [], []⟩⟩

def World.next (w : World W P) (source : Source) : Option Letter := (w.sent source)[w.taken source]?

/-- Whose message the call reads; `none` if it cannot return so. -/
def World.supplies (w : World W P) : Call → Option (Option Source)
  | .tryRecv (.message msg) =>
    if (w.next .bus).map (Letter.encoded codec) = some msg then some (some .bus) else none
  | .tryRecv .empty => if (w.next .bus).isNone then some none else none
  | .fromLocal _ socket =>
    (reading w.thread).bind fun n =>
      if (w.next (.connection n)).map (Letter.datagram codec) = socket then
        some (socket.map fun _ => .connection n)
      else none
  | _ => some none

def World.controlStep (w : World W P) (input : Input W) : Option (World W P) :=
  (w.supplies codec input.call).bind fun source =>
    (Bus.step host codec control version w.thread input).map fun thread =>
      { w with
        thread := thread
        taken := source.elim w.taken fun s => update w.taken s (w.taken s + 1)
        origins := w.origins ++
          if thread.received.length = w.thread.received.length then []
          else [source.map fun s => (s, w.taken s)] }

/-- What the controller has put into the socket of a registration, without the acknowledgement, or
into the channel to its own endpoint. -/
def World.mail (w : World W P) (d : Destination) : List (Tagged EncodedMessage) :=
  (journalRun (linux host codec control version) (start label token now w₀)
    (w.thread.received.map Prod.snd)).elim [] fun s => deliveredTo s d

def Reader.step (r : Reader P) (call : Call) : Option (Reader P) :=
  (r.receiver.step typeUuid decode { host with kernel := r.kernel } codec r.version r.label call).map
    fun receiver => { r with receiver := receiver }

def World.readStep (w : World W P) (r : Reader P) : Call → Option (Reader P)
  | .fromLocal heap (some d) =>
    ((w.mail host codec control version label token now w₀ (.endpoint r.registration))[r.taken]?).bind fun msg =>
      if msg.val.iovData = d.bytes then
        (r.step typeUuid decode host codec (.fromLocal heap (some d))).map fun r' =>
          { r' with
            taken := r.taken + 1
            reads := r.reads ++ r'.receiver.arms.drop r.receiver.arms.length
            numbers := r.numbers ++
              if (deliveries r'.receiver.arms).length = (deliveries r.receiver.arms).length then []
              else msg.tag.toList }
      else none
  -- an endpoint has no channel
  | .tryRecv _ => none
  | call => r.step typeUuid decode host codec call

def OwnReader.read (own : OwnReader P) (msg : Tagged EncodedMessage) : OwnReader P :=
  let a := ownArm typeUuid decode msg.val
  ⟨own.taken + 1, own.numbers ++ if (deliveries [a]).isEmpty then [] else msg.tag.toList, own.arms ++ [a]⟩

def World.step (w : World W P) : Action W → Option (World W P)
  | .send source letter => some { w with sent := update w.sent source (w.sent source ++ [letter]) }
  | .control input => w.controlStep host codec control version input
  | .register registration kernel version label fd waker =>
    if w.readers.any fun r => r.registration == registration then none
    else some { w with
      readers := w.readers ++ [⟨registration, kernel, version, label, 0, [], [], connected P fd waker⟩] }
  | .read i call =>
    (w.readers[i]?).bind fun r =>
      (w.readStep typeUuid decode host codec control version label token now w₀ r call).map fun r' =>
        { w with readers := w.readers.set i r' }
  | .readOwn =>
    ((w.mail host codec control version label token now w₀ .own)[w.own.taken]?).map fun msg =>
      { w with own := w.own.read typeUuid decode msg }

end Model

section Control

variable {host : Host W} {codec : Codec} {control : Control} {version : Version} {w w' : World W P}
  {input : Input W}

/-- What the call has added to what the controller has received. -/
def added (input : Input W) : Progress EncodedMessage RawFd → List (Source × Iteration EncodedMessage RawFd W)
  | .pending _ => []
  | .returned source r => [(source, ⟨input.interfere, r, input.now⟩)]

theorem thread_step {s s' : Thread W} (hs : Bus.step host codec control version s input = some s') :
    ∃ answer hub progress, input.call.answer host codec version = some answer ∧
      Moved s.hub s.pc answer hub progress ∧ s'.received = s.received ++ added input progress := by
  obtain ⟨answer, ha, hs⟩ := Option.bind_eq_some_iff.mp hs
  obtain ⟨⟨hub, progress⟩, hstep, hs⟩ := Option.bind_eq_some_iff.mp hs
  refine ⟨answer, hub, progress, ha, step_moved hstep, ?_⟩
  cases progress with
  | pending pc =>
    cases hs
    exact (List.append_nil _).symm
  | returned source r =>
    obtain ⟨state, -, rfl⟩ := Option.map_eq_some_iff.mp hs
    rfl

/-- The controller has read the letter, with this result. -/
def Opened (host : Host W) (codec : Codec) (version : Version) (source : Source) (letter : Letter)
    (r : Except (Error RawFd) EncodedMessage) : Prop :=
  source = .bus ∧ r = .ok (letter.encoded codec) ∨
    ∃ heap, outcome (fromLocal host.kernel codec version heap (some (letter.datagram codec))) = some r

/-- All that a call of the controller can do to what was sent to it. -/
inductive Controlled (host : Host W) (codec : Codec) (version : Version) (w w' : World W P) : Prop
  | pending : w'.thread.received = w.thread.received → w'.taken = w.taken → w'.origins = w.origins →
    Controlled host codec version w w'
  | failed {e : Source × Iteration EncodedMessage RawFd W} : w'.thread.received = w.thread.received ++ [e] →
    w'.taken = w.taken → w'.origins = w.origins ++ [none] → (∀ msg, e.2.received ≠ .ok msg) →
    Controlled host codec version w w'
  | took {e : Source × Iteration EncodedMessage RawFd W} {source : Source} {letter : Letter} :
    w'.thread.received = w.thread.received ++ [e] → w'.taken = update w.taken source (w.taken source + 1) →
    w'.origins = w.origins ++ [some (source, w.taken source)] → w.next source = some letter →
    Opened host codec version source letter e.2.received → Controlled host codec version w w'

theorem supplies_none {call : Call} {answer : Answer EncodedMessage RawFd} {source : Option Source}
    (ha : call.answer host codec version = some answer) (hmessage : ∀ msg, answer ≠ .tryRecv (.message msg))
    (hread : ∀ r, answer ≠ .fromLocal r) (hs : w.supplies codec call = some source) : source = none := by
  cases call with
  | tryRecv r =>
    cases ha
    cases r with
    | message msg => exact absurd rfl (hmessage msg)
    | empty =>
      simp only [World.supplies] at hs
      split at hs <;> cases hs
      rfl
    | disconnected =>
      cases hs
      rfl
  | fromLocal heap socket =>
    simp only [Call.answer] at ha
    split at ha <;> cases ha <;> exact absurd rfl (hread _)
  | wait | clearWaker | accept | ignored =>
    cases hs
    rfl

/-- What a call of the controller reads, and what it comes to. -/
theorem supplied (hk : host.kernel.Documented) {call : Call} {answer : Answer EncodedMessage RawFd}
    {hub : IoHub}
    {progress : Progress EncodedMessage RawFd} {source : Option Source}
    (ha : call.answer host codec version = some answer)
    (hm : Moved w.thread.hub w.thread.pc answer hub progress) (hs : w.supplies codec call = some source) :
    (source = none ∧ ∃ pc, progress = .pending pc) ∨
      ∃ sender r, progress = .returned sender r ∧
        (source = none ∧ (∀ msg, r ≠ .ok msg) ∨
          ∃ s letter, source = some s ∧ w.next s = some letter ∧
            Opened host codec version s letter r) := by
  generalize hpc : w.thread.pc = pc at hm
  have hopened : ∀ {ev : RawFd} {rest : List RawFd} {p : Local} {r : Except (Error RawFd) EncodedMessage},
      pc = .draining (ev :: rest) → w.thread.hub.localList[place w.thread.hub ev]? = some p →
      answer = .fromLocal r → source = none ∧ (∀ msg, r ≠ .ok msg) ∨
        ∃ s letter, source = some s ∧ w.next s = some letter ∧
          Opened host codec version s letter r := by
    rintro ev rest p r rfl hp rfl
    obtain ⟨heap, socket, rfl, hparse⟩ := answer_fromLocal ha
    have hreading : reading w.thread = some p.connection := by simp [reading, hpc, hp]
    simp only [World.supplies, hreading, Option.bind_some] at hs
    split at hs
    · rename_i hnext
      cases hs
      cases socket with
      | none =>
        refine Or.inl ⟨rfl, ?_⟩
        rintro msg rfl
        have hok := outcome_ok.mp hparse
        rw [fromLocal_none hk] at hok
        cases hok
      | some d =>
        obtain ⟨letter, hletter, rfl⟩ := Option.map_eq_some_iff.mp hnext
        exact Or.inr ⟨_, letter, rfl, hletter, Or.inr ⟨heap, hparse⟩⟩
    · cases hs
  cases hm with
  | message msg =>
    cases call with
    | tryRecv r =>
      cases ha
      simp only [World.supplies] at hs
      split at hs
      · rename_i hnext
        cases hs
        obtain ⟨letter, hletter, rfl⟩ := Option.map_eq_some_iff.mp hnext
        exact Or.inr ⟨_, _, rfl, Or.inr ⟨.bus, letter, rfl, hletter, Or.inl ⟨rfl, rfl⟩⟩⟩
      · cases hs
    | fromLocal heap socket =>
      simp only [Call.answer] at ha
      split at ha <;> cases ha
    | wait | clearWaker | accept | ignored => cases ha
  | empty | disconnected | events | woken | refused | accepted | ignored =>
    exact Or.inl ⟨supplies_none ha (by simp) (by simp) hs, _, rfl⟩
  | timeout => exact Or.inr ⟨_, _, rfl, Or.inl ⟨supplies_none ha (by simp) (by simp) hs, by simp⟩⟩
  | received rest msg _ _ hp _ => exact Or.inr ⟨_, _, rfl, hopened rfl hp rfl⟩
  | lost rest e _ _ hp _ => exact Or.inr ⟨_, _, rfl, hopened rfl hp rfl⟩

theorem control_moved (hk : host.kernel.Documented)
    (hs : w.controlStep host codec control version input = some w') :
    w'.sent = w.sent ∧ w'.readers = w.readers ∧ w'.own = w.own ∧
      Bus.step host codec control version w.thread input = some w'.thread ∧
      Controlled host codec version w w' := by
  obtain ⟨source, hsource, hs⟩ := Option.bind_eq_some_iff.mp hs
  obtain ⟨thread, hthread, rfl⟩ := Option.map_eq_some_iff.mp hs
  refine ⟨rfl, rfl, rfl, hthread, ?_⟩
  obtain ⟨answer, hub, progress, ha, hm, hreceived⟩ := thread_step hthread
  obtain ⟨rfl, pc, rfl⟩ | ⟨sender, r, rfl, hread⟩ := supplied hk ha hm hsource
  · rw [added, List.append_nil] at hreceived
    refine .pending hreceived rfl ?_
    simp only [hreceived, if_true, List.append_nil]
  · have hgrown : thread.received.length ≠ w.thread.received.length := by simp [hreceived, added]
    obtain ⟨rfl, herror⟩ | ⟨s, letter, rfl, hnext, hopened⟩ := hread
    · refine .failed hreceived rfl ?_ herror
      simp only [if_neg hgrown]
      rfl
    · refine .took hreceived rfl ?_ hnext hopened
      simp only [if_neg hgrown]
      rfl

end Control

end Ipmb.Network
