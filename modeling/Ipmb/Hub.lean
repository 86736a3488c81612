import Ipmb.Buffers
import Ipmb.Messages

namespace Ipmb.Hub

open Messages Buffers

/-- An accepted connection, numbered in the order of the `accept` calls. -/
structure Local where
  fd : RawFd
  connection : Nat
deriving DecidableEq

/-- The hub of a bus controller. `busRx` says whether the channel is still connected,
and `accepted` counts the connections. -/
structure IoHub where
  busRx : Bool
  localList : List Local
  listener : Option RawFd
  waker : RawFd
  accepted : Nat
deriving DecidableEq

def forBusController (listener waker : RawFd) : IoHub := ⟨true, [], some listener, waker, 0⟩

/-- Where `recv` is: before `try_recv`, before `epoll_wait`, or in the loop over the
events it returned. -/
inductive Pc where
  | polling
  | waiting
  | draining (inBuffer : List RawFd)
deriving DecidableEq

inductive TryRecv (M : Type) where
  | message (msg : M)
  | empty
  | disconnected

/-- What the calls that `recv` makes return. Nothing is called for an event of a
descriptor that is not in the list. -/
inductive Answer (M R : Type) where
  | tryRecv (r : TryRecv M)
  | wait (events : List RawFd)
  | clearWaker
  | accept (fd : Option RawFd)
  | fromLocal (r : Except (Error R) M)
  | ignored

inductive Source where
  | bus
  | connection (n : Nat)
  | timer
deriving DecidableEq

inductive Progress (M R : Type) where
  | pending (pc : Pc)
  | returned (source : Source) (r : Except (Error R) M)

/-- The top of the loop. -/
def IoHub.start (hub : IoHub) : Pc := if hub.busRx then .polling else .waiting

/-- The next element of the drained buffer, or the top of the loop. -/
def IoHub.next (hub : IoHub) (inBuffer : List RawFd) : Pc :=
  if inBuffer.isEmpty then hub.start else .draining inBuffer

/-- The capacity of the event buffer. -/
def maxEvents : Nat := 2

def swapRemove {α : Type} (l : List α) (i : Nat) : List α :=
  match l.getLast? with
  | none => []
  | some last => (l.set i last).dropLast

variable {M R : Type}

/-- The body of the loop over the events. -/
def IoHub.event (hub : IoHub) (ev : RawFd) (rest : List RawFd) (answer : Answer M R) :
    Option (IoHub × Progress M R) :=
  if ev = hub.waker then
    match answer with
    | .clearWaker => some (hub, .pending (hub.next rest))
    | _ => none
  else if hub.listener = some ev then
    match answer with
    | .accept none => some (hub, .pending (hub.next rest))
    | .accept (some fd) =>
      some ({ hub with
        localList := hub.localList ++ [⟨fd, hub.accepted⟩]
        accepted := hub.accepted + 1 }, .pending (hub.next rest))
    | _ => none
  else
    let i := hub.localList.findIdx (fun p => p.fd == ev)
    match hub.localList[i]?, answer with
    | some p, .fromLocal (.ok msg) => some (hub, .returned (.connection p.connection) (.ok msg))
    | some p, .fromLocal (.error e) =>
      some ({ hub with localList := swapRemove hub.localList i },
        .returned (.connection p.connection) (.error e))
    | none, .ignored => some (hub, .pending (hub.next rest))
    | _, _ => none

/-- `IoHub::recv` from one call to the next; `none` for an answer to another call. -/
def IoHub.step (hub : IoHub) : Pc → Answer M R → Option (IoHub × Progress M R)
  | .polling, .tryRecv (.message msg) => some (hub, .returned .bus (.ok msg))
  | .polling, .tryRecv .empty => some (hub, .pending .waiting)
  | .polling, .tryRecv .disconnected => some ({ hub with busRx := false }, .pending .waiting)
  | .waiting, .wait events =>
    if events.isEmpty then some (hub, .returned .timer (.error .timeout))
    else if events.length ≤ maxEvents then some (hub, .pending (.draining events))
    else none
  | .draining (ev :: rest), answer => hub.event ev rest answer
  | _, _ => none

theorem mem_swapRemove {α : Type} {l : List α} {i : Nat} {a : α} (h : a ∈ swapRemove l i) : a ∈ l := by
  rw [swapRemove] at h
  cases hl : l.getLast? with
  | none =>
    rw [hl] at h
    cases h
  | some last =>
    rw [hl] at h
    obtain ha | rfl := List.mem_or_eq_of_mem_set (List.dropLast_subset _ h)
    · exact ha
    · exact List.mem_of_getLast? hl

/-- The listed connections have been accepted. -/
def IoHub.Sound (hub : IoHub) : Prop := ∀ p ∈ hub.localList, p.connection < hub.accepted

/-- What `recv` has done by one call: a message it returns has come over the channel, or
has been read from an accepted connection. -/
structure Stepped (hub : IoHub) (answer : Answer M R) (hub' : IoHub) (progress : Progress M R) :
    Prop where
  sound : hub'.Sound
  grows : hub.accepted ≤ hub'.accepted
  source : ∀ source msg, progress = .returned source (.ok msg) →
    source = .bus ∧ answer = .tryRecv (.message msg) ∨
      ∃ n < hub'.accepted, source = .connection n ∧ answer = .fromLocal (.ok msg)

theorem Stepped.pending {hub : IoHub} {answer : Answer M R} {pc : Pc} (h : hub.Sound) :
    Stepped hub answer hub (.pending pc) :=
  ⟨h, Nat.le_refl _, by simp⟩

end Ipmb.Hub
