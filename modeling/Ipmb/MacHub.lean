import Ipmb.Mach
import Ipmb.Run

namespace Ipmb.MacHub

open Mach Run

/-- `size_of::<mach_msg_trailer_t>()` -/
def trailerSize : Nat := 8

/-- The room `Pipe::read` starts with. -/
def initialCapacity : Nat := baseMessageSize + trailerSize + 64

/-- The capacity of an empty `Vec<u8>` after `reserve`. -/
def reserve (capacity additional : Nat) : Nat :=
  if capacity < additional then max (2 * capacity) additional else capacity

inductive PipeStatus where
  | readable
  | pending
  | offline
deriving DecidableEq

/-- Where the thread is: outside of `recv`, at the top of its loop, before `mach_msg`, before
`is_dead`, or before `kevent`. -/
inductive Pc where
  | idle
  | polling
  | receiving (capacity : Nat)
  | probing
  | waiting
deriving DecidableEq

inductive Result (M : Type) where
  | bus (msg : M)
  | port (machMsg : List UInt8)
  | timeout
  | disconnect
deriving DecidableEq

/-- The hub with its port, the bus channel and the kernel queue. `pipe` is the status of `local`.
`posted`, `sent` and `discarded` are histories, and `seen` is how much had been posted when the
port was last found empty. -/
structure State (M : Type) where
  pipe : Option PipeStatus
  busReceiver : Bool
  pc : Pc
  deadline : Option Nat
  remote : Bool
  queue : List (List UInt8)
  channel : List M
  connected : Bool
  triggered : Bool
  remoteDead : Bool
  now : Nat
  posted : List (List UInt8)
  seen : Nat
  discarded : List (List UInt8)
  sent : List M
  results : List (Result M)

/-- What the other threads and processes do, and `own` steps of the thread itself, for which the
kernel may report an error. -/
inductive Action (M : Type) where
  | post (machMsg : List UInt8)
  | send (msg : M)
  | hangUp
  | wake
  | kill
  | tick (nanos : Nat)
  | call (timeout : Option Nat) (remote : Bool)
  | own (ok : Bool)

variable {M : Type}

def State.boot (M : Type) (busReceiver : Bool) : State M :=
  ⟨some .readable, busReceiver, .idle, none, false, [], [], true, false, false, 0, [], 0, [], [], []⟩

namespace State

def ret (s : State M) (r : Result M) : State M := { s with pc := .idle, results := s.results ++ [r] }

/-- `self.local = None`: the port is destroyed, with all that is in its queue. -/
def dropLocal (s : State M) : State M :=
  { s with pipe := none, queue := [], discarded := s.discarded ++ s.queue }

/-- Behind the reading of the port. -/
def settle (s : State M) : State M :=
  if !s.busReceiver && s.pipe.isNone then s.ret .disconnect else { s with pc := .waiting }

/-- `local.read()` up to its first call of the kernel. -/
def read (s : State M) : State M :=
  match s.pipe with
  | none => s.settle
  | some .readable => { s with pc := .receiving initialCapacity }
  | some .pending => { s with pc := .probing }
  | some .offline => s.dropLocal.settle

/-- `kevent` with a timeout of 200 ms. The event of the port is level-triggered, the one of the
waker is cleared. -/
def wait (s : State M) (ok : Bool) : State M :=
  let port := ok && s.pipe.isSome && !s.queue.isEmpty
  let user := ok && s.triggered
  if port || user then
    { s with
      pc := .polling
      triggered := s.triggered && !ok
      pipe := if port then some .readable else s.pipe }
  else if s.deadline.any (· < s.now) then s.ret .timeout
  else { s with pc := .polling }

/-- A call of `mach_msg` with `MACH_RCV_LARGE` and no time to wait; the capacity is passed as a `u32`. -/
def receive (s : State M) (capacity : Nat) (ok : Bool) : State M :=
  if !ok then { s with pipe := some .offline }.dropLocal.settle
  else
    match s.queue with
    | [] => { s with pipe := some .pending, pc := .probing, seen := s.posted.length }
    | msg :: rest =>
      if capacity % 2 ^ 32 < msg.length + trailerSize then
        { s with pc := .receiving (reserve capacity (msg.length + trailerSize)) }
      else { s with queue := rest }.ret (.port msg)

def step (s : State M) : Action M → Option (State M)
  | .post msg =>
    if s.pipe.isSome && msg.length + trailerSize < 2 ^ 32 then
      some { s with queue := s.queue ++ [msg], posted := s.posted ++ [msg] }
    else none
  | .send msg =>
    if s.connected then some { s with channel := s.channel ++ [msg], sent := s.sent ++ [msg] } else none
  | .hangUp => some { s with connected := false }
  | .wake => some { s with triggered := true }
  | .kill => some { s with remoteDead := true }
  | .tick nanos => some { s with now := s.now + nanos }
  | .call timeout remote =>
    if s.pc = .idle then
      some { s with pc := .polling, deadline := timeout.map (s.now + ·), remote := remote }
    else none
  | .own ok =>
    match s.pc with
    | .idle => none
    | .polling =>
      if s.busReceiver then
        match s.channel with
        | msg :: rest => some ({ s with channel := rest }.ret (.bus msg))
        | [] => some (if s.connected then s.read else { s with busReceiver := false }.read)
      else some s.read
    | .receiving capacity => some (s.receive capacity ok)
    | .probing => some (if s.remote && s.remoteDead then s.dropLocal.settle else s.settle)
    | .waiting => some (s.wait ok)

end State

def Result.fromPort : Result M → Option (List UInt8)
  | .port msg => some msg
  | _ => none

def Result.fromBus : Result M → Option M
  | .bus msg => some msg
  | _ => none

namespace State

/-- What `recv` has returned from the port. -/
def received (s : State M) : List (List UInt8) := s.results.filterMap Result.fromPort

/-- Each message is somewhere on its way, and the ways are queues. -/
structure Fifo (s : State M) : Prop where
  port : s.posted = s.received ++ s.discarded ++ s.queue
  bus : s.sent = s.results.filterMap Result.fromBus ++ s.channel
  kept : s.pipe.isSome = true → s.discarded = []
  gone : s.pipe = none → s.queue = [] ∧ s.remoteDead = true ∧ s.received.length = s.seen
  pending : s.pipe = some .pending → s.received.length = s.seen
  online : s.pipe ≠ some .offline
  receiving : ∀ capacity, s.pc = .receiving capacity → s.pipe = some .readable
  probing : s.pc = .probing → s.pipe = some .pending

variable {s s' : State M}

theorem Fifo.ret (h : s.Fifo) {r : Result M} (hp : r.fromPort = none) (hb : r.fromBus = none) :
    (s.ret r).Fifo := by
  have hport : (s.ret r).received = s.received := by
    simp only [State.ret, received, List.filterMap_append, List.filterMap_cons, hp, List.filterMap_nil,
      List.append_nil]
  have hbus : (s.ret r).results.filterMap Result.fromBus = s.results.filterMap Result.fromBus := by
    simp only [State.ret, List.filterMap_append, List.filterMap_cons, hb, List.filterMap_nil, List.append_nil]
  refine ⟨?_, ?_, h.kept, ?_, ?_, h.online, by simp [State.ret], by simp [State.ret]⟩
  · rw [hport]
    exact h.port
  · rw [hbus]
    exact h.bus
  · rw [hport]
    exact h.gone
  · rw [hport]
    exact h.pending

/-- Only the place of the thread changes. -/
theorem Fifo.goto (h : s.Fifo) {pc : Pc}
    (hreceiving : ∀ capacity, pc = .receiving capacity → s.pipe = some .readable)
    (hprobing : pc = .probing → s.pipe = some .pending) : ({ s with pc := pc } : State M).Fifo :=
  ⟨h.port, h.bus, h.kept, h.gone, h.pending, h.online, hreceiving, hprobing⟩

theorem Fifo.settle (h : s.Fifo) : s.settle.Fifo := by
  rw [State.settle]
  split
  · exact h.ret rfl rfl
  · exact h.goto (by simp) (by simp)

/-- The port is given up when it has been found empty and the remote dead. -/
theorem Fifo.dropLocal (h : s.Fifo) (hpending : s.pipe = some .pending) (hdead : s.remoteDead = true) :
    (s.dropLocal.settle).Fifo := by
  have hdrop : ({ s.dropLocal with pc := .polling } : State M).Fifo := by
    refine ⟨?_, h.bus, by simp [State.dropLocal], fun _ => ⟨rfl, hdead, h.pending hpending⟩,
      by simp [State.dropLocal],
      by simp [State.dropLocal], by simp, by simp⟩
    have hport := h.port
    simp only [State.dropLocal, received, List.append_nil, List.append_assoc] at hport ⊢
    exact hport
  have hsettle := hdrop.settle
  simp only [State.settle, State.ret] at hsettle ⊢
  exact hsettle

theorem Fifo.read (h : s.Fifo) : s.read.Fifo := by
  rw [State.read]
  split
  · exact h.settle
  · exact h.goto (fun _ _ => ‹_›) (by simp)
  · exact h.goto (by simp) (fun _ => ‹_›)
  · exact absurd ‹_› h.online

theorem Fifo.wait (h : s.Fifo) (ok : Bool) : (s.wait ok).Fifo := by
  rw [State.wait]
  split
  · split
    · rename_i hport
      have hsome := (Bool.and_eq_true_iff.mp (Bool.and_eq_true_iff.mp hport).1).2
      exact ⟨h.port, h.bus, fun _ => h.kept hsome, by simp, by simp, by simp, by simp, by simp⟩
    · exact ⟨h.port, h.bus, h.kept, h.gone, h.pending, h.online, by simp, by simp⟩
  · split
    · exact h.ret rfl rfl
    · exact h.goto (by simp) (by simp)

theorem Fifo.receive (h : s.Fifo) {capacity : Nat} (hpc : s.pc = .receiving capacity) :
    (s.receive capacity true).Fifo := by
  have hpipe := h.receiving capacity hpc
  have hkept := h.kept (by rw [hpipe]; rfl)
  have hport := h.port
  rw [State.receive]
  simp only [Bool.not_true, Bool.false_eq_true, if_false]
  split
  · rename_i hq
    rw [hkept, hq, List.append_nil, List.append_nil] at hport
    refine ⟨?_, h.bus, fun _ => hkept, by simp, fun _ => ?_, by simp, by simp, by simp⟩
    · simp only [received, hkept, hq, List.append_nil]
      exact hport
    · simp only
      rw [hport]
      rfl
  · rename_i msg rest hq
    split
    · exact h.goto (fun _ _ => hpipe) (by simp)
    · have hreceived : (State.ret ({ s with queue := rest } : State M) (.port msg)).received =
          s.received ++ [msg] := by
        simp only [State.ret, received, List.filterMap_append]
        rfl
      refine ⟨?_, ?_, h.kept, ?_, ?_, h.online, by simp [State.ret], by simp [State.ret]⟩
      · rw [hreceived]
        simp only [State.ret]
        rw [hport, hkept, hq]
        simp
      · have hbus : (State.ret ({ s with queue := rest } : State M) (.port msg)).results.filterMap
            Result.fromBus = s.results.filterMap Result.fromBus := by
          simp only [State.ret, List.filterMap_append]
          exact List.append_nil _
        rw [hbus]
        exact h.bus
      · simp [State.ret, hpipe]
      · simp [State.ret, hpipe]

theorem Fifo.tryRecv (h : s.Fifo) {msg : M} {rest : List M} (hchannel : s.channel = msg :: rest) :
    (State.ret ({ s with channel := rest } : State M) (.bus msg)).Fifo := by
  have hreceived : (State.ret ({ s with channel := rest } : State M) (.bus msg)).received = s.received := by
    simp only [State.ret, received, List.filterMap_append]
    exact List.append_nil _
  refine ⟨?_, ?_, h.kept, ?_, ?_, h.online, by simp [State.ret], by simp [State.ret]⟩
  · rw [hreceived]
    exact h.port
  · have hbus := h.bus
    rw [hchannel] at hbus
    simp only [State.ret, List.filterMap_append, List.filterMap_cons, List.filterMap_nil, Result.fromBus,
      List.append_assoc, List.singleton_append]
    exact hbus
  · rw [hreceived]
    exact h.gone
  · rw [hreceived]
    exact h.pending

/-- `mach_msg` reports no error; `kevent` may. -/
def Received (s : State M) (a : Action M) : Prop := a = .own false → s.pc = .waiting

theorem Fifo.step (h : s.Fifo) {a : Action M} (hok : s.Received a) (hs : s.step a = some s') :
    s'.Fifo := by
  cases a with
  | post msg =>
    simp only [State.step] at hs
    split at hs
    · rename_i hopen
      cases hs
      have hsome : s.pipe.isSome = true := (Bool.and_eq_true_iff.mp hopen).1
      refine ⟨?_, h.bus, h.kept, ?_, h.pending, h.online, h.receiving, h.probing⟩
      · have hport := h.port
        simp only [received] at hport ⊢
        rw [hport, List.append_assoc _ s.queue]
      · intro hnone
        rw [hnone] at hsome
        cases hsome
    · cases hs
  | send msg =>
    simp only [State.step] at hs
    split at hs
    · cases hs
      refine ⟨h.port, ?_, h.kept, h.gone, h.pending, h.online, h.receiving, h.probing⟩
      rw [h.bus, List.append_assoc]
    · cases hs
  | hangUp | wake | tick =>
    cases hs
    exact ⟨h.port, h.bus, h.kept, h.gone, h.pending, h.online, h.receiving, h.probing⟩
  | kill =>
    cases hs
    exact ⟨h.port, h.bus, h.kept, fun hnone => ⟨(h.gone hnone).1, rfl, (h.gone hnone).2.2⟩, h.pending,
      h.online, h.receiving, h.probing⟩
  | call timeout remote =>
    simp only [State.step] at hs
    split at hs
    · cases hs
      exact ⟨h.port, h.bus, h.kept, h.gone, h.pending, h.online, by simp, by simp⟩
    · cases hs
  | own ok =>
    simp only [State.step] at hs
    split at hs
    · cases hs
    · rename_i hpc
      split at hs
      · split at hs
        · rename_i msg rest hchannel
          cases hs
          exact h.tryRecv hchannel
        · cases hs
          split
          · exact h.read
          · refine Fifo.read ?_
            exact ⟨h.port, h.bus, h.kept, h.gone, h.pending, h.online, h.receiving, h.probing⟩
      · cases hs
        exact h.read
    · rename_i capacity hpc
      cases hs
      cases ok with
      | true => exact h.receive hpc
      | false =>
        rw [hok rfl] at hpc
        cases hpc
    · rename_i hpc
      cases hs
      split
      · rename_i hdead
        exact h.dropLocal (h.probing hpc) (Bool.and_eq_true_iff.mp hdead).2
      · exact h.settle
    · cases hs
      exact h.wait ok

end State

theorem boot_fifo (busReceiver : Bool) : (State.boot M busReceiver).Fifo :=
  ⟨rfl, rfl, fun _ => rfl, by simp [State.boot], by simp [State.boot], by simp [State.boot],
    by simp [State.boot], by simp [State.boot]⟩

/-- What has been posted is received in order and once, or waits in the queue. The port is given
up only when the remote is dead, and then exactly the messages posted after the port was last found
empty are lost. The channel of the bus loses nothing. -/
theorem port_in_order {busReceiver : Bool} {actions : List (Action M)} {s : State M}
    (hok : Along State.step State.Received (State.boot M busReceiver) actions)
    (h : run State.step (State.boot M busReceiver) actions = some s) :
    s.sent = s.results.filterMap Result.fromBus ++ s.channel ∧
      (s.pipe.isSome = true → s.posted = s.received ++ s.queue) ∧
      (s.pipe = none → s.remoteDead = true ∧ s.received = s.posted.take s.seen ∧
        s.discarded = s.posted.drop s.seen) := by
  have hfifo : s.Fifo :=
    along_invariant State.Fifo (fun _ _ _ hs hok hstep => hs.step hok hstep) (boot_fifo busReceiver) hok h
  have hport := hfifo.port
  refine ⟨hfifo.bus, fun hsome => ?_, fun hnone => ?_⟩
  · rw [hport, hfifo.kept hsome, List.append_nil]
  · obtain ⟨hqueue, hdead, hseen⟩ := hfifo.gone hnone
    rw [hqueue, List.append_nil] at hport
    rw [hport, ← hseen]
    exact ⟨hdead, (List.take_left).symm, (List.drop_left).symm⟩

section Example

/-- The second message is posted between the two questions, whether there is a message and
whether the remote is dead. -/
def overtaken : List (Action Nat) :=
  [.post [1], .call none true, .own true, .own true, .call none true, .own true, .own true,
    .post [2], .kill, .own true]

theorem overtaken_received : Along State.step State.Received (State.boot Nat false) overtaken :=
  along_of_forall (by simp [overtaken, State.Received]) _

theorem port_in_order_overtaken :
    ∃ s, run State.step (State.boot Nat false) overtaken = some s ∧ s.received = [[1]] ∧
      s.discarded = [[2]] := by
  have hrun : (run State.step (State.boot Nat false) overtaken).map (fun s => (s.pipe, s.posted, s.seen)) =
      some (none, [[1], [2]], 1) := by
    decide +kernel
  obtain ⟨s, hs, hobs⟩ := Option.map_eq_some_iff.mp hrun
  simp only [Prod.mk.injEq] at hobs
  obtain ⟨hpipe, hposted, hseen⟩ := hobs
  obtain ⟨-, hreceived, hdiscarded⟩ := (port_in_order overtaken_received hs).2.2 hpipe
  refine ⟨s, hs, ?_, ?_⟩
  · rw [hreceived, hposted, hseen]
    rfl
  · rw [hdiscarded, hposted, hseen]
    rfl

end Example

section Progress

namespace State

variable {s s' : State M}

theorem settle_results (s : State M) : s.results.length ≤ s.settle.results.length := by
  rw [settle]
  split
  · simp [ret]
  · exact Nat.le_refl _

theorem read_results (s : State M) : s.results.length ≤ s.read.results.length := by
  rw [read]
  split
  · exact s.settle_results
  · exact Nat.le_refl _
  · exact Nat.le_refl _
  · exact s.dropLocal.settle_results

theorem step_results {a : Action M} (hs : s.step a = some s') : s.results.length ≤ s'.results.length := by
  cases a with
  | post | send | call =>
    simp only [State.step] at hs
    split at hs
    · cases hs
      exact Nat.le_refl _
    · cases hs
  | hangUp | wake | kill | tick =>
    cases hs
    exact Nat.le_refl _
  | own ok =>
    simp only [State.step] at hs
    split at hs
    · cases hs
    · split at hs
      · split at hs
        · cases hs
          simp [ret]
        · cases hs
          split
          · exact s.read_results
          · exact State.read_results ({ s with busReceiver := false } : State M)
      · cases hs
        exact s.read_results
    · cases hs
      rw [receive]
      split
      · exact State.settle_results ({ s with pipe := some .offline } : State M).dropLocal
      · split
        · exact Nat.le_refl _
        · split
          · exact Nat.le_refl _
          · simp [ret]
    · cases hs
      split
      · exact State.settle_results s.dropLocal
      · exact State.settle_results s
    · cases hs
      rw [wait]
      split
      · exact Nat.le_refl _
      · split
        · simp [ret]
        · exact Nat.le_refl _

end State

variable {s s' : State M}

/-- The buffer has room for the message after it has been enlarged for it. -/
theorem reserve_fits {n : Nat} (hfits : n < 2 ^ 32) (hlarge : initialCapacity % 2 ^ 32 < n) :
    n ≤ reserve initialCapacity n % 2 ^ 32 := by
  have hinitial : initialCapacity = 100 := rfl
  rw [hinitial] at hlarge ⊢
  rw [reserve, if_pos (by omega), Nat.mod_eq_of_lt (by omega)]
  omega

/-- The buffer has its first size, or the one that the message at the head of the queue needs. -/
structure Sized (s : State M) : Prop where
  fits : ∀ msg ∈ s.queue, msg.length + trailerSize < 2 ^ 32
  receiving : ∀ capacity, s.pc = .receiving capacity → capacity = initialCapacity ∨
    ∃ msg ∈ s.queue.head?, msg.length + trailerSize ≤ capacity % 2 ^ 32

theorem Sized.goto (h : Sized s) (hqueue : s'.queue = s.queue ∨ s'.queue = [])
    (hpc : ∀ capacity, s'.pc = .receiving capacity → capacity = initialCapacity) : Sized s' := by
  refine ⟨?_, fun capacity hc => Or.inl (hpc capacity hc)⟩
  obtain hqueue | hqueue := hqueue
  · rw [hqueue]
    exact h.fits
  · simp [hqueue]

theorem Sized.settle (h : Sized s) : Sized s.settle := by
  rw [State.settle]
  split
  · exact h.goto (Or.inl rfl) (by simp [State.ret])
  · exact h.goto (Or.inl rfl) (by simp)

theorem Sized.dropLocal (h : Sized s) : Sized s.dropLocal.settle := by
  have hdrop : Sized ({ s.dropLocal with pc := .polling } : State M) := h.goto (Or.inr rfl) (by simp)
  have hsettle := hdrop.settle
  simp only [State.settle, State.ret] at hsettle ⊢
  exact hsettle

theorem Sized.read (h : Sized s) : Sized s.read := by
  rw [State.read]
  split
  · exact h.settle
  · exact h.goto (Or.inl rfl) (by rintro capacity ⟨⟩; rfl)
  · exact h.goto (Or.inl rfl) (by simp)
  · exact h.dropLocal

theorem Sized.receive (h : Sized s) {capacity : Nat} (hpc : s.pc = .receiving capacity) (ok : Bool) :
    Sized (s.receive capacity ok) := by
  rw [State.receive]
  split
  · have hoffline : Sized ({ s with pipe := some .offline } : State M) := ⟨h.fits, h.receiving⟩
    exact hoffline.dropLocal
  · split
    · exact h.goto (Or.inl rfl) (by simp)
    · rename_i msg rest hq
      have hfits := h.fits msg (hq ▸ List.mem_cons_self)
      split
      · rename_i hlarge
        refine ⟨h.fits, ?_⟩
        rintro capacity' ⟨⟩
        refine Or.inr ⟨msg, by simp [hq], ?_⟩
        obtain rfl | ⟨msg', hhead, hle⟩ := h.receiving capacity hpc
        · exact reserve_fits hfits hlarge
        · rw [hq, List.head?_cons, Option.mem_some_iff] at hhead
          subst hhead
          omega
      · refine ⟨fun m hm => h.fits m ?_, by simp [State.ret]⟩
        rw [hq]
        exact List.mem_cons_of_mem _ hm

theorem Sized.step (h : Sized s) {a : Action M} (hs : s.step a = some s') : Sized s' := by
  cases a with
  | post msg =>
    simp only [State.step] at hs
    split at hs
    · rename_i hopen
      cases hs
      have hlen : msg.length + trailerSize < 2 ^ 32 := by simpa using (Bool.and_eq_true_iff.mp hopen).2
      refine ⟨?_, fun capacity hpc => (h.receiving capacity hpc).imp_right ?_⟩
      · intro m hm
        obtain hm | hm := List.mem_append.mp hm
        · exact h.fits m hm
        · rwa [List.mem_singleton.mp hm]
      · rintro ⟨m, hhead, hle⟩
        exact ⟨m, List.mem_head?_append_of_mem_head? hhead, hle⟩
    · cases hs
  | send | call =>
    simp only [State.step] at hs
    split at hs
    · cases hs
      first | exact ⟨h.fits, h.receiving⟩ | exact h.goto (Or.inl rfl) (by simp)
    · cases hs
  | hangUp | wake | kill | tick =>
    cases hs
    exact ⟨h.fits, h.receiving⟩
  | own ok =>
    simp only [State.step] at hs
    split at hs
    · cases hs
    · split at hs
      · split at hs
        · cases hs
          exact h.goto (Or.inl rfl) (by simp [State.ret])
        · cases hs
          split
          · exact h.read
          · have hclosed : Sized ({ s with busReceiver := false } : State M) := ⟨h.fits, h.receiving⟩
            exact hclosed.read
      · cases hs
        exact h.read
    · cases hs
      exact h.receive ‹_› ok
    · cases hs
      split
      · exact h.dropLocal
      · exact h.settle
    · cases hs
      rw [State.wait]
      split
      · exact h.goto (Or.inl rfl) (by simp)
      · split
        · exact h.goto (Or.inl rfl) (by simp [State.ret])
        · exact h.goto (Or.inl rfl) (by simp)

/-- A call is under way while the port has a message for it. The hub of a controller has the
channel, the one of an endpoint is given the remote. -/
structure Serving (s : State M) : Prop where
  called : s.pc ≠ .idle
  alive : s.pipe = some .readable ∨ s.pipe = some .pending
  head : s.queue ≠ []
  one : s.busReceiver = false ∨ s.remote = false
  receiving : ∀ capacity, s.pc = .receiving capacity → s.pipe = some .readable
  sized : Sized s

/-- How many steps of the thread are left. -/
def State.rank (s : State M) : Nat :=
  match s.pc with
  | .idle => 0
  | .polling => if s.pipe = some .readable then 3 else 6
  | .receiving capacity =>
    if s.queue.head?.any (fun msg => capacity % 2 ^ 32 < msg.length + trailerSize) then 2 else 1
  | .probing => 5
  | .waiting => 4

def Action.isOwn : Action M → Bool
  | .own _ => true
  | _ => false

/-- The others do not disturb the thread. -/
theorem Serving.environment (h : Serving s) {a : Action M} (ha : a.isOwn = false)
    (hs : s.step a = some s') : Serving s' ∧ s'.rank = s.rank := by
  have hsized := h.sized.step hs
  cases a with
  | post msg =>
    simp only [State.step] at hs
    split at hs
    · cases hs
      refine ⟨⟨h.called, h.alive, by simp, h.one, h.receiving, hsized⟩, ?_⟩
      simp only [State.rank, List.head?_append_of_ne_nil _ h.head]
    · cases hs
  | send msg =>
    simp only [State.step] at hs
    split at hs
    · cases hs
      exact ⟨⟨h.called, h.alive, h.head, h.one, h.receiving, hsized⟩, rfl⟩
    · cases hs
  | hangUp | wake | kill | tick =>
    cases hs
    exact ⟨⟨h.called, h.alive, h.head, h.one, h.receiving, hsized⟩, rfl⟩
  | call timeout remote =>
    simp only [State.step] at hs
    split at hs
    · exact absurd ‹_› h.called
    · cases hs
  | own ok => cases ha

theorem State.read_readable (h : s.pipe = some .readable) :
    s.read = { s with pc := .receiving initialCapacity } := by
  simp only [State.read, h]

theorem State.read_pending (h : s.pipe = some .pending) : s.read = { s with pc := .probing } := by
  simp only [State.read, h]

theorem State.receive_cons {msg : List UInt8} {rest : List (List UInt8)} (h : s.queue = msg :: rest)
    (capacity : Nat) :
    s.receive capacity true =
      if capacity % 2 ^ 32 < msg.length + trailerSize then
        { s with pc := .receiving (reserve capacity (msg.length + trailerSize)) }
      else State.ret { s with queue := rest } (.port msg) := by
  simp only [State.receive, h, Bool.not_true, Bool.false_eq_true, if_false]

theorem Serving.read (h : Serving s) (hpc : s.pc = .polling) :
    Serving s.read ∧ s.read.rank + 1 ≤ s.rank := by
  have hsized := h.sized.read
  obtain hpipe | hpipe := h.alive
  · rw [State.read_readable hpipe] at hsized ⊢
    refine ⟨⟨by simp, h.alive, h.head, h.one, fun _ _ => hpipe, hsized⟩, ?_⟩
    simp only [State.rank, hpc, hpipe, if_true]
    split <;> omega
  · rw [State.read_pending hpipe] at hsized ⊢
    refine ⟨⟨by simp, h.alive, h.head, h.one, by simp, hsized⟩, ?_⟩
    simp [State.rank, hpc, hpipe]

/-- The second call of `mach_msg` has room for the message. -/
theorem Serving.receive (h : Serving s) {capacity : Nat} (hpc : s.pc = .receiving capacity) :
    s.results.length < (s.receive capacity true).results.length ∨
      Serving (s.receive capacity true) ∧ (s.receive capacity true).rank + 1 ≤ s.rank := by
  have hpipe := h.receiving capacity hpc
  have hsized := h.sized.receive hpc true
  obtain ⟨msg, rest, hq⟩ := List.exists_cons_of_ne_nil h.head
  rw [State.receive_cons hq] at hsized ⊢
  split at hsized
  · rename_i hlarge
    rw [if_pos hlarge]
    right
    refine ⟨⟨by simp, h.alive, h.head, h.one, fun _ _ => hpipe, hsized⟩, ?_⟩
    obtain hinitial | ⟨msg', hhead, hle⟩ := h.sized.receiving capacity hpc
    · subst hinitial
      have hroom := reserve_fits (h.sized.fits msg (hq ▸ List.mem_cons_self)) hlarge
      simp only [State.rank, hpc, hq, List.head?_cons, Option.any_some]
      rw [if_neg (by simpa using hroom), if_pos (by simpa using hlarge)]
    · rw [hq, List.head?_cons, Option.mem_some_iff] at hhead
      subst hhead
      omega
  · rename_i hroom
    rw [if_neg hroom]
    left
    simp [State.ret]

theorem Serving.own (h : Serving s) (hs : s.step (.own true) = some s') :
    s.results.length < s'.results.length ∨ Serving s' ∧ s'.rank + 1 ≤ s.rank := by
  simp only [State.step] at hs
  split at hs
  · cases hs
  · rename_i hpc
    split at hs
    · split at hs
      · cases hs
        left
        simp [State.ret]
      · cases hs
        right
        split
        · exact h.read hpc
        · have hserving : Serving ({ s with busReceiver := false } : State M) :=
            ⟨h.called, h.alive, h.head, Or.inl rfl, h.receiving, h.sized.fits, h.sized.receiving⟩
          exact hserving.read hpc
    · cases hs
      exact Or.inr (h.read hpc)
  · cases hs
    exact h.receive ‹_›
  · rename_i hpc
    cases hs
    have hsome : s.pipe.isNone = false := by
      obtain hpipe | hpipe := h.alive <;> rw [hpipe] <;> rfl
    split
    · rename_i hdead
      -- the remote is dead, and there is no other source
      left
      have hbus : s.busReceiver = false := by
        obtain hbus | hremote := h.one
        · exact hbus
        · rw [hremote] at hdead
          cases hdead
      simp [State.settle, State.dropLocal, State.ret, hbus]
    · right
      have hsized := h.sized.settle
      simp only [State.settle, hsome, Bool.and_false, Bool.false_eq_true, if_false] at hsized ⊢
      refine ⟨⟨by simp, h.alive, h.head, h.one, by simp, hsized⟩, ?_⟩
      simp [State.rank, hpc]
  · rename_i hpc
    cases hs
    right
    have hport : (s.pipe.isSome && !s.queue.isEmpty) = true := by
      have hhead := h.head
      obtain hpipe | hpipe := h.alive <;> simp [hpipe, hhead]
    simp only [State.wait, Bool.true_and, hport, Bool.true_or, if_true]
    refine ⟨⟨by simp, Or.inl rfl, h.head, h.one, by simp, h.sized.goto (Or.inl rfl) (by simp)⟩, ?_⟩
    simp [State.rank, hpc]

theorem Serving.rank_le (s : State M) : s.rank ≤ 6 := by
  rw [State.rank]
  split
  · omega
  · split <;> omega
  · split <;> omega
  · omega
  · omega

theorem Serving.enabled (h : Serving s) : (s.step (.own true)).isSome = true := by
  have hcalled := h.called
  simp only [State.step]
  split
  · exact absurd ‹_› hcalled
  · split
    · split <;> rfl
    · rfl
  · rfl
  · rfl
  · rfl

theorem Serving.returns {actions : List (Action M)} (h : Serving s)
    (hok : ∀ a ∈ actions, a ≠ .own false) (hrun : run State.step s actions = some s') :
    s.results.length < s'.results.length ∨
      actions.countP Action.isOwn ≤ 6 ∧ (s'.step (.own true)).isSome = true := by
  have hresponse := run_response Action.isOwn (fun a => a ≠ .own false)
    (fun t => s.results.length < t.results.length)
    (fun t => Serving t ∧ s.results.length ≤ t.results.length) State.rank
    (fun t a u ht hu => Nat.lt_of_lt_of_le ht (State.step_results hu))
    (fun t a u ht ha hu => ?_) ⟨h, Nat.le_refl _⟩ hok hrun
  · obtain hdone | ⟨⟨hserving, -⟩, hrank⟩ := hresponse
    · exact Or.inl hdone
    · have hle := Serving.rank_le s
      exact Or.inr ⟨by omega, hserving.enabled⟩
  · obtain ⟨hserving, hle⟩ := ht
    cases hown : a.isOwn with
    | false =>
      obtain ⟨hnext, hrank⟩ := hserving.environment hown hu
      exact Or.inr ⟨⟨hnext, Nat.le_trans hle (State.step_results hu)⟩, hrank.le⟩
    | true =>
      obtain ⟨ok, rfl⟩ : ∃ ok, a = .own ok := by
        cases a <;> first | exact ⟨_, rfl⟩ | cases hown
      cases ok with
      | false => exact absurd rfl ha
      | true =>
        obtain hreturned | ⟨hnext, hrank⟩ := hserving.own hu
        · exact Or.inl (Nat.lt_of_le_of_lt hle hreturned)
        · exact Or.inr ⟨⟨hnext, Nat.le_trans hle (State.step_results hu)⟩, hrank⟩

/-- While a message is waiting, `recv` does not block: whatever the others do in the meantime, the
thread can take its next step, and it returns before it has taken its seventh. -/
theorem recv_returns {busReceiver : Bool} {before actions : List (Action M)}
    (hstart : run State.step (State.boot M busReceiver) before = some s)
    (hbefore : Along State.step State.Received (State.boot M busReceiver) before)
    (hcalled : s.pc ≠ .idle) (hpipe : s.pipe.isSome = true) (hqueue : s.queue ≠ [])
    (hone : s.busReceiver = false ∨ s.remote = false)
    (hok : ∀ a ∈ actions, a ≠ .own false) (hrun : run State.step s actions = some s') :
    s.results.length < s'.results.length ∨
      actions.countP Action.isOwn ≤ 6 ∧ (s'.step (.own true)).isSome = true := by
  obtain ⟨hfifo, hsized⟩ : s.Fifo ∧ Sized s :=
    along_invariant (fun s => s.Fifo ∧ Sized s)
      (fun _ _ _ hs hok hstep => ⟨hs.1.step hok hstep, hs.2.step hstep⟩)
      ⟨boot_fifo busReceiver, by simp [State.boot], by simp [State.boot]⟩ hbefore hstart
  have halive : s.pipe = some .readable ∨ s.pipe = some .pending := by
    have honline := hfifo.online
    obtain ⟨status, hstatus⟩ := Option.isSome_iff_exists.mp hpipe
    rw [hstatus] at honline ⊢
    cases status <;> simp at honline ⊢
  exact Serving.returns ⟨hcalled, halive, hqueue, hone, hfifo.receiving, hsized⟩ hok hrun

/-- The buffer of the first call is too small for the message. -/
theorem recv_returns_large :
    ∃ s s', run State.step (State.boot Nat true) [.call none false, .post (List.replicate 100 0)] = some s ∧
      run State.step s [.own true, .own true, .own true, .call none false, .own true, .own true, .own true,
        .own true] = some s' ∧ s.results.length < s'.results.length := by
  have hrun : (run State.step (State.boot Nat true) [.call none false, .post (List.replicate 100 0)]).map
      (fun s => (s.pc, s.pipe, s.queue.length, s.remote, (run State.step s [.own true, .own true, .own true,
        .call none false, .own true, .own true, .own true, .own true]).isSome)) =
      some (.polling, some .readable, 1, false, true) := by
    decide +kernel
  obtain ⟨s, hs, hobs⟩ := Option.map_eq_some_iff.mp hrun
  simp only [Prod.mk.injEq] at hobs
  obtain ⟨hpc, hpipe, hqueue, hremote, hsteps⟩ := hobs
  obtain ⟨s', hs'⟩ := Option.isSome_iff_exists.mp hsteps
  refine ⟨s, s', hs, hs', ?_⟩
  have hreturns := recv_returns hs (along_of_forall (by simp [State.Received]) _) (by simp [hpc])
    (by simp [hpipe]) (by rintro hnil; simp [hnil] at hqueue) (Or.inr hremote) (by simp) hs'
  obtain hdone | ⟨hle, -⟩ := hreturns
  · exact hdone
  · exact absurd hle (by decide)

end Progress

end Ipmb.MacHub
