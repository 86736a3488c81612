import Ipmb.HubSteps
import Ipmb.Linux

namespace Ipmb.Bus

open Labels Messages Time Buffers Encoding Faults Decoding Backend Run Controller Linux Hub

variable {W : Type} (host : Host W) (codec : Codec) (control : Control) (version : Version)

/-- A call of `recv`, with what the operating system and the channel return. -/
inductive Call where
  | tryRecv (r : TryRecv EncodedMessage)
  | wait (events : List RawFd)
  | clearWaker
  | accept (fd : Option RawFd)
  | fromLocal (heap : Heap) (socket : Option Datagram)
  | ignored

/-- The datagram is parsed; `none` when that goes wrong. -/
def Call.answer : Call → Option (Answer EncodedMessage RawFd)
  | .tryRecv r => some (.tryRecv r)
  | .wait events => some (.wait events)
  | .clearWaker => some .clearWaker
  | .accept fd => some (.accept fd)
  | .fromLocal heap socket =>
    match Decoding.fromLocal host.kernel codec version heap socket with
    | .ok msg => some (.fromLocal (.ok msg))
    | .error (.error e) => some (.fromLocal (.error e))
    | .error (.fault _) => none
  | .ignored => some .ignored

/-- The thread of the bus controller. `received` lists the sources and the iterations of
the loop so far. -/
structure Thread (W : Type) where
  hub : IoHub
  pc : Pc
  received : List (Source × Iteration EncodedMessage RawFd W)
  state : BusController EncodedMessage RawFd × W

/-- A call of `recv` and, should that return, the rest of the iteration. -/
structure Input (W : Type) where
  call : Call
  interfere : W → W
  now : Instant

def boot (label : Label) (token : String) (now : Instant) (w : W) (listener waker : RawFd) : Thread W :=
  ⟨forBusController listener waker, .polling, [], new label token now, w⟩

def step (s : Thread W) (i : Input W) : Option (Thread W) :=
  (i.call.answer host codec version).bind fun answer =>
  (s.hub.step s.pc answer).bind fun next =>
    match next.2 with
    | .pending pc => some { s with hub := next.1, pc := pc }
    | .returned source r =>
      let it : Iteration EncodedMessage RawFd W := ⟨i.interfere, r, i.now⟩
      (iterate (linux host codec control version) s.state it).map fun state =>
        ⟨next.1, next.1.start, s.received ++ [(source, it)], state⟩

/-- The message came over the controller's own channel, or over an accepted connection
with a version the controller accepts. -/
def Vouched (hub : IoHub) (source : Source) (msg : EncodedMessage) : Prop :=
  source = .bus ∨ ∃ n < hub.accepted, source = .connection n ∧
    ∃ v, readVersion version msg.iovData = .ok v

theorem fromLocal_version {k : Kernel} {heap : Heap} {socket : Option Datagram} {msg : EncodedMessage}
    (h : fromLocal k codec version heap socket = .ok msg) :
    ∃ v, readVersion version msg.iovData = .ok v := by
  rw [fromLocal] at h
  simp only at h
  split at h
  · cases h
  · split at h
    · cases h
    · obtain ⟨objects, -, h⟩ := bind_eq_ok.mp h
      obtain ⟨v, hv, h⟩ := bind_eq_ok.mp h
      obtain ⟨selector, -, h⟩ := bind_eq_ok.mp h
      obtain ⟨attached, -, h⟩ := bind_eq_ok.mp h
      obtain ⟨payload, -, rfl⟩ := map_eq_ok.mp h
      exact ⟨v, hv⟩

/-- What holds of the thread after every call. -/
structure Traced (label : Label) (token : String) (now : Instant) (w : W) (s : Thread W) : Prop where
  sound : s.hub.Sound
  vouched : ∀ e ∈ s.received, ∀ msg, e.2.received = .ok msg → Vouched version s.hub e.1 msg
  ran : run (iterate (linux host codec control version)) (new label token now, w)
    (s.received.map Prod.snd) = some s.state

variable {host codec control version}

/-- What the hub makes of a datagram is what the parser has returned. -/
theorem answer_fromLocal {call : Call} {r : Except (Error RawFd) EncodedMessage}
    (h : call.answer host codec version = some (.fromLocal r)) :
    ∃ heap socket, call = .fromLocal heap socket ∧
      outcome (Decoding.fromLocal host.kernel codec version heap socket) = some r := by
  cases call with
  | fromLocal heap socket =>
    refine ⟨heap, socket, rfl, ?_⟩
    simp only [Call.answer] at h
    split at h
    · cases h
      exact outcome_ok.mpr ‹_›
    · cases h
      exact outcome_error.mpr ‹_›
    · cases h
  | _ => cases h

/-- A call of `recv` adds to what has been received at most what the hub returns. -/
theorem step_received {s s' : Thread W} {i : Input W}
    (hs : step host codec control version s i = some s')
    {P : Source × Iteration EncodedMessage RawFd W → Prop} (h : ∀ e ∈ s.received, P e)
    (hnew : ∀ answer hub source r, i.call.answer host codec version = some answer →
      HubSteps.Moved s.hub s.pc answer hub (.returned source r) → P (source, ⟨i.interfere, r, i.now⟩)) :
    ∀ e ∈ s'.received, P e := by
  obtain ⟨answer, ha, hs⟩ := Option.bind_eq_some_iff.mp hs
  obtain ⟨⟨hub, progress⟩, hstep, hs⟩ := Option.bind_eq_some_iff.mp hs
  have hmoved := HubSteps.step_moved hstep
  cases progress with
  | pending pc =>
    cases hs
    exact h
  | returned source r =>
    obtain ⟨state, -, rfl⟩ := Option.map_eq_some_iff.mp hs
    intro e he
    obtain he | he := List.mem_append.mp he
    · exact h e he
    · cases List.mem_singleton.mp he
      exact hnew answer hub source r ha hmoved

variable {label : Label} {token : String} {now : Instant} {w : W}

theorem Vouched.mono {hub hub' : IoHub} {source : Source} {msg : EncodedMessage}
    (h : Vouched version hub source msg) (hle : hub.accepted ≤ hub'.accepted) :
    Vouched version hub' source msg := by
  apply h.imp_right
  rintro ⟨n, hn, hsource⟩
  exact ⟨n, Nat.lt_of_lt_of_le hn hle, hsource⟩

theorem stepped_vouched {call : Call} {hub hub' : IoHub} {answer : Answer EncodedMessage RawFd}
    {progress : Progress EncodedMessage RawFd} (ha : call.answer host codec version = some answer)
    (hs : Stepped hub answer hub' progress) {source : Source} {msg : EncodedMessage}
    (hr : progress = .returned source (.ok msg)) : Vouched version hub' source msg := by
  obtain ⟨rfl, -⟩ | ⟨n, hn, rfl, rfl⟩ := hs.source source msg hr
  · exact Or.inl rfl
  · obtain ⟨heap, socket, -, hparse⟩ := answer_fromLocal ha
    exact Or.inr ⟨n, hn, rfl, fromLocal_version codec version (outcome_ok.mp hparse)⟩

theorem step_traced {s s' : Thread W} {i : Input W}
    (h : Traced host codec control version label token now w s)
    (hs : step host codec control version s i = some s') :
    Traced host codec control version label token now w s' := by
  obtain ⟨answer, ha, hs⟩ := Option.bind_eq_some_iff.mp hs
  obtain ⟨⟨hub, progress⟩, hstep, hs⟩ := Option.bind_eq_some_iff.mp hs
  have hstepped := (HubSteps.step_moved hstep).stepped h.sound
  have hold : ∀ e ∈ s.received, ∀ msg, e.2.received = .ok msg → Vouched version hub e.1 msg :=
    fun e he msg hm => (h.vouched e he msg hm).mono hstepped.grows
  cases progress with
  | pending pc =>
    cases hs
    exact ⟨hstepped.sound, hold, h.ran⟩
  | returned source r =>
    obtain ⟨state, hit, rfl⟩ := Option.map_eq_some_iff.mp hs
    refine ⟨hstepped.sound, ?_, ?_⟩
    · intro e he msg hm
      obtain he | he := List.mem_append.mp he
      · exact hold e he msg hm
      · cases List.mem_singleton.mp he
        exact stepped_vouched ha hstepped (congrArg (Progress.returned source) hm)
    · rw [List.map_append, List.map_singleton, run_concat, h.ran]
      exact hit

theorem run_traced {listener waker : RawFd} {inputs : List (Input W)} {s : Thread W}
    (h : run (step host codec control version) (boot label token now w listener waker) inputs =
      some s) : Traced host codec control version label token now w s :=
  run_invariant (fun _ s => Traced host codec control version label token now w s)
    ⟨by simp [boot, forBusController, IoHub.Sound], by simp [boot], rfl⟩
    (fun _ _ _ _ _ ht hs => step_traced ht hs) inputs s h

end Ipmb.Bus
