import Ipmb.Bus
import Ipmb.HubSteps
import Ipmb.PlainHost
import Ipmb.Refusals

namespace Ipmb.Timeouts

open Messages Time Buffers Encoding Decoding Reference Run Linux PlainHost Hub HubSteps Refusals

def nanosPerMilli : Nat := 1000000

/-- `as_millis`. -/
def wholeMillis (t : Duration) : Nat := t.nanos / nanosPerMilli

/-- The timeout that `epoll_wait` is called with: a `c_int` keeps the last 32 bits. -/
def epollTimeout : Option Duration → Int
  | some t => (BitVec.ofNat 32 (wholeMillis t)).toInt
  | none => -1

/-- What `epoll_wait` returns: events, zero, or -1 when a signal has interrupted it. -/
inductive EpollWait where
  | events (ev : RawFd) (rest : List RawFd)
  | expired
  | interrupted
deriving DecidableEq

/-- The events that `IoMultiplexing::wait` leaves in the buffer. -/
def EpollWait.inBuffer : EpollWait → List RawFd
  | .events ev rest => ev :: rest
  | .expired => []
  | .interrupted => []

/-- The wait is over without an event only if it is not unbounded, and has taken its time. -/
def EpollWait.possible (millis : Int) (took : Nat) : EpollWait → Bool
  | .expired => decide (0 ≤ millis ∧ millis * nanosPerMilli ≤ took)
  | _ => true

inductive Call where
  | tryRecv (r : TryRecv EncodedMessage)
  | wait (r : EpollWait)
  | clearWaker
  | accept (fd : Option RawFd)
  | fromLocal (heap : Heap) (socket : Option Datagram)
  | ignored

/-- The call as the hub sees it. -/
def Call.seen : Call → Bus.Call
  | .tryRecv r => .tryRecv r
  | .wait r => .wait r.inBuffer
  | .clearWaker => .clearWaker
  | .accept fd => .accept fd
  | .fromLocal heap socket => .fromLocal heap socket
  | .ignored => .ignored

def Call.possible (millis : Int) (took : Nat) : Call → Bool
  | .wait r => r.possible millis took
  | _ => true

/-- A call that `recv` makes, and the nanoseconds until it returns. -/
structure Input where
  call : Call
  took : Nat

/-- A call of `recv` in progress, with the nanoseconds that it has taken. -/
structure Recv where
  hub : IoHub
  progress : Progress EncodedMessage RawFd
  elapsed : Nat

def Recv.start (hub : IoHub) : Recv := ⟨hub, .pending hub.start, 0⟩

variable {W : Type} (host : Host W) (codec : Codec) (version : Version)

def step (timeout : Option Duration) (s : Recv) (i : Input) : Option Recv :=
  match s.progress with
  | .returned _ _ => none
  | .pending pc =>
    if i.call.possible (epollTimeout timeout) i.took then
      (i.call.seen.answer host codec version).bind fun answer =>
        (s.hub.step pc answer).map fun next => ⟨next.1, next.2, s.elapsed + i.took⟩
    else none

/-- `Timeout` is returned only for a timeout that is over, and no timeout is unbounded. -/
structure Truthful (timeout : Option Duration) (s : Recv) : Prop where
  elapsed : ∀ source, s.progress = .returned source (.error .timeout) →
    ∃ t ∈ timeout, wholeMillis t * nanosPerMilli ≤ s.elapsed
  bounded : ∀ t ∈ timeout, 0 ≤ epollTimeout timeout

variable {host codec version} {timeout : Option Duration}

/-- The only way to `Timeout` is a wait without an event. -/
theorem step_timeout {s s' : Recv} {i : Input} {source : Source}
    (h : step host codec version timeout s i = some s')
    (hs : s'.progress = .returned source (.error .timeout)) :
    i.call = .wait .interrupted ∨ i.call = .wait .expired ∧ 0 ≤ epollTimeout timeout ∧
      epollTimeout timeout * nanosPerMilli ≤ s'.elapsed := by
  rw [step] at h
  split at h
  · cases h
  · rename_i pc hpc
    split at h
    · rename_i hpossible
      obtain ⟨answer, hanswer, h⟩ := Option.bind_eq_some_iff.mp h
      obtain ⟨⟨hub', progress⟩, hnext, rfl⟩ := Option.map_eq_some_iff.mp h
      simp only at hs
      subst hs
      cases step_moved hnext with
      | timeout =>
        obtain ⟨call, took⟩ := i
        cases call with
        | wait r =>
          cases r with
          | interrupted => exact .inl rfl
          | expired =>
            obtain ⟨hnonneg, htook⟩ := of_decide_eq_true hpossible
            refine .inr ⟨rfl, hnonneg, ?_⟩
            simp only at htook ⊢
            omega
          | events ev rest => cases hanswer
        | fromLocal heap socket =>
          simp only [Call.seen, Bus.Call.answer] at hanswer
          split at hanswer <;> cases hanswer
        | _ => cases hanswer
      | lost rest e hw hl hp hfd =>
        -- the parser returns other errors
        obtain ⟨heap, socket, -, hparse⟩ := Bus.answer_fromLocal hanswer
        exact absurd rfl ((fromLocal_refusal heap socket).outcome hparse).not_timeout
    · cases h

theorem epollTimeout_some (t : Duration) : epollTimeout (some t) = Int.bmod (wholeMillis t) (2 ^ 32) :=
  BitVec.toInt_ofNat' _

/-- The cast keeps what a `c_int` can hold. -/
theorem epollTimeout_eq {t : Duration} (h : wholeMillis t < 2 ^ 31) :
    epollTimeout (some t) = wholeMillis t := by
  rw [epollTimeout_some, Int.bmod_def]
  omega

theorem epollTimeout_lt (t : Duration) : epollTimeout (some t) < 2 ^ 31 := by
  rw [epollTimeout_some, Int.bmod_def]
  omega

def Input.interrupted (i : Input) : Prop := i.call = .wait .interrupted

/-- No wait is interrupted, and the timeout is within the range of a `c_int`. -/
theorem truthful_of_range (ht : ∀ t ∈ timeout, wholeMillis t < 2 ^ 31) {hub : IoHub}
    {inputs : List Input} {s : Recv} (hi : ∀ i ∈ inputs, ¬ i.interrupted)
    (h : run (step host codec version timeout) (.start hub) inputs = some s) : Truthful timeout s := by
  have hbounded : ∀ t ∈ timeout, 0 ≤ epollTimeout timeout := by
    rintro t rfl
    rw [epollTimeout_eq (ht t rfl)]
    omega
  refine ⟨?_, hbounded⟩
  refine run_invariant (fun inputs s => (∀ i ∈ inputs, ¬ i.interrupted) →
    ∀ source, s.progress = .returned source (.error .timeout) →
      ∃ t ∈ timeout, wholeMillis t * nanosPerMilli ≤ s.elapsed) ?_ ?_ inputs s h hi
  · intro _ source hs
    cases hs
  · intro inputs u i v _ _ huv hi source hv
    obtain hint | ⟨-, hnonneg, helapsed⟩ := step_timeout huv hv
    · exact absurd hint (hi i (by simp))
    · cases timeout with
      | none => cases hnonneg
      | some t =>
        rw [epollTimeout_eq (ht t rfl)] at helapsed
        exact ⟨t, rfl, by exact_mod_cast helapsed⟩

/-- A controller that has nothing to do, and one wait that is over without an event. -/
def idle (r : EpollWait) (took : Nat) : List Input := [⟨.tryRecv .empty, 0⟩, ⟨.wait r, took⟩]

theorem run_idle (host : Host W) (codec : Codec) (version : Version) (timeout : Option Duration)
    {r : EpollWait} (took : Nat) (hr : r.inBuffer = [])
    (hp : r.possible (epollTimeout timeout) took = true) :
    run (step host codec version timeout) (.start (forBusController 3 4)) (idle r took) =
      some ⟨forBusController 3 4, .returned .timer (.error .timeout), took⟩ := by
  have hpolled : step host codec version timeout (.start (forBusController 3 4)) ⟨.tryRecv .empty, 0⟩ =
      some ⟨forBusController 3 4, .pending .waiting, 0⟩ := rfl
  have hwaited : step host codec version timeout ⟨forBusController 3 4, .pending .waiting, 0⟩
      ⟨.wait r, took⟩ = some ⟨forBusController 3 4, .returned .timer (.error .timeout), took⟩ := by
    simp [step, Call.possible, hp, Call.seen, hr, Bus.Call.answer, IoHub.step]
  rw [idle, run_cons hpolled, run_cons hwaited, run_nil]

/-- Without signals the timeouts that a `c_int` can hold are truthful, and no others; when
a signal may come, only those are that are over at once. -/
theorem truthful_iff (host : Host W) (codec : Codec) (version : Version) (timeout : Option Duration) :
    ((∀ hub inputs s, (∀ i ∈ inputs, ¬ i.interrupted) →
        run (step host codec version timeout) (.start hub) inputs = some s → Truthful timeout s) ↔
      ∀ t ∈ timeout, wholeMillis t < 2 ^ 31) ∧
    ((∀ hub inputs s, run (step host codec version timeout) (.start hub) inputs = some s →
        Truthful timeout s) ↔ ∃ t ∈ timeout, wholeMillis t = 0) := by
  constructor
  · constructor
    · rintro h t rfl
      by_contra hlt
      have hnonneg : 0 ≤ epollTimeout (some t) :=
        (h (forBusController 3 4) [] _ (by simp) (run_nil _ _)).bounded t rfl
      have hmillis := epollTimeout_lt t
      -- it is over when the time that the cast has kept is
      let took := (epollTimeout (some t)).toNat * nanosPerMilli
      have hpossible : EpollWait.expired.possible (epollTimeout (some t)) took = true := by
        rw [EpollWait.possible, decide_eq_true_iff]
        refine ⟨hnonneg, ?_⟩
        rw [Int.natCast_mul, Int.toNat_of_nonneg hnonneg]
      have hrun := run_idle host codec version (some t) took rfl hpossible
      obtain ⟨t', ⟨⟩, hle⟩ :=
        (h _ _ _ (by simp [idle, Input.interrupted]) hrun).elapsed .timer rfl
      have hpos : 0 < nanosPerMilli := by decide
      have hwhole := Nat.le_of_mul_le_mul_right hle hpos
      omega
    · exact fun ht hub inputs s hi h => truthful_of_range ht hi h
  · constructor
    · intro h
      have hinterrupted : EpollWait.interrupted.possible (epollTimeout timeout) 0 = true := rfl
      have hrun := run_idle host codec version timeout 0 rfl hinterrupted
      obtain ⟨t, ht, hle⟩ := (h _ _ _ hrun).elapsed .timer rfl
      refine ⟨t, ht, ?_⟩
      have hpos : 0 < nanosPerMilli := by decide
      obtain hzero | hzero := Nat.mul_eq_zero.mp (Nat.le_zero.mp hle)
      · exact hzero
      · omega
    · rintro ⟨t, rfl, hzero⟩ hub inputs s h
      refine ⟨fun source hs => ⟨t, rfl, by simp [hzero]⟩, fun t' ht => ?_⟩
      rw [epollTimeout_eq (by omega)]
      omega

/-- Seven weeks are over at once, and waiting for ever ends with a signal; half of seven
weeks is unbounded. -/
theorem untruthful :
    let timeout : Option Duration := some (.ofNanos (2 ^ 32 * nanosPerMilli))
    (∃ s, run (step plainHost plainCodec ⟨0, 8, 5⟩ timeout) (.start (forBusController 3 4))
        (idle .expired 0) = some s ∧ ¬ Truthful timeout s) ∧
      (∃ s, run (step plainHost plainCodec ⟨0, 8, 5⟩ none) (.start (forBusController 3 4))
        (idle .interrupted 0) = some s ∧ ¬ Truthful none s) ∧
      epollTimeout (some (.ofNanos (2 ^ 31 * nanosPerMilli))) < 0 := by
  refine ⟨⟨_, run_idle _ _ _ _ 0 rfl (by decide), fun h => ?_⟩,
    ⟨_, run_idle _ _ _ _ 0 rfl rfl, fun h => ?_⟩, by decide⟩
  · obtain ⟨t, ht, hle⟩ := h.elapsed .timer rfl
    cases ht
    exact absurd hle (by decide)
  · obtain ⟨t, ht, -⟩ := h.elapsed .timer rfl
    cases ht

end Ipmb.Timeouts
