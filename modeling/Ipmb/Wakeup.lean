import Ipmb.HubSteps
import Ipmb.Run
import Mathlib.Algebra.Group.Nat.Defs
import Mathlib.Logic.Function.Basic

namespace Ipmb.Wakeup

open Function Messages Buffers Run Hub HubSteps

/-- Where a thread is in `bus_sender.send(msg); im.wake()`. -/
inductive Sending where
  | idle
  | sent
deriving DecidableEq

/-- The controller in `recv`, the senders, and what they share: the bus channel with
`connected` for its sending half, the counter of the waker, and what `epoll` watches. -/
structure State (M T : Type) where
  hub : IoHub
  pc : Pc
  channel : List M
  connected : Bool
  counter : Nat
  sending : T → Sending
  interest : List RawFd
  readable : RawFd → Bool

/-- A call of `recv`, with what is left to the other processes. -/
inductive Call (M R : Type) where
  | tryRecv
  | wait (events : List RawFd)
  | clearWaker
  | accept (fd : Option RawFd)
  | fromLocal (r : Except (Error R) M)
  | ignored

inductive Action (M R T : Type) where
  | send (t : T) (msg : M)
  | wake (t : T)
  | hangUp
  | socket (fd : RawFd) (readable : Bool)
  | recv (call : Call M R)

variable {M R T : Type}

def State.isReady (s : State M T) (fd : RawFd) : Bool :=
  if fd = s.hub.waker then decide (0 < s.counter) else s.readable fd

/-- What a level-triggered `epoll_wait` can report. -/
def State.ready (s : State M T) : List RawFd := s.interest.filter s.isReady

/-- `epoll_wait` does not return. -/
def State.Blocked (s : State M T) : Prop := s.pc = .waiting ∧ s.ready = []

/-- What a call returns, and what it changes. A descriptor that is closed is no longer watched. -/
def State.serve (s : State M T) : Call M R → Option (Answer M R × State M T)
  | .tryRecv =>
    match s.channel with
    | msg :: rest => some (.tryRecv (.message msg), { s with channel := rest })
    | [] => some (.tryRecv (if s.connected then .empty else .disconnected), s)
  | .wait events => if events ⊆ s.ready then some (.wait events, s) else none
  | .clearWaker => some (.clearWaker, { s with counter := 0 })
  | .accept none => some (.accept none, s)
  | .accept (some fd) =>
    if s.interest.contains fd then none
    else some (.accept (some fd), { s with interest := s.interest ++ [fd] })
  | .fromLocal (.ok msg) => some (.fromLocal (.ok msg), s)
  | .fromLocal (.error e) =>
    match s.pc with
    | .draining (ev :: _) => some (.fromLocal (.error e), { s with interest := s.interest.erase ev })
    | _ => none
  | .ignored => some (.ignored, s)

/-- The controller goes on to its next call of `recv` when this one has returned. -/
def State.advance (s : State M T) (next : IoHub × Progress M R) : State M T :=
  { s with
    hub := next.1
    pc := match next.2 with
      | .pending pc => pc
      | .returned _ _ => next.1.start }

/-- The counter of the waker stays below 2^64 - 1: `write` blocks otherwise. -/
def maxCounter : Nat := 2 ^ 64 - 2

variable [DecidableEq T]

def step (s : State M T) : Action M R T → Option (State M T)
  | .send t msg =>
    if s.connected && s.sending t == .idle then
      some { s with channel := s.channel ++ [msg], sending := update s.sending t .sent }
    else none
  | .wake t =>
    if s.sending t == .sent && decide (s.counter < maxCounter) then
      some { s with counter := s.counter + 1, sending := update s.sending t .idle }
    else none
  | .hangUp => some { s with connected := false }
  | .socket fd readable => some { s with readable := update s.readable fd readable }
  | .recv call =>
    (s.serve call).bind fun served =>
      (served.2.hub.step served.2.pc served.1).map served.2.advance

/-- A controller that has just registered. -/
def boot (M T : Type) (listener waker : RawFd) : State M T where
  hub := forBusController listener waker
  pc := .polling
  channel := []
  connected := true
  counter := 0
  sending := fun _ => .idle
  interest := [waker, listener]
  readable := fun _ => false

omit [DecidableEq T] in
theorem mem_ready {s : State M T} {fd : RawFd} :
    fd ∈ s.ready ↔ fd ∈ s.interest ∧ s.isReady fd = true := List.mem_filter

/-- What `epoll` has to watch. -/
def watched (hub : IoHub) : List RawFd :=
  hub.waker :: (hub.listener.toList ++ hub.localList.map Local.fd)

/-- Nobody who has sent a message is lost: he is still to wake the controller, or has. -/
def Signalled (s : State M T) : Prop :=
  s.channel = [] ∨ 0 < s.counter ∨ ∃ t, s.sending t = .sent

/-- What holds after every step. -/
structure Inv (s : State M T) : Prop where
  interest : s.interest.Perm (watched s.hub)
  nodup : s.interest.Nodup
  waiting : s.pc = .waiting → Signalled s
  disconnected : s.hub.busRx = false → s.channel = [] ∧ s.connected = false

variable {s s' : State M T}

omit [DecidableEq T] in
theorem start_waiting {hub : IoHub} (h : hub.start = .waiting) : hub.busRx = false := by
  rw [IoHub.start] at h
  split at h
  · cases h
  · simpa using ‹¬hub.busRx = true›

omit [DecidableEq T] in
/-- The loop goes back to the channel, if there is one, before it waits again. -/
theorem next_waiting {hub : IoHub} {rest : List RawFd} (h : hub.next rest = .waiting) :
    hub.busRx = false := by
  rw [IoHub.next] at h
  split at h
  · exact start_waiting h
  · cases h

omit [DecidableEq T] in
theorem Inv.advance {next : IoHub × Progress M R} (hi : Inv s)
    (hinterest : s.interest.Perm (watched next.1)) (hbus : next.1.busRx = s.hub.busRx)
    (hpc : (s.advance next).pc = .waiting → s.hub.busRx = false) : Inv (s.advance next) where
  interest := hinterest
  nodup := hi.nodup
  waiting hw := Or.inl (hi.disconnected (hpc hw)).1
  disconnected hb := hi.disconnected (hbus ▸ hb)

omit [DecidableEq T] in
theorem serve_frame {call : Call M R} {answer : Answer M R} {s₁ : State M T}
    (h : s.serve call = some (answer, s₁)) : s₁.hub = s.hub ∧ s₁.pc = s.pc := by
  unfold State.serve at h
  split at h
  all_goals first
    | cases h
      exact ⟨rfl, rfl⟩
    | split at h
      all_goals
        cases h
        try exact ⟨rfl, rfl⟩

theorem recv_cases {call : Call M R} (hs : step s (.recv call) = some s') :
    ∃ answer s₁ hub progress, s.serve call = some (answer, s₁) ∧
      Moved s.hub s.pc answer hub progress ∧ s' = s₁.advance (hub, progress) := by
  obtain ⟨⟨answer, s₁⟩, hserve, hs⟩ := Option.bind_eq_some_iff.mp hs
  obtain ⟨⟨hub, progress⟩, hnext, rfl⟩ := Option.map_eq_some_iff.mp hs
  obtain ⟨hhub, hpc⟩ := serve_frame hserve
  have hm := step_moved hnext
  simp only [hhub, hpc] at hm
  exact ⟨answer, s₁, hub, progress, hserve, hm, rfl⟩

omit [DecidableEq T] in
theorem watched_accepted (hub : IoHub) (fd : RawFd) (n : Nat) :
    watched { hub with localList := hub.localList ++ [⟨fd, n⟩], accepted := n + 1 } =
      watched hub ++ [fd] := by
  simp [watched]

omit [DecidableEq T] in
/-- The list loses the connection whose descriptor is closed. -/
theorem watched_lost {hub : IoHub} {i : Nat} {p : Local} (hp : hub.localList[i]? = some p) :
    (watched hub).Perm (p.fd :: watched { hub with localList := swapRemove hub.localList i }) := by
  have hl : (hub.localList.map Local.fd).Perm (p.fd :: (swapRemove hub.localList i).map Local.fd) :=
    (swapRemove_perm hp).map Local.fd
  have hcons := (hl.append_left (hub.waker :: hub.listener.toList)).trans List.perm_middle
  simpa [watched] using hcons

omit [DecidableEq T] in
theorem serve_lost {e : Error R} {answer : Answer M R} {s₁ : State M T}
    (h : s.serve (.fromLocal (.error e)) = some (answer, s₁)) :
    ∃ ev rest, s.pc = .draining (ev :: rest) ∧ answer = .fromLocal (.error e) ∧
      s₁ = { s with interest := s.interest.erase ev } := by
  simp only [State.serve] at h
  split at h
  · cases h
    exact ⟨_, _, ‹_›, rfl, rfl⟩
  · cases h

theorem recv_inv {call : Call M R} (hi : Inv s) (hs : step s (.recv call) = some s') : Inv s' := by
  obtain ⟨answer, s₁, hub, progress, hserve, hm, rfl⟩ := recv_cases hs
  generalize hpc : s.pc = pc at hm
  cases call with
  | tryRecv =>
    simp only [State.serve] at hserve
    split at hserve
    · rename_i msg rest hch
      cases hserve
      cases hm with
      | message =>
        refine Inv.advance ⟨hi.interest, hi.nodup, by simp [hpc], fun hb => ?_⟩ hi.interest rfl start_waiting
        simpa [hch] using (hi.disconnected hb).1
    · rename_i hch
      cases hserve
      cases hc : s.connected with
      | true =>
        rw [hc] at hm
        cases hm with
        | empty => exact ⟨hi.interest, hi.nodup, fun _ => Or.inl hch, hi.disconnected⟩
      | false =>
        rw [hc] at hm
        cases hm with
        | disconnected => exact ⟨hi.interest, hi.nodup, fun _ => Or.inl hch, fun _ => ⟨hch, hc⟩⟩
  | wait events =>
    simp only [State.serve] at hserve
    split at hserve
    · cases hserve
      cases hm with
      | timeout => exact hi.advance hi.interest rfl start_waiting
      | events _ _ => exact hi.advance hi.interest rfl (by simp [State.advance])
    · cases hserve
  | clearWaker =>
    cases hserve
    cases hm with
    | woken rest =>
      exact Inv.advance ⟨hi.interest, hi.nodup, by simp [hpc], hi.disconnected⟩ hi.interest rfl
        next_waiting
  | accept fd =>
    cases fd with
    | none =>
      cases hserve
      cases hm with
      | refused rest _ _ => exact hi.advance hi.interest rfl next_waiting
    | some fd =>
      simp only [State.serve] at hserve
      split at hserve
      · cases hserve
      · rename_i hold
        have hnew : fd ∉ s.interest := fun hmem => hold (List.contains_iff_mem.mpr hmem)
        cases hserve
        cases hm with
        | accepted rest _ _ _ =>
          have hnodup : (s.interest ++ [fd]).Nodup :=
            (List.perm_append_singleton fd s.interest).nodup_iff.mpr (List.nodup_cons.mpr ⟨hnew, hi.nodup⟩)
          have hperm := hi.interest.append_right [fd]
          rw [← watched_accepted s.hub fd s.hub.accepted] at hperm
          exact ⟨hperm, hnodup, fun hw => Or.inl (hi.disconnected (next_waiting hw)).1, hi.disconnected⟩
  | fromLocal r =>
    cases r with
    | ok msg =>
      cases hserve
      cases hm with
      | received rest _ _ _ _ _ => exact hi.advance hi.interest rfl start_waiting
    | error e =>
      obtain ⟨ev, rest, hdrain, rfl, rfl⟩ := serve_lost hserve
      rw [hdrain] at hpc
      subst hpc
      cases hm with
      | lost _ _ _ _ hp hfd =>
        have hperm := hi.interest.trans (watched_lost hp)
        rw [hfd] at hperm
        have herase := hperm.erase ev
        rw [List.erase_cons_head] at herase
        exact ⟨herase, hi.nodup.erase ev, fun hw => Or.inl (hi.disconnected (start_waiting hw)).1,
          hi.disconnected⟩
  | ignored =>
    cases hserve
    cases hm with
    | ignored rest _ _ _ => exact hi.advance hi.interest rfl next_waiting

theorem step_inv {a : Action M R T} (hi : Inv s) (hs : step s a = some s') : Inv s' := by
  cases a with
  | send t msg =>
    simp only [step, Bool.and_eq_true] at hs
    split at hs
    · rename_i hconnected
      cases hs
      refine ⟨hi.interest, hi.nodup, fun _ => Or.inr (Or.inr ⟨t, update_self ..⟩), fun hb => ?_⟩
      have hd := (hi.disconnected hb).2
      rw [hconnected.1] at hd
      cases hd
    · cases hs
  | wake t =>
    simp only [step] at hs
    split at hs
    · cases hs
      exact ⟨hi.interest, hi.nodup, fun _ => Or.inr (Or.inl (Nat.succ_pos _)), hi.disconnected⟩
    · cases hs
  | hangUp =>
    cases hs
    exact ⟨hi.interest, hi.nodup, hi.waiting, fun hb => ⟨(hi.disconnected hb).1, rfl⟩⟩
  | socket fd readable =>
    cases hs
    exact ⟨hi.interest, hi.nodup, hi.waiting, hi.disconnected⟩
  | recv call => exact recv_inv hi hs

omit [DecidableEq T] in
theorem boot_inv {listener waker : RawFd} (h : listener ≠ waker) : Inv (boot M T listener waker) where
  interest := List.Perm.refl _
  nodup := by simp [boot, Ne.symm h]
  waiting := by simp [boot]
  disconnected := by simp [boot, forBusController]

theorem run_inv {listener waker : RawFd} (h : listener ≠ waker) {acts : List (Action M R T)}
    (hr : run step (boot M T listener waker) acts = some s) : Inv s :=
  run_invariant (fun _ s => Inv s) (boot_inv h) (fun _ _ _ _ _ hi hs => step_inv hi hs) acts s hr

omit [DecidableEq T] in
/-- A watched descriptor other than the waker is not readable while `epoll_wait` blocks. -/
theorem Inv.quiet (hi : Inv s) (hb : s.ready = []) {fd : RawFd}
    (hfd : fd ∈ s.hub.listener.toList ++ s.hub.localList.map Local.fd) : s.readable fd = false := by
  have hnodup : (watched s.hub).Nodup := hi.interest.nodup_iff.mp hi.nodup
  have hne : fd ≠ s.hub.waker := fun heq => (List.nodup_cons.mp hnodup).1 (heq ▸ hfd)
  have hmem : fd ∈ s.interest := hi.interest.mem_iff.mpr (List.mem_cons_of_mem _ hfd)
  have hready : ¬s.isReady fd = true := fun hr => by
    have hin := mem_ready.mpr ⟨hmem, hr⟩
    rw [hb] at hin
    cases hin
  simpa [State.isReady, hne] using hready

/-- The controller never sleeps on a message whose sender has woken it, nor on a socket
that can be read. -/
theorem no_lost_wakeup {listener waker : RawFd} (h : listener ≠ waker) {acts : List (Action M R T)}
    (hr : run step (boot M T listener waker) acts = some s) :
    ¬(s.Blocked ∧ s.channel ≠ [] ∧ s.counter = 0 ∧ ∀ t, s.sending t ≠ .sent) ∧
      ¬(s.Blocked ∧ ∃ p ∈ s.hub.localList, s.readable p.fd = true) ∧
      ¬(s.Blocked ∧ ∃ fd, s.hub.listener = some fd ∧ s.readable fd = true) := by
  have hi := run_inv h hr
  refine ⟨?_, ?_, ?_⟩
  · rintro ⟨⟨hpc, _⟩, hne, hzero, hidle⟩
    obtain hch | hpos | ⟨t, ht⟩ := hi.waiting hpc
    · exact hne hch
    · exact absurd hzero hpos.ne'
    · exact hidle t ht
  · rintro ⟨⟨_, hb⟩, p, hp, hread⟩
    have hq : s.readable p.fd = false :=
      hi.quiet hb (List.mem_append_right _ (List.mem_map_of_mem hp))
    rw [hread] at hq
    cases hq
  · rintro ⟨⟨_, hb⟩, fd, hl, hread⟩
    have hq : s.readable fd = false := hi.quiet hb (List.mem_append_left _ (by simp [hl]))
    rw [hread] at hq
    cases hq

/-- A message is sent between `try_recv` and `epoll_wait`, while a client connects. -/
def lateMessage : List (Action Nat Unit Nat) :=
  [.recv .tryRecv, .send 0 7, .wake 0, .socket 3 true, .recv (.wait [4, 3]), .recv .clearWaker,
    .recv (.accept (some 5)), .socket 3 false, .recv .tryRecv, .recv .tryRecv]

theorem no_lost_wakeup_lateMessage :
    ∃ s, run step (boot Nat Nat 3 4) lateMessage = some s ∧ s.pc = .waiting ∧
      s.hub.localList = [⟨5, 0⟩] ∧
      ¬(s.Blocked ∧ s.channel ≠ [] ∧ s.counter = 0 ∧ ∀ t, s.sending t ≠ .sent) ∧
      ¬(s.Blocked ∧ ∃ p ∈ s.hub.localList, s.readable p.fd = true) ∧
      ¬(s.Blocked ∧ ∃ fd, s.hub.listener = some fd ∧ s.readable fd = true) := by
  have hrun : (run step (boot Nat Nat 3 4) lateMessage).map (fun s => (s.pc, s.hub.localList)) =
      some (.waiting, [⟨5, 0⟩]) := by decide
  obtain ⟨s, hr, heq⟩ := Option.map_eq_some_iff.mp hrun
  obtain ⟨hpc, hlocal⟩ := Prod.mk.inj heq
  exact ⟨s, hr, hpc, hlocal, no_lost_wakeup (by decide) hr⟩

end Ipmb.Wakeup
