import Ipmb.Forwarding
import Ipmb.Rejoin

namespace Ipmb.Unread

open Function Labels Messages Encoding Faults Decoding Reception Refusals Locks Run Linux EndpointRule
  EndpointSteps Handshake Forwarding

/-- What the controller has sent over a pipe and nobody has read, and whether one of the
ends of the pipe is closed. -/
structure Pipe where
  unread : List Datagram
  ended : Bool
deriving DecidableEq

def Pipe.new : Pipe := ⟨[], false⟩

def Pipe.closed : Pipe := ⟨[], true⟩

def Pipe.push (p : Pipe) (d : Datagram) : Option Pipe :=
  if p.ended then none else some { p with unread := p.unread ++ [d] }

/-- What `recvmsg` finds, if it does not block. -/
def Pipe.pop (p : Pipe) : Option (Option Datagram × Pipe) :=
  match p.unread with
  | d :: rest => some (some d, { p with unread := rest })
  | [] => if p.ended then some (none, p) else none

theorem Pipe.pop_cases {p : Pipe} {next : Option Datagram × Pipe} (h : p.pop = some next) :
    (∃ d rest, p.unread = d :: rest ∧ next = (some d, { p with unread := rest })) ∨
      (p.unread = [] ∧ next = (none, p)) := by
  rw [Pipe.pop] at h
  split at h
  · rename_i d rest hunread
    cases h
    exact Or.inl ⟨d, rest, hunread, rfl⟩
  · rename_i hunread
    split at h
    · cases h
      exact Or.inr ⟨hunread, rfl⟩
    · cases h

/-- The threads of an endpoint, with the pipe behind the hub of the rule and the one behind
the hub of a `look_up`. `lost` lists what was unread in a hub that was dropped while there
was a receiver. -/
structure Process (T : Type) where
  base : State T
  pipe : Pipe
  candidate : Option Pipe
  lost : List Datagram

/-- The controller sends or hangs up, over the pipe of the rule or that of a `look_up`, and
the threads go on. -/
inductive Event (T : Type) where
  | send (d : Datagram)
  | hangUp
  | answer (d : Datagram)
  | turnAway
  | thread (h : Half T) (a : EndpointRule.Action)
  | read (heap : Heap)
  | connect (h : Half T)
  | ack (h : Half T) (heap : Heap)
  | giveUp (h : Half T)

def hub : Rule → Bool
  | .client c => c.ioHub
  | .server _ => false

variable {T : Type}

/-- A hub is dropped with these datagrams. -/
def Process.loses (s : Process T) (unread : List Datagram) : Process T :=
  { s with lost := if s.base.pc .receiver = .dropped then s.lost else s.lost ++ unread }

/-- A thread has gone on, and may have taken the hub from the rule. -/
def Process.go (s : Process T) (base : State T) : Process T :=
  if hub s.base.rule && !hub base.rule then
    { s with base := base, pipe := .closed }.loses s.pipe.unread
  else { s with base := base }

/-- The steps of the threads in which no pipe is read. -/
def Process.permits (s : Process T) : Half T → EndpointRule.Action → Bool
  | _, .join .client => false
  | _, .join _ => s.candidate.isNone
  | .receiver, .attempt .disconnect => !hub s.base.rule
  | .receiver, .attempt .again => !hub s.base.rule
  | _, _ => true

variable [DecidableEq T] {P W : Type} (typeUuid : Uuid) (decode : List UInt8 → Option P) (host : Host W)
  (codec : Codec) (control : Control) (decodeAck : List UInt8 → Option ConnectMessageAck)
  (version : Version) (label : Label)

/-- `recv` reads from the hub. A hub that could not be read from has closed its end. -/
def Process.read (s : Process T) (heap : Heap) : Option (Process T) :=
  s.pipe.pop.bind fun next =>
  (outcome (fromLocal host.kernel codec version heap next.1)).bind fun r =>
    let attempt := fun o => EndpointRule.step s.base (.receiver, .attempt o)
    match arm typeUuid decode label r with
    | .done _ | .decode => (attempt .done).map fun base => { s with base := base, pipe := next.2 }
    | .otherType | .unexpected =>
      (attempt .again).map fun base => { s with base := base, pipe := next.2 }
    | .rejoin =>
      (attempt .disconnect).map fun base =>
        { s with base := base, pipe := .closed }.loses next.2.unread
    | .timeout | .unreachable => none

/-- What `look_up` makes of the first datagram. -/
def answered (heap : Heap) (socket : Option Datagram) : Option (Except (Error Buffers.RawFd) EndpointID) :=
  (outcome (fromLocal host.kernel codec version heap socket)).map
    (lookUp (linux host codec control version) decodeAck)

/-- `look_up` reads the answer to its request. -/
def Process.ack (s : Process T) (h : Half T) (heap : Heap) : Option (Process T) :=
  match s.base.pc h, s.candidate with
  | .joining _ _, some p =>
    p.pop.bind fun next =>
    (answered host codec control decodeAck version heap next.1).bind fun r =>
      match r with
      | .ok _ =>
        (EndpointRule.step s.base (h, .join .client)).map fun base =>
          if hub base.rule then { s with base := base, pipe := next.2, candidate := none }
          else { s with base := base, candidate := none }.loses next.2.unread
      | .error _ => some ({ s with candidate := none }.loses next.2.unread)
  | _, _ => none

def step (s : Process T) : Event T → Option (Process T)
  | .send d =>
    if hub s.base.rule then (s.pipe.push d).map fun p => { s with pipe := p } else none
  | .hangUp => if hub s.base.rule then some { s with pipe := { s.pipe with ended := true } } else none
  | .answer d => (s.candidate.bind fun p => p.push d).map fun p => { s with candidate := some p }
  | .turnAway => s.candidate.map fun p => { s with candidate := some { p with ended := true } }
  | .thread h a => if s.permits h a then (EndpointRule.step s.base (h, a)).map s.go else none
  | .read heap => if hub s.base.rule then s.read typeUuid decode host codec version label heap else none
  | .connect h =>
    match s.base.pc h, s.candidate with
    | .joining _ _, none => some { s with candidate := some .new }
    | _, _ => none
  | .ack h heap => s.ack host codec control decodeAck version h heap
  | .giveUp h =>
    match s.base.pc h, s.candidate with
    | .joining _ _, some p => some ({ s with candidate := none }.loses p.unread)
    | _, _ => none

/-- An endpoint that has just joined. -/
def start (base : State T) (pipe : Pipe) : Process T := ⟨base, pipe, none, []⟩

/-- A datagram that does not fit is the last one, a sender that replaces the rule finds
nothing unread in its hub, and neither does `look_up` when it gives its own up. -/
def Careful (s : Process T) : Event T → Prop
  | .read _ => ∀ d rest, s.pipe.unread = d :: rest →
      d.bytes.length = 0 ∨ 2 ^ 32 ≤ d.bytes.length ∨ 4 < d.fds.length → rest = []
  | .thread (.sender t) .check => s.base.pc .receiver ≠ .dropped →
      ∀ o c, s.base.pc (.sender t) = .writing o → s.base.rule = .client c → c.ioHub = true →
        o.epoch = c.epoch → s.pipe.unread = []
  | .ack _ heap => s.base.pc .receiver ≠ .dropped → ∀ p d rest, s.candidate = some p →
      p.unread = d :: rest → (∀ id, answered host codec control decodeAck version heap (some d) ≠
        some (.ok id)) → rest = []
  | .giveUp _ => s.base.pc .receiver ≠ .dropped → ∀ p, s.candidate = some p → p.unread = []
  | _ => True

section Disconnect

variable {k : Kernel} {codec : Codec} {version : Version}

theorem parseData_connected (iovData controlData : List UInt8) (objects : List Buffers.RawFd) :
    Fails (· ≠ .disconnect) (parseData k codec version iovData controlData objects) := by
  refine Fails.bind ?_ fun _ _ => Fails.bind ?_ fun _ _ =>
    (splitObjects_fails _ objects _).bind fun _ _ => (readPayload_fails _ iovData _).map _
  · rw [readVersion]
    split
    · split
      · simp
      · split <;> simp
    · trivial
  · apply (readWord_fails _ _ _ _).bind
    intro _ _
    split
    · trivial
    · split <;> simp

/-- A datagram that ends the connection does not fit. -/
theorem fromLocal_disconnect (hk : k.Documented) {heap : Heap} {d : Datagram}
    (h : fromLocal k codec version heap (some d) = .error (.error .disconnect)) :
    d.bytes.length = 0 ∨ 2 ^ 32 ≤ d.bytes.length ∨ 4 < d.fds.length := by
  by_contra hfits
  rw [fromLocal_parse hk codec version heap (by omega) (by omega) (by omega)] at h
  have hfails : Fails (· ≠ .disconnect)
      (parseData k codec version (receivedIov heap d) (receivedControl heap d) d.fds) :=
    parseData_connected _ _ _
  rw [h] at hfails
  exact hfails rfl

end Disconnect

theorem arm_rejoin {r : Except (Error Buffers.RawFd) EncodedMessage}
    (h : arm typeUuid decode label r = .rejoin) : r = .error .disconnect := by
  unfold arm at h
  split at h
  · split at h
    · split at h <;> cases h
    · cases h
  · rfl
  · cases h
  · cases h

/-- What holds after every step: a receiver that has found the connection lost has drained
its pipe. -/
structure Inv (s : Process T) : Prop where
  rejoin : Rejoin.Inv s.base
  drained : ∀ o c, (s.base.pc .receiver).observation = some o → s.base.rule = .client c →
    o.connection = c.connection → c.ioHub = true → s.pipe = .closed
  lost : s.lost = []

variable {typeUuid decode host codec control decodeAck version label} {s s' : Process T}

omit [DecidableEq T] in
theorem loses_lost (h : s.lost = []) {unread : List Datagram}
    (hu : s.base.pc .receiver ≠ .dropped → unread = []) : (s.loses unread).lost = [] := by
  simp only [Process.loses]
  split
  · exact h
  · rename_i ha
    rw [h, hu ha, List.append_nil]

/-- A connection that has just been made has not been seen by anybody. -/
theorem unseen {h : Half T} {o : Observation} {closed : Bool} {n : Nat} (hi : Inv s)
    (hpc : s.base.pc h = .joining o closed) (hn : n = s.base.replaced.length + 1) (o' : Observation)
    (ho : (update s.base.pc h .looping .receiver).observation = some o') : o'.connection ≠ n := by
  by_cases hh : h = .receiver
  · subst hh
    simp [Pc.observation] at ho
  · rw [update_of_ne (Ne.symm hh)] at ho
    have hle := (hi.rejoin.seen .receiver o' ho).2
    omega

/-- A step in which no pipe is read. -/
theorem Inv.go {base : State T} {h : Half T} (hi : Inv s) (hlt : s.base.replaced.length < 2 ^ 32)
    (hs : Stepped s.base h base)
    (hseen : ∀ o, (base.pc .receiver).observation = some o →
      (s.base.pc .receiver).observation = some o ∨ hub s.base.rule = false)
    (hcheck : s.base.pc .receiver ≠ .dropped → h ≠ .receiver → ∀ o c, s.base.pc h = .writing o →
      s.base.rule = .client c → c.ioHub = true → o.epoch = c.epoch → s.pipe.unread = []) :
    Inv (s.go base) := by
  have hrejoin := Rejoin.stepped_inv hi.rejoin hlt hs
  have hkept : base.rule = s.base.rule → Inv (s.go base) := by
    intro hrule
    rw [Process.go, if_neg (by simp [hrule])]
    refine ⟨hrejoin, fun o c ho hc hconn hhub => ?_, hi.lost⟩
    simp only [hrule] at hc
    obtain ho | hnone := hseen o ho
    · exact hi.drained o c ho hc hconn hhub
    · simp [hub, hc, hhub] at hnone
  cases hs with
  | moved _ _ _ _ _ => exact hkept rfl
  | failed _ => exact hkept rfl
  | @taken o c hpc hc he =>
    rw [Process.go]
    split
    · rename_i hhub
      refine ⟨hrejoin, by rintro _ _ _ ⟨⟩ _ ⟨⟩, loses_lost (by exact hi.lost) fun halive => ?_⟩
      have hopen : c.ioHub = true := by simpa [hub, hc] using hhub
      by_cases hh : h = .receiver
      · subst hh
        have hobs : (s.base.pc .receiver).observation = some o := by simp [hpc, Pc.observation]
        rw [hi.drained o c hobs hc (hi.rejoin.connection_eq hlt hobs hc he) hopen]
        rfl
      · refine hcheck (fun hd => halive ?_) hh o c hpc hc hopen he
        simpa [State.go, update_of_ne (Ne.symm hh)] using hd
    · exact ⟨hrejoin, by rintro _ _ _ ⟨⟩ _ ⟨⟩, hi.lost⟩
  | @rejoined o closed rule hpc hrule hopen =>
    have hold := hi.rejoin.joining h o closed hpc
    rw [Process.go, if_neg (by simp [hub, hold])]
    refine ⟨hrejoin, fun o' c ho hc hconn _ => ?_, hi.lost⟩
    exact absurd hconn (unseen hi hpc (hrule c hc).1 o' ho)
  | dropped hh hpc hfree =>
    subst hh
    have hnone : ∀ o, (update s.base.pc .receiver .dropped .receiver).observation ≠ some o := by
      simp [Pc.observation]
    rw [Process.go]
    split
    · exact ⟨hrejoin, fun o c ho => absurd ho (hnone o),
        loses_lost (by exact hi.lost) fun halive => (halive (by simp [State.go])).elim⟩
    · exact ⟨hrejoin, fun o c ho => absurd ho (hnone o), hi.lost⟩

omit [DecidableEq T] in
/-- Without a `Disconnect` the receiver only sees that there is no hub. -/
theorem attempt_observation {rule : Rule} {o : Outcome} {pc : Pc} {seen : Observation}
    (ha : attempt rule (.receiver : Half T) o = some pc) (hseen : pc.observation = some seen)
    (ho : o = .disconnect → hub rule = false) : hub rule = false := by
  cases rule with
  | server receiver => rfl
  | client c =>
    obtain ⟨connection, ioHub, readerClosed, epoch⟩ := c
    cases ioHub with
    | false => rfl
    | true =>
      cases o with
      | disconnect => exact ho rfl
      | missing => cases readerClosed <;> cases ha
      | done =>
        cases readerClosed <;> cases ha <;> cases hseen
      | again =>
        cases readerClosed <;> cases ha <;> cases hseen

/-- A thread copies an epoch where it makes an attempt, and nowhere else. -/
theorem step_observation {b b' : State T} {h : Half T} {a : EndpointRule.Action}
    (hs : EndpointRule.step b (h, a) = some b') (ha : ∀ o, a ≠ .attempt o) (o : Observation)
    (ho : (b'.pc h).observation = some o) : (b.pc h).observation = some o := by
  rw [EndpointRule.step] at hs
  simp only at hs
  split at hs
  · cases hs
    simp [State.go, Pc.observation] at ho
  · obtain ⟨l, -, rfl⟩ := Option.map_eq_some_iff.mp hs
    simp [State.go, Pc.observation] at ho
  · exact absurd rfl (ha _)
  · rename_i hpc
    cases hs
    simpa [State.go, hpc, Pc.observation] using ho
  · rename_i hpc
    obtain ⟨l, -, rfl⟩ := Option.map_eq_some_iff.mp hs
    simpa [State.go, hpc, Pc.observation] using ho
  · rename_i hpc
    cases hs
    rw [State.check] at ho
    split at ho
    · split at ho
      · simpa [State.go, hpc, Pc.observation] using ho
      · simp [State.go, Pc.observation] at ho
    · simp [State.go, Pc.observation] at ho
  · cases hs
    rw [State.rejoin] at ho
    split at ho <;> simp [State.go, Pc.observation] at ho
  · split at hs
    · cases hs
      simp [State.go, Pc.observation] at ho
    · cases hs
  · cases hs

theorem stepped_other {b b' : State T} {h u : Half T} (hs : Stepped b h b') (hu : u ≠ h) :
    b'.pc u = b.pc u := by
  cases hs <;> exact update_of_ne hu _ _

/-- A step of a thread that does not read from a hub. -/
theorem thread_inv {h : Half T} {a : EndpointRule.Action} (hi : Inv s)
    (hlt : s.base.replaced.length < 2 ^ 32) (hpermits : s.permits h a = true)
    (hcareful : Careful host codec control decodeAck version s (.thread h a))
    {base : State T} (hs : EndpointRule.step s.base (h, a) = some base) : Inv (s.go base) := by
  have hst := step_stepped hs
  refine hi.go hlt hst (fun o ho => ?_) (fun halive hh o c hpc hc hopen he => ?_)
  · by_cases hh : h = .receiver
    · subst hh
      cases a with
      | attempt out =>
        apply Or.inr
        cases hpc : s.base.pc .receiver with
        | reading =>
          simp only [EndpointRule.step, hpc] at hs
          obtain ⟨pc, ha, rfl⟩ := Option.map_eq_some_iff.mp hs
          apply attempt_observation ha (by simpa [State.go] using ho)
          rintro rfl
          simpa [Process.permits] using hpermits
        | _ => simp [EndpointRule.step, hpc] at hs
      | _ => exact Or.inl (step_observation hs (by simp) o ho)
    · rw [stepped_other hst (Ne.symm hh)] at ho
      exact Or.inl ho
  · cases h with
    | receiver => exact absurd rfl hh
    | sender t =>
      cases a with
      | check => exact hcareful halive o c hpc hc hopen he
      | _ => simp [EndpointRule.step, hpc] at hs

theorem attempt_step {base : State T} {o : Outcome}
    (hs : EndpointRule.step s.base (.receiver, .attempt o) = some base) :
    base.rule = s.base.rule ∧ ∃ pc, attempt s.base.rule (.receiver : Half T) o = some pc ∧
      base.pc .receiver = pc := by
  cases hpc : s.base.pc .receiver with
  | reading =>
    simp only [EndpointRule.step, hpc] at hs
    obtain ⟨pc, ha, rfl⟩ := Option.map_eq_some_iff.mp hs
    exact ⟨rfl, pc, ha, by simp [State.go]⟩
  | _ => simp [EndpointRule.step, hpc] at hs

theorem read_inv (hk : host.kernel.Documented) {heap : Heap} (hi : Inv s)
    (hlt : s.base.replaced.length < 2 ^ 32) (hhub : hub s.base.rule = true)
    (hcareful : Careful host codec control decodeAck version s (.read heap))
    (hs : s.read typeUuid decode host codec version label heap = some s') : Inv s' := by
  obtain ⟨next, hnext, hs⟩ := Option.bind_eq_some_iff.mp hs
  obtain ⟨r, hr, hs⟩ := Option.bind_eq_some_iff.mp hs
  have htaken : ∀ o, o ≠ .disconnect → ∀ pipe,
      (EndpointRule.step s.base (.receiver, .attempt o)).map
        (fun base => ({ s with base := base, pipe := pipe } : Process T)) = some s' → Inv s' := by
    intro o ho pipe hs
    obtain ⟨base, hbase, rfl⟩ := Option.map_eq_some_iff.mp hs
    obtain ⟨-, pc, ha, hpc⟩ := attempt_step hbase
    refine ⟨Rejoin.stepped_inv hi.rejoin hlt (step_stepped hbase), fun seen c hseen => ?_, hi.lost⟩
    have hnone := attempt_observation ha (hpc ▸ hseen) fun he => absurd he ho
    rw [hhub] at hnone
    cases hnone
  simp only at hs
  split at hs
  · exact htaken .done (by simp) next.2 hs
  · exact htaken .done (by simp) next.2 hs
  · exact htaken .again (by simp) next.2 hs
  · exact htaken .again (by simp) next.2 hs
  · rename_i harm
    obtain ⟨base, hbase, rfl⟩ := Option.map_eq_some_iff.mp hs
    refine ⟨Rejoin.stepped_inv hi.rejoin hlt (step_stepped hbase), fun _ _ _ _ _ _ => rfl,
      loses_lost (by exact hi.lost) fun _ => ?_⟩
    have hlost := arm_rejoin typeUuid decode label harm
    subst hlost
    obtain ⟨d, rest, hunread, rfl⟩ | ⟨hunread, rfl⟩ := Pipe.pop_cases hnext
    · exact hcareful d rest hunread (fromLocal_disconnect hk (outcome_error.mp hr))
    · exact hunread
  · cases hs
  · cases hs

/-- The hub of a new rule is there as long as the receiver is. -/
theorem hub_rejoin {h : Half T} {o : Observation} {closed : Bool} {base : State T}
    (hpc : s.base.pc h = .joining o closed)
    (hs : EndpointRule.step s.base (h, .join .client) = some base) :
    hub base.rule = base.rule.readerOpen ∧ base.pc = update s.base.pc h .looping ∧
      ∀ c, base.rule = .client c → c.connection = s.base.replaced.length + 1 := by
  simp only [EndpointRule.step, hpc, Option.some.injEq] at hs
  subst hs
  refine ⟨?_, rfl, fun c hc => ?_⟩
  · cases closed <;> rfl
  · exact (join_client (j := .client) rfl c hc).1

theorem ack_inv {h : Half T} {heap : Heap} (hi : Inv s) (hlt : s.base.replaced.length < 2 ^ 32)
    (hcareful : Careful host codec control decodeAck version s (.ack h heap))
    (hs : s.ack host codec control decodeAck version h heap = some s') : Inv s' := by
  rw [Process.ack] at hs
  split at hs
  · rename_i o closed p hpc hp
    obtain ⟨next, hnext, hs⟩ := Option.bind_eq_some_iff.mp hs
    obtain ⟨r, hr, hs⟩ := Option.bind_eq_some_iff.mp hs
    cases r with
    | ok id =>
      obtain ⟨base, hbase, rfl⟩ := Option.map_eq_some_iff.mp hs
      have hrejoin := Rejoin.stepped_inv hi.rejoin hlt (step_stepped hbase)
      obtain ⟨hopen, hpcs, hconnection⟩ := hub_rejoin hpc hbase
      have hnew : ∀ o' c, (base.pc .receiver).observation = some o' → base.rule = .client c →
          o'.connection ≠ c.connection := by
        intro o' c ho hc
        rw [hpcs] at ho
        exact unseen hi hpc (hconnection c hc) o' ho
      split
      · exact ⟨hrejoin, fun o' c ho hc hconn _ => absurd hconn (hnew o' c ho hc), hi.lost⟩
      · rename_i hnone
        refine ⟨hrejoin, fun o' c ho hc hconn _ => absurd hconn (hnew o' c ho hc),
          loses_lost (by exact hi.lost) fun halive => ?_⟩
        rw [hopen] at hnone
        exact absurd (hrejoin.readerOpen.mpr halive) hnone
    | error e =>
      cases hs
      refine ⟨hi.rejoin, hi.drained, loses_lost (by exact hi.lost) fun halive => ?_⟩
      obtain ⟨d, rest, hunread, rfl⟩ | ⟨hunread, rfl⟩ := Pipe.pop_cases hnext
      · apply hcareful halive p d rest hp hunread
        intro id hid
        cases hr.symm.trans hid
      · exact hunread
  · cases hs

theorem step_inv (hk : host.kernel.Documented) {e : Event T} (hi : Inv s)
    (hlt : s.base.replaced.length < 2 ^ 32)
    (hcareful : Careful host codec control decodeAck version s e)
    (hs : step typeUuid decode host codec control decodeAck version label s e = some s') : Inv s' := by
  cases e with
  | send d =>
    simp only [step] at hs
    split at hs
    · obtain ⟨p, hp, rfl⟩ := Option.map_eq_some_iff.mp hs
      refine ⟨hi.rejoin, fun o c ho hc hconn hopen => ?_, hi.lost⟩
      rw [hi.drained o c ho hc hconn hopen] at hp
      cases hp
    · cases hs
  | hangUp =>
    simp only [step] at hs
    split at hs
    · cases hs
      refine ⟨hi.rejoin, fun o c ho hc hconn hopen => ?_, hi.lost⟩
      simp only [hi.drained o c ho hc hconn hopen]
      rfl
    · cases hs
  | answer d =>
    obtain ⟨p, -, rfl⟩ := Option.map_eq_some_iff.mp hs
    exact ⟨hi.rejoin, hi.drained, hi.lost⟩
  | turnAway =>
    obtain ⟨p, -, rfl⟩ := Option.map_eq_some_iff.mp hs
    exact ⟨hi.rejoin, hi.drained, hi.lost⟩
  | thread h a =>
    simp only [step] at hs
    split at hs
    · rename_i hpermits
      obtain ⟨base, hbase, rfl⟩ := Option.map_eq_some_iff.mp hs
      exact thread_inv hi hlt hpermits hcareful hbase
    · cases hs
  | read heap =>
    simp only [step] at hs
    split at hs
    · rename_i hhub
      exact read_inv hk hi hlt hhub hcareful hs
    · cases hs
  | connect h =>
    simp only [step] at hs
    split at hs
    · cases hs
      exact ⟨hi.rejoin, hi.drained, hi.lost⟩
    · cases hs
  | ack h heap => exact ack_inv hi hlt hcareful hs
  | giveUp h =>
    simp only [step] at hs
    split at hs
    · rename_i p _ hp
      cases hs
      exact ⟨hi.rejoin, hi.drained, loses_lost (by exact hi.lost) fun halive => hcareful halive _ hp⟩
    · cases hs

/-- The threads do what they do without pipes. -/
theorem step_base {e : Event T}
    (hs : step typeUuid decode host codec control decodeAck version label s e = some s') :
    s'.base = s.base ∨ ∃ i, EndpointRule.step s.base i = some s'.base := by
  cases e with
  | send d =>
    simp only [step] at hs
    split at hs
    · obtain ⟨p, -, rfl⟩ := Option.map_eq_some_iff.mp hs
      exact Or.inl rfl
    · cases hs
  | answer d =>
    obtain ⟨p, -, rfl⟩ := Option.map_eq_some_iff.mp hs
    exact Or.inl rfl
  | turnAway =>
    obtain ⟨p, -, rfl⟩ := Option.map_eq_some_iff.mp hs
    exact Or.inl rfl
  | thread h a =>
    simp only [step] at hs
    split at hs
    · obtain ⟨base, hb, rfl⟩ := Option.map_eq_some_iff.mp hs
      refine Or.inr ⟨(h, a), hb.trans ?_⟩
      rw [Process.go]
      split <;> rfl
    · cases hs
  | read heap =>
    simp only [step] at hs
    split at hs
    · obtain ⟨next, -, hs⟩ := Option.bind_eq_some_iff.mp hs
      obtain ⟨r, -, hs⟩ := Option.bind_eq_some_iff.mp hs
      simp only at hs
      split at hs
      all_goals first
        | cases hs
        | (obtain ⟨base, hb, rfl⟩ := Option.map_eq_some_iff.mp hs
           exact Or.inr ⟨_, hb⟩)
    · cases hs
  | ack h heap =>
    simp only [step, Process.ack] at hs
    split at hs
    · obtain ⟨next, -, hs⟩ := Option.bind_eq_some_iff.mp hs
      obtain ⟨r, -, hs⟩ := Option.bind_eq_some_iff.mp hs
      cases r with
      | ok id =>
        obtain ⟨base, hb, rfl⟩ := Option.map_eq_some_iff.mp hs
        refine Or.inr ⟨_, hb.trans ?_⟩
        split <;> rfl
      | error e =>
        cases hs
        exact Or.inl rfl
    · cases hs
  | _ =>
    simp only [step] at hs
    split at hs <;> cases hs
    exact Or.inl rfl

theorem step_grows {e : Event T}
    (hs : step typeUuid decode host codec control decodeAck version label s e = some s') :
    s.base.replaced.length ≤ s'.base.replaced.length := by
  obtain hsame | ⟨i, hbase⟩ := step_base hs
  · rw [hsame]
  · exact Rejoin.stepped_grows (step_stepped hbase)

/-- Nothing that has been sent is lost before it is read. -/
theorem nothing_lost (hk : host.kernel.Documented) {j : Joined} {base : State T} {pipe : Pipe}
    {events : List (Event T)} (h₀ : EndpointRule.join T j = some base)
    (hcareful : Along (step typeUuid decode host codec control decodeAck version label)
      (Careful host codec control decodeAck version) (start base pipe) events)
    (hr : run (step typeUuid decode host codec control decodeAck version label) (start base pipe) events =
      some s) (hlt : s.base.replaced.length < 2 ^ 32) : s.lost = [] := by
  have hstart : Inv (start base pipe) := by
    refine ⟨Rejoin.join_inv h₀, fun o c ho => ?_, rfl⟩
    obtain ⟨rule, -, rfl⟩ := Option.map_eq_some_iff.mp h₀
    cases ho
  have hi : s.base.replaced.length < 2 ^ 32 → Inv s :=
    along_invariant (fun s : Process T => s.base.replaced.length < 2 ^ 32 → Inv s)
      (fun _ _ _ hi hc hs hlt =>
        have hlt' := Nat.lt_of_le_of_lt (step_grows hs) hlt
        step_inv hk (hi hlt') hlt' hc hs) (fun _ => hstart) hcareful hr
  exact (hi hlt).lost

section Example

open Reference Relay PlainHost

/-- Every selector is read as that of an acknowledgement. -/
def ackCodec : Codec where
  encode _ := [2]
  decode _ := some { plainSelector 0 with uuid := ConnectMessageAck.uuid }

def mail : Datagram := ⟨(intoEncoded ackCodec ⟨0, 8, 5⟩ (withObjects []) zeroHeap).iovData, []⟩

/-- The steps of an endpoint that takes all messages, and is welcome. -/
def plainStep : Process Nat → Event Nat → Option (Process Nat) :=
  step ConnectMessageAck.uuid (fun _ => some ()) plainHost ackCodec plainControl
    (fun _ => some (.ok 1)) ⟨0, 8, 5⟩ ⟨["a"]⟩

def threads (h : Half Nat) (acts : List EndpointRule.Action) : List (Event Nat) := acts.map (.thread h)

/-- A message has come, and a sender is the first to see that the controller is gone. -/
def senderFirst : List (Event Nat) :=
  [.send mail, .hangUp] ++
    threads (.sender 0) [.call, .readLock, .attempt .disconnect, .release, .writeLock, .check]

/-- It throws the message away. -/
theorem mail_lost :
    ∃ base s, EndpointRule.join Nat .client = some base ∧
      run plainStep (start base .new) senderFirst = some s ∧ s.base.pc .receiver = .idle ∧
      s.lost = [mail] := by
  have hrun : ((EndpointRule.join Nat .client).bind fun base => run plainStep (start base .new) senderFirst).map
      (fun s => (s.base.pc .receiver, s.lost)) = some (.idle, [mail]) := by decide
  obtain ⟨s, hs, hend⟩ := Option.map_eq_some_iff.mp hrun
  obtain ⟨base, h₀, hr⟩ := Option.bind_eq_some_iff.mp hs
  obtain ⟨hidle, hlost⟩ := Prod.mk.inj hend
  exact ⟨base, s, h₀, hr, hidle, hlost⟩

/-- The receiver reads the message and the end of the pipe, and rejoins. The sender finds
its epoch gone. -/
def receiverFirst : List (Event Nat) :=
  [.send mail, .hangUp] ++ threads (.sender 0) [.call, .readLock, .attempt .disconnect, .release] ++
    threads .receiver [.call, .readLock] ++ [.read zeroHeap] ++
    threads .receiver [.call, .readLock] ++ [.read zeroHeap] ++
    threads .receiver [.release, .writeLock, .check] ++
    [.connect .receiver, .answer mail, .ack .receiver zeroHeap] ++
    threads (.sender 0) [.writeLock, .check]

/-- No hub that is read from or dropped has anything behind the next datagram. -/
def spare (s : Process Nat) : Event Nat → Bool
  | .read _ => decide (s.pipe.unread.length ≤ 1)
  | .thread (.sender _) .check => s.pipe.unread.isEmpty
  | .ack _ _ => s.candidate.all fun p => decide (p.unread.length ≤ 1)
  | .giveUp _ => s.candidate.all fun p => p.unread.isEmpty
  | _ => true

theorem spare_careful {W : Type} {host : Host W} {codec : Codec} {control : Control}
    {decodeAck : List UInt8 → Option ConnectMessageAck} {version : Version} (s : Process Nat)
    (e : Event Nat) (h : spare s e = true) : Careful host codec control decodeAck version s e := by
  unfold Careful
  split
  · intro d rest hunread _
    simpa [spare, hunread] using h
  · intro _ _ _ _ _ _ _
    simpa [spare] using h
  · intro _ p d rest hp hunread _
    simpa [spare, hp, hunread] using h
  · intro _ p hp
    simpa [spare, hp] using h
  · trivial

theorem nothing_lost_receiverFirst :
    ∃ base s, EndpointRule.join Nat .client = some base ∧
      run plainStep (start base .new) receiverFirst = some s ∧ s.base.replaced = [0] ∧ s.lost = [] := by
  have hrun : ((EndpointRule.join Nat .client).bind fun base =>
      if passes plainStep spare (start base .new) receiverFirst then
        run plainStep (start base .new) receiverFirst else none).map
          (fun s => s.base.replaced) = some [0] := by decide
  obtain ⟨s, hs, hreplaced⟩ := Option.map_eq_some_iff.mp hrun
  obtain ⟨base, h₀, hr⟩ := Option.bind_eq_some_iff.mp hs
  split at hr
  · rename_i hpasses
    refine ⟨base, s, h₀, hr, hreplaced, nothing_lost (reference_documented _) h₀
      (along_of_passes spare_careful hpasses) hr ?_⟩
    rw [hreplaced]
    decide
  · cases hr

end Example

end Ipmb.Unread
