import Ipmb.Forwarding
import Ipmb.Timeouts

namespace Ipmb.RecvLoop

open Labels Messages Time Buffers Encoding Decoding Reference Run PlainHost Timeouts Relay
open Forwarding (Delivery)

/-- `MessageBox` for the type `P`. -/
structure MessageBox (P : Type) where
  decode : Uuid → List UInt8 → Except (Error RawFd) P
  uuid : P → Uuid

/-- What a call of `recv` comes to; `unreachable` is the panic. -/
inductive Received (P : Type) where
  | ok (msg : Delivery P)
  | decode
  | timeout
  | unreachable

/-- What the loop in `recv` does next. -/
inductive Flow (P : Type) where
  | break (r : Received P)
  | continue
  | rejoin

variable {P : Type} (box : MessageBox P)

/-- `Message::new`, and the objects and regions of the encoded message. -/
def delivery (encodedMsg : EncodedMessage) (payload : P) : Delivery P :=
  ⟨{ encodedMsg.selector with uuid := box.uuid payload }, payload, encodedMsg.objects,
    encodedMsg.memoryRegions⟩

/-- The arm for a client, with the result of `io_hub.recv`. -/
def clientArm (label : Label) : Except (Error RawFd) EncodedMessage → Flow P
  | .ok encodedMsg =>
    if encodedMsg.selector.labelOp.validate label then
      match box.decode encodedMsg.selector.uuid encodedMsg.payload with
      | .ok payload => .break (.ok (delivery box encodedMsg payload))
      | .error .typeUuidNotFound => .continue
      | .error .decode => .break .decode
      | .error _ => .break .unreachable
    else .continue
  | .error .disconnect => .rejoin
  | .error .timeout => .break .timeout
  | .error _ => .break .unreachable

inductive RecvTimeoutError where
  | timeout
  | disconnected

/-- The arm for a server and a call with a timeout, with the result of `recv_timeout`. -/
def timedArm : Except RecvTimeoutError EncodedMessage → Flow P
  | .ok encodedMsg =>
    match box.decode encodedMsg.selector.uuid encodedMsg.payload with
    | .ok payload => .break (.ok (delivery box encodedMsg payload))
    | .error .typeUuidNotFound => .continue
    | .error .decode => .break .decode
    | .error _ => .break .unreachable
  | .error .timeout => .break .timeout
  | .error .disconnected => .break .unreachable

/-- The arm for a server and a call without one, with the result of `receiver.recv`. -/
def untimedArm (encodedMsg : EncodedMessage) : Flow P :=
  match box.decode encodedMsg.selector.uuid encodedMsg.payload with
  | .ok payload => .break (.ok (delivery box encodedMsg payload))
  | .error .typeUuidNotFound => .continue
  | .error .decode => .break .decode
  | .error _ => .break .unreachable

/-- What a waiting endpoint meets: a message, some nanoseconds without one, or a signal. -/
inductive Event where
  | message (msg : EncodedMessage)
  | quiet (nanos : Nat)
  | signal

/-- The calls of `recv` with their timeouts, of which the first one waits, for how long it
does, and what the calls before have come to. -/
structure Session (P : Type) where
  calls : List (Option Duration)
  waited : Nat
  results : List (Received P)

def Session.start (P : Type) (calls : List (Option Duration)) : Session P := ⟨calls, 0, []⟩

/-- A call returns, or waits for the next message. -/
def Session.proceed (s : Session P) : Flow P → Option (Session P)
  | .break r => some ⟨s.calls.tail, 0, s.results ++ [r]⟩
  | .continue => some { s with waited := 0 }
  | .rejoin => none

/-- `epoll_wait` is over after some nanoseconds. -/
def ClientExpires (timeout : Option Duration) (nanos : Nat) : Prop :=
  0 ≤ epollTimeout timeout ∧ epollTimeout timeout * nanosPerMilli ≤ nanos

/-- `recv_timeout` is over after some nanoseconds. -/
def ServerExpires (timeout : Option Duration) (nanos : Nat) : Prop := ∃ t ∈ timeout, t.nanos ≤ nanos

instance (timeout : Option Duration) (nanos : Nat) : Decidable (ClientExpires timeout nanos) :=
  inferInstanceAs (Decidable (_ ∧ _))

instance (timeout : Option Duration) (nanos : Nat) : Decidable (ServerExpires timeout nanos) :=
  inferInstanceAs (Decidable (∃ t, t ∈ timeout ∧ t.nanos ≤ nanos))

/-- For the hub a wait that a signal interrupts is one that is over. -/
def clientStep (label : Label) (s : Session P) (e : Event) : Option (Session P) :=
  match s.calls with
  | [] => none
  | timeout :: _ =>
    match e with
    | .message msg => s.proceed (clientArm box label (.ok msg))
    | .quiet nanos =>
      if ClientExpires timeout (s.waited + nanos) then
        s.proceed (clientArm box label (.error .timeout))
      else some { s with waited := s.waited + nanos }
    | .signal => s.proceed (clientArm box label (.error .timeout))

def serverStep (s : Session P) (e : Event) : Option (Session P) :=
  match s.calls with
  | [] => none
  | some t :: _ =>
    match e with
    | .message msg => s.proceed (timedArm box (.ok msg))
    | .quiet nanos =>
      if t.nanos ≤ s.waited + nanos then s.proceed (timedArm box (.error .timeout))
      else some { s with waited := s.waited + nanos }
    | .signal => some s
  | none :: _ =>
    match e with
    | .message msg => s.proceed (untimedArm box msg)
    | .quiet nanos => some { s with waited := s.waited + nanos }
    | .signal => some s

/-- What `recv` is to make of a message; `none` for one of another type. -/
def MessageBox.verdict (encodedMsg : EncodedMessage) : Option (Received P) :=
  match box.decode encodedMsg.selector.uuid encodedMsg.payload with
  | .ok payload => some (.ok (delivery box encodedMsg payload))
  | .error .typeUuidNotFound => none
  | .error .decode => some .decode
  | .error _ => some .unreachable

def Event.verdict : Event → Option (Received P)
  | .message msg => box.verdict msg
  | _ => none

/-- What the result says about a message. -/
def Received.consumed : Received P → Option (Received P)
  | .timeout => none
  | r => some r

/-- The results are the same at every moment; each message of a known type is consumed by
one call, in the order of arrival, and none by one that times out. -/
structure Alike (label : Label) (calls : List (Option Duration)) (events : List Event) : Prop where
  same : ∀ n, (run (clientStep box label) (.start P calls) (events.take n)).map Session.results =
    (run (serverStep box) (.start P calls) (events.take n)).map Session.results
  ordered : ∀ n s, run (clientStep box label) (.start P calls) (events.take n) = some s →
    s.results.filterMap Received.consumed = (events.take n).filterMap (Event.verdict box) ∧
      s.results.length + s.calls.length = calls.length

/-- No signal comes, and a time without a message ends the wait of a client exactly if it
ends that of a server. -/
def Agrees (s : Session P) (e : Event) : Prop :=
  ∀ timeout ∈ s.calls.head?,
    match e with
    | .message _ => True
    | .quiet nanos =>
      ClientExpires timeout (s.waited + nanos) ↔ ServerExpires timeout (s.waited + nanos)
    | .signal => False

/-- How the loop goes on after a message. -/
def flow : Option (Received P) → Flow P
  | some r => .break r
  | none => .continue

variable {box} {label : Label}

theorem clientArm_ok {msg : EncodedMessage} (h : msg.selector.labelOp.validate label = true) :
    clientArm box label (.ok msg) = flow (box.verdict msg) := by
  rw [clientArm, MessageBox.verdict]
  simp only [h, if_true]
  split <;> rfl

theorem timedArm_ok (msg : EncodedMessage) : timedArm box (.ok msg) = flow (box.verdict msg) := by
  unfold timedArm MessageBox.verdict
  simp only
  split <;> rfl

theorem untimedArm_eq (msg : EncodedMessage) : untimedArm box msg = flow (box.verdict msg) := by
  rw [untimedArm, MessageBox.verdict]
  split <;> rfl

theorem verdict_consumed {msg : EncodedMessage} {r : Received P} (h : box.verdict msg = some r) :
    r.consumed = some r := by
  rw [MessageBox.verdict] at h
  split at h <;> cases h <;> rfl

/-- The message is for the endpoint. -/
def Event.Addressed (label : Label) (e : Event) : Prop :=
  ∀ msg, e = .message msg → msg.selector.labelOp.validate label = true

theorem serverStep_quiet {s : Session P} {timeout : Option Duration} {calls : List (Option Duration)}
    (hc : s.calls = timeout :: calls) (nanos : Nat) :
    serverStep box s (.quiet nanos) = if ServerExpires timeout (s.waited + nanos) then
      s.proceed (.break .timeout) else some { s with waited := s.waited + nanos } := by
  rw [serverStep]
  rw [hc]
  cases timeout with
  | none => simp [ServerExpires]
  | some t => simp [ServerExpires, timedArm]

theorem clientStep_quiet {s : Session P} {timeout : Option Duration} {calls : List (Option Duration)}
    (hc : s.calls = timeout :: calls) (nanos : Nat) :
    clientStep box label s (.quiet nanos) = if ClientExpires timeout (s.waited + nanos) then
      s.proceed (.break .timeout) else some { s with waited := s.waited + nanos } := by
  rw [clientStep, hc]
  rfl

theorem step_agrees {s : Session P} {e : Event} (he : e.Addressed label) (ha : Agrees s e) :
    clientStep box label s e = serverStep box s e := by
  cases hc : s.calls with
  | nil => simp [clientStep, serverStep, hc]
  | cons timeout calls =>
    have hagrees := ha timeout (by simp [hc])
    cases e with
    | message msg =>
      cases timeout with
      | none => simp [clientStep, serverStep, hc, clientArm_ok (he msg rfl), untimedArm_eq]
      | some t => simp [clientStep, serverStep, hc, clientArm_ok (he msg rfl), timedArm_ok]
    | quiet nanos => rw [clientStep_quiet hc, serverStep_quiet hc, if_congr hagrees rfl rfl]
    | signal => cases hagrees

/-- A step that the two do not agree on shows in the results. -/
theorem step_differs {s : Session P} {e : Event} (ha : ¬ Agrees s e) :
    (clientStep box label s e).map Session.results ≠ (serverStep box s e).map Session.results := by
  rw [Agrees, not_forall] at ha
  obtain ⟨timeout, ha⟩ := ha
  obtain ⟨hhead, ha⟩ := Classical.not_imp.mp ha
  obtain ⟨calls, hc⟩ := List.head?_eq_some_iff.mp hhead
  cases e with
  | message msg => exact absurd trivial ha
  | quiet nanos =>
    rw [clientStep_quiet hc, serverStep_quiet hc]
    by_cases hclient : ClientExpires timeout (s.waited + nanos)
    · have hserver : ¬ ServerExpires timeout (s.waited + nanos) := fun h => ha (iff_of_true hclient h)
      simp [hclient, hserver, Session.proceed]
    · have hserver : ServerExpires timeout (s.waited + nanos) := by
        by_contra h
        exact ha (iff_of_false hclient h)
      simp [hclient, hserver, Session.proceed]
  | signal =>
    cases timeout with
    | none => simp [clientStep, serverStep, hc, clientArm, Session.proceed]
    | some t => simp [clientStep, serverStep, hc, clientArm, Session.proceed]

theorem same_iff {events : List Event} (h : ∀ e ∈ events, e.Addressed label) (s : Session P) :
    (∀ n, (run (clientStep box label) s (events.take n)).map Session.results =
        (run (serverStep box) s (events.take n)).map Session.results) ↔
      Along (clientStep box label) Agrees s events := by
  induction events generalizing s with
  | nil => simp [Along]
  | cons e events ih =>
    have hstep (ha : Agrees s e) : clientStep box label s e = serverStep box s e :=
      step_agrees (h e (by simp)) ha
    have htail : ∀ e ∈ events, e.Addressed label := fun e he => h e (List.mem_cons_of_mem _ he)
    have hone : ∀ step : Session P → Event → Option (Session P),
        run step s ((e :: events).take 1) = step s e := fun step => by
      simp [run]
    constructor
    · intro hsame
      have ha : Agrees s e := by
        by_contra ha
        have hfirst := hsame 1
        rw [hone, hone] at hfirst
        exact step_differs ha hfirst
      refine ⟨ha, fun t ht => (ih htail t).mp fun n => ?_⟩
      have hn := hsame (n + 1)
      rwa [List.take_succ_cons, run_cons ht, run_cons (hstep ha ▸ ht)] at hn
    · rintro ⟨ha, halong⟩ n
      cases n with
      | zero => rfl
      | succ n =>
        rw [List.take_succ_cons]
        cases hs : clientStep box label s e with
        | none =>
          have hs' := hstep ha ▸ hs
          simp [run, hs, hs']
        | some t =>
          rw [run_cons hs, run_cons (hstep ha ▸ hs)]
          exact (ih htail t).mpr (halong t hs) n

/-- What a message comes to is kept in order. -/
theorem proceed_ordered {s s' : Session P} {timeout : Option Duration} {calls : List (Option Duration)}
    (hc : s.calls = timeout :: calls) {v : Option (Received P)} (hv : ∀ r ∈ v, r.consumed = some r)
    (h : s.proceed (flow v) = some s') :
    s'.results.filterMap Received.consumed = s.results.filterMap Received.consumed ++ v.toList ∧
      s'.results.length + s'.calls.length = s.results.length + s.calls.length := by
  cases v with
  | none =>
    cases h
    simp
  | some r =>
    cases h
    simp only [hc, List.filterMap_append, List.length_append, List.length_cons, List.tail_cons,
      List.filterMap_cons, List.filterMap_nil, hv r rfl, List.length_nil, Option.toList_some]
    exact ⟨trivial, by omega⟩

theorem proceed_timeout {s s' : Session P} {timeout : Option Duration} {calls : List (Option Duration)}
    (hc : s.calls = timeout :: calls) (h : s.proceed (.break .timeout) = some s') :
    s'.results.filterMap Received.consumed = s.results.filterMap Received.consumed ∧
      s'.results.length + s'.calls.length = s.results.length + s.calls.length := by
  cases h
  simp only [hc, List.filterMap_append, List.length_append, List.length_cons, List.tail_cons,
    List.length_nil]
  exact ⟨by simp [Received.consumed], by omega⟩

/-- All that a step of a client can come to. -/
inductive ClientMoved (box : MessageBox P) (label : Label) (s : Session P) : Event → Session P → Prop
  | handled {msg : EncodedMessage} {s' : Session P}
    (h : s.proceed (clientArm box label (.ok msg)) = some s') : ClientMoved box label s (.message msg) s'
  | expired {nanos : Nat} {s' : Session P} (h : s.proceed (.break .timeout) = some s') :
    ClientMoved box label s (.quiet nanos) s'
  | waited (nanos : Nat) :
    ClientMoved box label s (.quiet nanos) { s with waited := s.waited + nanos }
  | interrupted {s' : Session P} (h : s.proceed (.break .timeout) = some s') :
    ClientMoved box label s .signal s'

theorem clientStep_moved {s s' : Session P} {e : Event} (h : clientStep box label s e = some s') :
    (∃ timeout calls, s.calls = timeout :: calls) ∧ ClientMoved box label s e s' := by
  cases hc : s.calls with
  | nil =>
    rw [clientStep, hc] at h
    cases h
  | cons timeout calls =>
    refine ⟨⟨timeout, calls, rfl⟩, ?_⟩
    cases e with
    | message msg =>
      rw [clientStep, hc] at h
      exact .handled h
    | quiet nanos =>
      rw [clientStep_quiet hc] at h
      split at h
      · exact .expired h
      · cases h
        exact .waited nanos
    | signal =>
      rw [clientStep, hc] at h
      exact .interrupted h

/-- One event adds what it comes to, if anything, to the results. -/
theorem step_ordered {s s' : Session P} {e : Event} (he : e.Addressed label)
    (h : clientStep box label s e = some s') :
    s'.results.filterMap Received.consumed =
        s.results.filterMap Received.consumed ++ (e.verdict box).toList ∧
      s'.results.length + s'.calls.length = s.results.length + s.calls.length := by
  obtain ⟨⟨timeout, calls, hc⟩, hmoved⟩ := clientStep_moved h
  cases hmoved with
  | handled hp =>
    rw [clientArm_ok (he _ rfl)] at hp
    exact proceed_ordered hc (fun r hr => verdict_consumed hr) hp
  | expired hp =>
    simp only [Event.verdict, Option.toList_none, List.append_nil]
    exact proceed_timeout hc hp
  | waited nanos => exact ⟨(List.append_nil _).symm, rfl⟩
  | interrupted hp =>
    simp only [Event.verdict, Option.toList_none, List.append_nil]
    exact proceed_timeout hc hp

theorem run_ordered {calls : List (Option Duration)} {events : List Event}
    (he : ∀ e ∈ events, e.Addressed label) {s : Session P}
    (h : run (clientStep box label) (.start P calls) events = some s) :
    s.results.filterMap Received.consumed = events.filterMap (Event.verdict box) ∧
      s.results.length + s.calls.length = calls.length := by
  refine run_invariant (fun events s => (∀ e ∈ events, e.Addressed label) →
    s.results.filterMap Received.consumed = events.filterMap (Event.verdict box) ∧
      s.results.length + s.calls.length = calls.length) ?_ ?_ events s h he
  · intro _
    simp [Session.start]
  · intro events s e s' _ hI hs he
    obtain ⟨horder, hcount⟩ := hI fun e' he' => he e' (List.mem_append_left _ he')
    obtain ⟨horder', hcount'⟩ := step_ordered (he e (by simp)) hs
    rw [horder', horder, hcount', List.filterMap_append]
    refine ⟨?_, hcount⟩
    cases hv : e.verdict box <;> simp [hv]

/-- A client and a server receive alike exactly if no signal comes and no time without a
message is long enough for only one of their timeouts. -/
theorem alike_iff (box : MessageBox P) (label : Label) (calls : List (Option Duration))
    (events : List Event) (h : ∀ e ∈ events, e.Addressed label) :
    Alike box label calls events ↔
      Along (clientStep box label) Agrees (.start P calls) events := by
  rw [← same_iff h]
  exact ⟨Alike.same, fun hsame => ⟨hsame, fun n s hs =>
    run_ordered (fun e he => h e (List.mem_of_mem_take he)) hs⟩⟩

/-- A call with a timeout in whole milliseconds that a `c_int` can hold, or with none, is
over at the same time on both sides. -/
theorem expires_iff {timeout : Option Duration}
    (h : ∀ t ∈ timeout, t.nanos % nanosPerMilli = 0 ∧ wholeMillis t < 2 ^ 31) (nanos : Nat) :
    ClientExpires timeout nanos ↔ ServerExpires timeout nanos := by
  cases timeout with
  | none => simp [ClientExpires, ServerExpires, epollTimeout]
  | some t =>
    obtain ⟨hwhole, hlt⟩ := h t rfl
    have hnanos : wholeMillis t * nanosPerMilli = t.nanos :=
      Nat.div_mul_cancel (Nat.dvd_of_mod_eq_zero hwhole)
    have hserver : ServerExpires (some t) nanos ↔ t.nanos ≤ nanos := by simp [ServerExpires]
    rw [hserver, ClientExpires, epollTimeout_eq hlt, ← hnanos]
    omega

theorem calls_of_step {s t : Session P} {e : Event} (h : clientStep box label s e = some t) :
    t.calls ⊆ s.calls := by
  have hproceed : ∀ f : Flow P, s.proceed f = some t → t.calls ⊆ s.calls := by
    intro f hf
    cases f <;> cases hf
    · exact (List.tail_sublist _).subset
    · exact List.Subset.refl _
  cases (clientStep_moved h).2 with
  | handled hp => exact hproceed _ hp
  | expired hp => exact hproceed _ hp
  | waited nanos => exact List.Subset.refl _
  | interrupted hp => exact hproceed _ hp

theorem along_of_range {events : List Event} {s : Session P}
    (hcalls : ∀ timeout ∈ s.calls, ∀ t ∈ timeout, t.nanos % nanosPerMilli = 0 ∧ wholeMillis t < 2 ^ 31)
    (hsignal : ∀ e ∈ events, e ≠ .signal) : Along (clientStep box label) Agrees s events := by
  induction events generalizing s with
  | nil => trivial
  | cons e events ih =>
    refine ⟨fun timeout ht => ?_, fun t ht => ih (fun timeout h => ?_) fun e he =>
      hsignal e (List.mem_cons_of_mem _ he)⟩
    · cases e with
      | message msg => trivial
      | quiet nanos => exact expires_iff (hcalls timeout (List.mem_of_mem_head? ht)) _
      | signal => exact hsignal .signal (by simp) rfl
    · exact hcalls timeout (calls_of_step ht h)

/-- `MessageBox` for a type with a uuid. -/
def MessageBox.ofType (typeUuid : Uuid) (decode : List UInt8 → Option P) : MessageBox P :=
  ⟨decodeBox typeUuid decode, fun _ => typeUuid⟩

/-- How the loop goes on after an arm. -/
def armFlow : Forwarding.Arm P → Flow P
  | .done msg => .break (.ok msg)
  | .otherType | .unexpected => .continue
  | .decode => .break .decode
  | .rejoin => .rejoin
  | .timeout => .break .timeout
  | .unreachable => .break .unreachable

/-- At such a type the arm for a client is the one that `Forwarding` and the results about the whole
bus run. -/
theorem clientArm_ofType (typeUuid : Uuid) (decode : List UInt8 → Option P)
    (r : Except (Error RawFd) EncodedMessage) :
    clientArm (.ofType typeUuid decode) label r = armFlow (Forwarding.arm typeUuid decode label r) := by
  cases r with
  | error e => cases e <;> rfl
  | ok msg =>
    simp only [clientArm, Forwarding.arm, MessageBox.ofType]
    split
    · generalize (decodeBox typeUuid decode msg.selector.uuid msg.payload :
        Except (Error RawFd) P) = decoded
      cases decoded with
      | ok payload => rfl
      | error e => cases e <;> rfl
    · rfl

/-- A message of the type 0. -/
def mail : EncodedMessage := intoEncoded plainCodec ⟨0, 8, 5⟩ (withObjects [4]) zeroHeap

/-- Messages of the type `typeUuid`, whose payload is any bytes. -/
def bytesBox (typeUuid : Uuid) : MessageBox (List UInt8) := .ofType typeUuid some

theorem alike_mail : Alike (bytesBox 0) ⟨["a"]⟩ [some (.ofNanos nanosPerSec), none]
    [.quiet (2 * nanosPerSec), .message mail] := by
  have haddressed : ∀ e ∈ [Event.quiet (2 * nanosPerSec), .message mail], e.Addressed ⟨["a"]⟩ := by
    intro e he msg hmsg
    subst hmsg
    cases he with
    | tail _ he =>
      cases List.mem_singleton.mp he
      rfl
  exact (alike_iff (bytesBox 0) ⟨["a"]⟩ _ _ haddressed).mpr
    (along_of_range (by decide) (by simp))

/-- A call that may wait for seven weeks, and a message that comes after one second. -/
theorem client_gives_up :
    let calls : List (Option Duration) := [some (.ofNanos (2 ^ 32 * nanosPerMilli)), none]
    let events : List Event := [.quiet nanosPerSec, .message mail]
    ((run (clientStep (bytesBox 0) ⟨["a"]⟩) (.start _ calls) events).map fun s => s.results.length) =
        some 2 ∧
      ((run (serverStep (bytesBox 0)) (.start _ calls) events).map fun s => s.results.length) = some 1 ∧
      ¬ Alike (bytesBox 0) ⟨["a"]⟩ calls events := by
  refine ⟨by decide, by decide, fun h => ?_⟩
  have hsame := congrArg (Option.map List.length) (h.same 2)
  revert hsame
  decide

end Ipmb.RecvLoop
