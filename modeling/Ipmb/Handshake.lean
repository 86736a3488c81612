import Ipmb.Authentication
import Ipmb.Greeting
import Ipmb.HubSteps
import Ipmb.Refusals

namespace Ipmb.Handshake

open Labels Messages Time Faults Backend Run Controller Journal Accounting Greeting Refusals Reception

/-- What the handshake uses of a backend: the message that `look_up` sends with a version
and a payload, how a message that has been sent arrives, and how it is parsed. -/
structure Wire where
  Msg : Type
  Remote : Type
  Datagram : Type
  request : Version → List UInt8 → Msg → Prop
  deliver : Msg → Datagram → Prop
  parse : Version → Datagram → Except (Error Remote) Msg → Prop

inductive Os where
  | linux
  | macos
  | windows
deriving DecidableEq

/-- The selector of a connect request. -/
def requestSelector : Selector := { Selector.unicast .true with uuid := ConnectMessage.uuid }

variable (k : Decoding.Kernel) (codec : Encoding.Codec)
  (mapHeader : Windows.Handle → Option UInt64)

/-- The request carries the writing end of a new pipe; on Windows the process goes first. -/
def wire : Os → Wire
  | .linux =>
    { Msg := Encoding.EncodedMessage
      Remote := Buffers.RawFd
      Datagram := Decoding.Datagram
      request := fun v payload msg => ∃ writeFd heap,
        msg = Encoding.intoEncoded codec v ⟨requestSelector, payload, [writeFd], []⟩ heap
      deliver := fun msg d => ∃ f, Attachments.transmit k f msg = some d
      parse := fun version d r => ∃ heap,
        outcome (Decoding.fromLocal k codec version heap (some d)) = some r }
  | .macos =>
    { Msg := Mach.EncodedMessage
      Remote := Mach.Port
      Datagram := Mach.MachMsg
      request := fun v payload msg => ∃ port heap,
        msg = Mach.intoEncoded codec v ⟨requestSelector, payload, [port], []⟩ heap
      deliver := fun msg d => ∃ f header trailer, d = Mach.deliver f header trailer msg.machMsg
      parse := fun version d r => (Mach.new k codec version d).bind outcome = some r }
  | .windows =>
    { Msg := Windows.EncodedMessage
      Remote := Windows.Remote
      Datagram := List UInt8
      request := fun v payload msg => ∃ process writePipe heap,
        msg = Windows.intoEncoded codec v ⟨requestSelector, payload, [process, writePipe], []⟩ heap
      deliver := fun msg d => ∃ toRemote, d = Windows.sendHelper toRemote msg
      parse := fun version d r => outcome (Windows.new mapHeader codec version d) = some r }

/-- What `io_hub.recv` can return to the controller. -/
def Heard (wire : Wire) (version : Version) (r : Except (Error wire.Remote) wire.Msg) : Prop :=
  (∃ msg, r = .ok msg) ∨ r = .error .timeout ∨ r = .error .disconnect ∨ ∃ d, wire.parse version d r

/-- What `io_hub.recv` can return to `look_up`, if `inbox` is what has been sent over its
pipe by then. -/
inductive Waits (wire : Wire) (v : Version) :
    List wire.Msg → Except (Error wire.Remote) wire.Msg → Prop
  | first {msg : wire.Msg} (rest : List wire.Msg) {d : wire.Datagram}
    {r : Except (Error wire.Remote) wire.Msg} (hd : wire.deliver msg d) (hr : wire.parse v d r) :
    Waits wire v (msg :: rest) r
  | timeout : Waits wire v [] (.error .timeout)
  | disconnect : Waits wire v [] (.error .disconnect)

variable {M R W : Type}

/-- `look_up`, once `io_hub.recv` has returned. -/
def lookUp (p : Platform M R W) (decode : List UInt8 → Option ConnectMessageAck)
    (r : Except (Error R) M) : Except (Error R) EndpointID :=
  match r with
  | .error e => .error e
  | .ok msg =>
    match decodeBox ConnectMessageAck.uuid decode (p.selector msg).uuid (p.payloadData msg) with
    | .error e => .error e
    | .ok (.ok endpointId) => .ok endpointId
    | .ok (.errVersion v) => .error (.versionMismatch v none)
    | .ok .errToken => .error .tokenMismatch

/-- What has been sent over the remote that came with message number `n`. -/
def inbox (log : List (Attempt M R)) (n : Nat) : List M :=
  ((sentOver (some n) log).filter Attempt.accepted).map (fun a => a.message.val)

/-- The client of version `v` whose request has number `n` is told the version of the
controller: it is sent `ErrVersion`, and `look_up` fails with it. -/
structure Told (wire : Wire) (p : Platform wire.Msg wire.Remote W)
    (decode : List UInt8 → Option ConnectMessageAck) (v : Version) (s : State wire.Msg wire.Remote W)
    (n : Nat) : Prop where
  answered : ∃ a ∈ sentOver (some n) s.2.2, a.accepted = true ∧
    ∃ w selector, a.message = ⟨none, (p.encodeAck w selector (.errVersion p.version)).1⟩
  outcome : ∀ r, Waits wire v (inbox s.2.2 n) r →
    lookUp p decode r = .error (.versionMismatch p.version none)

variable {k codec mapHeader}

theorem parse_unaddressed {os : Os} {version : Version} {d : (wire k codec mapHeader os).Datagram}
    {e : Error (wire k codec mapHeader os).Remote}
    (h : (wire k codec mapHeader os).parse version d (.error e)) : Unaddressed e := by
  cases os with
  | linux =>
    obtain ⟨heap, h⟩ := h
    exact (fromLocal_unaddressed heap (some d)).outcome h
  | macos =>
    obtain ⟨r, hr, h⟩ := Option.bind_eq_some_iff.mp h
    exact (mach_new_unaddressed hr).outcome h
  | windows => exact (windows_new_unaddressed mapHeader d).outcome h

theorem fromLocal_incompatible (hk : k.Documented) (codec : Encoding.Codec) {version v : Version}
    (msg : Encoding.Message) (heap heap' : Encoding.Heap) (fds : List Buffers.RawFd)
    (hv : version.compatible v = false) :
    ∃ e, Decoding.fromLocal k codec version heap'
      (some ⟨(Encoding.encodeIov codec v msg heap.iov).2, fds⟩) = .error (.error e) := by
  have hpos : 0 < (Encoding.encodeIov codec v msg heap.iov).2.length := by
    rw [Encoding.length_encodeIov]
    omega
  by_cases hfits : (Encoding.encodeIov codec v msg heap.iov).2.length < 2 ^ 32 ∧ fds.length ≤ 4
  · rw [fromLocal_parse (d := ⟨_, fds⟩) hk codec version heap' hpos hfits.1 hfits.2,
      RoundTrip.receivedIov_encodeIov, Decoding.parseData, RoundTrip.encodeIov_version, hv]
    exact ⟨_, rfl⟩
  · rw [not_and_or, not_lt, not_le] at hfits
    exact ⟨_, fromLocal_refused (d := ⟨_, fds⟩) hk codec version heap' (Or.inr hfits)⟩

/-- No parser accepts a request of an incompatible version. -/
theorem parse_request (hk : k.Documented) {os : Os} {version v : Version} {payload : List UInt8}
    {msg : (wire k codec mapHeader os).Msg} {d : (wire k codec mapHeader os).Datagram}
    {r : Except (Error (wire k codec mapHeader os).Remote) (wire k codec mapHeader os).Msg}
    (hv : v.compatible version = false) (hrequest : (wire k codec mapHeader os).request v payload msg)
    (hd : (wire k codec mapHeader os).deliver msg d)
    (hr : (wire k codec mapHeader os).parse version d r) : ∃ e, r = .error e := by
  rw [Version.compatible_comm] at hv
  cases os with
  | linux =>
    obtain ⟨writeFd, heap, rfl⟩ := hrequest
    obtain ⟨f, hd⟩ := hd
    obtain ⟨heap', hr⟩ := hr
    obtain ⟨fds, -, rfl⟩ := Option.map_eq_some_iff.mp hd
    obtain ⟨e, he⟩ := fromLocal_incompatible hk codec ⟨requestSelector, payload, [writeFd], []⟩ heap heap'
      (fds.map f) hv
    simp only [Encoding.intoEncoded, he] at hr
    cases hr
    exact ⟨_, rfl⟩
  | macos =>
    obtain ⟨port, heap, rfl⟩ := hrequest
    obtain ⟨f, header, trailer, rfl⟩ := hd
    have hnew := Mach.new_deliver k codec ⟨requestSelector, payload, [port], []⟩ heap hv f header trailer
    obtain ⟨r', hr', hr⟩ := Option.bind_eq_some_iff.mp hr
    cases hnew.symm.trans hr'
    cases hr
    exact ⟨_, rfl⟩
  | windows =>
    obtain ⟨process, writePipe, heap, rfl⟩ := hrequest
    obtain ⟨toRemote, rfl⟩ := hd
    have hnew := Windows.new_sendHelper mapHeader codec
      ⟨requestSelector, payload, [process, writePipe], []⟩ heap hv toRemote
    simp only [wire, hnew] at hr
    cases hr
    exact ⟨_, rfl⟩

section Run

variable {os : Os} {p : Platform (wire k codec mapHeader os).Msg (wire k codec mapHeader os).Remote W}
  {decode : List UInt8 → Option ConnectMessageAck}
  {its : List (Iteration (wire k codec mapHeader os).Msg (wire k codec mapHeader os).Remote W)}
  {label : Label} {token : String} {now : Instant} {w : W}

/-- The controller sends nothing over a remote of a message that it has given up. -/
theorem over_given_up {M R : Type} {p : Platform M R W} {its : List (Iteration M R W)} {s : State M R W}
    {n : Nat} {it : Iteration M R W} {e : Error R}
    (h : journalRun p (start label token now w) its = some s) (hn : its[n]? = some it)
    (he : it.received = .error e) : sentOver (some n) s.2.2 = [] := by
  rw [sentOver, List.filter_eq_nil_iff]
  intro a ha htag
  have hknown := (journalRun_greetings h).log a ha
  rw [beq_iff_eq.mp htag] at hknown
  obtain ⟨it', msg, hit', hm⟩ := hknown
  cases hn.symm.trans hit'
  rw [he] at hm
  cases hm

/-- The branch of `run` for an error with a remote is never taken. -/
theorem over_nobody {s : State (wire k codec mapHeader os).Msg (wire k codec mapHeader os).Remote W}
    (h : journalRun p (start label token now w) its = some s)
    (hheard : ∀ it ∈ its, Heard (wire k codec mapHeader os) p.version it.received) :
    sentOver none s.2.2 = [] := by
  rw [sentOver, List.filter_eq_nil_iff]
  intro a ha htag
  have hknown := (journalRun_greetings h).log a ha
  rw [beq_iff_eq.mp htag] at hknown
  obtain ⟨it, hit, v, remote, he⟩ := hknown
  obtain ⟨msg, hm⟩ | ht | hd | ⟨d, hr⟩ := hheard it hit
  · rw [he] at hm
    cases hm
  · rw [he] at ht
    cases ht
  · rw [he] at hd
    cases hd
  · rw [he] at hr
    exact parse_unaddressed hr v remote rfl

/-- Nobody with an incompatible version is told so, whatever the platform: the parser has
given up his request with nobody to answer, and `look_up` waits in vain. -/
theorem incompatible_never_told (hk : k.Documented)
    {t : BusController (wire k codec mapHeader os).Msg (wire k codec mapHeader os).Remote × W}
    (h : run (iterate p) (new label token now, w) its = some t)
    (hheard : ∀ it ∈ its, Heard (wire k codec mapHeader os) p.version it.received) {n : Nat}
    {it : Iteration (wire k codec mapHeader os).Msg (wire k codec mapHeader os).Remote W}
    (hn : its[n]? = some it) {v : Version} (hv : v.compatible p.version = false) {payload : List UInt8}
    {msg : (wire k codec mapHeader os).Msg} {d : (wire k codec mapHeader os).Datagram}
    (hrequest : (wire k codec mapHeader os).request v payload msg)
    (hd : (wire k codec mapHeader os).deliver msg d)
    (hr : (wire k codec mapHeader os).parse p.version d it.received) :
    ∃ s, journalRun p (start label token now w) its = some s ∧ eraseState s = t ∧
      sentOver none s.2.2 = [] ∧ ¬Told (wire k codec mapHeader os) p decode v s n ∧
      ∀ r, Waits (wire k codec mapHeader os) v (inbox s.2.2 n) r →
        lookUp p decode r = .error .timeout ∨ lookUp p decode r = .error .disconnect := by
  obtain ⟨s, hs, ht⟩ := exists_journalRun h
  obtain ⟨e, he⟩ := parse_request hk hv hrequest hd hr
  have hover : sentOver (some n) s.2.2 = [] := over_given_up hs hn he
  refine ⟨s, hs, ht, over_nobody hs hheard, ?_, ?_⟩
  · intro htold
    obtain ⟨a, ha, -⟩ := htold.answered
    rw [hover] at ha
    cases ha
  · intro r hw
    rw [inbox, hover] at hw
    cases hw with
    | timeout => exact Or.inl rfl
    | disconnect => exact Or.inr rfl

end Run

section Thread

open Buffers Decoding Linux Hub HubSteps Bus

variable {host : Host W} {control : Control} {version : Version}

/-- What the thread of a Linux controller has received is what its hub can return. -/
theorem step_heard (hk : host.kernel.Documented) {s s' : Thread W} {i : Input W}
    (h : ∀ e ∈ s.received, Heard (wire host.kernel codec mapHeader .linux) version e.2.received)
    (hs : step host codec control version s i = some s') :
    ∀ e ∈ s'.received, Heard (wire host.kernel codec mapHeader .linux) version e.2.received := by
  apply step_received hs h
  intro answer hub source r ha hmoved
  generalize s.pc = pc at hmoved
  cases hmoved with
  | message msg => exact Or.inl ⟨msg, rfl⟩
  | timeout => exact Or.inr (Or.inl rfl)
  | received rest msg _ _ _ _ => exact Or.inl ⟨msg, rfl⟩
  | lost rest e _ _ _ _ =>
    obtain ⟨heap, socket, -, hparse⟩ := answer_fromLocal ha
    cases socket with
    | none =>
      rw [fromLocal_none hk] at hparse
      cases hparse
      exact Or.inr (Or.inr (Or.inl rfl))
    | some d => exact Or.inr (Or.inr (Or.inr ⟨d, heap, hparse⟩))

/-- The Linux wire leaves nothing out: over a whole run, all that the loop of the controller can
receive is heard on it. -/
theorem run_heard (hk : host.kernel.Documented) {label : Label} {token : String} {now : Instant} {w : W}
    {listener waker : RawFd} {inputs : List (Input W)} {s : Thread W}
    (h : run (step host codec control version) (boot label token now w listener waker) inputs =
      some s) :
    ∀ e ∈ s.received, Heard (wire host.kernel codec mapHeader .linux) version e.2.received :=
  run_invariant (fun _ (s : Thread W) =>
      ∀ e ∈ s.received, Heard (wire host.kernel codec mapHeader .linux) version e.2.received)
    (by simp [boot]) (fun _ _ _ _ _ hi hs => step_heard hk hi hs) inputs s h

end Thread

section Example

open Buffers Encoding Decoding Reference Linux Bus Attachments PlainHost Authentication

/-- The wire of the plain host. -/
abbrev plainWire : Wire := wire anyRegion requestCodec (fun _ => none) .linux

/-- The request of a 0.7.0 client. -/
def olderRequest : EncodedMessage :=
  intoEncoded requestCodec ⟨0, 7, 0⟩ ⟨requestSelector, [], [7], []⟩ zeroHeap

/-- The calls by which that request is read from a connection. -/
def knocks (fd : RawFd) : List Call :=
  [.tryRecv .empty, .wait [fd], .fromLocal zeroHeap (some ⟨olderRequest.iovData, [7]⟩)]

abbrev requestLinux : Platform EncodedMessage RawFd (List RawFd) :=
  linux plainHost requestCodec plainControl ⟨0, 8, 5⟩

/-- A 0.8.5 controller says nothing to a 0.7.0 client. -/
theorem older_never_told :
    ∃ s js, plainThread (connects 9 ++ knocks 9) = some s ∧
      plainWire.request ⟨0, 7, 0⟩ [] olderRequest ∧
      plainWire.deliver olderRequest ⟨olderRequest.iovData, [7]⟩ ∧
      s.received.map (fun e => e.2.received) = [.error (.versionMismatch ⟨0, 7, 0⟩ none)] ∧
      journalRun requestLinux (start ⟨["c"]⟩ "token" (.ofNanos 0) []) (s.received.map Prod.snd) =
        some js ∧ js.2.2 = [] ∧
      ¬Told plainWire requestLinux (fun _ => some (.errVersion ⟨0, 8, 5⟩)) ⟨0, 7, 0⟩ js 0 := by
  refine ⟨_, _, rfl, ⟨7, zeroHeap, rfl⟩, ⟨id, rfl⟩, rfl, rfl, rfl, ?_⟩
  intro h
  obtain ⟨a, ha, -⟩ := h.answered
  cases ha

theorem incompatible_never_told_older :
    ∃ t s, run (iterate requestLinux) (new ⟨["c"]⟩ "token" (.ofNanos 0), [])
        [⟨id, .error (.versionMismatch ⟨0, 7, 0⟩ none), .ofNanos 0⟩] = some t ∧
      journalRun requestLinux (start ⟨["c"]⟩ "token" (.ofNanos 0) [])
        [⟨id, .error (.versionMismatch ⟨0, 7, 0⟩ none), .ofNanos 0⟩] = some s ∧ eraseState s = t ∧
      sentOver none s.2.2 = [] ∧ ¬Told plainWire requestLinux (fun _ => none) ⟨0, 7, 0⟩ s 0 ∧
      ∀ r, Waits plainWire ⟨0, 7, 0⟩ (inbox s.2.2 0) r →
        lookUp requestLinux (fun _ => none) r = .error .timeout ∨
          lookUp requestLinux (fun _ => none) r = .error .disconnect := by
  obtain ⟨t, ht⟩ := Option.isSome_iff_exists.mp (by decide : (run (iterate requestLinux)
    (new ⟨["c"]⟩ "token" (.ofNanos 0), [])
    [⟨id, .error (.versionMismatch ⟨0, 7, 0⟩ none), .ofNanos 0⟩]).isSome = true)
  have hread : plainWire.parse ⟨0, 8, 5⟩ ⟨olderRequest.iovData, [7]⟩
      (.error (.versionMismatch ⟨0, 7, 0⟩ none)) := ⟨zeroHeap, rfl⟩
  have hheard : ∀ it ∈ [(⟨id, .error (.versionMismatch ⟨0, 7, 0⟩ none), .ofNanos 0⟩ :
      Iteration EncodedMessage RawFd (List RawFd))], Heard plainWire ⟨0, 8, 5⟩ it.received := by
    intro it hit
    cases List.mem_singleton.mp hit
    exact Or.inr (Or.inr (Or.inr ⟨_, hread⟩))
  obtain ⟨s, hs⟩ := @incompatible_never_told anyRegion requestCodec (fun _ => none) (List RawFd) .linux
    requestLinux (fun _ => none) _ _ _ _ _ (reference_documented _) t ht hheard 0 _ rfl ⟨0, 7, 0⟩ (by decide)
    [] olderRequest ⟨olderRequest.iovData, [7]⟩ ⟨7, zeroHeap, rfl⟩ ⟨id, rfl⟩ hread
  exact ⟨t, s, ht, hs⟩

end Example

end Ipmb.Handshake
