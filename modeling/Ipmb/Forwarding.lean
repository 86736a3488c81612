import Ipmb.Handshake

namespace Ipmb.Forwarding

open Labels Messages Time Bytes Buffers Encoding Faults Decoding Reception RoundTrip Refusals Backend Run
  Controller Journal Accounting Registration Greeting Linux Hub HubSteps Bus Handshake

/-- A received message, as `recv` returns it. -/
structure Delivery (P : Type) where
  selector : Selector
  payload : P
  objects : List RawFd
  memoryRegions : List MemoryRegion

/-- What `EndpointReceiver::recv` does with the result of `io_hub.recv`, in its arm for a
client. -/
inductive Arm (P : Type) where
  | done (msg : Delivery P)
  | otherType
  | unexpected
  | decode
  | rejoin
  | timeout
  | unreachable

variable {P : Type} (typeUuid : Uuid) (decode : List UInt8 → Option P)

def arm (label : Label) : Except (Error RawFd) EncodedMessage → Arm P
  | .ok encodedMsg =>
    if encodedMsg.selector.labelOp.validate label then
      match (decodeBox typeUuid decode encodedMsg.selector.uuid encodedMsg.payload :
        Except (Error RawFd) P) with
      | .ok payload =>
        .done ⟨{ encodedMsg.selector with uuid := typeUuid }, payload, encodedMsg.objects,
          encodedMsg.memoryRegions⟩
      | .error .typeUuidNotFound => .otherType
      | .error .decode => .decode
      | .error _ => .unreachable
    else .unexpected
  | .error .disconnect => .rejoin
  | .error .timeout => .timeout
  | .error _ => .unreachable

/-- What it does with a message of the channel, in both of its arms for a server. -/
def ownArm (encodedMsg : EncodedMessage) : Arm P :=
  match (decodeBox typeUuid decode encodedMsg.selector.uuid encodedMsg.payload :
    Except (Error RawFd) P) with
  | .ok payload =>
    .done ⟨{ encodedMsg.selector with uuid := typeUuid }, payload, encodedMsg.objects,
      encodedMsg.memoryRegions⟩
  | .error .typeUuidNotFound => .otherType
  | .error .decode => .decode
  | .error _ => .unreachable

/-- The channel brings what is meant for the label only. -/
theorem ownArm_eq {label : Label} {msg : EncodedMessage} (h : msg.selector.labelOp.validate label = true) :
    ownArm typeUuid decode msg = arm typeUuid decode label (.ok msg) := by
  rw [arm, if_pos h]
  rfl

/-- An endpoint that receives from the controller, and what its calls have come to. -/
structure Receiver (P : Type) where
  hub : IoHub
  pc : Pc
  arms : List (Arm P)

/-- `IoHub::for_endpoint`. -/
def forEndpoint (fd waker : RawFd) : IoHub := ⟨false, [⟨fd, 0⟩], none, waker, 1⟩

def connected (P : Type) (fd waker : RawFd) : Receiver P := ⟨forEndpoint fd waker, .waiting, []⟩

variable {W : Type} (host : Host W) (codec : Codec)

def Receiver.step (version : Version) (label : Label) (s : Receiver P) (call : Call) :
    Option (Receiver P) :=
  (call.answer host codec version).bind fun answer =>
  (s.hub.step s.pc answer).map fun next =>
    match next.2 with
    | .pending pc => { s with hub := next.1, pc := pc }
    | .returned _ r => ⟨next.1, next.1.start, s.arms ++ [arm typeUuid decode label r]⟩

/-- The readers of `from_local` have made this message of its data part, which is a whole
number of words. -/
structure Parsed (version : Version) (msg : EncodedMessage) : Prop where
  words : msg.iovData.length % 4 = 0
  version : ∃ v, readVersion version msg.iovData = .ok v
  fields : ∃ selectorSize, readSelector codec msg.iovData = .ok (selectorSize, msg.selector) ∧
    readPayload msg.iovData selectorSize = .ok msg.payloadData

variable {host codec}

theorem readVersion_compatible {ours theirs v : Version} {iovData : List UInt8}
    (h : readVersion ours iovData = .ok v) (hc : theirs.compatible ours = true) :
    readVersion theirs iovData = .ok v := by
  rw [readVersion] at h ⊢
  split at h
  · split at h
    · cases h
    · split at h
      · cases h
      · rename_i magic major minor patch hread hmagic hv
        cases h
        have hours : ours.compatible ⟨major, minor, patch⟩ = true := by simpa using hv
        have htheirs := Version.compatible_trans hc hours
        rw [if_neg hmagic, htheirs]
        rfl
  · cases h

/-- What `from_local` accepts is parsed. -/
theorem fromLocal_parsed {k : Kernel} (hk : k.Documented) {version : Version} {heap : Heap}
    {socket : Option Datagram} {msg : EncodedMessage}
    (h : fromLocal k codec version heap socket = .ok msg) : Parsed codec version msg := by
  obtain ⟨d, rfl, hpos, hlt, hfds⟩ := fromLocal_ok hk h
  rw [fromLocal_parse hk codec version heap hpos hlt hfds] at h
  obtain ⟨v, hv, h⟩ := bind_eq_ok.mp h
  obtain ⟨selector, hselector, h⟩ := bind_eq_ok.mp h
  obtain ⟨attached, -, h⟩ := bind_eq_ok.mp h
  obtain ⟨payload, hpayload, rfl⟩ := map_eq_ok.mp h
  refine ⟨?_, ⟨v, hv⟩, selector.1, hselector, hpayload⟩
  rw [length_receivedIov]
  exact align4_mod _

/-- A compatible endpoint reads the same from the same bytes. -/
theorem Parsed.fromLocal {k : Kernel} (hk : k.Documented) {ours theirs : Version} {msg : EncodedMessage}
    (h : Parsed codec ours msg) (hc : theirs.compatible ours = true) (heap : Heap) (fds : List RawFd) :
    fromLocal k codec theirs heap (some ⟨msg.iovData, fds⟩) = .error (.error .disconnect) ∨
      ∃ controlData, fromLocal k codec theirs heap (some ⟨msg.iovData, fds⟩) =
        (splitObjects k fds msg.selector.memoryRegionCount.toNat).map fun attached =>
          { msg with controlData := controlData, objects := attached.1, memoryRegions := attached.2 } := by
  by_cases hd : msg.iovData.length = 0 ∨ 2 ^ 32 ≤ msg.iovData.length ∨ 4 < fds.length
  · exact Or.inl (fromLocal_refused (d := ⟨_, fds⟩) hk codec theirs heap hd)
  · refine Or.inr ⟨receivedControl heap ⟨msg.iovData, fds⟩, ?_⟩
    obtain ⟨v, hv⟩ := h.version
    obtain ⟨selectorSize, hselector, hpayload⟩ := h.fields
    rw [fromLocal_parse (d := ⟨_, fds⟩) hk codec theirs heap (by simp only; omega) (by simp only; omega)
        (by simp only; omega), receivedIov_of_mod heap (d := ⟨_, fds⟩) h.words, parseData,
      readVersion_compatible hv hc]
    simp only [Except.bind, hselector, hpayload]
    cases splitObjects k fds msg.selector.memoryRegionCount.toNat <;> rfl

/-- Such a message can be read by every compatible endpoint, or is too large for any. -/
def Sound (codec : Codec) (version : Version) (msg : EncodedMessage) : Prop :=
  Parsed codec version msg ∨ 2 ^ 32 ≤ msg.iovData.length

/-- `bincode` gives the selector back. -/
def Keeps (codec : Codec) (selector : Selector) : Prop :=
  codec.decode (codec.encode selector) = some selector

theorem intoEncoded_sound (version : Version) {msg : Message} (hcodec : Keeps codec msg.selector)
    (heap : Heap) :
    Sound codec version (intoEncoded codec version msg heap) := by
  by_cases hlt : (encodeIov codec version msg heap.iov).2.length < 2 ^ 32
  · refine Or.inl ⟨encodeIov_mod codec version msg heap, ⟨version, ?_⟩, ?_⟩
    · exact (encodeIov_version codec version version msg heap).trans
        (if_pos (Version.compatible_refl version))
    · exact (encodeIov_reads codec version msg heap hcodec hlt).fields
  · exact Or.inr (not_lt.mp hlt)

/-- The endpoint in the controller's own process sends what `into_encoded` makes. -/
def Own (codec : Codec) (version : Version) (call : Call) : Prop :=
  ∀ msg, call = .tryRecv (.message msg) →
    ∃ m heap, Keeps codec m.selector ∧ msg = intoEncoded codec version m heap

section Controller

variable {control : Control} {version : Version}

theorem step_sound (hk : host.kernel.Documented) {s s' : Thread W} {i : Input W}
    (hown : Own codec version i.call)
    (h : ∀ e ∈ s.received, ∀ msg, e.2.received = .ok msg → Sound codec version msg)
    (hs : step host codec control version s i = some s') :
    ∀ e ∈ s'.received, ∀ msg, e.2.received = .ok msg → Sound codec version msg := by
  apply step_received hs h
  intro answer hub source r ha hmoved msg hmsg
  obtain rfl : r = .ok msg := hmsg
  generalize i.call = call at ha hown
  generalize s.pc = pc at hmoved
  cases hmoved with
  | message msg =>
    cases call with
    | tryRecv r =>
      cases ha
      obtain ⟨m, heap, hcodec, rfl⟩ := hown msg rfl
      exact intoEncoded_sound version hcodec heap
    | fromLocal heap socket =>
      simp only [Call.answer] at ha
      split at ha <;> cases ha
    | _ => cases ha
  | received rest msg _ _ _ _ =>
    obtain ⟨heap, socket, -, hparse⟩ := answer_fromLocal ha
    exact Or.inl (fromLocal_parsed hk (outcome_ok.mp hparse))

theorem run_sound (hk : host.kernel.Documented) {label : Label} {token : String} {now : Instant}
    {w : W} {listener waker : RawFd} {inputs : List (Input W)}
    {s : Thread W} (hown : ∀ i ∈ inputs, Own codec version i.call)
    (h : run (step host codec control version) (boot label token now w listener waker) inputs =
      some s) :
    ∀ e ∈ s.received, ∀ msg, e.2.received = .ok msg → Sound codec version msg := by
  refine run_invariant (fun is (s : Thread W) => (∀ i ∈ is, Own codec version i.call) →
    ∀ e ∈ s.received, ∀ msg, e.2.received = .ok msg → Sound codec version msg) (by simp [boot])
    (fun is u i v _ hi hs hown => ?_) inputs s h hown
  rw [List.forall_mem_append, List.forall_mem_singleton] at hown
  exact step_sound hk hown.2 (hi hown.1) hs

/-- Message number `k` is the request of a client with this version and label, which the
controller decodes as it was encoded. -/
def Client (host : Host W) (codec : Codec) (control : Control)
    (encodeConnect : ConnectMessage → List UInt8) (version : Version)
    (its : List (Iteration EncodedMessage RawFd W)) (k : Nat) (theirs : Version) (label : Label) : Prop :=
  ∃ it msg token writeFd heap heap' fds, Received its k it msg ∧
    control.decodeConnect (encodeConnect ⟨theirs, token, label⟩) = some ⟨theirs, token, label⟩ ∧
    fromLocal host.kernel codec version heap' (some ⟨(intoEncoded codec theirs
      ⟨requestSelector, encodeConnect ⟨theirs, token, label⟩, [writeFd], []⟩ heap).iovData, fds⟩) =
      .ok msg

/-- A datagram that carries a received message to the endpoint that asked in message
number `k`. -/
def Forwarded (js : State EncodedMessage RawFd W) (k : Nat) (d : Datagram) : Prop :=
  ∃ a ∈ js.2.2, a.message.tag ≠ none ∧ a.remote.tag = some k ∧ d.bytes = a.message.val.iovData

/-- The controller finds in the request what the client has put there. -/
theorem client_payload (hk : host.kernel.Documented) (hcodec : Keeps codec requestSelector)
    {encodeConnect : ConnectMessage → List UInt8} {its : List (Iteration EncodedMessage RawFd W)}
    {k : Nat} {theirs : Version} {label : Label}
    (h : Client host codec control encodeConnect version its k theirs label)
    {it : Iteration EncodedMessage RawFd W} {msg : EncodedMessage} (hr : Received its k it msg) :
    ∃ token, control.decodeConnect msg.payload = some ⟨theirs, token, label⟩ := by
  obtain ⟨it', msg', token, writeFd, heap, heap', fds, hr', hdecode, hgot⟩ := h
  obtain ⟨-, rfl⟩ := hr.unique hr'
  refine ⟨token, ?_⟩
  have hlt := (fromLocal_small hk hgot).2.1
  obtain ⟨-, attached, -, rfl⟩ := Relay.accepted_parts hk (by exact hcodec) hgot
  have hreads := encodeIov_reads codec theirs
    ⟨requestSelector, encodeConnect ⟨theirs, token, label⟩, [writeFd], []⟩ heap hcodec hlt
  simp only [EncodedMessage.payload, hreads.payload, Option.getD_some, hdecode]

/-- The endpoint of a client has a compatible version and the label of that client, so that
a message meant for the one is meant for the other. -/
theorem meant_client (hk : host.kernel.Documented) (hcodec : Keeps codec requestSelector)
    {encodeConnect : ConnectMessage → List UInt8} {its : List (Iteration EncodedMessage RawFd W)}
    {token : String} {k : Nat} {theirs : Version}
    {label : Label} (hclient : Client host codec control encodeConnect version its k theirs label)
    {a : Attempt EncodedMessage RawFd}
    (h : Meant (linux host codec control version) token its a) (hk' : a.remote.tag = some k) :
    theirs.compatible version = true ∧ a.message.val.selector.labelOp.validate label = true := by
  obtain ⟨ep, ⟨k', it, msg, htag, hr, hreq⟩, hrem, hm⟩ := h
  obtain rfl : k = k' := Option.some.inj (hk'.symm.trans (hrem ▸ htag))
  obtain ⟨token', hpayload⟩ := client_payload hk hcodec hclient hr
  obtain ⟨payload, hdecode, hversion, -, hlabel⟩ := hreq.payload
  have hsame : (linux host codec control version).payloadData
      ((linux host codec control version).extractRemote msg).2 = msg.payload := by
    simp only [linux, extractRemote]
    split <;> rfl
  obtain rfl : payload = ⟨theirs, token', label⟩ := by
    rw [hsame] at hdecode
    exact Option.some.inj (hdecode.symm.trans hpayload)
  refine ⟨hversion, ?_⟩
  have hlabel' : label = ep.label := hlabel
  rw [hlabel']
  exact hm

end Controller

theorem arm_expected (label : Label) {msg : EncodedMessage}
    (h : msg.selector.labelOp.validate label = true) :
    arm typeUuid decode label (.ok msg) ≠ .unexpected ∧
      arm typeUuid decode label (.ok msg) ≠ .unreachable := by
  simp only [arm, h, if_true, decodeBox]
  by_cases huuid : msg.selector.uuid = typeUuid
  · rw [if_pos huuid]
    cases decode msg.payload <;> simp
  · rw [if_neg huuid]
    simp

/-- What holds of the endpoint after every call. -/
structure Undisturbed (s : Receiver P) : Prop where
  busRx : s.hub.busRx = false
  listener : s.hub.listener = none
  pc : s.pc ≠ .polling
  arms : ∀ a ∈ s.arms, a ≠ .unexpected ∧ a ≠ .unreachable

/-- The endpoint reads a message that is meant for it from the datagram, or loses the
connection. -/
structure Expected (k : Kernel) (codec : Codec) (version : Version) (label : Label) (d : Datagram) :
    Prop where
  error : ∀ heap e, fromLocal k codec version heap (some d) = .error (.error e) → e = .disconnect
  ok : ∀ heap msg, fromLocal k codec version heap (some d) = .ok msg →
    msg.selector.labelOp.validate label = true

theorem Sound.expected {k : Kernel} (hk : k.Documented) {ours theirs : Version} {label : Label}
    {msg : EncodedMessage} (h : Sound codec ours msg) (hc : theirs.compatible ours = true)
    (hm : msg.selector.labelOp.validate label = true) (fds : List RawFd) :
    Expected k codec theirs label ⟨msg.iovData, fds⟩ := by
  obtain hparsed | hlarge := h
  · refine ⟨fun heap e he => ?_, fun heap got hgot => ?_⟩
    · obtain hrefused | ⟨controlData, hread⟩ := hparsed.fromLocal hk hc heap fds
      · rw [hrefused] at he
        cases he
        rfl
      · have hfails := (splitObjects_fails (k := k) (fun _ => False) fds
          msg.selector.memoryRegionCount.toNat).map fun attached =>
            ({ msg with controlData := controlData, objects := attached.1, memoryRegions := attached.2 } :
              EncodedMessage)
        rw [← hread, he] at hfails
        exact hfails.elim
    · obtain hrefused | ⟨controlData, hread⟩ := hparsed.fromLocal hk hc heap fds
      · rw [hrefused] at hgot
        cases hgot
      · obtain ⟨attached, -, rfl⟩ := map_eq_ok.mp (hread.symm.trans hgot)
        exact hm
  · have hrefused := fun heap => fromLocal_refused (d := ⟨msg.iovData, fds⟩) hk codec theirs heap
      (Or.inr (Or.inl hlarge))
    refine ⟨fun heap e he => ?_, fun heap got hgot => ?_⟩
    · rw [hrefused heap] at he
      cases he
      rfl
    · rw [hrefused heap] at hgot
      cases hgot

section Receiver

variable {typeUuid decode} {version : Version} {label : Label}

theorem receiver_step {s s' : Receiver P} {call : Call} (hk : host.kernel.Documented)
    (hcall : ∀ heap d, call = .fromLocal heap (some d) →
      Expected host.kernel codec version label d)
    (h : Undisturbed s) (hs : s.step typeUuid decode host codec version label call = some s') :
    Undisturbed s' := by
  obtain ⟨answer, ha, hs⟩ := Option.bind_eq_some_iff.mp hs
  obtain ⟨⟨hub, progress⟩, hstep, rfl⟩ := Option.map_eq_some_iff.mp hs
  have hmoved := HubSteps.step_moved hstep
  have hpc := h.pc
  generalize s.pc = pc at hmoved hpc
  have hstart : ∀ localList, ({ s.hub with localList := localList } : IoHub).start ≠ .polling := by
    intro localList
    simp [IoHub.start, h.busRx]
  have hnext : ∀ rest, s.hub.next rest ≠ .polling := by
    intro rest
    rw [IoHub.next]
    split
    · exact hstart s.hub.localList
    · simp
  have hreturned : ∀ localList r, arm typeUuid decode label r ≠ .unexpected ∧
      arm typeUuid decode label r ≠ .unreachable →
      Undisturbed (⟨{ s.hub with localList := localList },
        ({ s.hub with localList := localList } : IoHub).start, s.arms ++ [arm typeUuid decode label r]⟩ :
        Receiver P) := by
    intro localList r hr
    refine ⟨h.busRx, h.listener, hstart localList, ?_⟩
    rw [List.forall_mem_append, List.forall_mem_singleton]
    exact ⟨h.arms, hr⟩
  cases hmoved with
  | message _ => exact absurd rfl hpc
  | empty => exact absurd rfl hpc
  | disconnected => exact absurd rfl hpc
  | timeout => exact hreturned s.hub.localList (.error .timeout) (by simp [arm])
  | events _ _ => exact ⟨h.busRx, h.listener, by simp, h.arms⟩
  | woken rest => exact ⟨h.busRx, h.listener, hnext rest, h.arms⟩
  | refused rest _ hl =>
    rw [h.listener] at hl
    cases hl
  | accepted rest _ _ hl =>
    rw [h.listener] at hl
    cases hl
  | received rest msg _ _ _ _ =>
    obtain ⟨heap, socket, rfl, hparse⟩ := answer_fromLocal ha
    have hok := outcome_ok.mp hparse
    obtain ⟨d, rfl, -⟩ := fromLocal_ok hk hok
    exact hreturned s.hub.localList (.ok msg)
      (arm_expected typeUuid decode label ((hcall heap d rfl).ok heap msg hok))
  | lost rest e _ _ _ _ =>
    obtain ⟨heap, socket, rfl, hparse⟩ := answer_fromLocal ha
    have he : e = .disconnect := by
      cases socket with
      | none =>
        rw [fromLocal_none hk] at hparse
        cases hparse
        rfl
      | some d => exact (hcall heap d rfl).error heap e (outcome_error.mp hparse)
    subst he
    exact hreturned _ (.error .disconnect) (by simp [arm])
  | ignored rest _ _ _ => exact ⟨h.busRx, h.listener, hnext rest, h.arms⟩

theorem receiver_run {fd waker : RawFd} {calls : List Call} {s : Receiver P}
    (hk : host.kernel.Documented)
    (hcalls : ∀ call ∈ calls, ∀ heap d, call = .fromLocal heap (some d) →
      Expected host.kernel codec version label d)
    (h : run (Receiver.step typeUuid decode host codec version label) (connected P fd waker) calls =
      some s) : Undisturbed s := by
  refine run_invariant (fun is (s : Receiver P) => (∀ call ∈ is, ∀ heap d,
      call = .fromLocal heap (some d) → Expected host.kernel codec version label d) → Undisturbed s)
    (fun _ => ⟨rfl, rfl, by simp [connected], by simp [connected]⟩)
    (fun is u call v _ hi hs hcalls => ?_) calls s h hcalls
  rw [List.forall_mem_append, List.forall_mem_singleton] at hcalls
  exact receiver_step hk hcalls.2 (hi hcalls.1) hs

/-- An endpoint with a version compatible with that of the controller can read all that is
forwarded to it, whoever sent it, and finds it is meant for it: `recv` never gets to its
`unreachable!()`, nor has it to drop a message because of the label. -/
theorem forwarded_expected {W' : Type} {control : Control} {host' : Host W'} {token : String}
    {now : Instant} {w : W} {encodeConnect : ConnectMessage → List UInt8}
    (hk : host.kernel.Documented) (hk' : host'.kernel.Documented) (hcodec : Keeps codec requestSelector)
    {listener waker : RawFd} {inputs : List (Input W)} {s : Thread W}
    (hown : ∀ i ∈ inputs, Own codec version i.call)
    (h : run (step host codec control version) (boot label token now w listener waker) inputs =
      some s) :
    ∃ js, journalRun (linux host codec control version) (start label token now w)
        (s.received.map Prod.snd) = some js ∧ eraseState js = s.state ∧
      ∀ k theirs label', Client host codec control encodeConnect version (s.received.map Prod.snd) k
          theirs label' →
        (∀ d, Forwarded js k d → Expected host'.kernel codec theirs label' d) ∧
        ∀ fd waker calls (receiver : Receiver P),
          (∀ call ∈ calls, ∀ heap d, call = .fromLocal heap (some d) → Forwarded js k d) →
          run (Receiver.step typeUuid decode host' codec theirs label') (connected P fd waker) calls =
            some receiver →
          ∀ arm ∈ receiver.arms, arm ≠ .unexpected ∧ arm ≠ .unreachable := by
  have hsound := run_sound hk hown h
  obtain ⟨js, hjs, hstate⟩ := exists_journalRun (run_traced h).ran
  have hgenuine := (Conservation.journalRun_between hjs).accounts.log_genuine
  have hmeant := (journalRun_greetings hjs).meant
  refine ⟨js, hjs, hstate, fun k theirs label' hclient => ?_⟩
  have hexpected : ∀ d, Forwarded js k d → Expected host'.kernel codec theirs label' d := by
    rintro ⟨bytes, fds⟩ ⟨a, ha, htag, hk, rfl⟩
    obtain ⟨hc, hm⟩ := meant_client ‹_› hcodec hclient (hmeant a ha htag) hk
    obtain ⟨n, hn⟩ := Option.ne_none_iff_exists'.mp htag
    obtain ⟨it, ⟨hit, hmsg⟩, -⟩ := hgenuine a ha n hn
    rw [List.getElem?_map] at hit
    obtain ⟨e, he, rfl⟩ := Option.map_eq_some_iff.mp hit
    exact (hsound e (List.mem_of_getElem? he) _ hmsg).expected hk' hc hm fds
  refine ⟨hexpected, fun fd waker calls receiver hcalls hrun => ?_⟩
  exact (receiver_run hk' (fun call hcall heap d heq => hexpected d (hcalls call hcall heap d heq))
    hrun).arms

end Receiver

section Example

open Reference Relay PlainHost Authentication

/-- A client asks for the label "a", and another message follows. -/
def requestAndMail : List Call :=
  connects 9 ++ reads 9 requestMessage ++ reads 9 (withObjects [8])

theorem forwarded_expected_mail :
    ∃ s js, plainThread requestAndMail = some s ∧ eraseState js = s.state ∧
      Client plainHost requestCodec plainControl (fun _ => []) ⟨0, 8, 5⟩ (s.received.map Prod.snd) 0
        ⟨0, 8, 5⟩ ⟨["a"]⟩ ∧
      (∀ d, Forwarded js 0 d → Expected plainHost.kernel requestCodec ⟨0, 8, 5⟩ ⟨["a"]⟩ d) ∧
      ∀ fd waker calls (receiver : Receiver Unit),
        (∀ call ∈ calls, ∀ heap d, call = .fromLocal heap (some d) → Forwarded js 0 d) →
        run (Receiver.step 0 (fun _ => some ()) plainHost requestCodec ⟨0, 8, 5⟩ ⟨["a"]⟩)
          (connected Unit fd waker) calls = some receiver →
        ∀ arm ∈ receiver.arms, arm ≠ .unexpected ∧ arm ≠ .unreachable := by
  obtain ⟨msg, msg', hgot, hrun⟩ : ∃ msg msg', fromLocal plainHost.kernel requestCodec ⟨0, 8, 5⟩ zeroHeap
      (some ⟨(intoEncoded requestCodec ⟨0, 8, 5⟩ ⟨requestSelector, [], [7], []⟩ zeroHeap).iovData, [7]⟩) =
        .ok msg ∧
      (plainThread requestAndMail).map (fun s => s.received.map fun e => e.2.received) =
        some [.ok msg, .ok msg'] := ⟨_, _, rfl, rfl⟩
  obtain ⟨s, hs, hreceived⟩ := Option.map_eq_some_iff.mp hrun
  have hfirst : (s.received.map fun e => e.2.received)[0]? = some (.ok msg) := by rw [hreceived]; rfl
  rw [List.getElem?_map] at hfirst
  obtain ⟨e, he, hmsg⟩ := Option.map_eq_some_iff.mp hfirst
  have hclient : Client plainHost requestCodec plainControl (fun _ => []) ⟨0, 8, 5⟩
      (s.received.map Prod.snd) 0 ⟨0, 8, 5⟩ ⟨["a"]⟩ :=
    ⟨e.2, msg, "token", 7, zeroHeap, zeroHeap, [7], ⟨by rw [List.getElem?_map, he]; rfl, hmsg⟩, rfl, hgot⟩
  obtain ⟨js, -, hstate, hall⟩ := @forwarded_expected Unit 0 (fun _ => some ()) _ plainHost requestCodec
    ⟨0, 8, 5⟩ ⟨["c"]⟩ _ plainControl plainHost "token" (.ofNanos 0) [] (fun _ => [])
    (reference_documented _) (reference_documented _) rfl 3 4 _ s
    (by simp [requestAndMail, connects, reads, Own]) hs
  exact ⟨s, js, hs, hstate, hclient, hall 0 ⟨0, 8, 5⟩ ⟨["a"]⟩ hclient⟩

end Example

end Ipmb.Forwarding
