import Ipmb.NetworkRuns

namespace Ipmb.Network

open Labels Messages Time Bytes Buffers Encoding Faults Decoding Reception RoundTrip Relay Refusals Backend Run
  Controller Journal Ledger Destinations Accounting Conservation Registration Greeting Linux Hub HubSteps Bus
  Forwarding
open Handshake (requestSelector)
open Ipmb.Order (deliveredTo filterMap_deliveredTo delivers)

variable {W P : Type}

section Refusals

variable {host : Host W} {codec : Codec} {version : Version} {source : Source} {letter : Letter}

/-- Why the controller cannot read a letter: its version, its size, or its descriptors. -/
def Unreadable (codec : Codec) (version : Version) (letter : Letter) (e : Error RawFd) : Prop :=
  e = .versionMismatch letter.version none ∧ version.compatible letter.version = false ∨
    e = .disconnect ∧ (2 ^ 32 ≤ (letter.encoded codec).iovData.length ∨ 4 < letter.fds.length)

theorem Opened.unreadable (hk : host.kernel.Documented) (hkeeps : Keeps codec letter.msg.selector)
    {e : Error RawFd} (h : Opened host codec version source letter (.error e)) : Unreadable codec version letter e := by
  obtain ⟨-, herror⟩ | ⟨heap, hread⟩ := h
  · cases herror
  · have hread := outcome_error.mp hread
    rw [Letter.datagram] at hread
    by_cases hlarge : 2 ^ 32 ≤ (letter.encoded codec).iovData.length ∨ 4 < letter.fds.length
    · rw [fromLocal_refused (d := ⟨_, letter.fds⟩) hk codec version heap (Or.inr hlarge)] at hread
      cases hread
      exact Or.inr ⟨rfl, hlarge⟩
    · rw [not_or, not_le, not_lt] at hlarge
      have hpos : 0 < (letter.encoded codec).iovData.length := by
        rw [Letter.encoded, intoEncoded, length_encodeIov]
        omega
      rw [fromLocal_parse (d := ⟨_, letter.fds⟩) hk codec version heap hpos hlarge.1 hlarge.2, Letter.encoded,
        intoEncoded, receivedIov_encodeIov] at hread
      have hversion := encodeIov_version codec letter.version version letter.msg letter.heap
      cases hv : version.compatible letter.version with
      | false =>
        rw [hv, if_neg Bool.false_ne_true] at hversion
        rw [parseData, hversion] at hread
        cases hread
        exact Or.inl ⟨rfl, hv⟩
      | true =>
        rw [hv, if_pos rfl] at hversion
        have hreads := encodeIov_reads codec letter.version letter.msg letter.heap hkeeps hlarge.1
        rw [hreads.parseData hversion] at hread
        have hfails : Fails (fun _ => False) (.error (.error e) : Parse EncodedMessage) := by
          rw [← hread]
          exact (splitObjects_fails _ _ _).map _
        exact hfails.elim

end Refusals

section Definitions

variable (host : Host W) (codec : Codec) (control : Control) (version : Version) (label : Label) (token : String)
  (now : Instant) (w₀ : W)

/-- The messages that the controller keeps for later. -/
def World.buffer (w : World W P) : List (Instant × Tagged EncodedMessage) :=
  (journalRun (linux host codec control version) (start label token now w₀)
    (w.thread.received.map Prod.snd)).elim [] fun s => s.1.messageBuffer

/-- Where a letter can be: its source has sent it, and the controller has not read it yet, could
not read it, has answered it, or has routed it. -/
inductive Place where
  | unread
  | unreadable
  | request
  | routed (fate : Fate)

/-- Message number `n` of the controller is this letter, read with this result. -/
def World.Read (w : World W P) (o : Source × Nat) (n : Nat) (r : Except (Error RawFd) EncodedMessage) : Prop :=
  w.origin n = some o ∧ ∃ e, w.thread.received[n]? = some e ∧ e.2.received = r

def Place.Of (w : World W P) (o : Source × Nat) (letter : Letter) : Place → Prop
  | .unread => w.taken o.1 ≤ o.2
  | .unreadable => ∃ n e, w.Read o n (.error e) ∧ Unreadable codec version letter e
  | .request => letter.msg.selector.uuid = ConnectMessage.uuid ∧ ∃ n msg, w.Read o n (.ok msg)
  | .routed fate => letter.msg.selector.uuid ≠ ConnectMessage.uuid ∧ ∃ n msg, w.Read o n (.ok msg) ∧
    Fate.Of (Lost (linux host codec control version) (w.thread.received.map Prod.snd))
      (fun d => (w.mail host codec control version label token now w₀ d).filterMap Tagged.tag)
      (buffered (w.buffer host codec control version label token now w₀)) n fate

/-- What can become of a message in the socket of an endpoint. -/
inductive Reading where
  | unread
  | returned
  | passedOver

/-- A message that is not returned is none of the endpoint's, or the endpoint has lost the connection
when it read this message. -/
def Reading.Of (typeUuid : Uuid) (decode : List UInt8 → Option P) (w : World W P) (r : Reader P) (n : Nat) :
    Reading → Prop
  | .unread =>
    n ∈ ((w.mailbox host codec control version label token now w₀ r).drop r.taken).filterMap Tagged.tag
  | .returned => n ∈ r.numbers
  | .passedOver =>
    n ∈ ((w.mailbox host codec control version label token now w₀ r).take r.taken).filterMap Tagged.tag ∧
      n ∉ r.numbers ∧
      ((∃ letter, SentAs w n letter ∧ Foreign typeUuid decode letter) ∨
        ReadAs r (w.mailbox host codec control version label token now w₀ r) n .rejoin)

end Definitions

section Letters

variable {typeUuid : Uuid} {decode : List UInt8 → Option P} {host : Host W} {codec : Codec}
  {control : Control} {version : Version} {label : Label} {token : String} {now : Instant} {w₀ : W}
  {w : World W P} {o : Source × Nat} {letter : Letter}

/-- What is in the records was read. -/
theorem Sound.read (h : Sound typeUuid decode host codec control version label token now w₀ w) {n : Nat}
    (hn : w.origin n = some o) (hl : (w.sent o.1)[o.2]? = some letter) :
    ∃ r, w.Read o n r ∧ Opened host codec version o.1 letter r := by
  obtain ⟨hlt, ho⟩ := List.getElem?_eq_some_iff.mp (origin_eq.mp hn)
  have hlt' : n < w.thread.received.length := h.opened.length_eq.symm ▸ hlt
  have hrecorded := h.opened.get hlt' hlt
  simp only [List.get_eq_getElem, ho] at hrecorded
  obtain ⟨letter', hl', hopened⟩ := hrecorded
  obtain rfl := Option.some.inj (hl'.symm.trans hl)
  exact ⟨_, ⟨hn, _, List.getElem?_eq_getElem hlt', rfl⟩, hopened⟩

theorem Sound.read_unique (h : Sound typeUuid decode host codec control version label token now w₀ w)
    {n n' : Nat} {r r' : Except (Error RawFd) EncodedMessage} (hr : w.Read o n r) (hr' : w.Read o n' r') :
    n = n' ∧ r = r' := by
  obtain ⟨hn, e, he, rfl⟩ := hr
  obtain ⟨hn', e', he', rfl⟩ := hr'
  obtain rfl := h.origin_inj hn hn'
  exact ⟨rfl, by rw [Option.some.inj (he.symm.trans he')]⟩

/-- A message that was routed has one fate. -/
theorem Sound.fate (hk : host.kernel.Documented)
    (h : Sound typeUuid decode host codec control version label token now w₀ w) {n : Nat}
    {msg : EncodedMessage}
    (hr : w.Read o n (.ok msg)) (hl : (w.sent o.1)[o.2]? = some letter)
    (huuid : letter.msg.selector.uuid ≠ ConnectMessage.uuid) :
    ∃! fate, Fate.Of (Lost (linux host codec control version) (w.thread.received.map Prod.snd))
      (fun d => (w.mail host codec control version label token now w₀ d).filterMap Tagged.tag)
      (buffered (w.buffer host codec control version label token now w₀)) n fate := by
  obtain ⟨js, hjs, -⟩ := exists_journalRun h.traced.ran
  have hexact := (journalRun_between hjs).accounts.exact
  have hmail : (fun d => (w.mail host codec control version label token now w₀ d).filterMap Tagged.tag) =
      acceptedBy js := by
    funext d
    rw [mail_eq hjs, filterMap_deliveredTo]
  have hbuffer : w.buffer host codec control version label token now w₀ = js.1.messageBuffer := by
    rw [World.buffer, hjs]
    rfl
  rw [hmail, hbuffer]
  apply hexact.existsUnique_fate
  obtain ⟨r, hr', hopened⟩ := h.read hr.1 hl
  obtain ⟨-, rfl⟩ := h.read_unique hr hr'
  have hfaithful := hopened.faithful hk (h.keeps o.1 letter (List.mem_of_getElem? hl))
  obtain ⟨-, e, he, hmsg⟩ := hr
  refine ⟨e.2, msg, ⟨by rw [List.getElem?_map, he]; rfl, hmsg⟩, ?_, rfl⟩
  change msg.selector.uuid ≠ ConnectMessage.uuid
  rwa [hfaithful.selector]

/-- What the controller has received can be read by every endpoint of a compatible version. -/
theorem Sound.readable (hk : host.kernel.Documented)
    (h : Sound typeUuid decode host codec control version label token now w₀ w)
    (hown : ∀ letter ∈ w.sent .bus, letter.version = version) {n : Nat}
    {e : Source × Iteration EncodedMessage RawFd W} {msg : EncodedMessage}
    (he : w.thread.received[n]? = some e)
    (hmsg : e.2.received = .ok msg) : Forwarding.Sound codec version msg := by
  obtain ⟨letter, ⟨o, ho, hl⟩, -⟩ := h.carried hk he hmsg
  obtain ⟨r, hr, hopened⟩ := h.read (origin_eq.mpr ho) hl
  have hread : w.Read o n (.ok msg) := ⟨origin_eq.mpr ho, e, he, hmsg⟩
  obtain ⟨-, rfl⟩ := h.read_unique hread hr
  have hletter := List.mem_of_getElem? hl
  obtain ⟨hbus, hmsg'⟩ | ⟨heap, hparse⟩ := hopened
  · cases hmsg'
    rw [← hown letter (hbus ▸ hletter)]
    exact intoEncoded_sound letter.version (h.keeps o.1 letter hletter) letter.heap
  · exact Or.inl (fromLocal_parsed hk (outcome_ok.mp hparse))

/-- An honest client expects all that is put into its socket. -/
theorem Sound.expected (hk : host.kernel.Documented)
    (h : Sound typeUuid decode host codec control version label token now w₀ w)
    (hown : ∀ letter ∈ w.sent .bus, letter.version = version) {encodeConnect : ConnectMessage → List UInt8}
    (hcodec : Keeps codec requestSelector) {r : Reader P} (hkernel : r.kernel.Documented)
    (hclient : Client host codec control encodeConnect version (w.thread.received.map Prod.snd) r.registration
      r.version r.label) {msg : Tagged EncodedMessage}
    (hm : msg ∈ w.mailbox host codec control version label token now w₀ r) {d : Datagram}
    (hd : d.bytes = msg.val.iovData) : Expected r.kernel codec r.version r.label d := by
  obtain ⟨n, e, -, he, hmsg⟩ := mail_received h.traced hm
  obtain ⟨js, hjs, -⟩ := exists_journalRun h.traced.ran
  rw [World.mailbox, mail_eq hjs] at hm
  obtain ⟨a, ha, rfl⟩ := List.mem_map.mp hm
  obtain ⟨ha, hdelivers⟩ := List.mem_filter.mp ha
  simp only [delivers, Bool.and_eq_true, beq_iff_eq, Option.isSome_iff_ne_none] at hdelivers
  obtain ⟨⟨-, hremote⟩, htag⟩ := hdelivers
  have hmeant := (journalRun_greetings hjs).meant a ha htag
  obtain ⟨hcompatible, hlabel⟩ := meant_client hk hcodec hclient hmeant hremote
  obtain ⟨bytes, fds⟩ := d
  obtain rfl : bytes = _ := hd
  exact (h.readable hk hown he hmsg).expected hkernel hcompatible hlabel fds

theorem rejoin_of_broken {a : Arm P} (h : broken a = true) (hexpected : a ≠ .unexpected)
    (hreachable : a ≠ .unreachable) : a = .rejoin := by
  cases a with
  | rejoin => rfl
  | unexpected => exact absurd rfl hexpected
  | unreachable => exact absurd rfl hreachable
  | done | otherType | decode | timeout => cases h

/-- No message is put into a socket twice, so none is read that is still to be read. -/
theorem Sound.taken_disjoint (h : Sound typeUuid decode host codec control version label token now w₀ w)
    (r : Reader P) {n : Nat}
    (hn : n ∈ ((w.mailbox host codec control version label token now w₀ r).take r.taken).filterMap Tagged.tag) :
    n ∉ ((w.mailbox host codec control version label token now w₀ r).drop r.taken).filterMap Tagged.tag := by
  intro hdrop
  have hsorted := h.accepted_sorted (.endpoint r.registration)
  rw [← List.take_append_drop r.taken (w.mail host codec control version label token now w₀
    (.endpoint r.registration)), List.filterMap_append, List.pairwise_append] at hsorted
  obtain ⟨-, -, hlt⟩ := hsorted
  exact Nat.lt_irrefl n (hlt n hn n hdrop)

/-- Nothing is lost in the socket of an honest client either: each message has been returned, or will be
read, or there is a reason why it has not been returned. -/
theorem mail_accounted {actions : List (Action W)} {listener waker : RawFd} (hk : host.kernel.Documented)
    (hactions : ∀ a ∈ actions, a.Documented codec)
    (h : run (World.step typeUuid decode host codec control version label token now w₀)
      (World.boot label token now w₀ listener waker) actions = some w)
    (hown : ∀ letter ∈ w.sent .bus, letter.version = version) {encodeConnect : ConnectMessage → List UInt8}
    (hcodec : Keeps codec requestSelector) {r : Reader P} (hr : r ∈ w.readers)
    (hclient : Client host codec control encodeConnect version (w.thread.received.map Prod.snd) r.registration
      r.version r.label) {n : Nat}
    (hn : n ∈ (w.mailbox host codec control version label token now w₀ r).filterMap Tagged.tag) :
    ∃! reading, Reading.Of host codec control version label token now w₀ typeUuid decode w r n reading := by
  have hsound := run_sound hk hactions h
  have hreader := hsound.readers r hr
  obtain ⟨fd, waker, calls, hrun, hbytes⟩ := hreader.ran
  have hkernel : ({ host with kernel := r.kernel } : Host W).kernel.Documented := hreader.kernel
  have hundisturbed := receiver_run hkernel
    (fun call hcall heap d hd => by
      obtain ⟨msg, hmsg, hbytes⟩ := hbytes call hcall heap d hd
      exact hsound.expected hk hown hcodec hreader.kernel hclient hmsg hbytes) hrun
  rw [← List.take_append_drop r.taken (w.mailbox host codec control version label token now w₀ r),
    List.filterMap_append] at hn
  obtain htake | hdrop := List.mem_append.mp hn
  · by_cases hreturned : n ∈ r.numbers
    · refine ⟨.returned, hreturned, fun reading hreading => ?_⟩
      cases reading with
      | unread => exact absurd hreading (hsound.taken_disjoint r htake)
      | returned => rfl
      | passedOver => exact absurd hreturned hreading.2.1
    · have hreason : (∃ letter, SentAs w n letter ∧ Foreign typeUuid decode letter) ∨
          ReadAs r (w.mailbox host codec control version label token now w₀ r) n .rejoin := by
        refine ((hreader.passedOver n htake).resolve_left hreturned).imp_right ?_
        rintro ⟨a, hread, hbroken⟩
        obtain ⟨hexpected, hreachable⟩ := hundisturbed.arms a (hreader.arms.subset hread.mem)
        exact rejoin_of_broken hbroken hexpected hreachable ▸ hread
      refine ⟨.passedOver, ⟨htake, hreturned, hreason⟩, fun reading hreading => ?_⟩
      cases reading with
      | unread => exact absurd hreading (hsound.taken_disjoint r htake)
      | returned => exact absurd hreading hreturned
      | passedOver => rfl
  · refine ⟨.unread, hdrop, fun reading hreading => ?_⟩
    cases reading with
    | unread => rfl
    | returned => exact absurd hdrop (hsound.taken_disjoint r (hreader.numbers.subset hreading))
    | passedOver => exact absurd hdrop (hsound.taken_disjoint r hreading.1)

open Reference PlainHost Authentication in
theorem mail_accounted_oneMessage :
    ∃ w r, run plainStep (World.boot ⟨["c"]⟩ "token" (.ofNanos 0) [] 3 4) oneMessage = some w ∧
      r ∈ w.readers ∧
      ∃! reading, Reading.Of plainHost requestCodec plainControl ⟨0, 8, 5⟩ ⟨["c"]⟩ "token" (.ofNanos 0) []
        (withObjects [8]).selector.uuid (fun _ => some ()) w r 1 reading := by
  obtain ⟨msg, msg', hgot, hrun⟩ : ∃ msg msg', fromLocal plainHost.kernel requestCodec ⟨0, 8, 5⟩ zeroHeap
      (some ⟨(intoEncoded requestCodec ⟨0, 8, 5⟩ ⟨requestSelector, [], [7], []⟩ zeroHeap).iovData, [7]⟩) =
        .ok msg ∧
      (run plainStep (World.boot ⟨["c"]⟩ "token" (.ofNanos 0) [] 3 4) oneMessage).map (fun w =>
        (w.thread.received.map fun e => e.2.received, w.sent .bus,
          w.readers.map fun r => (r.registration, r.version, r.label,
            (w.mailbox plainHost requestCodec plainControl
            ⟨0, 8, 5⟩ ⟨["c"]⟩ "token" (.ofNanos 0) [] r).filterMap Tagged.tag))) =
        some ([.ok msg, .ok msg'], [], [(0, ⟨0, 8, 5⟩, ⟨["a"]⟩, [1])]) := ⟨_, _, rfl, rfl⟩
  obtain ⟨w, hw, hobs⟩ := Option.map_eq_some_iff.mp hrun
  simp only [Prod.mk.injEq] at hobs
  obtain ⟨hreceived, hbus, hreaders⟩ := hobs
  obtain ⟨r, hr, hreader⟩ := List.map_eq_singleton_iff.mp hreaders
  simp only [Prod.mk.injEq] at hreader
  obtain ⟨hregistration, hversion, hlabel, hmail⟩ := hreader
  have hmem : r ∈ w.readers := hr ▸ List.mem_cons_self
  have hfirst : (w.thread.received.map fun e => e.2.received)[0]? = some (.ok msg) := by rw [hreceived]; rfl
  rw [List.getElem?_map] at hfirst
  obtain ⟨e, he, hmsg⟩ := Option.map_eq_some_iff.mp hfirst
  have hclient : Client plainHost requestCodec plainControl (fun _ => []) ⟨0, 8, 5⟩
      (w.thread.received.map Prod.snd) r.registration r.version r.label := by
    rw [hregistration, hversion, hlabel]
    exact ⟨e.2, msg, "token", 7, zeroHeap, zeroHeap, [7], ⟨by rw [List.getElem?_map, he]; rfl, hmsg⟩,
      rfl, hgot⟩
  exact ⟨w, r, hw, hmem, mail_accounted (reference_documented _) oneMessage_documented hw
    (by simp [hbus]) rfl hmem hclient (hmail ▸ List.mem_singleton_self 1)⟩

end Letters

end Ipmb.Network
