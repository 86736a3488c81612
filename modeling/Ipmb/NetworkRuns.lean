import Mathlib.Data.List.Infix
import Ipmb.Network

namespace Ipmb.Network

open Labels Messages Time Bytes Buffers Encoding Faults Decoding Reception RoundTrip Relay Refusals Backend Run
  Controller Journal Ledger Destinations Accounting Conservation History Linux Hub HubSteps Bus Forwarding
open Ipmb.Order (deliveredTo deliveredTo_known filterMap_deliveredTo journalRun_order)
open Function (update update_self update_of_ne)

variable {W P : Type}

section Contents

variable {codec : Codec} {letter : Letter} {msg : EncodedMessage}

/-- The message is the one that was sent. -/
structure Faithful (codec : Codec) (letter : Letter) (msg : EncodedMessage) : Prop where
  selector : msg.selector = letter.msg.selector
  payload : msg.payload = letter.msg.payload
  iovData : msg.iovData = (letter.encoded codec).iovData

theorem encodeIov_payload (codec : Codec) (version : Version) (msg : Message) (heap : Nat → UInt8) :
    readAt (encodeIov codec version msg heap).2 (encodeIov codec version msg heap).1.start
      (encodeIov codec version msg heap).1.len = some msg.payload := by
  obtain ⟨pad, pad', hpad, -, heq⟩ := encodeIov_layout codec version msg heap
  have hle := le_align4 (codec.encode msg.selector).length
  rw [heq, layout]
  refine readAt_append _ _ _ _ _ ?_ rfl
  simp only [encodeIov, versionBytes, List.length_append, length_leBytes, List.length_cons, List.length_nil]
  omega

/-- What is read of the bytes of a letter is what they were made of. -/
theorem faithful_of_fromLocal {k : Kernel} (hk : k.Documented) {version : Version} {heap : Heap}
    {d : Datagram}
    (hkeeps : Keeps codec letter.msg.selector) (hbytes : d.bytes = (letter.encoded codec).iovData)
    (h : fromLocal k codec version heap (some d) = .ok msg) : Faithful codec letter msg := by
  obtain ⟨bytes, fds⟩ := d
  obtain rfl : bytes = (encodeIov codec letter.version letter.msg letter.heap.iov).2 := hbytes
  obtain ⟨-, attached, -, rfl⟩ := accepted_parts hk hkeeps h
  refine ⟨rfl, ?_, rfl⟩
  rw [EncodedMessage.payload, encodeIov_payload]
  rfl

theorem Opened.faithful {host : Host W} (hk : host.kernel.Documented) {version : Version} {source : Source}
    (hkeeps : Keeps codec letter.msg.selector) (h : Opened host codec version source letter (.ok msg)) :
    Faithful codec letter msg := by
  obtain ⟨-, hmsg⟩ | ⟨heap, hread⟩ := h
  · cases hmsg
    refine ⟨rfl, ?_, rfl⟩
    rw [Letter.encoded, EncodedMessage.payload, intoEncoded, encodeIov_payload]
    rfl
  · exact faithful_of_fromLocal hk hkeeps rfl (outcome_ok.mp hread)

end Contents

/-- Message number `n` of the controller was sent as this letter. -/
def SentAs (w : World W P) (n : Nat) (letter : Letter) : Prop :=
  ∃ o, w.origins[n]? = some (some o) ∧ (w.sent o.1)[o.2]? = some letter

/-- The messages of one source, by their numbers there. -/
def indices (source : Source) (os : List (Source × Nat)) : List Nat := (os.filter (·.1 == source)).map Prod.snd

/-- The returned message is the one that was sent, and it was meant for the label. -/
structure DeliveredAs (typeUuid : Uuid) (decode : List UInt8 → Option P) (label : Label) (letter : Letter)
    (msg : Delivery P) : Prop where
  uuid : letter.msg.selector.uuid = typeUuid
  selector : msg.selector = letter.msg.selector
  payload : decode letter.msg.payload = some msg.payload
  label : letter.msg.selector.labelOp.validate label = true

/-- An entry of what the controller has received is a message that was sent, or no message. -/
def Recorded (host : Host W) (codec : Codec) (version : Version) (w : World W P)
    (e : Source × Iteration EncodedMessage RawFd W) : Option (Source × Nat) → Prop
  | none => ∀ msg, e.2.received ≠ .ok msg
  | some o => ∃ letter, (w.sent o.1)[o.2]? = some letter ∧ Opened host codec version o.1 letter e.2.received

/-- The endpoint gives the connection up, or did not expect the message. -/
def broken : Arm P → Bool
  | .rejoin | .unexpected | .unreachable => true
  | _ => false

/-- The payload is not one of the endpoint. -/
def Foreign (typeUuid : Uuid) (decode : List UInt8 → Option P) (letter : Letter) : Prop :=
  letter.msg.selector.uuid ≠ typeUuid ∨ decode letter.msg.payload = none

/-- Message number `n` is in the mailbox of the endpoint, which has read it in this arm. -/
def ReadAs (r : Reader P) (mailbox : List (Tagged EncodedMessage)) (n : Nat) (a : Arm P) : Prop :=
  ∃ (i : Nat) (msg : Tagged EncodedMessage), mailbox[i]? = some msg ∧ msg.tag = some n ∧ r.reads[i]? = some a

/-- Why a message that was read is not returned. -/
def PassedOver (typeUuid : Uuid) (decode : List UInt8 → Option P) (w : World W P) (r : Reader P)
    (mailbox : List (Tagged EncodedMessage)) (n : Nat) : Prop :=
  (∃ letter, SentAs w n letter ∧ Foreign typeUuid decode letter) ∨
    ∃ a, ReadAs r mailbox n a ∧ broken a = true

section Sound

variable (typeUuid : Uuid) (decode : List UInt8 → Option P) (host : Host W) (codec : Codec)
  (control : Control) (version : Version) (label : Label) (token : String) (now : Instant) (w₀ : W)

/-- What has been put into the socket of an endpoint. -/
def World.mailbox (w : World W P) (r : Reader P) : List (Tagged EncodedMessage) :=
  w.mail host codec control version label token now w₀ (.endpoint r.registration)

/-- The endpoint has run, on datagrams with the bytes of these messages. -/
def Reader.Ran (r : Reader P) (mailbox : List (Tagged EncodedMessage)) : Prop :=
  ∃ fd waker calls, run (Receiver.step typeUuid decode { host with kernel := r.kernel } codec r.version r.label)
      (connected P fd waker) calls = some r.receiver ∧
    ∀ call ∈ calls, ∀ heap d, call = .fromLocal heap (some d) → ∃ msg ∈ mailbox, d.bytes = msg.val.iovData

/-- What an endpoint has returned was sent, and is in the order of its socket. -/
structure ReaderSound (w : World W P) (r : Reader P) : Prop where
  kernel : r.kernel.Documented
  ran : r.Ran typeUuid decode host codec (w.mailbox host codec control version label token now w₀ r)
  taken : r.taken ≤ (w.mailbox host codec control version label token now w₀ r).length
  length : r.reads.length = r.taken
  arms : r.reads.Sublist r.receiver.arms
  numbers : r.numbers.Sublist
    (((w.mailbox host codec control version label token now w₀ r).take r.taken).filterMap Tagged.tag)
  returned : List.Forall₂ (fun n msg => ∃ letter, SentAs w n letter ∧
    DeliveredAs typeUuid decode r.label letter msg)
    r.numbers (deliveries r.receiver.arms)
  passedOver : ∀ n ∈ ((w.mailbox host codec control version label token now w₀ r).take r.taken).filterMap Tagged.tag,
    n ∈ r.numbers ∨
      PassedOver typeUuid decode w r (w.mailbox host codec control version label token now w₀ r) n

/-- What the controller's own endpoint has returned was sent, and is in the order of its channel. -/
structure OwnSound (w : World W P) (own : OwnReader P) : Prop where
  taken : own.taken ≤ (w.mail host codec control version label token now w₀ .own).length
  numbers : own.numbers.Sublist
    (((w.mail host codec control version label token now w₀ .own).take own.taken).filterMap Tagged.tag)
  returned : List.Forall₂ (fun n msg => ∃ letter, SentAs w n letter ∧
    DeliveredAs typeUuid decode label letter msg)
    own.numbers (deliveries own.arms)

structure Sound (w : World W P) : Prop where
  traced : Traced host codec control version label token now w₀ w.thread
  opened : List.Forall₂ (Recorded host codec version w) w.thread.received w.origins
  inTurn : ∀ source, indices source (w.origins.filterMap id) = List.range (w.taken source)
  keeps : ∀ source, ∀ letter ∈ w.sent source, Keeps codec letter.msg.selector
  readers : ∀ r ∈ w.readers, ReaderSound typeUuid decode host codec control version label token now w₀ w r
  own : OwnSound typeUuid decode host codec control version label token now w₀ w w.own

end Sound

variable {typeUuid : Uuid} {decode : List UInt8 → Option P} {host : Host W} {codec : Codec}
  {control : Control} {version : Version} {label : Label} {token : String} {now : Instant} {w₀ : W}
  {w w' : World W P}

/-- What has happened stays as it is. -/
structure Grows (host : Host W) (codec : Codec) (control : Control) (version : Version) (label : Label)
    (token : String) (now : Instant) (w₀ : W) (w w' : World W P) : Prop where
  origins : w.origins <+: w'.origins
  sent : ∀ source, w.sent source <+: w'.sent source
  mail : ∀ d, w.mail host codec control version label token now w₀ d <+:
    w'.mail host codec control version label token now w₀ d

theorem getElem?_of_prefix {α : Type} {l l' : List α} (h : l <+: l') {i : Nat} {a : α} (ha : l[i]? = some a) :
    l'[i]? = some a := by
  obtain ⟨t, rfl⟩ := h
  obtain ⟨hi, -⟩ := List.getElem?_eq_some_iff.mp ha
  rw [List.getElem?_append_left hi, ha]

theorem SentAs.mono {n : Nat} {letter : Letter} (h : SentAs w n letter) (horigins : w.origins <+: w'.origins)
    (hsent : ∀ source, w.sent source <+: w'.sent source) : SentAs w' n letter := by
  obtain ⟨o, ho, hl⟩ := h
  exact ⟨o, getElem?_of_prefix horigins ho, getElem?_of_prefix (hsent o.1) hl⟩

theorem Recorded.mono {e : Source × Iteration EncodedMessage RawFd W} {o : Option (Source × Nat)}
    (h : Recorded host codec version w e o) (hsent : ∀ source, w.sent source <+: w'.sent source) :
    Recorded host codec version w' e o := by
  cases o with
  | none => exact h
  | some o =>
    obtain ⟨letter, hl, hopened⟩ := h
    exact ⟨letter, getElem?_of_prefix (hsent o.1) hl, hopened⟩

/-- What the controller has received of a message is what was sent. -/
theorem Sound.carried (hk : host.kernel.Documented)
    (h : Sound typeUuid decode host codec control version label token now w₀ w) {n : Nat}
    {e : Source × Iteration EncodedMessage RawFd W} {msg : EncodedMessage}
    (he : w.thread.received[n]? = some e) (hmsg : e.2.received = .ok msg) :
    ∃ letter, SentAs w n letter ∧ Faithful codec letter msg := by
  obtain ⟨hn, rfl⟩ := List.getElem?_eq_some_iff.mp he
  have hn' : n < w.origins.length := h.opened.length_eq ▸ hn
  have hrecorded := h.opened.get hn hn'
  simp only [List.get_eq_getElem] at hrecorded
  cases ho : w.origins[n] with
  | none =>
    rw [ho] at hrecorded
    exact absurd hmsg (hrecorded msg)
  | some o =>
    rw [ho] at hrecorded
    obtain ⟨letter, hl, hopened⟩ := hrecorded
    have hkeeps := h.keeps o.1 letter (List.mem_of_getElem? hl)
    exact ⟨letter, ⟨o, by rw [List.getElem?_eq_getElem hn', ho], hl⟩, (hmsg ▸ hopened).faithful hk hkeeps⟩

theorem ReadAs.mono {r : Reader P} {mailbox mailbox' : List (Tagged EncodedMessage)} {n : Nat} {a : Arm P}
    (h : ReadAs r mailbox n a) (hmailbox : mailbox <+: mailbox') : ReadAs r mailbox' n a := by
  obtain ⟨i, msg, hmsg, hrest⟩ := h
  exact ⟨i, msg, getElem?_of_prefix hmailbox hmsg, hrest⟩

theorem ReadAs.mem {r : Reader P} {mailbox : List (Tagged EncodedMessage)} {n : Nat} {a : Arm P}
    (h : ReadAs r mailbox n a) : a ∈ r.reads := by
  obtain ⟨i, msg, -, -, ha⟩ := h
  exact List.mem_of_getElem? ha

theorem ReaderSound.mono {r : Reader P}
    (h : ReaderSound typeUuid decode host codec control version label token now w₀ w r)
    (hg : Grows host codec control version label token now w₀ w w') :
    ReaderSound typeUuid decode host codec control version label token now w₀ w' r := by
  obtain ⟨rest, hmail⟩ := hg.mail (.endpoint r.registration)
  have htaken := h.taken
  have htake : (w'.mailbox host codec control version label token now w₀ r).take r.taken =
      (w.mailbox host codec control version label token now w₀ r).take r.taken := by
    rw [World.mailbox, ← hmail]
    exact List.take_append_of_le_length htaken
  have hsent : ∀ {n : Nat} {letter : Letter}, SentAs w n letter → SentAs w' n letter :=
    fun hl => hl.mono hg.origins hg.sent
  refine ⟨h.kernel, ?_, ?_, h.length, h.arms, htake ▸ h.numbers,
    h.returned.imp fun n msg ⟨letter, hl, hd⟩ => ⟨letter, hsent hl, hd⟩, fun n hn => ?_⟩
  · obtain ⟨fd, waker, calls, hrun, hbytes⟩ := h.ran
    refine ⟨fd, waker, calls, hrun, fun call hcall heap d heq => ?_⟩
    obtain ⟨msg, hmsg, hd⟩ := hbytes call hcall heap d heq
    exact ⟨msg, by rw [World.mailbox, ← hmail]; exact List.mem_append_left _ hmsg, hd⟩
  · rw [World.mailbox, ← hmail, List.length_append]
    exact Nat.le_add_right_of_le htaken
  · rw [htake] at hn
    refine (h.passedOver n hn).imp_right fun hp => hp.imp ?_ ?_
    · rintro ⟨letter, hl, hf⟩
      exact ⟨letter, hsent hl, hf⟩
    · rintro ⟨a, ha, hb⟩
      exact ⟨a, ha.mono (hg.mail (.endpoint r.registration)), hb⟩

theorem OwnSound.mono {own : OwnReader P}
    (h : OwnSound typeUuid decode host codec control version label token now w₀ w own)
    (hg : Grows host codec control version label token now w₀ w w') :
    OwnSound typeUuid decode host codec control version label token now w₀ w' own := by
  obtain ⟨rest, hmail⟩ := hg.mail .own
  refine ⟨h.taken.trans (hg.mail .own).length_le, ?_, h.returned.imp ?_⟩
  · rw [← hmail, List.take_append_of_le_length h.taken]
    exact h.numbers
  · rintro n msg ⟨letter, hl, hd⟩
    exact ⟨letter, hl.mono hg.origins hg.sent, hd⟩

/-- It does not matter who else reads. -/
theorem ReaderSound.readers {r : Reader P}
    (h : ReaderSound typeUuid decode host codec control version label token now w₀ w r)
    (readers : List (Reader P)) :
    ReaderSound typeUuid decode host codec control version label token now w₀ { w with readers := readers } r :=
  ⟨h.kernel, h.ran, h.taken, h.length, h.arms, h.numbers, h.returned, h.passedOver⟩

theorem ReaderSound.own {r : Reader P}
    (h : ReaderSound typeUuid decode host codec control version label token now w₀ w r) (own : OwnReader P) :
    ReaderSound typeUuid decode host codec control version label token now w₀ { w with own := own } r :=
  ⟨h.kernel, h.ran, h.taken, h.length, h.arms, h.numbers, h.returned, h.passedOver⟩

theorem Sends.deliveredTo {P' : Tagged EncodedMessage → Prop} {s s' : State EncodedMessage RawFd W}
    (h : Sends P' s s') (d : Destination) : deliveredTo s d <+: deliveredTo s' d := by
  obtain ⟨⟨log, hlog, -⟩, ⟨queue, hqueue, -⟩⟩ := h
  cases d with
  | endpoint k =>
    refine ⟨(log.filter (Ipmb.Order.delivers k)).map Attempt.message, ?_⟩
    simp only [Ipmb.Order.deliveredTo, hlog, List.filter_append, List.map_append]
  | own => exact ⟨queue, hqueue.symm⟩

theorem mail_eq {js : State EncodedMessage RawFd W}
    (hjs : journalRun (linux host codec control version) (start label token now w₀)
      (w.thread.received.map Prod.snd) = some js) (d : Destination) :
    w.mail host codec control version label token now w₀ d = deliveredTo js d := by
  rw [World.mail, hjs]
  rfl

/-- What has been put into a socket stays there. -/
theorem mail_grows (ht : Traced host codec control version label token now w₀ w.thread)
    (ht' : Traced host codec control version label token now w₀ w'.thread)
    (hreceived : w'.thread.received = w.thread.received ∨
      ∃ e, w'.thread.received = w.thread.received ++ [e]) (d : Destination) :
    w.mail host codec control version label token now w₀ d <+:
      w'.mail host codec control version label token now w₀ d := by
  obtain hsame | ⟨e, hgrown⟩ := hreceived
  · rw [World.mail, World.mail, hsame]
  · obtain ⟨js, hjs, -⟩ := exists_journalRun ht.ran
    obtain ⟨js', hjs', -⟩ := exists_journalRun ht'.ran
    rw [mail_eq hjs, mail_eq hjs']
    rw [hgrown, List.map_append, List.map_singleton] at hjs'
    obtain ⟨u, hu, hstep⟩ := journalRun_concat hjs'
    obtain rfl : u = js := Option.some.inj (hu.symm.trans hjs)
    have hsends : Sends (fun _ => True) u js' := iterate_sends (journalRun_between hu)
      (fun _ _ => trivial) (fun _ _ => trivial) (fun _ _ _ _ _ _ => Or.inl trivial) hstep
    exact Sends.deliveredTo hsends d

/-- A message in a socket is one that the controller has received. -/
theorem mail_received (ht : Traced host codec control version label token now w₀ w.thread) {d : Destination}
    {msg : Tagged EncodedMessage} (hm : msg ∈ w.mail host codec control version label token now w₀ d) :
    ∃ n e, msg.tag = some n ∧ w.thread.received[n]? = some e ∧ e.2.received = .ok msg.val := by
  obtain ⟨js, hjs, -⟩ := exists_journalRun ht.ran
  rw [mail_eq hjs] at hm
  obtain ⟨hne, hgenuine⟩ := deliveredTo_known (journalRun_between hjs) d msg hm
  obtain ⟨n, hn⟩ := Option.ne_none_iff_exists'.mp hne
  obtain ⟨it, ⟨hit, hmsg⟩, -⟩ := hgenuine n hn
  rw [List.getElem?_map] at hit
  obtain ⟨e, he, rfl⟩ := Option.map_eq_some_iff.mp hit
  exact ⟨n, e, hn, he, hmsg⟩

section Call

variable {input : Input W}

theorem indices_concat (source : Source) (os : List (Option (Source × Nat))) (o : Option (Source × Nat)) :
    indices source ((os ++ [o]).filterMap id) =
      indices source (os.filterMap id) ++ indices source o.toList := by
  rw [indices, indices, indices, List.filterMap_append, List.filter_append, List.map_append]
  cases o <;> rfl

theorem Sound.controlStep (hk : host.kernel.Documented)
    (h : Sound typeUuid decode host codec control version label token now w₀ w)
    (hs : w.controlStep host codec control version input = some w') :
    Sound typeUuid decode host codec control version label token now w₀ w' := by
  obtain ⟨hsent, hreaders, hown, hthread, hm⟩ := control_moved hk hs
  have htraced := step_traced h.traced hthread
  have hkeeps : ∀ source, ∀ letter ∈ w'.sent source, Keeps codec letter.msg.selector := hsent ▸ h.keeps
  have hopened : List.Forall₂ (Recorded host codec version w') w.thread.received w.origins :=
    h.opened.imp fun _ _ hr => hr.mono fun source => hsent ▸ List.prefix_refl _
  have hgrows : w.origins <+: w'.origins → (w'.thread.received = w.thread.received ∨
      ∃ e, w'.thread.received = w.thread.received ++ [e]) →
      Grows host codec control version label token now w₀ w w' := fun horigins hreceived =>
    ⟨horigins, fun source => hsent ▸ List.prefix_refl _, mail_grows h.traced htraced hreceived⟩
  have hreadersSound (hg : Grows host codec control version label token now w₀ w w') : ∀ r ∈ w'.readers,
      ReaderSound typeUuid decode host codec control version label token now w₀ w' r :=
    fun r hr => (h.readers r (hreaders ▸ hr)).mono hg
  have hownSound (hg : Grows host codec control version label token now w₀ w w') :
      OwnSound typeUuid decode host codec control version label token now w₀ w' w'.own := hown ▸ h.own.mono hg
  cases hm with
  | pending hr htaken horigins =>
    have hg := hgrows (horigins ▸ List.prefix_refl _) (Or.inl hr)
    exact ⟨htraced, by rw [hr, horigins]; exact hopened, fun source => by rw [horigins, htaken, h.inTurn],
      hkeeps,
      hreadersSound hg, hownSound hg⟩
  | failed hr htaken horigins herror =>
    have hg := hgrows (horigins ▸ List.prefix_append _ _) (Or.inr ⟨_, hr⟩)
    refine ⟨htraced, ?_, fun source => ?_, hkeeps, hreadersSound hg, hownSound hg⟩
    · rw [hr, horigins]
      exact List.rel_append hopened (.cons herror .nil)
    · rw [horigins, htaken, indices_concat, h.inTurn]
      exact List.append_nil _
  | @took e source letter hr htaken horigins hnext hread =>
    have hg := hgrows (horigins ▸ List.prefix_append _ _) (Or.inr ⟨_, hr⟩)
    refine ⟨htraced, ?_, fun source' => ?_, hkeeps, hreadersSound hg, hownSound hg⟩
    · rw [hr, horigins]
      exact List.rel_append hopened (.cons ⟨letter, by rw [hsent]; exact hnext, hread⟩ .nil)
    · rw [horigins, htaken, indices_concat, h.inTurn]
      by_cases hsource : source' = source
      · subst hsource
        simp [indices, List.range_succ]
      · have hne : (source == source') = false := by simpa using Ne.symm hsource
        simp [indices, update_of_ne hsource, hne]

end Call

section Read

variable {call : Call}

theorem deliveries_append (arms arms' : List (Arm P)) :
    deliveries (arms ++ arms') = deliveries arms ++ deliveries arms' := List.filterMap_append

/-- The call reads a datagram. -/
theorem receiver_read {s s' : Receiver P} {heap : Heap} {socket : Option Datagram}
    (hs : s.step typeUuid decode host codec version label (.fromLocal heap socket) = some s') :
    ∃ r, outcome (fromLocal host.kernel codec version heap socket) = some r ∧
      s'.arms = s.arms ++ [arm typeUuid decode label r] := by
  obtain ⟨answer, ha, hs⟩ := Option.bind_eq_some_iff.mp hs
  obtain ⟨⟨hub, progress⟩, hstep, rfl⟩ := Option.map_eq_some_iff.mp hs
  have hm := step_moved hstep
  have hanswer : ∃ r, answer = .fromLocal r := by
    simp only [Call.answer] at ha
    split at ha <;> cases ha <;> exact ⟨_, rfl⟩
  obtain ⟨r, rfl⟩ := hanswer
  obtain ⟨_, _, hcall, hread⟩ := answer_fromLocal ha
  cases hcall
  generalize s.pc = pc at hm
  cases hm with
  | received | lost => exact ⟨_, hread, rfl⟩

/-- Other calls return nothing but timeouts. -/
theorem receiver_waits {s s' : Receiver P}
    (hs : s.step typeUuid decode host codec version label call = some s')
    (hchannel : ∀ m, call ≠ .tryRecv m) (hread : ∀ heap socket, call ≠ .fromLocal heap socket) :
    s'.arms = s.arms ∨ s'.arms = s.arms ++ [.timeout] := by
  obtain ⟨answer, ha, hs⟩ := Option.bind_eq_some_iff.mp hs
  obtain ⟨⟨hub, progress⟩, hstep, rfl⟩ := Option.map_eq_some_iff.mp hs
  have hm := step_moved hstep
  generalize s.pc = pc at hm
  cases hm with
  | empty | disconnected | events | woken | refused | accepted | ignored => exact Or.inl rfl
  | timeout => exact Or.inr rfl
  | message msg =>
    cases call with
    | tryRecv m => exact absurd rfl (hchannel m)
    | fromLocal heap socket => exact absurd rfl (hread heap socket)
    | wait | clearWaker | accept | ignored => cases ha
  | received | lost =>
    obtain ⟨heap, socket, hcall, -⟩ := answer_fromLocal ha
    exact absurd hcall (hread heap socket)

/-- A message is returned when it is of the right type and has the right label. -/
theorem arm_done {msg : EncodedMessage} {delivery : Delivery P}
    (h : arm typeUuid decode label (.ok msg) = .done delivery) :
    msg.selector.labelOp.validate label = true ∧ msg.selector.uuid = typeUuid ∧
      decode msg.payload = some delivery.payload ∧ delivery.selector = msg.selector := by
  simp only [arm] at h
  split at h
  · rename_i hlabel
    refine ⟨hlabel, ?_⟩
    rw [decodeBox] at h
    split at h
    · rename_i payload hbox
      split at hbox
      · rename_i huuid
        cases hp : decode msg.payload with
        | none =>
          rw [hp] at hbox
          cases hbox
        | some payload' =>
          rw [hp] at hbox
          cases hbox
          cases h
          refine ⟨huuid, rfl, ?_⟩
          rw [← huuid]
      · cases hbox
    all_goals cases h
  · cases h

/-- What becomes of a message that was read. -/
theorem arm_cases (msg : EncodedMessage) :
    (∃ delivery, arm typeUuid decode label (.ok msg) = .done delivery) ∨
      deliveries [arm typeUuid decode label (.ok msg)] = [] ∧
        (msg.selector.uuid ≠ typeUuid ∨ decode msg.payload = none ∨
          broken (arm typeUuid decode label (.ok msg)) = true) := by
  simp only [arm]
  split
  · rw [decodeBox]
    by_cases huuid : msg.selector.uuid = typeUuid
    · rw [if_pos huuid]
      cases decode msg.payload with
      | some payload => exact Or.inl ⟨_, rfl⟩
      | none => exact Or.inr ⟨rfl, Or.inr (Or.inl rfl)⟩
    · rw [if_neg huuid]
      exact Or.inr ⟨rfl, Or.inl huuid⟩
  · exact Or.inr ⟨rfl, Or.inr (Or.inr rfl)⟩

/-- When nothing is read, the connection is at its end. -/
theorem arm_refusal {e : Error RawFd} (h : Refusal e) :
    deliveries [arm typeUuid decode label (.error e)] = [] ∧
      broken (arm typeUuid decode label (.error e)) = true := by
  cases h <;> exact ⟨rfl, rfl⟩

theorem Reader.Ran.step {r : Reader P} {receiver : Receiver P} {mailbox : List (Tagged EncodedMessage)}
    (h : r.Ran typeUuid decode host codec mailbox)
    (hs : r.receiver.step typeUuid decode { host with kernel := r.kernel } codec r.version r.label call =
      some receiver)
    (hcall : ∀ heap d, call = .fromLocal heap (some d) → ∃ msg ∈ mailbox, d.bytes = msg.val.iovData)
    (taken : Nat)
    (reads : List (Arm P)) (numbers : List Nat) :
    Reader.Ran typeUuid decode host codec
      { r with receiver := receiver, taken := taken, reads := reads, numbers := numbers } mailbox := by
  obtain ⟨fd, waker, calls, hrun, hbytes⟩ := h
  refine ⟨fd, waker, calls ++ [call], ?_, ?_⟩
  · rw [run_concat, hrun]
    exact hs
  · rw [List.forall_mem_append, List.forall_mem_singleton]
    exact ⟨hbytes, hcall⟩

/-- A call that reads nothing changes nothing. -/
theorem ReaderSound.idle {r : Reader P} {receiver : Receiver P}
    (h : ReaderSound typeUuid decode host codec control version label token now w₀ w r)
    (hs : r.receiver.step typeUuid decode { host with kernel := r.kernel } codec r.version r.label call =
      some receiver)
    (hread : ∀ heap d, call ≠ .fromLocal heap (some d))
    {arms : List (Arm P)} (harms : receiver.arms = r.receiver.arms ++ arms) (hnone : deliveries arms = []) :
    ReaderSound typeUuid decode host codec control version label token now w₀ w { r with receiver := receiver } := by
  refine ⟨h.kernel, h.ran.step hs (fun heap d hd => absurd hd (hread heap d)) _ _ _, h.taken, h.length, ?_,
    h.numbers, ?_, h.passedOver⟩
  · rw [harms]
    exact h.arms.trans (List.sublist_append_left _ _)
  · rw [harms, deliveries_append, hnone, List.append_nil]
    exact h.returned

/-- A call that reads message number `n` returns it, or there is a reason. -/
theorem ReaderSound.advance {r : Reader P} {receiver : Receiver P}
    (h : ReaderSound typeUuid decode host codec control version label token now w₀ w r) {heap : Heap}
    {d : Datagram}
    (hs : r.receiver.step typeUuid decode { host with kernel := r.kernel } codec r.version r.label
      (.fromLocal heap (some d)) = some receiver) {msg : Tagged EncodedMessage}
    (hmsg : (w.mailbox host codec control version label token now w₀ r)[r.taken]? = some msg)
    (hbytes : msg.val.iovData = d.bytes) {n : Nat} (hn : msg.tag = some n) {a : Arm P}
    (harms : receiver.arms = r.receiver.arms ++ [a]) (numbers : List Nat) (hnumbers : numbers.Sublist [n])
    (hreturned : List.Forall₂ (fun n msg => ∃ letter, SentAs w n letter ∧
      DeliveredAs typeUuid decode r.label letter msg) numbers (deliveries [a]))
    (hreason : n ∈ numbers ∨ (∃ letter, SentAs w n letter ∧ Foreign typeUuid decode letter) ∨ broken a = true) :
    ReaderSound typeUuid decode host codec control version label token now w₀ w
      { r with
        receiver := receiver
        taken := r.taken + 1
        reads := r.reads ++ [a]
        numbers := r.numbers ++ numbers } := by
  obtain ⟨hlt, -⟩ := List.getElem?_eq_some_iff.mp hmsg
  have htake : ((w.mailbox host codec control version label token now w₀ r).take (r.taken + 1)).filterMap Tagged.tag =
      ((w.mailbox host codec control version label token now w₀ r).take r.taken).filterMap Tagged.tag ++ [n] := by
    rw [List.take_add_one, hmsg, List.filterMap_append]
    simp [hn]
  have hran := h.ran.step hs (by
    rintro _ _ ⟨⟩
    exact ⟨msg, List.mem_of_getElem? hmsg, hbytes.symm⟩) (r.taken + 1) (r.reads ++ [a]) (r.numbers ++ numbers)
  refine ⟨h.kernel, hran, hlt, by simp [h.length], ?_, htake ▸ h.numbers.append hnumbers, ?_, fun m hm => ?_⟩
  · rw [harms]
    exact h.arms.append_right [a]
  · rw [harms, deliveries_append]
    exact List.rel_append h.returned hreturned
  · obtain hm | hm := List.mem_append.mp (htake ▸ hm)
    · refine (h.passedOver m hm).imp (List.mem_append_left _) fun hp => hp.imp_right ?_
      rintro ⟨b, ⟨i, m', hm', ht, hb⟩, hbroken⟩
      exact ⟨b, ⟨i, m', hm', ht, getElem?_of_prefix (List.prefix_append _ _) hb⟩, hbroken⟩
    · rw [List.mem_singleton.mp hm]
      refine hreason.imp (List.mem_append_right _) fun hp => hp.imp_right fun hbroken => ?_
      exact ⟨a, ⟨r.taken, msg, hmsg, hn, by rw [← h.length]; exact List.getElem?_concat_length⟩, hbroken⟩

theorem ReaderSound.reads {r : Reader P} {receiver : Receiver P} (hk : host.kernel.Documented)
    (hsound : Sound typeUuid decode host codec control version label token now w₀ w)
    (h : ReaderSound typeUuid decode host codec control version label token now w₀ w r) {heap : Heap}
    {d : Datagram}
    {msg : Tagged EncodedMessage}
    (hmsg : (w.mailbox host codec control version label token now w₀ r)[r.taken]? = some msg)
    (hbytes : msg.val.iovData = d.bytes)
    (hs : r.receiver.step typeUuid decode { host with kernel := r.kernel } codec r.version r.label
      (.fromLocal heap (some d)) = some receiver) :
    ReaderSound typeUuid decode host codec control version label token now w₀ w
      { r with
        receiver := receiver
        taken := r.taken + 1
        reads := r.reads ++ receiver.arms.drop r.receiver.arms.length
        numbers := r.numbers ++
          if (deliveries receiver.arms).length = (deliveries r.receiver.arms).length then [] else msg.tag.toList } := by
  obtain ⟨n, e, hn, he, hreceived⟩ := mail_received hsound.traced (List.mem_of_getElem? hmsg)
  obtain ⟨letter, hsent, hfaithful⟩ := hsound.carried hk he hreceived
  obtain ⟨r₀, hread, harms⟩ := receiver_read hs
  have hadvance := h.advance hs hmsg hbytes hn harms
  have hlast : receiver.arms.drop r.receiver.arms.length = [arm typeUuid decode r.label r₀] := by
    rw [harms, List.drop_left]
  rw [hlast]
  have hlength : (deliveries receiver.arms).length = (deliveries r.receiver.arms).length +
      (deliveries [arm typeUuid decode r.label r₀]).length := by
    rw [harms, deliveries_append, List.length_append]
  have hnot : deliveries [arm typeUuid decode r.label r₀] = [] →
      Foreign typeUuid decode letter ∨ broken (arm typeUuid decode r.label r₀) = true →
      ReaderSound typeUuid decode host codec control version label token now w₀ w
        { r with receiver := receiver, taken := r.taken + 1,
                 reads := r.reads ++ [arm typeUuid decode r.label r₀], numbers := r.numbers ++
          if (deliveries receiver.arms).length = (deliveries r.receiver.arms).length then []
          else msg.tag.toList } := by
    intro hnone hreason
    rw [hnone, List.length_nil, Nat.add_zero] at hlength
    rw [if_pos hlength]
    exact hadvance [] (List.nil_sublist _) (hnone ▸ .nil) (Or.inr (hreason.imp_left fun hf => ⟨letter, hsent, hf⟩))
  cases r₀ with
  | error err =>
    obtain ⟨hnone, hbroken⟩ := arm_refusal ((fromLocal_refusal (k := r.kernel) heap (some d)).outcome hread)
    exact hnot hnone (Or.inr hbroken)
  | ok got =>
    have hkeeps : Keeps codec letter.msg.selector := by
      obtain ⟨o, -, hl⟩ := hsent
      exact hsound.keeps o.1 letter (List.mem_of_getElem? hl)
    have hgot := faithful_of_fromLocal h.kernel hkeeps (hbytes.symm.trans hfaithful.iovData) (outcome_ok.mp hread)
    obtain ⟨delivery, hdone⟩ | ⟨hnone, hreason⟩ := @arm_cases _ typeUuid decode r.label got
    · obtain ⟨hlabel, huuid, hpayload, hselector⟩ := arm_done hdone
      have hdelivered : DeliveredAs typeUuid decode r.label letter delivery :=
        ⟨hgot.selector ▸ huuid, hselector.trans hgot.selector, hgot.payload ▸ hpayload,
          hgot.selector ▸ hlabel⟩
      have hone : deliveries [arm typeUuid decode r.label (.ok got)] = [delivery] := by
        rw [hdone]
        rfl
      rw [hone, List.length_singleton] at hlength
      rw [if_neg (by omega), hn]
      exact hadvance [n] (List.Sublist.refl _) (hone ▸ .cons ⟨letter, hsent, hdelivered⟩ .nil)
        (Or.inl (List.mem_singleton_self n))
    · refine hnot hnone ?_
      rw [hgot.selector, hgot.payload] at hreason
      rwa [Foreign, or_assoc]

theorem ReaderSound.readStep {r r' : Reader P} (hk : host.kernel.Documented)
    (hsound : Sound typeUuid decode host codec control version label token now w₀ w)
    (h : ReaderSound typeUuid decode host codec control version label token now w₀ w r)
    (hs : w.readStep typeUuid decode host codec control version label token now w₀ r call = some r') :
    ReaderSound typeUuid decode host codec control version label token now w₀ w r' := by
  have hwaits : ∀ {r' : Reader P}, r.step typeUuid decode host codec call = some r' →
    (∀ m, call ≠ .tryRecv m) →
      (∀ heap socket, call ≠ .fromLocal heap socket) →
      ReaderSound typeUuid decode host codec control version label token now w₀ w r' := by
    intro r' hs hchannel hread
    obtain ⟨receiver, hreceiver, rfl⟩ := Option.map_eq_some_iff.mp hs
    obtain hsame | htimeout := receiver_waits hreceiver hchannel hread
    · exact h.idle hreceiver (fun heap d => hread heap _) (hsame.trans (List.append_nil _).symm) rfl
    · exact h.idle hreceiver (fun heap d => hread heap _) htimeout rfl
  cases call with
  | tryRecv => cases hs
  | wait | clearWaker | accept | ignored => exact hwaits hs (by simp) (by simp)
  | fromLocal heap socket =>
    cases socket with
    | none =>
      obtain ⟨receiver, hreceiver, rfl⟩ := Option.map_eq_some_iff.mp hs
      obtain ⟨r₀, hread, harms⟩ := receiver_read hreceiver
      rw [fromLocal_none h.kernel] at hread
      cases hread
      exact h.idle hreceiver (by simp) harms rfl
    | some d =>
      obtain ⟨msg, hmsg, hs⟩ := Option.bind_eq_some_iff.mp hs
      split at hs
      · rename_i hbytes
        obtain ⟨r₁, hr₁, rfl⟩ := Option.map_eq_some_iff.mp hs
        obtain ⟨receiver, hreceiver, rfl⟩ := Option.map_eq_some_iff.mp hr₁
        exact h.reads hk hsound hmsg hbytes hreceiver
      · cases hs

/-- What is in the channel of the controller's own endpoint is meant for its label. -/
theorem own_label (ht : Traced host codec control version label token now w₀ w.thread)
    {msg : Tagged EncodedMessage} (hm : msg ∈ w.mail host codec control version label token now w₀ .own) :
    msg.val.selector.labelOp.validate label = true := by
  obtain ⟨js, hjs, -⟩ := exists_journalRun ht.ran
  rw [mail_eq hjs] at hm
  exact (journalRun_own hjs).queue msg hm

theorem OwnSound.read {own : OwnReader P} (hk : host.kernel.Documented)
    (hsound : Sound typeUuid decode host codec control version label token now w₀ w)
    (h : OwnSound typeUuid decode host codec control version label token now w₀ w own)
    {msg : Tagged EncodedMessage}
    (hmsg : (w.mail host codec control version label token now w₀ .own)[own.taken]? = some msg) :
    OwnSound typeUuid decode host codec control version label token now w₀ w (own.read typeUuid decode msg) := by
  have hmem := List.mem_of_getElem? hmsg
  obtain ⟨n, e, hn, he, hreceived⟩ := mail_received hsound.traced hmem
  obtain ⟨letter, hsent, hfaithful⟩ := hsound.carried hk he hreceived
  have hlabel := own_label hsound.traced hmem
  obtain ⟨hlt, -⟩ := List.getElem?_eq_some_iff.mp hmsg
  have htake : ((w.mail host codec control version label token now w₀ .own).take (own.taken + 1)).filterMap Tagged.tag =
      ((w.mail host codec control version label token now w₀ .own).take own.taken).filterMap Tagged.tag ++ [n] := by
    rw [List.take_add_one, hmsg, List.filterMap_append]
    simp [hn]
  have hadvance (numbers : List Nat) (hnumbers : numbers.Sublist [n])
      (hreturned : List.Forall₂ (fun n msg => ∃ letter, SentAs w n letter ∧
        DeliveredAs typeUuid decode label letter msg) numbers (deliveries [ownArm typeUuid decode msg.val])) :
      OwnSound typeUuid decode host codec control version label token now w₀ w
        ⟨own.taken + 1, own.numbers ++ numbers, own.arms ++ [ownArm typeUuid decode msg.val]⟩ := by
    refine ⟨hlt, htake ▸ h.numbers.append hnumbers, ?_⟩
    rw [deliveries_append]
    exact List.rel_append h.returned hreturned
  rw [OwnReader.read]
  simp only [ownArm_eq _ _ hlabel] at hadvance ⊢
  obtain ⟨delivery, hdone⟩ | ⟨hnone, -⟩ := @arm_cases _ typeUuid decode label msg.val
  · obtain ⟨-, huuid, hpayload, hselector⟩ := arm_done hdone
    have hdelivered : DeliveredAs typeUuid decode label letter delivery :=
      ⟨hfaithful.selector ▸ huuid, hselector.trans hfaithful.selector, hfaithful.payload ▸ hpayload,
        hfaithful.selector ▸ hlabel⟩
    have hone : deliveries [arm typeUuid decode label (.ok msg.val)] = [delivery] := by
      rw [hdone]
      rfl
    rw [hone, if_neg (by simp), hn]
    exact hadvance [n] (List.Sublist.refl _) (hone ▸ .cons ⟨letter, hsent, hdelivered⟩ .nil)
  · rw [hnone, List.isEmpty_nil, if_pos rfl]
    exact hadvance [] (List.nil_sublist _) (hnone ▸ .nil)

end Read

/-- What is relied on: `bincode` gives the selector of the letter back, and the kernel of the endpoint does what
is documented. -/
def Action.Documented (codec : Codec) : Action W → Prop
  | .send _ letter => Keeps codec letter.msg.selector
  | .register _ kernel _ _ _ _ => kernel.Documented
  | _ => True

section Runs

theorem Sound.send (h : Sound typeUuid decode host codec control version label token now w₀ w)
    (source : Source)
    {letter : Letter} (hkeeps : Keeps codec letter.msg.selector) :
    Sound typeUuid decode host codec control version label token now w₀
      { w with sent := update w.sent source (w.sent source ++ [letter]) } := by
  have hsent : ∀ s, w.sent s <+: update w.sent source (w.sent source ++ [letter]) s := by
    intro s
    by_cases hs : s = source
    · subst hs
      rw [update_self]
      exact List.prefix_append _ _
    · rw [update_of_ne hs]
  have hg : Grows host codec control version label token now w₀ w
      { w with sent := update w.sent source (w.sent source ++ [letter]) } :=
    ⟨List.prefix_refl _, hsent, fun d => List.prefix_refl _⟩
  refine ⟨h.traced, h.opened.imp fun _ _ hr => hr.mono hsent, h.inTurn, fun s l hl => ?_,
    fun r hr => (h.readers r hr).mono hg, h.own.mono hg⟩
  · simp only at hl
    by_cases hs : s = source
    · subst hs
      rw [update_self] at hl
      obtain hl | hl := List.mem_append.mp hl
      · exact h.keeps s l hl
      · exact List.mem_singleton.mp hl ▸ hkeeps
    · rw [update_of_ne hs] at hl
      exact h.keeps s l hl

theorem Sound.step (hk : host.kernel.Documented)
    (h : Sound typeUuid decode host codec control version label token now w₀ w) {a : Action W}
    (ha : a.Documented codec)
    (hs : w.step typeUuid decode host codec control version label token now w₀ a = some w') :
    Sound typeUuid decode host codec control version label token now w₀ w' := by
  cases a with
  | send source letter =>
    cases hs
    exact h.send source ha
  | control input => exact h.controlStep hk hs
  | register registration kernel theirs label' fd waker =>
    simp only [World.step] at hs
    split at hs
    · cases hs
    · cases hs
      refine ⟨h.traced, h.opened.imp fun _ _ hr => hr.mono fun _ => List.prefix_refl _, h.inTurn, h.keeps,
        fun r hr => ?_, ⟨h.own.taken, h.own.numbers, h.own.returned⟩⟩
      obtain hr | hr := List.mem_append.mp hr
      · exact (h.readers r hr).readers _
      · rw [List.mem_singleton.mp hr]
        exact ⟨ha, ⟨fd, waker, [], rfl, by simp⟩, Nat.zero_le _, rfl, .refl _, List.nil_sublist _, .nil,
          by simp⟩
  | read i call =>
    obtain ⟨r, hr, hs⟩ := Option.bind_eq_some_iff.mp hs
    obtain ⟨r', hread, rfl⟩ := Option.map_eq_some_iff.mp hs
    have hnew := (h.readers r (List.mem_of_getElem? hr)).readStep hk h hread
    refine ⟨h.traced, h.opened.imp fun _ _ hr => hr.mono fun _ => List.prefix_refl _, h.inTurn, h.keeps,
      fun x hx => ?_, ⟨h.own.taken, h.own.numbers, h.own.returned⟩⟩
    obtain hx | rfl := List.mem_or_eq_of_mem_set hx
    · exact (h.readers x hx).readers _
    · exact hnew.readers _
  | readOwn =>
    obtain ⟨msg, hmsg, rfl⟩ := Option.map_eq_some_iff.mp hs
    obtain ⟨htaken, hnumbers, hreturned⟩ := h.own.read hk h hmsg
    exact ⟨h.traced, h.opened.imp fun _ _ hr => hr.mono fun _ => List.prefix_refl _, h.inTurn, h.keeps,
      fun r hr => (h.readers r hr).own _, htaken, hnumbers, hreturned⟩

theorem run_sound {actions : List (Action W)} {listener waker : RawFd} (hk : host.kernel.Documented)
    (hactions : ∀ a ∈ actions, a.Documented codec)
    (h : run (World.step typeUuid decode host codec control version label token now w₀)
      (World.boot label token now w₀ listener waker) actions = some w) :
    Sound typeUuid decode host codec control version label token now w₀ w := by
  refine run_invariant (fun is w => (∀ a ∈ is, a.Documented codec) →
    Sound typeUuid decode host codec control version label token now w₀ w) (fun _ => ?_)
    (fun is t a u _ ht hs hdoc => ?_) actions w h hactions
  · exact ⟨⟨by simp [World.boot, Bus.boot, forBusController, IoHub.Sound], by simp [World.boot, Bus.boot],
    rfl⟩, .nil,
      fun _ => rfl, by simp [World.boot], by simp [World.boot], Nat.zero_le _, List.nil_sublist _, .nil⟩
  · rw [List.forall_mem_append, List.forall_mem_singleton] at hdoc
    exact (ht hdoc.1).step hk hdoc.2 hs

/-- Which message of which source this was. -/
def World.origin (w : World W P) (n : Nat) : Option (Source × Nat) := (w.origins[n]?).join

/-- The origins of what an endpoint has returned. -/
def World.returned (w : World W P) (r : Reader P) : List (Source × Nat) := r.numbers.filterMap w.origin

theorem origin_eq {n : Nat} {o : Source × Nat} : w.origin n = some o ↔ w.origins[n]? = some (some o) :=
  Option.join_eq_some_iff

/-- The messages of one source are received in their order. -/
theorem Sound.origin_lt (h : Sound typeUuid decode host codec control version label token now w₀ w)
    {n m : Nat} {o o' : Source × Nat} (hn : w.origin n = some o) (hm : w.origin m = some o')
    (hsource : o.1 = o'.1)
    (hlt : n < m) : o.2 < o'.2 := by
  have hsorted : (indices o.1 (w.origins.filterMap id)).Pairwise (· < ·) := by
    rw [h.inTurn]
    exact List.pairwise_lt_range
  rw [indices, List.pairwise_map, List.pairwise_filter, List.pairwise_filterMap,
    List.pairwise_iff_getElem] at hsorted
  obtain ⟨hn, hn'⟩ := List.getElem?_eq_some_iff.mp (origin_eq.mp hn)
  obtain ⟨hm, hm'⟩ := List.getElem?_eq_some_iff.mp (origin_eq.mp hm)
  exact hsorted n m hn hm hlt o hn' o' hm' (by simp) (by simp [hsource])

theorem Sound.origin_inj (h : Sound typeUuid decode host codec control version label token now w₀ w)
    {n m : Nat}
    {o : Source × Nat} (hn : w.origin n = some o) (hm : w.origin m = some o) : n = m := by
  obtain hlt | heq | hgt := Nat.lt_trichotomy n m
  · exact absurd (h.origin_lt hn hm rfl hlt) (Nat.lt_irrefl _)
  · exact heq
  · exact absurd (h.origin_lt hm hn rfl hgt) (Nat.lt_irrefl _)

theorem Sound.inOrder (h : Sound typeUuid decode host codec control version label token now w₀ w)
    {numbers : List Nat}
    (hsorted : numbers.Pairwise (· < ·)) (source : Source) :
    (indices source (numbers.filterMap w.origin)).Pairwise (· < ·) := by
  rw [indices, List.pairwise_map, List.pairwise_filter, List.pairwise_filterMap]
  refine hsorted.imp fun hlt o ho o' ho' hs hs' => ?_
  exact h.origin_lt ho ho' ((beq_iff_eq.mp hs).trans (beq_iff_eq.mp hs').symm) hlt

theorem Sound.accepted_sorted (h : Sound typeUuid decode host codec control version label token now w₀ w)
    (d : Destination) :
    ((w.mail host codec control version label token now w₀ d).filterMap Tagged.tag).Pairwise (· < ·) := by
  obtain ⟨js, hjs, -⟩ := exists_journalRun h.traced.ran
  obtain ⟨-, horder⟩ := journalRun_order (linux_sendsOrDisconnects host codec control version) hjs
  rw [mail_eq hjs, filterMap_deliveredTo]
  exact horder.accepted_sorted d

theorem ReaderSound.sublist {r : Reader P}
    (h : ReaderSound typeUuid decode host codec control version label token now w₀ w r) :
    r.numbers.Sublist ((w.mail host codec control version label token now w₀
      (.endpoint r.registration)).filterMap Tagged.tag) :=
  h.numbers.trans ((List.take_sublist _ _).filterMap _)

theorem OwnSound.sublist {own : OwnReader P}
    (h : OwnSound typeUuid decode host codec control version label token now w₀ w own) :
    own.numbers.Sublist ((w.mail host codec control version label token now w₀ .own).filterMap Tagged.tag) :=
  h.numbers.trans ((List.take_sublist _ _).filterMap _)

end Runs

section Example

open Reference PlainHost Authentication

def letterOf (msg : Message) : Letter := ⟨⟨0, 8, 5⟩, msg, zeroHeap, msg.attachments⟩

/-- A client asks for the label "a" and sends a message, which its own endpoint returns. -/
def oneMessage : List (Action (List RawFd)) :=
  [.send (.connection 0) (letterOf requestMessage), .send (.connection 0) (letterOf (withObjects [8]))] ++
    requestAndMail.map (fun call => .control ⟨call, id, .ofNanos 0⟩) ++
    [.register 0 plainHost.kernel ⟨0, 8, 5⟩ ⟨["a"]⟩ 20 21, .read 0 (.wait [20]),
      .read 0 (.fromLocal zeroHeap (some ((letterOf (withObjects [8])).datagram requestCodec)))]

def plainStep : World (List RawFd) Unit → Action (List RawFd) → Option (World (List RawFd) Unit) :=
  World.step (withObjects [8]).selector.uuid (fun _ => some ()) plainHost requestCodec plainControl ⟨0, 8, 5⟩
    ⟨["c"]⟩ "token" (.ofNanos 0) []

theorem oneMessage_documented : ∀ a ∈ oneMessage, a.Documented requestCodec := by
  simp only [oneMessage, List.forall_mem_append, List.forall_mem_cons, List.forall_mem_map, List.not_mem_nil,
    false_implies, implies_true, and_true, Action.Documented]
  exact ⟨⟨rfl, rfl⟩, reference_documented _⟩

end Example

end Ipmb.Network
