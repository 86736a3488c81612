import Ipmb.Calls
import Ipmb.Linux
import Ipmb.Mach
import Ipmb.PlainHost
import Ipmb.Turns

namespace Ipmb.MacSend

open Messages Encoding Decoding Backend Retain Controller Calls Routing Mach

/-- `kern_return_t` -/
abbrev KernReturn := Int

def machMsgSuccess : KernReturn := 0

def machSendNoBuffer : KernReturn := 0x1000000d

def machSendTooLarge : KernReturn := 0x1000000e

/-- The process and the kernel around the controller. -/
structure Host (W : Type) where
  refCountInner : W → MemoryRegion → Int → W
  /-- A call of `mach_msg_send`. -/
  machMsgSend : W → MachMsg → KernReturn × W
  sleep : W → W
  isDead : W → Port → Bool × W
  heap : W → (Nat → UInt8) × W
  newEndpointID : W → EndpointID × W
  receiverDropped : W → Bool × W

/-- A send that has come to an end: what the kernel said at last, whether the remote was then
found dead, and what the send returned. -/
structure Offer where
  remote : Port
  result : KernReturn
  dead : Bool
  outcome : Except (Error Port) Unit

variable {W : Type}

section Send

variable (host : Host W)

/-- The references of all regions of the message are counted once more, or once less. -/
def refCount (regions : List MemoryRegion) (val : Int) (w : W) : W :=
  regions.foldl (fun w r => host.refCountInner w r val) w

/-- The loop in `send`, for a number of calls of `mach_msg_send`. -/
def sendLoop (regions : List MemoryRegion) (remote : Port) (m : MachMsg) : Nat → W → Option (Offer × W)
  | 0, _ => none
  | calls + 1, w =>
    let r := host.machMsgSend w m
    if r.1 = machMsgSuccess then some (⟨remote, r.1, false, .ok ()⟩, r.2)
    else if r.1 = machSendNoBuffer then sendLoop regions remote m calls (host.sleep r.2)
    else
      let dead := host.isDead (refCount host regions (-1) r.2) remote
      -- any other error is only logged
      some (⟨remote, r.1, dead.1, if dead.1 then .error .disconnect else .ok ()⟩, dead.2)

/-- The message as it is sent to a remote. -/
def addressed (msg : Mach.EncodedMessage) (remote : Port) : MachMsg :=
  { msg.machMsg with header := { msg.machMsg.header with remotePort := remote } }

/-- `EncodedMessage::send`; there is nothing as long as all calls so far have found no buffer.
The port in the header is set again by each send. -/
def send (calls : Nat) (w : W) (msg : Mach.EncodedMessage) (remote : Port) : Option (Offer × W) :=
  sendLoop host msg.memoryRegions remote (addressed msg remote) calls (refCount host msg.memoryRegions 1 w)

end Send

/-- A host whose kernel finds a buffer at last. -/
structure Settling (W : Type) extends Host W where
  calls : W → Mach.EncodedMessage → Port → Nat
  enough : ∀ w msg remote, (MacSend.send toHost (calls w msg remote) w msg remote).isSome

def Settling.send (host : Settling W) (w : W) (msg : Mach.EncodedMessage) (remote : Port) : Offer × W :=
  (MacSend.send host.toHost (host.calls w msg remote) w msg remote).get (host.enough w msg remote)

/-- `EncodedMessage::extract_remote` pops the last object. -/
def extractRemote (msg : Mach.EncodedMessage) : Option Port × Mach.EncodedMessage :=
  match msg.objects.getLast? with
  | none => (none, msg)
  | some reply => (some reply, { msg with objects := msg.objects.dropLast })

/-- The platform, with a list of the sends. -/
def macos (host : Settling W) (codec : Codec) (control : Linux.Control) (version : Version) :
    Platform Mach.EncodedMessage Port (W × List Offer) where
  version := version
  selector msg := msg.selector
  payloadData msg := (Bytes.readAt msg.machMsg.data msg.payloadData.start msg.payloadData.len).getD []
  extractRemote := extractRemote
  sameRemote r s := r == s
  send w msg remote :=
    let sent := host.send w.1 msg remote
    (sent.1.outcome, sent.2, w.2 ++ [sent.1])
  isDead w remote := ((host.isDead w.1 remote).1, (host.isDead w.1 remote).2, w.2)
  encodeAck w selector ack :=
    let heap := host.heap w.1
    (Mach.intoEncoded codec version ⟨{ selector with uuid := ConnectMessageAck.uuid },
      control.encodeAck ack, [], []⟩ heap.1, heap.2, w.2)
  decodeConnect := control.decodeConnect
  newEndpointID w := ((host.newEndpointID w.1).1, (host.newEndpointID w.1).2, w.2)
  receiverDropped w := ((host.receiverDropped w.1).1, (host.receiverDropped w.1).2, w.2)
  platformMessage _ := none

section Attempts

variable (host : Host W) (m : MachMsg)

/-- The call of `mach_msg_send` after `n` that have found no buffer. -/
def attempt : Nat → W → KernReturn × W
  | 0, w => host.machMsgSend w m
  | n + 1, w => attempt n (host.sleep (host.machMsgSend w m).2)

/-- The kernel's answer is at last `result`, after `n` times that there was no buffer. -/
structure Answers (n : Nat) (w : W) (result : KernReturn) : Prop where
  busy : ∀ k < n, (attempt host m k w).1 = machSendNoBuffer
  last : (attempt host m n w).1 = result
  other : result ≠ machSendNoBuffer

/-- What the outcome says if it says the truth: the message was accepted by the kernel. -/
def Offer.Truthful (o : Offer) : Prop := o.outcome = .ok () → o.result = machMsgSuccess

/-- The kernel took the message, or the remote is dead. -/
def Offer.Settled (o : Offer) : Prop := o.result = machMsgSuccess ∨ o.dead = true

/-- The outcome as it follows from the other parts. -/
def Offer.Formed (o : Offer) : Prop :=
  o.outcome = if o.result = machMsgSuccess then .ok () else if o.dead then .error .disconnect else .ok ()

theorem Offer.Formed.truthful_settled {o : Offer} (h : o.Formed) : o.Truthful ↔ o.Settled := by
  rw [Offer.Formed] at h
  rw [Offer.Truthful, Offer.Settled, h]
  by_cases hresult : o.result = machMsgSuccess
  · simp [hresult]
  · cases o.dead with
    | true => simp [hresult]
    | false => simp [hresult]

variable {host m} {regions : List MemoryRegion} {remote : Port}

theorem sendLoop_formed {calls : Nat} {w : W} {x : Offer × W}
    (h : sendLoop host regions remote m calls w = some x) : x.1.Formed ∧ x.1.remote = remote := by
  induction calls generalizing w with
  | zero => cases h
  | succ calls ih =>
    rw [sendLoop] at h
    split at h
    · rename_i hsuccess
      cases h
      exact ⟨(if_pos hsuccess).symm, rfl⟩
    · rename_i hsuccess
      split at h
      · exact ih h
      · cases h
        exact ⟨(if_neg hsuccess).symm, rfl⟩

/-- The loop ends with the first answer that is not about the buffer. -/
theorem sendLoop_answers (regions : List MemoryRegion) (remote : Port) {n : Nat} {w : W}
    {result : KernReturn} (h : Answers host m n w result) {calls : Nat} (hcalls : n < calls) :
    ∃ x, sendLoop host regions remote m calls w = some x ∧ x.1.result = result := by
  induction n generalizing calls w with
  | zero =>
    obtain _ | calls := calls
    · cases hcalls
    have hlast : (host.machMsgSend w m).1 = result := h.last
    rw [sendLoop]
    split
    · exact ⟨_, rfl, hlast⟩
    · rw [if_neg (by rw [hlast]; exact h.other)]
      exact ⟨_, rfl, hlast⟩
  | succ n ih =>
    obtain _ | calls := calls
    · cases hcalls
    have hbusy : (host.machMsgSend w m).1 = machSendNoBuffer := h.busy 0 (Nat.succ_pos n)
    rw [sendLoop, if_neg (by rw [hbusy]; decide), if_pos hbusy]
    exact ih ⟨fun k hk => h.busy (k + 1) (Nat.succ_lt_succ hk), h.last, h.other⟩
      (Nat.lt_of_succ_lt_succ hcalls)

theorem answers_zero {w : W} (h : (host.machMsgSend w m).1 ≠ machSendNoBuffer) :
    Answers host m 0 w (host.machMsgSend w m).1 := by
  refine ⟨fun k hk => ?_, rfl, h⟩
  cases hk

/-- The loop has an end only if there is such an answer. -/
theorem answers_of_sendLoop {calls : Nat} {w : W} {x : Offer × W}
    (h : sendLoop host regions remote m calls w = some x) :
    ∃ n < calls, Answers host m n w x.1.result := by
  induction calls generalizing w with
  | zero => cases h
  | succ calls ih =>
    rw [sendLoop] at h
    split at h
    · rename_i hsuccess
      cases h
      refine ⟨0, Nat.succ_pos calls, answers_zero ?_⟩
      rw [hsuccess]
      decide
    · split at h
      · rename_i hbusy
        obtain ⟨n, hn, ha⟩ := ih h
        refine ⟨n + 1, Nat.succ_lt_succ hn, fun k hk => ?_, ha.last, ha.other⟩
        cases k with
        | zero => exact hbusy
        | succ k => exact ha.busy k (Nat.lt_of_succ_lt_succ hk)
      · rename_i hother
        cases h
        exact ⟨0, Nat.succ_pos calls, answers_zero hother⟩

/-- The loop comes to an end if and only if there is an answer that is not about the buffer. -/
theorem sendLoop_isSome_iff {calls : Nat} {w : W} :
    (sendLoop host regions remote m calls w).isSome ↔ ∃ n < calls, ∃ result, Answers host m n w result := by
  rw [Option.isSome_iff_exists]
  constructor
  · rintro ⟨x, hx⟩
    obtain ⟨n, hn, h⟩ := answers_of_sendLoop hx
    exact ⟨n, hn, _, h⟩
  · rintro ⟨n, hn, result, h⟩
    obtain ⟨x, hx, -⟩ := sendLoop_answers regions remote h hn
    exact ⟨x, hx⟩

end Attempts

section Routing

variable (host : Settling W) (codec : Codec) (control : Linux.Control) (version : Version)
  {msg : Mach.EncodedMessage}

theorem formed_send (w : W) (msg : Mach.EncodedMessage) (remote : Port) :
    (host.send w msg remote).1.Formed :=
  (sendLoop_formed (Option.some_get (host.enough w msg remote)).symm).1

/-- The send returned `Ok`. -/
def Offer.okay (o : Offer) : Bool := o.outcome.isOk

/-- The sends on behalf of a unicast message: `routed` counts those that returned `Ok`. -/
structure Sends (offers : List Offer) (routed : Bool) : Prop where
  formed : ∀ o ∈ offers, o.Formed
  once : (offers.filter Offer.okay).length = routed.toNat

theorem Sends.offer {offers : List Offer} (h : Sends offers false) {o : Offer} (ho : o.Formed) :
    Sends (offers ++ [o]) o.okay := by
  refine ⟨fun x hx => ?_, ?_⟩
  · obtain hx | hx := List.mem_append.mp hx
    · exact h.formed x hx
    · rwa [List.mem_singleton.mp hx]
  · rw [List.filter_append, List.length_append, h.once]
    cases hok : o.okay <;> simp [hok]

theorem tryEndpoint_sends (hunicast : msg.selector.mode = .unicast) (ep : Endpoint Port)
    {routed : Bool} (w : W) (log : List Offer) {offers : List Offer} (h : Sends offers routed) :
    ∃ more, (tryEndpoint (macos host codec control version) msg ep (routed, w, log)).2.2.2 = log ++ more ∧
      Sends (offers ++ more) (tryEndpoint (macos host codec control version) msg ep (routed, w, log)).2.1 := by
  cases hoffered : offered (macos host codec control version) msg ep routed with
  | false =>
    rw [tryEndpoint_passed hoffered]
    exact ⟨[], (List.append_nil log).symm, by rwa [List.append_nil]⟩
  | true =>
    -- a unicast message is offered only while it is not routed
    have hrouted : routed = false := by
      have hmode : ((macos host codec control version).selector msg).mode = .unicast := hunicast
      simp only [offered, hmode, Bool.and_eq_true] at hoffered
      simpa using hoffered.1
    subst hrouted
    refine ⟨[(host.send w msg ep.remote).1], ?_⟩
    have hsends := h.offer (formed_send host w msg ep.remote)
    rw [tryEndpoint_offered hoffered]
    simp only [macos]
    rw [Offer.okay] at hsends
    generalize host.send w msg ep.remote = sent at hsends ⊢
    obtain ⟨⟨remote, result, dead, outcome⟩, w'⟩ := sent
    cases outcome with
    | ok u => exact ⟨rfl, hsends⟩
    | error e => cases e <;> exact ⟨rfl, hsends⟩

theorem retain_sends (hunicast : msg.selector.mode = .unicast) (eps : List (Endpoint Port)) (w : W)
    (log : List Offer) :
    ∃ offers, (retain (tryEndpoint (macos host codec control version) msg) eps (false, w, log)).2.2.2 =
        log ++ offers ∧
      Sends offers (retain (tryEndpoint (macos host codec control version) msg) eps (false, w, log)).2.1 := by
  apply retain_invariant (tryEndpoint (macos host codec control version) msg)
    (fun _ _ s => ∃ offers, s.2.2 = log ++ offers ∧ Sends offers s.1) eps [] [] (false, w, log)
  · exact ⟨[], (List.append_nil log).symm, by simp, rfl⟩
  · rintro done kept ep ⟨routed, w, log'⟩ - ⟨offers, hlog, hsends⟩
    obtain ⟨more, hmore, hall⟩ := tryEndpoint_sends host codec control version hunicast ep w log' hsends
    refine ⟨offers ++ more, ?_, hall⟩
    rw [hmore, ← List.append_assoc]
    exact congrArg (· ++ more) hlog

theorem offerLocal_log (c : BusController Mach.EncodedMessage Port) (routed : Bool) (w : W × List Offer) :
    (offerLocal (macos host codec control version) c routed w msg).2.2.2 = w.2 := by
  cases h : offeredLocal (macos host codec control version) msg c routed with
  | true =>
    rw [offerLocal_offered h]
    rfl
  | false => rw [offerLocal_passed h]

end Routing

section Runs

abbrev MacCall (W : Type) := BusController Mach.EncodedMessage Port × (W × List Offer) × Mach.EncodedMessage

variable (p : Platform Mach.EncodedMessage Port (W × List Offer)) (call : MacCall W)

/-- The sends that a call of `handle_message` makes. -/
def offers : List Offer := (handleMessage p call.1 call.2.1 call.2.2).2.2.2.drop call.2.1.2.length

/-- Whether the loop over the endpoints counts the message as routed. -/
def countedAsRouted : Bool :=
  (retain (tryEndpoint p call.2.2) call.1.endpoints (false, call.2.1)).2.1

/-- The message of the call is routed, to a single destination. -/
def Unicast : Prop := p.Routed call.2.2 ∧ (p.selector call.2.2).mode = .unicast

/-- The message counts as routed only if the kernel has accepted it for an endpoint; without that
it remains, unless the local channel has taken it. -/
structure Honest : Prop where
  routed : countedAsRouted p call = true → ∃ o ∈ offers p call, o.result = machMsgSuccess
  remains : (handleMessage p call.1 call.2.1 call.2.2).1.1 = none →
    (∃ o ∈ offers p call, o.result = machMsgSuccess) ∨
      (handleMessage p call.1 call.2.1 call.2.2).2.1.sender.queue = call.1.sender.queue ++ [call.2.2]

end Runs

section Truth

variable {host : Settling W} {codec : Codec} {control : Linux.Control} {version : Version}
  {call : MacCall W}

theorem offers_sends (hunicast : Unicast (macos host codec control version) call) :
    Sends (offers (macos host codec control version) call)
      (countedAsRouted (macos host codec control version) call) := by
  obtain ⟨c, ⟨w, log⟩, msg⟩ := call
  obtain ⟨offered, hlog, hsends⟩ := retain_sends host codec control version hunicast.2 c.endpoints w log
  have hoffers : offers (macos host codec control version) (c, (w, log), msg) = offered := by
    rw [offers, Turns.handleMessage_routed hunicast.1]
    show (route (macos host codec control version) c (w, log) msg).2.2.2.drop log.length = offered
    rw [route, offerLocal_log, hlog, List.drop_left]
  rw [hoffers]
  exact hsends

theorem Sends.routed_iff {os : List Offer} {routed : Bool} (h : Sends os routed) :
    routed = true ↔ ∃ o ∈ os, o.okay = true := by
  have honce := h.once
  cases routed with
  | false =>
    have hnone := List.filter_eq_nil_iff.mp (List.eq_nil_of_length_eq_zero honce)
    simpa using fun o ho => hnone o ho
  | true =>
    obtain ⟨o, ho⟩ := List.length_eq_one_iff.mp honce
    have hmem : o ∈ os.filter Offer.okay := by simp [ho]
    simpa using ⟨o, List.mem_filter.mp hmem⟩

/-- Only one of the sends returned `Ok`. -/
theorem Sends.unique {os : List Offer} {routed : Bool} (h : Sends os routed) {o o' : Offer}
    (ho : o ∈ os) (ho' : o' ∈ os) (hok : o.okay = true) (hok' : o'.okay = true) : o = o' := by
  have hrouted := h.routed_iff.mpr ⟨o, ho, hok⟩
  have honce := h.once
  rw [hrouted] at honce
  obtain ⟨x, hx⟩ := List.length_eq_one_iff.mp honce
  have hmem : ∀ y ∈ os, y.okay = true → y = x := by
    intro y hy hyok
    have hfilter : y ∈ os.filter Offer.okay := List.mem_filter.mpr ⟨hy, hyok⟩
    rw [hx] at hfilter
    exact List.mem_singleton.mp hfilter
  rw [hmem o ho hok, hmem o' ho' hok']

theorem okay_iff {o : Offer} : o.okay = true ↔ o.outcome = .ok () := by
  rw [Offer.okay]
  rcases o.outcome with e | u
  · simp [Except.isOk, Except.toBool]
  · simp [Except.isOk, Except.toBool]

/-- What neither was routed before nor remains has been taken by the local channel. -/
theorem offerLocal_none {M R V : Type} {p : Platform M R V} {c : BusController M R} {routed : Bool}
    {w : V} {msg : M} (h : (offerLocal p c routed w msg).1 = none) :
    routed = true ∨ (offerLocal p c routed w msg).2.1.sender.queue = c.sender.queue ++ [msg] := by
  cases routed with
  | true => exact .inl rfl
  | false =>
    apply Or.inr
    cases hl : offeredLocal p msg c false with
    | false =>
      rw [offerLocal_passed hl] at h
      cases h
    | true =>
      rw [offerLocal_offered hl] at h ⊢
      rw [Bool.or_false] at h
      simp only [Sender.send] at h ⊢
      split at h
      · rename_i halive
        rw [if_pos halive]
      · cases h

/-- A unicast message is treated as it should be if and only if every send on its behalf is
accepted by the kernel or meets a dead remote. -/
theorem honest_iff (hunicast : Unicast (macos host codec control version) call) :
    Honest (macos host codec control version) call ↔
      ∀ o ∈ offers (macos host codec control version) call, o.Settled := by
  have hsends := offers_sends hunicast
  constructor
  · intro h o ho
    rw [← (hsends.formed o ho).truthful_settled]
    intro hok
    have hokay := okay_iff.mpr hok
    obtain ⟨o', ho', hresult⟩ := h.routed (hsends.routed_iff.mpr ⟨o, ho, hokay⟩)
    have hok' : o'.okay = true := okay_iff.mpr ((hsends.formed o' ho').trans (if_pos hresult))
    rwa [hsends.unique ho ho' hokay hok']
  · intro h
    have hrouted : countedAsRouted (macos host codec control version) call = true →
        ∃ o ∈ offers (macos host codec control version) call, o.result = machMsgSuccess := by
      intro hcounted
      obtain ⟨o, ho, hok⟩ := hsends.routed_iff.mp hcounted
      exact ⟨o, ho, (hsends.formed o ho).truthful_settled.mpr (h o ho) (okay_iff.mp hok)⟩
    refine ⟨hrouted, fun hnone => ?_⟩
    rw [Turns.handleMessage_routed hunicast.1] at hnone ⊢
    exact (offerLocal_none hnone).imp_left hrouted

end Truth

/-- A send tells the truth if and only if the kernel takes the message or the remote is dead, and
no unicast message of a run gets lost if and only if this is so of every send on its behalf. -/
theorem sends_truthful_iff (host : Settling W) (codec : Codec) (control : Linux.Control)
    (version : Version) :
    (∀ (host : Host W) w msg remote n result,
      Answers host (addressed msg remote) n (refCount host msg.memoryRegions 1 w) result →
      ∀ calls > n, ∃ x, send host calls w msg remote = some x ∧ x.1.result = result ∧
        (x.1.Truthful ↔ result = machMsgSuccess ∨ x.1.dead = true)) ∧
    ∀ (s : BusController Mach.EncodedMessage Port × W × List Offer) its,
      EveryCall (macos host codec control version)
        (fun call => Unicast (macos host codec control version) call →
          Honest (macos host codec control version) call) s its ↔
      EveryCall (macos host codec control version)
        (fun call => Unicast (macos host codec control version) call →
          ∀ o ∈ offers (macos host codec control version) call, o.Settled) s its := by
  constructor
  · intro host w msg remote n result h calls hcalls
    obtain ⟨x, hx, rfl⟩ := sendLoop_answers msg.memoryRegions remote h hcalls
    exact ⟨x, hx, rfl, (sendLoop_formed hx).1.truthful_settled⟩
  · intro s its
    constructor
    · exact EveryCall.imp fun call h hunicast => (honest_iff hunicast).mp (h hunicast)
    · exact EveryCall.imp fun call h hunicast => (honest_iff hunicast).mpr (h hunicast)

/-- A host whose kernel refuses what is sent to port 1 as too large. -/
def choosyHost : Host Unit where
  refCountInner w _ _ := w
  machMsgSend w m := (if m.header.remotePort = 1 then machSendTooLarge else machMsgSuccess, w)
  sleep := id
  isDead w _ := (false, w)
  heap w := (fun _ => 0, w)
  newEndpointID w := (1, w)
  receiverDropped w := (false, w)

theorem choosyHost_answers (w : Unit) (m : MachMsg) : (choosyHost.machMsgSend w m).1 ≠ machSendNoBuffer := by
  simp only [choosyHost]
  split <;> decide

def choosy : Settling Unit where
  toHost := choosyHost
  calls _ _ _ := 1
  enough w msg remote :=
    sendLoop_isSome_iff.mpr
      ⟨0, Nat.one_pos, _, answers_zero (choosyHost_answers w (addressed msg remote))⟩

def forA : Mach.EncodedMessage :=
  Mach.intoEncoded Reference.plainCodec ⟨0, 8, 5⟩ ⟨Selector.unicast (.leaf "a"), [1, 2, 3], [], []⟩ fun _ => 0

/-- Two endpoints that the message is for, on the ports 1 and 2. -/
def twoEndpoints : BusController Mach.EncodedMessage Port :=
  ⟨⟨[]⟩, "token", ⟨[], true⟩, [⟨1, ⟨["a"]⟩, 1⟩, ⟨2, ⟨["a"]⟩, 2⟩], [], [], .ofNanos 0⟩

/-- Port 2 takes the message. -/
theorem sends_truthful_iff_choosy :
    ∃ x, send choosyHost 1 () forA 2 = some x ∧ x.1.result = machMsgSuccess ∧
      (x.1.Truthful ↔ machMsgSuccess = machMsgSuccess ∨ x.1.dead = true) :=
  (sends_truthful_iff choosy Reference.plainCodec PlainHost.plainControl ⟨0, 8, 5⟩).1 choosyHost () forA 2 0
    machMsgSuccess (answers_zero (choosyHost_answers () (addressed forA 2))) 1 Nat.one_pos

/-- The message is too large for the first endpoint, which is alive: it counts as routed, and the
second endpoint, which would have taken it, is not tried. -/
theorem refused_lost :
    let p := macos choosy Reference.plainCodec PlainHost.plainControl ⟨0, 8, 5⟩
    let call : MacCall Unit := (twoEndpoints, ((), []), forA)
    Unicast p call ∧ (handleMessage p call.1 call.2.1 call.2.2).1.1 = none ∧
      offers p call = [⟨1, machSendTooLarge, false, .ok ()⟩] ∧ ¬ Honest p call := by
  intro p call
  have hoffers : offers p call = [⟨1, machSendTooLarge, false, .ok ()⟩] := rfl
  refine ⟨⟨⟨by decide, rfl⟩, rfl⟩, rfl, hoffers, fun h => ?_⟩
  obtain ⟨o, ho, hresult⟩ := h.routed rfl
  rw [hoffers, List.mem_singleton] at ho
  rw [ho] at hresult
  exact absurd hresult (by decide)

end Ipmb.MacSend
