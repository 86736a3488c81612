import Ipmb.Forwarding
import Mathlib.Logic.Function.Basic

namespace Ipmb.HalfOpen

open Function Labels Messages Time Buffers Encoding Faults Decoding Reception RoundTrip Attachments
  Refusals Backend Run Controller Journal Registration Conservation Linux Hub HubSteps Bus Handshake
  Forwarding

/-- The process at the other end of an accepted connection. `queue` is what the controller
has yet to read from it, `held` says whether it still has its end, `disconnected` whether a
`send` of it has seen `Disconnect` and asks for the write lock, and `waiting` whether a
`recv(None)` of it has the read lock. -/
structure Peer where
  version : Version
  queue : List Datagram
  held : Bool
  disconnected : Bool
  waiting : Bool

/-- The bus controller, its sends journalled, and the peers by the number of their connections. -/
structure System (W : Type) where
  hub : IoHub
  pc : Pc
  received : List (Source × Iteration EncodedMessage RawFd W)
  state : Journal.State EncodedMessage RawFd W
  peers : Nat → Peer

inductive Action (W : Type) where
  | send (n : Nat) (msg : Message) (heap : Heap) (f : RawFd → RawFd) (errno : Option Errno)
  | wait (n : Nat)
  | wake (n : Nat)
  | hangUp (n : Nat)
  | recv (i : Input W)

variable {W : Type} (host : Host W) (codec : Codec) (control : Control) (version : Version)
  (sndbuf : Nat)

/-- The connection has been accepted and closed again. -/
def shut (hub : IoHub) (n : Nat) : Bool :=
  decide (n < hub.accepted) && !hub.localList.any (fun p => p.connection == n)

/-- `EndpointSender::send` once: every error of `sendmsg` is a `Disconnect`. -/
def Peer.send (c : Peer) (closed : Bool) (msg : Message) (heap : Heap) (f : RawFd → RawFd)
    (errno : Option Errno) : Option Peer :=
  let encoded := intoEncoded codec c.version (counted msg) heap
  let failed := some { c with disconnected := true }
  match errno with
  | none =>
    if closed then none
    else (transmit host.kernel f encoded).map fun d => { c with queue := c.queue ++ [d] }
  | some .epipe | some .econnreset => if closed then failed else none
  | some .emsgsize => if sndbuf < encoded.iovData.length then failed else none
  | some .einval => if (host.kernel.attachments encoded.controlData).isNone then failed else none
  | some .ebadf => none
  | some .etoomanyrefs | some .eintr => failed

/-- The connection that the next event is about. -/
def System.reading (s : System W) : Option Nat :=
  match s.pc with
  | .draining (ev :: _) => (s.hub.localList[place s.hub ev]?).map Local.connection
  | _ => none

/-- A datagram is read from the head of the queue. Without one `recvmsg` only returns when
the peer has hung up. -/
def System.offers (s : System W) : Call → Bool
  | .fromLocal _ socket =>
    match s.reading with
    | some n => socket == (s.peers n).queue.head? && (socket.isSome || !(s.peers n).held)
    | none => false
  | _ => true

/-- A connection that is closed loses what has not been read from it. -/
def Peer.served (c : Peer) : Answer EncodedMessage RawFd → Peer
  | .fromLocal (.ok _) => { c with queue := c.queue.tail }
  | .fromLocal (.error _) => { c with queue := [] }
  | _ => c

def System.served (s : System W) (answer : Answer EncodedMessage RawFd) : Nat → Peer :=
  match s.reading with
  | some n => update s.peers n ((s.peers n).served answer)
  | none => s.peers

/-- A call of the controller's `recv`, and the rest of its loop should that return. -/
def System.recv (s : System W) (i : Input W) : Option (System W) :=
  if s.offers i.call then
    (i.call.answer host codec version).bind fun answer =>
    (s.hub.step s.pc answer).bind fun next =>
      match next.2 with
      | .pending pc => some { s with hub := next.1, pc := pc, peers := s.served answer }
      | .returned source r =>
        let it : Iteration EncodedMessage RawFd W := ⟨i.interfere, r, i.now⟩
        (iterate (journal (linux host codec control version)) s.state
          (numbered s.received.length it)).map fun state =>
            ⟨next.1, next.1.start, s.received ++ [(source, it)], state, s.served answer⟩
  else none

def step (s : System W) : Action W → Option (System W)
  | .send n msg heap f errno =>
    if (s.peers n).held then
      ((s.peers n).send host codec sndbuf (shut s.hub n) msg heap f errno).map fun c =>
        { s with peers := update s.peers n c }
    else none
  | .wait n => some { s with peers := update s.peers n { s.peers n with waiting := true } }
  | .wake n => some { s with peers := update s.peers n { s.peers n with waiting := false } }
  | .hangUp n => some { s with peers := update s.peers n { s.peers n with held := false } }
  | .recv i => s.recv host codec control version i

def boot (label : Label) (token : String) (now : Instant) (w : W) (listener waker : RawFd)
    (versions : Nat → Version) : System W :=
  ⟨forBusController listener waker, .polling, [], start label token now w,
    fun n => ⟨versions n, [], true, false, false⟩⟩

/-- The endpoint was registered by a message that came over connection `n`. -/
def System.Over (s : System W) (n : Nat) (ep : Endpoint (Tagged RawFd)) : Prop :=
  ∃ k e, ep.remote.tag = some k ∧ s.received[k]? = some e ∧ e.1 = .connection n

/-- No writing end of a pipe of this peer is left: it gets end-of-file. -/
structure System.Ended (s : System W) (n : Nat) : Prop where
  endpoints : ∀ ep ∈ s.state.1.endpoints, ¬ s.Over n ep
  queue : (s.peers n).queue = []

/-- The peer waits for a write lock, behind a `recv(None)` that nothing wakes. -/
structure System.Stuck (s : System W) (n : Nat) : Prop where
  held : (s.peers n).held = true
  disconnected : (s.peers n).disconnected = true
  waiting : (s.peers n).waiting = true
  blocked : ¬ s.Ended n

/-- No endpoint is half open. -/
structure Whole (s : System W) : Prop where
  unregistered : ∀ n, shut s.hub n = true → (s.peers n).held = true →
    ∀ ep ∈ s.state.1.endpoints, ¬ s.Over n ep
  ended : ∀ n, (s.peers n).held = true → (s.peers n).disconnected = true → s.Ended n
  unstuck : ∀ n, ¬ s.Stuck n

/-- The selector of a message that is sent survives `bincode`. -/
def Honest (codec : Codec) : Action W → Prop
  | .send _ msg _ _ _ => Keeps codec (counted msg).selector
  | _ => True

/-- What is sent fits, and is not got in the way of; what does not fit into the control
area is not read from a peer that is still there and has an endpoint. -/
def Fitting (s : System W) : Action W → Prop
  | .send n msg heap _ errno =>
    (intoEncoded codec (s.peers n).version (counted msg) heap).iovData.length ≤ sndbuf ∧
      msg.attachments.length ≤ 253 ∧ errno ≠ some .etoomanyrefs ∧ errno ≠ some .eintr
  | .recv i => ∀ heap d n, i.call = .fromLocal heap (some d) → s.reading = some n →
      4 < d.fds.length ∨ 2 ^ 32 ≤ d.bytes.length →
      (s.peers n).held = false ∨ ∀ ep ∈ s.state.1.endpoints, ¬ s.Over n ep
  | _ => True

/-- `into_encoded` has made the data of this datagram. -/
def Carries (codec : Codec) (v : Version) (d : Datagram) : Prop :=
  ∃ msg heap, Keeps codec msg.selector ∧ d.bytes = (intoEncoded codec v msg heap).iovData

section Datagrams

variable {k : Kernel} (hk : k.Documented) {codec : Codec} {ours theirs : Version} {d : Datagram}
  (h : Carries codec theirs d) (heap : Heap)
include hk h

theorem Carries.compatible {got : EncodedMessage}
    (hgot : fromLocal k codec ours heap (some d) = .ok got) : ours.compatible theirs = true := by
  obtain ⟨bytes, fds⟩ := d
  obtain ⟨msg, heap', -, rfl⟩ := h
  by_contra hv
  obtain ⟨e, he⟩ := fromLocal_incompatible hk codec msg heap' heap fds (Bool.eq_false_iff.mpr hv)
  cases hgot.symm.trans he

/-- Only the descriptors and the size can keep it from being read. -/
theorem Carries.fails (hc : ours.compatible theirs = true) (hfds : d.fds.length ≤ 4)
    (hlt : d.bytes.length < 2 ^ 32) : Fails (fun _ => False) (fromLocal k codec ours heap (some d)) := by
  obtain ⟨bytes, fds⟩ := d
  obtain ⟨msg, heap', hcodec, rfl⟩ := h
  have hpos : 0 < (encodeIov codec theirs msg heap'.iov).2.length := by
    rw [length_encodeIov]
    omega
  have hversion := encodeIov_version codec theirs ours msg heap'
  rw [if_pos hc] at hversion
  simp only [intoEncoded] at hlt ⊢
  rw [fromLocal_parse (d := ⟨_, fds⟩) hk codec ours heap hpos hlt hfds, receivedIov_encodeIov,
    (encodeIov_reads codec theirs msg heap' hcodec hlt).parseData hversion]
  exact (splitObjects_fails _ fds _).map _

end Datagrams

variable {host codec control version sndbuf} {label : Label} {token : String} {now : Instant} {w : W}

/-- What holds after every step. -/
structure Inv (host : Host W) (codec : Codec) (control : Control) (version : Version) (label : Label)
    (token : String) (now : Instant) (w : W) (s : System W) : Prop where
  ran : journalRun (linux host codec control version) (start label token now w)
    (s.received.map Prod.snd) = some s.state
  queued : ∀ n, ∀ d ∈ (s.peers n).queue, Carries codec (s.peers n).version d
  compatible : ∀ e ∈ s.received, ∀ n msg, e.1 = .connection n → e.2.received = .ok msg →
    version.compatible (s.peers n).version = true
  closed : ∀ n, shut s.hub n = true → (s.peers n).queue = [] ∧
    ((s.peers n).held = true → ∀ ep ∈ s.state.1.endpoints, ¬ s.Over n ep)
  disconnected : ∀ n, (s.peers n).held = true → (s.peers n).disconnected = true → shut s.hub n = true

theorem Inv.whole {s : System W} (h : Inv host codec control version label token now w s) : Whole s := by
  have hended : ∀ n, (s.peers n).held = true → (s.peers n).disconnected = true → s.Ended n :=
    fun n hheld hd =>
      have hclosed := h.closed n (h.disconnected n hheld hd)
      ⟨hclosed.2 hheld, hclosed.1⟩
  exact ⟨fun n hn => (h.closed n hn).2, hended, fun n hs => hs.blocked (hended n hs.held hs.disconnected)⟩

theorem shut_iff {hub : IoHub} {n : Nat} :
    shut hub n = true ↔ n < hub.accepted ∧ ∀ p ∈ hub.localList, p.connection ≠ n := by
  simp [shut]

/-- A call after which `recv` goes on closes nothing. -/
theorem moved_pending {hub hub' : IoHub} {pc pc' : Pc} {answer : Answer EncodedMessage RawFd}
    (hm : Moved hub pc answer hub' (.pending pc')) :
    (∀ n, shut hub' n = shut hub n) ∧ ∀ r, answer ≠ .fromLocal r := by
  cases hm with
  | accepted rest fd _ _ =>
    refine ⟨fun n => ?_, by simp⟩
    rw [Bool.eq_iff_iff, shut_iff, shut_iff, List.forall_mem_append, List.forall_mem_singleton]
    simp only
    constructor
    · rintro ⟨hn, hold, hne⟩
      exact ⟨by omega, hold⟩
    · rintro ⟨hn, hold⟩
      exact ⟨by omega, hold, by omega⟩
  | _ => exact ⟨fun _ => rfl, by simp⟩

/-- A call with which `recv` returns closes the connection it could not read from. -/
theorem moved_returned {hub hub' : IoHub} {pc : Pc} {answer : Answer EncodedMessage RawFd}
    {source : Source} {r : Except (Error RawFd) EncodedMessage}
    (hm : Moved hub pc answer hub' (.returned source r)) :
    hub' = hub ∧ (∀ r, answer ≠ .fromLocal r) ∧ (∀ n, source ≠ .connection n) ∨
      ∃ ev rest p, pc = .draining (ev :: rest) ∧ hub.localList[place hub ev]? = some p ∧
        source = .connection p.connection ∧ answer = .fromLocal r ∧
        ((∃ msg, r = .ok msg) ∧ hub' = hub ∨
          (∃ e, r = .error e) ∧ hub' = { hub with localList := swapRemove hub.localList (place hub ev) }) := by
  cases hm with
  | message _ => exact Or.inl ⟨rfl, by simp, by simp⟩
  | timeout => exact Or.inl ⟨rfl, by simp, by simp⟩
  | received rest msg _ _ hp _ => exact Or.inr ⟨_, rest, _, rfl, hp, rfl, rfl, Or.inl ⟨⟨msg, rfl⟩, rfl⟩⟩
  | lost rest e _ _ hp _ => exact Or.inr ⟨_, rest, _, rfl, hp, rfl, rfl, Or.inr ⟨⟨e, rfl⟩, rfl⟩⟩

/-- No other connection is closed with it. -/
theorem shut_swapRemove {hub : IoHub} {i n : Nat} {p : Local} (hp : hub.localList[i]? = some p) :
    (shut hub n = true → shut { hub with localList := swapRemove hub.localList i } n = true) ∧
      (shut { hub with localList := swapRemove hub.localList i } n = true →
        shut hub n = true ∨ n = p.connection) := by
  simp only [shut_iff]
  refine ⟨fun h => ⟨h.1, fun q hq => h.2 q (mem_swapRemove hq)⟩, fun h => ?_⟩
  by_cases hn : n = p.connection
  · exact Or.inr hn
  · refine Or.inl ⟨h.1, fun q hq => ?_⟩
    obtain rfl | hq := List.mem_cons.mp ((swapRemove_perm hp).subset hq)
    · exact Ne.symm hn
    · exact h.2 q hq

/-- A peer does something: the controller does not. -/
theorem Inv.peer {s : System W} (h : Inv host codec control version label token now w s) (n : Nat)
    {c : Peer} (hversion : c.version = (s.peers n).version)
    (hheld : c.held = true → (s.peers n).held = true)
    (hqueue : ∀ d ∈ c.queue, Carries codec c.version d) (hclosed : shut s.hub n = true → c.queue = [])
    (hd : c.held = true → c.disconnected = true → shut s.hub n = true) :
    Inv host codec control version label token now w { s with peers := update s.peers n c } where
  ran := h.ran
  queued := (forall_update_iff s.peers fun _ c => ∀ d ∈ c.queue, Carries codec c.version d).mpr
    ⟨hqueue, fun m _ => h.queued m⟩
  compatible e he m msg hm hok := by
    have hold := h.compatible e he m msg hm hok
    simp only [update_apply]
    split
    · rename_i hmn
      rwa [hversion, ← hmn]
    · exact hold
  closed := (forall_update_iff s.peers fun m c => shut s.hub m = true → c.queue = [] ∧
      (c.held = true → ∀ ep ∈ s.state.1.endpoints, ¬ s.Over m ep)).mpr
    ⟨fun hn => ⟨hclosed hn, fun hc => (h.closed n hn).2 (hheld hc)⟩, fun m _ => h.closed m⟩
  disconnected := (forall_update_iff s.peers fun m c =>
      c.held = true → c.disconnected = true → shut s.hub m = true).mpr
    ⟨hd, fun m _ => h.disconnected m⟩

/-- At most some datagrams have been taken from the peer. -/
structure Drained (c c' : Peer) : Prop where
  version : c'.version = c.version
  held : c'.held = c.held
  disconnected : c'.disconnected = c.disconnected
  queue : c'.queue ⊆ c.queue

theorem served_drained (c : Peer) (answer : Answer EncodedMessage RawFd) :
    Drained c (c.served answer) := by
  unfold Peer.served
  split
  · exact ⟨rfl, rfl, rfl, (List.tail_sublist _).subset⟩
  · exact ⟨rfl, rfl, rfl, List.nil_subset _⟩
  · exact ⟨rfl, rfl, rfl, List.Subset.refl _⟩

/-- The controller goes round its loop: a peer may have lost what has not been read from it. -/
theorem Inv.iterate {s : System W} (h : Inv host codec control version label token now w s)
    {hub : IoHub} {pc : Pc} {source : Source} {it : Iteration EncodedMessage RawFd W}
    {state : Journal.State EncodedMessage RawFd W} {peers : Nat → Peer}
    (hit : iterate (journal (linux host codec control version)) s.state
      (numbered s.received.length it) = some state)
    (hpeers : ∀ n, Drained (s.peers n) (peers n))
    (hsource : ∀ n msg, source = .connection n → it.received = .ok msg →
      version.compatible (s.peers n).version = true ∧ shut hub n = false)
    (hmono : ∀ n, shut s.hub n = true → shut hub n = true)
    (hshut : ∀ n, shut hub n = true → shut s.hub n = true ∨ (peers n).queue = [] ∧
      ((s.peers n).held = true → ∀ ep ∈ s.state.1.endpoints, ¬ s.Over n ep)) :
    Inv host codec control version label token now w
      ⟨hub, pc, s.received ++ [(source, it)], state, peers⟩ := by
  have hbetween := journalRun_between h.ran
  have hends := iterate_endpoints hbetween hit
  refine ⟨?_, fun n d hd => ?_, fun e he n msg hn hok => ?_, fun n hn => ?_, fun n hheld hd => ?_⟩
  · simp only [List.map_append, List.map_singleton]
    rw [journalRun]
    rw [List.mapIdx_concat, run_concat, List.length_map]
    have hran := h.ran
    rw [journalRun] at hran
    rw [hran]
    exact hit
  · simp only [(hpeers n).version]
    exact h.queued n d ((hpeers n).queue hd)
  · simp only [(hpeers n).version]
    obtain he | he := List.mem_append.mp he
    · exact h.compatible e he n msg hn hok
    · cases List.mem_singleton.mp he
      exact (hsource n msg hn hok).1
  · have hold : (peers n).queue = [] ∧
        ((s.peers n).held = true → ∀ ep ∈ s.state.1.endpoints, ¬ s.Over n ep) := by
      obtain hs | hs := hshut n hn
      · obtain ⟨hempty, hends⟩ := h.closed n hs
        exact ⟨List.subset_nil.mp (hempty ▸ (hpeers n).queue), hends⟩
      · exact hs
    refine ⟨hold.1, fun hheld ep hep hover => ?_⟩
    rw [(hpeers n).held] at hheld
    obtain ⟨k, e, htag, he, hsrc⟩ := hover
    obtain hep | ⟨hlast, msg, hok⟩ := hends ep hep
    · -- the tag of an endpoint that was there before is the number of an earlier message
      obtain ⟨k', it', msg', htag', hr, -⟩ := (journalRun_sentOnly h.ran).endpoints ep hep
      obtain rfl : k = k' := Option.some.inj (htag.symm.trans htag')
      have hk : k < s.received.length := by simpa using hr.lt
      rw [List.getElem?_append_left hk] at he
      exact hold.2 hheld ep hep ⟨k, e, htag, he, hsrc⟩
    · obtain rfl : s.received.length = k := Option.some.inj (hlast.symm.trans htag)
      rw [List.getElem?_concat_length] at he
      cases he
      rw [(hsource n msg hsrc hok).2] at hn
      cases hn
  · rw [(hpeers n).held] at hheld
    rw [(hpeers n).disconnected] at hd
    exact hmono n (h.disconnected n hheld hd)

theorem served_eq {s : System W} {answer : Answer EncodedMessage RawFd}
    (h : ∀ r, answer ≠ .fromLocal r) : s.served answer = s.peers := by
  rw [System.served]
  split
  · unfold Peer.served
    split
    · exact absurd rfl (h _)
    · exact absurd rfl (h _)
    · exact update_eq_self _ _
  · rfl

theorem served_system (s : System W) (answer : Answer EncodedMessage RawFd) (n : Nat) :
    Drained (s.peers n) (s.served answer n) := by
  have hsame : ∀ c : Peer, Drained c c := fun c => ⟨rfl, rfl, rfl, List.Subset.refl _⟩
  cases hr : s.reading with
  | none =>
    simp only [System.served, hr]
    exact hsame _
  | some m =>
    simp only [System.served, hr, update_apply]
    split
    · rename_i hn
      rw [hn]
      exact served_drained _ answer
    · exact hsame _

/-- A message is only read from a compatible peer. -/
theorem Inv.read_ok (hk : host.kernel.Documented) {s : System W}
    (h : Inv host codec control version label token now w s) {n : Nat} {heap : Heap}
    {socket : Option Datagram} {msg : EncodedMessage} (hsocket : socket = (s.peers n).queue.head?)
    (hr : outcome (fromLocal host.kernel codec version heap socket) = some (.ok msg)) :
    version.compatible (s.peers n).version = true := by
  have hgot := outcome_ok.mp hr
  obtain ⟨d, rfl, -⟩ := fromLocal_ok hk hgot
  exact (h.queued n d (List.mem_of_mem_head? hsocket.symm)).compatible hk heap hgot

/-- A peer that is still there and has an endpoint is only given up for a datagram that does
not fit. -/
theorem Inv.read_error (hk : host.kernel.Documented) {s : System W}
    (h : Inv host codec control version label token now w s) {n : Nat} {heap : Heap}
    {socket : Option Datagram} {e : Error RawFd} (hsocket : socket = (s.peers n).queue.head?)
    (hsome : socket.isSome || !(s.peers n).held)
    (hfit : ∀ d, socket = some d → 4 < d.fds.length ∨ 2 ^ 32 ≤ d.bytes.length →
      (s.peers n).held = false ∨ ∀ ep ∈ s.state.1.endpoints, ¬ s.Over n ep)
    (hr : outcome (fromLocal host.kernel codec version heap socket) = some (.error e))
    (hheld : (s.peers n).held = true) : ∀ ep ∈ s.state.1.endpoints, ¬ s.Over n ep := by
  intro ep hep hover
  have hnot : ¬ ((s.peers n).held = false ∨ ∀ ep ∈ s.state.1.endpoints, ¬ s.Over n ep) := by
    rintro (hfalse | hnone)
    · rw [hheld] at hfalse
      cases hfalse
    · exact hnone ep hep hover
  obtain ⟨k, entry, htag, hentry, hsource⟩ := hover
  obtain ⟨k', it, msg, htag', ⟨hit, hmsg⟩, -⟩ := (journalRun_sentOnly h.ran).endpoints ep hep
  obtain rfl : k = k' := Option.some.inj (htag.symm.trans htag')
  rw [List.getElem?_map, hentry] at hit
  cases hit
  have hcompatible := h.compatible entry (List.mem_of_getElem? hentry) n msg hsource hmsg
  cases hd : socket with
  | none => simp [hd, hheld] at hsome
  | some d =>
    have hmem : d ∈ (s.peers n).queue := List.mem_of_mem_head? (hsocket.symm.trans hd)
    have hsmall : ¬ (4 < d.fds.length ∨ 2 ^ 32 ≤ d.bytes.length) := fun hlarge => hnot (hfit d hd hlarge)
    rw [hd] at hr
    exact ((h.queued n d hmem).fails hk heap hcompatible (by omega) (by omega)).outcome hr

theorem Inv.returned (hk : host.kernel.Documented) {s : System W} {i : Input W}
    (h : Inv host codec control version label token now w s)
    (hfit : Fitting codec sndbuf s (.recv i)) (hoffers : s.offers i.call = true)
    {answer : Answer EncodedMessage RawFd} (ha : i.call.answer host codec version = some answer)
    {hub : IoHub} {source : Source} {r : Except (Error RawFd) EncodedMessage}
    (hmoved : Moved s.hub s.pc answer hub (.returned source r))
    {state : Journal.State EncodedMessage RawFd W}
    (hit : Controller.iterate (journal (linux host codec control version)) s.state
      (numbered s.received.length ⟨i.interfere, r, i.now⟩) = some state) :
    Inv host codec control version label token now w
      ⟨hub, hub.start, s.received ++ [(source, ⟨i.interfere, r, i.now⟩)], state, s.served answer⟩ := by
  obtain ⟨rfl, hno, hsource⟩ | ⟨ev, rest, p, hpc, hp, rfl, rfl, hclosed⟩ := moved_returned hmoved
  · refine h.iterate hit (served_system s answer) (fun n _ hn _ => absurd hn (hsource n)) (fun _ => id)
      fun n hn => Or.inl hn
  · have hreading : s.reading = some p.connection := by
      simp only [System.reading, hpc, hp, Option.map_some]
    obtain ⟨heap, socket, hcall, hr⟩ := answer_fromLocal ha
    rw [hcall] at hoffers
    simp only [System.offers, hreading, Bool.and_eq_true, beq_iff_eq] at hoffers
    obtain ⟨hsocket, hsome⟩ := hoffers
    have hlisted : shut s.hub p.connection = false := by
      rw [Bool.eq_false_iff, Ne, shut_iff]
      exact fun hshut => hshut.2 p (List.mem_of_getElem? hp) rfl
    obtain ⟨⟨msg, rfl⟩, rfl⟩ | ⟨⟨e, rfl⟩, rfl⟩ := hclosed
    · refine h.iterate hit (served_system s _) (fun n _ hn _ => ?_) (fun _ => id) fun n hn => Or.inl hn
      cases hn
      exact ⟨h.read_ok hk hsocket hr, hlisted⟩
    · obtain hshut := fun n => shut_swapRemove (n := n) hp
      refine h.iterate hit (served_system s _) (fun n msg _ hok => by cases hok) (fun n => (hshut n).1)
        fun n hn => ((hshut n).2 hn).imp_right ?_
      rintro rfl
      refine ⟨?_, h.read_error hk hsocket hsome ?_ hr⟩
      · simp only [System.served, hreading, update_self, Peer.served]
      · exact fun d hd => hfit heap d p.connection (hd ▸ hcall) hreading

theorem recv_inv (hk : host.kernel.Documented) {s s' : System W} {i : Input W}
    (h : Inv host codec control version label token now w s)
    (hfit : Fitting codec sndbuf s (.recv i)) (hs : s.recv host codec control version i = some s') :
    Inv host codec control version label token now w s' := by
  rw [System.recv] at hs
  split at hs
  · rename_i hoffers
    obtain ⟨answer, ha, hs⟩ := Option.bind_eq_some_iff.mp hs
    obtain ⟨⟨hub, progress⟩, hstep, hs⟩ := Option.bind_eq_some_iff.mp hs
    have hmoved := step_moved hstep
    cases progress with
    | pending pc =>
      cases hs
      obtain ⟨hshut, hno⟩ := moved_pending hmoved
      rw [served_eq hno]
      exact ⟨h.ran, h.queued, h.compatible, fun n hn => h.closed n ((hshut n).symm.trans hn),
        fun n hheld hd => (hshut n).trans (h.disconnected n hheld hd)⟩
    | returned source r =>
      obtain ⟨state, hit, rfl⟩ := Option.map_eq_some_iff.mp hs
      exact h.returned hk hfit hoffers ha hmoved hit
  · cases hs

/-- A send that fails finds the connection closed, if the message fits. -/
theorem send_inv (hk : host.kernel.Documented) {s : System W} {n : Nat} {msg : Message} {heap : Heap}
    {f : RawFd → RawFd} {errno : Option Errno} {c : Peer}
    (h : Inv host codec control version label token now w s)
    (hcodec : Keeps codec (counted msg).selector)
    (hfit : Fitting codec sndbuf s (.send n msg heap f errno))
    (hs : (s.peers n).send host codec sndbuf (shut s.hub n) msg heap f errno = some c) :
    Inv host codec control version label token now w { s with peers := update s.peers n c } := by
  obtain ⟨hlen, hmany, hlimits, hsignal⟩ := hfit
  have hfailed : shut s.hub n = true → Inv host codec control version label token now w
      { s with peers := update s.peers n { s.peers n with disconnected := true } } := fun hshut =>
    h.peer n rfl id (h.queued n) (fun hn => (h.closed n hn).1) fun _ _ => hshut
  have hif : (if shut s.hub n = true then some { s.peers n with disconnected := true } else none) =
      some c → Inv host codec control version label token now w { s with peers := update s.peers n c } := by
    intro hc
    split at hc
    · rename_i hshut
      cases hc
      exact hfailed hshut
    · cases hc
  unfold Peer.send at hs
  simp only at hs
  split at hs
  · split at hs
    · cases hs
    · rename_i hopen
      obtain ⟨d, hd, rfl⟩ := Option.map_eq_some_iff.mp hs
      refine h.peer n rfl id (fun d' hd' => ?_) (fun hn => absurd hn hopen) (h.disconnected n)
      obtain hd' | hd' := List.mem_append.mp hd'
      · exact h.queued n d' hd'
      · cases List.mem_singleton.mp hd'
        obtain ⟨fds, -, rfl⟩ := Option.map_eq_some_iff.mp hd
        exact ⟨counted msg, heap, hcodec, rfl⟩
  · exact hif hs
  · exact hif hs
  · rw [if_neg (by omega)] at hs
    cases hs
  · have hread : transmit host.kernel f (intoEncoded codec (s.peers n).version (counted msg) heap) = some _ :=
      transmit_intoEncoded hk heap hmany
    obtain ⟨fds, hfds, -⟩ := Option.map_eq_some_iff.mp hread
    rw [hfds] at hs
    cases hs
  · cases hs
  · exact absurd rfl hlimits
  · exact absurd rfl hsignal

theorem step_inv (hk : host.kernel.Documented) {s s' : System W} {a : Action W}
    (h : Inv host codec control version label token now w s) (ha : Honest codec a)
    (hfit : Fitting codec sndbuf s a) (hs : step host codec control version sndbuf s a = some s') :
    Inv host codec control version label token now w s' := by
  cases a with
  | send n msg heap f errno =>
    simp only [step] at hs
    split at hs
    · obtain ⟨c, hc, rfl⟩ := Option.map_eq_some_iff.mp hs
      exact send_inv hk h ha hfit hc
    · cases hs
  | wait n =>
    cases hs
    exact h.peer n rfl id (h.queued n) (fun hn => (h.closed n hn).1) (h.disconnected n)
  | wake n =>
    cases hs
    exact h.peer n rfl id (h.queued n) (fun hn => (h.closed n hn).1) (h.disconnected n)
  | hangUp n =>
    cases hs
    exact h.peer n rfl (by simp) (h.queued n) (fun hn => (h.closed n hn).1) (by simp)
  | recv i => exact recv_inv hk h hfit hs

theorem boot_inv (listener waker : RawFd) (versions : Nat → Version) :
    Inv host codec control version label token now w (boot label token now w listener waker versions) :=
  ⟨rfl, by simp [boot], by simp [boot], by simp [boot, shut, forBusController], by simp [boot]⟩

section Controller

/-- What the bus controller is on its own. -/
def System.thread (s : System W) : Thread W := ⟨s.hub, s.pc, s.received, eraseState s.state⟩

def Action.input : Action W → Option (Input W)
  | .recv i => some i
  | _ => none

theorem recv_thread {s s' : System W} {i : Input W} (hs : s.recv host codec control version i = some s') :
    Bus.step host codec control version s.thread i = some s'.thread := by
  rw [System.recv] at hs
  split at hs
  · obtain ⟨answer, ha, hs⟩ := Option.bind_eq_some_iff.mp hs
    obtain ⟨⟨hub, progress⟩, hstep, hs⟩ := Option.bind_eq_some_iff.mp hs
    simp only [Bus.step, System.thread, ha, Option.bind_some, hstep]
    cases progress with
    | pending pc =>
      cases hs
      rfl
    | returned source r =>
      obtain ⟨state, hit, rfl⟩ := Option.map_eq_some_iff.mp hs
      simp only
      rw [iterate_erase _ s.received.length, hit]
      rfl
  · cases hs

/-- The peers only decide what can be read: the thread of the system is one of `Bus`, and what
holds of every run of such a thread holds here. -/
theorem run_thread {listener waker : RawFd} {versions : Nat → Version} {actions : List (Action W)}
    {s : System W}
    (h : run (step host codec control version sndbuf) (boot label token now w listener waker versions)
      actions = some s) :
    run (Bus.step host codec control version) (Bus.boot label token now w listener waker)
      (actions.filterMap Action.input) = some s.thread := by
  refine run_invariant (fun actions (s : System W) => run (Bus.step host codec control version)
    (Bus.boot label token now w listener waker) (actions.filterMap Action.input) = some s.thread) rfl
    (fun is s a s' _ hi hs => ?_) actions s h
  rw [List.filterMap_append, run_append, hi, Option.bind_some]
  cases a with
  | recv i =>
    have hthread := recv_thread hs
    exact (run_cons hthread []).trans rfl
  | send n msg heap f errno =>
    simp only [step] at hs
    split at hs
    · obtain ⟨c, -, rfl⟩ := Option.map_eq_some_iff.mp hs
      rfl
    · cases hs
  | _ =>
    cases hs
    rfl

end Controller

/-- No endpoint is half open, as long as what is sent fits. -/
theorem no_half_open {listener waker : RawFd} {versions : Nat → Version} {actions : List (Action W)}
    {s : System W} (hk : host.kernel.Documented) (honest : ∀ a ∈ actions, Honest codec a)
    (hfit : Along (step host codec control version sndbuf) (Fitting codec sndbuf)
      (boot label token now w listener waker versions) actions)
    (h : run (step host codec control version sndbuf) (boot label token now w listener waker versions)
      actions = some s) : Whole s :=
  (along_invariant (Inv host codec control version label token now w)
    (fun _ _ _ hi hP hs => step_inv hk hi hP.1 hP.2 hs) (boot_inv listener waker versions)
    (hfit.and honest) h).whole

section Example

open Reference Relay PlainHost Authentication

def calls (calls : List Call) : List (Action (List RawFd)) := calls.map fun call => .recv ⟨call, id, .ofNanos 0⟩

/-- A peer sends a message, and the controller reads it. -/
def passes (n : Nat) (fd : RawFd) (version : Version) (msg : Message) : List (Action (List RawFd)) :=
  .send n msg zeroHeap id none :: calls [.tryRecv .empty, .wait [fd], .fromLocal zeroHeap
    (some ⟨(intoEncoded requestCodec version msg zeroHeap).iovData, msg.attachments⟩)]

def plainSystem (versions : Nat → Version) (actions : List (Action (List RawFd))) :
    Option (System (List RawFd)) :=
  run (step plainHost requestCodec plainControl ⟨0, 8, 5⟩ 212960)
    (boot ⟨["c"]⟩ "token" (.ofNanos 0) [] 3 4 versions) actions

/-- The first peer registers. The second has an older version and is given up. -/
def registersAndOlder : List (Action (List RawFd)) :=
  calls (connects 9) ++ passes 0 9 ⟨0, 8, 5⟩ requestMessage ++ calls (connects 10) ++
    passes 1 10 ⟨0, 7, 0⟩ requestMessage ++ [.send 1 (withObjects []) zeroHeap id (some .epipe)]

def oneOlder (n : Nat) : Version := if n = 1 then ⟨0, 7, 0⟩ else ⟨0, 8, 5⟩

theorem fitting_passes {n : Nat} {fd : RawFd} {version : Version} {msg : Message}
    (hfew : msg.attachments.length ≤ 4)
    (hsent : 12 + align4 (requestCodec.encode (counted msg).selector).length +
      align4 msg.payload.length ≤ 212960)
    (hread : 12 + align4 (requestCodec.encode msg.selector).length + align4 msg.payload.length < 2 ^ 32) :
    ∀ a ∈ passes n fd version msg, ∀ s, Fitting requestCodec 212960 s a := by
  simp only [passes, calls, List.map_cons, List.map_nil, List.forall_mem_cons, Fitting]
  have hlen : ∀ v (msg : Message), (intoEncoded requestCodec v msg zeroHeap).iovData.length =
      12 + align4 (requestCodec.encode msg.selector).length + align4 msg.payload.length :=
    fun v msg => length_encodeIov requestCodec v msg zeroHeap.iov
  refine ⟨fun s => ⟨?_, by omega, by simp, by simp⟩, by simp, by simp, ?_, by simp⟩
  · rw [hlen]
    exact hsent
  · rintro s heap d m ⟨⟩ - (hmany | hlarge)
    · exact absurd hmany (by simpa using hfew)
    · rw [hlen] at hlarge
      exact absurd hlarge (by omega)

theorem fitting_connects (fd : RawFd) :
    ∀ a ∈ calls (connects fd), ∀ s, Fitting requestCodec 212960 s a := by
  simp [calls, connects, Fitting]

theorem no_half_open_older :
    ∃ s, plainSystem oneOlder registersAndOlder = some s ∧ shut s.hub 1 = true ∧
      (s.peers 1).disconnected = true ∧ Whole s := by
  have hrun : (plainSystem oneOlder registersAndOlder).map
      (fun s => (shut s.hub 1, (s.peers 1).disconnected)) = some (true, true) := by decide
  obtain ⟨s, hs, hend⟩ := Option.map_eq_some_iff.mp hrun
  obtain ⟨hshut, hd⟩ := Prod.mk.inj hend
  refine ⟨s, hs, hshut, hd, no_half_open (reference_documented _) ?_ (along_of_forall ?_ _) hs⟩
  · simp only [registersAndOlder, calls, passes, connects, List.map_cons, List.map_nil, List.cons_append,
      List.nil_append, List.forall_mem_cons, Honest, true_and]
    exact ⟨rfl, rfl, rfl, by simp⟩
  · simp only [registersAndOlder, List.forall_mem_append, List.forall_mem_singleton]
    refine ⟨⟨⟨⟨fitting_connects 9, fitting_passes ?_ ?_ ?_⟩, fitting_connects 10⟩,
      fitting_passes ?_ ?_ ?_⟩, fun s => ⟨?_, by simp [withObjects, Message.attachments], by simp, by simp⟩⟩
    all_goals first
      | decide
      | exact (length_encodeIov requestCodec _ _ zeroHeap.iov).trans_le (by decide)

/-- A peer registers, waits for messages, and sends five objects. -/
def fiveObjects : List (Action (List RawFd)) :=
  calls (connects 9) ++ passes 0 9 ⟨0, 8, 5⟩ requestMessage ++ [.wait 0] ++
    passes 0 9 ⟨0, 8, 5⟩ (withObjects [3, 4, 5, 6, 7]) ++ [.send 0 (withObjects []) zeroHeap id (some .epipe)]

/-- The controller closes the connection and keeps the endpoint: nothing wakes the peer. -/
theorem five_objects_half_open :
    ∃ s, plainSystem (fun _ => ⟨0, 8, 5⟩) fiveObjects = some s ∧
      (∀ a ∈ fiveObjects, Honest requestCodec a) ∧ shut s.hub 0 = true ∧ (s.peers 0).held = true ∧
      (∃ ep ∈ s.state.1.endpoints, s.Over 0 ep) ∧ s.Stuck 0 ∧ ¬ Whole s := by
  have hrun : (plainSystem (fun _ => ⟨0, 8, 5⟩) fiveObjects).map (fun s => (shut s.hub 0, (s.peers 0).held,
      (s.peers 0).disconnected, (s.peers 0).waiting, s.state.1.endpoints.map fun ep => ep.remote.tag,
      s.received.map Prod.fst)) =
        some (true, true, true, true, [some 0], [.connection 0, .connection 0]) := rfl
  obtain ⟨s, hs, hend⟩ := Option.map_eq_some_iff.mp hrun
  simp only [Prod.mk.injEq] at hend
  obtain ⟨hshut, hheld, hd, hwaiting, hends, hreceived⟩ := hend
  obtain ⟨ep, hep, htag⟩ : ∃ ep ∈ s.state.1.endpoints, ep.remote.tag = some 0 :=
    List.mem_map.mp (hends ▸ List.mem_singleton_self (some 0))
  have hfirst : (s.received.map Prod.fst)[0]? = some (.connection 0) := by rw [hreceived]; rfl
  rw [List.getElem?_map] at hfirst
  obtain ⟨e, he, hsource⟩ := Option.map_eq_some_iff.mp hfirst
  have hover : s.Over 0 ep := ⟨0, e, htag, he, hsource⟩
  refine ⟨s, hs, ?_, hshut, hheld, ⟨ep, hep, hover⟩, ⟨hheld, hd, hwaiting, fun h => h.endpoints ep hep hover⟩,
    fun h => h.unregistered 0 hshut hheld ep hep hover⟩
  simp only [fiveObjects, calls, passes, connects, List.map_cons, List.map_nil, List.cons_append,
    List.nil_append, List.forall_mem_cons, Honest, true_and]
  exact ⟨rfl, rfl, rfl, by simp⟩

end Example

end Ipmb.HalfOpen
