import Ipmb.Controller

namespace Ipmb.Journal

open Messages Time Backend Retain Run Controller

variable {M R W : Type}

/-- A value with the number of the received message it came with, if any. -/
structure Tagged (α : Type) where
  tag : Option Nat
  val : α

/-- A call of `send`, and what it returned. -/
structure Attempt (M R : Type) where
  message : Tagged M
  remote : Tagged R
  outcome : Except (Error R) Unit

def Attempt.accepted (a : Attempt M R) : Bool := a.outcome.isOk

/-- The platform `p`, keeping a journal of its sends. A remote is tagged with the
message it was extracted from: it is the `Remote` value of one registration, which its entry in
`endpoints` owns. The `==` of remotes cannot tell registrations apart, for it compares
descriptors, which are used again. -/
def journal (p : Platform M R W) : Platform (Tagged M) (Tagged R) (W × List (Attempt M R)) where
  version := p.version
  selector msg := p.selector msg.val
  payloadData msg := p.payloadData msg.val
  extractRemote msg :=
    ((p.extractRemote msg.val).1.map (⟨msg.tag, ·⟩), ⟨msg.tag, (p.extractRemote msg.val).2⟩)
  sameRemote r s := p.sameRemote r.val s.val
  send w msg remote :=
    ((p.send w.1 msg.val remote.val).1.mapError (Error.map (⟨none, ·⟩)),
      (p.send w.1 msg.val remote.val).2,
      w.2 ++ [⟨msg, remote, (p.send w.1 msg.val remote.val).1⟩])
  isDead w remote := ((p.isDead w.1 remote.val).1, (p.isDead w.1 remote.val).2, w.2)
  encodeAck w selector ack :=
    (⟨none, (p.encodeAck w.1 selector ack).1⟩, (p.encodeAck w.1 selector ack).2, w.2)
  decodeConnect := p.decodeConnect
  newEndpointID w := ((p.newEndpointID w.1).1, (p.newEndpointID w.1).2, w.2)
  receiverDropped w := ((p.receiverDropped w.1).1, (p.receiverDropped w.1).2, w.2)
  platformMessage uuid :=
    (p.platformMessage uuid).map (fun handle w msg => (handle w.1 msg.val, w.2))

abbrev State (M R W : Type) := BusController (Tagged M) (Tagged R) × W × List (Attempt M R)

/-- The `n`-th iteration of a run, its message tagged. -/
def numbered (n : Nat) (it : Iteration M R W) :
    Iteration (Tagged M) (Tagged R) (W × List (Attempt M R)) where
  interfere w := (it.interfere w.1, w.2)
  received :=
    match it.received with
    | .ok msg => .ok ⟨some n, msg⟩
    | .error e => .error (e.map (⟨none, ·⟩))
  now := it.now

def start (label : Labels.Label) (token : String) (now : Instant) (w : W) : State M R W :=
  (new label token now, w, [])

/-- The state the journalled controller reaches over a list of iterations. -/
def journalRun (p : Platform M R W) (s : State M R W) (its : List (Iteration M R W)) :
    Option (State M R W) :=
  run (iterate (journal p)) s (its.mapIdx numbered)

theorem journalRun_concat {p : Platform M R W} {s t : State M R W} {its : List (Iteration M R W)}
    {it : Iteration M R W} (h : journalRun p s (its ++ [it]) = some t) :
    ∃ u, journalRun p s its = some u ∧ iterate (journal p) u (numbered its.length it) = some t := by
  rw [journalRun] at h
  rw [List.mapIdx_concat] at h
  exact run_concat_some h

def eraseEndpoint (ep : Endpoint (Tagged R)) : Endpoint R := ⟨ep.id, ep.label, ep.remote.val⟩

def eraseBuffer (b : List (Instant × Tagged M)) : List (Instant × M) :=
  b.map (fun e => (e.1, e.2.val))

def erase (c : BusController (Tagged M) (Tagged R)) : BusController M R where
  label := c.label
  token := c.token
  sender := ⟨c.sender.queue.map Tagged.val, c.sender.receiverAlive⟩
  endpoints := c.endpoints.map eraseEndpoint
  messageBuffer := eraseBuffer c.messageBuffer
  messageBufferSwap := eraseBuffer c.messageBufferSwap
  lastDetectReachable := c.lastDetectReachable

def eraseState (s : State M R W) : BusController M R × W := (erase s.1, s.2.1)

variable (p : Platform M R W)

@[simp] theorem journal_version : (journal p).version = p.version := rfl

@[simp] theorem journal_selector (msg : Tagged M) :
    (journal p).selector msg = p.selector msg.val := rfl

@[simp] theorem journal_payloadData (msg : Tagged M) :
    (journal p).payloadData msg = p.payloadData msg.val := rfl

@[simp] theorem journal_extractRemote (msg : Tagged M) :
    (journal p).extractRemote msg = ((p.extractRemote msg.val).1.map (⟨msg.tag, ·⟩),
      ⟨msg.tag, (p.extractRemote msg.val).2⟩) := rfl

@[simp] theorem journal_sameRemote (r s : Tagged R) :
    (journal p).sameRemote r s = p.sameRemote r.val s.val := rfl

@[simp] theorem journal_send (w : W × List (Attempt M R)) (msg : Tagged M) (remote : Tagged R) :
    (journal p).send w msg remote =
      ((p.send w.1 msg.val remote.val).1.mapError (Error.map (⟨none, ·⟩)),
        (p.send w.1 msg.val remote.val).2,
        w.2 ++ [⟨msg, remote, (p.send w.1 msg.val remote.val).1⟩]) := rfl

@[simp] theorem journal_isDead (w : W × List (Attempt M R)) (remote : Tagged R) :
    (journal p).isDead w remote =
      ((p.isDead w.1 remote.val).1, (p.isDead w.1 remote.val).2, w.2) := rfl

@[simp] theorem journal_encodeAck (w : W × List (Attempt M R)) (selector : Selector)
    (ack : ConnectMessageAck) :
    (journal p).encodeAck w selector ack =
      (⟨none, (p.encodeAck w.1 selector ack).1⟩, (p.encodeAck w.1 selector ack).2, w.2) := rfl

@[simp] theorem journal_decodeConnect (data : List UInt8) :
    (journal p).decodeConnect data = p.decodeConnect data := rfl

@[simp] theorem journal_newEndpointID (w : W × List (Attempt M R)) :
    (journal p).newEndpointID w = ((p.newEndpointID w.1).1, (p.newEndpointID w.1).2, w.2) := rfl

@[simp] theorem journal_receiverDropped (w : W × List (Attempt M R)) :
    (journal p).receiverDropped w =
      ((p.receiverDropped w.1).1, (p.receiverDropped w.1).2, w.2) := rfl

@[simp] theorem journal_platformMessage (uuid : Uuid) :
    (journal p).platformMessage uuid =
      (p.platformMessage uuid).map (fun handle w msg => (handle w.1 msg.val, w.2)) := rfl

theorem journal_routed (msg : Tagged M) : (journal p).Routed msg ↔ p.Routed msg.val := by
  simp [Platform.Routed]

theorem reply_erase (w : W × List (Attempt M R)) (selector : Selector) (ack : ConnectMessageAck)
    (remote : Tagged R) :
    (reply (journal p) w selector ack remote).1.isOk = (reply p w.1 selector ack remote.val).1.isOk ∧
      (reply (journal p) w selector ack remote).2.1 = (reply p w.1 selector ack remote.val).2 := by
  refine ⟨?_, rfl⟩
  simp only [reply, journal_encodeAck, journal_send]
  cases (p.send (p.encodeAck w.1 selector ack).2 (p.encodeAck w.1 selector ack).1 remote.val).1 <;> rfl

theorem tryEndpoint_erase (msg : Tagged M) (ep : Endpoint (Tagged R)) (b : Bool)
    (w : W × List (Attempt M R)) :
    tryEndpoint p msg.val (eraseEndpoint ep) (b, w.1) =
      Prod.map id (Prod.map id Prod.fst) (tryEndpoint (journal p) msg ep (b, w)) := by
  unfold tryEndpoint
  simp only [journal_selector, journal_send, eraseEndpoint]
  by_cases hr : (b && (p.selector msg.val).mode == .unicast) = true
  · simp only [hr, if_true, Prod.map, id]
  · by_cases hv : (p.selector msg.val).labelOp.validate ep.label = true
    · simp only [hr, hv, if_true, if_false, Bool.false_eq_true]
      obtain ⟨e | u, w'⟩ := p.send w.1 msg.val ep.remote.val
      · cases e <;> rfl
      · rfl
    · simp only [hr, hv, if_false, Bool.false_eq_true, Prod.map, id]

theorem endpointConnect_erase (c : BusController (Tagged M) (Tagged R))
    (w : W × List (Attempt M R)) (msg : Tagged M) :
    endpointConnect p (erase c) w.1 msg.val =
      Prod.map id eraseState (endpointConnect (journal p) c w msg) := by
  unfold endpointConnect
  rcases hx : p.extractRemote msg.val with ⟨_ | remote, msg'⟩
  · simp only [journal_extractRemote, hx, Option.map_none]
    rfl
  · simp only [journal_extractRemote, hx, Option.map_some, journal_selector, journal_decodeConnect,
      journal_payloadData, journal_version, journal_newEndpointID]
    cases p.decodeConnect (p.payloadData msg') with
    | none => rfl
    | some payload =>
      by_cases hv : payload.version.compatible p.version = true
      · by_cases ht : payload.token = c.token
        · simp only [hv, ht, erase, Bool.not_true, Bool.false_eq_true, ne_eq, not_true, if_false]
          simp only [reply, journal_encodeAck, journal_send]
          obtain ⟨e | u, w'⟩ := p.send _ _ remote
          · rfl
          · simp only [Except.mapError, List.any_map, Function.comp_def, eraseEndpoint,
              journal_sameRemote]
            by_cases hany : c.endpoints.any (fun ep => ep.label == payload.label &&
              p.sameRemote ep.remote.val remote) = true
            · simp only [hany, if_true]
              rfl
            · simp only [hany, Bool.false_eq_true, if_false, Prod.map, id, eraseState, erase,
                List.map_append, List.map_singleton]
              rfl
        · simp only [hv, ht, erase, Bool.not_true, Bool.false_eq_true, ne_eq, not_false_iff, if_true,
            if_false]
          rfl
      · simp only [hv, Bool.not_false, if_true]
        rfl

theorem offerLocal_erase (c : BusController (Tagged M) (Tagged R)) (b : Bool)
    (w : W × List (Attempt M R)) (msg : Tagged M) :
    offerLocal p (erase c) b w.1 msg.val =
      Prod.map (Option.map Tagged.val) eraseState (offerLocal (journal p) c b w msg) := by
  unfold offerLocal
  simp only [journal_selector, journal_receiverDropped]
  by_cases hl : ((!b || (p.selector msg.val).mode == .multicast) &&
      (p.selector msg.val).labelOp.validate c.label) = true
  · simp only [hl, if_true, erase, Sender.send]
    by_cases ha : (c.sender.receiverAlive && !(p.receiverDropped w.1).1) = true
    · simp [ha, eraseState, erase]
    · cases b <;> simp [ha, eraseState, erase]
  · simp only [hl, erase]
    cases b <;> simp [eraseState, erase]

theorem route_erase (c : BusController (Tagged M) (Tagged R)) (w : W × List (Attempt M R))
    (msg : Tagged M) :
    route p (erase c) w.1 msg.val =
      Prod.map (Option.map Tagged.val) eraseState (route (journal p) c w msg) := by
  obtain ⟨hk, hs⟩ := retain_simulation (tryEndpoint (journal p) msg) (tryEndpoint p msg.val)
    eraseEndpoint (fun s t => t = (s.1, s.2.1))
    (by
      rintro ep ⟨b, v⟩ t rfl
      rw [tryEndpoint_erase]
      exact ⟨rfl, rfl⟩)
    c.endpoints (false, w) (false, w.1) rfl
  have ho := offerLocal_erase p
    { c with endpoints := (retain (tryEndpoint (journal p) msg) c.endpoints (false, w)).1 }
    (retain (tryEndpoint (journal p) msg) c.endpoints (false, w)).2.1
    (retain (tryEndpoint (journal p) msg) c.endpoints (false, w)).2.2 msg
  simp only [route, erase, hk] at ho ⊢
  rw [hs, ho]

theorem handleMessage_erase (c : BusController (Tagged M) (Tagged R))
    (w : W × List (Attempt M R)) (msg : Tagged M) :
    handleMessage p (erase c) w.1 msg.val =
      Prod.map (Prod.map (Option.map Tagged.val) id) eraseState (handleMessage (journal p) c w msg) := by
  unfold handleMessage
  by_cases hc : (p.selector msg.val).uuid = ConnectMessage.uuid
  · simp only [journal_selector, hc, if_true]
    rw [endpointConnect_erase]
    rfl
  · simp only [journal_selector, journal_platformMessage, hc, if_false]
    cases p.platformMessage (p.selector msg.val).uuid with
    | some handle => rfl
    | none =>
      rw [route_erase]
      rfl

theorem flushOne_erase (now : Instant) (s : State M R W) (entry : Instant × Tagged M) :
    flushOne p now (eraseState s) (entry.1, entry.2.val) =
      eraseState (flushOne (journal p) now s entry) := by
  have hh := handleMessage_erase p s.1 s.2 entry.2
  unfold flushOne
  simp only [eraseState] at hh ⊢
  rw [hh]
  cases hr : (handleMessage (journal p) s.1 s.2 entry.2).1.1 with
  | none => simp only [Prod.map, hr, Option.map_none, eraseState]
  | some remain =>
    simp only [Prod.map, hr, Option.map_some]
    by_cases he : entry.1 > now
    · simp [he, erase, eraseState, eraseBuffer]
    · simp [he, eraseState]

theorem flush_erase (now : Instant) (s : State M R W) :
    flush p now (eraseState s) = eraseState (flush (journal p) now s) := by
  have hfold : ∀ (b : List (Instant × Tagged M)) (u : State M R W),
      (eraseBuffer b).foldl (flushOne p now) (eraseState u) =
        eraseState (b.foldl (flushOne (journal p) now) u) := by
    intro b
    induction b with
    | nil => exact fun u => rfl
    | cons entry b ih =>
      intro u
      have hc : eraseBuffer (entry :: b) = (entry.1, entry.2.val) :: eraseBuffer b := rfl
      rw [hc, List.foldl_cons, flushOne_erase, ih, List.foldl_cons]
  have h := hfold s.1.messageBuffer ({ s.1 with messageBuffer := [] }, s.2)
  have hs : eraseState ({ s.1 with messageBuffer := [] }, s.2) =
      ({ (eraseState s).1 with messageBuffer := [] }, (eraseState s).2) := rfl
  have hb : (eraseState s).1.messageBuffer = eraseBuffer s.1.messageBuffer := rfl
  rw [flush]
  rw [hb, ← hs, h]
  rfl

theorem detectReachable_erase (now : Instant) (s : State M R W) :
    detectReachable p now (eraseState s) = eraseState (detectReachable (journal p) now s) := by
  unfold detectReachable
  by_cases ht : now.since s.1.lastDetectReachable > 30 * nanosPerSec
  · obtain ⟨hk, hs⟩ := retain_simulation
      (fun ep w => (!((journal p).isDead w ep.remote).1, ((journal p).isDead w ep.remote).2))
      (fun ep w => (!(p.isDead w ep.remote).1, (p.isDead w ep.remote).2))
      eraseEndpoint (fun v w => w = v.1)
      (by
        rintro ep v w rfl
        exact ⟨rfl, rfl⟩)
      s.1.endpoints s.2 s.2.1 rfl
    simp only [eraseState, erase, ht, if_true] at hk hs ⊢
    rw [← hk, hs]
  · simp only [eraseState, erase, ht, if_false]

theorem maintain_erase (now : Instant) (s : State M R W) :
    maintain now (eraseState s) = eraseState (maintain now s) := by
  simp [maintain, eraseState, erase, eraseBuffer, List.filter_map, Function.comp_def]

theorem settle_erase (now : Instant) (remain : Option (Tagged M)) (connected : Bool)
    (s : State M R W) :
    settle p now (remain.map Tagged.val) connected (eraseState s) =
      (settle (journal p) now remain connected s).map eraseState := by
  cases remain with
  | none =>
    have he : (eraseState s).1.messageBuffer.isEmpty = s.1.messageBuffer.isEmpty := by
      simp [eraseState, erase, eraseBuffer]
    simp only [settle, Option.map_none, he, Option.map_some]
    split
    · rw [flush_erase]
    · rfl
  | some remain =>
    simp only [settle, Option.map_some, journal_selector]
    by_cases ht : (p.selector remain.val).ttl.isZero = true
    · simp only [ht, if_true, Option.map_some]
    · simp only [ht, Bool.false_eq_true, if_false, Option.map_map]
      congr 1
      funext expire
      simp [eraseState, erase, eraseBuffer]

theorem handle_erase (now : Instant) (s : State M R W) (msg : Tagged M) :
    handle p now (erase s.1) s.2.1 msg.val =
      (handle (journal p) now s.1 s.2 msg).map eraseState := by
  have hh := handleMessage_erase p s.1 s.2 msg
  unfold handle
  rw [hh]
  simp only [Prod.map, id]
  rw [settle_erase, Option.map_map, Option.map_map]
  congr 1
  funext u
  simp only [Function.comp_def]
  rw [detectReachable_erase, maintain_erase]

theorem iterate_erase (n : Nat) (s : State M R W) (it : Iteration M R W) :
    iterate p (eraseState s) it = (iterate (journal p) s (numbered n it)).map eraseState := by
  rw [iterate]
  rcases hr : it.received with e | msg
  · cases e with
    | versionMismatch v remote =>
      cases remote with
      | none => simp only [numbered, hr, Error.map, Option.map_none]; rfl
      | some remote =>
        simp only [numbered, hr, Error.map, Option.map_some, eraseState]
        rfl
    | _ => simp only [numbered, hr, Error.map]; rfl
  · simp only [numbered, hr]
    exact handle_erase p it.now (s.1, it.interfere s.2.1, s.2.2) ⟨some n, msg⟩

/-- The journal only observes: erasing it from a run of the journalled controller
gives the run of the controller itself. -/
theorem journalRun_erase (s : State M R W) (its : List (Iteration M R W)) :
    run (iterate p) (eraseState s) its = (journalRun p s its).map eraseState :=
  run_map eraseState numbered (iterate_erase p) s its

variable {p}

/-- Every run of the controller is the erasure of a journalled one. -/
theorem exists_journalRun {label : Labels.Label} {token : String} {now : Instant} {w : W}
    {its : List (Iteration M R W)} {t : BusController M R × W}
    (h : run (iterate p) (new label token now, w) its = some t) :
    ∃ s, journalRun p (start label token now w) its = some s ∧ eraseState s = t := by
  have herase := journalRun_erase p (start label token now w) its
  have hstart : eraseState (start label token now w : State M R W) = (new label token now, w) := rfl
  rw [hstart, h] at herase
  exact Option.map_eq_some_iff.mp herase.symm

end Ipmb.Journal
