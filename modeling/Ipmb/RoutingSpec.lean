import Ipmb.PlainHost
import Ipmb.Turns

namespace Ipmb.RoutingSpec

open Messages Buffers Encoding Reference Backend Retain Controller Routing Linux Relay PlainHost

variable {M R W : Type}

/-- What becomes of an endpoint when a message is routed: it is not tried, or it is and
accepts the message or answers `Disconnect`. -/
inductive Visit where
  | passed
  | accepted
  | disconnected
deriving DecidableEq

/-- The endpoint table, with what becomes of each entry. -/
abbrev Transcript (R : Type) := List (Endpoint R × Visit)

variable (p : Platform M R W) (msg : M)

/-- The endpoint is sent the message if it is tried, and answers so. -/
def Answer (w : W) (ep : Endpoint R) (visit : Visit) (w' : W) : Prop :=
  match visit with
  | .passed => w' = w
  | .accepted => p.send w msg ep.remote = (.ok (), w')
  | .disconnected => p.send w msg ep.remote = (.error .disconnect, w')

/-- The endpoints are sent the message one after the other. -/
def Answered : W → Transcript R → W → Prop
  | w, [], w' => w' = w
  | w, x :: t, w' => ∃ w₁, Answer p msg w x.1 x.2 w₁ ∧ Answered w₁ t w'

/-- The local channel is used if the controller's label satisfies `label_op`, for a unicast
message only if no endpoint has accepted it. -/
def Local (c : BusController M R) (t : Transcript R) : Prop :=
  matching p msg c.label = true ∧
    ((p.selector msg).mode = .multicast ∨ ∀ x ∈ t, x.2 ≠ .accepted)

/-- Some destination accepts the message; `w` is the world when the endpoints have been tried. -/
def Taken (c : BusController M R) (t : Transcript R) (w : W) : Prop :=
  (∃ x ∈ t, x.2 = .accepted) ∨
    Local p msg c t ∧ (c.sender.send (p.receiverDropped w).1 msg).1 = .ok ()

/-- What `handle_message` is to do with a message that is routed. -/
structure Specified (c : BusController M R) (w : W) (t : Transcript R) (w' : W)
    (r : (Option M × Bool) × BusController M R × W) : Prop where
  order : t.map Prod.fst = c.endpoints
  unicast : (p.selector msg).mode = .unicast → ∀ pre x post, t = pre ++ x :: post →
    (x.2 ≠ .passed ↔ matching p msg x.1.label = true ∧ ∀ y ∈ pre, y.2 ≠ .accepted)
  multicast : (p.selector msg).mode = .multicast → ∀ x ∈ t,
    (x.2 ≠ .passed ↔ matching p msg x.1.label = true)
  answered : Answered p msg w t w'
  table : r.2.1.endpoints = (t.filter fun x => x.2 ≠ .disconnected).map Prod.fst
  channel : Local p msg c t →
    r.2.1.sender = (c.sender.send (p.receiverDropped w').1 msg).2 ∧ r.2.2 = (p.receiverDropped w').2
  noChannel : ¬ Local p msg c t → r.2.1.sender = c.sender ∧ r.2.2 = w'
  frame : r.2.1 = { c with endpoints := r.2.1.endpoints, sender := r.2.1.sender }
  remain : ¬ Taken p msg c t w' → r.1 = (some msg, false)
  taken : Taken p msg c t w' → r.1 = (none, false)

/-- Who is tried, when `routed` says whether somebody has accepted the message before. -/
def Tried (routed : Bool) (t : Transcript R) : Prop :=
  ∀ pre x post, t = pre ++ x :: post → (x.2 ≠ .passed ↔ matching p msg x.1.label = true ∧
    ((p.selector msg).mode = .multicast ∨ routed = false ∧ ∀ y ∈ pre, y.2 ≠ .accepted))

variable {p msg}

theorem tried_nil (routed : Bool) : Tried p msg routed [] := by
  intro pre x post h
  simp at h

theorem tried_cons {routed : Bool} {x : Endpoint R × Visit} {t : Transcript R} :
    Tried p msg routed (x :: t) ↔
      (x.2 ≠ .passed ↔ matching p msg x.1.label = true ∧
        ((p.selector msg).mode = .multicast ∨ routed = false)) ∧
      Tried p msg (routed || x.2 == .accepted) t := by
  have hflag : ∀ pre : Transcript R, ((routed || x.2 == .accepted) = false ∧ ∀ y ∈ pre, y.2 ≠ .accepted) ↔
      (routed = false ∧ ∀ y ∈ x :: pre, y.2 ≠ .accepted) := by
    intro pre
    rw [List.forall_mem_cons, Bool.or_eq_false_iff, beq_eq_false_iff_ne, and_assoc]
  constructor
  · intro h
    refine ⟨by simpa using h [] x t rfl, fun pre y post ht => ?_⟩
    rw [hflag]
    exact h (x :: pre) y post (by rw [ht, List.cons_append])
  · rintro ⟨hx, ht⟩ pre y post heq
    cases pre with
    | nil =>
      obtain ⟨rfl, rfl⟩ := List.cons.inj heq
      simpa using hx
    | cons z pre =>
      obtain ⟨rfl, rfl⟩ := List.cons.inj heq
      rw [← hflag]
      exact ht pre y post rfl

theorem tryEndpoint_answer {ep : Endpoint R} {visit : Visit} {routed : Bool} {w w' : W}
    (ha : Answer p msg w ep visit w')
    (ht : visit ≠ .passed ↔ matching p msg ep.label = true ∧
      ((p.selector msg).mode = .multicast ∨ routed = false)) :
    tryEndpoint p msg ep (routed, w) =
      (visit != .disconnected, routed || visit == .accepted, w') := by
  have hoffered : offered p msg ep routed = true ↔ visit ≠ .passed := by
    rw [ht, offered, Bool.and_eq_true, and_comm]
    cases (p.selector msg).mode <;> cases routed <;> simp
  cases visit with
  | passed =>
    cases ha
    rw [tryEndpoint_passed (Bool.eq_false_iff.mpr (hoffered.not.mpr (by simp)))]
    simp
  | accepted =>
    have hsend : p.send w msg ep.remote = (.ok (), w') := ha
    rw [tryEndpoint_offered (hoffered.mpr (by simp)), hsend]
    simp
  | disconnected =>
    have hsend : p.send w msg ep.remote = (.error .disconnect, w') := ha
    rw [tryEndpoint_offered (hoffered.mpr (by simp)), hsend]
    simp

/-- The loop does what the transcript says. -/
theorem retain_transcript {routed : Bool} {w w' : W} {t : Transcript R} (ht : Tried p msg routed t)
    (ha : Answered p msg w t w') :
    retain (tryEndpoint p msg) (t.map Prod.fst) (routed, w) =
      ((t.filter fun x => x.2 ≠ .disconnected).map Prod.fst,
        routed || t.any (fun x => x.2 == .accepted), w') := by
  induction t generalizing routed w with
  | nil =>
    cases ha
    simp
  | cons x t ih =>
    obtain ⟨w₁, hx, hrest⟩ := ha
    obtain ⟨htx, ht⟩ := tried_cons.mp ht
    rw [List.map_cons, retain_cons, tryEndpoint_answer hx htx, ih ht hrest]
    cases hv : x.2 <;> simp [hv, Bool.or_assoc]

/-- There is always something to say. -/
theorem exists_transcript (hp : p.SendsOrDisconnects) (eps : List (Endpoint R)) (routed : Bool) (w : W) :
    ∃ t w', t.map Prod.fst = eps ∧ Tried p msg routed t ∧ Answered p msg w t w' := by
  induction eps generalizing routed w with
  | nil => exact ⟨[], w, rfl, tried_nil routed, rfl⟩
  | cons ep eps ih =>
    obtain ⟨visit, w₁, hanswer, hvisit⟩ : ∃ visit w₁, Answer p msg w ep visit w₁ ∧
        (visit ≠ .passed ↔ matching p msg ep.label = true ∧
          ((p.selector msg).mode = .multicast ∨ routed = false)) := by
      by_cases htry : matching p msg ep.label = true ∧
          ((p.selector msg).mode = .multicast ∨ routed = false)
      · obtain hok | hlost := hp w msg ep.remote
        · exact ⟨.accepted, _, Prod.ext hok rfl, by simpa using htry⟩
        · exact ⟨.disconnected, _, Prod.ext hlost rfl, by simpa using htry⟩
      · exact ⟨.passed, w, rfl, by simpa using htry⟩
    obtain ⟨t, w', rfl, ht, ha⟩ := ih (routed || visit == .accepted) w₁
    exact ⟨(ep, visit) :: t, w', rfl, tried_cons.mpr ⟨hvisit, ht⟩, w₁, hanswer, ha⟩

theorem Specified.tried {c : BusController M R} {w w' : W} {t : Transcript R}
    {r : (Option M × Bool) × BusController M R × W} (h : Specified p msg c w t w' r) :
    Tried p msg false t := by
  intro pre x post ht
  cases hmode : (p.selector msg).mode with
  | unicast => simpa [hmode] using h.unicast hmode pre x post ht
  | multicast => simpa [hmode] using h.multicast hmode x (by simp [ht])

/-- The condition in front of the local channel. -/
theorem offeredLocal_iff {c : BusController M R} {t : Transcript R} :
    offeredLocal p msg c (t.any fun x => x.2 == .accepted) = true ↔ Local p msg c t := by
  have hnone : t.any (fun x => x.2 == .accepted) = false ↔ ∀ x ∈ t, x.2 ≠ .accepted := by
    simp [List.any_eq_false]
  rw [offeredLocal, Bool.and_eq_true, Bool.or_eq_true, Bool.not_eq_true', hnone, beq_iff_eq, and_comm,
    or_comm]
  rfl

theorem specified_route {c : BusController M R} {w w' : W} {t : Transcript R} (hp : p.Routed msg)
    (horder : t.map Prod.fst = c.endpoints) (ht : Tried p msg false t) (ha : Answered p msg w t w') :
    Specified p msg c w t w' (handleMessage p c w msg) := by
  have hunicast : (p.selector msg).mode = .unicast → ∀ pre x post, t = pre ++ x :: post →
      (x.2 ≠ .passed ↔ matching p msg x.1.label = true ∧ ∀ y ∈ pre, y.2 ≠ .accepted) := by
    intro hmode pre x post heq
    simpa [hmode] using ht pre x post heq
  have hmulticast : (p.selector msg).mode = .multicast → ∀ x ∈ t,
      (x.2 ≠ .passed ↔ matching p msg x.1.label = true) := by
    intro hmode x hx
    obtain ⟨pre, post, heq⟩ := List.append_of_mem hx
    simpa [hmode] using ht pre x post heq
  have hroute : route p c w msg = offerLocal p
      { c with endpoints := (t.filter fun x => x.2 ≠ .disconnected).map Prod.fst }
      (t.any fun x => x.2 == .accepted) w' msg := by
    rw [route, ← horder, retain_transcript ht ha, Bool.false_or]
  rw [Turns.handleMessage_routed hp, hroute]
  have hany : t.any (fun x => x.2 == .accepted) = true ↔ ∃ x ∈ t, x.2 = .accepted := by simp
  have hoffered : ∀ eps, offeredLocal p msg { c with endpoints := eps }
      (t.any fun x => x.2 == .accepted) = true ↔ Local p msg c t := fun _ => offeredLocal_iff
  by_cases hlocal : Local p msg c t
  · rw [offerLocal_offered ((hoffered _).mpr hlocal)]
    have hsent : (c.sender.send (p.receiverDropped w').1 msg).1.isOk = true ↔
        (c.sender.send (p.receiverDropped w').1 msg).1 = .ok () := by
      obtain hs | hs := c.sender.send_cases (p.receiverDropped w').1 msg
      · simp [hs, Except.isOk, Except.toBool]
      · simp [hs, Except.isOk, Except.toBool]
    have htaken : ((c.sender.send (p.receiverDropped w').1 msg).1.isOk ||
        t.any (fun x => x.2 == .accepted)) = true ↔ Taken p msg c t w' := by
      rw [Bool.or_eq_true, hany, hsent, Taken, and_iff_right hlocal, or_comm]
    exact ⟨horder, hunicast, hmulticast, ha, rfl, fun _ => ⟨rfl, rfl⟩, fun h => absurd hlocal h, rfl,
      fun h => by rw [if_neg (htaken.not.mpr h)], fun h => by rw [if_pos (htaken.mpr h)]⟩
  · rw [offerLocal_passed (Bool.eq_false_iff.mpr ((hoffered _).not.mpr hlocal))]
    have htaken : t.any (fun x => x.2 == .accepted) = true ↔ Taken p msg c t w' := by
      rw [hany, Taken, or_iff_left fun h => hlocal h.1]
    exact ⟨horder, hunicast, hmulticast, ha, rfl, fun h => absurd h hlocal, fun _ => ⟨rfl, rfl⟩, rfl,
      fun h => by rw [if_neg (htaken.not.mpr h)], fun h => by rw [if_pos (htaken.mpr h)]⟩

/-- Nothing is left open. -/
theorem Specified.unique {c : BusController M R} {w w' : W} {t : Transcript R}
    {r r' : (Option M × Bool) × BusController M R × W} (h : Specified p msg c w t w' r)
    (h' : Specified p msg c w t w' r') : r = r' := by
  have hout : r.1 = r'.1 := by
    by_cases htaken : Taken p msg c t w'
    · rw [h.taken htaken, h'.taken htaken]
    · rw [h.remain htaken, h'.remain htaken]
  have hrest : r.2.1.sender = r'.2.1.sender ∧ r.2.2 = r'.2.2 := by
    by_cases hlocal : Local p msg c t
    · rw [(h.channel hlocal).1, (h.channel hlocal).2, (h'.channel hlocal).1, (h'.channel hlocal).2]
      exact ⟨rfl, rfl⟩
    · rw [(h.noChannel hlocal).1, (h.noChannel hlocal).2, (h'.noChannel hlocal).1, (h'.noChannel hlocal).2]
      exact ⟨rfl, rfl⟩
  have hcontroller : r.2.1 = r'.2.1 := by
    rw [h.frame, h'.frame, h.table, h'.table, hrest.1]
  exact Prod.ext hout (Prod.ext hcontroller hrest.2)

/-- `handle_message` does what is specified, and nothing else. -/
theorem handleMessage_specified (hp : p.SendsOrDisconnects) (hmsg : p.Routed msg) (c : BusController M R)
    (w : W) (r : (Option M × Bool) × BusController M R × W) :
    r = handleMessage p c w msg ↔ ∃ t w', Specified p msg c w t w' r := by
  constructor
  · rintro rfl
    obtain ⟨t, w', horder, ht, ha⟩ := exists_transcript hp c.endpoints false w
    exact ⟨t, w', specified_route hmsg horder ht ha⟩
  · rintro ⟨t, w', h⟩
    exact h.unique (specified_route hmsg h.order h.tried h.answered)

def threeEndpoints : BusController EncodedMessage RawFd :=
  ⟨⟨["c"]⟩, "token", ⟨[], true⟩, [⟨1, ⟨["a"]⟩, 7⟩, ⟨2, ⟨["b"]⟩, 8⟩, ⟨3, ⟨["a"]⟩, 9⟩], [], [], .ofNanos 0⟩

/-- The first endpoint has hung up and the second takes the message. -/
theorem handleMessage_specified_second :
    ∃ msg r, r = handleMessage plainLinux threeEndpoints [7] msg ∧
      r.1 = (none, false) ∧ r.2.1.endpoints.map Endpoint.id = [2, 3] ∧
      ∃ t w', Specified plainLinux msg threeEndpoints [7] t w' r := by
  refine ⟨intoEncoded plainCodec ⟨0, 8, 5⟩ (withObjects [4]) zeroHeap, _, rfl, by decide, by decide, ?_⟩
  exact (handleMessage_specified (linux_sendsOrDisconnects _ _ _ _) ⟨by decide, rfl⟩ _ _ _).mp rfl

end Ipmb.RoutingSpec
