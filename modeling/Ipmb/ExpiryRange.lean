import Ipmb.JoinLoop
import Ipmb.PlainHost
import Ipmb.Turns

namespace Ipmb.ExpiryRange

open Labels Messages Time Encoding Reference Backend Run Retain Controller Routing Relay PlainHost

variable {M R W : Type} (p : Platform M R W)

/-- Each of the endpoints that the message is for refuses it; `w'` is the world afterwards. -/
def Declined (msg : M) : W → List (Endpoint R) → W → Prop
  | w, [], w' => w' = w
  | w, ep :: eps, w' =>
    if matching p msg ep.label then
      (p.send w msg ep.remote).1 ≠ .ok () ∧ Declined msg (p.send w msg ep.remote).2 eps w'
    else Declined msg w eps w'

/-- The message is to be routed, and there is nobody who takes it. -/
def Unroutable (c : BusController M R) (w : W) (msg : M) : Prop :=
  p.Routed msg ∧ ∃ w', Declined p msg w c.endpoints w' ∧
    ¬ (matching p msg c.label = true ∧ (c.sender.send (p.receiverDropped w').1 msg).1 = .ok ())

/-- If the message that is received finds nobody, the sum of the clock and its time to live
is an `Instant`. -/
def Representable (s : BusController M R × W) (it : Iteration M R W) : Prop :=
  ∀ msg, it.received = .ok msg → Unroutable p s.1 (it.interfere s.2) msg →
    it.now.nanos + (p.selector msg).ttl.nanos < 2 ^ 63 * nanosPerSec

variable {p}

theorem add_isSome (t : Instant) (d : Duration) :
    (t.add d).isSome = true ↔ t.nanos + d.nanos < 2 ^ 63 * nanosPerSec := by
  rw [Instant.add]
  split
  · rename_i h
    exact iff_of_true rfl h
  · rename_i h
    exact iff_of_false (by simp) h

theorem tryEndpoint_routed (msg : M) (ep : Endpoint R) (w : W) :
    (tryEndpoint p msg ep (true, w)).2.1 = true := by
  cases ho : offered p msg ep true with
  | true =>
    rw [tryEndpoint_offered ho]
    split <;> rfl
  | false => rw [tryEndpoint_passed ho]

/-- What has been routed stays so. -/
theorem retain_routed (msg : M) (eps : List (Endpoint R)) (w : W) :
    (retain (tryEndpoint p msg) eps (true, w)).2.1 = true := by
  induction eps generalizing w with
  | nil => rfl
  | cons ep eps ih =>
    have h := tryEndpoint_routed (p := p) msg ep w
    rw [retain_cons]
    generalize (tryEndpoint p msg ep (true, w)) = tried at h ⊢
    obtain ⟨keep, routed, w'⟩ := tried
    obtain rfl : routed = true := h
    exact ih w'

theorem declined_iff {msg : M} {eps : List (Endpoint R)} {w w' : W} :
    Declined p msg w eps w' ↔ (retain (tryEndpoint p msg) eps (false, w)).2 = (false, w') := by
  induction eps generalizing w with
  | nil => simp [Declined, eq_comm]
  | cons ep eps ih =>
    have hfree : offered p msg ep false = matching p msg ep.label := by simp [offered]
    rw [Declined, retain_cons]
    cases hm : matching p msg ep.label with
    | false =>
      rw [tryEndpoint_passed (hfree.trans hm), if_neg (by simp)]
      exact ih
    | true =>
      rw [tryEndpoint_offered (hfree.trans hm), if_pos rfl]
      generalize p.send w msg ep.remote = sent
      obtain ⟨out | _, w₁⟩ := sent
      · rw [and_iff_right (by simp), ih]
        cases out <;> rfl
      · apply iff_of_false (fun h => h.1 rfl)
        intro h
        have hrouted := retain_routed (p := p) msg eps w₁
        rw [h] at hrouted
        cases hrouted

theorem offerLocal_remain (c : BusController M R) (w : W) (msg : M) :
    (offerLocal p c false w msg).1 = none ∧
        matching p msg c.label = true ∧ (c.sender.send (p.receiverDropped w).1 msg).1 = .ok () ∨
      (offerLocal p c false w msg).1 = some msg ∧
        ¬ (matching p msg c.label = true ∧ (c.sender.send (p.receiverDropped w).1 msg).1 = .ok ()) := by
  have hfree : offeredLocal p msg c false = matching p msg c.label := by simp [offeredLocal]
  cases hm : matching p msg c.label with
  | false =>
    rw [offerLocal_passed (hfree.trans hm)]
    exact .inr ⟨rfl, by simp⟩
  | true =>
    rw [offerLocal_offered (hfree.trans hm)]
    obtain hs | hs := c.sender.send_cases (p.receiverDropped w).1 msg
    · exact .inl ⟨by rw [hs]; rfl, rfl, hs⟩
    · exact .inr ⟨by rw [hs]; rfl, fun h => by cases hs.symm.trans h.2⟩

theorem offerLocal_routed (c : BusController M R) (w : W) (msg : M) :
    (offerLocal p c true w msg).1 = none := by
  cases hl : offeredLocal p msg c true with
  | true => rw [offerLocal_offered hl, Bool.or_true, if_pos rfl]
  | false => rw [offerLocal_passed hl, if_pos rfl]

/-- What remains is the message itself, if nobody takes it. -/
theorem handleMessage_remain (c : BusController M R) (w : W) (msg : M) :
    (handleMessage p c w msg).1.1 = some msg ∧ Unroutable p c w msg ∨
      (handleMessage p c w msg).1.1 = none ∧ ¬ Unroutable p c w msg := by
  by_cases hp : p.Routed msg
  · rw [Turns.handleMessage_routed hp, route]
    have hdeclined : ∀ w', Declined p msg w c.endpoints w' ↔ _ := fun w' => declined_iff
    generalize retain (tryEndpoint p msg) c.endpoints (false, w) = tried at hdeclined ⊢
    obtain ⟨eps, routed, w'⟩ := tried
    cases routed with
    | true =>
      refine .inr ⟨offerLocal_routed _ _ _, ?_⟩
      rintro ⟨-, w'', hd, -⟩
      cases (hdeclined w'').mp hd
    | false =>
      have hunroutable : Unroutable p c w msg ↔ ¬ (matching p msg c.label = true ∧
          (c.sender.send (p.receiverDropped w').1 msg).1 = .ok ()) := by
        constructor
        · rintro ⟨-, w'', hd, hlocal⟩
          cases (hdeclined w'').mp hd
          exact hlocal
        · exact fun hlocal => ⟨hp, w', (hdeclined w').mpr rfl, hlocal⟩
      rw [hunroutable]
      obtain ⟨hr, hlocal⟩ | ⟨hr, hlocal⟩ :=
        offerLocal_remain (p := p) { c with endpoints := eps } w' msg
      · exact .inr ⟨hr, not_not.mpr hlocal⟩
      · exact .inl ⟨hr, hlocal⟩
  · refine .inr ⟨?_, fun h => hp h.1⟩
    by_cases hc : (p.selector msg).uuid = ConnectMessage.uuid
    · rw [handleMessage, if_pos hc]
    · cases hact : p.platformMessage (p.selector msg).uuid with
      | none => exact absurd ⟨hc, hact⟩ hp
      | some act => rw [handleMessage, if_neg hc, hact]

theorem settle_isSome (now : Instant) (remain : Option M) (connected : Bool) (s : BusController M R × W) :
    (settle p now remain connected s).isSome = true ↔
      ∀ msg ∈ remain, now.nanos + (p.selector msg).ttl.nanos < 2 ^ 63 * nanosPerSec := by
  cases remain with
  | none => simp [settle]
  | some msg =>
    simp only [settle, Option.mem_some_iff, forall_eq']
    split
    · rename_i hz
      have hzero : (p.selector msg).ttl.nanos = 0 := beq_iff_eq.mp hz
      have hupper := now.upper
      apply iff_of_true rfl
      omega
    · rw [Option.isSome_map, add_isSome]

/-- An iteration does not panic exactly if the sum that it may need can be represented. -/
theorem iterate_isSome (s : BusController M R × W) (it : Iteration M R W) :
    (iterate p s it).isSome = true ↔ Representable p s it := by
  cases hr : it.received with
  | error e =>
    refine iff_of_true ?_ fun msg hmsg => ?_
    · rw [iterate]
      rw [hr]
      split <;> trivial
    · rw [hr] at hmsg
      cases hmsg
  | ok msg =>
    rw [iterate, hr]
    simp only [handle, Option.isSome_map, settle_isSome]
    obtain ⟨hremain, hu⟩ | ⟨hremain, hu⟩ := handleMessage_remain (p := p) s.1 (it.interfere s.2) msg
    · simp [hremain, Representable, hr, hu]
    · simp [hremain, Representable, hr, hu]

/-- The expiry of every message can be represented, and so can the end of every `join`,
exactly if the sums are within the range of an `Instant`. -/
theorem expiry_representable (p : Platform M R W) (s : BusController M R × W)
    (its : List (Iteration M R W)) (now : Instant) (timeout : Option Duration) :
    ((run (iterate p) s its).isSome = true ↔ Along (iterate p) (Representable p) s its) ∧
      ((JoinLoop.deadline now timeout).isSome = true ↔
        ∀ t ∈ timeout, now.nanos + t.nanos < 2 ^ 63 * nanosPerSec) := by
  constructor
  · induction its generalizing s with
    | nil => simp [Along]
    | cons it its ih =>
      rw [Along, ← iterate_isSome]
      cases hs : iterate p s it with
      | none => simp [run, hs]
      | some t =>
        rw [run_cons hs, ih t]
        simp
  · cases timeout with
    | none => simp [JoinLoop.deadline]
    | some t => simp [JoinLoop.deadline, add_isSome]

/-- The longest `Duration`, the way to say "for ever". -/
def forever : Duration := .ofNanos (2 ^ 64 * nanosPerSec - 1)

/-- A message for an endpoint that is not there yet. -/
def forNobody : EncodedMessage :=
  let msg := intoEncoded plainCodec ⟨0, 8, 5⟩ (withObjects []) zeroHeap
  { msg with selector := { Selector.unicast (.leaf "late") with ttl := forever } }

theorem forever_overflows :
    run (iterate plainLinux) (new ⟨["c"]⟩ "token" (.ofNanos 0), []) [receive forNobody] = none ∧
      JoinLoop.deadline (.ofNanos 0) (some forever) = none := by
  refine ⟨?_, by decide⟩
  have hnone : iterate plainLinux (new ⟨["c"]⟩ "token" (.ofNanos 0), []) (receive forNobody) = none := by
    rw [← Option.not_isSome_iff_eq_none, iterate_isSome]
    intro h
    exact absurd (h forNobody rfl ⟨⟨by decide, rfl⟩, _, rfl, by decide⟩) (by decide)
  rw [run, List.foldlM_cons, hnone]
  rfl

end Ipmb.ExpiryRange
