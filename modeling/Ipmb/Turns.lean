import Ipmb.Admission

namespace Ipmb.Turns

open Messages Time Backend Retain Controller Journal Routing Destinations Admission

variable {M R W : Type}

theorem handleMessage_routed {M R W : Type} {p : Platform M R W} {msg : M} (hp : p.Routed msg)
    (c : BusController M R) (w : W) :
    handleMessage p c w msg = (((route p c w msg).1, false), (route p c w msg).2) := by
  rw [handleMessage]
  rw [if_neg hp.1, hp.2]

variable {p : Platform M R W} {now : Instant}

theorem route_remain (s : State M R W) (msg : Tagged M) :
    (route (journal p) s.1 s.2 msg).1 = none ∨ (route (journal p) s.1 s.2 msg).1 = some msg := by
  obtain ⟨tries, sent, hr⟩ := route_spec p msg s.1 s.2
  rw [hr.remain_eq]
  split
  · exact Or.inl rfl
  · exact Or.inr rfl

theorem route_buffer (s : State M R W) (msg : Tagged M) :
    (route (journal p) s.1 s.2 msg).2.1.messageBuffer = s.1.messageBuffer ∧
      (route (journal p) s.1 s.2 msg).2.1.messageBufferSwap = s.1.messageBufferSwap := by
  obtain ⟨tries, sent, hr⟩ := route_spec p msg s.1 s.2
  rw [hr.frame]
  exact ⟨rfl, rfl⟩

/-- What can become of one element of the drained buffer. -/
inductive Pass (p : Platform M R W) (now : Instant) (s : State M R W) (e : Instant × Tagged M) :
    State M R W → Prop
  | delivered (h : (route (journal p) s.1 s.2 e.2).1 = none) :
    Pass p now s e (route (journal p) s.1 s.2 e.2).2
  | kept (h : (route (journal p) s.1 s.2 e.2).1 ≠ none) (hnow : now < e.1) :
    Pass p now s e ({ (route (journal p) s.1 s.2 e.2).2.1 with
      messageBufferSwap := s.1.messageBufferSwap ++ [e] }, (route (journal p) s.1 s.2 e.2).2.2)
  | expired (h : (route (journal p) s.1 s.2 e.2).1 ≠ none) (hnow : e.1 ≤ now) :
    Pass p now s e (route (journal p) s.1 s.2 e.2).2

theorem flushOne_pass (s : State M R W) (e : Instant × Tagged M) (hp : p.Routed e.2.val) :
    Pass p now s e (flushOne (journal p) now s e) := by
  have hb := (route_buffer (p := p) s e.2).2
  rw [flushOne]
  rw [handleMessage_routed ((journal_routed p e.2).mpr hp)]
  obtain h | h := route_remain (p := p) s e.2
  · simp only [h]
    exact Pass.delivered h
  · simp only [h, hb]
    have hne : (route (journal p) s.1 s.2 e.2).1 ≠ none := by simp [h]
    by_cases hnow : e.1 > now
    · rw [if_pos hnow]
      exact Pass.kept hne hnow
    · rw [if_neg hnow]
      exact Pass.expired hne ((Instant.not_lt _ _).mp hnow)

/-- The invariant rule for a flush: `I` speaks of the elements still to be drained. -/
theorem flush_invariant (now : Instant) (I : List (Instant × Tagged M) → State M R W → Prop)
    (s : State M R W)
    (hp : ∀ e ∈ s.1.messageBuffer, p.Routed e.2.val)
    (h : I s.1.messageBuffer ({ s.1 with messageBuffer := [] }, s.2))
    (step : ∀ e rest u v, e ∈ s.1.messageBuffer → I (e :: rest) u → Pass p now u e v → I rest v) :
    ∃ u, I [] u ∧ flush (journal p) now s =
      ({ u.1 with messageBuffer := u.1.messageBufferSwap, messageBufferSwap := [] }, u.2) := by
  have hfold : ∀ (b : List (Instant × Tagged M)) (u : State M R W), b ⊆ s.1.messageBuffer →
      I b u → I [] (b.foldl (flushOne (journal p) now) u) := by
    intro b
    induction b with
    | nil => exact fun u _ hu => hu
    | cons e b ih =>
      intro u hsub hu
      have he : e ∈ s.1.messageBuffer := hsub (by simp)
      exact ih _ (List.subset_of_cons_subset hsub)
        (step e b u _ he hu (flushOne_pass u e (hp e he)))
  exact ⟨_, hfold _ _ (List.Subset.refl _) h, rfl⟩

/-- All that handling a received message and settling what remains of it can come to. -/
inductive Turn (p : Platform M R W) (now : Instant) (s : State M R W) (msg : Tagged M) :
    State M R W → Prop
  | quiet (hp : ¬ p.Routed msg.val) (w : W) {acks : List (Attempt M R)} (hacks : Acks acks) :
    Turn p now s msg (s.1, w, s.2.2 ++ acks)
  | admitted (hp : ¬ p.Routed msg.val) (w : W) {acks : List (Attempt M R)} (hacks : Acks acks)
    {ep : Endpoint (Tagged R)} (h : Admits (journal p) s.1 s.2 msg ep)
    (hb : s.1.messageBuffer = []) :
    Turn p now s msg ({ s.1 with endpoints := s.1.endpoints ++ [ep] }, w, s.2.2 ++ acks)
  | flushed (hp : ¬ p.Routed msg.val) (w : W) {acks : List (Attempt M R)} (hacks : Acks acks)
    {ep : Endpoint (Tagged R)} (h : Admits (journal p) s.1 s.2 msg ep) :
    Turn p now s msg (flush (journal p) now
      ({ s.1 with endpoints := s.1.endpoints ++ [ep] }, w, s.2.2 ++ acks))
  | delivered (hp : p.Routed msg.val) (h : (route (journal p) s.1 s.2 msg).1 = none) :
    Turn p now s msg (route (journal p) s.1 s.2 msg).2
  | dropped (hp : p.Routed msg.val) (h : (route (journal p) s.1 s.2 msg).1 ≠ none)
    (ht : (p.selector msg.val).ttl.isZero = true) :
    Turn p now s msg (route (journal p) s.1 s.2 msg).2
  | kept (hp : p.Routed msg.val) (h : (route (journal p) s.1 s.2 msg).1 ≠ none)
    (ht : (p.selector msg.val).ttl.isZero = false) {expire : Instant}
    (he : now.add (p.selector msg.val).ttl = some expire) :
    Turn p now s msg ({ (route (journal p) s.1 s.2 msg).2.1 with
      messageBuffer := s.1.messageBuffer ++ [(expire, msg)] }, (route (journal p) s.1 s.2 msg).2.2)

theorem connect_turn (s : State M R W) (msg : Tagged M)
    (hc : (p.selector msg.val).uuid = ConnectMessage.uuid) :
    Turn p now s msg (if (endpointConnect (journal p) s.1 s.2 msg).1 &&
        !(endpointConnect (journal p) s.1 s.2 msg).2.1.messageBuffer.isEmpty then
      flush (journal p) now (endpointConnect (journal p) s.1 s.2 msg).2
      else (endpointConnect (journal p) s.1 s.2 msg).2) := by
  have hp : ¬ p.Routed msg.val := fun hp => hp.1 hc
  obtain ⟨acks, hlog, hacks⟩ := endpointConnect_log (p := p) s.1 s.2 msg
  have hcases := endpointConnect_cases (journal p) s.1 s.2 msg hc
  generalize endpointConnect (journal p) s.1 s.2 msg = r at hlog hcases ⊢
  obtain ⟨b, c, w, log⟩ := r
  simp only at hlog hcases ⊢
  obtain ⟨rfl, rfl⟩ | ⟨ep, hadm, rfl, rfl⟩ := hcases
  · rw [hlog]
    exact Turn.quiet hp w hacks
  · rw [hlog]
    by_cases hb : s.1.messageBuffer = []
    · have he : s.1.messageBuffer.isEmpty = true := by simp [hb]
      simp only [he, Bool.not_true, Bool.and_false, Bool.false_eq_true, if_false]
      exact Turn.admitted hp w hacks hadm hb
    · have he : s.1.messageBuffer.isEmpty = false := by simp [hb]
      simp only [he, Bool.not_false, Bool.and_true, if_true]
      exact Turn.flushed hp w hacks hadm

theorem settle_turn {s v : State M R W} {msg : Tagged M}
    (h : settle (journal p) now (handleMessage (journal p) s.1 s.2 msg).1.1
      (handleMessage (journal p) s.1 s.2 msg).1.2 (handleMessage (journal p) s.1 s.2 msg).2 = some v) :
    Turn p now s msg v := by
  by_cases hp : p.Routed msg.val
  · have hb := (route_buffer (p := p) s msg).1
    rw [handleMessage_routed ((journal_routed p msg).mpr hp)] at h
    obtain hr | hr := route_remain (p := p) s msg
    · simp only [hr, settle, Bool.false_and, Bool.false_eq_true, if_false, Option.some.injEq] at h
      exact h ▸ Turn.delivered hp hr
    · have hne : (route (journal p) s.1 s.2 msg).1 ≠ none := by simp [hr]
      simp only [hr, settle, journal_selector, hb] at h
      cases ht : (p.selector msg.val).ttl.isZero with
      | true =>
        rw [ht, if_pos rfl, Option.some.injEq] at h
        exact h ▸ Turn.dropped hp hne ht
      | false =>
        rw [ht, if_neg (by simp)] at h
        obtain ⟨expire, hadd, rfl⟩ := Option.map_eq_some_iff.mp h
        exact Turn.kept hp hne ht hadd
  · by_cases hc : (p.selector msg.val).uuid = ConnectMessage.uuid
    · simp only [handleMessage, journal_selector, hc, if_true, settle, Option.some.injEq] at h
      exact h ▸ connect_turn s msg hc
    · cases hact : p.platformMessage (p.selector msg.val).uuid with
      | none => exact absurd ⟨hc, hact⟩ hp
      | some act =>
        simp only [handleMessage, journal_selector, hc, if_false, journal_platformMessage, hact,
          Option.map_some, settle, Bool.false_and, Bool.false_eq_true, Option.some.injEq] at h
        have hq : Turn p now s msg (s.1, act s.2.1 msg.val, s.2.2 ++ []) :=
          Turn.quiet hp (act s.2.1 msg.val) (by simp [Acks])
        rw [List.append_nil] at hq
        exact h ▸ hq

theorem detectReachable_cases (now : Instant) (s : State M R W) :
    ∃ (eps : List (Endpoint (Tagged R))) (w : W) (t : Instant), eps.Sublist s.1.endpoints ∧
      detectReachable (journal p) now s =
        ({ s.1 with endpoints := eps, lastDetectReachable := t }, w, s.2.2) := by
  rw [detectReachable]
  split
  · have hsub := retain_sublist (fun ep w => (!((journal p).isDead w ep.remote).1,
      ((journal p).isDead w ep.remote).2)) s.1.endpoints s.2
    have hlog := retain_invariant (fun ep w => (!((journal p).isDead w ep.remote).1,
      ((journal p).isDead w ep.remote).2)) (fun _ _ w => w.2 = s.2.2) s.1.endpoints [] [] s.2 rfl
      (fun _ _ _ _ _ hw => hw)
    exact ⟨_, _, now, hsub, by rw [← hlog]⟩
  · exact ⟨s.1.endpoints, s.2.1, s.1.lastDetectReachable, List.Sublist.refl _, rfl⟩

/-- An iteration brings no message and at most sends an acknowledgement, or it is a
turn followed by the two housekeeping calls. -/
theorem iterate_cases {s s' : State M R W} {n : Nat} {it : Iteration M R W}
    (h : iterate (journal p) s (numbered n it) = some s') :
    (∃ w acks, (∀ msg, it.received ≠ .ok msg) ∧ Acks acks ∧ s' = (s.1, w, s.2.2 ++ acks)) ∨
      ∃ msg v, it.received = .ok msg ∧
        Turn p it.now (s.1, it.interfere s.2.1, s.2.2) ⟨some n, msg⟩ v ∧
        s' = maintain it.now (detectReachable (journal p) it.now v) := by
  rw [iterate] at h
  cases hr : it.received with
  | error e =>
    have hsame : ∀ w, ∃ w' acks, (∀ msg, (.error e : Except (Error R) M) ≠ .ok msg) ∧ Acks acks ∧
        ((s.1, w, s.2.2) : State M R W) = (s.1, w', s.2.2 ++ acks) :=
      fun w => ⟨w, [], by simp, by simp [Acks], by rw [List.append_nil]⟩
    simp only [numbered, hr] at h
    cases e with
    | versionMismatch v remote =>
      cases remote with
      | none =>
        simp only [Error.map, Option.map_none, Option.some.injEq] at h
        exact Or.inl (h ▸ hsame _)
      | some remote =>
        simp only [Error.map, Option.map_some, Option.some.injEq] at h
        obtain ⟨acks, hlog, hacks⟩ := reply_log (p := p) (it.interfere s.2.1, s.2.2)
          (Selector.unicast .true) (.errVersion (journal p).version) ⟨none, remote⟩
        generalize reply (journal p) (it.interfere s.2.1, s.2.2) (Selector.unicast .true)
          (.errVersion (journal p).version) ⟨none, remote⟩ = r at h hlog
        obtain ⟨_, w, log⟩ := r
        simp only at h hlog
        exact Or.inl ⟨w, acks, by simp, hacks, by rw [← h, hlog]⟩
    | _ =>
      simp only [Error.map, Option.some.injEq] at h
      exact Or.inl (h ▸ hsame _)
  | ok msg =>
    simp only [numbered, hr, handle] at h
    obtain ⟨v, hv, rfl⟩ := Option.map_eq_some_iff.mp h
    exact Or.inr ⟨msg, v, rfl, settle_turn (s := (s.1, it.interfere s.2.1, s.2.2)) hv, rfl⟩

end Ipmb.Turns
