import Ipmb.Journal

namespace Ipmb.Routing

open Messages Time Backend Retain Controller Journal

variable {M R W : Type}

def matching (p : Platform M R W) (msg : M) (label : Labels.Label) : Bool :=
  (p.selector msg).labelOp.validate label

/-- The endpoint is offered the message: unless a unicast message has already been
routed, its label decides. -/
def offered (p : Platform M R W) (msg : M) (ep : Endpoint R) (routed : Bool) : Bool :=
  !(routed && (p.selector msg).mode == .unicast) && matching p msg ep.label

section Visits

variable {p : Platform M R W} {msg : M}

theorem tryEndpoint_passed {ep : Endpoint R} {routed : Bool} (h : offered p msg ep routed = false)
    (w : W) : tryEndpoint p msg ep (routed, w) = (true, routed, w) := by
  by_cases hr : (routed && (p.selector msg).mode == .unicast) = true
  · exact if_pos hr
  · have hm : matching p msg ep.label ≠ true := by simpa [offered, hr] using h
    exact (if_neg hr).trans (if_neg hm)

theorem tryEndpoint_offered {ep : Endpoint R} {routed : Bool} (h : offered p msg ep routed = true)
    (w : W) : tryEndpoint p msg ep (routed, w) =
      match p.send w msg ep.remote with
      | (.ok _, w) => (true, true, w)
      | (.error .disconnect, w) => (false, routed, w)
      | (.error _, w) => (true, routed, w) := by
  rw [offered, Bool.and_eq_true, Bool.not_eq_true'] at h
  exact (if_neg (Bool.eq_false_iff.mp h.1)).trans (if_pos h.2)

/-- The local channel is offered the message: a unicast message only if it has not been
routed yet, and the label of the controller decides. -/
def offeredLocal (p : Platform M R W) (msg : M) (c : BusController M R) (routed : Bool) : Bool :=
  (!routed || (p.selector msg).mode == .multicast) && matching p msg c.label

theorem offerLocal_passed {c : BusController M R} {routed : Bool} (h : offeredLocal p msg c routed = false)
    (w : W) : offerLocal p c routed w msg = (if routed then none else some msg, c, w) :=
  if_neg (Bool.eq_false_iff.mp h)

theorem offerLocal_offered {c : BusController M R} {routed : Bool} (h : offeredLocal p msg c routed = true)
    (w : W) : offerLocal p c routed w msg =
      (if (c.sender.send (p.receiverDropped w).1 msg).1.isOk || routed then none else some msg,
        { c with sender := (c.sender.send (p.receiverDropped w).1 msg).2 }, (p.receiverDropped w).2) := by
  have hoffered : offerLocal p c routed w msg = _ := if_pos h
  rw [hoffered]
  dsimp only
  have hcases := c.sender.send_cases (p.receiverDropped w).1 msg
  generalize c.sender.send (p.receiverDropped w).1 msg = sent at hcases ⊢
  obtain ⟨out, sender⟩ := sent
  obtain rfl | rfl : out = .ok () ∨ out = .error msg := hcases
  · rfl
  · rfl

end Visits

variable (p : Platform M R W) (msg : Tagged M)

theorem tryEndpoint_offer (ep : Endpoint (Tagged R)) (b : Bool) (w : W × List (Attempt M R))
    (h : offered (journal p) msg ep b = true) :
    ∃ (a : Attempt M R) (w' : W), a.message = msg ∧ a.remote = ep.remote ∧
      a.outcome = (p.send w.1 msg.val ep.remote.val).1 ∧
      (a.outcome = .error .disconnect →
        tryEndpoint (journal p) msg ep (b, w) = (false, b, w', w.2 ++ [a])) ∧
      (a.outcome ≠ .error .disconnect →
        tryEndpoint (journal p) msg ep (b, w) = (true, b || a.accepted, w', w.2 ++ [a])) := by
  refine ⟨⟨msg, ep.remote, (p.send w.1 msg.val ep.remote.val).1⟩,
    (p.send w.1 msg.val ep.remote.val).2, rfl, rfl, rfl, ?_⟩
  rw [tryEndpoint_offered h]
  simp only [journal_send, Attempt.accepted]
  obtain ⟨e | u, w'⟩ := p.send w.1 msg.val ep.remote.val
  · constructor
    · rintro ⟨⟩
      rfl
    · intro hne
      cases e with
      | disconnect => exact absurd rfl hne
      | _ => simp [Except.mapError, Error.map, Except.isOk, Except.toBool]
  · constructor
    · intro he
      cases he
    · intro _
      simp [Except.mapError, Except.isOk, Except.toBool]

/-- What is known once the endpoints in `done` have been visited and those in
`kept` have stayed, with `tries` the sends made on the way. -/
structure Tries (done kept : List (Endpoint (Tagged R))) (routed : Bool)
    (tries : List (Attempt M R)) : Prop where
  message : ∀ a ∈ tries, a.message = msg
  sends : ∀ a ∈ tries, ∃ w, a.outcome = (p.send w msg.val a.remote.val).1
  remotes : (tries.map Attempt.remote).Sublist (done.map Endpoint.remote)
  matched : ∀ a ∈ tries, ∃ ep ∈ done, a.remote = ep.remote ∧ matching p msg.val ep.label = true
  routed_eq : routed = tries.any Attempt.accepted
  once : (p.selector msg.val).mode = .unicast → (tries.filter Attempt.accepted).length ≤ 1
  refused : routed = false → ∀ ep ∈ kept, matching p msg.val ep.label = true →
    ∃ a ∈ tries, a.remote = ep.remote ∧ a.accepted = false ∧ a.outcome ≠ .error .disconnect
  evicted : ∀ ep ∈ done, ep ∈ kept ∨ ∃ a ∈ tries, a.remote = ep.remote ∧
    a.outcome = .error .disconnect

variable {p msg}

theorem Tries.nil : Tries p msg [] [] false [] where
  message := by simp
  sends := by simp
  remotes := by simp
  matched := by simp
  routed_eq := rfl
  once := by simp
  refused := by simp
  evicted := by simp

/-- An endpoint that is passed over stays in the table. -/
theorem Tries.skip {done kept : List (Endpoint (Tagged R))} {routed : Bool}
    {tries : List (Attempt M R)} (h : Tries p msg done kept routed tries)
    (ep : Endpoint (Tagged R)) (hs : offered (journal p) msg ep routed = false) :
    Tries p msg (done ++ [ep]) (kept ++ [ep]) routed tries where
  message := h.message
  sends := h.sends
  remotes := by
    rw [List.map_append]
    exact h.remotes.trans (List.sublist_append_left _ _)
  matched a ha := by
    obtain ⟨e, he, hr, hm⟩ := h.matched a ha
    exact ⟨e, List.mem_append_left _ he, hr, hm⟩
  routed_eq := h.routed_eq
  once := h.once
  refused hr e he hm := by
    obtain he | he := List.mem_append.mp he
    · exact h.refused hr e he hm
    · rw [List.mem_singleton] at he
      subst he
      simp only [offered, hr, Bool.false_and, Bool.not_false, Bool.true_and] at hs
      exact absurd (hs.symm.trans hm) (by simp)
  evicted e he := by
    obtain he | he := List.mem_append.mp he
    · exact (h.evicted e he).imp (List.mem_append_left _) id
    · exact Or.inl (List.mem_append_right _ he)

/-- An endpoint that is offered the message adds its attempt, and stays unless the
answer was `Disconnect`. -/
theorem Tries.offer {done kept kept' : List (Endpoint (Tagged R))} {routed routed' : Bool}
    {tries : List (Attempt M R)} (h : Tries p msg done kept routed tries)
    (ep : Endpoint (Tagged R)) (ho : offered (journal p) msg ep routed = true) (a : Attempt M R)
    (hm : a.message = msg) (hr : a.remote = ep.remote)
    (hs : ∃ w, a.outcome = (p.send w msg.val a.remote.val).1)
    (hrouted : routed' = (routed || a.accepted))
    (hkept : a.outcome = .error .disconnect ∧ kept' = kept ∨
      a.outcome ≠ .error .disconnect ∧ kept' = kept ++ [ep]) :
    Tries p msg (done ++ [ep]) kept' routed' (tries ++ [a]) where
  message b hb := by
    obtain hb | hb := List.mem_append.mp hb
    · exact h.message b hb
    · exact (List.mem_singleton.mp hb) ▸ hm
  sends b hb := by
    obtain hb | hb := List.mem_append.mp hb
    · exact h.sends b hb
    · exact (List.mem_singleton.mp hb) ▸ hs
  remotes := by
    rw [List.map_append, List.map_append, List.map_singleton, List.map_singleton, hr]
    exact h.remotes.append (List.Sublist.refl _)
  matched b hb := by
    obtain hb | hb := List.mem_append.mp hb
    · obtain ⟨e, he, hre, hme⟩ := h.matched b hb
      exact ⟨e, List.mem_append_left _ he, hre, hme⟩
    · rw [List.mem_singleton] at hb
      subst hb
      simp only [offered, Bool.and_eq_true] at ho
      exact ⟨ep, by simp, hr, ho.2⟩
  routed_eq := by simp [hrouted, h.routed_eq]
  once hu := by
    -- a unicast message is only offered while nobody has accepted it
    have hn : routed = false := by
      simp only [offered, journal_selector, hu, Bool.and_eq_true] at ho
      simpa using ho.1
    have hz : tries.filter Attempt.accepted = [] := by
      rw [hn] at h
      simpa using h.routed_eq
    rw [List.filter_append, hz, List.nil_append]
    exact List.length_filter_le _ _
  refused hf e he hme := by
    simp only [hrouted, Bool.or_eq_false_iff] at hf
    have hold : e ∈ kept → ∃ b ∈ tries ++ [a], b.remote = e.remote ∧ b.accepted = false ∧
        b.outcome ≠ .error .disconnect := by
      intro hek
      obtain ⟨b, hb, hrest⟩ := h.refused hf.1 e hek hme
      exact ⟨b, List.mem_append_left _ hb, hrest⟩
    obtain ⟨-, hk⟩ | ⟨ha, hk⟩ := hkept
    · exact hold (hk ▸ he)
    · rw [hk] at he
      obtain he | he := List.mem_append.mp he
      · exact hold he
      · rw [List.mem_singleton] at he
        subst he
        exact ⟨a, by simp, hr, hf.2, ha⟩
  evicted e he := by
    obtain he | he := List.mem_append.mp he
    · obtain hek | ⟨b, hb, hrest⟩ := h.evicted e he
      · apply Or.inl
        obtain ⟨-, hk⟩ | ⟨-, hk⟩ := hkept
        · exact hk ▸ hek
        · exact hk ▸ List.mem_append_left _ hek
      · exact Or.inr ⟨b, List.mem_append_left _ hb, hrest⟩
    · rw [List.mem_singleton] at he
      subst he
      obtain ⟨ha, -⟩ | ⟨-, hk⟩ := hkept
      · exact Or.inr ⟨a, by simp, hr, ha⟩
      · exact Or.inl (hk ▸ by simp)

variable (p msg)

/-- The loop over the endpoint table, as a whole. -/
theorem retain_tries (eps : List (Endpoint (Tagged R))) (w : W × List (Attempt M R)) :
    ∃ tries, (retain (tryEndpoint (journal p) msg) eps (false, w)).2.2.2 = w.2 ++ tries ∧
      Tries p msg eps (retain (tryEndpoint (journal p) msg) eps (false, w)).1
        (retain (tryEndpoint (journal p) msg) eps (false, w)).2.1 tries := by
  have h := retain_invariant (tryEndpoint (journal p) msg)
    (fun done kept s => ∃ tries, s.2.2 = w.2 ++ tries ∧ Tries p msg done kept s.1 tries)
    eps [] [] (false, w) ⟨[], by simp, Tries.nil⟩
    (by
      rintro done kept ep ⟨b, v⟩ _ ⟨tries, hlog, ht⟩
      simp only at hlog ht
      cases ho : offered (journal p) msg ep b with
      | false =>
        rw [tryEndpoint_passed ho]
        exact ⟨tries, hlog, ht.skip ep ho⟩
      | true =>
        obtain ⟨a, w', hm, hr, hout, hd, hn⟩ := tryEndpoint_offer p msg ep b v ho
        have hs : ∃ w, a.outcome = (p.send w msg.val a.remote.val).1 := ⟨v.1, by rw [hr, hout]⟩
        by_cases hdisc : a.outcome = .error .disconnect
        · rw [hd hdisc]
          refine ⟨tries ++ [a], by simp [hlog], ht.offer ep ho a hm hr hs ?_ (Or.inl ⟨hdisc, rfl⟩)⟩
          simp [Attempt.accepted, hdisc, Except.isOk, Except.toBool]
        · rw [hn hdisc]
          exact ⟨tries ++ [a], by simp [hlog], ht.offer ep ho a hm hr hs rfl (Or.inr ⟨hdisc, rfl⟩)⟩)
  simpa using h

/-- The local channel as an extra destination: `sent` tells whether it took the
message, which it is only offered under the condition of the last branch. -/
theorem offerLocal_cases (c : BusController (Tagged M) (Tagged R)) (b : Bool)
    (w : W × List (Attempt M R)) :
    ∃ (sent : Bool) (sender : Sender (Tagged M)) (w' : W),
      offerLocal (journal p) c b w msg =
        (if sent || b then none else some msg, { c with sender := sender }, w', w.2) ∧
      sender.queue = c.sender.queue ++ (if sent then [msg] else []) ∧
      (sender.receiverAlive = true → c.sender.receiverAlive = true) ∧
      (sent = true → matching p msg.val c.label = true ∧ c.sender.receiverAlive = true ∧
        (b = false ∨ (p.selector msg.val).mode = .multicast)) ∧
      (sent = false → b = false → matching p msg.val c.label = true →
        sender.receiverAlive = false) := by
  cases hl : offeredLocal (journal p) msg c b with
  | true =>
    rw [offerLocal_offered hl, Sender.send]
    simp only [offeredLocal, Bool.and_eq_true, Bool.or_eq_true, Bool.not_eq_true', beq_iff_eq] at hl
    by_cases ha : (c.sender.receiverAlive && !((journal p).receiverDropped w).1) = true
    · rw [if_pos ha]
      rw [Bool.and_eq_true] at ha
      exact ⟨true, _, _, rfl, rfl, fun h => h, fun _ => ⟨hl.2, ha.1, hl.1⟩, by simp⟩
    · rw [if_neg ha]
      exact ⟨false, _, _, rfl, by simp, by simp, by simp, by simp⟩
  | false =>
    rw [offerLocal_passed hl]
    refine ⟨false, c.sender, w.1, rfl, by simp, fun h => h, by simp, ?_⟩
    rintro - rfl hm
    have hm' : matching (journal p) msg c.label = true := hm
    simp [offeredLocal, hm'] at hl

/-- All that routing one message does: the sends it makes, whether the local
channel takes the message, and what it leaves of the table. -/
structure Routes (p : Platform M R W) (msg : Tagged M) (c : BusController (Tagged M) (Tagged R))
    (log : List (Attempt M R)) (r : Option (Tagged M) × State M R W)
    (tries : List (Attempt M R)) (sent : Bool) : Prop where
  log_eq : r.2.2.2 = log ++ tries
  queue_eq : r.2.1.sender.queue = c.sender.queue ++ (if sent then [msg] else [])
  frame : r.2.1 = { c with endpoints := r.2.1.endpoints, sender := r.2.1.sender }
  kept : r.2.1.endpoints.Sublist c.endpoints
  remain_eq : r.1 = if sent || tries.any Attempt.accepted then none else some msg
  message : ∀ a ∈ tries, a.message = msg
  sends : ∀ a ∈ tries, ∃ w, a.outcome = (p.send w msg.val a.remote.val).1
  remotes : (tries.map Attempt.remote).Sublist (c.endpoints.map Endpoint.remote)
  matched : ∀ a ∈ tries, ∃ ep ∈ c.endpoints, a.remote = ep.remote ∧
    matching p msg.val ep.label = true
  once : (p.selector msg.val).mode = .unicast →
    (tries.filter Attempt.accepted).length + (if sent then 1 else 0) ≤ 1
  sent_own : sent = true → matching p msg.val c.label = true ∧ c.sender.receiverAlive = true
  alive : r.2.1.sender.receiverAlive = true → c.sender.receiverAlive = true
  refused : r.1 ≠ none → ∀ ep ∈ r.2.1.endpoints, matching p msg.val ep.label = true →
    ∃ a ∈ tries, a.remote = ep.remote ∧ a.accepted = false ∧ a.outcome ≠ .error .disconnect
  refused_own : r.1 ≠ none → matching p msg.val c.label = true →
    r.2.1.sender.receiverAlive = false
  evicted : ∀ ep ∈ c.endpoints, ep ∈ r.2.1.endpoints ∨ ∃ a ∈ tries, a.remote = ep.remote ∧
    a.outcome = .error .disconnect

theorem route_spec (c : BusController (Tagged M) (Tagged R)) (w : W × List (Attempt M R)) :
    ∃ tries sent, Routes p msg c w.2 (route (journal p) c w msg) tries sent := by
  obtain ⟨tries, hlog, ht⟩ := retain_tries p msg c.endpoints w
  obtain ⟨sent, sender, w', ho, hq, halive, hsent, hrefused⟩ := offerLocal_cases p msg
    { c with endpoints := (retain (tryEndpoint (journal p) msg) c.endpoints (false, w)).1 }
    (retain (tryEndpoint (journal p) msg) c.endpoints (false, w)).2.1
    (retain (tryEndpoint (journal p) msg) c.endpoints (false, w)).2.2
  have hroute : route (journal p) c w msg = _ := ho
  rw [ht.routed_eq] at hroute
  refine ⟨tries, sent, ?_⟩
  rw [hroute]
  -- nothing remains unless both flags are down
  have hnone : ∀ {b : Bool}, (if sent || b then none else some msg) ≠ none →
      sent = false ∧ b = false := by
    intro b hb
    cases sent <;> cases b <;> simp_all
  refine ⟨hlog, hq, rfl, retain_sublist _ _ _, rfl, ht.message, ht.sends, ht.remotes, ht.matched, ?_, ?_,
    halive, ?_, ?_, ht.evicted⟩
  · intro hu
    cases hs : sent with
    | false => simpa using ht.once hu
    | true =>
      have hr : tries.any Attempt.accepted = false := by
        have h := (hsent hs).2.2
        rw [ht.routed_eq, hu] at h
        exact h.resolve_right (by simp)
      have hz : tries.filter Attempt.accepted = [] := by simpa using hr
      simp [hz]
  · exact fun hs => ⟨(hsent hs).1, (hsent hs).2.1⟩
  · intro hn
    exact ht.refused (ht.routed_eq.trans (hnone hn).2)
  · intro hn
    exact hrefused (hnone hn).1 (ht.routed_eq.trans (hnone hn).2)

end Ipmb.Routing
