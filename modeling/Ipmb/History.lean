import Ipmb.Conservation
import Ipmb.Loopback

namespace Ipmb.History

open Labels Messages Time Backend Run Controller Journal Routing Ledger Destinations Admission
  Accounting Turns Conservation Loopback

variable {M R W : Type} {p : Platform M R W} {its its₁ its₂ : List (Iteration M R W)}

/-- What has been sent by `s`, to a remote or over the local channel, stays sent, and
what is sent between `s` and `s'` satisfies `P`. -/
structure Sends (P : Tagged M → Prop) (s s' : State M R W) : Prop where
  remotes : ∃ log, s'.2.2 = s.2.2 ++ log ∧ ∀ a ∈ log, P a.message
  own : ∃ queue, s'.1.sender.queue = s.1.sender.queue ++ queue ∧ ∀ msg ∈ queue, P msg

variable {P : Tagged M → Prop} {s s' t : State M R W}

theorem Sends.of_eq (hlog : s'.2.2 = s.2.2) (hq : s'.1.sender = s.1.sender) : Sends P s s' :=
  ⟨⟨[], by simp [hlog]⟩, ⟨[], by simp [hq]⟩⟩

theorem Sends.trans (h : Sends P s s') (h' : Sends P s' t) : Sends P s t := by
  obtain ⟨⟨log, hlog, hp⟩, ⟨queue, hqueue, hq⟩⟩ := h
  obtain ⟨⟨log', hlog', hp'⟩, ⟨queue', hqueue', hq'⟩⟩ := h'
  refine ⟨⟨log ++ log', by rw [hlog', hlog, List.append_assoc], ?_⟩,
    ⟨queue ++ queue', by rw [hqueue', hqueue, List.append_assoc], ?_⟩⟩
  · exact List.forall_mem_append.mpr ⟨hp, hp'⟩
  · exact List.forall_mem_append.mpr ⟨hq, hq'⟩

theorem Sends.acceptedBy (h : Sends P s s') (d : Destination) : acceptedBy s d <+: acceptedBy s' d := by
  obtain ⟨⟨log, hlog, -⟩, ⟨queue, hqueue, -⟩⟩ := h
  cases d with
  | endpoint k => exact List.IsPrefix.filterMap _ ⟨log, hlog.symm⟩
  | own => exact List.IsPrefix.filterMap _ ⟨queue, hqueue.symm⟩

/-- No destination joins between `s` and `s'`. -/
structure Narrows (s s' : State M R W) : Prop where
  endpoints : s'.1.endpoints.Sublist s.1.endpoints
  label : s'.1.label = s.1.label
  alive : s'.1.sender.receiverAlive = true → s.1.sender.receiverAlive = true

theorem Narrows.trans (h : Narrows s s') (h' : Narrows s' t) : Narrows s t :=
  ⟨h'.endpoints.trans h.endpoints, h'.label.trans h.label, fun ha => h.alive (h'.alive ha)⟩

/-- Nobody is there whom the message is meant for. -/
def Unfit {M' R' : Type} (p : Platform M R W) (c : BusController M' R') (msg : M) : Prop :=
  (∀ ep ∈ c.endpoints, matching p msg ep.label = false) ∧
    (c.sender.receiverAlive = true → matching p msg c.label = false)

theorem Narrows.unfit (h : Narrows s s') {msg : M} (hu : Unfit p s.1 msg) : Unfit p s'.1 msg :=
  ⟨fun ep hep => hu.1 ep (h.endpoints.subset hep), fun ha => h.label ▸ hu.2 (h.alive ha)⟩

theorem routes_narrows {msg : Tagged M} {r : Option (Tagged M) × State M R W}
    {tries : List (Attempt M R)} {sent : Bool} (hr : Routes p msg s.1 s.2.2 r tries sent) :
    Narrows s r.2 where
  endpoints := hr.kept
  label := by rw [hr.frame]
  alive := hr.alive

theorem route_sends (msg : Tagged M) (h : P msg ∨ Unfit p s.1 msg.val) :
    Sends P s (route (journal p) s.1 s.2 msg).2 := by
  obtain ⟨tries, sent, hr⟩ := route_spec p msg s.1 s.2
  refine ⟨⟨tries, hr.log_eq, ?_⟩, ⟨_, hr.queue_eq, ?_⟩⟩
  · intro a ha
    obtain hp | hu := h
    · exact hr.message a ha ▸ hp
    · obtain ⟨ep, hep, -, hm⟩ := hr.matched a ha
      rw [hu.1 ep hep] at hm
      cases hm
  · cases sent with
    | false => simp
    | true =>
      obtain hp | hu := h
      · simpa using hp
      · obtain ⟨hm, ha⟩ := hr.sent_own rfl
        rw [hu.2 ha] at hm
        cases hm

theorem pass_narrows {now : Instant} {e : Instant × Tagged M} (h : Pass p now s e s') :
    Narrows s s' := by
  obtain ⟨tries, sent, hr⟩ := route_spec p e.2 s.1 s.2
  have hn := routes_narrows hr
  cases h with
  | delivered hr => exact hn
  | kept hr hnow => exact ⟨hn.endpoints, hn.label, hn.alive⟩
  | expired hr hnow => exact hn

theorem pass_sends {now : Instant} {e : Instant × Tagged M} (he : P e.2 ∨ Unfit p s.1 e.2.val)
    (h : Pass p now s e s') : Sends P s s' := by
  have hr := route_sends e.2 he
  cases h with
  | delivered _ => exact hr
  | kept _ _ => exact ⟨hr.remotes, hr.own⟩
  | expired _ _ => exact hr

theorem flush_sends (now : Instant) (hrouted : ∀ e ∈ s.1.messageBuffer, p.Routed e.2.val)
    (hbuf : ∀ e ∈ s.1.messageBuffer, P e.2 ∨ Unfit p s.1 e.2.val) :
    Sends P s (flush (journal p) now s) := by
  obtain ⟨u, ⟨-, hu⟩, heq⟩ := flush_invariant (p := p) now
    (fun _ u => Narrows s u ∧ Sends P s u) s hrouted
    ⟨⟨List.Sublist.refl _, rfl, id⟩, Sends.of_eq rfl rfl⟩
    (fun e _ u v he hu hpass => ⟨hu.1.trans (pass_narrows hpass),
      hu.2.trans (pass_sends ((hbuf e he).imp id hu.1.unfit) hpass)⟩)
  rw [heq]
  exact ⟨hu.remotes, hu.own⟩

/-- All that one iteration sends satisfies `P`, if the message it receives does, and
what is buffered either does or cannot be sent. -/
theorem iterate_sends {n : Nat} {it : Iteration M R W} (hs : Between p its s)
    (hacks : ∀ msg : Tagged M, msg.tag = none → P msg)
    (hmsg : ∀ msg, it.received = .ok msg → P ⟨some n, msg⟩)
    (hbuf : ∀ msg ep, it.received = .ok msg →
      Admits (journal p) s.1 (it.interfere s.2.1, s.2.2) ⟨some n, msg⟩ ep →
      ∀ e ∈ s.1.messageBuffer,
        P e.2 ∨ Unfit p { s.1 with endpoints := s.1.endpoints ++ [ep] } e.2.val)
    (h : iterate (journal p) s (numbered n it) = some s') : Sends P s s' := by
  have hack : ∀ (c : BusController (Tagged M) (Tagged R)) (w : W) (acks : List (Attempt M R)),
      c.sender = s.1.sender → Acks acks → Sends P s (c, w, s.2.2 ++ acks) := by
    intro c w acks hc ha
    exact ⟨⟨acks, rfl, fun a hmem => hacks _ (ha a hmem)⟩, ⟨[], by simp [hc], by simp⟩⟩
  obtain ⟨w, acks, -, ha, rfl⟩ | ⟨msg, v, hm, ht, rfl⟩ := iterate_cases h
  · exact hack s.1 w acks rfl ha
  · have hv : Sends P (s.1, it.interfere s.2.1, s.2.2) v := by
      have hroute := route_sends (p := p) (s := (s.1, it.interfere s.2.1, s.2.2)) ⟨some n, msg⟩
        (Or.inl (hmsg msg hm))
      cases ht with
      | quiet _ w ha => exact ⟨(hack s.1 w _ rfl ha).remotes, (hack s.1 w _ rfl ha).own⟩
      | admitted _ w ha _ _ => exact ⟨(hack s.1 w _ rfl ha).remotes, (hack s.1 w _ rfl ha).own⟩
      | @flushed _ w acks ha ep hadm =>
        have hfirst := hack { s.1 with endpoints := s.1.endpoints ++ [ep] } w acks rfl ha
        have hflush := flush_sends (p := p) it.now
          (s := ({ s.1 with endpoints := s.1.endpoints ++ [ep] }, w, s.2.2 ++ acks))
          (fun e he => (hs.entries e he).routed) (hbuf msg ep hm hadm)
        exact ⟨(hfirst.trans hflush).remotes, (hfirst.trans hflush).own⟩
      | delivered _ _ => exact hroute
      | dropped _ _ _ => exact hroute
      | kept _ _ _ _ => exact ⟨hroute.remotes, hroute.own⟩
    obtain ⟨eps, w, t, -, heq⟩ := detectReachable_cases (p := p) it.now v
    rw [heq]
    exact ⟨hv.remotes, hv.own⟩

theorem journalRun_grows {label : Label} {token : String} {now : Instant} {w : W}
    {s₁ s : State M R W} (h₁ : journalRun p (start label token now w) its₁ = some s₁)
    (h : journalRun p (start label token now w) (its₁ ++ its₂) = some s) (d : Destination) :
    acceptedBy s₁ d <+: acceptedBy s d := by
  induction its₂ using List.reverseRecOn generalizing s with
  | nil =>
    rw [List.append_nil, h₁, Option.some.injEq] at h
    exact h ▸ List.prefix_rfl
  | append_singleton its it ih =>
    rw [← List.append_assoc] at h
    obtain ⟨u, hu, hs⟩ := journalRun_concat h
    have hsends : Sends (fun _ => True) u s := iterate_sends (journalRun_between hu)
      (fun _ _ => trivial) (fun _ _ => trivial) (fun _ _ _ _ _ _ => Or.inl trivial) hs
    exact (ih hu).trans (hsends.acceptedBy d)

section Own

/-- What is in the controller's own channel is meant for its label. -/
structure OwnMeant (p : Platform M R W) (label : Label) (s : State M R W) : Prop where
  kept : s.1.label = label
  queue : ∀ msg ∈ s.1.sender.queue, matching p msg.val label = true

variable {label : Label}

theorem OwnMeant.route (h : OwnMeant p label s) (msg : Tagged M) :
    OwnMeant p label (route (journal p) s.1 s.2 msg).2 := by
  obtain ⟨tries, sent, hr⟩ := route_spec p msg s.1 s.2
  refine ⟨by rw [hr.frame]; exact h.kept, ?_⟩
  rw [hr.queue_eq]
  refine List.forall_mem_append.mpr ⟨h.queue, ?_⟩
  cases sent with
  | false => simp
  | true => simpa using h.kept ▸ (hr.sent_own rfl).1

theorem OwnMeant.pass (h : OwnMeant p label s) {now : Instant} {e : Instant × Tagged M}
    (hp : Pass p now s e s') : OwnMeant p label s' := by
  have hr := h.route e.2
  cases hp with
  | delivered _ => exact hr
  | kept _ _ => exact ⟨hr.kept, hr.queue⟩
  | expired _ _ => exact hr

theorem OwnMeant.flush (h : OwnMeant p label s) (now : Instant)
    (hrouted : ∀ e ∈ s.1.messageBuffer, p.Routed e.2.val) :
    OwnMeant p label (flush (journal p) now s) := by
  obtain ⟨u, hu, heq⟩ := flush_invariant (p := p) now (fun _ u => OwnMeant p label u) s hrouted
    ⟨h.kept, h.queue⟩ (fun e _ u v _ hu hpass => hu.pass hpass)
  rw [heq]
  exact ⟨hu.kept, hu.queue⟩

theorem OwnMeant.iterate (h : OwnMeant p label s) (hs : Between p its s) {n : Nat} {it : Iteration M R W}
    (hi : iterate (journal p) s (numbered n it) = some s') : OwnMeant p label s' := by
  obtain ⟨w, acks, -, -, rfl⟩ | ⟨msg, v, -, ht, rfl⟩ := iterate_cases hi
  · exact ⟨h.kept, h.queue⟩
  · have hfirst : OwnMeant p label (s.1, it.interfere s.2.1, s.2.2) := ⟨h.kept, h.queue⟩
    have hv : OwnMeant p label v := by
      cases ht with
      | quiet _ w ha => exact ⟨h.kept, h.queue⟩
      | admitted _ w ha _ _ => exact ⟨h.kept, h.queue⟩
      | @flushed _ w acks ha ep hadm =>
        have hopened : OwnMeant p label
            ({ s.1 with endpoints := s.1.endpoints ++ [ep] }, w, s.2.2 ++ acks) := ⟨h.kept, h.queue⟩
        exact hopened.flush it.now fun e he => (hs.entries e he).routed
      | delivered _ _ => exact hfirst.route _
      | dropped _ _ _ => exact hfirst.route _
      | kept _ _ _ _ => exact ⟨(hfirst.route _).kept, (hfirst.route _).queue⟩
    obtain ⟨eps, w, t, -, heq⟩ := detectReachable_cases (p := p) it.now v
    rw [heq]
    exact ⟨hv.kept, hv.queue⟩

theorem journalRun_own {token : String} {now : Instant} {w : W}
    (h : journalRun p (start label token now w) its = some s) : OwnMeant p label s := by
  induction its using List.reverseRecOn generalizing s with
  | nil =>
    cases h
    exact ⟨rfl, by simp [start, new]⟩
  | append_singleton its it ih =>
    obtain ⟨u, hu, hs⟩ := journalRun_concat h
    exact (ih hu).iterate (journalRun_between hu) hs

end Own

/-- The accounts of a run that has ended in `s`: where each message to route is,
and that it stays where it has been accepted. -/
structure Accounted (p : Platform M R W) (label : Label) (token : String) (now : Instant) (w : W)
    (its : List (Iteration M R W)) (s : State M R W) : Prop where
  fate : ∀ n, Arrived p its n →
    ∃! f, Fate.Of (Lost p its) (acceptedBy s) (buffered s.1.messageBuffer) n f
  buffer : ∀ e ∈ s.1.messageBuffer, Entry p its e
  sent : ∀ a ∈ s.2.2, Genuine p its a.message ∧
    (a.message.tag ≠ none → ∃ k < its.length, a.remote.tag = some k)
  handed : ∀ msg ∈ s.1.sender.queue, Known p its msg
  unicast : ∀ n, Single p its n → ∀ d d', n ∈ acceptedBy s d → n ∈ acceptedBy s d' → d = d'
  once : ∀ d, (acceptedBy s d).Nodup
  settled : ∀ its₁ its₂ s₁, its = its₁ ++ its₂ →
    journalRun p (start label token now w) its₁ = some s₁ →
    ∀ d, ∀ n ∈ acceptedBy s₁ d, n ∈ acceptedBy s d ∧ n ∉ buffered s.1.messageBuffer
  swap : s.1.messageBufferSwap = []

/-- No message is lost or duplicated, whatever the sends, the clock and the local
channel do: every state of the loop is the erasure of one whose accounts are in order. -/
theorem controller_accounting {label : Label} {token : String} {now : Instant} {w : W}
    {t : BusController M R × W} (h : run (iterate p) (new label token now, w) its = some t) :
    ∃ s, journalRun p (start label token now w) its = some s ∧ eraseState s = t ∧
      Accounted p label token now w its s := by
  obtain ⟨s, hs, ht⟩ := exists_journalRun h
  refine ⟨s, hs, ht, ?_⟩
  obtain ⟨hacc, hentries, hswap⟩ := journalRun_between hs
  refine ⟨fun n hn => hacc.exact.existsUnique_fate hn, hentries,
    fun a ha => ⟨hacc.log_genuine a ha, hacc.log_stamped a ha⟩, hacc.queue_known,
    fun n hn d d' => hacc.exact.accepted_single n d d' hn, hacc.exact.accepted_nodup, ?_, hswap⟩
  rintro its₁ its₂ s₁ rfl h₁ d n hn
  have hn' := (journalRun_grows h₁ hs d).subset hn
  exact ⟨hn', fun hb => hacc.exact.waiting_unaccepted n hb d hn'⟩

/-- A message waits for its endpoint, the connect request lets it through, and a
multicast then goes out at once. -/
def lateEndpoint : List (Iteration Mail Nat Net) :=
  [receive (mailTo "a" .unicast (.ofNanos 10)) (.ofNanos 0), receive (connectMail 7) (.ofNanos 1),
    receive (mailTo "a" .multicast .zero) (.ofNanos 2)]

theorem controller_accounting_lateEndpoint :
    ∃ t s, run (iterate (loopback (sameRequest "a"))) (new ⟨["c"]⟩ "token" (.ofNanos 0), quietNet)
        lateEndpoint = some t ∧
      journalRun (loopback (sameRequest "a")) (start ⟨["c"]⟩ "token" (.ofNanos 0) quietNet)
        lateEndpoint = some s ∧ eraseState s = t ∧
      Accounted (loopback (sameRequest "a")) ⟨["c"]⟩ "token" (.ofNanos 0) quietNet lateEndpoint s := by
  obtain ⟨t, ht⟩ := Option.isSome_iff_exists.mp (by decide : (run (iterate (loopback (sameRequest "a")))
    (new ⟨["c"]⟩ "token" (.ofNanos 0), quietNet) lateEndpoint).isSome = true)
  obtain ⟨s, hs⟩ := controller_accounting ht
  exact ⟨t, s, ht, hs⟩

end Ipmb.History
