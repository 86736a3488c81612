import Ipmb.Admission

namespace Ipmb.Accounting

open Messages Time Backend Retain Run Controller Journal Routing Ledger Destinations Admission

variable {M R W : Type}

/-- Message number `n` of the run. -/
def Received (its : List (Iteration M R W)) (n : Nat) (it : Iteration M R W) (msg : M) : Prop :=
  its[n]? = some it ∧ it.received = .ok msg

def Arrived (p : Platform M R W) (its : List (Iteration M R W)) (n : Nat) : Prop :=
  ∃ it msg, Received its n it msg ∧ p.Routed msg

def Single (p : Platform M R W) (its : List (Iteration M R W)) (n : Nat) : Prop :=
  ∃ it msg, Received its n it msg ∧ (p.selector msg).mode = .unicast

/-- The only reasons to discard a message: it had no time to live, or some
iteration's clock had reached its expiry. -/
def Lost (p : Platform M R W) (its : List (Iteration M R W)) (n : Nat) : Prop :=
  ∃ it msg, Received its n it msg ∧ ((p.selector msg).ttl.isZero = true ∨
    ∃ expire k it', it.now.add (p.selector msg).ttl = some expire ∧ n ≤ k ∧ its[k]? = some it' ∧
      expire ≤ it'.now)

/-- A tagged message is the routed message that was received under its number. -/
def Genuine (p : Platform M R W) (its : List (Iteration M R W)) (msg : Tagged M) : Prop :=
  ∀ n, msg.tag = some n → ∃ it, Received its n it msg.val ∧ p.Routed msg.val

/-- The message is one of those received, and tagged. -/
def Known (p : Platform M R W) (its : List (Iteration M R W)) (msg : Tagged M) : Prop :=
  msg.tag ≠ none ∧ Genuine p its msg

/-- A buffer entry holds a received message and the expiry computed from it. -/
def Entry (p : Platform M R W) (its : List (Iteration M R W)) (e : Instant × Tagged M) : Prop :=
  ∃ n it, e.2.tag = some n ∧ Received its n it e.2.val ∧ p.Routed e.2.val ∧
    it.now.add (p.selector e.2.val).ttl = some e.1

theorem Received.lt {its : List (Iteration M R W)} {n : Nat} {it : Iteration M R W} {msg : M}
    (h : Received its n it msg) : n < its.length :=
  (List.getElem?_eq_some_iff.mp h.1).1

theorem Received.unique {its : List (Iteration M R W)} {n : Nat} {it it' : Iteration M R W}
    {msg msg' : M} (h : Received its n it msg) (h' : Received its n it' msg') :
    it = it' ∧ msg = msg' := by
  have hit : it = it' := Option.some.inj (h.1.symm.trans h'.1)
  subst hit
  exact ⟨rfl, Except.ok.inj (h.2.symm.trans h'.2)⟩

theorem Received.append {its : List (Iteration M R W)} {n : Nat} {it : Iteration M R W} {msg : M}
    (h : Received its n it msg) (its' : List (Iteration M R W)) :
    Received (its ++ its') n it msg :=
  ⟨by rw [List.getElem?_append_left h.lt]; exact h.1, h.2⟩

theorem Received.last {its : List (Iteration M R W)} {it : Iteration M R W} {msg : M}
    (h : it.received = .ok msg) : Received (its ++ [it]) its.length it msg :=
  ⟨List.getElem?_concat_length, h⟩

theorem received_concat {its : List (Iteration M R W)} {n : Nat} {it it' : Iteration M R W}
    {msg : M} (h : Received (its ++ [it]) n it' msg) :
    Received its n it' msg ∨ n = its.length ∧ it' = it ∧ it.received = .ok msg := by
  obtain hn | hn := Nat.lt_or_ge n its.length
  · refine Or.inl ⟨?_, h.2⟩
    rw [← h.1, List.getElem?_append_left hn]
  · have hlt := h.lt
    rw [List.length_append, List.length_singleton] at hlt
    have hn' : n = its.length := by omega
    subst hn'
    have hit : it' = it := by
      have h1 := h.1
      rw [List.getElem?_concat_length] at h1
      exact (Option.some.inj h1).symm
    exact Or.inr ⟨rfl, hit, hit ▸ h.2⟩

variable {p : Platform M R W} {its : List (Iteration M R W)}

theorem Lost.append {n : Nat} (h : Lost p its n) (its' : List (Iteration M R W)) :
    Lost p (its ++ its') n := by
  obtain ⟨it, msg, hr, hl⟩ := h
  refine ⟨it, msg, hr.append its', hl.imp id ?_⟩
  rintro ⟨expire, k, it', he, hk, hit, hle⟩
  refine ⟨expire, k, it', he, hk, ?_, hle⟩
  rw [List.getElem?_append_left (List.getElem?_eq_some_iff.mp hit).1, hit]

theorem Genuine.append {msg : Tagged M} (h : Genuine p its msg) (its' : List (Iteration M R W)) :
    Genuine p (its ++ its') msg := by
  intro n hn
  obtain ⟨it, hr, hp⟩ := h n hn
  exact ⟨it, hr.append its', hp⟩

theorem Genuine.of_tag_none {msg : Tagged M} (h : msg.tag = none) : Genuine p its msg := by
  intro n hn
  rw [h] at hn
  cases hn

theorem Entry.append {e : Instant × Tagged M} (h : Entry p its e) (its' : List (Iteration M R W)) :
    Entry p (its ++ its') e := by
  obtain ⟨n, it, ht, hr, hp, he⟩ := h
  exact ⟨n, it, ht, hr.append its', hp, he⟩

theorem Entry.genuine {e : Instant × Tagged M} (h : Entry p its e) : Genuine p its e.2 := by
  obtain ⟨n, it, ht, hr, hp, -⟩ := h
  intro k hk
  rw [ht] at hk
  cases hk
  exact ⟨it, hr, hp⟩

theorem Entry.routed {e : Instant × Tagged M} (h : Entry p its e) : p.Routed e.2.val := by
  obtain ⟨-, -, -, -, hp, -⟩ := h
  exact hp

/-- An entry whose expiry the last iteration has reached may be dropped. -/
theorem Entry.lost {e : Instant × Tagged M} {it : Iteration M R W} (h : Entry p (its ++ [it]) e)
    (hnow : e.1 ≤ it.now) {n : Nat} (hn : e.2.tag = some n) : Lost p (its ++ [it]) n := by
  obtain ⟨k, it', ht, hr, -, he⟩ := h
  rw [hn] at ht
  cases ht
  have hlt := hr.lt
  rw [List.length_append, List.length_singleton] at hlt
  refine ⟨it', e.2.val, hr, Or.inr ⟨e.1, its.length, it, he, by omega, ?_, hnow⟩⟩
  exact List.getElem?_concat_length

/-- What holds at every moment of an iteration, of the messages that are still
waiting then. -/
structure Accounts (p : Platform M R W) (its : List (Iteration M R W)) (s : State M R W)
    (waiting : List Nat) : Prop where
  exact : Exact (Arrived p its) (Single p its) (Lost p its) (acceptedBy s) waiting
  stamped : Stamped its.length s.1.endpoints
  log_stamped : ∀ a ∈ s.2.2, a.message.tag ≠ none → ∃ k < its.length, a.remote.tag = some k
  log_genuine : ∀ a ∈ s.2.2, Genuine p its a.message
  queue_known : ∀ msg ∈ s.1.sender.queue, Known p its msg

theorem arrived_concat (it : Iteration M R W) (n : Nat) :
    Arrived p (its ++ [it]) n ↔
      Arrived p its n ∨ n = its.length ∧ ∃ msg, it.received = .ok msg ∧ p.Routed msg := by
  constructor
  · rintro ⟨it', msg, hr, hp⟩
    obtain hr | ⟨hn, -, hm⟩ := received_concat hr
    · exact Or.inl ⟨it', msg, hr, hp⟩
    · exact Or.inr ⟨hn, msg, hm, hp⟩
  · rintro (⟨it', msg, hr, hp⟩ | ⟨rfl, msg, hm, hp⟩)
    · exact ⟨it', msg, hr.append _, hp⟩
    · exact ⟨it, msg, Received.last hm, hp⟩

theorem not_arrived_length : ¬ Arrived p its its.length := by
  rintro ⟨it, msg, hr, -⟩
  exact Nat.lt_irrefl _ hr.lt

theorem single_of_append {it : Iteration M R W} {n : Nat} (ha : Arrived p its n)
    (h : Single p (its ++ [it]) n) : Single p its n := by
  obtain ⟨it', msg, hr, -⟩ := ha
  obtain ⟨it'', msg', hr', hu⟩ := h
  obtain ⟨-, rfl⟩ := (hr.append [it]).unique hr'
  exact ⟨it', msg, hr, hu⟩

theorem Accounts.log_stamped_append {s : State M R W} {waiting : List Nat}
    (h : Accounts p its s waiting) (it : Iteration M R W) :
    ∀ a ∈ s.2.2, a.message.tag ≠ none → ∃ k < (its ++ [it]).length, a.remote.tag = some k := by
  intro a ha hne
  obtain ⟨k, hk, ht⟩ := h.log_stamped a ha hne
  refine ⟨k, ?_, ht⟩
  rw [List.length_append]
  exact Nat.lt_add_right _ hk

/-- An iteration that brings no message to route leaves the accounts as they are. -/
theorem Accounts.extend {s : State M R W} {waiting : List Nat} (h : Accounts p its s waiting)
    (it : Iteration M R W) (hit : ∀ msg, it.received = .ok msg → ¬ p.Routed msg) :
    Accounts p (its ++ [it]) s waiting where
  exact := by
    refine h.exact.congr (fun n => ?_) (fun n ha hs => single_of_append ha hs)
      (fun n _ hl => hl.append [it])
    rw [arrived_concat]
    apply or_iff_left
    rintro ⟨-, msg, hm, hp⟩
    exact hit msg hm hp
  stamped := h.stamped.mono (by simp)
  log_stamped := h.log_stamped_append it
  log_genuine a ha := (h.log_genuine a ha).append [it]
  queue_known msg hm := ⟨(h.queue_known msg hm).1, (h.queue_known msg hm).2.append [it]⟩

/-- A message to route is first of all waiting. -/
theorem Accounts.arrive {s : State M R W} {waiting : List Nat} (h : Accounts p its s waiting)
    (it : Iteration M R W) {msg : M} (hm : it.received = .ok msg) (hp : p.Routed msg) :
    Accounts p (its ++ [it]) s (waiting ++ [its.length]) where
  exact := by
    have h' : Exact (Arrived p its) (Single p (its ++ [it])) (Lost p (its ++ [it]))
        (acceptedBy s) waiting :=
      h.exact.congr (fun _ => Iff.rfl) (fun n ha hs => single_of_append ha hs)
        (fun n _ hl => hl.append [it])
    refine h'.arrive not_arrived_length (fun k => ?_)
    rw [arrived_concat]
    exact or_congr Iff.rfl ⟨fun hk => hk.1, fun hk => ⟨hk, msg, hm, hp⟩⟩
  stamped := h.stamped.mono (by simp)
  log_stamped := h.log_stamped_append it
  log_genuine a ha := (h.log_genuine a ha).append [it]
  queue_known msg hm := ⟨(h.queue_known msg hm).1, (h.queue_known msg hm).2.append [it]⟩

theorem Accounts.drop {s : State M R W} {waiting waiting' : List Nat}
    (h : Accounts p its s waiting) (hw : waiting'.Sublist waiting)
    (hl : ∀ n ∈ waiting, n ∉ waiting' → Lost p its n) : Accounts p its s waiting' :=
  { h with exact := h.exact.drop hw hl }

/-- A change of the state that delivers no message. -/
theorem Accounts.frame {s s' : State M R W} {waiting : List Nat} (h : Accounts p its s waiting)
    (hends : Stamped its.length s'.1.endpoints) (hq : s'.1.sender = s.1.sender)
    {acks : List (Attempt M R)} (hlog : s'.2.2 = s.2.2 ++ acks) (hacks : Acks acks) :
    Accounts p its s' waiting where
  exact := by
    rw [acceptedBy_acks hacks hlog hq]
    exact h.exact
  stamped := hends
  log_stamped a ha hne := by
    rw [hlog] at ha
    obtain ha | ha := List.mem_append.mp ha
    · exact h.log_stamped a ha hne
    · exact absurd (hacks a ha) hne
  log_genuine a ha := by
    rw [hlog] at ha
    obtain ha | ha := List.mem_append.mp ha
    · exact h.log_genuine a ha
    · exact Genuine.of_tag_none (hacks a ha)
  queue_known msg hm := h.queue_known msg (hq ▸ hm)

/-- Routing a waiting message: it is delivered and leaves the store, or it remains
and nothing has been delivered. -/
theorem Accounts.routing {s : State M R W} {pre post : List Nat} {n : Nat} {msg : Tagged M}
    (h : Accounts p its s (pre ++ n :: post)) (hn : msg.tag = some n) (hg : Genuine p its msg) :
    ((route (journal p) s.1 s.2 msg).1 = none →
        Accounts p its (route (journal p) s.1 s.2 msg).2 (pre ++ post)) ∧
      ((route (journal p) s.1 s.2 msg).1 ≠ none →
        Accounts p its (route (journal p) s.1 s.2 msg).2 (pre ++ n :: post)) := by
  obtain ⟨tries, sent, hr⟩ := route_spec p msg s.1 s.2
  generalize route (journal p) s.1 s.2 msg = r at hr ⊢
  have hacc := acceptedBy_route hn s h.stamped hr
  have hnil := takers_eq_nil h.stamped hr
  have hstamp : ∀ a ∈ r.2.2.2, a.message.tag ≠ none → ∃ k < its.length, a.remote.tag = some k := by
    intro a ha hne
    rw [hr.log_eq] at ha
    obtain ha | ha := List.mem_append.mp ha
    · exact h.log_stamped a ha hne
    · obtain ⟨ep, hep, hrem, -⟩ := hr.matched a ha
      rw [hrem]
      exact h.stamped.below ep hep
  have hlog : ∀ a ∈ r.2.2.2, Genuine p its a.message := by
    intro a ha
    rw [hr.log_eq] at ha
    obtain ha | ha := List.mem_append.mp ha
    · exact h.log_genuine a ha
    · exact hr.message a ha ▸ hg
  have hqueue : ∀ m ∈ r.2.1.sender.queue, Known p its m := by
    intro m hm
    rw [hr.queue_eq] at hm
    obtain hm | hm := List.mem_append.mp hm
    · exact h.queue_known m hm
    · cases sent with
      | false => simp at hm
      | true =>
        rw [if_pos rfl, List.mem_singleton] at hm
        exact hm ▸ ⟨by simp [hn], hg⟩
  constructor
  · intro hnone
    refine ⟨?_, h.stamped.sublist hr.kept, hstamp, hlog, hqueue⟩
    rw [hacc]
    apply h.exact.deliver (fun he => hnil.mp he hnone)
    -- a unicast message has at most one taker
    rintro ⟨it, m, hrec, hu⟩ d hd d' hd'
    obtain ⟨it', hrec', -⟩ := hg n hn
    obtain ⟨-, rfl⟩ := hrec.unique hrec'
    have hlen := Nat.le_trans (length_takers_le tries sent) (hr.once hu)
    match htk : takers tries sent, hlen with
    | [], _ => rw [htk] at hd; cases hd
    | [t], _ =>
      rw [htk, List.mem_singleton] at hd hd'
      exact hd.trans hd'.symm
  · intro hne
    have htk := hnil.mpr hne
    refine ⟨?_, h.stamped.sublist hr.kept, hstamp, hlog, hqueue⟩
    rw [hacc, htk, deliver_nil]
    exact h.exact

end Ipmb.Accounting
