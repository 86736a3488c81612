import Ipmb.History
import Ipmb.Sequence

namespace Ipmb.Order

open Labels Messages Time Backend Run Controller Journal Routing Ledger Destinations Admission
  Accounting Turns Conservation History Sequence Loopback

variable {M R W : Type} {p : Platform M R W} {its : List (Iteration M R W)} {it : Iteration M R W}
  {s s' : State M R W} {n : Nat} {kept pending : List Nat}

/-- The destination is there, and message `n` is meant for its label. -/
def Wanted (p : Platform M R W) (its : List (Iteration M R W)) (s : State M R W) :
    Destination → Nat → Prop
  | .endpoint k, n => ∃ it msg, Received its n it msg ∧ ∃ ep ∈ s.1.endpoints,
      ep.remote.tag = some k ∧ matching p msg ep.label = true
  | .own, n => ∃ it msg, Received its n it msg ∧ s.1.sender.receiverAlive = true ∧
      matching p msg s.1.label = true

abbrev InOrder (p : Platform M R W) (its : List (Iteration M R W)) (s : State M R W)
    (kept pending : List Nat) : Prop :=
  Ordered (Wanted p its s) (acceptedBy s) kept pending

theorem wanted_of_narrows (h : Narrows s s') {d : Destination} (hd : Wanted p its s' d n) :
    Wanted p its s d n := by
  cases d with
  | endpoint k =>
    obtain ⟨it, msg, hr, ep, hep, hrest⟩ := hd
    exact ⟨it, msg, hr, ep, h.endpoints.subset hep, hrest⟩
  | own =>
    obtain ⟨it, msg, hr, ha, hm⟩ := hd
    exact ⟨it, msg, hr, h.alive ha, h.label ▸ hm⟩

theorem wanted_of_append {d : Destination} (hn : n < its.length)
    (hd : Wanted p (its ++ [it]) s d n) : Wanted p its s d n := by
  have hback : ∀ {it' msg}, Received (its ++ [it]) n it' msg → Received its n it' msg := by
    intro it' msg hr
    exact (received_concat hr).resolve_right (fun hlast => absurd hlast.1 (Nat.ne_of_lt hn))
  cases d with
  | endpoint k =>
    obtain ⟨it', msg, hr, hrest⟩ := hd
    exact ⟨it', msg, hback hr, hrest⟩
  | own =>
    obtain ⟨it', msg, hr, hrest⟩ := hd
    exact ⟨it', msg, hback hr, hrest⟩

theorem frame (h : InOrder p its s kept pending) (hn : Narrows s s')
    (ha : acceptedBy s' = acceptedBy s) : InOrder p its s' kept pending := by
  rw [InOrder]
  rw [ha]
  exact h.shrink (fun _ _ _ hd => wanted_of_narrows hn hd)

section Routing

variable {msg : Tagged M} {r : Option (Tagged M) × State M R W} {tries : List (Attempt M R)}
  {sent : Bool}

theorem wanted_of_taker (hr : Routes p msg s.1 s.2.2 r tries sent)
    (hrec : Received its n it msg.val) : ∀ d ∈ takers tries sent, Wanted p its s d n := by
  intro d hd
  cases d with
  | endpoint k =>
    obtain ⟨a, ha, -, hk⟩ := (endpoint_mem_takers tries sent k).mp hd
    obtain ⟨ep, hep, hrem, hm⟩ := hr.matched a ha
    exact ⟨it, msg.val, hrec, ep, hep, hrem ▸ hk, hm⟩
  | own =>
    obtain ⟨hm, ha⟩ := hr.sent_own ((own_mem_takers tries sent).mp hd)
    exact ⟨it, msg.val, hrec, ha, hm⟩

/-- A message that remains fits nobody who is left: whoever it was offered to has
answered `Disconnect`. -/
theorem unwanted (hp : p.SendsOrDisconnects) (hr : Routes p msg s.1 s.2.2 r tries sent)
    (hrec : Received its n it msg.val) (hne : r.1 ≠ none) (d : Destination) :
    ¬ Wanted p its r.2 d n := by
  intro hd
  cases d with
  | endpoint k =>
    obtain ⟨it', msg', hrec', ep, hep, -, hm⟩ := hd
    obtain ⟨-, rfl⟩ := hrec.unique hrec'
    obtain ⟨a, ha, -, hna, hnd⟩ := hr.refused hne ep hep hm
    obtain ⟨w, hout⟩ := hr.sends a ha
    obtain hok | hdis := hp w msg.val a.remote.val
    · rw [hok] at hout
      simp [Attempt.accepted, hout, Except.isOk, Except.toBool] at hna
    · exact hnd (hout.trans hdis)
  | own =>
    obtain ⟨it', msg', hrec', ha, hm⟩ := hd
    obtain ⟨-, rfl⟩ := hrec.unique hrec'
    have hlabel : r.2.1.label = s.1.label := by rw [hr.frame]
    rw [hr.refused_own hne (hlabel ▸ hm)] at ha
    cases ha

end Routing

theorem route_order (hp : p.SendsOrDisconnects) {msg : Tagged M} {bound : Nat}
    (hs : Stamped bound s.1.endpoints) (ht : msg.tag = some n) (hrec : Received its n it msg.val)
    (h : InOrder p its s kept (n :: pending)) :
    ((route (journal p) s.1 s.2 msg).1 = none →
        InOrder p its (route (journal p) s.1 s.2 msg).2 kept pending) ∧
      ((route (journal p) s.1 s.2 msg).1 ≠ none →
        InOrder p its (route (journal p) s.1 s.2 msg).2 (kept ++ [n]) pending) := by
  obtain ⟨tries, sent, hr⟩ := route_spec p msg s.1 s.2
  generalize route (journal p) s.1 s.2 msg = r at hr ⊢
  have hacc := acceptedBy_route ht s hs hr
  constructor
  · intro _
    rw [InOrder]
    rw [hacc]
    apply (h.deliver (wanted_of_taker hr hrec)).shrink
    exact fun _ _ _ hd => wanted_of_narrows (routes_narrows hr) hd
  · intro hne
    have hsame : acceptedBy r.2 = acceptedBy s := by
      rw [hacc, (takers_eq_nil hs hr).mpr hne, deliver_nil]
    exact Ordered.hold (frame h (routes_narrows hr) hsame) (unwanted hp hr hrec hne)

/-- The next element of the drained buffer is delivered, held in the swap vector, or
dropped because it has expired. -/
theorem pass_order (hp : p.SendsOrDisconnects) {now : Instant} {e : Instant × Tagged M}
    {rest : List (Instant × Tagged M)} {bound : Nat} (he : Entry p its e)
    (hs : Stamped bound s.1.endpoints)
    (h : InOrder p its s (buffered s.1.messageBufferSwap) (buffered (e :: rest)))
    (hpass : Pass p now s e s') :
    InOrder p its s' (buffered s'.1.messageBufferSwap) (buffered rest) := by
  obtain ⟨n, it, ht, hrec, -, -⟩ := he
  have hcons : buffered (e :: rest) = n :: buffered rest := by simp [buffered, ht]
  have hfr := (route_buffer (p := p) s e.2).2
  rw [hcons] at h
  obtain ⟨hnone, hsome⟩ := route_order hp hs ht hrec h
  cases hpass with
  | delivered hr =>
    rw [hfr]
    exact hnone hr
  | kept hr hnow =>
    have hb : buffered (s.1.messageBufferSwap ++ [e]) = buffered s.1.messageBufferSwap ++ [n] := by
      simp [buffered, ht]
    rw [hb]
    exact frame (hsome hr) ⟨List.Sublist.refl _, rfl, id⟩ rfl
  | expired hr hnow =>
    rw [hfr]
    exact (hsome hr).drop (List.sublist_append_left _ _) (List.Sublist.refl _)

theorem flush_order (hp : p.SendsOrDisconnects) {now : Instant} {bound : Nat}
    (hentries : ∀ e ∈ s.1.messageBuffer, Entry p its e) (hs : Stamped bound s.1.endpoints)
    (hswap : s.1.messageBufferSwap = []) (h : InOrder p its s [] (buffered s.1.messageBuffer)) :
    InOrder p its (flush (journal p) now s)
      (buffered (flush (journal p) now s).1.messageBuffer) [] := by
  obtain ⟨u, ⟨-, hu⟩, heq⟩ := flush_invariant (p := p) now
    (fun rest u => Stamped bound u.1.endpoints ∧
      InOrder p its u (buffered u.1.messageBufferSwap) (buffered rest)) s
    (fun e he => (hentries e he).routed)
    ⟨hs, by
      rw [hswap]
      exact frame h ⟨List.Sublist.refl _, rfl, id⟩ rfl⟩
    (fun e rest u v he hu hpass => ⟨hu.1.sublist (pass_narrows hpass).endpoints,
      pass_order hp (hentries e he) hu.1 hu.2 hpass⟩)
  rw [heq]
  exact frame hu ⟨List.Sublist.refl _, rfl, id⟩ rfl

/-- A new endpoint has accepted nothing yet, so the whole buffer may be offered. -/
theorem admit_order {msg : Tagged M} (hb : Between p its s) (hm : msg.tag = some its.length)
    (h : InOrder p (its ++ [it]) s (buffered s.1.messageBuffer) []) (w : W)
    {acks : List (Attempt M R)} (hacks : Acks acks) {ep : Endpoint (Tagged R)}
    (hadm : Admits (journal p) s.1 s.2 msg ep) :
    InOrder p (its ++ [it]) ({ s.1 with endpoints := s.1.endpoints ++ [ep] }, w, s.2.2 ++ acks) []
      (buffered s.1.messageBuffer) := by
  have hnew : acceptedBy s (.endpoint its.length) = [] := by
    rw [acceptedBy, List.filterMap_eq_nil_iff]
    intro a ha
    rw [takenBy]
    split
    · rename_i htaken
      by_contra hne
      obtain ⟨k, hk, hrem⟩ := hb.accounts.log_stamped a ha hne
      rw [htaken.2] at hrem
      cases hrem
      exact Nat.lt_irrefl _ hk
    · rfl
  have hsame : acceptedBy ({ s.1 with endpoints := s.1.endpoints ++ [ep] }, w, s.2.2 ++ acks) =
      acceptedBy s := acceptedBy_acks hacks rfl rfl
  rw [InOrder]
  rw [hsame]
  apply h.join
  intro d n _ hd
  cases d with
  | endpoint k =>
    obtain ⟨it', msg', hrec, e, he, hk, hmatch⟩ := hd
    obtain he | he := List.mem_append.mp he
    · exact Or.inl ⟨it', msg', hrec, e, he, hk, hmatch⟩
    · rw [List.mem_singleton] at he
      have hstamp := hadm.stamp.trans hm
      rw [← he, hk, Option.some.injEq] at hstamp
      exact Or.inr (hstamp ▸ hnew)
  | own => exact Or.inl hd

theorem turn_order (hp : p.SendsOrDisconnects) {msg : M} {v : State M R W} (hb : Between p its s)
    (h : InOrder p its s (buffered s.1.messageBuffer) []) (hm : it.received = .ok msg)
    (ht : Turn p it.now s ⟨some its.length, msg⟩ v) :
    InOrder p (its ++ [it]) v (buffered v.1.messageBuffer) [] := by
  have hwaiting : ∀ k ∈ buffered s.1.messageBuffer, k < its.length := by
    intro k hk
    obtain ⟨_, _, hr, -⟩ := hb.accounts.exact.waiting_arrived k hk
    exact hr.lt
  have haccepted : ∀ d, ∀ k ∈ acceptedBy s d, k < its.length := by
    intro d k hk
    obtain ⟨_, _, hr, -⟩ := hb.accounts.exact.accepted_arrived d k hk
    exact hr.lt
  have hext : InOrder p (its ++ [it]) s (buffered s.1.messageBuffer) [] := by
    refine h.shrink (fun d n hn hd => wanted_of_append (hwaiting n ?_) hd)
    simpa using hn
  have hentries : ∀ e ∈ s.1.messageBuffer, Entry p (its ++ [it]) e :=
    fun e he => (hb.entries e he).append [it]
  have hfr := (route_buffer (p := p) s ⟨some its.length, msg⟩).1
  have hrec : Received (its ++ [it]) its.length it (⟨some its.length, msg⟩ : Tagged M).val :=
    Received.last hm
  obtain ⟨hnone, hsome⟩ := route_order hp hb.accounts.stamped rfl hrec
    (hext.arrive hwaiting haccepted)
  cases ht with
  | quiet hq w hacks =>
    exact frame hext ⟨List.Sublist.refl _, rfl, id⟩ (acceptedBy_acks hacks rfl rfl)
  | admitted hq w hacks hadm hempty =>
    have hregistered := admit_order hb rfl hext w hacks hadm
    simp only [hempty] at hregistered ⊢
    exact hregistered
  | flushed hq w hacks hadm =>
    have hstamped := hb.accounts.stamped.push _ hadm.stamp
    exact flush_order hp hentries hstamped hb.swap (admit_order hb rfl hext w hacks hadm)
  | delivered hr hnil =>
    rw [hfr]
    exact hnone hnil
  | dropped hr hne hz =>
    rw [hfr]
    exact (hsome hne).drop (List.sublist_append_left _ _) (List.Sublist.refl _)
  | kept hr hne hz hadd =>
    rw [buffered_append]
    exact frame (hsome hne) ⟨List.Sublist.refl _, rfl, id⟩ rfl

theorem iterate_order (hp : p.SendsOrDisconnects) (hb : Between p its s)
    (h : InOrder p its s (buffered s.1.messageBuffer) [])
    (hs : iterate (journal p) s (numbered its.length it) = some s') :
    InOrder p (its ++ [it]) s' (buffered s'.1.messageBuffer) [] := by
  have hworld : ∀ w, Between p its (s.1, w, s.2.2) := fun w =>
    hb.acks w (List.append_nil _).symm (by simp [Acks])
  obtain ⟨w, acks, hno, hacks, rfl⟩ | ⟨msg, v, hm, ht, rfl⟩ := iterate_cases hs
  · have hext : InOrder p (its ++ [it]) s (buffered s.1.messageBuffer) [] := by
      refine h.shrink (fun d n hn hd => wanted_of_append ?_ hd)
      obtain ⟨_, _, hr, -⟩ := hb.accounts.exact.waiting_arrived n (by simpa using hn)
      exact hr.lt
    exact frame hext ⟨List.Sublist.refl _, rfl, id⟩ (acceptedBy_acks hacks rfl rfl)
  · have hv := turn_order hp (hworld (it.interfere s.2.1))
      (frame h ⟨List.Sublist.refl _, rfl, id⟩ rfl) hm ht
    obtain ⟨eps, w, t, hsub, heq⟩ := detectReachable_cases (p := p) it.now v
    rw [heq]
    refine Ordered.drop ?_ (List.filter_sublist.filterMap _) (List.Sublist.refl _)
    exact frame hv ⟨hsub, rfl, id⟩ rfl

theorem journalRun_order (hp : p.SendsOrDisconnects) {label : Label} {token : String} {now : Instant}
    {w : W} (h : journalRun p (start label token now w) its = some s) :
    Between p its s ∧ InOrder p its s (buffered s.1.messageBuffer) [] := by
  refine run_mapIdx_invariant
    (fun its s => Between p its s ∧ InOrder p its s (buffered s.1.messageBuffer) [])
    ⟨start_between label token now w, ?_⟩ ?_ its s h
  · have hacc : acceptedBy (start label token now w : State M R W) = fun _ => [] := by
      funext d
      cases d <;> rfl
    rw [InOrder]
    rw [hacc]
    exact Ordered.initial
  · rintro its s it s' ⟨hb, ho⟩ hs
    exact ⟨iterate_between hb hs, iterate_order hp hb ho hs⟩

/-- The received messages in the order in which they were received. -/
def arrivals (its : List (Iteration M R W)) : List (Tagged M) :=
  (its.mapIdx numbered).filterMap (fun it => it.received.toOption)

theorem mem_arrivals {msg : Tagged M} :
    msg ∈ arrivals its ↔ ∃ n it, msg.tag = some n ∧ Received its n it msg.val := by
  obtain ⟨tag, msg⟩ := msg
  simp only [arrivals, List.mem_filterMap, List.mem_mapIdx]
  constructor
  · rintro ⟨_, ⟨n, hn, rfl⟩, hmsg⟩
    simp only [numbered] at hmsg
    cases hr : its[n].received with
    | error e => rw [hr] at hmsg; cases hmsg
    | ok m =>
      rw [hr] at hmsg
      cases hmsg
      exact ⟨n, its[n], rfl, List.getElem?_eq_getElem hn, hr⟩
  · rintro ⟨n, it, rfl, hit, hr⟩
    obtain ⟨hn, rfl⟩ := List.getElem?_eq_some_iff.mp hit
    refine ⟨_, ⟨n, hn, rfl⟩, ?_⟩
    simp only [numbered, hr]
    rfl

theorem arrivals_sorted (its : List (Iteration M R W)) :
    ((arrivals its).filterMap Tagged.tag).Pairwise (· < ·) := by
  induction its using List.reverseRecOn with
  | nil => exact List.Pairwise.nil
  | append_singleton its it ih =>
    rw [arrivals, List.mapIdx_concat, List.filterMap_append, List.filterMap_append]
    have hlt : ∀ n ∈ (arrivals its).filterMap Tagged.tag, n < its.length := by
      intro n hn
      obtain ⟨msg, hmsg, ht⟩ := List.mem_filterMap.mp hn
      obtain ⟨k, it', hk, hr⟩ := mem_arrivals.mp hmsg
      rw [ht, Option.some.injEq] at hk
      exact hk ▸ hr.lt
    have hlast : ∀ n ∈ ([numbered its.length it].filterMap
        (fun it => it.received.toOption)).filterMap Tagged.tag, n = its.length := by
      cases hr : it.received <;> simp [numbered, hr, Except.toOption]
    refine List.pairwise_append.mpr ⟨ih, ?_, fun k hk n hn => hlast n hn ▸ hlt k hk⟩
    cases hr : it.received <;> simp [numbered, hr, Except.toOption]

/-- The attempt delivered a received message to registration `k`. -/
def delivers (k : Nat) (a : Attempt M R) : Bool :=
  a.accepted && a.remote.tag == some k && a.message.tag.isSome

/-- The messages a destination has accepted, in that order, without the
acknowledgements of connect requests. -/
def deliveredTo (s : State M R W) : Destination → List (Tagged M)
  | .endpoint k => (s.2.2.filter (delivers k)).map Attempt.message
  | .own => s.1.sender.queue

theorem filterMap_deliveredTo (s : State M R W) (d : Destination) :
    (deliveredTo s d).filterMap Tagged.tag = acceptedBy s d := by
  cases d with
  | own => rfl
  | endpoint k =>
    simp only [deliveredTo, acceptedBy]
    induction s.2.2 with
    | nil => rfl
    | cons a log ih =>
      by_cases ha : delivers k a = true
      · rw [List.filter_cons_of_pos ha, List.map_cons]
        simp only [delivers, Bool.and_eq_true, beq_iff_eq, Option.isSome_iff_exists] at ha
        obtain ⟨⟨hacc, hk⟩, n, hn⟩ := ha
        rw [List.filterMap_cons_some hn, ih]
        exact (List.filterMap_cons_some (by rw [takenBy, if_pos ⟨hacc, hk⟩, hn])).symm
      · rw [List.filter_cons_of_neg ha, ih]
        refine (List.filterMap_cons_none ?_).symm
        rw [takenBy]
        split
        · rename_i htaken
          simp only [delivers, htaken.1, htaken.2, Bool.true_and, beq_self_eq_true] at ha
          simpa using ha
        · rfl

theorem deliveredTo_known (hb : Between p its s) (d : Destination) :
    ∀ msg ∈ deliveredTo s d, Known p its msg := by
  intro msg hmsg
  cases d with
  | own => exact hb.accounts.queue_known msg hmsg
  | endpoint k =>
    obtain ⟨a, ha, rfl⟩ := List.mem_map.mp hmsg
    obtain ⟨hlog, hcond⟩ := List.mem_filter.mp ha
    simp only [delivers, Bool.and_eq_true, Option.isSome_iff_ne_none] at hcond
    exact ⟨hcond.2, hb.accounts.log_genuine a hlog⟩

/-- Every registration of an endpoint, and the controller's own endpoint, accepts
messages in the order in which the controller received them, and what is buffered
between iterations fits none of those that are there. -/
theorem accepted_in_order (hp : p.SendsOrDisconnects) {label : Label} {token : String}
    {now : Instant} {w : W} {t : BusController M R × W}
    (h : run (iterate p) (new label token now, w) its = some t) :
    ∃ s, journalRun p (start label token now w) its = some s ∧ eraseState s = t ∧
      (∀ d, (deliveredTo s d).Sublist (arrivals its)) ∧
      (∀ e ∈ t.1.messageBuffer, (∀ ep ∈ t.1.endpoints, matching p e.2 ep.label = false) ∧
        (t.1.sender.receiverAlive = true → matching p e.2 t.1.label = false)) := by
  obtain ⟨s, hs, rfl⟩ := exists_journalRun h
  obtain ⟨hb, ho⟩ := journalRun_order hp hs
  refine ⟨s, hs, rfl, ?_, ?_⟩
  · intro d
    refine sublist_of_increasing Tagged.tag ?_ (arrivals_sorted its) ?_ ?_
    · rw [filterMap_deliveredTo]
      exact ho.accepted_sorted d
    · intro msg hmsg
      obtain ⟨n, it, hn, -⟩ := mem_arrivals.mp hmsg
      simp [hn]
    · intro msg hmsg
      obtain ⟨ht, hg⟩ := deliveredTo_known hb d msg hmsg
      obtain ⟨n, hn⟩ := Option.ne_none_iff_exists'.mp ht
      obtain ⟨it, hr, -⟩ := hg n hn
      exact mem_arrivals.mpr ⟨n, it, hn, hr⟩
  · intro e he
    simp only [eraseState, erase, eraseBuffer, List.mem_map] at he
    obtain ⟨e, he, rfl⟩ := he
    obtain ⟨n, it, hn, hr, -, -⟩ := hb.entries e he
    have hclear := ho.kept_clear n (mem_buffered.mpr ⟨e, he, hn⟩)
    constructor
    · intro ep' hep'
      obtain ⟨ep, hep, rfl⟩ := List.mem_map.mp hep'
      obtain ⟨k, -, hk⟩ := hb.accounts.stamped.below ep hep
      by_contra hm
      exact hclear (.endpoint k) ⟨it, e.2.val, hr, ep, hep, hk, by simpa [eraseEndpoint] using hm⟩
    · intro ha
      by_contra hm
      exact hclear .own ⟨it, e.2.val, hr, ha, by simpa [eraseState, erase] using hm⟩

theorem accepted_in_order_lateEndpoint :
    ∃ t s, run (iterate (loopback (sameRequest "a"))) (new ⟨["c"]⟩ "token" (.ofNanos 0), quietNet)
        lateEndpoint = some t ∧
      journalRun (loopback (sameRequest "a")) (start ⟨["c"]⟩ "token" (.ofNanos 0) quietNet)
        lateEndpoint = some s ∧ eraseState s = t ∧
      (∀ d, (deliveredTo s d).Sublist (arrivals lateEndpoint)) ∧
      (∀ e ∈ t.1.messageBuffer,
        (∀ ep ∈ t.1.endpoints, matching (loopback (sameRequest "a")) e.2 ep.label = false) ∧
        (t.1.sender.receiverAlive = true →
          matching (loopback (sameRequest "a")) e.2 t.1.label = false)) := by
  obtain ⟨t, ht⟩ := Option.isSome_iff_exists.mp (by decide : (run (iterate (loopback (sameRequest "a")))
    (new ⟨["c"]⟩ "token" (.ofNanos 0), quietNet) lateEndpoint).isSome = true)
  obtain ⟨s, hs⟩ := accepted_in_order (loopback_sendsOrDisconnects _) ht
  exact ⟨t, s, ht, hs⟩

end Ipmb.Order
