import Ipmb.History

namespace Ipmb.Expiry

open Labels Messages Time Backend Run Controller Journal Routing Destinations Admission Accounting
  Conservation History Loopback

variable {M R W : Type} {p : Platform M R W} {its : List (Iteration M R W)}
  {label : Label} {token : String} {now : Instant} {w : W}

/-- Message `n`, received earlier, had reached the end of its time to live at `now`. -/
def Late (p : Platform M R W) (its : List (Iteration M R W)) (n : Nat) (now : Instant) : Prop :=
  ∃ it msg expire, Received its n it msg ∧ it.now.add (p.selector msg).ttl = some expire ∧
    expire ≤ now

/-- No iteration of the run sends a message, to an endpoint or over the local channel,
that was late by then. -/
def NeverStale (p : Platform M R W) (label : Label) (token : String) (now : Instant) (w : W)
    (its : List (Iteration M R W)) : Prop :=
  ∀ its₁ it its₂ s s', its = its₁ ++ it :: its₂ →
    journalRun p (start label token now w) its₁ = some s →
    journalRun p (start label token now w) (its₁ ++ [it]) = some s' →
    Sends (fun msg => ∀ n, msg.tag = some n → ¬ Late p its₁ n it.now) s s'

/-- If the iteration registers an endpoint, no buffered message that has expired is
meant for it or for anybody else who is there. -/
def Punctual (p : Platform M R W) (s : BusController M R × W) (it : Iteration M R W) : Prop :=
  ∀ msg ep, it.received = .ok msg → Admits p s.1 (it.interfere s.2) msg ep →
    ∀ e ∈ s.1.messageBuffer, e.1 ≤ it.now →
      Unfit p { s.1 with endpoints := s.1.endpoints ++ [ep] } e.2

theorem unfit_erase {c : BusController (Tagged M) (Tagged R)} {msg : M} :
    Unfit p (erase c) msg ↔ Unfit p c msg := by
  simp [Unfit, erase, eraseEndpoint]

/-- What has not expired is not late. -/
theorem not_late {e : Instant × Tagged M} (he : Entry p its e) (hnow : now < e.1) {n : Nat}
    (hn : e.2.tag = some n) : ¬ Late p its n now := by
  rintro ⟨it, msg, expire, hr, hadd, hle⟩
  obtain ⟨k, it', hk, hr', -, hadd'⟩ := he
  rw [hn, Option.some.injEq] at hk
  subst hk
  obtain ⟨rfl, rfl⟩ := hr.unique hr'
  rw [hadd, Option.some.injEq] at hadd'
  rw [hadd'] at hle
  exact absurd hnow ((Instant.not_lt _ _).mpr hle)

theorem iterate_fresh {s s' : State M R W} {it : Iteration M R W} (hs : Between p its s)
    (hp : Punctual p (eraseState s) it)
    (h : iterate (journal p) s (numbered its.length it) = some s') :
    Sends (fun msg => ∀ n, msg.tag = some n → ¬ Late p its n it.now) s s' := by
  refine iterate_sends hs ?_ ?_ ?_ h
  · intro msg hnone n hn
    rw [hnone] at hn
    cases hn
  · -- the message just received has not been there before
    rintro msg - n ⟨⟩ ⟨it', msg', expire, hr, -⟩
    exact Nat.lt_irrefl _ hr.lt
  · intro msg ep hm hadm e he
    by_cases hnow : it.now < e.1
    · exact Or.inl (fun n hn => not_late (hs.entries e he) hnow hn)
    · have hmem : (e.1, e.2.val) ∈ (eraseState s).1.messageBuffer := List.mem_map.mpr ⟨e, he, rfl⟩
      have hu := hp msg (eraseEndpoint ep) hm hadm.erase _ hmem ((Instant.not_lt _ _).mp hnow)
      have herase : { (eraseState s).1 with
          endpoints := (eraseState s).1.endpoints ++ [eraseEndpoint ep] } =
          erase { s.1 with endpoints := s.1.endpoints ++ [ep] } := by
        simp [eraseState, erase]
      rw [herase, unfit_erase] at hu
      exact Or.inr hu

/-- A run never sends a late message if none of its iterations registers an endpoint
while an expired message for somebody who is there is still buffered. -/
theorem never_stale (h : ∀ its₁ it its₂ t, its = its₁ ++ it :: its₂ →
      run (iterate p) (new label token now, w) its₁ = some t → Punctual p t it) :
    NeverStale p label token now w its := by
  rintro its₁ it its₂ s s' rfl hs hs'
  obtain ⟨u, hu, hstep⟩ := journalRun_concat hs'
  rw [hs, Option.some.injEq] at hu
  subst hu
  have herase : run (iterate p) (new label token now, w) its₁ = some (eraseState s) := by
    have he := journalRun_erase p (start label token now w) its₁
    rw [hs] at he
    exact he
  exact iterate_fresh (journalRun_between hs) (h its₁ it its₂ _ rfl herase) hstep

/-- A message with ten nanoseconds to live and the connect request of its endpoint,
received at the given time. -/
def waitUntil (t : Instant) : List (Iteration Mail Nat Net) :=
  [receive (mailTo "a" .unicast (.ofNanos 10)) (.ofNanos 0), receive (connectMail 7) t]

theorem never_stale_waitUntil :
    NeverStale (loopback (sameRequest "a")) ⟨["c"]⟩ "token" (.ofNanos 0) quietNet
      (waitUntil (.ofNanos 9)) := by
  apply never_stale
  intro its₁ it its₂ t hsplit ht msg ep hm hadm e he hle
  obtain _ | ⟨x, _ | ⟨y, rest⟩⟩ := its₁
  · obtain ⟨rfl, -⟩ := List.cons.inj hsplit
    cases hm
    exact absurd hadm.request (by decide)
  · obtain ⟨rfl, htail⟩ := List.cons.inj hsplit
    obtain ⟨rfl, -⟩ := List.cons.inj htail
    cases ht
    rw [List.mem_singleton.mp he] at hle
    exact absurd hle (by decide)
  · simp [waitUntil] at hsplit

/-- The bus was idle when the message expired, and its endpoint ends the idle time:
the flush sends the message before it looks at its expiry. -/
theorem stale_waitUntil :
    (waitUntil (.ofNanos 100)).Pairwise (fun it it' => it.now ≤ it'.now) ∧
      ¬ NeverStale (loopback (sameRequest "a")) ⟨["c"]⟩ "token" (.ofNanos 0) quietNet
        (waitUntil (.ofNanos 100)) := by
  refine ⟨by decide, ?_⟩
  intro h
  have hbefore : (journalRun (loopback (sameRequest "a")) (start ⟨["c"]⟩ "token" (.ofNanos 0) quietNet)
      (waitUntil (.ofNanos 100)).dropLast).map (fun s => s.2.2.map (fun a => a.message.tag)) =
      some [] := by decide
  -- the acknowledgement of the connect request, then the late message
  have hafter : (journalRun (loopback (sameRequest "a")) (start ⟨["c"]⟩ "token" (.ofNanos 0) quietNet)
      (waitUntil (.ofNanos 100))).map (fun s => s.2.2.map (fun a => a.message.tag)) =
      some [none, some 0] := by decide
  obtain ⟨s, hs, hempty⟩ := Option.map_eq_some_iff.mp hbefore
  obtain ⟨s', hs', htags⟩ := Option.map_eq_some_iff.mp hafter
  obtain ⟨⟨log, hlog, hfresh⟩, -⟩ := h _ (receive (connectMail 7) (.ofNanos 100)) [] s s' rfl hs hs'
  rw [hlog, List.map_append, hempty, List.nil_append] at htags
  obtain ⟨a, ha, htag⟩ := List.mem_map.mp (htags ▸ (by simp : some 0 ∈ [none, some 0]))
  exact hfresh a ha 0 htag ⟨_, _, .ofNanos 10, ⟨rfl, rfl⟩, by decide, by decide⟩

end Ipmb.Expiry
