import Ipmb.Accounting
import Ipmb.Turns

namespace Ipmb.Conservation

open Messages Time Backend Retain Run Controller Journal Routing Ledger Destinations Admission
  Accounting Turns

variable {M R W : Type} {p : Platform M R W} {its : List (Iteration M R W)}

/-- What holds between iterations. -/
structure Between (p : Platform M R W) (its : List (Iteration M R W)) (s : State M R W) : Prop where
  accounts : Accounts p its s (buffered s.1.messageBuffer)
  entries : ∀ e ∈ s.1.messageBuffer, Entry p its e
  swap : s.1.messageBufferSwap = []

/-- One element of the drained buffer: what is kept goes to the swap vector. -/
theorem pass_accounts {s s' : State M R W} {it : Iteration M R W} {e : Instant × Tagged M}
    {rest : List (Instant × Tagged M)} (he : Entry p (its ++ [it]) e)
    (h : Accounts p (its ++ [it]) s (buffered (s.1.messageBufferSwap ++ e :: rest)))
    (hp : Pass p it.now s e s') :
    Accounts p (its ++ [it]) s' (buffered (s'.1.messageBufferSwap ++ rest)) ∧
      s'.1.messageBufferSwap ⊆ s.1.messageBufferSwap ++ [e] := by
  obtain ⟨n, -, ht, -⟩ := id he
  have hsplit : ∀ post, buffered (s.1.messageBufferSwap ++ e :: post) =
      buffered s.1.messageBufferSwap ++ n :: buffered post := by
    simp [buffered, ht]
  have hfr := (route_buffer (p := p) s e.2).2
  rw [hsplit] at h
  obtain ⟨hnone, hsome⟩ := h.routing ht he.genuine
  cases hp with
  | delivered hr =>
    rw [hfr, buffered_append]
    exact ⟨hnone hr, List.subset_append_left _ _⟩
  | kept hr hnow =>
    refine ⟨?_, List.Subset.refl _⟩
    simp only [List.append_assoc, List.singleton_append, hsplit]
    exact (hsome hr).frame (hsome hr).stamped rfl (List.append_nil _).symm (by simp [Acks])
  | expired hr hnow =>
    rw [hfr, buffered_append]
    refine ⟨(hsome hr).drop ?_ ?_, List.subset_append_left _ _⟩
    · exact (List.sublist_cons_self n _).append_left _
    · intro k hk hk'
      have hkn : k = n := by
        by_contra hne
        exact hk' (by simpa [hne] using hk)
      exact hkn ▸ he.lost hnow ht

theorem flush_between {s : State M R W} {it : Iteration M R W} (h : Between p (its ++ [it]) s) :
    Between p (its ++ [it]) (flush (journal p) it.now s) := by
  have hacc : Accounts p (its ++ [it]) ({ s.1 with messageBuffer := [] }, s.2)
      (buffered (s.1.messageBufferSwap ++ s.1.messageBuffer)) := by
    rw [h.swap, List.nil_append]
    exact h.accounts.frame h.accounts.stamped rfl (List.append_nil _).symm (by simp [Acks])
  obtain ⟨u, ⟨hu, hentries⟩, heq⟩ := flush_invariant (p := p) it.now
    (fun rest u => Accounts p (its ++ [it]) u (buffered (u.1.messageBufferSwap ++ rest)) ∧
      ∀ e ∈ u.1.messageBufferSwap, Entry p (its ++ [it]) e) s
    (fun e he => (h.entries e he).routed) ⟨hacc, by simp [h.swap]⟩
    (by
      rintro e rest u v he ⟨hu, hentries⟩ hp
      obtain ⟨hv, hsub⟩ := pass_accounts (h.entries e he) hu hp
      refine ⟨hv, fun f hf => ?_⟩
      obtain hf | hf := List.mem_append.mp (hsub hf)
      · exact hentries f hf
      · exact (List.mem_singleton.mp hf) ▸ h.entries e he)
  rw [heq]
  rw [List.append_nil] at hu
  exact ⟨hu.frame hu.stamped rfl (List.append_nil _).symm (by simp [Acks]), hentries, rfl⟩

theorem detectReachable_between {s : State M R W} (h : Between p its s) (now : Instant) :
    Between p its (detectReachable (journal p) now s) := by
  obtain ⟨eps, w, t, hsub, heq⟩ := detectReachable_cases (p := p) now s
  rw [heq]
  exact ⟨h.accounts.frame (h.accounts.stamped.sublist hsub) rfl (List.append_nil _).symm
    (by simp [Acks]), h.entries, h.swap⟩

/-- `maintain` drops the entries whose expiry has been reached. -/
theorem maintain_between {s : State M R W} {it : Iteration M R W}
    (h : Between p (its ++ [it]) s) : Between p (its ++ [it]) (maintain it.now s) := by
  refine ⟨?_, fun e he => h.entries e (List.mem_of_mem_filter he), h.swap⟩
  have hdrop : Accounts p (its ++ [it]) s
      (buffered (s.1.messageBuffer.filter (fun entry => entry.1 > it.now))) := by
    apply h.accounts.drop (List.filter_sublist.filterMap _)
    intro n hn hn'
    obtain ⟨e, he, ht⟩ := mem_buffered.mp hn
    refine (h.entries e he).lost ?_ ht
    by_contra hle
    rw [← Instant.not_lt, not_not] at hle
    exact hn' (mem_buffered.mpr ⟨e, List.mem_filter.mpr ⟨he, by simpa using hle⟩, ht⟩)
  exact hdrop.frame hdrop.stamped rfl (List.append_nil _).symm (by simp [Acks])

theorem Between.extend {s : State M R W} (h : Between p its s) (it : Iteration M R W)
    (hit : ∀ msg, it.received = .ok msg → ¬ p.Routed msg) : Between p (its ++ [it]) s :=
  ⟨h.accounts.extend it hit, fun e he => (h.entries e he).append [it], h.swap⟩

/-- Only the journal has changed, by acknowledgements. -/
theorem Between.acks {s : State M R W} (h : Between p its s) (w : W) {log : List (Attempt M R)}
    {acks : List (Attempt M R)} (hlog : log = s.2.2 ++ acks) (hacks : Acks acks) :
    Between p its (s.1, w, log) :=
  ⟨h.accounts.frame h.accounts.stamped rfl hlog hacks, h.entries, h.swap⟩

theorem Between.register {s : State M R W} {it : Iteration M R W} {msg : Tagged M} (h : Between p its s)
    (hext : Between p (its ++ [it]) s) (hm : msg.tag = some its.length) (w : W)
    {acks : List (Attempt M R)} (hacks : Acks acks) {ep : Endpoint (Tagged R)}
    (hadm : Admits (journal p) s.1 s.2 msg ep) :
    Between p (its ++ [it])
      ({ s.1 with endpoints := s.1.endpoints ++ [ep] }, w, s.2.2 ++ acks) := by
  refine ⟨?_, hext.entries, hext.swap⟩
  refine hext.accounts.frame ?_ rfl rfl hacks
  rw [List.length_append, List.length_singleton]
  exact h.accounts.stamped.push ep (hadm.stamp.trans hm)

theorem turn_between {s v : State M R W} {it : Iteration M R W} {msg : M} (h : Between p its s)
    (hm : it.received = .ok msg) (ht : Turn p it.now s ⟨some its.length, msg⟩ v) :
    Between p (its ++ [it]) v := by
  have hext : ¬ p.Routed msg → Between p (its ++ [it]) s := by
    intro hp
    refine h.extend it (fun m hm' hp' => ?_)
    rw [hm] at hm'
    cases hm'
    exact hp hp'
  have hgen : p.Routed msg → Genuine p (its ++ [it]) ⟨some its.length, msg⟩ := by
    rintro hp n ⟨⟩
    exact ⟨it, Received.last hm, hp⟩
  have hrouting : p.Routed msg → _ := fun hp => (h.accounts.arrive it hm hp).routing rfl (hgen hp)
  have hfr := route_buffer (p := p) s ⟨some its.length, msg⟩
  have hentries : ∀ e ∈ s.1.messageBuffer, Entry p (its ++ [it]) e :=
    fun e he => (h.entries e he).append [it]
  cases ht with
  | quiet hp w hacks => exact (hext hp).acks w rfl hacks
  | admitted hp w hacks hadm hb => exact h.register (hext hp) rfl w hacks hadm
  | flushed hp w hacks hadm => exact flush_between (h.register (hext hp) rfl w hacks hadm)
  | delivered hp hr =>
    refine ⟨?_, by rwa [hfr.1], hfr.2.trans h.swap⟩
    rw [hfr.1]
    simpa using (hrouting hp).1 hr
  | dropped hp hr hz =>
    -- no time to live: the message is lost at once
    refine ⟨?_, by rwa [hfr.1], hfr.2.trans h.swap⟩
    rw [hfr.1]
    apply ((hrouting hp).2 hr).drop (List.sublist_append_left _ _)
    intro n hn hn'
    have hlast : n = its.length := by simpa [hn'] using hn
    exact ⟨it, msg, hlast ▸ Received.last hm, Or.inl hz⟩
  | kept hp hr hz hadd =>
    refine ⟨?_, ?_, hfr.2.trans h.swap⟩
    · rw [buffered_append]
      exact ((hrouting hp).2 hr).frame ((hrouting hp).2 hr).stamped rfl (List.append_nil _).symm
        (by simp [Acks])
    · intro e he
      obtain he | he := List.mem_append.mp he
      · exact hentries e he
      · rw [List.mem_singleton] at he
        subst he
        exact ⟨its.length, it, rfl, Received.last hm, hp, hadd⟩

theorem iterate_between {s s' : State M R W} {it : Iteration M R W} (h : Between p its s)
    (hs : iterate (journal p) s (numbered its.length it) = some s') :
    Between p (its ++ [it]) s' := by
  obtain ⟨w, acks, hno, hacks, rfl⟩ | ⟨msg, v, hm, ht, rfl⟩ := iterate_cases hs
  · exact (h.extend it (fun msg hm => absurd hm (hno msg))).acks w rfl hacks
  · have hu : Between p its (s.1, it.interfere s.2.1, s.2.2) :=
      h.acks _ (List.append_nil _).symm (by simp [Acks])
    exact maintain_between (detectReachable_between (turn_between hu hm ht) it.now)

theorem start_between (label : Labels.Label) (token : String) (now : Instant) (w : W) :
    Between p [] (start label token now w : State M R W) := by
  refine ⟨⟨?_, Stamped.nil _, by simp [start], by simp [start], by simp [start, new]⟩,
    by simp [start, new], rfl⟩
  have hacc : acceptedBy (start label token now w : State M R W) = fun _ => [] := by
    funext d
    cases d <;> rfl
  rw [hacc]
  exact Exact.initial (by rintro n ⟨it, msg, hr, -⟩; exact absurd hr.lt (by simp))

theorem journalRun_between {label : Labels.Label} {token : String} {now : Instant} {w : W}
    {s : State M R W} (h : journalRun p (start label token now w) its = some s) :
    Between p its s :=
  run_mapIdx_invariant (Between p) (start_between label token now w)
    (fun _ _ _ _ hb hs => iterate_between hb hs) its s h

end Ipmb.Conservation
