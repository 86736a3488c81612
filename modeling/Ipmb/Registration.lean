import Ipmb.Conservation

namespace Ipmb.Registration

open Messages Time Backend Run Controller Journal Routing Destinations Admission Accounting Turns
  Conservation

variable {M R W : Type} {p : Platform M R W} {its : List (Iteration M R W)} {token : String}
  {now : Instant}

/-- The message asks for an endpoint with this label and remote, and may have it. -/
structure Request (p : Platform M R W) (token : String) (msg : M) (label : Labels.Label) (remote : R) :
    Prop where
  uuid : (p.selector msg).uuid = ConnectMessage.uuid
  remote : (p.extractRemote msg).1 = some remote
  payload : ∃ payload, p.decodeConnect (p.payloadData (p.extractRemote msg).2) = some payload ∧
    payload.version.compatible p.version = true ∧ payload.token = token ∧ payload.label = label

/-- The endpoint was requested by a message received before. -/
def Requested (p : Platform M R W) (token : String) (its : List (Iteration M R W))
    (ep : Endpoint (Tagged R)) : Prop :=
  ∃ k it msg, ep.remote.tag = some k ∧ Received its k it msg ∧
    Request p token msg ep.label ep.remote.val

theorem Requested.append {ep : Endpoint (Tagged R)} (h : Requested p token its ep)
    (its' : List (Iteration M R W)) : Requested p token (its ++ its') ep := by
  obtain ⟨k, it, msg, htag, hr, hreq⟩ := h
  exact ⟨k, it, msg, htag, hr.append its', hreq⟩

/-- Messages go to endpoints that satisfy `Q`, now and before. -/
structure SentOnly (token : String) (Q : Endpoint (Tagged R) → Prop) (s : State M R W) : Prop where
  token : s.1.token = token
  endpoints : ∀ ep ∈ s.1.endpoints, Q ep
  sent : ∀ a ∈ s.2.2, a.message.tag ≠ none → ∃ ep, Q ep ∧ a.remote = ep.remote

variable {Q : Endpoint (Tagged R) → Prop} {s s' : State M R W}

theorem SentOnly.mono {Q' : Endpoint (Tagged R) → Prop} (h : SentOnly token Q s)
    (hq : ∀ ep, Q ep → Q' ep) : SentOnly token Q' s where
  token := h.token
  endpoints ep hep := hq ep (h.endpoints ep hep)
  sent a ha ht := by
    obtain ⟨ep, hep, hr⟩ := h.sent a ha ht
    exact ⟨ep, hq ep hep, hr⟩

/-- A change that sends nothing but acknowledgements. -/
theorem SentOnly.frame {acks : List (Attempt M R)} (h : SentOnly token Q s)
    (htoken : s'.1.token = s.1.token) (hends : ∀ ep ∈ s'.1.endpoints, ep ∈ s.1.endpoints ∨ Q ep)
    (hlog : s'.2.2 = s.2.2 ++ acks) (hacks : Acks acks) : SentOnly token Q s' where
  token := htoken.trans h.token
  endpoints ep hep := (hends ep hep).elim (h.endpoints ep) id
  sent a ha ht := by
    rw [hlog] at ha
    obtain ha | ha := List.mem_append.mp ha
    · exact h.sent a ha ht
    · exact absurd (hacks a ha) ht

theorem route_sentOnly (h : SentOnly token Q s) (msg : Tagged M) :
    SentOnly token Q (route (journal p) s.1 s.2 msg).2 := by
  obtain ⟨tries, sent, hr⟩ := route_spec p msg s.1 s.2
  generalize route (journal p) s.1 s.2 msg = r at hr ⊢
  refine ⟨?_, fun ep hep => h.endpoints ep (hr.kept.subset hep), ?_⟩
  · rw [hr.frame]
    exact h.token
  · intro a ha ht
    rw [hr.log_eq] at ha
    obtain ha | ha := List.mem_append.mp ha
    · exact h.sent a ha ht
    · obtain ⟨ep, hep, hrem, -⟩ := hr.matched a ha
      exact ⟨ep, h.endpoints ep hep, hrem⟩

theorem pass_sentOnly {e : Instant × Tagged M} (h : SentOnly token Q s) (hpass : Pass p now s e s') :
    SentOnly token Q s' := by
  have hr := route_sentOnly (p := p) h e.2
  cases hpass with
  | delivered _ => exact hr
  | kept _ _ => exact ⟨hr.token, hr.endpoints, hr.sent⟩
  | expired _ _ => exact hr

theorem flush_sentOnly (hrouted : ∀ e ∈ s.1.messageBuffer, p.Routed e.2.val)
    (h : SentOnly token Q s) : SentOnly token Q (flush (journal p) now s) := by
  obtain ⟨u, hu, heq⟩ := flush_invariant (p := p) now (fun _ u => SentOnly token Q u) s hrouted
    ⟨h.token, h.endpoints, h.sent⟩ (fun _ _ _ _ _ hu hpass => pass_sentOnly hu hpass)
  rw [heq]
  exact ⟨hu.token, hu.endpoints, hu.sent⟩

theorem turn_sentOnly {msg : Tagged M} (hrouted : ∀ e ∈ s.1.messageBuffer, p.Routed e.2.val)
    (h : SentOnly token Q s) (hadmits : ∀ ep, Admits (journal p) s.1 s.2 msg ep → Q ep)
    (ht : Turn p now s msg s') : SentOnly token Q s' := by
  have hregistered : ∀ (w : W) acks ep, Acks acks → Admits (journal p) s.1 s.2 msg ep →
      SentOnly token Q ({ s.1 with endpoints := s.1.endpoints ++ [ep] }, w, s.2.2 ++ acks) := by
    intro w acks ep hacks hadm
    refine h.frame rfl (fun e he => ?_) rfl hacks
    obtain he | he := List.mem_append.mp he
    · exact Or.inl he
    · exact Or.inr ((List.mem_singleton.mp he) ▸ hadmits ep hadm)
  have hroute := route_sentOnly (p := p) h msg
  cases ht with
  | quiet _ w hacks => exact h.frame rfl (fun _ => Or.inl) rfl hacks
  | admitted _ w hacks hadm _ => exact hregistered w _ _ hacks hadm
  | flushed _ w hacks hadm => exact flush_sentOnly hrouted (hregistered w _ _ hacks hadm)
  | delivered _ _ => exact hroute
  | dropped _ _ _ => exact hroute
  | kept _ _ _ _ => exact ⟨hroute.token, hroute.endpoints, hroute.sent⟩

theorem pass_endpoints {e : Instant × Tagged M} (hpass : Pass p now s e s') :
    s'.1.endpoints.Sublist s.1.endpoints := by
  obtain ⟨tries, sent, hr⟩ := route_spec p e.2 s.1 s.2
  cases hpass with
  | delivered _ => exact hr.kept
  | kept _ _ => exact hr.kept
  | expired _ _ => exact hr.kept

theorem flush_endpoints (hrouted : ∀ e ∈ s.1.messageBuffer, p.Routed e.2.val) :
    (flush (journal p) now s).1.endpoints.Sublist s.1.endpoints := by
  obtain ⟨u, hu, heq⟩ := flush_invariant (p := p) now
    (fun _ u => u.1.endpoints.Sublist s.1.endpoints) s hrouted (List.Sublist.refl _)
    (fun _ _ _ _ _ hu hpass => (pass_endpoints hpass).trans hu)
  rw [heq]
  exact hu

theorem turn_endpoints {msg : Tagged M} (hrouted : ∀ e ∈ s.1.messageBuffer, p.Routed e.2.val)
    (ht : Turn p now s msg s') :
    ∀ ep ∈ s'.1.endpoints, ep ∈ s.1.endpoints ∨ Admits (journal p) s.1 s.2 msg ep := by
  have happended : ∀ ep, Admits (journal p) s.1 s.2 msg ep →
      ∀ e ∈ s.1.endpoints ++ [ep], e ∈ s.1.endpoints ∨ Admits (journal p) s.1 s.2 msg e := by
    intro ep hadm e he
    obtain he | he := List.mem_append.mp he
    · exact Or.inl he
    · exact Or.inr ((List.mem_singleton.mp he) ▸ hadm)
  obtain ⟨tries, sent, hr⟩ := route_spec p msg s.1 s.2
  cases ht with
  | quiet _ _ _ => exact fun ep hep => Or.inl hep
  | admitted _ _ _ hadm _ => exact happended _ hadm
  | @flushed _ w acks _ ep hadm =>
    have hflush : (flush (journal p) now
        ({ s.1 with endpoints := s.1.endpoints ++ [ep] }, w, s.2.2 ++ acks)).1.endpoints.Sublist
          (s.1.endpoints ++ [ep]) := flush_endpoints hrouted
    exact fun e he => happended ep hadm e (hflush.subset he)
  | delivered _ _ => exact fun e he => Or.inl (hr.kept.subset he)
  | dropped _ _ _ => exact fun e he => Or.inl (hr.kept.subset he)
  | kept _ _ _ _ => exact fun e he => Or.inl (hr.kept.subset he)

/-- An endpoint that was not there before carries the number of the message just received. -/
theorem iterate_endpoints {n : Nat} {it : Iteration M R W} (hb : Between p its s)
    (hs : iterate (journal p) s (numbered n it) = some s') :
    ∀ ep ∈ s'.1.endpoints, ep ∈ s.1.endpoints ∨
      ep.remote.tag = some n ∧ ∃ msg, it.received = .ok msg := by
  obtain ⟨w, acks, -, -, rfl⟩ | ⟨msg, v, hm, ht, rfl⟩ := iterate_cases hs
  · exact fun ep hep => Or.inl hep
  · intro ep hep
    obtain ⟨eps, w, t, hsub, heq⟩ := detectReachable_cases (p := p) it.now v
    rw [heq] at hep
    obtain hold | hadm := turn_endpoints (s := (s.1, it.interfere s.2.1, s.2.2))
      (fun e he => (hb.entries e he).routed) ht ep (hsub.subset hep)
    · exact Or.inl hold
    · exact Or.inr ⟨hadm.stamp, msg, hm⟩

theorem iterate_sentOnly {it : Iteration M R W} (hb : Between p its s)
    (h : SentOnly token (Requested p token its) s)
    (hs : iterate (journal p) s (numbered its.length it) = some s') :
    SentOnly token (Requested p token (its ++ [it])) s' := by
  have hext : SentOnly token (Requested p token (its ++ [it])) s :=
    h.mono fun ep hep => hep.append [it]
  obtain ⟨w, acks, -, hacks, rfl⟩ | ⟨msg, v, hm, ht, rfl⟩ := iterate_cases hs
  · exact hext.frame rfl (fun _ => Or.inl) rfl hacks
  · have hv : SentOnly token (Requested p token (its ++ [it])) v := by
      refine turn_sentOnly (fun e he => (hb.entries e he).routed) (s := (s.1, it.interfere s.2.1, s.2.2))
        ⟨hext.token, hext.endpoints, hext.sent⟩ (fun ep hadm => ?_) ht
      have herase := hadm.erase
      refine ⟨its.length, it, msg, hadm.stamp, Received.last hm, herase.request, herase.remote, ?_⟩
      rw [← h.token]
      exact herase.payload
    obtain ⟨eps, w, t, hsub, heq⟩ := detectReachable_cases (p := p) it.now v
    rw [heq]
    exact ⟨hv.token, fun ep hep => hv.endpoints ep (hsub.subset hep), hv.sent⟩

/-- Received messages go to requested endpoints only. -/
theorem journalRun_sentOnly {label : Labels.Label} {w : W}
    (h : journalRun p (start label token now w) its = some s) :
    SentOnly token (Requested p token its) s := by
  refine (run_mapIdx_invariant (fun its s => Between p its s ∧ SentOnly token (Requested p token its) s)
    ⟨start_between label token now w, rfl, by simp [start, new], by simp [start]⟩ ?_ its s h).2
  rintro its u it v ⟨hb, hu⟩ hs
  exact ⟨iterate_between hb hs, iterate_sentOnly hb hu hs⟩

end Ipmb.Registration
