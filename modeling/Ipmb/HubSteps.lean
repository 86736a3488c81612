import Ipmb.Hub
import Mathlib.Data.List.Induction
import Mathlib.Data.List.Perm.Basic

namespace Ipmb.HubSteps

open Messages Buffers Hub

variable {M R : Type}

/-- The place in the list of the connection that an event is about. -/
def place (hub : IoHub) (ev : RawFd) : Nat := hub.localList.findIdx (fun p => p.fd == ev)

/-- All that one call of `recv` can come to. -/
inductive Moved (hub : IoHub) : Pc → Answer M R → IoHub → Progress M R → Prop
  | message (msg : M) : Moved hub .polling (.tryRecv (.message msg)) hub (.returned .bus (.ok msg))
  | empty : Moved hub .polling (.tryRecv .empty) hub (.pending .waiting)
  | disconnected :
    Moved hub .polling (.tryRecv .disconnected) { hub with busRx := false } (.pending .waiting)
  | timeout : Moved hub .waiting (.wait []) hub (.returned .timer (.error .timeout))
  | events {events : List RawFd} (hne : events ≠ []) (hle : events.length ≤ maxEvents) :
    Moved hub .waiting (.wait events) hub (.pending (.draining events))
  | woken (rest : List RawFd) :
    Moved hub (.draining (hub.waker :: rest)) .clearWaker hub (.pending (hub.next rest))
  | refused {ev : RawFd} (rest : List RawFd) (hw : ev ≠ hub.waker) (hl : hub.listener = some ev) :
    Moved hub (.draining (ev :: rest)) (.accept none) hub (.pending (hub.next rest))
  | accepted {ev : RawFd} (rest : List RawFd) (fd : RawFd) (hw : ev ≠ hub.waker)
    (hl : hub.listener = some ev) :
    Moved hub (.draining (ev :: rest)) (.accept (some fd))
      { hub with localList := hub.localList ++ [⟨fd, hub.accepted⟩], accepted := hub.accepted + 1 }
      (.pending (hub.next rest))
  | received {ev : RawFd} (rest : List RawFd) {p : Local} (msg : M) (hw : ev ≠ hub.waker)
    (hl : hub.listener ≠ some ev) (hp : hub.localList[place hub ev]? = some p) (hfd : p.fd = ev) :
    Moved hub (.draining (ev :: rest)) (.fromLocal (.ok msg)) hub
      (.returned (.connection p.connection) (.ok msg))
  | lost {ev : RawFd} (rest : List RawFd) {p : Local} (e : Error R) (hw : ev ≠ hub.waker)
    (hl : hub.listener ≠ some ev) (hp : hub.localList[place hub ev]? = some p) (hfd : p.fd = ev) :
    Moved hub (.draining (ev :: rest)) (.fromLocal (.error e))
      { hub with localList := swapRemove hub.localList (place hub ev) }
      (.returned (.connection p.connection) (.error e))
  | ignored {ev : RawFd} (rest : List RawFd) (hw : ev ≠ hub.waker) (hl : hub.listener ≠ some ev)
    (hp : hub.localList[place hub ev]? = none) :
    Moved hub (.draining (ev :: rest)) .ignored hub (.pending (hub.next rest))

theorem place_fd {hub : IoHub} {ev : RawFd} {p : Local} (hp : hub.localList[place hub ev]? = some p) :
    p.fd = ev := by
  obtain ⟨hlt, rfl⟩ := List.getElem?_eq_some_iff.mp hp
  have hev : (hub.localList[hub.localList.findIdx (fun p => p.fd == ev)].fd == ev) = true :=
    List.findIdx_getElem (w := hlt)
  exact beq_iff_eq.mp hev

theorem event_moved {hub hub' : IoHub} {ev : RawFd} {rest : List RawFd} {answer : Answer M R}
    {progress : Progress M R} (h : hub.event ev rest answer = some (hub', progress)) :
    Moved hub (.draining (ev :: rest)) answer hub' progress := by
  unfold IoHub.event at h
  split at h
  · rename_i hw
    subst hw
    cases answer with
    | clearWaker =>
      cases h
      exact .woken rest
    | _ => cases h
  · rename_i hw
    split at h
    · rename_i hl
      cases answer with
      | accept fd =>
        cases fd with
        | none =>
          cases h
          exact .refused rest hw hl
        | some fd =>
          cases h
          exact .accepted rest fd hw hl
      | _ => cases h
    · rename_i hl
      simp only at h
      cases hi : hub.localList[place hub ev]? with
      | none =>
        rw [place] at hi
        rw [hi] at h
        cases answer with
        | ignored =>
          cases h
          exact .ignored rest hw hl hi
        | _ => cases h
      | some p =>
        have hfd := place_fd hi
        rw [place] at hi
        rw [hi] at h
        cases answer with
        | fromLocal r =>
          cases r with
          | ok msg =>
            cases h
            exact .received rest msg hw hl hi hfd
          | error e =>
            cases h
            exact .lost rest e hw hl hi hfd
        | _ => cases h

theorem step_moved {hub hub' : IoHub} {pc : Pc} {answer : Answer M R} {progress : Progress M R}
    (h : hub.step pc answer = some (hub', progress)) : Moved hub pc answer hub' progress := by
  unfold IoHub.step at h
  split at h
  · cases h
    exact .message _
  · cases h
    exact .empty
  · cases h
    exact .disconnected
  · rename_i events
    split at h
    · rename_i he
      obtain rfl := List.isEmpty_iff.mp he
      cases h
      exact .timeout
    · rename_i he
      split at h
      · rename_i hle
        cases h
        exact .events (by simpa using he) hle
      · cases h
  · exact event_moved h
  · cases h

theorem Moved.stepped {hub hub' : IoHub} {pc : Pc} {answer : Answer M R} {progress : Progress M R}
    (h : Moved hub pc answer hub' progress) (hs : hub.Sound) : Stepped hub answer hub' progress := by
  cases h with
  | message msg =>
    refine ⟨hs, Nat.le_refl _, ?_⟩
    rintro source msg' ⟨⟩
    exact Or.inl ⟨rfl, rfl⟩
  | accepted rest fd hw hl =>
    refine ⟨?_, Nat.le_succ _, by simp⟩
    intro p hp
    obtain hp | hp := List.mem_append.mp hp
    · exact Nat.lt_succ_of_lt (hs p hp)
    · cases List.mem_singleton.mp hp
      exact Nat.lt_succ_self _
  | @received ev rest p msg hw hl hp hfd =>
    refine ⟨hs, Nat.le_refl _, ?_⟩
    rintro source msg' ⟨⟩
    exact Or.inr ⟨p.connection, hs p (List.mem_of_getElem? hp), rfl, rfl⟩
  | lost rest e hw hl hp hfd => exact ⟨fun q hq => hs q (mem_swapRemove hq), Nat.le_refl _, by simp⟩
  | disconnected => exact ⟨hs, Nat.le_refl _, by simp⟩
  | timeout => exact ⟨hs, Nat.le_refl _, by simp⟩
  | empty | events | woken | refused | ignored => exact Stepped.pending hs

/-- `Vec::swap_remove` takes out one element, and reorders the others. -/
theorem swapRemove_perm {α : Type} {l : List α} {i : Nat} {a : α} (h : l[i]? = some a) :
    l.Perm (a :: swapRemove l i) := by
  obtain ⟨hi, rfl⟩ := List.getElem?_eq_some_iff.mp h
  induction l using List.reverseRecOn with
  | nil => cases hi
  | append_singleton init last =>
    rw [swapRemove, List.getLast?_concat]
    simp only
    by_cases hlast : i = init.length
    · subst hlast
      simp only [List.getElem_concat_length, List.set_append_right _ _ (Nat.le_refl _), Nat.sub_self,
        List.set_cons_zero, List.dropLast_concat]
      exact List.perm_append_singleton last init
    · have hlt : i < init.length := by
        rw [List.length_append, List.length_singleton] at hi
        omega
      rw [List.set_append_left _ _ hlt, List.dropLast_concat, List.getElem_append_left hlt]
      have hsplit : init = init.take i ++ init[i] :: init.drop (i + 1) := by simp
      have hset : init.set i last = init.take i ++ last :: init.drop (i + 1) :=
        List.set_eq_take_append_cons_drop.trans (if_pos hlt)
      rw [hset]
      nth_rewrite 1 [hsplit]
      rw [List.append_assoc, List.cons_append]
      apply List.perm_middle.trans
      exact ((List.perm_append_singleton last _).append_left _).cons _

end Ipmb.HubSteps
