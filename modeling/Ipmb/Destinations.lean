import Ipmb.Ledger
import Ipmb.Routing

namespace Ipmb.Destinations

open Messages Time Backend Retain Controller Journal Routing Ledger

variable {M R W : Type}

/-- Where a message can go: a registration of an endpoint, named by the number of
its connect message, or the controller's own endpoint. -/
inductive Destination where
  | endpoint (stamp : Nat)
  | own
deriving DecidableEq

/-- The number of the message, if the attempt delivered one to registration `k`. -/
def takenBy (k : Nat) (a : Attempt M R) : Option Nat :=
  if a.accepted ∧ a.remote.tag = some k then a.message.tag else none

/-- The numbers of the messages a destination has accepted, in order. -/
def acceptedBy (s : State M R W) : Destination → List Nat
  | .endpoint k => s.2.2.filterMap (takenBy k)
  | .own => s.1.sender.queue.filterMap Tagged.tag

def buffered (b : List (Instant × Tagged M)) : List Nat := b.filterMap (fun e => e.2.tag)

theorem buffered_append (b b' : List (Instant × Tagged M)) :
    buffered (b ++ b') = buffered b ++ buffered b' := List.filterMap_append

theorem mem_buffered {b : List (Instant × Tagged M)} {n : Nat} :
    n ∈ buffered b ↔ ∃ e ∈ b, e.2.tag = some n := List.mem_filterMap

/-- The destinations that accept a message in the course of its routing. -/
def takers (tries : List (Attempt M R)) (sent : Bool) : List Destination :=
  (tries.filter Attempt.accepted).filterMap (fun a => a.remote.tag.map Destination.endpoint) ++
    if sent then [.own] else []

theorem endpoint_mem_takers (tries : List (Attempt M R)) (sent : Bool) (k : Nat) :
    .endpoint k ∈ takers tries sent ↔ ∃ a ∈ tries, a.accepted = true ∧ a.remote.tag = some k := by
  simp only [takers, List.mem_append, List.mem_filterMap, List.mem_filter, Option.map_eq_some_iff,
    Destination.endpoint.injEq, exists_eq_right, and_assoc]
  cases sent <;> simp

theorem own_mem_takers (tries : List (Attempt M R)) (sent : Bool) :
    .own ∈ takers tries sent ↔ sent = true := by
  cases sent <;> simp [takers]

theorem length_takers_le (tries : List (Attempt M R)) (sent : Bool) :
    (takers tries sent).length ≤
      (tries.filter Attempt.accepted).length + (if sent then 1 else 0) := by
  rw [takers, List.length_append]
  have h := List.length_filterMap_le (fun a => a.remote.tag.map Destination.endpoint)
    (tries.filter (Attempt.accepted (M := M) (R := R)))
  cases sent <;> simpa using h

/-- With distinct stamps, an attempt list has at most one entry for each endpoint. -/
theorem filterMap_takenBy (tries : List (Attempt M R)) (n k : Nat)
    (hm : ∀ a ∈ tries, a.message.tag = some n)
    (hnodup : (tries.map (fun a => a.remote.tag)).Nodup) :
    tries.filterMap (takenBy k) =
      if ∃ a ∈ tries, a.accepted = true ∧ a.remote.tag = some k then [n] else [] := by
  induction tries with
  | nil => simp
  | cons a tries ih =>
    rw [List.map_cons, List.nodup_cons] at hnodup
    have ih' := ih (fun b hb => hm b (List.mem_cons_of_mem a hb)) hnodup.2
    by_cases hk : a.accepted = true ∧ a.remote.tag = some k
    · -- the stamp of `a` occurs nowhere else
      have hno : ¬ ∃ b ∈ tries, b.accepted = true ∧ b.remote.tag = some k := by
        rintro ⟨b, hb, -, hbk⟩
        exact hnodup.1 (List.mem_map.mpr ⟨b, hb, hbk.trans hk.2.symm⟩)
      have ha : takenBy k a = some n := by rw [takenBy, if_pos hk, hm a (by simp)]
      rw [if_neg hno] at ih'
      rw [List.filterMap_cons_some ha, ih', if_pos ⟨a, by simp, hk⟩]
    · have ha : takenBy k a = none := by rw [takenBy, if_neg hk]
      have hiff : (∃ b ∈ a :: tries, b.accepted = true ∧ b.remote.tag = some k) ↔
          ∃ b ∈ tries, b.accepted = true ∧ b.remote.tag = some k := by
        simp only [List.mem_cons, exists_eq_or_imp, hk, false_or]
      rw [List.filterMap_cons_none ha, ih']
      simp only [hiff]

/-- What is known of the endpoint table in every state. -/
structure Stamped (bound : Nat) (endpoints : List (Endpoint (Tagged R))) : Prop where
  nodup : (endpoints.map (fun ep => ep.remote.tag)).Nodup
  below : ∀ ep ∈ endpoints, ∃ k < bound, ep.remote.tag = some k

theorem Stamped.nil (bound : Nat) : Stamped bound ([] : List (Endpoint (Tagged R))) :=
  ⟨List.nodup_nil, by simp⟩

theorem Stamped.sublist {bound : Nat} {eps eps' : List (Endpoint (Tagged R))}
    (h : Stamped bound eps) (hs : eps'.Sublist eps) : Stamped bound eps' where
  nodup := h.nodup.sublist (hs.map _)
  below ep hep := h.below ep (hs.subset hep)

theorem Stamped.mono {bound bound' : Nat} {eps : List (Endpoint (Tagged R))}
    (h : Stamped bound eps) (hb : bound ≤ bound') : Stamped bound' eps where
  nodup := h.nodup
  below ep hep := by
    obtain ⟨k, hk, ht⟩ := h.below ep hep
    exact ⟨k, lt_of_lt_of_le hk hb, ht⟩

theorem Stamped.push {bound : Nat} {eps : List (Endpoint (Tagged R))} (h : Stamped bound eps)
    (ep : Endpoint (Tagged R)) (ht : ep.remote.tag = some bound) :
    Stamped (bound + 1) (eps ++ [ep]) where
  nodup := by
    rw [List.map_append, List.map_singleton]
    refine List.nodup_append.mpr ⟨h.nodup, List.nodup_singleton _, ?_⟩
    intro t hmem u hu he
    obtain ⟨e, hep, rfl⟩ := List.mem_map.mp hmem
    obtain ⟨k, hk, hek⟩ := h.below e hep
    rw [List.mem_singleton] at hu
    rw [hu, ht, hek] at he
    cases he
    exact Nat.lt_irrefl _ hk
  below e he := by
    obtain he | he := List.mem_append.mp he
    · exact (h.mono (Nat.le_succ bound)).below e he
    · rw [List.mem_singleton] at he
      exact ⟨bound, Nat.lt_succ_self bound, he ▸ ht⟩

variable {p : Platform M R W}

/-- Routing a message delivers it to those that accept it, and to nobody else. -/
theorem acceptedBy_route {msg : Tagged M} {n bound : Nat} (hn : msg.tag = some n) (s : State M R W)
    (hs : Stamped bound s.1.endpoints) {r : Option (Tagged M) × State M R W}
    {tries : List (Attempt M R)} {sent : Bool} (h : Routes p msg s.1 s.2.2 r tries sent) :
    acceptedBy r.2 = deliver (acceptedBy s) n (takers tries sent) := by
  have hm : ∀ a ∈ tries, a.message.tag = some n := fun a ha => by rw [h.message a ha, hn]
  have hnodup : (tries.map (fun a => a.remote.tag)).Nodup := by
    have hmap := (h.remotes.map Tagged.tag)
    rw [List.map_map, List.map_map] at hmap
    exact hs.nodup.sublist hmap
  funext d
  cases d with
  | endpoint k =>
    simp only [acceptedBy, h.log_eq, List.filterMap_append, filterMap_takenBy tries n k hm hnodup,
      deliver, endpoint_mem_takers]
    split <;> simp
  | own =>
    simp only [acceptedBy, h.queue_eq, List.filterMap_append, deliver, own_mem_takers]
    cases sent <;> simp [hn]

theorem takers_eq_nil {msg : Tagged M} {bound : Nat} {s : State M R W}
    (hs : Stamped bound s.1.endpoints) {r : Option (Tagged M) × State M R W}
    {tries : List (Attempt M R)} {sent : Bool} (h : Routes p msg s.1 s.2.2 r tries sent) :
    takers tries sent = [] ↔ r.1 ≠ none := by
  have hstamp : ∀ a ∈ tries, ∃ k, a.remote.tag = some k := by
    intro a ha
    obtain ⟨ep, hep, hr, -⟩ := h.matched a ha
    obtain ⟨k, -, hk⟩ := hs.below ep hep
    exact ⟨k, hr ▸ hk⟩
  rw [h.remain_eq, List.eq_nil_iff_forall_not_mem]
  constructor
  · intro hno
    have hsent : sent = false := by
      simpa using (own_mem_takers tries sent).not.mp (hno .own)
    have hany : tries.any Attempt.accepted = false := by
      rw [List.any_eq_false]
      intro a ha hacc
      obtain ⟨k, hk⟩ := hstamp a ha
      exact hno (.endpoint k) ((endpoint_mem_takers tries sent k).mpr ⟨a, ha, hacc, hk⟩)
    simp [hsent, hany]
  · intro hne d hd
    have hb : (sent || tries.any Attempt.accepted) = false := by
      by_contra hb
      rw [Bool.not_eq_false] at hb
      exact hne (by rw [hb]; rfl)
    rw [Bool.or_eq_false_iff] at hb
    cases d with
    | endpoint k =>
      obtain ⟨a, ha, hacc, -⟩ := (endpoint_mem_takers tries sent k).mp hd
      exact absurd hacc (by simpa using List.any_eq_false.mp hb.2 a ha)
    | own => exact absurd ((own_mem_takers tries sent).mp hd) (by simp [hb.1])

end Ipmb.Destinations
