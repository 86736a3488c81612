import Mathlib.Data.List.Basic

namespace Ipmb.Frames

variable {α : Type}

/-- The messages that are not empty. -/
def solid (ms : List (List α)) : List (List α) := ms.filter fun m => !m.isEmpty

/-- `acc` has been read of the first message; the queue holds the rest of it. -/
def glue (acc : List α) (queue : List (List α)) : List (List α) := queue.modifyHead (acc ++ ·)

/-- A message has been read in part: the rest of it is not empty. -/
def Begun (queue : List (List α)) : Prop := ∃ m ms, queue = m :: ms ∧ m ≠ []

structure Fragment (α : Type) where
  data : List α
  more : Bool
deriving DecidableEq

/-- A read takes as much of the first message as there is room for, and nothing of the next one. -/
def take (room : Nat) : List (List α) → Option (Fragment α × List (List α))
  | [] => none
  | m :: ms =>
    if m.length ≤ room then some (⟨m, false⟩, ms) else some (⟨m.take room, true⟩, m.drop room :: ms)

@[simp] theorem solid_nil : solid ([] : List (List α)) = [] := rfl

@[simp] theorem solid_append (ms ns : List (List α)) : solid (ms ++ ns) = solid ms ++ solid ns :=
  List.filter_append ..

@[simp] theorem solid_empty (ms : List (List α)) : solid ([] :: ms) = solid ms := rfl

theorem solid_cons {m : List α} (h : m ≠ []) (ms : List (List α)) : solid (m :: ms) = m :: solid ms := by
  rw [solid, List.filter_cons_of_pos (by simpa using h)]
  rfl

@[simp] theorem glue_nil (queue : List (List α)) : glue [] queue = queue := by
  cases queue <;> rfl

/-- What is written later goes behind the message that is being read. -/
theorem glue_append {acc : List α} {queue : List (List α)} (h : acc ≠ [] → Begun queue) (m : List α) :
    glue acc (queue ++ [m]) = glue acc queue ++ [m] := by
  by_cases hacc : acc = []
  · rw [hacc, glue_nil, glue_nil]
  · obtain ⟨first, rest, rfl, -⟩ := h hacc
    rfl

theorem Begun.append {queue : List (List α)} (h : Begun queue) (ns : List (List α)) : Begun (queue ++ ns) := by
  obtain ⟨m, ms, rfl, hm⟩ := h
  exact ⟨m, ms ++ ns, rfl, hm⟩

/-- The message that is being read is longer than what has been read of it. -/
theorem Begun.exists_longer {queue : List (List α)} (h : Begun queue) (acc : List α) :
    ∃ m ∈ glue acc queue, acc.length < m.length := by
  obtain ⟨m, ms, rfl, hm⟩ := h
  refine ⟨acc ++ m, List.mem_cons_self .., ?_⟩
  rw [List.length_append]
  have := List.length_pos_iff.mpr hm
  omega

theorem take_eq_none {room : Nat} {queue : List (List α)} : take room queue = none ↔ queue = [] := by
  cases queue with
  | nil => simp [take]
  | cons m ms =>
    rw [take]
    split <;> simp

/-- The last fragment completes the message. -/
theorem take_last {room : Nat} {queue queue' : List (List α)} {data : List α}
    (h : take room queue = some (⟨data, false⟩, queue')) (acc : List α) :
    data.length ≤ room ∧ glue acc queue = (acc ++ data) :: queue' := by
  cases queue with
  | nil => cases h
  | cons m ms =>
    rw [take] at h
    split at h
    · rename_i hfits
      cases h
      exact ⟨hfits, rfl⟩
    · cases h

/-- Any other fragment fills the room, and more of the message is left. -/
theorem take_more {room : Nat} {queue queue' : List (List α)} {data : List α}
    (h : take room queue = some (⟨data, true⟩, queue')) (acc : List α) :
    data.length = room ∧ glue acc queue = glue (acc ++ data) queue' ∧ Begun queue' := by
  cases queue with
  | nil => cases h
  | cons m ms =>
    rw [take] at h
    split at h
    · cases h
    · rename_i hlong
      cases h
      refine ⟨?_, ?_, m.drop room, ms, rfl, ?_⟩
      · rw [List.length_take]
        omega
      · simp [glue, List.append_assoc, List.take_append_drop]
      · intro hempty
        exact hlong (List.drop_eq_nil_iff.mp hempty)

end Ipmb.Frames
