import Mathlib.Data.List.Flatten
import Mathlib.Logic.Function.Basic

namespace Ipmb.Custody

section Count

variable {α β : Type} [BEq β] (f : α → List β)

/-- Exchanging one member of a list exchanges its share. -/
theorem count_flatMap_set {l : List α} {i : Nat} {a : α} (h : l[i]? = some a) (b : α) (x : β) :
    ((l.set i b).flatMap f).count x + (f a).count x = (l.flatMap f).count x + (f b).count x := by
  induction l generalizing i with
  | nil => cases h
  | cons c l ih =>
    cases i with
    | zero =>
      cases h
      simp only [List.set_cons_zero, List.flatMap_cons, List.count_append]
      omega
    | succ i =>
      have := ih (List.getElem?_cons_succ ▸ h)
      simp only [List.set_cons_succ, List.flatMap_cons, List.count_append]
      omega

theorem count_flatMap_eraseIdx {l : List α} {i : Nat} {a : α} (h : l[i]? = some a) (x : β) :
    ((l.eraseIdx i).flatMap f).count x + (f a).count x = (l.flatMap f).count x := by
  induction l generalizing i with
  | nil => cases h
  | cons c l ih =>
    cases i with
    | zero =>
      cases h
      simp only [List.eraseIdx_cons_zero, List.flatMap_cons, List.count_append]
      omega
    | succ i =>
      have := ih (List.getElem?_cons_succ ▸ h)
      simp only [List.eraseIdx_cons_succ, List.flatMap_cons, List.count_append]
      omega

theorem count_flatMap_filter (p : α → Bool) (l : List α) (x : β) :
    ((l.filter p).flatMap f).count x + ((l.filter fun a => !p a).flatMap f).count x =
      (l.flatMap f).count x := by
  induction l with
  | nil => rfl
  | cons a l ih =>
    cases hp : p a <;>
      simp only [List.filter_cons, hp, Bool.not_true, Bool.not_false, Bool.false_eq_true, if_true, if_false,
        List.flatMap_cons, List.count_append] <;> omega

theorem count_map_erase {γ : Type} [BEq γ] [LawfulBEq γ] (g : γ → β) {l : List γ} {a : γ} (h : a ∈ l)
    (x : β) :
    ((l.erase a).map g).count x + [g a].count x = (l.map g).count x := by
  have hperm := ((List.perm_cons_erase h).map g).count_eq x
  rw [List.map_cons, List.count_cons] at hperm
  rw [List.count_singleton]
  exact hperm.symm

end Count

section Cover

variable {K V : Type} [DecidableEq K] [DecidableEq V]

/-- The entries of these keys, and what is left. -/
def takeAll : List (K × V) → List K → Option (List (K × V) × List (K × V))
  | entries, [] => some ([], entries)
  | entries, k :: keys =>
    (entries.find? fun e => e.1 == k).bind fun e =>
      (takeAll (entries.erase e) keys).map fun x => (e :: x.1, x.2)

theorem takeAll_spec {entries taken rest : List (K × V)} {keys : List K}
    (h : takeAll entries keys = some (taken, rest)) :
    taken.map Prod.fst = keys ∧ ∀ e, taken.count e + rest.count e = entries.count e := by
  induction keys generalizing entries taken rest with
  | nil =>
    cases h
    exact ⟨rfl, fun e => by simp⟩
  | cons k keys ih =>
    obtain ⟨e, he, h⟩ := Option.bind_eq_some_iff.mp h
    obtain ⟨⟨taken', rest'⟩, htake, heq⟩ := Option.map_eq_some_iff.mp h
    cases heq
    obtain ⟨hkeys, hcount⟩ := ih htake
    obtain rfl : e.1 = k := by simpa using List.find?_some he
    refine ⟨by rw [List.map_cons, hkeys], fun x => ?_⟩
    have hx := hcount x
    rw [List.count_erase] at hx
    rw [List.count_cons]
    by_cases hxe : e = x
    · subst hxe
      have := List.count_pos_iff.mpr (List.mem_of_find?_eq_some he)
      simp only [beq_self_eq_true, if_true] at hx ⊢
      omega
    · have hxe' : (e == x) = false := by simpa using hxe
      simp only [hxe', Bool.false_eq_true, if_false] at hx ⊢
      omega

theorem takeAll_perm {entries taken rest : List (K × V)} {keys : List K}
    (h : takeAll entries keys = some (taken, rest)) : (taken ++ rest).Perm entries :=
  List.perm_iff_count.mpr fun e => by
    rw [List.count_append]
    exact (takeAll_spec h).2 e

/-- The ledger has the entries of the table, each of them once; the keys outside of `real` are not
entered in the table. -/
def Covers (real : K → Prop) (table : K → Option V) (ledger : List (K × V)) : Prop :=
  ∀ e, real e.1 → ledger.count e = if table e.1 = some e.2 then 1 else 0

variable {real : K → Prop} {table table' : K → Option V} {ledger ledger' : List (K × V)}

theorem covers_nil : Covers real (fun _ => none) ([] : List (K × V)) := fun _ _ => rfl

theorem Covers.get (h : Covers real table ledger) {e : K × V} (hr : real e.1) (he : e ∈ ledger) :
    table e.1 = some e.2 := by
  have hpos := List.count_pos_iff.mpr he
  rw [h e hr] at hpos
  by_contra hne
  rw [if_neg hne] at hpos
  exact absurd hpos (Nat.lt_irrefl 0)

theorem Covers.mem (h : Covers real table ledger) {e : K × V} (hr : real e.1)
    (he : table e.1 = some e.2) : e ∈ ledger := by
  apply List.count_pos_iff.mp
  rw [h e hr, if_pos he]
  exact Nat.one_pos

/-- Entries change hands. -/
theorem Covers.moved (h : Covers real table ledger)
    (hc : ∀ e, real e.1 → ledger'.count e = ledger.count e) : Covers real table ledger' :=
  fun e hr => (hc e hr).trans (h e hr)

theorem Covers.opened (h : Covers real table ledger) {k : K} {v : V} (hk : table k = none)
    (hc : ∀ e, real e.1 → ledger'.count e = ledger.count e + [(k, v)].count e) :
    Covers real (Function.update table k (some v)) ledger' := by
  intro e hr
  rw [hc e hr, h e hr]
  obtain ⟨k', v'⟩ := e
  by_cases hkk : k' = k
  · subst hkk
    by_cases hv : v = v'
    · subst hv
      simp [hk]
    · simp [hk, hv]
  · simp [Function.update_of_ne hkk, Ne.symm hkk]

/-- The entries that one party gives up leave the table. -/
theorem Covers.closed (h : Covers real table ledger) (gone : List (K × V))
    (htable : ∀ k, real k → table' k = if k ∈ gone.map Prod.fst then none else table k)
    (hc : ∀ e, real e.1 → ledger'.count e + gone.count e = ledger.count e) :
    Covers real table' ledger' := by
  intro e hr
  have hsum := hc e hr
  rw [htable e.1 hr]
  by_cases hk : e.1 ∈ gone.map Prod.fst
  · rw [if_pos hk, if_neg (by simp)]
    obtain ⟨e', he', hkey⟩ := List.mem_map.mp hk
    have hr' : real e'.1 := hkey ▸ hr
    have hpos := List.count_pos_iff.mpr he'
    have hsum' := hc e' hr'
    have hget : table e'.1 = some e'.2 :=
      h.get hr' (List.count_pos_iff.mp (by omega))
    rw [h e hr] at hsum
    by_cases heq : e = e'
    · subst heq
      rw [if_pos hget] at hsum
      omega
    · have hne : table e.1 ≠ some e.2 := by
        rw [← hkey, hget]
        intro hv
        exact heq (Prod.ext hkey.symm (Option.some.inj hv).symm)
      rw [if_neg hne] at hsum
      omega
  · have hzero : gone.count e = 0 :=
      List.count_eq_zero.mpr fun he => hk (List.mem_map_of_mem he)
    rw [if_neg hk, ← h e hr]
    omega

end Cover

section Tally

variable {K V : Type} [DecidableEq V]

/-- What a table says of the references to a key at a value. -/
def references (table : K → Option (V × Nat)) (e : K × V) : Nat :=
  match table e.1 with
  | some (v, n) => if v = e.2 then n else 0
  | none => 0

/-- The references of the table are the real entries, counted. -/
structure Tallies (real : K → Prop) (table : K → Option (V × Nat)) (count : K × V → Nat) : Prop where
  count : ∀ e, real e.1 → count e = references table e
  pos : ∀ k v n, real k → table k = some (v, n) → 0 < n

variable {real : K → Prop} {table : K → Option (V × Nat)} {count count' : K × V → Nat}

theorem tallies_nil : Tallies real (fun _ => none) (fun _ : K × V => 0) :=
  ⟨fun _ _ => rfl, fun _ _ _ _ h => by cases h⟩

theorem Tallies.get (h : Tallies real table count) {k : K} {v : V} (hr : real k) (he : 0 < count (k, v)) :
    table k = some (v, count (k, v)) := by
  have hcount := h.count (k, v) hr
  rw [hcount] at he ⊢
  rw [references] at he ⊢
  cases htable : table k with
  | none => simp [htable] at he
  | some x =>
    obtain ⟨v', n⟩ := x
    simp only [htable] at he ⊢
    by_cases hv : v' = v
    · rw [if_pos hv, hv]
    · rw [if_neg hv] at he
      exact absurd he (Nat.lt_irrefl 0)

theorem Tallies.moved (h : Tallies real table count) (hc : ∀ e, real e.1 → count' e = count e) :
    Tallies real table count' :=
  ⟨fun e hr => (hc e hr).trans (h.count e hr), h.pos⟩

theorem references_congr {table' : K → Option (V × Nat)} {e : K × V} (h : table' e.1 = table e.1) :
    references table' e = references table e := by
  rw [references, references, h]

variable [DecidableEq K]

/-- The key gets one more reference. -/
def retain (table : K → Option (V × Nat)) (k : K) (v : V) : K → Option (V × Nat) :=
  Function.update table k (some (v, references table (k, v) + 1))

/-- The key loses a reference, and leaves the table with its last one. -/
def release (table : K → Option (V × Nat)) (k : K) : K → Option (V × Nat) :=
  match table k with
  | some (v, n + 2) => Function.update table k (some (v, n + 1))
  | some (_, _) => Function.update table k none
  | none => table

theorem references_update_self (k : K) (v v' : V) (n : Nat) :
    references (Function.update table k (some (v, n))) (k, v') = if v = v' then n else 0 := by
  rw [references, Function.update_self]

theorem references_update_of_ne {k : K} {e : K × V} (hne : e.1 ≠ k) (x : Option (V × Nat)) :
    references (Function.update table k x) e = references table e := by
  rw [references, references, Function.update_of_ne hne]

theorem Tallies.retained (h : Tallies real table count) {k : K} {v : V}
    (hk : ∀ v' n, table k = some (v', n) → v' = v)
    (hc : ∀ e, real e.1 → count' e = count e + if (k, v) = e then 1 else 0) :
    Tallies real (retain table k v) count' where
  count e hr := by
    obtain ⟨k', v'⟩ := e
    rw [hc _ hr, h.count _ hr]
    by_cases hkk : k' = k
    · subst hkk
      rw [retain, references_update_self]
      by_cases hv : v = v'
      · subst hv
        rw [if_pos rfl, if_pos rfl]
      · rw [if_neg hv, if_neg (by simpa using hv), references]
        split
        · rename_i v'' n htable
          rw [if_neg]
          rintro rfl
          exact hv (hk _ _ htable).symm
        · rfl
    · rw [retain, references_update_of_ne hkk, if_neg (by simpa using fun h => absurd h.symm hkk)]
      rfl
  pos k' v' n hr htable := by
    by_cases hkk : k' = k
    · subst hkk
      rw [retain, Function.update_self] at htable
      cases htable
      exact Nat.succ_pos _
    · rw [retain, Function.update_of_ne hkk] at htable
      exact h.pos k' v' n hr htable

omit [DecidableEq V] in
theorem release_of_ne {k k' : K} (hne : k' ≠ k) : release table k k' = table k' := by
  rw [release]
  match table k with
  | some (v, 0) | some (v, 1) | some (v, n + 2) => exact Function.update_of_ne hne _ _
  | none => rfl

theorem Tallies.released (h : Tallies real table count) {k : K} {v : V}
    (hc : ∀ e, real e.1 → (count' e + if (k, v) = e then 1 else 0) = count e) :
    Tallies real (release table k) count' := by
  by_cases hreal : real k
  · have hkv := hc (k, v) hreal
    rw [if_pos rfl] at hkv
    have htable := h.get (v := v) hreal (by omega)
    rw [← hkv] at htable
    refine ⟨fun e hr => ?_, fun k' v' n hr hget => ?_⟩
    · obtain ⟨k', v'⟩ := e
      have hsum := hc _ hr
      have hold := h.count _ hr
      by_cases hkk : k' = k
      · subst hkk
        by_cases hv : v = v'
        · subst hv
          rw [release, htable]
          cases hn : count' (k', v) with
          | zero => simp [references]
          | succ n => simp [references]
        · have hzero : count (k', v') = 0 := by
            rw [hold, references, htable]
            simp [hv]
          rw [release, htable]
          cases hn : count' (k', v) with
          | zero =>
            simp only [references, Function.update_self]
            omega
          | succ n =>
            simp only [references, Function.update_self, if_neg hv]
            omega
      · rw [references_congr (release_of_ne hkk), ← hold]
        rw [if_neg (by simpa using fun h => absurd h.symm hkk)] at hsum
        omega
    · by_cases hkk : k' = k
      · subst hkk
        rw [release, htable] at hget
        cases hn : count' (k', v) with
        | zero => simp [hn] at hget
        | succ m =>
          simp only [hn, Function.update_self, Option.some.injEq, Prod.mk.injEq] at hget
          omega
      · rw [release_of_ne hkk] at hget
        exact h.pos k' v' n hr hget
  · have hne : ∀ {k' : K}, real k' → k' ≠ k := fun hr hkk => hreal (hkk ▸ hr)
    refine ⟨fun e hr => ?_, fun k' v' n hr hget => ?_⟩
    · have hsum := hc e hr
      rw [if_neg (by rintro rfl; exact hreal hr)] at hsum
      rw [references_congr (release_of_ne (hne hr)), ← h.count e hr]
      omega
    · rw [release_of_ne (hne hr)] at hget
      exact h.pos k' v' n hr hget

/-- One party gives up all its entries, in their order. -/
theorem Tallies.releasedAll {gone : List (K × V)} (h : Tallies real table count)
    (hc : ∀ e, real e.1 → count' e + gone.count e = count e) :
    Tallies real ((gone.map Prod.fst).foldl release table) count' := by
  induction gone generalizing table count with
  | nil => exact h.moved fun e hr => by simpa using hc e hr
  | cons e gone ih =>
    rw [List.map_cons, List.foldl_cons]
    refine @ih _ (fun x => count' x + gone.count x) ?_ fun _ _ => rfl
    refine h.released (v := e.2) fun x hr => ?_
    have hsum := hc x hr
    rw [List.count_cons] at hsum
    simp only [beq_iff_eq] at hsum
    rw [← hsum, Nat.add_assoc]

end Tally

end Ipmb.Custody
