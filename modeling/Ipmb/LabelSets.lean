import Ipmb.Labels
import Mathlib.Data.Finset.Dedup
import Mathlib.Data.Finset.Basic

namespace Ipmb.Labels

namespace Label

/-- `From<T>`: the elements of the iterator inserted one by one into the default label. -/
def ofIter (it : List String) : Label := it.foldl insert default

/-- The set a label stands for, whatever the order and the multiplicities of its elements. -/
def members (l : Label) : Finset String := l.elems.toFinset

theorem any_eq_iff (l : Label) (s : String) : l.elems.any (· == s) = true ↔ s ∈ l.members := by
  rw [members, List.mem_toFinset, List.any_eq_true]
  constructor
  · rintro ⟨i, hi, he⟩
    rwa [← beq_iff_eq.mp he]
  · intro hs
    exact ⟨s, hs, beq_self_eq_true s⟩

@[simp] theorem members_default : default.members = ∅ := rfl

theorem insert_of_mem {l : Label} {s : String} (h : s ∈ l.members) : l.insert s = l :=
  if_pos ((any_eq_iff l s).mpr h)

theorem insert_of_notMem {l : Label} {s : String} (h : s ∉ l.members) :
    l.insert s = ⟨l.elems ++ [s]⟩ :=
  if_neg (fun ha => h ((any_eq_iff l s).mp ha))

@[simp] theorem members_insert (l : Label) (s : String) :
    (l.insert s).members = Insert.insert s l.members := by
  by_cases h : s ∈ l.members
  · rw [insert_of_mem h, Finset.insert_eq_of_mem h]
  · rw [insert_of_notMem h]
    ext x
    rw [members, List.mem_toFinset, Finset.mem_insert, members, List.mem_toFinset, List.mem_append,
      List.mem_singleton]
    exact or_comm

@[simp] theorem members_remove (l : Label) (s : String) :
    (l.remove s).members = l.members.erase s := by
  ext x
  simp [remove, members, and_comm]

theorem nodup_insert {l : Label} (h : l.elems.Nodup) (s : String) : (l.insert s).elems.Nodup := by
  by_cases hs : s ∈ l.members
  · rwa [insert_of_mem hs]
  · rw [insert_of_notMem hs]
    have hn : s ∉ l.elems := by rwa [members, List.mem_toFinset] at hs
    exact List.nodup_append.mpr ⟨h, List.nodup_singleton s, by
      intro a ha b hb
      rw [List.mem_singleton.mp hb]
      rintro rfl
      exact hn ha⟩

theorem nodup_remove {l : Label} (h : l.elems.Nodup) (s : String) : (l.remove s).elems.Nodup :=
  h.filter _

theorem all_singleton (l : Label) (s : String) : l.all [s] = true ↔ s ∈ l.members := by
  rw [← any_eq_iff]
  simp [all]

end Label

/-- One call of `Label::insert` or `Label::remove`. -/
inductive Edit where
  | insert (s : String)
  | remove (s : String)

def Edit.apply (l : Label) : Edit → Label
  | .insert s => l.insert s
  | .remove s => l.remove s

/-- The same call on a set. -/
def Edit.applySet (S : Finset String) : Edit → Finset String
  | .insert s => Insert.insert s S
  | .remove s => S.erase s

def Label.edit (l : Label) (es : List Edit) : Label := es.foldl Edit.apply l

def editSet (S : Finset String) (es : List Edit) : Finset String := es.foldl Edit.applySet S

theorem Edit.members_apply (l : Label) (e : Edit) :
    (e.apply l).members = e.applySet l.members := by
  cases e with
  | insert s => exact l.members_insert s
  | remove s => exact l.members_remove s

theorem Edit.nodup_apply {l : Label} (h : l.elems.Nodup) (e : Edit) : (e.apply l).elems.Nodup := by
  cases e with
  | insert s => exact Label.nodup_insert h s
  | remove s => exact Label.nodup_remove h s

theorem members_edit (l : Label) (es : List Edit) :
    (l.edit es).members = editSet l.members es := by
  induction es generalizing l with
  | nil => rfl
  | cons e es ih =>
    rw [editSet, List.foldl_cons, ← e.members_apply]
    exact ih (e.apply l)

theorem nodup_edit {l : Label} (h : l.elems.Nodup) (es : List Edit) : (l.edit es).elems.Nodup := by
  induction es generalizing l with
  | nil => exact h
  | cons e es ih => exact ih (e.nodup_apply h)

/-- A conversion is the run of the inserts of its elements. -/
theorem ofIter_eq_edit (it : List String) : Label.ofIter it = Label.default.edit (it.map .insert) := by
  rw [Label.edit, List.foldl_map]
  rfl

theorem nodup_ofIter (it : List String) : (Label.ofIter it).elems.Nodup := by
  rw [ofIter_eq_edit]
  exact nodup_edit List.nodup_nil _

theorem editSet_insert (S : Finset String) (it : List String) :
    editSet S (it.map .insert) = S ∪ it.toFinset := by
  induction it generalizing S with
  | nil => simp [editSet]
  | cons s it ih =>
    calc editSet S ((s :: it).map .insert) = editSet (Insert.insert s S) (it.map .insert) := rfl
      _ = Insert.insert s S ∪ it.toFinset := ih _
      _ = S ∪ (s :: it).toFinset := by
        ext x
        simp only [Finset.mem_union, Finset.mem_insert, List.toFinset_cons]
        tauto

theorem members_ofIter (it : List String) : (Label.ofIter it).members = it.toFinset := by
  rw [ofIter_eq_edit, members_edit, editSet_insert, Label.members_default]
  exact Finset.union_eq_right.mpr (Finset.empty_subset _)

/-- The propositional value of an expression, its leaves read as membership. -/
def LabelOp.Holds (S : Finset String) : LabelOp → Prop
  | .true => True
  | .false => False
  | .leaf v => v ∈ S
  | .not left => ¬ left.Holds S
  | .and left right => left.Holds S ∧ right.Holds S
  | .or left right => left.Holds S ∨ right.Holds S

theorem validate_iff_holds (l : Label) (op : LabelOp) :
    op.validate l = true ↔ op.Holds l.members := by
  induction op with
  | true => exact ⟨fun _ => trivial, fun _ => rfl⟩
  | false => exact ⟨fun h => Bool.noConfusion h, fun h => h.elim⟩
  | leaf v => exact l.all_singleton v
  | not left ih =>
    rw [LabelOp.validate, LabelOp.Holds, ← ih]
    simp
  | and left right ihl ihr =>
    rw [LabelOp.validate, LabelOp.Holds, ← ihl, ← ihr]
    exact Bool.and_eq_true_iff
  | or left right ihl ihr =>
    rw [LabelOp.validate, LabelOp.Holds, ← ihl, ← ihr]
    exact Bool.or_eq_true_iff

theorem validate_congr {l l' : Label} (h : ∀ s, s ∈ l.elems ↔ s ∈ l'.elems) (op : LabelOp) :
    op.validate l = op.validate l' := by
  have hm : l.members = l'.members := by
    ext s
    rw [Label.members, Label.members, List.mem_toFinset, List.mem_toFinset, h s]
  rw [Bool.eq_iff_iff, validate_iff_holds, validate_iff_holds, hm]

/-- Labels are sets for routing. However a label was built, it holds each element of the
corresponding set once, and no expression can tell two labels with the same elements apart. -/
theorem labels_are_sets :
    (∀ es, (Label.default.edit es).elems.Nodup ∧ (Label.default.edit es).members = editSet ∅ es) ∧
    (∀ it es, ((Label.ofIter it).edit es).elems.Nodup ∧
      ((Label.ofIter it).edit es).members = editSet it.toFinset es) ∧
    (∀ (op : LabelOp) (l l' : Label), (∀ s, s ∈ l.elems ↔ s ∈ l'.elems) →
      op.validate l = op.validate l' ∧ (op.validate l = true ↔ op.Holds l.members)) := by
  refine ⟨?_, ?_, ?_⟩
  · intro es
    exact ⟨nodup_edit List.nodup_nil es, members_edit Label.default es⟩
  · intro it es
    refine ⟨nodup_edit (nodup_ofIter it) es, ?_⟩
    rw [members_edit, members_ofIter]
  · intro op l l' h
    exact ⟨validate_congr h op, validate_iff_holds l op⟩

theorem labels_are_sets_repeated :
    (LabelOp.not (.leaf "moon")).validate ⟨["solar", "earth", "solar"]⟩ =
      (LabelOp.not (.leaf "moon")).validate ⟨["earth", "solar"]⟩ := by
  apply (labels_are_sets.2.2 (.not (.leaf "moon")) ⟨["solar", "earth", "solar"]⟩
    ⟨["earth", "solar"]⟩ ?_).1
  intro s
  simp only [List.mem_cons, List.not_mem_nil, or_false]
  tauto

end Ipmb.Labels
