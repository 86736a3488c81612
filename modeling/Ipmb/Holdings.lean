import Ipmb.Registry

namespace Ipmb.Holdings

open Time Programs Counters Regions Registry

/-- What the registry knows during a call: the handles that it has, the closures that it may
still call, regions that nobody else has or can get, the sizes of regions, and which region
was returned with which closure. -/
structure Grip where
  own : List File
  pending : List Closure
  alone : List File
  sizes : List (Nat × File)
  granted : List (Closure × File)

/-- The closure has not been returned with any other region. -/
def Grip.Tied (g : Grip) (p : Closure × File) : Prop := ∀ f, (p.1, f) ∈ g.granted → f = p.2

def Grip.clone (g : Grip) (f : File) : Grip := { g with own := f :: g.own }

def Grip.isolate (g : Grip) (f : File) : Grip := { g with alone := f :: g.alone }

def Grip.create (g : Grip) (size : Nat) (f : File) : Grip :=
  { g with own := f :: g.own, alone := f :: g.alone, sizes := (size, f) :: g.sizes }

def Grip.drop (g : Grip) (f : File) : Grip := { g with own := g.own.erase f }

def Grip.free (g : Grip) (c : Closure) : Grip := { g with pending := g.pending.erase c }

variable (careful : Bool)

/-- `careful` asks that a closure is only called for a region that nobody else has. -/
def pre (g : Grip) : Call → Prop
  | .load f | .clone f | .drop f _ => f ∈ g.own
  | .new _ => True
  | .free f c => c ∈ g.pending ∧ g.Tied (c, f) ∧ (careful = true → f ∈ g.alone)

/-- What the answers say. To be `careful` is to drop a region whose guard has a closure only
when nobody else has it. -/
def post (g : Grip) : (o : Call) → o.Answer → Grip → Prop
  | .load f, count, g' => if count = 1 then g.own.count f = 1 ∧ g' = g.isolate f else g' = g
  | .clone f, cloned, g' => g' = if cloned then g.clone f else g
  | .new _, none, g' => g' = g
  | .new size, some f, g' => f ∉ g.own ∧ (∀ n, (n, f) ∉ g.sizes) ∧ g' = g.create size f
  | .drop f guard, _, g' =>
    g' = if careful && guard.isSome then (g.drop f).isolate f else g.drop f
  | .free _ c, _, g' => g' = g.free c

def rules : Rules Call Call.Answer Grip := ⟨pre careful, post careful⟩

/-- Knowledge of others is not lost. -/
structure Grip.Le (g g' : Grip) : Prop where
  alone : g.alone ⊆ g'.alone
  sizes : g.sizes ⊆ g'.sizes
  granted : g'.granted = g.granted

theorem Grip.Le.refl (g : Grip) : g.Le g := ⟨List.Subset.refl _, List.Subset.refl _, rfl⟩

theorem Grip.Le.trans {g g' g'' : Grip} (h : g.Le g') (h' : g'.Le g'') : g.Le g'' :=
  ⟨List.Subset.trans h.alone h'.alone, List.Subset.trans h.sizes h'.sizes, h'.granted.trans h.granted⟩

theorem Grip.le_isolate (g : Grip) (f : File) : g.Le (g.isolate f) :=
  ⟨List.subset_cons_self _ _, List.Subset.refl _, rfl⟩

theorem Grip.le_clone (g : Grip) (f : File) : g.Le (g.clone f) :=
  ⟨List.Subset.refl _, List.Subset.refl _, rfl⟩

theorem Grip.le_create (g : Grip) (size : Nat) (f : File) : g.Le (g.create size f) :=
  ⟨List.subset_cons_self _ _, List.subset_cons_self _ _, rfl⟩

theorem Grip.le_drop (g : Grip) (f : File) : g.Le (g.drop f) :=
  ⟨List.Subset.refl _, List.Subset.refl _, rfl⟩

theorem Grip.le_free (g : Grip) (c : Closure) : g.Le (g.free c) :=
  ⟨List.Subset.refl _, List.Subset.refl _, rfl⟩

/-- The handles are these, and so are the closures that may be called: those in guards, with
the regions next to them, and spare ones. -/
structure Holding (g : Grip) (files : List File) (guards : List (Closure × File)) (spare : List Closure) :
    Prop where
  own : g.own.Perm files
  pending : (guards.map Prod.fst ++ spare).Subperm g.pending
  tied : ∀ p ∈ guards, g.Tied p
  spare : ∀ c ∈ spare, ∀ f, (c, f) ∉ g.granted

section Rules

variable {careful} {g : Grip} {files files' : List File} {guards guards' : List (Closure × File)}
  {spare : List Closure} {f : File}

theorem Holding.perm (h : Holding g files guards spare) (hf : files.Perm files')
    (hg : guards.Perm guards') : Holding g files' guards' spare :=
  ⟨h.own.trans hf, ((hg.symm.map _).append_right _).subperm.trans h.pending,
    fun p hp => h.tied p (hg.symm.subset hp), h.spare⟩

theorem Holding.isolate (h : Holding g files guards spare) (f : File) :
    Holding (g.isolate f) files guards spare := ⟨h.own, h.pending, h.tied, h.spare⟩

theorem Holding.clone (h : Holding g files guards spare) (f : File) :
    Holding (g.clone f) (f :: files) guards spare := ⟨h.own.cons f, h.pending, h.tied, h.spare⟩

theorem Holding.create (h : Holding g files guards spare) (size : Nat) (f : File) :
    Holding (g.create size f) (f :: files) guards spare := ⟨h.own.cons f, h.pending, h.tied, h.spare⟩

theorem Holding.drop (h : Holding g (f :: files) guards spare) : Holding (g.drop f) files guards spare := by
  refine ⟨?_, h.pending, h.tied, h.spare⟩
  have herase := h.own.erase f
  rwa [List.erase_cons_head] at herase

theorem Holding.free {c : Closure} (h : Holding g files ((c, f) :: guards) spare) :
    Holding (g.free c) files guards spare := by
  refine ⟨h.own, ?_, fun p hp => h.tied p (List.mem_cons_of_mem _ hp), h.spare⟩
  have herase := h.pending.erase c
  rwa [List.map_cons, List.cons_append, List.erase_cons_head] at herase

theorem Holding.forget (h : Holding g files guards spare) : Holding g files guards [] := by
  refine ⟨h.own, ?_, h.tied, fun _ hc => by cases hc⟩
  rw [List.append_nil]
  exact (List.sublist_append_left _ _).subperm.trans h.pending

/-- The spare closures are put into the guard of a region. -/
theorem Holding.install (h : Holding g files guards spare) (f : File) :
    Holding g files (spare.map (fun c => (c, f)) ++ guards) [] := by
  refine ⟨h.own, ?_, fun p hp => ?_, fun _ hc => by cases hc⟩
  · have hspare : (spare.map fun c => (c, f)).map Prod.fst = spare := by simp [Function.comp_def]
    rw [List.map_append, hspare, List.append_nil]
    exact List.perm_append_comm.subperm.trans h.pending
  · obtain hp | hp := List.mem_append.mp hp
    · obtain ⟨c, hc, rfl⟩ := List.mem_map.mp hp
      exact fun f' hf' => absurd hf' (h.spare c hc f')
    · exact h.tied p hp

theorem Holding.count (h : Holding g files guards spare) (f : File) : g.own.count f = files.count f :=
  h.own.count_eq f

theorem holds_load {Q : BitVec 32 → Grip → Prop} (h : Holding g files guards spare) (hf : f ∈ files)
    (hone : files.count f = 1 → Q 1 (g.isolate f)) (hmany : ∀ n, n ≠ 1 → Q n g) :
    (rules careful).Holds Q (load f) g := by
  apply Rules.holds_perform (h.own.symm.subset hf)
  intro n g' hpost
  by_cases hn : n = 1
  · simp only [rules, post, hn, if_true] at hpost
    obtain ⟨hcount, rfl⟩ := hpost
    rw [hn]
    exact hone (h.count f ▸ hcount)
  · simp only [rules, post, hn, if_false] at hpost
    exact hpost ▸ hmany n hn

theorem holds_clone {Q : Bool → Grip → Prop} (h : Holding g files guards spare) (hf : f ∈ files)
    (hcloned : Q true (g.clone f)) (hfailed : Q false g) : (rules careful).Holds Q (clone f) g := by
  apply Rules.holds_perform (h.own.symm.subset hf)
  intro cloned g' hpost
  cases cloned with
  | true => exact hpost ▸ hcloned
  | false => exact hpost ▸ hfailed

/-- Nothing is next to the region. -/
theorem holds_drop {Q : Unit → Grip → Prop} (h : Holding g (f :: files) guards spare)
    (hdropped : Q () (g.drop f)) : (rules careful).Holds Q (drop f none) g := by
  apply Rules.holds_perform (h.own.symm.subset List.mem_cons_self)
  intro _ g' hpost
  simp only [rules, post, Option.isSome_none, Bool.and_false, Bool.false_eq_true, if_false] at hpost
  exact hpost ▸ hdropped

theorem holds_new {size : Nat} {Q : Option File → Grip → Prop} (h : Holding g files guards spare)
    (hnew : ∀ f, f ∉ files → (∀ n, (n, f) ∉ g.sizes) → Q (some f) (g.create size f))
    (hfailed : Q none g) : (rules careful).Holds Q (new size) g := by
  apply Rules.holds_perform trivial
  intro created g' hpost
  cases created with
  | none => exact hpost ▸ hfailed
  | some f =>
    obtain ⟨hf, hsize, rfl⟩ := hpost
    exact hnew f (fun hmem => hf (h.own.symm.subset hmem)) hsize

end Rules

end Ipmb.Holdings
