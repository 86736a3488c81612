import Ipmb.Holdings

namespace Ipmb.RegistryCalls

open Time Programs Counters Regions Registry Holdings

/-- The closure in the guard of the entry, with the region next to it. -/
def held (r : MemoryRegionEntry) : List (Closure × File) := r.guard.toList.map fun c => (c, r.region)

def regions (rs : List MemoryRegionEntry) : List File := rs.map MemoryRegionEntry.region

def guards (rs : List MemoryRegionEntry) : List (Closure × File) := rs.flatMap held

def entries (inner : Inner) : List MemoryRegionEntry := inner.flatMap Prod.snd

/-- The regions by their sizes. -/
def shape (inner : Inner) : List (Nat × File) :=
  inner.flatMap fun x => x.2.map fun r => (x.1, r.region)

def files (inner : Inner) : List File := (shape inner).map Prod.snd

theorem files_eq (inner : Inner) : files inner = regions (entries inner) := by
  simp [files, shape, regions, entries, List.map_flatMap, Function.comp_def]

variable {careful : Bool} {now : Instant} {g : Grip} {r : MemoryRegionEntry} {rs rs' : List MemoryRegionEntry}
  {fs : List File} {gs : List (Closure × File)} {spare : List Closure}

theorem dropGuard_holds (h : Holding g fs (held r ++ gs) spare)
    (halone : careful = true → r.guard.isSome → r.region ∈ g.alone) :
    (rules careful).Holds (fun _ g' => g.Le g' ∧ Holding g' fs gs spare) r.dropGuard g := by
  rw [MemoryRegionEntry.dropGuard]
  cases hguard : r.guard with
  | none =>
    rw [held, hguard] at h
    exact ⟨.refl g, h⟩
  | some c =>
    rw [held, hguard] at h
    refine Rules.holds_perform ⟨?_, h.tied _ (by simp), fun hc => halone hc (by simp [hguard])⟩ ?_
    · exact h.pending.subset (by simp)
    · rintro x g' rfl
      exact ⟨g.le_free c, h.free⟩

/-- The region goes first, and then the closure is called. -/
theorem dropEntry_holds (h : Holding g (r.region :: fs) (held r ++ gs) spare) :
    (rules careful).Holds (fun _ g' => g.Le g' ∧ Holding g' fs gs spare) r.dropEntry g := by
  rw [MemoryRegionEntry.dropEntry]
  refine Rules.Holds.bind (M := fun _ g' => g.Le g' ∧ Holding g' fs (held r ++ gs) spare ∧
    (careful = true → r.guard.isSome → r.region ∈ g'.alone)) ?_ ?_
  · apply Rules.holds_perform (h.own.symm.subset (by simp))
    rintro x g' rfl
    cases hc : careful && r.guard.isSome with
    | true =>
      exact ⟨(g.le_drop _).trans ((g.drop _).le_isolate _), h.drop.isolate _,
        fun _ _ => by simp [Grip.isolate]⟩
    | false =>
      refine ⟨g.le_drop _, h.drop, fun hcareful hguard => ?_⟩
      simp [hcareful, hguard] at hc
  · rintro _ g' ⟨hle, hg', halone⟩
    exact (dropGuard_holds hg' halone).mono fun _ g'' hend => ⟨hle.trans hend.1, hend.2⟩

/-- What is left of the entries: those that are retained and have a handle among `others` are
as they were. -/
structure Kept (now : Instant) (others : List File) (rs rs' : List MemoryRegionEntry) : Prop where
  sublist : (regions rs').Sublist (regions rs)
  stays : ∀ r ∈ rs, r.shouldRetain now = true → r.region ∈ others → r ∈ rs'

theorem Kept.cons (h : Kept now (r.region :: fs) rs rs') {r' : MemoryRegionEntry}
    (hregion : r'.region = r.region) (hsame : r.region ∈ fs → r' = r) :
    Kept now fs (r :: rs) (r' :: rs') := by
  refine ⟨?_, fun x hx hretain hmem => ?_⟩
  · rw [regions, regions, List.map_cons, List.map_cons, hregion]
    exact h.sublist.cons_cons _
  · obtain rfl | hx := List.mem_cons.mp hx
    · exact List.mem_cons.mpr (Or.inl (hsame hmem).symm)
    · exact List.mem_cons_of_mem _ (h.stays x hx hretain (List.mem_cons_of_mem _ hmem))

theorem Kept.dropped (h : Kept now fs rs rs') (hold : r.shouldRetain now = false) :
    Kept now fs (r :: rs) rs' := by
  refine ⟨h.sublist.cons _, fun x hx hretain hmem => ?_⟩
  obtain rfl | hx := List.mem_cons.mp hx
  · rw [hold] at hretain
    cases hretain
  · exact h.stays x hx hretain hmem

/-- The guard of a region that nobody else has is cleared. -/
theorem clearGuard_holds (h : Holding g (r.region :: fs) (held r ++ gs) spare) :
    (rules careful).Holds (fun r' g' => g.Le g' ∧ r'.region = r.region ∧ r'.lastAlloc = r.lastAlloc ∧
        (r.region ∈ fs → r' = r) ∧ Holding g' (r.region :: fs) (held r' ++ gs) spare) r.clearGuard g := by
  rw [MemoryRegionEntry.clearGuard]
  refine Rules.holds_bind.mpr (holds_load h (by simp) (fun hone => ?_) fun n hn => ?_)
  · rw [if_pos rfl]
    apply Rules.Holds.bind (dropGuard_holds (h.isolate _) fun _ _ => by simp [Grip.isolate])
    rintro _ g' ⟨hle, hg'⟩
    refine ⟨(g.le_isolate _).trans hle, rfl, rfl, fun hmem => ?_, hg'⟩
    have hpos := List.count_pos_iff.mpr hmem
    rw [List.count_cons_self] at hone
    omega
  · rw [if_neg hn]
    exact ⟨.refl g, rfl, rfl, fun _ => rfl, h⟩

theorem retain_holds (h : Holding g (regions rs ++ fs) (guards rs ++ gs) spare) :
    (rules careful).Holds (fun rs' g' => g.Le g' ∧ Kept now fs rs rs' ∧
      Holding g' (regions rs' ++ fs) (guards rs' ++ gs) spare) (retain now rs) g := by
  induction rs generalizing g fs gs with
  | nil => exact ⟨.refl g, ⟨List.Sublist.refl _, fun _ hx => by cases hx⟩, h⟩
  | cons r rs ih =>
    have hfirst : Holding g (r.region :: (regions rs ++ fs)) (held r ++ (guards rs ++ gs)) spare :=
      h.perm (List.Perm.refl _) (.of_eq (by rw [guards, List.flatMap_cons, List.append_assoc]; rfl))
    apply Rules.Holds.bind (clearGuard_holds hfirst)
    rintro r' g₁ ⟨hle, hregion, hlast, hsame, h₁⟩
    have hage : r'.shouldRetain now = r.shouldRetain now := by
      simp only [MemoryRegionEntry.shouldRetain, hlast]
    by_cases hretain : r'.shouldRetain now = true
    · rw [if_pos hretain]
      have hrest : Holding g₁ (regions rs ++ r.region :: fs) (guards rs ++ (held r' ++ gs)) spare :=
        h₁.perm List.perm_middle.symm (List.perm_append_comm_assoc _ _ _)
      apply Rules.Holds.bind (ih hrest)
      rintro rs' g₂ ⟨hle₂, hkept, h₂⟩
      refine ⟨hle.trans hle₂, hkept.cons hregion fun hmem => hsame (List.mem_append_right _ hmem), ?_⟩
      rw [regions, List.map_cons, hregion, guards, List.flatMap_cons, List.append_assoc]
      exact h₂.perm List.perm_middle (List.perm_append_comm_assoc _ _ _)
    · rw [if_neg hretain]
      rw [← hregion] at h₁
      apply Rules.Holds.bind (dropEntry_holds h₁)
      rintro _ g₂ ⟨hle₂, h₂⟩
      apply (ih h₂).mono
      rintro rs' g₃ ⟨hle₃, hkept, h₃⟩
      have hold : r.shouldRetain now = false := by
        rw [← hage]
        exact Bool.eq_false_iff.mpr hretain
      exact ⟨hle.trans (hle₂.trans hle₃), hkept.dropped hold, h₃⟩

/-- What is left of the registry. -/
structure KeptInner (now : Instant) (others : List File) (inner inner' : Inner) : Prop where
  sublist : (shape inner').Sublist (shape inner)
  stays : ∀ r ∈ entries inner, r.shouldRetain now = true → r.region ∈ others → r ∈ entries inner'

theorem shape_cons (size : Nat) (rs : List MemoryRegionEntry) (inner : Inner) :
    shape ((size, rs) :: inner) = (regions rs).map (size, ·) ++ shape inner := by
  simp [shape, regions, Function.comp_def]

theorem entries_cons (size : Nat) (rs : List MemoryRegionEntry) (inner : Inner) :
    entries ((size, rs) :: inner) = rs ++ entries inner := by
  simp [entries]

theorem files_cons (size : Nat) (rs : List MemoryRegionEntry) (inner : Inner) :
    files ((size, rs) :: inner) = regions rs ++ files inner := by
  simp [files_eq, entries_cons, regions]

theorem guards_append (rs rs' : List MemoryRegionEntry) : guards (rs ++ rs') = guards rs ++ guards rs' :=
  List.flatMap_append

/-- A size without entries does not matter. -/
theorem prune_eq (size : Nat) (rs : List MemoryRegionEntry) (inner : Inner) :
    shape (if rs.isEmpty then inner else (size, rs) :: inner) = shape ((size, rs) :: inner) ∧
      entries (if rs.isEmpty then inner else (size, rs) :: inner) = entries ((size, rs) :: inner) := by
  cases rs with
  | nil => exact ⟨rfl, rfl⟩
  | cons r rs => exact ⟨rfl, rfl⟩

theorem maintainInner_holds {inner : Inner}
    (h : Holding g (files inner ++ fs) (guards (entries inner) ++ gs) spare) :
    (rules careful).Holds (fun inner' g' => g.Le g' ∧ KeptInner now fs inner inner' ∧
      Holding g' (files inner' ++ fs) (guards (entries inner') ++ gs) spare) (maintainInner now inner) g := by
  induction inner generalizing g fs gs with
  | nil => exact ⟨.refl g, ⟨List.Sublist.refl _, fun _ hx => by cases hx⟩, h⟩
  | cons x inner ih =>
    obtain ⟨size, rs⟩ := x
    rw [files_cons, entries_cons, guards_append, List.append_assoc, List.append_assoc] at h
    apply Rules.Holds.bind (retain_holds h)
    rintro rs' g₁ ⟨hle, hkept, h₁⟩
    have hrest : Holding g₁ (files inner ++ (regions rs' ++ fs))
        (guards (entries inner) ++ (guards rs' ++ gs)) spare :=
      h₁.perm (List.perm_append_comm_assoc _ _ _) (List.perm_append_comm_assoc _ _ _)
    apply Rules.Holds.bind (ih hrest)
    rintro inner' g₂ ⟨hle₂, hkept₂, h₂⟩
    obtain ⟨hshape, hentries⟩ := prune_eq size rs' inner'
    refine ⟨hle.trans hle₂, ⟨?_, fun r hr hretain hmem => ?_⟩, ?_⟩
    · rw [hshape, shape_cons, shape_cons]
      exact (hkept.sublist.map _).append hkept₂.sublist
    · rw [hentries, entries_cons]
      rw [entries_cons] at hr
      obtain hr | hr := List.mem_append.mp hr
      · exact List.mem_append_left _ (hkept.stays r hr hretain (List.mem_append_right _ hmem))
      · exact List.mem_append_right _ (hkept₂.stays r hr hretain (List.mem_append_right _ hmem))
    · rw [files, hshape, ← files, files_cons, hentries, entries_cons, guards_append, List.append_assoc,
        List.append_assoc]
      exact h₂.perm (List.perm_append_comm_assoc _ _ _) (List.perm_append_comm_assoc _ _ _)

/-- How a search ends that has not passed over everything: a region is returned that nobody
else has, and its entry is the only one; or cloning has failed. -/
def Searched (now : Instant) (tag : Option String) (closure : Option Closure) (fs : List File)
    (gs : List (Closure × File)) (rs : List MemoryRegionEntry) : Option File → Grip → Prop
  | none, g => Holding g fs gs closure.toList
  | some f, g => Holding g (f :: fs) gs [] ∧ f ∈ g.alone ∧ fs.count f = 1 ∧
      ∃ r ∈ rs, r.region = f ∧ r.tag = tag ∧ r.guard = closure ∧ r.lastAlloc = now

variable {tag : Option String} {closure : Option Closure}

theorem Searched.perm {fs' : List File} {gs' : List (Closure × File)} {region : Option File}
    (h : Searched now tag closure fs gs rs region g) (hf : fs.Perm fs') (hg : gs.Perm gs')
    (hrs : rs ⊆ rs') : Searched now tag closure fs' gs' rs' region g := by
  cases region with
  | none => exact Holding.perm h hf hg
  | some f =>
    obtain ⟨hgrip, halone, hone, r, hr, hentry⟩ := h
    exact ⟨hgrip.perm (hf.cons f) hg, halone, hf.count_eq f ▸ hone, r, hrs hr, hentry⟩

theorem reuse_holds (h : Holding g (r.region :: fs) (held r ++ gs) closure.toList)
    (halone : r.region ∈ g.alone) (hone : (r.region :: fs).count r.region = 1) :
    (rules careful).Holds (fun x g' => g.Le g' ∧ x.1.region = r.region ∧
      Searched now r.tag closure (r.region :: fs) (held x.1 ++ gs) [x.1] x.2 g') (r.reuse now closure) g := by
  rw [MemoryRegionEntry.reuse]
  refine Rules.holds_bind.mpr (holds_clone h (by simp) ?_ ?_)
  · rw [if_pos rfl]
    apply Rules.Holds.bind (dropGuard_holds (h.clone _) fun _ _ => halone)
    rintro _ g' ⟨hle, hg'⟩
    exact ⟨(g.le_clone _).trans hle, rfl, hg'.install _, hle.alone halone, hone,
      _, List.mem_singleton_self _, rfl, rfl, rfl, rfl⟩
  · exact ⟨.refl g, rfl, h⟩

/-- How the search of a list of entries ends. -/
def Ended (now : Instant) (tag : Option String) (closure : Option Closure) (fs : List File)
    (gs : List (Closure × File)) (rs : List MemoryRegionEntry) :
    Option (List MemoryRegionEntry × Option File) → Grip → Prop
  | none, g => Holding g (regions rs ++ fs) (guards rs ++ gs) closure.toList
  | some (rs', region), g => regions rs' = regions rs ∧
      Searched now tag closure (regions rs ++ fs) (guards rs' ++ gs) rs' region g

/-- An entry that has been passed over is as it was. -/
theorem Ended.passed {found : Option (List MemoryRegionEntry × Option File)}
    (h : Ended now tag closure (r.region :: fs) (held r ++ gs) rs found g) :
    Ended now tag closure fs gs (r :: rs) (found.map fun x => (r :: x.1, x.2)) g := by
  have hregions : (regions rs ++ r.region :: fs).Perm (regions (r :: rs) ++ fs) := List.perm_middle
  have hguards : ∀ rs, (guards rs ++ (held r ++ gs)).Perm (guards (r :: rs) ++ gs) := fun rs =>
    (List.perm_append_comm_assoc _ _ _).trans (.of_eq (by simp [guards]))
  match found with
  | none => exact Holding.perm h hregions (hguards rs)
  | some (rs', region) =>
    obtain ⟨hsame, hsearched⟩ := h
    refine ⟨?_, hsearched.perm hregions (hguards rs') (List.subset_cons_self _ _)⟩
    rw [regions, List.map_cons, ← regions, hsame]
    rfl

theorem search_holds (h : Holding g (regions rs ++ fs) (guards rs ++ gs) closure.toList) :
    (rules careful).Holds (fun found g' => g.Le g' ∧ Ended now tag closure fs gs rs found g')
      (search now tag closure rs) g := by
  induction rs generalizing g fs gs with
  | nil => exact ⟨.refl g, h⟩
  | cons r rs ih =>
    have hfirst : Holding g (r.region :: (regions rs ++ fs)) (held r ++ (guards rs ++ gs)) closure.toList :=
      h.perm (List.Perm.refl _) (.of_eq (by simp [guards]))
    have hnext : ∀ g₁, g.Le g₁ →
        Holding g₁ (r.region :: (regions rs ++ fs)) (held r ++ (guards rs ++ gs)) closure.toList →
        (rules careful).Holds (fun found g' => g.Le g' ∧ Ended now tag closure fs gs (r :: rs) found g') (do
          let found ← search now tag closure rs
          pure (found.map fun x => (r :: x.1, x.2))) g₁ := by
      intro g₁ hle h₁
      apply Rules.Holds.bind (ih (h₁.perm List.perm_middle.symm (List.perm_append_comm_assoc _ _ _)))
      rintro found g₂ ⟨hle₂, hended⟩
      exact ⟨hle.trans hle₂, hended.passed⟩
    refine Rules.holds_bind.mpr (holds_load hfirst (by simp) (fun hone => ?_) fun n hn => ?_)
    · by_cases htag : tag = r.tag
      · rw [if_pos ⟨rfl, htag⟩, htag]
        apply Rules.Holds.bind (reuse_holds (hfirst.isolate _) (by simp [Grip.isolate]) hone)
        rintro x g' ⟨hle, hregion, hsearched⟩
        refine ⟨(g.le_isolate _).trans hle, ?_, ?_⟩
        · rw [regions, List.map_cons, hregion]
          rfl
        · exact hsearched.perm (List.Perm.refl _) (.of_eq (by simp [guards])) (by simp)
      · rw [if_neg fun hn => htag hn.2]
        exact hnext _ (g.le_isolate _) (hfirst.isolate _)
    · rw [if_neg fun h => hn h.1]
      exact hnext g (.refl g) hfirst

/-- How the search of the registry ends. -/
def EndedInner (now : Instant) (tag : Option String) (closure : Option Closure) (lower upper : Nat)
    (fs : List File) (gs : List (Closure × File)) (inner : Inner) :
    Option (Inner × Option File) → Grip → Prop
  | none, g => Holding g (files inner ++ fs) (guards (entries inner) ++ gs) closure.toList
  | some (inner', region), g => shape inner' = shape inner ∧
      Searched now tag closure (files inner ++ fs) (guards (entries inner') ++ gs) (entries inner') region g ∧
      ∀ f, region = some f → ∃ size, (size, f) ∈ shape inner ∧ lower ≤ size ∧ size < upper

/-- The search has ended at this size. -/
theorem Ended.stopped {lower upper size : Nat} {inner : Inner} {region : Option File}
    (h : Ended now tag closure (files inner ++ fs) (guards (entries inner) ++ gs) rs (some (rs', region)) g)
    (hsize : lower ≤ size ∧ size < upper) :
    EndedInner now tag closure lower upper fs gs ((size, rs) :: inner)
      (some ((size, rs') :: inner, region)) g := by
  obtain ⟨hsame, hsearched⟩ := h
  refine ⟨by rw [shape_cons, shape_cons, hsame], ?_, fun f hf => ⟨size, ?_, hsize⟩⟩
  · rw [files_cons, entries_cons, guards_append, List.append_assoc, List.append_assoc]
    exact hsearched.perm (List.Perm.refl _) (List.Perm.refl _) (List.subset_append_left _ _)
  · subst hf
    obtain ⟨-, -, -, r, hr, rfl, -⟩ := hsearched
    have hmem : r.region ∈ regions rs := hsame ▸ List.mem_map_of_mem hr
    rw [shape_cons]
    exact List.mem_append_left _ (List.mem_map_of_mem hmem)

/-- A size that has been passed over is as it was. -/
theorem EndedInner.passed {lower upper size : Nat} {inner : Inner} {found : Option (Inner × Option File)}
    (h : EndedInner now tag closure lower upper (regions rs ++ fs) (guards rs ++ gs) inner found g) :
    EndedInner now tag closure lower upper fs gs ((size, rs) :: inner)
      (found.map fun x => ((size, rs) :: x.1, x.2)) g := by
  have hfiles : (files inner ++ (regions rs ++ fs)).Perm (files ((size, rs) :: inner) ++ fs) := by
    rw [files_cons, List.append_assoc]
    exact List.perm_append_comm_assoc _ _ _
  have hguards : ∀ inner, (guards (entries inner) ++ (guards rs ++ gs)).Perm
      (guards (entries ((size, rs) :: inner)) ++ gs) := by
    intro inner
    rw [entries_cons, guards_append, List.append_assoc]
    exact List.perm_append_comm_assoc _ _ _
  match found with
  | none => exact Holding.perm h hfiles (hguards inner)
  | some (inner', region) =>
    obtain ⟨hsame, hsearched, hsize⟩ := h
    refine ⟨by rw [shape_cons, shape_cons, hsame], hsearched.perm hfiles (hguards inner') ?_, fun f hf => ?_⟩
    · rw [entries_cons]
      exact List.subset_append_right _ _
    · obtain ⟨size', hmem, hrange⟩ := hsize f hf
      rw [shape_cons]
      exact ⟨size', List.mem_append_right _ hmem, hrange⟩

theorem searchSize_holds {lower upper size : Nat}
    (h : Holding g (regions rs ++ fs) (guards rs ++ gs) closure.toList) :
    (rules careful).Holds (fun found g' => g.Le g' ∧ (found.isSome → lower ≤ size ∧ size < upper) ∧
      Ended now tag closure fs gs rs found g') (searchSize now tag closure lower upper size rs) g := by
  rw [searchSize]
  by_cases hsize : lower ≤ size ∧ size < upper
  · rw [if_pos hsize]
    exact (search_holds h).mono fun _ _ hended => ⟨hended.1, fun _ => hsize, hended.2⟩
  · rw [if_neg hsize]
    exact ⟨.refl g, fun hsome => absurd hsome (by simp), h⟩

theorem searchRange_holds {lower upper : Nat} {inner : Inner}
    (h : Holding g (files inner ++ fs) (guards (entries inner) ++ gs) closure.toList) :
    (rules careful).Holds
      (fun found g' => g.Le g' ∧ EndedInner now tag closure lower upper fs gs inner found g')
      (searchRange now tag closure lower upper inner) g := by
  induction inner generalizing g fs gs with
  | nil => exact ⟨.refl g, h⟩
  | cons x inner ih =>
    obtain ⟨size, rs⟩ := x
    rw [files_cons, entries_cons, guards_append, List.append_assoc, List.append_assoc] at h
    apply Rules.Holds.bind (searchSize_holds h)
    rintro found g₁ ⟨hle, hsize, hended⟩
    match found with
    | some (rs', region) => exact ⟨hle, hended.stopped (hsize rfl)⟩
    | none =>
      have hrest : Holding g₁ (files inner ++ (regions rs ++ fs))
          (guards (entries inner) ++ (guards rs ++ gs)) closure.toList :=
        Holding.perm hended (List.perm_append_comm_assoc _ _ _) (List.perm_append_comm_assoc _ _ _)
      apply Rules.Holds.bind (ih hrest)
      rintro found g₂ ⟨hle₂, hended₂⟩
      exact ⟨hle.trans hle₂, hended₂.passed⟩

theorem shape_extendEntry (size : Nat) (new : List MemoryRegionEntry) (inner : Inner) :
    (shape (extendEntry size new inner)).Perm ((regions new).map (size, ·) ++ shape inner) := by
  induction inner with
  | nil => exact .of_eq (shape_cons size new [])
  | cons x inner ih =>
    obtain ⟨size', rs⟩ := x
    rw [extendEntry]
    split
    · rw [shape_cons]
    · split
      · rename_i hsize
        rw [shape_cons, shape_cons, regions, List.map_append, List.map_append, List.append_assoc, hsize]
        exact List.perm_append_comm_assoc _ _ _
      · rw [shape_cons, shape_cons]
        exact (ih.append_left _).trans (List.perm_append_comm_assoc _ _ _)

theorem entries_extendEntry (size : Nat) (new : List MemoryRegionEntry) (inner : Inner) :
    (entries (extendEntry size new inner)).Perm (new ++ entries inner) := by
  induction inner with
  | nil => exact .of_eq (entries_cons size new [])
  | cons x inner ih =>
    obtain ⟨size', rs⟩ := x
    rw [extendEntry]
    split
    · rw [entries_cons]
    · split
      · rw [entries_cons, entries_cons, List.append_assoc]
        exact List.perm_append_comm_assoc _ _ _
      · rw [entries_cons, entries_cons]
        exact (ih.append_left _).trans (List.perm_append_comm_assoc _ _ _)

/-- What `alloc` promises of the region that it returns. -/
structure Granted (minSize : Nat) (tag : Option String) (closure : Option Closure) (before inner : Inner)
    (f : File) (g : Grip) : Prop where
  alone : f ∈ g.alone
  once : (files inner).count f = 1
  entry : ∃ r ∈ entries inner, r.region = f ∧ r.tag = tag ∧ r.guard = closure
  size : ∃ size, (size, f) ∈ g.sizes ∧
    (f ∈ files before ∧ minSize ≤ size ∧ size < 2 * minSize ∨ f ∉ files before ∧ size = minSize)

/-- The state of the registry when a call returns. -/
structure Settled (inner : Inner) (region : Option File) (g : Grip) : Prop where
  holding : Holding g (files inner ++ region.toList) (guards (entries inner)) []
  sizes : shape inner ⊆ g.sizes

/-- What holds when `alloc` returns. -/
structure Served (minSize : Nat) (tag : Option String) (closure : Option Closure) (before : Inner)
    (x : Inner × Option File) (g : Grip) : Prop where
  settled : Settled x.1 x.2 g
  granted : ∀ f, x.2 = some f → Granted minSize tag closure before x.1 f g

theorem Settled.of_eq {inner inner' : Inner} {region : Option File} (h : Settled inner region g)
    (hshape : (shape inner').Perm (shape inner)) (hentries : (entries inner').Perm (entries inner)) :
    Settled inner' region g :=
  ⟨h.holding.perm ((hshape.map _).symm.append_right _) (hentries.symm.flatMap_right _),
    fun _ hx => h.sizes (hshape.subset hx)⟩

theorem shouldRetain_now (h : r.lastAlloc = now) : r.shouldRetain now = true := by
  simp [MemoryRegionEntry.shouldRetain, h, Instant.since, maxAge, nanosPerSec]

/-- The entry that has been given out again outlives the clean-up. -/
theorem reused_holds {minSize : Nat} {inner inner' : Inner} {f : File} (hsizes : shape inner ⊆ g.sizes)
    (h : EndedInner now tag closure minSize (2 * minSize) [] [] inner (some (inner', some f)) g) :
    (rules careful).Holds (fun x g' => g.Le g' ∧ Served minSize tag closure inner x g')
      (do
        let inner ← maintainInner now inner'
        pure (inner, some f)) g := by
  obtain ⟨hshape, ⟨hgrip, halone, hone, r, hr, hregion, htag, hguard, hlast⟩, hsize⟩ := h
  obtain ⟨size, hmem, hlower, hupper⟩ := hsize f rfl
  have hfiles : files inner' = files inner := by rw [files, hshape, ← files]
  rw [List.append_nil] at hone
  have hheld : Holding g (files inner' ++ [f]) (guards (entries inner') ++ []) [] := by
    rw [hfiles]
    rw [List.append_nil] at hgrip
    exact hgrip.perm (List.perm_append_singleton f _).symm (.refl _)
  apply Rules.Holds.bind (maintainInner_holds hheld)
  rintro inner'' g' ⟨hle, hkept, hheld'⟩
  have hstays := hkept.stays r hr (shouldRetain_now hlast) (by simp [hregion])
  rw [List.append_nil] at hheld'
  refine ⟨hle, ⟨hheld', fun x hx => hle.sizes (hsizes (hshape ▸ hkept.sublist.subset hx))⟩, ?_⟩
  rintro _ ⟨⟩
  refine ⟨hle.alone halone, ?_, ⟨r, hstays, hregion, htag, hguard⟩, size, hle.sizes (hsizes hmem),
    Or.inl ⟨List.mem_map_of_mem (f := Prod.snd) hmem, hlower, hupper⟩⟩
  have hmost : (files inner'').count f ≤ 1 := by
    rw [← hone, ← hfiles]
    exact (hkept.sublist.map _).count_le f
  have hpos : 0 < (files inner'').count f := by
    rw [files_eq]
    exact List.count_pos_iff.mpr (hregion ▸ List.mem_map_of_mem hstays)
  exact Nat.le_antisymm hmost hpos

/-- Nothing has been found: a new region is made. -/
theorem created_holds {minSize : Nat} {before inner : Inner}
    (h : Holding g (files inner) (guards (entries inner)) closure.toList)
    (hsizes : shape inner ⊆ g.sizes) (hbefore : shape before ⊆ g.sizes) :
    (rules careful).Holds (fun x g' => g.Le g' ∧ Served minSize tag closure before x g')
      (do
        let created ← new minSize
        match created with
        | none => pure (inner, none)
        | some r => do
          let cloned ← clone r
          if cloned then pure (extendEntry minSize [⟨r, now, tag, closure⟩] inner, some r)
          else do
            drop r none
            pure (extendEntry minSize [] inner, none)) g := by
  have hsettled : Settled inner none g := ⟨by simpa using h.forget, hsizes⟩
  refine Rules.holds_bind.mpr (holds_new h (fun f hf hnone => ?_) ?_)
  · have hmade := h.create minSize f
    refine Rules.holds_bind.mpr (holds_clone hmade (by simp) ?_ ?_)
    · rw [if_pos rfl]
      have hshape := shape_extendEntry minSize [⟨f, now, tag, closure⟩] inner
      have hentries := entries_extendEntry minSize [⟨f, now, tag, closure⟩] inner
      have hfiles : (files (extendEntry minSize [⟨f, now, tag, closure⟩] inner)).Perm (f :: files inner) :=
        hshape.map Prod.snd
      refine ⟨(g.le_create minSize f).trans (Grip.le_clone _ f), ⟨?_, fun x hx => ?_⟩, ?_⟩
      · refine ((hmade.clone f).install f).perm ?_ (hentries.symm.flatMap_right held)
        exact (hfiles.symm.cons f).trans (List.perm_append_singleton f _).symm
      · obtain rfl | hx := List.mem_cons.mp (hshape.subset hx)
        · exact List.mem_cons_self
        · exact List.mem_cons_of_mem _ (hsizes hx)
      · rintro _ ⟨⟩
        refine ⟨List.mem_cons_self, ?_, ⟨_, hentries.symm.subset List.mem_cons_self, rfl, rfl, rfl⟩,
          minSize, List.mem_cons_self, Or.inr ⟨fun hmem => ?_, rfl⟩⟩
        · rw [hfiles.count_eq, List.count_cons_self, List.count_eq_zero.mpr hf]
        · obtain ⟨x, hx, rfl⟩ := List.mem_map.mp hmem
          exact hnone x.1 (hbefore hx)
    · rw [if_neg Bool.false_ne_true]
      refine Rules.holds_bind.mpr (holds_drop hmade ?_)
      have hdropped : Settled inner none ((g.create minSize f).drop f) :=
        ⟨by simpa using hmade.drop.forget, fun x hx => List.mem_cons_of_mem _ (hsizes hx)⟩
      refine ⟨(g.le_create minSize f).trans (Grip.le_drop _ f), hdropped.of_eq ?_ ?_, by simp⟩
      · exact shape_extendEntry minSize [] inner
      · exact entries_extendEntry minSize [] inner
  · exact ⟨.refl g, hsettled, by simp⟩

theorem allocInner_holds {minSize : Nat} {inner : Inner}
    (h : Holding g (files inner) (guards (entries inner)) closure.toList) (hsizes : shape inner ⊆ g.sizes) :
    (rules careful).Holds (fun x g' => g.Le g' ∧ Served minSize tag closure inner x g')
      (allocInner now tag closure minSize inner) g := by
  refine Rules.Holds.bind (searchRange_holds (h.perm (.of_eq (List.append_nil _).symm)
    (.of_eq (List.append_nil _).symm))) ?_
  rintro found g₁ ⟨hle, hended⟩
  match found with
  | some (inner', none) =>
    obtain ⟨hshape, hheld, -⟩ := hended
    refine ⟨hle, ⟨?_, hshape ▸ fun x hx => hle.sizes (hsizes hx)⟩, by simp⟩
    have hfiles : files inner' = files inner := by rw [files, hshape, ← files]
    rw [hfiles]
    exact hheld.forget.perm (.refl _) (.of_eq (List.append_nil _))
  | some (inner', some f) =>
    apply (reused_holds (fun x hx => hle.sizes (hsizes hx)) hended).mono
    exact fun x g₂ hend => ⟨hle.trans hend.1, hend.2⟩
  | none =>
    apply Rules.Holds.bind (maintainInner_holds hended)
    rintro inner' g₂ ⟨hle₂, hkept, h₂⟩
    have hbefore : shape inner ⊆ g₂.sizes := fun x hx => hle₂.sizes (hle.sizes (hsizes hx))
    rw [List.append_nil, List.append_nil] at h₂
    apply (created_holds h₂ (fun x hx => hbefore (hkept.sublist.subset hx)) hbefore).mono
    exact fun x g₃ hend => ⟨hle.trans (hle₂.trans hend.1), hend.2⟩

theorem dropEntries_holds (h : Holding g (regions rs) (guards rs) spare) :
    (rules careful).Holds (fun _ g' => g.Le g' ∧ Holding g' [] [] spare) (dropEntries rs) g := by
  induction rs generalizing g with
  | nil => exact ⟨.refl g, h⟩
  | cons r rs ih =>
    have hfirst : Holding g (r.region :: regions rs) (held r ++ guards rs) spare := h
    apply Rules.Holds.bind (dropEntry_holds hfirst)
    rintro _ g₁ ⟨hle, h₁⟩
    exact (ih h₁).mono fun _ g₂ hend => ⟨hle.trans hend.1, hend.2⟩

theorem dropInner_holds {inner : Inner} (h : Holding g (files inner) (guards (entries inner)) spare) :
    (rules careful).Holds (fun _ g' => g.Le g' ∧ Holding g' [] [] spare) (dropInner inner) g := by
  rw [files_eq] at h
  exact dropEntries_holds h

end Ipmb.RegistryCalls
