import Ipmb.Reuse

namespace Ipmb.FreeCallback

open Messages Buffers Encoding Decoding Time Reference Attachments Run Programs Regions Registry ExactCounts
  Holdings RegistryCalls Sharing

variable {k : Kernel} {codec : Codec} {versions : Nat → Version} {home : Nat} {s : System}

/-- No closure is called twice, or for a region that was not returned with it. -/
theorem called_once {as : List Sharing.Action}
    (hfew : Along (Sharing.step k codec versions home) (fun s _ => Few s) Sharing.start as)
    (hrun : run (Sharing.step k codec versions home) Sharing.start as = some s) :
    (s.called.map fun x => x.1).Nodup ∧ ∀ x ∈ s.called, ∀ f, (x.1, f) ∈ s.granted → f = x.2.1 := by
  have hinv : Inv false s := run_inv (hfew.mono fun _ _ h => ⟨h, fun hfalse => by cases hfalse⟩) hrun
  obtain ⟨g, hc, -⟩ := hinv
  exact ⟨(List.nodup_append.mp hc.nodup).2.1, hc.tied⟩

/-- When the registry only drops entries with uncalled closures whose regions nobody else has,
every closure is called at most once, for the region that was returned with it, and when there
is no handle to that region outside the registry. -/
theorem called_when_free {as : List Sharing.Action}
    (hsteps : Along (Sharing.step k codec versions home) (fun s a => Few s ∧ Careful s a) Sharing.start as)
    (hrun : run (Sharing.step k codec versions home) Sharing.start as = some s) :
    (s.called.map fun x => x.1).Nodup ∧ ∀ x ∈ s.called,
      (∀ f, (x.1, f) ∈ s.granted → f = x.2.1) ∧ x.2.2 = 0 := by
  have hinv : Inv true s := run_inv (hsteps.mono fun _ _ h => ⟨h.1, fun _ => h.2⟩) hrun
  obtain ⟨g, hc, -⟩ := hinv
  obtain ⟨honce, htied⟩ := called_once (hsteps.mono fun _ _ h => h.1) hrun
  exact ⟨honce, fun x hx => ⟨htied x hx, hc.quiet rfl x hx⟩⟩

/-- What the registry evicts with an uncalled closure is not in use. -/
def careful (s : System) : Sharing.Action → Bool
  | .exec _ => s.phase.evicts.all fun f => !s.regions.live.contains f
  | _ => true

theorem careful_of_careful (s : System) (a : Sharing.Action) (h : careful s a = true) : Careful s a := by
  cases a with
  | exec ok =>
    intro f hf
    simp only [careful, Option.mem_def.mp hf, Option.all_some, Bool.not_eq_true', List.contains_eq_mem,
      decide_eq_false_iff_not] at h
    exact h
  | _ => trivial

/-- A region with a closure. -/
def allocWithFree : List Sharing.Action :=
  [.alloc 16 none true (.ofNanos 0), .exec true, .exec true, .finish]

/-- Once the region has been dropped, the registry calls the closure. -/
theorem called_when_free_dropped :
    ∃ s, run (Sharing.step anyRegion plainCodec (fun _ => ⟨0, 8, 5⟩) 0) Sharing.start
        (allocWithFree ++ [.env (.drop 0), .maintain (.ofNanos 1), .exec true, .exec true]) = some s ∧
      s.called = [(0, 0, 0)] ∧ (s.called.map fun x => x.1).Nodup ∧ ∀ x ∈ s.called,
        (∀ f, (x.1, f) ∈ s.granted → f = x.2.1) ∧ x.2.2 = 0 := by
  have hrun : (run (Sharing.step anyRegion plainCodec (fun _ => ⟨0, 8, 5⟩) 0) Sharing.start
      (allocWithFree ++ [.env (.drop 0), .maintain (.ofNanos 1), .exec true, .exec true])).map
        System.called = some [(0, 0, 0)] := rfl
  obtain ⟨s, hs, hcalled⟩ := Option.map_eq_some_iff.mp hrun
  refine ⟨s, hs, hcalled, called_when_free
    (along_of_passes (p := fun s a => Reuse.few s a && careful s a) ?_ ?_) hs⟩
  · intro s a h
    obtain ⟨hfew, hcareful⟩ := Bool.and_eq_true_iff.mp h
    exact ⟨Reuse.few_of_few s a hfew, careful_of_careful s a hcareful⟩
  · rfl

/-- Five seconds after its allocation the entry is evicted, and the closure is called while the
region is in use. -/
theorem called_in_use :
    ∃ s, run (Sharing.step anyRegion plainCodec (fun _ => ⟨0, 8, 5⟩) 0) Sharing.start
        (allocWithFree ++ [.maintain (.ofNanos maxAge), .exec true, .exec true, .exec true]) = some s ∧
      s.granted = [(0, 0)] ∧ s.called = [(0, 0, 1)] ∧ handles s.regions 0 = 1 := by
  have hrun : (run (Sharing.step anyRegion plainCodec (fun _ => ⟨0, 8, 5⟩) 0) Sharing.start
      (allocWithFree ++ [.maintain (.ofNanos maxAge), .exec true, .exec true, .exec true])).map
        (fun s => (s.granted, s.called, handles s.regions 0)) = some ([(0, 0)], [(0, 0, 1)], 1) := rfl
  obtain ⟨s, hs, hend⟩ := Option.map_eq_some_iff.mp hrun
  simp only [Prod.mk.injEq] at hend
  exact ⟨s, hs, hend⟩

end Ipmb.FreeCallback
