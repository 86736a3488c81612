import Ipmb.Sharing

namespace Ipmb.Reuse

open Messages Buffers Encoding Decoding Time Reference Attachments Run Programs Regions Registry ExactCounts
  Holdings RegistryCalls Sharing

variable {k : Kernel} {codec : Codec} {versions : Nat → Version} {home : Nat} {s : System}

/-- A region that `alloc` returns is in no other hands: besides the handle that is returned there
is only the one entry of the registry, which has the requested tag. -/
theorem alloc_exclusive {as : List Sharing.Action}
    (hfew : Along (Sharing.step k codec versions home) (fun s _ => Few s) Sharing.start as)
    (hrun : run (Sharing.step k codec versions home) Sharing.start as = some s)
    {minSize : Nat} {tag : Option String} {closure : Option Closure} {before inner : Inner} {f : File}
    (hreturn : s.phase = .busy (.alloc minSize tag closure) before (.ret (inner, some f))) :
    (handles s.regions f = 0 ∧ copies s.regions f = 0 ∧ transit s.regions f = 0) ∧
      s.own.Perm (f :: files inner) ∧ (files inner).count f = 1 ∧
      (∃ r ∈ entries inner, r.region = f ∧ r.tag = tag) ∧
      ∃ h, s.regions.headers[f]? = some h ∧
        (f ∈ files before ∧ minSize ≤ h.bufferSize ∧ h.bufferSize < 2 * minSize ∨
          f ∉ files before ∧ h.bufferSize = minSize) := by
  have hinv : Inv false s := run_inv (hfew.mono fun _ _ h => ⟨h, fun hfalse => by cases hfalse⟩) hrun
  obtain ⟨g, hc, hfollows⟩ := hinv
  rw [hreturn] at hfollows
  obtain ⟨hsettled, hserved⟩ := hfollows
  obtain ⟨halone, honce, ⟨r, hr, hregion, htag, -⟩, size, hsize, hrange⟩ := hserved f rfl
  have hnone := List.count_eq_zero.mpr (hc.alone f halone).2
  rw [count_live] at hnone
  refine ⟨by omega, ?_, honce, ⟨r, hr, hregion, htag⟩, ?_⟩
  · rw [← hc.own]
    exact hsettled.holding.own.trans (List.perm_append_singleton f _)
  · have hheader := hc.sizes _ hsize
    rw [State.sizes, List.getElem?_map] at hheader
    obtain ⟨h, hh, rfl⟩ := Option.map_eq_some_iff.mp hheader
    exact ⟨h, hh, hrange⟩

/-- Few enough handles are counted. -/
def few (s : System) (_ : Sharing.Action) : Bool :=
  decide ((s.regions.units ++ s.own).length < 2 ^ 32)

theorem few_of_few (s : System) (a : Sharing.Action) (h : few s a = true) : Few s :=
  fun _ => Nat.lt_of_le_of_lt List.count_le_length (of_decide_eq_true h)

/-- A region of 16 bytes is dropped, and found again by a call for 10 bytes. -/
def allocTwice : List Sharing.Action :=
  [.alloc 16 none false (.ofNanos 0), .exec true, .exec true, .finish, .env (.drop 0),
    .alloc 10 none false (.ofNanos 1), .exec true, .exec true, .exec true]

theorem alloc_exclusive_reused :
    ∃ s inner, run (Sharing.step anyRegion plainCodec (fun _ => ⟨0, 8, 5⟩) 0) Sharing.start allocTwice =
        some s ∧
      (handles s.regions 0 = 0 ∧ copies s.regions 0 = 0 ∧ transit s.regions 0 = 0) ∧
      s.own.Perm (0 :: files inner) ∧ (files inner).count 0 = 1 ∧
      (∃ r ∈ entries inner, r.region = 0 ∧ r.tag = none) ∧
      ∃ h, s.regions.headers[0]? = some h ∧
        (0 ∈ files [(16, [⟨0, .ofNanos 0, none, none⟩])] ∧ 10 ≤ h.bufferSize ∧ h.bufferSize < 2 * 10 ∨
          0 ∉ files [(16, [⟨0, .ofNanos 0, none, none⟩])] ∧ h.bufferSize = 10) := by
  have hrun : (run (Sharing.step anyRegion plainCodec (fun _ => ⟨0, 8, 5⟩) 0) Sharing.start allocTwice).map
      System.phase = some (.busy (.alloc 10 none none) [(16, [⟨0, .ofNanos 0, none, none⟩])]
        (.ret ([(16, [⟨0, .ofNanos 1, none, none⟩])], some 0))) := rfl
  obtain ⟨s, hs, hphase⟩ := Option.map_eq_some_iff.mp hrun
  exact ⟨s, _, hs, alloc_exclusive (along_of_passes few_of_few (by rfl)) hs hphase⟩

end Ipmb.Reuse
