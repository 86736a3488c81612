import Ipmb.ExactCounts
import Ipmb.RegistryCalls

namespace Ipmb.Sharing

open Messages Buffers Encoding Decoding Time Run Programs Counters Regions Registry Holdings RegistryCalls

/-- The calls of a `MemoryRegistry`; `closure` is what `alloc_with_free` was given. -/
inductive Request where
  | alloc (minSize : Nat) (tag : Option String) (closure : Option Closure)
  | maintain
  | drop

/-- The registry between two calls, or in one of them with what is left to do, or neither. -/
inductive Phase where
  | idle (inner : Inner)
  | busy (request : Request) (before : Inner) (program : Program (Inner × Option File))
  | gone

/-- A registry in one of the processes that share memory regions. `own` lists its own handles,
`given` counts the closures that it has been given, `granted` lists those of successful calls
with the region that was returned, and `called` those that have been called, with the region of
their entry and the number of handles to it outside the registry. -/
structure System where
  regions : Regions.State
  own : List File
  phase : Phase
  given : Nat
  granted : List (Closure × File)
  called : List (Closure × File × Nat)

inductive Action where
  | env (a : Regions.Action)
  | alloc (minSize : Nat) (tag : Option String) (withFree : Bool) (now : Instant)
  | maintain (now : Instant)
  | drop
  | exec (ok : Bool)
  | finish

variable (k : Kernel) (codec : Codec) (versions : Nat → Version) (home : Nat)

/-- A step outside the registry; should its process die, it is gone without a `Drop`. -/
def System.outside (s : System) (regions : Regions.State) : Regions.Action → System
  | .die p =>
    if p = home then
      { s with regions := { regions with lost := s.own ++ regions.lost }, own := [], phase := .gone }
    else { s with regions := regions }
  | _ => { s with regions := regions }

/-- A call of the program; `ok` says whether the operating system has a descriptor or an object
for it. -/
def System.perform (s : System) (ok : Bool) : (o : Call) → Option (o.Answer × System)
  | .load f => (s.regions.headers[f]?).map fun h => (h.refCount, s)
  | .clone f =>
    if ok then some (true, { s with regions := s.regions.refCountInner f 1, own := f :: s.own })
    else some (false, s)
  | .new size =>
    let f := s.regions.headers.length
    if ok then
      some (some f, { s with
        regions := { s.regions with headers := s.regions.headers ++ [⟨1, size⟩] }, own := f :: s.own })
    else some (none, s)
  | .drop f _ => some ((), { s with regions := s.regions.refCountInner f (-1), own := s.own.erase f })
  | .free f c => some ((), { s with called := (c, f, ExactCounts.handles s.regions f) :: s.called })

/-- The caller gets the region. -/
def System.giveOut (s : System) (f : File) : Request → System
  | .alloc _ _ (some c) => { s with
      regions := { s.regions with items := (home, .region f) :: s.regions.items }
      own := s.own.erase f
      granted := (c, f) :: s.granted }
  | _ => { s with
      regions := { s.regions with items := (home, .region f) :: s.regions.items }
      own := s.own.erase f }

def Request.next (inner : Inner) : Request → Phase
  | .drop => .gone
  | _ => .idle inner

def System.finish (s : System) (request : Request) (inner : Inner) (region : Option File) : System :=
  let s := { s with phase := request.next inner }
  match region with
  | some f => s.giveOut home f request
  | none => s

def step (s : System) : Action → Option System
  | .env a => (Regions.step k codec versions s.regions a).map fun regions => s.outside home regions a
  | .alloc minSize tag withFree now =>
    match s.phase with
    | .idle inner =>
      let closure := if withFree then some s.given else none
      -- `min_size * 2` overflows, or the range is the wrong way round
      if 2 * minSize < 2 ^ 64 then
        some { s with
          phase := .busy (.alloc minSize tag closure) inner (allocInner now tag closure minSize inner)
          given := s.given + closure.toList.length }
      else none
    | _ => none
  | .maintain now =>
    match s.phase with
    | .idle inner => some { s with phase := .busy .maintain inner (do
        let inner ← maintainInner now inner
        pure (inner, none)) }
    | _ => none
  | .drop =>
    match s.phase with
    | .idle inner => some { s with phase := .busy .drop inner (do
        dropInner inner
        pure ([], none)) }
    | _ => none
  | .exec ok =>
    match s.phase with
    | .busy request before (.call o next) =>
      (s.perform ok o).map fun x => { x.2 with phase := .busy request before (next x.1) }
    | _ => none
  | .finish =>
    match s.phase with
    | .busy request _ (.ret (inner, region)) => some (s.finish home request inner region)
    | _ => none

def start : System := ⟨Regions.start, [], .idle [], 0, [], []⟩

/-- Fewer than `2 ^ 32` handles of a region are counted, those that were never given up among
them. -/
def Few (s : System) : Prop := ∀ f, (s.regions.units ++ s.own).count f < 2 ^ 32

/-- The region of an entry that is about to be dropped with a closure that has not been called. -/
def Phase.evicts : Phase → Option File
  | .busy _ _ (.call (.drop f (some _)) _) => some f
  | _ => none

/-- An entry whose closure has not been called is only dropped when nobody else has its region,
or can get it. -/
def Careful (s : System) : Action → Prop
  | .exec _ => ∀ f ∈ s.phase.evicts, f ∉ s.regions.live
  | _ => True

/-- What the registry knows is the case. -/
structure Consistent (careful : Bool) (g : Grip) (s : System) : Prop where
  balanced : Balanced s.regions.counts (s.regions.units ++ s.own)
  own : g.own = s.own
  alone : ∀ f ∈ g.alone, f < s.regions.headers.length ∧ f ∉ s.regions.live
  sizes : ∀ x ∈ g.sizes, s.regions.sizes[x.2]? = some x.1
  granted : g.granted = s.granted
  nodup : (g.pending ++ s.called.map fun x => x.1).Nodup
  given : ∀ c ∈ g.pending ++ (s.called.map fun x => x.1) ++ s.granted.map Prod.fst, c < s.given
  tied : ∀ x ∈ s.called, ∀ f, (x.1, f) ∈ s.granted → f = x.2.1
  quiet : careful = true → ∀ x ∈ s.called, x.2.2 = 0

/-- How a call returns. -/
def Returned (before : Inner) (x : Inner × Option File) (g : Grip) : Request → Prop
  | .alloc minSize tag closure => Served minSize tag closure before x g
  | .maintain => Settled x.1 none g ∧ x.2 = none
  | .drop => Settled [] none g ∧ x.2 = none

/-- What is left to do can be done with what the registry knows. -/
def Follows (careful : Bool) (g : Grip) : Phase → Prop
  | .idle inner => Settled inner none g
  | .busy request before program =>
    (rules careful).Holds (fun x g' => Returned before x g' request) program g
  | .gone => g.own = []

section Steps

variable {careful : Bool} {g : Grip} {s s' : System} {f : File}

theorem Consistent.length (hc : Consistent careful g s) {f : File} (hf : f ∈ s.regions.live ∨ f ∈ s.own) :
    f < s.regions.headers.length := by
  have hvalid := hc.balanced.valid f
  rw [State.counts, List.length_map] at hvalid
  apply hvalid
  rw [State.units, List.append_assoc, List.mem_append, List.mem_append]
  exact hf.imp_right Or.inr

/-- The count is one: the region is in no other hands. -/
theorem Consistent.sole (hc : Consistent careful g s) (hfew : Few s) (hf : f ∈ g.own)
    (hone : s.regions.counts[f]? = some 1) : g.own.count f = 1 ∧ f ∉ s.regions.live := by
  rw [hc.own] at hf ⊢
  have hsole := hc.balanced.sole hone (List.mem_append_right _ hf) (hfew f)
  have hpos := List.count_pos_iff.mpr hf
  rw [State.units, List.count_append, List.count_append] at hsole
  exact ⟨by omega, List.count_eq_zero.mp (by omega)⟩

/-- The count of a region changes with the handles of the registry. -/
theorem Consistent.recount (hc : Consistent careful g s) {own : List File} {val : Int}
    (hb : Balanced (s.regions.refCountInner f val).counts (s.regions.units ++ own)) :
    Consistent careful { g with own := own } { s with regions := s.regions.refCountInner f val, own := own } where
  balanced := hb
  own := rfl
  alone f' hf' := by
    obtain ⟨hlt, hnone⟩ := hc.alone f' hf'
    exact ⟨by simpa [State.refCountInner] using hlt, hnone⟩
  sizes x hx := by
    rw [sizes_refCountInner]
    exact hc.sizes x hx
  granted := hc.granted
  nodup := hc.nodup
  given := hc.given
  tied := hc.tied
  quiet := hc.quiet

theorem Consistent.isolate (hc : Consistent careful g s) (hlt : f < s.regions.headers.length)
    (hnone : f ∉ s.regions.live) : Consistent careful (g.isolate f) s :=
  { hc with alone := List.forall_mem_cons.mpr ⟨⟨hlt, hnone⟩, hc.alone⟩ }

theorem Consistent.load (hc : Consistent careful g s) (hfew : Few s) (hf : f ∈ g.own) {h : Header}
    (hh : s.regions.headers[f]? = some h) :
    ∃ g', post careful g (.load f) h.refCount g' ∧ Consistent careful g' s := by
  by_cases hone : h.refCount = 1
  · have hcount : s.regions.counts[f]? = some 1 := by
      rw [State.counts, List.getElem?_map, hh, Option.map_some, hone]
    obtain ⟨hown, hnone⟩ := hc.sole hfew hf hcount
    refine ⟨g.isolate f, ?_, hc.isolate (hc.length (Or.inr (hc.own ▸ hf))) hnone⟩
    simp only [post, hone, if_true]
    exact ⟨hown, trivial⟩
  · refine ⟨g, ?_, hc⟩
    simp only [post, hone, if_false]

theorem Consistent.clone (hc : Consistent careful g s) (hf : f ∈ g.own) :
    Consistent careful (g.clone f) { s with regions := s.regions.refCountInner f 1, own := f :: s.own } := by
  have hown : f :: s.own = f :: g.own := by rw [hc.own]
  rw [Grip.clone, ← hown]
  apply hc.recount
  rw [counts_add]
  refine Effect.balanced ?_ hc.balanced
  exact .take (List.mem_append_right _ (hc.own ▸ hf)) List.perm_middle

theorem Consistent.drop (hc : Consistent careful g s) (hf : f ∈ g.own) :
    Consistent careful (g.drop f) { s with regions := s.regions.refCountInner f (-1), own := s.own.erase f } := by
  have hown : s.own.erase f = g.own.erase f := by rw [hc.own]
  rw [Grip.drop, ← hown]
  apply hc.recount
  rw [counts_sub]
  refine Effect.balanced (.give ?_) hc.balanced
  exact ((List.perm_cons_erase (hc.own ▸ hf)).append_left _).trans List.perm_middle

theorem Consistent.create (hc : Consistent careful g s) (size : Nat) :
    post careful g (.new size) (some s.regions.headers.length) (g.create size s.regions.headers.length) ∧
      Consistent careful (g.create size s.regions.headers.length) { s with
        regions := { s.regions with headers := s.regions.headers ++ [⟨1, size⟩] }
        own := s.regions.headers.length :: s.own } := by
  have hfresh : ∀ f, f ∈ s.regions.live ∨ f ∈ s.own → f ≠ s.regions.headers.length :=
    fun f hf => Nat.ne_of_lt (hc.length hf)
  refine ⟨⟨fun hmem => hfresh _ (Or.inr (hc.own ▸ hmem)) rfl, fun n hn => ?_, rfl⟩, ?_⟩
  · have hsize := hc.sizes _ hn
    rw [State.sizes, List.getElem?_eq_none (by simp)] at hsize
    cases hsize
  · refine ⟨?_, by rw [Grip.create, hc.own], ?_, ?_, hc.granted, hc.nodup, hc.given, hc.tied, hc.quiet⟩
    · have hcounts : (s.regions.headers ++ [(⟨1, size⟩ : Header)]).map Header.refCount =
          s.regions.counts ++ [1] := by
        simp [State.counts]
      simp only [State.counts] at hcounts ⊢
      rw [hcounts]
      refine Effect.balanced (.make ?_) hc.balanced
      rw [List.length_map]
      exact List.perm_middle
    · refine List.forall_mem_cons.mpr ⟨⟨by simp, fun hmem => hfresh _ (Or.inl hmem) rfl⟩, fun f hf => ?_⟩
      obtain ⟨hlt, hnone⟩ := hc.alone f hf
      exact ⟨Nat.lt_of_lt_of_le hlt (by simp), hnone⟩
    · refine List.forall_mem_cons.mpr ⟨by simp [State.sizes], fun x hx => ?_⟩
      have hsize := hc.sizes x hx
      have hlt := (List.getElem?_eq_some_iff.mp hsize).1
      rw [State.sizes, List.map_append, List.getElem?_append_left (by exact hlt)]
      exact hsize

theorem Consistent.free (hc : Consistent careful g s) {c : Closure} (hpre : pre careful g (.free f c)) :
    Consistent careful (g.free c)
      { s with called := (c, f, ExactCounts.handles s.regions f) :: s.called } := by
  obtain ⟨hpending, htied, halone⟩ := hpre
  have hperm : (g.pending.erase c ++ c :: s.called.map fun x => x.1).Perm
      (g.pending ++ s.called.map fun x => x.1) :=
    List.perm_middle.trans ((List.perm_cons_erase hpending).symm.append_right _)
  refine ⟨hc.balanced, hc.own, hc.alone, hc.sizes, hc.granted, hperm.nodup_iff.mpr hc.nodup, ?_, ?_, ?_⟩
  · exact fun c' hc' => hc.given c' ((hperm.append_right _).subset hc')
  · exact List.forall_mem_cons.mpr ⟨fun f' hf' => htied f' (hc.granted ▸ hf'), hc.tied⟩
  · refine fun hcareful => List.forall_mem_cons.mpr ⟨?_, hc.quiet hcareful⟩
    have hnone := List.count_eq_zero.mpr (hc.alone f (halone hcareful)).2
    rw [ExactCounts.count_live] at hnone
    simp only
    omega

/-- Each call has an answer that the registry reckons with. -/
theorem Consistent.perform (hc : Consistent careful g s) (hfew : Few s) {o : Call} {x : o.Answer} {ok : Bool}
    (hpre : pre careful g o)
    (hcareful : careful = true → ∀ f c, o = .drop f (some c) → f ∉ s.regions.live)
    (h : s.perform ok o = some (x, s')) : ∃ g', post careful g o x g' ∧ Consistent careful g' s' := by
  cases o with
  | load f =>
    obtain ⟨hd, hh, heq⟩ := Option.map_eq_some_iff.mp h
    cases heq
    exact hc.load hfew hpre hh
  | clone f =>
    cases ok with
    | true =>
      cases h
      exact ⟨g.clone f, rfl, hc.clone hpre⟩
    | false =>
      cases h
      exact ⟨g, rfl, hc⟩
  | new size =>
    cases ok with
    | true =>
      cases h
      exact ⟨_, hc.create size⟩
    | false =>
      cases h
      exact ⟨g, rfl, hc⟩
  | drop f guard =>
    cases h
    have hdropped := hc.drop hpre
    refine ⟨_, rfl, ?_⟩
    split
    · rename_i hguard
      obtain ⟨hb, hsome⟩ := Bool.and_eq_true_iff.mp hguard
      obtain ⟨c, rfl⟩ := Option.isSome_iff_exists.mp hsome
      refine hdropped.isolate ?_ (hcareful hb f c rfl)
      simpa [State.refCountInner] using hc.length (Or.inr (hc.own ▸ hpre))
    · exact hdropped
  | free f c =>
    cases h
    exact ⟨g.free c, rfl, hc.free hpre⟩

/-- What happens elsewhere is no concern of the registry. -/
theorem Consistent.outside (hc : Consistent careful g s) {regions : Regions.State}
    (hchanges : Changes s.regions regions) : Consistent careful g { s with regions := regions } := by
  refine ⟨(hchanges.units.append s.own).balanced hc.balanced, hc.own, fun f hf => ?_, fun x hx => ?_,
    hc.granted,
    hc.nodup, hc.given, hc.tied, hc.quiet⟩
  · exact hchanges.absent (hc.alone f hf).1 (hc.alone f hf).2
  · obtain ⟨more, hmore⟩ := hchanges.sizes
    have hsize := hc.sizes x hx
    rw [hmore, List.getElem?_append_left (List.getElem?_eq_some_iff.mp hsize).1]
    exact hsize

/-- A process that dies with the registry takes its handles with it. -/
theorem Consistent.crash (hc : Consistent careful g s) :
    Consistent careful { g with own := [] }
      { s with regions := { s.regions with lost := s.own ++ s.regions.lost }, own := [], phase := .gone } := by
  refine ⟨hc.balanced.perm ?_, rfl, hc.alone, hc.sizes, hc.granted, hc.nodup, hc.given, hc.tied, hc.quiet⟩
  rw [List.append_nil, State.units, State.units, List.append_assoc]
  exact List.perm_append_comm.append_left _

/-- A handle of the registry is given to its caller. -/
theorem Consistent.handOut (hc : Consistent careful g s) (hf : f ∈ g.own) (home : Nat) :
    Consistent careful { g with own := g.own.erase f, alone := [] } { s with
      regions := { s.regions with items := (home, .region f) :: s.regions.items }
      own := s.own.erase f } := by
  refine ⟨hc.balanced.perm ?_, by rw [hc.own], by simp, hc.sizes, hc.granted, hc.nodup, hc.given, hc.tied,
    hc.quiet⟩
  exact List.perm_middle.symm.trans ((List.perm_cons_erase (hc.own ▸ hf)).symm.append_left _)

/-- The call with this closure has been successful. -/
theorem Consistent.grant (hc : Consistent careful g s) {c : Closure} (hpending : c ∈ g.pending) (f : File) :
    Consistent careful { g with granted := (c, f) :: g.granted } { s with granted := (c, f) :: s.granted } := by
  refine ⟨hc.balanced, hc.own, hc.alone, hc.sizes, by rw [hc.granted], hc.nodup, ?_, fun x hx f' hf' => ?_,
    hc.quiet⟩
  · have hlt := hc.given c (by simp [hpending])
    intro c' hc'
    rw [List.map_cons] at hc'
    obtain rfl | hc' := List.mem_cons.mp (List.perm_middle.subset hc')
    · exact hlt
    · exact hc.given c' hc'
  · obtain heq | hf' := List.mem_cons.mp hf'
    · obtain ⟨hxc, rfl⟩ := Prod.mk.inj heq
      have hdisjoint := (List.nodup_append.mp hc.nodup).2.2 c hpending x.1 (List.mem_map_of_mem hx)
      exact absurd hxc.symm hdisjoint
    · exact hc.tied x hx f' hf'

theorem mem_guards {rs : List MemoryRegionEntry} {r : MemoryRegionEntry} {c : Closure} (hr : r ∈ rs)
    (hguard : r.guard = some c) : (c, r.region) ∈ guards rs :=
  List.mem_flatMap.mpr ⟨r, hr, by simp [held, hguard]⟩

theorem settled_handOut {inner : Inner} (h : Settled inner (some f) g) :
    Settled inner none { g with own := g.own.erase f, alone := [] } := by
  refine ⟨⟨?_, h.holding.pending, h.holding.tied, h.holding.spare⟩, h.sizes⟩
  have herase := (h.holding.own.trans (List.perm_append_singleton f (files inner))).erase f
  rw [List.erase_cons_head] at herase
  exact herase.trans (.of_eq (List.append_nil _).symm)

theorem settled_grant {inner : Inner} {c : Closure} (h : Settled inner none g) (hnodup : g.pending.Nodup)
    (hmem : (c, f) ∈ guards (entries inner)) :
    Settled inner none { g with granted := (c, f) :: g.granted } := by
  refine ⟨⟨h.holding.own, h.holding.pending, fun p hp f' hf' => ?_, fun _ hc => by cases hc⟩, h.sizes⟩
  obtain heq | hf' := List.mem_cons.mp hf'
  · have hkeys : ((guards (entries inner)).map Prod.fst).Nodup := by
      obtain ⟨keys, hperm, hsublist⟩ := h.holding.pending
      rw [List.append_nil] at hperm
      exact hperm.nodup_iff.mp (hnodup.sublist hsublist)
    obtain ⟨hpc, rfl⟩ := Prod.mk.inj heq
    exact (congrArg Prod.snd (List.inj_on_of_nodup_map hkeys hp hmem hpc)).symm
  · exact h.holding.tied p hp f' hf'

/-- What holds after every step. -/
def Inv (careful : Bool) (s : System) : Prop := ∃ g, Consistent careful g s ∧ Follows careful g s.phase

variable {k : Kernel} {codec : Codec} {versions : Nat → Version} {home : Nat}

theorem Consistent.phase (hc : Consistent careful g s) (p : Phase) : Consistent careful g
    { s with phase := p } :=
  ⟨hc.balanced, hc.own, hc.alone, hc.sizes, hc.granted, hc.nodup, hc.given, hc.tied, hc.quiet⟩

theorem Inv.outside (h : Inv careful s) {a : Regions.Action} {regions : Regions.State}
    (ha : Regions.step k codec versions s.regions a = some regions) :
    Inv careful (s.outside home regions a) := by
  obtain ⟨g, hc, hfollows⟩ := h
  have hout := hc.outside (step_moved ha).changes
  unfold System.outside
  split
  · split
    · exact ⟨_, hout.crash, rfl⟩
    · exact ⟨g, hout, hfollows⟩
  · exact ⟨g, hout, hfollows⟩

/-- `alloc` begins with a closure that nobody knows. -/
theorem Consistent.give (hc : Consistent careful g s) (closure : Option Closure)
    (hfresh : ∀ c ∈ closure, c = s.given) :
    Consistent careful { g with pending := closure.toList ++ g.pending }
      { s with given := s.given + closure.toList.length } := by
  cases closure with
  | none => exact hc
  | some c =>
    obtain rfl := hfresh c rfl
    have hnew : s.given ∉ g.pending ++ s.called.map fun x => x.1 :=
      fun hmem => Nat.lt_irrefl _ (hc.given _ (List.mem_append_left _ hmem))
    refine ⟨hc.balanced, hc.own, hc.alone, hc.sizes, hc.granted, List.nodup_cons.mpr ⟨hnew, hc.nodup⟩, ?_,
      hc.tied, hc.quiet⟩
    refine List.forall_mem_cons.mpr ⟨Nat.lt_succ_self _, fun c hmem => ?_⟩
    exact Nat.lt_succ_of_lt (hc.given c hmem)

theorem settled_give {inner : Inner} (h : Settled inner none g) (hc : Consistent careful g s)
    (closure : Option Closure) (hfresh : ∀ c ∈ closure, c = s.given) :
    Holding { g with pending := closure.toList ++ g.pending } (files inner) (guards (entries inner))
      closure.toList := by
  have hpending := h.holding.pending
  rw [List.append_nil] at hpending
  refine ⟨h.holding.own.trans (.of_eq (List.append_nil _)), ?_, h.holding.tied, fun c hmem f hf => ?_⟩
  · exact List.perm_append_comm.subperm.trans ((List.subperm_append_left _).mpr hpending)
  · have hlt := hc.given c (List.mem_append_right _ (List.mem_map_of_mem (hc.granted ▸ hf)))
    rw [hfresh c (by simpa using hmem)] at hlt
    exact Nat.lt_irrefl _ hlt

/-- The caller of the registry goes on. -/
theorem Inv.finish (h : Inv careful s) {request : Request} {before inner : Inner} {region : Option File}
    (hphase : s.phase = .busy request before (.ret (inner, region))) :
    Inv careful (s.finish home request inner region) := by
  obtain ⟨g, hc, hfollows⟩ := h
  rw [hphase] at hfollows
  cases request with
  | alloc minSize tag closure =>
    obtain ⟨hsettled, hgranted⟩ := hfollows
    cases region with
    | none => exact ⟨g, hc.phase _, hsettled⟩
    | some f =>
      have hf : f ∈ g.own := hsettled.holding.own.symm.subset (by simp)
      have hout := (hc.handOut hf home).phase (.idle inner)
      have hrest := settled_handOut hsettled
      cases closure with
      | none => exact ⟨_, hout, hrest⟩
      | some c =>
        obtain ⟨-, -, ⟨r, hr, hregion, -, hguard⟩, -⟩ := hgranted f rfl
        have hmem := mem_guards hr hguard
        rw [hregion] at hmem
        have hpending : c ∈ g.pending :=
          hsettled.holding.pending.subset (List.mem_append_left _ (List.mem_map_of_mem (f := Prod.fst) hmem))
        exact ⟨_, hout.grant hpending f, settled_grant hrest (List.nodup_append.mp hc.nodup).1 hmem⟩
  | maintain =>
    obtain ⟨hsettled, rfl⟩ := hfollows
    exact ⟨g, hc.phase _, hsettled⟩
  | drop =>
    obtain ⟨hsettled, rfl⟩ := hfollows
    exact ⟨g, hc.phase _, List.perm_nil.mp hsettled.holding.own⟩

theorem Inv.alloc (h : Inv careful s) {inner : Inner} (hphase : s.phase = .idle inner) (minSize : Nat)
    (tag : Option String) (withFree : Bool) (now : Instant) :
    let closure := if withFree then some s.given else none
    Inv careful { s with
      phase := .busy (.alloc minSize tag closure) inner (allocInner now tag closure minSize inner)
      given := s.given + closure.toList.length } := by
  obtain ⟨g, hc, hfollows⟩ := h
  rw [hphase] at hfollows
  have hfresh : ∀ c ∈ (if withFree then some s.given else none : Option Closure), c = s.given := by
    cases withFree <;> simp
  refine ⟨_, (hc.give _ hfresh).phase _, (allocInner_holds (settled_give hfollows hc _ hfresh) ?_).mono ?_⟩
  · exact hfollows.sizes
  · exact fun x g' hend => hend.2

theorem Inv.maintain (h : Inv careful s) {inner : Inner} (hphase : s.phase = .idle inner) (now : Instant) :
    Inv careful { s with
      phase := .busy .maintain inner (do
        let inner ← maintainInner now inner
        pure (inner, none)) } := by
  obtain ⟨g, hc, hfollows⟩ := h
  rw [hphase] at hfollows
  have hheld : Holding g (files inner ++ []) (guards (entries inner) ++ []) [] :=
    hfollows.holding.perm (.refl _) (.of_eq (List.append_nil _).symm)
  refine ⟨g, hc.phase _, Rules.Holds.bind (maintainInner_holds hheld) ?_⟩
  rintro inner' g' ⟨hle, hkept, hheld'⟩
  refine ⟨⟨hheld'.perm (.refl _) (.of_eq (List.append_nil _)), ?_⟩, rfl⟩
  exact fun x hx => hle.sizes (hfollows.sizes (hkept.sublist.subset hx))

theorem Inv.drop (h : Inv careful s) {inner : Inner} (hphase : s.phase = .idle inner) :
    Inv careful { s with
      phase := .busy .drop inner (do
        dropInner inner
        pure ([], none)) } := by
  obtain ⟨g, hc, hfollows⟩ := h
  rw [hphase] at hfollows
  have hheld : Holding g (files inner) (guards (entries inner)) [] :=
    hfollows.holding.perm (.of_eq (List.append_nil _)) (.refl _)
  refine ⟨g, hc.phase _, Rules.Holds.bind (dropInner_holds hheld) ?_⟩
  rintro _ g' ⟨-, hheld'⟩
  exact ⟨⟨hheld', List.nil_subset _⟩, rfl⟩

/-- One call of the request is carried out. -/
theorem Inv.exec (h : Inv careful s) (hfew : Few s) {request : Request} {before : Inner} {o : Call}
    {next : o.Answer → Program (Inner × Option File)} (hphase : s.phase = .busy request before (.call o next))
    {ok : Bool} (hcareful : careful = true → Careful s (.exec ok)) {x : o.Answer × System}
    (hx : s.perform ok o = some x) :
    Inv careful { x.2 with phase := .busy request before (next x.1) } := by
  obtain ⟨g, hc, hfollows⟩ := h
  rw [hphase] at hfollows
  have hdrop : careful = true → ∀ f c, o = .drop f (some c) → f ∉ s.regions.live := by
    rintro hb f c rfl
    exact hcareful hb f (by rw [hphase]; rfl)
  obtain ⟨g', hpost, hc'⟩ := hc.perform hfew hfollows.1 hdrop hx
  exact ⟨g', hc'.phase _, hfollows.2 x.1 g' hpost⟩

theorem step_inv (h : Inv careful s) (hfew : Few s) {a : Action} (hcareful : careful = true → Careful s a)
    (hs : step k codec versions home s a = some s') : Inv careful s' := by
  cases a with
  | env a =>
    obtain ⟨regions, ha, rfl⟩ := Option.map_eq_some_iff.mp hs
    exact h.outside ha
  | alloc minSize tag withFree now =>
    simp only [step] at hs
    split at hs
    · rename_i inner hphase
      split at hs
      · cases hs
        exact h.alloc hphase minSize tag withFree now
      · cases hs
    · cases hs
  | maintain now =>
    simp only [step] at hs
    split at hs
    · rename_i inner hphase
      cases hs
      exact h.maintain hphase now
    · cases hs
  | drop =>
    simp only [step] at hs
    split at hs
    · rename_i inner hphase
      cases hs
      exact h.drop hphase
    · cases hs
  | exec ok =>
    simp only [step] at hs
    split at hs
    · rename_i request before o next hphase
      obtain ⟨x, hx, rfl⟩ := Option.map_eq_some_iff.mp hs
      exact h.exec hfew hphase hcareful hx
    · cases hs
  | finish =>
    simp only [step] at hs
    split at hs
    · rename_i request before inner region hphase
      cases hs
      exact h.finish hphase
    · cases hs

theorem run_inv {as : List Action}
    (hsteps : Along (step k codec versions home) (fun s a => Few s ∧ (careful = true → Careful s a)) start as)
    (hrun : run (step k codec versions home) start as = some s) : Inv careful s := by
  refine along_invariant (Inv careful) (fun s a s' hi hp hs => step_inv hi hp.1 hp.2 hs) ?_ hsteps hrun
  exact ⟨⟨[], [], [], [], []⟩,
    ⟨Balanced.nil, rfl, by simp, by simp, rfl, by simp [start], by simp [start], by simp [start],
      by simp [start]⟩,
    ⟨⟨List.Perm.refl _, List.nil_subperm, by simp [guards, entries], by simp⟩, List.nil_subset _⟩⟩

end Steps

end Ipmb.Sharing
