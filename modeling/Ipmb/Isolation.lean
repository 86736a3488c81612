import Ipmb.Bytes
import Ipmb.Messages
import Ipmb.Run

namespace Ipmb.Isolation

open Bytes Messages Run

structure SockaddrUn where
  sunFamily : UInt16
  sunPath : List UInt8
deriving DecidableEq

def afUnix : UInt16 := 1

/-- The length of `sun_path`. -/
def sunPathLen : Nat := 108

def bytes (identifier : String) : List UInt8 := identifier.toByteArray.data.toList

/-- `CString::new(identifier).unwrap()`: `none` is the panic on a NUL byte. -/
def cString (identifier : String) : Option (List UInt8) :=
  if (bytes identifier).contains 0 then none else some (bytes identifier ++ [0])

/-- `strncpy` to the offset `off` of a buffer: at most `n` bytes, and zeros behind them. -/
def strncpy (dst : List UInt8) (off : Nat) (src : List UInt8) (n : Nat) : List UInt8 :=
  let copied := (src.takeWhile (· != 0)).take n
  writeAt dst off (copied ++ List.replicate (n - copied.length) 0)

def identifierToSocketAddr (identifier : String) : Option SockaddrUn :=
  (cString identifier).map fun identifier =>
    ⟨afUnix, strncpy (List.replicate sunPathLen 0) 1 identifier (sunPathLen - 2)⟩

/-- A listening socket of the abstract namespace, and the identifier it was registered under. -/
structure Bus where
  addr : SockaddrUn
  identifier : String

/-- The first steps of `register`: `bind` refuses an address that is taken. -/
def register (buses : List Bus) (identifier : String) : Option (Except (Error Empty) (List Bus)) :=
  (identifierToSocketAddr identifier).map fun addr =>
    if buses.any (fun bus => bus.addr == addr) then .error .identifierInUse
    else .ok (buses ++ [⟨addr, identifier⟩])

/-- The first steps of `look_up`: `connect` finds the listener with that address. -/
def lookUp (buses : List Bus) (identifier : String) : Option (Except (Error Empty) Bus) :=
  (identifierToSocketAddr identifier).map fun addr =>
    match buses.find? (fun bus => bus.addr == addr) with
    | some bus => .ok bus
    | none => .error .identifierNotInUse

inductive Action where
  | register (identifier : String)
  | shutDown (i : Nat)

/-- Controllers come and go. -/
def step (buses : List Bus) : Action → Option (List Bus)
  | .register identifier =>
    (register buses identifier).map fun r =>
      match r with
      | .ok buses => buses
      | .error _ => buses
  | .shutDown i => some (buses.eraseIdx i)

/-- `a` and `b` have the same address only if they are the same; otherwise an endpoint under
`a` neither finds a bus that was registered under `b`, nor is kept from registering by it. -/
structure Isolated (a b : String) : Prop where
  address : identifierToSocketAddr a = identifierToSocketAddr b → a = b
  lookUp : a ≠ b → ∀ actions buses, run step [] actions = some buses →
    ∀ bus, lookUp buses a = some (.ok bus) → bus.identifier ≠ b
  register : a ≠ b → ∀ actions buses, run step [] actions = some buses →
    (∀ bus ∈ buses, bus.identifier = b) → register buses a ≠ some (.error .identifierInUse)

/-- What is read of a string without zeros goes on behind it. -/
theorem takeWhile_append_of_notMem {l rest : List UInt8} (h : (0 : UInt8) ∉ l) :
    (l ++ rest).takeWhile (· != 0) = l ++ rest.takeWhile (· != 0) := by
  apply List.takeWhile_append_of_pos
  intro b hb
  rw [bne_iff_ne]
  rintro rfl
  exact h hb

/-- What is left of the bytes of an identifier, in front of the last zero. -/
def padded (l : List UInt8) : List UInt8 := l.take 106 ++ List.replicate (106 - (l.take 106).length) 0

theorem padded_inj {l l' : List UInt8} (h : (0 : UInt8) ∉ l) (h' : (0 : UInt8) ∉ l') :
    padded l = padded l' ↔ l.take 106 = l'.take 106 := by
  have hback : ∀ l : List UInt8, (0 : UInt8) ∉ l → (padded l).takeWhile (· != 0) = l.take 106 := by
    intro l hl
    rw [padded, takeWhile_append_of_notMem fun hb => hl (List.mem_of_mem_take hb)]
    cases 106 - (l.take 106).length <;> simp [List.replicate_succ]
  constructor
  · intro heq
    rw [← hback l h, heq, hback l' h']
  · intro heq
    rw [padded, padded, heq]

theorem identifierToSocketAddr_eq {a : String} (ha : (0 : UInt8) ∉ bytes a) :
    identifierToSocketAddr a = some ⟨afUnix, 0 :: (padded (bytes a) ++ [0])⟩ := by
  have hbytes : (bytes a ++ [0]).takeWhile (· != 0) = bytes a := by
    rw [takeWhile_append_of_notMem ha]
    simp
  have hc : cString a = some (bytes a ++ [0]) := by
    rw [cString, if_neg (by simpa using ha)]
  have hlen : (padded (bytes a)).length = 106 := by
    rw [padded, List.length_append, List.length_replicate, List.length_take]
    omega
  have hbuf : List.replicate sunPathLen (0 : UInt8) = [0] ++ List.replicate 107 0 := rfl
  rw [identifierToSocketAddr, hc, Option.map_some, strncpy, hbytes, hbuf,
    writeAt_append [0] _ _ (by rfl), show sunPathLen - 2 = 106 from rfl, ← padded, hlen,
    List.drop_replicate, List.append_assoc]
  rfl

theorem identifierToSocketAddr_inj {a b : String} (ha : (0 : UInt8) ∉ bytes a)
    (hb : (0 : UInt8) ∉ bytes b) :
    identifierToSocketAddr a = identifierToSocketAddr b ↔
      (bytes a).take 106 = (bytes b).take 106 := by
  rw [identifierToSocketAddr_eq ha, identifierToSocketAddr_eq hb, ← padded_inj ha hb]
  simp

theorem take_ne_iff {α : Type} {l l' : List α} {n : Nat} :
    l.take n ≠ l'.take n ↔ ∃ i < n, l[i]? ≠ l'[i]? := by
  rw [ne_eq, List.ext_getElem?_iff, not_forall]
  constructor
  · rintro ⟨i, hi⟩
    have hlt : i < n := by
      by_contra hge
      simp [hge] at hi
    refine ⟨i, hlt, ?_⟩
    simpa [List.getElem?_take, hlt] using hi
  · rintro ⟨i, hlt, hi⟩
    refine ⟨i, ?_⟩
    simpa [List.getElem?_take, hlt] using hi

/-- Every bus has the address of its own identifier. -/
theorem address_of_run {actions : List Action} {buses : List Bus}
    (h : run step [] actions = some buses) :
    ∀ bus ∈ buses, identifierToSocketAddr bus.identifier = some bus.addr := by
  refine run_invariant (fun _ buses => ∀ bus ∈ buses, identifierToSocketAddr bus.identifier =
    some bus.addr) (by simp) ?_ actions buses h
  intro _ buses action buses' _ hI hs bus hbus
  cases action with
  | shutDown i =>
    cases hs
    exact hI bus (List.mem_of_mem_eraseIdx hbus)
  | register identifier =>
    rw [step, register, Option.map_map] at hs
    obtain ⟨addr, haddr, rfl⟩ := Option.map_eq_some_iff.mp hs
    by_cases hused : buses.any (fun bus => bus.addr == addr) = true
    · simp only [Function.comp_apply, hused, if_true] at hbus
      exact hI bus hbus
    · rw [Function.comp_apply, if_neg hused] at hbus
      obtain hbus | hbus := List.mem_append.mp hbus
      · exact hI bus hbus
      · rw [List.mem_singleton.mp hbus]
        exact haddr

theorem lookUp_ok {buses : List Bus} {a : String} {bus : Bus}
    (h : lookUp buses a = some (.ok bus)) :
    bus ∈ buses ∧ identifierToSocketAddr a = some bus.addr := by
  obtain ⟨addr, haddr, hfind⟩ := Option.map_eq_some_iff.mp h
  cases hf : buses.find? (fun bus => bus.addr == addr) with
  | none =>
    rw [hf] at hfind
    cases hfind
  | some found =>
    rw [hf] at hfind
    cases hfind
    have hsome := List.find?_some hf
    rw [beq_iff_eq] at hsome
    exact ⟨List.mem_of_find?_eq_some hf, haddr.trans (congrArg some hsome.symm)⟩

theorem register_inUse {buses : List Bus} {a : String}
    (h : register buses a = some (.error .identifierInUse)) :
    ∃ bus ∈ buses, identifierToSocketAddr a = some bus.addr := by
  obtain ⟨addr, haddr, hany⟩ := Option.map_eq_some_iff.mp h
  by_cases hused : buses.any (fun bus => bus.addr == addr) = true
  · obtain ⟨bus, hbus, heq⟩ := List.any_eq_true.mp hused
    rw [beq_iff_eq] at heq
    exact ⟨bus, hbus, haddr.trans (congrArg some heq.symm)⟩
  · rw [if_neg hused] at hany
    cases hany

theorem isolated_of_address {a b : String}
    (h : identifierToSocketAddr a = identifierToSocketAddr b → a = b) : Isolated a b where
  address := h
  lookUp := by
    rintro hne actions buses hrun bus hl rfl
    obtain ⟨hbus, haddr⟩ := lookUp_ok hl
    exact hne (h (haddr.trans (address_of_run hrun bus hbus).symm))
  register := by
    intro hne actions buses hrun hb hr
    obtain ⟨bus, hbus, haddr⟩ := register_inUse hr
    have heq := address_of_run hrun bus hbus
    rw [hb bus hbus] at heq
    exact hne (h (haddr.trans heq.symm))

/-- Identifiers are isolated exactly if they are one, or differ in the part that is copied. -/
theorem isolated_iff (a b : String) (ha : (0 : UInt8) ∉ bytes a) (hb : (0 : UInt8) ∉ bytes b) :
    Isolated a b ↔ a = b ∨ ∃ i < 106, (bytes a)[i]? ≠ (bytes b)[i]? := by
  rw [← take_ne_iff, ne_eq, ← identifierToSocketAddr_inj ha hb, or_iff_not_imp_right, not_not]
  exact ⟨Isolated.address, isolated_of_address⟩

theorem isolated_names : Isolated "solar.com" "solar.org" :=
  (isolated_iff "solar.com" "solar.org" (by decide) (by decide)).mpr (.inr ⟨6, by decide, by decide⟩)

/-- A name that fills the part that is copied, and has one more character. -/
def longName (c : Char) : String := String.ofList (List.replicate 106 'a' ++ [c])

theorem longNames_share : ((0 : UInt8) ∉ bytes (longName 'b') ∧ (0 : UInt8) ∉ bytes (longName 'c')) ∧
    longName 'b' ≠ longName 'c' ∧
    identifierToSocketAddr (longName 'b') = identifierToSocketAddr (longName 'c') ∧
    ¬ Isolated (longName 'b') (longName 'c') := by
  have hb : (0 : UInt8) ∉ bytes (longName 'b') := by decide
  have hc : (0 : UInt8) ∉ bytes (longName 'c') := by decide
  have hne : longName 'b' ≠ longName 'c' := by decide
  have heq : identifierToSocketAddr (longName 'b') = identifierToSocketAddr (longName 'c') :=
    (identifierToSocketAddr_inj hb hc).mpr (by decide)
  exact ⟨⟨hb, hc⟩, hne, heq, fun h => hne (h.address heq)⟩

end Ipmb.Isolation
