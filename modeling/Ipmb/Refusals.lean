import Ipmb.Mach
import Ipmb.Windows

namespace Ipmb.Refusals

open Messages Bytes Buffers Encoding Faults Decoding

/-- There is nobody to answer to. -/
def Unaddressed {R : Type} (e : Error R) : Prop := ∀ v remote, e ≠ .versionMismatch v (some remote)

/-- The errors with which a datagram is refused. -/
inductive Refusal {R : Type} : Error R → Prop
  | disconnect : Refusal .disconnect
  | decode : Refusal .decode
  | version (v : Version) : Refusal (.versionMismatch v none)

theorem Refusal.unaddressed {R : Type} {e : Error R} (h : Refusal e) : Unaddressed e := by
  cases h <;> simp [Unaddressed]

theorem Refusal.not_timeout {R : Type} {e : Error R} (h : Refusal e) : e ≠ .timeout := by
  cases h <;> simp

variable {k : Kernel} {codec : Codec} {version : Version}

section Faulty

variable (Q : Error RawFd → Prop)

theorem readWord_fails (buf : List UInt8) (ptr size : Nat) : Fails Q (readWord buf ptr size) := by
  rw [readWord]
  split <;> trivial

theorem readFds_fails (control : List UInt8) (ptr count : Nat) : Fails Q (readFds control ptr count) := by
  induction count generalizing ptr with
  | zero => trivial
  | succ count ih => exact (readWord_fails Q _ _ _).bind fun fd _ => (ih (ptr + 4)).map _

theorem readObjects_fails (control : List UInt8) : Fails Q (readObjects control) := by
  apply (readWord_fails Q _ _ _).bind
  intro cmsgLen _
  split
  · trivial
  · exact readFds_fails Q _ _ _

theorem fromObject_fails (obj : RawFd) : Fails Q (fromObject k obj) := by
  rw [fromObject]
  split <;> trivial

theorem mapM_fails {F E α β : Type} {Q : E → Prop} {f : α → Except (Stop F E) β}
    (h : ∀ a, Fails Q (f a)) (l : List α) : Fails Q (l.mapM f) := by
  induction l with
  | nil => trivial
  | cons a l ih =>
    rw [List.mapM_cons]
    exact (h a).bind fun b _ => ih.bind fun bs _ => trivial

theorem splitObjects_fails (objects : List RawFd) (count : Nat) :
    Fails Q (splitObjects k objects count) := by
  rw [splitObjects]
  split
  · trivial
  · exact (mapM_fails (fromObject_fails Q) _).map _

theorem readPayload_fails (iovData : List UInt8) (selectorSize : Nat) :
    Fails Q (readPayload iovData selectorSize) := by
  rw [readPayload]
  split
  · trivial
  · apply (readWord_fails Q _ _ _).bind
    intro payloadSize _
    split <;> trivial

end Faulty

theorem readVersion_refusal (iovData : List UInt8) : Fails Refusal (readVersion version iovData) := by
  rw [readVersion]
  split
  · split
    · exact Refusal.version _
    · split
      · exact Refusal.version _
      · trivial
  · trivial

theorem readSelector_refusal (iovData : List UInt8) : Fails Refusal (readSelector codec iovData) := by
  apply (readWord_fails _ _ _ _).bind
  intro selectorSize _
  split
  · trivial
  · split
    · exact Refusal.decode
    · trivial

theorem parseData_refusal (iovData controlData : List UInt8) (objects : List RawFd) :
    Fails Refusal (parseData k codec version iovData controlData objects) :=
  (readVersion_refusal iovData).bind fun _ _ =>
    (readSelector_refusal iovData).bind fun _ _ =>
      (splitObjects_fails _ objects _).bind fun _ _ => (readPayload_fails _ iovData _).map _

theorem fromLocal_refusal (heap : Heap) (socket : Option Datagram) :
    Fails Refusal (fromLocal k codec version heap socket) := by
  rw [fromLocal]
  simp only
  split
  · exact Refusal.disconnect
  · split
    · exact Refusal.disconnect
    · refine Fails.bind ?_ fun objects _ => parseData_refusal _ _ objects
      split
      · exact readObjects_fails _ _
      · trivial

/-- A message that is given up on Linux is one that nobody is told about. -/
theorem fromLocal_unaddressed (heap : Heap) (socket : Option Datagram) :
    Fails Unaddressed (fromLocal k codec version heap socket) :=
  (fromLocal_refusal heap socket).mono fun _ h => h.unaddressed

/-- The same on macOS. -/
theorem mach_new_unaddressed {m : Mach.MachMsg} {r : Parse Mach.EncodedMessage}
    (h : Mach.new k codec version m = some r) : Fails Unaddressed r := by
  rw [Mach.new] at h
  split at h
  · obtain rfl := Option.some.inj h
    refine Fails.mono ?_ fun _ => Refusal.unaddressed
    refine (readVersion_refusal m.data).bind fun _ _ =>
      (readSelector_refusal m.data).bind fun _ _ =>
        (splitObjects_fails _ _ _).bind fun _ _ =>
          (readPayload_fails _ m.data _).bind fun _ _ => ?_
    split <;> trivial
  · cases h

section Windows

open Windows (Handle Remote)

theorem windows_readWord_fails (Q : Error Remote → Prop) (buf : List UInt8) (ptr size : Nat) :
    Fails Q (Windows.readWord buf ptr size) := by
  rw [Windows.readWord]
  split <;> trivial

theorem windows_readHandles_fails (Q : Error Remote → Prop) (pipeMsg : List UInt8) (ptr count : Nat) :
    Fails Q (Windows.readHandles pipeMsg ptr count) := by
  induction count generalizing ptr with
  | zero => trivial
  | succ count ih => exact (windows_readWord_fails Q _ _ _).bind fun _ _ => (ih (ptr + 8)).map _

theorem windows_fromObject_fails (Q : Error Remote → Prop) (mapHeader : Handle → Option UInt64)
    (obj : Handle) : Fails Q (Windows.fromObject mapHeader obj) := by
  rw [Windows.fromObject]
  split <;> trivial

theorem windows_parseData_unaddressed (mapHeader : Handle → Option UInt64) (pipeMsg : List UInt8)
    (objects : List Handle) (selectorSizePtr : Nat) :
    Fails Unaddressed (Windows.parseData mapHeader codec pipeMsg objects selectorSizePtr) := by
  apply (windows_readWord_fails _ _ _ _).bind
  intro _ _
  split
  · trivial
  · split
    · simp [Unaddressed]
    · simp only
      split
      · trivial
      · apply (mapM_fails (windows_fromObject_fails _ mapHeader) _).bind
        intro _ _
        split
        · trivial
        · apply (windows_readWord_fails _ _ _ _).bind
          intro _ _
          split <;> trivial

/-- The same on Windows. -/
theorem windows_new_unaddressed (mapHeader : Handle → Option UInt64) (pipeMsg : List UInt8) :
    Fails Unaddressed (Windows.new mapHeader codec version pipeMsg) := by
  rw [Windows.new]
  split
  · split
    · simp [Unaddressed]
    · apply (windows_readWord_fails _ _ _ _).bind
      intro _ _
      apply (windows_readHandles_fails _ _ _ _).bind
      intro _ _
      split
      · simp [Unaddressed]
      · exact windows_parseData_unaddressed _ _ _ _
  · trivial

end Windows

end Ipmb.Refusals
