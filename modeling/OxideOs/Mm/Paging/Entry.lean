import Mathlib

/-!
# `Mm.Paging.Entry` — page table entries

A 64-bit entry holds a frame address in bits 12 to 51 and flags in bits 0 to 9 and 63. Flags are values of
their own type, which has no other bits set; an entry made from an address and flags therefore gives both
back.
-/

namespace OxideOs.Paging

open BitVec

abbrev PhysAddr := BitVec 64

abbrev VirtAddr := BitVec 64

/-- All bits that are flags. -/
def ALL_FLAGS : BitVec 64 := 0x80000000000003ff#64

/-- The address bits of an entry. -/
def ADDR_MASK : BitVec 64 := 0x000FFFFFFFFFF000#64

/-- A set of flags. -/
structure PageTableFlags where
  bits : BitVec 64
  known : bits &&& ALL_FLAGS = bits
  deriving DecidableEq, Repr

namespace PageTableFlags

def PRESENT : PageTableFlags := ⟨1#64 <<< 0, by decide⟩

def WRITABLE : PageTableFlags := ⟨1#64 <<< 1, by decide⟩

def USER : PageTableFlags := ⟨1#64 <<< 2, by decide⟩

def ACCESSED : PageTableFlags := ⟨1#64 <<< 5, by decide⟩

def HUGE_PAGE : PageTableFlags := ⟨1#64 <<< 7, by decide⟩

def COW : PageTableFlags := ⟨1#64 <<< 9, by decide⟩

def NO_EXECUTE : PageTableFlags := ⟨1#64 <<< 63, by decide⟩

/-- The flags among some bits. -/
def fromBitsTruncate (bits : BitVec 64) : PageTableFlags :=
  ⟨bits &&& ALL_FLAGS, by rw [BitVec.and_assoc, BitVec.and_self]⟩

def union (a b : PageTableFlags) : PageTableFlags := ⟨a.bits ||| b.bits, by rw [and_or_distrib_right, a.known, b.known]⟩

instance : OrOp PageTableFlags := ⟨union⟩

/-- The flags of `a` that are not in `b`. -/
def difference (a b : PageTableFlags) : PageTableFlags :=
  ⟨a.bits &&& ~~~b.bits, by
    rw [BitVec.and_assoc, BitVec.and_comm (~~~b.bits), ← BitVec.and_assoc, a.known]⟩

/-- Does `a` contain all flags of `b`? -/
def contains (a b : PageTableFlags) : Bool := a.bits &&& b.bits == b.bits

/-- Flags have no address bits. -/
theorem and_addrMask (a : PageTableFlags) : a.bits &&& ADDR_MASK = 0#64 := by
  rw [← a.known, BitVec.and_assoc, show ALL_FLAGS &&& ADDR_MASK = 0#64 by decide, and_zero]

end PageTableFlags

open PageTableFlags

/-- An entry. -/
structure PageTableEntry where
  raw : BitVec 64
  deriving DecidableEq, Repr

namespace PageTableEntry

/-- Not present, nothing set. -/
def empty : PageTableEntry := ⟨0#64⟩

def isPresent (e : PageTableEntry) : Bool := e.raw &&& PRESENT.bits != 0#64

def isHuge (e : PageTableEntry) : Bool := e.raw &&& HUGE_PAGE.bits != 0#64

def isCow (e : PageTableEntry) : Bool := e.raw &&& COW.bits != 0#64

def isWritable (e : PageTableEntry) : Bool := e.raw &&& WRITABLE.bits != 0#64

def flags (e : PageTableEntry) : PageTableFlags := fromBitsTruncate e.raw

/-- The frame the entry points to. -/
def addr (e : PageTableEntry) : PhysAddr := e.raw &&& ADDR_MASK

/-- A new address and new flags. -/
def set (addr : PhysAddr) (flags : PageTableFlags) : PageTableEntry := ⟨(addr &&& ADDR_MASK) ||| flags.bits⟩

/-- New flags, same address. -/
def setFlags (e : PageTableEntry) (flags : PageTableFlags) : PageTableEntry := ⟨(e.raw &&& ADDR_MASK) ||| flags.bits⟩

def addFlags (e : PageTableEntry) (flags : PageTableFlags) : PageTableEntry := ⟨e.raw ||| flags.bits⟩

def removeFlags (e : PageTableEntry) (flags : PageTableFlags) : PageTableEntry := ⟨e.raw &&& ~~~flags.bits⟩

variable (e : PageTableEntry) (a : PhysAddr) (f : PageTableFlags)

/-! ## Addresses -/

@[simp] theorem addr_set : (set a f).addr = a &&& ADDR_MASK := by
  simp only [addr, set]
  rw [and_or_distrib_right, f.and_addrMask, BitVec.and_assoc, BitVec.and_self, or_zero]

@[simp] theorem addr_setFlags : (e.setFlags f).addr = e.addr := addr_set e.raw f

@[simp] theorem addr_addFlags : (e.addFlags f).addr = e.addr := by
  simp only [addr, addFlags]
  rw [and_or_distrib_right, f.and_addrMask, or_zero]

@[simp] theorem addr_removeFlags : (e.removeFlags f).addr = e.addr := by
  simp only [addr, removeFlags]
  -- an address bit is not a flag, so it is not cleared
  refine eq_of_getLsbD_eq fun i _ => ?_
  have hbit := congrArg (getLsbD · i) f.and_addrMask
  cases hf : f.bits.getLsbD i <;> cases hm : ADDR_MASK.getLsbD i <;> simp_all

/-! ## Flag bits -/

/-- What a one-bit mask leaves of a word. -/
theorem and_bit (x : BitVec 64) {i : Nat} (hi : i < 64) :
    x &&& 1#64 <<< i = if x.getLsbD i then 1#64 <<< i else 0#64 := by
  refine eq_of_getLsbD_eq fun j _ => ?_
  have hone : (1#64 <<< i).getLsbD j = decide (j = i) := by
    by_cases hji : j = i
    · simp [hji, hi]
    by_cases hlt : j < i
    · simp [hlt, hji]
    · simp [hji]
      omega
  rw [getLsbD_and, hone]
  by_cases hji : j = i
  · subst hji
    cases hx : x.getLsbD j with
    | false => simp
    | true => simp [hi]
  rw [decide_eq_false hji, Bool.and_false]
  split
  · rw [hone, decide_eq_false hji]
  · rw [getLsbD_zero]

theorem bit_ne_zero {i : Nat} (hi : i < 64) : 1#64 <<< i ≠ 0#64 := by
  intro h
  have hbit := congrArg (getLsbD · i) h
  simp [hi] at hbit

/-- A single bit tested through its mask. -/
theorem and_bit_ne_zero (x : BitVec 64) (i : Nat) (hi : i < 64) : (x &&& 1#64 <<< i != 0#64) = x.getLsbD i := by
  rw [and_bit x hi]
  cases x.getLsbD i with
  | false => rfl
  | true => exact bne_iff_ne.mpr (bit_ne_zero hi)

/-- A single flag is contained when its bit is set. -/
theorem and_bit_beq (x : BitVec 64) (i : Nat) (hi : i < 64) : (x &&& 1#64 <<< i == 1#64 <<< i) = x.getLsbD i := by
  rw [and_bit x hi]
  cases x.getLsbD i with
  | false => exact beq_eq_false_iff_ne.mpr (bit_ne_zero hi).symm
  | true => exact beq_self_eq_true _

theorem contains_present : f.contains PRESENT = f.bits.getLsbD 0 := and_bit_beq f.bits 0 (by decide)

theorem isPresent_eq : e.isPresent = e.raw.getLsbD 0 := and_bit_ne_zero e.raw 0 (by decide)

theorem isWritable_eq : e.isWritable = e.raw.getLsbD 1 := and_bit_ne_zero e.raw 1 (by decide)

theorem isHuge_eq : e.isHuge = e.raw.getLsbD 7 := and_bit_ne_zero e.raw 7 (by decide)

theorem isCow_eq : e.isCow = e.raw.getLsbD 9 := and_bit_ne_zero e.raw 9 (by decide)

/-- Outside the address bits, a new entry has the bits of its flags. -/
theorem getLsbD_set {i : Nat} (hi : ADDR_MASK.getLsbD i = false) : (set a f).raw.getLsbD i = f.bits.getLsbD i := by
  simp [set, hi]

theorem getLsbD_setFlags {i : Nat} (hi : ADDR_MASK.getLsbD i = false) :
    (e.setFlags f).raw.getLsbD i = f.bits.getLsbD i := getLsbD_set e.raw f hi

theorem getLsbD_addFlags (i : Nat) : (e.addFlags f).raw.getLsbD i = (e.raw.getLsbD i || f.bits.getLsbD i) := by
  simp [addFlags]

theorem getLsbD_removeFlags {i : Nat} (hi : i < 64) :
    (e.removeFlags f).raw.getLsbD i = (e.raw.getLsbD i && !f.bits.getLsbD i) := by
  simp [removeFlags, hi]

@[simp] theorem isPresent_set : (set a (f ||| PRESENT)).isPresent = true := by
  rw [isPresent_eq, getLsbD_set _ _ (by decide)]
  show (f.bits ||| PRESENT.bits).getLsbD 0 = true
  rw [getLsbD_or, show PRESENT.bits.getLsbD 0 = true by decide, Bool.or_true]

theorem isPresent_addFlags (h : e.isPresent = true) : (e.addFlags f).isPresent = true := by
  rw [isPresent_eq] at h ⊢
  rw [getLsbD_addFlags, h, Bool.true_or]

theorem isPresent_removeFlags (h : e.isPresent = true) : (e.removeFlags f).isPresent = !f.contains PRESENT := by
  rw [isPresent_eq] at h ⊢
  rw [getLsbD_removeFlags e f (by decide), h, Bool.true_and, contains_present]

end PageTableEntry
end OxideOs.Paging
