import Mathlib

/-!
# `Mm.Pagedb` — the page frame database (`mm-pagedb`)

One record for each physical frame: flag bits, a reference count and an owner. The allocator consults it
before a frame is handed out or taken back. The event ring and the free context only feed diagnostics and
are left out. Physical addresses are byte addresses.
-/

namespace OxideOs.Pagedb

open List

def PF_FREE : Nat := 0
def PF_ALLOCATED : Nat := 1 <<< 0
def PF_MAPPED : Nat := 1 <<< 1
def PF_PAGETABLE : Nat := 1 <<< 2
def PF_RESERVED : Nat := 1 <<< 3
def PF_COW : Nat := 1 <<< 4
def PF_KERNEL : Nat := 1 <<< 5

/-- `PageFrame`. -/
structure PageFrame where
  flags : Nat
  refcount : Nat
  owner : Nat
  deriving DecidableEq, Repr

namespace PageFrame

/-- The record of an untouched frame. -/
def new : PageFrame := { flags := PF_FREE, refcount := 0, owner := 0 }

def isFree (pf : PageFrame) : Bool := pf.flags == PF_FREE && pf.refcount == 0

def hasFlag (pf : PageFrame) (flag : Nat) : Bool := pf.flags &&& flag != 0

def setFlags (pf : PageFrame) (flags : Nat) : PageFrame := { pf with flags }

def setFlag (pf : PageFrame) (flag : Nat) : PageFrame := { pf with flags := pf.flags ||| flag }

def clearFlag (pf : PageFrame) (flag : Nat) : PageFrame := { pf with flags := pf.flags &&& (0xFFFFFFFF ^^^ flag) }

end PageFrame

/-- `PageDbError`. -/
inductive PageDbError where
  | doubleFree (phys currentFlags owner : Nat)
  | freeReserved (phys : Nat)
  | freeShared (phys currentFlags refcount : Nat)
  | refcountUnderflow (phys current : Nat)
  | invalidPfn (phys : Nat)
  deriving DecidableEq, Repr

/-- `PageDatabase`: records for the frames below `count`. -/
structure PageDatabase where
  count : Nat
  frames : Nat → PageFrame

namespace PageDatabase

/-- `phys_to_pfn`. -/
def physToPfn (db : PageDatabase) (phys : Nat) : Option Nat :=
  let pfn := phys / 4096
  if pfn < db.count then some pfn else none

def get (db : PageDatabase) (phys : Nat) : Option PageFrame := (db.physToPfn phys).map db.frames

/-- Overwrite the record of a covered frame; nothing happens to a frame outside the database. -/
def put (db : PageDatabase) (phys : Nat) (f : PageFrame → PageFrame) : PageDatabase :=
  match db.physToPfn phys with
  | some pfn => { db with frames := Function.update db.frames pfn (f (db.frames pfn)) }
  | none => db

/-- `mark_allocated`. -/
def markAllocated (db : PageDatabase) (phys owner : Nat) : PageDatabase :=
  db.put phys (fun _ => { flags := PF_ALLOCATED, refcount := 1, owner })

/-- `mark_free`. -/
def markFree (db : PageDatabase) (phys : Nat) : PageDatabase := db.put phys (fun _ => PageFrame.new)

/-- `mark_pagetable`. -/
def markPagetable (db : PageDatabase) (phys owner : Nat) : PageDatabase :=
  db.put phys (fun _ => { flags := PF_ALLOCATED ||| PF_PAGETABLE, refcount := 1, owner })

/-- `ref_inc`: the new count, `0` for a frame outside the database. -/
def refInc (db : PageDatabase) (phys : Nat) : Nat × PageDatabase :=
  match db.get phys with
  | some pf =>
    let n := (pf.refcount + 1) % 2 ^ 32
    (n, db.put phys (fun pf => { pf with refcount := n }))
  | none => (0, db)

/-- `ref_dec`: a free frame and an underflow both answer `0` and leave the count at `0`. -/
def refDec (db : PageDatabase) (phys : Nat) : Nat × PageDatabase :=
  match db.get phys with
  | some pf =>
    if pf.refcount = 0 then (0, db)
    else (pf.refcount - 1, db.put phys (fun pf => { pf with refcount := pf.refcount - 1 }))
  | none => (0, db)

/-- `validate_free`. -/
def validateFree (db : PageDatabase) (phys : Nat) : Except PageDbError Unit :=
  match db.get phys with
  | none => .error (.invalidPfn phys)
  | some pf =>
    if pf.isFree then .error (.doubleFree phys pf.flags pf.owner)
    else if pf.hasFlag PF_RESERVED then .error (.freeReserved phys)
    else if 1 < pf.refcount then .error (.freeShared phys pf.flags pf.refcount)
    else .ok ()

/-! ## Runs of frames -/

/-- Apply `f` to the `n` frames from `phys` on, as the loops of the allocator do. -/
def markRange (f : PageDatabase → Nat → PageDatabase) (db : PageDatabase) (phys n : Nat) : PageDatabase :=
  (range n).foldl (fun db i => f db (phys + 4096 * i)) db

/-- Every one of the `n` frames from `phys` on is covered and free. -/
def allFree (db : PageDatabase) (phys n : Nat) : Bool :=
  (range n).all (fun i =>
    match db.get (phys + 4096 * i) with
    | some pf => pf.isFree
    | none => false)

variable {db : PageDatabase}

theorem get_frame (f : Nat) : db.get (4096 * f) = if f < db.count then some (db.frames f) else none := by
  unfold get physToPfn
  by_cases hf : f < db.count <;> simp

@[simp] theorem put_count (phys : Nat) (g : PageFrame → PageFrame) : (db.put phys g).count = db.count := by
  unfold put
  split <;> rfl

theorem put_frames (f x : Nat) (g : PageFrame → PageFrame) :
    (db.put (4096 * f) g).frames x = if x = f ∧ f < db.count then g (db.frames x) else db.frames x := by
  unfold put physToPfn
  rw [Nat.mul_div_cancel_left f (by decide)]
  by_cases hf : f < db.count
  · simp only [hf, ↓reduceIte, and_true, Function.update_apply]
    split
    · rename_i hx; rw [hx]
    · rfl
  · simp [hf]

theorem get_put (f x : Nat) (g : PageFrame → PageFrame) :
    (db.put (4096 * f) g).get (4096 * x) = if x = f then (db.get (4096 * x)).map g else db.get (4096 * x) := by
  rw [get_frame, get_frame, put_frames]
  by_cases hx : x = f
  · subst hx
    by_cases hc : x < db.count
    · simp [hc]
    · simp [hc]
  · simp [hx]

theorem get_refInc (f x : Nat) : (db.refInc (4096 * f)).2.get (4096 * x) =
      if x = f then (db.get (4096 * x)).map (fun pf => { pf with refcount := (pf.refcount + 1) % 2 ^ 32 })
      else db.get (4096 * x) := by
  unfold refInc
  cases hg : db.get (4096 * f) with
  | none =>
    by_cases hx : x = f
    · rw [if_pos hx, hx, hg, Option.map_none]
    · rw [if_neg hx]
  | some pf =>
    rw [get_put]
    by_cases hx : x = f
    · rw [if_pos hx, if_pos hx, hx, hg, Option.map_some, Option.map_some]
    · rw [if_neg hx, if_neg hx]

theorem get_refDec (f x : Nat) : (db.refDec (4096 * f)).2.get (4096 * x) =
      if x = f then
        (db.get (4096 * x)).map (fun pf => if pf.refcount = 0 then pf else { pf with refcount := pf.refcount - 1 })
      else db.get (4096 * x) := by
  unfold refDec
  by_cases hx : x = f
  · subst hx
    cases hg : db.get (4096 * x) with
    | none => rw [if_pos rfl, hg, Option.map_none]
    | some pf =>
      rw [Option.map_some]
      by_cases h0 : pf.refcount = 0
      · simp [h0, hg]
      · simp [h0, get_put, hg]
  · rw [if_neg hx]
    split
    · split
      · rfl
      · simp [get_put, hx]
    · rfl

/-- **What a marking loop leaves behind**: the records of the covered frames of the run are overwritten. -/
theorem markRange_put (db : PageDatabase) (pf : PageFrame) (f n : Nat) :
    let db' := markRange (fun db phys => db.put phys (fun _ => pf)) db (4096 * f) n
    db'.count = db.count ∧
      ∀ x, db'.frames x = if f ≤ x ∧ x < f + n ∧ x < db.count then pf else db.frames x := by
  induction n with
  | zero =>
    refine ⟨rfl, fun x => ?_⟩
    rw [if_neg (by omega)]
    rfl
  | succ n ih =>
    obtain ⟨hc, hx⟩ := ih
    simp only [markRange] at hc hx
    simp only [markRange, range_succ, foldl_append, foldl_cons, foldl_nil]
    refine ⟨by rw [put_count, hc], fun x => ?_⟩
    rw [← mul_add, put_frames, hc, hx]
    by_cases h1 : x = f + n ∧ f + n < db.count
    · rw [if_pos h1, if_pos (by omega)]
    rw [if_neg h1]
    by_cases h2 : f ≤ x ∧ x < f + n ∧ x < db.count
    · rw [if_pos h2, if_pos (by omega)]
    · rw [if_neg h2, if_neg (by omega)]

theorem allFree_iff (f n : Nat) :
    db.allFree (4096 * f) n = true ↔
      ∀ x, f ≤ x → x < f + n → x < db.count ∧ (db.frames x).isFree = true := by
  unfold allFree
  rw [all_eq_true]
  constructor
  · intro h x _ _
    have hx := h (x - f) (mem_range.mpr (by omega))
    rw [← mul_add, show f + _ = x by omega, get_frame] at hx
    by_cases hc : x < db.count
    · rw [if_pos hc] at hx
      exact ⟨hc, hx⟩
    · rw [if_neg hc] at hx
      cases hx
  · intro h i hi
    obtain ⟨hc, hf⟩ := h (f + i) (Nat.le_add_right _ _) (by have := mem_range.mp hi; omega)
    rw [← mul_add, get_frame, if_pos hc]
    exact hf

/-- Only the records of the run matter. -/
theorem allFree_congr {db' : PageDatabase} {f n : Nat} (hc : db'.count = db.count)
    (hx : ∀ x, f ≤ x → x < f + n → db'.frames x = db.frames x) :
    db'.allFree (4096 * f) n = db.allFree (4096 * f) n := by
  rw [Bool.eq_iff_iff, allFree_iff, allFree_iff, hc]
  constructor
  · intro h x h1 h2
    rw [← hx x h1 h2]
    exact h x h1 h2
  intro h x h1 h2
  rw [hx x h1 h2]
  exact h x h1 h2

end PageDatabase
end OxideOs.Pagedb
