import OxideOs.Mm.Heap.Invariant

/-!
# `Mm.Heap.KernelHeap` — the heap behind the slab caches, plain or hardened

The `heap-hardening` feature decides at build time what a `KernelHeap` is: the linked-list allocator itself,
or a wrapper that puts a header and a red zone in front of every allocation and a red zone and a canary behind
it. The wrapper frees by the size it finds in the header, so headers are part of the state. Red zones, canary
and fill patterns are only ever compared to count corruptions, and are left out with the counters.
-/

namespace OxideOs.Heap

open Option Segment LinkedListAllocator Function Bool

/-- `Layout::from_size_align`. -/
def Layout.fromSizeAlign (size align : Nat) : Option Layout :=
  if h : align = 2 ^ align.log2 ∧ size + (align - 1) ≤ ISIZE_MAX then some ⟨size, align, h.1, h.2⟩ else none

theorem Layout.fromSizeAlign_eq_some {size align : Nat} {l : Layout} (h : fromSizeAlign size align = some l) :
    l.size = size ∧ l.align = align := by
  unfold fromSizeAlign at h
  split at h
  · cases h
    exact ⟨rfl, rfl⟩
  · cases h

/-! ## The hardened heap -/

def REDZONE_SIZE : Nat := 16

/-- The size of an `AllocHeader` (three words), its alignment, and the size of the canary. -/
def HEADER_SIZE : Nat := 24

def HEADER_ALIGN : Nat := 8

def CANARY_SIZE : Nat := 8

/-- A header with a good magic value. -/
structure AllocHeader where
  requestedSize : Nat
  actualSize : Nat
  deriving DecidableEq, Repr

/-- Header, red zone, user data, red zone, canary. -/
def hardenedSize (layout : Layout) : Nat := HEADER_SIZE + REDZONE_SIZE + layout.size + REDZONE_SIZE + CANARY_SIZE

/-- From the start of a hardened block to the user data. -/
def USER_OFFSET : Nat := HEADER_SIZE + REDZONE_SIZE

/-- The layout a hardened allocation asks the inner allocator for. -/
def fullLayout (layout : Layout) (size : Nat) : Option Layout :=
  Layout.fromSizeAlign size (max layout.align HEADER_ALIGN)

/-- The kernel's heap. `headers` is what memory holds at the start of the hardened blocks: `none` where there
    is no valid header. -/
structure KernelHeap where
  hardening : Bool
  inner : LinkedListAllocator
  headers : Nat → Option AllocHeader

namespace KernelHeap

/-- An empty heap of either kind, over any memory. -/
def new (hardening : Bool) (headers : Nat → Option AllocHeader) : KernelHeap := ⟨hardening, empty, headers⟩

/-- Hand over the first region. -/
def init (h : KernelHeap) (heapStart heapSize : Nat) : Option KernelHeap :=
  (h.inner.init heapStart heapSize).map (fun inner => { h with inner := inner })

def setGrowCallback (h : KernelHeap) : KernelHeap := { h with inner := h.inner.setGrowCallback }

/-- `HardenedHeapAllocator::allocate`. -/
def allocateHardened (h : KernelHeap) (growFn : GrowCallbackFn) (layout : Layout) :
    Option (Option Nat × KernelHeap) :=
  let totalSize := hardenedSize layout
  match fullLayout layout totalSize with
  | none => some (none, h)
  | some full =>
    (h.inner.allocate growFn full).map (fun r =>
      match r.1 with
      | none => (none, { h with inner := r.2 })
      | some base =>
        (some (base + USER_OFFSET),
          { h with
            inner := r.2
            headers := update h.headers base (some ⟨layout.size, totalSize⟩) }))

/-- `HardenedHeapAllocator::deallocate`: without a valid header, the call has no effect. -/
def deallocateHardened (h : KernelHeap) (ptr : Nat) (layout : Layout) : Option KernelHeap :=
  if ptr = 0 then some h
  else
    let base := ptr - USER_OFFSET
    match h.headers base with
    | none => some h
    | some header =>
      match fullLayout layout header.actualSize with
      | none => some h
      | some full => (h.inner.deallocate base full).map (fun inner => { h with inner := inner })

/-- `GlobalAlloc::alloc` of the heap. -/
def alloc (h : KernelHeap) (growFn : GrowCallbackFn) (layout : Layout) : Option (Option Nat × KernelHeap) :=
  if h.hardening then h.allocateHardened growFn layout
  else (h.inner.allocate growFn layout).map (fun r => (r.1, { h with inner := r.2 }))

/-- `GlobalAlloc::dealloc` of the heap. -/
def dealloc (h : KernelHeap) (ptr : Nat) (layout : Layout) : Option KernelHeap :=
  if h.hardening then h.deallocateHardened ptr layout
  else (h.inner.deallocate ptr layout).map (fun inner => { h with inner := inner })

/-! ## Blocks and pointers -/

/-- The layout the linked-list allocator sees for a request. -/
def innerLayout (hardening : Bool) (layout : Layout) : Option Layout :=
  if hardening then fullLayout layout (hardenedSize layout) else some layout

/-- From the start of a block to the pointer handed out. -/
def userOffset (hardening : Bool) : Nat := if hardening then USER_OFFSET else 0

/-- The block behind a pointer that the heap handed out for a layout. -/
def blockOf (hardening : Bool) (ptr : Nat) (layout : Layout) : Segment :=
  ⟨ptr - userOffset hardening, ((innerLayout hardening layout).map reserved).getD 0⟩

/-- The region the heap adds while it serves a request, if any. -/
def grown (h : KernelHeap) (growFn : GrowCallbackFn) (layout : Layout) : Option Segment :=
  (innerLayout h.hardening layout).bind (grownRegion h.inner growFn)

/-- A block that was handed out: the pointer lies at the right offset, the user's bytes lie inside, and a
    hardened block still has its header. -/
structure Served (h : KernelHeap) (ptr : Nat) (layout : Layout) : Prop where
  offset : userOffset h.hardening ≤ ptr
  inside : ptr + layout.size ≤ (blockOf h.hardening ptr layout).stop
  header : h.hardening = true →
    h.headers (ptr - USER_OFFSET) = some ⟨layout.size, hardenedSize layout⟩

variable {h h' : KernelHeap} {held regions : List Segment} {growFn : GrowCallbackFn} {layout : Layout}

/-- A served block stays one as long as its header is not written. -/
theorem Served.congr {ptr : Nat} (hs : Served h ptr layout) (hh : h'.hardening = h.hardening)
    (hd : h'.hardening = true → h'.headers (ptr - USER_OFFSET) = h.headers (ptr - USER_OFFSET)) :
    Served h' ptr layout := by
  refine ⟨hh ▸ hs.offset, hh ▸ hs.inside, fun ht => ?_⟩
  rw [hd ht]
  exact hs.header (hh ▸ ht)

/-- How `alloc` can end. Only the header of the new block is written. -/
structure AllocSpec (h h' : KernelHeap) (layout : Layout) (held regions : List Segment) (p : Option Nat) :
    Prop where
  hardening : h'.hardening = h.hardening
  null : p = none → Inv h'.inner.blocks held regions ∧ h'.headers = h.headers
  block : ∀ ptr, p = some ptr → Inv h'.inner.blocks (blockOf h.hardening ptr layout :: held) regions ∧
    Served h' ptr layout ∧ ∀ base, base ≠ (blockOf h.hardening ptr layout).start → h'.headers base = h.headers base

/-- **What `alloc` does**, for both kinds of heap. -/
theorem alloc_spec {p : Option Nat} (hi : Inv h.inner.blocks held regions)
    (hgrow : ∀ r ∈ h.grown growFn layout, ValidRegion r ∧ ∀ r' ∈ regions, Apart r r')
    (ha : h.alloc growFn layout = some (p, h')) :
    AllocSpec h h' layout held ((h.grown growFn layout).toList ++ regions) p := by
  unfold alloc at ha
  by_cases hh : h.hardening
  · rw [if_pos hh] at ha
    unfold allocateHardened at ha
    cases hfull : fullLayout layout (hardenedSize layout) with
    | none =>
      have hg : h.grown growFn layout = none := by
        simp [grown, innerLayout, hh, hfull]
      simp only [hfull] at ha
      obtain ⟨rfl, rfl⟩ := ha
      rw [hg]
      exact ⟨rfl, fun _ => ⟨hi, rfl⟩, fun _ hp => absurd hp (by simp)⟩
    | some full =>
      have hg : h.grown growFn layout = grownRegion h.inner growFn full := by
        simp [grown, innerLayout, hh, hfull]
      rw [hg] at hgrow ⊢
      simp only [hfull] at ha
      obtain ⟨⟨q, inner⟩, hq, heq⟩ := map_eq_some_iff.mp ha
      have hspec := allocate_spec hi hgrow hq
      cases q with
      | none =>
        cases heq
        exact ⟨rfl, fun _ => ⟨hspec, rfl⟩, fun _ hp => absurd hp (by simp)⟩
      | some base =>
        cases heq
        obtain ⟨_, hsize, hinv⟩ := hspec
        refine ⟨rfl, fun hp => absurd hp (by simp), fun ptr hp => ?_⟩
        cases hp
        have hblock : blockOf h.hardening (base + USER_OFFSET) layout = ⟨base, reserved full⟩ := by
          simp [blockOf, userOffset, innerLayout, hh, hfull]
        rw [hblock]
        refine ⟨hinv, ⟨?_, ?_, fun _ => ?_⟩, fun b hb => ?_⟩
        · simp only [hh]
          exact Nat.le_add_left ..
        · rw [(Layout.fromSizeAlign_eq_some hfull).1] at hsize
          rw [hblock]
          simp only [stop, hardenedSize, USER_OFFSET] at hsize ⊢
          omega
        · simp
        · exact update_of_ne hb _ _
  · rw [if_neg hh] at ha
    have hg : h.grown growFn layout = grownRegion h.inner growFn layout := by
      simp [grown, innerLayout, hh]
    rw [hg] at hgrow ⊢
    obtain ⟨⟨q, inner⟩, hq, heq⟩ := map_eq_some_iff.mp ha
    cases heq
    have hspec := allocate_spec hi hgrow hq
    refine ⟨rfl, fun hp => ?_, fun ptr hp => ?_⟩
    · simp only at hp
      subst hp
      exact ⟨hspec, rfl⟩
    subst hp
    obtain ⟨_, hsize, hinv⟩ := hspec
    have hblock : blockOf h.hardening ptr layout = ⟨ptr, reserved layout⟩ := by
      simp [blockOf, userOffset, innerLayout, hh]
    rw [hblock]
    refine ⟨hinv, ⟨?_, ?_, fun hc => absurd hc hh⟩, fun _ _ => rfl⟩
    · simp only [hh]
      exact Nat.zero_le _
    · simp only [hblock, stop]
      omega

/-- **What `dealloc` does** with a block that was handed out: it never fails, and the block is free. -/
theorem dealloc_spec {ptr : Nat} (hs : Served h ptr layout)
    (hi : Inv h.inner.blocks (blockOf h.hardening ptr layout :: held) regions) :
    ∃ h', h.dealloc ptr layout = some h' ∧ h'.hardening = h.hardening ∧ h'.headers = h.headers ∧
      Inv h'.inner.blocks held regions := by
  -- a held block is not empty, so its layout has a working size
  have hlarge := (hi.heldShaped _ (List.mem_cons_self ..)).large
  have hsome : ∀ {l : Layout}, FREE_BLOCK_SIZE ≤ reserved l → ∃ sz, sizeAlign l = some sz := by
    intro l hl
    cases hsz : sizeAlign l with
    | some sz => exact ⟨sz, rfl⟩
    | none =>
      simp only [reserved, hsz, map_none, getD_none, FREE_BLOCK_SIZE] at hl
      omega
  by_cases hh : h.hardening
  · cases hfull : fullLayout layout (hardenedSize layout) with
    | none =>
      simp only [blockOf, innerLayout, hh, if_true, hfull, map_none, getD_none, FREE_BLOCK_SIZE] at hlarge
      omega
    | some full =>
      have hblock : blockOf h.hardening ptr layout = ⟨ptr - USER_OFFSET, reserved full⟩ := by
        simp [blockOf, userOffset, innerLayout, hh, hfull]
      rw [hblock] at hi hlarge
      obtain ⟨sz, hsz⟩ := hsome hlarge
      obtain ⟨inner, hd, hinv⟩ := deallocate_spec hsz hi
      have hoff := hs.offset
      have hne : ptr ≠ 0 := by
        simp only [userOffset, hh, if_true, USER_OFFSET, REDZONE_SIZE] at hoff
        omega
      refine ⟨{ h with inner := inner }, ?_, rfl, rfl, hinv⟩
      simp [dealloc, hh, deallocateHardened, if_neg hne, hs.header hh, hfull, hd]
  · have hblock : blockOf h.hardening ptr layout = ⟨ptr, reserved layout⟩ := by
      simp [blockOf, userOffset, innerLayout, hh]
    rw [hblock] at hi hlarge
    obtain ⟨sz, hsz⟩ := hsome hlarge
    obtain ⟨inner, hd, hinv⟩ := deallocate_spec hsz hi
    refine ⟨{ h with inner := inner }, ?_, rfl, rfl, hinv⟩
    simp [dealloc, hh, hd]

/-! ## The contract of the hardened heap -/

/-- What lies in a hardened block, from its base on: header, red zone, user data, red zone, canary. -/
def hardenedParts (base : Nat) (layout : Layout) : List Segment :=
  let user := base + USER_OFFSET
  [⟨base, HEADER_SIZE⟩, ⟨base + HEADER_SIZE, REDZONE_SIZE⟩, ⟨user, layout.size⟩,
    ⟨user + layout.size, REDZONE_SIZE⟩, ⟨user + layout.size + REDZONE_SIZE, CANARY_SIZE⟩]

theorem align_dvd_header (h : layout.align ≤ HEADER_ALIGN) : layout.align ∣ HEADER_ALIGN := by
  have hpow := layout.isPowerOfTwo
  generalize layout.align = a at h hpow ⊢
  unfold HEADER_ALIGN at h
  interval_cases a <;> revert hpow <;> decide

/-- The user data lies five times the alignment of a header behind the base, so that no stricter alignment divides
    the distance. -/
theorem align_dvd_offset : layout.align ∣ USER_OFFSET ↔ layout.align ≤ HEADER_ALIGN := by
  refine ⟨fun h => ?_, fun h => dvd_trans (align_dvd_header h) ⟨5, rfl⟩⟩
  have hpow := layout.isPowerOfTwo
  have hle : layout.align ≤ 40 := Nat.le_of_dvd (by decide) h
  generalize layout.align = a at h hpow hle ⊢
  interval_cases a <;> revert h hpow <;> decide

/-- **The hardened heap and the allocator contract.** A pointer that is handed out lies in a block of the inner
    allocator, which holds the header, the red zones, the user data and the canary; it is aligned if and only if the
    alignment asked for is at most that of a header. As long as the header is intact, freeing the pointer
    gives exactly that block back. -/
theorem hardened_contract {ptr : Nat} (hi : Inv h.inner.blocks held regions)
    (hgrow : ∀ full ∈ fullLayout layout (hardenedSize layout), ∀ r ∈ grownRegion h.inner growFn full,
      ValidRegion r ∧ ∀ r' ∈ regions, Apart r r') (ha : h.allocateHardened growFn layout = some (some ptr, h')) :
    ∃ base full, h.inner.allocate growFn full = some (some base, h'.inner) ∧
      (layout.align ∣ ptr ↔ layout.align ≤ HEADER_ALIGN) ∧ (⟨ptr, layout.size⟩ : Segment) ∈ hardenedParts base layout ∧
      (∀ part ∈ hardenedParts base layout, base ≤ part.start ∧ part.stop ≤ base + full.size) ∧
      ∀ later : KernelHeap, later.headers base = h'.headers base →
        later.deallocateHardened ptr layout =
          (later.inner.deallocate base full).map (fun inner => { later with inner }) := by
  unfold allocateHardened at ha
  cases hfull : fullLayout layout (hardenedSize layout) with
  | none =>
    simp only [hfull] at ha
    cases ha
  | some full =>
    simp only [hfull] at ha
    obtain ⟨⟨q, inner⟩, hq, heq⟩ := map_eq_some_iff.mp ha
    have hspec := allocate_spec hi (hgrow full hfull) hq
    cases q with
    | none => cases heq
    | some base =>
      cases heq
      obtain ⟨hsize, hal⟩ := Layout.fromSizeAlign_eq_some hfull
      refine ⟨base, full, hq, ?_, by simp [hardenedParts], ?_, fun later hheader => ?_⟩
      · -- the block has the alignment of the request, and then all hangs on the offset
        obtain ⟨hbase, -⟩ := hspec
        have hdvd : layout.align ∣ base := by
          rw [hal] at hbase
          rcases le_total layout.align HEADER_ALIGN with hle | hle
          · rw [max_eq_right hle] at hbase
            exact dvd_trans (align_dvd_header hle) hbase
          · rwa [max_eq_left hle] at hbase
        exact (Nat.dvd_add_right hdvd).trans align_dvd_offset
      · simp [hardenedParts, stop, hsize, hardenedSize, USER_OFFSET]
        omega
      · simp [deallocateHardened, hheader, hfull, USER_OFFSET, HEADER_SIZE]

theorem sixteen_powerOfTwo : 16 = 2 ^ Nat.log2 16 := by decide

/-- Sixteen bytes on a boundary of eight bytes, and on one of sixteen. -/
def words8 : Layout := ⟨16, 8, eight_powerOfTwo, small_fits (Nat.le_add_right 16 240) (Nat.le_add_right 8 8)⟩

def words16 : Layout := ⟨16, 16, sixteen_powerOfTwo, small_fits (Nat.le_add_right 16 240) (Nat.le_refl 16)⟩

/-- A hardened heap with one free page. -/
def onePage : KernelHeap := ⟨true, ⟨[⟨0x1000, 0x1000⟩], 0x1000, 0, false⟩, fun _ => none⟩

theorem onePage_inv : Inv onePage.inner.blocks [] [⟨0x1000, 0x1000⟩] :=
  Inv.nil.grow (by decide) (fun _ h => absurd h List.not_mem_nil) (by decide)

theorem hardened_contract_words : ∃ h', onePage.allocateHardened (fun _ => none) words8 = some (some 0x1028, h') ∧
    words8.align ∣ 0x1028 := by
  obtain ⟨⟨p, h'⟩, ha, rfl⟩ := map_eq_some_iff.mp
    (by decide : (onePage.allocateHardened (fun _ => none) words8).map Prod.fst = some (some 0x1028))
  refine ⟨h', ha, ?_⟩
  obtain ⟨base, full, -, halign, -⟩ := hardened_contract onePage_inv (by decide) ha
  exact halign.mpr (by decide)

/-- **An unaligned pointer**: the block is aligned to sixteen bytes, the pointer lies forty bytes behind its start. -/
theorem hardened_pointer_unaligned :
    (onePage.allocateHardened (fun _ => none) words16).map Prod.fst = some (some 0x1028) ∧ ¬words16.align ∣ 0x1028 := by
  decide

end KernelHeap
end OxideOs.Heap
