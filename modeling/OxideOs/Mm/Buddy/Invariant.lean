import OxideOs.Lib.Dll
import OxideOs.Lib.Dyadic
import OxideOs.Lib.Slots
import OxideOs.Mm.Buddy.Model

/-!
# `Mm.Buddy.Invariant` — what the free lists are, and the three list operations

`Inv s L held` ties the allocator state to its abstract content: `L` gives, for each slot (zone and order),
the frames linked in that free list; `held` are the blocks outside the lists (live ones, and those an
operation has in hand). Nothing is assumed about the bytes of a frame that is not the first frame of a
linked block.

`addFreeBlock`, `popFreeBlock` and `removeFromFreeList` each get one specification over `Inv`; the rest of the
development uses these and never looks into the list code again.
-/

namespace OxideOs.Buddy

open Function List State ZoneType Block

/-! ## Reading back updates -/

section Updates

variable (s : State) (z z' : ZoneType) (o o' a f : Nat) (l : FreeListHead) (b : FreeBlock)

@[simp] theorem setList_mem : (s.setList z o l).mem = s.mem := rfl
@[simp] theorem setList_base : ((s.setList z o l).zones z').base = (s.zones z').base := by
  unfold setList
  simp only [update_apply]
  split
  · rename_i h; rw [h]
  · rfl

@[simp] theorem setList_size : ((s.setList z o l).zones z').size = (s.zones z').size := by
  unfold setList
  simp only [update_apply]
  split
  · rename_i h; rw [h]
  · rfl

theorem setList_list : (s.setList z o l).list z' o' = if z' = z ∧ o' = o then l else s.list z' o' := by
  unfold setList list
  by_cases hz : z' = z
  · subst hz
    simp [update_apply]
  · simp [hz]

@[simp] theorem setList_list_self : (s.setList z o l).list z o = l := by
  simp [setList_list]

theorem frame_addr : 4096 * f / 4096 = f := Nat.mul_div_cancel_left f (by decide)

@[simp] theorem header_frame : s.header (4096 * f) = s.mem f := by
  unfold header
  rw [frame_addr]

theorem setHeader_mem (x : Nat) : (s.setHeader (4096 * f) b).mem x = if x = f then b else s.mem x := by
  unfold setHeader
  rw [frame_addr]
  simp [update_apply]

end Updates

theorem shlFrame_of_lt {f : Nat} (h : 4096 * f < 2 ^ 64) : shlFrame f = 4096 * f := Nat.mod_eq_of_lt h

/-- Whatever number is shifted, the result is a page address. -/
theorem shlFrame_eq (n : Nat) : shlFrame n = 4096 * (n % 2 ^ 52) := by
  unfold shlFrame
  omega

theorem valid_iff {b : FreeBlock} {o : Nat} : b.valid o = true ↔ b.magic = FREE_BLOCK_MAGIC ∧ b.order = o := by
  simp [FreeBlock.valid]

/-! ## Slots and blocks -/

/-- A free list: its zone and its order. -/
abbrev Slot := ZoneType × Nat

def slots : List Slot :=
  [ZoneType.dma, ZoneType.normal, ZoneType.high].flatMap
    (fun z => (range (MAX_ORDER + 1)).map (fun o => (z, o)))

variable {L : Slot → List Nat} {i : Slot} {s' : State}

theorem slots_nodup : slots.Nodup := by decide

theorem mem_slots {z : ZoneType} {o : Nat} : (z, o) ∈ slots ↔ o ≤ MAX_ORDER := by
  unfold slots
  cases z <;> simp

/-- The blocks linked in the lists `L`. -/
def freeBlocks (L : Slot → List Nat) : List Block := slots.flatMap (fun i => (L i).map (fun f => ⟨f, i.2⟩))

theorem mem_freeBlocks {b : Block} : b ∈ freeBlocks L ↔ ∃ z, b.order ≤ MAX_ORDER ∧ b.base ∈ L (z, b.order) := by
  unfold freeBlocks
  simp only [mem_flatMap, mem_map]
  constructor
  · rintro ⟨⟨z, o⟩, hi, f, hf, rfl⟩
    exact ⟨z, mem_slots.mp hi, hf⟩
  · rintro ⟨z, ho, hf⟩
    exact ⟨(z, b.order), mem_slots.mpr ho, b.base, hf, rfl⟩

/-- Linking one more frame adds one block. -/
theorem freeBlocks_cons (hi : i ∈ slots) {f : Nat} {l : List Nat} (hp : l.Perm (f :: L i)) :
    (freeBlocks (update L i l)).Perm (⟨f, i.2⟩ :: freeBlocks L) := by
  refine Slots.flatMap_perm_cons slots_nodup hi (fun j hj => ?_) ?_
  · rw [update_of_ne hj]
  · rw [update_self]
    exact hp.map _

/-- Taking one frame out removes one block. -/
theorem freeBlocks_uncons (hi : i ∈ slots) {f : Nat} {l : List Nat} (hp : (L i).Perm (f :: l)) :
    (freeBlocks L).Perm (⟨f, i.2⟩ :: freeBlocks (update L i l)) := by
  refine Slots.flatMap_perm_cons slots_nodup hi (fun j hj => ?_) ?_
  · rw [update_of_ne hj]
  · rw [update_self]
    exact hp.map _

/-- A zone lies within its type's bounds. -/
structure ZoneOk (s : State) (z : ZoneType) : Prop where
  upper : (s.zones z).base + (s.zones z).size ≤ z.stop
  lower : (s.zones z).size ≠ 0 → z.start ≤ (s.zones z).base

/-- The block is aligned, lies inside zone `z`, and does not start at the null frame. -/
structure Placed (s : State) (z : ZoneType) (b : Block) : Prop where
  order : b.order ≤ MAX_ORDER
  aligned : b.Aligned
  ne_zero : b.base ≠ 0
  lower : (s.zones z).base ≤ 4096 * b.base
  upper : 4096 * (b.base + 2 ^ b.order) ≤ (s.zones z).base + (s.zones z).size

/-- The zones of `s'` have the ranges they have in `s`. -/
def SameRange (s s' : State) : Prop := ∀ z, (s'.zones z).base = (s.zones z).base ∧ (s'.zones z).size = (s.zones z).size

theorem SameRange.placed {s : State} (h : SameRange s s') {z : ZoneType} {b : Block}
    (hb : Placed s z b) : Placed s' z b := by
  obtain ⟨hb1, hs1⟩ := h z
  exact ⟨hb.order, hb.aligned, hb.ne_zero, by rw [hb1]; exact hb.lower, by rw [hb1, hs1]; exact hb.upper⟩

theorem SameRange.zoneOk {s : State} (h : SameRange s s') {z : ZoneType} (hz : ZoneOk s z) : ZoneOk s' z := by
  obtain ⟨hb1, hs1⟩ := h z
  exact ⟨by rw [hb1, hs1]; exact hz.upper, by rw [hb1, hs1]; exact hz.lower⟩

theorem SameRange.trans {s s'' : State} (h : SameRange s s') (h' : SameRange s' s'') : SameRange s s'' :=
  fun z => ⟨(h' z).1.trans (h z).1, (h' z).2.trans (h z).2⟩

theorem SameRange.blockInZone {s : State} (h : SameRange s s') (z : ZoneType) (a o : Nat) :
    blockInZone (s'.zones z) a o = blockInZone (s.zones z) a o := by
  unfold Buddy.blockInZone
  rw [(h z).1, (h z).2]

theorem zone_stop_lt (z : ZoneType) : z.stop < 2 ^ 64 := by
  cases z <;> decide

namespace ZoneOk

variable {s : State} {z : ZoneType}

section

variable (h : ZoneOk s z)
include h

theorem blockInZone_iff {f o : Nat} :
    blockInZone (s.zones z) (4096 * f) o = true ↔
      (s.zones z).base ≤ 4096 * f ∧ 4096 * (f + 2 ^ o) ≤ (s.zones z).base + (s.zones z).size := by
  have h1 := h.upper
  have h2 := zone_stop_lt z
  simp only [blockInZone, Bool.and_eq_true, decide_eq_true_eq]
  omega

theorem blockInZone_of_placed {b : Block} (hb : Placed s z b) :
    blockInZone (s.zones z) (4096 * b.base) b.order = true :=
  h.blockInZone_iff.mpr ⟨hb.lower, hb.upper⟩

theorem base_lt {b : Block} (hb : Placed s z b) : 4096 * b.base < 2 ^ 64 := by
  have h1 := h.upper
  have h2 := zone_stop_lt z
  have h3 := hb.upper
  have h4 := Nat.two_pow_pos b.order
  omega

/-- A block inside a zone is found in the zone its address belongs to. -/
theorem forAddress_eq {f : Nat} (hlo : (s.zones z).base ≤ 4096 * f)
    (hup : 4096 * (f + 1) ≤ (s.zones z).base + (s.zones z).size) : forAddress (4096 * f) = z := by
  have h1 := h.upper
  have hlow := h.lower
  have hd : DMA_ZONE_END = 16777216 := rfl
  have hn : NORMAL_ZONE_END = 4294967296 := rfl
  cases z with
  | dma =>
    simp only [stop] at h1
    exact if_pos (by omega)
  | normal =>
    simp only [stop, start] at h1 hlow
    have hge : ¬ 4096 * f < DMA_ZONE_END := by omega
    exact (if_neg hge).trans (if_pos (by omega))
  | high =>
    simp only [start] at hlow
    have hge : ¬ 4096 * f < DMA_ZONE_END := by omega
    exact (if_neg hge).trans (if_neg (by omega))

theorem forAddress_placed {b : Block} (hb : Placed s z b) : forAddress (4096 * b.base) = z := by
  have h3 := hb.upper
  have h4 := Nat.two_pow_pos b.order
  exact h.forAddress_eq hb.lower (by omega)

end

end ZoneOk

/-! ## The invariant -/

/-- Forward and backward links as the headers in memory have them. -/
def nextOf (s : State) (f : Nat) : Nat := (s.mem f).next
def prevOf (s : State) (f : Nat) : Nat := (s.mem f).prev

/-- **The allocator invariant.** `L` are the frames linked in each free list and `held` the blocks outside
    the lists. -/
structure Inv (s : State) (L : Slot → List Nat) (held : List Block) : Prop where
  zone : ∀ z, ZoneOk s z
  chain : ∀ i ∈ slots, Dll (nextOf s) (prevOf s) 0 0 (s.list i.1 i.2).head (L i)
  count : ∀ i ∈ slots, (s.list i.1 i.2).count = (L i).length
  valid : ∀ i ∈ slots, ∀ f ∈ L i, (s.mem f).valid i.2 = true
  placed : ∀ i ∈ slots, ∀ f ∈ L i, Placed s i.1 ⟨f, i.2⟩
  heldPlaced : ∀ b ∈ held, ∃ z, Placed s z b
  apart : (freeBlocks L ++ held).Pairwise Apart

/-- No frame of the list `L i` is `f`, for any slot `i`. -/
def Unlinked (L : Slot → List Nat) (f : Nat) : Prop := ∀ i ∈ slots, f ∉ L i

namespace Inv

variable {s s' : State} {L : Slot → List Nat} {held : List Block} {i j : Slot} {f x : Nat} {b : Block}

theorem mem_free (hi : i ∈ slots) (hf : f ∈ L i) : (⟨f, i.2⟩ : Block) ∈ freeBlocks L :=
  mem_freeBlocks.mpr ⟨i.1, mem_slots.mp hi, hf⟩

theorem nodup (h : Inv s L held) (hi : i ∈ slots) : (L i).Nodup := by
  have hp := (pairwise_append.mp h.apart).1
  have hi' := (pairwise_flatMap.mp hp).1 i hi
  rw [pairwise_map] at hi'
  refine hi'.imp ?_
  rintro a b hab rfl
  exact apart_iff.mp hab a base_mem base_mem

/-- A frame is linked in one list only: its header names the order and its address the zone. -/
theorem slot_unique (h : Inv s L held) (hi : i ∈ slots) (hj : j ∈ slots) (hfi : f ∈ L i) (hfj : f ∈ L j) : i = j := by
  have h1 := (valid_iff.mp (h.valid i hi f hfi)).2
  have h2 := (valid_iff.mp (h.valid j hj f hfj)).2
  have h3 := (h.zone i.1).forAddress_placed (h.placed i hi f hfi)
  have h4 := (h.zone j.1).forAddress_placed (h.placed j hj f hfj)
  exact Prod.ext (h3.symm.trans h4) (h1.symm.trans h2)

/-- Cells of held blocks are not linked. -/
theorem unlinked_of_held (h : Inv s L held) (hb : b ∈ held) (hx : x ∈ b) : Unlinked L x := by
  intro i hi hxi
  have hap := (pairwise_append.mp h.apart).2.2 _ (mem_free hi hxi) b hb
  exact apart_iff.mp hap x base_mem hx

/-- Only the first frame of a linked block is linked. -/
theorem unlinked_inner (h : Inv s L held) (hi : i ∈ slots) (hf : f ∈ L i)
    (hx : x ∈ (⟨f, i.2⟩ : Block)) (hxf : x ≠ f) : Unlinked L x := by
  intro j hj hxj
  have hp := (pairwise_append.mp h.apart).1
  have hne : (⟨x, j.2⟩ : Block) ≠ ⟨f, i.2⟩ := fun he => hxf (congrArg base he)
  have hap := hp.forall (mem_free hj hxj) (mem_free hi hf) hne
  exact apart_iff.mp hap x base_mem hx

theorem ne_of_unlinked (hu : Unlinked L x) (hi : i ∈ slots) (hf : f ∈ L i) : f ≠ x := fun he => hu i hi (he ▸ hf)

section

variable (h : Inv s L held)
include h

theorem linked_lt (hi : i ∈ slots) (hf : f ∈ L i) : 4096 * f < 2 ^ 64 := (h.zone i.1).base_lt (h.placed i hi f hf)

theorem linked_inZone (hi : i ∈ slots) (hf : f ∈ L i) : blockInZone (s.zones i.1) (4096 * f) i.2 = true :=
  (h.zone i.1).blockInZone_of_placed (h.placed i hi f hf)

/-- A linked frame follows only linked frames, so an unlinked one is reached from none. -/
theorem unlinked_pred {p : Nat} (hz : forAddress (4096 * f) = i.1)
    (hfi : f ∉ L i) (hf0 : f ≠ 0) (hp : (s.mem p).valid i.2 = true) (hn : (s.mem p).next = f) : Unlinked L p := by
  intro j hj hpj
  have ho : j.2 = i.2 := (valid_iff.mp (h.valid j hj p hpj)).2.symm.trans (valid_iff.mp hp).2
  rcases (h.chain j hj).next_mem hpj with h0 | hmem
  · exact hf0 (hn.symm.trans h0)
  have hfj : f ∈ L j := by
    have : nextOf s p = f := hn
    rwa [this] at hmem
  have hz' := (h.zone j.1).forAddress_placed (h.placed j hj f hfj)
  have : j = i := Prod.ext (hz'.symm.trans hz) ho
  exact hfi (this ▸ hfj)

/-- **The frame rule.** Writes to unlinked headers keep the invariant. -/
theorem of_mem_eq (hr : SameRange s s') (hl : ∀ z o, s'.list z o = s.list z o)
    (hm : ∀ i ∈ slots, ∀ f ∈ L i, s'.mem f = s.mem f) : Inv s' L held where
  zone z := hr.zoneOk (h.zone z)
  chain i hi := by
    rw [hl]
    refine (h.chain i hi).frame (h.nodup hi) (fun y hy => ?_) (fun y hy => ?_)
    · simp [nextOf, hm i hi y hy]
    · simp [prevOf, hm i hi y hy]
  count i hi := by rw [hl]; exact h.count i hi
  valid i hi f hf := by rw [hm i hi f hf]; exact h.valid i hi f hf
  placed i hi f hf := hr.placed (h.placed i hi f hf)
  heldPlaced b hb := (h.heldPlaced b hb).imp fun _ => hr.placed
  apart := h.apart

theorem write (hu : Unlinked L x) (b : FreeBlock) : Inv (s.setHeader (4096 * x) b) L held := by
  refine h.of_mem_eq (fun _ => ⟨rfl, rfl⟩) (fun _ _ => rfl) (fun i hi f hf => ?_)
  rw [setHeader_mem, if_neg (ne_of_unlinked hu hi hf)]

/-- **One slot changes.** The other lists survive when their headers are left alone. -/
theorem of_slot {l : List Nat} {held' : List Block} (hi : i ∈ slots)
    (hr : SameRange s s') (hlist : ∀ j, j ≠ i → s'.list j.1 j.2 = s.list j.1 j.2)
    (hmem : ∀ j ∈ slots, j ≠ i → ∀ f ∈ L j, s'.mem f = s.mem f)
    (hchain : Dll (nextOf s') (prevOf s') 0 0 (s'.list i.1 i.2).head l) (hcount : (s'.list i.1 i.2).count = l.length)
    (hvalid : ∀ f ∈ l, (s'.mem f).valid i.2 = true) (hplaced : ∀ f ∈ l, Placed s' i.1 ⟨f, i.2⟩)
    (hheld : ∀ b ∈ held', ∃ z, Placed s' z b)
    (hapart : (freeBlocks (update L i l) ++ held').Pairwise Apart) :
    Inv s' (update L i l) held' where
  zone z := hr.zoneOk (h.zone z)
  chain j hj := by
    by_cases hji : j = i
    · subst hji; rwa [update_self]
    rw [update_of_ne hji, hlist j hji]
    refine (h.chain j hj).frame (h.nodup hj) (fun y hy => ?_) (fun y hy => ?_)
    · simp [nextOf, hmem j hj hji y hy]
    · simp [prevOf, hmem j hj hji y hy]
  count j hj := by
    by_cases hji : j = i
    · subst hji; rwa [update_self]
    · rw [update_of_ne hji, hlist j hji]; exact h.count j hj
  valid j hj f hf := by
    by_cases hji : j = i
    · subst hji; rw [update_self] at hf; exact hvalid f hf
    rw [update_of_ne hji] at hf
    rw [hmem j hj hji f hf]
    exact h.valid j hj f hf
  placed j hj f hf := by
    by_cases hji : j = i
    · subst hji; rw [update_self] at hf; exact hplaced f hf
    · rw [update_of_ne hji] at hf
      exact hr.placed (h.placed j hj f hf)
  heldPlaced := hheld
  apart := hapart

/-- Held blocks may be dropped, and rearranged. -/
theorem drop {held' : List Block} (hs : held'.Sublist held) : Inv s L held' :=
  { h with
    heldPlaced := fun b hb => h.heldPlaced b (hs.subset hb)
    apart := h.apart.sublist (Sublist.append_left hs _) }

theorem perm {held' : List Block} (hp : held'.Perm held) : Inv s L held' :=
  { h with
    heldPlaced := fun b hb => h.heldPlaced b (hp.subset hb)
    apart := (Perm.pairwise_iff (fun hab => hab.symm) (hp.append_left _)).mpr h.apart }

end

end Inv

end OxideOs.Buddy
