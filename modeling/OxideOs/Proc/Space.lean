import OxideOs.Fault
import OxideOs.Proc.Sim
import OxideOs.Proc.Walk

/-!
# `Proc.Space` — address spaces in the ledger

An address space contributes its leaf entries and the frames of its tables to the ledger. `Carried` says of an
operation on an address space what the rest of the development needs: seen from any frame it is a sequence of
allowed events, whoever else has frames, and the space and the store keep their form (`SpaceOk`, `StoreOk`).
-/

namespace OxideOs.Vm

open Pagedb Paging PageTableFlags Ledger Multiset Tables

/-! ## Form -/

/-- The form of an address space: user memory has no huge pages, kernel pages are not COW, there is a PML4,
    and every recorded frame is that of a table. -/
structure SpaceOk (u : UserAddressSpace) : Prop where
  noHuge : ∀ s : Slot, s.isPt = false → s.first.val < 256 → (u.tables s).isPresent = true →
    (u.tables s).isHuge = false
  kernelHalf : ∀ s : Slot, s.isPt = true → 256 ≤ s.first.val → (u.tables s).isCow = false
  root : u.pml4Phys ≠ 0
  recorded : ∀ f ∈ u.allocatedFrames, f ∈ u.tables.tableFrames

/-- The form of the store: nothing is on swap, and the frame at address 0 is not free. -/
structure StoreOk (st : FrameStore) : Prop where
  swap : st.swapCache = []
  zero : (0 : Frame) ∉ st.free

namespace UserAddressSpace

/-- The leaf entries of an address space. -/
def leaves (u : UserAddressSpace) : Multiset PageTableEntry := u.tables.leaves

theorem mem_leaves_iff {u : UserAddressSpace} {e : PageTableEntry} : e ∈ u.leaves ↔ e ∈ u.tables.leafPtes := mem_coe

/-- The frames of its tables. -/
def tabs (u : UserAddressSpace) : Multiset Frame := u.pml4Phys ::ₘ ↑u.tables.tableFrames

end UserAddressSpace

variable {u u' u'' : UserAddressSpace} {st st' st'' : FrameStore} {s : Slot} {f : Frame} {fl : PageTableFlags}
  {e : PageTableEntry} {virt : VirtAddr}

/-- Other entries in the page tables of the user half. -/
theorem SpaceOk.ofPages {t : Tables} (h : SpaceOk u)
    (ht : ∀ s : Slot, s.isPt = false ∨ 256 ≤ s.first.val → t s = u.tables s) : SpaceOk { u with tables := t } where
  noHuge := by
    intro s hs
    show s.first.val < 256 → (t s).isPresent = true → (t s).isHuge = false
    rw [ht s (.inl hs)]
    exact h.noHuge s hs
  kernelHalf := by
    intro s hs hu
    show (t s).isCow = false
    rw [ht s (.inr hu)]
    exact h.kernelHalf s hs hu
  root := h.root
  recorded := by
    intro f hf
    rw [tableFrames_congr (fun s hs => ht s (.inl hs))]
    exact h.recorded f hf

/-- Overwriting an entry of a page table in the user half. -/
theorem SpaceOk.setEntry (h : SpaceOk u) (hs : s.isPt = true) (hu : s.first.val < 256) (e : PageTableEntry) :
    SpaceOk (u.setEntry s e) := by
  refine h.ofPages (fun r hr => Function.update_of_ne ?_ _ _)
  rintro rfl
  rcases hr with hr | hr
  · rw [hs] at hr
    cases hr
  · omega

theorem first_of_parent {r : Slot} (h : r.parent = some s) : r.first = s.first := by
  cases r with
  | pml4 i => cases h
  | pdpt i j | pd i j k | pt i j k l => obtain rfl := Option.some.inj h; rfl

/-- A table linked in, and perhaps recorded. -/
theorem SpaceOk.link (h : SpaceOk u) (hv : u.tables.Vacant s) (hpres : (PageTableEntry.set f.addr fl).isPresent = true)
    (hhuge : (PageTableEntry.set f.addr fl).isHuge = false) (frames : List Frame)
    (hrec : ∀ x ∈ frames, x = f ∨ x ∈ u.allocatedFrames) :
    SpaceOk { u with tables := u.tables.link s f fl, allocatedFrames := frames } where
  noHuge := by
    intro r hr hru
    show (u.tables.link s f fl r).isPresent = true → (u.tables.link s f fl r).isHuge = false
    by_cases hrs : r = s
    · rw [hrs, link_self]
      exact fun _ => hhuge
    by_cases hp : r.parent = some s
    · rw [link_below hp]
      decide
    · rw [link_other hrs hp]
      exact h.noHuge r hr hru
  kernelHalf := by
    intro r hr hru
    show (u.tables.link s f fl r).isCow = false
    have hrs : r ≠ s := by
      rintro rfl
      have := hv.user
      omega
    have hp : r.parent ≠ some s := by
      intro hp
      have := hv.user
      rw [first_of_parent hp] at hru
      omega
    rw [link_other hrs hp]
    exact h.kernelHalf r hr hru
  root := h.root
  recorded := by
    intro x hx
    have hmem : x ∈ ((u.tables.link s f fl).tableFrames : Multiset Frame) := by
      rw [tableFrames_link hv hpres hhuge, mem_cons]
      rcases hrec x hx with rfl | hin
      · exact .inl rfl
      · exact .inr (h.recorded x hin)
    exact hmem

/-! ## Addresses and slots -/

theorem index_pml4_lt (h : virt < USER_END) : (PageLevel.pml4.index virt).val < 256 := by
  have hlt : virt.toNat < 2 ^ 47 := h
  show ((virt >>> (12 + (4 - 1) * 9)) &&& 0x1FF#64).toNat < 256
  rw [BitVec.toNat_and, BitVec.toNat_ushiftRight, Nat.shiftRight_eq_div_pow]
  refine lt_of_le_of_lt Nat.and_le_left ?_
  have : virt.toNat / 2 ^ (12 + (4 - 1) * 9) < 2 ^ 8 := Nat.div_lt_of_lt_mul (by omega)
  exact this

/-- The three tables above a page, from the top. -/
theorem visited_ofAddr_pt (hu : (PageLevel.pml4.index virt).val < 256)
    (h4 : (u.tables (.ofAddr virt .pml4)).isPresent = true)
    (h3 : u.tables.leads (.ofAddr virt .pdpt) = true) (h2 : u.tables.leads (.ofAddr virt .pd) = true) :
    u.tables.Visited (.ofAddr virt .pt) := ⟨⟨⟨hu, h4⟩, h3⟩, h2⟩

theorem visited_of_reaches (hu : virt < USER_END) (h : u.tables.reaches virt = true) :
    u.tables.Visited (.ofAddr virt .pt) := by
  simp only [reaches, Bool.and_eq_true] at h
  exact visited_ofAddr_pt (index_pml4_lt hu) (leads_iff.mp h.1.1).1 h.1.2 h.2

/-- A frame taken last, in no order. -/
theorem coe_append_singleton (frames : List Frame) (f : Frame) :
    (↑(frames ++ [f]) : Multiset Frame) = f ::ₘ ↑frames := by
  rw [← coe_add, coe_singleton, add_comm, singleton_add]

/-! ## Carried operations -/

variable {A : Frame → FrameView → Event → Prop} {P : Multiset PageTableEntry} {T H S : Multiset Frame}

/-- **What an operation on an address space does**, beside the entries, tables and frames of others. -/
structure Carried (A : Frame → FrameView → Event → Prop) (P : Multiset PageTableEntry) (T H S : Multiset Frame)
    (u : UserAddressSpace) (st : FrameStore) (u' : UserAddressSpace) (st' : FrameStore) : Prop where
  sim : Sim A ⟨u.leaves + P, u.tabs + T, H, S, st⟩ ⟨u'.leaves + P, u'.tabs + T, H, S, st'⟩
  space : SpaceOk u'
  store : StoreOk st'

theorem Carried.refl (hu : SpaceOk u) (hst : StoreOk st) : Carried A P T H S u st u st := ⟨Sim.refl _, hu, hst⟩

theorem Carried.trans (h : Carried A P T H S u st u' st') (h' : Carried A P T H S u' st' u'' st'') :
    Carried A P T H S u st u'' st'' :=
  ⟨h.sim.trans h'.sim, h'.space, h'.store⟩

/-! ## The store keeps its form -/

section

variable (h : StoreOk st)
include h

theorem StoreOk.allocated {a : Option Frame} (ha : st.Allocated a st') : StoreOk st' := by
  cases ha with
  | refused answers => exact ⟨h.swap, h.zero⟩
  | frame _ answers _ => exact ⟨h.swap, fun h0 => h.zero (List.mem_of_mem_erase h0)⟩

theorem StoreOk.ne_zero (ha : st.Allocated (some f) st') : f ≠ 0 := by
  cases ha with
  | frame _ answers hf =>
    rintro rfl
    exact h.zero hf

theorem StoreOk.freeFrame (f : Frame) : StoreOk (st.freeFrame f) := by
  unfold FrameStore.freeFrame
  split
  · exact h
  refine ⟨h.swap, ?_⟩
  split
  · exact h.zero
  rename_i hf
  intro h0
  rcases List.mem_cons.mp h0 with h0 | h0
  · exact hf h0.symm
  · exact h.zero h0

theorem StoreOk.freeAll (frames : List Frame) : StoreOk (UserAddressSpace.freeAll st frames) := by
  exact List.foldlRecOn frames _ h (fun _ hst f _ => hst.freeFrame f)

theorem StoreOk.releaseFrame (f : Frame) : StoreOk (UserAddressSpace.releaseFrame st f) := by
  unfold UserAddressSpace.releaseFrame FrameStore.decrement
  cases st.counts f with
  | none => exact h.freeFrame f
  | some c =>
    split
    next heq =>
      obtain ⟨-, rfl⟩ := Prod.mk.inj heq
      refine freeFrame ?_ f
      exact ⟨h.swap, h.zero⟩
    next heq =>
      cases heq
      exact ⟨h.swap, h.zero⟩

theorem StoreOk.increment (hi : st.increment f = some st') : StoreOk st' := by
  simp only [FrameStore.increment] at hi
  split at hi
  · cases hi
  · cases hi
    exact ⟨h.swap, h.zero⟩

theorem StoreOk.tryClaimExclusive {b : Bool} (hc : st.tryClaimExclusive f = (b, st')) : StoreOk st' := by
  unfold FrameStore.tryClaimExclusive at hc
  split at hc
  · cases hc
    exact h
  split at hc
  all_goals
    cases hc
    exact ⟨h.swap, h.zero⟩

end

end OxideOs.Vm
