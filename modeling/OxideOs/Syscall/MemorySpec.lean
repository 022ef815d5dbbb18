import OxideOs.Proc.Mapping

/-!
# `Syscall.MemorySpec` — memory system calls in the lives of frames
-/

namespace OxideOs.Vm

open Option Pagedb Paging PageTableFlags Ledger UserAddressSpace Vma Word Bool Tables PageTableEntry Multiset

variable {u u' : UserAddressSpace} {st st' : FrameStore} {f : Frame} {virt : VirtAddr} {m m' : ProcessMeta}
variable {A : Frame → FrameView → Event → Prop} {P : Multiset PageTableEntry} {T H S : Multiset Frame}

/-! ## Areas -/

variable {addr length : Nat} {r : Int}

/-- The areas have no part in the form of the tables. -/
theorem SpaceOk.withVmas (hu : SpaceOk u) (vmas : VmAreaList) : SpaceOk { u with vmas } :=
  { hu with }

theorem Carried.withVmas (h : Carried A P T H S u st u' st') (vmas : VmAreaList) :
    Carried A P T H S u st { u' with vmas } st' :=
  ⟨h.sim, h.space.withVmas vmas, h.store⟩

/-- Only the areas and the next address differ. -/
def SameTables (m m' : ProcessMeta) : Prop := ∃ vmas, m'.addressSpace = { m.addressSpace with vmas }

theorem SameTables.refl (m : ProcessMeta) : SameTables m m := ⟨m.addressSpace.vmas, rfl⟩

theorem SameTables.carried (h : SameTables m m') (hu : SpaceOk m.addressSpace) (hst : StoreOk st) :
    Carried A P T H S m.addressSpace st m'.addressSpace st := by
  obtain ⟨vmas, hm⟩ := h
  rw [hm]
  exact (Carried.refl hu hst).withVmas vmas

/-! ## `munmap` and `madvise` -/

section

variable (hu : SpaceOk m.addressSpace)
include hu

section

variable (hst : StoreOk st) (hok : ∀ f v w, v.pinned = 0 → A f v (.unmap w))
  (hS : ∀ len, roundUp length = some len →
    PagesAll (fun f => f ∉ S) m.addressSpace.tables (len / 0x1000) (BitVec.ofNat 64 addr))
include hst hok hS

/-- **`sys_munmap`** of pages in frames of no segment. -/
theorem sysMunmap_spec (h : sysMunmap m st addr length = some (r, m', st')) :
    Carried A P T H S m.addressSpace st m'.addressSpace st' := by
  unfold sysMunmap at h
  iterate 2
    split at h
    · cases h
      exact .refl hu hst
  obtain ⟨len, hlen, h⟩ := bind_eq_some_iff.mp h
  obtain ⟨stop, -, h⟩ := map_eq_some_iff.mp h
  obtain ⟨-, hm⟩ := Prod.mk.inj h
  cases hm
  have hspec := unmapPages_spec (P := P) (T := T) (H := H) (u := (m.removeVmaRange addr stop).addressSpace)
    (hu.withVmas _) hst hok (hS len hlen)
  exact ⟨hspec.sim, hspec.space, hspec.store⟩

/-- **`sys_madvise`** on pages in frames of no segment. -/
theorem sysMadvise_spec {advice : Int} (h : sysMadvise m st addr length advice = some (r, m', st')) :
    Carried A P T H S m.addressSpace st m'.addressSpace st' := by
  unfold sysMadvise at h
  iterate 3
    split at h
    · cases h
      exact .refl hu hst
  obtain ⟨len, hlen, h⟩ := bind_eq_some_iff.mp h
  obtain ⟨stop, -, h⟩ := map_eq_some_iff.mp h
  obtain ⟨-, hm⟩ := Prod.mk.inj h
  cases hm
  exact unmapPages_spec hu hst hok (hS len hlen)

end

/-! ## `mprotect` -/

/-- **`sys_mprotect`.** -/
theorem sysMprotect_spec {D : Frame → Prop} {prot : BitVec 32} (hst : StoreOk st)
    (hnone : (protToMemoryFlags prot).isNone = true → ∀ f v w, A f v (.forget w))
    (hdemote : ∀ f v w, A f v (.protect w false))
    (hgrant : has prot PROT_WRITE = true → ∀ f v w, (D f → v.maps ≤ 1) → A f v (.protect w true))
    (hsole : has prot PROT_WRITE = true → ∀ len, roundUp length = some len →
      PagesAll (fun f => D f → Sole (m.addressSpace.leaves + P) f) m.addressSpace.tables (len / 0x1000)
        (BitVec.ofNat 64 addr)) (h : sysMprotect m addr length prot = some (r, m')) :
    Carried A P T H S m.addressSpace st m'.addressSpace st := by
  unfold sysMprotect at h
  iterate 3
    split at h
    · cases h
      exact .refl hu hst
  obtain ⟨len, hlen, h⟩ := bind_eq_some_iff.mp h
  obtain ⟨stop, -, h⟩ := map_eq_some_iff.mp h
  cases h
  refine Carried.withVmas ?_ _
  exact protectPages_spec hnone hdemote hgrant hu hst (fun hw => hsole hw len hlen)

end

/-! ## `mmap` -/

/-- In the user half a page translates to the frame of its entry. -/
theorem translate_eq_some (hu : SpaceOk u) (hvirt : virt < USER_END) (h : translate u.tables virt = some f) :
    u.tables.reaches virt = true ∧ (u.tables (.ofAddr virt .pt)).isPresent = true ∧
      frameOf (u.tables (.ofAddr virt .pt)) = f := by
  have huser := index_pml4_lt hvirt
  have hpdpt := hu.noHuge (.ofAddr virt .pdpt) rfl huser
  have hpd := hu.noHuge (.ofAddr virt .pd) rfl huser
  unfold translate at h
  split at h
  · cases h
  rename_i h4
  split at h
  · cases h
  rename_i h3
  simp only [not_eq_true', not_eq_false] at h4 h3
  rw [hpdpt h3, if_neg Bool.false_ne_true] at h
  split at h
  · cases h
  rename_i h2
  simp only [not_eq_true', not_eq_false] at h2
  rw [hpd h2, if_neg Bool.false_ne_true] at h
  split at h
  · cases h
  rename_i h1
  simp only [not_eq_true', not_eq_false] at h1
  refine ⟨?_, h1, some.inj h⟩
  unfold reaches
  rw [h4, leads_iff.mpr ⟨h3, hpdpt h3⟩, leads_iff.mpr ⟨h2, hpd h2⟩]
  rfl

theorem isPresent_tagCow {entry : PageTableEntry} (h : entry.isPresent = true) :
    ((entry.removeFlags WRITABLE).addFlags COW).isPresent = true := by
  refine isPresent_addFlags _ _ ?_
  rw [isPresent_removeFlags _ _ h]
  decide

theorem isWritable_tagCow (entry : PageTableEntry) :
    ((entry.removeFlags WRITABLE).addFlags COW).isWritable = false := by
  rw [isWritable_eq, getLsbD_addFlags,
    getLsbD_removeFlags _ _ (by decide), show WRITABLE.bits.getLsbD 1 = true by decide,
    show COW.bits.getLsbD 1 = false by decide]
  simp

/-- **The last loop of `sys_mmap`** counts every page of a private file mapping twice. -/
theorem cowPages_spec {n : Nat} (hu : SpaceOk u) (hst : StoreOk st) (hpages : UserPages n virt)
    (hok : ∀ f v w, v.pinned = 0 → A f v (.overcount w)) (h : cowPages n virt u st = some (u', st')) :
    Carried A P T H 0 u st u' st' := by
  induction n generalizing virt u st with
  | zero =>
    obtain ⟨rfl, rfl⟩ := by simpa using h
    exact .refl hu hst
  | succ n ih =>
    unfold cowPages at h
    split at h
    · exact ih hu hst hpages.2 h
    rename_i f htr
    obtain ⟨st1, hinc, hrest⟩ := bind_eq_some_iff.mp h
    obtain ⟨hr, hp, rfl⟩ := translate_eq_some hu hpages.1 htr
    have hv := visited_of_reaches hpages.1 hr
    have htag : tagCow u virt = u.setEntry (.ofAddr virt .pt)
        (((u.tables (.ofAddr virt .pt)).removeFlags WRITABLE).addFlags COW) := by
      simp [tagCow, hr, hp]
    have hc : Carried A P T H 0 u st (tagCow u virt) st1 := by
      refine ⟨?_, ?_, hst.increment hinc⟩
      · rw [htag, tabs_setEntry rfl, leaves_setEntry rfl hv (isPresent_tagCow hp), leaves_present rfl hv hp,
          cons_add, cons_add]
        refine sim_overcount hinc ?_ (isWritable_tagCow _) (hok _ _ _ rfl)
        rw [frameOf_addFlags, frameOf_removeFlags]
      · rw [htag]
        exact hu.setEntry rfl hv.first_lt _
    exact hc.trans (ih hc.space hc.store hpages.2 hrest)

theorem allocateMmapAddr_same {r : Except Int Nat} (h : allocateMmapAddr m length = some (r, m')) :
    SameTables m m' := by
  obtain ⟨stop, -, h⟩ := bind_eq_some_iff.mp h
  split at h
  · cases h
    exact ⟨_, rfl⟩
  obtain ⟨wrapped, -, h⟩ := map_eq_some_iff.mp h
  split at h
  all_goals
    cases h
    exact ⟨_, rfl⟩

theorem mmapAddr_same {a : MmapArgs} {r : Except Int Nat}
    (h : mmapAddr m a length = some (r, m')) : SameTables m m' := by
  unfold mmapAddr at h
  split at h
  · split at h
    · cases h
      exact .refl _
    split at h
    · cases h
      exact .refl _
    obtain ⟨stop, -, h⟩ := map_eq_some_iff.mp h
    split at h
    · cases h
      exact .refl _
    · cases h
      exact ⟨_, rfl⟩
  · obtain ⟨_, -, h⟩ := bind_eq_some_iff.mp h
    obtain ⟨region, -, h⟩ := bind_eq_some_iff.mp h
    split at h
    · cases h
      exact .refl _
    · exact allocateMmapAddr_same h

/-- The events of `mmap`, a private file mapping apart. -/
def Event.placing : Event → Bool
  | .unmap _ => true
  | e => e.mapping

section Mmap

variable {a : MmapArgs} (hok : ∀ f v e, Event.placing e = true → v.pinned = 0 → A f v e)
  (hmap : ∀ f v e, Event.mapping e = true → A f v e)
  (hcow : a.isAnonymous = false → a.isPrivate = true → ∀ f v w, v.pinned = 0 → A f v (.overcount w))

include hok hmap hcow

omit hmap in
theorem mmapFile_spec {mapAddr length : Nat} {r : Int} (hu : SpaceOk m.addressSpace) (hst : StoreOk st)
    (hfile : a.isAnonymous = false) (hpages : UserPages (length / 0x1000) (BitVec.ofNat 64 mapAddr))
    (h : mmapFile m st a mapAddr length = some (r, m', st')) :
    Carried A P T H 0 m.addressSpace st m'.addressSpace st' := by
  unfold mmapFile at h
  split at h
  · obtain ⟨⟨r1, m1, st1⟩, hun, h⟩ := map_eq_some_iff.mp h
    cases h
    exact sysMunmap_spec hu hst (fun f v w => hok f v _ rfl) (fun len _ => PagesAll.of_all notMem_zero) hun
  split at h
  next hpriv =>
    obtain ⟨⟨u1, st1⟩, hc, h⟩ := map_eq_some_iff.mp h
    cases h
    exact cowPages_spec hu hst hpages (hcow hfile hpriv) hc
  · cases h
    exact .refl hu hst

theorem mmapAt_spec {mapAddr length : Nat} {r : Int} (hu : SpaceOk m.addressSpace) (hst : StoreOk st)
    (h : mmapAt m st a mapAddr length = some (r, m', st')) :
    Carried A P T H 0 m.addressSpace st m'.addressSpace st' := by
  unfold mmapAt at h
  split at h
  · cases h
    exact (Carried.refl hu hst).withVmas _
  split at h
  next u1 st1 hal =>
    cases h
    exact (allocatePages_spec hu hst hmap hal).1
  rename_i u1 st1 hal
  obtain ⟨hc, hpages⟩ := allocatePages_spec (P := P) (T := T) (H := H) (S := 0) hu hst hmap hal
  split at h
  · cases h
    exact hc.withVmas _
  rename_i hanon
  have hc' := hc.withVmas (u1.vmas.insert (a.area mapAddr length .fileBacked)).2
  exact hc'.trans (mmapFile_spec hok hcow hc'.space hc'.store (not_eq_true _ ▸ hanon) (hpages rfl) h)

/-- **`sys_mmap`.** -/
theorem sysMmap_spec {r : Int} (hu : SpaceOk m.addressSpace) (hst : StoreOk st)
    (h : sysMmap m st a = some (r, m', st')) : Carried A P T H 0 m.addressSpace st m'.addressSpace st' := by
  unfold sysMmap at h
  split at h
  · cases h
    exact .refl hu hst
  obtain ⟨len, -, h⟩ := bind_eq_some_iff.mp h
  iterate 2
    split at h
    · cases h
      exact .refl hu hst
  obtain ⟨⟨place, m1⟩, hplace, h⟩ := bind_eq_some_iff.mp h
  have hc : Carried A P T H 0 m.addressSpace st m1.addressSpace st := (mmapAddr_same hplace).carried hu hst
  split at h
  next heq =>
    cases heq
    cases h
    exact hc
  next heq =>
    cases heq
    exact hc.trans (mmapAt_spec hok hmap hcow hc.space hc.store h)

end Mmap

end OxideOs.Vm
