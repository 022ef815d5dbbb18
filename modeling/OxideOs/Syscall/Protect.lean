import OxideOs.Proc.Permissions

/-!
# `Syscall.Protect` — what `mprotect` changes

`sys_mprotect` goes over the pages of the range twice. First it rewrites the page table entries: `PROT_NONE`
clears the present bit, and an entry that is not present never gets it back. Then it looks up the area of each
page and replaces its flags, all of them and for the whole area. The areas come out right exactly when those that
meet the range have no other flags, and lie inside it or have the new permissions already. A page that was without
permissions does not come back.
-/

namespace OxideOs
namespace Vma

open SliceSearch VmAreaList List

variable {v : VmArea} {l : VmAreaList} {areas : List VmArea}

/-! ## The areas -/

theorem WellFormed.map {g : VmArea → VmArea} (h : WellFormed areas)
    (hg : ∀ v, (g v).start = v.start ∧ (g v).stop = v.stop) : WellFormed (areas.map g) := by
  refine ⟨fun v hv => ?_, pairwise_map.mpr (h.sorted.imp (fun {a b} _ => ?_))⟩
  · obtain ⟨w, hw, rfl⟩ := mem_map.mp hv
    obtain ⟨_, _, _⟩ := h.area w hw
    refine ⟨?_, ?_, ?_⟩
    · rwa [(hg w).1, (hg w).2]
    · rwa [(hg w).1]
    · rwa [(hg w).2]
  · rwa [(hg a).2, (hg b).1]

/-- `find_mut` reaches the one area that contains the address. -/
theorem modify_areas (h : WellFormed l.areas) (addr : Nat) (f : VmArea → VmArea) :
    (l.modify addr f).areas = l.areas.map (fun v => if v.contains addr = true then f v else v) := by
  unfold VmAreaList.modify
  cases hb : binarySearchBy l.areas (cmpAddr addr) with
  | error i =>
    refine ((map_congr_left (fun v hv => if_neg (fun hc => ?_))).trans (map_id _)).symm
    obtain ⟨j, hj⟩ := binarySearchBy_complete (h.ordered addr) hv (cmpAddr_eq_eq.mpr hc)
    rw [hb] at hj
    cases hj
  | ok i =>
    obtain ⟨hi, he⟩ := binarySearchBy_ok hb
    have hin := cmpAddr_eq_eq.mp he
    refine ext_getElem? (fun j => ?_)
    rw [List.getElem?_modify, List.getElem?_map]
    refine Option.map_congr (fun v hv => ?_)
    obtain ⟨hj, rfl⟩ := List.getElem?_eq_some_iff.mp hv
    by_cases hij : i = j
    · subst hij
      rw [if_pos rfl, if_pos hin]
    -- no other area contains the address: they do not meet
    rw [if_neg hij, if_neg]
    exact fun hc => hij (h.index_eq hi hj hin hc)

end Vma

namespace Vm

open Pagedb Paging PageTableFlags UserAddressSpace Vma VmAreaList Word

/-- One of the `n` pages from `addr` on begins in the area. -/
def Touched (n addr : Nat) (v : VmArea) : Prop := ∃ k < n, v.contains (addr + 0x1000 * k) = true

instance (n addr : Nat) (v : VmArea) : Decidable (Touched n addr v) := by
  delta Touched
  infer_instance

theorem touched_succ {n addr : Nat} {v : VmArea} :
    Touched (n + 1) addr v ↔ v.contains addr = true ∨ Touched n (addr + 0x1000) v := by
  unfold Touched
  rw [Nat.exists_lt_succ_left]
  simp [mul_add, add_assoc, add_comm (0x1000 * _) 0x1000]

/-- **The second loop of `mprotect`** gives the new flags to the areas it touches, and to nothing else. -/
theorem protectAreas_areas {n addr : Nat} {l : VmAreaList} {flags : VmFlags} (h : WellFormed l.areas) :
    (protectAreas n addr l flags).areas = l.areas.map (fun v => if Touched n addr v then { v with flags } else v) := by
  induction n generalizing addr l with
  | zero =>
    refine ((List.map_congr_left (fun v _ => if_neg ?_)).trans (List.map_id _)).symm
    rintro ⟨k, hk, -⟩
    cases hk
  | succ n ih =>
    have hmod := modify_areas h addr (fun area => { area with flags })
    have hwf : WellFormed (l.modify addr (fun area => { area with flags })).areas := by
      rw [hmod]
      exact h.map (fun v => by split <;> exact ⟨rfl, rfl⟩)
    rw [protectAreas, ih hwf, hmod, List.map_map]
    refine List.map_congr_left (fun v _ => ?_)
    -- new flags move no area, so the later pages meet the same areas
    show (if Touched n (addr + 0x1000) (if v.contains addr = true then { v with flags } else v) then _ else _) = _
    by_cases hc : v.contains addr = true
    · simp only [hc, if_true, touched_succ]
      split <;> rfl
    · simp [hc, touched_succ]

/-- The area at an address afterwards is the area that was there, with new flags if it was touched. -/
theorem find_protectAreas {n addr x : Nat} {l : VmAreaList} {flags : VmFlags} (h : WellFormed l.areas) :
    (protectAreas n addr l flags).find x =
      (l.find x).map (fun v => if Touched n addr v then { v with flags } else v) := by
  have hareas : (protectAreas n addr l flags).areas = _ := protectAreas_areas h
  have hkeep : ∀ v : VmArea, (if Touched n addr v then { v with flags } else v).start = v.start ∧
      (if Touched n addr v then { v with flags } else v).stop = v.stop := fun v => by split <;> exact ⟨rfl, rfl⟩
  rw [find_eq (hareas ▸ h.map hkeep), find_eq h, hareas, List.find?_map]
  refine congrArg _ (congrArg (l.areas.find? ·) (funext fun v => ?_))
  simp [VmArea.contains, (hkeep v).1, (hkeep v).2]

theorem setUserPageFlags_vmas (u : UserAddressSpace) (virt : VirtAddr) (flags : MemoryFlags) :
    (u.setUserPageFlags virt flags).2.vmas = u.vmas := by
  unfold setUserPageFlags setPageFlags
  split_ifs
  · rfl
  · simp only
    split <;> rfl
  · rfl

theorem protectPages_vmas (n : Nat) (virt : VirtAddr) (u : UserAddressSpace) (flags : MemoryFlags) :
    (protectPages n virt u flags).vmas = u.vmas := by
  induction n generalizing virt u with
  | zero => rfl
  | succ n ih => rw [protectPages, ih, setUserPageFlags_vmas]

section Mprotect

variable {m : ProcessMeta} {addr len : Nat} {prot : BitVec 32}

/-- The number of pages `mprotect` goes over. -/
def pagesOf (len : Nat) : Nat := (len + 0xFFF) / 0x1000

theorem sysMprotect_eq (haddr : 4096 ∣ addr) (hpos : 0 < len) (hend : addr + len ≤ USER_END.toNat) :
    sysMprotect m addr len prot =
      some (0, { m with addressSpace :=
        { protectPages (pagesOf len) (BitVec.ofNat 64 addr) m.addressSpace (protToMemoryFlags prot) with
          vmas := protectAreas (pagesOf len) addr m.addressSpace.vmas (protToVmFlags prot 0#32) } }) := by
  have huser : USER_END.toNat = 0x800000000000 := by decide
  have hround : pageDown (len + 0xFFF) ≤ len + 0xFFF := Nat.mul_div_le _ _
  have hn : pageDown (len + 0xFFF) / 0x1000 = pagesOf len := Nat.mul_div_cancel_left _ (by decide)
  unfold sysMprotect roundUp
  rw [if_neg (by rw [pageOffset_eq]; omega), if_neg (by omega), if_neg (by omega), add64_of_lt (by omega),
    Option.map_some, Option.bind_some, add64_of_lt (by omega), hn]
  simp [protectPages_vmas]

/-- **What `mprotect` is for**: inside the range `find` sees the permissions asked for, outside of it what was there,
    and the other flags are unchanged. -/
def Protected (m m' : ProcessMeta) (addr len : Nat) (prot : BitVec 32) : Prop :=
  ∀ x, (m'.addressSpace.vmas.find x).map VmArea.flags =
    (m.addressSpace.vmas.find x).map (fun v =>
      if addr ≤ x ∧ x < addr + len then
        { v.flags with read := has prot PROT_READ, write := has prot PROT_WRITE, exec := has prot PROT_EXEC }
      else v.flags)

/-- **An area that `mprotect` treats as it should**: it has no flags but permissions, and it lies inside the range or
    has the new permissions already. -/
def Protectable (addr len : Nat) (prot : BitVec 32) (v : VmArea) : Prop :=
  v.flags = { read := v.flags.read, write := v.flags.write, exec := v.flags.exec } ∧
    (addr ≤ v.start ∧ v.stop ≤ addr + len ∨ v.flags = protToVmFlags prot 0#32)

instance (addr len : Nat) (prot : BitVec 32) (v : VmArea) : Decidable (Protectable addr len prot v) :=
  inferInstanceAs (Decidable (_ ∧ _))

/-- The loop touches the areas that meet the range. -/
theorem touched_iff {v : VmArea} (hv : v.WellFormed) (haddr : 4096 ∣ addr) (hlen : 4096 ∣ len) (hpos : 0 < len) :
    Touched (pagesOf len) addr v ↔ v.overlaps addr (addr + len) = true := by
  have hpages : 0x1000 * pagesOf len = len := by
    unfold pagesOf
    omega
  obtain ⟨_, _, _⟩ := hv
  simp only [VmArea.overlaps, Bool.and_eq_true, decide_eq_true_eq]
  constructor
  · rintro ⟨k, hk, hc⟩
    rw [VmArea.contains_iff] at hc
    omega
  · intro hmeets
    -- the first page of the range that begins in the area
    refine ⟨(max addr v.start - addr) / 0x1000, by omega, ?_⟩
    rw [VmArea.contains_iff]
    omega

/-- **`mprotect` is exact if and only if** the areas that meet the range can be protected as a whole. -/
theorem mprotect_exact (prot : BitVec 32) (h : WellFormed m.addressSpace.vmas.areas) (haddr : 4096 ∣ addr)
    (hlen : 4096 ∣ len) (hpos : 0 < len) (hend : addr + len ≤ USER_END.toNat) :
    ∃ m', sysMprotect m addr len prot = some (0, m') ∧ (Protected m m' addr len prot ↔
      ∀ v ∈ m.addressSpace.vmas.areas, v.overlaps addr (addr + len) = true → Protectable addr len prot v) := by
  refine ⟨_, sysMprotect_eq haddr hpos hend, ?_⟩
  -- what the calls see of an area: its new flags, if it was touched
  have hsees : ∀ {x v}, v ∈ m.addressSpace.vmas.areas → v.contains x = true →
      m.addressSpace.vmas.find x = some v := by
    intro x v hv hc
    rw [find_eq h, h.find?_of_contains hv hc]
  constructor
  · intro hprot v hv hmeets
    have htouched := (touched_iff (h.area v hv) haddr hlen hpos).mpr hmeets
    have hflags : ∀ x, v.contains x = true → protToVmFlags prot 0#32 = if addr ≤ x ∧ x < addr + len then
        { v.flags with read := has prot PROT_READ, write := has prot PROT_WRITE, exec := has prot PROT_EXEC }
        else v.flags := by
      intro x hc
      have hx := hprot x
      rw [find_protectAreas h, Option.map_map, hsees hv hc, Option.map_some, Option.map_some, Option.some.injEq] at hx
      simpa [htouched] using hx
    obtain ⟨hne, _, _⟩ := h.area v hv
    simp only [VmArea.overlaps, Bool.and_eq_true, decide_eq_true_eq] at hmeets
    refine ⟨?_, ?_⟩
    · -- a place of the area inside the range
      have hin := hflags (max addr v.start) (by rw [VmArea.contains_iff]; omega)
      rw [if_pos (by omega)] at hin
      have hother : ∀ flag : VmFlags → Bool, flag (protToVmFlags prot 0#32) = flag _ := fun flag => congrArg flag hin
      have hshared := hother VmFlags.shared
      have hgrows := hother VmFlags.growsdown
      have hstack := hother VmFlags.stack
      have hdont := hother VmFlags.dontcopy
      obtain ⟨start, stop, ⟨rd, wr, ex, sh, gr, sk, dc⟩, ty⟩ := v
      simp only [protToVmFlags] at hshared hgrows hstack hdont
      simp only [VmFlags.mk.injEq, true_and]
      exact ⟨hshared.symm, hgrows.symm, hstack.symm, hdont.symm⟩
    · -- and one outside, if there is one
      by_cases hinside : addr ≤ v.start ∧ v.stop ≤ addr + len
      · exact .inl hinside
      refine .inr ?_
      by_cases hlow : addr ≤ v.start
      · have hout := hflags (addr + len) (by rw [VmArea.contains_iff]; omega)
        rw [if_neg (by omega)] at hout
        exact hout.symm
      · have hout := hflags v.start (by rw [VmArea.contains_iff]; omega)
        rw [if_neg (by omega)] at hout
        exact hout.symm
  · intro hwhole x
    rw [find_protectAreas h, Option.map_map]
    refine Option.map_congr (fun v hv => ?_)
    rw [find_eq h] at hv
    have hin := List.mem_of_find?_eq_some hv
    obtain ⟨_, _⟩ : v.start ≤ x ∧ x < v.stop := by simpa using List.find?_some hv
    have htouched := touched_iff (h.area v hin) haddr hlen hpos
    show VmArea.flags (if Touched (pagesOf len) addr v then _ else v) = _
    by_cases hmeets : v.overlaps addr (addr + len) = true
    · obtain ⟨hplain, hplace⟩ := hwhole v hin hmeets
      rw [if_pos (htouched.mpr hmeets)]
      split
      · rw [hplain]
        rfl
      next hx =>
        rcases hplace with ⟨_, _⟩ | hsame
        · exact absurd ⟨by omega, by omega⟩ hx
        · exact hsame.symm
    · -- the area is not touched, and `x` is outside the range
      rw [if_neg (fun ht => hmeets (htouched.mp ht)), if_neg]
      intro hx
      refine hmeets ?_
      simp only [VmArea.overlaps, Bool.and_eq_true, decide_eq_true_eq]
      omega

end Mprotect

/-- A process with one area of two pages and no page mapped. -/
def twoPageArea (flags : VmFlags) : ProcessMeta :=
  { addressSpace :=
      { pml4Phys := 1, tables := fun _ => PageTableEntry.empty, allocatedFrames := []
        vmas := ⟨[VmArea.new 0x1000 0x3000 flags .anon]⟩ }
    nextMmapAddr := MMAP_MIN_ADDR }

/-- The whole area is made read-only; and one of its pages is given the permissions that the area has. -/
theorem mprotect_exact_whole :
    (∃ m', sysMprotect (twoPageArea { read := true, write := true }) 0x1000 0x2000 PROT_READ = some (0, m') ∧
      Protected (twoPageArea { read := true, write := true }) m' 0x1000 0x2000 PROT_READ ∧
      (m'.addressSpace.vmas.find 0x2000).map VmArea.flags = some { read := true }) ∧
    ∃ m', sysMprotect (twoPageArea { read := true }) 0x1000 0x1000 PROT_READ = some (0, m') ∧
      Protected (twoPageArea { read := true }) m' 0x1000 0x1000 PROT_READ := by
  have hwf : ∀ flags, WellFormed (twoPageArea flags).addressSpace.vmas.areas := fun flags =>
    ⟨List.forall_mem_singleton.mpr ⟨(by decide : 0x1000 < 0x3000), (by decide : 4096 ∣ 0x1000),
      (by decide : 4096 ∣ 0x3000)⟩, List.pairwise_singleton _ _⟩
  refine ⟨?_, ?_⟩
  · obtain ⟨m', hm, hiff⟩ := mprotect_exact (m := twoPageArea { read := true, write := true }) PROT_READ (hwf _)
      (by decide : 4096 ∣ 0x1000) (by decide : 4096 ∣ 0x2000) (by decide) (by decide)
    have hprot := hiff.mpr (by decide)
    exact ⟨m', hm, hprot, (hprot 0x2000).trans (by decide)⟩
  · obtain ⟨m', hm, hiff⟩ := mprotect_exact (m := twoPageArea { read := true }) PROT_READ (hwf _)
      (by decide : 4096 ∣ 0x1000) (by decide : 4096 ∣ 0x1000) (by decide) (by decide)
    exact ⟨m', hm, hiff.mpr (by decide)⟩

/-- **A range that is a part of an area**: the page after the range loses its write permission too, and the area
    is no longer shared. -/
theorem mprotect_spills :
    ((twoPageArea { read := true, write := true, shared := true }).addressSpace.vmas.find 0x2000).map VmArea.flags =
        some { read := true, write := true, shared := true } ∧
      (sysMprotect (twoPageArea { read := true, write := true, shared := true }) 0x1000 0x1000 PROT_READ).map
          (fun r => (r.1, (r.2.addressSpace.vmas.find 0x2000).map VmArea.flags)) =
        some (0, some { read := true }) := by
  decide

/-! ## The pages -/

/-- The page of an address lies in frame `f`. -/
structure PlacedIn (u : UserAddressSpace) (f : Frame) (virt : VirtAddr) : Prop where
  user : virt < USER_END
  reaches : u.tables.reaches virt = true
  present : (u.tables (.ofAddr virt .pt)).isPresent = true
  frame : frameOf (u.tables (.ofAddr virt .pt)) = f

section RoundTrip

variable {u : UserAddressSpace} {st : FrameStore} {f : Frame} {page : VirtAddr} {flags : MemoryFlags}

/-- `set_user_page_flags` changes the entry of its own page only, and that entry keeps its frame. -/
theorem setUserPageFlags_tables (u : UserAddressSpace) (virt : VirtAddr) (flags : MemoryFlags) :
    (u.setUserPageFlags virt flags).2.tables = u.tables ∨ ∃ e, e.isPresent = !flags.isNone ∧
      ((u.tables (.ofAddr virt .pt)).isPresent = false → flags.isNone = true) ∧
      (u.setUserPageFlags virt flags).2.tables = Function.update u.tables (.ofAddr virt .pt) e := by
  unfold setUserPageFlags setPageFlags
  split
  · exact .inl rfl
  split
  swap
  · exact .inl rfl
  simp only
  split
  · exact .inl rfl
  next hkeep =>
    refine .inr ⟨_, isPresent_protected _ _, fun habsent => ?_, rfl⟩
    simpa [habsent, protectionFlags_present] using hkeep

/-- **An entry that is not present stays so**, whatever permissions are asked for. -/
theorem absent_protectPages (h : (u.tables (.ofAddr page .pt)).isPresent = false) (n : Nat) (virt : VirtAddr) :
    ((protectPages n virt u flags).tables (.ofAddr page .pt)).isPresent = false := by
  induction n generalizing virt u with
  | zero => exact h
  | succ n ih =>
    refine ih ?_ _
    rcases setUserPageFlags_tables u virt flags with hsame | ⟨e, hpresent, habsent, hset⟩
    · rw [hsame]
      exact h
    · rw [hset, Function.update_apply]
      split
      next hs =>
        rw [hpresent, habsent (hs ▸ h)]
        rfl
      · exact h

/-- **`PROT_NONE` clears the present bit** of every page of the range. -/
theorem absent_of_none (hnone : flags.isNone = true) {n : Nat} {virt : VirtAddr} (huser : page < USER_END)
    (hreach : u.tables.reaches page = true) {k : Nat} (hk : k < n) (hpage : page = virt + 4096#64 * BitVec.ofNat 64 k) :
    ((protectPages n virt u flags).tables (.ofAddr page .pt)).isPresent = false := by
  induction n generalizing virt u k with
  | zero => cases hk
  | succ n ih =>
    cases k with
    | zero =>
      -- the first page is this one
      have hself : virt = page := by simpa using hpage.symm
      subst hself
      have hcleared : ((u.setUserPageFlags virt flags).2.tables (.ofAddr virt .pt)).isPresent = false := by
        unfold setUserPageFlags setPageFlags
        rw [if_neg (BitVec.not_le.mpr huser), if_pos hreach]
        simp only
        rw [if_neg (by rw [protectionFlags_present, hnone]; simp)]
        show (Function.update u.tables (.ofAddr virt .pt) _ (.ofAddr virt .pt)).isPresent = false
        rw [Function.update_self, isPresent_protected, hnone]
        rfl
      exact absent_protectPages hcleared _ _
    | succ k =>
      refine ih ?_ (Nat.lt_of_succ_lt_succ hk) ?_
      · rcases setUserPageFlags_tables u virt flags with hsame | ⟨e, -, -, hset⟩
        · rw [hsame]
          exact hreach
        · rw [hset, reaches_update rfl]
          exact hreach
      · rw [hpage, BitVec.ofNat_add, mul_add, BitVec.mul_one, add_assoc, add_comm (4096#64 * _)]

/-- `mprotect` with `PROT_NONE` on a range with the page in it. -/
theorem PlacedIn.sysMprotect_none {m : ProcessMeta} {addr len : Nat} (h : PlacedIn m.addressSpace f page)
    (hpage : 4096 ∣ page.toNat) (haddr : 4096 ∣ addr) (hin : addr ≤ page.toNat ∧ page.toNat < addr + len)
    (hend : addr + len ≤ USER_END.toNat) :
    ∃ m₁, sysMprotect m addr len 0#32 = some (0, m₁) ∧
      (m₁.addressSpace.tables (.ofAddr page .pt)).isPresent = false := by
  refine ⟨_, sysMprotect_eq haddr (by omega) hend, ?_⟩
  refine absent_of_none (k := (page.toNat - addr) / 0x1000) (by decide) h.user h.reaches ?_ ?_
  · unfold pagesOf
    omega
  · have huser : USER_END.toNat = 0x800000000000 := by decide
    apply BitVec.eq_of_toNat_eq
    rw [BitVec.toNat_add, BitVec.toNat_mul, BitVec.toNat_ofNat, BitVec.toNat_ofNat, BitVec.toNat_ofNat]
    omega

theorem unmapPage_absent (h : (u.tables (.ofAddr page .pt)).isPresent = false) : unmapPage u st page = (u, st) := by
  unfold unmapPage unmapUserPage
  split
  next hx =>
    split at hx
    · cases hx
      rfl
    · rw [h, Bool.and_false] at hx
      cases hx
      rfl
  next hx =>
    split at hx
    · cases hx
    · rw [h, Bool.and_false] at hx
      cases hx

/-- `munmap` of one page. -/
theorem sysMunmap_page (m : ProcessMeta) (st : FrameStore) (huser : page < USER_END) (hpage : 4096 ∣ page.toNat) :
    sysMunmap m st page.toNat 0x1000 = some (0, { m.removeVmaRange page.toNat (page.toNat + 0x1000) with
        addressSpace := (unmapPage (m.removeVmaRange page.toNat (page.toNat + 0x1000)).addressSpace st page).1 },
      (unmapPage (m.removeVmaRange page.toNat (page.toNat + 0x1000)).addressSpace st page).2) := by
  have hlt : page.toNat < 0x800000000000 := huser
  have hround : roundUp 0x1000 = some 0x1000 := by decide
  unfold sysMunmap
  rw [if_neg (by rw [pageOffset_eq]; omega), hround, Option.bind_some, add64_of_lt (by omega), Option.map_some]
  simp only [unmapRange, unmapPages, BitVec.ofNat_toNat, BitVec.setWidth_eq]
  rfl

/-- **A page does not come back from `PROT_NONE`.** For every page that is mapped and every range with it in it:
    `mprotect` to `PROT_NONE` and back to read and write succeeds both times and leaves the page without a frame; and
    `munmap` after the first call succeeds and frees nothing, where without it the frame would have been given up. -/
theorem prot_none_never_returns (st : FrameStore) {m : ProcessMeta} {addr len : Nat}
    (h : PlacedIn m.addressSpace f page) (hpage : 4096 ∣ page.toNat) (haddr : 4096 ∣ addr)
    (hin : addr ≤ page.toNat ∧ page.toNat < addr + len) (hend : addr + len ≤ USER_END.toNat) :
    ∃ m₁, sysMprotect m addr len 0#32 = some (0, m₁) ∧
      (∃ m₂, sysMprotect m₁ addr len (PROT_READ ||| PROT_WRITE) = some (0, m₂) ∧
        ∀ g, ¬PlacedIn m₂.addressSpace g page) ∧
      (∃ m₂, sysMunmap m₁ st page.toNat 0x1000 = some (0, m₂, st)) ∧
      ((st.record f).any (fun pf => pf.isFree) = false →
        ∃ m₂, sysMunmap m st page.toNat 0x1000 = some (0, m₂, releaseFrame st f)) := by
  obtain ⟨m₁, hm₁, habsent⟩ := h.sysMprotect_none hpage haddr hin hend
  refine ⟨m₁, hm₁, ⟨_, sysMprotect_eq haddr (by omega) hend, fun g hg => ?_⟩, ?_, fun hrecord => ?_⟩
  · have hpresent := hg.present
    rw [absent_protectPages habsent] at hpresent
    cases hpresent
  · rw [sysMunmap_page m₁ st h.user hpage, unmapPage_absent (by exact habsent)]
    exact ⟨_, rfl⟩
  · rw [sysMunmap_page m st h.user hpage]
    have hunmap : (unmapPage (m.removeVmaRange page.toNat (page.toNat + 0x1000)).addressSpace st page).2 =
        releaseFrame st f := by
      have hplaced : PlacedIn (m.removeVmaRange page.toNat (page.toNat + 0x1000)).addressSpace f page := { h with }
      unfold unmapPage unmapUserPage
      rw [if_neg (BitVec.not_le.mpr hplaced.user), hplaced.reaches, hplaced.present, Bool.and_self, hplaced.frame]
      simp [hrecord]
    rw [hunmap]
    exact ⟨_, rfl⟩

end RoundTrip

/-- A process with one writable page at 0x1000, in frame 5. -/
def pageInFive : ProcessMeta :=
  { addressSpace := UserAddressSpace.single 0x1000#64 5 (PRESENT ||| WRITABLE ||| USER), nextMmapAddr := MMAP_MIN_ADDR }

theorem pageInFive_placed : PlacedIn pageInFive.addressSpace 5 0x1000#64 :=
  ⟨by decide, by decide, by decide, by decide⟩

/-- The page, as a part of a range of two. -/
theorem prot_none_never_returns_five :
    ∃ m₁ m₂, sysMprotect pageInFive 0x1000 0x2000 0#32 = some (0, m₁) ∧
      sysMprotect m₁ 0x1000 0x2000 (PROT_READ ||| PROT_WRITE) = some (0, m₂) ∧
      ¬PlacedIn m₂.addressSpace 5 0x1000#64 := by
  obtain ⟨m₁, hm₁, ⟨m₂, hm₂, hgone⟩, -⟩ := prot_none_never_returns emptyStore pageInFive_placed (by decide)
    (by decide : 4096 ∣ 0x1000) (by decide : _ ∧ _ < 0x1000 + 0x2000) (by decide)
  exact ⟨m₁, m₂, hm₁, hm₂, hgone 5⟩

/-- **`PROT_NONE` loses the page**: making it readable and writable again does not bring it back, and `munmap`
    does not give up the frame, as it would have done before. -/
theorem prot_none_loses_page :
    PlacedIn pageInFive.addressSpace 5 0x1000#64 ∧
      ((sysMprotect pageInFive 0x1000 0x1000 0#32).bind (fun r =>
          sysMprotect r.2 0x1000 0x1000 (PROT_READ ||| PROT_WRITE))).map
          (fun r => (r.1, (r.2.addressSpace.tables (.ofAddr 0x1000#64 .pt)).isPresent)) = some (0, false) ∧
      ((sysMprotect pageInFive 0x1000 0x1000 0#32).bind (fun r => sysMunmap r.2 emptyStore 0x1000 0x1000)).map
          (fun r => (r.1, r.2.2.free)) = some (0, []) ∧
      (sysMunmap pageInFive emptyStore 0x1000 0x1000).map (fun r => (r.1, r.2.2.free)) = some (0, [5]) :=
  ⟨pageInFive_placed, by decide, by decide, by decide⟩

end Vm
end OxideOs
