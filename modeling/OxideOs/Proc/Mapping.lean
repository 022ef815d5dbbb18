import OxideOs.Proc.Space
import OxideOs.Syscall.Memory

/-!
# `Proc.Mapping` — mapping, supplying, unmapping and protecting pages

What the operations on single pages and ranges of pages do to the lives of frames.
-/

namespace OxideOs.Vm

open Function Option Pagedb Paging PageTableFlags Ledger UserAddressSpace PageTableEntry Tables Event Multiset
  List Bool FrameStore BitVec

variable {u u' : UserAddressSpace} {st st' : FrameStore} {s : Slot} {f : Frame} {fl : PageTableFlags}
  {e : PageTableEntry} {virt : VirtAddr}
variable {A : Frame → FrameView → Event → Prop} {P : Multiset PageTableEntry} {T H S : Multiset Frame}

/-! ## Entries -/

section Entries

variable (hs : s.isPt = true) (hv : u.tables.Visited s)

include hs hv

/-- A present entry is set. -/
theorem leaves_setEntry (he : e.isPresent = true) :
    (u.setEntry s e).leaves = e ::ₘ (u.setEntry s .empty).leaves :=
  leaves_update_present hs hv he

theorem leaves_setEntry_absent (he : e.isPresent = false) :
    (u.setEntry s e).leaves = (u.setEntry s .empty).leaves :=
  leaves_update_absent hs hv he

/-- A present entry, set apart from the others. -/
theorem leaves_present (he : (u.tables s).isPresent = true) :
    u.leaves = u.tables s ::ₘ (u.setEntry s .empty).leaves :=
  Tables.leaves_present hs hv he

theorem leaves_absent (he : (u.tables s).isPresent = false) : u.leaves = (u.setEntry s .empty).leaves :=
  Tables.leaves_absent hs hv he

end Entries

variable {r : Except SpaceError Unit} {n : Nat} {frames : List Frame} {flags : MemoryFlags} {t : Tables}
   {p : Frame → Prop} {L : Multiset PageTableEntry}

theorem tabs_setEntry (hs : s.isPt = true) : (u.setEntry s e).tabs = u.tabs := by
  show u.pml4Phys ::ₘ ↑(tableFrames (update u.tables s e)) = _
  rw [tableFrames_update hs]
  rfl

/-! ## Tables -/

/-- The events of mapping a page. -/
def Event.mapping : Event → Bool
  | .take | .giveBack | .link | .markData | .markTable | .mapNew _ => true
  | _ => false

theorem isPresent_table (f : Frame) : (PageTableEntry.set f.addr TABLE_FLAGS).isPresent = true := by
  rw [isPresent_eq, getLsbD_set _ _ (by decide)]
  decide

theorem isHuge_table (f : Frame) : (PageTableEntry.set f.addr TABLE_FLAGS).isHuge = false := by
  rw [isHuge_eq, getLsbD_set _ _ (by decide)]
  decide

/-- A slot where a table is looked for: the walk has come to the table the slot is in. -/
structure Entered (u : UserAddressSpace) (s : Slot) : Prop where
  upper : s.isPt = false
  user : s.first.val < 256
  reached : ∀ p, s.parent = some p → u.tables.Visited p

theorem Entered.vacant (hu : SpaceOk u) (h : Entered u s) (hp : (u.tables s).isPresent = false) :
    u.tables.Vacant s where
  upper := h.upper
  absent := hp
  user := h.user
  reached := by
    intro p hpar
    have hv := h.reached p hpar
    have hpt := parent_not_pt hpar
    exact ⟨hv, hu.noHuge p hpt hv.first_lt (hv.present hpt)⟩

/-- A table that is there already. -/
theorem Entered.visited (hu : SpaceOk u) (h : Entered u s) (hp : (u.tables s).isPresent = true) :
    u.tables.Visited s := by
  cases hpar : s.parent with
  | none =>
    cases s with
    | pml4 i => exact ⟨h.user, hp⟩
    | pdpt i j | pd i j k | pt i j k l => cases hpar
  | some p =>
    have hv := h.reached p hpar
    have hpt := parent_not_pt hpar
    exact (visited_iff hpar).mpr ⟨hv, .inr (hu.noHuge p hpt hv.first_lt (hv.present hpt)), .inr hp⟩

/-- A fresh table is linked in. -/
theorem sim_newTable (hv : u.tables.Vacant s) (ha : st.Allocated (some f) st') (frames : List Frame)
    (hok : ∀ f v e, mapping e = true → A f v e) :
    let u' : UserAddressSpace := { u with tables := u.tables.link s f TABLE_FLAGS, allocatedFrames := frames }
    Sim A ⟨u.leaves + P, u.tabs + T, H, S, st⟩ ⟨u'.leaves + P, f ::ₘ (u.tabs + T), H, S, st'⟩ ∧
      u'.tabs = f ::ₘ u.tabs ∧ u'.tables.Visited s := by
  intro u'
  have hleaves : u'.leaves = u.leaves := leaves_link hv (isPresent_table f) (isHuge_table f)
  refine ⟨?_, ?_, ?_⟩
  · rw [hleaves]
    exact (sim_take ha (fun f v => hok f v _ rfl)).trans (sim_link f (fun f v => hok f v _ rfl))
  · show u.pml4Phys ::ₘ ↑(u.tables.link s f TABLE_FLAGS).tableFrames = _
    rw [tableFrames_link hv (isPresent_table f) (isHuge_table f), cons_swap]
    rfl
  · exact (visited_link hv (isPresent_table f) (isHuge_table f)).mpr (.inr (.inl rfl))

theorem FrameStore.Allocated.free_subset {r : Option Frame} (h : st.Allocated r st') : ∀ f ∈ st'.free, f ∈ st.free := by
  cases h with
  | refused answers => exact fun f hf => hf
  | frame f0 answers _ => exact fun f hf => mem_of_mem_erase hf

/-- Nothing but tables has been added to the address space. -/
structure Grown (A : Frame → FrameView → Event → Prop) (P : Multiset PageTableEntry) (T S : Multiset Frame)
    (u : UserAddressSpace) (st : FrameStore) (u' : UserAddressSpace) (st' : FrameStore) : Prop where
  carried : ∀ H, Carried A P T H S u st u' st'
  leaves : u'.leaves = u.leaves
  free : ∀ f ∈ st'.free, f ∈ st.free

theorem Grown.refl (hu : SpaceOk u) (hst : StoreOk st) : Grown A P T S u st u st :=
  ⟨fun _ => Carried.refl hu hst, rfl, fun _ hf => hf⟩

section

variable (h : Grown A P T S u st u' st')
include h

theorem Grown.trans {u'' : UserAddressSpace} {st'' : FrameStore} (h' : Grown A P T S u' st' u'' st'') :
    Grown A P T S u st u'' st'' :=
  ⟨fun H => (h.carried H).trans (h'.carried H), h'.leaves.trans h.leaves, fun f hf => h.free f (h'.free f hf)⟩

theorem Grown.space : SpaceOk u' := (h.carried 0).space

theorem Grown.store : StoreOk st' := (h.carried 0).store

end

/-- **`get_or_create_table`.** -/
theorem getOrCreateTable_spec (hu : SpaceOk u) (hst : StoreOk st) (hs : Entered u s)
    (hok : ∀ f v e, mapping e = true → A f v e) (h : u.getOrCreateTable st s = (r, u', st')) :
    Grown A P T S u st u' st' ∧ (r = .ok () → u'.tables.Visited s) := by
  unfold getOrCreateTable at h
  split at h
  next hp =>
    obtain ⟨-, rfl, rfl⟩ := by simpa using h
    exact ⟨Grown.refl hu hst, fun _ => hs.visited hu hp⟩
  rename_i hp
  have hv := hs.vacant hu (not_eq_true _ ▸ hp)
  have ha := allocFrame_spec st
  split at h
  next st1 hal =>
    rw [hal] at ha
    cases h
    exact ⟨⟨fun _ => ⟨sim_refused ha, hu, hst.allocated ha⟩, rfl, ha.free_subset⟩, nofun⟩
  rename_i f st1 hal
  rw [hal] at ha
  cases h
  have hnew := fun H => sim_newTable (P := P) (T := T) (H := H) (S := S) hv ha (u.allocatedFrames ++ [f]) hok
  refine ⟨⟨fun H => ⟨?_, ?_, ?_⟩, ?_, ha.free_subset⟩, fun _ => (hnew 0).2.2⟩
  · rw [(hnew H).2.1, cons_add]
    exact (hnew H).1.trans (sim_markTable f (fun f v => hok f v _ rfl))
  · refine hu.link hv (isPresent_table f) (isHuge_table f) _ (fun x hx => ?_)
    rcases mem_append.mp hx with hx | hx
    · exact .inr hx
    · exact .inl (List.mem_singleton.mp hx)
  · exact ⟨(hst.allocated ha).swap, (hst.allocated ha).zero⟩
  · exact leaves_link hv (isPresent_table f) (isHuge_table f)

/-! ## Walking down to a page -/

theorem entered_pml4 (h : (PageLevel.pml4.index virt).val < 256) : Entered u (.ofAddr virt .pml4) :=
  ⟨rfl, h, nofun⟩

/-- The next table on the way down. -/
theorem Entered.below {p : Slot} (hp : s.parent = some p) (hs : s.isPt = false) (hv : u.tables.Visited p) :
    Entered u s where
  upper := hs
  user := by
    rw [first_of_parent hp]
    exact hv.first_lt
  reached := by
    intro q hq
    rw [hp] at hq
    exact some.inj hq ▸ hv

/-- The page's entry, once its table is there. -/
theorem visited_pt (hu : SpaceOk u) (hv : u.tables.Visited (.ofAddr virt .pd)) : u.tables.Visited (.ofAddr virt .pt) :=
  (visited_iff rfl).mpr
    ⟨hv, .inr (hu.noHuge _ rfl hv.first_lt (hv.present rfl)), .inl rfl⟩

/-- A frame in the kernel's hands becomes a page. -/
theorem sim_mapPage (st : FrameStore) (hs : s.isPt = true) (hv : u.tables.Visited s)
    (habs : (u.tables s).isPresent = false)
    (hpres : (PageTableEntry.set f.addr fl).isPresent = true) (hok : ∀ f v w, A f v (.mapNew w)) :
    Sim A ⟨u.leaves + P, u.tabs + T, f ::ₘ H, S, st⟩
      ⟨(u.setEntry s (.set f.addr fl)).leaves + P,
        (u.setEntry s (.set f.addr fl)).tabs + T, H, S, st⟩ := by
  rw [tabs_setEntry hs, leaves_setEntry hs hv hpres, ← leaves_absent hs hv habs, cons_add]
  have h := sim_mapNew (u.leaves + P) (u.tabs + T) H S st (set f.addr fl) hok
  rwa [frameOf_set] at h

/-- What mapping a page can come to: besides new tables there is an entry for the frame where none was, or nothing
    but new tables. -/
inductive MapOutcome (A : Frame → FrameView → Event → Prop) (P : Multiset PageTableEntry) (T S : Multiset Frame)
    (virt : VirtAddr) (f : Frame) (u : UserAddressSpace) (st : FrameStore) :
    Except SpaceError Unit → UserAddressSpace → FrameStore → Prop where
  | mapped {u' : UserAddressSpace} {st' : FrameStore} (fl : PageTableFlags) (hvirt : virt < USER_END)
      (grown : Grown A P T S u st u' st') (visited : u'.tables.Visited (.ofAddr virt .pt))
      (absent : (u'.tables (.ofAddr virt .pt)).isPresent = false)
      (present : (PageTableEntry.set f.addr fl).isPresent = true) :
      MapOutcome A P T S virt f u st (.ok ()) (u'.setEntry (.ofAddr virt .pt) (PageTableEntry.set f.addr fl)) st'
  | failed {u' : UserAddressSpace} {st' : FrameStore} (err : SpaceError) (grown : Grown A P T S u st u' st') :
      MapOutcome A P T S virt f u st (.error err) u' st'

/-- **`map_user_page`.** -/
theorem mapUserPage_spec (hu : SpaceOk u) (hst : StoreOk st) (hok : ∀ f v e, mapping e = true → A f v e)
    (virt : VirtAddr) (f : Frame) (flags : MemoryFlags) :
    MapOutcome A P T S virt f u st (u.mapUserPage st virt f flags).1 (u.mapUserPage st virt f flags).2.1
      (u.mapUserPage st virt f flags).2.2 := by
  unfold mapUserPage
  split
  · exact .failed _ (Grown.refl hu hst)
  rename_i hend
  have hvirt : virt < USER_END := BitVec.not_le.mp hend
  split
  next h1 =>
    exact .failed _ (getOrCreateTable_spec hu hst (entered_pml4 (index_pml4_lt hvirt)) hok h1).1
  rename_i u1 st1 h1
  obtain ⟨g1, v1⟩ := getOrCreateTable_spec hu hst (entered_pml4 (index_pml4_lt hvirt)) hok h1
  have e2 : Entered u1 (.ofAddr virt .pdpt) := Entered.below rfl rfl (v1 rfl)
  split
  next h2 =>
    exact .failed _ (g1.trans (getOrCreateTable_spec g1.space g1.store e2 hok h2).1)
  rename_i u2 st2 h2
  obtain ⟨g2, v2⟩ := getOrCreateTable_spec g1.space g1.store e2 hok h2
  have e3 : Entered u2 (.ofAddr virt .pd) := Entered.below rfl rfl (v2 rfl)
  split
  next h3 =>
    exact .failed _ ((g1.trans g2).trans (getOrCreateTable_spec g2.space g2.store e3 hok h3).1)
  rename_i u3 st3 h3
  obtain ⟨g3, v3⟩ := getOrCreateTable_spec g2.space g2.store e3 hok h3
  have g := (g1.trans g2).trans g3
  split
  · exact .failed _ g
  rename_i habs
  exact .mapped _ hvirt g (visited_pt g3.space (v3 rfl)) (not_eq_true _ ▸ habs) (isPresent_set _ _)

/-! ## Allocating pages -/

/-- The first loop of `allocate_pages`. -/
theorem allocateFrames_spec {r : Option (List Frame)} (hst : StoreOk st)
    (hok : ∀ f v e, mapping e = true → A f v e) (h : allocateFrames n st frames = (r, st')) :
    StoreOk st' ∧ (∀ fs, r = some fs → fs.length = frames.length + n) ∧
      Sim A ⟨P, T, ↑frames + H, S, st⟩ ⟨P, T, r.elim 0 (fun fs => ↑fs) + H, S, st'⟩ := by
  induction n generalizing st frames with
  | zero =>
    cases h
    exact ⟨hst, fun fs hfs => by rw [← some.inj hfs, add_zero], Sim.refl _⟩
  | succ n ih =>
    have ha := allocFrame_spec st
    unfold allocateFrames at h
    split at h
    next st1 hal =>
      rw [hal] at ha
      obtain ⟨rfl, rfl⟩ := Prod.mk.inj h
      refine ⟨(hst.allocated ha).freeAll frames, nofun, ?_⟩
      rw [elim_none, zero_add]
      exact (sim_refused ha).trans (sim_freeAll _ _ _ _ _ frames (fun f v => hok f v _ rfl))
    rename_i f st1 hal
    rw [hal] at ha
    obtain ⟨hst', hlen, hsim⟩ := ih (hst.allocated ha) h
    refine ⟨hst', fun fs hfs => ?_, ?_⟩
    · rw [hlen fs hfs, length_append, length_singleton]
      omega
    refine (sim_take ha (fun f v => hok f v _ rfl)).trans ?_
    rw [← cons_add, ← coe_append_singleton]
    exact hsim

/-- `n` pages from `virt` on lie in the user half. -/
def UserPages : Nat → VirtAddr → Prop
  | 0, _ => True
  | n + 1, virt => virt < USER_END ∧ UserPages n (virt + 4096#64)

section

variable (hu : SpaceOk u) (hst : StoreOk st) (hok : ∀ f v e, mapping e = true → A f v e)
include hu hst hok

/-- The second loop. -/
theorem mapFrames_spec (h : mapFrames frames u st virt flags = (r, u', st')) :
    SpaceOk u' ∧ StoreOk st' ∧ (r = .ok () → UserPages frames.length virt) ∧
      Sim A ⟨u.leaves + P, u.tabs + T, ↑frames + H, S, st⟩ ⟨u'.leaves + P, u'.tabs + T, H, S, st'⟩ := by
  induction frames generalizing u st virt with
  | nil =>
    obtain ⟨rfl, rfl, rfl⟩ := by simpa using h
    refine ⟨hu, hst, fun _ => trivial, ?_⟩
    rw [coe_nil, zero_add]
    exact .refl _
  | cons f frames ih =>
    have hmark := sim_markData (u.leaves + P) (u.tabs + T) (↑frames + H) S st f (fun f v => hok f v _ rfl)
    have hst1 : StoreOk (st.updateRecord f (fun pf => pf.setFlags (PF_ALLOCATED ||| PF_MAPPED))) := ⟨hst.swap, hst.zero⟩
    have hspec := mapUserPage_spec (P := P) (T := T) (S := S) hu hst1 hok virt f flags
    rw [← cons_coe, cons_add]
    simp only [mapFrames] at h
    split at h
    next u1 st1 hm =>
      rw [hm] at hspec
      obtain ⟨rfl, rfl, rfl⟩ := by simpa using h
      cases hspec with
      | failed _ hg =>
        refine ⟨hg.space, hg.store.freeAll _, nofun, ?_⟩
        have hfree := sim_freeAll (u1.leaves + P) (u1.tabs + T) H S st1 (f :: frames) (fun f v => hok f v _ rfl)
        rw [← cons_coe, cons_add] at hfree
        exact hmark.trans ((hg.carried _).sim.trans hfree)
    rename_i u1 st1 hm
    rw [hm] at hspec
    cases hspec with
    | mapped fl hvirt hg hv habs hpres =>
      obtain ⟨hu', hst', hpages, hrest⟩ := ih (hg.space.setEntry rfl hv.first_lt _) hg.store h
      have hpage := sim_mapPage (P := P) (T := T) (H := ↑frames + H) (S := S) st1 rfl hv habs hpres
        (fun f v w => hok f v _ rfl)
      exact ⟨hu', hst', fun hr => ⟨hvirt, hpages hr⟩, hmark.trans ((hg.carried _).sim.trans (hpage.trans hrest))⟩

/-- **`allocate_pages`.** -/
theorem allocatePages_spec (h : u.allocatePages st virt n flags = (r, u', st')) :
    Carried A P T H S u st u' st' ∧ (r = .ok () → UserPages n virt) := by
  unfold allocatePages at h
  split at h
  next st1 hal =>
    obtain ⟨hst1, -, hsim⟩ := allocateFrames_spec (P := u.leaves + P) (T := u.tabs + T) (H := H) (S := S) hst hok hal
    obtain ⟨rfl, rfl, rfl⟩ := by simpa using h
    rw [coe_nil] at hsim
    refine ⟨⟨?_, hu, hst1⟩, nofun⟩
    rwa [elim_none, zero_add] at hsim
  rename_i frames st1 hal
  obtain ⟨hst1, hlen, hsim⟩ := allocateFrames_spec hst hok hal
  obtain ⟨hu', hst', hpages, hmap⟩ := mapFrames_spec hu hst1 hok h
  rw [coe_nil, zero_add] at hsim
  have hn : frames.length = n := by
    rw [hlen frames rfl, length_nil, zero_add]
  exact ⟨⟨hsim.trans hmap, hu', hst'⟩, fun hr => hn ▸ hpages hr⟩

end

/-- **`new_with_kernel`**: the frame of the PML4 becomes a table of a new address space. -/
theorem newWithKernel_spec {r : Option UserAddressSpace} (hst : StoreOk st)
    (hok : ∀ f v e, mapping e = true → A f v e) (h : newWithKernel st = (r, st')) :
    StoreOk st' ∧ (r = none → Sim A ⟨P, T, H, S, st⟩ ⟨P, T, H, S, st'⟩) ∧
      ∀ u, r = some u → SpaceOk u ∧ Sim A ⟨P, T, H, S, st⟩ ⟨u.leaves + P, u.tabs + T, H, S, st'⟩ := by
  have ha := allocFrame_spec st
  unfold newWithKernel at h
  split at h
  next st1 hal =>
    rw [hal] at ha
    obtain ⟨rfl, rfl⟩ := Prod.mk.inj h
    exact ⟨hst.allocated ha, fun _ => sim_refused ha, nofun⟩
  rename_i pml4 st1 hal
  rw [hal] at ha
  obtain ⟨rfl, rfl⟩ := Prod.mk.inj h
  refine ⟨hst.allocated ha, nofun, fun u hu => ?_⟩
  obtain rfl := some.inj hu
  have hcow : empty.isCow = false := by decide
  have hhuge : empty.isHuge = false := by decide
  have habsent : empty.isPresent = false := by decide
  have hvis : empty.visits = [] := visits_eq_nil (fun _ _ => habsent)
  refine ⟨⟨fun s _ _ _ => hhuge, fun s _ _ => hcow, hst.ne_zero ha, nofun⟩, ?_⟩
  have hleaves : empty.leaves = 0 := by
    unfold Tables.leaves
    rw [leafPtes_eq, hvis]
    rfl
  have htabs : empty.tableFrames = [] := by
    rw [tableFrames_eq, hvis]
    rfl
  show Sim A _ ⟨empty.leaves + P, (pml4 ::ₘ ↑empty.tableFrames) + T, H, S, st1⟩
  rw [hleaves, htabs, zero_add, coe_nil, cons_add, zero_add]
  exact (sim_take ha (fun f v => hok f v _ rfl)).trans (sim_link _ (fun f v => hok f v _ rfl))

/-! ## Supplying a page -/

/-- A step down the tables in the fault handlers. -/
theorem descend_spec {b : Bool} (hu : SpaceOk u) (hst : StoreOk st) (hs : Entered u s)
    (hok : ∀ f v e, mapping e = true → A f v e) (h : descend u st s = (b, u', st')) :
    Carried A P T H S u st u' st' ∧ (b = true → u'.tables.Visited s) := by
  -- which entries are tested for huge pages does not matter
  unfold descend at h
  extract_lets huge at h
  split at h
  · obtain ⟨rfl, rfl, rfl⟩ := by simpa using h
    exact ⟨Carried.refl hu hst, nofun⟩
  split at h
  next hp =>
    obtain ⟨rfl, rfl, rfl⟩ := by simpa using h
    exact ⟨Carried.refl hu hst, fun _ => hs.visited hu hp⟩
  rename_i hp
  have hv := hs.vacant hu (not_eq_true _ ▸ hp)
  have ha := allocFrame_spec st
  split at h
  next st1 hal =>
    rw [hal] at ha
    obtain ⟨rfl, rfl, rfl⟩ := by simpa using h
    exact ⟨⟨sim_refused ha, hu, hst.allocated ha⟩, nofun⟩
  rename_i f st1 hal
  rw [hal] at ha
  obtain ⟨rfl, rfl, rfl⟩ := by simpa using h
  obtain ⟨hsim, htabs, hvis⟩ := sim_newTable hv ha u.allocatedFrames hok
  refine ⟨⟨?_, ?_, hst.allocated ha⟩, fun _ => hvis⟩
  · rw [htabs, cons_add]
    exact hsim
  · exact hu.link hv (isPresent_table f) (isHuge_table f) _ (fun x hx => .inr hx)

/-- **Supplying a page** for `handle_stack_growth` and `handle_demand_page`. -/
theorem supplyPage_spec {present : PageTableEntry → Bool} (hu : SpaceOk u) (hst : StoreOk st)
    (hok : ∀ f v e, mapping e = true → A f v e) (hvirt : (PageLevel.pml4.index virt).val < 256)
    (hfl : ∀ f : Frame, (PageTableEntry.set f.addr fl).isPresent = true) :
    Carried A P T H S u st (supplyPage u st virt present fl).2.1 (supplyPage u st virt present fl).2.2 := by
  unfold supplyPage
  split
  next h1 =>
    exact (descend_spec hu hst (entered_pml4 hvirt) hok h1).1
  rename_i u1 st1 h1
  obtain ⟨c1, v1⟩ := descend_spec hu hst (entered_pml4 hvirt) hok h1
  have e2 : Entered u1 (.ofAddr virt .pdpt) := Entered.below rfl rfl (v1 rfl)
  split
  next h2 =>
    exact c1.trans (descend_spec c1.space c1.store e2 hok h2).1
  rename_i u2 st2 h2
  obtain ⟨d2, v2⟩ := descend_spec c1.space c1.store e2 hok h2
  have c2 := c1.trans d2
  have e3 : Entered u2 (.ofAddr virt .pd) := Entered.below rfl rfl (v2 rfl)
  split
  next h3 =>
    exact c2.trans (descend_spec c2.space c2.store e3 hok h3).1
  rename_i u3 st3 h3
  obtain ⟨d3, v3⟩ := descend_spec c2.space c2.store e3 hok h3
  have c3 := c2.trans d3
  have hpt := visited_pt c3.space (v3 rfl)
  simp only
  split
  · exact c3
  rename_i habs
  have ha := allocFrame_spec st3
  split
  next st4 hal =>
    rw [hal] at ha
    exact c3.trans ⟨sim_refused ha, c3.space, c3.store.allocated ha⟩
  rename_i f st4 hal
  rw [hal] at ha
  have hst4 := c3.store.allocated ha
  refine ⟨?_, c3.space.setEntry rfl hpt.first_lt _, ⟨hst4.swap, hst4.zero⟩⟩
  refine c3.sim.trans ((sim_take ha (fun f v => hok f v _ rfl)).trans ?_)
  refine (sim_markData _ _ _ _ _ f (fun f v => hok f v _ rfl)).trans ?_
  exact sim_mapPage _ rfl hpt (not_eq_true _ ▸ habs) (hfl f) (fun f v w => hok f v _ rfl)

/-! ## Ranges of pages -/

/-- The pages of a range that are mapped lie in frames with `p`. -/
def PagesAll (p : Frame → Prop) (t : Tables) : Nat → VirtAddr → Prop
  | 0, _ => True
  | n + 1, virt =>
    (virt < USER_END → t.reaches virt = true → (t (.ofAddr virt .pt)).isPresent = true →
      p (frameOf (t (.ofAddr virt .pt)))) ∧ PagesAll p t n (virt + 4096#64)

theorem reaches_update (hs : s.isPt = true) : reaches (update t s e) virt = t.reaches virt := by
  unfold reaches leads
  rw [update_of_not_pt hs rfl, update_of_not_pt hs rfl, update_of_not_pt hs rfl]

/-- No page comes to lie in another frame. -/
theorem PagesAll.update (hs : s.isPt = true)
    (he : e.isPresent = true → (t s).isPresent = true ∧ frameOf e = frameOf (t s))
    (h : PagesAll p t n virt) : PagesAll p (update t s e) n virt := by
  induction n generalizing virt with
  | zero => exact trivial
  | succ n ih =>
    refine ⟨fun hvirt hr hp => ?_, ih h.2⟩
    rw [reaches_update hs] at hr
    by_cases hs' : .ofAddr virt .pt = s
    · subst hs'
      rw [update_self] at hp ⊢
      rw [(he hp).2]
      exact h.1 hvirt hr (he hp).1
    · rw [update_of_ne hs'] at hp ⊢
      exact h.1 hvirt hr hp

theorem PagesAll.mono {q : Frame → Prop} (hpq : ∀ f, p f → q f) (h : PagesAll p t n virt) : PagesAll q t n virt := by
  induction n generalizing virt with
  | zero => exact trivial
  | succ n ih => exact ⟨fun hvirt hr hp => hpq _ (h.1 hvirt hr hp), ih h.2⟩

theorem PagesAll.of_all (h : ∀ f, p f) : PagesAll p t n virt := by
  induction n generalizing virt with
  | zero => exact trivial
  | succ n ih => exact ⟨fun _ _ _ => h _, ih⟩

/-! ## Unmapping -/

/-- Frames of no segment are seen as such. -/
theorem pinned_eq_zero {X Y : Multiset Frame} (h : f ∉ S) :
    ((⟨L, X, Y, S, st⟩ : Ledger).view f).pinned = 0 := count_eq_zero.mpr h

section

variable (hu : SpaceOk u) (hst : StoreOk st) (hok : ∀ f v w, v.pinned = 0 → A f v (.unmap w))
include hu hst hok

/-- One page of `munmap`. -/
theorem unmapPage_spec (hS : PagesAll (fun f => f ∉ S) u.tables 1 virt) :
    Carried A P T H S u st (unmapPage u st virt).1 (unmapPage u st virt).2 ∧
      ∀ p n virt', PagesAll p u.tables n virt' → PagesAll p (unmapPage u st virt).1.tables n virt' := by
  unfold unmapPage unmapUserPage
  by_cases hend : USER_END ≤ virt
  · rw [if_pos hend]
    exact ⟨Carried.refl hu hst, fun _ _ _ h => h⟩
  rw [if_neg hend]
  have hvirt : virt < USER_END := BitVec.not_le.mp hend
  by_cases hpage : (u.tables.reaches virt && (u.tables (.ofAddr virt .pt)).isPresent) = true
  · rw [if_pos hpage]
    obtain ⟨hr, hp⟩ := and_eq_true_iff.mp hpage
    have hv := visited_of_reaches hvirt hr
    have hu' := hu.setEntry rfl hv.first_lt empty
    have hsim := sim_leave ((u.setEntry (.ofAddr virt .pt) empty).leaves + P) (u.tabs + T) H S st _ _ (fun _ => rfl)
      (hok _ _ _ (pinned_eq_zero (hS.1 hvirt hr hp)))
    rw [← cons_add, ← leaves_present rfl hv hp] at hsim
    have htabs := tabs_setEntry (u := u) (s := .ofAddr virt .pt) (e := empty) rfl
    simp only
    split
    next hfree =>
      rw [if_pos hfree] at hsim
      refine ⟨⟨?_, hu', hst⟩, fun _ _ _ h => h.update rfl nofun⟩
      rw [htabs]
      exact hsim
    rename_i hfree
    rw [if_neg hfree] at hsim
    refine ⟨⟨?_, hu', hst.releaseFrame _⟩, fun _ _ _ h => h.update rfl nofun⟩
    rw [htabs]
    exact hsim
  · rw [if_neg hpage]
    exact ⟨Carried.refl hu hst, fun _ _ _ h => h⟩

/-- **The loop of `munmap` and `madvise`.** -/
theorem unmapPages_spec (hS : PagesAll (fun f => f ∉ S) u.tables n virt) :
    Carried A P T H S u st (unmapPages n virt u st).1 (unmapPages n virt u st).2 := by
  induction n generalizing virt u st with
  | zero => exact .refl hu hst
  | succ n ih =>
    obtain ⟨hc, hpages⟩ := unmapPage_spec hu hst hok ⟨hS.1, trivial⟩
    exact hc.trans (ih hc.space hc.store (hpages _ _ _ hS.2))

end

/-! ## Changing permissions -/

/-- `PROT_NONE`. -/
def MemoryFlags.isNone (flags : MemoryFlags) : Bool := !flags.read && !flags.write && !flags.execute

theorem protectionFlags_present (flags : MemoryFlags) : (protectionFlags flags).contains PRESENT = !flags.isNone := by
  obtain ⟨r, w, x, us⟩ := flags
  revert r w x us
  decide

theorem protectionFlags_writable (flags : MemoryFlags) : (protectionFlags flags).bits.getLsbD 1 = flags.write := by
  obtain ⟨r, w, x, us⟩ := flags
  revert r w x us
  decide

/-- A permission bit of an entry after `set_page_flags` is that of the new flags. -/
theorem getLsbD_setPageFlags (entry : PageTableEntry) (new : PageTableFlags) {i : Nat}
    (hmask : PERMISSION_MASK.bits.getLsbD i = true) (haddr : ADDR_MASK.getLsbD i = false) :
    (entry.setFlags (entry.flags.difference PERMISSION_MASK ||| new)).raw.getLsbD i = new.bits.getLsbD i := by
  rw [getLsbD_setFlags _ _ haddr]
  show ((entry.flags.bits &&& ~~~PERMISSION_MASK.bits) ||| new.bits).getLsbD i = _
  rw [getLsbD_or, getLsbD_and, getLsbD_not, hmask, Bool.not_true, Bool.and_false, Bool.and_false, Bool.false_or]

theorem isPresent_protected (entry : PageTableEntry) (flags : MemoryFlags) :
    (entry.setFlags (entry.flags.difference PERMISSION_MASK ||| protectionFlags flags)).isPresent = !flags.isNone := by
  rw [isPresent_eq, getLsbD_setPageFlags _ _ (by decide) (by decide), ← contains_present, protectionFlags_present]

theorem isWritable_protected (entry : PageTableEntry) (flags : MemoryFlags) :
    (entry.setFlags (entry.flags.difference PERMISSION_MASK ||| protectionFlags flags)).isWritable = flags.write := by
  rw [isWritable_eq, getLsbD_setPageFlags _ _ (by decide) (by decide), protectionFlags_writable]

/-- At most one entry maps the frame. -/
def Sole (L : Multiset PageTableEntry) (f : Frame) : Prop := L.countP (fun e => frameOf e = f) ≤ 1

theorem Sole.of_le {L' : Multiset PageTableEntry}
    (hle : ∀ f, L'.countP (fun e => frameOf e = f) ≤ L.countP (fun e => frameOf e = f)) (f : Frame)
    (h : Sole L f) : Sole L' f := le_trans (hle f) h

section Protect

variable {flags : MemoryFlags} {D : Frame → Prop} (hnone : flags.isNone = true → ∀ f v w, A f v (.forget w))
  (hdemote : ∀ f v w, A f v (.protect w false))
  (hgrant : flags.write = true → ∀ f v w, (D f → v.maps ≤ 1) → A f v (.protect w true))

include hnone hdemote hgrant

/-- One page of `mprotect`. -/
theorem setUserPageFlags_spec (hu : SpaceOk u) (hst : StoreOk st)
    (hsole : flags.write = true → PagesAll (fun f => D f → Sole (u.leaves + P) f) u.tables 1 virt) :
    Carried A P T H S u st (u.setUserPageFlags virt flags).2 st ∧
      (∀ f, ((u.setUserPageFlags virt flags).2.leaves + P).countP (fun e => frameOf e = f) ≤
        (u.leaves + P).countP (fun e => frameOf e = f)) ∧
      ∀ p n virt', PagesAll p u.tables n virt' →
        PagesAll p (u.setUserPageFlags virt flags).2.tables n virt' := by
  have hsame : Carried A P T H S u st u st ∧
      (∀ f, (u.leaves + P).countP (fun e => frameOf e = f) ≤ (u.leaves + P).countP (fun e => frameOf e = f)) ∧
      ∀ p n virt', PagesAll p u.tables n virt' → PagesAll p u.tables n virt' :=
    ⟨Carried.refl hu hst, fun _ => le_refl _, fun _ _ _ h => h⟩
  unfold setUserPageFlags
  split
  · exact hsame
  rename_i hend
  have hvirt : virt < USER_END := BitVec.not_le.mp hend
  unfold setPageFlags
  split
  swap
  · exact hsame
  rename_i hr
  have hv := visited_of_reaches hvirt hr
  simp only
  split
  · exact hsame
  rename_i hguard
  -- the new entry, for the same frame
  generalize he : (u.tables (.ofAddr virt .pt)).setFlags
    ((u.tables (.ofAddr virt .pt)).flags.difference PERMISSION_MASK ||| protectionFlags flags) = e'
  have hframe : frameOf e' = frameOf (u.tables (.ofAddr virt .pt)) := by rw [← he, frameOf_setFlags]
  have hpres : e'.isPresent = !flags.isNone := he ▸ isPresent_protected _ flags
  have hwrite : e'.isWritable = flags.write := he ▸ isWritable_protected _ flags
  have hu' := hu.setEntry rfl hv.first_lt e'
  have htabs := tabs_setEntry (u := u) (s := .ofAddr virt .pt) (e := e') rfl
  cases hp : (u.tables (.ofAddr virt .pt)).isPresent with
  | false =>
    -- only the permissions of a page that is not there are taken away
    have habs : e'.isPresent = false := by
      rw [hp, protectionFlags_present] at hguard
      rw [hpres]
      simpa using hguard
    have hleaves : (u.setEntry (.ofAddr virt .pt) e').leaves = u.leaves :=
      (leaves_setEntry_absent rfl hv habs).trans (leaves_absent rfl hv hp).symm
    refine ⟨⟨?_, hu', hst⟩, fun f => ?_, fun _ _ _ h => h.update rfl (fun h1 => ?_)⟩
    · rw [hleaves, htabs]
      exact .refl _
    · rw [hleaves]
    · rw [habs] at h1
      cases h1
  | true =>
    have hold := leaves_present rfl hv hp
    cases hn : flags.isNone with
    | true =>
      have habs : e'.isPresent = false := by rw [hpres, hn]; rfl
      have hnew := leaves_setEntry_absent rfl hv habs
      refine ⟨⟨?_, hu', hst⟩, fun f => ?_, fun _ _ _ h => h.update rfl (fun h1 => ?_)⟩
      · rw [hnew, hold, htabs, cons_add]
        exact sim_forget _ (hnone hn _ _ _)
      · rw [hnew, hold, cons_add]
        exact countP_le_of_le _ (le_cons_self _ _)
      · rw [habs] at h1
        cases h1
    | false =>
      have hthere : e'.isPresent = true := by rw [hpres, hn]; rfl
      have hnew := leaves_setEntry rfl hv hthere
      refine ⟨⟨?_, hu', hst⟩, fun f => ?_, fun _ _ _ h => h.update rfl (fun _ => ⟨hp, hframe⟩)⟩
      · have hone : flags.write = true → D (frameOf (u.tables (.ofAddr virt .pt))) →
            Sole (u.leaves + P) (frameOf (u.tables (.ofAddr virt .pt))) :=
          fun hw => (hsole hw).1 hvirt hr hp
        rw [hold] at hone ⊢
        rw [hnew, htabs, cons_add, cons_add]
        refine sim_protect hframe ?_
        rw [hwrite]
        cases hw : flags.write with
        | false => exact hdemote _ _ _
        | true =>
          refine hgrant hw _ _ _ (fun hd => ?_)
          have := hone hw hd
          rw [cons_add] at this
          exact this
      · rw [hnew, hold, cons_add, cons_add, Multiset.countP_cons, Multiset.countP_cons, hframe]

/-- **The first loop of `mprotect`.** -/
theorem protectPages_spec {n : Nat} (hu : SpaceOk u) (hst : StoreOk st)
    (hsole : flags.write = true → PagesAll (fun f => D f → Sole (u.leaves + P) f) u.tables n virt) :
    Carried A P T H S u st (protectPages n virt u flags) st := by
  induction n generalizing virt u with
  | zero => exact .refl hu hst
  | succ n ih =>
    obtain ⟨hc, hcount, hpages⟩ :=
      setUserPageFlags_spec hnone hdemote hgrant hu hst (fun hw => ⟨(hsole hw).1, trivial⟩)
    refine hc.trans (ih hc.space (fun hw => ?_))
    exact (hpages _ _ _ (hsole hw).2).mono (fun f h hd => Sole.of_le hcount f (h hd))

end Protect

end OxideOs.Vm
