import OxideOs.Mm.FrameSegment
import OxideOs.Proc.Isolation
import OxideOs.Syscall.Ipc

/-!
# `Ipc.Segments` — the life of shared memory segments

A segment is attached as often as its last page is mapped: `shmat` maps the pages in order and fails at the
first one it cannot map. As long as nobody detaches a segment, in whatever way, the frames of live segments are
not on the free list, `nattch` counts the attachments, and a removed segment returns each frame once
(`segment_lifetime`). The ways to detach one are all broken: `shmdt` forgets to count, and `munmap`, `exit` and
`fork` treat the frames like private pages.
-/

namespace OxideOs.Vm

open Option Paging Ledger UserAddressSpace FrameView Event ShmSegment List Multiset Nat Machine ShmRegistry

/-! ## Events and segments -/

/-- The events of system calls that have nothing to do with segments. -/
def Aloof (_ : Frame) (v : FrameView) (e : Event) : Prop := v.KeepsIsolated e ∧ (1 ≤ v.pinned → e.quiet = true)

/-- The events of all system calls that are careful with segments. -/
def Careful (_ : Frame) (v : FrameView) (e : Event) : Prop := v.KeepsSegmented e

variable {l l' : Ledger} {f : Frame}

variable {v : FrameView} {e : Event}

theorem Aloof.careful (h : Aloof f v e) : Careful f v e := ⟨h.1, fun hp => .inl (h.2 hp)⟩

/-- What has nothing to do with segments is not seen from their frames. -/
theorem view_aloof (h : Sim Aloof l l') (hiso : (l.view f).Isolated) (hp : 1 ≤ (l.view f).pinned) :
    l'.view f = l.view f := by
  refine (h f).invariant (fun v => v = l.view f) ?_ rfl
  rintro v e v' rfl he ha
  rw [hiso.apply_quiet hp (he.2 hp)] at ha
  cases ha

theorem view_careful (h : Sim Careful l l') (hseg : (l.view f).Segmented) : (l'.view f).Segmented :=
  (h f).invariant Segmented (fun _ _ _ hv he ha => hv.apply he ha) hseg

/-- Events that happen to frames of no segment are aloof, if they keep frames isolated. -/
theorem aloof_of_unpinned (h : v.KeepsIsolated e) (hp : v.pinned = 0) : Aloof f v e := ⟨h, fun _ => by omega⟩

theorem aloof_of_quiet (h : v.KeepsIsolated e) (he : e.quiet = true) : Aloof f v e := ⟨h, fun _ => he⟩

theorem aloof_mapping (f : Frame) (v : FrameView) (e : Event) (he : mapping e = true) : Aloof f v e := by
  cases e <;> first | exact aloof_of_quiet trivial rfl | cases he

/-! ## The registry -/

namespace ShmRegistry

/-- The frames of all live segments. -/
def pins (reg : ShmRegistry) : Multiset Frame := ↑(reg.segments.flatMap allocated)

/-- Ids are used once, and every segment has a page. -/
structure Ok (reg : ShmRegistry) : Prop where
  ids : (reg.segments.map ShmSegment.id).Nodup
  below : ∀ seg ∈ reg.segments, seg.id < reg.nextId
  pages : ∀ seg ∈ reg.segments, seg.frames ≠ []

variable {reg : ShmRegistry} {id : Nat} {seg : ShmSegment}

/-- The segment with an id, set apart from the others. -/
theorem Ok.split (h : reg.Ok) (hget : reg.get id = some seg) :
    ∃ l₁ l₂, reg.segments = l₁ ++ seg :: l₂ ∧ seg.id = id ∧
      (∀ seg', reg.put id seg' = { reg with segments := l₁ ++ seg' :: l₂ }) ∧
      reg.segments.filter (fun s => s.id ≠ id) = l₁ ++ l₂ := by
  obtain ⟨hid, l₁, l₂, hl, hbefore⟩ := find?_eq_some_iff_append.mp hget
  have hid : seg.id = id := by simpa using hid
  have hids := h.ids
  rw [hl, map_append, nodup_append] at hids
  have h1 : ∀ s ∈ l₁, s.id ≠ id := by
    intro s hs
    simpa using hbefore s hs
  have h2 : ∀ s ∈ l₂, s.id ≠ id := by
    intro s hs heq
    refine (nodup_cons.mp hids.2.1).1 ?_
    rw [hid, ← heq]
    exact mem_map_of_mem hs
  refine ⟨l₁, l₂, hl, hid, fun seg' => ?_, ?_⟩
  · unfold put
    rw [hl, map_append, List.map_cons, if_pos hid]
    have hsame : ∀ l : List ShmSegment, (∀ s ∈ l, s.id ≠ id) → l.map (fun s => if s.id = id then seg' else s) = l := by
      intro l hne
      exact (map_congr_left (fun s hs => if_neg (hne s hs))).trans (map_id l)
    rw [hsame l₁ h1, hsame l₂ h2]
  · rw [hl, filter_append, List.filter_cons_of_neg (by simp [hid])]
    rw [List.filter_eq_self.mpr (fun s hs => by simpa using h1 s hs),
      List.filter_eq_self.mpr (fun s hs => by simpa using h2 s hs)]

/-- The frames of one segment, set apart. -/
theorem pins_split (l₁ l₂ : List ShmSegment) (seg : ShmSegment) (nextId : Nat) :
    pins ⟨l₁ ++ seg :: l₂, nextId⟩ = ↑seg.allocated + pins ⟨l₁ ++ l₂, nextId⟩ := by
  unfold pins
  simp only [flatMap_append, flatMap_cons, ← coe_add]
  exact add_left_comm _ _ _

end ShmRegistry

/-! ## Attaching -/

variable {u u' : UserAddressSpace} {st st' : FrameStore} {seg seg' : ShmSegment}
variable {P : Multiset PageTableEntry} {T H R : Multiset Frame}

variable {frames : List (Option Frame)} {i : Nat} {pages : List Nat}

/-- A page gets its frame. -/
theorem reduceOption_set (h : frames[i]? = some none) (f : Frame) :
    ((frames.set i (some f)).reduceOption : Multiset Frame) = f ::ₘ ↑frames.reduceOption := by
  induction frames generalizing i with
  | nil => cases h
  | cons o frames ih =>
    cases i with
    | zero =>
      cases h
      rfl
    | succ i =>
      have ih := ih h
      rw [set_cons_succ]
      cases o with
      | none => rw [reduceOption_cons_of_none, reduceOption_cons_of_none, ih]
      | some g => rw [reduceOption_cons_of_some, reduceOption_cons_of_some, ← cons_coe, ← cons_coe, ih, cons_swap]

/-- What `get_or_alloc_frame` does: the page has a frame, which was there before or was free. -/
structure Supplied (seg : ShmSegment) (st : FrameStore) (i : Nat) (f : Frame) (seg' : ShmSegment) : Prop where
  same : seg' = { seg with frames := seg'.frames }
  length : seg'.frames.length = seg.frames.length
  page : seg'.frames[i]? = some (some f)
  kept : ∀ (j : Nat) g, seg.frames[j]? = some (some g) → seg'.frames[j]? = some (some g)
  fresh : ∀ g ∈ seg'.allocated, g ∈ seg.allocated ∨ g ∈ st.free

/-- **`get_or_alloc_frame`.** -/
theorem getOrAllocFrame_spec {r : Option Frame} (hst : StoreOk st) (h : seg.getOrAllocFrame i st = (r, seg', st')) :
    StoreOk st' ∧ (∀ f ∈ st'.free, f ∈ st.free) ∧
      Sim Careful ⟨P, T, H, ↑seg.allocated + R, st⟩ ⟨P, T, H, ↑seg'.allocated + R, st'⟩ ∧
      (r = none → seg' = seg) ∧ ∀ f, r = some f → Supplied seg st i f seg' := by
  unfold getOrAllocFrame at h
  split at h
  · cases h
    exact ⟨hst, fun _ hf => hf, Sim.refl _, fun _ => rfl, nofun⟩
  next f hpage =>
    cases h
    refine ⟨hst, fun _ hf => hf, Sim.refl _, nofun, fun g hg => ?_⟩
    cases hg
    exact ⟨rfl, rfl, hpage, fun _ _ hg => hg, fun _ hg => .inl hg⟩
  rename_i hpage
  have ha := FrameStore.allocFrame_spec st
  split at h
  next st1 hal =>
    rw [hal] at ha
    cases h
    exact ⟨hst.allocated ha, ha.free_subset, sim_refused ha, fun _ => rfl, nofun⟩
  rename_i f st1 hal
  rw [hal] at ha
  obtain ⟨rfl, hrest⟩ := Prod.mk.inj h
  cases hrest
  have hmore : (({ seg with frames := seg.frames.set i _ } : ShmSegment).allocated : Multiset Frame) =
      f ::ₘ ↑seg.allocated := reduceOption_set hpage f
  refine ⟨hst.allocated ha, ha.free_subset, ?_, nofun, fun g hg => ?_⟩
  · rw [hmore, cons_add]
    exact (sim_take ha (fun f v => (aloof_mapping f v _ rfl).careful)).trans
      (sim_pin f (fun f v => ⟨trivial, fun _ => .inl rfl⟩))
  cases hg
  have hlt : i < seg.frames.length := (List.getElem?_eq_some_iff.mp hpage).1
  refine ⟨rfl, length_set, List.getElem?_set_self hlt, fun j g hg => ?_, fun g hg => ?_⟩
  · show (seg.frames.set i (some f))[j]? = some (some g)
    rw [List.getElem?_set_ne ?_, hg]
    rintro rfl
    rw [hpage] at hg
    cases hg
  have hg : g ∈ f ::ₘ (↑seg.allocated : Multiset Frame) := hmore ▸ mem_coe.mpr hg
  rcases Multiset.mem_cons.mp hg with rfl | hg
  · cases ha with
    | frame _ _ hfree => exact .inr hfree
  · exact .inl (mem_coe.mp hg)

/-- **The loop of `shmat`**: `done` are the pages it has mapped, one entry for each. -/
structure Attached (seg : ShmSegment) (u : UserAddressSpace) (st : FrameStore) (pages done : List Nat) (b : Bool)
    (seg' : ShmSegment) (u' : UserAddressSpace) (st' : FrameStore) : Prop where
  space : SpaceOk u'
  store : StoreOk st'
  same : seg' = { seg with frames := seg'.frames }
  length : seg'.frames.length = seg.frames.length
  kept : ∀ (j : Nat) g, seg.frames[j]? = some (some g) → seg'.frames[j]? = some (some g)
  fresh : ∀ g ∈ seg'.allocated, g ∈ seg.allocated ∨ g ∈ st.free
  pre : done <+: pages
  full : b = true → done = pages
  short : b = false → done.length < pages.length
  leaves : ∃ E : List PageTableEntry, u'.leaves = ↑E + u.leaves ∧
    E.map (fun e => some (frameOf e)) = done.map (fun j => seg'.frames[j]?.join)

variable {done : List Nat} {b : Bool}

/-- One page with its entry, and then the pages after it. -/
theorem Attached.cons {seg1 : ShmSegment} {u1 : UserAddressSpace} {st1 : FrameStore} {e : PageTableEntry}
    (h : Attached seg1 u1 st1 pages done b seg' u' st') (hsup : Supplied seg st i f seg1)
    (hfree : ∀ g ∈ st1.free, g ∈ st.free) (hleaves : u1.leaves = e ::ₘ u.leaves) (he : frameOf e = f) :
    Attached seg u st (i :: pages) (i :: done) b seg' u' st' := by
  refine ⟨h.space, h.store, ?_, ?_, ?_, ?_, ?_, ?_, ?_, ?_⟩
  · rw [h.same, hsup.same]
  · exact h.length.trans hsup.length
  · exact fun j g hj => h.kept j g (hsup.kept j g hj)
  · intro g hg
    rcases h.fresh g hg with hg | hg
    · exact hsup.fresh g hg
    · exact .inr (hfree g hg)
  · exact (prefix_cons_inj i).mpr h.pre
  · exact fun hb => congrArg _ (h.full hb)
  · exact fun hb => succ_lt_succ (h.short hb)
  · obtain ⟨E, hE, hframes⟩ := h.leaves
    refine ⟨e :: E, ?_, ?_⟩
    · rw [hE, hleaves, ← cons_coe, cons_add, add_cons]
    · rw [List.map_cons, List.map_cons, hframes, he, h.kept i f hsup.page]
      rfl

theorem attachPages_spec {addr : Nat} {flags : MemoryFlags} (hu : SpaceOk u)
    (hst : StoreOk st) (h : attachPages addr flags pages seg u st = (b, seg', u', st')) :
    (∃ done, Attached seg u st pages done b seg' u' st') ∧
      Sim Careful ⟨u.leaves + P, u.tabs + T, H, ↑seg.allocated + R, st⟩
        ⟨u'.leaves + P, u'.tabs + T, H, ↑seg'.allocated + R, st'⟩ := by
  induction pages generalizing seg u st with
  | nil =>
    obtain ⟨rfl, rfl, rfl, rfl⟩ := by simpa using h
    exact ⟨⟨[], hu, hst, rfl, rfl, fun _ _ hg => hg, fun _ hg => .inl hg, nil_prefix, fun _ => rfl,
      nofun, [], (zero_add _).symm, rfl⟩, Sim.refl _⟩
  | cons i pages ih =>
    simp only [attachPages] at h
    split at h
    next seg1 st1 hget =>
      obtain ⟨hst1, -, hsim, hnone, -⟩ := getOrAllocFrame_spec hst hget
      cases h
      obtain rfl := hnone rfl
      exact ⟨⟨[], hu, hst1, rfl, rfl, fun _ _ hg => hg, fun _ hg => .inl hg, nil_prefix,
        nofun, fun _ => zero_lt_succ _, [], (zero_add _).symm, rfl⟩, hsim⟩
    rename_i f seg1 st1 hget
    obtain ⟨hst1, hfree, hsim, -, hsome⟩ := getOrAllocFrame_spec hst hget
    have hsup := hsome f rfl
    have hmap := mapUserPage_spec (P := P) (T := T) (S := ↑seg1.allocated + R) hu hst1
      (fun f v e he => (aloof_mapping f v e he).careful) (BitVec.ofNat 64 (addr + i * 4096)) f flags
    split at h
    next err u2 st2 hm =>
      rw [hm] at hmap
      cases h
      cases hmap with
      | failed _ hg =>
        exact ⟨⟨[], hg.space, hg.store, hsup.same, hsup.length, hsup.kept, hsup.fresh, nil_prefix,
          nofun, fun _ => zero_lt_succ _, [], hg.leaves.trans (zero_add _).symm,
          rfl⟩, hsim.trans (hg.carried H).sim⟩
    rename_i u2 st2 hm
    rw [hm] at hmap
    cases hmap with
    | mapped fl hvirt hg hv habs hpres =>
      rename_i u1
      obtain ⟨⟨done, hrest⟩, hsim'⟩ := ih (hg.space.setEntry rfl hv.first_lt _) hg.store h
      -- the entry for this page
      have hleaves := leaves_setEntry rfl hv hpres
      rw [← leaves_absent rfl hv habs, hg.leaves] at hleaves
      have hin : f ∈ (↑seg1.allocated + R : Multiset Frame) := by
        refine mem_add.mpr (.inl (mem_coe.mpr ?_))
        exact reduceOption_mem_iff.mpr (mem_of_getElem? hsup.page)
      have hattach := sim_attach (A := Careful) (u1.leaves + P) (u1.tabs + T) H _ st2
        (PageTableEntry.set f.addr fl) (by rwa [frameOf_set]) (fun f v w => ⟨trivial, fun _ => .inr rfl⟩)
      refine ⟨⟨i :: done, hrest.cons hsup (fun g hgs => hfree g (hg.free g hgs)) hleaves (frameOf_set _ _)⟩, ?_⟩
      refine hsim.trans ((hg.carried H).sim.trans (Sim.trans ?_ hsim'))
      rw [hleaves, ← hg.leaves, tabs_setEntry rfl, cons_add]
      exact hattach

/-! ## Counting attachments -/

/-- With every frame allocated once, pages do not share frames. -/
theorem reduceOption_inj {j : Nat} (hnd : frames.reduceOption.Nodup)
    (hi : frames[i]? = some (some f)) (hj : frames[j]? = some (some f)) : i = j := by
  induction frames generalizing i j with
  | nil => cases hi
  | cons o frames ih =>
    have hmem : ∀ {k : Nat}, frames[k]? = some (some f) → f ∈ frames.reduceOption := fun hk =>
      reduceOption_mem_iff.mpr (mem_of_getElem? hk)
    have htail : frames.reduceOption.Nodup := by
      cases o with
      | none => rwa [reduceOption_cons_of_none] at hnd
      | some g => exact (nodup_cons.mp hnd).2
    -- the first page has a frame of its own
    have hfirst : o = some f → f ∉ frames.reduceOption := by
      rintro rfl
      exact (nodup_cons.mp hnd).1
    cases i with
    | zero =>
      cases j with
      | zero => rfl
      | succ j => exact absurd (hmem hj) (hfirst (some.inj hi))
    | succ i =>
      cases j with
      | zero => exact absurd (hmem hi) (hfirst (some.inj hj))
      | succ j => exact congrArg (· + 1) (ih htail hi hj)

/-- The entries for a frame of the segment are as many as the mapped pages with that frame. -/
theorem countP_frames {E : List PageTableEntry}
    (h : E.map (fun e => some (frameOf e)) = done.map (fun j => frames[j]?.join)) (g : Frame) :
    E.countP (fun e => frameOf e = g) = done.countP (fun j => frames[j]?.join = some g) := by
  have hE : E.countP (fun e => frameOf e = g) = (E.map (fun e => some (frameOf e))).countP (fun o => o = some g) := by
    rw [List.countP_map]
    congr 1
    funext e
    simp
  rw [hE, h, List.countP_map]
  rfl

/-- No entries for frames of other segments are added. -/
theorem Attached.count_other {g : Frame} (h : Attached seg u st pages done b seg' u' st') (hg : g ∉ seg'.allocated) :
    u'.leaves.countP (fun e => frameOf e = g) = u.leaves.countP (fun e => frameOf e = g) := by
  obtain ⟨E, hE, hframes⟩ := h.leaves
  have hnone : E.countP (fun e => frameOf e = g) = 0 := by
    rw [countP_frames hframes]
    refine countP_eq_zero.mpr (fun j _ hj => hg ?_)
    have hj : seg'.frames[j]?.join = some g := by simpa using hj
    exact reduceOption_mem_iff.mpr (mem_of_getElem? (join_eq_some_iff.mp hj))
  rw [hE, countP_add, coe_countP, hnone, zero_add]

/-- **One more entry for the last page when `shmat` succeeds**, none when it fails. -/
theorem Attached.count_last (h : Attached seg u st (List.range seg.numPages) done b seg' u' st')
    (hnd : seg'.allocated.Nodup) (hf : seg'.frames.getLast? = some (some f)) :
    u'.leaves.countP (fun e => frameOf e = f) = u.leaves.countP (fun e => frameOf e = f) + b.toNat := by
  obtain ⟨E, hE, hframes⟩ := h.leaves
  have hlen : seg'.frames.length = seg.numPages := h.length
  rw [getLast?_eq_getElem?, hlen] at hf
  have hpos : 0 < seg.numPages := by
    have := (List.getElem?_eq_some_iff.mp hf).1
    omega
  have hdone : done = List.range done.length := by
    rw [prefix_iff_eq_take.mp h.pre, take_range, length_range]
  have hpage : ∀ j, seg'.frames[j]?.join = some f ↔ j = seg.numPages - 1 := by
    intro j
    refine ⟨fun hj => reduceOption_inj hnd (join_eq_some_iff.mp hj) hf, ?_⟩
    rintro rfl
    rw [hf]
    rfl
  have hcount : E.countP (fun e => frameOf e = f) = b.toNat := by
    rw [countP_frames hframes]
    cases b with
    | true =>
      obtain ⟨n, hn⟩ := exists_eq_succ_of_ne_zero (ne_of_gt hpos)
      rw [h.full rfl, hn, List.range_succ, countP_append]
      have hbefore : (List.range n).countP (fun j => seg'.frames[j]?.join = some f) = 0 := by
        refine countP_eq_zero.mpr (fun j hj hp => ?_)
        have := (hpage j).mp (by simpa using hp)
        have := List.mem_range.mp hj
        omega
      have hlast : seg'.frames[n]?.join = some f := (hpage n).mpr (by omega)
      rw [hbefore, countP_singleton, if_pos (by simpa using hlast)]
      rfl
    | false =>
      have hlt := h.short rfl
      rw [length_range] at hlt
      refine countP_eq_zero.mpr (fun j hj hp => ?_)
      have := (hpage j).mp (by simpa using hp)
      rw [hdone] at hj
      have := List.mem_range.mp hj
      omega
  rw [hE, countP_add, coe_countP, hcount, add_comm]

/-! ## The invariant -/

/-- The number of attachments of a segment: the number of entries that map its last page. -/
def Machine.attachments (m : Machine) (seg : ShmSegment) : Nat := seg.frames.getLast?.join.elim 0 m.mapCount

theorem mem_allocated_of_last (h : seg.frames.getLast? = some (some f)) : f ∈ seg.allocated :=
  reduceOption_mem_iff.mpr (mem_of_getLast? h)

/-- Attachments are counted at frames of the segment. -/
theorem Machine.attachments_congr {m m' : Machine} (h : ∀ f ∈ seg.allocated, m'.mapCount f = m.mapCount f) :
    m'.attachments seg = m.attachments seg := by
  unfold attachments
  cases hlast : seg.frames.getLast?.join with
  | none => rfl
  | some f => exact h f (mem_allocated_of_last (join_eq_some_iff.mp hlast))

namespace ShmMachine

variable {s s' : ShmMachine}

def ledger (s : ShmMachine) : Ledger := s.machine.ledgerWith s.registry.pins

/-- **Segments are alive**: their frames are theirs, and their attachments are counted. -/
structure Live (s : ShmMachine) : Prop where
  ok : s.machine.Ok
  registry : s.registry.Ok
  frames : ∀ f, (s.ledger.view f).Segmented
  counted : ∀ seg ∈ s.registry.segments, seg.nattch = s.machine.attachments seg

variable {m : Machine} {l₁ l₂ : List ShmSegment} {pid shmaddr : Nat} {p q : ProcessMeta}
   {answers : List (Option Frame)} {store : FrameStore} {r : Int} {virt : VirtAddr}

/-- A frame belongs to one segment at most, and to one page of it. -/
theorem nodup_of_segmented {S : Multiset Frame} (h : ∀ f, ((m.ledgerWith S).view f).Segmented) : S.Nodup := by
  refine nodup_iff_count_le_one.mpr (fun f => ?_)
  have howner := (h f).isolated.owner
  have hpin : ((m.ledgerWith S).view f).pinned = S.count f := rfl
  omega

theorem Live.pins_nodup (h : s.Live) : s.registry.pins.Nodup := nodup_of_segmented h.frames

theorem mem_pins (hseg : seg ∈ s.registry.segments) (hf : f ∈ seg.allocated) : f ∈ s.registry.pins :=
  mem_coe.mpr (mem_flatMap.mpr ⟨seg, hseg, hf⟩)

/-- What is not seen from the frames of segments keeps segments alive. -/
theorem Live.aloof (h : s.Live) (hok : m.Ok)
    (hsim : Sim Aloof s.ledger (m.ledgerWith s.registry.pins)) : ({ s with machine := m } : ShmMachine).Live := by
  refine ⟨hok, h.registry, fun f => view_careful (hsim.mono fun _ _ _ he => he.careful) (h.frames f),
    fun seg hseg => ?_⟩
  rw [h.counted seg hseg]
  refine (attachments_congr (fun f hf => ?_)).symm
  have hview := view_aloof hsim (h.frames f).isolated (one_le_count_iff_mem.mpr (mem_pins hseg hf))
  have hmaps : ((m.ledgerWith s.registry.pins).view f).maps = (s.ledger.view f).maps := congrArg maps hview
  rw [mapCount_eq, mapCount_eq]
  exact hmaps

theorem pins_eq (hl : s.registry.segments = l₁ ++ seg :: l₂) :
    s.registry.pins = ↑seg.allocated + pins ⟨l₁ ++ l₂, s.registry.nextId⟩ := by
  rw [← pins_split, ← hl]

/-- One segment changes, and the machine with it. -/
theorem Live.replace (h : s.Live) (seg' : ShmSegment) (hl : s.registry.segments = l₁ ++ seg :: l₂)
    (hok : m.Ok) (hid : seg'.id = seg.id) (hpages : seg'.frames ≠ [])
    (hframes : ∀ f,
      ((m.ledgerWith (↑seg'.allocated + ShmRegistry.pins ⟨l₁ ++ l₂, s.registry.nextId⟩)).view f).Segmented)
    (hothers : ∀ t ∈ l₁ ++ l₂, m.attachments t = s.machine.attachments t) (hthis : seg'.nattch = m.attachments seg') :
    (⟨m, { s.registry with segments := l₁ ++ seg' :: l₂ }⟩ : ShmMachine).Live := by
  -- what holds for the new segment and for the others
  have hall : ∀ {Q : ShmSegment → Prop}, Q seg' → (∀ t ∈ l₁ ++ l₂, Q t) → ∀ t ∈ l₁ ++ seg' :: l₂, Q t :=
    fun hq hrest t ht => List.forall_mem_cons.mpr ⟨hq, hrest⟩ t (perm_middle.mem_iff.mp ht)
  have hold : ∀ {t : ShmSegment}, t ∈ l₁ ++ l₂ → t ∈ s.registry.segments := fun ht =>
    hl ▸ perm_middle.mem_iff.mpr (mem_cons_of_mem _ ht)
  have hthere := mem_iff_append.mpr ⟨_, _, hl⟩
  refine ⟨hok, ⟨?_, hall ?_ fun t ht => h.registry.below t (hold ht), hall hpages fun t ht => ?_⟩, fun f => ?_,
    hall hthis fun t ht => (h.counted t (hold ht)).trans (hothers t ht).symm⟩
  · have hids := h.registry.ids
    rw [hl] at hids
    simp only [map_append, List.map_cons] at hids ⊢
    rwa [hid]
  · rw [hid]
    exact h.registry.below seg hthere
  · exact h.registry.pages t (hold ht)
  · show ((m.ledgerWith (pins ⟨l₁ ++ seg' :: l₂, _⟩)).view f).Segmented
    rw [pins_split]
    exact hframes f

/-! ## `shmget` and `shmctl` -/

/-- A segment that has not been attached yet. -/
theorem allocated_new (id : Nat) (key : BitVec 32) (size : Nat) (uid gid mode : BitVec 32) :
    (new id key size uid gid mode).allocated = [] := by
  refine eq_nil_iff_forall_not_mem.mpr (fun f hf => ?_)
  have hmem := reduceOption_mem_iff.mp hf
  cases (List.mem_replicate.mp hmem).2

/-- **`shmget`.** -/
theorem Live.shmget {key : BitVec 32} {size : Nat} {flags uid gid : BitVec 32} {r : Except Int Nat}
    {reg : ShmRegistry} (h : s.Live) (hget : s.registry.shmget key size flags uid gid = some (r, reg)) :
    ({ s with registry := reg } : ShmMachine).Live := by
  unfold ShmRegistry.shmget at hget
  split at hget
  · cases hget
    exact h
  split at hget
  · split at hget
    all_goals
      cases hget
      exact h
  split at hget
  · cases hget
    exact h
  split at hget
  · cases hget
  cases hget
  have hpins : ShmRegistry.pins ⟨s.registry.segments ++ [new s.registry.nextId key size uid gid
      (flags &&& SHM_PERM_MASK)], s.registry.nextId + 1⟩ = s.registry.pins := by
    unfold ShmRegistry.pins
    rw [flatMap_append, flatMap_singleton, allocated_new, append_nil]
  refine ⟨h.ok, ⟨?_, ?_, ?_⟩, fun f => ?_, forall_mem_append.mpr ⟨h.counted, List.forall_mem_singleton.mpr ?_⟩⟩
  · rw [map_append]
    refine nodup_append.mpr ⟨h.registry.ids, List.nodup_singleton _, fun a ha b hb hab => ?_⟩
    obtain ⟨seg, hseg, rfl⟩ := mem_map.mp ha
    have := h.registry.below seg hseg
    rw [hab, List.mem_singleton.mp hb] at this
    exact absurd this (lt_irrefl _)
  · refine forall_mem_append.mpr ⟨fun seg hseg => ?_, List.forall_mem_singleton.mpr (lt_succ_self _)⟩
    exact lt_succ_of_lt (h.registry.below seg hseg)
  · refine forall_mem_append.mpr ⟨h.registry.pages, List.forall_mem_singleton.mpr ?_⟩
    simp only [ShmSegment.new, ne_eq, replicate_eq_nil_iff]
    omega
  · show ((s.machine.ledgerWith (ShmRegistry.pins _)).view f).Segmented
    rw [hpins]
    exact h.frames f
  · unfold attachments
    cases hlast : (new s.registry.nextId key size uid gid (flags &&& SHM_PERM_MASK)).frames.getLast?.join with
    | none => rfl
    | some f =>
      have hmem := mem_allocated_of_last (join_eq_some_iff.mp hlast)
      rw [allocated_new] at hmem
      cases hmem

/-- The frames of a segment nobody maps are returned. -/
theorem sim_removeAll (frames : List Frame) (hmaps : ∀ f ∈ frames, P.countP (fun e => frameOf e = f) = 0) :
    Sim Careful ⟨P, T, H, ↑frames + R, st⟩ ⟨P, T, H, R, freeAll st frames⟩ := by
  induction frames generalizing st with
  | nil =>
    rw [coe_nil, zero_add]
    exact .refl _
  | cons f frames ih =>
    rw [← cons_coe, cons_add]
    refine (sim_unpin f ?_).trans ((sim_giveBack f ?_).trans ?_)
    · exact ⟨hmaps f mem_cons_self, fun _ => .inr rfl⟩
    · exact fun f v => ⟨trivial, fun _ => .inl rfl⟩
    · exact ih (fun f hf => hmaps f (mem_cons_of_mem _ hf))

/-- **`shmctl(IPC_RMID)`** of a segment that is attached, or that nobody maps. -/
theorem Live.remove {id : Nat} (h : s.Live)
    (hfree : ∀ seg, s.registry.get id = some seg → seg.nattch = 0 → ∀ f ∈ seg.allocated, s.machine.mapCount f = 0) :
    ({ machine := { s.machine with store := (s.registry.remove id s.machine.store).2.2 }
       registry := (s.registry.remove id s.machine.store).2.1 } : ShmMachine).Live := by
  unfold ShmRegistry.remove
  split
  · exact h
  rename_i seg hget
  obtain ⟨l₁, l₂, hl, -, hput, hfilter⟩ := h.registry.split hget
  have hthere := mem_iff_append.mpr ⟨_, _, hl⟩
  split
  · -- only marked
    simp only [hput]
    refine h.replace { seg with markedForRemoval := true } hl h.ok rfl (h.registry.pages seg hthere)
      (fun f => ?_) (fun t _ => rfl) (h.counted seg hthere)
    have hf := h.frames f
    unfold ledger at hf
    rwa [pins_eq hl] at hf
  have hmaps := hfree seg hget (by omega)
  have hsim : Sim Careful s.ledger
      (({ s.machine with store := freeAll s.machine.store seg.allocated } : Machine).ledgerWith
        (pins ⟨l₁ ++ l₂, s.registry.nextId⟩)) := by
    unfold ledger
    rw [pins_eq hl]
    refine sim_removeAll seg.allocated (fun f hf => ?_)
    rw [← hmaps f hf, mapCount_eq]
    rfl
  refine ⟨⟨h.ok.spaces, h.ok.store.freeAll _⟩, ?_, fun f => ?_, fun t ht => ?_⟩
  · have hsub : (l₁ ++ l₂).Sublist s.registry.segments := hfilter ▸ filter_sublist
    simp only [hfilter]
    exact ⟨h.registry.ids.sublist (hsub.map _), fun t ht => h.registry.below t (hsub.subset ht),
      fun t ht => h.registry.pages t (hsub.subset ht)⟩
  · have hf := view_careful hsim (h.frames f)
    simp only [hfilter]
    exact hf
  · exact h.counted t (mem_of_mem_filter ht)

/-! ## `shmat` and `shmdt` -/

/-- The entries of one process, counted apart from the others. -/
theorem mapCount_commit (hp : m.proc pid = some p) (q : ProcessMeta) (store : FrameStore) (f : Frame) :
    (m.commit pid q store).mapCount f + p.addressSpace.leaves.countP (fun e => frameOf e = f) =
      m.mapCount f + q.addressSpace.leaves.countP (fun e => frameOf e = f) := by
  obtain ⟨P, T, hap⟩ := exists_apart hp
  have hm : m.mapCount f = (p.addressSpace.leaves + P).countP (fun e => frameOf e = f) := by
    rw [mapCount_eq]
    exact congrArg (fun l : Ledger => (l.view f).maps) (hap.ledger 0)
  have hq : (m.commit pid q store).mapCount f = (q.addressSpace.leaves + P).countP (fun e => frameOf e = f) := by
    rw [mapCount_eq]
    exact congrArg (fun l : Ledger => (l.view f).maps) (hap.commit q store 0)
  rw [hm, hq, countP_add, countP_add]
  omega

/-- The last page, before and after: if it had a frame it has kept it, otherwise its frame was free. -/
theorem last_page (h : Attached seg u st pages done b seg' u' st') (hnd : seg'.allocated.Nodup)
    (hf : seg'.frames.getLast? = some (some f)) :
    seg.frames.getLast? = some (some f) ∨ seg.frames.getLast?.join = none ∧ f ∈ st.free := by
  rw [getLast?_eq_getElem?, h.length] at hf
  rw [getLast?_eq_getElem?]
  cases hold : seg.frames[seg.frames.length - 1]?.join with
  | some g =>
    have hg := join_eq_some_iff.mp hold
    have hkept := h.kept _ g hg
    rw [hf] at hkept
    rw [hg]
    exact .inl hkept.symm
  | none =>
    refine .inr ⟨rfl, ?_⟩
    have hmem : f ∈ seg'.allocated := reduceOption_mem_iff.mpr (mem_of_getElem? hf)
    refine (h.fresh f hmem).resolve_left (fun hin => ?_)
    obtain ⟨j, hj⟩ := mem_iff_getElem?.mp (reduceOption_mem_iff.mp hin)
    have heq := reduceOption_inj hnd (h.kept j f hj) hf
    rw [heq] at hj
    rw [hj] at hold
    cases hold

/-- When all pages are mapped, the last one has a frame. -/
theorem exists_last (h : Attached seg u st (List.range seg.numPages) done true seg' u' st') (hpages : seg.frames ≠ []) :
    ∃ f, seg'.frames.getLast?.join = some f := by
  obtain ⟨E, -, hframes⟩ := h.leaves
  have hpos : 0 < seg.numPages := length_pos_iff.mpr hpages
  have hin : seg'.frames[seg.numPages - 1]?.join ∈ done.map (fun j => seg'.frames[j]?.join) := by
    rw [h.full rfl]
    exact mem_map.mpr ⟨seg.numPages - 1, List.mem_range.mpr (by omega), rfl⟩
  rw [← hframes] at hin
  obtain ⟨e, -, he⟩ := List.mem_map.mp hin
  refine ⟨frameOf e, ?_⟩
  rw [getLast?_eq_getElem?, h.length]
  exact he.symm

/-- The loop of `shmat` adds one attachment when it gets to the end. -/
theorem Live.attachments_attach (h : s.Live) (hp : s.machine.proc pid = some p) (hseg : seg ∈ s.registry.segments)
    (hatt : Attached seg p.addressSpace { s.machine.store with answers } (List.range seg.numPages) done b seg'
      q.addressSpace store) (hnd : seg'.allocated.Nodup) :
    (s.machine.commit pid q store).attachments seg' = seg.nattch + b.toNat := by
  rw [h.counted seg hseg]
  unfold attachments
  cases hlast : seg'.frames.getLast?.join with
  | none =>
    cases b with
    | true =>
      obtain ⟨f, hf⟩ := exists_last hatt (h.registry.pages seg hseg)
      rw [hlast] at hf
      cases hf
    | false =>
      cases hold : seg.frames.getLast?.join with
      | none => rfl
      | some f =>
        have hf := join_eq_some_iff.mp hold
        rw [getLast?_eq_getElem?] at hf
        have hkept := hatt.kept _ f hf
        rw [← hatt.length, ← getLast?_eq_getElem?] at hkept
        rw [hkept] at hlast
        cases hlast
  | some f =>
    have hf := join_eq_some_iff.mp hlast
    have hcount := mapCount_commit hp q store f
    rw [hatt.count_last hnd hf] at hcount
    rcases last_page hatt hnd hf with hold | ⟨hold, hfree⟩
    · rw [hold]
      show (s.machine.commit pid q store).mapCount f = s.machine.mapCount f + b.toNat
      omega
    -- a frame that was free was not mapped
    have hidle := (h.frames f).isolated.idle
    have hmaps : s.machine.mapCount f = (s.ledger.view f).maps := mapCount_eq _ f
    have hpos : 1 ≤ (s.ledger.view f).free := count_pos_iff.mpr hfree
    rw [hold]
    show (s.machine.commit pid q store).mapCount f = 0 + b.toNat
    omega

/-- **The pages of `shmat`**: if all are mapped, `nattch` has to go up, otherwise not. -/
theorem Live.attach (h : s.Live) (nattch : Nat) (hp : s.machine.proc pid = some p)
    (hl : s.registry.segments = l₁ ++ seg :: l₂)
    (hatt : Attached seg p.addressSpace { s.machine.store with answers } (List.range seg.numPages) done b seg'
      q.addressSpace store) (hsim : ∀ P T H R, Sim Careful
      ⟨p.addressSpace.leaves + P, p.addressSpace.tabs + T, H, ↑seg.allocated + R, { s.machine.store with answers }⟩
      ⟨q.addressSpace.leaves + P, q.addressSpace.tabs + T, H, ↑seg'.allocated + R, store⟩)
    (hn : nattch = seg.nattch + b.toNat) : (⟨s.machine.commit pid q store,
      { s.registry with segments := l₁ ++ { seg' with nattch } :: l₂ }⟩ : ShmMachine).Live := by
  have hthere := mem_iff_append.mpr ⟨_, _, hl⟩
  obtain ⟨P, T, hap⟩ := exists_apart hp
  have hframes : ∀ f, (((s.machine.commit pid q store).ledgerWith
      (↑seg'.allocated + pins ⟨l₁ ++ l₂, s.registry.nextId⟩)).view f).Segmented := by
    intro f
    rw [hap.commit]
    refine view_careful (hsim P T _ _) ?_
    have hf := h.frames f
    unfold ledger at hf
    rw [pins_eq hl, hap.ledger] at hf
    exact hf
  obtain ⟨hnd, -, hdisj⟩ := nodup_add.mp (nodup_of_segmented hframes)
  refine h.replace _ hl (h.ok.commit hatt.space hatt.store) ?_ ?_ hframes (fun t ht => ?_) ?_
  · rw [hatt.same]
  · refine length_pos_iff.mp ?_
    rw [hatt.length]
    exact length_pos_iff.mpr (h.registry.pages seg hthere)
  · -- the entries of the other segments are where they were
    refine attachments_congr (fun f hf => ?_)
    have hin : f ∈ pins ⟨l₁ ++ l₂, s.registry.nextId⟩ := mem_coe.mpr (mem_flatMap.mpr ⟨t, ht, hf⟩)
    have hout : f ∉ seg'.allocated := fun hin' => disjoint_left.mp hdisj (mem_coe.mpr hin') hin
    have hcount := mapCount_commit hp q store f
    rw [hatt.count_other hout] at hcount
    omega
  · exact hn.trans (h.attachments_attach hp hthere hatt (coe_nodup.mp hnd)).symm

/-- A process and a store put back as they were. -/
theorem Live.commit_same (h : s.Live) (hp : s.machine.proc pid = some p) :
    ({ s with machine := s.machine.commit pid p { s.machine.store with answers } } : ShmMachine).Live := by
  obtain ⟨P, T, hap⟩ := exists_apart hp
  refine h.aloof (h.ok.commit (h.ok.spaces pid p hp) (h.ok.answers answers)) ?_
  unfold ledger
  rw [hap.ledger, hap.commit]
  exact .ofView (fun _ => rfl)

/-- **`shmat`**, as long as `nattch` does not overflow. -/
theorem Live.shmat {shmid : Nat} {shmflg : BitVec 32} {reg : ShmRegistry} (h : s.Live)
    (hp : s.machine.proc pid = some p) (hroom : ∀ seg, s.registry.get shmid = some seg → seg.nattch + 1 < 2 ^ 32)
    (hat : sysShmat p s.registry { s.machine.store with answers } shmid shmaddr shmflg = some (r, q, reg, store)) :
    (⟨s.machine.commit pid q store, reg⟩ : ShmMachine).Live := by
  unfold sysShmat at hat
  split at hat
  · cases hat
    exact h.commit_same hp
  rename_i seg hget
  obtain ⟨l₁, l₂, hl, -, hput, -⟩ := h.registry.split hget
  obtain ⟨place, -, hat⟩ := bind_eq_some_iff.mp hat
  split at hat
  · cases hat
    exact h.commit_same hp
  rename_i addr
  obtain ⟨⟨b, seg', u', st'⟩, hpages⟩ : ∃ r, attachPages addr (shmMemFlags (has shmflg SHM_RDONLY))
      (range seg.numPages) seg p.addressSpace { s.machine.store with answers } = r := ⟨_, rfl⟩
  have hspec := fun P T H R =>
    attachPages_spec (P := P) (T := T) (H := H) (R := R) (h.ok.spaces pid p hp) (h.ok.answers answers) hpages
  obtain ⟨⟨done, hatt⟩, -⟩ := hspec 0 0 0 0
  have hsame : seg'.nattch = seg.nattch := by rw [hatt.same]
  rw [hpages] at hat
  cases b with
  | false =>
    obtain ⟨-, hq⟩ := Prod.mk.inj (some.inj hat)
    obtain ⟨rfl, hreg⟩ := Prod.mk.inj hq
    cases hreg
    rw [hput]
    exact h.attach seg'.nattch hp hl hatt (fun P T H R => (hspec P T H R).2) hsame
  | true =>
    obtain ⟨stop, -, hat⟩ := map_eq_some_iff.mp hat
    obtain ⟨-, hq⟩ := Prod.mk.inj hat
    obtain ⟨rfl, hreg⟩ := Prod.mk.inj hq
    cases hreg
    rw [hput]
    refine h.attach _ hp hl { hatt with space := hatt.space.withVmas _ } (fun P T H R => (hspec P T H R).2) ?_
    rw [hsame, mod_eq_of_lt (hroom seg hget)]
    rfl

variable {S : Multiset Frame}

/-- One page of `shmdt`. -/
theorem detachPage_spec (hu : SpaceOk u) (hst : StoreOk st) (hS : PagesAll (fun f => f ∉ S) u.tables 1 virt) :
    Carried Aloof P T H S u st (u.unmapUserPage virt).2 st ∧
      ∀ p n virt', PagesAll p u.tables n virt' → PagesAll p (u.unmapUserPage virt).2.tables n virt' := by
  unfold unmapUserPage
  split
  · exact ⟨Carried.refl hu hst, fun _ _ _ h => h⟩
  rename_i hend
  have hvirt : virt < USER_END := BitVec.not_le.mp hend
  split
  next hpage =>
    obtain ⟨hr, hpres⟩ := Bool.and_eq_true_iff.mp hpage
    have hv := visited_of_reaches hvirt hr
    refine ⟨⟨?_, hu.setEntry rfl hv.first_lt _, hst⟩, fun _ _ _ h => h.update rfl nofun⟩
    rw [leaves_present rfl hv hpres, tabs_setEntry rfl, cons_add]
    refine sim_forget _ (aloof_of_unpinned trivial ?_)
    exact pinned_eq_zero (hS.1 hvirt hr hpres)
  · exact ⟨Carried.refl hu hst, fun _ _ _ h => h⟩

/-- **The loop of `shmdt`**, on pages in frames of no segment. -/
theorem detachPages_spec {n : Nat} (hu : SpaceOk u) (hst : StoreOk st)
    (hS : PagesAll (fun f => f ∉ S) u.tables n virt) : Carried Aloof P T H S u st (detachPages n virt u) st := by
  induction n generalizing virt u with
  | zero => exact .refl hu hst
  | succ n ih =>
    obtain ⟨hc, hpages⟩ := detachPage_spec hu hst ⟨hS.1, trivial⟩
    exact hc.trans (ih hc.space (hpages _ _ _ hS.2))

/-- **`shmdt`** of an area with no page of a segment. -/
theorem Live.shmdt (h : s.Live) (hp : s.machine.proc pid = some p)
    (hS : ∀ vma, p.addressSpace.vmas.find shmaddr = some vma →
      PagesAll (fun f => f ∉ s.registry.pins) p.addressSpace.tables ((vma.stop - vma.start) / 4096)
        (BitVec.ofNat 64 vma.start)) (hdt : sysShmdt p shmaddr = some (r, q)) :
    ({ s with machine := s.machine.commit pid q s.machine.store } : ShmMachine).Live := by
  obtain ⟨P, T, hap⟩ := exists_apart hp
  have hu := h.ok.spaces pid p hp
  have hcarried : Carried Aloof P T ↑s.machine.kernelFrames s.registry.pins p.addressSpace s.machine.store
      q.addressSpace s.machine.store := by
    unfold sysShmdt at hdt
    iterate 2
      split at hdt
      · cases hdt
        exact .refl hu h.ok.store
    rename_i vma hvma
    split at hdt
    · cases hdt
    cases hdt
    have hc := detachPages_spec (P := P) (T := T) (H := ↑s.machine.kernelFrames) hu h.ok.store (hS vma hvma)
    exact ⟨hc.sim, hc.space.withVmas _, hc.store⟩
  obtain ⟨hsim, hok⟩ := hap.carried h.ok hcarried
  exact h.aloof hok hsim

/-! ## Runs -/

/-- The start of a run: no segments, and every frame in order. -/
structure Fresh (s : ShmMachine) : Prop where
  ok : s.machine.Ok
  registry : s.registry = ShmRegistry.new
  frames : ∀ f, (s.ledger.view f).Segmented

/-- The steps that keep segments alive: the calling process detaches no segment, be it by `shmdt`, `munmap` or
    `exit`, and does not fork while one of its entries maps a page of a segment; a segment is removed when its
    pages are not mapped, or while it is attached; and `nattch` does not overflow. -/
def KeepsSegments (s : ShmMachine) (a : Nat × ShmCall) : Prop :=
  ∀ p, s.machine.proc a.1 = some p →
    match a.2 with
    | .shmget _ _ _ => True
    | .shmat shmid _ _ _ => ∀ seg, s.registry.get shmid = some seg → seg.nattch + 1 < 2 ^ 32
    | .shmdt shmaddr =>
      ∀ vma, p.addressSpace.vmas.find shmaddr = some vma →
        PagesAll (fun f => f ∉ s.registry.pins) p.addressSpace.tables ((vma.stop - vma.start) / 4096)
          (BitVec.ofNat 64 vma.start)
    | .shmctl shmid cmd =>
      cmd = IPC_RMID → ∀ seg, s.registry.get shmid = some seg → seg.nattch = 0 →
        ∀ f ∈ seg.allocated, s.machine.mapCount f = 0
    | .fork _ _ => ∀ e ∈ p.addressSpace.leaves, frameOf e ∉ s.registry.pins
    | .munmap addr length =>
      ∀ len, roundUp length = some len →
        PagesAll (fun f => f ∉ s.registry.pins) p.addressSpace.tables (len / 0x1000) (BitVec.ofNat 64 addr)
    | .exit => ∀ e ∈ p.addressSpace.leaves, frameOf e ∉ s.registry.pins

/-- **Segments stay alive** in every such step. -/
theorem Live.step {a : Nat × ShmCall} (h : s.Live) (ha : KeepsSegments s a) (hs : s.step a = some s') : s'.Live := by
  obtain ⟨pid, c⟩ := a
  unfold ShmMachine.step at hs
  split at hs
  · cases hs
    exact h
  rename_i p hp
  have ha := ha p hp
  cases c with
  | shmget key size flags =>
    obtain ⟨⟨r, reg⟩, hr, rfl⟩ := map_eq_some_iff.mp hs
    exact h.shmget hr
  | shmat shmid shmaddr shmflg answers =>
    obtain ⟨⟨r, q, reg, store⟩, hr, rfl⟩ := map_eq_some_iff.mp hs
    exact h.shmat hp ha hr
  | shmdt shmaddr =>
    obtain ⟨⟨r, q⟩, hr, rfl⟩ := map_eq_some_iff.mp hs
    exact h.shmdt hp ha hr
  | shmctl shmid cmd =>
    cases hs
    unfold sysShmctl
    by_cases hcmd : cmd = IPC_RMID
    · have hlive := h.remove (ha hcmd)
      simp only [if_pos hcmd]
      generalize s.registry.remove shmid s.machine.store = removed at hlive ⊢
      rcases removed with ⟨_ | _, reg, st⟩ <;> exact hlive
    · simp only [if_neg hcmd]
      split <;> exact h
  | fork answers kernelStack =>
    obtain ⟨m, hm, rfl⟩ := map_eq_some_iff.mp hs
    have hev : ∀ f v e, unforking e = true → (guarded e = true → v.pinned = 0) → Aloof f v e := by
      intro f v e he hg
      cases e with
      | share | forget | dropPage => exact aloof_of_unpinned (by first | exact hg rfl | trivial) (hg rfl)
      | _ => first | exact aloof_of_quiet trivial rfl | cases he
    have hfork : ∀ f v e, forking e = true → (guarded e = true → v.pinned = 0) → Aloof f v e := by
      intro f v e he hg
      refine hev f v e ?_ hg
      cases e <;> first | rfl | exact he
    obtain ⟨hsim, hok⟩ := fork_sim h.ok hp ha hfork (fun _ _ _ _ => hev) hm
    exact h.aloof hok hsim
  | munmap addr length =>
    obtain ⟨m, hm, rfl⟩ := map_eq_some_iff.mp hs
    obtain ⟨hsim, hok⟩ := munmap_sim h.ok hp ha (fun f v w hpin => aloof_of_unpinned hpin hpin) hm
    exact h.aloof hok hsim
  | exit =>
    have hs : (Vm.procStep s.machine pid p .exit).map (fun m => ({ s with machine := m } : ShmMachine)) = some s' := hs
    obtain ⟨m, hm, rfl⟩ := map_eq_some_iff.mp hs
    obtain ⟨hsim, hok⟩ := exit_sim h.ok hp ha (fun f v w hpin => aloof_of_unpinned hpin hpin)
      (fun f v => aloof_of_quiet trivial rfl) (fun f v => aloof_of_quiet trivial rfl) hm
    exact h.aloof hok hsim

/-- What can be seen after several frames were returned. -/
theorem view_freeAll (st : FrameStore) {frames : List Frame} (hnd : frames.Nodup) (f : Frame) :
    (⟨P, T, H, S, freeAll st frames⟩ : Ledger).view f =
      if f ∈ frames then ((⟨P, T, H, S, st⟩ : Ledger).view f).giveBack else (⟨P, T, H, S, st⟩ : Ledger).view f := by
  induction frames generalizing st with
  | nil => rfl
  | cons g frames ih =>
    obtain ⟨hg, hnd⟩ := nodup_cons.mp hnd
    have hview := view_freeFrame ⟨P, T, H, S, st⟩ g f
    show (⟨P, T, H, S, freeAll (st.freeFrame g) frames⟩ : Ledger).view f = _
    rw [ih _ hnd, show (⟨P, T, H, S, st.freeFrame g⟩ : Ledger).view f = _ from hview]
    by_cases hfg : f = g
    · rw [hfg, if_neg hg, if_pos rfl, if_pos List.mem_cons_self]
    · rw [if_neg hfg]
      simp [hfg]

theorem giveBack_free {v : FrameView} (hr : v.refused = false) (hl : v.listable = true) :
    v.giveBack.free = v.free + 1 := by
  rcases giveBack_cases v with ⟨-, hr'⟩ | ⟨-, he⟩
  · rw [hr] at hr'
    cases hr'
  · rw [he]
    exact if_pos hl

/-- **A segment that is removed returns each frame once.** -/
theorem Live.freed {id : Nat} (h : s.Live) (hget : s.registry.get id = some seg) (hf : f ∈ seg.allocated) :
    s.machine.store.free.count f = 0 ∧ (freeAll s.machine.store seg.allocated).free.count f = 1 := by
  obtain ⟨l₁, l₂, hl, -⟩ := h.registry.split hget
  have hthere := mem_iff_append.mpr ⟨_, _, hl⟩
  have hnd : seg.allocated.Nodup := by
    have hpins := h.pins_nodup
    rw [pins_eq hl] at hpins
    exact coe_nodup.mp (nodup_add.mp hpins).1
  have hseg := h.frames f
  have hpin : 1 ≤ (s.ledger.view f).pinned := one_le_count_iff_mem.mpr (mem_pins hthere hf)
  have howner := hseg.isolated.owner
  have hfree : (s.ledger.view f).free = s.machine.store.free.count f := rfl
  have hview := view_freeAll (P := s.ledger.ptes) (T := s.ledger.tables) (H := s.ledger.held) (S := s.ledger.pins)
    s.machine.store hnd f
  rw [if_pos hf] at hview
  have hcount := congrArg free hview
  rw [giveBack_free (v := (⟨s.ledger.ptes, s.ledger.tables, s.ledger.held, s.ledger.pins,
      s.machine.store⟩ : Ledger).view f)
    (hseg.accepted (by omega)) (hseg.listed (by omega))] at hcount
  have hcount : (freeAll s.machine.store seg.allocated).free.count f = s.machine.store.free.count f + 1 := hcount
  omega

end ShmMachine

open ShmMachine

/-- **The life of shared memory segments**, in every run in which nobody detaches a segment: no frame of a live
    segment is free, `nattch` is the number of attachments, and `IPC_RMID` returns the frames of a segment that
    is not attached, each of them once, and those of an attached one not at all. -/
theorem segment_lifetime {s : ShmMachine} (h : Run.Reach ShmMachine.step KeepsSegments Fresh s) :
    (∀ seg ∈ s.registry.segments, ∀ f ∈ seg.allocated, f ∉ s.machine.store.free) ∧
      (∀ seg ∈ s.registry.segments, seg.nattch = s.machine.attachments seg) ∧
      ∀ id seg, s.registry.get id = some seg →
        (s.machine.attachments seg = 0 →
          (s.registry.remove id s.machine.store).2.1.get id = none ∧
            ∀ f ∈ seg.allocated, s.machine.store.free.count f = 0 ∧
              (s.registry.remove id s.machine.store).2.2.free.count f = 1) ∧
        (0 < s.machine.attachments seg → (s.registry.remove id s.machine.store).2.2 = s.machine.store) := by
  have hlive : s.Live := by
    refine h.invariant Live (fun s hs => ?_) (fun _ _ _ => Live.step)
    refine ⟨hs.ok, ?_, hs.frames, ?_⟩
    · rw [hs.registry]
      exact ⟨nodup_nil, nofun, nofun⟩
    · rw [hs.registry]
      exact nofun
  refine ⟨fun seg hseg f hf hfree => ?_, hlive.counted, fun id seg hget => ?_⟩
  · have hpin : 1 ≤ (s.ledger.view f).pinned := one_le_count_iff_mem.mpr (mem_pins hseg hf)
    have howner := (hlive.frames f).isolated.owner
    have hpos : 1 ≤ (s.ledger.view f).free := count_pos_iff.mpr hfree
    omega
  obtain ⟨l₁, l₂, hl, -⟩ := hlive.registry.split hget
  have hcounted := hlive.counted seg (by rw [hl]; exact mem_append_right _ mem_cons_self)
  unfold remove
  simp only [hget]
  rw [hcounted]
  refine ⟨fun _ => ?_, fun hpos => ?_⟩
  · rw [if_neg (by omega)]
    refine ⟨?_, fun f hf => hlive.freed hget hf⟩
    refine find?_eq_none.mpr (fun t ht => ?_)
    simpa using (mem_filter.mp ht).2
  · rw [if_pos hpos]

/-! ## Detaching -/

/-- A machine made from free frames, without segments, is a start. -/
theorem fresh_withProcess {st : FrameStore} (hst : StoreOk st) (hcounts : ∀ f, st.counts f = none) (hnd : st.free.Nodup)
    (hrec : ∀ f ∈ st.free, st.recordView f ≠ some none) (virt : VirtAddr) (numPages : Nat) (flags : MemoryFlags) :
    Fresh ⟨withProcess st virt numPages flags, ShmRegistry.new⟩ := by
  obtain ⟨hsim, hok⟩ := withProcess_spec hst (fun f v e he => (aloof_mapping f v e he).careful) virt numPages flags
  refine ⟨hok, rfl, fun f => view_careful hsim ?_⟩
  -- before the process is made, frames are free or nobody has them
  have hview : (⟨0, 0, 0, 0, st⟩ : Ledger).view f =
      ⟨0, 0, 0, 0, 0, st.free.count f, decide (f ≠ 0), none, st.recordView f⟩ := by
    unfold view
    simp [hcounts]
  rw [hview]
  refine Segmented.ofMapped (.ofOwned ?_ rfl rfl) rfl (fun h1 => ?_)
  · exact nodup_iff_count_le_one.mp hnd f
  · have hf : f ∈ st.free := count_pos_iff.mp h1
    exact ⟨decide_eq_true (fun h0 => hst.zero (h0 ▸ hf)), hrec f hf⟩

def shmStart : ShmMachine := ⟨onePage, ShmRegistry.new⟩

theorem shmStart_fresh : Fresh shmStart :=
  fresh_withProcess ⟨rfl, by decide⟩ (fun _ => rfl) (by decide) (fun _ _ hnone => by cases hnone) _ _ _

/-- A process creates a segment of one page and attaches it. -/
def attachActions : List (Nat × ShmCall) := [(0, .shmget IPC_PRIVATE 4096 0#32), (0, .shmat 1 0x500000 0#32 [some 6])]

/-- What is seen of the segments: `nattch`, the attachments, the frames, and whether they are free. -/
def ShmMachine.summary (s : ShmMachine) : List (Nat × Nat × List (Frame × Bool)) :=
  s.registry.segments.map (fun seg =>
    (seg.nattch, s.machine.attachments seg, seg.allocated.map (fun f => (f, decide (f ∈ s.machine.store.free)))))

theorem exists_segment {s : ShmMachine} {n k : Nat} {f : Frame} {b : Bool} (h : s.summary = [(n, k, [(f, b)])]) :
    ∃ seg ∈ s.registry.segments, seg.nattch = n ∧ s.machine.attachments seg = k ∧ f ∈ seg.allocated ∧
      decide (f ∈ s.machine.store.free) = b := by
  have hmem : (n, k, [(f, b)]) ∈ s.summary := h ▸ List.mem_singleton.mpr rfl
  obtain ⟨seg, hseg, heq⟩ := mem_map.mp hmem
  obtain ⟨hn, hrest⟩ := Prod.mk.inj heq
  obtain ⟨hk, hframes⟩ := Prod.mk.inj hrest
  have hin : (f, b) ∈ seg.allocated.map (fun f => (f, decide (f ∈ s.machine.store.free))) := by
    rw [hframes]
    exact List.mem_singleton.mpr rfl
  obtain ⟨g, hg, hgf⟩ := mem_map.mp hin
  obtain ⟨rfl, hb⟩ := Prod.mk.inj hgf
  exact ⟨seg, hseg, hn, hk, hg, hb⟩

set_option maxRecDepth 100000 in
/-- The segment once it is attached. -/
theorem segment_lifetime_attached :
    ∃ s seg, Run.Reach ShmMachine.step KeepsSegments Fresh s ∧ seg ∈ s.registry.segments ∧ seg.nattch = 1 ∧
      s.machine.attachments seg = 1 ∧ ∀ f ∈ seg.allocated, f ∉ s.machine.store.free := by
  have hfirst : (shmStart.step (0, .shmget IPC_PRIVATE 4096 0#32)).map
      (fun s => (s.registry.get 1).map ShmSegment.nattch) =
      some (some 0) := by decide +kernel
  obtain ⟨s₁, h₁, hget⟩ := map_eq_some_iff.mp hfirst
  have hsecond : ((shmStart.step (0, .shmget IPC_PRIVATE 4096 0#32)).bind
      (fun s => s.step (0, .shmat 1 0x500000 0#32 [some 6]))).map summary = some [(1, 1, [(6, false)])] := by
    decide +kernel
  rw [h₁, bind_some] at hsecond
  obtain ⟨s, hs, hsum⟩ := map_eq_some_iff.mp hsecond
  obtain ⟨seg, hseg, hn, -⟩ := exists_segment hsum
  have hroom : KeepsSegments s₁ (0, .shmat 1 0x500000 0#32 [some 6]) := by
    intro p hp seg' hseg'
    rw [hseg'] at hget
    have : seg'.nattch = 0 := some.inj hget
    omega
  have hreach : Run.Reach ShmMachine.step KeepsSegments Fresh s :=
    ((Run.Reach.start shmStart_fresh).next (fun _ _ => trivial) h₁).next hroom hs
  obtain ⟨hfree, hcount, -⟩ := segment_lifetime hreach
  exact ⟨s, seg, hreach, hseg, hn, (hcount seg hseg).symm.trans hn, hfree seg hseg⟩

set_option maxRecDepth 100000 in
/-- **Detaching a segment**: after `shmdt` it is still counted as attached, and after `exit` its frame is free
    although the segment is there. -/
theorem detach_breaks_segments : (∃ s, Run.Reach ShmMachine.step (fun _ _ => True) Fresh s ∧
      ∃ seg ∈ s.registry.segments, seg.nattch = 1 ∧ s.machine.attachments seg = 0) ∧
    ∃ s, Run.Reach ShmMachine.step (fun _ _ => True) Fresh s ∧
      ∃ seg ∈ s.registry.segments, ∃ f ∈ seg.allocated, f ∈ s.machine.store.free := by
  have hdt : (Run.exec ShmMachine.step (fun _ _ => True) shmStart (attachActions ++ [(0, .shmdt 0x500000)])).map
      summary = some [(1, 0, [(6, false)])] := by decide +kernel
  have hexit : (Run.exec ShmMachine.step (fun _ _ => True) shmStart (attachActions ++ [(0, .exit)])).map
      summary = some [(1, 0, [(6, true)])] := by decide +kernel
  obtain ⟨s, hs, hsum⟩ := map_eq_some_iff.mp hdt
  obtain ⟨t, ht, htsum⟩ := map_eq_some_iff.mp hexit
  obtain ⟨seg, hseg, hn, hk, -⟩ := exists_segment hsum
  obtain ⟨seg', hseg', -, -, hf, hfree⟩ := exists_segment htsum
  exact ⟨⟨s, (Run.Reach.start shmStart_fresh).exec hs, seg, hseg, hn, hk⟩,
    t, (Run.Reach.start shmStart_fresh).exec ht, seg', hseg', _, hf, of_decide_eq_true hfree⟩

end OxideOs.Vm
