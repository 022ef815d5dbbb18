import OxideOs.Proc.Mapping

/-!
# `Proc.ForkSpec` — dropping and cloning address spaces in the lives of frames

Dropping an address space gives up every page and returns every table. Cloning one shares every page; the
invariant of its walk (`CloneInv`) says how far parent and child have come.
-/

namespace OxideOs.Vm

open Multiset (add_cons cons_add cons_coe coe_nil coe_singleton)
open Function List Option Pagedb Paging PageTableFlags Ledger UserAddressSpace Tables PageTableEntry FrameStore Event

variable {u u' : UserAddressSpace} {st st' : FrameStore} {s : Slot} {f : Frame}
variable {A : Frame → FrameView → Event → Prop} {P : Multiset PageTableEntry} {T H S : Multiset Frame}

/-! ## Dropping an address space -/

/-- What the drop loop does with a page. -/
def dropPte (st : FrameStore) (e : PageTableEntry) : FrameStore :=
  if dropSkips st (frameOf e) then st else releaseFrame st (frameOf e)

/-- Without huge pages, the walk of `drop` goes through the leaf entries. -/
theorem foldl_dropSlot {t : Tables} {L : List Slot}
    (hL : ∀ s ∈ L, s.isPt = false → (t s).isHuge = false) (st : FrameStore) :
    L.foldl (dropSlot t) st = (L.flatMap t.leafAt).foldl dropPte st := by
  induction L generalizing st with
  | nil => rfl
  | cons s L ih =>
    rw [foldl_cons, flatMap_cons, foldl_append, ih (fun r hr => hL r (mem_cons_of_mem _ hr))]
    have hs := hL s mem_cons_self
    cases s with
    | pml4 i => rfl
    | pdpt i j | pd i j k => simp [dropSlot, leafAt, isLeaf, hs rfl]
    | pt i j k l =>
      cases hp : (t (.pt i j k l)).isPresent with
      | false => simp [dropSlot, leafAt, hp]
      | true => simp [dropSlot, leafAt, isLeaf, hp, dropPte]

/-- The pages are given up one by one. -/
theorem sim_dropPages (hok : ∀ f v w, v.pinned = 0 → A f v (.dropPage w)) (L : List PageTableEntry)
    (hS : ∀ e ∈ L, frameOf e ∉ S) (hst : StoreOk st) :
    Sim A ⟨↑L + P, T, H, S, st⟩ ⟨P, T, H, S, L.foldl dropPte st⟩ ∧ StoreOk (L.foldl dropPte st) := by
  induction L generalizing st with
  | nil =>
    rw [coe_nil, zero_add]
    exact ⟨Sim.refl _, hst⟩
  | cons e L ih =>
    have hst' : StoreOk (dropPte st e) := by
      unfold dropPte
      split
      · exact hst
      · exact hst.releaseFrame _
    obtain ⟨hsim, hend⟩ := ih (fun e' he' => hS e' (mem_cons_of_mem _ he')) hst'
    refine ⟨?_, hend⟩
    rw [← cons_coe, cons_add]
    refine (sim_leave _ _ _ _ _ e (.dropPage e.isWritable) (fun _ => rfl) ?_).trans hsim
    exact hok _ _ _ (pinned_eq_zero (hS e mem_cons_self))

/-- The frames of tables are returned one by one; the frame at address 0 is left out. -/
theorem sim_dropTables (hok : ∀ f v, A f v .dropTable) (L : List Frame) (hst : StoreOk st) :
    Sim A ⟨P, ↑L + T, H, S, st⟩ ⟨P, T, H, S, (L.filter (fun f => f ≠ 0)).foldl freeTable st⟩ ∧
      StoreOk ((L.filter (fun f => f ≠ 0)).foldl freeTable st) := by
  induction L generalizing st with
  | nil =>
    rw [coe_nil, zero_add]
    exact ⟨Sim.refl _, hst⟩
  | cons f L ih =>
    rw [← cons_coe, cons_add]
    by_cases h0 : f = 0
    · subst h0
      obtain ⟨hsim, hend⟩ := ih hst
      exact ⟨(sim_dropZero hok).trans hsim, hend⟩
    have hst' : StoreOk (freeTable st f) := by
      unfold freeTable
      split
      · exact hst
      · exact hst.freeFrame f
    obtain ⟨hsim, hend⟩ := ih hst'
    rw [filter_cons_of_pos (by simpa using h0)]
    exact ⟨(sim_dropTable f h0 hok).trans hsim, hend⟩

/-- A frame found twice is returned once. -/
theorem sim_dedup (hok : ∀ f v, A f v .dupTable) (L : List Frame) :
    Sim A ⟨P, ↑L + T, H, S, st⟩ ⟨P, ↑L.dedup + T, H, S, st⟩ := by
  induction L generalizing T with
  | nil => exact .refl _
  | cons f L ih =>
    rw [← cons_coe, cons_add]
    by_cases hf : f ∈ L
    · rw [dedup_cons_of_mem hf]
      exact (sim_dupTable f (Multiset.mem_add.mpr (.inl hf)) hok).trans ih
    rw [dedup_cons_of_notMem hf, ← cons_coe, cons_add, ← add_cons, ← add_cons]
    exact ih

/-- The walk never finds a huge page. -/
theorem SpaceOk.noHuge_visited (hu : SpaceOk u) (hs : s ∈ u.tables.visits) (hpt : s.isPt = false) :
    (u.tables s).isHuge = false := by
  have hv := mem_visits.mp hs
  exact hu.noHuge s hpt hv.first_lt (hv.present hpt)

/-- **Dropping an address space** gives up all its pages and tables. -/
theorem drop_spec (hu : SpaceOk u) (hst : StoreOk st)
    (hok : ∀ f v w, v.pinned = 0 → A f v (.dropPage w)) (htab : ∀ f v, A f v .dropTable)
    (hdup : ∀ f v, A f v .dupTable) (hS : ∀ e ∈ u.leaves, frameOf e ∉ S) :
    Sim A ⟨u.leaves + P, u.tabs + T, H, S, st⟩ ⟨P, T, H, S, u.drop st⟩ ∧ StoreOk (u.drop st) := by
  have hpages : u.tables.visits.foldl (dropSlot u.tables) st = u.tables.leafPtes.foldl dropPte st := by
    rw [leafPtes_eq]
    exact foldl_dropSlot (fun s hs => hu.noHuge_visited hs) st
  -- nothing is recorded that the walk has not come across
  have hleft : u.allocatedFrames.filter (fun f => f ≠ u.pml4Phys ∧ f ∉ u.tables.tableFrames.dedup) = [] := by
    refine filter_eq_nil_iff.mpr (fun f hf => ?_)
    simp [hu.recorded f hf]
  have hdrop : u.drop st = ((u.tables.tableFrames.dedup ++ [u.pml4Phys]).filter (fun f => f ≠ 0)).foldl freeTable
      (u.tables.leafPtes.foldl dropPte st) := by
    unfold UserAddressSpace.drop
    rw [if_neg hu.root, hpages]
    simp only [dropTables, hleft]
  obtain ⟨hsim1, hst1⟩ := sim_dropPages hok u.tables.leafPtes hS hst
  obtain ⟨hsim2, hst2⟩ := sim_dropTables htab
    _ hst1
  rw [hdrop]
  refine ⟨hsim1.trans (Sim.trans ?_ hsim2), hst2⟩
  have htabs : u.tabs + T = ↑u.tables.tableFrames + (u.pml4Phys ::ₘ T) := by
    unfold tabs
    rw [cons_add, add_cons]
  have hlist : (↑(u.tables.tableFrames.dedup ++ [u.pml4Phys]) : Multiset Frame) + T =
      ↑u.tables.tableFrames.dedup + (u.pml4Phys ::ₘ T) := by
    rw [← Multiset.coe_add, coe_singleton, add_assoc, Multiset.singleton_add]
  rw [htabs, hlist]
  exact sim_dedup hdup _

/-! ## The walk of `clone_address_space_cow` -/

section

variable (entry : PageTableEntry)
include entry

/-- The flags of a shared page: `WRITABLE` is cleared, or it was not set. -/
theorem getLsbD_cowFlags {i : Nat} (hi : i < 64) : (cowFlags entry).bits.getLsbD i =
      (entry.raw.getLsbD i && ALL_FLAGS.getLsbD i && !WRITABLE.bits.getLsbD i || COW.bits.getLsbD i) := by
  unfold cowFlags
  split
  · show ((entry.raw &&& ALL_FLAGS) &&& ~~~WRITABLE.bits ||| COW.bits).getLsbD i = _
    rw [BitVec.getLsbD_or, BitVec.getLsbD_and, BitVec.getLsbD_and, BitVec.getLsbD_not, decide_eq_true hi, Bool.true_and]
  rename_i hw
  rw [isWritable_eq, Bool.not_eq_true] at hw
  show ((entry.raw &&& ALL_FLAGS) ||| COW.bits).getLsbD i = _
  rw [BitVec.getLsbD_or, BitVec.getLsbD_and]
  by_cases h1 : i = 1
  · rw [h1, hw]
    rfl
  · have hbit : ∀ i : Fin 64, i.val ≠ 1 → WRITABLE.bits.getLsbD i = false := by decide
    rw [hbit ⟨i, hi⟩ h1, Bool.not_false, Bool.and_true]

theorem cowFlags_present : (cowFlags entry).bits.getLsbD 0 = entry.isPresent := by
  rw [getLsbD_cowFlags entry (by decide), isPresent_eq]
  cases entry.raw.getLsbD 0 <;> rfl

theorem cowFlags_writable : (cowFlags entry).bits.getLsbD 1 = false := by
  rw [getLsbD_cowFlags entry (by decide)]
  cases entry.raw.getLsbD 1 <;> rfl

theorem cowFlags_cow : (cowFlags entry).bits.getLsbD 9 = true := by
  rw [getLsbD_cowFlags entry (by decide)]
  cases entry.raw.getLsbD 9 <;> rfl

/-- The parent's entry of a page after it is shared. -/
def sharedParent (entry : PageTableEntry) : PageTableEntry := entry.setFlags (cowFlags entry)

/-- The child's entry. -/
def sharedChild (entry : PageTableEntry) : PageTableEntry := PageTableEntry.set (frameOf entry).addr (cowFlags entry)

/-- What the child gets for an entry of a page table. -/
def childEntry (entry : PageTableEntry) : PageTableEntry :=
  if entry.isPresent then sharedChild entry else PageTableEntry.empty

theorem isPresent_childTable (f : Frame) : (PageTableEntry.set f.addr (childTableFlags entry)).isPresent = true := by
  rw [isPresent_eq, getLsbD_set _ _ (by decide)]
  show ((((entry.flags.bits &&& ~~~NO_EXECUTE.bits) ||| PRESENT.bits) ||| WRITABLE.bits) ||| USER.bits).getLsbD 0 = _
  simp [show PRESENT.bits.getLsbD 0 = true by decide]

end

theorem isHuge_childTable {entry : PageTableEntry} (h : entry.isHuge = false) (f : Frame) :
    (PageTableEntry.set f.addr (childTableFlags entry)).isHuge = false := by
  rw [isHuge_eq] at h ⊢
  rw [getLsbD_set _ _ (by decide)]
  show (((((entry.raw &&& ALL_FLAGS) &&& ~~~NO_EXECUTE.bits) ||| PRESENT.bits) ||| WRITABLE.bits) |||
    USER.bits).getLsbD 7 = _
  simp only [BitVec.getLsbD_or, BitVec.getLsbD_and, h]
  decide

/-- **How far the walk has come.** `done` are the slots it has left behind: the pages among them are shared,
    and the child has its tables. Everything else is untouched in the parent and empty in the child. -/
structure CloneInv (t₀ : Tables) (pml4 : Frame) (done : List Slot) (c : CloneState) : Prop where
  parentDone : ∀ s ∈ done, s.isPt = true → (t₀ s).isPresent = true → c.parent s = sharedParent (t₀ s)
  parentRest : ∀ s, s ∉ done ∨ s.isPt = false ∨ (t₀ s).isPresent = false → c.parent s = t₀ s
  visited : ∀ s ∈ done, c.child.Visited s
  table : ∀ s ∈ done, s.isPt = false → (c.child s).isHuge = false
  page : ∀ s ∈ done, s.isPt = true → c.child s = childEntry (t₀ s)
  childRest : ∀ s, s ∉ done → s.first.val < 256 → c.child s = PageTableEntry.empty
  kernel : ∀ s, s.isPt = true → 256 ≤ s.first.val → c.child s = PageTableEntry.empty
  frames : (c.frames : Multiset Frame) = pml4 ::ₘ ↑c.child.tableFrames

section Clone

variable {t₀ : Tables} {pml4 : Frame} {done rest : List Slot} {c c' : CloneState}

variable {r : Except ForkError Unit}

theorem notMem_done (hvis : t₀.visits = done ++ s :: rest) : s ∉ done := fun hin =>
  (nodup_append.mp (hvis ▸ t₀.visits_nodup)).2.2 s hin s mem_cons_self rfl

theorem visited_next (hvis : t₀.visits = done ++ s :: rest) : t₀.Visited s :=
  mem_visits.mp (hvis ▸ mem_append_right _ mem_cons_self)

section

variable (hinv : CloneInv t₀ pml4 done c)
include hinv

/-- The next slot can be linked in. -/
theorem CloneInv.vacant (hvis : t₀.visits = done ++ s :: rest) (hs : s.isPt = false) : c.child.Vacant s where
  upper := hs
  absent := by
    rw [hinv.childRest s (notMem_done hvis) (visited_next hvis).first_lt]
    rfl
  user := (visited_next hvis).first_lt
  reached := by
    intro p hp
    have hin := parent_before hvis hp
    exact ⟨hinv.visited p hin, hinv.table p hin (parent_not_pt hp)⟩

/-- The table of the next page is there. -/
theorem CloneInv.visited_page (hvis : t₀.visits = done ++ s :: rest) (hs : s.isPt = true) : c.child.Visited s := by
  cases hp : s.parent with
  | none =>
    cases s with
    | pt i j k l => cases hp
    | _ => cases hs
  | some p =>
    have hin := parent_before hvis hp
    exact (visited_iff hp).mpr ⟨hinv.visited p hin, .inr (hinv.table p hin (parent_not_pt hp)), .inl hs⟩

/-- The parent's tables are walked as before. -/
theorem CloneInv.parent_upper (hdone : done <+: t₀.visits) (s : Slot)
    (hs : s.isPt = false ∨ 256 ≤ s.first.val) : c.parent s = t₀ s := by
  refine hinv.parentRest s ?_
  rcases hs with hs | hs
  · exact .inr (.inl hs)
  refine .inl (fun hin => ?_)
  have := (mem_visits.mp (hdone.subset hin)).first_lt
  omega

section

variable (hvis : t₀.visits = done ++ s :: rest)
include hvis

/-- **One more slot is done.** The pages behind it stay as they are. -/
theorem CloneInv.snoc (hparent : ∀ r, r ≠ s → c'.parent r = c.parent r)
    (hshared : s.isPt = true → (t₀ s).isPresent = true → c'.parent s = sharedParent (t₀ s))
    (hleft : s.isPt = false ∨ (t₀ s).isPresent = false → c'.parent s = t₀ s)
    (hvisited : ∀ r, r ∈ done ∨ r = s → c'.child.Visited r) (hchild : ∀ r ∈ done, c'.child r = c.child r)
    (htable : s.isPt = false → (c'.child s).isHuge = false) (hpage : s.isPt = true → c'.child s = childEntry (t₀ s))
    (hrest : ∀ r, r ∉ done → r ≠ s → r.first.val < 256 → c'.child r = .empty)
    (hkernel : ∀ r, r.isPt = true → 256 ≤ r.first.val → c'.child r = .empty)
    (hframes : (c'.frames : Multiset Frame) = pml4 ::ₘ ↑c'.child.tableFrames) : CloneInv t₀ pml4 (done ++ [s]) c' := by
  have hmem : ∀ r, r ∈ done ++ [s] ↔ r ∈ done ∨ r = s := fun r => by
    rw [mem_append, mem_singleton]
  have hne : ∀ r, r ∈ done → r ≠ s := by
    rintro r hr rfl
    exact notMem_done hvis hr
  refine ⟨?_, ?_, fun r hr => hvisited r ((hmem r).mp hr), ?_, ?_, ?_, hkernel, hframes⟩
  · intro r hr hrpt hrp
    rcases (hmem r).mp hr with hr | rfl
    · exact (hparent r (hne r hr)).trans (hinv.parentDone r hr hrpt hrp)
    · exact hshared hrpt hrp
  · intro r hr
    by_cases hrs : r = s
    · subst hrs
      exact hleft (hr.resolve_left (fun h => h ((hmem r).mpr (.inr rfl))))
    · refine (hparent r hrs).trans (hinv.parentRest r (hr.imp_left (fun h hin => h ?_)))
      exact (hmem r).mpr (.inl hin)
  · intro r hr hrpt
    rcases (hmem r).mp hr with hr | rfl
    · exact (congrArg isHuge (hchild r hr)).trans (hinv.table r hr hrpt)
    · exact htable hrpt
  · intro r hr hrpt
    rcases (hmem r).mp hr with hr | rfl
    · exact (hchild r hr).trans (hinv.page r hr hrpt)
    · exact hpage hrpt
  · intro r hr
    obtain ⟨hrd, hrs⟩ := not_or.mp (mt (hmem r).mpr hr)
    exact hrest r hrd hrs

/-- A table for the child. -/
theorem CloneInv.link (hs : s.isPt = false) (hhuge : (t₀ s).isHuge = false) (f : Frame) (store : FrameStore) :
    CloneInv t₀ pml4 (done ++ [s]) { c with
        child := c.child.link s f (childTableFlags (c.parent s))
        frames := c.frames ++ [f]
        store } := by
  have hv := hinv.vacant hvis hs
  have hpar : c.parent s = t₀ s := hinv.parentRest s (.inr (.inl hs))
  have hpres := isPresent_childTable (c.parent s) f
  have hhuge' : (set f.addr (childTableFlags (c.parent s))).isHuge = false := isHuge_childTable (hpar ▸ hhuge) f
  have hpt : s.isPt ≠ true := ne_of_eq_of_ne hs Bool.false_ne_true
  refine hinv.snoc hvis (fun _ _ => rfl) (fun h => absurd h hpt) (fun _ => hpar) (fun r hr => ?_)
    (fun r hr => hv.link_visited (hinv.visited r hr)) (fun _ => ?_) (fun h => absurd h hpt) (fun r hr hrs hru => ?_)
    (fun r hrpt hru => ?_) ?_
  · exact (visited_link hv hpres hhuge').mpr (hr.imp (hinv.visited r) .inl)
  · exact (congrArg isHuge link_self).trans hhuge'
  · show c.child.link s f (childTableFlags (c.parent s)) r = .empty
    by_cases hp : r.parent = some s
    · exact link_below hp
    · rw [link_other hrs hp]
      exact hinv.childRest r hr hru
  · have hlt := hv.user
    have hne : r ≠ s := by
      rintro rfl
      omega
    have hp : r.parent ≠ some s := by
      intro hp
      rw [first_of_parent hp] at hru
      omega
    exact (link_other hne hp).trans (hinv.kernel r hrpt hru)
  · show (↑(c.frames ++ [f]) : Multiset Frame) = _
    rw [tableFrames_link hv hpres hhuge', coe_append_singleton, hinv.frames, Multiset.cons_swap]

/-- A page that is not there is passed over. -/
theorem CloneInv.skip (hs : s.isPt = true) (hp : (t₀ s).isPresent = false) : CloneInv t₀ pml4 (done ++ [s]) c := by
  refine hinv.snoc hvis (fun _ _ => rfl) (fun _ h => ?_) (fun h => hinv.parentRest s (.inr h)) (fun r hr => ?_)
    (fun _ _ => rfl) (fun h => ?_) (fun _ => ?_) (fun r hr _ => hinv.childRest r hr) hinv.kernel hinv.frames
  · exact absurd (hp.symm.trans h) Bool.false_ne_true
  · rcases hr with hr | rfl
    · exact hinv.visited r hr
    · exact hinv.visited_page hvis hs
  · exact absurd (h.symm.trans hs) Bool.false_ne_true
  · rw [hinv.childRest s (notMem_done hvis) (visited_next hvis).first_lt, childEntry, hp, if_neg Bool.false_ne_true]

/-- A page is shared. -/
theorem CloneInv.share (hs : s.isPt = true) (hp : (t₀ s).isPresent = true) (store : FrameStore) :
    CloneInv t₀ pml4 (done ++ [s]) { c with
        parent := update c.parent s (sharedParent (t₀ s))
        child := update c.child s (sharedChild (t₀ s))
        store } := by
  have hlt := (visited_next hvis).first_lt
  have hother : ∀ r, r ≠ s → update c.child s (sharedChild (t₀ s)) r = c.child r := fun r hr => update_of_ne hr _ _
  refine hinv.snoc hvis (fun r hr => update_of_ne hr _ _) (fun _ _ => update_self _ _ _) (fun h => ?_)
    (fun r hr => ?_) (fun r hr => hother r ?_) (fun h => ?_) (fun _ => ?_)
    (fun r hr hrs hru => (hother r hrs).trans (hinv.childRest r hr hru)) (fun r hrpt hru => ?_) ?_
  · rw [hs, hp] at h
    rcases h with h | h <;> cases h
  · refine (visited_update hs).mpr ?_
    rcases hr with hr | rfl
    · exact hinv.visited r hr
    · exact hinv.visited_page hvis hs
  · rintro rfl
    exact notMem_done hvis hr
  · exact absurd (h.symm.trans hs) Bool.false_ne_true
  · rw [childEntry, hp]
    exact update_self _ _ _
  · refine (hother r ?_).trans (hinv.kernel r hrpt hru)
    rintro rfl
    omega
  · show (c.frames : Multiset Frame) = pml4 ::ₘ ↑(tableFrames (update c.child s (sharedChild (t₀ s))))
    rw [tableFrames_update hs]
    exact hinv.frames

/-- The ledger in the middle of the walk: the child's entries count already, its tables are still in the
    hands of the guard. -/
def CloneState.ledger (c : CloneState) (P : Multiset PageTableEntry) (T H S : Multiset Frame) : Ledger :=
  ⟨c.parent.leaves + (c.child.leaves + P), T, ↑c.frames + H, S, c.store⟩

/-- What one entry of the walk does. -/
structure CloneStep (A : Frame → FrameView → Event → Prop) (P : Multiset PageTableEntry) (T H S : Multiset Frame)
    (t₀ : Tables) (pml4 : Frame) (done : List Slot) (c : CloneState) (r : Except ForkError Unit)
    (c' : CloneState) : Prop where
  sim : Sim A (c.ledger P T H S) (c'.ledger P T H S)
  store : StoreOk c'.store
  parent : ∀ s : Slot, s.isPt = false ∨ 256 ≤ s.first.val → c'.parent s = t₀ s
  child : (∀ e ∈ c.child.leaves, frameOf e ∉ S) → ∀ e ∈ c'.child.leaves, frameOf e ∉ S
  inv : r = .ok () → CloneInv t₀ pml4 done c'

theorem cloneTable_spec (hs : s.isPt = false) (hhuge : (t₀ s).isHuge = false)
    (hst : StoreOk c.store) (htake : ∀ f v, A f v .take) (h : cloneTable pml4 c s = (r, c')) :
    CloneStep A P T H S t₀ pml4 (done ++ [s]) c r c' := by
  have ha := allocFrame_spec c.store
  unfold cloneTable at h
  split at h
  next store hal =>
    rw [hal] at ha
    cases h
    exact ⟨sim_refused ha, hst.allocated ha, hinv.parent_upper ⟨_, hvis.symm⟩, fun hc => hc, nofun⟩
  rename_i f store hal
  rw [hal] at ha
  have htaken : Sim A (c.ledger P T H S)
      ⟨c.parent.leaves + (c.child.leaves + P), T, ↑(c.frames ++ [f]) + H, S, store⟩ := by
    rw [coe_append_singleton, cons_add]
    exact sim_take ha htake
  split at h
  · cases h
    exact ⟨htaken, hst.allocated ha, hinv.parent_upper ⟨_, hvis.symm⟩, fun hc => hc, nofun⟩
  cases h
  have hinv' := hinv.link hvis hs hhuge f store
  have hpar : c.parent s = t₀ s := hinv.parentRest s (.inr (.inl hs))
  have hhuge' : (set f.addr (childTableFlags (c.parent s))).isHuge = false := isHuge_childTable (hpar ▸ hhuge) f
  have hleaves := leaves_link (hinv.vacant hvis hs) (isPresent_childTable _ f) hhuge'
  refine ⟨?_, hst.allocated ha, hinv.parent_upper ⟨_, hvis.symm⟩, fun hc => ?_, fun _ => hinv'⟩
  · show Sim A _ ⟨c.parent.leaves + ((c.child.link s f (childTableFlags (c.parent s))).leaves + P), _, _, _, _⟩
    rw [hleaves]
    exact htaken
  rw [hleaves]
  exact hc

theorem sharePage_spec (hs : s.isPt = true) (hp : (t₀ s).isPresent = true) (hst : StoreOk c.store)
    (hS : frameOf (t₀ s) ∉ S) (hshare : ∀ f v w, v.pinned = 0 → A f v (.share w)) (h : sharePage c s = some c') :
    CloneStep A P T H S t₀ pml4 (done ++ [s]) c (.ok ()) c' := by
  have hpar : c.parent s = t₀ s := hinv.parentRest s (.inl (notMem_done hvis))
  obtain ⟨store, hinc, rfl⟩ := map_eq_some_iff.mp h
  rw [hpar] at hinc ⊢
  have hinv' := hinv.share hvis hs hp store
  have hvp : c.parent.Visited s := by
    have hup : ∀ r : Slot, r.isPt = false → c.parent r = t₀ r := fun r hr => hinv.parentRest r (.inr (.inl hr))
    rw [← mem_visits, visits_congr hup, mem_visits]
    exact visited_next hvis
  have hvc := hinv.visited_page hvis hs
  have hpres1 : (sharedParent (t₀ s)).isPresent = true := by
    rw [sharedParent, isPresent_eq, getLsbD_setFlags _ _ (by decide), cowFlags_present, hp]
  have hpres2 : (sharedChild (t₀ s)).isPresent = true := by
    rw [sharedChild, isPresent_eq, getLsbD_set _ _ (by decide), cowFlags_present, hp]
  have hw1 : (sharedParent (t₀ s)).isWritable = false := by
    rw [sharedParent, isWritable_eq, getLsbD_setFlags _ _ (by decide), cowFlags_writable]
  have hw2 : (sharedChild (t₀ s)).isWritable = false := by
    rw [sharedChild, isWritable_eq, getLsbD_set _ _ (by decide), cowFlags_writable]
  have hchild : (c.child s).isPresent = false := by
    rw [hinv.childRest s (notMem_done hvis) (visited_next hvis).first_lt]
    rfl
  have hparent := Tables.leaves_present hs hvp (hpar ▸ hp)
  rw [hpar] at hparent
  have hgain : leaves (update c.child s (sharedChild (t₀ s))) = sharedChild (t₀ s) ::ₘ c.child.leaves := by
    rw [leaves_update_present hs hvc hpres2, ← Tables.leaves_absent hs hvc hchild]
  refine ⟨?_, hst.increment hinc, hinv'.parent_upper (hvis ▸ ⟨rest, append_assoc ..⟩),
    fun hc e he => ?_, fun _ => hinv'⟩
  swap
  · have he' : e ∈ sharedChild (t₀ s) ::ₘ c.child.leaves := hgain ▸ he
    rcases mem_cons.mp he' with rfl | he'
    · rw [sharedChild, frameOf_set]
      exact hS
    · exact hc e he'
  -- one entry of the parent gives way to one of the parent and one of the child
  show Sim A ⟨c.parent.leaves + (c.child.leaves + P), T, ↑c.frames + H, S, c.store⟩
    ⟨leaves (update c.parent s (sharedParent (t₀ s))) +
      (leaves (update c.child s (sharedChild (t₀ s))) + P), T, ↑c.frames + H, S, store⟩
  rw [hparent, leaves_update_present hs hvp hpres1, hgain, cons_add, cons_add,
    cons_add, add_cons]
  exact sim_share hinc (frameOf_setFlags _ _) (frameOf_set _ _) hw1 hw2 (hshare _ _ _ (pinned_eq_zero hS))

/-- **One entry of the walk.** -/
theorem cloneSlot_spec (hhuge : s.isPt = false → (t₀ s).isHuge = false)
    (hst : StoreOk c.store) (hS : s.isPt = true → (t₀ s).isPresent = true → frameOf (t₀ s) ∉ S)
    (htake : ∀ f v, A f v .take) (hshare : ∀ f v w, v.pinned = 0 → A f v (.share w))
    (h : cloneSlot pml4 c s = some (r, c')) : CloneStep A P T H S t₀ pml4 (done ++ [s]) c r c' := by
  cases hs : s.isPt with
  | false =>
    have hpar : c.parent s = t₀ s := hinv.parentRest s (.inr (.inl hs))
    have htab : cloneSlot pml4 c s = some (cloneTable pml4 c s) := by
      have hh : (c.parent s).isHuge = false := hpar ▸ hhuge hs
      cases s with
      | pml4 i => rfl
      | pdpt i j | pd i j k => simp only [cloneSlot, hh, Bool.false_eq_true, if_false]
      | pt i j k l => cases hs
    rw [htab] at h
    exact cloneTable_spec hinv hvis hs (hhuge hs) hst htake (some.inj h)
  | true =>
    have hpar : c.parent s = t₀ s := hinv.parentRest s (.inl (notMem_done hvis))
    have hpage : cloneSlot pml4 c s =
        if (t₀ s).isPresent then (sharePage c s).map (fun c => (.ok (), c)) else some (.ok (), c) := by
      cases s with
      | pt i j k l => rw [← hpar]; rfl
      | _ => cases hs
    rw [hpage] at h
    cases hp : (t₀ s).isPresent with
    | true =>
      rw [hp] at h
      obtain ⟨c1, hc1, h⟩ := map_eq_some_iff.mp h
      cases h
      exact sharePage_spec hinv hvis hs hp hst (hS hs hp) hshare hc1
    | false =>
      rw [hp] at h
      cases h
      exact ⟨Sim.refl _, hst, hinv.parent_upper ⟨_, hvis.symm⟩, fun hc => hc, fun _ => hinv.skip hvis hs hp⟩

end

/-- **The walk**, from wherever it has come to. -/
theorem cloneSlots_spec (hvis : t₀.visits = done ++ rest) (hhuge : ∀ s ∈ rest, s.isPt = false → (t₀ s).isHuge = false)
    (hst : StoreOk c.store) (hS : ∀ s ∈ rest, s.isPt = true → (t₀ s).isPresent = true → frameOf (t₀ s) ∉ S)
    (htake : ∀ f v, A f v .take) (hshare : ∀ f v w, v.pinned = 0 → A f v (.share w))
    (h : cloneSlots pml4 rest c = some (r, c')) : CloneStep A P T H S t₀ pml4 t₀.visits c r c' := by
  induction rest generalizing done c with
  | nil =>
    cases h
    rw [append_nil] at hvis
    exact ⟨Sim.refl _, hst, hinv.parent_upper ⟨_, (append_nil _).trans hvis.symm⟩, fun hc => hc, fun _ => hvis ▸ hinv⟩
  | cons s rest ih =>
    have hstep : ∀ r1 c1, cloneSlot pml4 c s = some (r1, c1) →
        CloneStep A P T H S t₀ pml4 (done ++ [s]) c r1 c1 := fun r1 c1 =>
      cloneSlot_spec hinv hvis (hhuge s mem_cons_self) hst (hS s mem_cons_self) htake hshare
    unfold cloneSlots at h
    split at h
    · cases h
    next hc1 =>
      cases h
      have := hstep _ _ hc1
      exact ⟨this.sim, this.store, this.parent, this.child, nofun⟩
    rename_i c1 hc1
    have h1 := hstep _ _ hc1
    have h2 := ih (h1.inv rfl) (by rw [hvis, append_assoc, singleton_append])
      (fun s hs => hhuge s (mem_cons_of_mem _ hs)) h1.store
      (fun s hs => hS s (mem_cons_of_mem _ hs)) h
    exact ⟨h1.sim.trans h2.sim, h2.store, h2.parent, fun hc => h2.child (h1.child hc), h2.inv⟩

end

/-- Where the walk starts: the child has nothing but its PML4. -/
def cloneStart (u : UserAddressSpace) (pml4 : Frame) (store : FrameStore) : CloneState :=
  { parent := u.tables
    child := fun
      | .pml4 i => if 256 ≤ i.val then u.tables (.pml4 i) else PageTableEntry.empty
      | _ => PageTableEntry.empty
    frames := [pml4]
    store }

theorem cloneStart_empty (s : Slot) (hs : s.isPt = true ∨ s.first.val < 256) :
    (cloneStart u pml4 st).child s = .empty := by
  cases s with
  | pml4 i =>
    refine if_neg (not_le.mpr ?_)
    exact hs.resolve_left (by simp [Slot.isPt])
  | _ => rfl

theorem cloneStart_visits : (cloneStart u pml4 st).child.visits = [] := by
  refine visits_eq_nil (fun i hi => ?_)
  rw [cloneStart_empty (.pml4 i) (.inr hi)]
  rfl

theorem cloneStart_inv : CloneInv u.tables pml4 [] (cloneStart u pml4 st) where
  parentDone := nofun
  parentRest := fun _ _ => rfl
  visited := nofun
  table := nofun
  page := nofun
  childRest := fun s _ hu => cloneStart_empty s (.inr hu)
  kernel := fun s hs _ => cloneStart_empty s (.inl hs)
  frames := by
    rw [tableFrames_eq, cloneStart_visits]
    rfl

theorem cloneStart_leaves : (cloneStart u pml4 st).child.leaves = 0 := by
  unfold Tables.leaves
  rw [leafPtes_eq, cloneStart_visits]
  rfl

end Clone

/-! ## `clone_address_space_cow` -/

/-- Frames in the kernel's hands become tables. -/
theorem sim_linkAll (hlink : ∀ f v, A f v .link) (frames : List Frame) :
    Sim A ⟨P, T, ↑frames + H, S, st⟩ ⟨P, ↑frames + T, H, S, st⟩ := by
  induction frames generalizing T with
  | nil =>
    rw [coe_nil, zero_add, zero_add]
    exact .refl _
  | cons f frames ih =>
    have hT : (↑(f :: frames) : Multiset Frame) + T = ↑frames + (f ::ₘ T) := by
      rw [← cons_coe, cons_add, add_cons]
    rw [hT, ← cons_coe, cons_add]
    exact (sim_link f hlink).trans ih

/-- Tables are marked as such. -/
theorem sim_markAll (hmark : ∀ f v, A f v .markTable) (frames : List Frame) (hT : ∀ f ∈ frames, f ∈ T) :
    Sim A ⟨P, T, H, S, st⟩ ⟨P, T, H, S, frames.foldl markPagetable st⟩ := by
  induction frames generalizing st with
  | nil => exact .refl _
  | cons f frames ih =>
    obtain ⟨T', rfl⟩ := Multiset.exists_cons_of_mem (hT f mem_cons_self)
    exact (sim_markTable f hmark).trans (ih (fun g hg => hT g (mem_cons_of_mem _ hg)))

theorem StoreOk.markAll (h : StoreOk st) (frames : List Frame) : StoreOk (frames.foldl markPagetable st) := by
  exact foldlRecOn frames _ h (fun _ hst _ _ => ⟨hst.swap, hst.zero⟩)

/-- A page that is walked to is among the leaf entries. -/
theorem mem_leaves (hs : s.isPt = true) (hv : u.tables.Visited s) (hp : (u.tables s).isPresent = true) :
    u.tables s ∈ u.leaves := by
  rw [leaves_present hs hv hp]
  exact Multiset.mem_cons_self _ _

section CloneResult

variable {pml4 : Frame} {c : CloneState} {r : Except ForkError Unit}

/-- The walk over a whole address space, from the start. -/
theorem cloneSlots_start (hu : SpaceOk u) (hst : StoreOk st) (hS : ∀ e ∈ u.leaves, frameOf e ∉ S)
    (htake : ∀ f v, A f v .take) (hshare : ∀ f v w, v.pinned = 0 → A f v (.share w))
    (ha : st.Allocated (some pml4) st') (h : cloneSlots pml4 u.tables.visits (cloneStart u pml4 st') = some (r, c)) :
    CloneStep A P (u.tabs + T) H S u.tables pml4 u.tables.visits (cloneStart u pml4 st') r c ∧
      Sim A ⟨u.leaves + P, u.tabs + T, H, S, st⟩ (c.ledger P (u.tabs + T) H S) := by
  have hstep := cloneSlots_spec (P := P) (T := u.tabs + T) (H := H) cloneStart_inv
    (nil_append _).symm (fun s hs => hu.noHuge_visited hs) (hst.allocated ha)
    (fun s hs hpt hp => hS _ (mem_leaves hpt (mem_visits.mp hs) hp)) htake hshare h
  refine ⟨hstep, Sim.trans ?_ hstep.sim⟩
  show Sim A _ ⟨u.tables.leaves + ((cloneStart u pml4 st').child.leaves + P), _, ↑[pml4] + H, S, st'⟩
  rw [cloneStart_leaves, zero_add, coe_singleton]
  exact sim_take ha htake

/-- The parent keeps its form, whether the walk succeeds or not. -/
theorem CloneStep.parent_ok {T' : Multiset Frame} {c0 : CloneState} {done : List Slot} (hu : SpaceOk u)
    (h : CloneStep A P T' H S u.tables pml4 done c0 r c) :
    SpaceOk { u with tables := c.parent } ∧ ({ u with tables := c.parent } : UserAddressSpace).tabs = u.tabs := by
  refine ⟨hu.ofPages h.parent, ?_⟩
  show u.pml4Phys ::ₘ ↑c.parent.tableFrames = _
  rw [tableFrames_congr (fun s hs => h.parent s (.inl hs))]
  rfl

/-- The child maps no frame of a segment, whether the walk succeeds or not. -/
theorem CloneStep.child_pages {T' : Multiset Frame} {done : List Slot}
    (h : CloneStep A P T' H S u.tables pml4 done (cloneStart u pml4 st) r c) : ∀ e ∈ c.child.leaves, frameOf e ∉ S := by
  refine h.child (fun e he => ?_)
  rw [cloneStart_leaves] at he
  exact absurd he (Multiset.notMem_zero e)

/-- The child is well formed. -/
theorem CloneInv.child_ok (hinv : CloneInv u.tables pml4 u.tables.visits c) (h0 : pml4 ≠ 0) (vmas : Vma.VmAreaList) :
    SpaceOk { pml4Phys := pml4, tables := c.child, allocatedFrames := c.frames.filter (fun f => f ≠ pml4), vmas } where
  noHuge := by
    intro s hs hlt
    show (c.child s).isPresent = true → (c.child s).isHuge = false
    intro hp
    by_cases hin : s ∈ u.tables.visits
    · exact hinv.table s hin hs
    · rw [hinv.childRest s hin hlt] at hp
      cases hp
  kernelHalf := by
    intro s hs hge
    show (c.child s).isCow = false
    rw [hinv.kernel s hs hge]
    rfl
  root := h0
  recorded := by
    intro f hf
    obtain ⟨hf, hne⟩ := mem_filter.mp hf
    have hmem : f ∈ (c.frames : Multiset Frame) := hf
    rw [hinv.frames, Multiset.mem_cons] at hmem
    exact hmem.resolve_left (by simpa using hne)

end CloneResult

variable {child : UserAddressSpace} {e : ForkError} {kernelStack : Bool}

/-- How `clone_address_space_cow` can end. -/
theorem cloneAddressSpaceCow_cases {r : Except ForkError UserAddressSpace}
    (h : cloneAddressSpaceCow u st = some (r, u', st')) : (∃ e, r = .error e ∧ u' = u ∧ st.Allocated none st') ∨
      ∃ pml4 st1 c, st.Allocated (some pml4) st1 ∧
        ((∃ e, cloneSlots pml4 u.tables.visits (cloneStart u pml4 st1) = some (.error e, c) ∧ r = .error e ∧
            u' = { u with tables := c.parent } ∧ st' = freeAll c.store c.frames) ∨
          (cloneSlots pml4 u.tables.visits (cloneStart u pml4 st1) = some (.ok (), c) ∧
            r = .ok ⟨pml4, c.child, c.frames.filter (fun f => f ≠ pml4), u.vmas⟩ ∧
            u' = { u with tables := c.parent } ∧ st' = c.frames.foldl markPagetable c.store)) := by
  have ha := allocFrame_spec st
  unfold cloneAddressSpaceCow at h
  split at h
  next st1 hal =>
    rw [hal] at ha
    cases h
    exact .inl ⟨_, rfl, rfl, ha⟩
  rename_i pml4 st1 hal
  rw [hal] at ha
  simp only at h
  split at h
  · cases h
  next e c hc =>
    cases h
    exact .inr ⟨pml4, st1, c, ha, .inl ⟨e, hc, rfl, rfl, rfl⟩⟩
  rename_i c hc
  obtain ⟨rfl, hrest⟩ := Prod.mk.inj (some.inj h)
  cases hrest
  exact .inr ⟨pml4, st1, c, ha, .inr ⟨hc, rfl, rfl, rfl⟩⟩

section

variable (hu : SpaceOk u) (hst : StoreOk st) (hS : ∀ e ∈ u.leaves, frameOf e ∉ S) (htake : ∀ f v, A f v .take)
  (hshare : ∀ f v w, v.pinned = 0 → A f v (.share w))
include hu hst hS htake hshare

/-- **A fork that succeeds.** -/
theorem cloneAddressSpaceCow_ok (hlink : ∀ f v, A f v .link) (hmark : ∀ f v, A f v .markTable)
    (h : cloneAddressSpaceCow u st = some (.ok child, u', st')) :
    SpaceOk u' ∧ SpaceOk child ∧ StoreOk st' ∧ (∀ e ∈ child.leaves, frameOf e ∉ S) ∧
      Sim A ⟨u.leaves + P, u.tabs + T, H, S, st⟩
        ⟨u'.leaves + (child.leaves + P), u'.tabs + (child.tabs + T), H, S, st'⟩ := by
  rcases cloneAddressSpaceCow_cases h with ⟨e, he, -⟩ | ⟨pml4, st1, c, ha, ⟨e, -, he, -⟩ | ⟨hc, he, rfl, rfl⟩⟩
  · cases he
  · cases he
  cases he
  obtain ⟨hstep, hsim⟩ := cloneSlots_start (P := P) (H := H) hu hst hS htake hshare ha hc
  have hinv := hstep.inv rfl
  obtain ⟨hu', htabs⟩ := hstep.parent_ok hu
  refine ⟨hu', hinv.child_ok (hst.ne_zero ha) u.vmas, hstep.store.markAll _, hstep.child_pages, hsim.trans ?_⟩
  have hchild : (⟨pml4, c.child, c.frames.filter (fun f => f ≠ pml4), u.vmas⟩ : UserAddressSpace).tabs = ↑c.frames :=
    hinv.frames.symm
  rw [htabs, hchild, add_left_comm u.tabs]
  refine (sim_linkAll hlink c.frames).trans (sim_markAll hmark c.frames (fun f hf => ?_))
  exact Multiset.mem_add.mpr (.inl hf)

/-- **A fork that fails**: the child's entries are forgotten and its tables returned. -/
theorem cloneAddressSpaceCow_error (hforget : ∀ f v w, v.pinned = 0 → A f v (.forget w))
    (hgive : ∀ f v, A f v .giveBack) (h : cloneAddressSpaceCow u st = some (.error e, u', st')) :
    Carried A P T H S u st u' st' := by
  rcases cloneAddressSpaceCow_cases h with
    ⟨e, -, rfl, ha⟩ | ⟨pml4, st1, c, ha, ⟨e, hc, -, rfl, rfl⟩ | ⟨-, he, -⟩⟩
  · exact ⟨sim_refused ha, hu, hst.allocated ha⟩
  · obtain ⟨hstep, hsim⟩ := cloneSlots_start hu hst hS htake hshare ha hc
    obtain ⟨hu', htabs⟩ := hstep.parent_ok hu
    refine ⟨hsim.trans ?_, hu', hstep.store.freeAll _⟩
    rw [htabs]
    show Sim A ⟨c.parent.leaves + (c.child.leaves + P), _, _, _, _⟩ _
    rw [add_left_comm]
    exact (sim_forgetAll _ hforget hstep.child_pages).trans (sim_freeAll _ _ _ _ _ _ hgive)
  · cases he

end

/-! ## `do_fork` -/

/-- How `do_fork` can end: with the error of the clone, with a child that is dropped again for want of a
    kernel stack, or with a child. -/
theorem doFork_cases {r : Except ForkError UserAddressSpace} (h : doFork u st kernelStack = some (r, u', st')) :
    (∃ e, r = .error e ∧ cloneAddressSpaceCow u st = some (.error e, u', st')) ∨
      (∃ child st1, r = .error .outOfMemory ∧ cloneAddressSpaceCow u st = some (.ok child, u', st1) ∧
        st' = child.drop st1) ∨
      ∃ child, r = .ok child ∧ cloneAddressSpaceCow u st = some (.ok child, u', st') := by
  unfold doFork at h
  split at h
  · cases h
  next e u1 st1 hc =>
    cases h
    exact .inl ⟨e, rfl, hc⟩
  rename_i child u1 st1 hc
  split at h
  · cases h
    exact .inr (.inr ⟨child, rfl, hc⟩)
  · cases h
    exact .inr (.inl ⟨child, st1, rfl, hc, rfl⟩)

/-- The events that must not happen to the frames of segments. -/
def Event.guarded : Event → Bool
  | .share _ | .unmap _ | .dropPage _ | .overcount _ | .forget _ => true
  | _ => false

/-- The events of a fork that succeeds. -/
def Event.forking : Event → Bool
  | .take | .link | .markTable | .share _ => true
  | _ => false

/-- The events of a fork that fails. -/
def Event.unforking : Event → Bool
  | .forget _ | .giveBack | .dropPage _ | .dropTable | .dupTable => true
  | e => e.forking

section

variable (hu : SpaceOk u) (hst : StoreOk st) (hS : ∀ e ∈ u.leaves, frameOf e ∉ S)
include hu hst hS

/-- **A fork that succeeds.** -/
theorem doFork_ok (hok : ∀ f v e, forking e = true → (guarded e = true → v.pinned = 0) → A f v e)
    (h : doFork u st kernelStack = some (.ok child, u', st')) :
    SpaceOk u' ∧ SpaceOk child ∧ StoreOk st' ∧
      Sim A ⟨u.leaves + P, u.tabs + T, H, S, st⟩
        ⟨u'.leaves + (child.leaves + P), u'.tabs + (child.tabs + T), H, S, st'⟩ := by
  rcases doFork_cases h with ⟨e, hr, -⟩ | ⟨c, st1, hr, -⟩ | ⟨c, hr, hc⟩
  · cases hr
  · cases hr
  cases hr
  obtain ⟨hu', hchild, hst', -, hsim⟩ := cloneAddressSpaceCow_ok hu hst hS
    (fun f v => hok f v _ rfl nofun) (fun f v w hp => hok f v _ rfl (fun _ => hp))
    (fun f v => hok f v _ rfl nofun) (fun f v => hok f v _ rfl nofun) hc
  exact ⟨hu', hchild, hst', hsim⟩

/-- **A fork that fails.** -/
theorem doFork_error (hok : ∀ f v e, unforking e = true → (guarded e = true → v.pinned = 0) → A f v e)
    (h : doFork u st kernelStack = some (.error e, u', st')) : Carried A P T H S u st u' st' := by
  rcases doFork_cases h with ⟨e, hr, hc⟩ | ⟨child, st1, -, hc, rfl⟩ | ⟨c, hr, -⟩
  · exact cloneAddressSpaceCow_error hu hst hS (fun f v => hok f v _ rfl nofun)
      (fun f v w hp => hok f v _ rfl (fun _ => hp)) (fun f v w hp => hok f v _ rfl (fun _ => hp))
      (fun f v => hok f v _ rfl nofun) hc
  · obtain ⟨hu', hchild, hst1, hSchild, hsim⟩ := cloneAddressSpaceCow_ok hu hst hS
      (fun f v => hok f v _ rfl nofun) (fun f v w hp => hok f v _ rfl (fun _ => hp))
      (fun f v => hok f v _ rfl nofun) (fun f v => hok f v _ rfl nofun) hc
    obtain ⟨hdrop, hst2⟩ := drop_spec hchild
      hst1 (fun f v w hp => hok f v _ rfl (fun _ => hp)) (fun f v => hok f v _ rfl nofun)
      (fun f v => hok f v _ rfl nofun) hSchild
    refine ⟨hsim.trans ?_, hu', hst2⟩
    rw [add_left_comm u'.leaves, add_left_comm u'.tabs]
    exact hdrop
  · cases hr

end

end OxideOs.Vm
