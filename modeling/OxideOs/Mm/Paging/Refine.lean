import OxideOs.Lib.PMap
import OxideOs.Mm.Paging.Mapper

/-!
# `Mm.Paging.Refine` — `PageMapper` implements a partial map

What the tables are for: a partial map from pages to frames. The four indices of an address are the digits of
its page number, so distinct pages have distinct paths; no two paths share a table; and the tables that `map`
creates on its way down are blank, so a `map` that fails half-way has changed no translation.
-/

namespace OxideOs.Paging

open List Option PageTableFlags Radix PageTableEntry PageLevel PageMapper PageTable Set PMap Prod Nat

/-! ## Paths and pages -/

/-- The indices that lead to the page table of an address, the last one first. -/
def dirPath (virt : VirtAddr) : List (Fin ENTRIES_PER_TABLE) :=
  [PageLevel.pd.index virt, PageLevel.pdpt.index virt, pml4.index virt]

/-- The indices that lead to the leaf entry of an address. -/
def path (virt : VirtAddr) : List (Fin ENTRIES_PER_TABLE) := PageLevel.pt.index virt :: dirPath virt

/-- The page number of an address: bits 12 to 47. For a user address this is the address over 4096. -/
def pageOf (virt : VirtAddr) : Nat := virt.toNat / 4096 % 2 ^ 36

theorem index_val (level : PageLevel) (virt : VirtAddr) :
    (level.index virt).val = virt.toNat / 2 ^ (12 + (level.number - 1) * 9) % 512 := by
  show ((virt >>> (12 + (level.number - 1) * 9)) &&& 0x1FF#64).toNat = _
  rw [BitVec.toNat_and, BitVec.toNat_ushiftRight, shiftRight_eq_div_pow]
  exact and_two_pow_sub_one_eq_mod _ 9

/-- **Distinct pages have distinct paths.** -/
theorem path_eq_iff {v w : VirtAddr} : path v = path w ↔ pageOf v = pageOf w := by
  have hpath : path v = path w ↔ (pt.index v).val = (pt.index w).val ∧ (pd.index v).val = (pd.index w).val ∧
      (pdpt.index v).val = (pdpt.index w).val ∧
      (pml4.index v).val = (pml4.index w).val := by
    simp [path, dirPath, Fin.ext_iff]
  rw [hpath]
  simp only [index_val, pageOf]
  show v.toNat / 4096 % 512 = w.toNat / 4096 % 512 ∧ v.toNat / 2 ^ 21 % 512 = w.toNat / 2 ^ 21 % 512 ∧
    v.toNat / 2 ^ 30 % 512 = w.toNat / 2 ^ 30 % 512 ∧ v.toNat / 2 ^ 39 % 512 = w.toNat / 2 ^ 39 % 512 ↔ _
  omega

/-! ## What the tables say -/

/-- The frame in the leaf entry at the end of a path. -/
def frameAt (m : PageMapper) (p : List (Fin ENTRIES_PER_TABLE)) : Option PhysAddr :=
  (leaf childTable m.mem m.pml4Phys p).bind (fun e => if e.isPresent then some e.addr else none)

/-- The frames the allocator will still hand out. -/
def supply (m : PageMapper) : List PhysAddr := m.frames.reduceOption

/-- The invariant of the tables. -/
structure Inv (m : PageMapper) : Prop where
  tree : Tree childTable m.mem m.pml4Phys 3
  /-- No entry above the page tables is a huge page. -/
  interior : Interior childTable m.mem m.pml4Phys 3 (fun e => e.isPresent = true → e.isHuge = false)
  nodup : (supply m).Nodup
  fresh : ∀ f ∈ supply m, Fresh childTable m.mem m.pml4Phys 3 f
  aligned : ∀ f ∈ supply m, f &&& ADDR_MASK = f

theorem childTable_eq_none {e : PageTableEntry} (h : e.isPresent = true → e.isHuge = false) :
    childTable e = none ↔ e.isPresent = false := by
  unfold childTable
  cases hp : e.isPresent with
  | false => simp
  | true => simp [h hp]

theorem childTable_of_present {e : PageTableEntry} (hp : e.isPresent = true) (hh : e.isHuge = false) :
    childTable e = some e.addr := by
  simp [childTable, hp, hh]

/-- The new tables are blank. -/
theorem childTable_cleared (j : Fin ENTRIES_PER_TABLE) : childTable (cleared j) = none :=
  show childTable empty = none by decide

/-- An entry for a new table leads to it. -/
theorem childTable_set {f : PhysAddr} (h : f &&& ADDR_MASK = f) :
    childTable (PageTableEntry.set f TABLE_FLAGS) = some f := by
  have hp : (set f TABLE_FLAGS).isPresent = true := by
    rw [isPresent_eq, getLsbD_set _ _ (by decide)]
    decide
  have hh : (set f TABLE_FLAGS).isHuge = false := by
    rw [isHuge_eq, getLsbD_set _ _ (by decide)]
    decide
  rw [childTable_of_present hp hh, addr_set, h]

namespace Inv

variable {m : PageMapper}

variable {virt : VirtAddr} {pt t : PhysAddr} {p : List (Fin ENTRIES_PER_TABLE)}

theorem walk_eq (m : PageMapper) (virt : VirtAddr) : m.walk virt = node childTable m.mem m.pml4Phys (dirPath virt) := by
  simp [walk, getTable, dirPath, node, bind_assoc]

/-- **`translate` reads the leaf.** -/
theorem translate_eq (h : Inv m) (virt : VirtAddr) :
    m.translate virt = (frameAt m (path virt)).map (fun f => f + (virt &&& 0xFFF#64)) := by
  unfold PageMapper.translate frameAt path leaf dirPath
  simp only [getTable, node, bind_some, bind_eq_bind]
  cases h4 : childTable (m.mem m.pml4Phys (pml4.index virt)) with
  | none => rfl
  | some pdpt =>
    have hpdpt : node childTable m.mem m.pml4Phys [pml4.index virt] = some pdpt := by
      simp [node, h4]
    have hh3 := h.interior _ pdpt (PageLevel.pdpt.index virt) (Nat.lt_of_sub_eq_succ rfl) hpdpt
    simp only [bind_some]
    cases hp3 : (m.mem pdpt (PageLevel.pdpt.index virt)).isPresent with
    | false =>
      rw [(childTable_eq_none hh3).mpr hp3]
      rfl
    | true =>
      have h3 := childTable_of_present hp3 (hh3 hp3)
      simp only [h3, hh3 hp3, bind_some]
      have hpd : node childTable m.mem m.pml4Phys [PageLevel.pdpt.index virt, pml4.index virt] =
          some (m.mem pdpt (PageLevel.pdpt.index virt)).addr := by
        simp [node, h4, h3]
      have hh2 := h.interior _ _ (PageLevel.pd.index virt) (Nat.lt_of_sub_eq_succ rfl) hpd
      generalize (m.mem pdpt (PageLevel.pdpt.index virt)).addr = pd at hh2 ⊢
      cases hp2 : (m.mem pd (PageLevel.pd.index virt)).isPresent with
      | false =>
        rw [(childTable_eq_none hh2).mpr hp2]
        rfl
      | true =>
        simp only [childTable_of_present hp2 (hh2 hp2), hh2 hp2, map_some, bind_some]
        generalize (m.mem pd (PageLevel.pd.index virt)).addr = pt
        cases hp1 : (m.mem pt (PageLevel.pt.index virt)).isPresent with
        | false | true => simp

/-! ## Changing a leaf -/

/-- The frame an entry gives its page. -/
def entryFrame (e : PageTableEntry) : Option PhysAddr := if e.isPresent then some e.addr else none

/-- **Overwriting a leaf entry** changes the frame of one page. -/
theorem write_spec (h : Inv m) (hw : m.walk virt = some pt) (e : PageTableEntry) :
    Inv { m with mem := write m.mem pt (PageLevel.pt.index virt) e } ∧
      ∀ v, frameAt { m with mem := write m.mem pt (PageLevel.pt.index virt) e } (path v) =
        if pageOf v = pageOf virt then entryFrame e else frameAt m (path v) := by
  rw [walk_eq] at hw
  have hlen : (dirPath virt).length = 3 := rfl
  refine ⟨⟨h.tree.write hlen hw, Interior.write h.tree h.interior hlen hw, h.nodup, fun f hf q hq => ?_, h.aligned⟩,
    fun v => ?_⟩
  · show node childTable (write m.mem pt _ e) m.pml4Phys q ≠ some f
    rw [node_write h.tree hlen hw hq]
    exact h.fresh f hf q hq
  simp only [frameAt, path]
  rw [leaf_write h.tree hlen hw (show (dirPath v).length = 3 from rfl)]
  have hiff : (PageLevel.pt.index v :: dirPath v = PageLevel.pt.index virt :: dirPath virt) ↔
      pageOf v = pageOf virt := path_eq_iff
  by_cases hv : pageOf v = pageOf virt
  · rw [if_pos (hiff.mpr hv), if_pos hv]
    rfl
  · rw [if_neg (mt hiff.mp hv), if_neg hv]

/-- The frame of a page whose page table exists. -/
theorem frameAt_walk (hw : m.walk virt = some pt) :
    frameAt m (path virt) = entryFrame (m.mem pt (PageLevel.pt.index virt)) := by
  rw [walk_eq] at hw
  simp only [frameAt, path, leaf, hw]
  rfl

/-- A page whose page table does not exist has no frame. -/
theorem frameAt_no_walk (hw : m.walk virt = none) : frameAt m (path virt) = none := by
  rw [walk_eq] at hw
  simp [frameAt, path, leaf, hw]

/-- **A change of an entry** that keeps the address or clears the present bit: the page stays mapped, or is
    unmapped. -/
theorem changeEntry_spec (h : Inv m) (virt : VirtAddr) (keep : Bool) {change : PageTableEntry → PageTableEntry}
    (hentry : ∀ e, e.isPresent = true → entryFrame (change e) = if keep then some e.addr else none) :
    Inv (m.changeEntry virt change).2 ∧
      ((m.changeEntry virt change).1 = true ↔ frameAt m (path virt) ≠ none) ∧
      ∀ v, frameAt (m.changeEntry virt change).2 (path v) =
        if pageOf v = pageOf virt ∧ keep = false then none else frameAt m (path v) := by
  unfold changeEntry
  -- a page that is not mapped stays as it is
  have hsame : frameAt m (path virt) = none → ∀ v, frameAt m (path v) =
      if pageOf v = pageOf virt ∧ keep = false then none else frameAt m (path v) := by
    intro hnone v
    split
    next hv =>
      rw [path_eq_iff.mpr hv.1, hnone]
    · rfl
  cases hw : m.walk virt with
  | none =>
    have hnone := frameAt_no_walk hw
    exact ⟨h, by simp [hnone], hsame hnone⟩
  | some pt =>
    have hf := frameAt_walk hw
    cases hp : (m.mem pt (PageLevel.pt.index virt)).isPresent with
    | false =>
      have hnone : frameAt m (path virt) = none := by rw [hf, entryFrame, hp]; rfl
      simp only [hp]
      exact ⟨h, by simp [hnone], hsame hnone⟩
    | true =>
      simp only [hp, if_true]
      obtain ⟨hinv, hframe⟩ := h.write_spec hw _
      have hsome : frameAt m (path virt) = some (m.mem pt (PageLevel.pt.index virt)).addr := by
        rw [hf, entryFrame, hp]; rfl
      refine ⟨hinv, by simp [hsome], fun v => ?_⟩
      rw [hframe v]
      by_cases hv : pageOf v = pageOf virt
      · rw [hentry _ hp, path_eq_iff.mpr hv, hsome]
        cases keep <;> simp
      · rw [if_neg hv, if_neg (fun hc => hv hc.1)]

/-- **`update_flags`** finds exactly the mapped pages, and moves none. -/
theorem updateFlags_spec (h : Inv m) (virt : VirtAddr) (flags : PageTableFlags) :
    Inv (m.updateFlags virt flags).2 ∧
      ((m.updateFlags virt flags).1 = true ↔ frameAt m (path virt) ≠ none) ∧
      ∀ v, frameAt (m.updateFlags virt flags).2 (path v) = frameAt m (path v) := by
  obtain ⟨hinv, hok, hf⟩ := h.changeEntry_spec virt true
    (fun e he => by rw [entryFrame, e.isPresent_addFlags flags he, e.addr_addFlags])
  exact ⟨hinv, hok, fun v => (hf v).trans (if_neg (fun hc => absurd hc.2 (by simp)))⟩

/-- **`remove_flags`** finds exactly the mapped pages, and unmaps the page when it clears the present flag. -/
theorem removeFlags_spec (h : Inv m) (virt : VirtAddr) (flags : PageTableFlags) :
    Inv (m.removeFlags virt flags).2 ∧
      ((m.removeFlags virt flags).1 = true ↔ frameAt m (path virt) ≠ none) ∧
      ∀ v, frameAt (m.removeFlags virt flags).2 (path v) =
        if pageOf v = pageOf virt ∧ flags.contains PRESENT = true then none else frameAt m (path v) := by
  obtain ⟨hinv, hok, hf⟩ := h.changeEntry_spec virt _
    (fun e he => by rw [entryFrame, e.isPresent_removeFlags flags he, e.addr_removeFlags])
  refine ⟨hinv, hok, fun v => (hf v).trans ?_⟩
  simp

/-- **`unmap`** returns the frame and undefines the page. -/
theorem unmap_spec (h : Inv m) (virt : VirtAddr) :
    Inv (m.unmap virt).2 ∧ (m.unmap virt).1 = frameAt m (path virt) ∧
      ∀ v, frameAt (m.unmap virt).2 (path v) = if pageOf v = pageOf virt then none else frameAt m (path v) := by
  have heq : m.unmap virt = (frameAt m (path virt), (m.changeEntry virt (fun _ => empty)).2) := by
    unfold unmap changeEntry
    cases hw : m.walk virt with
    | none => rw [frameAt_no_walk hw]
    | some pt =>
      rw [frameAt_walk hw, entryFrame]
      dsimp only
      split <;> rfl
  obtain ⟨hinv, -, hf⟩ := @changeEntry_spec m h virt false (fun _ => empty) (fun _ _ => rfl)
  rw [heq]
  refine ⟨hinv, rfl, fun v => (hf v).trans ?_⟩
  simp

/-! ## Creating tables -/

/-- How many tables are missing on the way down from `t` along `is`. -/
def missingFrom (mem : PhysMem) (t : PhysAddr) : List (Fin ENTRIES_PER_TABLE) → Nat
  | [] => 0
  | i :: is =>
    match childTable (mem t i) with
    | some t' => missingFrom mem t' is
    | none => is.length + 1

/-- The allocator's next `n` answers are frames. -/
def Granted (frames : List (Option PhysAddr)) (n : Nat) : Prop := ∀ i < n, ∃ f, frames[i]? = some (some f)

theorem granted_succ {frames : List (Option PhysAddr)} {n : Nat} :
    Granted frames (n + 1) ↔ (∃ f, frames.head?.join = some f) ∧ Granted frames.tail n := by
  unfold Granted
  rw [forall_lt_succ_left, head?_eq_getElem?]
  simp only [join_eq_some_iff, getElem?_tail]

/-- Nothing that can be seen through the tables changed. -/
structure SameFrames (m m' : PageMapper) : Prop where
  root : m'.pml4Phys = m.pml4Phys
  frameAt : ∀ v, frameAt m' (path v) = frameAt m (path v)

theorem SameFrames.refl (m : PageMapper) : SameFrames m m := ⟨rfl, fun _ => rfl⟩

theorem SameFrames.trans {m m' m'' : PageMapper} (h : SameFrames m m') (h' : SameFrames m' m'') :
    SameFrames m m'' := ⟨h'.root.trans h.root, fun v => (h'.frameAt v).trans (h.frameAt v)⟩

/-- The supply without its next answer. -/
theorem drop_answer (h : Inv m) : Inv { m with frames := m.frames.tail } := by
  have hsub : ∀ f ∈ m.frames.tail.reduceOption, f ∈ m.frames.reduceOption := by
    intro f hf
    rw [reduceOption_mem_iff] at hf ⊢
    exact mem_of_mem_tail hf
  have hnd : m.frames.tail.reduceOption.Nodup := h.nodup.sublist ((tail_sublist m.frames).filterMap _)
  exact ⟨h.tree, h.interior, hnd, fun f hf => h.fresh f (hsub f hf), fun f hf => h.aligned f (hsub f hf)⟩

/-- **Hanging a new table into an empty slot** changes no translation. -/
theorem grow_spec (h : Inv m) {f : PhysAddr} {i : Fin ENTRIES_PER_TABLE}
    (hp : p.length < 3) (ht : node childTable m.mem m.pml4Phys p = some t)
    (hnone : childTable (m.mem t i) = none) (hf : m.frames.head?.join = some f) : let m' : PageMapper :=
      { m with
        mem := grow m.mem t i (PageTableEntry.set f TABLE_FLAGS) f cleared
        frames := m.frames.tail }
    Inv m' ∧ SameFrames m m' ∧ node childTable m'.mem m'.pml4Phys (i :: p) = some f := by
  intro m'
  -- the frame handed out is the head of the supply
  have hframes : m.frames = some f :: m.frames.tail := by
    cases hfr : m.frames with
    | nil => rw [hfr] at hf; exact absurd hf (by simp)
    | cons a rest =>
      rw [hfr] at hf
      simp only [head?_cons, join_some] at hf
      rw [hf]
      rfl
  have hsupply : supply m = f :: m.frames.tail.reduceOption := by
    rw [supply, hframes]
    rfl
  have hmem : f ∈ supply m := hsupply ▸ mem_cons_self ..
  have hfresh := h.fresh f hmem
  have hchild := childTable_set (h.aligned f hmem)
  have hnode : ∀ q, q.length ≤ 3 → node childTable m'.mem m'.pml4Phys q =
      if q = i :: p then some f else node childTable m.mem m.pml4Phys q := fun q hq =>
    node_grow h.tree hp ht hnone hfresh hchild childTable_cleared hq
  have hnd := h.nodup
  rw [hsupply] at hnd
  obtain ⟨hnot, hnd⟩ := nodup_cons.mp hnd
  refine ⟨⟨h.tree.grow hp ht hnone hfresh hchild childTable_cleared, ?_, hnd, fun g hg q hq => ?_,
    fun g hg => h.aligned g (hsupply ▸ mem_cons_of_mem _ hg)⟩, ⟨rfl, fun v => ?_⟩, ?_⟩
  · refine Interior.grow h.tree h.interior hp ht hnone hfresh hchild childTable_cleared (fun _ => ?_)
      (fun j hj => absurd hj ?_)
    · rw [isHuge_eq, getLsbD_set _ _ (by decide)]
      decide
    · show ¬ empty.isPresent = true
      decide
  · rw [hnode q hq]
    split
    · intro hgf
      cases hgf
      exact hnot hg
    · exact h.fresh g (hsupply ▸ mem_cons_of_mem _ hg) q hq
  · -- blank leaves appear where there were none
    have hlen : (dirPath v).length = 3 := rfl
    simp only [frameAt, path]
    rw [leaf_grow h.tree hp ht hnone hfresh hchild childTable_cleared hlen]
    split
    next hv =>
      rw [hv, leaf_grow_none ht hnone]
      rw [bind_some]
      show entryFrame empty = none
      decide
    · rfl
  · rw [hnode (i :: p) hp, if_pos rfl]

/-- **`get_or_create_table`**: the child, or a new one, or no frame; never a huge page. -/
theorem getOrCreateTable_spec (h : Inv m)
    (i : Fin ENTRIES_PER_TABLE) (hp : p.length < 3) (ht : node childTable m.mem m.pml4Phys p = some t) :
    (∃ t', childTable (m.mem t i) = some t' ∧ m.getOrCreateTable t i = (.ok t', m)) ∨
      (childTable (m.mem t i) = none ∧
        ((m.frames.head?.join = none ∧ ∃ m', m.getOrCreateTable t i = (.error .frameAllocationFailed, m') ∧
            Inv m' ∧ SameFrames m m') ∨
          ∃ f m', m.frames.head?.join = some f ∧ m.getOrCreateTable t i = (.ok f, m') ∧ Inv m' ∧
            SameFrames m m' ∧ m'.frames = m.frames.tail ∧ (∀ j, childTable (m'.mem f j) = none) ∧
            node childTable m'.mem m'.pml4Phys (i :: p) = some f)) := by
  have hh := h.interior p t i hp ht
  unfold getOrCreateTable
  cases hpres : (m.mem t i).isPresent with
  | true =>
    refine .inl ⟨_, childTable_of_present hpres (hh hpres), ?_⟩
    simp [hpres, hh hpres]
  | false =>
    have hnone := (childTable_eq_none hh).mpr hpres
    refine .inr ⟨hnone, ?_⟩
    simp only [hpres, allocFrame]
    cases hf : m.frames.head?.join with
    | none => exact .inl ⟨rfl, _, rfl, h.drop_answer, rfl, fun _ => rfl⟩
    | some f =>
      obtain ⟨hinv, hsame, hnode⟩ := h.grow_spec hp ht hnone hf
      refine .inr ⟨f, _, rfl, rfl, hinv, hsame, rfl, fun j => ?_, hnode⟩
      have hft : ¬ (f = t ∧ j = i) := by
        rintro ⟨rfl, _⟩
        have hmem : f ∈ supply m := by
          rw [supply, reduceOption_mem_iff]
          exact mem_of_mem_head? (join_eq_some_iff.mp hf)
        exact h.fresh f hmem p (le_of_lt hp) ht
      show childTable (grow m.mem t i _ f cleared f j) = none
      rw [grow, write_other hft, Function.update_self]
      exact childTable_cleared j

/-- The walk of `map` as a recursion over the indices, from the top down. -/
def descend (m : PageMapper) (t : PhysAddr) : List (Fin ENTRIES_PER_TABLE) → Except MapError PhysAddr × PageMapper
  | [] => (.ok t, m)
  | i :: is =>
    match m.getOrCreateTable t i with
    | (.error e, m) => (.error e, m)
    | (.ok t', m) => descend m t' is

/-- The indices of an address from the top down, without the last one. -/
def topDown (virt : VirtAddr) : List (Fin ENTRIES_PER_TABLE) :=
  [pml4.index virt, PageLevel.pdpt.index virt, PageLevel.pd.index virt]

theorem map_eq (m : PageMapper) (virt : VirtAddr) (phys : PhysAddr) (flags : PageTableFlags) :
    m.map virt phys flags =
      match descend m m.pml4Phys (topDown virt) with
      | (.error e, m) => (.error e, m)
      | (.ok pt, m) => m.fillSlot pt virt phys flags := by
  unfold PageMapper.map topDown
  simp only [descend]
  rcases m.getOrCreateTable m.pml4Phys _ with ⟨_ | pdpt, m1⟩
  · rfl
  dsimp only
  rcases m1.getOrCreateTable pdpt _ with ⟨_ | pd, m2⟩
  · rfl
  dsimp only
  rcases m2.getOrCreateTable pd _ with ⟨_ | pt, m3⟩ <;> rfl

/-- In a blank table everything is missing. -/
theorem missingFrom_blank {mem : PhysMem} (h : ∀ j, childTable (mem t j) = none)
    (is : List (Fin ENTRIES_PER_TABLE)) : missingFrom mem t is = is.length := by
  cases is with
  | nil => rfl
  | cons i is => simp [missingFrom, h i]

/-- Nothing is missing on the way to a table that exists. -/
theorem missingFrom_eq_zero (is : List (Fin ENTRIES_PER_TABLE)) {t' : PhysAddr}
    (ht : node childTable m.mem m.pml4Phys p = some t)
    (h : node childTable m.mem m.pml4Phys (is.reverse ++ p) = some t') : missingFrom m.mem t is = 0 := by
  induction is generalizing p t with
  | nil => rfl
  | cons i is ih =>
    have hnext : node childTable m.mem m.pml4Phys (i :: p) = childTable (m.mem t i) := by
      rw [node, ht, bind_some]
    rw [reverse_cons, append_assoc, singleton_append] at h
    unfold missingFrom
    cases hc : childTable (m.mem t i) with
    | some t1 =>
      rw [hc] at hnext
      exact ih hnext h
    | none =>
      -- a path through an empty slot leads nowhere
      rw [hc] at hnext
      have hdead : ∀ r : List (Fin ENTRIES_PER_TABLE), node childTable m.mem m.pml4Phys (r ++ i :: p) = none := by
        intro r
        induction r with
        | nil => exact hnext
        | cons j r ihr => rw [cons_append, node, ihr, bind_none]
      rw [hdead] at h
      cases h

/-- **The way down.** No translation changes; the walk ends at the page table exactly when the allocator
    grants every table that is missing, and otherwise fails for want of a frame. -/
theorem descend_spec (h : Inv m) (is : List (Fin ENTRIES_PER_TABLE))
    (ht : node childTable m.mem m.pml4Phys p = some t) (hlen : p.length + is.length ≤ 3) :
    Inv (descend m t is).2 ∧ SameFrames m (descend m t is).2 ∧
      (Granted m.frames (missingFrom m.mem t is) → ∃ t', (descend m t is).1 = .ok t' ∧
        node childTable (descend m t is).2.mem (descend m t is).2.pml4Phys (is.reverse ++ p) = some t') ∧
      (¬ Granted m.frames (missingFrom m.mem t is) → (descend m t is).1 = .error .frameAllocationFailed) := by
  induction is generalizing m p t with
  | nil =>
    exact ⟨h, SameFrames.refl m, fun _ => ⟨t, rfl, ht⟩, absurd nofun⟩
  | cons i is ih =>
    rw [length_cons] at hlen
    have hp : p.length < 3 := by omega
    have hassoc : (i :: is).reverse ++ p = is.reverse ++ i :: p := by
      rw [reverse_cons, append_assoc, singleton_append]
    rcases h.getOrCreateTable_spec i hp ht with ⟨t', hc, hg⟩ | ⟨hc, ⟨hf, m', hg, hinv, hsame⟩ |
      ⟨f, m', hf, hg, hinv, hsame, hframes, hblank, hnode⟩⟩
    · have hnode : node childTable m.mem m.pml4Phys (i :: p) = some t' := by
        rw [node, ht, bind_some, hc]
      simp only [descend, hg, missingFrom, hc, hassoc]
      exact ih h hnode (by rw [length_cons]; omega)
    · simp only [descend, hg, missingFrom, hc]
      refine ⟨hinv, hsame, fun hgr => ?_, fun _ => trivial⟩
      obtain ⟨⟨f, hf'⟩, _⟩ := granted_succ.mp hgr
      rw [hf] at hf'
      cases hf'
    · simp only [descend, hg, missingFrom, hc, hassoc]
      obtain ⟨h1, h2, h3, h4⟩ := ih hinv hnode (by rw [length_cons]; omega)
      rw [missingFrom_blank hblank, hframes] at h3 h4
      have hgr : Granted m.frames (is.length + 1) ↔ Granted m.frames.tail is.length := by
        rw [granted_succ]
        exact and_iff_right ⟨f, hf⟩
      exact ⟨h1, hsame.trans h2, fun hg => h3 (hgr.mp hg), fun hg => h4 (mt hgr.mpr hg)⟩

end Inv

/-- The number of tables `map` has to create for an address. -/
def missing (m : PageMapper) (virt : VirtAddr) : Nat := Inv.missingFrom m.mem m.pml4Phys (Inv.topDown virt)

namespace Inv

variable {m : PageMapper}

/-- **`map`** succeeds when the page is unmapped and the allocator grants the missing tables; it then defines
    the page. In every other case it changes no translation. -/
theorem map_spec (h : Inv m) (virt : VirtAddr) (phys : PhysAddr) (flags : PageTableFlags) :
    Inv (m.map virt phys flags).2 ∧
      ((frameAt m (path virt) ≠ none ∧ (m.map virt phys flags).1 = .error .alreadyMapped ∧
          SameFrames m (m.map virt phys flags).2) ∨
        (frameAt m (path virt) = none ∧ ¬ Granted m.frames (missing m virt) ∧
          (m.map virt phys flags).1 = .error .frameAllocationFailed ∧
          SameFrames m (m.map virt phys flags).2) ∨
        (frameAt m (path virt) = none ∧ Granted m.frames (missing m virt) ∧
          (m.map virt phys flags).1 = .ok () ∧
          ∀ v, frameAt (m.map virt phys flags).2 (path v) =
            if pageOf v = pageOf virt then some (phys &&& ADDR_MASK) else frameAt m (path v))) := by
  have hroot : node childTable m.mem m.pml4Phys [] = some m.pml4Phys := rfl
  obtain ⟨hinv, hsame, hok, herr⟩ := h.descend_spec (topDown virt) hroot (le_refl 3)
  rw [map_eq]
  by_cases hgr : Granted m.frames (missing m virt)
  · obtain ⟨pt, hpt, hnode⟩ := hok hgr
    generalize hd : descend m m.pml4Phys (topDown virt) = r at hinv hsame hpt hnode
    obtain ⟨r, m'⟩ := r
    obtain rfl : r = .ok pt := hpt
    have hw : m'.walk virt = some pt := by
      rw [walk_eq]
      exact hnode
    have hframe := frameAt_walk hw
    rw [hsame.frameAt virt] at hframe
    simp only [fillSlot]
    cases hp : (m'.mem pt (PageLevel.pt.index virt)).isPresent with
    | true =>
      simp only [if_true]
      refine ⟨hinv, .inl ⟨?_, trivial, hsame⟩⟩
      rw [hframe, entryFrame, hp]
      simp
    | false =>
      simp only [Bool.false_eq_true, if_false]
      obtain ⟨hinv', hset⟩ := hinv.write_spec hw _
      refine ⟨hinv', .inr (.inr ⟨?_, hgr, trivial, fun v => ?_⟩)⟩
      · rw [hframe, entryFrame, hp]
        rfl
      · rw [hset v, hsame.frameAt v, entryFrame, isPresent_set, addr_set]
        rfl
  · have hnone : frameAt m (path virt) = none := by
      by_contra hne
      -- a mapped page has its page table, and nothing is missing
      cases hw : m.walk virt with
      | none => exact hne (frameAt_no_walk hw)
      | some pt =>
        rw [walk_eq] at hw
        have hzero : missing m virt = 0 := missingFrom_eq_zero _ hroot hw
        rw [hzero] at hgr
        exact hgr (fun i hi => absurd hi (not_lt_zero i))
    have hfail := herr hgr
    generalize hd : descend m m.pml4Phys (topDown virt) = r at hinv hsame hfail
    obtain ⟨r, m'⟩ := r
    obtain rfl : r = .error .frameAllocationFailed := hfail
    exact ⟨hinv, .inr (.inl ⟨hnone, hgr, rfl, hsame⟩)⟩

end Inv

/-! ## Runs -/

/-- A call of the mapper. -/
inductive Op where
  | map (virt : VirtAddr) (phys : PhysAddr) (flags : PageTableFlags)
  | unmap (virt : VirtAddr)
  | updateFlags (virt : VirtAddr) (flags : PageTableFlags)
  | removeFlags (virt : VirtAddr) (flags : PageTableFlags)

/-- What a call returns. -/
inductive Result where
  | map (r : Except MapError Unit)
  | unmap (r : Option PhysAddr)
  | flags (r : Bool)

/-- The call was refused. -/
def Result.Failed : Result → Prop
  | .map (.ok _) => False
  | .map (.error _) => True
  | .unmap r => r = none
  | .flags r => r = false

/-- A call on the tables. -/
def exec (m : PageMapper) : Op → Result × PageMapper
  | .map virt phys flags => ((m.map virt phys flags).map Result.map id)
  | .unmap virt => ((m.unmap virt).map Result.unmap id)
  | .updateFlags virt flags => ((m.updateFlags virt flags).map Result.flags id)
  | .removeFlags virt flags => ((m.removeFlags virt flags).map Result.flags id)

/-- The abstract state: page to frame. -/
abbrev PageMap := PMap Nat PhysAddr

/-- The same call on the map. A `map` call counts when it succeeded; a page that loses its present flag is
    unmapped. -/
noncomputable def specStep (a : PageMap) : Op → Result → PageMap
  | .map virt phys _, .map (.ok ()) => extend a {pageOf virt} (phys &&& ADDR_MASK)
  | .unmap virt, _ => PMap.erase a {pageOf virt}
  | .removeFlags virt flags, _ => if flags.contains PRESENT then PMap.erase a {pageOf virt} else a
  | _, _ => a

/-- The tables represent the map. -/
structure Refines (m : PageMapper) (a : PageMap) : Prop where
  inv : Inv m
  frameAt : ∀ v, frameAt m (path v) = a (pageOf v)

/-- Tables and map side by side. -/
noncomputable def run (m : PageMapper) (ops : List Op) : PageMapper × PageMap :=
  ops.foldl (fun s op => ((exec s.1 op).2, specStep s.2 op (exec s.1 op).1)) (m, PMap.empty)

/-- Before the first call: nothing is present in the PML4, and the allocator will hand out distinct, page
    aligned frames below 2^52, none of which is the PML4. -/
structure Start (m : PageMapper) : Prop where
  empty : ∀ i, (m.mem m.pml4Phys i).isPresent = false
  nodup : (supply m).Nodup
  fresh : ∀ f ∈ supply m, f ≠ m.pml4Phys ∧ f &&& ADDR_MASK = f

namespace Refines

variable {m : PageMapper} {a : PageMap}

theorem start (h : Start m) : Refines m PMap.empty := by
  have hchild : ∀ i, childTable (m.mem m.pml4Phys i) = none := by
    intro i
    simp [childTable, h.empty i]
  -- the only table is the PML4
  have hnode : ∀ i p, node childTable m.mem m.pml4Phys (i :: p) = none := by
    intro i p
    induction p generalizing i with
    | nil => exact hchild i
    | cons j p ih => rw [node, ih, bind_none]
  have honly : ∀ p t, node childTable m.mem m.pml4Phys p = some t → p = [] ∧ t = m.pml4Phys := by
    intro p t hp
    cases p with
    | nil => exact ⟨rfl, (some.inj hp).symm⟩
    | cons i p =>
      rw [hnode] at hp
      cases hp
  refine ⟨⟨?_, ?_, h.nodup, ?_, fun f hf => (h.fresh f hf).2⟩, fun v => ?_⟩
  · intro p q t _ _ hp hq
    rw [(honly p t hp).1, (honly q t hq).1]
  · intro q t j _ hq hpres
    rw [(honly q t hq).2, h.empty j] at hpres
    cases hpres
  · intro f hf q _ hq
    exact (h.fresh f hf).1 (honly q f hq).2
  · exact Inv.frameAt_no_walk (by rw [Inv.walk_eq]; exact hnode _ _)

theorem translate (h : Refines m a) (v : VirtAddr) :
    m.translate v = (a (pageOf v)).map (fun f => f + (v &&& 0xFFF#64)) := by
  rw [h.inv.translate_eq, h.frameAt]

/-- Undefining a page on both sides. -/
theorem erase {m' : PageMapper} (h : Refines m a) (hinv : Inv m') {virt : VirtAddr}
    (hf : ∀ v, Paging.frameAt m' (path v) = if pageOf v = pageOf virt then none else Paging.frameAt m (path v)) :
    Refines m' (PMap.erase a {pageOf virt}) := by
  refine ⟨hinv, fun v => ?_⟩
  rw [hf v]
  by_cases hv : pageOf v = pageOf virt
  · rw [if_pos hv, erase_of_mem (mem_singleton_iff.mpr hv)]
  · rw [if_neg hv, erase_of_not_mem (mt mem_singleton_iff.mp hv), h.frameAt]

/-- One call keeps tables and map related. -/
theorem step (h : Refines m a) (op : Op) : Refines (exec m op).2 (specStep a op (exec m op).1) := by
  cases op with
  | map virt phys flags =>
    obtain ⟨hinv, hcases⟩ := h.inv.map_spec virt phys flags
    simp only [exec, map_fst, map_snd, id]
    rcases hcases with ⟨_, hr, hsame⟩ | ⟨_, _, hr, hsame⟩ | ⟨_, _, hr, hset⟩
    iterate 2
      · rw [hr]
        exact ⟨hinv, fun v => (hsame.frameAt v).trans (h.frameAt v)⟩
    rw [hr]
    refine ⟨hinv, fun v => ?_⟩
    rw [hset v]
    simp only [specStep]
    by_cases hv : pageOf v = pageOf virt
    · rw [if_pos hv, extend_of_mem (mem_singleton_iff.mpr hv)]
    · rw [if_neg hv, extend_of_not_mem (mt mem_singleton_iff.mp hv), h.frameAt]
  | unmap virt =>
    obtain ⟨hinv, _, hf⟩ := h.inv.unmap_spec virt
    exact h.erase hinv hf
  | updateFlags virt flags =>
    obtain ⟨hinv, _, hf⟩ := h.inv.updateFlags_spec virt flags
    exact ⟨hinv, fun v => (hf v).trans (h.frameAt v)⟩
  | removeFlags virt flags =>
    obtain ⟨hinv, _, hf⟩ := h.inv.removeFlags_spec virt flags
    simp only [specStep]
    cases hp : flags.contains PRESENT with
    | true =>
      simp only [hp, and_true] at hf
      exact h.erase hinv hf
    | false =>
      simp only [hp, Bool.false_eq_true, and_false] at hf ⊢
      exact ⟨hinv, fun v => (hf v).trans (h.frameAt v)⟩

theorem run (h : Start m) (ops : List Op) : Refines (Paging.run m ops).1 (Paging.run m ops).2 := by
  unfold Paging.run
  exact foldlRecOn (motive := fun s : _ × _ => Refines s.1 s.2) ops _ (start h) (fun _ hs op _ => hs.step op)

/-- A call that fails changes no translation. -/
theorem failed (h : Refines m a) (op : Op) (hf : (exec m op).1.Failed) (v : VirtAddr) :
    (exec m op).2.translate v = m.translate v := by
  have hspec : specStep a op (exec m op).1 (pageOf v) = a (pageOf v) := by
    cases op with
    | map virt phys flags =>
      simp only [exec, map_fst] at hf ⊢
      cases hr : (m.map virt phys flags).1 with
      | ok u => rw [hr] at hf; exact absurd hf (by simp [Result.Failed])
      | error e => rfl
    | unmap virt =>
      have hnone : a (pageOf virt) = none := by
        rw [← h.frameAt, ← (h.inv.unmap_spec virt).2.1]
        exact hf
      simp only [specStep]
      by_cases hv : pageOf v = pageOf virt
      · rw [erase_of_mem (mem_singleton_iff.mpr hv), hv, hnone]
      · rw [erase_of_not_mem (mt mem_singleton_iff.mp hv)]
    | updateFlags virt flags => rfl
    | removeFlags virt flags =>
      have hnone : a (pageOf virt) = none := by
        by_contra hne
        rw [← h.frameAt] at hne
        have hok := (h.inv.removeFlags_spec virt flags).2.1.mpr hne
        exact absurd (hok.symm.trans hf) (by simp)
      simp only [specStep]
      split
      · by_cases hv : pageOf v = pageOf virt
        · rw [erase_of_mem (mem_singleton_iff.mpr hv), hv, hnone]
        · rw [erase_of_not_mem (mt mem_singleton_iff.mp hv)]
      · rfl
  rw [(h.step op).translate, h.translate, hspec]

end Refines

/-- **`PageMapper` refines a partial map.** After every sequence of calls from an empty PML4, `translate` gives
    for every address the frame of its page plus the page offset; `map` succeeds exactly when the page is
    unmapped and the allocator grants the missing tables, reports `AlreadyMapped` exactly when the page is
    mapped, and fails for want of a frame otherwise; `unmap` returns the frame; the flag operations find
    exactly the mapped pages; and a call that fails changes no translation. -/
theorem pageMapper_refines_map {m₀ : PageMapper} (h₀ : Start m₀) (ops : List Op) :
    let m := (run m₀ ops).1
    let a := (run m₀ ops).2
    (∀ v, m.translate v = (a (pageOf v)).map (fun f => f + (v &&& 0xFFF#64))) ∧
      (∀ v phys flags, ((m.map v phys flags).1 = .ok () ↔ a (pageOf v) = none ∧ Inv.Granted m.frames (missing m v)) ∧
        ((m.map v phys flags).1 = .error .alreadyMapped ↔ a (pageOf v) ≠ none) ∧
        ((m.map v phys flags).1 = .error .frameAllocationFailed ↔
          a (pageOf v) = none ∧ ¬ Inv.Granted m.frames (missing m v))) ∧
      (∀ v, (m.unmap v).1 = a (pageOf v)) ∧
      (∀ v flags, ((m.updateFlags v flags).1 = true ↔ a (pageOf v) ≠ none) ∧
        ((m.removeFlags v flags).1 = true ↔ a (pageOf v) ≠ none)) ∧
      (∀ op, (exec m op).1.Failed → ∀ v, (exec m op).2.translate v = m.translate v) := by
  intro m a
  have h : Refines m a := Refines.run h₀ ops
  refine ⟨h.translate, fun v phys flags => ?_, fun v => ?_, fun v flags => ?_, h.failed⟩
  · have hcases := (h.inv.map_spec v phys flags).2
    rw [h.frameAt] at hcases
    rcases hcases with ⟨hne, hr, _⟩ | ⟨hnone, hgr, hr, _⟩ | ⟨hnone, hgr, hr, _⟩
    · simp [hr, hne]
    · simp [hr, hnone, hgr]
    · simp [hr, hnone, hgr]
  · rw [← h.frameAt]
    exact (h.inv.unmap_spec v).2.1
  · rw [← h.frameAt]
    exact ⟨(h.inv.updateFlags_spec v flags).2.1, (h.inv.removeFlags_spec v flags).2.1⟩

/-- A PML4 at 0x1000 in zeroed memory, and an allocator with three frames. -/
def threeFrames : PageMapper :=
  { pml4Phys := 0x1000#64
    mem := fun _ => cleared
    frames := [some 0x2000#64, some 0x3000#64, some 0x4000#64] }

theorem start_threeFrames : Start threeFrames := by
  have hsupply : supply threeFrames = [0x2000#64, 0x3000#64, 0x4000#64] := rfl
  refine ⟨fun _ => show empty.isPresent = false by decide, by rw [hsupply]; decide, ?_⟩
  rw [hsupply]
  intro f hf
  rcases mem_cons.mp hf with rfl | hf
  · decide
  rcases mem_pair.mp hf with rfl | rfl <;> decide

/-- The page at 0x400000 is mapped with three new tables; mapping it again is refused and changes no translation. -/
theorem pageMapper_refines_map_threeFrames :
    (run threeFrames [.map 0x400000#64 0x7000#64 USER]).1.translate 0x400123#64 = some 0x7123#64 ∧
      ((run threeFrames [.map 0x400000#64 0x7000#64 USER]).1.map 0x400000#64 0x9000#64 USER).1 = .error .alreadyMapped ∧
      ∀ v, (exec (run threeFrames [.map 0x400000#64 0x7000#64 USER]).1
          (.map 0x400000#64 0x9000#64 USER)).2.translate v =
        (run threeFrames [.map 0x400000#64 0x7000#64 USER]).1.translate v := by
  have hok : (exec threeFrames (.map 0x400000#64 0x7000#64 USER)).1 = .map (.ok ()) :=
    congrArg Result.map (show (threeFrames.map 0x400000#64 0x7000#64 USER).1 = .ok () by decide)
  have hpage : (run threeFrames [.map 0x400000#64 0x7000#64 USER]).2 (pageOf 0x400000#64) = some 0x7000#64 := by
    rw [run, foldl_cons, foldl_nil, hok]
    exact extend_of_mem (Set.mem_singleton _)
  obtain ⟨htranslate, hmaps, -, -, hfailed⟩ :=
    pageMapper_refines_map start_threeFrames [.map 0x400000#64 0x7000#64 USER]
  generalize run threeFrames [.map 0x400000#64 0x7000#64 USER] = r at *
  have hagain : (r.1.map 0x400000#64 0x9000#64 USER).1 = .error .alreadyMapped := by
    refine (hmaps _ _ _).2.1.mpr ?_
    rw [hpage]
    nofun
  have hrefused : (exec r.1 (.map 0x400000#64 0x9000#64 USER)).1.Failed := by
    show Result.Failed (.map (r.1.map 0x400000#64 0x9000#64 USER).1)
    rw [hagain]
    trivial
  refine ⟨?_, hagain, hfailed _ hrefused⟩
  rw [htranslate, show pageOf 0x400123#64 = pageOf 0x400000#64 by decide, hpage]
  rfl

end OxideOs.Paging
