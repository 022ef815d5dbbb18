import OxideOs.Lib.Slots
import OxideOs.Mm.Slab.Model

/-!
# `Mm.Slab.Objects` — the free objects of the slab as segments

A node of a free list of some class stands for an object of that class's size. The caches are read as one
list of objects; the fast paths move single objects in and out of it, or put a page of them in.
-/

namespace OxideOs.Slab

open Function List Heap Segment

/-! ## Classes -/

/-- The bytes of the object that serves a layout. -/
def objectSize (layout : Layout) : Nat := ((sizeClass (classSizeOf layout)).map SIZE_CLASSES).getD 0

variable {size : Nat} {cls : SizeClass} {layout : Layout} {i : Nat × SizeClass} {caches : Caches}

theorem sizeClass_le (h : sizeClass size = some cls) : size ≤ SIZE_CLASSES cls := by
  unfold sizeClass at h
  repeat' split at h
  all_goals first
    | (obtain rfl := Option.some.inj h; assumption)
    | exact absurd h (by simp)

theorem sizeClass_isSome (h : size ≤ 2048) : ∃ cls, sizeClass size = some cls := by
  unfold sizeClass
  repeat' split
  all_goals exact ⟨_, rfl⟩

theorem objectSize_eq (h : sizeClass (classSizeOf layout) = some cls) : objectSize layout = SIZE_CLASSES cls := by
  simp [objectSize, h]

theorem size_le_objectSize (h : classSizeOf layout ≤ 2048) : layout.size ≤ objectSize layout := by
  obtain ⟨cls, hcls⟩ := sizeClass_isSome h
  rw [objectSize_eq hcls]
  exact le_trans (le_max_left ..) (sizeClass_le hcls)

/-- Objects fill a page exactly. -/
theorem class_divides (cls : SizeClass) :
    0 < PAGE_SIZE / SIZE_CLASSES cls ∧ PAGE_SIZE / SIZE_CLASSES cls * SIZE_CLASSES cls = PAGE_SIZE := by
  revert cls
  decide

theorem class_pos (cls : SizeClass) : 0 < SIZE_CLASSES cls := by
  revert cls
  decide

/-! ## The free objects -/

/-- Every CPU's free list of every class. -/
def slots : List (Nat × SizeClass) := (range MAX_CPUS).product (finRange 8)

theorem slots_nodup : slots.Nodup := (nodup_range).product (nodup_finRange 8)

theorem mem_slots {cpu : Nat} (h : cpu < MAX_CPUS) : (cpu, cls) ∈ slots :=
  mem_product.mpr ⟨mem_range.mpr h, mem_finRange cls⟩

/-- The objects on one free list. -/
def listObjects (i : Nat × SizeClass) (fl : FreeList) : List Segment :=
  fl.nodes.map (fun ptr => ⟨ptr, SIZE_CLASSES i.2⟩)

/-- All free objects. -/
def freeObjects (caches : Caches) : List Segment := slots.flatMap (fun i => listObjects i (caches i))

/-- Exchanging objects on one list. -/
theorem freeObjects_exchange (caches : Caches) (fl : FreeList) (as bs : List Segment)
    (hi : i ∈ slots) (hp : (as ++ listObjects i fl).Perm (bs ++ listObjects i (caches i))) :
    (as ++ freeObjects (update caches i fl)).Perm (bs ++ freeObjects caches) := by
  refine Slots.flatMap_perm_exchange as bs slots_nodup hi (fun j hj => ?_) ?_
  · rw [update_of_ne hj]
  · rw [update_self]
    exact hp

/-- Shortening one list. -/
theorem freeObjects_sublist {fl fl' : FreeList} (h : fl'.nodes.Sublist fl.nodes) :
    (freeObjects (update caches i fl')).Sublist (freeObjects (update caches i fl)) := by
  refine Slots.flatMap_sublist fun j => ?_
  by_cases hj : j = i
  · subst hj
    rw [update_self, update_self]
    exact h.map _
  · rw [update_of_ne hj, update_of_ne hj]

/-! ## Cutting up a page -/

/-- The objects of a page. -/
def pageObjects (page objSize n : Nat) : List Segment := (range n).map (fun i => ⟨page + i * objSize, objSize⟩)

/-- **Carving.** The object returned and those put on the list are all the objects of the page. -/
theorem carve_perm (page objSize n : Nat) (fl : FreeList) :
    ((carve page objSize n fl).1.toList ++ (carve page objSize n fl).2.nodes).Perm
      ((range n).map (fun i => page + i * objSize) ++ fl.nodes) := by
  induction n with
  | zero => exact .refl _
  | succ n ih =>
    unfold carve at ih ⊢
    rw [range_succ, foldl_append, map_append, append_assoc]
    generalize (range n).foldl _ _ = acc at ih ⊢
    obtain ⟨r, l⟩ := acc
    cases r with
    | none =>
      refine trans ?_ perm_middle.symm
      exact Perm.cons _ ih
    | some r =>
      refine trans ?_ perm_middle.symm
      exact (Perm.swap ..).trans (Perm.cons _ ih)

theorem pageObjects_apart (page objSize n : Nat) : (pageObjects page objSize n).Pairwise Apart := by
  refine pairwise_map.mpr (pairwise_lt_range.imp fun {i j} hij => Before.apart ?_)
  show page + i * objSize + objSize ≤ page + j * objSize
  rw [add_assoc, ← Nat.succ_mul]
  exact Nat.add_le_add_left (Nat.mul_le_mul_right _ hij) _

theorem pageObjects_inside {page objSize n x : Nat} (h : Covered (pageObjects page objSize n) x) :
    x ∈ (⟨page, n * objSize⟩ : Segment) := by
  obtain ⟨s, hs, hx⟩ := h
  obtain ⟨i, hi, rfl⟩ := mem_map.mp hs
  have hle : (i + 1) * objSize ≤ n * objSize := Nat.mul_le_mul_right _ (mem_range.mp hi)
  rw [Nat.succ_mul] at hle
  rw [mem_mk] at hx ⊢
  exact ⟨by omega, by omega⟩

/-! ## The fast paths -/

/-- The page that a request makes the slab cut up, if its list is empty and there is a page. -/
def refillPage (caches : Caches) (cpu page : Option Nat) (layout : Layout) : Option Nat :=
  match sizeClass (classSizeOf layout) with
  | none => none
  | some cls => if MAX_CPUS ≤ cpu.getD 0 then none
      else if (caches (cpu.getD 0, cls)).nodes = [] then page else none

/-- The objects that a request cuts out of a page. -/
def refillObjects (caches : Caches) (cpu page : Option Nat) (layout : Layout) : List Segment :=
  (refillPage caches cpu page layout).toList.flatMap
    (fun p => pageObjects p (objectSize layout) (PAGE_SIZE / objectSize layout))

/-- **What the fast path hands out**: a free object, or the first of a page cut up; the others of the page
    are free then. -/
theorem slabAllocFast_spec {caches' : Caches} {cpu page : Option Nat} {ptr : Nat}
    (h : slabAllocFast caches cpu page layout = some (ptr, caches')) :
    ∃ new : List Segment, (⟨ptr, objectSize layout⟩ :: freeObjects caches').Perm (new ++ freeObjects caches) ∧
      new.Pairwise Apart ∧ (∀ b ∈ new, 0 < b.size) ∧
      (∀ x, Covered new x → ∃ p ∈ refillPage caches cpu page layout, x ∈ (⟨p, PAGE_SIZE⟩ : Segment)) ∧
      new = refillObjects caches cpu page layout := by
  unfold refillObjects
  obtain ⟨cls, hcls, h⟩ := Option.bind_eq_some_iff.mp h
  rw [objectSize_eq hcls]
  by_cases hcpu : MAX_CPUS ≤ cpu.getD 0
  · rw [if_pos hcpu] at h
    cases h
  have hi : (cpu.getD 0, cls) ∈ slots := mem_slots (not_le.mp hcpu)
  rw [if_neg hcpu] at h
  cases hn : (caches (cpu.getD 0, cls)).nodes with
  | cons node next =>
    have hpop : (caches (cpu.getD 0, cls)).pop = some (node, ⟨next, (caches (cpu.getD 0, cls)).count - 1, by
          rw [(caches _).counted, hn]; rfl⟩) := by
      unfold FreeList.pop
      split
      next he =>
        rw [hn] at he
        cases he
      rename_i node' next' he
      rw [hn] at he
      cases he
      rfl
    simp only [hpop] at h
    obtain ⟨rfl, rfl⟩ := h
    refine ⟨[], ?_, Pairwise.nil, nofun,
      fun x hx => absurd hx covered_nil, by simp [refillPage, hcls, hn]⟩
    refine freeObjects_exchange _ _ [_] [] hi ?_
    simp only [listObjects, hn]
    exact .refl _
  | nil =>
    have hpop : (caches (cpu.getD 0, cls)).pop = none := by
      unfold FreeList.pop
      split
      · rfl
      rename_i he
      rw [hn] at he
      cases he
    simp only [hpop] at h
    obtain ⟨p, hp, h⟩ := Option.bind_eq_some_iff.mp h
    obtain ⟨q, hq, heq⟩ := Option.map_eq_some_iff.mp h
    cases heq
    have hrefill : refillPage caches cpu page layout = some p := by
      simp [refillPage, hcls, if_neg hcpu, hn, hp]
    have hperm := carve_perm p (SIZE_CLASSES cls) (PAGE_SIZE / SIZE_CLASSES cls) (caches (cpu.getD 0, cls))
    rw [hq] at hperm
    have hobj := hperm.map (fun ptr => (⟨ptr, SIZE_CLASSES cls⟩ : Segment))
    rw [map_append, map_append, map_map] at hobj
    exact ⟨pageObjects p _ _, freeObjects_exchange _ _ [_] _ hi hobj, pageObjects_apart .., fun b hb => by
        obtain ⟨i, _, rfl⟩ := mem_map.mp hb
        exact class_pos cls, fun x hx => ⟨p, hrefill, by
        have hin := pageObjects_inside hx
        rwa [(class_divides cls).2] at hin⟩, by simp [hrefill]⟩

/-- Putting an object onto a list. -/
theorem freeObjects_push (caches : Caches) (ptr : Nat) (hi : i ∈ slots) :
    (freeObjects (update caches i ((caches i).push ptr))).Perm (⟨ptr, SIZE_CLASSES i.2⟩ :: freeObjects caches) := by
  have hp := freeObjects_exchange caches ((caches i).push ptr) [] [⟨ptr, SIZE_CLASSES i.2⟩] hi (Perm.refl _)
  rwa [nil_append] at hp

/-- **What the fast path takes back**: the object, some objects fewer when the list is drained, nothing at all
    on a CPU without a cache. -/
theorem slabDeallocFast_spec (caches : Caches) (cpu : Option Nat) (ptr : Nat) (hsize : classSizeOf layout ≤ 2048) :
    (cpu.getD 0 < MAX_CPUS → (freeObjects (slabDeallocFast caches cpu ptr layout)).Subperm
        (⟨ptr, objectSize layout⟩ :: freeObjects caches)) ∧
      (¬ cpu.getD 0 < MAX_CPUS → slabDeallocFast caches cpu ptr layout = caches) := by
  obtain ⟨cls, hcls⟩ := sizeClass_isSome hsize
  unfold slabDeallocFast
  rw [objectSize_eq hcls]
  simp only [hcls]
  refine ⟨fun hcpu => ?_, fun hcpu => if_pos (not_lt.mp hcpu)⟩
  rw [if_neg (not_le.mpr hcpu)]
  have hpush := freeObjects_push caches ptr (@mem_slots cls _ hcpu)
  generalize (caches (cpu.getD 0, cls)).push ptr = fl at hpush ⊢
  have hsub : (freeObjects (update caches (cpu.getD 0, cls)
      (if MAX_CACHED cls < fl.count then fl.drainHalf else fl))).Sublist
      (freeObjects (update caches (cpu.getD 0, cls) fl)) := by
    refine freeObjects_sublist ?_
    split
    · exact drop_sublist ..
    · exact Sublist.refl _
  exact hsub.subperm.trans hpush.subperm

end OxideOs.Slab
