import OxideOs.Lib.Run
import OxideOs.Mm.Slab.Objects

/-!
# `Mm.Slab.Conserve` — where the objects of a page are

A page that the slab cuts up becomes objects of one class, which are handed out, come back on any CPU, and are handed
out again. As long as no free list grows beyond its bound, every object is live or on some list. A list that does is
cut in half, and nothing refers to the objects cut off.
-/

namespace OxideOs.Slab

open Function List Heap

/-- The caches, the objects that are handed out, and all objects ever cut out of a page. -/
structure Objects where
  caches : Caches
  live : List Segment
  carved : List Segment

namespace Objects

def new : Objects := { caches := fun _ => .empty, live := [], carved := [] }

/-- A call of a fast path; each names the CPU it runs on. -/
inductive Call where
  | alloc (cpu page : Option Nat) (layout : Layout)
  | dealloc (cpu : Option Nat) (ptr : Nat) (layout : Layout)

/-- A call. Only a live object is freed, with a layout of its class. -/
def step (s : Objects) : Call → Option Objects
  | .alloc cpu page layout =>
    match slabAllocFast s.caches cpu page layout with
    | none => some s
    | some (ptr, caches) =>
      some { caches, live := ⟨ptr, objectSize layout⟩ :: s.live,
             carved := refillObjects s.caches cpu page layout ++ s.carved }
  | .dealloc cpu ptr layout =>
    if classSizeOf layout ≤ 2048 ∧ ⟨ptr, objectSize layout⟩ ∈ s.live then
      some { s with
        caches := slabDeallocFast s.caches cpu ptr layout
        live := s.live.erase ⟨ptr, objectSize layout⟩ }
    else none

/-- An object is freed on a CPU that has caches, and its list has room for it. -/
def Roomy (s : Objects) : Call → Prop
  | .alloc _ _ _ => True
  | .dealloc cpu _ layout => cpu.getD 0 < MAX_CPUS ∧
      ∀ cls ∈ sizeClass (classSizeOf layout), (s.caches (cpu.getD 0, cls)).count < MAX_CACHED cls

/-- Every object is live or free, and only one of the two. -/
def Conserved (s : Objects) : Prop := s.carved.Perm (s.live ++ freeObjects s.caches)

theorem Conserved.step {s s' : Objects} {c : Call} (h : s.Conserved) (hok : s.Roomy c) (hs : s.step c = some s') :
    s'.Conserved := by
  unfold Conserved at h ⊢
  cases c with
  | alloc cpu page layout =>
    simp only [Objects.step] at hs
    split at hs <;> cases hs
    · exact h
    rename_i ptr caches hfast
    obtain ⟨_, hperm, -, -, -, rfl⟩ := slabAllocFast_spec hfast
    -- the new objects and the free ones are the object handed out and those free now
    generalize refillObjects s.caches cpu page layout = new at hperm ⊢
    calc new ++ s.carved
      _ ~ new ++ (s.live ++ freeObjects s.caches) := h.append_left _
      _ ~ s.live ++ (new ++ freeObjects s.caches) := perm_append_comm_assoc ..
      _ ~ s.live ++ _ :: freeObjects caches := hperm.symm.append_left _
      _ ~ _ :: s.live ++ freeObjects caches := perm_middle
  | dealloc cpu ptr layout =>
    rw [Objects.step, Option.ite_none_right_eq_some] at hs
    obtain ⟨⟨hsize, hlive⟩, hs⟩ := hs
    cases hs
    obtain ⟨cls, hcls⟩ := sizeClass_isSome hsize
    have hroom : ¬MAX_CACHED cls < ((s.caches (cpu.getD 0, cls)).push ptr).count := not_lt.mpr (hok.2 cls hcls)
    have hfree : slabDeallocFast s.caches cpu ptr layout =
        update s.caches (cpu.getD 0, cls) ((s.caches (cpu.getD 0, cls)).push ptr) := by
      simp [slabDeallocFast, hcls, if_neg (not_le.mpr hok.1), if_neg hroom]
    have hpush := freeObjects_push s.caches ptr (@mem_slots cls _ hok.1)
    rw [← objectSize_eq hcls] at hpush
    rw [hfree]
    generalize (⟨ptr, objectSize layout⟩ : Segment) = o at hlive hpush ⊢
    calc s.carved
      _ ~ s.live ++ freeObjects s.caches := h
      _ ~ o :: s.live.erase o ++ freeObjects s.caches := (perm_cons_erase hlive).append_right _
      _ ~ s.live.erase o ++ o :: freeObjects s.caches := perm_middle.symm
      _ ~ _ := hpush.symm.append_left _

/-- **No object is lost** in a run whose frees find room in their list: an object cut out of a page is live, or on
    some CPU's list of its class; and every list counts its objects. -/
theorem objects_not_lost {s : Objects} (hrun : Run.Steps step Roomy new s) :
    (∀ o ∈ s.carved, o ∈ s.live ∨ ∃ i ∈ slots, o.size = SIZE_CLASSES i.2 ∧ o.start ∈ (s.caches i).nodes) ∧
      ∀ i, (s.caches i).count = (s.caches i).nodes.length := by
  have hnew : new.Conserved := by
    unfold Conserved
    simp [new, freeObjects, listObjects, FreeList.empty]
  have h := hrun.invariant Conserved (fun _ _ _ => Conserved.step) hnew
  refine ⟨fun o ho => ?_, fun i => (s.caches i).counted⟩
  rcases mem_append.mp (h.mem_iff.mp ho) with hlive | hfree
  · exact .inl hlive
  · obtain ⟨i, hi, hoi⟩ := mem_flatMap.mp hfree
    obtain ⟨ptr, hptr, rfl⟩ := mem_map.mp hoi
    exact .inr ⟨i, hi, rfl, hptr⟩

theorem pageHalf_powerOfTwo : 2048 = 2 ^ Nat.log2 2048 := by decide

theorem pageHalf_fits : 2048 + (2048 - 1) ≤ ISIZE_MAX := by decide

/-- Half a page. -/
def pageHalf : Layout := ⟨2048, 2048, pageHalf_powerOfTwo, pageHalf_fits⟩

/-- Cut up a page, and give its first half back on another CPU. -/
theorem objects_not_lost_twoCpus : ∃ s, Run.Steps step Roomy new s ∧ s.carved = [⟨0x1000, 2048⟩, ⟨0x1800, 2048⟩] ∧
    ∀ o ∈ s.carved, o ∈ s.live ∨ ∃ i ∈ slots, o.size = SIZE_CLASSES i.2 ∧ o.start ∈ (s.caches i).nodes := by
  have hrun : Run.Steps step Roomy new _ :=
    ((Run.Steps.refl new).next (a := .alloc (some 0) (some 0x1000) pageHalf) trivial rfl).next
      (a := .dealloc (some 1) 0x1000 pageHalf) ⟨by decide, by decide⟩ rfl
  exact ⟨_, hrun, rfl, (objects_not_lost hrun).1⟩

/-- Take six halves of pages, and give five of them back. -/
def hoard : List Call :=
  [0x1000, 0x2000, 0x3000].flatMap (fun p => [.alloc none (some p) pageHalf, .alloc none (some p) pageHalf]) ++
    [0x1000, 0x1800, 0x2000, 0x2800, 0x3000].map (.dealloc none · pageHalf)

/-- **Objects are lost**: the fifth object on the list makes it drop two, and the last one freed is neither live nor on
    any list. -/
theorem drained_object_is_lost : ∃ s, Run.exec step (fun _ _ => True) new hoard = some s ∧
    ⟨0x3000, 2048⟩ ∈ s.carved ∧ ⟨0x3000, 2048⟩ ∉ s.live ∧ ∀ i, 0x3000 ∉ (s.caches i).nodes := by
  refine ⟨_, rfl, by decide, by decide, fun i => ?_⟩
  by_cases hi : i = (0, 7)
  · subst hi
    decide
  · -- no other list is touched
    have hother : ∀ caches ptr, slabDeallocFast caches none ptr pageHalf i = caches i :=
      fun caches _ => update_of_ne hi _ caches
    simp [hother, update_of_ne hi, new, FreeList.empty]

end Objects
end OxideOs.Slab
