import OxideOs.Proc.Lives

/-!
# `Proc.Isolation` — private pages are private

A frame that two address spaces map is writable in neither, unless it belongs to a shared mapping. This holds in
every run in which `mprotect` never gives write permission to a page whose frame somebody else maps too, and in
which there is a frame whenever a copy-on-write fault needs one. The kernel ensures neither: `set_page_flags`
replaces the `WRITABLE` bit without a look at the COW bit it preserves, and `handle_cow_fault` gives up its
reference before it asks for a frame.
-/

namespace OxideOs.Vm

open List Paging Ledger UserAddressSpace Prod

namespace Machine

/-- Everybody who has a frame: the free list, the kernel, tables and leaf entries. -/
def owners (m : Machine) : List Frame :=
  m.store.free ++ m.kernelFrames ++ m.spaces.flatMap (fun u => u.pml4Phys :: u.tables.tableFrames) ++
    (m.spaces.flatMap (fun u => u.tables.leafPtes)).map frameOf

/-- The start of a run: apart from the frames of shared mappings, every frame has at most one owner and none is
    tracked. -/
structure Unshared (shared : Frame → Prop) (m : Machine) : Prop where
  ok : m.Ok
  alone : ∀ f, ¬ shared f → m.owners.count f ≤ 1
  untracked : ∀ f, ¬ shared f → m.store.counts f = none

/-- What keeps private pages private: write permission goes to no page whose frame is mapped elsewhere as well,
    and a copy that is needed can be had. -/
def KeepsPrivate (shared : Frame → Prop) (m : Machine) : Action → Prop
  | .call pid (.mprotect addr length prot) =>
    ∀ p len, m.proc pid = some p → has prot PROT_WRITE = true → roundUp length = some len →
      PagesAll (fun f => m.mapCount f ≤ 1 ∨ shared f) p.addressSpace.tables (len / 0x1000) (BitVec.ofNat 64 addr)
  | .call pid (.fault env addr code) =>
    ∀ p, m.proc pid = some p → code.isPresent = true → code.isWrite = true →
      (p.addressSpace.tables (.ofAddr addr .pt)).isCow = true →
      copyReady { m.store with answers := env.answers } (frameOf (p.addressSpace.tables (.ofAddr addr .pt))) = true
  | _ => True

variable {shared : Frame → Prop} {m m' : Machine}

/-- The events of such runs. -/
def PrivateEvent (shared : Frame → Prop) (f : Frame) (v : FrameView) (e : Event) : Prop :=
  shared f ∨ (e ≠ .pin ∧ (v.pinned = 0 → v.KeepsIsolated e))

/-- The invariant. -/
structure Private (shared : Frame → Prop) (m : Machine) : Prop where
  ok : m.Ok
  isolated : ∀ f, ¬ shared f → (m.ledger.view f).Isolated

/-- The owners of a frame, as its view counts them. -/
theorem owners_count (m : Machine) (f : Frame) :
    m.owners.count f = (m.ledger.view f).free + (m.ledger.view f).held + (m.ledger.view f).tables +
      (m.ledger.view f).maps := by
  have hmaps : ((m.spaces.flatMap (fun u => u.tables.leafPtes)).map frameOf).count f = m.mapCount f := by
    rw [count, countP_map]
    congr 1
  have hheld : (m.ledger.view f).held = m.kernelFrames.count f := Multiset.coe_count f m.kernelFrames
  unfold owners
  rw [count_append, count_append, count_append, hmaps, tabs_count, mapCount_eq, hheld]
  rfl

/-- The invariant holds at the start. -/
theorem Unshared.private (h : Unshared shared m) : Private shared m := by
  refine ⟨h.ok, fun f hf => ?_⟩
  have hone := h.alone f hf
  rw [owners_count] at hone
  have hcount : (m.ledger.view f).count = none := h.untracked f hf
  have hpin : (m.ledger.view f).pinned = 0 := Multiset.count_zero f
  refine ⟨by omega, fun _ => by omega, fun _ => hcount, fun _ => ?_, fun _ _ => by omega⟩
  rw [hcount, Option.getD_none]
  omega

/-- Every step of such a run consists of such events. -/
theorem KeepsPrivate.allowed {a : Action} (h : KeepsPrivate shared m a) : StepAllowed (PrivateEvent shared) m a := by
  have hforget : ∀ f v w, PrivateEvent shared f v (.forget w) := fun f v w => .inr ⟨by simp, fun _ => trivial⟩
  cases a with
  | call pid c =>
    cases c with
    | fork answers kernelStack => exact fun p e u store _ _ => hforget
    | fault env addr code => exact h
    | mmap args answers => exact fun _ _ f v w => .inr ⟨by simp, fun hp => hp⟩
    | mprotect addr length prot =>
      refine ⟨fun _ => hforget, fun p len hp hw hlen => ?_⟩
      exact (h p len hp hw hlen).mono (fun f hf => hf.imp_right (fun hs v w => .inl hs))
    | _ => trivial
  | _ => trivial

/-- **The invariant is kept by every step.** -/
theorem Private.step {a : Action} (h : Private shared m) (ha : KeepsPrivate shared m a)
    (hs : Vm.step m a = some m') : Private shared m' := by
  have hord : ∀ f v e, Event.ordinary e = true → PrivateEvent shared f v e := by
    intro f v e he
    refine .inr ⟨?_, fun hp => ?_⟩
    · rintro rfl
      cases he
    cases e with
    | protect w w' =>
      cases w' with
      | false => exact nofun
      | true => cases he
    | _ => first | exact hp | trivial
  have hsole : ∀ f v w, v.maps ≤ 1 → PrivateEvent shared f v (.protect w true) := fun f v w hv =>
    .inr ⟨by simp, fun _ _ => hv⟩
  obtain ⟨hsim, hok⟩ := step_sim hord hsole h.ok ha.allowed hs
  refine ⟨hok, fun f hf => ?_⟩
  -- along the events of a private frame, isolation and having no segment are kept together
  have hinv : (m'.ledger.view f).Isolated ∧ (m'.ledger.view f).pinned = 0 := by
    refine (hsim f).invariant (fun v => v.Isolated ∧ v.pinned = 0) ?_ ⟨h.isolated f hf, Multiset.count_zero f⟩
    rintro v e v' ⟨hv, hp⟩ hev happ
    obtain ⟨hpin, hkeep⟩ := hev.resolve_left hf
    exact ⟨hv.apply (hkeep hp) happ, FrameView.apply_pinned happ hpin hp⟩
  exact hinv.1

/-- Two processes that map a frame map it twice. -/
theorem two_maps {pid pid' : Nat} {p p' : ProcessMeta} {e e' : PageTableEntry} (hne : pid ≠ pid')
    (hp : m.proc pid = some p) (hp' : m.proc pid' = some p') (he : e ∈ p.addressSpace.leaves)
    (he' : e' ∈ p'.addressSpace.leaves) : ∃ R, m.ledger.ptes = e ::ₘ e' ::ₘ R := by
  obtain ⟨R, hR, hset⟩ := total_split leaves m.procs (proc_eq_some hp)
  have hrest : total leaves (m.procs.set pid none) = R := by
    rw [hset none, Option.elim_none, zero_add]
  have hp'' : (m.procs.set pid none)[pid']? = some (some p') := by
    rw [getElem?_set_ne hne]
    exact proc_eq_some hp'
  obtain ⟨R', hR', -⟩ := total_split leaves _ hp''
  obtain ⟨L, hL⟩ := Multiset.exists_cons_of_mem he
  obtain ⟨L', hL'⟩ := Multiset.exists_cons_of_mem he'
  refine ⟨L + (L' + R'), ?_⟩
  show total leaves m.procs = _
  rw [hR, ← hrest, hR', hL, hL', Multiset.cons_add, Multiset.cons_add, Multiset.add_cons]

end Machine

open Machine

variable {shared : Frame → Prop} {m : Machine}

/-- **Private pages are private**: in every state of such a run, two entries of different processes for a frame
    outside shared mappings are both without write permission. -/
theorem cow_isolation (h : Run.Reach step (KeepsPrivate shared) (Unshared shared) m) {pid pid' : Nat}
    {p p' : ProcessMeta} (hne : pid ≠ pid') (hp : m.proc pid = some p) (hp' : m.proc pid' = some p')
    {e e' : PageTableEntry} (he : e ∈ p.addressSpace.tables.leafPtes) (he' : e' ∈ p'.addressSpace.tables.leafPtes)
    (hf : frameOf e = frameOf e') (hs : ¬ shared (frameOf e)) : e.isWritable = false ∧ e'.isWritable = false := by
  have hinv : Private shared m := h.invariant _ (fun _ => Unshared.private) (fun _ _ _ => Private.step)
  obtain ⟨R, hR⟩ := two_maps hne hp hp' (mem_leaves_iff.mpr he) (mem_leaves_iff.mpr he')
  have hiso := hinv.isolated _ hs
  have hmaps : 2 ≤ (m.ledger.view (frameOf e)).maps := by
    show 2 ≤ m.ledger.ptes.countP _
    rw [hR, Multiset.countP_cons, Multiset.countP_cons, if_pos rfl, if_pos hf.symm]
    omega
  have hwrite : (m.ledger.view (frameOf e)).writable = 0 := by
    by_contra hw
    have := hiso.single (Multiset.count_zero (frameOf e)) (Nat.one_le_iff_ne_zero.mpr hw)
    omega
  have hnone : ∀ x ∈ m.ledger.ptes, frameOf x = frameOf e → x.isWritable = false := by
    intro x hx hxf
    have h0 := Multiset.countP_eq_zero.mp hwrite x hx
    simpa [hxf] using h0
  refine ⟨hnone e (hR ▸ Multiset.mem_cons_self _ _) rfl, hnone e' (hR ▸ ?_) hf.symm⟩
  exact Multiset.mem_cons_of_mem (Multiset.mem_cons_self _ _)

/-! ## A fork, and an `mprotect` after it -/

/-- A store with ten free frames. -/
def tenFrames : FrameStore :=
  { free := [1, 2, 3, 4, 5, 6, 7, 8, 9, 10]
    pagedb := none
    counts := fun _ => none
    swapCache := []
    answers := [some 1, some 2, some 3, some 4, some 5] }

/-- One process with one writable page. -/
def onePage : Machine :=
  withProcess tenFrames 0x400000#64 1 { read := true, write := true, execute := false, user := true }

def forkAction : Action := .call 0 (.fork [some 6, some 7, some 8, some 9] true)

/-- The parent asks for what it has: a page it can read and write. -/
def protectAction : Action := .call 0 (.mprotect 0x400000 0x1000 (PROT_READ ||| PROT_WRITE))

set_option maxRecDepth 100000 in
theorem onePage_unshared : Unshared (fun _ => False) onePage := by
  have hst : StoreOk tenFrames := ⟨rfl, by decide⟩
  refine ⟨(withProcess_spec (A := fun _ _ _ => True) hst (fun _ _ _ _ => trivial) _ _ _).2,
    fun f _ => ?_, fun f _ => ?_⟩
  · have hnd : onePage.owners.Nodup := by decide +kernel
    exact nodup_iff_count_le_one.mp hnd f
  · exact congrFun (withProcess_counts hst _ _ _) f

/-- What the leaf entries of a process map, and whether they are writable. -/
def Machine.leafViews (m : Machine) (pid : Nat) : Option (List (Frame × Bool)) :=
  (m.proc pid).map (fun p => p.addressSpace.tables.leafPtes.map (fun e => (frameOf e, e.isWritable)))

theorem Machine.exists_leaf {m : Machine} {pid : Nat} {x : Frame × Bool} (h : m.leafViews pid = some [x]) :
    ∃ p e, m.proc pid = some p ∧ e ∈ p.addressSpace.tables.leafPtes ∧ frameOf e = x.1 ∧ e.isWritable = x.2 := by
  obtain ⟨p, hp, hl⟩ := Option.map_eq_some_iff.mp h
  have hx : x ∈ p.addressSpace.tables.leafPtes.map (fun e => (frameOf e, e.isWritable)) := by
    rw [hl]
    exact mem_singleton.mpr rfl
  obtain ⟨e, he, hex⟩ := mem_map.mp hx
  exact ⟨p, e, hp, he, congrArg fst hex, congrArg snd hex⟩

set_option maxRecDepth 100000 in
/-- After a fork the page is writable neither for the parent nor for the child. -/
theorem cow_isolation_after_fork :
    ∃ m p p' e e', Run.Reach step (KeepsPrivate (fun _ => False)) (Unshared (fun _ => False)) m ∧
      m.proc 0 = some p ∧ m.proc 1 = some p' ∧ e ∈ p.addressSpace.tables.leafPtes ∧
      e' ∈ p'.addressSpace.tables.leafPtes ∧ frameOf e = frameOf e' ∧ e.isWritable = false ∧
      e'.isWritable = false := by
  have hrun : (step onePage forkAction).map (fun m => (m.leafViews 0, m.leafViews 1)) =
      some (some [(2, false)], some [(2, false)]) := by decide +kernel
  obtain ⟨m, hm, hv⟩ := Option.map_eq_some_iff.mp hrun
  obtain ⟨p, e, hp, he, hf, -⟩ := exists_leaf (congrArg fst hv)
  obtain ⟨p', e', hp', he', hf', -⟩ := exists_leaf (congrArg snd hv)
  have hreach : Run.Reach step (KeepsPrivate (fun _ => False)) (Unshared (fun _ => False)) m :=
    (Run.Reach.start onePage_unshared).next (a := forkAction) trivial hm
  have h := cow_isolation hreach (by decide) hp hp' he he' (hf.trans hf'.symm) (fun hs => hs)
  exact ⟨m, p, p', e, e', hreach, hp, hp', he, he', hf.trans hf'.symm, h.1, h.2⟩

set_option maxRecDepth 100000 in
/-- **`mprotect` breaks the isolation of a page that is shared with a child**: the parent can write to it. -/
theorem mprotect_breaks_isolation :
    ∃ m p p' e e', Run.Reach step (fun _ _ => True) (Unshared (fun _ => False)) m ∧
      m.proc 0 = some p ∧ m.proc 1 = some p' ∧ e ∈ p.addressSpace.tables.leafPtes ∧
      e' ∈ p'.addressSpace.tables.leafPtes ∧ frameOf e = frameOf e' ∧ e.isWritable = true := by
  obtain ⟨m, hreach, hv, hv'⟩ : ∃ m, Run.Reach step (fun _ _ => True) (Unshared (fun _ => False)) m ∧
      m.leafViews 0 = some [(2, true)] ∧ m.leafViews 1 = some [(2, false)] :=
    Run.Reach.exists_exec [forkAction, protectAction] onePage_unshared (by decide +kernel)
  obtain ⟨p, e, hp, he, hf, hw⟩ := exists_leaf hv
  obtain ⟨p', e', hp', he', hf', -⟩ := exists_leaf hv'
  exact ⟨m, p, p', e, e', hreach, hp, hp', he, he', hf.trans hf'.symm, hw⟩

end OxideOs.Vm
