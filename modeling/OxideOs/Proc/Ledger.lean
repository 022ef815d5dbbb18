import OxideOs.Mm.FrameLife
import OxideOs.Proc.AddressSpace

/-!
# `Proc.Ledger` — frames as the store and the page tables see them

A `Ledger` collects who has frames at some moment: the leaf entries of all address spaces, the frames of page
tables, the frames kernel code holds and those of shared memory segments, and the frame store. Its `view` of a
frame is the abstract `FrameView`. `Sim` says that whatever happened between two ledgers is, seen from any one
frame, a sequence of events of its life. Every operation of the store is one event at one frame.
-/

namespace OxideOs.Vm

open Function Multiset Pagedb Paging PageTableFlags BitVec PageTableEntry OxideOs.Vm.Frame Option PageDatabase FrameView
  UserAddressSpace FrameStore

/-! ## Frames in entries -/

theorem getLsbD_frameOf (e : PageTableEntry) (i : Nat) :
    (frameOf e).getLsbD i = (decide (i < 40) && e.raw.getLsbD (12 + i)) := by
  simp [frameOf]

/-- The address bits of an entry are its frame. -/
theorem getLsbD_addrMask {i : Nat} (hi : i < 40) : ADDR_MASK.getLsbD (12 + i) = true := by
  have hall : ∀ i : Fin 40, ADDR_MASK.getLsbD (12 + i.val) = true := by decide
  exact hall ⟨i, hi⟩

theorem frameOf_congr {e e' : PageTableEntry} (h : e.addr = e'.addr) : frameOf e = frameOf e' := by
  refine eq_of_getLsbD_eq fun i hi => ?_
  rw [getLsbD_frameOf, getLsbD_frameOf]
  have hbit := congrArg (getLsbD · (12 + i)) h
  simp only [PageTableEntry.addr, getLsbD_and] at hbit
  rw [getLsbD_addrMask hi, Bool.and_true, Bool.and_true] at hbit
  rw [hbit]

variable (e : PageTableEntry) (f : Frame) (fl : PageTableFlags)

@[simp] theorem frameOf_setFlags : frameOf (e.setFlags fl) = frameOf e := frameOf_congr (addr_setFlags e fl)

@[simp] theorem frameOf_addFlags : frameOf (e.addFlags fl) = frameOf e := frameOf_congr (addr_addFlags e fl)

@[simp] theorem frameOf_removeFlags : frameOf (e.removeFlags fl) = frameOf e := frameOf_congr (addr_removeFlags e fl)

/-- **An entry made for a frame points to it.** -/
@[simp] theorem frameOf_set : frameOf (set f.addr fl) = f := by
  refine eq_of_getLsbD_eq fun i hi => ?_
  rw [getLsbD_frameOf, decide_eq_true hi]
  -- flags have no address bits, so bit `12 + i` comes from the frame's address
  have hbit := congrArg (getLsbD · (12 + i)) (addr_set f.addr fl)
  simp only [PageTableEntry.addr, getLsbD_and, getLsbD_addrMask hi, Bool.and_true] at hbit
  rw [hbit, Frame.addr, getLsbD_shiftLeft, getLsbD_setWidth]
  have h1 : decide (12 + i < 64) = true := decide_eq_true (by omega)
  have h2 : decide (12 + i < 12) = false := decide_eq_false (by omega)
  have h3 : decide (12 + i - 12 < 64) = true := decide_eq_true (by omega)
  rw [h1, h2, h3, Nat.add_sub_cancel_left]
  rfl

theorem Frame.phys_inj {f f' : Frame} : f'.toNat = f.toNat ↔ f' = f := toNat_inj

/-! ## Records -/

namespace FrameStore

/-- The record of a frame, as its view shows it. -/
def recordView (s : FrameStore) (f : Frame) : Option (Option PageFrame) := s.pagedb.map (fun db => db.get f.phys)

variable {s : FrameStore} {f : Frame} {g : PageFrame → PageFrame}

theorem record_eq (s : FrameStore) (f : Frame) : s.record f = (s.recordView f).join := by
  unfold record recordView
  cases s.pagedb with
  | none | some db => rfl

/-- `db'` is `db` after a change of one record. -/
def ChangesRecord (f₀ : Frame) (g : PageFrame → PageFrame) (db db' : PageDatabase) : Prop :=
  ∀ f : Frame, db'.get f.phys = if f = f₀ then (db.get f.phys).map g else db.get f.phys

/-- A change of one record, seen from any frame. -/
theorem recordView_of_get {t : FrameStore} {a : Frame} {d : PageDatabase → PageDatabase}
    (hd : ∀ db, ChangesRecord a g db (d db)) (hs : t.pagedb = s.pagedb.map d) :
    t.recordView f = if f = a then (s.recordView f).map (Option.map g) else s.recordView f := by
  unfold recordView
  rw [hs]
  cases s.pagedb with
  | none => simp
  | some db =>
    simp only [map_some, hd db f]
    split <;> rfl

section

variable {db db' : PageDatabase} {f₀ : Frame}

theorem changesRecord_put (db : PageDatabase) (f₀ : Frame) (g : PageFrame → PageFrame) :
    ChangesRecord f₀ g db (db.put f₀.phys g) := by
  intro f
  unfold phys
  rw [get_put]
  simp only [phys_inj]

theorem changesRecord_refDec : ChangesRecord f₀ subRef db (db.refDec f₀.phys).2 := by
  intro f
  unfold phys
  rw [get_refDec]
  simp only [phys_inj]
  rfl

/-- A second change of the same record. -/
theorem ChangesRecord.put (h : ChangesRecord f₀ g db db') (g' : PageFrame → PageFrame) :
    ChangesRecord f₀ (fun pf => g' (g pf)) db (db'.put f₀.phys g') := by
  intro f
  rw [changesRecord_put, h f]
  by_cases hf : f = f₀
  · rw [if_pos hf, if_pos hf, if_pos hf, Option.map_map]
    rfl
  · rw [if_neg hf, if_neg hf, if_neg hf]

/-- A change that spares a stale record: the test on the database is one on the record. -/
theorem ChangesRecord.unlessStale (h : ChangesRecord f₀ g db db') :
    ChangesRecord f₀ (fun pf => if isStale pf then pf else g pf) db (if staleRecord db f₀ then db else db') := by
  intro f
  have hf := h f
  by_cases he : f = f₀
  · subst he
    rw [if_pos rfl] at hf ⊢
    unfold staleRecord
    cases hg : db.get f.phys with
    | none =>
      rw [hg] at hf
      exact hf
    | some pf =>
      rw [map_some]
      show (if isStale pf then db else db').get f.phys = _
      cases isStale pf with
      | true => exact hg
      | false =>
        rw [hg] at hf
        exact hf
  · rw [if_neg he] at hf ⊢
    split
    · rfl
    · exact hf

/-- What `increment` does to records. -/
theorem changesRecord_addRef (f₀ : Frame) :
    ChangesRecord f₀ addRef db ((db.refInc f₀.phys).2.put f₀.phys (fun pf => pf.setFlag PF_COW)) := by
  refine ChangesRecord.put (g := fun pf => { pf with refcount := (pf.refcount + 1) % 2 ^ 32 }) (fun f => ?_) _
  unfold phys
  rw [get_refInc]
  simp only [phys_inj]

/-- What `decrement` to `n` does to records. -/
theorem changesRecord_dec (n : Nat) : ChangesRecord f₀ (decRecord n) db (if staleRecord db f₀ then db
      else if n ≤ 1 then (db.refDec f₀.phys).2.put f₀.phys (fun pf => pf.clearFlag PF_COW)
      else (db.refDec f₀.phys).2) := by
  refine ChangesRecord.unlessStale ?_
  by_cases hn : n ≤ 1
  · simp only [if_pos hn]
    exact changesRecord_refDec.put _
  · simp only [if_neg hn]
    exact changesRecord_refDec

/-- What `try_claim_exclusive` does to records when it leaves `n` references. -/
theorem changesRecord_split (f₀ : Frame) (n : Nat) : ChangesRecord f₀ (splitRecord n) db
    (if n ≤ 1 then (if staleRecord db f₀ then db else (db.refDec f₀.phys).2).put f₀.phys (fun pf => pf.clearFlag PF_COW)
      else if staleRecord db f₀ then db else (db.refDec f₀.phys).2) := by
  unfold splitRecord
  by_cases hn : n ≤ 1
  · simp only [if_pos hn]
    exact changesRecord_refDec.unlessStale.put _
  · simp only [if_neg hn]
    exact changesRecord_refDec.unlessStale

end

end FrameStore

/-! ## Ledgers -/

/-- Who has frames. -/
structure Ledger where
  ptes : Multiset PageTableEntry
  tables : Multiset Frame
  held : Multiset Frame
  pins : Multiset Frame
  store : FrameStore

namespace Ledger

/-- What can be seen of a frame. -/
def view (l : Ledger) (f : Frame) : FrameView where
  maps := l.ptes.countP (fun e => frameOf e = f)
  writable := l.ptes.countP (fun e => frameOf e = f ∧ e.isWritable = true)
  tables := l.tables.count f
  held := l.held.count f
  pinned := l.pins.count f
  free := l.store.free.count f
  listable := decide (f ≠ 0)
  count := l.store.counts f
  record := l.store.recordView f

variable {l : Ledger} {f₀ f : Frame}

theorem writable_le_maps (l : Ledger) (f : Frame) : (l.view f).writable ≤ (l.view f).maps := by
  show l.ptes.countP _ ≤ l.ptes.countP _
  rw [countP_eq_card_filter, countP_eq_card_filter]
  exact card_le_card (monotone_filter_right _ (fun _ h => h.1))

/-- One entry more. -/
theorem view_cons (l : Ledger) (e : PageTableEntry) (f : Frame) : ({ l with ptes := e ::ₘ l.ptes } : Ledger).view f =
      if frameOf e = f then (l.view f).plug e.isWritable else l.view f := by
  unfold view plug
  by_cases h : frameOf e = f
  · cases hw : e.isWritable <;> simp [h, hw]
  · simp [h]

/-- The page database's answer, from the view. -/
theorem freeRefused_eq (l : Ledger) (f : Frame) : l.store.freeRefused f = (l.view f).refused := by
  unfold freeRefused refused view recordView
  cases l.store.pagedb with
  | none => rfl
  | some db =>
    simp only [map_some, validateFree]
    cases db.get f.phys with
    | none => rfl
    | some pf =>
      simp only
      cases pf.isFree with
      | true => rfl
      | false =>
        cases pf.hasFlag PF_RESERVED with
        | true => rfl
        | false =>
          by_cases h1 : 1 < pf.refcount
          · simp only [h1]
            rfl
          · simp only [h1]
            rfl

/-- **`free_frame`**, seen from any frame. -/
theorem view_freeFrame (l : Ledger) (f₀ f : Frame) : ({ l with store := l.store.freeFrame f₀ } : Ledger).view f =
      if f = f₀ then (l.view f).giveBack else l.view f := by
  unfold freeFrame giveBack
  rw [freeRefused_eq]
  by_cases h : f = f₀
  · subst h
    rw [if_pos rfl]
    cases (l.view f).refused with
    | true => rfl
    | false =>
      rw [if_neg Bool.false_ne_true]
      unfold view onRecord
      congr 1
      · by_cases h0 : f = 0
        · rw [if_pos h0, decide_eq_false (not_not.mpr h0), if_neg Bool.false_ne_true]
        · rw [if_neg h0, decide_eq_true h0, if_pos rfl, List.count_cons_self]
      · rw [recordView_of_get (fun db => changesRecord_put db f _) rfl, if_pos rfl]
  · rw [if_neg h]
    cases (l.view f₀).refused with
    | true => rfl
    | false =>
      rw [if_neg Bool.false_ne_true]
      unfold view
      congr 1
      · by_cases h0 : f₀ = 0
        · rw [if_pos h0]
        · rw [if_neg h0, List.count_cons_of_ne (symm h)]
      · rw [recordView_of_get (fun db => changesRecord_put db f₀ _) rfl, if_neg h]

/-- A change of one record, seen from any frame. -/
theorem view_updateRecord (l : Ledger) (f₀ f : Frame) (g : PageFrame → PageFrame) :
    ({ l with store := l.store.updateRecord f₀ g } : Ledger).view f =
      if f = f₀ then (l.view f).onRecord g else l.view f := by
  have hrec := recordView_of_get (t := l.store.updateRecord f₀ g) (f := f) (fun db => changesRecord_put db f₀ g) rfl
  unfold view onRecord
  rw [hrec]
  split <;> rfl

/-- A new count and a changed record of one frame, seen from any frame. -/
theorem view_recount {st : FrameStore} {d : PageDatabase → PageDatabase} {g : PageFrame → PageFrame} (c : Option Nat)
    (hst : st = { l.store with counts := update l.store.counts f₀ c, pagedb := l.store.pagedb.map d })
    (hd : ∀ db, ChangesRecord f₀ g db (d db)) (f : Frame) :
    ({ l with store := st } : Ledger).view f =
      if f = f₀ then { (l.view f).onRecord g with count := c } else l.view f := by
  subst hst
  unfold view onRecord
  simp only
  rw [recordView_of_get hd rfl, update_apply]
  split <;> rfl

/-- The store after `decrement` of a tracked frame. -/
def decremented (s : FrameStore) (f : Frame) (c : Nat) : FrameStore :=
  { s with
    counts := update s.counts f (if c - 1 = 0 then none else some (c - 1))
    pagedb := s.pagedb.map (fun db =>
      if FrameStore.staleRecord db f then db
      else if c - 1 ≤ 1 then (db.refDec f.phys).2.put f.phys (fun pf => pf.clearFlag PF_COW)
      else (db.refDec f.phys).2) }

theorem view_decremented (l : Ledger) (f₀ f : Frame) (c : Nat) :
    ({ l with store := decremented l.store f₀ c } : Ledger).view f =
      if f = f₀ then (l.view f).decCount c else l.view f :=
  view_recount _ rfl (fun _ => changesRecord_dec (c - 1)) f

/-- **`decrement`, and returning the frame at 0**, seen from any frame. -/
theorem view_releaseFrame (l : Ledger) (f₀ f : Frame) : ({ l with store := releaseFrame l.store f₀ } : Ledger).view f =
      if f = f₀ then (l.view f).release else l.view f := by
  unfold releaseFrame
  cases hc : l.store.counts f₀ with
  | none =>
    have hd : l.store.decrement f₀ = (0, l.store) := by
      rw [decrement, hc]
    rw [hd]
    refine (view_freeFrame l f₀ f).trans ?_
    by_cases h : f = f₀
    · subst h
      rw [if_pos rfl, if_pos rfl, release, show (l.view f).count = none from hc]
    · rw [if_neg h, if_neg h]
  | some c =>
    have hd : l.store.decrement f₀ = (c - 1, decremented l.store f₀ c) := by
      rw [decrement, hc]
      rfl
    have hrel : f = f₀ → (l.view f).release =
        if c - 1 = 0 then ((l.view f).decCount c).giveBack else (l.view f).decCount c := by
      rintro rfl
      rw [release, show (l.view f).count = some c from hc]
    have hview := view_decremented l f₀ f c
    rw [hd]
    cases hn : c - 1 with
    | zero =>
      refine (view_freeFrame { l with store := decremented l.store f₀ c } f₀ f).trans ?_
      rw [hview]
      by_cases h : f = f₀
      · rw [if_pos h, if_pos h, if_pos h, hrel h, if_pos hn]
      · rw [if_neg h, if_neg h, if_neg h]
    | succ n =>
      refine hview.trans ?_
      by_cases h : f = f₀
      · rw [if_pos h, if_pos h, hrel h, if_neg (by omega)]
      · rw [if_neg h, if_neg h]

/-- **`increment`**, seen from any frame. -/
theorem view_increment {st : FrameStore} (h : l.store.increment f₀ = some st) :
    (l.view f₀).addCount = some (({ l with store := st } : Ledger).view f₀) ∧
      ∀ f, f ≠ f₀ → ({ l with store := st } : Ledger).view f = l.view f := by
  unfold increment at h
  simp only at h
  split at h
  · cases h
  rename_i hlt
  cases h
  have hview := view_recount (l := l) (some ((l.store.counts f₀).getD 1 + 1)) rfl (fun _ => changesRecord_addRef f₀)
  constructor
  · have hc : (l.view f₀).count = l.store.counts f₀ := rfl
    simp only [addCount, hc]
    rw [if_neg hlt, hview, if_pos rfl]
  · intro f hf
    rw [hview, if_neg hf]

/-- **`try_claim_exclusive`** by the last owner or by one of several, seen from any frame. -/
theorem view_tryClaim {st : FrameStore} {b : Bool} (h : l.store.tryClaimExclusive f₀ = (b, st)) :
    (if b then (l.view f₀).claimCount else (l.view f₀).splitCount) = some (({ l with store := st } : Ledger).view f₀) ∧
      ∀ f, f ≠ f₀ → ({ l with store := st } : Ledger).view f = l.view f := by
  have hcount : (l.view f₀).count = l.store.counts f₀ := rfl
  unfold tryClaimExclusive at h
  unfold claimCount splitCount
  rw [hcount]
  cases hc : l.store.counts f₀ with
  | none =>
    rw [hc] at h
    cases h
    exact ⟨rfl, fun _ _ => rfl⟩
  | some c =>
    rw [hc] at h
    simp only at h ⊢
    by_cases h1 : c ≤ 1
    · rw [if_pos h1] at h ⊢
      cases h
      have hview := view_recount (l := l) none rfl (fun db => changesRecord_put db f₀ (fun pf => pf.clearFlag PF_COW))
      refine ⟨?_, fun f hf => ?_⟩
      · rw [hview, if_pos rfl, if_pos rfl]
      · rw [hview, if_neg hf]
    rw [if_neg h1] at h ⊢
    cases h
    have hview := view_recount (l := l) (some (c - 1)) rfl (fun _ => changesRecord_split f₀ (c - 1))
    refine ⟨?_, fun f hf => ?_⟩
    · rw [hview, if_pos rfl, if_neg Bool.false_ne_true, if_neg h1]
    · rw [hview, if_neg hf]

end Ledger

/-! ## Answers of the allocator -/

namespace FrameStore

/-- What an answer of the allocator means. -/
inductive Allocated (s : FrameStore) : Option Frame → FrameStore → Prop where
  | refused (answers : List (Option Frame)) : Allocated s none { s with answers }
  | frame (f : Frame) (answers : List (Option Frame)) : f ∈ s.free →
      Allocated s (some f) { s with
        answers
        free := s.free.erase f
        pagedb := s.pagedb.map (fun db => db.markAllocated f.phys 0) }

theorem allocFrame_spec (s : FrameStore) : Allocated s s.allocFrame.1 s.allocFrame.2 := by
  unfold allocFrame
  split
  · exact .refused s.answers
  · exact .refused _
  split
  next hf =>
    exact Allocated.frame _ _ hf
  · exact .refused _

end FrameStore
end OxideOs.Vm
