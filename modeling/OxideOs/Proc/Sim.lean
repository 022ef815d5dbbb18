import OxideOs.Proc.Ledger

/-!
# `Proc.Sim` — operations as events in the lives of frames

`Sim A l l'`: seen from any one frame, what happened between the ledgers `l` and `l'` is a sequence of events
that `A` allows. The lemmas of this file say so for the smallest operations on the store and on single
entries; the walks and system calls are composed of them.
-/

namespace OxideOs.Vm

open Option Pagedb Paging PageTableFlags FrameView UserAddressSpace Multiset FrameStore Run

variable {A : Frame → FrameView → Event → Prop}

namespace Ledger

/-- Every frame lives on from one ledger to the other. -/
def Sim (A : Frame → FrameView → Event → Prop) (l l' : Ledger) : Prop := ∀ f, Steps apply (A f) (l.view f) (l'.view f)

variable {l l' l'' : Ledger}

variable {st' : FrameStore} {e e' : PageTableEntry}

theorem Sim.refl (l : Ledger) : Sim A l l := fun _ => Steps.refl _

theorem Sim.trans (h : Sim A l l') (h' : Sim A l' l'') : Sim A l l'' := fun f => (h f).trans (h' f)

theorem Sim.mono {B : Frame → FrameView → Event → Prop} (h : Sim A l l') (hok : ∀ f v e, A f v e → B f v e) :
    Sim B l l' := fun f => (h f).mono (hok f)

theorem Sim.ofView (h : ∀ f, l'.view f = l.view f) : Sim A l l' := by
  intro f
  rw [h f]
  exact Steps.refl _

/-- One event at one frame. -/
theorem Sim.event (f0 : Frame) (e : Event) (hok : A f0 (l.view f0) e)
    (h0 : (l.view f0).apply e = some (l'.view f0)) (h : ∀ f, f ≠ f0 → l'.view f = l.view f) : Sim A l l' := by
  intro f
  by_cases hf : f = f0
  · rw [hf]
    exact Steps.single e hok h0
  · rw [h f hf]
    exact Steps.refl _

/-! ## Frames changing hands -/

variable {P : Multiset PageTableEntry} {T H S : Multiset Frame} {st : FrameStore}

theorem view_held_cons (f0 f : Frame) : (⟨P, T, f0 ::ₘ H, S, st⟩ : Ledger).view f =
      if f = f0 then { (⟨P, T, H, S, st⟩ : Ledger).view f with held := H.count f + 1 }
      else (⟨P, T, H, S, st⟩ : Ledger).view f := by
  unfold view
  by_cases h : f = f0 <;> simp [h]

theorem view_tables_cons (f0 f : Frame) : (⟨P, f0 ::ₘ T, H, S, st⟩ : Ledger).view f =
      if f = f0 then { (⟨P, T, H, S, st⟩ : Ledger).view f with tables := T.count f + 1 }
      else (⟨P, T, H, S, st⟩ : Ledger).view f := by
  unfold view
  by_cases h : f = f0 <;> simp [h]

theorem view_pins_cons (f0 f : Frame) : (⟨P, T, H, f0 ::ₘ S, st⟩ : Ledger).view f =
      if f = f0 then { (⟨P, T, H, S, st⟩ : Ledger).view f with pinned := S.count f + 1 }
      else (⟨P, T, H, S, st⟩ : Ledger).view f := by
  unfold view
  by_cases h : f = f0 <;> simp [h]

/-- A holder less. -/
theorem unhold_cons (f0 : Frame) :
    ((⟨P, T, f0 ::ₘ H, S, st⟩ : Ledger).view f0).unhold = some ((⟨P, T, H, S, st⟩ : Ledger).view f0) := by
  rw [view_held_cons, if_pos rfl]
  rfl

/-- The allocator hands out a frame. -/
theorem sim_take {st : FrameStore} {f0 : Frame} (h : st.Allocated (some f0) st') (hok : ∀ f v, A f v .take) :
    Sim A ⟨P, T, H, S, st⟩ ⟨P, T, f0 ::ₘ H, S, st'⟩ := by
  cases h with
  | frame _ answers hf =>
    have hrec := fun x => recordView_of_get (f := x)
      (t := { st with
        answers
        free := st.free.erase f0
        pagedb := st.pagedb.map (fun db => db.markAllocated f0.phys 0) })
      (fun db => changesRecord_put db f0 _) rfl
    refine .event f0 .take (hok _ _) ?_ (fun f hne => ?_)
    · have hfree : 1 ≤ ((⟨P, T, H, S, st⟩ : Ledger).view f0).free := List.count_pos_iff.mpr hf
      simp only [apply]
      rw [if_pos hfree, view_held_cons]
      unfold view onRecord
      simp only
      rw [hrec, if_pos rfl, List.count_erase_self]
      rfl
    · rw [view_held_cons, if_neg hne]
      unfold view
      rw [hrec, if_neg hne, List.count_erase_of_ne hne]

/-- A refusal changes nothing that can be seen. -/
theorem sim_refused {st : FrameStore} (h : st.Allocated none st') : Sim A ⟨P, T, H, S, st⟩ ⟨P, T, H, S, st'⟩ := by
  cases h with
  | refused answers => exact .ofView (fun _ => rfl)

theorem sim_giveBack (f0 : Frame) (hok : ∀ f v, A f v .giveBack) :
    Sim A ⟨P, T, f0 ::ₘ H, S, st⟩ ⟨P, T, H, S, st.freeFrame f0⟩ := by
  have hview := view_freeFrame ⟨P, T, H, S, st⟩ f0
  refine .event f0 .giveBack (hok _ _) ?_ (fun f hne => ?_)
  · simp only [apply]
    rw [unhold_cons, map_some, hview, if_pos rfl]
  · rw [hview, if_neg hne, view_held_cons, if_neg hne]

variable (P T H S st) in
/-- A list of frames is returned. -/
theorem sim_freeAll (frames : List Frame) (hok : ∀ f v, A f v .giveBack) :
    Sim A ⟨P, T, ↑frames + H, S, st⟩ ⟨P, T, H, S, freeAll st frames⟩ := by
  induction frames generalizing st with
  | nil =>
    rw [coe_nil, zero_add]
    exact .refl _
  | cons f frames ih =>
    rw [← cons_coe, cons_add]
    exact (sim_giveBack f hok).trans (ih _)

theorem sim_link (f0 : Frame) (hok : ∀ f v, A f v .link) : Sim A ⟨P, T, f0 ::ₘ H, S, st⟩ ⟨P, f0 ::ₘ T, H, S, st⟩ := by
  refine .event f0 .link (hok _ _) ?_ (fun f hne => ?_)
  · simp only [apply]
    rw [unhold_cons, view_tables_cons, if_pos rfl]
    rfl
  · rw [view_tables_cons, if_neg hne, view_held_cons, if_neg hne]

theorem sim_markTable (f0 : Frame) (hok : ∀ f v, A f v .markTable) :
    Sim A ⟨P, f0 ::ₘ T, H, S, st⟩ ⟨P, f0 ::ₘ T, H, S, st.markPagetable f0⟩ := by
  have hview := view_updateRecord ⟨P, f0 ::ₘ T, H, S, st⟩ f0
  refine .event f0 .markTable (hok _ _) ?_ (fun f hne => ?_)
  · have h1 : 1 ≤ ((⟨P, f0 ::ₘ T, H, S, st⟩ : Ledger).view f0).tables := by
      rw [view_tables_cons, if_pos rfl]
      exact Nat.le_add_left 1 _
    simp only [apply]
    rw [if_pos h1]
    exact congrArg some ((hview f0 (fun _ => tableRecord)).trans (if_pos rfl)).symm
  · exact (hview f (fun _ => tableRecord)).trans (if_neg hne)

variable (P T H S st) in
theorem sim_markData (f0 : Frame) (hok : ∀ f v, A f v .markData) :
    Sim A ⟨P, T, f0 ::ₘ H, S, st⟩
      ⟨P, T, f0 ::ₘ H, S, st.updateRecord f0 (fun pf => pf.setFlags (PF_ALLOCATED ||| PF_MAPPED))⟩ := by
  have hview := view_updateRecord ⟨P, T, f0 ::ₘ H, S, st⟩ f0
  refine .event f0 .markData (hok _ _) ?_ (fun f hne => (hview f _).trans (if_neg hne))
  have h1 : 1 ≤ ((⟨P, T, f0 ::ₘ H, S, st⟩ : Ledger).view f0).held := by
    rw [view_held_cons, if_pos rfl]
    exact Nat.le_add_left 1 _
  simp only [apply]
  rw [if_pos h1]
  exact congrArg some ((hview f0 _).trans (if_pos rfl)).symm

/-! ## Entries -/

theorem view_ptes_cons (e : PageTableEntry) (f : Frame) : (⟨e ::ₘ P, T, H, S, st⟩ : Ledger).view f =
      if frameOf e = f then ((⟨P, T, H, S, st⟩ : Ledger).view f).plug e.isWritable
      else (⟨P, T, H, S, st⟩ : Ledger).view f := view_cons ⟨P, T, H, S, st⟩ e f

/-- An entry less. -/
theorem unplug_cons (e : PageTableEntry) : ((⟨e ::ₘ P, T, H, S, st⟩ : Ledger).view (frameOf e)).unplug e.isWritable =
      some ((⟨P, T, H, S, st⟩ : Ledger).view (frameOf e)) := by
  rw [view_ptes_cons, if_pos rfl]
  exact unplug_plug (writable_le_maps _ _)

/-- An entry for another frame is not seen. -/
theorem view_cons_ne {f : Frame} (h : f ≠ frameOf e) :
    (⟨e ::ₘ P, T, H, S, st⟩ : Ledger).view f = (⟨P, T, H, S, st⟩ : Ledger).view f := by
  rw [view_ptes_cons, if_neg (symm h)]

variable (P T H S st) in
theorem sim_mapNew (e : PageTableEntry) (hok : ∀ f v w, A f v (.mapNew w)) :
    Sim A ⟨P, T, frameOf e ::ₘ H, S, st⟩ ⟨e ::ₘ P, T, H, S, st⟩ := by
  refine .event (frameOf e) (.mapNew e.isWritable) (hok _ _ _) ?_ (fun f hne => ?_)
  · simp only [apply]
    rw [unhold_cons, map_some, view_ptes_cons, if_pos rfl]
  · rw [view_cons_ne hne, view_held_cons, if_neg hne]

theorem sim_forget (e : PageTableEntry)
    (hok : A (frameOf e) ((⟨e ::ₘ P, T, H, S, st⟩ : Ledger).view (frameOf e)) (.forget e.isWritable)) :
    Sim A ⟨e ::ₘ P, T, H, S, st⟩ ⟨P, T, H, S, st⟩ := by
  refine .event _ _ hok (unplug_cons e) (fun f hne => ?_)
  rw [view_cons_ne hne]

/-- A frame becomes part of a segment. -/
theorem sim_pin (f0 : Frame) (hok : ∀ f v, A f v .pin) : Sim A ⟨P, T, f0 ::ₘ H, S, st⟩ ⟨P, T, H, f0 ::ₘ S, st⟩ := by
  refine .event f0 .pin (hok _ _) ?_ (fun f hne => ?_)
  · simp only [apply]
    rw [unhold_cons, view_pins_cons, if_pos rfl]
    rfl
  · rw [view_pins_cons, if_neg hne, view_held_cons, if_neg hne]

/-- The segment of a frame is removed. -/
theorem sim_unpin (f0 : Frame) (hok : A f0 ((⟨P, T, H, f0 ::ₘ S, st⟩ : Ledger).view f0) .unpin) :
    Sim A ⟨P, T, H, f0 ::ₘ S, st⟩ ⟨P, T, f0 ::ₘ H, S, st⟩ := by
  refine .event f0 .unpin hok ?_ (fun f hne => ?_)
  · rw [view_pins_cons, view_held_cons, if_pos rfl]
    simp only [apply]
    rfl
  · rw [view_pins_cons, if_neg hne, view_held_cons, if_neg hne]

variable (P T H S st) in
/-- A frame of a segment is mapped. -/
theorem sim_attach (e : PageTableEntry) (hS : frameOf e ∈ S) (hok : ∀ f v w, A f v (.attach w)) :
    Sim A ⟨P, T, H, S, st⟩ ⟨e ::ₘ P, T, H, S, st⟩ := by
  refine .event (frameOf e) (.attach e.isWritable) (hok _ _ _) ?_ (fun f hne => ?_)
  · have h1 : 1 ≤ ((⟨P, T, H, S, st⟩ : Ledger).view (frameOf e)).pinned := one_le_count_iff_mem.mpr hS
    simp only [apply]
    rw [if_pos h1, view_ptes_cons, if_pos rfl]
  · rw [view_cons_ne hne]

/-- Entries for frames of no segment go away with the tables they are in. -/
theorem sim_forgetAll (Q : Multiset PageTableEntry) (hok : ∀ f v w, v.pinned = 0 → A f v (.forget w))
    (hQ : ∀ e ∈ Q, frameOf e ∉ S) : Sim A ⟨Q + P, T, H, S, st⟩ ⟨P, T, H, S, st⟩ := by
  induction Q using Multiset.induction with
  | empty =>
    rw [zero_add]
    exact .refl _
  | cons e Q ih =>
    rw [cons_add]
    have hpin : S.count (frameOf e) = 0 := count_eq_zero.mpr (hQ e (mem_cons_self e Q))
    exact (sim_forget e (hok _ _ _ hpin)).trans (ih (fun e' he => hQ e' (mem_cons_of_mem he)))

/-- The guard of `munmap`, from the view. -/
theorem record_any (P : Multiset PageTableEntry) (T H S : Multiset Frame) (p : PageFrame → Bool) (f : Frame) :
    (st.record f).any p = ((⟨P, T, H, S, st⟩ : Ledger).view f).anyRecord p := by
  rw [record_eq]
  rfl

variable (P T H S st) in
/-- An entry goes, and its frame is released unless its record says `p`. -/
theorem sim_leave (e : PageTableEntry) (ev : Event) {p : PageFrame → Bool}
    (hev : ∀ v : FrameView, v.apply ev = (v.unplug e.isWritable).map (fun v => if v.anyRecord p then v else v.release))
    (hok : A (frameOf e) ((⟨e ::ₘ P, T, H, S, st⟩ : Ledger).view (frameOf e)) ev) :
    Sim A ⟨e ::ₘ P, T, H, S, st⟩ ⟨P, T, H, S,
      if (st.record (frameOf e)).any p then st else releaseFrame st (frameOf e)⟩ := by
  refine .event _ ev hok ?_ (fun f hne => ?_)
  · rw [hev, unplug_cons, map_some, record_any P T H S]
    split
    · rfl
    · exact congrArg some ((view_releaseFrame ⟨P, T, H, S, st⟩ _ _).trans (if_pos rfl)).symm
  rw [view_cons_ne hne]
  split
  · rfl
  · exact (view_releaseFrame ⟨P, T, H, S, st⟩ _ _).trans (if_neg hne)

/-- An entry takes the place of another one for the same frame. -/
theorem sim_protect (hf : frameOf e' = frameOf e)
    (hok : A (frameOf e) ((⟨e ::ₘ P, T, H, S, st⟩ : Ledger).view (frameOf e)) (.protect e.isWritable e'.isWritable)) :
    Sim A ⟨e ::ₘ P, T, H, S, st⟩ ⟨e' ::ₘ P, T, H, S, st⟩ := by
  refine .event _ _ hok ?_ (fun f hne => ?_)
  · simp only [apply]
    rw [unplug_cons, map_some, view_ptes_cons, if_pos hf]
  · rw [view_cons_ne hne, view_cons_ne (hf ▸ hne)]

/-- A page is shared: two entries take the place of one, none of them writable, and the count goes up. -/
theorem sim_share {e1 e2 : PageTableEntry} (hst : st.increment (frameOf e) = some st')
    (h1 : frameOf e1 = frameOf e) (h2 : frameOf e2 = frameOf e) (hw1 : e1.isWritable = false)
    (hw2 : e2.isWritable = false)
    (hok : A (frameOf e) ((⟨e ::ₘ P, T, H, S, st⟩ : Ledger).view (frameOf e)) (.share e.isWritable)) :
    Sim A ⟨e ::ₘ P, T, H, S, st⟩ ⟨e1 ::ₘ e2 ::ₘ P, T, H, S, st'⟩ := by
  obtain ⟨hadd, hne⟩ := view_increment (l := ⟨e1 ::ₘ e2 ::ₘ P, T, H, S, st⟩) hst
  refine .event _ _ hok ?_ (fun f hf => ?_)
  · simp only [apply]
    rw [unplug_cons, bind_some, ← hadd, view_ptes_cons, if_pos h1, view_ptes_cons, if_pos h2, hw1, hw2]
  · rw [hne f hf, view_cons_ne (h1 ▸ hf), view_cons_ne (h2 ▸ hf), view_cons_ne hf]

/-- A page becomes a copy-on-write page and the count goes up, though nobody else maps the frame. -/
theorem sim_overcount (hst : st.increment (frameOf e) = some st')
    (hf : frameOf e' = frameOf e) (hw : e'.isWritable = false)
    (hok : A (frameOf e) ((⟨e ::ₘ P, T, H, S, st⟩ : Ledger).view (frameOf e)) (.overcount e.isWritable)) :
    Sim A ⟨e ::ₘ P, T, H, S, st⟩ ⟨e' ::ₘ P, T, H, S, st'⟩ := by
  obtain ⟨hadd, hne⟩ := view_increment (l := ⟨e' ::ₘ P, T, H, S, st⟩) hst
  refine .event _ _ hok ?_ (fun f hf' => ?_)
  · simp only [apply]
    rw [unplug_cons, bind_some, ← hadd, view_ptes_cons, if_pos hf, hw]
  · rw [hne f hf', view_cons_ne (hf ▸ hf'), view_cons_ne hf']

/-- The last owner of a frame makes its page writable. -/
theorem sim_claim (hst : st.tryClaimExclusive (frameOf e) = (true, st')) (hf : frameOf e' = frameOf e)
    (hw : e'.isWritable = true) (hok : ∀ f v w, A f v (.claim w)) :
    Sim A ⟨e ::ₘ P, T, H, S, st⟩ ⟨e' ::ₘ P, T, H, S, st'⟩ := by
  obtain ⟨hclaim, hne⟩ := view_tryClaim (l := ⟨e' ::ₘ P, T, H, S, st⟩) hst
  refine .event (frameOf e) (.claim e.isWritable) (hok _ _ _) ?_ (fun f hf' => ?_)
  · simp only [apply]
    rw [unplug_cons, bind_some, ← hclaim, if_pos rfl, view_ptes_cons, if_pos hf, hw]
  · rw [hne f hf', view_cons_ne (hf ▸ hf'), view_cons_ne hf']

/-- One of several owners leaves. -/
theorem sim_split (hst : st.tryClaimExclusive (frameOf e) = (false, st')) (hok : ∀ f v w, A f v (.split w)) :
    Sim A ⟨e ::ₘ P, T, H, S, st⟩ ⟨P, T, H, S, st'⟩ := by
  obtain ⟨hsplit, hne⟩ := view_tryClaim (l := ⟨P, T, H, S, st⟩) hst
  refine .event (frameOf e) (.split e.isWritable) (hok _ _ _) ?_ (fun f hf' => ?_)
  · simp only [apply]
    rw [unplug_cons]
    exact hsplit
  · rw [hne f hf', view_cons_ne hf']

/-! ## Tables of a dropped address space -/

theorem sim_dropTable (f0 : Frame) (h0 : f0 ≠ 0) (hok : ∀ f v, A f v .dropTable) :
    Sim A ⟨P, f0 ::ₘ T, H, S, st⟩ ⟨P, T, H, S, freeTable st f0⟩ := by
  unfold freeTable
  refine .event f0 .dropTable (hok _ _) ?_ (fun f hne => ?_)
  · have hl : ((⟨P, T, H, S, st⟩ : Ledger).view f0).listable = true := decide_eq_true h0
    rw [view_tables_cons, if_pos rfl, record_any P T H S]
    show some (if !((⟨P, T, H, S, st⟩ : Ledger).view f0).listable ||
        ((⟨P, T, H, S, st⟩ : Ledger).view f0).anyRecord _ then (⟨P, T, H, S, st⟩ : Ledger).view f0
      else ((⟨P, T, H, S, st⟩ : Ledger).view f0).giveBack) = _
    rw [hl, Bool.not_true, Bool.false_or]
    split
    · rfl
    · exact congrArg some ((view_freeFrame ⟨P, T, H, S, st⟩ _ _).trans (if_pos rfl)).symm
  · rw [view_tables_cons]
    split
    · rfl
    · exact (view_freeFrame ⟨P, T, H, S, st⟩ _ _).trans (if_neg hne)

/-- The frame at address 0 is never returned. -/
theorem sim_dropZero (hok : ∀ f v, A f v .dropTable) : Sim A ⟨P, 0 ::ₘ T, H, S, st⟩ ⟨P, T, H, S, st⟩ := by
  refine .event 0 .dropTable (hok _ _) ?_ (fun f hne => ?_)
  · rw [view_tables_cons, if_pos rfl]
    rfl
  · rw [view_tables_cons, if_neg hne]

/-- A frame found twice among the tables is returned once. -/
theorem sim_dupTable (f0 : Frame) (h : f0 ∈ T) (hok : ∀ f v, A f v .dupTable) :
    Sim A ⟨P, f0 ::ₘ T, H, S, st⟩ ⟨P, T, H, S, st⟩ := by
  refine .event f0 .dupTable (hok _ _) ?_ (fun f hne => ?_)
  · have h1 : 1 ≤ T.count f0 := one_le_count_iff_mem.mpr h
    rw [view_tables_cons, if_pos rfl]
    simp only [apply]
    rw [if_pos (by omega)]
    rfl
  · rw [view_tables_cons, if_neg hne]

end Ledger
end OxideOs.Vm
