import OxideOs.Mm.Buddy.Invariant

/-!
# `Mm.Buddy.Lists` — add, pop and remove keep the invariant

One specification for each list operation. Adding can be refused when the bytes in the block's first frame
pretend to be a linked header; removing a frame that is not linked must be refused, unless somebody forged
headers that pass every check (`unlinkAccepts`).
-/

namespace OxideOs.Buddy

open Function List OxideOs.Buddy.Inv

/-- What the list operations never touch. -/
structure SameRest (s s' : State) : Prop where
  range : SameRange s s'
  pagedb : s'.pagedb = s.pagedb
  stats : s'.stats = s.stats
  watchedFrame : s'.watchedFrame = s.watchedFrame

open SameRest

theorem SameRest.refl (s : State) : SameRest s s := ⟨fun _ => ⟨rfl, rfl⟩, rfl, rfl, rfl⟩

theorem SameRest.trans {s s' s'' : State} (h : SameRest s s') (h' : SameRest s' s'') : SameRest s s'' :=
  ⟨h.range.trans h'.range, h'.pagedb.trans h.pagedb, h'.stats.trans h.stats, h'.watchedFrame.trans h.watchedFrame⟩

theorem SameRest.setHeader (s : State) (a : Nat) (b : FreeBlock) : SameRest s (s.setHeader a b) :=
  ⟨fun _ => ⟨rfl, rfl⟩, rfl, rfl, rfl⟩

theorem SameRest.setList (s : State) (z : ZoneType) (o : Nat) (l : FreeListHead) : SameRest s (s.setList z o l) :=
  ⟨fun _ => ⟨setList_base .., setList_size ..⟩, rfl, rfl, rfl⟩

theorem setList_other {s : State} {l : FreeListHead} {z : ZoneType} {o : Nat} (j : Slot) (hj : j ≠ (z, o)) :
    (s.setList z o l).list j.1 j.2 = s.list j.1 j.2 := by
  rw [setList_list, if_neg (fun hc => hj (Prod.ext hc.1 hc.2))]

/-- The bytes read as a header that both double-insertion guards take for a linked block. -/
def FreeBlock.pretends (b : FreeBlock) : Bool :=
  b.magic == FREE_BLOCK_MAGIC && (decide (b.order ≤ MAX_ORDER) && (b.next != 0 || b.prev != 0))

section Add

variable {s : State} {L : Slot → List Nat} {held : List Block} {z : ZoneType} {b : Block} {f : Nat}

theorem Inv.head_mem (h : Inv s L held) {i : Slot} (hi : i ∈ slots) (h0 : (s.list i.1 i.2).head ≠ 0) :
    (s.list i.1 i.2).head ∈ L i := by
  have hc := h.chain i hi
  exact hc.head_mem (mt hc.head_eq_nil_iff.mpr h0)

/-- On an unlinked frame the guards see the bytes of the frame only. -/
theorem Inv.looksLinked_eq (h : Inv s L held) (hu : Unlinked L f) (hf : f ≠ 0) :
    looksLinked s z (4096 * f) = (s.mem f).pretends := by
  unfold looksLinked FreeBlock.pretends
  simp only [header_frame, frame_addr]
  by_cases ho : (s.mem f).order ≤ MAX_ORDER
  · have hne : (s.list z (s.mem f).order).head ≠ f := by
      intro he
      refine hu (z, (s.mem f).order) (mem_slots.mpr ho) ?_
      have := h.head_mem (mem_slots.mpr ho) (i := (z, (s.mem f).order)) (by simpa only [he] using hf)
      simpa only [he] using this
    rw [beq_false_of_ne hne, Bool.false_or]
  · simp [ho]

/-- The blocks of the lists after adding, with what is still held, are the blocks from before. -/
theorem perm_add (L : Slot → List Nat) (held : List Block) (z : ZoneType) (hb : b.order ≤ MAX_ORDER) :
    (freeBlocks (update L (z, b.order) (b.base :: L (z, b.order))) ++ held).Perm (freeBlocks L ++ b :: held) :=
  ((freeBlocks_cons (mem_slots.mpr hb) (Perm.refl _)).append_right held).trans
    perm_middle.symm

/-- What `add_free_block` leaves behind where the guards let it pass: a new header in front of the old head. -/
theorem addFreeBlock_eq {o : Nat} (hf : f ≠ 0) (hin : blockInZone (s.zones z) (4096 * f) o = true)
    (hlook : looksLinked s z (4096 * f) = false)
    (hhead : (s.list z o).head ≠ 0 → 4096 * (s.list z o).head < 2 ^ 64 ∧ (s.list z o).head ≠ f ∧
      (s.mem (s.list z o).head).valid o = true) :
    ∃ s', addFreeBlock s z o (4096 * f) = some (true, s') ∧ SameRest s s' ∧
      s'.list z o = { head := f, count := (s.list z o).count + 1 } ∧
      (∀ j : Slot, j ≠ (z, o) → s'.list j.1 j.2 = s.list j.1 j.2) ∧
      ∀ x, s'.mem x = if x = f then { magic := FREE_BLOCK_MAGIC, next := (s.list z o).head, prev := 0, order := o }
        else if x = (s.list z o).head ∧ (s.list z o).head ≠ 0 then (s.mem x).withPrev f else s.mem x := by
  unfold addFreeBlock
  rw [hin, if_neg (by simp [hf]), frame_addr, if_neg hf, hlook]
  by_cases h0 : (s.list z o).head = 0
  · simp only [h0]
    refine ⟨_, rfl, (setHeader ..).trans (.setList ..), setList_list_self .., setList_other, fun x => ?_⟩
    rw [setList_mem, setHeader_mem]
    simp
  obtain ⟨hlt, hne, hv⟩ := hhead h0
  simp only [h0, shlFrame_of_lt hlt, header_frame, setHeader_mem, if_neg hne, hv]
  refine ⟨_, rfl, ((setHeader ..).trans (.setHeader ..)).trans (.setList ..), setList_list_self ..,
    setList_other, fun x => ?_⟩
  rw [setList_mem, setHeader_mem, setHeader_mem]
  by_cases hx : x = (s.list z o).head
  · simp [hx, hne, h0]
  · simp [hx]

/-- **`add_free_block`** of a held block puts it at the head of its list, unless the bytes in its first frame
    pretend to be a linked header: then nothing happens. -/
theorem addFreeBlock_spec (h : Inv s L (b :: held)) (hb : Placed s z b) :
    ((s.mem b.base).pretends = true ∧ addFreeBlock s z b.order (4096 * b.base) = some (false, s)) ∨
    ((s.mem b.base).pretends = false ∧ ∃ s', addFreeBlock s z b.order (4096 * b.base) = some (true, s') ∧
      Inv s' (update L (z, b.order) (b.base :: L (z, b.order))) held ∧ SameRest s s' ∧
      ∀ x, x ≠ b.base → Unlinked L x → s'.mem x = s.mem x) := by
  have hi : (z, b.order) ∈ slots := mem_slots.mpr hb.order
  have hu : Unlinked L b.base := h.unlinked_of_held mem_cons_self Block.base_mem
  have hin := (h.zone z).blockInZone_of_placed hb
  have hne := hb.ne_zero
  have hlook := h.looksLinked_eq (z := z) hu hne
  cases hpr : (s.mem b.base).pretends with
  | true =>
    refine .inl ⟨rfl, ?_⟩
    unfold addFreeBlock
    rw [hin, if_neg (by simp [hne]), hlook, hpr, if_pos rfl, ite_self]
  | false =>
    refine .inr ⟨rfl, ?_⟩
    rw [hpr] at hlook
    obtain ⟨s', hadd, hrest, hlist, hoth, hmem⟩ := addFreeBlock_eq hne hin hlook (fun h0 =>
      have hm := h.head_mem hi h0
      ⟨h.linked_lt hi hm, ne_of_unlinked hu hi hm, h.valid _ hi _ hm⟩)
    -- nothing that is not linked in this list changes, but the block itself
    have hsame : ∀ x, x ≠ b.base → x ∉ L (z, b.order) → s'.mem x = s.mem x := by
      intro x hx hxi
      rw [hmem, if_neg hx, if_neg]
      rintro ⟨he, h0⟩
      exact hxi (he ▸ h.head_mem hi h0)
    refine ⟨s', hadd, ?_, hrest, fun x hx hxu => hsame x hx (hxu _ hi)⟩
    refine h.of_slot hi hrest.range hoth ?_ ?_ ?_ ?_ ?_ ?_ ?_
    · intro j hj hji x hx
      exact hsame x (ne_of_unlinked hu hj hx) (fun hc => hji (h.slot_unique hj hi hx hc))
    · rw [hlist]
      refine (h.chain _ hi).push (h.nodup hi) hne ?_ ?_ ?_ ?_ ?_
      · simp [nextOf, hmem]
      · simp [prevOf, hmem]
      · intro y hy
        simp only [nextOf, hmem, if_neg (ne_of_unlinked hu hi hy)]
        split <;> rfl
      · intro y hy hyh
        simp only [prevOf, hmem, if_neg (ne_of_unlinked hu hi hy)]
        rw [if_neg]
        exact fun hc => hyh hc.1
      · intro hL
        have h0 : (s.list z b.order).head ≠ 0 := mt (h.chain _ hi).head_eq_nil_iff.mp hL
        show (s'.mem (s.list z b.order).head).prev = b.base
        rw [hmem, if_neg (ne_of_unlinked hu hi (h.head_mem hi h0)), if_pos ⟨rfl, h0⟩]
        rfl
    · rw [hlist, length_cons, ← h.count _ hi]
    · intro x hx
      rw [hmem]
      rcases mem_cons.mp hx with rfl | hx
      · rw [if_pos rfl, valid_iff]
        exact ⟨rfl, rfl⟩
      rw [if_neg (ne_of_unlinked hu hi hx)]
      have hv := h.valid _ hi x hx
      split <;> exact hv
    · exact forall_mem_cons.mpr ⟨hrest.range.placed hb, fun x hx => hrest.range.placed (h.placed _ hi x hx)⟩
    · exact fun c hc => (h.heldPlaced c (mem_cons_of_mem _ hc)).imp fun _ => hrest.range.placed
    · exact (Perm.pairwise_iff (fun hab => hab.symm) (perm_add L held z hb.order)).mpr h.apart

end Add

section Remove

variable {s s' : State} {L : Slot → List Nat} {held : List Block} {z : ZoneType} {o f : Nat}

/-- What taking frame `f` off the list of slot `i` does besides. -/
structure TakesOff (s s' : State) (L : Slot → List Nat) (i : Slot) (f : Nat) : Prop where
  rest : SameRest s s'
  list : ∀ j, j ≠ i → s'.list j.1 j.2 = s.list j.1 j.2
  cleared : s'.mem f = .cleared
  unlinked : ∀ x, Unlinked L x → s'.mem x = s.mem x
  otherOrder : ∀ x k, k ≠ i.2 → (s'.mem x).valid k = true → s'.mem x = s.mem x

/-- The blocks of the lists before are the block taken off and the blocks of the lists after. -/
theorem perm_remove {i : Slot} (hi : i ∈ slots) {l : List Nat} (hp : (L i).Perm (f :: l)) :
    (freeBlocks (update L i l) ++ ⟨f, i.2⟩ :: held).Perm (freeBlocks L ++ held) :=
  perm_middle.trans ((freeBlocks_uncons hi hp).symm.append_right held)

/-- Taking a frame off its list keeps the invariant, given the chain that is left. It is all that happens where no
    other header changes its order, and none outside the list. -/
theorem Inv.takeOff (h : Inv s L held) {i : Slot} (hi : i ∈ slots) {l : List Nat}
    (hp : (L i).Perm (f :: l)) (hrest : SameRest s s')
    (hlist : ∀ j, j ≠ i → s'.list j.1 j.2 = s.list j.1 j.2) (hcleared : s'.mem f = .cleared)
    (hval : ∀ x, x ≠ f → ∀ k, (s'.mem x).valid k = (s.mem x).valid k)
    (hsame : ∀ x, x ∉ L i → s'.mem x = s.mem x)
    (hchain : Dll (nextOf s') (prevOf s') 0 0 (s'.list i.1 i.2).head l) (hcount : (s'.list i.1 i.2).count = l.length) :
    Inv s' (update L i l) (⟨f, i.2⟩ :: held) ∧ TakesOff s s' L i f := by
  have hsub : ∀ x ∈ l, x ∈ L i := fun x hx => hp.symm.subset (mem_cons_of_mem f hx)
  have hfl : f ∉ l := (nodup_cons.mp (hp.nodup_iff.mp (h.nodup hi))).1
  constructor
  · refine h.of_slot hi hrest.range hlist ?_ hchain hcount ?_ ?_ ?_ ?_
    · intro j hj hji x hx
      exact hsame x (fun hc => hji (h.slot_unique hj hi hx hc))
    · intro x hx
      rw [hval x (fun he => hfl (he ▸ hx))]
      exact h.valid i hi x (hsub x hx)
    · intro x hx
      exact hrest.range.placed (h.placed i hi x (hsub x hx))
    · refine forall_mem_cons.mpr ⟨⟨i.1, ?_⟩, fun c hc => (h.heldPlaced c hc).imp fun _ => hrest.range.placed⟩
      exact hrest.range.placed (h.placed i hi f (hp.symm.subset mem_cons_self))
    · exact (Perm.pairwise_iff (fun hab => hab.symm) (perm_remove hi hp)).mpr h.apart
  refine ⟨hrest, hlist, hcleared, fun x hx => hsame x (hx i hi), ?_⟩
  intro x k hk hv
  by_cases hx : x ∈ L i
  · have hxf : x ≠ f := by
      rintro rfl
      rw [hcleared] at hv
      exact Bool.noConfusion hv
    rw [hval x hxf] at hv
    exact absurd ((valid_iff.mp hv).2.symm.trans (valid_iff.mp (h.valid i hi x hx)).2) hk
  · exact hsame x hx

/-- What the head update of a pop leaves behind, where the rest of the chain is sound. -/
theorem relinkHead_eq {n c : Nat} (hn : n ≠ 0 → 4096 * n < 2 ^ 64 ∧
      blockInZone (s.zones z) (4096 * n) o = true ∧ (s.mem n).valid o = true) :
    ∃ s', relinkHead s z o n c = (s', c) ∧ s'.list z o = { head := n, count := c } ∧ SameRest s s' ∧
      (∀ j : Slot, j ≠ (z, o) → s'.list j.1 j.2 = s.list j.1 j.2) ∧
      ∀ x, s'.mem x = if x = n ∧ n ≠ 0 then (s.mem n).withPrev 0 else s.mem x := by
  unfold relinkHead
  by_cases h0 : n = 0
  · rw [h0]
    refine ⟨_, rfl, setList_list_self .., .setList .., setList_other, fun x => ?_⟩
    simp
  obtain ⟨hlt, hin, hv⟩ := hn h0
  rw [if_neg h0, shlFrame_of_lt hlt, header_frame, hin, hv]
  refine ⟨_, rfl, setList_list_self .., (setHeader ..).trans (.setList ..), setList_other, fun x => ?_⟩
  rw [setList_mem, setHeader_mem]
  simp [h0]

/-- What `pop_free_block` leaves behind where the head is sound: its header cleared, its successor in its place. -/
theorem popFreeBlock_eq {c : Nat} (hhead : (s.list z o).head = f) (hcount : (s.list z o).count = c + 1) (hf0 : f ≠ 0)
    (hf : 4096 * f < 2 ^ 64 ∧ blockInZone (s.zones z) (4096 * f) o = true ∧ (s.mem f).valid o = true)
    (hnf : nextOf s f ≠ f) (hn : nextOf s f ≠ 0 → 4096 * nextOf s f < 2 ^ 64 ∧
      blockInZone (s.zones z) (4096 * nextOf s f) o = true ∧ (s.mem (nextOf s f)).valid o = true) :
    ∃ s', popFreeBlock s z o = some (some (4096 * f), s') ∧ SameRest s s' ∧
      s'.list z o = { head := nextOf s f, count := c } ∧
      (∀ j : Slot, j ≠ (z, o) → s'.list j.1 j.2 = s.list j.1 j.2) ∧
      ∀ x, s'.mem x = if x = f then .cleared
        else if x = nextOf s f ∧ nextOf s f ≠ 0 then (s.mem x).withPrev 0 else s.mem x := by
  obtain ⟨hlt, hin, hv⟩ := hf
  obtain ⟨s', hre, hlist, hrest, hoth, hmem⟩ :=
    relinkHead_eq (s := s.setHeader _ .cleared) (by
      rw [setHeader_mem, if_neg hnf]
      exact hn)
  refine ⟨s'.setList z o { s'.list z o with count := (s'.list z o).count - 1 }, ?_, ?_, ?_, fun j hj => ?_, fun x => ?_⟩
  · unfold popFreeBlock
    simp only [hhead, hcount, shlFrame_of_lt hlt, header_frame]
    rw [if_neg (Nat.succ_ne_zero _), if_neg hf0, hin, if_neg (by simp), hv, if_neg (by simp)]
    simp only [nextOf] at hre hlist
    rw [hre]
    simp only [hlist]
    rw [if_neg (by simp)]
  · exact (setHeader s _ .cleared).trans (hrest.trans (.setList ..))
  · rw [setList_list_self, hlist]
    rfl
  · rw [setList_other j hj]
    exact hoth j hj
  · rw [setList_mem, hmem, setHeader_mem, setHeader_mem, if_neg hnf]
    by_cases hx : x = nextOf s f ∧ nextOf s f ≠ 0
    · rw [if_pos hx, if_neg (by rw [hx.1]; exact hnf), if_pos hx, hx.1]
    · rw [if_neg hx, if_neg hx]

/-- **`pop_free_block`** takes the head off a nonempty list. -/
theorem popFreeBlock_cons (h : Inv s L held) (ho : o ≤ MAX_ORDER) {l : List Nat} (hL : L (z, o) = f :: l) :
    ∃ s', popFreeBlock s z o = some (some (4096 * f), s') ∧
      Inv s' (update L (z, o) l) (⟨f, o⟩ :: held) ∧ TakesOff s s' L (z, o) f := by
  have hi : (z, o) ∈ slots := mem_slots.mpr ho
  have hf : f ∈ L (z, o) := hL ▸ mem_cons_self
  have hlmem : ∀ x ∈ l, x ∈ L (z, o) := fun x hx => hL ▸ mem_cons_of_mem f hx
  have hchain := h.chain _ hi
  have hnd := h.nodup hi
  have hcount := h.count _ hi
  rw [hL] at hchain hnd hcount
  obtain ⟨hfl, -⟩ := nodup_cons.mp hnd
  have hf0 : f ≠ 0 := (h.placed _ hi f hf).ne_zero
  -- the successor is null, or linked and different from `f`
  have hnext : nextOf s f = 0 ∨ nextOf s f ∈ l := Dll.next_mem_right (A := []) hchain
  have hnf : nextOf s f ≠ f := by
    rcases hnext with h0 | hm
    · exact h0 ▸ hf0.symm
    · exact fun he => hfl (he ▸ hm)
  have hsound : ∀ x ∈ L (z, o), 4096 * x < 2 ^ 64 ∧ blockInZone (s.zones z) (4096 * x) o = true ∧
      (s.mem x).valid o = true := fun x hx => ⟨h.linked_lt hi hx, h.linked_inZone hi hx, h.valid _ hi x hx⟩
  obtain ⟨s', hpop, hrest, hlist, hoth, hmem⟩ := popFreeBlock_eq hchain.1 hcount hf0 (hsound f hf) hnf
    (fun hn0 => hsound _ (hlmem _ (hnext.resolve_left hn0)))
  have hval : ∀ x, x ≠ f → ∀ k, (s'.mem x).valid k = (s.mem x).valid k := by
    intro x hx k
    rw [hmem, if_neg hx]
    split <;> rfl
  have hsame : ∀ x, x ∉ L (z, o) → s'.mem x = s.mem x := by
    intro x hx
    have hxf : x ≠ f := fun he => hx (he ▸ hf)
    rw [hmem, if_neg hxf, if_neg]
    rintro ⟨he, hn0⟩
    exact hx (he ▸ hlmem _ (hnext.resolve_left hn0))
  refine ⟨s', hpop, h.takeOff hi (by rw [hL]) hrest hoth (by rw [hmem, if_pos rfl]) hval hsame ?_ ?_⟩
  · have hhd : (s'.list z o).head = nextOf s f := by rw [hlist]
    simp only [hhd]
    refine hchain.pop hnd ?_ ?_ ?_
    · intro y hy
      have hyf : y ≠ f := fun he => hfl (he ▸ hy)
      show (s'.mem y).next = (s.mem y).next
      rw [hmem, if_neg hyf]
      split <;> rfl
    · intro y hy hyn
      have hyf : y ≠ f := fun he => hfl (he ▸ hy)
      show (s'.mem y).prev = (s.mem y).prev
      rw [hmem, if_neg hyf, if_neg (fun hc => hyn hc.1)]
    · intro hne
      have hn0 : nextOf s f ≠ 0 := mt (Dll.head_eq_nil_iff hchain.2.2.2).mp hne
      show (s'.mem (nextOf s f)).prev = 0
      rw [hmem, if_neg hnf, if_pos ⟨rfl, hn0⟩]
      rfl
  · rw [hlist]

/-- The header checks that let `remove_from_free_list` take out a block that is not the head: canary, order
    and back link of the block, the predecessor's canary and forward link, and the successor's canary. -/
def unlinkAccepts (s : State) (z : ZoneType) (order addr : Nat) : Bool :=
  let t := s.header addr
  let p := s.header (shlFrame t.prev)
  blockInZone (s.zones z) addr order && (s.list z order).count != 0 && t.valid order && t.prev != 0 &&
    p.valid order && p.next == addr / 4096 && (t.next == 0 || (s.header (shlFrame t.next)).valid order)

/-- Joining the neighbours of a block that is properly linked behind the head. -/
theorem unlinkInterior_eq {p n : Nat} (hp : (s.mem f).prev = p) (hn : (s.mem f).next = n)
    (hplt : 4096 * p < 2 ^ 64) (hp0 : p ≠ 0) (hpn : (s.mem p).next = f) (hnp : n ≠ p)
    (hv : (s.mem f).valid o = true) (hpv : (s.mem p).valid o = true)
    (hnext : n ≠ 0 → 4096 * n < 2 ^ 64 ∧ (s.mem n).valid o = true) :
    ∃ s', unlinkInterior s z o (4096 * f) = (true, s') ∧ SameRest s s' ∧
      s'.list z o = { head := (s.list z o).head, count := (s.list z o).count - 1 } ∧
      (∀ j : Slot, j ≠ (z, o) → s'.list j.1 j.2 = s.list j.1 j.2) ∧
      ∀ x, s'.mem x = if x = f then .cleared else if x = n ∧ n ≠ 0 then (s.mem x).withPrev p
        else if x = p then (s.mem x).withNext n else s.mem x := by
  subst hp hn
  unfold unlinkInterior
  simp only [header_frame, shlFrame_of_lt hplt]
  rw [hv, hpv, if_neg (by simp [hp0]), if_neg (by simp [hpn])]
  by_cases hn0 : (s.mem f).next = 0
  · rw [if_pos hn0]
    refine ⟨_, rfl, ?_, setList_list_self .., setList_other, fun x => ?_⟩
    · exact ((setHeader ..).trans (.setHeader ..)).trans (.setList ..)
    rw [setList_mem, setHeader_mem, setHeader_mem, hn0]
    by_cases hxp : x = (s.mem f).prev <;> simp [hxp]
  obtain ⟨hnlt, hnv⟩ := hnext hn0
  simp only [shlFrame_of_lt hnlt, header_frame, setHeader_mem, if_neg hnp]
  rw [if_neg hn0, hnv]
  refine ⟨_, rfl, ?_, setList_list_self .., setList_other, fun x => ?_⟩
  · exact (((setHeader ..).trans (.setHeader ..)).trans (.setHeader ..)).trans (.setList ..)
  rw [setList_mem, setHeader_mem, setHeader_mem, setHeader_mem]
  by_cases hxn : x = (s.mem f).next
  · simp [hxn, hn0]
  by_cases hxp : x = (s.mem f).prev
  · simp [hxp, hnp.symm]
  · simp [hxn, hxp]

/-- A removal that gets past the first guards, on an in-zone block. -/
theorem removeFromFreeList_inZone (hf0 : f ≠ 0) (hin : blockInZone (s.zones z) (4096 * f) o = true) :
    removeFromFreeList s z o (4096 * f) =
      if (s.list z o).count = 0 then some (false, s)
      else if (s.list z o).head = f then (popFreeBlock s z o).map (fun r => (r.1 == some (4096 * f), r.2))
      else some (unlinkInterior s z o (4096 * f)) := by
  unfold removeFromFreeList
  simp only [frame_addr, hin, hf0, false_or]
  rw [if_neg (by simp [hf0])]

/-- **`remove_from_free_list`** takes a linked frame off its list. -/
theorem removeFromFreeList_linked (h : Inv s L held) (ho : o ≤ MAX_ORDER) (hf : f ∈ L (z, o)) :
    ∃ s' l, removeFromFreeList s z o (4096 * f) = some (true, s') ∧ (L (z, o)).Perm (f :: l) ∧
      Inv s' (update L (z, o) l) (⟨f, o⟩ :: held) ∧ TakesOff s s' L (z, o) f := by
  have hi : (z, o) ∈ slots := mem_slots.mpr ho
  have hf0 : f ≠ 0 := (h.placed _ hi f hf).ne_zero
  have hchain := h.chain _ hi
  have hnd := h.nodup hi
  have hcount := h.count _ hi
  have hc0 : (s.list z o).count ≠ 0 := by
    rw [hcount]
    exact fun h0 => ne_nil_of_mem hf (length_eq_zero_iff.mp h0)
  rw [removeFromFreeList_inZone hf0 (h.linked_inZone hi hf), if_neg hc0]
  obtain ⟨A, B, hAB⟩ := append_of_mem hf
  have hperm : (L (z, o)).Perm (f :: (A ++ B)) := by rw [hAB]; exact perm_middle
  rw [hAB] at hchain hnd hcount
  by_cases hhead : (s.list z o).head = f
  · -- the head: a pop
    have hA : A = [] := by
      cases A with
      | nil => rfl
      | cons a A =>
        have ha : a = f := hchain.1.symm.trans hhead
        subst ha
        simp at hnd
    subst hA
    obtain ⟨s', hpop, hinv, htake⟩ := popFreeBlock_cons h ho hAB
    rw [if_pos hhead, hpop]
    exact ⟨s', B, by simp, hperm, hinv, htake⟩
  -- behind the head: join the neighbours
  have hA : A ≠ [] := by
    rintro rfl
    exact hhead hchain.1
  obtain ⟨hpA, hpn⟩ := hchain.prev_mem_left hA
  have hnB := hchain.next_mem_right
  simp only [nextOf] at hpA hpn hnB
  obtain ⟨hfAB, hndAB⟩ := nodup_cons.mp (nodup_middle.mp hnd)
  have hsub : ∀ x ∈ A ++ B, x ∈ L (z, o) := fun x hx => hperm.symm.subset (mem_cons_of_mem f hx)
  have hpmem := hsub _ (mem_append_left B hpA)
  have hp0 : (s.mem f).prev ≠ 0 := (h.placed _ hi _ hpmem).ne_zero
  have hnmem : (s.mem f).next ≠ 0 → (s.mem f).next ∈ L (z, o) := fun hn =>
    hsub _ (mem_append_right A (hnB.resolve_left hn))
  have hnp : (s.mem f).next ≠ (s.mem f).prev := by
    rcases hnB with h0 | hm
    · rw [h0]; exact hp0.symm
    · exact fun he => (nodup_append.mp hndAB).2.2 _ hpA _ hm he.symm
  obtain ⟨s', hun, hrest, hlist, hoth, hmem⟩ := unlinkInterior_eq rfl rfl
    (h.linked_lt hi hpmem) hp0 hpn hnp (h.valid _ hi f hf) (h.valid _ hi _ hpmem)
    (fun hn => ⟨h.linked_lt hi (hnmem hn), h.valid _ hi _ (hnmem hn)⟩)
  -- the neighbours stay valid headers of this order, everything else is as it was
  have hval : ∀ x, x ≠ f → ∀ k, (s'.mem x).valid k = (s.mem x).valid k := by
    intro x hx k
    rw [hmem, if_neg hx]
    split
    · rfl
    · split <;> rfl
  have hsame : ∀ x, x ∉ L (z, o) → s'.mem x = s.mem x := by
    intro x hx
    have h1 : x ≠ f := fun he => hx (he ▸ hf)
    have h2 : x ≠ (s.mem f).prev := fun he => hx (he ▸ hpmem)
    have h3 : ¬(x = (s.mem f).next ∧ (s.mem f).next ≠ 0) := fun hc => hx (hc.1 ▸ hnmem hc.2)
    rw [hmem, if_neg h1, if_neg h3, if_neg h2]
  rw [if_neg hhead, hun]
  refine ⟨s', A ++ B, rfl, hperm, h.takeOff hi hperm hrest hoth (by rw [hmem, if_pos rfl]) hval hsame ?_ ?_⟩
  · have hhd : (s'.list z o).head = (s.list z o).head := by rw [hlist]
    simp only [hhd]
    refine hchain.unlink hnd hA ?_ ?_ ?_ ?_
    · intro y hy hyp
      have hyf : y ≠ f := fun he => hfAB (he ▸ hy)
      show (s'.mem y).next = (s.mem y).next
      rw [hmem, if_neg hyf]
      simp only [prevOf] at hyp
      split <;> rfl
    · have hpf : (s.mem f).prev ≠ f := fun he => hfAB (he ▸ mem_append_left B hpA)
      show (s'.mem (s.mem f).prev).next = (s.mem f).next
      rw [hmem, if_neg hpf, if_neg (fun hc => hnp hc.1.symm), if_pos rfl]
      rfl
    · intro y hy hyn
      have hyf : y ≠ f := fun he => hfAB (he ▸ hy)
      show (s'.mem y).prev = (s.mem y).prev
      rw [hmem, if_neg hyf, if_neg (fun hc => hyn hc.1)]
      split <;> rfl
    · intro hn0
      have hnf : (s.mem f).next ≠ f := fun he => hfAB (he ▸ mem_append_right A (hnB.resolve_left hn0))
      show (s'.mem (s.mem f).next).prev = (s.mem f).prev
      rw [hmem, if_neg hnf, if_pos ⟨rfl, hn0⟩]
      rfl
  · rw [hlist]
    simp only [hcount, length_append, length_cons]
    omega

/-- A refused interior removal changes at most the forward link of a header that names `f`. -/
theorem unlinkInterior_refused (hin : blockInZone (s.zones z) (4096 * f) o = true)
    (hc0 : (s.list z o).count ≠ 0) (hforged : unlinkAccepts s z o (4096 * f) = false) :
    unlinkInterior s z o (4096 * f) = (false, s) ∨
      ∃ p n, (s.mem p).valid o = true ∧ (s.mem p).next = f ∧
        unlinkInterior s z o (4096 * f) = (false, s.setHeader (4096 * p) ((s.mem p).withNext n)) := by
  unfold unlinkAccepts at hforged
  unfold unlinkInterior
  simp only [header_frame, shlFrame_eq, frame_addr] at hforged ⊢
  simp only [hin, bne_iff_ne.mpr hc0] at hforged
  split
  · exact .inl rfl
  rename_i ht
  split
  · exact .inl rfl
  rename_i hp
  rw [not_or, Bool.not_eq_false] at ht hp
  have hpn : (s.mem ((s.mem f).prev % 2 ^ 52)).next = f := not_not.mp hp.2
  refine .inr ⟨_, (s.mem f).next, hp.1, hpn, ?_⟩
  rw [ht.1, hp.1, bne_iff_ne.mpr ht.2, hpn] at hforged
  simp only [Bool.true_and, BEq.rfl, Bool.or_eq_false_iff, beq_eq_false_iff_ne] at hforged
  -- the rewritten predecessor is as valid as before, even if it is the successor too
  have hn : ((s.setHeader (4096 * ((s.mem f).prev % 2 ^ 52))
      ((s.mem ((s.mem f).prev % 2 ^ 52)).withNext (s.mem f).next)).mem ((s.mem f).next % 2 ^ 52)).valid o = false := by
    rw [setHeader_mem]
    split
    next he =>
      rw [← he]
      exact hforged.2
    · exact hforged.2
  rw [if_neg hforged.1, hn, if_pos rfl]

/-- **`remove_from_free_list` refuses** a frame that is not linked, unless its header, and those it names,
    were forged to pass every check. -/
theorem removeFromFreeList_unlinked (h : Inv s L held) (ho : o ≤ MAX_ORDER) (hf : f ∉ L (z, o))
    (hforged : unlinkAccepts s z o (4096 * f) = false) :
    ∃ s', removeFromFreeList s z o (4096 * f) = some (false, s') ∧ Inv s' L held ∧ SameRest s s' ∧
      ∀ x, (s.mem x).pretends = false → s'.mem x = s.mem x := by
  have hi : (z, o) ∈ slots := mem_slots.mpr ho
  have hid : Inv s L held ∧ SameRest s s ∧ ∀ x, (s.mem x).pretends = false → s.mem x = s.mem x :=
    ⟨h, refl s, fun _ _ => rfl⟩
  by_cases hf0 : f = 0
  · refine ⟨s, ?_, hid⟩
    exact if_pos (.inl (by rw [hf0]))
  cases hin : blockInZone (s.zones z) (4096 * f) o with
  | false =>
    refine ⟨s, ?_, hid⟩
    exact if_pos (.inr hin)
  | true =>
    rw [removeFromFreeList_inZone hf0 hin]
    by_cases hc0 : (s.list z o).count = 0
    · exact ⟨s, if_pos hc0, hid⟩
    have hhead : (s.list z o).head ≠ f := by
      intro he
      have hm := h.head_mem hi (by simp only [he]; exact hf0)
      simp only [he] at hm
      exact hf hm
    rw [if_neg hc0, if_neg hhead]
    rcases unlinkInterior_refused hin hc0 hforged with hun | ⟨p, n, hpv, hpn, hun⟩
    · exact ⟨s, by rw [hun], hid⟩
    have hz : ZoneType.forAddress (4096 * f) = z := by
      obtain ⟨h1, h2⟩ := (h.zone z).blockInZone_iff.mp hin
      have h3 := Nat.two_pow_pos o
      exact (h.zone z).forAddress_eq h1 (by omega)
    have hu : Unlinked L p := h.unlinked_pred hz hf hf0 hpv hpn
    refine ⟨_, by rw [hun], h.write hu _, setHeader .., ?_⟩
    intro x hx
    rw [setHeader_mem, if_neg]
    rintro rfl
    obtain ⟨h1, h2⟩ := valid_iff.mp hpv
    simp [FreeBlock.pretends, h1, h2, ho, hpn, hf0] at hx

end Remove

end OxideOs.Buddy
