import OxideOs.Mm.Buddy.Lists

/-!
# `Mm.Buddy.Ops` — splitting, coalescing, `alloc` and `free`

The loops of the allocator over the list operations. Each loop is followed block by block: `SameCells` says
that splitting and merging only regroup the frames, and the invariant says that no two groups meet.
-/

namespace OxideOs.Buddy

open List Option Block Pagedb Nat SameCells Bool Function

variable {s : State} {L : Slot → List Nat} {held : List Block} {z : ZoneType} {b : Block} {f o : Nat}

/-- All blocks, in the lists and outside. -/
abbrev total (L : Slot → List Nat) (held : List Block) : List Block := freeBlocks L ++ held

/-! ## Halves and pairs of blocks -/

variable {order n cur k : Nat} {s' : State}

theorem Placed.lower_half (h : Placed s z ⟨f, o + 1⟩) : Placed s z (Block.lower f o) where
  order := le_of_succ_le h.order
  aligned := h.aligned.lower
  ne_zero := h.ne_zero
  lower := h.lower
  upper := by
    have h1 := h.upper
    simp only [Block.lower, pow_succ] at h1 ⊢
    omega

theorem Placed.upper_half (h : Placed s z ⟨f, o + 1⟩) : Placed s z (Block.upper f o) where
  order := le_of_succ_le h.order
  aligned := h.aligned.upper
  ne_zero := by
    have h2 := Nat.two_pow_pos o
    simp only [Block.upper]
    omega
  lower := by
    have h1 := h.lower
    have h2 := Nat.two_pow_pos o
    simp only [Block.upper] at h1 ⊢
    omega
  upper := by
    have h1 := h.upper
    simp only [Block.upper] at h1 ⊢
    omega

theorem Placed.merged (h : Placed s z b) (h' : Placed s z b.buddy) (ho : b.order < MAX_ORDER) :
    Placed s z b.merged := by
  have h1 := h.upper
  have h2 := h'.upper
  have h3 := h.lower
  have h4 := h'.lower
  have h5 : b.buddy.order = b.order := rfl
  have h6 : b.merged.base = min b.base b.buddy.base := rfl
  have h7 : b.merged.order = b.order + 1 := rfl
  refine ⟨ho, h.aligned.merged, ?_, ?_, ?_⟩
  · have := h.ne_zero
    have := h'.ne_zero
    omega
  · omega
  rw [h5] at h2
  rw [h7]
  rcases h.aligned.buddy_cases with ⟨_, hb⟩ | ⟨_, _, hb⟩ <;> omega

/-- A held block may be cut in two halves. -/
theorem Inv.halve (h : Inv s L (⟨f, o + 1⟩ :: held)) (hb : Placed s z ⟨f, o + 1⟩) :
    Inv s L (Block.upper f o :: Block.lower f o :: held) := by
  refine { h with heldPlaced := ?_, apart := ?_ }
  · refine forall_mem_cons.mpr ⟨⟨z, hb.upper_half⟩, forall_mem_cons.mpr ⟨⟨z, hb.lower_half⟩, ?_⟩⟩
    exact (forall_mem_cons.mp h.heldPlaced).2
  · exact pairwise_cut h.apart (fun x hx => mem_halves.mpr (.inr hx))
      (fun x hx => mem_halves.mpr (.inl hx)) apart_halves.symm

theorem sameCells_halve :
    SameCells (total L (⟨f, o + 1⟩ :: held)) (total L (Block.upper f o :: Block.lower f o :: held)) :=
  cut fun _ => mem_halves.trans or_comm

/-- A held block and its held buddy may be merged. -/
theorem Inv.merge (h : Inv s L (b.buddy :: b :: held)) (hb : Placed s z b) (hb' : Placed s z b.buddy)
    (ho : b.order < MAX_ORDER) : Inv s L (b.merged :: held) := by
  refine { h with heldPlaced := ?_, apart := ?_ }
  · refine forall_mem_cons.mpr ⟨⟨z, hb.merged hb' ho⟩, fun c hc => ?_⟩
    exact h.heldPlaced c (mem_cons_of_mem _ (mem_cons_of_mem _ hc))
  · exact pairwise_join h.apart (fun x hx => (hb.aligned.mem_merged.mp hx).symm)

theorem sameCells_merge (L : Slot → List Nat) (held : List Block) (hb : b.Aligned) :
    SameCells (total L (b.buddy :: b :: held)) (total L (b.merged :: held)) :=
  (cut fun _ => hb.mem_merged.trans or_comm).symm

/-! ## Splitting -/

/-- **The split loop** cuts the held block down to `order` and puts the upper halves on the lists; one whose
    first frame pretends to be linked is dropped on the way. -/
theorem splitBlock_spec (h : Inv s L (⟨f, order + n⟩ :: held)) (hb : Placed s z ⟨f, order + n⟩) :
    ∃ s' L', splitBlock z (4096 * f) order n s = some s' ∧ Inv s' L' (⟨f, order⟩ :: held) ∧
      SameRest s s' ∧ ((∀ k < n, (s.mem (f + 2 ^ (order + k))).pretends = false) →
        SameCells (total L (⟨f, order + n⟩ :: held)) (total L' (⟨f, order⟩ :: held))) := by
  induction n generalizing s L with
  | zero => exact ⟨s, L, rfl, h, SameRest.refl s, fun _ => refl _⟩
  | succ n ih =>
    have hh := h.halve (o := order + n) hb
    have hup : Placed s z (upper f (order + n)) := hb.upper_half
    have hlo : Placed s z (lower f (order + n)) := hb.lower_half
    have haddr : 4096 * f + 4096 * 2 ^ (order + n) = 4096 * (upper f (order + n)).base := by
      simp [upper, mul_add]
    have hord : (upper f (order + n)).order = order + n := rfl
    rcases addFreeBlock_spec hh hup with ⟨hpr, hadd⟩ | ⟨_, s1, hadd, hinv, hrest, hmem⟩
    · -- the guard takes the upper half for a linked block
      have hlow : Inv s L (lower f (order + n) :: held) := hh.drop (sublist_cons_self _ _)
      obtain ⟨s', L', hs, hi', hr, _⟩ := ih hlow hlo
      refine ⟨s', L', ?_, hi', hr, fun hclean => ?_⟩
      · rw [hord] at hadd
        simp only [splitBlock, haddr, hadd]
        exact hs
      have := hclean n (lt_succ_self n)
      simp only [upper] at hpr
      rw [hpr] at this
      exact Bool.noConfusion this
    obtain ⟨s', L', hs, hi', hr, hcells⟩ := ih hinv (hrest.range.placed hlo)
    refine ⟨s', L', ?_, hi', hrest.trans hr, fun hclean => ?_⟩
    · rw [hord] at hadd
      simp only [splitBlock, haddr, hadd]
      exact hs
    refine (sameCells_halve.trans (of_perm (perm_add _ _ _ hup.order).symm)).trans (hcells fun k hk => ?_)
    -- the frame lies in the lower half, so adding the upper one leaves it alone
    have hpow : 2 ^ (order + k) < 2 ^ (order + n) := Nat.pow_lt_pow_right (by decide) (by omega)
    have hpos := Nat.two_pow_pos (order + k)
    rw [hmem]
    · exact hclean k (lt_succ_of_lt hk)
    · simp only [upper]
      omega
    refine hh.unlinked_of_held (b := lower f (order + n)) (by simp) ?_
    simp only [mem_iff, lower]
    omega

/-! ## `alloc_from_zone` -/

theorem framesFree_congr {s : State} (h : SameRest s s') (a o : Nat) : s'.framesFree a o = s.framesFree a o := by
  unfold State.framesFree
  rw [h.pagedb]

/-- A round on a nonempty list whose head block the page database accepts. -/
theorem allocAtOrder_accept (fuel : Nat) (h : Inv s L held) {l : List Nat}
    (hcur : cur ≤ MAX_ORDER) (hord : order ≤ cur) (hL : L (z, cur) = f :: l)
    (hfree : s.framesFree (4096 * f) cur = true) :
    ∃ s' L', allocAtOrder z order cur (fuel + 1) s = some (some (4096 * f), s') ∧
      Inv s' L' (⟨f, order⟩ :: held) ∧ SameRest s s' ∧
      ((∀ k, order ≤ k → k < cur → (s.mem (f + 2 ^ k)).pretends = false) →
        SameCells (total L held) (total L' (⟨f, order⟩ :: held))) := by
  have hi : (z, cur) ∈ slots := mem_slots.mpr hcur
  have hcount := h.count _ hi
  have hplaced := h.placed _ hi f (hL ▸ mem_cons_self)
  rw [hL, length_cons] at hcount
  obtain ⟨s1, hpop, hinv, htake⟩ := popFreeBlock_cons h hcur hL
  obtain ⟨n, rfl⟩ : ∃ n, cur = order + n := ⟨cur - order, by omega⟩
  obtain ⟨s2, L2, hsplit, hinv2, hrest2, hcells⟩ := splitBlock_spec hinv (htake.rest.range.placed hplaced)
  refine ⟨s2, L2, ?_, hinv2, htake.rest.trans hrest2, fun hclean => ?_⟩
  · unfold allocAtOrder
    simp only at hcount
    rw [if_neg (by omega), hpop]
    simp only [bind_eq_bind, bind_some]
    rw [framesFree_congr htake.rest, hfree, Nat.add_sub_cancel_left, hsplit]
    rfl
  refine (of_perm (perm_remove hi (by rw [hL])).symm).trans (hcells fun k _ => ?_)
  -- an inner frame of the block popped: not linked, so not touched by the pop
  rw [htake.unlinked]
  · exact hclean _ (le_add_right _ _) (by omega)
  have hpow : 2 ^ (order + k) < 2 ^ (order + n) := Nat.pow_lt_pow_right (by decide) (by omega)
  have hpos := Nat.two_pow_pos (order + k)
  refine h.unlinked_inner hi (hL ▸ mem_cons_self) ?_ (by omega)
  simp only [mem_iff]
  omega

/-- What an allocation attempt leaves: a block of the order asked for in hand, or nothing. -/
def Attempt (order : Nat) (held : List Block) (r : Option Nat) (s : State) : Prop :=
  match r with
  | none => ∃ L, Inv s L held
  | some addr => ∃ L f, addr = 4096 * f ∧ Inv s L (⟨f, order⟩ :: held)

/-- **The rounds at one order**, whatever the page database says: stale blocks are lost, nothing is
    handed out twice. -/
theorem allocAtOrder_spec (h : Inv s L held) (hcur : cur ≤ MAX_ORDER) (hord : order ≤ cur) (fuel : Nat) :
    ∃ r s', allocAtOrder z order cur fuel s = some (r, s') ∧ SameRest s s' ∧ Attempt order held r s' := by
  induction fuel generalizing s L with
  | zero => exact ⟨none, s, rfl, SameRest.refl s, L, h⟩
  | succ fuel ih =>
    cases hL : L (z, cur) with
    | nil =>
      have hc := h.count (z, cur) (mem_slots.mpr hcur)
      rw [hL] at hc
      refine ⟨none, s, ?_, SameRest.refl s, L, h⟩
      exact if_pos hc
    | cons f l =>
      cases hfree : s.framesFree (4096 * f) cur with
      | true =>
        obtain ⟨s', L', ha, hinv, hrest, _⟩ := allocAtOrder_accept fuel h hcur hord hL hfree
        exact ⟨_, s', ha, hrest, L', f, rfl, hinv⟩
      | false =>
        have hc := h.count (z, cur) (mem_slots.mpr hcur)
        rw [hL, length_cons] at hc
        obtain ⟨s1, hpop, hinv, htake⟩ := popFreeBlock_cons h hcur hL
        obtain ⟨r, s', ha, hrest, hout⟩ := ih (hinv.drop (sublist_cons_self _ _))
        refine ⟨r, s', ?_, htake.rest.trans hrest, hout⟩
        unfold allocAtOrder
        simp only at hc
        rw [if_neg (by omega), hpop]
        simp only [bind_eq_bind, bind_some]
        rw [framesFree_congr htake.rest, hfree]
        exact ha

theorem allocFromOrders_spec (h : Inv s L held) (order : Nat) {orders : List Nat}
    (ho : ∀ cur ∈ orders, order ≤ cur ∧ cur ≤ MAX_ORDER) :
    ∃ r s', allocFromOrders z order orders s = some (r, s') ∧ SameRest s s' ∧
      Attempt order held r s' := by
  induction orders generalizing s L with
  | nil => exact ⟨none, s, rfl, SameRest.refl s, L, h⟩
  | cons cur orders ih =>
    obtain ⟨hlo, hhi⟩ := ho cur mem_cons_self
    obtain ⟨r, s1, ha, hrest, hout⟩ := allocAtOrder_spec (z := z) h hhi hlo (s.list z cur).count
    simp only [allocFromOrders, ha]
    cases r with
    | some addr => exact ⟨_, s1, rfl, hrest, hout⟩
    | none =>
      obtain ⟨L1, h1⟩ := hout
      obtain ⟨r, s', ha', hrest', hout'⟩ := ih h1 (fun c hc => ho c (mem_cons_of_mem _ hc))
      exact ⟨r, s', ha', hrest.trans hrest', hout'⟩

theorem mem_orders (h : cur ∈ range' order (MAX_ORDER + 1 - order)) : order ≤ cur ∧ cur ≤ MAX_ORDER := by
  rw [mem_range'_1] at h
  omega

/-- The invariant reads the zones and the memory only. -/
theorem Inv.of_eq (h : Inv s L held) (hz : s'.zones = s.zones) (hm : s'.mem = s.mem) : Inv s' L held :=
  h.of_mem_eq (fun z => by rw [hz]; exact ⟨rfl, rfl⟩) (fun z o => by unfold State.list; rw [hz])
    (fun _ _ f _ => by rw [hm])

/-- **`alloc`** returns, and the block it hands out is apart from every held block. -/
theorem alloc_spec (h : Inv s L held) (req : AllocRequest) :
    ∃ r s', alloc s req = some (r, s') ∧ SameRange s s' ∧
      match r with
      | .error _ => ∃ L', Inv s' L' held
      | .ok addr => ∃ L' f, addr = 4096 * f ∧ Inv s' L' (⟨f, req.order⟩ :: held) := by
  unfold alloc
  split
  · exact ⟨_, s, rfl, fun _ => ⟨rfl, rfl⟩, L, h⟩
  generalize zoneOrder req.zone = zs
  induction zs generalizing s L with
  | nil => exact ⟨_, _, rfl, fun _ => ⟨rfl, rfl⟩, L, h.of_eq rfl rfl⟩
  | cons z zs ih =>
    unfold allocInZones
    split
    · exact ih h
    obtain ⟨r, s1, ha, hrest, hout⟩ := allocFromOrders_spec (z := z) h req.order (fun _ => mem_orders)
    simp only [allocFromZone, ha]
    cases r with
    | some addr =>
      obtain ⟨L', f, rfl, hinv⟩ := hout
      exact ⟨_, _, rfl, hrest.range, L', f, rfl, hinv.of_eq rfl rfl⟩
    | none =>
      obtain ⟨L', hinv⟩ := hout
      obtain ⟨r, s', ha', hrest', hout'⟩ := ih hinv
      exact ⟨r, s', ha', hrest.range.trans hrest', hout'⟩

/-! ## Coalescing -/

/-- The frames linked in a free list, read off memory. -/
def freeList (s : State) (z : ZoneType) (o : Nat) : List Nat := Dll.walk (nextOf s) (s.list z o).head (s.list z o).count

theorem Inv.freeList_eq (h : Inv s L held) (ho : o ≤ MAX_ORDER) : freeList s z o = L (z, o) := by
  have hi : (z, o) ∈ slots := mem_slots.mpr ho
  have hc := h.count _ hi
  unfold freeList
  rw [hc]
  exact (h.chain _ hi).walk_eq

/-- **A forged buddy.** Freeing a block around frame `f` would merge it, after merges with linked buddies up
    to order `k`, with a block that is not linked at all but whose bytes pass every check. -/
def ForgedBuddy (s : State) (z : ZoneType) (f order : Nat) : Prop :=
  ∃ k, k < MAX_ORDER ∧ order ≤ k ∧
    (∀ j, j < k → order ≤ j → (around f j).buddy.base ∈ freeList s z j) ∧
    (around f k).buddy.base ∉ freeList s z k ∧
    s.framesFree (4096 * (around f k).buddy.base) k = true ∧
    unlinkAccepts s z k (4096 * (around f k).buddy.base) = true

instance (s : State) (z : ZoneType) (f order : Nat) : Decidable (ForgedBuddy s z f order) :=
  inferInstanceAs (Decidable (∃ k, k < MAX_ORDER ∧ _))

/-- The headers of order `k` and up are as they were. -/
def SameHeaders (s₀ s : State) (k : Nat) : Prop := ∀ x o, k ≤ o → (s.mem x).valid o = true → s.mem x = s₀.mem x

/-- What passes the checks now passed them before. -/
theorem unlinkAccepts_mono {s₀ : State} (hr : SameRest s₀ s) (hl : s.list z o = s₀.list z o)
    (hh : SameHeaders s₀ s o) (h : unlinkAccepts s z o (4096 * f) = true) : unlinkAccepts s₀ z o (4096 * f) = true := by
  unfold unlinkAccepts at h ⊢
  simp only [header_frame, shlFrame_eq, and_eq_true, hl, hr.range.blockInZone] at h ⊢
  obtain ⟨⟨⟨⟨⟨⟨h1, h2⟩, h3⟩, h4⟩, h5⟩, h6⟩, h7⟩ := h
  have e1 := hh f o (le_refl _) h3
  rw [e1] at h3 h4 h5 h6 h7
  have e2 := hh _ o (le_refl _) h5
  rw [e2] at h5 h6
  refine ⟨⟨⟨⟨⟨⟨h1, h2⟩, h3⟩, h4⟩, h5⟩, h6⟩, ?_⟩
  rcases or_eq_true_iff.mp h7 with h0 | hv
  · rw [h0, Bool.true_or]
  · rw [hh _ o (le_refl _) hv] at hv
    rw [hv, Bool.or_true]

theorem cleared_pretends : FreeBlock.cleared.pretends = false := rfl

/-- The buddy of a placed block has an address that fits a machine word. -/
theorem ZoneOk.buddy_lt (h : ZoneOk s z) (hb : Placed s z b) : 4096 * b.buddy.base < 2 ^ 64 := by
  have h1 := h.upper
  have h2 := zone_stop_lt z
  have h3 := hb.upper
  rcases hb.aligned.buddy_cases with ⟨_, he⟩ | ⟨_, _, he⟩ <;> omega

/-- **Where the coalescing loop stands** at order `k`. `s₀` and `L₀` are the state in which the free of frame `f`
    began; the block in hand is the one around `f`, and the buddies up to `k` were linked. -/
structure Coalescing (s₀ : State) (L₀ : Slot → List Nat) (z : ZoneType) (f order : Nat) (held : List Block) (k : Nat)
    (s : State) (L : Slot → List Nat) : Prop where
  inv : Inv s L (around f k :: held)
  placed : Placed s z (around f k)
  start : order ≤ k
  rest : SameRest s₀ s
  lists : ∀ o, k ≤ o → L (z, o) = L₀ (z, o) ∧ s.list z o = s₀.list z o
  headers : SameHeaders s₀ s k
  linked : ∀ j, order ≤ j → j < k → (around f j).buddy.base ∈ L₀ (z, j)
  clean : (s.mem (around f k).base).pretends = false

section Coalescing

variable {s₀ : State} {L₀ : Slot → List Nat}

theorem base_around_succ (f k : Nat) : (around f (k + 1)).base = min (around f k).base (around f k).buddy.base := by
  rw [← merged_around]
  rfl

/-- A linked buddy is taken off its list and merged. -/
theorem Coalescing.merge (h : Coalescing s₀ L₀ z f order held k s L) (hk : k < MAX_ORDER)
    (hmem : (around f k).buddy.base ∈ L (z, k)) :
    ∃ s1 L1, removeFromFreeList s z k (4096 * (around f k).buddy.base) = some (true, s1) ∧ SameRest s s1 ∧
      Coalescing s₀ L₀ z f order held (k + 1) s1 L1 ∧
      SameCells (total L (around f k :: held)) (total L1 (around f (k + 1) :: held)) := by
  have hi : (z, k) ∈ slots := mem_slots.mpr (le_of_lt hk)
  obtain ⟨s1, l, hrem, hperm, hinv, htake⟩ := removeFromFreeList_linked h.inv (le_of_lt hk) hmem
  have hb := htake.rest.range.placed h.placed
  have hbb := htake.rest.range.placed (h.inv.placed _ hi _ hmem)
  have hne : ∀ o, k + 1 ≤ o → ((z, o) : Slot) ≠ (z, k) := fun o ho he => by
    have := congrArg Prod.snd he
    omega
  refine ⟨s1, update L (z, k) l, hrem, htake.rest, ⟨?_, ?_, ?_, ?_, ?_, ?_, ?_, ?_⟩, ?_⟩
  · rw [← merged_around]
    exact Inv.merge hinv hb hbb hk
  · rw [← merged_around]
    exact hb.merged hbb hk
  · exact le_succ_of_le h.start
  · exact h.rest.trans htake.rest
  · intro o ho
    rw [update_of_ne (hne o ho), htake.list _ (hne o ho)]
    exact h.lists o (le_of_succ_le ho)
  · intro x o ho hv
    have he := htake.otherOrder x o (ne_of_gt ho) hv
    rw [he] at hv ⊢
    exact h.headers x o (le_of_succ_le ho) hv
  · intro j hj hjk
    rcases lt_or_eq_of_le (le_of_lt_succ hjk) with hlt | rfl
    · exact h.linked j hj hlt
    · rw [← (h.lists j (le_refl _)).1]
      exact hmem
  · -- the merged block starts at the block freed or at the buddy just cleared
    rw [base_around_succ]
    rcases le_total (around f k).base (around f k).buddy.base with hle | hle
    · rw [min_eq_left hle, htake.unlinked _ (h.inv.unlinked_of_held mem_cons_self base_mem)]
      exact h.clean
    · rw [min_eq_right hle, htake.cleared]
      exact cleared_pretends
  · have hmerge := sameCells_merge (update L (z, k) l) held (aligned_around f k)
    rw [merged_around] at hmerge
    exact (of_perm (perm_remove hi hperm).symm).trans hmerge

/-- **The coalescing loop** merges a held block with linked buddies only, as long as no buddy is forged. -/
theorem coalesce_spec (hfl : ∀ k, k < MAX_ORDER → freeList s₀ z k = L₀ (z, k)) (hforge : ¬ ForgedBuddy s₀ z f order)
    (hn : n + k = MAX_ORDER) (h : Coalescing s₀ L₀ z f order held k s L) :
    ∃ b s' L', coalesce z n s (4096 * (around f k).base) k = some (4096 * b.base, b.order, s') ∧
      Inv s' L' (b :: held) ∧ Placed s' z b ∧ SameRest s s' ∧ (s'.mem b.base).pretends = false ∧
      SameCells (total L (around f k :: held)) (total L' (b :: held)) := by
  induction n generalizing s L k with
  | zero => exact ⟨around f k, s, L, rfl, h.inv, h.placed, SameRest.refl s, h.clean, refl _⟩
  | succ n ih =>
    have hk : k < MAX_ORDER := by omega
    have hstop : ∀ s', Inv s' L (around f k :: held) → SameRest s s' → (s'.mem (around f k).base).pretends = false →
        ∃ b s'' L', some (4096 * (around f k).base, k, s') = some (4096 * b.base, b.order, s'') ∧
          Inv s'' L' (b :: held) ∧ Placed s'' z b ∧ SameRest s s'' ∧
          (s''.mem b.base).pretends = false ∧
          SameCells (total L (around f k :: held)) (total L' (b :: held)) :=
      fun s' hinv hrest hc => ⟨around f k, s', L, rfl, hinv, hrest.range.placed h.placed, hrest, hc, refl _⟩
    have hbuddy : (around f k).base ^^^ 2 ^ k = (around f k).buddy.base := rfl
    unfold coalesce
    simp only [frame_addr, hbuddy, shlFrame_of_lt ((h.inv.zone z).buddy_lt h.placed)]
    iterate 2
      split
      · exact hstop s h.inv (SameRest.refl s) h.clean
    rename_i hfree
    rw [not_eq_false] at hfree
    by_cases hmem : (around f k).buddy.base ∈ L (z, k)
    · obtain ⟨s1, L1, hrem, hrest, hnext, hcells⟩ := h.merge hk hmem
      obtain ⟨b, s', L', hc, hinv', hpl, hrest', hcl, hcells'⟩ := ih (by omega) hnext
      refine ⟨b, s', L', ?_, hinv', hpl, hrest.trans hrest', hcl, hcells.trans hcells'⟩
      rw [hrem]
      simp only [Nat.mul_min_mul_left, ← base_around_succ]
      exact hc
    -- not linked: refused, or forged
    obtain ⟨hL, hl⟩ := h.lists k (le_refl _)
    have hacc : unlinkAccepts s z k (4096 * (around f k).buddy.base) = false := by
      by_contra hc
      rw [not_eq_false] at hc
      refine hforge ⟨k, hk, h.start, fun j hjk hj => ?_, by rwa [hfl k hk, ← hL], by rwa [← framesFree_congr h.rest],
        unlinkAccepts_mono h.rest hl h.headers hc⟩
      rw [hfl j (lt_trans hjk hk)]
      exact h.linked j hj hjk
    obtain ⟨s1, hrem, hinv, hrest, hsame⟩ := removeFromFreeList_unlinked h.inv (le_of_lt hk) hmem hacc
    rw [hrem]
    exact hstop s1 hinv hrest (by rw [hsame _ h.clean]; exact h.clean)

end Coalescing

/-! ## `free` -/

/-- **`free_to_zone`** of a held block puts its frames back on the lists. The block is lost when the bytes its
    owner left in the first frame pretend to be a linked header. -/
theorem freeToZone_spec (h : Inv s L (b :: held)) (hb : Placed s z b) (hforge : ¬ ForgedBuddy s z b.base b.order) :
    ((s.mem b.base).pretends = true ∧ freeToZone s z (4096 * b.base) b.order = some s) ∨
    ((s.mem b.base).pretends = false ∧ ∃ s' L', freeToZone s z (4096 * b.base) b.order = some s' ∧
      Inv s' L' held ∧ SameRest s s' ∧ SameCells (total L (b :: held)) (total L' held)) := by
  have hu : Unlinked L b.base := h.unlinked_of_held mem_cons_self base_mem
  have hb0 : 4096 * b.base ≠ 0 := by have := hb.ne_zero; omega
  unfold freeToZone
  rw [if_neg hb0, h.looksLinked_eq hu hb.ne_zero]
  cases hpr : (s.mem b.base).pretends with
  | true => exact .inl ⟨rfl, if_pos rfl⟩
  | false =>
    refine .inr ⟨rfl, ?_⟩
    rw [if_neg (by simp)]
    have hfl : ∀ k, k < MAX_ORDER → freeList s z k = L (z, k) := fun k hk => h.freeList_eq (le_of_lt hk)
    have haround : around b.base b.order = b := hb.aligned.around_of_mem base_mem
    have hstart : Coalescing s L z b.base b.order held b.order s L :=
      ⟨by rwa [haround], by rwa [haround], le_refl _, SameRest.refl s, fun _ _ => ⟨rfl, rfl⟩, fun _ _ _ _ => rfl,
        fun j hj hjk => absurd hjk (not_lt.mpr hj), by rwa [haround]⟩
    obtain ⟨c, s1, L1, hco, hinv, hpl, hrest, hcl, hcells⟩ := coalesce_spec hfl hforge
      (Nat.sub_add_cancel hb.order) hstart
    rw [haround] at hco hcells
    rcases addFreeBlock_spec hinv hpl with ⟨hpr', _⟩ | ⟨_, s', hadd, hinv', hrest', _⟩
    · rw [hcl] at hpr'
      exact Bool.noConfusion hpr'
    refine ⟨s', _, ?_, hinv', hrest.trans hrest', hcells.trans (of_perm ?_)⟩
    · rw [hco]
      simp [hadd]
    · exact (perm_add _ _ _ hpl.order).symm

/-- The frames of the buddy blocks are not those of the block freed. -/
theorem framesFree_markFree (hb : b.Aligned) (hk : b.order ≤ k) :
    (s.markFree (4096 * b.base) b.order).framesFree (4096 * (around b.base k).buddy.base) k =
      s.framesFree (4096 * (around b.base k).buddy.base) k := by
  unfold State.framesFree State.markFree
  cases s.pagedb with
  | none => rfl
  | some db =>
    obtain ⟨hc, hx⟩ := db.markRange_put PageFrame.new b.base _
    refine PageDatabase.allFree_congr hc (fun x h1 h2 => ?_)
    refine (hx x).trans (if_neg ?_)
    rintro ⟨h3, h4, _⟩
    have hin : x ∈ around b.base k := by
      refine around_mono hk ?_
      rw [hb.around_of_mem base_mem]
      exact ⟨h3, h4⟩
    exact apart_iff.mp (aligned_around b.base k).apart_buddy x hin ⟨h1, h2⟩

/-- Marking the block free in the page database forges nothing. -/
theorem ForgedBuddy.of_markFree (hb : b.Aligned)
    (h : ForgedBuddy (s.markFree (4096 * b.base) b.order) z b.base b.order) : ForgedBuddy s z b.base b.order := by
  obtain ⟨k, h1, h2, h3, h4, h5, h6⟩ := h
  exact ⟨k, h1, h2, h3, h4, by rwa [framesFree_markFree hb h2] at h5, h6⟩

/-- **`free`** of a held block returns, and keeps the invariant for what is still held. -/
theorem free_spec (h : Inv s L (b :: held)) (hb : Placed s z b) (hforge : ¬ ForgedBuddy s z b.base b.order) :
    ∃ r s' L', free s (4096 * b.base) b.order = some (r, s') ∧ SameRange s s' ∧ Inv s' L' held := by
  have hdrop : Inv s L held := h.drop (sublist_cons_self _ _)
  unfold free
  rw [if_neg (not_lt.mpr hb.order), if_neg (by simp)]
  iterate 2
    split
    · exact ⟨_, s, L, rfl, fun _ => ⟨rfl, rfl⟩, hdrop⟩
  simp only [(h.zone z).forAddress_placed hb]
  split
  · exact ⟨_, s, L, rfl, fun _ => ⟨rfl, rfl⟩, hdrop⟩
  have hm : Inv (s.markFree (4096 * b.base) b.order) L (b :: held) := h.of_eq rfl rfl
  have hbm : Placed (s.markFree (4096 * b.base) b.order) z b := ⟨hb.1, hb.2, hb.3, hb.4, hb.5⟩
  rcases freeToZone_spec hm hbm (mt (ForgedBuddy.of_markFree hb.aligned) hforge) with
    ⟨_, hf⟩ | ⟨_, s', L', hf, hinv, hrest, _⟩
  · rw [hf]
    exact ⟨_, _, L, rfl, fun _ => ⟨rfl, rfl⟩, hdrop.of_eq rfl rfl⟩
  · rw [hf]
    exact ⟨_, _, L', rfl, hrest.range, hinv.of_eq rfl rfl⟩

end OxideOs.Buddy
