import Mathlib

/-!
# `Lib.SliceSearch` — binary search over a slice with a three-way comparator

Rust's `slice::binary_search_by` and `slice::partition_point`: the window `[base, base + size)` is halved
until one element is left, and only that element's comparison decides the answer. The comparator need not
be injective, so the contract is in terms of the comparison results: along the slice they must go
`lt … lt eq … eq gt … gt` (`Ordered`).
-/

namespace OxideOs.SliceSearch

open List Option

variable {α : Type _}

/-- The halving loop. `gt i` says that element `i` compares greater; `fuel` bounds the number of rounds
    and the length of the slice is always enough. -/
def halve (gt : Nat → Bool) : (fuel base size : Nat) → Nat
  | 0, base, _ => base
  | fuel + 1, base, size =>
    if 1 < size then
      let mid := base + size / 2
      halve gt fuel (if gt mid then base else mid) (size - size / 2)
    else base

/-- Element `i` exists and compares greater. -/
def isGt (f : α → Ordering) (l : List α) (i : Nat) : Bool := l[i]?.map f == some .gt

/-- `binary_search_by`: `ok i` when element `i` compares equal, else `error i` with the insertion point. -/
def binarySearchBy (l : List α) (f : α → Ordering) : Except Nat Nat :=
  let base := halve (isGt f l) l.length 0 l.length
  match l[base]?.map f with
  | none => .error 0
  | some .eq => .ok base
  | some .lt => .error (base + 1)
  | some .gt => .error base

/-- `partition_point`: the length of the prefix on which `p` holds. -/
def partitionPoint (l : List α) (p : α → Bool) : Nat :=
  match binarySearchBy l (fun x => if p x then .lt else .gt) with
  | .ok i => i
  | .error i => i

/-- Along the slice the comparison results never go down. -/
def Ordered (f : α → Ordering) (l : List α) : Prop :=
  l.Pairwise (fun a b => (f a = .gt → f b = .gt) ∧ (f b = .lt → f a = .lt))

/-! ## The loop -/

variable {f : α → Ordering} {l : List α} {i : Nat}

/-- **The halving loop ends on the last element that is not greater** (or on the first of the window).
    The invariant: everything from `base + size` on is greater, and `base` is the window's start `lo` or
    not greater itself. -/
theorem halve_spec {gt : Nat → Bool} {n : Nat} (lo : Nat) (hmono : ∀ i j, i ≤ j → j < n → gt i → gt j) :
    ∀ (fuel base size : Nat), size ≤ fuel + 1 → 0 < size → base + size ≤ n →
      (base = lo ∨ gt base = false) → (∀ i, base + size ≤ i → i < n → gt i) →
      let r := halve gt fuel base size
      base ≤ r ∧ r < base + size ∧ (r = lo ∨ gt r = false) ∧ ∀ i, r < i → i < n → gt i := by
  intro fuel
  induction fuel with
  | zero =>
    intro base size hf hs hn hb hafter
    have h1 : size = 1 := by omega
    subst h1
    exact ⟨le_refl _, by simp [halve], hb, hafter⟩
  | succ k ih =>
    intro base size hf hs hn hb hafter
    unfold halve
    by_cases hlt : 1 < size
    · simp only [hlt, if_true]
      by_cases hg : gt (base + size / 2) = true
      · simp only [hg, if_true]
        have h := ih base (size - size / 2) (by omega) (by omega) (by omega) hb
          (fun i hi hin => hmono _ i (by omega) hin hg)
        exact ⟨h.1, by omega, h.2.2⟩
      have hg' : gt (base + size / 2) = false := by simpa using hg
      simp only [hg', Bool.false_eq_true, if_false]
      have h := ih _ (size - size / 2) (by omega) (by omega) (by omega)
        (.inr hg') (fun i hi hin => hafter i (by omega) hin)
      exact ⟨by omega, by omega, h.2.2⟩
    · simp only [hlt, if_false]
      exact ⟨le_refl _, by omega, hb, fun i hi => hafter i (by omega)⟩

/-! ## The search -/

theorem isGt_eq_true (hi : i < l.length) : isGt f l i = true ↔ f l[i] = .gt := by
  simp [isGt, getElem?_eq_getElem hi]

theorem Ordered.gt_mono (h : Ordered f l) : ∀ i j, i ≤ j → j < l.length → isGt f l i = true → isGt f l j = true := by
  intro i j hij hj hi
  rcases lt_or_eq_of_le hij with hlt | rfl
  · have hil : i < l.length := by omega
    rw [isGt_eq_true hj]
    rw [isGt_eq_true hil] at hi
    exact (pairwise_iff_getElem.mp h i j hil hj hlt).1 hi
  · exact hi

/-- Where the loop stops on a nonempty slice. -/
theorem halve_stops (h : Ordered f l) (hl : 0 < l.length) :
    let r := halve (isGt f l) l.length 0 l.length
    ∃ hr : r < l.length, (r = 0 ∨ f l[r] ≠ .gt) ∧ ∀ i (hi : i < l.length), r < i → f l[i] = .gt := by
  have hs := halve_spec 0 h.gt_mono l.length 0 l.length (by omega) hl (by omega) (.inl rfl) (fun i _ h2 => by omega)
  obtain ⟨_, h2, h3, h4⟩ := hs
  refine ⟨by omega, ?_, ?_⟩
  · rcases h3 with h3 | h3
    · exact .inl h3
    right
    intro hgt
    rw [← isGt_eq_true (by omega), h3] at hgt
    cases hgt
  · intro i hi hri
    exact (isGt_eq_true hi).mp (h4 i hri hi)

/-- **A hit is a hit**: the index returned compares equal. -/
theorem binarySearchBy_ok (h : binarySearchBy l f = .ok i) : ∃ hi : i < l.length, f l[i] = .eq := by
  simp only [binarySearchBy] at h
  split at h <;> simp only [Except.ok.injEq, reduceCtorEq] at h
  rename_i heq
  subst h
  obtain ⟨x, hx, hfx⟩ := map_eq_some_iff.mp heq
  obtain ⟨hi, rfl⟩ := List.getElem?_eq_some_iff.mp hx
  exact ⟨hi, hfx⟩

/-- **A miss is a miss, and names the insertion point**: nothing compares equal, what is before the index
    compares less, and the rest greater. -/
theorem binarySearchBy_error (ho : Ordered f l) (h : binarySearchBy l f = .error i) :
    i ≤ l.length ∧ (∀ j (hj : j < l.length), j < i → f l[j] = .lt) ∧
      ∀ j (hj : j < l.length), i ≤ j → f l[j] = .gt := by
  rcases eq_zero_or_pos l.length with h0 | hpos
  · have hl : l = [] := length_eq_zero_iff.mp h0
    subst hl
    simp only [binarySearchBy, getElem?_nil, map_none, Except.error.injEq] at h
    subst h
    exact ⟨le_refl _, by simp, by simp⟩
  obtain ⟨hr, h0, hafter⟩ := halve_stops ho hpos
  simp only [binarySearchBy, getElem?_eq_getElem hr, map_some] at h
  -- before the stop everything is `lt` as soon as the stop is
  have hbefore : f l[halve (isGt f l) l.length 0 l.length] = .lt →
      ∀ j (hj : j < l.length), j ≤ halve (isGt f l) l.length 0 l.length → f l[j] = .lt := by
    intro hlt j hj hjr
    rcases lt_or_eq_of_le hjr with hjr | hjr
    · exact (pairwise_iff_getElem.mp ho j _ hj hr hjr).2 hlt
    · simp only [hjr]; exact hlt
  cases hc : f l[halve (isGt f l) l.length 0 l.length] with
  | eq => rw [hc] at h; simp at h
  | lt =>
    rw [hc] at h
    simp only [Except.error.injEq] at h
    refine ⟨by omega, fun j hj hji => hbefore hc j hj (by omega), fun j hj hij => ?_⟩
    exact hafter j hj (by omega)
  | gt =>
    rw [hc] at h
    simp only [Except.error.injEq] at h
    have hz : halve (isGt f l) l.length 0 l.length = 0 := by
      rcases h0 with h0 | h0
      · exact h0
      · exact absurd hc h0
    refine ⟨by omega, fun j hj hji => by omega, fun j hj hij => ?_⟩
    rcases eq_zero_or_pos j with rfl | _
    · simpa only [hz] using hc
    · exact hafter j hj (by omega)

/-- **A search misses only when nothing compares equal.** -/
theorem binarySearchBy_complete (ho : Ordered f l) {x : α}
    (hx : x ∈ l) (hfx : f x = .eq) : ∃ i, binarySearchBy l f = .ok i := by
  cases h : binarySearchBy l f with
  | ok i => exact ⟨i, rfl⟩
  | error i =>
    obtain ⟨_, hlt, hgt⟩ := binarySearchBy_error ho h
    obtain ⟨j, hj, rfl⟩ := getElem_of_mem hx
    rcases lt_or_ge j i with hji | hij
    · rw [hlt j hj hji] at hfx; exact absurd hfx (by simp)
    · rw [hgt j hj hij] at hfx; exact absurd hfx (by simp)

/-- **`partition_point` splits the slice**: `p` holds before it and fails from it on. -/
theorem partitionPoint_spec {p : α → Bool} (hp : l.Pairwise (fun a b => p b = true → p a = true)) :
    partitionPoint l p ≤ l.length ∧
      (∀ j (hj : j < l.length), j < partitionPoint l p → p l[j] = true) ∧
      ∀ j (hj : j < l.length), partitionPoint l p ≤ j → p l[j] = false := by
  have ho : Ordered (fun x => if p x then Ordering.lt else .gt) l := by
    refine hp.imp ?_
    intro a b _
    cases ha : p a <;> cases hb : p b <;> simp_all
  unfold partitionPoint
  cases h : binarySearchBy l (fun x => if p x then Ordering.lt else .gt) with
  | ok i =>
    obtain ⟨_, he⟩ := binarySearchBy_ok h
    cases hpi : p l[i] <;> simp at he
  | error i =>
    obtain ⟨hle, hlt, hgt⟩ := binarySearchBy_error ho h
    refine ⟨hle, fun j hj hji => ?_, fun j hj hij => ?_⟩
    · have := hlt j hj hji
      by_contra hn
      simp [hn] at this
    have := hgt j hj hij
    by_contra hn
    simp [hn] at this

end OxideOs.SliceSearch
