import Mathlib

/-!
# `Lib.Radix` — radix trees laid out in memory

A table at an address holds one entry for each index; an entry may point to a child table. The tree below a
root has tables at all depths up to `depth`; the entries of the deepest tables are the leaves. `node` follows
a path of indices (the last index first), `leaf` reads the entry at its end.

In a `Tree` no two paths lead to one table. Then a write to a deepest table changes one leaf and nothing else
(`leaf_write`), and hanging a blank table at a fresh address into the tree changes no leaf but for those that
become blank (`leaf_grow`).
-/

namespace OxideOs.Radix

open Function Option

variable {A I E : Type _} [DecidableEq A] [DecidableEq I]

/-- Memory with one entry overwritten. -/
def write (mem : A → I → E) (t : A) (i : I) (e : E) : A → I → E := update mem t (update (mem t) i e)

theorem write_same (mem : A → I → E) (t : A) (i : I) (e : E) : write mem t i e t i = e := by
  rw [write, update_self, update_self]

theorem write_other {mem : A → I → E} {t t' : A} {i j : I} {e : E} (h : ¬ (t' = t ∧ j = i)) :
    write mem t i e t' j = mem t' j := by
  unfold write
  by_cases ht : t' = t
  · subst ht
    rw [update_self, update_of_ne (fun hj => h ⟨rfl, hj⟩)]
  · rw [update_of_ne ht]

variable (child : E → Option A)

/-- The table at the end of a path. -/
def node (mem : A → I → E) (root : A) : List I → Option A
  | [] => some root
  | i :: p => (node mem root p).bind (fun t => child (mem t i))

/-- The entry at the end of a path. -/
def leaf (mem : A → I → E) (root : A) : List I → Option E
  | [] => none
  | i :: p => (node child mem root p).map (fun t => mem t i)

/-- No two paths of at most `depth` indices lead to one table. -/
def Tree (mem : A → I → E) (root : A) (depth : Nat) : Prop :=
  ∀ p q t, p.length ≤ depth → q.length ≤ depth → node child mem root p = some t →
    node child mem root q = some t → p = q

variable {child} {mem : A → I → E} {root t f : A} {depth : Nat} {p q : List I} {i : I} {e : E}

/-! ## Writing a leaf -/

section

variable (h : Tree child mem root depth)
include h

section

variable (hp : p.length = depth) (ht : node child mem root p = some t)
include hp ht

/-- A write to a deepest table moves no table. -/
theorem node_write (hq : q.length ≤ depth) : node child (write mem t i e) root q = node child mem root q := by
  induction q with
  | nil => rfl
  | cons j q ih =>
    have hlt : q.length < depth := hq
    simp only [node, ih (le_of_lt hlt)]
    cases hn : node child mem root q with
    | none => rfl
    | some t' =>
      -- the table read is not a deepest one
      have hne : t' ≠ t := by
        rintro rfl
        have hpq := h p q t' (le_of_eq hp) (le_of_lt hlt) ht hn
        rw [hpq] at hp
        exact absurd hp (ne_of_lt hlt)
      simp [write_other (fun hc => hne hc.1)]

theorem Tree.write : Tree child (write mem t i e) root depth := by
  intro q r t' hq hr hqt hrt
  rw [node_write h hp ht hq] at hqt
  rw [node_write h hp ht hr] at hrt
  exact h q r t' hq hr hqt hrt

/-- **A write to a deepest table changes one leaf.** -/
theorem leaf_write {j : I} (hq : q.length = depth) :
    leaf child (Radix.write mem t i e) root (j :: q) =
      if j :: q = i :: p then some e else leaf child mem root (j :: q) := by
  simp only [leaf, node_write h hp ht (le_of_eq hq)]
  split
  next heq =>
    cases heq
    rw [ht, map_some, write_same]
  rename_i hne
  cases hn : node child mem root q with
  | none => rfl
  | some t' =>
    rw [map_some, map_some, write_other]
    rintro ⟨rfl, rfl⟩
    exact hne (by rw [h q p t' (le_of_eq hq) (le_of_eq hp) hn ht])

end

end

/-! ## Hanging in a table -/

/-- No table of the tree lies at `f`. -/
def Fresh (child : E → Option A) (mem : A → I → E) (root : A) (depth : Nat) (f : A) : Prop :=
  ∀ q, q.length ≤ depth → node child mem root q ≠ some f

/-- A blank table is put at `f`, and an entry that points to it into slot `i` of `t`. -/
def grow (mem : A → I → E) (t : A) (i : I) (e : E) (f : A) (blank : I → E) : A → I → E :=
  Radix.write (update mem f blank) t i e

variable {blank : I → E}

section

variable (h : Tree child mem root depth) (hp : p.length < depth) (ht : node child mem root p = some t)
    (hnone : child (mem t i) = none) (hf : Fresh child mem root depth f) (he : child e = some f)
    (hblank : ∀ j, child (blank j) = none)
include h hp ht hnone hf he hblank

/-- **One more table.** The path through the filled slot leads to the new table, all others are as before. -/
theorem node_grow (hq : q.length ≤ depth) :
    node child (grow mem t i e f blank) root q = if q = i :: p then some f else node child mem root q := by
  have htf : t ≠ f := fun heq => hf p (le_of_lt hp) (heq ▸ ht)
  induction q with
  | nil => rw [if_neg (List.cons_ne_nil i p).symm]; rfl
  | cons j q ih =>
    have hlt : q.length < depth := hq
    simp only [node, ih (le_of_lt hlt)]
    by_cases hqp : q = i :: p
    · -- below the new table there is nothing, and there was nothing before
      have hold : node child mem root q = none := by
        rw [hqp, node, ht, bind_some, hnone]
      have hnew : grow mem t i e f blank f j = blank j := by
        rw [grow, write_other (fun hc => htf hc.1.symm), update_self]
      have hne : j :: q ≠ i :: p := by
        intro heq
        have hlen := congrArg List.length (List.cons.inj heq).2
        rw [hqp] at hlen
        exact absurd hlen (Nat.succ_ne_self _)
      rw [if_pos hqp, if_neg hne, hold, bind_some, hnew, hblank]
      rfl
    rw [if_neg hqp]
    cases hn : node child mem root q with
    | none =>
      have hne : j :: q ≠ i :: p := by
        intro heq
        rw [(List.cons.inj heq).2, ht] at hn
        cases hn
      rw [if_neg hne]
      rfl
    | some t' =>
      have htf' : t' ≠ f := fun heq => hf q (le_of_lt hlt) (heq ▸ hn)
      rw [bind_some, bind_some]
      by_cases hslot : t' = t ∧ j = i
      · obtain ⟨rfl, rfl⟩ := hslot
        have hqp' : q = p := h q p t' (le_of_lt hlt) (le_of_lt hp) hn ht
        rw [if_pos (by rw [hqp']), grow, write_same, he]
      have hne : j :: q ≠ i :: p := by
        intro heq
        obtain ⟨hj, hqp'⟩ := List.cons.inj heq
        rw [hqp', ht] at hn
        exact hslot ⟨(some.inj hn).symm, hj⟩
      rw [if_neg hne, grow, write_other hslot, update_of_ne htf']

theorem Tree.grow : Tree child (grow mem t i e f blank) root depth := by
  intro q r t' hq hr hqt hrt
  rw [node_grow h hp ht hnone hf he hblank hq] at hqt
  rw [node_grow h hp ht hnone hf he hblank hr] at hrt
  split at hqt
  next hqp =>
    cases hqt
    split at hrt
    next hrp =>
      rw [hqp, hrp]
    · exact absurd hrt (hf r hr)
  · split at hrt
    · cases hrt
      exact absurd hqt (hf q hq)
    · exact h q r t' hq hr hqt hrt

/-- **Hanging in a blank table** gives blank leaves where there were none, and changes no other leaf. -/
theorem leaf_grow {j : I} (hq : q.length = depth) :
    leaf child (Radix.grow mem t i e f blank) root (j :: q) =
      if q = i :: p then some (blank j) else leaf child mem root (j :: q) := by
  have htf : t ≠ f := fun heq => hf p (le_of_lt hp) (heq ▸ ht)
  simp only [leaf, node_grow h hp ht hnone hf he hblank (le_of_eq hq)]
  split
  · rw [map_some, grow, write_other (fun hc => htf hc.1.symm), update_self]
  cases hn : node child mem root q with
  | none => rfl
  | some t' =>
    have htf' : t' ≠ f := fun heq => hf q (le_of_eq hq) (heq ▸ hn)
    -- the table written to lies above the deepest ones
    have htt : t' ≠ t := by
      rintro rfl
      have hqp := h q p t' (le_of_eq hq) (le_of_lt hp) hn ht
      rw [hqp] at hq
      exact absurd hq (ne_of_lt hp)
    rw [map_some, map_some, grow, write_other (fun hc => htt hc.1), update_of_ne htf']

end

omit [DecidableEq A] [DecidableEq I] in
/-- Where the new leaves appear there was no leaf. -/
theorem leaf_grow_none (ht : node child mem root p = some t) (hnone : child (mem t i) = none) {j : I} :
    leaf child mem root (j :: i :: p) = none := by
  simp only [leaf, node, ht, bind_some, hnone, map_none]

/-! ## Entries above the leaves -/

/-- All entries of the tables above the deepest ones satisfy `P`. -/
def Interior (child : E → Option A) (mem : A → I → E) (root : A) (depth : Nat) (P : E → Prop) : Prop :=
  ∀ q t j, q.length < depth → node child mem root q = some t → P (mem t j)

variable {P : E → Prop}

theorem Interior.write (h : Tree child mem root depth) (hi : Interior child mem root depth P)
    (hp : p.length = depth) (ht : node child mem root p = some t) :
    Interior child (Radix.write mem t i e) root depth P := by
  intro q t' j hq hn
  rw [node_write h hp ht (le_of_lt hq)] at hn
  have hne : t' ≠ t := by
    rintro rfl
    have hqp := h q p t' (le_of_lt hq) (le_of_eq hp) hn ht
    rw [hqp] at hq
    exact absurd hp (ne_of_lt hq)
  rw [write_other (fun hc => hne hc.1)]
  exact hi q t' j hq hn

theorem Interior.grow (h : Tree child mem root depth) (hi : Interior child mem root depth P)
    (hp : p.length < depth) (ht : node child mem root p = some t) (hnone : child (mem t i) = none)
    (hf : Fresh child mem root depth f) (he : child e = some f) (hblank : ∀ j, child (blank j) = none)
    (hPe : P e) (hPb : ∀ j, P (blank j)) : Interior child (Radix.grow mem t i e f blank) root depth P := by
  have htf : t ≠ f := fun heq => hf p (le_of_lt hp) (heq ▸ ht)
  intro q t' j hq hn
  rw [node_grow h hp ht hnone hf he hblank (le_of_lt hq)] at hn
  unfold Radix.grow
  split at hn
  · cases hn
    rw [write_other (fun hc => htf hc.1.symm), update_self]
    exact hPb j
  have htf' : t' ≠ f := fun heq => hf q (le_of_lt hq) (heq ▸ hn)
  by_cases hslot : t' = t ∧ j = i
  · obtain ⟨rfl, rfl⟩ := hslot
    rw [write_same]
    exact hPe
  · rw [write_other hslot, update_of_ne htf']
    exact hi q t' j hq hn

end OxideOs.Radix
