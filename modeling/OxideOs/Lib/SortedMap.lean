import Mathlib

/-!
# `Lib.SortedMap` — a finite map kept as a sorted list of entries

The entries stand in the order of their keys, each key once; that is part of the type. Iterating over the map is
iterating over the list. `get` answers for one key what `entries` says for all of them (`mem_entries`).
-/

namespace OxideOs

open List Prod

/-- A finite map from `κ` to `ν`, listed by key. -/
structure SortedMap (κ ν : Type) [LinearOrder κ] where
  entries : List (κ × ν)
  sorted : entries.Pairwise (fun a b => a.1 < b.1)

namespace SortedMap

variable {κ ν : Type} [LinearOrder κ]

def empty : SortedMap κ ν := { entries := [], sorted := Pairwise.nil }

/-- Put an entry where it belongs, in place of the entry with the same key if there is one. -/
def place (k : κ) (v : ν) : List (κ × ν) → List (κ × ν)
  | [] => [(k, v)]
  | e :: l => if k < e.1 then (k, v) :: e :: l else if k = e.1 then (k, v) :: l else e :: place k v l

theorem mem_place {k : κ} {v : ν} {l : List (κ × ν)} {e : κ × ν} (h : e ∈ place k v l) : e = (k, v) ∨ e ∈ l := by
  induction l with
  | nil => exact .inl (mem_singleton.mp h)
  | cons d l ih =>
    unfold place at h
    split at h
    · exact mem_cons.mp h
    split at h
    · rcases mem_cons.mp h with h | h
      · exact .inl h
      · exact .inr (mem_cons_of_mem d h)
    rcases mem_cons.mp h with rfl | h
    · exact .inr mem_cons_self
    rcases ih h with h | h
    · exact .inl h
    · exact .inr (mem_cons_of_mem d h)

theorem place_sorted (k : κ) (v : ν) {l : List (κ × ν)} (h : l.Pairwise (fun a b => a.1 < b.1)) :
    (place k v l).Pairwise (fun a b => a.1 < b.1) := by
  induction l with
  | nil => exact pairwise_singleton _ _
  | cons d l ih =>
    obtain ⟨hd, hl⟩ := pairwise_cons.mp h
    unfold place
    split
    next hlt =>
      exact pairwise_cons.mpr ⟨forall_mem_cons.mpr ⟨hlt, fun e he => lt_trans hlt (hd e he)⟩, h⟩
    rename_i hge
    split
    next heq =>
      exact pairwise_cons.mpr ⟨fun e he => heq ▸ hd e he, hl⟩
    rename_i hne
    have hlt : d.1 < k := lt_of_le_of_ne (not_lt.mp hge) (symm hne)
    refine pairwise_cons.mpr ⟨fun e he => ?_, ih hl⟩
    rcases mem_place he with rfl | he
    · exact hlt
    · exact hd e he

def insert (m : SortedMap κ ν) (k : κ) (v : ν) : SortedMap κ ν :=
  { entries := place k v m.entries, sorted := place_sorted k v m.sorted }

def remove (m : SortedMap κ ν) (k : κ) : SortedMap κ ν :=
  { entries := m.entries.filter (fun e => e.1 ≠ k), sorted := m.sorted.filter _ }

/-- Keep the entries whose value passes. -/
def retain (m : SortedMap κ ν) (p : ν → Bool) : SortedMap κ ν :=
  { entries := m.entries.filter (fun e => p e.2), sorted := m.sorted.filter _ }

def size (m : SortedMap κ ν) : Nat := m.entries.length

def get (m : SortedMap κ ν) (k : κ) : Option ν := (m.entries.find? (fun e => e.1 = k)).map snd

variable {m : SortedMap κ ν} {k k' : κ} {v v' : ν}

/-- Each key has one entry. -/
theorem entry_unique (h : (k, v) ∈ m.entries) (h' : (k, v') ∈ m.entries) : v = v' := by
  have hkeys : (m.entries.map fst).Nodup := pairwise_map.mpr (m.sorted.imp ne_of_lt)
  exact congrArg snd (inj_on_of_nodup_map hkeys h h' rfl)

theorem mem_entries : (k, v) ∈ m.entries ↔ m.get k = some v := by
  unfold get
  constructor
  · intro h
    cases hf : m.entries.find? (fun e => e.1 = k) with
    | none => simpa using find?_eq_none.mp hf (k, v) h
    | some e =>
      have hk : e.1 = k := by simpa using find?_some hf
      have he : (k, e.2) ∈ m.entries := hk ▸ mem_of_find?_eq_some hf
      exact congrArg some (entry_unique he h)
  · intro h
    obtain ⟨e, hf, rfl⟩ := Option.map_eq_some_iff.mp h
    have hk : e.1 = k := by simpa using find?_some hf
    exact hk ▸ mem_of_find?_eq_some hf

theorem find_place_self (k : κ) (v : ν) (l : List (κ × ν)) : (place k v l).find? (fun e => e.1 = k) = some (k, v) := by
  induction l with
  | nil => simp [place]
  | cons d l ih =>
    unfold place
    split
    · simp
    split
    · simp
    next hne =>
      rw [find?_cons_of_neg (by simpa using Ne.symm hne), ih]

theorem find_place_ne (v : ν) (l : List (κ × ν)) (h : k' ≠ k) :
    (place k v l).find? (fun e => e.1 = k') = l.find? (fun e => e.1 = k') := by
  induction l with
  | nil => simp [place, symm h]
  | cons d l ih =>
    unfold place
    split
    · rw [find?_cons_of_neg (by simpa using symm h)]
    split
    next heq =>
      rw [find?_cons_of_neg (by simpa using symm h), find?_cons_of_neg (by simpa [← heq] using symm h)]
    · rw [find?_cons, find?_cons, ih]

@[simp] theorem get_insert_self (m : SortedMap κ ν) (k : κ) (v : ν) : (m.insert k v).get k = some v :=
  congrArg (Option.map snd) (find_place_self k v m.entries)

theorem get_insert_ne (m : SortedMap κ ν) (v : ν) (h : k' ≠ k) : (m.insert k v).get k' = m.get k' :=
  congrArg (Option.map snd) (find_place_ne v m.entries h)

theorem get_remove_ne (m : SortedMap κ ν) (h : k' ≠ k) : (m.remove k).get k' = m.get k' := by
  refine Option.ext fun v => ?_
  rw [← mem_entries, ← mem_entries]
  exact ⟨fun hm => (mem_filter.mp hm).1, fun hm => mem_filter.mpr ⟨hm, by simpa using h⟩⟩

theorem get_retain (m : SortedMap κ ν) (p : ν → Bool) :
    (m.retain p).get k = some v ↔ m.get k = some v ∧ p v = true := by
  rw [← mem_entries, ← mem_entries]
  exact mem_filter

end SortedMap
end OxideOs
