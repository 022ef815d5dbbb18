import Mathlib

/-!
# `Lib.Bytes` — computations that may panic, and bytes read from a buffer

`Checked` is the monad of code that stops when it indexes out of range, divides by zero or subtracts below zero.
A computation is specified by `Sat`: it does not panic, and its result has the given property. `Sat.bind` runs
a specification along a sequence of steps, and `Sat.ite` into both branches of a test.
-/

namespace OxideOs

abbrev Byte := BitVec 8

/-- Why a computation stopped. -/
inductive Panic where
  | outOfBounds
  | divideByZero
  | subtractOverflow
  /-- An addition or a negation left the range of its type. -/
  | overflow
  /-- A lock is taken by the thread that holds it. -/
  | selfDeadlock
  /-- A pointer is read that is not aligned for its type. -/
  | misaligned
  /-- An address is read that is not mapped. -/
  | pageFault
  /-- The allocator cannot serve a request. -/
  | outOfMemory
  deriving DecidableEq

abbrev Checked (α : Type) := Except Panic α

namespace Checked

variable {α β : Type}

/-- `a - b` -/
def sub (a b : Nat) : Checked Nat := if b ≤ a then .ok (a - b) else .error .subtractOverflow

/-- `a + b` as `usize` -/
def add (a b : Nat) : Checked Nat := if a + b < 2 ^ 64 then .ok (a + b) else .error .overflow

/-- `a + b` as `u32` -/
def add32 (a b : Nat) : Checked Nat := if a + b < 2 ^ 32 then .ok (a + b) else .error .overflow

/-- `a + b` of unsigned words -/
def addWord {w : Nat} (a b : BitVec w) : Checked (BitVec w) :=
  if a.toNat + b.toNat < 2 ^ w then .ok (a + b) else .error .overflow

/-- `a % b` -/
def mod (a b : Nat) : Checked Nat := if b = 0 then .error .divideByZero else .ok (a % b)

/-- `-a` as `i64` -/
def neg (a : BitVec 64) : Checked (BitVec 64) := if a = BitVec.intMin 64 then .error .overflow else .ok (-a)

/-- `a / b` -/
def div {w : Nat} (a b : BitVec w) : Checked (BitVec w) := if b = 0 then .error .divideByZero else .ok (a / b)

/-- `l[i]` -/
def get (l : List α) (i : Nat) : Checked α :=
  match l[i]? with
  | some x => .ok x
  | none => .error .outOfBounds

/-- `l[start..stop]` -/
def slice (l : List α) (start stop : Nat) : Checked (List α) :=
  if start ≤ stop ∧ stop ≤ l.length then .ok ((l.take stop).drop start) else .error .outOfBounds

/-- `u16::from_be_bytes` of the bytes from `i` on. -/
def be16 (l : List Byte) (i : Nat) : Checked (BitVec 16) := do
  let a ← get l i
  let b ← get l (i + 1)
  .ok (a ++ b)

/-- `u32::from_be_bytes` of the bytes from `i` on. -/
def be32 (l : List Byte) (i : Nat) : Checked (BitVec 32) := do
  let a ← be16 l i
  let b ← be16 l (i + 2)
  .ok (a ++ b)

/-! ## Specifications -/

/-- The computation does not panic, and its result has the property. -/
def Sat (x : Checked α) (P : α → Prop) : Prop := ∃ a, x = .ok a ∧ P a

/-- The computation does not panic. -/
def Safe (x : Checked α) : Prop := x.Sat (fun _ => True)

variable {x : Checked α} {f : α → Checked β} {P : α → Prop} {Q : β → Prop} {a : α}

variable {e : Panic} {m n w i : Nat} {l : List α}

theorem Sat.ok (h : P a) : Sat (.ok a) P := ⟨a, rfl, h⟩

theorem Safe.ok : Safe (.ok a) := ⟨a, rfl, trivial⟩

theorem Sat.mono {P' : α → Prop} (h : x.Sat P) (hP : ∀ a, P a → P' a) : x.Sat P' := by
  obtain ⟨a, rfl, ha⟩ := h
  exact ⟨a, rfl, hP a ha⟩

theorem Sat.safe (h : x.Sat P) : x.Safe := h.mono (fun _ _ => trivial)

/-- **The sequence rule.** -/
theorem Sat.bind (h : x.Sat P) (hf : ∀ a, P a → (f a).Sat Q) : Sat (x >>= f) Q := by
  obtain ⟨a, rfl, ha⟩ := h
  exact hf a ha

/-- **The branch rule.** -/
theorem Sat.ite {c : Prop} [Decidable c] {y : Checked α} (hx : c → x.Sat P) (hy : ¬c → y.Sat P) :
    Sat (if c then x else y) P := by
  split
  next h =>
    exact hx h
  next h =>
    exact hy h

/-- A step with a known result. -/
theorem bind_of_ok (h : x = .ok a) : x >>= f = f a := by
  rw [h]
  rfl

theorem Safe.bind (h : x.Safe) (hf : ∀ a, (f a).Safe) : Safe (x >>= f) := Sat.bind h (fun a _ => hf a)

/-- What a sequence that has come to its end did on the way. -/
theorem bind_eq_ok {b : β} (h : x >>= f = .ok b) : ∃ a, x = .ok a ∧ f a = .ok b := by
  cases x with
  | error e => cases h
  | ok a => exact ⟨a, rfl, h⟩

/-- Where a sequence that panicked did so. -/
theorem bind_eq_error (h : x >>= f = .error e) : x = .error e ∨ ∃ a, x = .ok a ∧ f a = .error e := by
  cases x with
  | error e' => exact .inl (congrArg Except.error (Except.error.inj h))
  | ok a => exact .inr ⟨a, rfl, h⟩

theorem sub_of_le (h : n ≤ m) : sub m n = .ok (m - n) := if_pos h

theorem add_of_lt (h : m + n < 2 ^ 64) : add m n = .ok (m + n) := if_pos h

theorem add32_of_lt (h : m + n < 2 ^ 32) : add32 m n = .ok (m + n) := if_pos h

theorem add32_eq_ok {k : Nat} (h : add32 m n = .ok k) : m + n < 2 ^ 32 ∧ m + n = k := by
  unfold add32 at h
  split at h
  next hlt => exact ⟨hlt, Except.ok.inj h⟩
  · cases h

theorem addWord_eq_ok {a b c : BitVec w} (h : addWord a b = .ok c) : a.toNat + b.toNat < 2 ^ w ∧ c = a + b := by
  unfold addWord at h
  split at h
  next hlt => exact ⟨hlt, (Except.ok.inj h).symm⟩
  · cases h

theorem addWord_eq_error {a b : BitVec w} (h : addWord a b = .error e) :
    e = .overflow ∧ 2 ^ w ≤ a.toNat + b.toNat := by
  unfold addWord at h
  split at h
  · cases h
  next hlt =>
    cases h
    exact ⟨rfl, not_lt.mp hlt⟩

theorem mod_of_ne (h : n ≠ 0) : mod m n = .ok (m % n) := if_neg h

theorem neg_of_ne {m : BitVec 64} (h : m ≠ BitVec.intMin 64) : neg m = .ok (-m) := if_neg h

theorem sub_eq_error (h : sub m n = .error e) : e = .subtractOverflow ∧ m < n := by
  unfold sub at h
  split at h
  · cases h
  rename_i hlt
  cases h
  exact ⟨rfl, Nat.lt_of_not_le hlt⟩

theorem div_of_ne {m n : BitVec w} (h : n ≠ 0) : div m n = .ok (m / n) := if_neg h

theorem get_safe (h : i < l.length) : (get l i).Safe := by
  unfold get
  rw [List.getElem?_eq_getElem h]
  exact .ok

theorem slice_of_le {start stop : Nat} (h : start ≤ stop) (h' : stop ≤ l.length) :
    slice l start stop = .ok ((l.take stop).drop start) := if_pos ⟨h, h'⟩

theorem be16_safe {l : List Byte} (h : i + 2 ≤ l.length) : (be16 l i).Safe :=
  (get_safe (by omega)).bind fun _ => (get_safe (by omega)).bind fun _ => Safe.ok

theorem be32_safe {l : List Byte} (h : i + 4 ≤ l.length) : (be32 l i).Safe :=
  (be16_safe (by omega)).bind fun _ => (be16_safe (by omega)).bind fun _ => Safe.ok

end Checked
end OxideOs
