import Mathlib

/-!
# `Lib.Disk` — a device with a write cache

A device holds contents that are durable and writes that are not yet (`pending`), in the order they were issued;
a flush makes them durable. A crash keeps any of the pending writes and drops the others. `puts` is what a list
of writes does to contents; a write says nothing about the places it does not name (`puts_of_not_mem`).
-/

namespace OxideOs

open Function List

universe u

variable {β : Type u}

/-! ## Contents -/

/-- The contents after the writes, in order. -/
def puts (c : Nat → β) (ws : List (Nat × β)) : Nat → β := ws.foldl (fun c w => update c w.1 w.2) c

theorem puts_append (c : Nat → β) (ws ws' : List (Nat × β)) : puts c (ws ++ ws') = puts (puts c ws) ws' := foldl_append

theorem puts_singleton (c : Nat → β) (i : Nat) (x : β) : puts c [(i, x)] i = x := by
  exact update_self i x c

theorem puts_of_not_mem {ws : List (Nat × β)} {i : Nat} (c : Nat → β) (h : ∀ w ∈ ws, w.1 ≠ i) : puts c ws i = c i := by
  induction ws generalizing c with
  | nil => rfl
  | cons w ws ih =>
    have hhead : i ≠ w.1 := (h w mem_cons_self).symm
    have htail := ih (update c w.1 w.2) (fun v hv => h v (mem_cons_of_mem w hv))
    exact htail.trans (update_of_ne hhead w.2 c)

/-- The same writes to contents that agree at a place leave contents that agree there. -/
theorem puts_congr {c c' : Nat → β} {i : Nat} (h : c i = c' i) (ws : List (Nat × β)) : puts c ws i = puts c' ws i := by
  induction ws generalizing c c' with
  | nil => exact h
  | cons w ws ih =>
    refine ih ?_
    dsimp only
    by_cases hi : i = w.1
    · subst hi
      rw [update_self, update_self]
    · rw [update_of_ne hi, update_of_ne hi, h]

/-! ## The device -/

inductive DiskOp (β : Type u) where
  | write (i : Nat) (x : β)
  | flush

structure Disk (β : Type u) where
  durable : Nat → β
  pending : List (Nat × β)

namespace Disk

/-- What a read returns: every write issued so far is seen. -/
def view (d : Disk β) : Nat → β := puts d.durable d.pending

def act (d : Disk β) : DiskOp β → Disk β
  | .write i x => { d with pending := d.pending ++ [(i, x)] }
  | .flush => ⟨d.view, []⟩

def run (d : Disk β) (ops : List (DiskOp β)) : Disk β := ops.foldl act d

/-- The device after a crash that kept these pending writes. -/
def crash (d : Disk β) (kept : List (Nat × β)) : Disk β := ⟨puts d.durable kept, []⟩

/-- The writes, as operations. -/
def writes (ws : List (Nat × β)) : List (DiskOp β) := ws.map (fun w => .write w.1 w.2)

variable (d : Disk β)

variable {ws : List (Nat × β)} {ops : List (DiskOp β)} {k : Nat}

theorem run_append (ops ops' : List (DiskOp β)) : d.run (ops ++ ops') = (d.run ops).run ops' := foldl_append

theorem view_write (i : Nat) (x : β) : (d.act (.write i x)).view = update d.view i x :=
  puts_append d.durable d.pending [(i, x)]

theorem run_writes (ws : List (Nat × β)) : d.run (writes ws) = { d with pending := d.pending ++ ws } := by
  induction ws generalizing d with
  | nil => rw [append_nil]; rfl
  | cons w ws ih =>
    have htail := ih (d.act (.write w.1 w.2))
    refine htail.trans ?_
    rw [act, append_assoc]
    rfl

theorem view_run_writes (ws : List (Nat × β)) : (d.run (writes ws)).view = puts d.view ws := by
  rw [run_writes]
  exact puts_append d.durable d.pending ws

theorem run_writes_flush (ws : List (Nat × β)) (ops : List (DiskOp β)) :
    d.run (writes ws ++ .flush :: ops) = run ⟨puts d.view ws, []⟩ ops := by
  have hview := d.view_run_writes ws
  rw [run_append]
  exact congrArg (fun c => run (⟨c, []⟩ : Disk β) ops) hview

/-! ## Interrupted runs -/

/-- A run interrupted before its first flush has only issued writes. -/
theorem run_take_writes (h : k ≤ ws.length) :
    d.run ((writes ws ++ ops).take k) = { d with pending := d.pending ++ ws.take k } := by
  have hlen : (writes ws).length = ws.length := length_map ..
  rw [take_append_of_le_length (by omega), writes, ← map_take]
  exact d.run_writes _

/-- A run interrupted after its first flush goes on from there. -/
theorem run_take_flush (h : ws.length < k) :
    d.run ((writes ws ++ .flush :: ops).take k) = run ⟨puts d.view ws, []⟩ (ops.take (k - (ws.length + 1))) := by
  have hlen : (writes ws).length = ws.length := length_map ..
  obtain ⟨m, rfl⟩ : ∃ m, k = ws.length + 1 + m := ⟨k - (ws.length + 1), by omega⟩
  rw [take_append, take_of_length_le (by omega), hlen, add_assoc, Nat.add_sub_cancel_left,
    add_comm 1 m, take_succ_cons, run_writes_flush]
  congr 2
  omega

end Disk
end OxideOs
