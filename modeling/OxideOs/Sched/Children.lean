import OxideOs.Lib.Dll
import OxideOs.Lib.Run
import OxideOs.Sched.Task

/-!
# `Sched.Children` — the sibling list of a parent (`sched::core`)

The children of a task are linked by pid through their own records. `add_task_child` and `remove_task_child` take the
lock for one record at a time, so a call is four steps, with what it has read in between, and the steps of several
calls may interleave.
-/

namespace OxideOs.Sched

open Function Run List

def PID_NONE : Pid := 2 ^ 32 - 1

/-- The links in the records of the tasks that are there. -/
structure Kin where
  live : Pid → Bool
  live_none : live PID_NONE = false
  firstChild : Pid → Pid
  siblingNext : Pid → Pid
  siblingPrev : Pid → Pid

namespace Kin

variable {s : Kin} {live : Pid → Bool} {link : Pid → Pid} {p v y : Pid}

/-- A read under the lock; a task that is gone has no link. -/
def get (s : Kin) (link : Pid → Pid) (p : Pid) : Pid := if s.live p then link p else PID_NONE

/-- A write under the lock; nothing when the task is gone. -/
def set (live : Pid → Bool) (link : Pid → Pid) (p v : Pid) : Pid → Pid := if live p then update link p v else link

theorem set_self (h : live p = true) : set live link p v p = v := by
  rw [set, if_pos h, update_self]

theorem set_of_ne (h : y ≠ p) : set live link p v y = link y := by
  unfold set
  split
  · exact update_of_ne h ..
  · rfl

/-- Both links of a child. -/
def setLinks (s : Kin) (p next prev : Pid) : Kin :=
  { s with siblingNext := set s.live s.siblingNext p next, siblingPrev := set s.live s.siblingPrev p prev }

/-- The back link of a sibling, if there is one. -/
def setPrev (s : Kin) (p v : Pid) : Kin :=
  if p ≠ PID_NONE then { s with siblingPrev := set s.live s.siblingPrev p v } else s

theorem setPrev_eq : s.setPrev p v = { s with siblingPrev := set s.live s.siblingPrev p v } := by
  unfold setPrev
  split
  · rfl
  next hp =>
    rw [not_not.mp hp, set, s.live_none, if_neg Bool.false_ne_true]

end Kin

/-- A call on one parent, by what it does next. -/
inductive ChildCall where
  | add (child : Pid)
  | addLinks (child old : Pid)
  | addFirst (child old : Pid)
  | addPrev (child old : Pid)
  | remove (child : Pid)
  | unlinkPrev (child prev next : Pid)
  | unlinkNext (child prev next : Pid)
  | clear (child : Pid)
  | finished
  deriving DecidableEq

namespace ChildCall

open Kin

/-- One step of `add_task_child` or `remove_task_child`. -/
def step (parent : Pid) : Kin × ChildCall → Kin × ChildCall
  | (s, add child) => (s, addLinks child (s.get s.firstChild parent))
  | (s, addLinks child old) => (s.setLinks child old PID_NONE, addFirst child old)
  | (s, addFirst child old) => ({ s with firstChild := set s.live s.firstChild parent child }, addPrev child old)
  | (s, addPrev child old) => (s.setPrev old child, finished)
  | (s, remove child) => (s, unlinkPrev child (s.get s.siblingPrev child) (s.get s.siblingNext child))
  | (s, unlinkPrev child prev next) =>
    (if prev ≠ PID_NONE then { s with siblingNext := set s.live s.siblingNext prev next }
      else if s.firstChild parent = child then { s with firstChild := set s.live s.firstChild parent next }
      else s, unlinkNext child prev next)
  | (s, unlinkNext child prev next) => (s.setPrev next prev, clear child)
  | (s, clear child) => (s.setLinks child PID_NONE PID_NONE, finished)
  | (s, finished) => (s, finished)

/-- A call that is not interrupted. -/
def run (parent : Pid) (s : Kin) (c : ChildCall) : Kin := ((step parent)^[4] (s, c)).1

/-- The children after a call. -/
def children (L : List Pid) : ChildCall → List Pid
  | add child => child :: L
  | remove child => L.erase child
  | _ => L

/-- A live task is added that is not yet a child, or a child is removed. -/
def Valid (s : Kin) (L : List Pid) : ChildCall → Prop
  | add child => child ∉ L ∧ s.live child = true
  | remove child => child ∈ L
  | _ => False

end ChildCall

/-- **The sibling chain** of a parent is a list linked both ways, of these children, each once. -/
structure Siblings (parent : Pid) (s : Kin) (L : List Pid) : Prop where
  chain : Dll s.siblingNext s.siblingPrev PID_NONE PID_NONE (s.firstChild parent) L
  nodup : L.Nodup
  live : ∀ x ∈ parent :: L, s.live x = true

namespace Siblings

open Kin

variable {s : Kin} {parent child : Pid} {L : List Pid}

theorem ne_none (hl : s.live child = true) : child ≠ PID_NONE := by
  rintro rfl
  rw [s.live_none] at hl
  cases hl

variable (h : Siblings parent s L)
include h

theorem add (hv : ChildCall.Valid s L (.add child)) :
    Siblings parent (ChildCall.run parent s (.add child)) (child :: L) := by
  obtain ⟨hc, hl⟩ := hv
  have hp := h.live parent mem_cons_self
  have hout : ∀ y ∈ L, y ≠ child := fun y hy he => hc (he ▸ hy)
  have hold : L ≠ [] → s.firstChild parent ∈ L := by
    intro hL
    cases L with
    | nil => exact absurd rfl hL
    | cons x xs => exact h.chain.1 ▸ mem_cons_self
  have hne : child ≠ s.firstChild parent := by
    by_cases hL : L = []
    · rw [h.chain.head_eq_nil_iff.mpr hL]
      exact ne_none hl
    · exact (hout _ (hold hL)).symm
  simp only [ChildCall.run, iterate_succ, iterate_zero, comp_apply, id, ChildCall.step, Kin.get, hp, if_true, setLinks,
    setPrev_eq]
  refine ⟨?_, nodup_cons.mpr ⟨hc, h.nodup⟩, forall_mem_cons.mpr ⟨hp, forall_mem_cons.mpr ⟨hl, fun x hx => ?_⟩⟩⟩
  · simp only [set_self hp]
    refine h.chain.push h.nodup (ne_none hl) (set_self hl) ?_ (fun y hy => set_of_ne (hout y hy))
      (fun y hy hy' => (set_of_ne hy').trans (set_of_ne (hout y hy))) (fun hL => set_self ?_)
    · exact (set_of_ne hne).trans (set_self hl)
    · exact h.live _ (mem_cons_of_mem _ (hold hL))
  · exact h.live x (mem_cons_of_mem _ hx)

theorem remove (hv : child ∈ L) : Siblings parent (ChildCall.run parent s (.remove child)) (L.erase child) := by
  obtain ⟨hchain, hnd, hlive⟩ := h
  obtain ⟨A, B, rfl⟩ := append_of_mem hv
  obtain ⟨hout, hnd'⟩ := nodup_cons.mp (nodup_middle.mp hnd)
  have hne : ∀ y ∈ A ++ B, y ≠ child := fun y hy he => hout (he ▸ hy)
  have hlive' : ∀ y ∈ A ++ B, s.live y = true := fun y hy => hlive y (by simp at hy ⊢; tauto)
  have hp := hlive parent mem_cons_self
  have hnext : s.siblingNext child ≠ PID_NONE → s.siblingNext child ∈ A ++ B := fun hn =>
    mem_append_right A (hchain.next_mem_right.resolve_left hn)
  rw [erase_append_right _ (fun hx => hout (mem_append_left _ hx)), erase_cons_head]
  simp only [ChildCall.run, iterate_succ, iterate_zero, comp_apply, id, ChildCall.step, Kin.get, hlive child (by simp),
    if_true, setLinks, setPrev_eq]
  cases A with
  | nil =>
    simp only [hchain.2.2.1, hchain.1, ne_eq, not_true, if_false, if_true]
    refine ⟨?_, hnd', forall_mem_cons.mpr ⟨hp, hlive'⟩⟩
    simp only [set_self hp]
    refine hchain.pop hnd (fun y hy => set_of_ne (hne y hy))
      (fun y hy hy' => (set_of_ne (hne y hy)).trans (set_of_ne hy')) (fun hB => ?_)
    have hn := mt hchain.2.2.2.head_eq_nil_iff.mp hB
    exact (set_of_ne (hne _ (hnext hn))).trans (set_self (hlive' _ (hnext hn)))
  | cons a A =>
    obtain ⟨hprev, -⟩ := hchain.prev_mem_left (cons_ne_nil a A)
    have hmem := mem_append_left B hprev
    rw [if_pos (ne_none (hlive' _ hmem))]
    refine ⟨?_, hnd', forall_mem_cons.mpr ⟨hp, hlive'⟩⟩
    refine hchain.unlink hnd (cons_ne_nil a A) (fun y hy hy' => (set_of_ne (hne y hy)).trans (set_of_ne hy')) ?_
      (fun y hy hy' => (set_of_ne (hne y hy)).trans (set_of_ne hy')) (fun hn => ?_)
    · exact (set_of_ne (hne _ hmem)).trans (set_self (hlive' _ hmem))
    · exact (set_of_ne (hne _ (hnext hn))).trans (set_self (hlive' _ (hnext hn)))

end Siblings

/-- The calls on one parent, with the children added and not removed. -/
structure Family where
  kin : Kin
  kids : List Pid
  calls : Nat → ChildCall

/-- A call begins, or does its next step. -/
inductive Turn where
  | start (i : Nat) (c : ChildCall)
  | advance (i : Nat)

namespace Family

variable {parent : Pid} {x : Family} {s s' : Kin} {c : ChildCall} {n : Nat}

def step (parent : Pid) (x : Family) : Turn → Option Family
  | .start i c => some { x with kids := c.children x.kids, calls := update x.calls i c }
  | .advance i =>
    let next := ChildCall.step parent (x.kin, x.calls i)
    some { x with kin := next.1, calls := update x.calls i next.2 }

/-- A parent without children, and no call. -/
def Childless (parent : Pid) (x : Family) : Prop :=
  x.kin.live parent = true ∧ x.kin.firstChild parent = PID_NONE ∧ x.kids = [] ∧ ∀ i, x.calls i = .finished

/-- No call begins before the others have finished. -/
def Alone (x : Family) : Turn → Prop
  | .start _ c => (∀ i, x.calls i = .finished) ∧ c.Valid x.kin x.kids
  | .advance _ => True

/-- Four steps finish any call. -/
theorem iterate_four (parent : Pid) (s : Kin) (c : ChildCall) :
    (ChildCall.step parent)^[4] (s, c) = (c.run parent s, .finished) := by
  cases c <;> rfl

/-- What a call leaves once it has finished is what it leaves without interruption. -/
theorem run_of_finished (h : (ChildCall.step parent)^[n] (s, c) = (s', .finished)) : c.run parent s = s' := by
  have hfix : ∀ k s, (ChildCall.step parent)^[k] (s, .finished) = (s, .finished) := fun k s => iterate_fixed rfl k
  have hfour := iterate_four parent s c
  rcases Nat.le_total n 4 with hn | hn
  · rw [← Nat.sub_add_cancel hn, iterate_add_apply, h, hfix] at hfour
    exact (congrArg Prod.fst hfour).symm
  · rw [← Nat.sub_add_cancel hn, iterate_add_apply, hfour, hfix] at h
    exact congrArg Prod.fst h

/-- One call at most is under way, and it will leave the chain in order. -/
def Orderly (parent : Pid) (x : Family) : Prop :=
  ∃ i s c n, (∀ j ≠ i, x.calls j = .finished) ∧ Siblings parent (c.run parent s) x.kids ∧
    (ChildCall.step parent)^[n] (s, c) = (x.kin, x.calls i)

theorem Orderly.siblings (h : Orderly parent x) (hdone : ∀ i, x.calls i = .finished) :
    Siblings parent x.kin x.kids := by
  obtain ⟨i, s, c, n, -, hs, hn⟩ := h
  rw [hdone i] at hn
  exact run_of_finished hn ▸ hs

theorem Orderly.step {x' : Family} {t : Turn} (h : Orderly parent x) (ht : x.Alone t)
    (hstep : x.step parent t = some x') : Orderly parent x' := by
  cases t with
  | start i c =>
    cases hstep
    have hs := h.siblings ht.1
    refine ⟨i, x.kin, c, 0, fun j hj => (update_of_ne hj ..).trans (ht.1 j), ?_, ?_⟩
    · cases c with
      | add child => exact hs.add ht.2
      | remove child => exact hs.remove ht.2
      | _ => cases ht.2
    · simp
  | advance j =>
    obtain ⟨i, s, c, n, hrest, hs, hn⟩ := h
    by_cases hj : j = i
    · subst hj
      cases hstep
      refine ⟨j, s, c, n + 1, fun k hk => (update_of_ne hk ..).trans (hrest k hk), hs, ?_⟩
      simp [iterate_succ_apply', hn]
    · -- a call that has finished does nothing
      have hsame : x.step parent (.advance j) = some x := by
        simp only [Family.step, hrest j hj, ChildCall.step]
        rw [← hrest j hj, update_eq_self]
      cases hsame.symm.trans hstep
      exact ⟨i, s, c, n, hrest, hs, hn⟩

/-- **Calls that do not overlap keep the child list.** In every run in which no call begins before the others have
    finished, whenever all have finished the sibling chain is linked both ways and holds the children added and not
    removed, each once. -/
theorem siblings_of_alone (h : Reach (Family.step parent) Alone (Childless parent) x)
    (hdone : ∀ i, x.calls i = .finished) : Siblings parent x.kin x.kids := by
  refine Orderly.siblings (h.invariant (Orderly parent) ?_ (fun _ _ _ => Orderly.step)) hdone
  rintro ⟨s, L, calls⟩ ⟨hl, hnone, rfl, hcalls⟩
  exact ⟨0, s, .finished, 0, fun j _ => hcalls j, ⟨hnone, nodup_nil, forall_mem_singleton.mpr hl⟩,
    Prod.ext rfl (hcalls 0).symm⟩

/-- Tasks below 8, without links. -/
def childless : Family where
  kin :=
    { live := fun p => decide (p < 8), live_none := rfl, firstChild := fun _ => PID_NONE
      siblingNext := fun _ => PID_NONE, siblingPrev := fun _ => PID_NONE }
  kids := []
  calls := fun _ => .finished

/-- A call that begins when all others have finished comes to its end. -/
theorem reach_call (h : Reach (Family.step parent) Alone (Childless parent) x) (hdone : ∀ i, x.calls i = .finished)
    (hv : c.Valid x.kin x.kids) (i : Nat) :
    ∃ x', Reach (Family.step parent) Alone (Childless parent) x' ∧ (∀ j, x'.calls j = .finished) ∧
      x'.kids = c.children x.kids ∧ x'.kin = c.run parent x.kin := by
  have hturns : ∀ n, Reach (Family.step parent) Alone (Childless parent)
      { kin := ((ChildCall.step parent)^[n] (x.kin, c)).1, kids := c.children x.kids
        calls := update x.calls i ((ChildCall.step parent)^[n] (x.kin, c)).2 } := by
    intro n
    induction n with
    | zero => exact h.next (a := Turn.start i c) ⟨hdone, hv⟩ rfl
    | succ n ih =>
      refine ih.next (a := Turn.advance i) trivial ?_
      simp [Family.step, iterate_succ_apply']
  have hfour := hturns 4
  rw [iterate_four] at hfour
  refine ⟨_, hfour, fun j => ?_, rfl, rfl⟩
  by_cases hj : j = i
  · exact hj ▸ update_self ..
  · exact (update_of_ne hj ..).trans (hdone j)

/-- Tasks 2, 3 and 4 become children of task 1, in calls by three CPUs, and then task 3, which is between the other two,
    goes. -/
theorem siblings_of_alone_four : ∃ x, Reach (Family.step 1) Alone (Childless 1) x ∧ x.kids = [4, 2] ∧
    Siblings 1 x.kin [4, 2] ∧ x.kin.siblingNext 4 = 2 := by
  have h0 : Reach (Family.step 1) Alone (Childless 1) childless := .start ⟨rfl, rfl, rfl, fun _ => rfl⟩
  obtain ⟨x1, h1, hdone1, hkids1, hkin1⟩ := reach_call h0 (fun _ => rfl) (c := .add 2) ⟨by decide, rfl⟩ 0
  obtain ⟨x2, h2, hdone2, hkids2, hkin2⟩ := reach_call h1 hdone1 (c := .add 3)
    ⟨by rw [hkids1]; decide, by rw [hkin1]; rfl⟩ 1
  obtain ⟨x3, h3, hdone3, hkids3, hkin3⟩ := reach_call h2 hdone2 (c := .add 4)
    ⟨by rw [hkids2, hkids1]; decide, by rw [hkin2, hkin1]; rfl⟩ 2
  obtain ⟨x4, h4, hdone4, hkids4, hkin4⟩ := reach_call h3 hdone3 (c := .remove 3)
    (by rw [hkids3, hkids2, hkids1]; exact mem_of_elem_eq_true rfl) 1
  have hkids : x4.kids = [4, 2] := by
    rw [hkids4, hkids3, hkids2, hkids1]
    rfl
  refine ⟨x4, h4, hkids, hkids ▸ siblings_of_alone h4 hdone4, ?_⟩
  rw [hkin4, hkin3, hkin2, hkin1]
  decide

/-- **A child is lost.** Two calls add tasks 2 and 3, and both read the first child before one of them writes it: both
    finish, and the chain from the parent is task 3 alone. -/
theorem overlapping_add_lost : ∃ x, Run.exec (Family.step 1) (fun _ _ => True) childless
      (.start 0 (.add 2) :: .start 1 (.add 3) :: [0, 1, 0, 1, 0, 1, 0, 1].map .advance) = some x ∧
    x.calls 0 = .finished ∧ x.calls 1 = .finished ∧ x.kids = [3, 2] ∧ x.kin.firstChild 1 = 3 ∧
    x.kin.siblingNext 3 = PID_NONE := exists_of_any (by decide)

end Family
end OxideOs.Sched
