import OxideOs.Sched.Task
import OxideOs.Lib.BinHeap

/-!
# `Sched.Fair` — the fair run queue (`sched::fair`)

A binary min-heap of the queued tasks by virtual run time, in an array of 256 places. The list holds the
places in use, `heap[0..len]`.
-/

namespace OxideOs.Sched

open BinHeap List

def SCHED_LATENCY_NS : Nat := 6000000

def MAX_CFS_TASKS : Nat := 256

structure CfsEntry where
  vruntime : Nat
  pid : Pid
  deriving DecidableEq

/-- `Ord for CfsEntry`: by virtual run time, then by pid. -/
def CfsEntry.lt (a b : CfsEntry) : Bool :=
  if a.vruntime = b.vruntime then decide (a.pid < b.pid) else decide (a.vruntime < b.vruntime)

structure CfsRunQueue where
  heap : List CfsEntry
  loadWeight : Nat
  minVruntime : Nat
  nrRunning : Nat
  deriving DecidableEq

namespace CfsRunQueue

def new : CfsRunQueue := { heap := [], loadWeight := 0, minVruntime := 0, nrRunning := 0 }

def siftUp (heap : List CfsEntry) (idx : Nat) : List CfsEntry := BinHeap.siftUp CfsEntry.lt idx heap idx

def siftDown (heap : List CfsEntry) (idx : Nat) : List CfsEntry := BinHeap.siftDown CfsEntry.lt heap.length heap idx

/-- `enqueue`, with the virtual run time it gives the task. A full heap drops the entry; the load and the
    count go up all the same. -/
def enqueue (cfs : CfsRunQueue) (pid : Pid) (vruntime weight : Nat) : CfsRunQueue × Nat :=
  let adjusted := max vruntime (cfs.minVruntime - SCHED_LATENCY_NS)
  ({ cfs with
      heap :=
        if cfs.heap.length < MAX_CFS_TASKS then
          siftUp (cfs.heap ++ [{ vruntime := adjusted, pid }]) cfs.heap.length
        else cfs.heap,
      loadWeight := saturatingAdd cfs.loadWeight weight,
      nrRunning := cfs.nrRunning + 1 },
    adjusted)

/-- Take the entry at `pos` out: the last entry fills the hole and is sifted from there. -/
def removeAt (heap : List CfsEntry) (pos : Nat) : List CfsEntry :=
  match heap.getLast? with
  | none => heap
  | some last =>
    if pos < heap.length - 1 then
      let heap := (heap.set pos last).dropLast
      if 0 < pos ∧ before CfsEntry.lt heap pos ((pos - 1) / 2) = true then siftUp heap pos
      else siftDown heap pos
    else heap.dropLast

def dequeue (cfs : CfsRunQueue) (pid : Pid) (weight : Nat) : CfsRunQueue × Bool :=
  match cfs.heap.findIdx? (fun e => e.pid == pid) with
  | none => (cfs, false)
  | some pos =>
    ({ cfs with
        heap := removeAt cfs.heap pos,
        loadWeight := cfs.loadWeight - weight,
        nrRunning := cfs.nrRunning - 1 },
      true)

def pickNext (cfs : CfsRunQueue) : Option Pid := cfs.heap.head?.map CfsEntry.pid

/-- `pop_next`: the entry taken out is the root, so the entry that fills the hole only moves down. -/
def popNext (cfs : CfsRunQueue) (weight : Nat) : Option Pid × CfsRunQueue :=
  match cfs.heap with
  | [] => (none, cfs)
  | e :: _ =>
    (some e.pid,
      { cfs with
        heap := removeAt cfs.heap 0,
        loadWeight := cfs.loadWeight - weight,
        nrRunning := cfs.nrRunning - 1 })

def updateMinVruntime (cfs : CfsRunQueue) (currVruntime : Nat) : CfsRunQueue :=
  { cfs with minVruntime := max cfs.minVruntime ((cfs.heap.head?.map CfsEntry.vruntime).getD currVruntime) }

/-! ## What the operations do to the queued entries -/

/-- The tasks in the heap. -/
def tasks (cfs : CfsRunQueue) : List Pid := cfs.heap.map CfsEntry.pid

theorem removeAt_perm {heap : List CfsEntry} {pos : Nat} {e : CfsEntry} (h : heap[pos]? = some e) :
    heap.Perm (e :: removeAt heap pos) := by
  obtain ⟨hpos, he⟩ := List.getElem?_eq_some_iff.mp h
  have hne : heap ≠ [] := by
    rintro rfl
    cases hpos
  have hlast := getLast?_eq_some_getLast hne
  unfold removeAt
  rw [hlast]
  by_cases hlt : pos < heap.length - 1
  · have hfill := (set_last_dropLast_perm h hlast hlt).symm
    simp only [if_pos hlt]
    split
    · exact hfill.trans ((siftUp_perm _ _ _ _).symm.cons e)
    · exact hfill.trans ((siftDown_perm _ _ _ _).symm.cons e)
  simp only [if_neg hlt]
  -- the entry is the last one
  have hend : heap.getLast hne = e := by
    rw [getLast_eq_getElem, ← he]
    congr 1
    omega
  have hcat := dropLast_append_getLast hne
  rw [hend] at hcat
  nth_rewrite 1 [← hcat]
  exact perm_append_singleton e _

theorem enqueue_tasks {cfs : CfsRunQueue} {pid : Pid} {vruntime weight : Nat} (h : cfs.heap.length < MAX_CFS_TASKS) :
    (cfs.enqueue pid vruntime weight).1.tasks.Perm (pid :: cfs.tasks) := by
  unfold enqueue tasks
  simp only [if_pos h]
  refine ((siftUp_perm _ _ _ _).map _).trans ?_
  rw [map_append]
  exact perm_append_singleton pid _

theorem dequeue_tasks {cfs : CfsRunQueue} {pid : Pid} {weight : Nat} (h : pid ∈ cfs.tasks) :
    cfs.tasks.Perm (pid :: (cfs.dequeue pid weight).1.tasks) ∧
      (cfs.dequeue pid weight).1.nrRunning = cfs.nrRunning - 1 := by
  unfold dequeue
  cases hf : cfs.heap.findIdx? (fun e => e.pid == pid) with
  | none =>
    obtain ⟨e, he, hpid⟩ := mem_map.mp h
    exact absurd (findIdx?_eq_none_iff.mp hf e he) (by simp [hpid])
  | some pos =>
    obtain ⟨hpos, hpid, -⟩ := findIdx?_eq_some_iff_getElem.mp hf
    have hp := (removeAt_perm (getElem?_eq_getElem hpos)).map CfsEntry.pid
    rw [map_cons, beq_iff_eq.mp hpid] at hp
    exact ⟨hp, rfl⟩

theorem dequeue_of_not_mem {cfs : CfsRunQueue} {pid : Pid} {weight : Nat} (h : pid ∉ cfs.tasks) :
    cfs.dequeue pid weight = (cfs, false) := by
  unfold dequeue
  have hf : cfs.heap.findIdx? (fun e => e.pid == pid) = none := by
    refine findIdx?_eq_none_iff.mpr (fun e he => ?_)
    exact beq_eq_false_iff_ne.mpr (fun hpid => h (mem_map.mpr ⟨e, he, hpid⟩))
  rw [hf]

/-- **`pop_next`** takes the task `pick_next` names out of the heap. -/
theorem popNext_tasks (cfs : CfsRunQueue) (weight : Nat) : (cfs.pickNext = none ∧ cfs.heap = []) ∨
      ∃ pid cfs', cfs.pickNext = some pid ∧ cfs.popNext weight = (some pid, cfs') ∧
        cfs.tasks.Perm (pid :: cfs'.tasks) ∧ cfs'.nrRunning = cfs.nrRunning - 1 := by
  unfold pickNext popNext
  cases h : cfs.heap with
  | nil => exact .inl ⟨rfl, rfl⟩
  | cons e rest =>
    refine .inr ⟨e.pid, _, rfl, rfl, ?_, rfl⟩
    have hp := (@removeAt_perm cfs.heap 0 e (by rw [h]; rfl)).map CfsEntry.pid
    rw [h] at hp
    unfold tasks
    rw [h]
    exact hp

end CfsRunQueue
end OxideOs.Sched
