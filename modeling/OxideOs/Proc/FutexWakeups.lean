import OxideOs.Lib.Placed
import OxideOs.Lib.Run
import OxideOs.Proc.Futex

/-!
# `Proc.FutexWakeups` — waiters and wake-ups in any order

`sys_futex` as threads run it. A `WAIT` is three steps: it reads the word, queues up under the lock, and blocks; a
`WAKE` is a locked section that takes waiters from a queue, and one `wake_up` for each of them; `CMP_REQUEUE` reads
the word before its section. Between any two steps other threads run.

No lock spans the three steps of a `WAIT`. A section that runs between the read and the queueing does not see the
waiter, and a `wake_up` between the queueing and the blocking finds a thread that is still running and does nothing.
In both cases the thread goes on to block.

A waiting thread is in at most one place (`WaitersOk`): on one queue, or on the list of one call that is about to wake
it. The state counts the waits of a thread and the finished calls, and remembers whether the word of a waiter was
changed after it was read; the code has none of these.
-/

namespace OxideOs.Futex

open List Checked Function Run

/-! ## The machine -/

/-- Where a thread is in `sys_futex`. -/
inductive FPhase where
  | running
  /-- In a `WAIT`: the word had the expected value. -/
  | matched (addr : Nat) (expected bitset : BitVec 32)
  /-- In a `WAIT`: on the queue, before `block_current`. -/
  | enqueued
  | blocked
  /-- In a `CMP_REQUEUE`: the word had the expected value. -/
  | comparing (addr : Nat) (wakeCount : Int) (addr2 : Nat) (requeueCount : Int)
  /-- Behind a section: these threads are left to wake. -/
  | waking (pids : List Nat)

structure FutexState where
  word : Nat → BitVec 32 := fun _ => 0
  queues : Queues := fun _ => []
  phase : Nat → FPhase := fun _ => .running
  /-- How many waits of a thread have read the expected value. -/
  waits : Nat → Nat := fun _ => 0
  /-- Another value was stored to the word after the thread's last read. -/
  changed : Nat → Bool := fun _ => false
  /-- How many wake and requeue calls of a thread have finished. -/
  calls : Nat → Nat := fun _ => 0

open FutexState

/-- The steps; a bitset is there when the operation is the `BITSET` one. -/
inductive FutexOp where
  | store (t addr : Nat) (value : BitVec 32)
  | wait (t addr : Nat) (expected : BitVec 32) (bitset : Option (BitVec 32))
  | enqueue (t : Nat)
  | block (t : Nat)
  | wake (t addr : Nat) (count : Int) (bitset : Option (BitVec 32))
  | requeue (t addr : Nat) (wakeCount : Int) (addr2 : Nat) (requeueCount : Int)
  | compare (t addr : Nat) (wakeCount : Int) (addr2 : Nat) (requeueCount : Int) (expected : BitVec 32)
  | requeueNow (t : Nat)
  | wakeUp (t : Nat)

/-- The thread that takes the step. -/
def FutexOp.actor : FutexOp → Nat
  | .store t _ _ | .wait t _ _ _ | .enqueue t | .block t | .wake t _ _ _ | .requeue t _ _ _ _
  | .compare t _ _ _ _ _ | .requeueNow t | .wakeUp t => t

def wakeSection (q : Queues) (addr : Nat) (count : Int) :
    Option (BitVec 32) → Checked (Except FutexError (List Nat × Queues))
  | none => futexWake q addr count
  | some bitset => .ok (futexWakeBitset q addr count bitset)

def waitCheck (addr : Nat) : Option (BitVec 32) → Except FutexError Unit
  | none => checkWait addr
  | some bitset => checkWaitBitset addr bitset

/-- A thread's phase behind a section. -/
def afterSection (s : FutexState) (t : Nat) :
    Checked (Except FutexError (List Nat × Queues)) → Option FutexState
  | .ok (.ok (pids, queues)) => some { s with queues := queues, phase := update s.phase t (.waking pids) }
  | .ok (.error _) => some { s with phase := update s.phase t .running }
  | .error _ => none

/-- A store of `value` to `addr` changes the word under the thread. -/
def changes (addr : Nat) (value : BitVec 32) : FPhase → Bool
  | .matched a expected _ => a = addr ∧ value ≠ expected
  | _ => false

/-- `wake_up`: only a thread that is blocked notices. -/
def wakeThread (phase : Nat → FPhase) (pid : Nat) : Nat → FPhase :=
  match phase pid with
  | .blocked => update phase pid .running
  | _ => phase

def FutexState.step (s : FutexState) : FutexOp → Option FutexState
  | .store t addr value =>
    match s.phase t with
    | .running =>
      some
        { s with
          word := update s.word addr value
          changed := fun u => s.changed u || changes addr value (s.phase u) }
    | _ => none
  | .wait t addr expected bitset =>
    match s.phase t, waitCheck addr bitset with
    | .running, .ok () =>
      if s.word addr ≠ expected then some s
      else
        some
          { s with
            phase := update s.phase t (.matched addr expected (bitset.getD FUTEX_BITSET_MATCH_ANY))
            waits := update s.waits t (s.waits t + 1)
            changed := update s.changed t false }
    | .running, .error _ => some s
    | _, _ => none
  | .enqueue t =>
    match s.phase t with
    | .matched addr _ bitset =>
      some { s with queues := enqueue s.queues t addr bitset, phase := update s.phase t .enqueued }
    | _ => none
  | .block t =>
    match s.phase t with
    | .enqueued => some { s with phase := update s.phase t .blocked }
    | _ => none
  | .wake t addr count bitset =>
    match s.phase t with
    | .running => afterSection s t (wakeSection s.queues addr count bitset)
    | _ => none
  | .requeue t addr wakeCount addr2 requeueCount =>
    match s.phase t with
    | .running => afterSection s t (futexRequeue s.queues addr wakeCount addr2 requeueCount)
    | _ => none
  | .compare t addr wakeCount addr2 requeueCount expected =>
    match s.phase t, checkCmpRequeue (fun a => some (s.word a)) addr expected with
    | .running, .ok (.ok ()) => some { s with phase := update s.phase t (.comparing addr wakeCount addr2 requeueCount) }
    | .running, .ok (.error _) => some s
    | _, _ => none
  | .requeueNow t =>
    match s.phase t with
    | .comparing addr wakeCount addr2 requeueCount =>
      afterSection s t (futexRequeue s.queues addr wakeCount addr2 requeueCount)
    | _ => none
  | .wakeUp t =>
    match s.phase t with
    | .waking (pid :: pids) => some { s with phase := wakeThread (update s.phase t (.waking pids)) pid }
    | .waking [] =>
      some
        { s with
          phase := update s.phase t .running
          calls := update s.calls t (s.calls t + 1) }
    | _ => none

/-! ## The condition -/

def I32_MAX : Int := 2147483647

/-- A waiter with these bits is meant by a `WAKE`. -/
def matchesBits (bits : BitVec 32) : Option (BitVec 32) → Prop
  | none => True
  | some bitset => bits &&& bitset ≠ 0

instance (bits : BitVec 32) : (bitset : Option (BitVec 32)) → Decidable (matchesBits bits bitset)
  | none => inferInstanceAs (Decidable True)
  | some bitset => inferInstanceAs (Decidable (bits &&& bitset ≠ 0))

/-- **Nobody comes between the steps of a wait.** No `WAKE` for all waiters of a word runs while a waiter that it
    means has read the word, the word was changed after that, and the waiter is not on the queue yet; and no
    `wake_up` meets a thread between its queueing and its blocking. -/
def Timely (s : FutexState) : FutexOp → Prop
  | .wake _ addr count bitset =>
    count = I32_MAX → ∀ u expected bits, s.phase u = .matched addr expected bits → s.changed u = true →
      ¬ matchesBits bits bitset
  | .wakeUp t => ∀ pid pids, s.phase t = .waking (pid :: pids) → s.phase pid ≠ .enqueued
  | _ => True

/-! ## The places of the waiters -/

def FPhase.pending : FPhase → List Nat
  | .waking pids => pids
  | _ => []

/-- The thread is on a queue, or was taken from one and not woken yet. -/
def FPhase.InWait : FPhase → Prop
  | .enqueued | .blocked => True
  | _ => False

inductive Loc where
  | queue (addr : Nat)
  | call (t : Nat)
  deriving DecidableEq

def pidsAt (q : Queues) (phase : Nat → FPhase) : Loc → List Nat
  | .queue addr => (q addr).map FutexWaiter.pid
  | .call t => (phase t).pending

/-- **A waiter is in one place.** A thread on a queue or on the list of a call is waiting, and is there once. -/
structure WaitersOk (q : Queues) (phase : Nat → FPhase) : Prop where
  placed : Placed (pidsAt q phase)
  waiting : ∀ l, ∀ u ∈ pidsAt q phase l, (phase u).InWait

/-- The thread is on a queue, or on the list of a call. -/
def Somewhere (q : Queues) (phase : Nat → FPhase) (u : Nat) : Prop := ∃ l, u ∈ pidsAt q phase l

/-- Nobody waits who is in no place. -/
def NoOrphan (q : Queues) (phase : Nat → FPhase) : Prop := ∀ u, (phase u).InWait → Somewhere q phase u

variable {q q' : Queues} {phase phase' : Nat → FPhase} {t u : Nat} {p : FPhase}

/-- A phase with the same list to wake leaves all places. -/
theorem pidsAt_update (hpending : p.pending = (phase t).pending) : pidsAt q (update phase t p) = pidsAt q phase := by
  funext l
  cases l with
  | queue addr => rfl
  | call u =>
    by_cases hu : u = t
    · subst hu
      simp [pidsAt, hpending]
    · simp [pidsAt, update_of_ne hu]

theorem pidsAt_queue {addr : Nat} {ws : List FutexWaiter} :
    pidsAt (update q addr ws) phase
      = update (pidsAt q phase) (.queue addr) (ws.map FutexWaiter.pid) := by
  funext l
  cases l with
  | queue a =>
    by_cases ha : a = addr
    · subst ha
      simp [pidsAt]
    · have hne : Loc.queue a ≠ Loc.queue addr := fun h => ha (Loc.queue.inj h)
      simp [pidsAt, update_of_ne ha, update_of_ne hne]
  | call u => simp [pidsAt]

theorem pidsAt_call {pids : List Nat} :
    pidsAt q (update phase t (.waking pids)) = update (pidsAt q phase) (.call t) pids := by
  funext l
  cases l with
  | queue a => simp [pidsAt]
  | call u =>
    by_cases hu : u = t
    · subst hu
      simp [pidsAt, FPhase.pending]
    · have hne : Loc.call u ≠ Loc.call t := fun h => hu (Loc.call.inj h)
      simp [pidsAt, update_of_ne hu, update_of_ne hne]

/-! ## Moves -/

/-- A thread that may enter a section: it does not wait, and has nobody to wake. -/
def FPhase.Free (p : FPhase) : Prop := ¬ p.InWait ∧ p.pending = []

theorem inWait_update (hin : p.InWait ↔ (phase t).InWait) (u : Nat) :
    (update phase t p u).InWait ↔ (phase u).InWait := by
  by_cases hu : u = t
  · subst hu
    rw [update_self]
    exact hin
  · rw [update_of_ne hu]

/-- **The same threads wait, and the same are somewhere**, though perhaps elsewhere. -/
structure Keeps (q : Queues) (phase : Nat → FPhase) (q' : Queues) (phase' : Nat → FPhase) : Prop where
  placed : Placed (pidsAt q phase) → Placed (pidsAt q' phase')
  somewhere : ∀ u, Somewhere q' phase' u ↔ Somewhere q phase u
  inWait : ∀ u, (phase' u).InWait ↔ (phase u).InWait

namespace Keeps

/-- A step of a thread that changes no list. -/
theorem update (hpending : p.pending = (phase t).pending) (hin : p.InWait ↔ (phase t).InWait) :
    Keeps q phase q (Function.update phase t p) where
  placed h := by
    rw [pidsAt_update hpending]
    exact h
  somewhere u := by rw [Somewhere, pidsAt_update hpending, Somewhere]
  inWait := inWait_update hin

/-- A section takes waiters from a queue onto the list of the calling thread. -/
theorem take (ht : (phase t).Free) {addr : Nat} {taken rest : List FutexWaiter}
    (hsplit : (taken ++ rest).Perm (q addr)) :
    Keeps q phase (Function.update q addr rest) (Function.update phase t (.waking (taken.map FutexWaiter.pid))) := by
  have hcall : pidsAt q phase (.call t) = [] := ht.2
  have hpids : pidsAt (Function.update q addr rest) (Function.update phase t (.waking (taken.map FutexWaiter.pid)))
      = Function.update (Function.update (pidsAt q phase) (.queue addr) (rest.map FutexWaiter.pid)) (.call t)
          (pidsAt q phase (.call t) ++ taken.map FutexWaiter.pid) := by
    rw [pidsAt_call, pidsAt_queue, hcall, nil_append]
  have hperm : (taken.map FutexWaiter.pid ++ rest.map FutexWaiter.pid).Perm (pidsAt q phase (.queue addr)) := by
    rw [← map_append]
    exact hsplit.map FutexWaiter.pid
  have hne : Loc.queue addr ≠ Loc.call t := nofun
  refine ⟨fun h => ?_, fun u => ?_, inWait_update ⟨False.elim, ht.1⟩⟩
  · rw [hpids]
    exact h.move hne hperm
  · rw [Somewhere, hpids]
    exact exists_mem_move hne hperm u

/-- The front of a queue goes to the end of another, or of the same. -/
theorem transfer {addr : Nat} (addr2 : Nat) {moved rest : List FutexWaiter} (hsplit : q addr = moved ++ rest) :
    Keeps q phase
      (Function.update (Function.update q addr rest) addr2 (Function.update q addr rest addr2 ++ moved)) phase := by
  have hqueue : pidsAt q phase (.queue addr) = moved.map FutexWaiter.pid ++ rest.map FutexWaiter.pid := by
    rw [← map_append, ← hsplit]
    rfl
  by_cases hsame : addr2 = addr
  · subst hsame
    have hpids : pidsAt (Function.update (Function.update q addr2 rest) addr2
        (Function.update q addr2 rest addr2 ++ moved)) phase = Function.update (pidsAt q phase) (.queue addr2)
          (rest.map FutexWaiter.pid ++ moved.map FutexWaiter.pid) := by
      rw [update_idem, update_self, pidsAt_queue, map_append]
    have hperm : (rest.map FutexWaiter.pid ++ moved.map FutexWaiter.pid).Perm (pidsAt q phase (.queue addr2)) := by
      rw [hqueue]
      exact perm_append_comm
    refine ⟨fun h => ?_, fun u => ?_, fun _ => Iff.rfl⟩
    · rw [hpids]
      exact h.shrink (hperm.nodup_iff.mpr (h.nodup _)) hperm.subset
    · rw [Somewhere, hpids]
      exact exists_mem_reorder hperm u
  · have hne : Loc.queue addr ≠ Loc.queue addr2 := fun heq => hsame (Loc.queue.inj heq).symm
    have hpids : pidsAt (Function.update (Function.update q addr rest) addr2
        (Function.update q addr rest addr2 ++ moved)) phase
          = Function.update (Function.update (pidsAt q phase) (.queue addr) (rest.map FutexWaiter.pid))
              (.queue addr2) (pidsAt q phase (.queue addr2) ++ moved.map FutexWaiter.pid) := by
      rw [update_of_ne hsame, pidsAt_queue, pidsAt_queue, map_append]
      rfl
    refine ⟨fun h => ?_, fun u => ?_, fun _ => Iff.rfl⟩
    · rw [hpids]
      exact h.move hne (by rw [hqueue])
    · rw [Somewhere, hpids]
      exact exists_mem_move hne (by rw [hqueue]) u

theorem trans {q'' : Queues} {phase'' : Nat → FPhase} (h : Keeps q phase q' phase')
    (h' : Keeps q' phase' q'' phase'') : Keeps q phase q'' phase'' where
  placed hp := h'.placed (h.placed hp)
  somewhere u := (h'.somewhere u).trans (h.somewhere u)
  inWait u := (h'.inWait u).trans (h.inWait u)

end Keeps

variable {addr pid : Nat} {count : Int} {bitset : Option (BitVec 32)} {pids : List Nat}

theorem wakeSection_keeps (ht : (phase t).Free) (hsection : wakeSection q addr count bitset = .ok (.ok (pids, q'))) :
    Keeps q phase q' (update phase t (.waking pids)) := by
  cases bitset with
  | none =>
    obtain ⟨taken, rest, hsplit, rfl, rfl⟩ := futexWake_eq_ok hsection
    exact .take ht (by rw [hsplit])
  | some bitset =>
    obtain ⟨taken, stay, hperm, rfl, rfl, -⟩ := futexWakeBitset_eq_ok (Except.ok.inj hsection)
    exact .take ht hperm

theorem requeueSection_keeps {addr2 : Nat} {wakeCount requeueCount : Int} (ht : (phase t).Free)
    (hsection : futexRequeue q addr wakeCount addr2 requeueCount = .ok (.ok (pids, q'))) :
    Keeps q phase q' (update phase t (.waking pids)) := by
  obtain ⟨taken, moved, rest, hsplit, rfl, rfl⟩ := futexRequeue_eq_ok hsection
  have htake : Keeps q phase (update q addr (moved ++ rest))
      (update phase t (.waking (taken.map FutexWaiter.pid))) := .take ht (by rw [hsplit])
  have hmove := htake.trans (.transfer addr2 (update_self addr _ q))
  rwa [update_idem] at hmove

/-! ## The invariant -/

/-- What every run keeps. -/
structure FutexInv (s : FutexState) : Prop where
  waiters : WaitersOk s.queues s.phase
  noOrphan : NoOrphan s.queues s.phase

variable {s s' : FutexState} {op : FutexOp}

theorem FutexInv.keep (h : FutexInv s) (hkeeps : Keeps s.queues s.phase s'.queues s'.phase) : FutexInv s' := by
  refine ⟨⟨hkeeps.placed h.waiters.placed, ?_⟩, ?_⟩
  · intro l u hu
    obtain ⟨l', hu'⟩ := (hkeeps.somewhere u).mp ⟨l, hu⟩
    exact (hkeeps.inWait u).mpr (h.waiters.waiting l' u hu')
  · intro u hu
    exact (hkeeps.somewhere u).mpr (h.noOrphan u ((hkeeps.inWait u).mp hu))

/-- A thread queues up. -/
theorem FutexInv.enqueue (h : FutexInv s) (ht : (s.phase t).Free) {bitset : BitVec 32}
    (hqueues : s'.queues = Futex.enqueue s.queues t addr bitset)
    (hphase : s'.phase = update s.phase t .enqueued) : FutexInv s' := by
  have hpids : pidsAt s'.queues s'.phase = update (pidsAt s.queues s.phase) (.queue addr)
      (pidsAt s.queues s.phase (.queue addr) ++ [t]) := by
    rw [hqueues, hphase, Futex.enqueue, pidsAt_queue, pidsAt_update (p := .enqueued) ht.2.symm, map_append]
    rfl
  have hmem : ∀ {l u}, u ≠ t → (u ∈ pidsAt s'.queues s'.phase l ↔ u ∈ pidsAt s.queues s.phase l) := by
    intro l u hu
    rw [hpids]
    by_cases hl : l = .queue addr
    · subst hl
      rw [update_self, mem_append, mem_singleton, or_iff_left hu]
    · rw [update_of_ne hl]
  have hwait : ∀ {u}, u ≠ t → s'.phase u = s.phase u := by
    intro u hu
    rw [hphase, update_of_ne hu]
  refine ⟨⟨?_, ?_⟩, ?_⟩
  · rw [hpids]
    refine h.waiters.placed.append (nodup_singleton t) ?_
    intro x hx l hmem
    cases mem_singleton.mp hx
    exact ht.1 (h.waiters.waiting l t hmem)
  · intro l u hu
    by_cases hut : u = t
    · subst hut
      rw [hphase, update_self]
      trivial
    · rw [hwait hut]
      exact h.waiters.waiting l u ((hmem hut).mp hu)
  · intro u hu
    by_cases hut : u = t
    · subst hut
      refine ⟨.queue addr, ?_⟩
      rw [hpids, update_self]
      exact mem_append_right _ (mem_singleton.mpr rfl)
    · rw [hwait hut] at hu
      obtain ⟨l, hl⟩ := h.noOrphan u hu
      exact ⟨l, (hmem hut).mpr hl⟩

/-! ## What a step leaves alone -/

/-- In a `WAIT`, from the read on. -/
def FPhase.Waits : FPhase → Prop
  | .matched _ _ _ | .enqueued | .blocked => True
  | _ => False

/-- A thread in a wait that is not on its way to block. -/
theorem blocked_of_inWait {p : FPhase} (hwait : p.InWait) (hne : p ≠ .enqueued) : p = .blocked := by
  cases p <;> first | rfl | exact hwait.elim | exact absurd rfl hne

theorem wakeThread_of_blocked (h : phase pid = .blocked) : wakeThread phase pid = update phase pid .running := by
  unfold wakeThread
  rw [h]

theorem wakeThread_of_ne (h : phase pid ≠ .blocked) : wakeThread phase pid = phase := by
  unfold wakeThread
  split
  next hblocked =>
    exact absurd hblocked h
  · rfl

/-- `wake_up` changes a blocked thread and no other. -/
theorem wakeThread_apply (phase : Nat → FPhase) (pid u : Nat) :
    wakeThread phase pid u = phase u ∨ u = pid ∧ phase u = .blocked ∧ wakeThread phase pid u = .running := by
  by_cases hblocked : phase pid = .blocked
  · rw [wakeThread_of_blocked hblocked]
    by_cases hu : u = pid
    · subst hu
      exact .inr ⟨rfl, hblocked, update_self ..⟩
    · exact .inl (update_of_ne hu _ _)
  · rw [wakeThread_of_ne hblocked]
    exact .inl rfl

/-- A `wake_up` that comes in time takes the thread from the list of the caller and out of its wait. -/
theorem FutexInv.wakeUp (h : FutexInv s) (hactor : s.phase t = .waking (pid :: pids))
    (htimely : s.phase pid ≠ .enqueued) (hqueues : s'.queues = s.queues)
    (hphase : s'.phase = wakeThread (update s.phase t (.waking pids)) pid) : FutexInv s' := by
  have hlist : pidsAt s.queues s.phase (.call t) = pid :: pids := by rw [pidsAt, hactor, FPhase.pending]
  have hwait : (s.phase pid).InWait := h.waiters.waiting _ pid (by rw [hlist]; exact mem_cons_self)
  have hne : pid ≠ t := by
    rintro rfl
    rw [hactor] at hwait
    exact hwait
  have hblocked : update s.phase t (.waking pids) pid = .blocked := by
    rw [update_of_ne hne]
    exact blocked_of_inWait hwait htimely
  have hnodup := h.waiters.placed.nodup (.call t)
  rw [hlist, nodup_cons] at hnodup
  rw [wakeThread_of_blocked hblocked] at hphase
  have hpids : pidsAt s'.queues s'.phase = update (pidsAt s.queues s.phase) (.call t) pids := by
    rw [hqueues, hphase, pidsAt_update (by rw [hblocked]; rfl), pidsAt_call]
  -- The thread was in one place, and everybody else stays.
  have hmem : ∀ l u, u ∈ pidsAt s'.queues s'.phase l ↔ u ∈ pidsAt s.queues s.phase l ∧ u ≠ pid := by
    intro l u
    rw [hpids]
    by_cases hl : l = .call t
    · subst hl
      rw [update_self, hlist, mem_cons]
      constructor
      · exact fun hu => ⟨.inr hu, fun heq => hnodup.1 (heq ▸ hu)⟩
      · exact fun hu => hu.1.resolve_left hu.2
    · rw [update_of_ne hl]
      refine ⟨fun hu => ⟨hu, ?_⟩, fun hu => hu.1⟩
      rintro rfl
      exact hl (h.waiters.placed.unique hu (by rw [hlist]; exact mem_cons_self))
  have hin : ∀ u, (s'.phase u).InWait ↔ (s.phase u).InWait ∧ u ≠ pid := by
    intro u
    rw [hphase]
    by_cases hup : u = pid
    · subst hup
      rw [update_self]
      exact ⟨False.elim, fun hu => absurd rfl hu.2⟩
    · rw [update_of_ne hup, inWait_update (by rw [hactor]; exact Iff.rfl), and_iff_left hup]
  refine ⟨⟨?_, ?_⟩, ?_⟩
  · rw [hpids]
    refine h.waiters.placed.shrink hnodup.2 ?_
    rw [hlist]
    exact subset_cons_self pid pids
  · intro l u hu
    have hold := (hmem l u).mp hu
    exact (hin u).mpr ⟨h.waiters.waiting l u hold.1, hold.2⟩
  · intro u hu
    have hold := (hin u).mp hu
    obtain ⟨l, hl⟩ := h.noOrphan u hold.1
    exact ⟨l, (hmem l u).mpr ⟨hl, hold.2⟩⟩

/-- What a step can do: to the places, and to the phase, the waits and the calls of each thread. -/
inductive Effect (s s' : FutexState) (op : FutexOp) : Prop where
  /-- The acting thread takes a new phase outside a wait, or one it was on the way to. -/
  | own (p : FPhase) (hphase : s'.phase = update s.phase op.actor p) (hinv : FutexInv s → FutexInv s')
      (hwaits : s'.waits = s.waits) (hp : p.Waits → (s.phase op.actor).Waits)
      (hcalls : s'.calls = s.calls ∨
        s.phase op.actor = .waking [] ∧ s'.calls = update s.calls op.actor (s.calls op.actor + 1))
      (hpending : (s.phase op.actor).pending = [])
  /-- A new wait begins. -/
  | begin (p : FPhase) (hphase : s'.phase = update s.phase op.actor p) (hinv : FutexInv s → FutexInv s')
      (hwaits : s'.waits = update s.waits op.actor (s.waits op.actor + 1)) (hcalls : s'.calls = s.calls)
      (hrunning : s.phase op.actor = .running)
  /-- A thread is woken, if it is blocked. -/
  | wake (pid : Nat) (pids : List Nat) (hop : op = .wakeUp op.actor)
      (hactor : s.phase op.actor = .waking (pid :: pids))
      (hphase : s'.phase = wakeThread (update s.phase op.actor (.waking pids)) pid)
      (hqueues : s'.queues = s.queues) (hwaits : s'.waits = s.waits) (hcalls : s'.calls = s.calls)

theorem afterSection_effect (op : FutexOp) {r : Checked (Except FutexError (List Nat × Queues))}
    (ht : (s.phase op.actor).Free) (hok : ∀ pids queues, r = .ok (.ok (pids, queues)) →
      Keeps s.queues s.phase queues (update s.phase op.actor (.waking pids)))
    (hstep : afterSection s op.actor r = some s') : Effect s s' op := by
  unfold afterSection at hstep
  split at hstep
  · cases hstep
    exact .own _ rfl (fun h => h.keep (hok _ _ rfl)) rfl False.elim (.inl rfl) ht.2
  · cases hstep
    exact .own _ rfl (fun h => h.keep (.update ht.2.symm ⟨False.elim, ht.1⟩)) rfl False.elim (.inl rfl) ht.2
  · cases hstep

/-- A running thread that stays so. -/
theorem effect_same (hphase : s.phase op.actor = .running) (hqueues : s'.queues = s.queues)
    (hsame : s'.phase = s.phase) (hwaits : s'.waits = s.waits) (hcalls : s'.calls = s.calls) : Effect s s' op := by
  refine .own _ ?_ (fun h => ⟨?_, ?_⟩) hwaits id (.inl hcalls) (by rw [hphase]; rfl)
  · rw [hsame, update_eq_self]
  · rw [hqueues, hsame]
    exact h.waiters
  · rw [hqueues, hsame]
    exact h.noOrphan

theorem free_of_running (h : phase t = .running) : (phase t).Free := by
  rw [h]
  exact ⟨id, rfl⟩

/-- **Every step has one of three effects.** -/
theorem FutexState.step_effect (hstep : s.step op = some s') : Effect s s' op := by
  cases op with simp only [step] at hstep
  | store t addr value =>
    split at hstep
    next hphase =>
      cases hstep
      exact effect_same hphase rfl rfl rfl rfl
    · cases hstep
  | wait t addr expected bitset =>
    split at hstep
    next hphase _ =>
      split at hstep
      · cases hstep
        exact effect_same hphase rfl rfl rfl rfl
      cases hstep
      refine .begin _ rfl (fun h => h.keep (.update ?_ ?_)) rfl rfl hphase
      · rw [hphase]
        rfl
      · rw [hphase]
        exact Iff.rfl
    next hphase _ =>
      cases hstep
      exact effect_same hphase rfl rfl rfl rfl
    · cases hstep
  | enqueue t =>
    split at hstep
    next hphase =>
      cases hstep
      have hfree : (s.phase t).Free := hphase ▸ ⟨id, rfl⟩
      refine .own _ rfl (fun h => h.enqueue hfree rfl rfl) rfl (fun _ => ?_) (.inl rfl) hfree.2
      rw [FutexOp.actor, hphase]
      trivial
    · cases hstep
  | block t =>
    split at hstep
    next hphase =>
      cases hstep
      have hpending : (s.phase t).pending = [] := by rw [hphase]; rfl
      refine .own _ rfl (fun h => h.keep (.update hpending.symm ?_)) rfl (fun _ => ?_) (.inl rfl) hpending
      · rw [hphase]
        exact Iff.rfl
      · rw [FutexOp.actor, hphase]
        trivial
    · cases hstep
  | wake t addr count bitset =>
    split at hstep
    next hphase =>
      exact afterSection_effect _ (free_of_running hphase)
        (fun _ _ hsection => wakeSection_keeps (free_of_running hphase) hsection) hstep
    · cases hstep
  | requeue t addr wakeCount addr2 requeueCount =>
    split at hstep
    next hphase =>
      exact afterSection_effect _ (free_of_running hphase)
        (fun _ _ hsection => requeueSection_keeps (free_of_running hphase) hsection) hstep
    · cases hstep
  | compare t addr wakeCount addr2 requeueCount expected =>
    split at hstep
    next hphase _ =>
      cases hstep
      have hfree := free_of_running hphase
      exact .own _ rfl (fun h => h.keep (.update hfree.2.symm ⟨False.elim, hfree.1⟩)) rfl False.elim (.inl rfl) hfree.2
    next hphase _ =>
      cases hstep
      exact effect_same hphase rfl rfl rfl rfl
    · cases hstep
  | requeueNow t =>
    split at hstep
    next hphase =>
      have hfree : (s.phase t).Free := hphase ▸ ⟨id, rfl⟩
      exact afterSection_effect _ hfree (fun _ _ hsection => requeueSection_keeps hfree hsection) hstep
    · cases hstep
  | wakeUp t =>
    split at hstep
    next pid pids hphase =>
      cases hstep
      exact .wake pid pids rfl hphase rfl rfl rfl rfl
    next hphase =>
      cases hstep
      have hfree : (s.phase t).Free := hphase ▸ ⟨id, rfl⟩
      exact .own _ rfl (fun h => h.keep (.update hfree.2.symm ⟨False.elim, hfree.1⟩)) rfl False.elim
        (.inr ⟨hphase, rfl⟩) hfree.2
    · cases hstep

/-- **One step keeps every waiter in one place and forgets nobody**, if the wake-ups come in time. -/
theorem FutexInv.step (h : FutexInv s) (hok : Timely s op) (hstep : s.step op = some s') : FutexInv s' := by
  cases step_effect hstep with
  | own p hphase hinv | begin p hphase hinv => exact hinv h
  | wake pid pids hop hactor hphase hqueues =>
    rw [hop] at hok
    exact h.wakeUp hactor (hok pid pids hactor) hqueues hphase

/-! ## A wait that is over -/

/-- The `n`-th wait of the thread is over. -/
def WaitOver (s : FutexState) (u n : Nat) : Prop := n < s.waits u ∨ s.waits u = n ∧ ¬ (s.phase u).Waits

theorem WaitOver.step {n : Nat} (h : WaitOver s u n) (hstep : s.step op = some s') : WaitOver s' u n := by
  cases step_effect hstep with
  | own p hphase _ hwaits hp _ _ =>
    unfold WaitOver
    rw [hwaits]
    refine h.imp_right (fun hsame => ⟨hsame.1, ?_⟩)
    rw [hphase]
    by_cases hu : u = op.actor
    · subst hu
      rw [update_self]
      exact fun hw => hsame.2 (hp hw)
    · rw [update_of_ne hu]
      exact hsame.2
  | begin p hphase _ hwaits hcalls _ =>
    unfold WaitOver
    rw [hwaits, hphase]
    by_cases hu : u = op.actor
    · subst hu
      rw [update_self]
      rcases h with h | h <;> omega
    · rw [update_of_ne hu, update_of_ne hu]
      exact h
  | wake pid pids _ _ hphase _ hwaits hcalls =>
    unfold WaitOver
    rw [hwaits]
    refine h.imp_right (fun hsame => ⟨hsame.1, ?_⟩)
    rw [hphase]
    rcases wakeThread_apply _ pid u with heq | ⟨-, -, hrun⟩
    · rw [heq]
      by_cases hu : u = op.actor
      · subst hu
        rw [update_self]
        exact id
      · rw [update_of_ne hu]
        exact hsame.2
    · rw [hrun]
      exact id

/-- **A thread on the list of a call stays there until it is woken.** -/
theorem pending_step {w : Nat} (h : WaitersOk s.queues s.phase) (hmem : u ∈ (s.phase w).pending)
    (hok : Timely s op) (hstep : s.step op = some s') :
    (u ∈ (s'.phase w).pending ∧ s'.calls w = s.calls w ∧ s'.waits u = s.waits u) ∨ WaitOver s' u (s.waits u) := by
  have hwait : (s.phase u).InWait := h.waiting (.call w) u hmem
  have huw : u ≠ w := by
    rintro rfl
    cases hp : s.phase u <;> rw [hp] at hwait hmem <;> first | exact hwait | cases hmem
  have hnot : (s.phase op.actor).pending = [] → w ≠ op.actor := by
    rintro hnil rfl
    rw [hnil] at hmem
    cases hmem
  cases step_effect hstep with
  | own p hphase _ hwaits hp hcalls hpending =>
    have hactor := hnot hpending
    left
    refine ⟨?_, ?_, by rw [hwaits]⟩
    · rw [hphase, update_of_ne hactor]
      exact hmem
    rcases hcalls with hcalls | ⟨-, hcalls⟩
    · rw [hcalls]
    · rw [hcalls, update_of_ne hactor]
  | begin p hphase _ hwaits hcalls hrunning =>
    have hactor := hnot (free_of_running hrunning).2
    have hu : u ≠ op.actor := by
      rintro rfl
      rw [hrunning] at hwait
      exact hwait
    left
    refine ⟨?_, by rw [hcalls], by rw [hwaits, update_of_ne hu]⟩
    rw [hphase, update_of_ne hactor]
    exact hmem
  | wake pid pids hop hactor hphase _ hwaits hcalls =>
    have htimely : s.phase pid ≠ .enqueued := by
      rw [hop] at hok
      exact hok pid pids hactor
    by_cases hw : w = op.actor
    · subst hw
      rw [hactor] at hmem
      rcases mem_cons.mp hmem with rfl | hmem
      · -- It is this thread's turn; it is blocked, for it waits and is not on its way to block.
        right
        have hblocked : update s.phase op.actor (.waking pids) u = .blocked := by
          rw [update_of_ne huw]
          exact blocked_of_inWait hwait htimely
        refine .inr ⟨by rw [hwaits], ?_⟩
        rw [hphase, wakeThread_of_blocked hblocked, update_self]
        exact id
      left
      refine ⟨?_, by rw [hcalls], by rw [hwaits]⟩
      rw [hphase]
      rcases wakeThread_apply _ pid op.actor with heq | ⟨-, hb, -⟩
      · rw [heq, update_self]
        exact hmem
      · rw [update_self] at hb
        cases hb
    · left
      refine ⟨?_, by rw [hcalls], by rw [hwaits]⟩
      rw [hphase]
      rcases wakeThread_apply _ pid w with heq | ⟨-, hb, -⟩
      · rw [heq, update_of_ne hw]
        exact hmem
      rw [update_of_ne hw] at hb
      rw [hb] at hmem
      cases hmem

/-! ## Main result -/

/-- No thread is in `sys_futex`, and the queues are empty. -/
def FutexState.Start (s : FutexState) : Prop := (∀ t, s.phase t = .running) ∧ ∀ addr, s.queues addr = []

theorem FutexState.Start.inv (h : s.Start) : FutexInv s := by
  have hpids : pidsAt s.queues s.phase = fun _ => [] := by
    funext l
    cases l with
    | queue addr => simp only [pidsAt, h.2 addr, map_nil]
    | call t => simp [pidsAt, h.1 t, FPhase.pending]
  refine ⟨⟨?_, ?_⟩, ?_⟩
  · rw [hpids]
    exact Placed.empty
  · rw [hpids]
    exact nofun
  · intro u hu
    rw [h.1 u] at hu
    exact hu.elim

/-- The waiters a `WAKE` takes, first come first. -/
def takes (q : Queues) (addr : Nat) (count : Int) (bitset : Option (BitVec 32)) : List FutexWaiter :=
  ((q addr).filter (fun w => matchesBits w.bitset bitset)).take count.toNat

/-- What a `WAKE` with a count that is not negative returns. -/
theorem wakeSection_pids (hcount : 0 ≤ count ∧ count ≤ I32_MAX) (hlen : (q addr).length < 2 ^ 31)
    (h : wakeSection q addr count bitset = .ok (.ok (pids, q'))) :
    pids = (takes q addr count bitset).map FutexWaiter.pid := by
  cases bitset with
  | none =>
    have hall : (q addr).filter (fun w => matchesBits w.bitset none) = q addr := filter_eq_self.mpr (fun _ _ => rfl)
    unfold wakeSection at h
    by_cases haddr : userAddr addr = true
    · rw [futexWake_eq haddr (fun _ => hcount.1) hlen] at h
      cases h
      unfold takes
      rw [hall]
    · unfold futexWake at h
      rw [if_pos (by simpa using haddr)] at h
      cases h
  | some bitset =>
    unfold I32_MAX at hcount
    obtain ⟨taken, stay, -, rfl, -, htaken⟩ := futexWakeBitset_eq_ok (Except.ok.inj h)
    rw [asUsize_of_nonneg hcount.1 (by omega)] at htaken
    rw [htaken]
    rfl

/-- The state behind the section of a `WAKE` that was not refused. -/
theorem step_wake_pids (hstep : s.step (.wake t addr count bitset) = some s') (hphase : s'.phase t = .waking pids) :
    wakeSection s.queues addr count bitset = .ok (.ok (pids, s'.queues)) ∧ s'.waits = s.waits := by
  simp only [step] at hstep
  split at hstep
  · unfold afterSection at hstep
    split at hstep
    next pids' queues hsection =>
      cases hstep
      simp only [update_self, FPhase.waking.injEq] at hphase
      subst hphase
      exact ⟨hsection, rfl⟩
    · cases hstep
      simp only [update_self] at hphase
      cases hphase
    · cases hstep
  · cases hstep

/-- **No wake-up is lost** when nobody comes between the steps of a wait. A `WAKE` returns at most `count` waiters of
    its word that match, no one twice, first come first. If it is for all waiters, then once it has finished no
    thread is still blocked in the wait in which it had read the word before the word was changed and the `WAKE`
    ran. And whoever is blocked at any time is on a queue, or on the list of a call that is about to wake it. -/
theorem no_lost_wakeup {s₁ s₂ s₃ : FutexState} {w addr : Nat} {count : Int} {bitset : Option (BitVec 32)}
    {pids : List Nat} (h₁ : Run.Reach FutexState.step Timely FutexState.Start s₁)
    (hok : Timely s₁ (.wake w addr count bitset)) (hwake : s₁.step (.wake w addr count bitset) = some s₂)
    (hentered : s₂.phase w = .waking pids) (hrun : Run.Steps FutexState.step Timely s₂ s₃)
    (hcount : 0 ≤ count ∧ count ≤ I32_MAX) (hlen : (s₁.queues addr).length < 2 ^ 31) :
    (pids = (takes s₁.queues addr count bitset).map FutexWaiter.pid ∧ pids.length ≤ count.toNat ∧ pids.Nodup) ∧
    (count = I32_MAX → s₂.calls w < s₃.calls w → ∀ u bits,
      ((∃ expected, s₁.phase u = .matched addr expected bits ∧ s₁.changed u = true) ∨
        ⟨u, bits⟩ ∈ s₁.queues addr) → matchesBits bits bitset →
      ¬ (s₃.phase u = .blocked ∧ s₃.waits u = s₁.waits u)) ∧
    ∀ u, s₃.phase u = .blocked → Somewhere s₃.queues s₃.phase u := by
  have hinv₁ : FutexInv s₁ :=
    h₁.invariant FutexInv (fun _ => Start.inv) (fun _ _ _ => FutexInv.step)
  have hinv₂ : FutexInv s₂ := hinv₁.step hok hwake
  have hinv₃ : FutexInv s₃ := hrun.invariant FutexInv (fun _ _ _ => FutexInv.step) hinv₂
  obtain ⟨hsection, hwaits⟩ := step_wake_pids hwake hentered
  have hpids := wakeSection_pids hcount hlen hsection
  refine ⟨⟨hpids, ?_, ?_⟩, ?_, ?_⟩
  · rw [hpids, length_map]
    exact length_take_le _ _
  · have hnodup := hinv₂.waiters.placed.nodup (.call w)
    rw [pidsAt, hentered] at hnodup
    exact hnodup
  · intro hall _ u bits hmeant hbits
    rcases hmeant with ⟨expected, hmatched, hchanged⟩ | hqueued
    · exact absurd hbits (hok hall u expected bits hmatched hchanged)
    -- From the section on, the thread is on the caller's list until its wait is over.
    have hpending : u ∈ (s₂.phase w).pending := by
      rw [hentered]
      rw [hpids]
      refine mem_map.mpr ⟨⟨u, bits⟩, ?_, rfl⟩
      unfold takes
      rw [take_of_length_le]
      · exact mem_filter.mpr ⟨hqueued, decide_eq_true hbits⟩
      · rw [hall]
        exact le_trans (length_filter_le _ _) (by unfold I32_MAX; omega)
    have hfollow : FutexInv s₃ ∧ ((u ∈ (s₃.phase w).pending ∧ s₃.calls w = s₂.calls w ∧ s₃.waits u = s₂.waits u) ∨
        WaitOver s₃ u (s₂.waits u)) := by
      refine hrun.invariant (fun s => FutexInv s ∧
        ((u ∈ (s.phase w).pending ∧ s.calls w = s₂.calls w ∧ s.waits u = s₂.waits u) ∨
          WaitOver s u _)) ?_ ⟨hinv₂, .inl ⟨hpending, rfl, rfl⟩⟩
      rintro s op s' ⟨hinv, hs⟩ hok hstep
      refine ⟨hinv.step hok hstep, ?_⟩
      rcases hs with ⟨hmem, hcalls, hsame⟩ | hover
      · rcases pending_step hinv.waiters hmem hok hstep with ⟨hmem', hcalls', hsame'⟩ | hover
        · exact .inl ⟨hmem', hcalls'.trans hcalls, hsame'.trans hsame⟩
        · exact .inr (hsame ▸ hover)
      · exact .inr (hover.step hstep)
    rcases hfollow.2 with ⟨-, hcalls, -⟩ | hover
    · omega
    rintro ⟨hblocked, hsame⟩
    rw [hwaits] at hover
    rcases hover with hover | ⟨-, hover⟩
    · omega
    · rw [hblocked] at hover
      exact hover trivial
  · intro u hblocked
    exact hinv₃.noOrphan u (by rw [hblocked]; trivial)

/-- The state after some steps from the start; a step that is not there is skipped. -/
def played (ops : List FutexOp) : FutexState := ops.foldl (fun s op => (s.step op).getD s) {}

/-- Thread `1` waits for the word at `0x1000`, and thread `2` changes it. -/
def blockedThenStored : List FutexOp := [.wait 1 0x1000 0 none, .enqueue 1, .block 1, .store 2 0x1000 1]

theorem phase_blockedThenStored : (played blockedThenStored).phase = update (fun _ => .running) 1 .blocked := by
  have h : (played blockedThenStored).phase = update (update (update
      (fun _ => .running) 1 (.matched 0x1000 0 FUTEX_BITSET_MATCH_ANY)) 1 .enqueued) 1 .blocked := rfl
  rw [h, update_idem, update_idem]

theorem no_lost_wakeup_one : ∃ s₁ s₂ s₃ : FutexState, Run.Reach FutexState.step Timely FutexState.Start s₁ ∧
    s₁.step (.wake 2 0x1000 I32_MAX none) = some s₂ ∧ s₂.phase 2 = .waking [1] ∧
    Run.Steps FutexState.step Timely s₂ s₃ ∧ s₂.calls 2 < s₃.calls 2 ∧
    ¬ (s₃.phase 1 = .blocked ∧ s₃.waits 1 = s₁.waits 1) := by
  have h₀ : Reach step Timely Start (played []) := Reach.start ⟨fun _ => rfl, fun _ => rfl⟩
  have hqueued := (h₀.next (a := FutexOp.wait 1 0x1000 0 none) trivial rfl).next (a := FutexOp.enqueue 1) trivial rfl
  have h₁ : Reach step Timely Start (played blockedThenStored) :=
    (hqueued.next (a := FutexOp.block 1) trivial rfl).next (a := FutexOp.store 2 0x1000 1) trivial rfl
  have hok : Timely (played blockedThenStored) (.wake 2 0x1000 I32_MAX none) := by
    intro _ u expected bits hmatched
    rw [phase_blockedThenStored] at hmatched
    by_cases hu : u = 1
    · subst hu
      cases hmatched
    · rw [update_of_ne hu] at hmatched
      cases hmatched
  have hwake : (played blockedThenStored).step (.wake 2 0x1000 I32_MAX none)
      = some (played (blockedThenStored ++ [.wake 2 0x1000 I32_MAX none])) := rfl
  have hrun : Steps step Timely (played (blockedThenStored ++ [.wake 2 0x1000 I32_MAX none]))
      (played (blockedThenStored ++ [.wake 2 0x1000 I32_MAX none, .wakeUp 2, .wakeUp 2])) := by
    refine ((Steps.refl _).next (a := .wakeUp 2) ?_ rfl).next (a := .wakeUp 2) ?_ rfl
    · intro pid pids hphase
      cases hphase
      exact nofun
    · nofun
  have hlost := no_lost_wakeup h₁ hok hwake rfl hrun (by decide) (by decide)
  exact ⟨_, _, _, h₁, hwake, rfl, hrun, by decide,
    hlost.2.1 rfl (by decide) 1 FUTEX_BITSET_MATCH_ANY (.inr (mem_singleton.mpr rfl)) trivial⟩

/-- **The wake-up that comes too early.** Thread `1` reads the word and finds the expected value. Before it queues up,
    thread `2` changes the word and wakes everybody, finds nobody and is done; then thread `1` queues up and blocks,
    on a word that has another value. -/
theorem wakeup_lost_before_enqueue :
    ∃ s : FutexState, Run.exec FutexState.step (fun _ _ => True) {} [.wait 1 0x1000 0 none, .store 2 0x1000 1,
        .wake 2 0x1000 I32_MAX none, .wakeUp 2, .enqueue 1, .block 1] = some s ∧
      s.phase 1 = .blocked ∧ s.phase 2 = .running ∧ s.word 0x1000 = 1 ∧ s.calls 2 = 1 ∧ s.waits 1 = 1 :=
  ⟨_, rfl, rfl, rfl, rfl, rfl, rfl⟩

end OxideOs.Futex
