import OxideOs.Waitqueue.Queue

/-!
# `Waitqueue.Waiters` — waiters are not lost

What the accesses of all calls in flight do to a slot, to the length and to the pids on their way to the wake
callback. The length is the number of occupied slots, up to the calls that are between their two accesses. A
slot that holds a waiter keeps it until a wake call takes it or the waiter itself leaves, provided that an
`unregister` by slot number finds its own pid in the slot, or nobody's. The number may be old: a wake call
empties the slot, another task registers in it, and `unregister` throws that task out.
-/

namespace OxideOs.Waitqueue

open Function Option Finset BitVec List Run WaitQueue Call

/-! ## The slots -/

namespace WaitQueue

variable {q : WaitQueue} {i : Slot}

theorem occupied_fill {pid : Pid} (h : q.slots i = PID_NONE) (hp : pid ≠ PID_NONE) :
    occupied { q with slots := update q.slots i pid } = q.occupied + 1 := by
  unfold occupied
  have hset : univ.filter (fun j => update q.slots i pid j ≠ PID_NONE) =
      insert i (univ.filter (fun j => q.slots j ≠ PID_NONE)) := by
    ext j
    simp only [Finset.mem_filter, mem_univ, true_and, mem_insert]
    by_cases hj : j = i
    · subst hj
      rw [update_self]
      exact ⟨fun _ => .inl rfl, fun _ => hp⟩
    · rw [update_of_ne hj]
      exact ⟨.inr, fun hx => hx.resolve_left hj⟩
  rw [hset]
  simp [h]

theorem occupied_empty (h : q.slots i ≠ PID_NONE) :
    occupied { q with slots := update q.slots i PID_NONE } + 1 = q.occupied := by
  have hset : update (update q.slots i PID_NONE) i (q.slots i) = q.slots := by
    rw [update_idem, update_eq_self]
  have hfill := @occupied_fill { q with slots := update q.slots i PID_NONE } i _ (update_self _ _ _) h
  rw [hset] at hfill
  exact hfill.symm

theorem swap_none (h : q.slots i = PID_NONE) : (q.swap i PID_NONE).2 = q := by
  unfold swap
  rw [← h, update_eq_self]

end WaitQueue

namespace Call

/-- What a call has done to the slots and not yet to the length. -/
def lag : Call → Int
  | .registered _ _ => 1
  | .unregistered => -1
  | .took _ _ _ => -1
  | _ => 0

/-- The pid a wake call has taken and not yet woken. -/
def hand : Call → Option Pid
  | .took _ _ pid => some pid
  | .waking _ _ pid => some pid
  | _ => none

/-- The pid a call writes or looks for is a task's. -/
def Sane : Call → Prop
  | .register pid _ => pid ≠ PID_NONE
  | .unregisterPid pid _ => pid ≠ PID_NONE
  | _ => True

/-- The next access takes the waiter `pid` out of slot `i`, for a wake or because `pid` itself leaves. -/
def Ends (i : Slot) (pid : Pid) : Call → Prop
  | .wake _ j => j = i
  | .unregister q slot => slot = i.val ∧ q = pid
  | .unregisterPid q j => j = i ∧ q = pid
  | _ => False

/-- An `unregister` by slot number finds its own pid in the slot, or nobody's. -/
def Fresh (q : WaitQueue) : Call → Prop
  | .unregister pid slot => ∀ h : slot < MAX_WAITERS, q.slots ⟨slot, h⟩ = pid ∨ q.slots ⟨slot, h⟩ = PID_NONE
  | _ => True

instance (q : WaitQueue) (c : Call) : Decidable (c.Fresh q) := by
  delta Fresh
  cases c <;> infer_instance

variable {q : WaitQueue} {c : Call} {e : Effect} {i : Slot} {x : Int}

/-! ### What the accesses do -/

theorem step_register_free {p : Pid} {j : Slot} (h : q.slots j = PID_NONE) : (register p j).step q =
      { queue := { q with slots := update q.slots j p }, rest := some (.registered p j) } := by
  simp [step, compareExchange, if_pos h]

/-- A call that has neither the length to bring up to date nor a pid in hand, and is as sane as `c`. -/
def Follows (c c' : Call) : Prop := c'.lag = 0 ∧ c'.hand = none ∧ (c.Sane → c'.Sane)

/-- **What one access does**: it fills a slot, empties one, looks at one or wakes, or brings the length up to date. -/
inductive Does (q : WaitQueue) (c : Call) : Effect → Prop where
  | fill (p : Pid) (j : Slot) (hc : c = .register p j) (hj : q.slots j = PID_NONE) :
      Does q c { queue := { q with slots := update q.slots j p }, rest := some (.registered p j) }
  | empty (j : Slot) (c' : Call) (hlag : c.lag = 0) (hhand : c.hand = none) (hj : c.Sane → q.slots j ≠ PID_NONE)
      (hlag' : c'.lag = -1) (hsane : c'.Sane) (hends : c.Fresh q → q.slots j ≠ PID_NONE → c.Ends j (q.slots j)) :
      Does q c { queue := (q.swap j PID_NONE).2, rest := some c', taken := c'.hand }
  | look (rest : Option Call) (hlag : c.lag = 0) (hrest : ∀ c', rest = some c' → c.Follows c') :
      Does q c { queue := q, rest := rest, woken := c.hand }
  | up (p : Pid) (j : Slot) (hc : c = .registered p j) :
      Does q c { queue := q.fetchAdd, rest := none, granted := some (p, j) }
  | down (rest : Option Call) (hlag : c.lag = -1) (hrest : ∀ c', rest = some c' → c'.lag = 0 ∧ c'.Sane)
      (hhand : c.hand = rest.bind hand) : Does q c { queue := q.fetchSub, rest := rest }

theorem follows_next {f : Slot → Call} (h : ∀ j, c.Follows (f j)) :
    ∀ c', (nextSlot i).map f = some c' → c.Follows c' := by
  intro c' hc'
  obtain ⟨j, -, rfl⟩ := map_eq_some_iff.mp hc'
  exact h j

theorem step_does (q : WaitQueue) (c : Call) : Does q c (c.step q) := by
  cases c with
  | register p j =>
    by_cases hj : q.slots j = PID_NONE
    · rw [step_register_free hj]
      exact .fill p j rfl hj
    · simp only [step, compareExchange, if_neg hj]
      exact .look _ rfl (follows_next (fun _ => ⟨rfl, rfl, id⟩))
  | registered p j => exact .up p j rfl
  | unregister p slot =>
    by_cases h : slot < MAX_WAITERS
    · simp only [step, dif_pos h]
      by_cases hj : (q.swap ⟨slot, h⟩ PID_NONE).1 = PID_NONE
      · rw [if_neg (not_not.mpr hj), swap_none hj]
        exact .look none rfl nofun
      rw [if_pos hj]
      exact .empty ⟨slot, h⟩ .unregistered rfl rfl (fun _ => hj) rfl trivial
        (fun hf hne => ⟨rfl, ((hf h).resolve_right hne).symm⟩)
    · simp only [step, dif_neg h]
      exact .look none rfl nofun
  | unregisterPid p j =>
    by_cases hj : q.slots j = p
    · simp only [step, compareExchange, if_pos hj]
      exact .empty j .unregistered rfl rfl (fun hs => hj ▸ hs) rfl trivial (fun _ _ => ⟨rfl, hj.symm⟩)
    · simp only [step, compareExchange, if_neg hj]
      exact .look _ rfl (follows_next (fun _ => ⟨rfl, rfl, id⟩))
  | unregistered => exact .down none rfl nofun rfl
  | wake all j =>
    simp only [step]
    by_cases hj : (q.swap j PID_NONE).1 = PID_NONE
    · rw [if_neg (not_not.mpr hj), swap_none hj]
      exact .look _ rfl (follows_next (fun _ => ⟨rfl, rfl, id⟩))
    · rw [if_pos hj]
      exact .empty j _ rfl rfl (fun _ => hj) rfl trivial (fun _ _ => rfl)
  | took all j p =>
    refine .down _ rfl (fun c' hc' => ?_) rfl
    cases hc'
    exact ⟨rfl, trivial⟩
  | waking all j p =>
    refine .look _ rfl (fun c' hc' => ?_)
    split at hc'
    · exact follows_next (f := .wake all) (fun _ => ⟨rfl, rfl, fun _ => trivial⟩) c' hc'
    · cases hc'

/-- **An access keeps every waiter** that it does not take. -/
theorem Does.slot {pid : Pid} (hd : Does q c e) (hf : c.Fresh q) (hi : q.slots i = pid) (hp : pid ≠ PID_NONE)
    (hend : ¬c.Ends i pid) : e.queue.slots i = pid := by
  have hupdate : ∀ (j : Slot) (p : Pid), i ≠ j → update q.slots j p i = pid := by
    intro j p hj
    rw [update_of_ne hj]
    exact hi
  cases hd with
  | fill p j _ hj =>
    refine hupdate j p (fun he => hp ?_)
    rw [← hi, he]
    exact hj
  | empty j c' _ _ hj _ _ hends =>
    refine hupdate j PID_NONE (fun he => hend ?_)
    subst he
    rw [← hi] at hp ⊢
    exact hends hf hp
  | look | up | down => exact hi

/-- What is still to be done to the length after an access. -/
def lagOf (rest : Option Call) : Int := (rest.map lag).getD 0

theorem lagOf_eq_zero {rest : Option Call} (h : ∀ c', rest = some c' → c'.lag = 0) : lagOf rest = 0 := by
  cases rest with
  | none => rfl
  | some c' => exact h c' rfl

/-- A slot is emptied, which the length does not say yet. -/
theorem len_swap (hi : q.slots i ≠ PID_NONE) (h : q.len = BitVec.ofInt 32 (q.occupied - (x + 0))) :
    (q.swap i PID_NONE).2.len = BitVec.ofInt 32 ((q.swap i PID_NONE).2.occupied - (x + -1)) := by
  have hocc : (q.swap i PID_NONE).2.occupied + 1 = q.occupied := occupied_empty hi
  show q.len = _
  rw [h]
  congr 1
  omega

/-- The length catches up. -/
theorem len_fetchSub (h : q.len = BitVec.ofInt 32 (q.occupied - (x + -1))) :
    q.fetchSub.len = BitVec.ofInt 32 (q.fetchSub.occupied - (x + 0)) := by
  show q.len - 1#32 = BitVec.ofInt 32 (q.occupied - (x + 0))
  have hone : (-1#32 : BitVec 32) = BitVec.ofInt 32 (-1) := by decide
  rw [h, sub_eq_add_neg, hone, ← ofInt_add]
  congr 1
  omega

theorem len_fetchAdd (h : q.len = BitVec.ofInt 32 (q.occupied - (x + 1))) :
    q.fetchAdd.len = BitVec.ofInt 32 (q.fetchAdd.occupied - (x + 0)) := by
  show q.len + 1#32 = BitVec.ofInt 32 (q.occupied - (x + 0))
  have hone : (1#32 : BitVec 32) = BitVec.ofInt 32 1 := by decide
  rw [h, hone, ← ofInt_add]
  congr 1
  omega

/-- **An access to a slot is followed by one to the length.** -/
theorem Does.len (hd : Does q c e) (hs : c.Sane) (x : Int) (h : q.len = BitVec.ofInt 32 (q.occupied - (x + c.lag))) :
    e.queue.len = BitVec.ofInt 32 (e.queue.occupied - (x + lagOf e.rest)) := by
  cases hd with
  | fill p j hc hj =>
    subst hc
    have hocc : occupied { q with slots := update q.slots j p } = q.occupied + 1 := occupied_fill hj hs
    show q.len = BitVec.ofInt 32 (_ - (x + 1))
    rw [hocc, h]
    congr 1
    show _ - (x + 0) = _
    omega
  | empty j c' hlag _ hj hlag' =>
    rw [hlag] at h
    have hlen := len_swap (hj hs) h
    rwa [← hlag'] at hlen
  | look rest hlag hrest =>
    rw [lagOf_eq_zero (fun c' hc' => (hrest c' hc').1), ← hlag]
    exact h
  | up p j hc =>
    subst hc
    exact len_fetchAdd h
  | down rest hlag hrest =>
    rw [lagOf_eq_zero (fun c' hc' => (hrest c' hc').1)]
    rw [hlag] at h
    exact len_fetchSub h

/-- **A pid that is taken is woken later.** -/
theorem Does.hand_eq (hd : Does q c e) :
    e.taken.toList ++ c.hand.toList = e.woken.toList ++ (e.rest.bind Call.hand).toList := by
  cases hd with
  | fill p j hc _ =>
    subst hc
    rfl
  | empty j c' hlag hhand =>
    rw [hhand]
    exact append_nil _
  | look rest hlag hrest =>
    have hnone : rest.bind hand = none := by
      cases rest with
      | none => rfl
      | some c' => exact (hrest c' rfl).2.1
    rw [hnone]
    exact (append_nil _).symm
  | up p j hc =>
    subst hc
    rfl
  | down rest hlag hrest hhand => rw [hhand]

theorem Does.sane (hd : Does q c e) (hs : c.Sane) : ∀ c', e.rest = some c' → c'.Sane := by
  intro c' h
  cases hd with
  | fill p j hc hj =>
    cases h
    trivial
  | empty j c1 hlag hhand hj _ hsane =>
    cases h
    exact hsane
  | look rest hlag hrest => exact (hrest c' h).2.2 hs
  | up p j hc => cases h
  | down rest hlag hrest hhand => exact (hrest c' h).2

end Call

namespace World

/-- What the calls in flight have done to the slots and not yet to the length. -/
def lag (w : World) : Int := (w.calls.map Call.lag).sum

/-- The pids that wake calls in flight have taken and not yet woken. -/
def inHand (w : World) : List Pid := w.calls.filterMap Call.hand

/-- No call is between its access to a slot and its access to the length. -/
def AtRest (w : World) : Prop := ∀ c ∈ w.calls, c.lag = 0

/-- An `unregister` by slot number finds its own pid in the slot, or nobody's. -/
def Tame (w : World) : Action → Prop
  | .call _ => True
  | .advance k => ∀ c, w.calls[k]? = some c → c.Fresh w.queue

instance (w : World) (a : Action) : Decidable (w.Tame a) := by
  delta Tame
  cases a <;> infer_instance

/-- A wake call takes the waiter `pid` out of slot `i`, or `pid` itself leaves. -/
def Ends (w : World) (i : Slot) (pid : Pid) : Action → Prop
  | .call _ => False
  | .advance k => ∃ c, w.calls[k]? = some c ∧ c.Ends i pid

/-- Nothing is forgotten between the accesses of a call. -/
structure Sound (w : World) : Prop where
  sane : ∀ c ∈ w.calls, c.Sane
  len : w.queue.len = BitVec.ofInt 32 (w.queue.occupied - w.lag)
  taken : w.taken.Perm (w.woken ++ w.inHand)

variable {w w' : World} {k : Nat} {a : Action}

/-- What a call in flight is replaced with after its next access. -/
theorem observe_perm {c : Call} (hc : w.calls[k]? = some c) (e : Effect) :
    w.calls.Perm (c :: w.calls.eraseIdx k) ∧
      (w.observe k e).calls.Perm (e.rest.toList ++ w.calls.eraseIdx k) := by
  obtain ⟨hk, rfl⟩ := List.getElem?_eq_some_iff.mp hc
  refine ⟨(getElem_cons_eraseIdx_perm hk).symm, ?_⟩
  unfold observe
  cases e.rest with
  | none => exact .refl _
  | some c' => exact set_perm_cons_eraseIdx hk c'

theorem Sound.advance (hs : Sound w) {c : Call} (hc : w.calls[k]? = some c) : Sound (w.observe k (c.step w.queue)) := by
  obtain ⟨hbefore, hafter⟩ := observe_perm hc _
  have hsane := hs.sane c (mem_of_getElem? hc)
  refine ⟨fun c' hc' => ?_, ?_, ?_⟩
  · rcases mem_append.mp (hafter.mem_iff.mp hc') with hm | hm
    · exact (step_does w.queue c).sane hsane c' (mem_toList.mp hm)
    · exact hs.sane c' (mem_of_mem_eraseIdx hm)
  · -- the other calls are as far behind as before
    have hlag : w.lag = ((w.calls.eraseIdx k).map Call.lag).sum + c.lag := by
      unfold lag
      rw [(hbefore.map Call.lag).sum_eq, List.map_cons, List.sum_cons, add_comm]
    have hlag' : (w.observe k (c.step w.queue)).lag =
        ((w.calls.eraseIdx k).map Call.lag).sum + lagOf (c.step w.queue).rest := by
      unfold lag
      rw [(hafter.map Call.lag).sum_eq, map_append, sum_append, add_comm]
      congr 1
      cases (c.step w.queue).rest with
      | none => rfl
      | some c' => exact add_zero _
    rw [hlag']
    refine (step_does w.queue c).len hsane _ ?_
    rw [← hlag]
    exact hs.len
  have hin : w.inHand.Perm (c.hand.toList ++ (w.calls.eraseIdx k).filterMap hand) := by
    refine (hbefore.filterMap hand).trans ?_
    rw [filterMap_cons]
    cases c.hand <;> exact .refl _
  have hin' : (w.observe k (c.step w.queue)).inHand.Perm
      (((c.step w.queue).rest.bind hand).toList ++ (w.calls.eraseIdx k).filterMap hand) := by
    refine (hafter.filterMap hand).trans ?_
    rw [filterMap_append]
    refine Perm.append_right _ ?_
    cases (c.step w.queue).rest with
    | none => exact .refl _
    | some c' =>
      show (filterMap hand [c']).Perm c'.hand.toList
      rw [filterMap_cons]
      cases c'.hand <;> exact .refl _
  have heq := (step_does w.queue c).hand_eq
  calc w.taken ++ (c.step w.queue).taken.toList
      _ |>.Perm ((w.woken ++ w.inHand) ++ (c.step w.queue).taken.toList) := hs.taken.append_right _
      _ |>.Perm (w.woken ++ ((c.step w.queue).taken.toList ++ w.inHand)) := by
          rw [List.append_assoc]
          exact perm_append_comm.append_left _
      _ |>.Perm (w.woken ++ (((c.step w.queue).taken.toList ++ c.hand.toList) ++
            (w.calls.eraseIdx k).filterMap hand)) := by
          rw [List.append_assoc]
          exact (hin.append_left _).append_left _
      _ |>.Perm ((w.woken ++ (c.step w.queue).woken.toList) ++
            (((c.step w.queue).rest.bind hand).toList ++ (w.calls.eraseIdx k).filterMap hand)) := by
          rw [heq, List.append_assoc, List.append_assoc]
      _ |>.Perm _ := hin'.symm.append_left _

theorem Sound.call (hs : Sound w) {e : Entry} (he : w.Proper e) : Sound { w with calls := w.calls ++ [e.call] } := by
  have hnew : e.call.Sane ∧ e.call.lag = 0 ∧ e.call.hand = none := by
    cases e with
    | register pid => exact ⟨he, rfl, rfl⟩
    | unregister pid slot | wakeAll | wakeOne => exact ⟨trivial, rfl, rfl⟩
    | unregisterPid pid => exact ⟨he, rfl, rfl⟩
  obtain ⟨hsane, hlag, hhand⟩ := hnew
  refine ⟨fun c hc => ?_, ?_, ?_⟩
  · rcases mem_append.mp hc with hm | hm
    · exact hs.sane c hm
    · rw [List.mem_singleton.mp hm]
      exact hsane
  · have hsum : lag { w with calls := w.calls ++ [e.call] } = w.lag := by
      unfold lag
      rw [map_append, sum_append, List.map_singleton, List.sum_singleton, hlag, add_zero]
    rw [hsum]
    exact hs.len
  · have hin : inHand { w with calls := w.calls ++ [e.call] } = w.inHand := by
      unfold inHand
      rw [filterMap_append, filterMap_cons_none hhand, filterMap_nil, append_nil]
    rw [hin]
    exact hs.taken

theorem sound_init : Sound init := by
  refine ⟨nofun, ?_, Perm.refl _⟩
  decide

theorem Sound.step (hs : Sound w) (h : w.step a = some w') : Sound w' := by
  cases a with
  | call e =>
    simp only [step] at h
    split at h
    next he =>
      cases h
      exact hs.call he
    · cases h
  | advance k =>
    obtain ⟨c, hc, rfl⟩ := map_eq_some_iff.mp h
    exact hs.advance hc

theorem occupied_le (q : WaitQueue) : q.occupied ≤ MAX_WAITERS :=
  (card_filter_le _ _).trans (le_of_eq (card_fin MAX_WAITERS))

/-- **The length** is the number of waiters, once no call is between its two accesses. -/
theorem Sound.len_atRest (hs : Sound w) (hr : w.AtRest) : w.queue.len.toNat = w.queue.occupied := by
  have hlag : w.lag = 0 := by
    refine sum_eq_zero (fun x hx => ?_)
    obtain ⟨c, hc, rfl⟩ := mem_map.mp hx
    exact hr c hc
  have hle := occupied_le w.queue
  have hmax : MAX_WAITERS = 16 := rfl
  rw [hs.len, hlag, sub_zero, ofInt_natCast]
  exact Nat.mod_eq_of_lt (by omega)

/-- **A waiter stays** along a step that does not take it. -/
theorem slot_kept {i : Slot} {pid : Pid} (ht : w.Tame a) (hend : ¬w.Ends i pid a)
    (h : w.step a = some w') (hi : w.queue.slots i = pid) (hp : pid ≠ PID_NONE) : w'.queue.slots i = pid := by
  cases a with
  | call e =>
    simp only [step] at h
    split at h
    · cases h
      exact hi
    · cases h
  | advance k =>
    obtain ⟨c, hc, rfl⟩ := map_eq_some_iff.mp h
    exact (step_does w.queue c).slot (ht c hc) hi hp (fun hx => hend ⟨c, hc, hx⟩)

/-- **Wait queues lose no waiter.** In every state of a run in which an `unregister` by slot number finds its own
    pid in the slot or nobody's: the length is the number of occupied slots, but for the calls that are between
    their two accesses; what wake calls have taken they have woken, or have in hand; a `register` that finds a
    slot free puts its pid there; and a slot keeps the pid it holds along every further run in which no wake call
    takes it and the task itself does not leave. -/
theorem waiters_not_lost {w : World} (h : Run.Reach World.step Tame (fun w => w = init) w) :
    w.queue.len = BitVec.ofInt 32 (w.queue.occupied - w.lag) ∧
      (w.AtRest → w.queue.len.toNat = w.queue.occupied) ∧
      w.taken.Perm (w.woken ++ w.inHand) ∧
      (∀ k pid i w', w.calls[k]? = some (.register pid i) → w.queue.slots i = PID_NONE →
        w.step (.advance k) = some w' → w'.queue.slots i = pid) ∧
      ∀ i pid w', w.queue.slots i = pid → pid ≠ PID_NONE →
        Run.Steps World.step (fun w a => w.Tame a ∧ ¬w.Ends i pid a) w w' → w'.queue.slots i = pid := by
  have hs : Sound w := Steps.invariant Sound (fun _ _ _ hs _ hstep => hs.step hstep) h sound_init
  refine ⟨hs.len, hs.len_atRest, hs.taken, fun k pid i w' hk hfree hstep => ?_, fun i pid w' hi hp hrun => ?_⟩
  · obtain ⟨c, hc, rfl⟩ := map_eq_some_iff.mp hstep
    rw [hk] at hc
    cases hc
    rw [step_register_free hfree]
    exact update_self _ _ _
  · exact hrun.invariant (fun w => w.queue.slots i = pid) (fun w a w' hx ho hstep => slot_kept ho.1 ho.2 hstep hx hp) hi

/-- Task 1 registers, is woken by `wake_one`, and task 2 registers: it gets the same slot. -/
def reused : List Action :=
  [.call (.register 1#32), .advance 0, .advance 0, .call .wakeOne, .advance 0, .advance 0, .advance 0,
    .call (.register 2#32), .advance 0, .advance 0]

/-- Task 2 waits in slot 0, and still does after a third task has started to register. -/
theorem waiters_not_lost_reused :
    ∃ w w', Run.exec World.step Tame init reused = some w ∧ w.queue.len.toNat = 1 ∧
      w.woken = [1#32] ∧ w.step (.call (.register 3#32)) = some w' ∧ w'.queue.slots firstSlot = 2#32 := by
  obtain ⟨w, hw, hslot, hocc, hcalls, hwoken⟩ : ∃ w, exec step Tame init reused = some w ∧
      w.queue.slots firstSlot = 2#32 ∧ w.queue.occupied = 1 ∧ w.calls = [] ∧ w.woken = [1#32] :=
    exists_of_any (by decide +kernel)
  have hstart : Reach step Tame (fun w => w = init) init := .start rfl
  have hlost := waiters_not_lost (hstart.exec hw)
  have hrest : w.AtRest := by
    intro c hc
    rw [hcalls] at hc
    cases hc
  have hproper : w.Proper (.register 3#32) := show _ ≠ PID_NONE by decide
  have hstep : w.step (.call (.register 3#32)) = some { w with calls := w.calls ++ [(Entry.register 3#32).call] } := by
    unfold step
    exact if_pos hproper
  refine ⟨w, _, hw, (hlost.2.1 hrest).trans hocc, hwoken, hstep, ?_⟩
  exact hlost.2.2.2.2 firstSlot 2#32 _ hslot (by decide) (Steps.single (.call _) ⟨trivial, fun hx => hx⟩ hstep)

/-- **A stale `unregister` throws out another task.** Task 2 waits in slot 0. Task 1, which had that slot before it
    was woken, unregisters it: the slot is empty, no wake call has taken anyone, and task 2 has called nothing. -/
theorem stale_unregister_loses_waiter :
    ∃ w w', Run.exec World.step Tame init reused = some w ∧ w.queue.slots firstSlot = 2#32 ∧
      Run.exec World.step (fun _ _ => True) w [.call (.unregister 1#32 0), .advance 0] = some w' ∧
      w'.queue.slots firstSlot = PID_NONE ∧ w'.queue.occupied = 0 ∧ w.taken = [1#32] ∧ w'.taken = [1#32] :=
  exists_two_of_any (by decide +kernel)

end World

end OxideOs.Waitqueue
