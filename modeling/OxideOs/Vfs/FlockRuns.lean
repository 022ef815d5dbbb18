import OxideOs.Vfs.FlockCalls

/-!
# `Vfs.FlockRuns` — exclusion and wake-ups over whole runs

The locks of an inode form a readers-writer lock in every run. That a closed file leaves no lock behind, and that
whoever can now have its lock is woken, needs the condition `Tame`: the last close throws away the list of waiters
that `unlock` returns, a downgrade does not look at the waiters at all, and the flag that makes the last close
release the lock is not written together with the lock.
-/

namespace OxideOs.Vfs.Flock.World

open Function Option InodeLockState FlockRegistry List Run

variable {w w' : World} {f : OpenFile} {signal : Bool} {c : Call}

/-! ## Exclusion -/

/-- Every inode's locks form a readers-writer lock. -/
def Exclusive (w : World) : Prop := ∀ inode, (w.registry.entry inode).Exclusion

variable {a : Action} {k : Nat} {n : Option Call} {d : Call} {owner : OwnerId} {statOk : Bool} {pid : WaiterPid}

theorem exclusive_init : Exclusive init := fun _ => exclusion_new

/-- The lock state of an inode after a last close. -/
theorem dropFile_entry (w : World) (owner : OwnerId) (f : OpenFile) (statOk : Bool) (inode : InodeId) :
    (inode = f.inode ∧ f.hasFlock = true ∧ statOk = true ∧ (w.dropFile owner f statOk).registry.entry inode =
      { locks := (w.locksOf f.inode).filter (fun e => e.ownerId != owner), waiters := [] }) ∨
    ((inode = f.inode → ¬(f.hasFlock = true ∧ statOk = true)) ∧
      (w.dropFile owner f statOk).registry.entry inode = w.registry.entry inode) := by
  unfold dropFile
  by_cases hrel : f.hasFlock = true ∧ statOk = true
  · rw [if_pos hrel]
    by_cases hi : inode = f.inode
    · exact .inl ⟨hi, hrel.1, hrel.2, hi ▸ unlock_entry⟩
    · exact .inr ⟨fun h => absurd h hi, unlock_other hi⟩
  · rw [if_neg hrel]
    exact .inr ⟨fun _ => hrel, rfl⟩

/-- Any step, by whomever, keeps exclusion. -/
theorem Exclusive.step (h : w.Exclusive) (hstep : w.step a = some w') : w'.Exclusive := by
  intro inode
  rcases step_cases hstep with ⟨_, -, rfl⟩ | ⟨c, f, -, rfl⟩ | ⟨k, signal, c, f, -, -, -, rfl⟩ |
    ⟨owner, statOk, f, -, -, -, rfl⟩
  · exact h inode
  · exact h inode
  · show ((w.access f signal c).registry.entry inode).Exclusion
    by_cases hi : inode = f.inode
    · subst hi
      rcases @access_locks w f signal c with ⟨kind, n, -, hfree, he, -⟩ | ⟨owner, -, he⟩ | he
      · rw [he]
        exact (h f.inode).grant hfree
      · rw [he]
        exact (h f.inode).filter _ _
      · exact (h f.inode).of_locks he
    · rw [access_other hi]
      exact h inode
  · rcases dropFile_entry w owner f statOk inode with ⟨-, -, -, he⟩ | ⟨-, he⟩
    · rw [he]
      exact (h f.inode).filter _ _
    · rw [he]
      exact h inode

/-! ## Files and their locks -/

/-- **Every lock belongs to an open file**, which will release it: its flag is set, or about to be. -/
structure Sound (w : World) : Prop where
  exclusive : w.Exclusive
  fresh : ∀ owner, w.nextOwnerId ≤ owner → w.files owner = none
  calls : ∀ c ∈ w.calls, (w.files c.owner).isSome
  owned : ∀ inode, ∀ e ∈ w.locksOf inode, ∃ f, w.files e.ownerId = some f ∧ f.inode = inode ∧
    (f.hasFlock = true ∨ ∃ c ∈ w.calls, c.owner = e.ownerId ∧ c.marks = true)
  requests : ∀ r ∈ w.requests, r.pid ∈ (w.registry.entry r.inode).waiters

theorem sound_init : Sound init where
  exclusive := exclusive_init
  fresh := fun _ _ => rfl
  calls := fun _ hc => nomatch hc
  owned := fun _ _ he => nomatch he
  requests := fun _ hr => nomatch hr

theorem mem_callsAfter (h : d ∈ w.callsAfter k n) : d ∈ w.calls ∨ n = some d := by
  cases n with
  | none => exact .inl (mem_of_mem_eraseIdx h)
  | some x =>
    rcases mem_or_eq_of_mem_set h with h | rfl
    · exact .inl h
    · exact .inr rfl

theorem callsAfter_next {n : Call} (hk : w.calls[k]? = some c) : n ∈ w.callsAfter k (some n) :=
  mem_set (List.getElem?_eq_some_iff.mp hk).1 n

/-- The other calls stay. -/
theorem callsAfter_kept (hk : w.calls[k]? = some c) (hd : d ∈ w.calls) (hne : d ≠ c) : d ∈ w.callsAfter k n := by
  obtain ⟨j, hj⟩ := mem_iff_getElem?.mp hd
  have hjk : j ≠ k := by
    rintro rfl
    rw [hk] at hj
    cases hj
    exact hne rfl
  cases n with
  | none => exact mem_eraseIdx_iff_getElem?.mpr ⟨j, hjk, hj⟩
  | some x =>
    refine mem_iff_getElem?.mpr ⟨j, ?_⟩
    show (w.calls.set k x)[j]? = some d
    rw [getElem?_set_ne hjk.symm, hj]

section

variable (h : w.Sound) (hk : w.calls[k]? = some c) (hf : w.files c.owner = some f) (hcare : w.Careful f c)
include h hk hf hcare

/-- A lock that stays keeps an open file that will release it. -/
theorem Sound.owned_advance {inode : InodeId} {e : LockEntry} (he : e ∈ w.locksOf inode) :
    ∃ g, (w.advance k c.owner f (w.access f signal c)).files e.ownerId = some g ∧ g.inode = inode ∧
      (g.hasFlock = true ∨ ∃ d ∈ w.callsAfter k (w.access f signal c).next,
        d.owner = e.ownerId ∧ d.marks = true) := by
  obtain ⟨g, hg, hi, hflag⟩ := h.owned inode e he
  by_cases hown : e.ownerId = c.owner
  · have hgf : g = f := some.inj (hg.symm.trans (hown ▸ hf))
    subst hgf
    refine ⟨{ g with hasFlock := (w.access g signal c).hasFlock }, ?_, hi, ?_⟩
    · show update w.files c.owner _ e.ownerId = _
      rw [hown, update_self]
    rcases hflag with hflag | ⟨d, hd, hdo, hdm⟩
    · rcases @access_flag w g signal c hflag with hset | ⟨owner, waiters, rfl⟩
      · exact .inl hset
      · exact absurd hown (hcare e (hi ▸ he))
    by_cases hdc : d = c
    · subst hdc
      rcases @access_marks w g signal d hdm with hset | ⟨n, hn, hm⟩
      · exact .inl hset
      refine .inr ⟨n, ?_, (access_next_owner hn).trans hdo, hm⟩
      rw [hn]
      exact callsAfter_next hk
    · exact .inr ⟨d, callsAfter_kept hk hd hdc, hdo, hdm⟩
  · refine ⟨g, ?_, hi, ?_⟩
    · show update w.files c.owner _ e.ownerId = _
      rw [update_of_ne hown, hg]
    rcases hflag with hflag | ⟨d, hd, hdo, hdm⟩
    · exact .inl hflag
    have hdc : d ≠ c := by
      rintro rfl
      exact hown hdo.symm
    exact .inr ⟨d, callsAfter_kept hk hd hdc, hdo, hdm⟩

theorem Sound.advance (hx : (w.advance k c.owner f (w.access f signal c)).Exclusive) :
    (w.advance k c.owner f (w.access f signal c)).Sound where
  exclusive := hx
  fresh := by
    intro owner hle
    have hne : owner ≠ c.owner := by
      rintro rfl
      cases hf.symm.trans (h.fresh _ hle)
    show update w.files c.owner _ owner = none
    rw [update_of_ne hne]
    exact h.fresh owner hle
  calls := by
    intro d hd
    show (update w.files c.owner _ d.owner).isSome
    by_cases hdo : d.owner = c.owner
    · rw [hdo, update_self]
      rfl
    rw [update_of_ne hdo]
    rcases mem_callsAfter hd with hd | hn
    · exact h.calls d hd
    · exact absurd (access_next_owner hn) hdo
  owned := by
    intro inode e he
    by_cases hi : inode = f.inode
    · subst hi
      rcases @access_locks w f signal c with ⟨kind, n, -, -, hg, hn, hm⟩ | ⟨owner, -, hu⟩ | hl
      · rw [locksOf, World.advance, hg, (h.exclusive f.inode).mem_grant] at he
        rcases he with rfl | ⟨he, -⟩
        · refine ⟨{ f with hasFlock := (w.access f signal c).hasFlock }, update_self _ _ _, rfl,
            .inr ⟨n, ?_, access_next_owner hn, hm⟩⟩
          show n ∈ w.callsAfter k (w.access f signal c).next
          rw [hn]
          exact callsAfter_next hk
        · exact h.owned_advance hk hf hcare he
      · rw [locksOf, World.advance, hu] at he
        exact h.owned_advance hk hf hcare (mem_filter.mp he).1
      · rw [locksOf, World.advance, hl] at he
        exact h.owned_advance hk hf hcare he
    · rw [locksOf, World.advance, access_other hi] at he
      exact h.owned_advance hk hf hcare he
  requests := access_requests h.requests

end

/-- The last close takes the file's locks with it. -/
theorem Sound.dropFile (h : w.Sound) (hf : w.files owner = some f)
    (hcalls : ∀ c ∈ w.calls, c.owner ≠ owner) (hq : w.QuietDrop owner f statOk)
    (hx : (w.dropFile owner f statOk).Exclusive) : (w.dropFile owner f statOk).Sound where
  exclusive := hx
  fresh := by
    intro o hle
    show update w.files owner none o = none
    by_cases ho : o = owner
    · rw [ho, update_self]
    · rw [update_of_ne ho]
      exact h.fresh o hle
  calls := by
    intro c hc
    show (update w.files owner none c.owner).isSome
    rw [update_of_ne (hcalls c hc)]
    exact h.calls c hc
  owned := by
    intro inode e he
    -- the entry was there before, and it is not the closed file's
    have hkept : e ∈ w.locksOf inode ∧ e.ownerId ≠ owner := by
      rcases dropFile_entry w owner f statOk inode with ⟨hi, -, -, hd⟩ | ⟨hno, hd⟩
      · rw [locksOf, hd] at he
        obtain ⟨hmem, hne⟩ := mem_filter.mp he
        exact ⟨hi ▸ hmem, by simpa using hne⟩
      rw [locksOf, hd] at he
      refine ⟨he, fun ho => ?_⟩
      obtain ⟨g, hg, hi, hflag⟩ := h.owned inode e he
      have hgf : g = f := some.inj (hg.symm.trans (ho ▸ hf))
      subst hgf
      have hset : g.hasFlock = true := by
        rcases hflag with hflag | ⟨c, hc, hco, -⟩
        · exact hflag
        · exact absurd (hco.trans ho) (hcalls c hc)
      exact hno hi.symm ⟨hset, hq.1 ⟨e, hi ▸ he, ho⟩⟩
    obtain ⟨g, hg, hi, hflag⟩ := h.owned inode e hkept.1
    refine ⟨g, ?_, hi, hflag⟩
    show update w.files owner none e.ownerId = some g
    rw [update_of_ne hkept.2, hg]
  requests := by
    intro r hr
    rcases dropFile_entry w owner f statOk r.inode with ⟨hi, hset, hst, -⟩ | ⟨-, hd⟩
    · have hmem := h.requests r hr
      rw [hi, hq.2 hset hst] at hmem
      cases hmem
    · rw [hd]
      exact h.requests r hr

theorem tame_advance (hk : w.calls[k]? = some c) (hf : w.files c.owner = some f)
    (h : w.Tame (.advance k signal)) : w.Careful f c := by
  simp only [Tame, hk, hf] at h
  exact h

theorem tame_drop (hf : w.files owner = some f) (h : w.Tame (.drop owner statOk)) : w.QuietDrop owner f statOk := by
  simp only [Tame, hf] at h
  exact h

/-- A step that meets the condition keeps every lock with an open file and every waiter in its list. -/
theorem Sound.step (h : w.Sound) (ht : w.Tame a) (hstep : w.step a = some w') : w'.Sound := by
  have hx := h.exclusive.step hstep
  rcases step_cases hstep with ⟨inode, rfl, rfl⟩ | ⟨c, f, hf, rfl⟩ | ⟨k, signal, c, f, rfl, hk, hf, rfl⟩ |
    ⟨owner, statOk, f, rfl, hf, hcalls, rfl⟩
  · have hnew : ∀ o, (w.files o).isSome → o ≠ w.nextOwnerId := by
      rintro o ho rfl
      rw [h.fresh _ (BitVec.le_refl _)] at ho
      cases ho
    have hnext : (w.nextOwnerId + 1).toNat = w.nextOwnerId.toNat + 1 := by
      rw [BitVec.toNat_add]
      exact Nat.mod_eq_of_lt ht
    refine ⟨hx, ?_, ?_, ?_, h.requests⟩
    · intro o hle
      have hlt : w.nextOwnerId.toNat + 1 ≤ o.toNat := hnext ▸ BitVec.le_def.mp hle
      have hne : o ≠ w.nextOwnerId := by
        rintro rfl
        exact absurd hlt (Nat.not_succ_le_self _)
      show update w.files w.nextOwnerId _ o = none
      rw [update_of_ne hne]
      exact h.fresh o (BitVec.le_def.mpr (Nat.le_of_succ_le hlt))
    · intro c hc
      show (update w.files w.nextOwnerId _ c.owner).isSome
      rw [update_of_ne (hnew _ (h.calls c hc))]
      exact h.calls c hc
    · intro i e he
      obtain ⟨f, hf, hi, hflag⟩ := h.owned i e he
      refine ⟨f, ?_, hi, hflag⟩
      show update w.files w.nextOwnerId _ e.ownerId = some f
      rw [update_of_ne (hnew _ (hf ▸ rfl)), hf]
  · refine ⟨hx, h.fresh, ?_, ?_, h.requests⟩
    · exact forall_mem_append.mpr ⟨h.calls, forall_mem_singleton.mpr (by rw [hf]; rfl)⟩
    intro i e he
    obtain ⟨g, hg, hi, hflag⟩ := h.owned i e he
    refine ⟨g, hg, hi, ?_⟩
    rcases hflag with hflag | ⟨d, hd, hd'⟩
    · exact .inl hflag
    · exact .inr ⟨d, mem_append_left _ hd, hd'⟩
  · exact h.advance hk hf (tame_advance hk hf ht) hx
  · exact h.dropFile hf hcalls (tame_drop hf ht) hx

/-! ## Wake-ups -/

/-- A waiter could take the lock it waits for. -/
def Grantable (w : World) (r : Request) : Prop := (w.registry.entry r.inode).conflicts r.owner r.kind = false

instance (w : World) (r : Request) : Decidable (w.Grantable r) := inferInstanceAs (Decidable (_ = _))

/-- A call in flight has the waiter on its list, and calls `wake_up` on it with its next access. -/
def WillWake (w : World) (pid : WaiterPid) : Prop :=
  ∃ k owner waiters, w.calls[k]? = some (.clear owner waiters) ∧ pid ∈ waiters ∧
    ∀ signal, ∃ w', w.step (.advance k signal) = some w' ∧ pid ∈ w'.woken

theorem step_advance (hk : w.calls[k]? = some c) (hf : w.files c.owner = some f) :
    w.step (.advance k signal) = some (w.advance k c.owner f (w.access f signal c)) := by
  simp [step, hk, hf]

theorem willWake_clear {waiters : List WaiterPid}
    (hk : w.calls[k]? = some (.clear owner waiters)) (hf : w.files owner = some f) (hpid : pid ∈ waiters) :
    w.WillWake pid := by
  refine ⟨k, owner, waiters, hk, hpid, fun signal => ⟨_, step_advance hk hf, ?_⟩⟩
  exact mem_append_right w.woken hpid

theorem willWake_unlock (hk : w.calls[k]? = some (.unlock owner)) (hpid : pid ∈ (w.registry.entry f.inode).waiters) :
    (w.advance k owner f (w.access f signal (.unlock owner))).WillWake pid := by
  have hlt : k < w.calls.length := (List.getElem?_eq_some_iff.mp hk).1
  have hnext : (w.advance k owner f (w.access f signal (.unlock owner))).calls[k]? =
      some (.clear owner (w.registry.entry f.inode).waiters) := by
    show (w.calls.set k (.clear owner (w.registry.unlock f.inode owner).1))[k]? = _
    rw [List.getElem?_set_self hlt, unlock_waiters]
  exact willWake_clear hnext (update_self _ _ _) hpid

/-- Nobody is woken when no call has released a lock. -/
theorem not_willWake (h : ∀ owner waiters, .clear owner waiters ∉ w.calls) : ¬w.WillWake pid := by
  rintro ⟨k, owner, waiters, hk, -⟩
  exact h owner waiters (mem_of_getElem? hk)

/-- **Whoever can have its lock only since this step is woken.** -/
theorem Sound.newly_grantable (h : w.Sound) (ht : w.Tame a) (hstep : w.step a = some w')
    {r : Request} (hr : r ∈ w.requests) (hbusy : ¬w.Grantable r) (hfree : w'.Grantable r) : w'.WillWake r.pid := by
  have hc : (w.registry.entry r.inode).conflicts r.owner r.kind = true := by
    simpa [Grantable] using hbusy
  -- where the locks stay as they are, so does the conflict
  have hsame : (w'.registry.entry r.inode).locks = w.locksOf r.inode → w'.WillWake r.pid := by
    intro hl
    rw [Grantable, conflicts_of_locks hl, hc] at hfree
    cases hfree
  rcases step_cases hstep with ⟨_, -, rfl⟩ | ⟨_, _, -, rfl⟩ | ⟨k, signal, c, f, rfl, hk, hf, rfl⟩ |
    ⟨owner, statOk, f, rfl, hf, -, rfl⟩
  · exact hsame rfl
  · exact hsame rfl
  · have hcare := tame_advance hk hf ht
    by_cases hi : r.inode = f.inode
    · rcases @access_locks w f signal c with ⟨kind, n, htries, -, hg, -⟩ | ⟨owner, rfl, -⟩ | hl
      · have hno : ((w.registry.entry f.inode).grant c.owner kind).conflicts r.owner r.kind = false := by
          rw [← hg, ← hi]
          exact hfree
        obtain ⟨hk1, hx, hne, hk2⟩ := (h.exclusive f.inode).grant_admits (hi ▸ hc) hno
        have hquiet : w.Quiet f c.owner kind := by
          cases c with
          | lock owner kind' | attempt owner pid kind' => exact some.inj htries ▸ hcare
          | _ => cases htries
        cases hk2.symm.trans (hquiet hk1 hx r hr hi hne)
      · exact willWake_unlock hk (hi ▸ h.requests r hr)
      · exact hsame (by rw [hi]; exact hl)
    · exact hsame (congrArg locks (access_other hi))
  · rcases dropFile_entry w owner f statOk r.inode with ⟨hi, hset, hst, -⟩ | ⟨-, hd⟩
    · have hmem := h.requests r hr
      rw [hi, (tame_drop hf ht).2 hset hst] at hmem
      cases hmem
    · exact hsame (congrArg locks hd)

/-- **`flock` is a readers-writer lock.** In every run the locks of an inode are all shared or one exclusive lock,
    with one entry per owner. In every run whose steps meet the condition, every lock is that of an open file,
    every waiter is in the list of its inode, and every step that makes the request of a waiter grantable
    leads to a wake of it. -/
theorem flock_readers_writer (w : World) : (Run.Reach World.step (fun _ _ => True) (fun w => w = init) w → ∀ inode,
      ((∀ e ∈ w.locksOf inode, e.lockType = .shared) ∨ ∃ e, w.locksOf inode = [e] ∧ e.lockType = .exclusive) ∧
        ((w.locksOf inode).map LockEntry.ownerId).Nodup) ∧
      (Run.Reach World.step Tame (fun w => w = init) w →
        (∀ inode, ∀ e ∈ w.locksOf inode, (w.files e.ownerId).isSome) ∧
          (∀ r ∈ w.requests, r.pid ∈ (w.registry.entry r.inode).waiters) ∧
          ∀ a w' r, w.Tame a → w.step a = some w' → r ∈ w.requests → ¬w.Grantable r → w'.Grantable r →
            w'.WillWake r.pid) := by
  refine ⟨fun h inode => ?_, fun h => ?_⟩
  · have hx : w.Exclusive := Steps.invariant Exclusive (fun _ _ _ hx _ hstep => hx.step hstep) h exclusive_init
    exact ⟨(hx inode).shared_or_single, (hx inode).oneEach⟩
  have hs : w.Sound := Steps.invariant Sound (fun _ _ _ => Sound.step) h sound_init
  refine ⟨fun inode e he => ?_, hs.requests, fun a w' r ht hstep hr => hs.newly_grantable ht hstep hr⟩
  obtain ⟨f, hf, -⟩ := hs.owned inode e he
  rw [hf]
  rfl

/-! ## Runs on one inode -/

def inode : InodeId := { dev := 1, ino := 7 }

/-- File 1 has the exclusive lock and task 20 sleeps until it can have a shared one through file 2. -/
def contended : List Action :=
  [.open inode, .open inode, .call (.flock 1 10 (LOCK_EX ||| LOCK_NB)), .advance 0 false, .advance 0 false,
    .call (.flock 2 20 LOCK_SH), .advance 0 false, .advance 0 false]

/-- What task 20 waits for. -/
def request : Request := { inode := inode, pid := 20, owner := 2, kind := .shared }

/-- `LOCK_UN` on file 1 wakes task 20. -/
theorem flock_readers_writer_unlock :
    ∃ w w', Run.exec World.step Tame init (contended ++ [.call (.flock 1 10 LOCK_UN)]) = some w ∧
      ¬w.Grantable request ∧ w.step (.advance 1 false) = some w' ∧ w'.Grantable request ∧ w'.WillWake 20 := by
  obtain ⟨w, w', hw, ⟨hreq, htame, hno⟩, hw', hfree⟩ : ∃ w w',
      exec step Tame init (contended ++ [.call (.flock 1 10 LOCK_UN)]) = some w ∧
        (request ∈ w.requests ∧ w.Tame (.advance 1 false) ∧ ¬w.Grantable request) ∧
        w.step (.advance 1 false) = some w' ∧ w'.Grantable request := exists_two_of_any (by decide +kernel)
  have hstart : Reach step Tame (fun w => w = init) init := .start rfl
  refine ⟨w, w', hw, hno, hw', hfree, ?_⟩
  exact ((flock_readers_writer w).2 (hstart.exec hw)).2.2 _ w' request htame hw' hreq hno hfree

/-- **Lost wake-ups and a lock that stays.** The last close of file 1 makes the request of task 20 grantable and
    nobody wakes it; so does a downgrade of its lock. And when a second task locks through file 1 between the
    `unlock` and the `clear_flock_held` of the first, the lock outlives the file. -/
theorem flock_loses_waiters :
    (∃ w w', Run.exec World.step Tame init contended = some w ∧ request ∈ w.requests ∧ ¬w.Grantable request ∧
      w.step (.drop 1 true) = some w' ∧ w'.Grantable request ∧ ¬w'.WillWake 20 ∧
      (w'.registry.entry inode).waiters = []) ∧
    (∃ w w', Run.exec World.step Tame init (contended ++ [.call (.flock 1 10 (LOCK_SH ||| LOCK_NB))]) = some w ∧
      request ∈ w.requests ∧ ¬w.Grantable request ∧
      w.step (.advance 1 false) = some w' ∧ w'.Grantable request ∧ ¬w'.WillWake 20) ∧
    ∃ w, Run.exec World.step (fun _ _ => True) init
        [.open inode, .call (.flock 1 10 LOCK_UN), .advance 0 false,
          .call (.flock 1 11 (LOCK_EX ||| LOCK_NB)), .advance 1 false, .advance 1 false,
          .advance 0 false, .drop 1 true] = some w ∧
      w.locksOf inode = [{ ownerId := 1, lockType := .exclusive }] ∧ (w.files 1).isSome = false := by
  refine ⟨?_, ?_, ?_⟩
  · obtain ⟨w, w', hw, ⟨hreq, hno⟩, hw', hfree, hcalls, hwait⟩ : ∃ w w', exec step Tame init contended = some w ∧
        (request ∈ w.requests ∧ ¬w.Grantable request) ∧ w.step (.drop 1 true) = some w' ∧ w'.Grantable request ∧
          w'.calls = [.asleep 2 20 .shared] ∧ (w'.registry.entry inode).waiters = [] :=
      exists_two_of_any (by decide +kernel)
    exact ⟨w, w', hw, hreq, hno, hw', hfree, not_willWake (by simp [hcalls]), hwait⟩
  · obtain ⟨w, w', hw, ⟨hreq, hno⟩, hw', hfree, hcalls⟩ : ∃ w w',
        exec step Tame init (contended ++ [.call (.flock 1 10 (LOCK_SH ||| LOCK_NB))]) = some w ∧
          (request ∈ w.requests ∧ ¬w.Grantable request) ∧ w.step (.advance 1 false) = some w' ∧
          w'.Grantable request ∧ w'.calls = [.asleep 2 20 .shared, .mark 1] := exists_two_of_any (by decide +kernel)
    exact ⟨w, w', hw, hreq, hno, hw', hfree, not_willWake (by simp [hcalls])⟩
  · exact exists_of_any (by decide +kernel)

end OxideOs.Vfs.Flock.World
