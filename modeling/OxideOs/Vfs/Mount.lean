import OxideOs.Lib.Run
import OxideOs.Lib.SortedMap
import OxideOs.Vfs.Error

/-!
# `Vfs.Mount` — the mount table and the files open on it (`vfs::mount`, `vfs::path`, `vfs::file`)

The table maps mount points to `Mount` objects. Each object has a counter of the files opened through it; a file
holds on to the counter it was opened with, not to the object. `move_mount` and `pivot_root` put new objects in
the place of the old ones, and a new object starts with a new counter.

`unmount` reads the counter under one lock and removes the entry under another, and an open resolves its path,
takes the counter and increments it in three accesses. Calls of all tasks interleave between these: `Call` is a
call that is between two of them.
-/

namespace OxideOs.Vfs

open List SortedMap Option

/-- A path or a path component as text. -/
abbrev PathStr := List Char

/-! ## Paths -/

structure Path where
  components : List PathStr
  absolute : Bool

namespace Path

def slash : PathStr := ['/']

def dotdot : PathStr := ['.', '.']

def new (path : PathStr) : Path :=
  { components := (path.splitOn '/').filter (fun s => !s.isEmpty && s != ['.'])
    absolute := path.head? == some '/' }

/-- One component more, with `..` resolved where something is there to leave. -/
def normalizeStep (absolute : Bool) (normalized : List PathStr) (component : PathStr) : List PathStr :=
  if component = dotdot then
    if normalized ≠ [] ∧ normalized.getLast? ≠ some dotdot then normalized.dropLast
    else if !absolute then normalized ++ [component]
    else normalized
  else normalized ++ [component]

def normalize (p : Path) : Path :=
  { components := p.components.foldl (normalizeStep p.absolute) [], absolute := p.absolute }

def toStr (p : Path) : PathStr :=
  if p.components = [] then (if p.absolute then slash else ['.'])
  else (if p.absolute then slash else []) ++ slash.intercalate p.components

/-- **`normalize` leaves `..` only at the front of a relative path.** -/
theorem normalize_spec (p : Path) : ∃ n rest, p.normalize.components = replicate n dotdot ++ rest ∧ dotdot ∉ rest ∧
    (p.absolute → n = 0) := by
  dsimp only [normalize]
  induction p.components using reverseRecOn with
  | nil => exact ⟨0, [], rfl, not_mem_nil, fun _ => rfl⟩
  | append_singleton l c ih =>
    obtain ⟨n, rest, hl, hrest, habs⟩ := ih
    rw [foldl_concat, hl, normalizeStep]
    split
    next hc =>
      subst hc
      rcases eq_nil_or_concat' rest with rfl | ⟨front, last, rfl⟩
      · rw [if_neg (by cases n <;> simp [replicate_succ'])]
        split
        · exact ⟨n + 1, [], by simp [replicate_succ'], hrest, by simp_all⟩
        · exact ⟨n, [], rfl, hrest, habs⟩
      · rw [mem_append, mem_singleton, not_or] at hrest
        rw [if_pos ⟨by simp, by simpa using Ne.symm hrest.2⟩, ← append_assoc, dropLast_concat]
        exact ⟨n, front, rfl, hrest.1, habs⟩
    next hc => exact ⟨n, rest ++ [c], by simp, by simp [hrest, Ne.symm hc], habs⟩

end Path

open OxideOs.Vfs.Path (slash)

/-! ## The table -/

/-- The identity of a filesystem: its root vnode. -/
abbrev RootId := Nat

/-- The identity of a counter of open files (`Arc<AtomicUsize>`). -/
abbrev CounterId := Nat

structure Mount where
  root : RootId
  mountPoint : PathStr
  flags : BitVec 32
  fsType : PathStr
  openFileCount : CounterId

abbrev MountTable := SortedMap PathStr Mount

/-- A mount point a path lies on or under. -/
def isMatch (path mountPoint : PathStr) : Bool :=
  if mountPoint = slash then path.head? == some '/'
  else path == mountPoint || (mountPoint.isPrefixOf path && path[mountPoint.length]? == some '/')

/-- `find_mount`: the longest mount point that matches. -/
def MountTable.findMount (mounts : MountTable) (path : PathStr) : Option (PathStr × Mount) :=
  mounts.entries.foldl (fun best e =>
    if isMatch path e.1 then
      match best with
      | none => some e
      | some b => if b.1.length < e.1.length then some e else best
    else best) none

/-- Where `pivot_root` puts a mount point. -/
def pivotedPath (newRoot putOldSuffix path : PathStr) : PathStr :=
  let newRootPrefix := if newRoot.getLast? = some '/' then newRoot else newRoot ++ slash
  if newRootPrefix.isPrefixOf path then path.drop newRoot.length
  else if path = slash then putOldSuffix
  else putOldSuffix ++ path

/-! ## Files and calls -/

/-- An open `File`: the filesystem its vnode is on, and its `mount_ref_count`. -/
structure MountedFile where
  root : RootId
  counter : Option CounterId
  deriving DecidableEq

/-- A call between two accesses to the table. -/
inductive MountCall where
  /-- `sys_open` has looked its path up. -/
  | found (path : PathStr) (root : RootId)
  /-- `sys_open` has the result of `get_mount_ref_for_path`. -/
  | opening (root : RootId) (counter : Option CounterId)
  /-- `unmount` has found the mount point not busy. -/
  | unmounting (mountPoint : PathStr)
  deriving DecidableEq

/-- The call is an open. -/
def MountCall.isOpen : MountCall → Bool
  | .unmounting _ => false
  | _ => true

/-- `VFS`, with the values of the counters, the open files and the calls in flight. -/
structure VFS where
  mounts : MountTable
  root : Option Mount
  counts : CounterId → Nat
  nextCounter : CounterId
  files : List MountedFile
  calls : List MountCall

namespace VFS

def new : VFS := { mounts := empty, root := none, counts := fun _ => 0, nextCounter := 0, files := [], calls := [] }

def findMount (w : VFS) (path : PathStr) : Option (PathStr × Mount) :=
  w.mounts.findMount (Path.new path).normalize.toStr

def mount (w : VFS) (root : RootId) (mountPoint : PathStr) (flags : BitVec 32) (fsType : PathStr) : VFS :=
  let m : Mount :=
    { root := root, mountPoint := mountPoint, flags := flags, fsType := fsType, openFileCount := w.nextCounter }
  { w with
    root := if mountPoint = slash then some m else w.root
    mounts := w.mounts.insert mountPoint m
    nextCounter := w.nextCounter + 1 }

/-- `unmount` up to the end of its first lock. -/
def unmountCheck (w : VFS) (mountPoint : PathStr) : VfsResult Unit :=
  if mountPoint = slash then .error .busy
  else
    match w.mounts.get mountPoint with
    | some m => if 0 < w.counts m.openFileCount then .error .busy else .ok ()
    | none => .ok ()

/-- `unmount` from its second lock on. -/
def unmountRemove (w : VFS) (mountPoint : PathStr) : VfsResult Unit × VFS :=
  match w.mounts.get mountPoint with
  | some _ => (.ok (), { w with mounts := w.mounts.remove mountPoint })
  | none => (.error .notFound, w)

def moveMount (w : VFS) (source target : PathStr) : VfsResult Unit × VFS :=
  match w.mounts.get source with
  | some old =>
    let m := { old with mountPoint := target, openFileCount := w.nextCounter }
    (.ok (), { w with mounts := (w.mounts.remove source).insert target m, nextCounter := w.nextCounter + 1 })
  | none => (.error .notFound, w)

/-- The rebuilding loop of `pivot_root`: every entry at its new path, with a new object. -/
def pivotEntries (newRoot putOldSuffix : PathStr) (entries : List (PathStr × Mount)) (next : CounterId) :
    MountTable × CounterId :=
  entries.foldl (fun t e =>
    let newPath := pivotedPath newRoot putOldSuffix e.1
    (t.1.insert newPath { e.2 with mountPoint := newPath, openFileCount := t.2 }, t.2 + 1)) (empty, next)

def pivotRoot (w : VFS) (newRoot putOld : PathStr) : VfsResult Unit × VFS :=
  if newRoot.isPrefixOf putOld then
    let putOldSuffix := putOld.drop newRoot.length
    match w.mounts.get newRoot with
    | some old =>
      let rebuilt := pivotEntries newRoot putOldSuffix (w.mounts.remove newRoot).entries w.nextCounter
      let m := { old with mountPoint := slash, openFileCount := rebuilt.2 }
      (.ok (), { w with
        mounts := rebuilt.1.insert slash m
        root := some m
        nextCounter := rebuilt.2 + 1 })
    | none => (.error .notFound, w)
  else (.error .invalidArgument, w)

/-- `File::new_with_mount_ref`, or `File::new` without a counter. -/
def newFile (w : VFS) (f : MountedFile) : VFS :=
  { w with
    files := f :: w.files
    counts := match f.counter with
      | some id => Function.update w.counts id (w.counts id + 1)
      | none => w.counts }

/-- `Drop for File` -/
def dropFile (w : VFS) (f : MountedFile) : VFS :=
  { w with
    files := w.files.erase f
    counts := match f.counter with
      | some id => Function.update w.counts id (w.counts id - 1)
      | none => w.counts }

inductive Action where
  | mount (root : RootId) (mountPoint : PathStr) (flags : BitVec 32) (fsType : PathStr)
  | moveMount (source target : PathStr)
  | pivotRoot (newRoot putOld : PathStr)
  /-- `sys_open` looks its path up. -/
  | lookup (path : PathStr)
  /-- `get_mount_ref_for_path` of the `k`-th call. -/
  | getMountRef (k : Nat)
  /-- The `k`-th call makes its `File`. -/
  | newFile (k : Nat)
  | close (f : MountedFile)
  | unmount (mountPoint : PathStr)
  /-- The `k`-th call removes its mount point. -/
  | remove (k : Nat)

def step (w : VFS) : Action → Option VFS
  | .mount root mountPoint flags fsType => some (w.mount root mountPoint flags fsType)
  | .moveMount source target => some (w.moveMount source target).2
  | .pivotRoot newRoot putOld => some (w.pivotRoot newRoot putOld).2
  | .lookup path => (w.findMount path).map (fun e => { w with calls := w.calls ++ [.found path e.2.root] })
  | .getMountRef k =>
    match w.calls[k]? with
    | some (.found path root) => some { w with
        calls := w.calls.set k (.opening root ((w.findMount path).map (fun e => e.2.openFileCount))) }
    | _ => none
  | .newFile k =>
    match w.calls[k]? with
    | some (.opening root counter) =>
      some { w.newFile { root := root, counter := counter } with calls := w.calls.eraseIdx k }
    | _ => none
  | .close f => if f ∈ w.files then some (w.dropFile f) else none
  | .unmount mountPoint =>
    match w.unmountCheck mountPoint with
    | .ok _ => some { w with calls := w.calls ++ [.unmounting mountPoint] }
    | .error _ => some w
  | .remove k =>
    match w.calls[k]? with
    | some (.unmounting mountPoint) => some { (w.unmountRemove mountPoint).2 with calls := w.calls.eraseIdx k }
    | _ => none

/-! ## The condition -/

/-- **An entry that keeps a filesystem mounted for a file**: it is busy because the file counts in it, or it is the
    root, which is always busy. -/
def Carries (e : PathStr × Mount) (f : MountedFile) : Prop :=
  e.2.root = f.root ∧ (e.1 = slash ∨ f.counter = some e.2.openFileCount)

instance (e : PathStr × Mount) (f : MountedFile) : Decidable (Carries e f) := by
  delta Carries
  infer_instance

/-- Some entry carries the file. -/
def Carried (w : VFS) (f : MountedFile) : Prop := ∃ e ∈ w.mounts.entries, Carries e f

/-- No open is between two of its accesses. -/
def Settled (w : VFS) : Prop := ∀ call ∈ w.calls, call.isOpen = false

/-- Nothing is mounted there, or `unmount` would not find it busy. -/
def Vacant (w : VFS) (mountPoint : PathStr) : Prop :=
  w.mounts.get mountPoint = none ∨ w.unmountCheck mountPoint = .ok ()

instance (w : VFS) : Decidable w.Settled := List.decidableBAll _ w.calls

instance (w : VFS) (mountPoint : PathStr) : Decidable (w.Vacant mountPoint) :=
  decidable_of_iff ((w.mounts.get mountPoint).isNone = true ∨ (w.unmountCheck mountPoint).isOk = true) (by
    refine or_congr isNone_iff_eq_none ?_
    cases w.unmountCheck mountPoint with
    | ok u => exact ⟨fun _ => rfl, fun _ => rfl⟩
    | error e => exact ⟨nofun, nofun⟩)

/-- **When the table may change**: while no open is under way; an entry that is overwritten, moved or removed is not
    busy at that moment; and at a `pivot_root` every open file is on the filesystem that becomes the root. -/
def Orderly (w : VFS) : Action → Prop
  | .mount _ mountPoint _ _ => w.Settled ∧ w.Vacant mountPoint
  | .moveMount source target => w.Settled ∧ w.Vacant source ∧ w.Vacant target
  | .pivotRoot newRoot _ => w.Settled ∧ ∀ f ∈ w.files, (w.mounts.get newRoot).all (fun m => m.root = f.root) = true
  | .remove k =>
    match w.calls[k]? with
    | some (.unmounting mountPoint) => w.Settled ∧ w.Vacant mountPoint
    | _ => True
  | _ => True

instance (w : VFS) (a : Action) : Decidable (w.Orderly a) := by
  delta Orderly
  repeat' split
  all_goals infer_instance

/-! ## What keeps a file's filesystem mounted -/

variable {w w' : VFS} {f : MountedFile} {e : PathStr × Mount} {mountPoint path : PathStr}

/-- What an open has found so far is what the table says. -/
def Current (w : VFS) : MountCall → Prop
  | .found path root => ∃ e, w.findMount path = some e ∧ e.2.root = root
  | .opening root counter => w.Carried { root := root, counter := counter }
  | .unmounting _ => True

/-- **Every open file's filesystem is mounted and counted**, and opens see the table as it is. -/
structure Sound (w : VFS) : Prop where
  carried : ∀ f ∈ w.files, w.Carried f
  counted : ∀ id, w.counts id = w.files.countP (fun f => f.counter = some id)
  current : ∀ call ∈ w.calls, w.Current call

theorem sound_new : Sound new where
  carried := nofun
  counted := fun _ => rfl
  current := nofun

/-- An entry that carries an open file is busy. -/
theorem Sound.busy (h : w.Sound) (hf : f ∈ w.files) (he : e ∈ w.mounts.entries)
    (hc : Carries e f) : w.unmountCheck e.1 = .error .busy := by
  unfold unmountCheck
  rcases hc.2 with hroot | hcount
  · rw [if_pos hroot]
  have hpos : 0 < w.counts e.2.openFileCount := by
    rw [h.counted]
    exact countP_pos_iff.mpr ⟨f, hf, by simpa using hcount⟩
  rw [mem_entries.mp he]
  by_cases hroot : e.1 = slash
  · rw [if_pos hroot]
  · rw [if_neg hroot]
    exact if_pos hpos

/-- What is vacant carries no open file. -/
theorem Vacant.ne_carrier (hv : w.Vacant mountPoint) (h : w.Sound) (hf : f ∈ w.files) (he : e ∈ w.mounts.entries)
    (hc : Carries e f) : e.1 ≠ mountPoint := by
  rintro rfl
  rcases hv with hnone | hok
  · rw [mem_entries.mp he] at hnone
    cases hnone
  · rw [h.busy hf he hc] at hok
    cases hok

/-- `find_mount` returns an entry of the table. -/
theorem findMount_mem {mounts : MountTable} (h : mounts.findMount path = some e) : e ∈ mounts.entries := by
  refine foldlRecOn (motive := fun best => best = some e → e ∈ mounts.entries) (b := none) mounts.entries _ nofun ?_ h
  intro best hbest d hd h
  split at h
  · split at h
    · cases h
      exact hd
    split at h
    · cases h
      exact hd
    · exact hbest h
  · exact hbest h

/-! ## Steps -/

section

variable (h : w.Sound)
include h

/-- A change of the table that leaves alone the entries carrying open files. -/
theorem Sound.of_table (hs : w.Settled) (hf : w'.files = w.files) (hc : w'.counts = w.counts)
    (hcalls : ∀ call ∈ w'.calls, call ∈ w.calls) (hcar : ∀ f ∈ w.files, w'.Carried f) : w'.Sound where
  carried := hf ▸ hcar
  counted := by
    rw [hf, hc]
    exact h.counted
  current := by
    intro call hcall
    have hopen := hs call (hcalls call hcall)
    cases call with
    | unmounting mountPoint => trivial
    | found path root | opening root counter => cases hopen

/-- The same, where what is vacant is overwritten or removed. -/
theorem Sound.of_get (gone : List PathStr) (hs : w.Settled) (hgone : ∀ p ∈ gone, w.Vacant p)
    (hf : w'.files = w.files) (hc : w'.counts = w.counts) (hcalls : ∀ call ∈ w'.calls, call ∈ w.calls)
    (hkeep : ∀ p m, p ∉ gone → w.mounts.get p = some m → w'.mounts.get p = some m) : w'.Sound := by
  refine h.of_table hs hf hc hcalls fun f hf => ?_
  obtain ⟨e, he, hcar⟩ := h.carried f hf
  have hne : e.1 ∉ gone := fun hmem => (hgone _ hmem).ne_carrier h hf he hcar rfl
  exact ⟨e, mem_entries.mpr (hkeep e.1 e.2 hne (mem_entries.mp he)), hcar⟩

theorem Sound.mount {root : RootId} {flags : BitVec 32} {fsType : PathStr} (hs : w.Settled)
    (hv : w.Vacant mountPoint) : (w.mount root mountPoint flags fsType).Sound := by
  refine h.of_get [mountPoint] hs (forall_mem_singleton.mpr hv) rfl rfl (fun _ hcall => hcall) ?_
  intro p m hp hget
  have hne : p ≠ mountPoint := fun he => hp (mem_singleton.mpr he)
  exact (get_insert_ne _ _ hne).trans hget

theorem Sound.moveMount {source target : PathStr} (hs : w.Settled) (hsource : w.Vacant source)
    (htarget : w.Vacant target) : (w.moveMount source target).2.Sound := by
  unfold VFS.moveMount
  cases hget : w.mounts.get source with
  | none => exact h
  | some old =>
    have hgone : ∀ p ∈ [source, target], w.Vacant p := forall_mem_cons.mpr ⟨hsource, forall_mem_singleton.mpr htarget⟩
    refine h.of_get _ hs hgone rfl rfl (fun _ hcall => hcall) ?_
    intro p m hp hm
    have hne : p ≠ source := fun he => hp (he ▸ mem_cons_self)
    have hne' : p ≠ target := fun he => hp (he ▸ mem_cons_of_mem _ mem_cons_self)
    rw [get_insert_ne _ _ hne', get_remove_ne _ hne, hm]

/-- The filesystem at the root is always busy, with whatever counter. -/
theorem Sound.pivotRoot {newRoot putOld : PathStr} (hs : w.Settled)
    (hroot : ∀ f ∈ w.files, (w.mounts.get newRoot).all (fun m => m.root = f.root) = true) :
    (w.pivotRoot newRoot putOld).2.Sound := by
  unfold VFS.pivotRoot
  split
  · cases hget : w.mounts.get newRoot with
    | none => exact h
    | some old =>
      refine h.of_table hs rfl rfl (fun _ hcall => hcall) fun f hf => ?_
      have hf := hroot f hf
      rw [hget] at hf
      exact ⟨(slash, _), mem_entries.mpr (get_insert_self _ _ _), of_decide_eq_true hf, .inl rfl⟩
  · exact h

theorem Sound.remove {calls : List MountCall} (hs : w.Settled) (hv : w.Vacant mountPoint)
    (hcalls : ∀ call ∈ calls, call ∈ w.calls) :
    ({ (w.unmountRemove mountPoint).2 with calls } : VFS).Sound := by
  unfold VFS.unmountRemove
  refine h.of_get [mountPoint] hs (forall_mem_singleton.mpr hv) ?_ ?_ hcalls ?_
  · split <;> rfl
  · split <;> rfl
  · intro p m hp hget
    have hne : p ≠ mountPoint := fun he => hp (mem_singleton.mpr he)
    split
    · exact (get_remove_ne _ hne).trans hget
    · exact hget

theorem Sound.newFile (ho : w.Carried f) : (w.newFile f).Sound where
  carried := forall_mem_cons.mpr ⟨ho, h.carried⟩
  counted := by
    intro id
    unfold VFS.newFile
    rw [countP_cons, ← h.counted]
    cases hcount : f.counter with
    | none => simp
    | some id' =>
      by_cases hid : id = id'
      · subst hid
        simp
      · simp [hid, Ne.symm hid]
  current := h.current

theorem Sound.dropFile (hf : f ∈ w.files) : (w.dropFile f).Sound where
  carried := fun g hg => h.carried g (mem_of_mem_erase hg)
  counted := by
    intro id
    unfold VFS.dropFile
    rw [countP_erase, ← h.counted]
    cases hcount : f.counter with
    | none => simp
    | some id' =>
      by_cases hid : id = id'
      · subst hid
        simp [hf]
      · simp [hid, Ne.symm hid]
  current := h.current

/-- A change of the calls alone. -/
theorem Sound.withCalls {calls : List MountCall} (hcalls : ∀ call ∈ calls, w.Current call) :
    ({ w with calls } : VFS).Sound :=
  ⟨h.carried, h.counted, hcalls⟩

/-- A call more, or one that has come further. -/
theorem Sound.current_set {call : MountCall} (k : Nat) (hcall : w.Current call) :
    ∀ c ∈ w.calls.set k call, w.Current c := by
  intro c hc
  rcases mem_or_eq_of_mem_set hc with hc | rfl
  · exact h.current c hc
  · exact hcall

theorem Sound.current_concat {call : MountCall} (hcall : w.Current call) : ∀ c ∈ w.calls ++ [call], w.Current c :=
  forall_mem_append.mpr ⟨h.current, forall_mem_singleton.mpr hcall⟩

/-- An orderly step keeps every open file's filesystem mounted and counted. -/
theorem Sound.step {a : Action} (ho : w.Orderly a) (hstep : w.step a = some w') : w'.Sound := by
  cases a with
  | mount root mountPoint flags fsType =>
    cases hstep
    exact h.mount ho.1 ho.2
  | moveMount source target =>
    cases hstep
    exact h.moveMount ho.1 ho.2.1 ho.2.2
  | pivotRoot newRoot putOld =>
    cases hstep
    exact h.pivotRoot ho.1 ho.2
  | lookup path =>
    obtain ⟨e, he, rfl⟩ := map_eq_some_iff.mp hstep
    exact h.withCalls (h.current_concat ⟨e, he, rfl⟩)
  | getMountRef k =>
    simp only [VFS.step] at hstep
    split at hstep
    next path root hk =>
      cases hstep
      obtain ⟨e, he, hroot⟩ := h.current _ (mem_of_getElem? hk)
      refine h.withCalls (h.current_set k ?_)
      rw [he]
      exact ⟨e, findMount_mem he, hroot, .inr rfl⟩
    · cases hstep
  | newFile k =>
    simp only [VFS.step] at hstep
    split at hstep
    next root counter hk =>
      cases hstep
      have hs := h.newFile (h.current _ (mem_of_getElem? hk))
      exact hs.withCalls fun c hc => hs.current c (mem_of_mem_eraseIdx hc)
    · cases hstep
  | close f =>
    simp only [VFS.step, ite_none_right_eq_some, some.injEq] at hstep
    obtain ⟨hf, rfl⟩ := hstep
    exact h.dropFile hf
  | unmount mountPoint =>
    simp only [VFS.step] at hstep
    split at hstep
    · cases hstep
      exact h.withCalls (h.current_concat trivial)
    · cases hstep
      exact h
  | remove k =>
    simp only [VFS.step] at hstep
    split at hstep
    next mountPoint hk =>
      cases hstep
      simp only [Orderly, hk] at ho
      exact h.remove ho.1 ho.2 fun _ => mem_of_mem_eraseIdx
    · cases hstep

end

/-- **A mount in use stays.** In every state that a run of orderly steps reaches, the filesystem of every open file
    is the root of some entry of the mount table, and an `unmount` of that entry is refused. -/
theorem mount_in_use {w : VFS} (h : Run.Reach VFS.step Orderly (fun w => w = new) w) (f : MountedFile)
    (hf : f ∈ w.files) :
    ∃ mountPoint m, w.mounts.get mountPoint = some m ∧ m.root = f.root ∧
      w.unmountCheck mountPoint = .error .busy := by
  have hs : w.Sound := Run.Steps.invariant Sound (fun _ _ _ h => h.step) h sound_new
  obtain ⟨e, he, hc⟩ := hs.carried f hf
  exact ⟨e.1, e.2, mem_entries.mp he, hc.1, hs.busy hf he hc⟩

/-! ## Runs -/

def rootFs : RootId := 0

def dataFs : RootId := 1

/-- A file is open on the filesystem at `/mnt`. -/
def openedOnMnt : List Action :=
  [.mount rootFs slash 0 "tmpfs".toList, .mount dataFs "/mnt".toList 0 "ext4".toList,
    .lookup "/mnt/a".toList, .getMountRef 0, .newFile 0]

/-- The file opened on `/mnt`. -/
def dataFile : MountedFile := { root := dataFs, counter := some 1 }

/-- The filesystem with the open file may become the root: it is busy there. -/
theorem mount_in_use_pivoted :
    ∃ w, Run.exec VFS.step Orderly new (openedOnMnt ++ [.pivotRoot "/mnt".toList "/mnt/old".toList]) = some w ∧
      ∃ mountPoint m, w.mounts.get mountPoint = some m ∧ m.root = dataFs ∧
        w.unmountCheck mountPoint = .error .busy := by
  obtain ⟨w, hw, hfiles⟩ : ∃ w, Run.exec step Orderly new
      (openedOnMnt ++ [.pivotRoot "/mnt".toList "/mnt/old".toList]) = some w ∧ w.files = [dataFile] :=
    Run.exists_of_any (by decide +kernel)
  have hstart : Run.Reach step Orderly (fun w => w = new) new := .start rfl
  exact ⟨w, hw, mount_in_use (hstart.exec hw) dataFile (hfiles ▸ mem_singleton_self _)⟩

/-- The roots in the table with what `unmount` says of their entries. -/
def report (w : VFS) : List (PathStr × RootId × Bool) :=
  w.mounts.entries.map (fun e => (e.1, e.2.root, (w.unmountCheck e.1).isOk))

/-- **The counter stays behind.** After `move_mount` the filesystem of the open file can be unmounted; after a
    `pivot_root` that does not make it the root it can too; a second `mount` on its mount point leaves it nowhere;
    and an `unmount` whose check comes before the open removes it after. -/
theorem mount_removed_in_use :
    (Run.exec VFS.step (fun _ _ => True) new (openedOnMnt ++ [.moveMount "/mnt".toList "/x".toList])).map
        (fun w => (w.files, w.report)) =
      some ([dataFile], [("/".toList, rootFs, false), ("/x".toList, dataFs, true)]) ∧
    (Run.exec VFS.step (fun _ _ => True) new (openedOnMnt ++
        [.mount 2 "/new".toList 0 "ext4".toList, .pivotRoot "/new".toList "/new/old".toList])).map
        (fun w => (w.files, w.report)) =
      some ([dataFile], [("/".toList, 2, false), ("/old".toList, rootFs, true), ("/old/mnt".toList, dataFs, true)]) ∧
    (Run.exec VFS.step (fun _ _ => True) new (openedOnMnt ++ [.mount 2 "/mnt".toList 0 "tmpfs".toList])).map
        (fun w => (w.files, w.report)) =
      some ([dataFile], [("/".toList, rootFs, false), ("/mnt".toList, 2, true)]) ∧
    (Run.exec VFS.step (fun _ _ => True) new
        [.mount rootFs slash 0 "tmpfs".toList, .mount dataFs "/mnt".toList 0 "ext4".toList,
          .unmount "/mnt".toList, .lookup "/mnt/a".toList, .getMountRef 1, .newFile 1, .remove 0]).map
        (fun w => (w.files, w.report)) =
      some ([dataFile], [("/".toList, rootFs, false)]) := by
  refine ⟨?_, ?_, ?_, ?_⟩ <;> decide +kernel

end VFS
end OxideOs.Vfs
