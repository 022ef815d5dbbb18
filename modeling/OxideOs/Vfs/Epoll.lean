import OxideOs.Lib.Run
import OxideOs.Vfs.Error

/-!
# `Vfs.Epoll` — edge-triggered waits (`vfs::epoll`)

An entry of an instance keeps the conditions it asks for and the mask it last reported. A wait goes through the
entries; in edge-triggered mode it reports what is ready and not in that mask. The mask is one for both conditions,
and a wait that finds nothing new leaves it alone: once a wait has found both conditions, the mask holds both until a
wait finds neither, and an edge of one of them in between is lost (`edge_reported_iff`). What the files are ready
for is given with each wait.
-/

namespace OxideOs.Vfs

open List Run

def MAX_EPOLL_ENTRIES : Nat := 256

/-- The conditions a wait can report: `EPOLLIN`, `EPOLLOUT`. -/
inductive Condition where
  | input
  | output
  deriving DecidableEq

theorem Condition.mem_all (c : Condition) : c ∈ ({input, output} : Finset Condition) := by
  cases c <;> decide

instance : Fintype Condition := ⟨{.input, .output}, Condition.mem_all⟩

abbrev Mask := Finset Condition

/-- The bits of a mask of events that are read: the conditions, `EPOLLET` and `EPOLLONESHOT`. -/
structure Events where
  conditions : Mask
  et : Bool
  oneshot : Bool

/-- `can_read` and `can_write` of the files at one moment. -/
abbrev Readiness := Condition → Nat → Bool

structure EpollEntry where
  fd : Int
  /-- Which open file: what it is ready for is given with each wait. -/
  file : Nat
  events : Events
  data : BitVec 64
  lastReady : Mask
  disabled : Bool
  /-- Not in the source: what was ready at each wait since the entry was added or modified, newest first. -/
  waits : List Readiness

structure EpollEvent where
  events : Mask
  data : BitVec 64

namespace EpollEntry

def revents (e : EpollEntry) (r : Readiness) : Mask := e.events.conditions.filter (fun c => r c e.file)

/-- The body of the loop of `wait`: the event it pushes, and the entry afterwards. -/
def poll (r : Readiness) (e : EpollEntry) : Option EpollEvent × EpollEntry :=
  if e.disabled then (none, e)
  else if e.revents r = ∅ then (none, { e with lastReady := ∅ })
  else
    let newEvents := e.revents r \ e.lastReady
    if e.events.et ∧ newEvents = ∅ then (none, e)
    else
      (some { events := if e.events.et then newEvents else e.revents r, data := e.data },
        { e with lastReady := e.revents r, disabled := e.events.oneshot })

end EpollEntry

structure EpollInstance where
  entries : List EpollEntry

namespace EpollInstance

def new : EpollInstance := ⟨[]⟩

def add (i : EpollInstance) (fd : Int) (file : Nat) (events : Events) (data : BitVec 64) : VfsResult EpollInstance :=
  if i.entries.any (fun e => e.fd == fd) then .error .alreadyExists
  else if MAX_EPOLL_ENTRIES ≤ i.entries.length then .error .noSpace
  else .ok { entries := i.entries ++ [{ fd, file, events, data, lastReady := ∅, disabled := false, waits := [] }] }

/-- `Vec::swap_remove`: the last element takes the place. -/
def swapRemove (es : List EpollEntry) (pos : Nat) : List EpollEntry :=
  match es.getLast? with
  | some last => es.dropLast.set pos last
  | none => []

def del (i : EpollInstance) (fd : Int) : VfsResult EpollInstance :=
  match i.entries.findIdx? (fun e => e.fd == fd) with
  | some pos => .ok { entries := swapRemove i.entries pos }
  | none => .error .notFound

def modify (i : EpollInstance) (fd : Int) (events : Events) (data : BitVec 64) : VfsResult EpollInstance :=
  match i.entries.findIdx? (fun e => e.fd == fd) with
  | some pos =>
    .ok ⟨i.entries.modify pos (fun e => { e with events, data, disabled := false, lastReady := ∅, waits := [] })⟩
  | none => .error .notFound

/-- The rounds of the loop of `wait`, with `n` events pushed so far. -/
def rounds (r : Readiness) (limit : Nat) : Nat → List EpollEntry → List (Option EpollEvent × EpollEntry)
  | _, [] => []
  | n, e :: es =>
    if limit ≤ n then (e :: es).map (fun e => (none, e))
    else e.poll r :: rounds r limit (n + (e.poll r).1.toList.length) es

section

variable (i : EpollInstance) (maxEvents : Nat) (r : Readiness)

/-- The loop of `wait`: for each entry the event it pushes, and the entry afterwards. -/
def polls : List (Option EpollEvent × EpollEntry) :=
  rounds r (min maxEvents i.entries.length) 0 i.entries

def wait : List EpollEvent × EpollInstance :=
  ((i.polls maxEvents r).filterMap Prod.fst,
    { entries := (i.polls maxEvents r).map (fun x => { x.2 with waits := r :: x.2.waits }) })

/-- A wait reports a condition of the entry at a position. -/
def Reports (pos : Nat) (c : Condition) : Prop := ∃ x ∈ (i.polls maxEvents r)[pos]?, ∃ ev ∈ x.1, c ∈ ev.events

/-- Fewer entries are ready than events are asked for. -/
def HasRoom : Prop := i.entries.countP (fun e => e.revents r ≠ ∅) < maxEvents

end

theorem rounds_eq (r : Readiness) {maxEvents len : Nat} (es : List EpollEntry) (n : Nat)
    (hmax : n + es.countP (fun e => e.revents r ≠ ∅) < maxEvents) (hlen : n + es.length ≤ len) :
    rounds r (min maxEvents len) n es = es.map (EpollEntry.poll r) := by
  induction es generalizing n with
  | nil => rfl
  | cons e es ih =>
    rw [length_cons] at hlen
    rw [countP_cons] at hmax
    have hpush : (e.poll r).1.toList.length ≤ if decide (e.revents r ≠ ∅) = true then 1 else 0 := by
      unfold EpollEntry.poll
      split
      · exact Nat.zero_le _
      split
      · exact Nat.zero_le _
      next h0 =>
      rw [if_pos (decide_eq_true h0)]
      dsimp only
      split <;> simp
    unfold rounds
    rw [if_neg (by omega), ih _ (by omega) (by split at hpush <;> omega), map_cons]

/-- With room for all events, a wait looks at every entry. -/
theorem polls_eq {i : EpollInstance} {maxEvents : Nat} {r : Readiness} (h : i.HasRoom maxEvents r) :
    i.polls maxEvents r = i.entries.map (EpollEntry.poll r) :=
  rounds_eq _ _ 0 ((Nat.zero_add _).trans_lt h) (Nat.zero_add _).le

end EpollInstance

/-! ## What an entry remembers -/

section

variable {f : Mask} {history : List Mask}

/-- What waits found, newest first: since the last one that found neither condition, some wait found both. -/
def Merged (history : List Mask) : Prop := .univ ∈ history.takeWhile (fun f => f ≠ ∅)

instance (history : List Mask) : Decidable (Merged history) :=
  inferInstanceAs (Decidable (_ ∈ history.takeWhile _))

theorem merged_cons :
    Merged (f :: history) ↔ f ≠ ∅ ∧ (f = .univ ∨ Merged history) := by
  unfold Merged
  rw [takeWhile_cons]
  split
  next h => rw [mem_cons, eq_comm, and_iff_right (of_decide_eq_true h)]
  next h => exact ⟨fun hm => absurd hm not_mem_nil, fun hm => absurd (decide_eq_true hm.1) h⟩

/-- The mask after a history: both conditions when it is merged, else what the last wait found. -/
def recalled (history : List Mask) : Mask :=
  if Merged history then .univ else history.headD ∅

/-- Only a merged history leaves both conditions in the mask. -/
theorem merged_of_recalled (h : recalled history = .univ) : Merged history := by
  by_contra hno
  rw [recalled, if_neg hno] at h
  cases history with
  | nil => exact absurd h (by decide)
  | cons f older => exact hno (merged_cons.mpr ⟨by rw [show f = _ from h]; decide, .inl h⟩)

theorem recalled_empty : recalled (∅ :: history) = ∅ :=
  if_neg (fun h => (merged_cons.mp h).1 rfl)

/-- Nothing new is found: the mask is still right. -/
theorem recalled_kept (h0 : f ≠ ∅) (hold : f ⊆ recalled history) : recalled (f :: history) = recalled history := by
  have htwo : ∀ f m : Mask, f ≠ ∅ → f ⊆ m → m ≠ .univ → f = m := by decide
  by_cases hm : recalled history = .univ
  · rw [hm, recalled, if_pos (merged_cons.mpr ⟨h0, .inr (merged_of_recalled hm)⟩)]
  have hf : f = recalled history := htwo _ _ h0 hold hm
  have hno : ¬Merged (f :: history) := by
    rw [merged_cons, hf]
    rintro ⟨-, h | h⟩
    · exact hm h
    · exact hm (if_pos h)
  rw [recalled, if_neg hno]
  exact hf

/-- Something new is found: the mask becomes what was found. -/
theorem recalled_fresh (hnew : ¬f ⊆ recalled history) : recalled (f :: history) = f := by
  have hno : ¬Merged history := by
    intro h
    rw [recalled, if_pos h] at hnew
    exact hnew (Finset.subset_univ f)
  unfold recalled
  split
  next h => exact ((merged_cons.mp h).2.resolve_right hno).symm
  · rfl

end

namespace EpollEntry

variable {e : EpollEntry} {r : Readiness} {c : Condition}

/-- What the waits since the registration found, newest first. -/
def history (e : EpollEntry) : List Mask := e.waits.map e.revents

/-- An edge-triggered entry that is not one-shot remembers its history. -/
def Recalls (e : EpollEntry) : Prop :=
  e.events.et = true → e.events.oneshot = false → e.disabled = false ∧ e.lastReady = recalled e.history

/-- What a wait does to an entry it looks at. -/
theorem Recalls.poll (h : e.Recalls) : Recalls { (e.poll r).2 with waits := r :: (e.poll r).2.waits } := by
  unfold EpollEntry.poll
  split
  next hd =>
    intro het hshot
    rw [(h het hshot).1] at hd
    cases hd
  split
  next hd h0 =>
    refine fun _ _ => ⟨Bool.not_eq_true _ ▸ hd, ?_⟩
    show ∅ = recalled (e.revents r :: e.history)
    rw [h0, recalled_empty]
  next hd h0 =>
  dsimp only
  split
  next hold =>
    intro het hshot
    obtain ⟨hon, hlast⟩ := h het hshot
    rw [hlast, Finset.sdiff_eq_empty_iff_subset] at hold
    exact ⟨hon, hlast.trans (recalled_kept h0 hold.2).symm⟩
  next hold =>
    refine fun het hshot => ⟨hshot, ?_⟩
    rw [(h het hshot).2, Finset.sdiff_eq_empty_iff_subset] at hold
    exact (recalled_fresh (fun hsub => hold ⟨het, hsub⟩)).symm

/-- An edge-triggered entry reports what it finds and does not remember. -/
theorem poll_reports (het : e.events.et = true) (hon : e.disabled = false) :
    (∃ ev ∈ (e.poll r).1, c ∈ ev.events) ↔ c ∈ e.revents r ∧ c ∉ e.lastReady := by
  rw [← Finset.mem_sdiff]
  unfold poll
  rw [hon, het]
  split
  · contradiction
  split
  next h0 => simp [h0]
  dsimp only
  split
  next hold => simp [hold.2]
  · simp

/-- **An edge** at a wait that finds the files as `r` says: the condition is ready, and no wait since the registration
    found it ready or the last one did not. -/
def Edge (e : EpollEntry) (r : Readiness) (c : Condition) : Prop :=
  r c e.file = true ∧ ((∀ r' ∈ e.waits, r' c e.file = false) ∨ ∃ r' ∈ e.waits.head?, r' c e.file = false)

instance (e : EpollEntry) (r : Readiness) (c : Condition) : Decidable (e.Edge r c) :=
  inferInstanceAs (Decidable (_ ∧ _))

/-- An edge, from what the waits found. -/
theorem edge_iff (hask : c ∈ e.events.conditions) : e.Edge r c ↔ c ∈ e.revents r ∧ c ∉ e.history.headD ∅ := by
  have hfinds : ∀ r : Readiness, c ∈ e.revents r ↔ r c e.file = true := by
    intro r
    rw [revents, Finset.mem_filter, and_iff_right hask]
  unfold Edge history
  rw [hfinds]
  refine and_congr_right (fun _ => ?_)
  cases e.waits with
  | nil => simp
  | cons last older =>
    simp only [map_cons, headD_cons, hfinds, head?_cons, Option.mem_some_iff, exists_eq_left', Bool.not_eq_true]
    exact ⟨fun h => h.elim (fun hall => hall last mem_cons_self) id, .inr⟩

end EpollEntry

/-! ## Runs -/

inductive EpollCall where
  | add (fd : Int) (file : Nat) (events : Events) (data : BitVec 64)
  | del (fd : Int)
  | modify (fd : Int) (events : Events) (data : BitVec 64)
  | wait (maxEvents : Nat) (r : Readiness)

namespace EpollInstance

/-- A call that is refused changes nothing and is no step. -/
def step (i : EpollInstance) : EpollCall → Option EpollInstance
  | .add fd file events data => (i.add fd file events data).toOption
  | .del fd => (i.del fd).toOption
  | .modify fd events data => (i.modify fd events data).toOption
  | .wait maxEvents r => some (i.wait maxEvents r).2

/-- Every wait has room. -/
def Roomy (i : EpollInstance) : EpollCall → Prop
  | .wait maxEvents r => i.HasRoom maxEvents r
  | _ => True

instance (i : EpollInstance) : ∀ call, Decidable (i.Roomy call)
  | .wait _ _ => Nat.decLt _ _
  | .add .. | .del _ | .modify .. => instDecidableTrue

variable {i i' : EpollInstance} {e : EpollEntry} {c : Condition} {pos maxEvents : Nat} {r : Readiness}

theorem mem_of_mem_swapRemove {es : List EpollEntry} (h : e ∈ swapRemove es pos) : e ∈ es := by
  unfold swapRemove at h
  split at h
  next last hlast =>
    rcases mem_or_eq_of_mem_set h with h | rfl
    · exact mem_of_mem_dropLast h
    · exact mem_of_mem_getLast? hlast
  · cases h

/-- One call keeps what every entry remembers. -/
theorem recalls_step {call : EpollCall} (hi : ∀ e ∈ i.entries, e.Recalls) (hroom : i.Roomy call)
    (h : i.step call = some i') : ∀ e ∈ i'.entries, e.Recalls := by
  have hnew : ∀ {e : EpollEntry}, e.lastReady = ∅ → e.disabled = false → e.waits = [] → e.Recalls := by
    intro e hlast hon hwaits _ _
    exact ⟨hon, by rw [hlast, EpollEntry.history, hwaits]; rfl⟩
  cases call with
  | add fd file events data =>
    rw [step, add] at h
    split at h
    · cases h
    split at h <;> cases h
    rw [forall_mem_append]
    exact ⟨hi, forall_mem_singleton.mpr (hnew rfl rfl rfl)⟩
  | del fd =>
    rw [step, del] at h
    split at h <;> cases h
    exact fun e he => hi e (mem_of_mem_swapRemove he)
  | modify fd events data =>
    rw [step, modify] at h
    split at h <;> cases h
    intro e he
    obtain ⟨j, hj⟩ := mem_iff_getElem?.mp he
    rw [getElem?_modify] at hj
    obtain ⟨e, hje, rfl⟩ := Option.map_eq_some_iff.mp hj
    split
    · exact hnew rfl rfl rfl
    · exact hi e (mem_of_getElem? hje)
  | wait maxEvents r =>
    cases h
    unfold wait
    rw [polls_eq hroom, map_map]
    intro e he
    obtain ⟨e, hmem, rfl⟩ := mem_map.mp he
    exact (hi e hmem).poll

/-- **Which edges are reported.** A wait reports of an edge-triggered entry exactly the edges of a condition it asks
    for, unless since the last wait that found neither condition some wait found both; then the edge is lost. -/
theorem edge_reported_iff (h : Run.Reach step Roomy (fun i => i = new) i) (hpos : i.entries[pos]? = some e)
    (het : e.events.et = true) (hshot : e.events.oneshot = false) (hask : c ∈ e.events.conditions)
    (hroom : i.HasRoom maxEvents r) :
    (i.Reports maxEvents r pos c ↔ e.Edge r c) ↔ ¬(e.Edge r c ∧ Merged e.history) := by
  have hinv : ∀ e ∈ i.entries, e.Recalls := by
    refine h.invariant (fun i => ∀ e ∈ i.entries, e.Recalls) ?_ (fun _ _ _ => recalls_step)
    rintro _ rfl e he
    cases he
  obtain ⟨hon, hlast⟩ := hinv e (mem_of_getElem? hpos) het hshot
  have hreports : i.Reports maxEvents r pos c ↔ c ∈ e.revents r ∧ c ∉ recalled e.history := by
    rw [← hlast, ← EpollEntry.poll_reports het hon, Reports, polls_eq hroom, getElem?_map, hpos]
    simp only [Option.map_some, Option.mem_some_iff, exists_eq_left']
  rw [hreports, EpollEntry.edge_iff hask, recalled]
  split
  next hm => simp [hm]
  next hm => simp [hm]

/-- What file 0 is ready for; no other file is ready. -/
def ready (input output : Bool) : Readiness
  | .input, file => file == 0 && input
  | .output, file => file == 0 && output

/-- Both conditions, edge-triggered. -/
def bothEdges : Events := ⟨.univ, true, false⟩

/-- Two descriptors, of which the first is taken out again; then a wait finds input alone and one output alone. The
    next edge of input is reported. -/
theorem edge_reported_iff_alternating : ∃ i, Run.Reach step Roomy (fun i => i = new) i ∧
    (∃ e ∈ i.entries[0]?, e.lastReady = {.output} ∧ e.Edge (ready true true) .input) ∧
    i.Reports 2 (ready true true) 0 .input := by
  obtain ⟨i, hi, hroom, e, hpos, hlast, het, hshot, hask, hedge, hmerged⟩ :
      ∃ i, Reach step Roomy (fun i => i = new) i ∧ i.Roomy (.wait 2 (ready true true)) ∧
      ∃ e ∈ i.entries[0]?, e.lastReady = {.output} ∧ e.events.et = true ∧ e.events.oneshot = false ∧
        .input ∈ e.events.conditions ∧ e.Edge (ready true true) .input ∧ ¬Merged e.history :=
    Reach.exists_exec [.add 4 1 ⟨{.input}, false, false⟩ 0, .add 3 0 bothEdges 0, .del 4,
      .wait 2 (ready true false), .wait 2 (ready false true)] rfl (by decide)
  have hiff := edge_reported_iff hi hpos het hshot hask hroom
  exact ⟨i, hi, ⟨e, hpos, hlast, hedge⟩, (hiff.mpr (fun h => hmerged h.2)).mpr hedge⟩

/-- **An edge is lost.** Both conditions are found and reported at the first wait, input is not ready at the second
    and ready again at the third, which reports nothing. -/
theorem edge_lost : ∃ i, Run.Reach step Roomy (fun i => i = new) i ∧
    (∃ e ∈ i.entries[0]?, e.events.et = true ∧ e.events.oneshot = false ∧ .input ∈ e.events.conditions ∧
      e.Edge (ready true true) .input) ∧
    i.Roomy (.wait 2 (ready true true)) ∧ (i.wait 2 (ready true true)).1.map EpollEvent.events = [] :=
  Reach.exists_exec [.add 3 0 bothEdges 0, .wait 2 (ready true true), .wait 2 (ready false true)] rfl (by decide)

end EpollInstance
end OxideOs.Vfs
