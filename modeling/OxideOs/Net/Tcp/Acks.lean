import OxideOs.Net.Tcp.Send

/-!
# `Net.Tcp.Acks` — what an acknowledgment may acknowledge

Everything a connection sends is numbered from its initial sequence number on: `numbers` counts the bytes, SYNs and
FINs in the segments it queued. `process_ack` takes an acknowledgment of numbers that were never sent, `SynSent`
takes any, and the opening and closing states move on with the ACK flag alone. As long as acknowledgments are about
what was sent, `snd_una` stays behind `snd_nxt` by the numbers in flight.
-/

namespace OxideOs.Tcp

open List TcpConnection TcpSegment BitVec Checked

namespace Session

variable {s s' : Session} {a : Session.Action} {isn : BitVec 32} {acked : Nat}

/-- The sequence numbers sent so far. -/
def numbers (s : Session) : Nat := (s.queued.map seqLen).sum

/-- How many numbers may be in flight. -/
def limit : TcpState → Nat
  | .listen => 0
  | .synSent => 1
  | .synReceived | .established | .closeWait => TCP_WINDOW_SIZE
  | _ => TCP_WINDOW_SIZE + 1

/-- Our SYN is not acknowledged yet. -/
def Opening (st : TcpState) : Prop := st = .listen ∨ st = .synSent ∨ st = .synReceived

/-- Our FIN is not acknowledged yet. -/
def Closing (st : TcpState) : Prop := st = .finWait1 ∨ st = .closing ∨ st = .lastAck

instance (st : TcpState) : Decidable (Opening st) := inferInstanceAs (Decidable (_ ∨ _ ∨ _))
instance (st : TcpState) : Decidable (Closing st) := inferInstanceAs (Decidable (_ ∨ _ ∨ _))

/-- The numbers an acknowledgment acknowledges, counted from the oldest one in flight. -/
def ackOffset (c : TcpConnection) (seg : TcpSegment) : Nat := (seg.header.ackNum - c.sndUna).toNat

/-- The numbers in flight. -/
def inFlight (c : TcpConnection) : Nat := (c.sndNxt - c.sndUna).toNat

/-- **The acknowledgment is about what was sent**: it does not pass `snd_nxt`; in the opening states it covers the
    SYN, in the closing states the FIN. -/
def AckValid (c : TcpConnection) (seg : TcpSegment) : Prop :=
  (c.completesSyn seg = true → 1 ≤ ackOffset c seg ∧ ackOffset c seg ≤ inFlight c) ∧
    (c.acks seg = true →
      (seqGt seg.header.ackNum c.sndUna = true → ackOffset c seg ≤ inFlight c) ∧
        (c.state = .synReceived → 1 ≤ ackOffset c seg ∧ ackOffset c seg ≤ inFlight c) ∧
        (Closing c.state → seg.header.ackNum = c.sndNxt))

instance (c : TcpConnection) (seg : TcpSegment) : Decidable (AckValid c seg) := by
  delta AckValid
  infer_instance

def AcksValid (s : Session) (a : Action) : Prop :=
  match a with
  | .segment seg => AckValid s.conn seg
  | _ => True

instance (s : Session) (a : Action) : Decidable (AcksValid s a) := by
  delta AcksValid
  exact match a with
    | .segment _ | .recv _ | .send _ | .close | .transmitData | .timers | .dequeueSegments => inferInstance

/-- What a segment acknowledges, when the peer has acknowledged `acked` of the numbers sent before. An acknowledgment of
    a number that was not sent, or was acknowledged before, counts for nothing. -/
def newlyAcked (isn : BitVec 32) (s : Session) (acked : Nat) (seg : TcpSegment) : Nat :=
  let offset := (seg.header.ackNum - (isn + BitVec.ofNat 32 acked)).toNat
  if (s.conn.completesSyn seg = true ∨ s.conn.acks seg = true) ∧ offset ≤ s.numbers - acked then offset else 0

/-- **The acknowledgment invariant**: `acked` of the numbers sent are acknowledged. -/
structure Validated (isn : BitVec 32) (s : Session) (acked : Nat) : Prop where
  sndNxt : s.conn.sndNxt = isn + BitVec.ofNat 32 s.numbers
  sndUna : s.conn.sndUna = isn + BitVec.ofNat 32 acked
  le : acked ≤ s.numbers
  limit : s.numbers - acked ≤ limit s.conn.state
  sndWnd : s.conn.sndWnd = BitVec.ofNat 32 TCP_WINDOW_SIZE
  opening : Opening s.conn.state → acked = 0
  syn : s.conn.state = .synSent ∨ s.conn.state = .synReceived →
    ∃ seg ∈ s.queued, seg.header.has SYN = true ∧ seg.header.seqNum = isn
  fin : Closing s.conn.state → ∃ seg ∈ s.queued, seg.header.has FIN = true ∧ seg.header.seqNum + 1 = s.conn.sndNxt

/-! ## The state machine -/

/-- The transitions that need an acknowledgment of our SYN. -/
def OpensOnAck (st st' : TcpState) : Prop := (st = .synSent ∨ st = .synReceived) ∧ st' = .established

/-- The transitions that need an acknowledgment of our FIN. -/
def ClosesOnAck (st st' : TcpState) : Prop :=
  (st = .finWait1 ∧ (st' = .finWait2 ∨ st' = .timeWait)) ∨ (st = .closing ∧ st' = .timeWait) ∨
    (st = .lastAck ∧ st' = .closed)

/-- What a segment does to the states of the acknowledgments: a finite check. -/
theorem nextState_acks (c : TcpConnection) (seg : TcpSegment) :
    limit c.state + (c.answersSyn seg).toNat ≤ limit (c.nextState seg) ∧
      (Opening (c.nextState seg) → Opening c.state ∧ c.completesSyn seg = false ∧ c.acks seg = false) ∧
      (c.nextState seg = .synSent ∨ c.nextState seg = .synReceived →
        (c.state = .synSent ∨ c.state = .synReceived) ∨ c.state = .listen ∧ c.answersSyn seg = true) ∧
      (Closing (c.nextState seg) → Closing c.state ∧ c.answersSyn seg = false) ∧
      (OpensOnAck c.state (c.nextState seg) → seg.header.has ACK = true ∧
        (c.completesSyn seg = true ∨ c.acks seg = true ∧ c.state = .synReceived)) ∧
      (ClosesOnAck c.state (c.nextState seg) →
        seg.header.has ACK = true ∧ c.acks seg = true ∧ Closing c.state) := by
  unfold nextState answersSyn completesSyn acks considers OpensOnAck ClosesOnAck
  generalize c.accepts seg = accepted, seg.header.has RST = rst, seg.header.has SYN = syn, seg.header.has ACK = ack,
    seg.header.has FIN = fin, c.state = st
  revert accepted rst syn ack fin
  cases st <;> decide

/-! ## Numbers in flight -/

theorem ackOffset_of_not_seqGt {c : TcpConnection} {seg : TcpSegment}
    (h : ¬ seqGt seg.header.ackNum c.sndUna = true) : ackOffset c seg = 0 ∨ 2 ^ 31 ≤ ackOffset c seg := by
  have hle : (seg.header.ackNum - c.sndUna).toInt ≤ 0 := not_lt.mp (fun hlt => h (decide_eq_true hlt))
  rw [BitVec.toInt_eq_toNat_cond] at hle
  unfold ackOffset
  split at hle <;> omega

section

variable (h : Validated isn s acked)
include h

theorem Validated.inFlight_le : s.numbers - acked ≤ 65536 := by
  have hlimit : Session.limit s.conn.state ≤ 65536 := by
    cases s.conn.state <;> decide
  exact le_trans h.limit hlimit

theorem Validated.inFlight : inFlight s.conn = s.numbers - acked := by
  have hle := h.le
  have hfew := h.inFlight_le
  unfold Session.inFlight
  rw [h.sndNxt, h.sndUna]
  have hsplit : isn + BitVec.ofNat 32 s.numbers - (isn + BitVec.ofNat 32 acked) =
      BitVec.ofNat 32 (s.numbers - acked) := by
    bv_omega
  rw [hsplit]
  apply Nat.mod_eq_of_lt
  omega

/-- The oldest unacknowledged number after a segment. -/
theorem Validated.nextUna {seg : TcpSegment} (hok : AckValid s.conn seg) :
    newlyAcked isn s acked seg ≤ s.numbers - acked ∧
      s.conn.nextUna seg = isn + BitVec.ofNat 32 (acked + newlyAcked isn s acked seg) ∧
      (s.conn.completesSyn seg = false → s.conn.acks seg = false → newlyAcked isn s acked seg = 0) := by
  have hflight := h.inFlight
  have hoff : (seg.header.ackNum - (isn + BitVec.ofNat 32 acked)).toNat = ackOffset s.conn seg := by
    unfold ackOffset
    rw [h.sndUna]
  have hadvance : (s.conn.completesSyn seg = true ∨ s.conn.acks seg = true) →
      ackOffset s.conn seg ≤ Session.inFlight s.conn → newlyAcked isn s acked seg = ackOffset s.conn seg ∧
        seg.header.ackNum = isn + BitVec.ofNat 32 (acked + ackOffset s.conn seg) := by
    intro htaken hle
    refine ⟨?_, ?_⟩
    · unfold newlyAcked
      simp only [hoff]
      exact if_pos ⟨htaken, hflight ▸ hle⟩
    · have hun := h.sndUna
      unfold ackOffset
      bv_omega
  have hzero : newlyAcked isn s acked seg = 0 → s.conn.sndUna =
      isn + BitVec.ofNat 32 (acked + newlyAcked isn s acked seg) := by
    intro hz
    rw [hz]
    exact h.sndUna
  refine ⟨?_, ?_, fun hno hno' => ?_⟩
  · unfold newlyAcked
    dsimp only
    split
    next hin => exact hin.2
    · exact Nat.zero_le _
  · unfold TcpConnection.nextUna
    split
    next hsyn =>
      obtain ⟨hnew, hack⟩ := hadvance (.inl hsyn) (hok.1 hsyn).2
      rw [hnew, hack]
    split
    next hacks =>
      split
      next hgt =>
        obtain ⟨hnew, hack⟩ := hadvance (.inr hacks) ((hok.2 hacks).1 hgt)
        rw [hnew, hack]
      next hgt =>
        refine hzero ?_
        -- an old acknowledgment is half the sequence space away
        have hold := ackOffset_of_not_seqGt hgt
        have hfew := h.inFlight_le
        unfold newlyAcked
        simp only [hoff]
        split
        next hin => omega
        · rfl
    next hno' =>
      refine hzero (if_neg ?_)
      rintro ⟨hsyn | hacks, -⟩
      · exact absurd hsyn ‹_›
      · exact absurd hacks hno'
  · refine if_neg ?_
    rintro ⟨hsyn | hacks, -⟩
    · rw [hno] at hsyn
      cases hsyn
    · rw [hno'] at hacks
      cases hacks

/-! ## One step -/

theorem Validated.segment {seg : TcpSegment} {segs : List TcpSegment}
    (hok : AckValid s.conn seg) (heff : Effect s.conn seg s'.conn) (hq : s'.queued = s.queued ++ segs)
    (hans : Answers s.conn.sndNxt (s.conn.answersSyn seg) segs) :
    Validated isn s' (acked + newlyAcked isn s acked seg) := by
  obtain ⟨hnew, huna, hsame⟩ := h.nextUna hok
  have hle := h.le
  obtain ⟨_, hopening, hsyn, hclosing, -⟩ := nextState_acks s.conn seg
  have hnum : s'.numbers = s.numbers + (s.conn.answersSyn seg).toNat := by
    unfold numbers
    rw [hq, map_append, sum_append, hans.numbers]
  have hbit : (if s.conn.answersSyn seg = true then (1 : BitVec 32) else 0) =
      BitVec.ofNat 32 (s.conn.answersSyn seg).toNat := by
    cases s.conn.answersSyn seg <;> rfl
  refine ⟨?_, ?_, ?_, ?_, ?_, ?_, ?_, ?_⟩
  · rw [heff.sndNxt, h.sndNxt, hnum, hbit, ofNat_add, add_assoc]
  · rw [heff.sndUna, huna]
  · omega
  · have hbound := h.limit
    rw [heff.state]
    omega
  · rw [heff.sndWnd]
    exact h.sndWnd
  · intro hst
    rw [heff.state] at hst
    obtain ⟨hst, hno, hno'⟩ := hopening hst
    rw [hsame hno hno']
    exact h.opening hst
  · intro hst
    rw [heff.state] at hst
    rw [hq]
    rcases hsyn hst with hst | ⟨hst, hans'⟩
    · obtain ⟨t, ht, hrest⟩ := h.syn hst
      exact ⟨t, mem_append_left _ ht, hrest⟩
    -- nothing was sent before the answer to the SYN
    obtain ⟨t, ht, htsyn, hseq⟩ := hans.syn hans'
    refine ⟨t, mem_append_right _ ht, htsyn, ?_⟩
    have hzero : acked = 0 := h.opening (.inl hst)
    have hnone : s.numbers = 0 := by
      have hbound := h.limit
      rw [hst, hzero] at hbound
      exact Nat.eq_zero_of_le_zero hbound
    rw [hseq, h.sndNxt, hnone]
    simp
  · intro hst
    rw [heff.state] at hst
    obtain ⟨hst, hno⟩ := hclosing hst
    obtain ⟨t, ht, hfin, hseq⟩ := h.fin hst
    refine ⟨t, ?_, hfin, ?_⟩
    · rw [hq]
      exact mem_append_left _ ht
    · rw [heff.sndNxt, hno, hseq]
      simp

theorem Validated.quiet (hq : s'.queued = s.queued)
    (hnxt : s'.conn.sndNxt = s.conn.sndNxt) (huna : s'.conn.sndUna = s.conn.sndUna)
    (hwnd : s'.conn.sndWnd = s.conn.sndWnd) (hst : s'.conn.state = s.conn.state ∨ s'.conn.state = .closed) :
    Validated isn s' acked := by
  have hnum : s'.numbers = s.numbers := by
    unfold numbers
    rw [hq]
  have hclosed : s'.conn.state = .closed →
      ¬ Opening s'.conn.state ∧ ¬ Closing s'.conn.state ∧ Session.limit s.conn.state ≤ Session.limit s'.conn.state := by
    intro hx
    rw [hx]
    cases s.conn.state <;> decide
  refine ⟨?_, ?_, ?_, ?_, ?_, ?_, ?_, ?_⟩
  · rw [hnxt, hnum]
    exact h.sndNxt
  · rw [huna]
    exact h.sndUna
  · rw [hnum]
    exact h.le
  · rw [hnum]
    rcases hst with hst | hst
    · rw [hst]
      exact h.limit
    · exact le_trans h.limit (hclosed hst).2.2
  · rw [hwnd]
    exact h.sndWnd
  · intro ho
    rcases hst with hst | hst
    · exact h.opening (hst ▸ ho)
    · exact absurd ho (hclosed hst).1
  · intro ho
    rcases hst with hst | hst
    · rw [hq]
      exact h.syn (hst ▸ ho)
    · exact absurd (.inr ho) (hclosed hst).1
  · intro hc
    rcases hst with hst | hst
    · rw [hq, hnxt]
      exact h.fin (hst ▸ hc)
    · exact absurd hc (hclosed hst).2.1

/-- `n` more numbers are queued, in a state that does not wait for our SYN. -/
theorem Validated.grow {n : Nat} (hnum : s'.numbers = s.numbers + n)
    (hnxt : s'.conn.sndNxt = s.conn.sndNxt + BitVec.ofNat 32 n) (huna : s'.conn.sndUna = s.conn.sndUna)
    (hwnd : s'.conn.sndWnd = s.conn.sndWnd) (hlimit : s.numbers + n - acked ≤ Session.limit s'.conn.state)
    (hno : ¬ Opening s'.conn.state) (hfin : Closing s'.conn.state →
      ∃ seg ∈ s'.queued, seg.header.has FIN = true ∧ seg.header.seqNum + 1 = s'.conn.sndNxt) :
    Validated isn s' acked where
  sndNxt := by rw [hnxt, h.sndNxt, hnum, ofNat_add, add_assoc]
  sndUna := huna.trans h.sndUna
  le := by
    have hle := h.le
    omega
  limit := by rwa [hnum]
  sndWnd := hwnd.trans h.sndWnd
  opening ho := absurd ho hno
  syn ho := absurd (.inr ho) hno
  fin := hfin

end

theorem Sending.not_waiting {st : TcpState} (h : Sending st) : ¬ Opening st ∧ ¬ Closing st := by
  rcases h with rfl | rfl <;> decide

/-- What the peer has acknowledged after a step. -/
def ackedAfter (isn : BitVec 32) (s : Session) (acked : Nat) : Action → Nat
  | .segment seg => acked + newlyAcked isn s acked seg
  | _ => acked

/-- One step. -/
theorem Validated.step (h : Validated isn s acked) (hok : AcksValid s a) (hs : s.step a = some s') :
    Validated isn s' (ackedAfter isn s acked a) := by
  rcases step_send hs with ⟨seg, segs, rfl, heff, hq, hans, -⟩ | ⟨hno, hout, huna, hwnd⟩
  · exact h.segment hok heff hq hans
  have hsame : ackedAfter isn s acked a = acked := by
    cases a with
    | segment seg => exact absurd rfl (hno seg)
    | _ => rfl
  rw [hsame]
  cases hout with
  | quiet queued sent sendBuf sndNxt state => exact h.quiet queued sndNxt huna hwnd (state.imp_right (fun hst => hst.2))
  | accept data n segs sending queued sent le sendBuf sndNxt segments window state =>
    have hnum : s'.numbers = s.numbers + n := by
      have hlen : (segs.map seqLen).sum = n := by
        rcases segments with ⟨rfl, rfl⟩ | ⟨seg, rfl, hdata, -, hfin, hsyn⟩
        · rfl
        show seg.seqLen + 0 = n
        unfold seqLen
        rw [hdata, hfin, hsyn, length_take_of_le le]
        rfl
      unfold numbers
      rw [queued, map_append, sum_append, hlen]
    have hst : Session.limit s.conn.state = TCP_WINDOW_SIZE := by
      rcases sending with hx | hx <;> rw [hx] <;> rfl
    obtain ⟨hno, hnc⟩ := sending.not_waiting
    rw [← state] at hno hnc
    refine h.grow hnum sndNxt huna hwnd ?_ hno (fun hc => absurd hc hnc)
    have hbound := h.limit
    rw [state]
    by_cases hn : n = 0
    · omega
    -- what leaves fits into the send window
    have hflight : (s.conn.sndNxt - s.conn.sndUna).toNat = s.numbers - acked := h.inFlight
    have hmax : s.conn.sndWnd.toNat = TCP_WINDOW_SIZE := by
      rw [h.sndWnd]
      decide
    omega
  | fin seg close sending queued sent sendBuf sndNxt segment state =>
    obtain ⟨hdata, hseq, hfin, hsyn⟩ := segment
    have hnum : s'.numbers = s.numbers + 1 := by
      have hlen : seg.seqLen = 1 := by
        unfold seqLen
        rw [hdata, hfin, hsyn]
        rfl
      unfold numbers
      rw [queued, map_append, sum_append]
      show _ + (seg.seqLen + 0) = _
      rw [hlen]
    have hst : Session.limit s.conn.state = TCP_WINDOW_SIZE := by
      rcases sending with hx | hx <;> rw [hx] <;> rfl
    have hst' : Session.limit s'.conn.state = TCP_WINDOW_SIZE + 1 := by
      rcases state with hx | hx <;> rw [hx] <;> rfl
    have hno : ¬ Opening s'.conn.state := by
      rcases state with hx | hx <;> rw [hx] <;> decide
    refine h.grow hnum sndNxt huna hwnd ?_ hno (fun _ => ?_)
    · have hbound := h.limit
      omega
    · refine ⟨seg, ?_, hfin, ?_⟩
      · rw [queued]
        exact mem_append_right _ (mem_singleton.mpr rfl)
      · rw [hseq, sndNxt]

theorem Opened.validated (h : Opened isn s) : Validated isn s 0 := by
  obtain ⟨hopen, huna, hwnd, -⟩ := h.queued
  rcases hopen with ⟨hst, hnxt, hans⟩ | ⟨hst, hnxt, hq⟩
  · have hnum : s.numbers = 1 := hans.numbers
    refine ⟨?_, ?_, Nat.zero_le _, ?_, hwnd, fun _ => rfl, fun _ => hans.syn rfl, ?_⟩
    · rw [hnxt, hnum]
      rfl
    · rw [huna]
      simp
    · rw [hnum, hst]
      exact le_refl 1
    · intro hc
      rw [hst] at hc
      exact absurd hc (by decide)
  have hnum : s.numbers = 0 := by
    unfold numbers
    rw [hq]
    rfl
  refine ⟨?_, ?_, Nat.zero_le _, ?_, hwnd, fun _ => rfl, ?_, ?_⟩
  · rw [hnxt, hnum]
    simp
  · rw [huna]
    simp
  · rw [hnum]
    exact Nat.zero_le _
  · intro ho
    rw [hst] at ho
    exact absurd ho (by decide)
  · intro hc
    rw [hst] at hc
    exact absurd hc (by decide)

/-! ## Every run -/

/-- The segment acknowledges our SYN. -/
def CoversSyn (isn : BitVec 32) (s : Session) (seg : TcpSegment) : Prop :=
  (∃ syn ∈ s.queued, syn.header.has SYN = true ∧ syn.header.seqNum = isn) ∧
    ∃ m, 1 ≤ m ∧ m ≤ s.numbers ∧ seg.header.ackNum = isn + BitVec.ofNat 32 m

/-- The segment acknowledges our FIN. -/
def CoversFin (s : Session) (seg : TcpSegment) : Prop :=
  ∃ fin ∈ s.queued, fin.header.has FIN = true ∧ seg.header.ackNum = fin.header.seqNum + 1

theorem Validated.covers_syn (h : Validated isn s acked) {seg : TcpSegment} (hok : AckValid s.conn seg)
    (hmove : OpensOnAck s.conn.state (s.conn.nextState seg)) : seg.header.has ACK = true ∧ CoversSyn isn s seg := by
  obtain ⟨hack, hwhy⟩ := (nextState_acks s.conn seg).2.2.2.2.1 hmove
  have hoff : 1 ≤ ackOffset s.conn seg ∧ ackOffset s.conn seg ≤ Session.inFlight s.conn := by
    rcases hwhy with hsyn | ⟨hacks, hst⟩
    · exact hok.1 hsyn
    · exact (hok.2 hacks).2.1 hst
  have hzero : acked = 0 := h.opening (.inr hmove.1)
  have huna : s.conn.sndUna = isn := by
    rw [h.sndUna, hzero]
    simp
  have hflight := h.inFlight
  refine ⟨hack, h.syn hmove.1, ackOffset s.conn seg, hoff.1, by omega, ?_⟩
  unfold ackOffset
  bv_omega

/-- A session with the number of its sequence numbers that the peer has acknowledged. -/
structure Acknowledged where
  session : Session
  acked : Nat

def Acknowledged.step (isn : BitVec 32) (w : Acknowledged) (a : Action) : Option Acknowledged :=
  (w.session.step a).map (fun s => ⟨s, ackedAfter isn w.session w.acked a⟩)

/-- Just opened, with nothing acknowledged. -/
def Acknowledged.Opened (isn : BitVec 32) (w : Acknowledged) : Prop := Session.Opened isn w.session ∧ w.acked = 0

/-- **Acknowledgments are validated.** In every run whose acknowledgments are about what was sent, `snd_una` is
    behind `snd_nxt` by the numbers sent and not acknowledged, never by more than half the sequence space, and the
    states that wait for an acknowledgment of the SYN or the FIN move on only with one. -/
theorem acknowledgments_validated {w : Acknowledged}
    (h : Run.Reach (Acknowledged.step isn) (fun w a => AcksValid w.session a) (Acknowledged.Opened isn) w) :
    (w.acked ≤ w.session.numbers ∧ w.session.conn.sndNxt = isn + BitVec.ofNat 32 w.session.numbers ∧
      w.session.conn.sndUna = isn + BitVec.ofNat 32 w.acked ∧
      (w.session.conn.sndNxt - w.session.conn.sndUna).toNat = w.session.numbers - w.acked ∧
      w.session.numbers - w.acked ≤ 2 ^ 31 - 1) ∧
    ∀ a s', AcksValid w.session a → w.session.step a = some s' →
      (OpensOnAck w.session.conn.state s'.conn.state →
        ∃ seg, a = .segment seg ∧ seg.header.has ACK = true ∧ CoversSyn isn w.session seg) ∧
      (ClosesOnAck w.session.conn.state s'.conn.state →
        ∃ seg, a = .segment seg ∧ seg.header.has ACK = true ∧ CoversFin w.session seg) := by
  have hi : Validated isn w.session w.acked := by
    refine h.invariant (fun w => Validated isn w.session w.acked) ?_ ?_
    · rintro w ⟨hopen, hnone⟩
      rw [hnone]
      exact hopen.validated
    · intro w a w' hi hok hs
      obtain ⟨s', hs', rfl⟩ := Option.map_eq_some_iff.mp hs
      exact hi.step hok hs'
  have hfew := hi.inFlight_le
  refine ⟨⟨hi.le, hi.sndNxt, hi.sndUna, hi.inFlight, by omega⟩, ?_⟩
  obtain ⟨s, acked⟩ := w
  intro a s' hok hs
  rcases step_send hs with ⟨seg, segs, rfl, heff, -⟩ | ⟨-, hout, -⟩
  · rw [heff.state]
    refine ⟨fun hmove => ⟨seg, rfl, hi.covers_syn hok hmove⟩, fun hmove => ⟨seg, rfl, ?_⟩⟩
    obtain ⟨hack, hacks, hclosing⟩ := (nextState_acks s.conn seg).2.2.2.2.2 hmove
    obtain ⟨fin, hfin, hflag, hseq⟩ := hi.fin hclosing
    exact ⟨hack, fin, hfin, hflag, ((hok.2 hacks).2.2 hclosing).trans hseq.symm⟩
  -- no other call makes one of these moves
  have hno : ¬ OpensOnAck s.conn.state s'.conn.state ∧ ¬ ClosesOnAck s.conn.state s'.conn.state := by
    cases hout with
    | quiet queued sent sendBuf sndNxt state =>
      rcases state with hst | ⟨hfrom, hst⟩
      · rw [hst]
        unfold OpensOnAck ClosesOnAck
        cases s.conn.state <;> decide
      rw [hst]
      unfold OpensOnAck ClosesOnAck
      rcases hfrom with hx | hx | hx <;> rw [hx] <;> decide
    | accept data n segs sending queued sent le sendBuf sndNxt segments window state =>
      rw [state]
      unfold OpensOnAck ClosesOnAck
      cases s.conn.state <;> decide
    | fin seg close sending queued sent sendBuf sndNxt segment state =>
      unfold OpensOnAck ClosesOnAck
      rcases sending with hx | hx <;> rcases state with hy | hy <;> rw [hx, hy] <;> decide
  exact ⟨fun hx => absurd hx hno.1, fun hx => absurd hx hno.2⟩

/-- A connection opens and sends two bytes and one more; the peer acknowledges the SYN and the first two bytes. -/
theorem acknowledgments_validated_sent : ∃ w : Acknowledged,
    Run.Reach (Acknowledged.step 0) (fun w a => AcksValid w.session a) (Acknowledged.Opened 0) w ∧
      w.session.numbers = 4 ∧ w.acked = 3 ∧ (w.session.conn.sndNxt - w.session.conn.sndUna).toNat = 1 := by
  obtain ⟨w, hreach, hnum, hacked⟩ : ∃ w : Acknowledged,
      Run.Reach (Acknowledged.step 0) (fun w a => AcksValid w.session a) (Acknowledged.Opened 0) w ∧
        w.session.numbers = 4 ∧ w.acked = 3 :=
    Run.Reach.exists_exec (s := ⟨connecting, 0⟩) [.segment (fromPeer 0 (SYN ||| ACK) []), .send [1, 2],
      .segment (TcpSegment.new 80 40000 1 3 ACK 65535 TcpOptions.default []), .send [3]] ⟨connecting_opened, rfl⟩
      (by decide +kernel)
  refine ⟨w, hreach, hnum, hacked, ?_⟩
  rw [(acknowledgments_validated hreach).1.2.2.2.1, hnum, hacked]

/-- **Any acknowledgment opens the connection**: the SYN has the number 0; a SYN-ACK that acknowledges 1000 numbers
    is taken, and `snd_una` is ahead of `snd_nxt`. -/
theorem unsent_acknowledged : ∃ s : Session,
    Run.Reach Session.step (fun _ _ => True) (Opened 0) s ∧ s.conn.state = .established ∧ s.numbers = 1 ∧
      s.conn.sndUna = 1000 ∧ 2 ^ 31 - 1 < (s.conn.sndNxt - s.conn.sndUna).toNat := by
  exact Run.Reach.exists_exec [.segment (new 80 40000 0 1000 (SYN ||| ACK) 65535 TcpOptions.default [])]
    connecting_opened (by decide +kernel)

end Session

/-! ## The peer's window -/

/-- What the application adds to the buffer in a step that may transmit. -/
def Session.Action.offered : Session.Action → Option (List Byte)
  | .segment _ => none
  | .send data => some data
  | _ => some []

theorem Session.sent_step {s s' : Session} {a : Session.Action} (h : s.step a = some s')
    (hno : ∀ seg, a ≠ .segment seg) : ∃ data ∈ a.offered, s'.sent.length ≤ s.sent.length + data.length := by
  have hact := act_of_step h
  cases a with
  | segment seg => exact absurd rfl (hno seg)
  | send data =>
    obtain ⟨r, -, hs⟩ := bind_eq_ok hact
    cases hs
    refine ⟨data, rfl, ?_⟩
    dsimp only
    split
    · exact length_append.le
    · exact Nat.le_add_right _ _
  | transmitData =>
    obtain ⟨c, -, hs⟩ := bind_eq_ok hact
    cases hs
    exact ⟨[], rfl, le_refl _⟩
  | recv | close | timers | dequeueSegments =>
    cases hact
    exact ⟨[], rfl, le_refl _⟩

/-- A connection with the window that the peer advertised last, in bytes, and the largest acknowledgment that it
    sent. -/
structure Flow where
  session : Session
  window : Nat
  acked : BitVec 32

namespace Flow

open Session

/-- The window of a segment in the negotiated scale, which does not apply to a SYN. -/
def advertised (c : TcpConnection) (seg : TcpSegment) : Nat :=
  seg.header.window.toNat * 2 ^ (if seg.header.has SYN then 0 else c.sndWscale.toNat)

def step (f : Flow) (a : Action) : Option Flow :=
  (f.session.step a).map (fun s =>
    { session := s
      window :=
        match a with
        | .segment seg => if f.session.conn.considers seg then advertised f.session.conn seg else f.window
        | _ => f.window
      acked :=
        match a with
        | .segment seg =>
          if f.session.conn.completesSyn seg = true ∨ f.session.conn.acks seg = true ∧ seqGt seg.header.ackNum f.acked
          then seg.header.ackNum else f.acked
        | _ => f.acked })

/-- Just opened, with nothing acknowledged. -/
def Opened (isn : BitVec 32) (f : Flow) : Prop := Session.Opened isn f.session ∧ f.acked = isn

/-- The code's own account of the acknowledgments is right. -/
theorem sndUna_eq {isn : BitVec 32} {ok : Flow → Action → Prop} {f : Flow}
    (h : Run.Reach step ok (Opened isn) f) : f.session.conn.sndUna = f.acked := by
  refine h.invariant (fun f => f.session.conn.sndUna = f.acked) ?_ ?_
  · rintro f ⟨h0, hacked⟩
    rw [hacked]
    exact h0.queued.2.1
  · intro f a f' hi _ hstep
    obtain ⟨s', hs', rfl⟩ := Option.map_eq_some_iff.mp hstep
    rcases step_send hs' with ⟨seg, _, rfl, heff, -⟩ | ⟨hno, -, hsame, -⟩
    · dsimp only
      rw [heff.sndUna, TcpConnection.nextUna, hi]
      cases f.session.conn.completesSyn seg <;> cases f.session.conn.acks seg <;> simp
    · cases a with
      | segment seg => exact absurd rfl (hno seg)
      | _ => exact hsame.trans hi

/-- **The peer's window has room** whenever something can be transmitted: for all that is in flight or buffered, or
    for the most that is ever in flight. -/
def Roomy (f : Flow) (a : Action) : Prop :=
  ∀ data ∈ a.offered, Sending f.session.conn.state → f.session.conn.sendBuf ++ data ≠ [] →
    min TCP_WINDOW_SIZE (inFlight f.session.conn + (f.session.conn.sendBuf ++ data).length) ≤ f.window

instance (f : Flow) (a : Action) : Decidable (f.Roomy a) := inferInstanceAs (Decidable (∀ _ ∈ _, _))

/-- **The peer's flow control is respected** where the peer's window has room: the data of a step ends at or before
    the largest acknowledgment plus the window advertised last. -/
theorem flow_control {isn : BitVec 32} {f f' : Flow} {a : Action}
    (h : Run.Reach step Roomy (Opened isn) f) (hok : f.Roomy a) (hs : f.step a = some f') :
    ∃ segs, f'.session.queued = f.session.queued ++ segs ∧ ∀ seg ∈ segs, seg.data ≠ [] →
      (seg.header.seqNum - f.acked).toNat + seg.data.length ≤ f.window := by
  rw [← sndUna_eq h]
  have hwnd : f.session.conn.sndWnd = BitVec.ofNat 32 TCP_WINDOW_SIZE := by
    refine h.invariant (fun f => f.session.conn.sndWnd = _) (fun _ h0 => h0.1.queued.2.2.1) ?_
    intro f a f' hi _ hstep
    obtain ⟨s', hs', rfl⟩ := Option.map_eq_some_iff.mp hstep
    rcases step_send hs' with ⟨_, _, -, heff, -⟩ | ⟨-, -, -, hsame⟩
    · exact heff.sndWnd.trans hi
    · exact hsame.trans hi
  obtain ⟨s', hstep, rfl⟩ := Option.map_eq_some_iff.mp hs
  rcases step_send hstep with ⟨_, segs, -, -, hq, hans, -⟩ | ⟨hno, hout, -⟩
  · exact ⟨segs, hq, fun t ht hne => absurd (hans.control t ht).1 hne⟩
  cases hout with
  | quiet queued => exact ⟨[], queued.trans (append_nil _).symm, nofun⟩
  | fin seg _ _ queued _ _ _ segment =>
    refine ⟨[seg], queued, fun t ht hne => absurd ?_ hne⟩
    rw [mem_singleton.mp ht]
    exact segment.1
  | accept data n segs sending queued sent le _ _ segments window =>
    refine ⟨segs, queued, ?_⟩
    intro t ht hne
    rcases segments with ⟨rfl, -⟩ | ⟨seg, rfl, hdata, hseq, -⟩
    · cases ht
    rw [mem_singleton.mp ht, hdata] at hne
    rw [mem_singleton.mp ht, hdata, hseq, length_take_of_le le]
    have hpos : n ≠ 0 := by
      rintro rfl
      exact hne rfl
    obtain ⟨offered, hmem, hsent⟩ := sent_step hstep hno
    have hfits := window hpos
    rw [sent, length_append] at hsent
    rw [length_append] at le
    have hbuf : f.session.conn.sendBuf ++ offered ≠ [] := by
      apply ne_nil_of_length_pos
      rw [length_append]
      omega
    have hroom := hok offered hmem sending hbuf
    rw [length_append] at hroom
    rw [hwnd] at hfits
    unfold inFlight at hroom
    exact le_trans (le_min hfits (by omega)) hroom

/-- A SYN-ACK that advertises `window`. -/
def synAck (window : BitVec 16) : TcpSegment := new 80 40000 0 1 (SYN ||| ACK) window TcpOptions.default []

/-- Two bytes into a window of two. -/
theorem flow_control_two : ∃ f f' : Flow, Run.Reach step Roomy (Opened 0) f ∧ f.step (.send [1, 2]) = some f' ∧
    f.window = 2 ∧ f.acked = 1 ∧ f.session.queued.length < f'.session.queued.length ∧
    ∃ segs, f'.session.queued = f.session.queued ++ segs ∧ ∀ seg ∈ segs, seg.data ≠ [] →
      (seg.header.seqNum - 1).toNat + seg.data.length ≤ 2 := by
  have hstart : Run.Reach step Roomy (Opened 0) ⟨connecting, 0, 0⟩ := .start ⟨connecting_opened, rfl⟩
  obtain ⟨f, f', hrun, ⟨hroom, hwin, hacked⟩, hs, hmore⟩ := Run.exists_two_of_any
    (o := Run.exec step Roomy ⟨connecting, 0, 0⟩ [.segment (synAck 2)]) (f := fun f => f.step (.send [1, 2]))
    (p := fun f => f.Roomy (.send [1, 2]) ∧ f.window = 2 ∧ f.acked = 1)
    (q := fun f f' => f.session.queued.length < f'.session.queued.length) (by decide +kernel)
  refine ⟨f, f', hstart.exec hrun, hs, hwin, hacked, hmore, ?_⟩
  rw [← hwin, ← hacked]
  exact flow_control (hstart.exec hrun) hroom hs

/-- **A closed window is ignored**: the peer opens the connection with a window of zero, and a byte is sent. -/
theorem zero_window_ignored : ∃ f : Flow, Run.Reach step (fun _ _ => True) (Opened 0) f ∧
    f.window = 0 ∧ f.acked = 1 ∧ ∃ seg ∈ f.session.queued, seg.header.seqNum = 1 ∧ seg.data = [7] := by
  exact Run.Reach.exists_exec (s := ⟨connecting, 0, 0⟩) [.segment (synAck 0), .send [7]] ⟨connecting_opened, rfl⟩
    (by decide +kernel)

end Flow
end OxideOs.Tcp
