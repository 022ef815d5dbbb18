import OxideOs.Net.Tcp.Receive

/-!
# `Net.Tcp.Safety` — the receive window and the panics a peer can cause

`process_segment` subtracts the buffered bytes from the buffer's size, adds to the congestion window and counts
duplicate acknowledgments, in 32-bit words. The window test lets a segment in as soon as one of its ends lies in the
window, so data longer than the window reaches the subtraction; and the additions have no bound, as acknowledgments are
not checked against what was sent. A peer that announces a segment size of 0 gets it. The receive window is recomputed
where data is taken and nowhere else, so it does not reopen when the application reads.
-/

namespace OxideOs.Tcp
namespace TcpConnection

open Checked

variable {c c' : TcpConnection} {seg : TcpSegment}

/-! ## Where the code can panic -/

variable {e : Panic}

/-- What a new acknowledgment adds to the congestion window. -/
def increment (c : TcpConnection) : BitVec 32 :=
  if c.cwnd < c.ssthresh then c.mss else if c.mss * c.mss / c.cwnd < 1 then 1 else c.mss * c.mss / c.cwnd

/-- An acknowledgment that overflows the count of duplicates, or the congestion window. -/
def AckOverflows (c : TcpConnection) (seg : TcpSegment) : Prop :=
  if seg.header.ackNum = c.sndUna then 2 ^ 32 ≤ c.dupAcks.toNat + 1
  else seqGt seg.header.ackNum c.sndUna = true ∧ 2 ^ 32 ≤ c.cwnd.toNat + c.increment.toNat

instance (c : TcpConnection) (seg : TcpSegment) : Decidable (AckOverflows c seg) := by
  delta AckOverflows
  infer_instance

theorem growWindow_eq_bind (h : c.cwnd ≠ 0) :
    c.growWindow = (addWord c.cwnd c.increment >>= fun cwnd => .ok { c with cwnd := cwnd }) := by
  unfold growWindow increment
  by_cases hslow : c.cwnd < c.ssthresh
  · rw [if_pos hslow, if_pos hslow]
  · rw [if_neg hslow, if_neg hslow, div_of_ne h]
    rfl

theorem growWindow_error (h : c.growWindow = .error e) :
    (e = .divideByZero ∧ c.cwnd = 0) ∨ (e = .overflow ∧ 2 ^ 32 ≤ c.cwnd.toNat + c.increment.toNat) := by
  by_cases hzero : c.cwnd = 0
  · unfold growWindow at h
    rw [hzero] at h
    split at h
    · rcases bind_eq_error h with h | ⟨_, -, h⟩
      · obtain ⟨-, hlt⟩ := addWord_eq_error h
        have hmss := c.mss.isLt
        have hlt : 2 ^ 32 ≤ 0 + c.mss.toNat := hlt
        omega
      · cases h
    · rw [div, if_pos rfl] at h
      cases h
      exact .inl ⟨rfl, hzero⟩
  · rw [growWindow_eq_bind hzero] at h
    rcases bind_eq_error h with h | ⟨_, -, h⟩
    · exact .inr (addWord_eq_error h)
    · cases h

theorem ackFrom_error (h : c.ackFrom seg = .error e) :
    (e = .divideByZero ∧ c.cwnd = 0) ∨ (e = .overflow ∧ seg.header.has ACK = true ∧ AckOverflows c seg) := by
  unfold ackFrom processAck at h
  split at h
  next hack =>
    unfold AckOverflows
    split at h
    next heq =>
      rw [if_pos heq]
      rcases bind_eq_error h with h | ⟨_, -, h⟩
      · obtain ⟨he, hlt⟩ := addWord_eq_error h
        exact .inr ⟨he, hack, hlt⟩
      · cases h
    next hne =>
      rw [if_neg hne]
      split at h
      next hgt => exact (growWindow_error h).imp_right (fun ⟨he, hlt⟩ => ⟨he, hack, hgt, hlt⟩)
      · cases h
  · cases h

theorem ackFrom_overflows (hcwnd : c.cwnd ≠ 0) (hack : seg.header.has ACK = true) (h : AckOverflows c seg) :
    c.ackFrom seg = .error .overflow := by
  unfold AckOverflows at h
  unfold ackFrom processAck
  rw [if_pos hack]
  split at h
  next heq =>
    rw [if_pos heq]
    have hadd : addWord c.dupAcks 1 = .error .overflow := if_neg (not_lt.mpr h)
    unfold duplicateAck
    rw [hadd]
    rfl
  next hne =>
    rw [if_neg hne, if_pos h.1]
    have hadd : addWord c.cwnd c.increment = .error .overflow := if_neg (not_lt.mpr h.2)
    unfold newAck
    rw [growWindow_eq_bind (by exact hcwnd)]
    show (addWord c.cwnd c.increment >>= _) = _
    rw [hadd]
    rfl

/-- In-order data beyond the buffer's size. -/
def Overfull (c : TcpConnection) (seg : TcpSegment) : Prop :=
  c.considers seg = true ∧ c.state = .established ∧ seg.header.seqNum = c.rcvNxt ∧ seg.data ≠ [] ∧
    TCP_WINDOW_SIZE < c.recvBuf.length + seg.data.length

instance (c : TcpConnection) (seg : TcpSegment) : Decidable (Overfull c seg) :=
  inferInstanceAs (Decidable (_ ∧ _ ∧ _ ∧ _ ∧ _))

theorem receiveData_error (h : c.receiveData seg = .error e) :
    e = .subtractOverflow ∧ seg.header.seqNum = c.rcvNxt ∧ seg.data ≠ [] ∧
      TCP_WINDOW_SIZE < c.recvBuf.length + seg.data.length := by
  unfold receiveData at h
  split at h
  · cases h
  rename_i hdata
  split at h
  next hseq =>
    rcases bind_eq_error h with h | ⟨_, -, h⟩
    · obtain ⟨he, hlt⟩ := sub_eq_error h
      rw [List.length_append] at hlt
      exact ⟨he, hseq, hdata, hlt⟩
    · cases h
  · cases h

theorem processEstablished_error (h : c.processEstablished seg = .error e) : (e = .divideByZero ∧ c.cwnd = 0) ∨
      (e = .overflow ∧ seg.header.has ACK = true ∧ AckOverflows c seg) ∨
      (e = .subtractOverflow ∧ seg.header.seqNum = c.rcvNxt ∧ seg.data ≠ [] ∧
        TCP_WINDOW_SIZE < c.recvBuf.length + seg.data.length) := by
  rcases bind_eq_error h with h1 | ⟨c1, h1, h2⟩
  · have hack := ackFrom_error h1
    exact hack.imp_right .inl
  rcases bind_eq_error h2 with h2 | ⟨c2, -, h2⟩
  · refine .inr (.inr ?_)
    obtain ⟨srtt, rttvar, rto, hr⟩ := measureRtt_eq c1 seg
    rw [hr] at h2
    obtain ⟨d, u, q, w, th, rfl⟩ := ackFrom_eq h1
    have hdata := receiveData_error h2
    exact hdata
  · cases h2

/-- **A segment can make the code panic in three ways**: a congestion window of 0, an addition that overflows, and
    in-order data that does not fit. -/
theorem processSegment_error (h : c.processSegment seg = .error e) : (e = .divideByZero ∧ c.cwnd = 0) ∨
    (e = .overflow ∧ c.acks seg = true ∧ AckOverflows c seg) ∨ (e = .subtractOverflow ∧ Overfull c seg) := by
  unfold processSegment at h
  split at h
  · cases h
  rename_i hacc
  split at h
  · cases h
  rename_i hrst
  have hc : c.considers seg = true := by simpa [considers, hrst] using hacc
  -- every state but one only acknowledges
  have hack : (c.acks seg = seg.header.has ACK) → ∀ {f : TcpConnection → Checked TcpConnection},
      (∀ c', ∃ r, f c' = .ok r) → (c.ackFrom seg >>= f) = .error e →
      (e = .divideByZero ∧ c.cwnd = 0) ∨ (e = .overflow ∧ c.acks seg = true ∧ AckOverflows c seg) ∨
        (e = .subtractOverflow ∧ Overfull c seg) := by
    intro hacks f hf hx
    rcases bind_eq_error hx with hx | ⟨c', -, hx⟩
    · rw [hacks]
      exact (ackFrom_error hx).imp_right .inl
    obtain ⟨r, hr⟩ := hf c'
    rw [hr] at hx
    cases hx
  split at h
  · cases h
  · cases h
  · cases h
  next hst => exact hack (by simp [acks, hc, hst]) (fun _ => ⟨_, rfl⟩) h
  next hst =>
    rcases processEstablished_error h with h | ⟨he, hflag, hover⟩ | ⟨he, hrest⟩
    · exact .inl h
    · exact .inr (.inl ⟨he, by simp [acks, hc, hst, hflag], hover⟩)
    · exact .inr (.inr ⟨he, hc, hst, hrest⟩)
  next hst => exact hack (by simp [acks, hc, hst]) (fun _ => ⟨_, rfl⟩) h
  next hst => exact hack (by simp [acks, hc, hst]) (fun _ => ⟨_, rfl⟩) h
  next hst =>
    refine hack (by simp [acks, hc, hst]) (f := .ok) (fun c' => ⟨c', rfl⟩) ?_
    rw [h]
    rfl
  next hst => exact hack (by simp [acks, hc, hst]) (fun _ => ⟨_, rfl⟩) h
  next hst => exact hack (by simp [acks, hc, hst]) (fun _ => ⟨_, rfl⟩) h
  · cases h

/-- An addition that overflows always panics, where the congestion window is open. -/
theorem processSegment_overflows (hcwnd : c.cwnd ≠ 0) (hacks : c.acks seg = true) (h : AckOverflows c seg) :
    c.processSegment seg = .error .overflow := by
  have hflags : c.accepts seg = true ∧ seg.header.has RST = false ∧ seg.header.has ACK = true := by
    simp only [acks, considers, Bool.and_eq_true, Bool.not_eq_true'] at hacks
    exact ⟨hacks.1.1.1, hacks.1.1.2, hacks.1.2⟩
  obtain ⟨hacc, hrst, hflag⟩ := hflags
  have hfail := ackFrom_overflows hcwnd hflag h
  unfold processSegment
  rw [if_neg (by rw [hacc]; exact Bool.true_eq_false_eq_False), if_neg (by rw [hrst]; exact Bool.false_ne_true)]
  cases hst : c.state with
  | closed | listen | synSent | timeWait => simp [acks, hst] at hacks
  | established =>
    have hstamped : ({ c with lastActivity := getTimestampUs } : TcpConnection).ackFrom seg = .error .overflow :=
      ackFrom_overflows hcwnd hflag h
    simp only [processEstablished, hstamped]
    rfl
  | synReceived | closing | lastAck =>
    simp only [processClosing, hfail]
    rfl
  | finWait1 =>
    simp only [processFinWait1, hfail]
    rfl
  | finWait2 =>
    simp only [processFinWait2, hfail]
    rfl
  | closeWait => exact hfail

/-- Data that does not fit always panics. -/
theorem processSegment_overfull (h : Overfull c seg) : ∃ e, c.processSegment seg = .error e := by
  cases hp : c.processSegment seg with
  | error e => exact ⟨e, rfl⟩
  | ok c' =>
    obtain ⟨hc, hst, hseq, hdata, _⟩ := h
    have heff := processSegment_effect hp
    have htakes : c.takes seg = seg.data := if_pos ⟨hc, hst, hseq⟩
    have hfits := heff.fits (htakes.symm ▸ hdata)
    rw [heff.recvBuf, htakes, List.length_append] at hfits
    omega

/-- `transmit_data` panics only with a send window of 0. -/
theorem transmitData_error (h : c.transmitData = .error e) : e = .selfDeadlock ∧ c.sndWnd = 0 := by
  unfold transmitData at h
  split at h
  · cases h
  split at h
  · cases h
  dsimp only at h
  generalize (if c.sndWnd < c.cwnd then c.sndWnd else c.cwnd) = window at h
  split at h
  · split at h
    next hzero =>
      cases h
      exact ⟨rfl, hzero⟩
    · cases h
  next hroom =>
    rw [sub_of_le (le_of_lt (not_le.mp hroom))] at h
    cases h

/-! ## The congestion window stays positive -/

/-- **What keeps the divisions and the transmission safe**: a segment size between 1 and the Ethernet one, a
    congestion window that is not 0, and the send window of a new connection. -/
structure Healthy (c : TcpConnection) : Prop where
  mss : 0 < c.mss.toNat
  mssMax : c.mss.toNat ≤ TCP_MSS_ETHERNET.toNat
  cwnd : c.cwnd ≠ 0
  sndWnd : c.sndWnd = BitVec.ofNat 32 TCP_WINDOW_SIZE

/-- A duplicate acknowledgment inflates the congestion window, and wraps it to 0. -/
def InflatesToZero (c : TcpConnection) (seg : TcpSegment) : Prop :=
  seg.header.ackNum = c.sndUna ∧ 3 < c.dupAcks + 1 ∧ c.cwnd + c.mss = 0

instance (c : TcpConnection) (seg : TcpSegment) : Decidable (InflatesToZero c seg) :=
  inferInstanceAs (Decidable (_ ∧ _ ∧ _))

/-- The SYN's segment size is taken over. -/
def negotiates (c : TcpConnection) (seg : TcpSegment) : Bool :=
  c.considers seg && seg.header.has SYN && (c.state == .listen || (c.state == .synSent && seg.header.has ACK))

section

variable (h : Healthy c)
include h

theorem Healthy.of_eq (hmss : c'.mss = c.mss) (hcwnd : c'.cwnd = c.cwnd) (hwnd : c'.sndWnd = c.sndWnd) : Healthy c' :=
  ⟨hmss ▸ h.mss, hmss ▸ h.mssMax, hcwnd ▸ h.cwnd, hwnd ▸ h.sndWnd⟩

theorem Healthy.setCwnd {w : BitVec 32} (hw : w ≠ 0) (hmss : c'.mss = c.mss) (hcwnd : c'.cwnd = w)
    (hwnd : c'.sndWnd = c.sndWnd) : Healthy c' :=
  ⟨hmss ▸ h.mss, hmss ▸ h.mssMax, hcwnd ▸ hw, hwnd ▸ h.sndWnd⟩

theorem Healthy.mss_ne : c.mss ≠ 0 := by
  intro hzero
  have hpos := h.mss
  rw [hzero] at hpos
  exact absurd hpos (by decide)

theorem Healthy.duplicateAck (hgrow : 3 < c.dupAcks + 1 → c.cwnd + c.mss ≠ 0) (hrun : c.duplicateAck = .ok c') :
    Healthy c' := by
  obtain ⟨d, hd, hlast⟩ := bind_eq_ok hrun
  cases (addWord_eq_ok hd).2
  cases hlast
  split
  · -- half of the window and three segments do not overflow
    refine h.setCwnd ?_ rfl rfl rfl
    intro hzero
    have hsum := congrArg BitVec.toNat hzero
    have hmss := h.mss
    have hmax : c.mss.toNat ≤ 1460 := h.mssMax
    have hsum : (c.cwnd.toNat / 2 + 3 * c.mss.toNat % 2 ^ 32) % 2 ^ 32 = 0 := hsum
    rw [@Nat.mod_eq_of_lt (3 * c.mss.toNat) _ (by omega), Nat.mod_eq_of_lt (by omega)] at hsum
    omega
  · split
    next hdup =>
      exact h.setCwnd (hgrow hdup) rfl rfl rfl
    · exact h.of_eq rfl rfl rfl

theorem Healthy.growWindow (hrun : c.growWindow = .ok c') : Healthy c' := by
  rw [growWindow_eq_bind h.cwnd] at hrun
  obtain ⟨w, hw, hlast⟩ := bind_eq_ok hrun
  obtain ⟨hlt, rfl⟩ := addWord_eq_ok hw
  cases hlast
  refine h.setCwnd ?_ rfl rfl rfl
  intro hzero
  have hsum := congrArg BitVec.toNat hzero
  rw [BitVec.toNat_add, Nat.mod_eq_of_lt hlt] at hsum
  exact h.cwnd (BitVec.eq_of_toNat_eq (Nat.eq_zero_of_add_eq_zero_right hsum))

theorem Healthy.ackFrom (hgrow : seg.header.has ACK = true → ¬ InflatesToZero c seg)
    (hrun : c.ackFrom seg = .ok c') : Healthy c' := by
  unfold TcpConnection.ackFrom at hrun
  split at hrun
  next hack =>
    unfold processAck at hrun
    split at hrun
    next heq => exact h.duplicateAck (fun hdup hzero => hgrow hack ⟨heq, hdup, hzero⟩) hrun
    split at hrun
    next hgt =>
      have hreset : Healthy { c with
          dupAcks := 0, sndUna := seg.header.ackNum
          hasUnacked := if seg.header.ackNum = c.sndNxt then false else c.hasUnacked
          retransmitQueue := c.retransmitQueue.filter
            (fun e => seqGt (e.1 + BitVec.ofNat 32 e.2.1.length) seg.header.ackNum) } := h.of_eq rfl rfl rfl
      exact hreset.growWindow hrun
    · cases hrun
      exact h
  · cases hrun
    exact h

theorem Healthy.negotiate {o : TcpOptions} (hmss : o.mss ≠ some 0) : Healthy (c.negotiate o) := by
  unfold TcpConnection.negotiate
  cases ho : o.mss with
  | none => exact h.of_eq rfl rfl rfl
  | some m =>
    have hm : m ≠ 0 := by
      intro hzero
      exact hmss (by rw [ho, hzero])
    refine ⟨?_, ?_, h.cwnd, h.sndWnd⟩
    · show 0 < ((if m < TCP_MSS_ETHERNET then m else TCP_MSS_ETHERNET).setWidth 32).toNat
      split
      · bv_omega
      · decide
    show ((if m < TCP_MSS_ETHERNET then m else TCP_MSS_ETHERNET).setWidth 32).toNat ≤ _
    split
    · bv_omega
    · decide

theorem Healthy.processEstablished (hgrow : seg.header.has ACK = true → ¬ InflatesToZero c seg)
    (hrun : c.processEstablished seg = .ok c') : Healthy c' := by
  obtain ⟨c1, h1, hrest⟩ := bind_eq_ok hrun
  obtain ⟨c2, h2, hlast⟩ := bind_eq_ok hrest
  have hstamped : Healthy { c with lastActivity := getTimestampUs } := h.of_eq rfl rfl rfl
  have hc1 : Healthy c1 := hstamped.ackFrom hgrow h1
  have hc2 : Healthy c2 := by
    obtain ⟨srtt, rttvar, rto, hr⟩ := measureRtt_eq c1 seg
    rw [hr] at h2
    obtain ⟨segs, q, -, ⟨-, -, -, rfl⟩ | ⟨-, rfl⟩⟩ := receiveData_eq h2 <;> exact hc1.of_eq rfl rfl rfl
  cases hlast
  split
  · exact hc2.of_eq rfl rfl rfl
  · exact hc2

/-- A bind that only acknowledges and then leaves the windows alone. -/
theorem Healthy.ackThen {f : TcpConnection → TcpConnection}
    (hf : ∀ b, (f b).mss = b.mss ∧ (f b).cwnd = b.cwnd ∧ (f b).sndWnd = b.sndWnd)
    (hgrow : seg.header.has ACK = true → ¬ InflatesToZero c seg)
    (hrun : (c.ackFrom seg >>= fun b => .ok (f b)) = .ok c') : Healthy c' := by
  obtain ⟨c1, h1, hlast⟩ := bind_eq_ok hrun
  cases hlast
  obtain ⟨hmss, hcwnd, hwnd⟩ := hf c1
  exact (h.ackFrom hgrow h1).of_eq hmss hcwnd hwnd

theorem Healthy.processListen (hc : c.considers seg = true) (hst : c.state = .listen)
    (hmss : c.negotiates seg = true → seg.options.mss ≠ some 0) : Healthy (c.processListen seg) := by
  unfold TcpConnection.processListen
  split
  next hsyn =>
    have hneg : Healthy (c.negotiate seg.options) := h.negotiate (hmss (by simp [negotiates, hc, hsyn, hst]))
    exact hneg.of_eq rfl rfl rfl
  · exact h

theorem Healthy.processSynSent (hc : c.considers seg = true) (hst : c.state = .synSent)
    (hmss : c.negotiates seg = true → seg.options.mss ≠ some 0) : Healthy (c.processSynSent seg) := by
  unfold TcpConnection.processSynSent
  split
  next hsyn =>
    have hneg : Healthy (c.negotiate seg.options) := h.negotiate (hmss (by simp [negotiates, hc, hsyn, hst]))
    exact hneg.of_eq rfl rfl rfl
  split
  · exact h.of_eq rfl rfl rfl
  · exact h

/-- **A segment keeps the windows healthy**, unless its SYN announces a segment size of 0 or the congestion window is
    inflated to 0. -/
theorem Healthy.processSegment (hmss : c.negotiates seg = true → seg.options.mss ≠ some 0)
    (hgrow : c.acks seg = true → ¬ InflatesToZero c seg) (hrun : c.processSegment seg = .ok c') : Healthy c' := by
  unfold TcpConnection.processSegment at hrun
  split at hrun
  · cases hrun
    exact h
  rename_i hacc
  split at hrun
  · cases hrun
    unfold processRst
    split <;> exact h.of_eq rfl rfl rfl
  rename_i hrst
  have hc : c.considers seg = true := by simpa [considers, hrst] using hacc
  cases hst : c.state with
  | closed =>
    rw [hst] at hrun
    cases hrun
    exact h.of_eq rfl rfl rfl
  | listen =>
    rw [hst] at hrun
    cases hrun
    exact h.processListen hc hst hmss
  | synSent =>
    rw [hst] at hrun
    cases hrun
    exact h.processSynSent hc hst hmss
  | established =>
    rw [hst] at hrun
    exact h.processEstablished (fun hack => hgrow (by simp [acks, hc, hack, hst])) hrun
  | closeWait =>
    rw [hst] at hrun
    exact h.ackFrom (fun hack => hgrow (by simp [acks, hc, hack, hst])) hrun
  | timeWait =>
    rw [hst] at hrun
    cases hrun
    unfold processTimeWait
    split
    · exact h.of_eq rfl rfl rfl
    · exact h
  | finWait1 =>
    rw [hst] at hrun
    refine h.ackThen ?_ (fun hack => hgrow (by simp [acks, hc, hack, hst])) hrun
    intro b
    cases seg.header.has ACK <;> cases seg.header.has FIN <;> exact ⟨rfl, rfl, rfl⟩
  | finWait2 =>
    rw [hst] at hrun
    refine h.ackThen ?_ (fun hack => hgrow (by simp [acks, hc, hack, hst])) hrun
    intro b
    cases seg.header.has FIN <;> exact ⟨rfl, rfl, rfl⟩
  | synReceived | closing | lastAck =>
    rw [hst] at hrun
    refine h.ackThen ?_ (fun hack => hgrow (by simp [acks, hc, hack, hst])) hrun
    intro b
    cases seg.header.has ACK <;> exact ⟨rfl, rfl, rfl⟩

theorem Healthy.transmitData (hrun : c.transmitData = .ok c') : Healthy c' := by
  rcases transmitData_eq hrun with rfl | ⟨n, -, -, -, -, rfl⟩
  · exact h
  · exact h.of_eq rfl rfl rfl

theorem Healthy.checkRetransmission (now : BitVec 64) : Healthy (c.checkRetransmission now) := by
  unfold TcpConnection.checkRetransmission
  refine List.foldlRecOn _ _ (h.of_eq rfl rfl rfl) (fun b hb e _ => ?_)
  unfold checkEntry
  split
  · -- a timeout restarts from one segment
    exact hb.setCwnd hb.mss_ne rfl rfl rfl
  · exact hb.of_eq rfl rfl rfl

theorem Healthy.processTimers : Healthy c.processTimers := by
  have hcheck := h.checkRetransmission getTimestampUs
  unfold TcpConnection.processTimers
  dsimp only
  iterate 2
    split
    · split
      · exact hcheck.of_eq rfl rfl rfl
      · exact hcheck
  · exact hcheck

end

end TcpConnection

open TcpConnection

namespace Session

variable {s s' : Session} {a : Session.Action}

/-! ## The receive window -/

/-- Nothing buffered and the whole window advertised. -/
def WindowOpen (s : Session) : Prop := s.conn.recvBuf = [] ∧ s.conn.rcvWnd = BitVec.ofNat 32 TCP_WINDOW_SIZE

/-- The data fits, and nothing is read from the buffer. -/
def WindowKept (s : Session) (a : Action) : Prop :=
  match a with
  | .segment seg => ¬ Overfull s.conn seg
  | .recv len => ¬ Reads s.conn len
  | _ => True

/-- The window is what the buffer leaves. -/
def WindowExact (s : Session) : Prop :=
  s.conn.recvBuf.length ≤ TCP_WINDOW_SIZE ∧
    s.conn.rcvWnd = BitVec.ofNat 32 (TCP_WINDOW_SIZE - s.conn.recvBuf.length)

theorem WindowOpen.exact (h : WindowOpen s) : WindowExact s := by
  obtain ⟨hbuf, hwnd⟩ := h
  unfold WindowExact
  rw [hbuf, hwnd]
  exact ⟨Nat.zero_le _, rfl⟩

theorem WindowExact.step (h : WindowExact s) (hok : WindowKept s a) (hs : s.step a = some s') : WindowExact s' := by
  rcases step_receive hs with ⟨seg, rfl, heff, -⟩ | ⟨-, hq⟩
  · by_cases htakes : s.conn.takes seg = []
    · have hbuf : s'.conn.recvBuf = s.conn.recvBuf := by
        rw [heff.recvBuf, htakes, List.append_nil]
      unfold WindowExact
      rw [heff.rcvWnd, if_pos htakes, hbuf]
      exact h
    · refine ⟨heff.fits htakes, ?_⟩
      rw [heff.rcvWnd, if_neg htakes]
  · have hbuf : s'.conn.recvBuf = s.conn.recvBuf := by
      refine hq.kept ?_
      rintro len rfl
      exact hok
    unfold WindowExact
    rw [hq.rcvWnd, hbuf]
    exact h

/-- An action fails on a window of 0, in an addition that overflows, or in a subtraction of data that does not fit. -/
theorem act_error {e : Panic} (h : s.act a = .error e) : (e = .divideByZero ∧ s.conn.cwnd = 0) ∨
    (e = .selfDeadlock ∧ s.conn.sndWnd = 0) ∨
    ∃ seg, a = .segment seg ∧
      (e = .overflow ∧ s.conn.acks seg = true ∧ AckOverflows s.conn seg ∨ Overfull s.conn seg) := by
  cases a with
  | segment seg =>
    rcases Checked.bind_eq_error h with h | ⟨_, -, h⟩
    · exact (processSegment_error h).imp_right (fun hover => .inr ⟨seg, rfl, hover.imp_right And.right⟩)
    · cases h
  | send data =>
    rcases Checked.bind_eq_error h with h | ⟨_, -, h⟩
    · unfold send at h
      split at h
      · cases h
      rcases Checked.bind_eq_error h with h | ⟨_, -, h⟩
      · have hx := transmitData_error h
        exact .inr (.inl hx)
      · cases h
    · cases h
  | transmitData =>
    rcases Checked.bind_eq_error h with h | ⟨_, -, h⟩
    · exact .inr (.inl (transmitData_error h))
    · cases h
  | _ => cases h

/-- **The window is exact** in every run in which the data fits and nothing is read: the buffer stays within its
    size, the window is what it leaves and no subtraction goes below zero. -/
theorem window_exact (h : Run.Reach Session.step WindowKept WindowOpen s) :
    s.conn.recvBuf.length ≤ TCP_WINDOW_SIZE ∧
      s.conn.rcvWnd.toNat = TCP_WINDOW_SIZE - s.conn.recvBuf.length ∧
      ∀ a, WindowKept s a → s.act a ≠ .error .subtractOverflow := by
  have hexact : WindowExact s := h.invariant WindowExact (fun _ h0 => h0.exact) (fun _ _ _ => WindowExact.step)
  refine ⟨hexact.1, ?_, ?_⟩
  · rw [hexact.2]
    apply Nat.mod_eq_of_lt
    unfold TCP_WINDOW_SIZE
    omega
  · intro a hok herr
    rcases act_error herr with ⟨he, -⟩ | ⟨he, -⟩ | ⟨seg, rfl, ⟨he, -⟩ | hover⟩
    · cases he
    · cases he
    · cases he
    · exact hok hover

instance (s : Session) (a : Action) : Decidable (WindowKept s a) := by
  delta WindowKept
  exact match a with
    | .segment _ | .recv _ | .send _ | .close | .transmitData | .timers | .dequeueSegments => inferInstance

/-- Three bytes arrive and stay. -/
theorem window_exact_buffered : ∃ s : Session,
    Run.Reach Session.step WindowKept WindowOpen s ∧ s.conn.recvBuf = [7, 8, 9] ∧ s.conn.rcvWnd.toNat = 65532 := by
  obtain ⟨s, hreach, hbuf⟩ : ∃ s, Run.Reach step WindowKept WindowOpen s ∧ s.conn.recvBuf = [7, 8, 9] :=
    Run.Reach.exists_exec (s := connected.session) [.segment (fromPeer 1 ACK [7, 8, 9]), .recv 0]
      (by unfold WindowOpen; decide) (by decide +kernel)
  refine ⟨s, hreach, hbuf, ?_⟩
  rw [(window_exact hreach).2.1, hbuf]
  rfl

/-- **The window does not reopen**: one byte arrives and is read; the buffer is empty again and the window is one
    byte short. -/
theorem window_not_reopened : ∃ s : Session,
    Run.Reach Session.step (fun _ _ => True) WindowOpen s ∧ s.conn.recvBuf = [] ∧ s.conn.rcvWnd.toNat = 65534 := by
  exact Run.Reach.exists_exec (s := connected.session) [.segment (fromPeer 1 ACK [7]), .recv 1]
    (by unfold WindowOpen; decide) (by decide +kernel)

/-! ## No panic -/

/-- The data fits, no addition overflows, no SYN announces a segment size of 0, and the congestion window is not
    inflated to 0. -/
def Survivable (s : Session) (a : Action) : Prop :=
  match a with
  | .segment seg =>
    ¬ Overfull s.conn seg ∧ (s.conn.negotiates seg = true → seg.options.mss ≠ some 0) ∧
      (s.conn.acks seg = true → ¬ AckOverflows s.conn seg ∧ ¬ InflatesToZero s.conn seg)
  | _ => True

instance (s : Session) (a : Action) : Decidable (Survivable s a) := by
  delta Survivable
  exact match a with
    | .segment _ | .recv _ | .send _ | .close | .transmitData | .timers | .dequeueSegments => inferInstance

theorem Opened.healthy {isn : BitVec 32} (h : Opened isn s) : Healthy s.conn := by
  obtain ⟨localPort, remotePort, hconn, -⟩ := h
  have hmss : 0 < (TCP_MSS_ETHERNET.setWidth 32).toNat ∧
      (TCP_MSS_ETHERNET.setWidth 32).toNat ≤ TCP_MSS_ETHERNET.toNat := by decide
  have hcwnd : TCP_MSS_ETHERNET.setWidth 32 * 2 ≠ 0 := by decide
  have hnew : Healthy (new isn localPort remotePort) := ⟨hmss.1, hmss.2, hcwnd, rfl⟩
  rcases hconn with hconn | hconn
  all_goals
    rw [hconn]
    exact hnew.of_eq rfl rfl rfl

theorem healthy_step (h : Healthy s.conn) (hok : Survivable s a) (hs : s.step a = some s') : Healthy s'.conn := by
  have hact := act_of_step hs
  cases a with
  | segment seg =>
    obtain ⟨c, hc, hlast⟩ := Checked.bind_eq_ok hact
    cases hlast
    exact h.processSegment hok.2.1 (fun hacks => (hok.2.2 hacks).2) hc
  | send data =>
    obtain ⟨r, hr, hlast⟩ := Checked.bind_eq_ok hact
    cases hlast
    unfold send at hr
    split at hr
    · cases hr
      exact h
    obtain ⟨c, hc, hr⟩ := Checked.bind_eq_ok hr
    cases hr
    have hfilled : Healthy { s.conn with sendBuf := s.conn.sendBuf ++ data } := h.of_eq rfl rfl rfl
    exact hfilled.transmitData hc
  | transmitData =>
    obtain ⟨c, hc, hlast⟩ := Checked.bind_eq_ok hact
    cases hlast
    exact h.transmitData hc
  | recv len =>
    cases hact
    unfold recv
    split
    · split
      · exact h
      · exact h.of_eq rfl rfl rfl
    · exact h
  | close =>
    cases hact
    obtain ⟨q, segs, st, -, ⟨-, -, -, he⟩ | ⟨-, he⟩⟩ := close_eq s.conn
    all_goals
      rw [he]
      exact h.of_eq rfl rfl rfl
  | timers =>
    cases hact
    exact h.processTimers
  | dequeueSegments =>
    cases hact
    exact h.of_eq rfl rfl rfl

/-- **What stops a healthy connection**: data in order that does not fit, and an acknowledgment that overflows a
    counter. -/
theorem panics_iff_of_healthy (h : Healthy s.conn) : (∃ e, s.act a = .error e) ↔
    ∃ seg, a = .segment seg ∧ (s.conn.acks seg = true ∧ AckOverflows s.conn seg ∨ Overfull s.conn seg) := by
  constructor
  · rintro ⟨e, he⟩
    rcases act_error he with ⟨-, hzero⟩ | ⟨-, hzero⟩ | ⟨seg, ha, hwhy⟩
    · exact absurd hzero h.cwnd
    · rw [h.sndWnd] at hzero
      cases hzero
    · exact ⟨seg, ha, hwhy.imp_left And.right⟩
  · rintro ⟨seg, rfl, ⟨hacks, hover⟩ | hover⟩
    · exact ⟨.overflow, by rw [act, processSegment_overflows h.cwnd hacks hover]; rfl⟩
    · obtain ⟨e, he⟩ := processSegment_overfull hover
      exact ⟨e, by rw [act, he]; rfl⟩

theorem healthy_of_reach (h : Run.Reach step Survivable (fun s => ∃ isn, Opened isn s) s) : Healthy s.conn := by
  refine h.invariant (fun s => Healthy s.conn) ?_ (fun _ _ _ => healthy_step)
  rintro _ ⟨isn, h0⟩
  exact h0.healthy

/-- **A peer cannot stop the kernel** with segments whose SYN does not announce a segment size of 0, whose data
    fits and whose acknowledgments overflow neither the congestion window nor the count of duplicates: no step panics,
    the congestion window and the segment size stay positive, and parsing never panics whatever the bytes. -/
theorem peer_cannot_crash (h : Run.Reach Session.step Survivable (fun s => ∃ isn, Opened isn s) s) :
    0 < s.conn.cwnd.toNat ∧ 0 < s.conn.mss.toNat ∧ (∀ a, Survivable s a → (s.act a).Safe) ∧
      ∀ bytes, (TcpSegment.parse bytes).Safe := by
  have hhealthy := healthy_of_reach h
  refine ⟨?_, hhealthy.mss, fun a hok => ?_, TcpSegment.parse_safe⟩
  · apply pos_of_ne_zero
    intro hzero
    exact hhealthy.cwnd (BitVec.eq_of_toNat_eq hzero)
  cases hact : s.act a with
  | ok s' => exact Checked.Safe.ok
  | error e =>
    obtain ⟨seg, rfl, ⟨hacks, hover⟩ | hover⟩ := (panics_iff_of_healthy hhealthy).mp ⟨e, hact⟩
    · exact absurd hover (hok.2.2 hacks).1
    · exact absurd hover hok.1

/-- A listening connection. -/
def listening : Session := ⟨(TcpConnection.new 0 80 40000).listen, [], [], []⟩

/-- A SYN with an MSS option. -/
def synWithMss (mss : BitVec 16) : TcpSegment :=
  TcpSegment.new 40000 80 0 0 SYN 65535 { TcpOptions.default with mss := some mss } []

theorem listening_opened : Opened 0 listening := ⟨80, 40000, .inr rfl, rfl, rfl, rfl⟩

/-- An acknowledgment without data. -/
def pureAck (ackNum : BitVec 32) : TcpSegment := TcpSegment.new 40000 80 1 ackNum ACK 65535 TcpOptions.default []

/-- The smallest segment size is survived, with three duplicate acknowledgments and a new one. -/
theorem peer_cannot_crash_small : ∃ s : Session,
    Run.Reach Session.step Survivable (fun s => ∃ isn, Opened isn s) s ∧ s.conn.mss = 1 ∧ s.conn.dupAcks = 0 ∧
      s.conn.ssthresh = 1460 ∧ 0 < s.conn.cwnd.toNat := by
  obtain ⟨s, hreach, hmss, hdup, hthresh⟩ : ∃ s, Run.Reach step Survivable (fun s => ∃ isn, Opened isn s) s ∧
      s.conn.mss = 1 ∧ s.conn.dupAcks = 0 ∧ s.conn.ssthresh = 1460 :=
    Run.Reach.exists_exec [.segment (synWithMss 1), .timers, .segment (pureAck 1), .send [7, 8], .segment (pureAck 1),
      .segment (pureAck 1), .segment (pureAck 1), .segment (pureAck 2)] ⟨0, listening_opened⟩ (by decide +kernel)
  exact ⟨s, hreach, hmss, hdup, hthresh, (peer_cannot_crash hreach).1⟩

/-- The window test lets in a segment of 65535 bytes when one byte is buffered. -/
def tooMuch : TcpSegment := fromPeer 2 ACK (List.replicate TCP_WINDOW_SIZE 0)

/-- One byte has arrived on an open connection. -/
def oneBuffered : List Action :=
  [.segment (synWithMss 1460), .segment (fromPeer 1 ACK []), .segment (fromPeer 1 ACK [7])]

theorem tooMuch_overfull {c : TcpConnection} (h : c.state = .established ∧ c.rcvNxt = 2 ∧ c.recvBuf.length = 1 ∧
    c.rcvWnd = 65534) : Overfull c tooMuch := by
  obtain ⟨hst, hnxt, hbuf, hwnd⟩ := h
  have hlen : tooMuch.data.length = 65535 := List.length_replicate
  refine ⟨?_, hst, hnxt.symm, ?_, ?_⟩
  · have hacc : c.accepts tooMuch = true := by
      unfold accepts seqAcceptable
      rw [hlen, hst, hnxt, hwnd]
      decide
    simp only [considers, hacc, Bool.true_and]
    decide
  · exact List.ne_nil_of_length_pos (by omega)
  · rw [hbuf, hlen]
    decide

/-- **What stops the kernel** in a state that survivable steps reach: data in order that does not fit, and an
    acknowledgment that overflows the congestion window or the count of duplicates. -/
theorem act_panics_iff (h : Run.Reach step Survivable (fun s => ∃ isn, Opened isn s) s) : (∃ e, s.act a = .error e) ↔
    ∃ seg, a = .segment seg ∧ (s.conn.acks seg = true ∧ AckOverflows s.conn seg ∨ Overfull s.conn seg) :=
  panics_iff_of_healthy (healthy_of_reach h)

/-- With one byte in the buffer, 65535 more stop the kernel, and 65534 do not. -/
theorem act_panics_iff_overfull : ∃ s : Session,
    Run.Reach step Survivable (fun s => ∃ isn, Opened isn s) s ∧ s.conn.recvBuf = [7] ∧
      (∃ e, s.act (.segment tooMuch) = .error e) ∧ ¬∃ e, s.act (.segment (fromPeer 2 ACK [8, 9])) = .error e := by
  obtain ⟨s, hreach, hbuf, hconn, hfits⟩ : ∃ s : Session,
      Run.Reach step Survivable (fun s => ∃ isn, Opened isn s) s ∧ s.conn.recvBuf = [7] ∧
        (s.conn.state = .established ∧ s.conn.rcvNxt = 2 ∧ s.conn.recvBuf.length = 1 ∧ s.conn.rcvWnd = 65534) ∧
        Survivable s (.segment (fromPeer 2 ACK [8, 9])) :=
    Run.Reach.exists_exec oneBuffered ⟨0, listening_opened⟩ (by decide +kernel)
  refine ⟨s, hreach, hbuf, (act_panics_iff hreach).mpr ⟨_, rfl, .inr (tooMuch_overfull hconn)⟩, ?_⟩
  rw [act_panics_iff hreach]
  rintro ⟨seg, ha, hwhy⟩
  cases ha
  rcases hwhy with ⟨hacks, hover⟩ | hover
  · exact absurd hover (hfits.2.2 hacks).1
  · exact absurd hover hfits.1

/-- **A peer stops the kernel, and sets the segment size to 0**: with one byte in the buffer, a segment of 65535 bytes
    passes the window test and underflows the subtraction; and a SYN that announces a segment size of 0 is taken at its
    word. -/
theorem overfull_segment_crashes :
    (∃ s : Session, Run.Reach Session.step (fun _ _ => True) (fun s => ∃ isn, Opened isn s) s ∧
      s.conn.processSegment tooMuch = .error .subtractOverflow) ∧
    ∃ s : Session, Run.Reach Session.step (fun _ _ => True) (fun s => ∃ isn, Opened isn s) s ∧
      s.conn.state = .synReceived ∧ s.conn.mss = 0 := by
  refine ⟨?_, Run.Reach.exists_exec [.segment (synWithMss 0)] ⟨0, listening_opened⟩ (by decide +kernel)⟩
  obtain ⟨s, hreach, hconn, hcwnd, hsafe⟩ : ∃ s : Session,
      Run.Reach step (fun _ _ => True) (fun s => ∃ isn, Opened isn s) s ∧
        (s.conn.state = .established ∧ s.conn.rcvNxt = 2 ∧ s.conn.recvBuf.length = 1 ∧ s.conn.rcvWnd = 65534) ∧
        s.conn.cwnd ≠ 0 ∧ ¬ AckOverflows s.conn (fromPeer 2 ACK []) :=
    Run.Reach.exists_exec oneBuffered ⟨0, listening_opened⟩ (by decide +kernel)
  refine ⟨s, hreach, ?_⟩
  obtain ⟨e, he⟩ := processSegment_overfull (tooMuch_overfull hconn)
  rcases processSegment_error he with ⟨-, hzero⟩ | ⟨-, -, hover⟩ | ⟨rfl, -⟩
  · exact absurd hzero hcwnd
  · exact absurd hover hsafe
  · exact he

end Session
end OxideOs.Tcp
