import OxideOs.Lib.Bytes
import OxideOs.Lib.Run
import OxideOs.Lib.SortedMap

/-!
# `Net.ConnTrack` — connection tracking for the packet filter

`tcpip/conntrack`: a table of connections, each under the tuple of its first packet. `track` is called for every
packet that comes in, finds the connection in either direction, moves its state and says what the filter sees:
`established` is documented as "seen reply".

The table looks at incoming packets only. A packet the stack sends to itself comes in again; any other packet that is
sent leaves no trace (`send`). `track` does not ask whether the entry it finds has expired, and a reset closes a
connection from any state, `Closed` being one of the states that count as established.

Beside the table the machine keeps all packets that came in and all tuples that were sent. What was seen of a
connection is read off these, not off the table (`OppositeSeen`). The result is that for a connection whose packets
meet a condition (`Regular`) `established` means what it says, whatever else comes in.
-/

namespace OxideOs.ConnTrack

open List Option SortedMap Prod Run

/-! ## Tuples and entries -/

/-- The states the filter sees; nothing here makes a packet `related`. -/
inductive ConnState where
  | new
  | established
  | related
  | invalid
  deriving DecidableEq

/-- TCP connection states (simplified). -/
inductive TcpState where
  | synSent
  | synReceived
  | established
  | finWait1
  | finWait2
  | closing
  | closeWait
  | lastAck
  | timeWait
  | closed
  deriving DecidableEq

def TcpState.toConnState : TcpState → ConnState
  | .established => .established
  | .synSent | .synReceived => .new
  | _ => .established

structure TcpFlags where
  syn : Bool := false
  ack : Bool := false
  fin : Bool := false
  rst : Bool := false
  deriving DecidableEq

def TCP : Byte := 6
def UDP : Byte := 17

/-- Connection tuple (identifies a connection). -/
structure ConnTuple where
  protocol : Byte
  srcIp : BitVec 32
  srcPort : BitVec 16
  dstIp : BitVec 32
  dstPort : BitVec 16
  deriving DecidableEq

namespace ConnTuple

def reverse (t : ConnTuple) : ConnTuple where
  protocol := t.protocol
  srcIp := t.dstIp
  srcPort := t.dstPort
  dstIp := t.srcIp
  dstPort := t.srcPort

@[simp] theorem reverse_reverse (t : ConnTuple) : t.reverse.reverse = t := rfl

theorem reverse_eq_iff {t t' : ConnTuple} : t.reverse = t' ↔ t = t'.reverse :=
  ⟨fun h => by rw [← h, reverse_reverse], fun h => by rw [h, reverse_reverse]⟩

/-- The place in the order of the fields. -/
def rank (t : ConnTuple) : Nat :=
  (((t.protocol.toNat * 2 ^ 32 + t.srcIp.toNat) * 2 ^ 16 + t.srcPort.toNat) * 2 ^ 32 + t.dstIp.toNat) * 2 ^ 16
    + t.dstPort.toNat

theorem rank_injective : Function.Injective rank := by
  rintro ⟨protocol, srcIp, srcPort, dstIp, dstPort⟩ ⟨protocol', srcIp', srcPort', dstIp', dstPort'⟩ h
  simp only [rank] at h
  simp only [mk.injEq, ← BitVec.toNat_inj]
  omega

instance : LinearOrder ConnTuple := LinearOrder.lift' rank rank_injective

end ConnTuple

/-- A tracked connection entry. -/
structure ConnEntry where
  original : ConnTuple
  tcpState : Option TcpState
  lastSeen : Nat
  replySeen : Bool := false
  deriving DecidableEq

namespace ConnEntry

def new (tuple : ConnTuple) (now : Nat) : ConnEntry where
  original := tuple
  tcpState := if tuple.protocol = TCP then some .synSent else none
  lastSeen := now

def connState (e : ConnEntry) : ConnState :=
  match e.tcpState with
  | some tcpState => tcpState.toConnState
  | none => if e.replySeen then .established else .new

def TICKS_PER_SEC : Nat := 100

def timeoutTicks (e : ConnEntry) : Nat :=
  match e.tcpState with
  | some .established => 5 * 24 * 3600 * TICKS_PER_SEC
  | some .synSent | some .synReceived => 120 * TICKS_PER_SEC
  | some .timeWait => 120 * TICKS_PER_SEC
  | some .finWait1 | some .finWait2 => 120 * TICKS_PER_SEC
  | some .closeWait | some .lastAck => 60 * TICKS_PER_SEC
  | some .closing => 60 * TICKS_PER_SEC
  | some .closed => 10 * TICKS_PER_SEC
  | none =>
    if e.original.protocol = UDP then if e.replySeen then 180 * TICKS_PER_SEC else 30 * TICKS_PER_SEC
    else 30 * TICKS_PER_SEC

/-- Subtraction of naturals saturates as the source's does. -/
def isExpired (e : ConnEntry) (now : Nat) : Bool := e.timeoutTicks < now - e.lastSeen

end ConnEntry

/-- The arms of `update_tcp_state`, without the reset. The arm to `CloseWait` is left out: the one from `Established`
    to `FinWait1` stands before it and takes all it would take. -/
def TcpState.next (s : TcpState) (syn ack fin isReply : Bool) : TcpState :=
  match s, syn, ack, fin, isReply with
  | .synSent, false, true, false, true => .synReceived
  | .synReceived, false, true, false, false => .established
  | .synSent, true, true, false, true => .established
  | .established, false, _, true, _ => .finWait1
  | .finWait1, false, true, false, true => .finWait2
  | .finWait1, false, _, true, true => .closing
  | .finWait2, false, _, true, true => .timeWait
  | .closing, false, true, false, true => .timeWait
  | .closeWait, false, _, true, false => .lastAck
  | .lastAck, false, true, false, true => .closed
  | s, _, _, _, _ => s

/-- Update TCP state based on flags. -/
def ConnEntry.updateTcpState (e : ConnEntry) (flags : TcpFlags) (isReply : Bool) : ConnEntry :=
  match e.tcpState with
  | none => e
  | some state =>
    if flags.rst then { e with tcpState := some .closed }
    else { e with tcpState := some (state.next flags.syn flags.ack flags.fin isReply) }

/-! ## The table -/

structure ConnTrackTable where
  connections : SortedMap ConnTuple ConnEntry := empty
  maxConnections : Nat := 65536
  currentTick : Nat := 0

namespace ConnTrackTable

def tick (table : ConnTrackTable) : ConnTrackTable := { table with currentTick := (table.currentTick + 1) % 2 ^ 64 }

/-- Remove expired connections. -/
def gc (table : ConnTrackTable) : ConnTrackTable :=
  { table with connections := table.connections.retain (fun e => !e.isExpired table.currentTick) }

/-- The entry after one more packet. -/
def touch (table : ConnTrackTable) (e : ConnEntry) (tcpFlags : Option TcpFlags) (isReply : Bool) : ConnEntry :=
  let e := { e with lastSeen := table.currentTick, replySeen := e.replySeen || isReply }
  match tcpFlags with
  | some flags => e.updateTcpState flags isReply
  | none => e

/-- A packet that belongs to no connection. -/
def trackNew (table : ConnTrackTable) (tuple : ConnTuple) (tcpFlags : Option TcpFlags) :
    ConnState × ConnTrackTable :=
  let table := if table.maxConnections ≤ table.connections.size then table.gc else table
  if table.maxConnections ≤ table.connections.size then (.invalid, table)
  else
    match tcpFlags with
    | some flags =>
      if !flags.syn || flags.ack then (.invalid, table)
      else
        let e := ConnEntry.new tuple table.currentTick
        (e.connState, { table with connections := table.connections.insert tuple e })
    | none =>
      let e := ConnEntry.new tuple table.currentTick
      (e.connState, { table with connections := table.connections.insert tuple e })

/-- Create or update a connection. -/
def track (table : ConnTrackTable) (tuple : ConnTuple) (tcpFlags : Option TcpFlags) : ConnState × ConnTrackTable :=
  match table.connections.get tuple.reverse with
  | some e =>
    let e := table.touch e tcpFlags true
    (e.connState, { table with connections := table.connections.insert tuple.reverse e })
  | none =>
    match table.connections.get tuple with
    | some e =>
      let e := table.touch e tcpFlags false
      (e.connState, { table with connections := table.connections.insert tuple e })
    | none => table.trackNew tuple tcpFlags

end ConnTrackTable

/-! ## The machine -/

/-- What a packet tells the tracker; the flags are those of a TCP packet. -/
structure Packet where
  tuple : ConnTuple
  flags : TcpFlags := {}

/-- `Some(flags)` for TCP, `None` for the others. -/
def Packet.tcpFlags (p : Packet) : Option TcpFlags := if p.tuple.protocol = TCP then some p.flags else none

/-- A packet that came in, the clock at that time, and whether the table had room but for expired entries. -/
structure Arrival where
  packet : Packet
  tick : Nat
  room : Bool

structure Tracker where
  table : ConnTrackTable := {}
  /-- The newest first. -/
  received : List Arrival := []
  sent : List ConnTuple := []

/-- `send` is for a packet that goes out; one that the stack sends to itself is a `receive`. -/
inductive TrackOp where
  | receive (p : Packet)
  | send (p : Packet)
  | tick
  | gc

namespace Tracker

/-- The state that the filter is given for an incoming packet. -/
def classify (s : Tracker) (p : Packet) : ConnState := (s.table.track p.tuple p.tcpFlags).1

def arrival (s : Tracker) (p : Packet) : Arrival where
  packet := p
  tick := s.table.currentTick
  room := s.table.gc.connections.size < s.table.maxConnections

def step (s : Tracker) : TrackOp → Option Tracker
  | .receive p => some
      { s with table := (s.table.track p.tuple p.tcpFlags).2, received := s.arrival p :: s.received }
  | .send p => some { s with sent := p.tuple :: s.sent }
  | .tick => some { s with table := s.table.tick }
  | .gc => some { s with table := s.table.gc }

end Tracker

/-! ## What was seen -/

/-- The packet is one of the tuple's connection. -/
def Arrival.belongs (t : ConnTuple) (x : Arrival) : Bool := x.packet.tuple = t || x.packet.tuple = t.reverse

/-- The tuple of a connection's first packet. -/
def opener : List Arrival → Option ConnTuple
  | [] => none
  | x :: conn => (opener conn).or (some x.packet.tuple)

/-- Some packet went in the direction opposite to the first. -/
def replied : List Arrival → Bool
  | [] => false
  | x :: conn => replied conn || opener conn == some x.packet.tuple.reverse

/-- Some packet was a `FIN` or a reset. -/
def closing (conn : List Arrival) : Bool := conn.any (fun x => x.packet.flags.fin || x.packet.flags.rst)

/-- How long a connection may pause: the documented timeouts, and for a TCP connection that is being closed the
    shortest of them. -/
def idleLimit (protocol : Byte) (conn : List Arrival) : Nat :=
  if protocol = TCP then
    if closing conn then 10 * ConnEntry.TICKS_PER_SEC
    else if replied conn then 5 * 24 * 3600 * ConnEntry.TICKS_PER_SEC
    else 120 * ConnEntry.TICKS_PER_SEC
  else if protocol = UDP ∧ replied conn = true then 180 * ConnEntry.TICKS_PER_SEC
  else 30 * ConnEntry.TICKS_PER_SEC

/-- The packets of a connection since it last paused for too long. -/
def unpaused : Nat → List Arrival → List Arrival
  | _, [] => []
  | now, x :: conn =>
    let recent := x :: unpaused x.tick conn
    if now - x.tick ≤ idleLimit x.packet.tuple.protocol recent then recent else []

/-- The answer that the tracker recognises. -/
def TcpFlags.answers (flags : TcpFlags) : Prop :=
  flags.rst = true ∨ (flags.syn = true ∧ flags.ack = true ∧ flags.fin = false)

/-- **The connections that are classified rightly.** The first packet finds room in the table, and is a `SYN` if the
    protocol is TCP. The connection never pauses for too long. As long as a TCP connection has seen no reply, its own
    direction sends no reset, and the first packet of the reply is a `SYN-ACK` or a reset. -/
inductive Regular : List Arrival → Prop where
  | opening (x : Arrival) : x.room = true →
      (x.packet.tuple.protocol = TCP → x.packet.flags.syn = true ∧ x.packet.flags.ack = false) → Regular [x]
  | later (x y : Arrival) (conn : List Arrival) : Regular (y :: conn) →
      x.tick - y.tick ≤ idleLimit y.packet.tuple.protocol (y :: conn) →
      (x.packet.tuple.protocol = TCP → replied (y :: conn) = false →
        if opener (y :: conn) = some x.packet.tuple.reverse then x.packet.flags.answers
        else x.packet.flags.rst = false) →
      Regular (x :: y :: conn)

namespace Tracker

/-- The packets of the tuple's connection that came in. -/
def history (s : Tracker) (t : ConnTuple) : List Arrival := s.received.filter (Arrival.belongs t)

/-- **The opposite direction was seen**: a packet of it came in and the connection did not pause for too long since,
    or one was sent. -/
def OppositeSeen (s : Tracker) (t : ConnTuple) : Prop :=
  (∃ x ∈ unpaused s.table.currentTick (s.history t), x.packet.tuple = t.reverse) ∨ t.reverse ∈ s.sent

/-- With this packet the connection is one that is classified rightly, and nothing was sent in the opposite
    direction. -/
structure Exact (s : Tracker) (p : Packet) : Prop where
  regular : Regular (s.arrival p :: s.history p.tuple)
  unsent : p.tuple.reverse ∉ s.sent

/-- The clock does not wrap around. -/
def Ticks (s : Tracker) : TrackOp → Prop
  | .tick => s.table.currentTick + 1 < 2 ^ 64
  | _ => True

def Start (s : Tracker) : Prop := s.table.connections = empty ∧ s.received = []

end Tracker

/-! ## The states of an entry -/

/-- A connection that counts as established stays so. -/
theorem TcpState.next_established {st : TcpState} (h : st.toConnState = .established) (syn ack fin isReply : Bool) :
    (st.next syn ack fin isReply).toConnState = .established := by
  cases st with
  | synSent | synReceived => cases h
  | _ => cases syn <;> cases ack <;> cases fin <;> cases isReply <;> rfl

/-- A first packet is not answered by the same side. -/
theorem TcpState.next_synSent (syn ack fin : Bool) : TcpState.synSent.next syn ack fin false = .synSent := by
  cases syn <;> cases ack <;> cases fin <;> rfl

/-- An entry as packets leave it: the TCP state is there for TCP only, and a connection that counts as new has seen no
    reply. -/
structure EntryOk (t : ConnTuple) (e : ConnEntry) : Prop where
  tcp : e.tcpState.isSome ↔ t.protocol = TCP
  fresh : e.connState = .new → e.tcpState = none ∨ e.tcpState = some .synSent

theorem EntryOk.new (t : ConnTuple) (now : Nat) : EntryOk t (ConnEntry.new t now) := by
  unfold ConnEntry.new
  constructor
  · dsimp only
    split <;> simp_all
  intro _
  split
  · exact .inr rfl
  · exact .inl rfl

theorem connState_new (t : ConnTuple) (now : Nat) : (ConnEntry.new t now).connState = .new := by
  unfold ConnEntry.connState ConnEntry.new
  by_cases h : t.protocol = TCP
  · simp only [if_pos h]
    rfl
  · simp only [if_neg h]
    rfl

theorem TcpState.toConnState_cases (st : TcpState) : st.toConnState = .new ∨ st.toConnState = .established := by
  cases st <;> first | exact .inl rfl | exact .inr rfl

theorem connState_of_some {e : ConnEntry} {st : TcpState} (h : e.tcpState = some st) :
    e.connState = st.toConnState := by
  unfold ConnEntry.connState
  rw [h]

/-- A TCP connection that counts as new waits for the answer. -/
theorem EntryOk.synSent {t : ConnTuple} {e : ConnEntry} (h : EntryOk t e) (ht : t.protocol = TCP)
    (hnew : e.connState = .new) : e.tcpState = some .synSent := by
  refine (h.fresh hnew).resolve_left (fun hnone => ?_)
  have hsome := h.tcp.mpr ht
  rw [hnone] at hsome
  cases hsome

theorem connState_of_none {e : ConnEntry} (h : e.tcpState = none) :
    e.connState = if e.replySeen then .established else .new := by
  unfold ConnEntry.connState
  rw [h]

section Touch

variable (table : ConnTrackTable) {t : ConnTuple} {e : ConnEntry} (flags : TcpFlags) (isReply : Bool)

/-- A packet of another protocol marks a reply. -/
theorem touch_none (hok : EntryOk t e) (ht : t.protocol ≠ TCP) :
    EntryOk t (table.touch e none isReply) ∧
      ((table.touch e none isReply).connState = .established ↔ e.connState = .established ∨ isReply = true) := by
  have hnone : e.tcpState = none := by
    cases hst : e.tcpState with
    | none => rfl
    | some st => exact absurd (hok.tcp.mp (by rw [hst]; rfl)) ht
  have hnone' : (table.touch e none isReply).tcpState = none := hnone
  refine ⟨⟨?_, fun _ => .inl hnone'⟩, ?_⟩
  · rw [hnone']
    simp only [isSome_none, Bool.false_eq_true, false_iff]
    exact ht
  rw [connState_of_none hnone, connState_of_none hnone']
  change (if (e.replySeen || isReply) then ConnState.established else .new) = .established ↔ _
  cases e.replySeen <;> cases isReply <;> simp

/-- The TCP state after a packet. -/
theorem tcpState_touch {st : TcpState} (hst : e.tcpState = some st) : (table.touch e (some flags) isReply).tcpState
      = some (if flags.rst then .closed else st.next flags.syn flags.ack flags.fin isReply) := by
  unfold ConnTrackTable.touch ConnEntry.updateTcpState
  rw [hst]
  dsimp only
  split <;> rfl

theorem tcp_touch {st : TcpState} (hok : EntryOk t e) (hst : e.tcpState = some st) :
    (table.touch e (some flags) isReply).tcpState.isSome ↔ t.protocol = TCP := by
  rw [tcpState_touch table flags isReply hst, ← hok.tcp, hst]
  rfl

section

variable (hok : EntryOk t e) (ht : t.protocol = TCP)
include hok ht

/-- A TCP packet of a connection that counts as established. -/
theorem touch_established (hestablished : e.connState = .established) :
    EntryOk t (table.touch e (some flags) isReply) ∧
      (table.touch e (some flags) isReply).connState = .established := by
  obtain ⟨st, hst⟩ := isSome_iff_exists.mp (hok.tcp.mpr ht)
  rw [connState_of_some hst] at hestablished
  have hafter : (table.touch e (some flags) isReply).connState = .established := by
    rw [connState_of_some (tcpState_touch table flags isReply hst)]
    split
    · rfl
    · exact TcpState.next_established hestablished _ _ _ _
  refine ⟨⟨tcp_touch table flags isReply hok hst, fun hnew => ?_⟩, hafter⟩
  rw [hafter] at hnew
  cases hnew

/-- The first packet of the reply. -/
theorem touch_answer (hnew : e.connState = .new)
    (hanswer : flags.rst = true ∨ (flags.syn = true ∧ flags.ack = true ∧ flags.fin = false)) :
    EntryOk t (table.touch e (some flags) true) ∧ (table.touch e (some flags) true).connState = .established := by
  have hst := hok.synSent ht hnew
  have hafter : (table.touch e (some flags) true).connState = .established := by
    rw [connState_of_some (tcpState_touch table flags true hst)]
    rcases hanswer with hrst | ⟨hsyn, hack, hfin⟩
    · rw [if_pos hrst]
      rfl
    · rw [hsyn, hack, hfin]
      split <;> rfl
  refine ⟨⟨tcp_touch table flags true hok hst, fun h => ?_⟩, hafter⟩
  rw [hafter] at h
  cases h

/-- Another packet of the first direction before any reply. -/
theorem touch_again (hnew : e.connState = .new) (hrst : flags.rst = false) :
    EntryOk t (table.touch e (some flags) false) ∧ (table.touch e (some flags) false).connState = .new := by
  have hst := hok.synSent ht hnew
  have hafter : (table.touch e (some flags) false).tcpState = some .synSent := by
    rw [tcpState_touch table flags false hst, hrst, TcpState.next_synSent]
    rfl
  exact ⟨⟨tcp_touch table flags false hok hst, fun _ => .inr hafter⟩, connState_of_some hafter⟩

end

end Touch

section Directions

variable (table : ConnTrackTable) {p : Packet} {e : ConnEntry}

theorem connState_cases (e : ConnEntry) : e.connState = .new ∨ e.connState = .established := by
  cases hst : e.tcpState with
  | none =>
    rw [connState_of_none hst]
    cases e.replySeen
    · exact .inl rfl
    · exact .inr rfl
  | some st =>
    rw [connState_of_some hst]
    exact st.toConnState_cases

theorem tcpFlags_of_tcp (h : p.tuple.protocol = TCP) : p.tcpFlags = some p.flags := if_pos h

theorem tcpFlags_of_ne (h : p.tuple.protocol ≠ TCP) : p.tcpFlags = none := if_neg h

/-- **A packet of the reply makes the connection established.** -/
theorem touch_reply (hok : EntryOk p.tuple.reverse e) (hanswer : p.tuple.protocol = TCP → e.connState = .new →
      p.flags.rst = true ∨ (p.flags.syn = true ∧ p.flags.ack = true ∧ p.flags.fin = false)) :
    EntryOk p.tuple.reverse (table.touch e p.tcpFlags true) ∧
      (table.touch e p.tcpFlags true).connState = .established := by
  by_cases ht : p.tuple.protocol = TCP
  · rw [tcpFlags_of_tcp ht]
    rcases connState_cases e with hnew | hestablished
    · exact touch_answer table p.flags hok ht hnew (hanswer ht hnew)
    · exact touch_established table p.flags true hok ht hestablished
  · rw [tcpFlags_of_ne ht]
    obtain ⟨hok', hstate⟩ := touch_none table true hok ht
    exact ⟨hok', hstate.mpr (.inr rfl)⟩

/-- **A packet of the first direction leaves what the connection counts as.** -/
theorem touch_original (hok : EntryOk p.tuple e)
    (hrst : p.tuple.protocol = TCP → e.connState = .new → p.flags.rst = false) :
    EntryOk p.tuple (table.touch e p.tcpFlags false) ∧
      ((table.touch e p.tcpFlags false).connState = .established ↔ e.connState = .established) := by
  by_cases ht : p.tuple.protocol = TCP
  · rw [tcpFlags_of_tcp ht]
    rcases connState_cases e with hnew | hestablished
    · obtain ⟨hok', hnew'⟩ := touch_again table p.flags hok ht hnew (hrst ht hnew)
      exact ⟨hok', by rw [hnew, hnew']⟩
    · obtain ⟨hok', hafter⟩ := touch_established table p.flags false hok ht hestablished
      exact ⟨hok', by rw [hestablished, hafter]⟩
  · rw [tcpFlags_of_ne ht]
    obtain ⟨hok', hstate⟩ := touch_none table false hok ht
    exact ⟨hok', by rw [hstate]; simp⟩

end Directions

section Fields

variable (table : ConnTrackTable) (e : ConnEntry) (tcpFlags : Option TcpFlags) (isReply : Bool)

theorem updateTcpState_fields (flags : TcpFlags) : (e.updateTcpState flags isReply).lastSeen = e.lastSeen ∧
    (e.updateTcpState flags isReply).original = e.original := by
  unfold ConnEntry.updateTcpState
  split
  · exact ⟨rfl, rfl⟩
  · split <;> exact ⟨rfl, rfl⟩

theorem touch_fields : (table.touch e tcpFlags isReply).lastSeen = table.currentTick ∧
    (table.touch e tcpFlags isReply).original = e.original := by
  cases tcpFlags with
  | none => exact ⟨rfl, rfl⟩
  | some flags => exact updateTcpState_fields _ isReply flags

end Fields

/-! ## Connections -/

section Connections

variable {conn : List Arrival} {x : Arrival} {o : ConnTuple}

theorem opener_mem (h : opener conn = some o) : ∃ x ∈ conn, x.packet.tuple = o := by
  induction conn with
  | nil => cases h
  | cons x conn ih =>
    unfold opener at h
    cases hconn : opener conn with
    | none =>
      rw [hconn] at h
      exact ⟨x, mem_cons_self, some.inj h⟩
    | some o' =>
      rw [hconn] at h
      cases h
      obtain ⟨y, hy, hyo⟩ := ih hconn
      exact ⟨y, mem_cons_of_mem x hy, hyo⟩

theorem opener_cons (x : Arrival) (h : opener conn = some o) : opener (x :: conn) = some o := by
  unfold opener
  rw [h]
  rfl

theorem exists_opener (x : Arrival) (conn : List Arrival) : ∃ o, opener (x :: conn) = some o := by
  unfold opener
  cases opener conn with
  | none => exact ⟨_, rfl⟩
  | some o => exact ⟨o, rfl⟩

/-- A reply is a packet of the opposite direction. -/
theorem replied_iff (h : opener conn = some o) (hne : o.reverse ≠ o) :
    replied conn = true ↔ ∃ x ∈ conn, x.packet.tuple = o.reverse := by
  induction conn with
  | nil => cases h
  | cons x conn ih =>
    cases conn with
    | nil =>
      cases h
      simp [replied, opener, Ne.symm hne]
    | cons y conn =>
      obtain ⟨o', hconn⟩ := exists_opener y conn
      have ho : o' = o := some.inj ((opener_cons x hconn).symm.trans h)
      subst ho
      have hrev : o' = x.packet.tuple.reverse ↔ x.packet.tuple = o'.reverse := by
        rw [eq_comm, ConnTuple.reverse_eq_iff]
      rw [exists_mem_cons_iff, ← ih hconn, ← hrev, replied, hconn, Bool.or_eq_true, beq_iff_eq, some.injEq, or_comm]

/-- What a regular connection shows is not cut off by a pause. -/
theorem Regular.unpaused_eq (h : Regular (x :: conn)) : unpaused x.tick conn = conn := by
  induction conn generalizing x with
  | nil => rfl
  | cons y conn ih =>
    cases h with
    | later _ _ _ hconn hpause _ =>
      unfold unpaused
      rw [ih hconn]
      exact if_pos hpause

/-- **The entry of a regular connection**: it was last seen when the newest packet came in, it counts as established
    if there was a reply, and a TCP connection that nobody closes is then in the established state. -/
structure Follows (conn : List Arrival) (o : ConnTuple) (e : ConnEntry) : Prop where
  original : e.original = o
  entry : EntryOk o e
  last : ∃ x older, conn = x :: older ∧ e.lastSeen = x.tick ∧ x.packet.tuple.protocol = o.protocol
  state : e.connState = .established ↔ replied conn = true
  steady : o.protocol = TCP → closing conn = false → replied conn = true → e.tcpState = some .established

theorem TcpState.limit_le (st : TcpState) (e : ConnEntry) (h : e.tcpState = some st) :
    10 * ConnEntry.TICKS_PER_SEC ≤ e.timeoutTicks := by
  unfold ConnEntry.timeoutTicks
  rw [h]
  cases st <;> exact Nat.le_of_ble_eq_true rfl

/-- The table keeps the connection at least as long as it may pause. -/
theorem Follows.limit_le {e : ConnEntry} (h : Follows conn o e) : idleLimit o.protocol conn ≤ e.timeoutTicks := by
  unfold idleLimit
  by_cases ht : o.protocol = TCP
  · rw [if_pos ht]
    obtain ⟨st, hst⟩ := isSome_iff_exists.mp (h.entry.tcp.mpr ht)
    cases hclosing : closing conn with
    | true => exact st.limit_le e hst
    | false =>
      cases hreplied : replied conn with
      | true =>
        unfold ConnEntry.timeoutTicks
        rw [h.steady ht hclosing hreplied]
        exact le_rfl
      | false =>
        have hnew : e.connState = .new := by
          refine (connState_cases e).resolve_right (fun hestablished => ?_)
          rw [h.state.mp hestablished] at hreplied
          cases hreplied
        unfold ConnEntry.timeoutTicks
        rw [h.entry.synSent ht hnew]
        exact le_rfl
  · have hnone : e.tcpState = none := by
      cases hst : e.tcpState with
      | none => rfl
      | some st => exact absurd (h.entry.tcp.mp (by rw [hst]; rfl)) ht
    have hreply : e.replySeen = replied conn := by
      have hstate := h.state
      rw [connState_of_none hnone] at hstate
      cases hr : e.replySeen <;> cases hc : replied conn <;> simp_all
    rw [if_neg ht]
    unfold ConnEntry.timeoutTicks
    rw [hnone, h.original, hreply]
    by_cases hu : o.protocol = UDP
    · cases replied conn <;> simp [hu]
    · simp [hu]

section Packets

variable (table : ConnTrackTable) {e : ConnEntry}

/-- A connection is entered. -/
theorem Follows.opening (x : Arrival) (htick : x.tick = table.currentTick) :
    Follows [x] x.packet.tuple (ConnEntry.new x.packet.tuple table.currentTick) where
  original := rfl
  entry := EntryOk.new _ _
  last := ⟨x, [], rfl, htick.symm, rfl⟩
  state := by
    rw [connState_new]
    exact ⟨nofun, nofun⟩
  steady := nofun

/-- A new connection has not been answered. -/
theorem Follows.unanswered (h : Follows conn o e) (hnew : e.connState = .new) : replied conn = false := by
  rw [Bool.eq_false_iff]
  intro hyes
  rw [h.state.mpr hyes] at hnew
  cases hnew

section

variable (h : Follows conn o e) (hreg : Regular (x :: conn)) (ho : opener conn = some o)
  (htick : x.tick = table.currentTick)
include h hreg ho htick

/-- A packet of the reply comes in. -/
theorem Follows.reply (hx : x.packet.tuple.reverse = o) :
    Follows (x :: conn) o (table.touch e x.packet.tcpFlags true) ∧
      (table.touch e x.packet.tcpFlags true).connState = .established := by
  have hopen : opener conn = some x.packet.tuple.reverse := hx ▸ ho
  have hrev : replied (x :: conn) = true := by
    simp [replied, hopen]
  have hprotocol : x.packet.tuple.protocol = o.protocol := hx ▸ rfl
  obtain ⟨y, older, rfl, -⟩ := h.last
  cases hreg with
  | later _ _ _ _ _ hflags =>
    have hanswer : x.packet.tuple.protocol = TCP → e.connState = .new → x.packet.flags.answers := by
      intro ht hnew
      have := hflags ht (h.unanswered hnew)
      rwa [if_pos hopen] at this
    obtain ⟨hentry, hestablished⟩ := touch_reply table (p := x.packet) (e := e) (hx ▸ h.entry) hanswer
    obtain ⟨hlast, horiginal⟩ := touch_fields table e x.packet.tcpFlags true
    refine ⟨⟨horiginal.trans h.original, hx ▸ hentry, ⟨x, _, rfl, hlast.trans htick.symm, hprotocol⟩, ?_, ?_⟩,
      hestablished⟩
    · exact ⟨fun _ => hrev, fun _ => hestablished⟩
    · intro ht hclosing _
      rw [← hprotocol] at ht
      simp only [closing, any_cons, Bool.or_eq_false_iff] at hclosing
      obtain ⟨⟨hfin, hrst⟩, hold⟩ := hclosing
      rw [tcpFlags_of_tcp ht]
      rcases connState_cases e with hnew | hest
      · -- the answer
        obtain hr | ⟨hsyn, hack, -⟩ := hanswer ht hnew
        · rw [hrst] at hr
          cases hr
        · rw [tcpState_touch table x.packet.flags true (h.entry.synSent (hprotocol ▸ ht) hnew), hrst, hsyn, hack, hfin]
          rfl
      · rw [tcpState_touch table x.packet.flags true
          (h.steady (hprotocol ▸ ht) (by simpa [closing] using hold) (h.state.mp hest)), hrst, hfin]
        cases x.packet.flags.syn <;> cases x.packet.flags.ack <;> rfl

/-- A packet of the first direction comes in. -/
theorem Follows.again (hx : x.packet.tuple = o) (hne : o.reverse ≠ o) :
    Follows (x :: conn) o (table.touch e x.packet.tcpFlags false) ∧
      ((table.touch e x.packet.tcpFlags false).connState = .established ↔ replied conn = true) := by
  have hopen : opener conn ≠ some x.packet.tuple.reverse := by
    rw [ho, hx]
    exact fun he => hne (some.inj he).symm
  have hrev : replied (x :: conn) = replied conn := by
    simp [replied, hopen]
  obtain ⟨y, older, rfl, -⟩ := h.last
  cases hreg with
  | later _ _ _ _ _ hflags =>
    have hrst : x.packet.tuple.protocol = TCP → e.connState = .new → x.packet.flags.rst = false := by
      intro ht hnew
      have := hflags ht (h.unanswered hnew)
      rwa [if_neg hopen] at this
    obtain ⟨hentry, hstate⟩ := touch_original table (p := x.packet) (e := e) (hx ▸ h.entry) hrst
    obtain ⟨hlast, horiginal⟩ := touch_fields table e x.packet.tcpFlags false
    have hafter := hstate.trans h.state
    refine ⟨⟨horiginal.trans h.original, hx ▸ hentry, ⟨x, _, rfl, hlast.trans htick.symm, hx ▸ rfl⟩, ?_, ?_⟩, hafter⟩
    · rw [hrev]
      exact hafter
    · intro ht hclosing hreplied
      rw [← hx] at ht
      rw [hrev] at hreplied
      simp only [closing, any_cons, Bool.or_eq_false_iff] at hclosing
      obtain ⟨⟨hfin, hrst'⟩, hold⟩ := hclosing
      rw [tcpFlags_of_tcp ht, tcpState_touch table x.packet.flags false
        (h.steady (hx ▸ ht) (by simpa [closing] using hold) hreplied), hrst', hfin]
      cases x.packet.flags.syn <;> cases x.packet.flags.ack <;> rfl

end

end Packets

/-! ## The table -/

/-- The connection has its entry, in the one direction; or it has paused for too long. -/
def Held (table : ConnTrackTable) (conn : List Arrival) (o : ConnTuple) : Prop :=
  (∃ e, table.connections.get o = some e ∧ Follows conn o e ∧
    (o.reverse ≠ o → table.connections.get o.reverse = none)) ∨
  ∃ x older, conn = x :: older ∧ idleLimit x.packet.tuple.protocol conn < table.currentTick - x.tick

/-- What one table keeps of another at a key: no entry but the old one, which goes only when it has expired. -/
structure Keeps (table table' : ConnTrackTable) (k : ConnTuple) : Prop where
  old : ∀ e, table'.connections.get k = some e → table.connections.get k = some e
  gone : ∀ e, table.connections.get k = some e → table'.connections.get k = some e ∨
    e.isExpired table.currentTick = true

variable {table table' : ConnTrackTable} {t k : ConnTuple} {e : ConnEntry} {tcpFlags : Option TcpFlags}

theorem Held.keep (h : Held table conn o) (htick : table.currentTick ≤ table'.currentTick) (hk : Keeps table table' o)
    (hrev : Keeps table table' o.reverse) : Held table' conn o := by
  rcases h with ⟨e, he, hf, hone⟩ | ⟨x, older, hconn, hpause⟩
  · rcases hk.gone e he with he' | hexpired
    · refine .inl ⟨e, he', hf, fun hne => ?_⟩
      cases hr : table'.connections.get o.reverse with
      | none => rfl
      | some e' =>
        have hold := hrev.old e' hr
        rw [hone hne] at hold
        cases hold
    · -- what has expired was not seen for longer than it may pause
      obtain ⟨x, older, hconn, hlast, hprotocol⟩ := hf.last
      have hlimit := hf.limit_le
      have hpast := of_decide_eq_true hexpired
      rw [hlast] at hpast
      refine .inr ⟨x, older, hconn, ?_⟩
      rw [hprotocol]
      omega
  · exact .inr ⟨x, older, hconn, by omega⟩

theorem Keeps.refl (table : ConnTrackTable) (k : ConnTuple) : Keeps table table k := ⟨fun _ h => h, fun _ h => .inl h⟩

theorem keeps_gc (table : ConnTrackTable) (k : ConnTuple) : Keeps table table.gc k where
  old := fun _ h => ((get_retain _ _).mp h).1
  gone := by
    intro e he
    cases hexpired : e.isExpired table.currentTick with
    | true => exact .inr rfl
    | false => exact .inl ((get_retain _ _).mpr ⟨he, by rw [hexpired]; rfl⟩)

theorem Keeps.insert {key : ConnTuple} (h : Keeps table table' k) (hne : k ≠ key) (e : ConnEntry) :
    Keeps table { table' with connections := table'.connections.insert key e } k where
  old := by
    intro e' he'
    rw [get_insert_ne _ _ hne] at he'
    exact h.old e' he'
  gone := by
    intro e' he'
    rw [get_insert_ne _ _ hne]
    exact h.gone e' he'

/-- The table in which a packet of no connection is looked at. -/
def collected (table : ConnTrackTable) : ConnTrackTable :=
  if table.maxConnections ≤ table.connections.size then table.gc else table

theorem keeps_collected (table : ConnTrackTable) (k : ConnTuple) : Keeps table (collected table) k := by
  unfold collected
  split
  · exact keeps_gc table k
  · exact .refl table k

theorem collected_tick (table : ConnTrackTable) : (collected table).currentTick = table.currentTick := by
  unfold collected
  split <;> rfl

/-- A packet of no connection is refused or enters one. -/
theorem trackNew_cases (table : ConnTrackTable) (tuple : ConnTuple) (tcpFlags : Option TcpFlags) :
    table.trackNew tuple tcpFlags = (.invalid, collected table) ∨
      table.trackNew tuple tcpFlags = (.new, { collected table with
        connections := (collected table).connections.insert tuple (ConnEntry.new tuple table.currentTick) }) := by
  rw [← collected_tick table, ← connState_new tuple (collected table).currentTick]
  unfold ConnTrackTable.trackNew
  change (if (collected table).maxConnections ≤ (collected table).connections.size then _ else _) = _ ∨
    (if (collected table).maxConnections ≤ (collected table).connections.size then _ else _) = _
  by_cases hfull : (collected table).maxConnections ≤ (collected table).connections.size
  · rw [if_pos hfull]
    exact .inl rfl
  rw [if_neg hfull]
  cases tcpFlags with
  | none => exact .inr rfl
  | some flags =>
    by_cases hflags : (!flags.syn || flags.ack) = true
    · exact .inl (if_pos hflags)
    · exact .inr (if_neg hflags)

theorem track_reply (tcpFlags : Option TcpFlags) (hrev : table.connections.get t.reverse = some e) :
    table.track t tcpFlags = ((table.touch e tcpFlags true).connState,
      { table with connections := table.connections.insert t.reverse (table.touch e tcpFlags true) }) := by
  unfold ConnTrackTable.track
  rw [hrev]

theorem track_original (tcpFlags : Option TcpFlags) (hrev : table.connections.get t.reverse = none)
    (hget : table.connections.get t = some e) :
    table.track t tcpFlags = ((table.touch e tcpFlags false).connState,
      { table with connections := table.connections.insert t (table.touch e tcpFlags false) }) := by
  unfold ConnTrackTable.track
  rw [hrev, hget]

theorem track_new (tcpFlags : Option TcpFlags) (hrev : table.connections.get t.reverse = none)
    (hget : table.connections.get t = none) : table.track t tcpFlags = table.trackNew t tcpFlags := by
  unfold ConnTrackTable.track
  rw [hrev, hget]

/-- **A first packet that finds room is entered.** -/
theorem trackNew_room (hroom : table.gc.connections.size < table.maxConnections)
    (hsyn : ∀ flags, tcpFlags = some flags → flags.syn = true ∧ flags.ack = false) :
    table.trackNew t tcpFlags = (.new, { collected table with
      connections := (collected table).connections.insert t (ConnEntry.new t table.currentTick) }) := by
  refine (trackNew_cases table t tcpFlags).resolve_left (fun hinvalid => ?_)
  have hfree : ¬(collected table).maxConnections ≤ (collected table).connections.size := by
    unfold collected
    split
    · exact Nat.not_le.mpr hroom
    · assumption
  unfold ConnTrackTable.trackNew at hinvalid
  change (if (collected table).maxConnections ≤ (collected table).connections.size then _ else _) = _ at hinvalid
  rw [if_neg hfree] at hinvalid
  cases tcpFlags with
  | none =>
    have hstate := congrArg fst hinvalid
    simp only [connState_new] at hstate
    cases hstate
  | some flags =>
    obtain ⟨h1, h2⟩ := hsyn flags rfl
    simp only [h1, h2] at hinvalid
    have hstate := congrArg fst hinvalid
    simp only [connState_new] at hstate
    cases hstate

/-- A packet leaves alone the entries of other connections that have not expired. -/
theorem track_other (table : ConnTrackTable) (tcpFlags : Option TcpFlags) (hk : k ≠ t) (hrev : k ≠ t.reverse) :
    Keeps table (table.track t tcpFlags).2 k := by
  cases hr : table.connections.get t.reverse with
  | some e =>
    rw [track_reply tcpFlags hr]
    exact (Keeps.refl table k).insert hrev _
  | none =>
    cases hg : table.connections.get t with
    | some e =>
      rw [track_original tcpFlags hr hg]
      exact (Keeps.refl table k).insert hk _
    | none =>
      rw [track_new tcpFlags hr hg]
      rcases trackNew_cases table t tcpFlags with h | h
      · rw [h]
        exact keeps_collected table k
      · rw [h]
        exact (keeps_collected table k).insert hk _

theorem track_tick (table : ConnTrackTable) (t : ConnTuple) (tcpFlags : Option TcpFlags) :
    (table.track t tcpFlags).2.currentTick = table.currentTick := by
  cases hr : table.connections.get t.reverse with
  | some e => rw [track_reply tcpFlags hr]
  | none =>
    cases hg : table.connections.get t with
    | some e => rw [track_original tcpFlags hr hg]
    | none =>
      rw [track_new tcpFlags hr hg]
      rcases trackNew_cases table t tcpFlags with h | h <;> rw [h] <;> exact collected_tick table

/-- The table has no key but those of packets. -/
theorem track_key (h : (table.track t tcpFlags).2.connections.get k = some e) :
    k = t ∨ ∃ e', table.connections.get k = some e' := by
  by_cases hk : k = t
  · exact .inl hk
  refine .inr ?_
  by_cases hrev : k = t.reverse
  · subst hrev
    cases hr : table.connections.get t.reverse with
    | some e' => exact ⟨e', rfl⟩
    | none =>
      cases hg : table.connections.get t with
      | some e' =>
        rw [track_original tcpFlags hr hg, get_insert_ne _ _ hk] at h
        exact ⟨e, hr ▸ h⟩
      | none =>
        rw [track_new tcpFlags hr hg] at h
        rcases trackNew_cases table t tcpFlags with hc | hc
        · rw [hc] at h
          exact ⟨e, hr ▸ (keeps_collected table _).old e h⟩
        · rw [hc, get_insert_ne _ _ hk] at h
          exact ⟨e, hr ▸ (keeps_collected table _).old e h⟩
  · exact ⟨e, (track_other table tcpFlags hk hrev).old e h⟩

end Connections

/-! ## Runs -/

namespace Tracker

variable {s s' : Tracker} {p : Packet} {t o : ConnTuple}

/-- **What every run keeps**: the table has the entries of packets only, and every regular connection has its own. -/
structure Inv (s : Tracker) : Prop where
  logged : ∀ {t e}, s.table.connections.get t = some e → ∃ x ∈ s.received, x.packet.tuple = t
  held : ∀ {t o}, Regular (s.history t) → opener (s.history t) = some o → Held s.table (s.history t) o

theorem belongs_iff {x : Arrival} : x.belongs t = true ↔ x.packet.tuple = t ∨ x.packet.tuple = t.reverse := by
  unfold Arrival.belongs
  rw [Bool.or_eq_true, decide_eq_true_iff, decide_eq_true_iff]

theorem history_congr (h : t = o ∨ t = o.reverse) : s.history t = s.history o := by
  unfold history
  refine filter_congr fun x _ => ?_
  rw [Bool.eq_iff_iff, belongs_iff, belongs_iff]
  rcases h with rfl | rfl
  · rfl
  · rw [ConnTuple.reverse_reverse, or_comm]

theorem opener_history (h : opener (s.history t) = some o) : o = t ∨ o = t.reverse := by
  obtain ⟨x, hx, rfl⟩ := opener_mem h
  exact belongs_iff.mp (mem_filter.mp hx).2

/-- A connection of which nothing came in is not in the table. -/
theorem Inv.untracked (h : s.Inv) (hnil : s.history t = []) (hk : k = t ∨ k = t.reverse) :
    s.table.connections.get k = none := by
  cases hget : s.table.connections.get k with
  | none => rfl
  | some e =>
    obtain ⟨x, hx, rfl⟩ := h.logged hget
    have hmem : x ∈ s.history t := mem_filter.mpr ⟨hx, belongs_iff.mpr hk⟩
    rw [hnil] at hmem
    cases hmem

/-- **One packet of a regular connection** is established exactly if a packet of the opposite direction came in, and
    the connection has its entry afterwards. -/
theorem Inv.receive (h : s.Inv) (hreg : Regular (s.arrival p :: s.history p.tuple)) :
    (s.classify p = .established ↔ ∃ x ∈ s.history p.tuple, x.packet.tuple = p.tuple.reverse) ∧
      ∀ o, opener (s.arrival p :: s.history p.tuple) = some o →
        Held (s.table.track p.tuple p.tcpFlags).2 (s.arrival p :: s.history p.tuple) o := by
  unfold classify
  cases hH : s.history p.tuple with
  | nil =>
    -- the first packet
    rw [hH] at hreg
    cases hreg with
    | opening _ hroom hsyn =>
      have hflags : ∀ flags, p.tcpFlags = some flags → flags.syn = true ∧ flags.ack = false := by
        intro flags hf
        unfold Packet.tcpFlags at hf
        split at hf
        next ht =>
          cases hf
          exact hsyn ht
        · cases hf
      have hrev := h.untracked hH (.inr rfl)
      rw [track_new p.tcpFlags hrev (h.untracked hH (.inl rfl)), trackNew_room (of_decide_eq_true hroom) hflags]
      refine ⟨⟨nofun, nofun⟩, fun o ho => ?_⟩
      cases ho
      refine .inl ⟨_, get_insert_self _ _ _, Follows.opening s.table (s.arrival p) rfl, fun hne => ?_⟩
      cases hget : (collected s.table).connections.get p.tuple.reverse with
      | none => exact (get_insert_ne _ _ hne).trans hget
      | some e =>
        have hold := (keeps_collected s.table _).old e hget
        rw [hrev] at hold
        cases hold
  | cons y older =>
    rw [← hH]
    have hpast : Regular (s.history p.tuple) ∧
        s.table.currentTick - y.tick ≤ idleLimit y.packet.tuple.protocol (s.history p.tuple) := by
      rw [hH] at hreg ⊢
      cases hreg with
      | later _ _ _ hconn hpause _ => exact ⟨hconn, hpause⟩
    obtain ⟨o, ho⟩ : ∃ o, opener (s.history p.tuple) = some o := hH ▸ exists_opener y older
    have hafter : ∀ o', opener (s.arrival p :: s.history p.tuple) = some o' → o' = o := by
      intro o' ho'
      exact some.inj (ho'.symm.trans (opener_cons _ ho))
    rcases h.held hpast.1 ho with ⟨e, he, hf, hone⟩ | ⟨x, older', hx, hpause⟩
    · by_cases hdir : p.tuple.reverse = o
      · -- a packet of the reply
        obtain ⟨hf', hestablished⟩ := hf.reply s.table hreg ho rfl hdir
        rw [track_reply p.tcpFlags (hdir ▸ he)]
        refine ⟨⟨fun _ => ?_, fun _ => hestablished⟩, fun o' ho' => ?_⟩
        · obtain ⟨x, hx, hxo⟩ := opener_mem ho
          exact ⟨x, hx, hxo.trans hdir.symm⟩
        · cases hafter o' ho'
          refine .inl ⟨_, hdir ▸ get_insert_self _ _ _, hf', fun hne => ?_⟩
          exact (get_insert_ne _ _ (fun hk => hne (hk.trans hdir))).trans (hone hne)
      · -- a packet of the direction that opened the connection
        have hp : p.tuple = o := by
          rcases opener_history ho with hp | hp
          · exact hp.symm
          · exact absurd hp.symm hdir
        have hne : o.reverse ≠ o := by
          rw [← hp] at hdir ⊢
          exact hdir
        obtain ⟨hf', hstate⟩ := hf.again s.table hreg ho rfl hp hne
        rw [track_original p.tcpFlags (hp ▸ hone hne) (hp ▸ he)]
        refine ⟨?_, fun o' ho' => ?_⟩
        · have hreplied := replied_iff ho hne
          rw [← hp] at hreplied
          exact hstate.trans hreplied
        · cases hafter o' ho'
          refine .inl ⟨_, hp ▸ get_insert_self _ _ _, hf', fun _ => ?_⟩
          exact (get_insert_ne _ _ (fun hk => hne (hk.trans hp))).trans (hone hne)
    · rw [hH] at hx
      cases hx
      exact absurd hpast.2 (Nat.not_le.mpr hpause)

theorem Start.inv (h : s.Start) : s.Inv := by
  obtain ⟨hempty, hnone⟩ := h
  constructor
  · rw [hempty]
    nofun
  · intro t o _ ho
    unfold history at ho
    rw [hnone] at ho
    cases ho

/-- **One step keeps the invariant.** -/
theorem Inv.step {op : TrackOp} (h : s.Inv) (hok : s.Ticks op) (hstep : s.step op = some s') : s'.Inv := by
  cases op with
  | receive p =>
    cases hstep
    constructor
    · intro t e he
      rcases track_key he with rfl | ⟨e', he'⟩
      · exact ⟨s.arrival p, mem_cons_self, rfl⟩
      · obtain ⟨x, hx, hxt⟩ := h.logged he'
        exact ⟨x, mem_cons_of_mem _ hx, hxt⟩
    intro t o
    show Regular ((s.arrival p :: s.received).filter (Arrival.belongs t)) →
      opener ((s.arrival p :: s.received).filter (Arrival.belongs t)) = some o →
      Held _ ((s.arrival p :: s.received).filter (Arrival.belongs t)) o
    by_cases hb : (s.arrival p).belongs t = true
    · rw [filter_cons_of_pos hb]
      have hsame : s.received.filter (Arrival.belongs t) = s.history p.tuple := by
        refine history_congr ?_
        rcases belongs_iff.mp hb with hp | hp
        · exact .inl hp.symm
        · exact .inr (ConnTuple.reverse_eq_iff.mp hp.symm)
      rw [hsame]
      exact fun hreg ho => (h.receive hreg).2 o ho
    · rw [filter_cons_of_neg hb]
      intro hreg ho
      obtain ⟨hne, hne'⟩ := not_or.mp (mt belongs_iff.mpr hb)
      have hother : ∀ k, (k = t ∨ k = t.reverse) → k ≠ p.tuple ∧ k ≠ p.tuple.reverse := by
        rintro k (rfl | rfl)
        · exact ⟨Ne.symm hne, fun hk => hne' (ConnTuple.reverse_eq_iff.mp hk.symm)⟩
        · exact ⟨Ne.symm hne', fun hk => hne (congrArg ConnTuple.reverse hk).symm⟩
      have hor := opener_history ho
      have hrev : o.reverse = t ∨ o.reverse = t.reverse := by
        rcases hor with rfl | rfl
        · exact .inr rfl
        · exact .inl rfl
      exact (h.held hreg ho).keep (track_tick _ _ _).ge (track_other _ _ (hother o hor).1 (hother o hor).2)
        (track_other _ _ (hother _ hrev).1 (hother _ hrev).2)
  | send p =>
    cases hstep
    exact ⟨h.logged, h.held⟩
  | tick =>
    cases hstep
    have hnext : s.table.tick.currentTick = s.table.currentTick + 1 := Nat.mod_eq_of_lt hok
    refine ⟨h.logged, fun hreg ho => ?_⟩
    exact (h.held hreg ho).keep (by rw [hnext]; omega) ⟨fun _ he => he, fun _ he => .inl he⟩
      ⟨fun _ he => he, fun _ he => .inl he⟩
  | gc =>
    cases hstep
    refine ⟨fun he => h.logged ((keeps_gc _ _).old _ he), fun hreg ho => ?_⟩
    exact (h.held hreg ho).keep le_rfl (keeps_gc _ _) (keeps_gc _ _)

/-- **`established` means that the opposite direction was seen**: in every state that a run of packets, ticks and
    collections reaches, for every packet that continues a regular connection; in particular the packets of one side
    alone are then never established. -/
theorem established_iff_opposite_seen (h : Run.Reach Tracker.step Ticks Start s) (hok : s.Exact p) :
    s.classify p = .established ↔ s.OppositeSeen p.tuple := by
  have hinv : s.Inv := h.invariant Inv (fun _ => Start.inv) (fun _ _ _ => Inv.step)
  rw [(hinv.receive hok.regular).1]
  unfold OppositeSeen
  rw [show s.table.currentTick = (s.arrival p).tick from rfl, hok.regular.unpaused_eq, or_iff_left hok.unsent]

/-- A packet from `10.0.0.2:40000` to `10.0.0.1:80`. -/
def fromRemote (protocol : Byte) : ConnTuple :=
  { protocol := protocol, srcIp := 0x0a000002, srcPort := 40000, dstIp := 0x0a000001, dstPort := 80 }

/-- After one UDP packet. -/
def afterQuery : Tracker :=
  { table := { connections := empty.insert (fromRemote UDP) (ConnEntry.new (fromRemote UDP) 0) }
    received := [⟨{ tuple := fromRemote UDP }, 0, true⟩] }

/-- A query and its answer. -/
theorem established_iff_opposite_seen_udp :
    afterQuery.classify { tuple := (fromRemote UDP).reverse } = .established ∧
      afterQuery.OppositeSeen (fromRemote UDP).reverse := by
  have hstart : Reach step Ticks Start {} := Reach.start ⟨rfl, rfl⟩
  have hreach : Reach step Ticks Start afterQuery :=
    Reach.next (a := .receive { tuple := fromRemote UDP }) hstart trivial rfl
  have hquery : Regular [⟨{ tuple := fromRemote UDP }, 0, true⟩] := .opening _ rfl (fun h => absurd h (by decide))
  have hreply : afterQuery.Exact { tuple := (fromRemote UDP).reverse } :=
    ⟨.later _ _ _ hquery (by decide) (fun h => absurd h (by decide)), not_mem_nil⟩
  have hclass : afterQuery.classify { tuple := (fromRemote UDP).reverse } = .established := by decide
  exact ⟨hclass, (established_iff_opposite_seen hreach hreply).mp hclass⟩

/-- **A stranger becomes established, and an answer does not.** A remote host sends a `SYN` and a reset, and the reset
    is classified as established though nothing was sent or came in from the other side. And the answer to a packet
    that was sent is new. -/
theorem reset_is_established :
    (∃ s, Run.exec Tracker.step (fun _ _ => True) {} [.receive { tuple := fromRemote TCP, flags := { syn := true } }]
        = some s ∧
      s.classify { tuple := fromRemote TCP, flags := { rst := true } } = .established ∧
      s.received.map (fun x => x.packet.tuple) = [fromRemote TCP] ∧ s.sent = []) ∧
    ∃ s, exec Tracker.step (fun _ _ => True) {} [.send { tuple := (fromRemote UDP).reverse }] = some s ∧
      s.classify { tuple := fromRemote UDP } = .new ∧ s.OppositeSeen (fromRemote UDP) :=
  ⟨⟨_, rfl, by decide, rfl, rfl⟩, ⟨_, rfl, by decide, .inr (mem_singleton.mpr rfl)⟩⟩

end Tracker

end OxideOs.ConnTrack
