import OxideOs.Lib.Bytes

/-!
# `Net.Tcp.Segment` — TCP headers, options and segments (`tcpip::tcp`)

Segments come from the wire: every byte is the peer's choice. Parsing reads at offsets it has computed from
those bytes; an offset outside the buffer would stop the kernel.
-/

namespace OxideOs.Tcp

open Checked

def TCP_HEADER_MIN_LEN : Nat := 20
def TCP_MSS_ETHERNET : BitVec 16 := 1460
def TCP_WINDOW_SIZE : Nat := 65535
def TCP_MAX_WSCALE : Byte := 14

/-! ## Flags and option kinds -/

def FIN : Byte := 0x01
def SYN : Byte := 0x02
def RST : Byte := 0x04
def PSH : Byte := 0x08
def ACK : Byte := 0x10
def OPT_END : Byte := 0
def OPT_NOP : Byte := 1
def OPT_MSS : Byte := 2
def OPT_WINDOW_SCALE : Byte := 3
def OPT_SACK_PERMITTED : Byte := 4
def OPT_SACK : Byte := 5
def OPT_TIMESTAMP : Byte := 8

structure TcpOptions where
  mss : Option (BitVec 16)
  windowScale : Option Byte
  sackPermitted : Bool
  sackBlocks : List (BitVec 32 × BitVec 32)
  timestamp : Option (BitVec 32)
  timestampEcho : Option (BitVec 32)
  deriving DecidableEq

namespace TcpOptions

def default : TcpOptions :=
  { mss := none, windowScale := none, sackPermitted := false, sackBlocks := [], timestamp := none,
    timestampEcho := none }

/-- The inner loop over the blocks of a SACK option that ends at `stop`. -/
def parseSack (data : List Byte) (stop : Nat) : Nat → Nat → List (BitVec 32 × BitVec 32) →
    Checked (List (BitVec 32 × BitVec 32))
  | 0, _, blocks => .ok blocks
  | rounds + 1, j, blocks =>
    if j + 8 ≤ stop then do
      let left ← be32 data j
      let right ← be32 data (j + 4)
      parseSack data stop rounds (j + 8) (blocks ++ [(left, right)])
    else .ok blocks

/-- One round of `parse` at the option of this kind at `i`: where the next option starts, or `none` to break. -/
def parseOption (data : List Byte) (kind : Byte) (i : Nat) (opts : TcpOptions) : Checked (Option (Nat × TcpOptions)) :=
  if kind = OPT_END then .ok none
  else if kind = OPT_NOP then .ok (some (i + 1, opts))
  else if kind = OPT_MSS then
    if i + 4 ≤ data.length then do
      let len ← get data (i + 1)
      if len = 4 then do
        let mss ← be16 data (i + 2)
        .ok (some (i + 4, { opts with mss := some mss }))
      else .ok none
    else .ok none
  else if kind = OPT_WINDOW_SCALE then
    if i + 3 ≤ data.length then do
      let len ← get data (i + 1)
      if len = 3 then do
        let scale ← get data (i + 2)
        let capped := if scale < TCP_MAX_WSCALE then scale else TCP_MAX_WSCALE
        .ok (some (i + 3, { opts with windowScale := some capped }))
      else .ok none
    else .ok none
  else if kind = OPT_SACK_PERMITTED then
    if i + 1 < data.length then do
      let len ← get data (i + 1)
      if len = 2 then .ok (some (i + 2, { opts with sackPermitted := true })) else .ok none
    else .ok none
  else if kind = OPT_SACK then
    if i + 1 < data.length then do
      let len ← get data (i + 1)
      if 2 ≤ len.toNat ∧ i + len.toNat ≤ data.length ∧ (len.toNat - 2) % 8 = 0 then do
        let blocks ← parseSack data (i + len.toNat) len.toNat (i + 2) opts.sackBlocks
        .ok (some (i + len.toNat, { opts with sackBlocks := blocks }))
      else .ok none
    else .ok none
  else if kind = OPT_TIMESTAMP then
    if i + 10 ≤ data.length then do
      let len ← get data (i + 1)
      if len = 10 then do
        let ts ← be32 data (i + 2)
        let echo ← be32 data (i + 6)
        .ok (some (i + 10, { opts with timestamp := some ts, timestampEcho := some echo }))
      else .ok none
    else .ok none
  else
    -- an unknown option is skipped by its length
    if i + 1 < data.length then do
      let len ← get data (i + 1)
      if 2 ≤ len.toNat ∧ i + len.toNat ≤ data.length then .ok (some (i + len.toNat, opts)) else .ok none
    else .ok none

/-- The loop of `parse`. Every round moves `i` forward, so `data.length` rounds reach the end. -/
def parseLoop (data : List Byte) : Nat → Nat → TcpOptions → Checked TcpOptions
  | 0, _, opts => .ok opts
  | rounds + 1, i, opts =>
    if i < data.length then do
      let kind ← get data i
      match ← parseOption data kind i opts with
      | none => .ok opts
      | some (next, opts') => parseLoop data rounds next opts'
    else .ok opts

def parse (data : List Byte) : Checked TcpOptions := parseLoop data data.length 0 default

end TcpOptions

structure TcpHeader where
  srcPort : BitVec 16
  dstPort : BitVec 16
  seqNum : BitVec 32
  ackNum : BitVec 32
  dataOffsetReserved : Byte
  flags : Byte
  window : BitVec 16
  checksum : BitVec 16
  urgentPtr : BitVec 16
  deriving DecidableEq

namespace TcpHeader

/-- `none` is `NetError::InvalidArgument`. -/
def parse (data : List Byte) : Checked (Option TcpHeader) :=
  if data.length < TCP_HEADER_MIN_LEN then .ok none
  else do
    let srcPort ← be16 data 0
    let dstPort ← be16 data 2
    let seqNum ← be32 data 4
    let ackNum ← be32 data 8
    let dataOffsetReserved ← get data 12
    let flags ← get data 13
    let window ← be16 data 14
    let checksum ← be16 data 16
    let urgentPtr ← be16 data 18
    .ok (some
      { srcPort := srcPort, dstPort := dstPort, seqNum := seqNum, ackNum := ackNum,
        dataOffsetReserved := dataOffsetReserved, flags := flags, window := window, checksum := checksum,
        urgentPtr := urgentPtr })

def dataOffset (h : TcpHeader) : Nat := (h.dataOffsetReserved >>> 4).toNat * 4

/-- `flags & flag != 0` -/
def has (h : TcpHeader) (flag : Byte) : Bool := h.flags &&& flag != 0

end TcpHeader

structure TcpSegment where
  header : TcpHeader
  options : TcpOptions
  data : List Byte
  deriving DecidableEq

namespace TcpSegment

def parseOptions (data : List Byte) (headerLen : Nat) : Checked TcpOptions :=
  if TCP_HEADER_MIN_LEN < headerLen then slice data TCP_HEADER_MIN_LEN headerLen >>= TcpOptions.parse
  else .ok TcpOptions.default

def parsePayload (data : List Byte) (headerLen : Nat) : Checked (List Byte) :=
  if headerLen < data.length then slice data headerLen data.length else .ok []

def parse (data : List Byte) : Checked (Option TcpSegment) := do
  match ← TcpHeader.parse data with
  | none => .ok none
  | some header =>
    if data.length < header.dataOffset then .ok none
    else do
      let options ← parseOptions data header.dataOffset
      let payload ← parsePayload data header.dataOffset
      .ok (some { header := header, options := options, data := payload })

end TcpSegment

/-! ## Parsing does not panic -/

namespace TcpOptions

theorem parseSack_safe {data : List Byte} {stop : Nat} (h : stop ≤ data.length) (rounds j : Nat)
    (blocks : List (BitVec 32 × BitVec 32)) : (parseSack data stop rounds j blocks).Safe := by
  induction rounds generalizing j blocks with
  | zero => exact .ok
  | succ rounds ih =>
    unfold parseSack
    split
    · exact (be32_safe (by omega)).bind fun left => (be32_safe (by omega)).bind fun right => ih _ _
    · exact .ok

/-- An option with a length byte: `parse` breaks where the option does not fit, or has another length. -/
theorem sized_sat {data : List Byte} {i : Nat} {room : Prop} [Decidable room] {fits : Byte → Prop}
    [DecidablePred fits] {k : Byte → Checked (Option (Nat × TcpOptions))} {P : Option (Nat × TcpOptions) → Prop}
    (hbreak : P none) (hread : room → i + 1 < data.length) (hk : ∀ len, room → fits len → (k len).Sat P) :
    Sat (if room then get data (i + 1) >>= fun len => if fits len then k len else .ok none else .ok none) P := by
  refine .ite (fun hroom => ?_) (fun _ => Sat.ok hbreak)
  refine .bind (get_safe (hread hroom)) fun len _ => ?_
  exact .ite (hk len hroom) (fun _ => Sat.ok hbreak)

/-- Whatever stands at `i`, every read of a round is inside the buffer, and the next round starts further on. -/
theorem parseOption_sat (data : List Byte) (kind : Byte) (i : Nat) (opts : TcpOptions) :
    (parseOption data kind i opts).Sat (fun next => ∀ r, next = some r → i < r.1) := by
  have hbreak : ∀ r : Nat × TcpOptions, none = some r → i < r.1 := nofun
  have hnext : ∀ {n : Nat} {o : TcpOptions}, i < n →
      Sat (.ok (some (n, o))) (fun next : Option (Nat × TcpOptions) => ∀ r, next = some r → i < r.1) := by
    intro n o hlt
    refine .ok fun r h => ?_
    cases h
    exact hlt
  refine .ite (fun _ => Sat.ok hbreak) (fun _ => ?_)
  refine .ite (fun _ => hnext (by omega)) (fun _ => ?_)
  refine .ite (fun _ => sized_sat hbreak (by omega) fun len hroom _ => ?_) (fun _ => ?_)
  · exact .bind (be16_safe (by omega)) fun mss _ => hnext (by omega)
  refine .ite (fun _ => sized_sat hbreak (by omega) fun len hroom _ => ?_) (fun _ => ?_)
  · exact .bind (get_safe (by omega)) fun scale _ => hnext (by omega)
  refine .ite (fun _ => sized_sat hbreak id fun len _ _ => hnext (by omega)) (fun _ => ?_)
  refine .ite (fun _ => sized_sat hbreak id fun len _ hlen => ?_) (fun _ => ?_)
  · exact .bind (parseSack_safe hlen.2.1 _ _ _) fun blocks _ => hnext (by omega)
  refine .ite (fun _ => sized_sat hbreak (by omega) fun len hroom _ => ?_) (fun _ => ?_)
  · exact .bind (be32_safe (by omega)) fun ts _ => Sat.bind (be32_safe (by omega)) fun echo _ => hnext (by omega)
  exact sized_sat hbreak id fun len _ hlen => hnext (by omega)

theorem parseLoop_safe (data : List Byte) (rounds i : Nat) (opts : TcpOptions) :
    (parseLoop data rounds i opts).Safe := by
  induction rounds generalizing i opts with
  | zero => exact .ok
  | succ rounds ih =>
    unfold parseLoop
    split
    next hi =>
      refine (get_safe hi).bind fun kind => (parseOption_sat data kind i opts).safe.bind fun next => ?_
      cases next with
      | none => exact .ok
      | some r => exact ih r.1 r.2
    · exact .ok

end TcpOptions

theorem TcpHeader.parse_safe (data : List Byte) : (TcpHeader.parse data).Safe := by
  unfold parse
  split
  · exact .ok
  rename_i hlen
  have hmin : 20 ≤ data.length := not_lt.mp hlen
  refine (be16_safe (by omega)).bind fun _ => (be16_safe (by omega)).bind fun _ => ?_
  refine (be32_safe (by omega)).bind fun _ => (be32_safe (by omega)).bind fun _ => ?_
  refine (get_safe (by omega)).bind fun _ => (get_safe (by omega)).bind fun _ => ?_
  exact (be16_safe (by omega)).bind fun _ => (be16_safe (by omega)).bind fun _ =>
    (be16_safe (by omega)).bind fun _ => Safe.ok

/-- **Parsing a segment never reads outside it**, whatever bytes it is made of. -/
theorem TcpSegment.parse_safe (data : List Byte) : (TcpSegment.parse data).Safe := by
  refine (TcpHeader.parse_safe data).bind fun header => ?_
  cases header with
  | none => exact .ok
  | some header =>
    dsimp only
    split
    · exact .ok
    rename_i hlen
    have hfits : header.dataOffset ≤ data.length := not_lt.mp hlen
    have hoptions : (parseOptions data header.dataOffset).Safe := by
      unfold parseOptions
      split
      next hmin =>
        rw [slice_of_le (le_of_lt hmin) hfits]
        exact TcpOptions.parseLoop_safe _ _ _ _
      · exact .ok
    have hpayload : (parsePayload data header.dataOffset).Safe := by
      unfold parsePayload
      split
      · rw [slice_of_le hfits le_rfl]
        exact .ok
      · exact .ok
    exact hoptions.bind fun options => hpayload.bind fun payload => Safe.ok

end OxideOs.Tcp
