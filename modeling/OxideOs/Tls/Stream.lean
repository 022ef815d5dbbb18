import OxideOs.Tls.Record

/-!
# `Tls.Stream` — sending on a TLS stream

`send` and `shutdown` of `TlsStream` over a socket that may fail or take only part of what it is given. A run of
calls leaves a log with one entry for each call: what was encrypted under which sequence number, the record, how
much of it the socket took and what the call reported. `peerReads` is the other end.

The code gives a sequence number up only when the socket has taken something, so a call that failed and a
`shutdown` leave theirs to the next call. It does not look at how much was taken, nor at how long the data is.
`Orderly` is what the callers and the socket must then do, and under it the stream is what it should be.
-/

namespace OxideOs.Tls

open List TlsRecord

inductive TlsError where
  | ioError (code : Int)
  | decryptionFailed
  deriving DecidableEq

/-- The sending half of a stream. -/
structure TlsStream where
  clientKeys : TrafficKeys
  clientSeq : Nat

/-- `Alert::warning(CloseNotify).encode()` -/
def closeNotify : List Byte := [1, 0]

namespace TlsStream

/-- The record that holds a plaintext. -/
def sealed (ciphers : Ciphers) (s : TlsStream) (contentType : ContentType) (data : List Byte) : List Byte :=
  (applicationData (encryptRecord ciphers s.clientKeys s.clientSeq contentType data)).encode

/-- `sent` is what the socket answers: an error, or the number of bytes it took. The last component is what the
    socket was given. -/
def send (ciphers : Ciphers) (s : TlsStream) (data : List Byte) (sent : Int) :
    Checked (Except TlsError Nat × TlsStream × List Byte) := do
  let ciphertext := encryptRecord ciphers s.clientKeys s.clientSeq .applicationData data
  if ciphertext.isEmpty then return (.error .decryptionFailed, s, [])
  let wire := (applicationData ciphertext).encode
  if sent < 0 then return (.error (.ioError sent), s, wire)
  let clientSeq ← Checked.add s.clientSeq 1
  return (.ok data.length, { s with clientSeq }, wire)

/-- `shutdown` does not look at the answer of the socket, and leaves the sequence number as it is. -/
def shutdown (ciphers : Ciphers) (s : TlsStream) (_sent : Int) : Except TlsError Unit × TlsStream × List Byte :=
  let ciphertext := encryptRecord ciphers s.clientKeys s.clientSeq .alert closeNotify
  let wire := if ciphertext.isEmpty then [] else (applicationData ciphertext).encode
  (.ok (), s, wire)

end TlsStream

/-- A call, with the answer of the socket to it. -/
inductive Call where
  | send (data : List Byte) (sock : Int)
  | shutdown (sock : Int)

namespace Call

def contentType : Call → ContentType
  | send _ _ => .applicationData
  | shutdown _ => .alert

def data : Call → List Byte
  | send data _ => data
  | shutdown _ => closeNotify

def sock : Call → Int
  | send _ sock => sock
  | shutdown sock => sock

/-- What is encrypted by a call. -/
def plain (c : Call) : ContentType × List Byte := (c.contentType, c.data)

end Call

/-- What a call did. -/
structure Entry where
  seq : Nat
  plain : ContentType × List Byte
  wire : List Byte
  taken : Nat
  reported : List Byte

/-- One call: its entry and the stream after it. -/
def Call.step (ciphers : Ciphers) (s : TlsStream) (c : Call) : Checked (Entry × TlsStream) :=
  match c with
  | .send data sock => do
    let (result, s', wire) ← s.send ciphers data sock
    let reported := match result with
      | .ok n => data.take n
      | .error _ => []
    return (⟨s.clientSeq, c.plain, wire, sock.toNat, reported⟩, s')
  | .shutdown sock =>
    let (_, s', wire) := s.shutdown ciphers sock
    .ok (⟨s.clientSeq, c.plain, wire, sock.toNat, []⟩, s')

def runCalls (ciphers : Ciphers) : TlsStream → List Call → Checked (List Entry × TlsStream)
  | s, [] => .ok ([], s)
  | s, c :: calls => do
    let (e, s₁) ← c.step ciphers s
    let (es, s₂) ← runCalls ciphers s₁ calls
    return (e :: es, s₂)

/-- The bytes the socket took. -/
def wireOf (es : List Entry) : List Byte := es.flatMap (fun e => e.wire.take e.taken)

/-- The bytes that were reported as sent. -/
def reportedOf (es : List Entry) : List Byte := es.flatMap Entry.reported

/-- **A conforming peer** takes record after record with the next sequence number, and stops at an alert or at
    a record it cannot accept. -/
def peerReads (ciphers : Ciphers) (keys : TrafficKeys) : Nat → Nat → List Byte → List Byte
  | 0, _, _ => []
  | fuel + 1, seq, wire =>
    match decode wire with
    | none => []
    | some (r, n) =>
      if MAX_CIPHERTEXT_LENGTH < r.fragment.length then []
      else
        match decryptRecord ciphers keys seq r.fragment with
        | some (.applicationData, data) => data ++ peerReads ciphers keys fuel (seq + 1) (wire.drop n)
        | some (.handshake, _) => peerReads ciphers keys fuel (seq + 1) (wire.drop n)
        | _ => []

/-! ## What callers and socket must do -/

/-- The data fits a record, and the socket fails or takes the whole record. -/
def Call.Fits (c : Call) : Prop :=
  c.data.length ≤ MAX_PLAINTEXT_LENGTH ∧ (c.sock < 0 ∨ c.sock = ((c.data.length + 22 : Nat) : Int))

/-- What has been encrypted under the sequence number that a call leaves to the next. -/
def Call.left : Call → Option (ContentType × List Byte)
  | .send data sock => if sock < 0 then some (.applicationData, data) else none
  | .shutdown _ => some (.alert, closeNotify)

/-- A sequence number that was left over is used again for the same plaintext only: a `send` that failed is
    repeated with the same data, and nothing but another `shutdown` follows a `shutdown`. -/
def Orderly : Option (ContentType × List Byte) → List Call → Prop
  | _, [] => True
  | used, c :: calls => c.Fits ∧ (∀ plain, used = some plain → c.plain = plain) ∧ Orderly c.left calls

/-! ## One call -/

section

variable (ciphers : Ciphers)

variable {s : TlsStream} {c : Call} {e : Entry} {calls : List Call}

theorem length_sealed (s : TlsStream) (contentType : ContentType) (data : List Byte) :
    (s.sealed ciphers contentType data).length = data.length + 22 := by
  show (encryptRecord ciphers s.clientKeys s.clientSeq contentType data).length + 5 = _
  rw [length_encryptRecord]

/-- What an entry says of the call it is for. -/
structure Logged (s : TlsStream) (c : Call) (e : Entry) : Prop where
  seq : e.seq = s.clientSeq
  plain : e.plain = c.plain
  wire : e.wire = s.sealed ciphers c.contentType c.data
  taken : e.taken = c.sock.toNat

/-- How a call ends: a `send` that went through reports its data and takes the sequence number; every other call
    reports nothing and leaves it. -/
inductive Outcome (s : TlsStream) (c : Call) (e : Entry) (s' : TlsStream) : Prop where
  | sent (hleft : c.left = none) (htype : c.contentType = .applicationData) (hsock : 0 ≤ c.sock)
      (hseq : s'.clientSeq = s.clientSeq + 1) (hreported : e.reported = c.data)
  | kept (hleft : c.left = some c.plain) (hsame : s' = s) (hreported : e.reported = [])
      (hwhy : c.sock < 0 ∨ c.contentType = .alert)

/-- **A call** that fits is logged. -/
theorem step_spec (hfit : c.Fits) (hseq : s.clientSeq + 1 < 2 ^ 64) :
    ∃ e s', c.step ciphers s = .ok (e, s') ∧ Logged ciphers s c e ∧
      s'.clientKeys = s.clientKeys ∧ Outcome s c e s' := by
  have hne : ∀ t data, (encryptRecord ciphers s.clientKeys s.clientSeq t data).isEmpty = false := by
    intro t data
    have hlen := length_encryptRecord ciphers s.clientKeys s.clientSeq t data
    cases hc : encryptRecord ciphers s.clientKeys s.clientSeq t data with
    | nil =>
      rw [hc] at hlen
      cases hlen
    | cons b rest => rfl
  cases c with
  | shutdown sock =>
    refine ⟨_, s, rfl, ⟨rfl, rfl, ?_, rfl⟩, rfl, .kept rfl rfl rfl (.inr rfl)⟩
    rw [hne]
    rfl
  | send data sock =>
    by_cases hneg : sock < 0
    · have hsend : s.send ciphers data sock =
          .ok (.error (.ioError sock), s, s.sealed ciphers .applicationData data) := by
        unfold TlsStream.send
        dsimp only
        rw [hne, if_pos hneg]
        rfl
      unfold Call.step
      dsimp only
      rw [hsend]
      exact ⟨_, s, rfl, ⟨rfl, rfl, rfl, rfl⟩, rfl, .kept (if_pos hneg) rfl rfl (.inl hneg)⟩
    have hsend : s.send ciphers data sock = .ok (.ok data.length, { s with clientSeq := s.clientSeq + 1 },
        s.sealed ciphers .applicationData data) := by
      unfold TlsStream.send Checked.add
      dsimp only
      rw [hne, if_neg hneg, if_pos hseq]
      rfl
    unfold Call.step
    dsimp only
    rw [hsend]
    exact ⟨_, _, rfl, ⟨rfl, rfl, rfl, rfl⟩, rfl, .sent (if_neg hneg) rfl (not_lt.mp hneg) rfl take_length⟩

section

variable (hlog : Logged ciphers s c e) (hfit : c.Fits)
include hlog hfit

/-- A record that fits is decoded again, whatever follows it. -/
theorem Logged.decode (rest : List Byte) :
    decode (e.wire ++ rest) = some (applicationData
      (encryptRecord ciphers s.clientKeys s.clientSeq c.contentType c.data), e.wire.length) := by
  rw [hlog.wire]
  refine decode_encode ?_ rest
  have hlen : c.data.length ≤ 16384 := hfit.1
  rw [length_encryptRecord]
  omega

/-- The socket takes the whole record, or nothing of it. -/
theorem Logged.take_taken : e.wire.take e.taken = if c.sock < 0 then [] else e.wire := by
  rw [hlog.taken]
  split
  next hneg =>
    rw [Int.toNat_of_nonpos (le_of_lt hneg), take_zero]
  rename_i hpos
  refine take_of_length_le ?_
  rw [hlog.wire, length_sealed, hfit.2.resolve_left hpos]
  exact le_of_eq rfl

/-- The peer takes the record of a `send` and goes on. -/
theorem peerReads_send (fuel : Nat) (rest : List Byte) :
    peerReads ciphers s.clientKeys (fuel + 1) s.clientSeq (e.wire ++ rest) =
      match c.contentType with
      | .applicationData => c.data ++ peerReads ciphers s.clientKeys fuel (s.clientSeq + 1) rest
      | .handshake => peerReads ciphers s.clientKeys fuel (s.clientSeq + 1) rest
      | _ => [] := by
  have hsmall : ¬MAX_CIPHERTEXT_LENGTH < (applicationData
      (encryptRecord ciphers s.clientKeys s.clientSeq c.contentType c.data)).fragment.length := by
    show ¬16384 + 256 < (encryptRecord ciphers s.clientKeys s.clientSeq c.contentType c.data).length
    have hlen : c.data.length ≤ 16384 := hfit.1
    rw [length_encryptRecord]
    omega
  conv_lhs => unfold peerReads
  rw [hlog.decode ciphers hfit rest]
  dsimp only
  rw [if_neg hsmall]
  have hopen : decryptRecord ciphers s.clientKeys s.clientSeq (applicationData
      (encryptRecord ciphers s.clientKeys s.clientSeq c.contentType c.data)).fragment = some (c.contentType, c.data) :=
    decryptRecord_encryptRecord ..
  rw [hopen, drop_left]
  cases c.contentType <;> rfl

end

/-! ## Whole runs -/

/-- What a log says: sequence numbers from `seq` on, one plaintext for each, records that hold their plaintext,
    and a peer that reads what was reported. -/
structure Sound (keys : TrafficKeys) (seq : Nat) (used : Option (ContentType × List Byte))
    (es : List Entry) : Prop where
  from_seq : ∀ e ∈ es, seq ≤ e.seq
  same : ∀ e ∈ es, e.seq = seq → ∀ plain, used = some plain → e.plain = plain
  once : ∀ e ∈ es, ∀ e' ∈ es, e.seq = e'.seq → e.plain = e'.plain
  framed : ∀ e ∈ es, e.plain.2.length ≤ MAX_PLAINTEXT_LENGTH ∧ ∃ r, decode e.wire = some (r, e.wire.length) ∧
    decryptRecord ciphers keys e.seq r.fragment = some e.plain
  reads : ∀ fuel, (wireOf es).length ≤ fuel → peerReads ciphers keys fuel seq (wireOf es) = reportedOf es

theorem sound_nil (keys : TrafficKeys) (seq : Nat) (used : Option (ContentType × List Byte)) :
    Sound ciphers keys seq used [] := by
  refine ⟨nofun, nofun, nofun, nofun, fun fuel _ => ?_⟩
  cases fuel with
  | zero | succ fuel => rfl

/-- Once the stream is shut down nothing is reported any more. -/
theorem reported_of_shutdown {s' : TlsStream} {es : List Entry}
    (ho : Orderly (some (.alert, closeNotify)) calls) (h : runCalls ciphers s calls = .ok (es, s')) :
    reportedOf es = [] := by
  induction calls generalizing s es with
  | nil =>
    cases h
    rfl
  | cons c calls ih =>
    obtain ⟨-, hsame, ho'⟩ := ho
    cases c with
    | send data sock =>
      have hplain := congrArg Prod.fst (hsame _ rfl)
      cases hplain
    | shutdown sock =>
      change (do let (es, s₂) ← runCalls ciphers s calls; pure (_ :: es, s₂)) = _ at h
      cases hrun : runCalls ciphers s calls with
      | error p =>
        rw [hrun] at h
        cases h
      | ok r =>
        obtain ⟨es', s₂⟩ := r
        rw [hrun] at h
        cases h
        show [] ++ reportedOf es' = []
        exact ih ho' hrun

section

variable {es : List Entry} {s₁ s₂ : TlsStream} (ho : Outcome s c e s₁) (hlog : Logged ciphers s c e) (hfit : c.Fits)
include ho hlog hfit

/-- What the peer reads, from this call on. -/
theorem Outcome.reads (horder : Orderly c.left calls) (hrun : runCalls ciphers s₁ calls = .ok (es, s₂))
    (hs : ∀ fuel, (wireOf es).length ≤ fuel →
      peerReads ciphers s.clientKeys fuel s₁.clientSeq (wireOf es) = reportedOf es)
    (fuel : Nat) (hfuel : (wireOf (e :: es)).length ≤ fuel) :
    peerReads ciphers s.clientKeys fuel s.clientSeq (wireOf (e :: es)) = reportedOf (e :: es) := by
  have hwire : wireOf (e :: es) = e.wire.take e.taken ++ wireOf es := flatMap_cons
  have hrep : reportedOf (e :: es) = e.reported ++ reportedOf es := flatMap_cons
  -- a record on the wire is read in one turn of the peer's loop
  have hpeer : 0 ≤ c.sock → ∃ k, (wireOf es).length ≤ k ∧ fuel = k + 1 := by
    intro hpos
    rw [hwire, hlog.take_taken ciphers hfit, if_neg (not_lt.mpr hpos), length_append, hlog.wire, length_sealed] at hfuel
    exact ⟨fuel - 1, by omega, by omega⟩
  rw [hwire, hlog.take_taken ciphers hfit] at hfuel ⊢
  rw [hrep]
  cases ho with
  | sent hleft htype hsock hseq hreported =>
    obtain ⟨k, hk, rfl⟩ := hpeer hsock
    rw [if_neg (not_lt.mpr hsock), peerReads_send ciphers hlog hfit, htype, hreported, ← hseq]
    rw [hs k hk]
  | kept hleft hsame hreported hwhy =>
    subst hsame
    rw [hreported, nil_append]
    by_cases hneg : c.sock < 0
    · rw [if_pos hneg] at hfuel ⊢
      exact hs fuel hfuel
    -- the peer stops at the alert, and only further alerts follow it
    have halert := hwhy.resolve_left hneg
    have hplain : c.plain = (.alert, closeNotify) := by
      cases c with
      | send data sock => cases halert
      | shutdown sock => rfl
    rw [hleft, hplain] at horder
    obtain ⟨k, -, rfl⟩ := hpeer (not_lt.mp hneg)
    rw [if_neg hneg, peerReads_send ciphers hlog hfit, halert, reported_of_shutdown ciphers horder hrun]

/-- **One more call** in front of a sound run. -/
theorem Sound.cons {used : Option (ContentType × List Byte)}
    (hsame : ∀ plain, used = some plain → c.plain = plain) (horder : Orderly c.left calls)
    (hrun : runCalls ciphers s₁ calls = .ok (es, s₂)) (hs : Sound ciphers s.clientKeys s₁.clientSeq c.left es) :
    Sound ciphers s.clientKeys s.clientSeq used (e :: es) := by
  have hle : s.clientSeq ≤ s₁.clientSeq := by
    cases ho with
    | sent hleft htype hsock hseq => omega
    | kept hleft hsame => rw [hsame]
  -- a later entry with the sequence number of this call - its plaintext
  have hagain : ∀ e' ∈ es, e'.seq = s.clientSeq → e'.plain = c.plain := by
    intro e' he' hs'
    cases ho with
    | sent hleft htype hsock hseq =>
      have := hs.from_seq e' he'
      omega
    | kept hleft hsame => exact hs.same e' he' (by rw [hs', hsame]) c.plain hleft
  constructor
  · exact forall_mem_cons.mpr ⟨hlog.seq.ge, fun e' he' => hle.trans (hs.from_seq e' he')⟩
  · intro e' he' hs' plain hused
    rw [← hsame plain hused]
    rcases mem_cons.mp he' with rfl | he'
    · exact hlog.plain
    · exact hagain e' he' hs'
  · intro e1 h1 e2 h2 heq
    rcases mem_cons.mp h1 with he1 | hm1 <;> rcases mem_cons.mp h2 with he2 | hm2
    · rw [he1, he2]
    · rw [he1, hlog.plain, hagain e2 hm2 (by rw [← heq, he1, hlog.seq])]
    · rw [he2, hlog.plain, hagain e1 hm1 (by rw [heq, he2, hlog.seq])]
    · exact hs.once e1 hm1 e2 hm2 heq
  · refine forall_mem_cons.mpr ⟨?_, hs.framed⟩
    have hdec := hlog.decode ciphers hfit []
    rw [append_nil] at hdec
    rw [hlog.plain, hlog.seq]
    exact ⟨hfit.1, _, hdec, decryptRecord_encryptRecord ..⟩
  · exact ho.reads ciphers hlog hfit horder hrun hs.reads

end

/-- **A run** of orderly calls is sound. The induction is on the calls, with the plaintext that was encrypted
    under the current sequence number. -/
theorem runCalls_sound {used : Option (ContentType × List Byte)}
    (ho : Orderly used calls) (hlen : s.clientSeq + calls.length < 2 ^ 64) :
    ∃ es s', runCalls ciphers s calls = .ok (es, s') ∧ Sound ciphers s.clientKeys s.clientSeq used es := by
  induction calls generalizing s used with
  | nil => exact ⟨[], s, rfl, sound_nil ciphers _ _ _⟩
  | cons c calls ih =>
    obtain ⟨hfit, hsame, horder⟩ := ho
    rw [length_cons] at hlen
    obtain ⟨e, s₁, hstep, hlog, hkeys, ho⟩ := step_spec ciphers (s := s) hfit (by omega)
    have hseq : s₁.clientSeq ≤ s.clientSeq + 1 := by
      cases ho with
      | sent hleft _ _ hseq => exact le_of_eq hseq
      | kept hleft hsame =>
        rw [hsame]
        exact Nat.le_succ _
    obtain ⟨es, s₂, hrun, hs⟩ := ih (s := s₁) horder (by omega)
    rw [hkeys] at hs
    refine ⟨e :: es, s₂, ?_, hs.cons ciphers ho hlog hfit hsame horder hrun⟩
    unfold runCalls
    rw [hstep]
    show (do let (es, s₂) ← runCalls ciphers s₁ calls; pure (e :: es, s₂)) = _
    rw [hrun]
    rfl

/-- **The record stream.** For every list of calls and answers of the socket that is orderly, from a fresh stream
    and short of `2^64` calls: no sequence number is used for two plaintexts, every record holds at most `2^14`
    bytes and says its length, and what a conforming peer reads is what the calls reported as sent. -/
theorem record_stream (keys : TrafficKeys) {calls : List Call} (ho : Orderly none calls)
    (hlen : calls.length < 2 ^ 64) :
    ∃ es s', runCalls ciphers ⟨keys, 0⟩ calls = .ok (es, s') ∧
      (∀ e ∈ es, ∀ e' ∈ es, e.seq = e'.seq → e.plain = e'.plain) ∧
      (∀ e ∈ es, e.plain.2.length ≤ 2 ^ 14 ∧ ∃ r, TlsRecord.decode e.wire = some (r, e.wire.length) ∧
        decryptRecord ciphers keys e.seq r.fragment = some e.plain) ∧
      peerReads ciphers keys (wireOf es).length 0 (wireOf es) = reportedOf es := by
  obtain ⟨es, s', hrun, hs⟩ := runCalls_sound ciphers (s := ⟨keys, 0⟩) ho (by show 0 + _ < _; omega)
  exact ⟨es, s', hrun, hs.once, hs.framed, hs.reads _ le_rfl⟩

end

/-- Sixteen bytes of a sum over all that a tag depends on. -/
def tagOf (key nonce plaintext aad : List Byte) : List Byte :=
  let sum := (key ++ nonce ++ plaintext ++ aad).foldl (fun n b => (257 * n + b.toNat + 1) % 2 ^ 128) 0
  (range 16).map (fun i => BitVec.ofNat 8 (sum >>> (8 * i)))

/-- A cipher that hides nothing, but takes back only what was sealed with its tag. -/
def clear : Aead where
  encrypt key nonce plaintext aad := plaintext ++ tagOf key nonce plaintext aad
  decrypt key nonce ciphertext aad :=
    let plaintext := ciphertext.take (ciphertext.length - 16)
    if ciphertext.drop (ciphertext.length - 16) = tagOf key nonce plaintext aad then some plaintext else none
  length_encrypt key nonce plaintext aad := by
    rw [length_append, tagOf, length_map, length_range]
  decrypt_encrypt key nonce plaintext aad := by
    have hlen : (plaintext ++ tagOf key nonce plaintext aad).length - 16 = plaintext.length := by
      rw [length_append, tagOf, length_map, length_range, Nat.add_sub_cancel]
    dsimp only
    rw [hlen, take_left, drop_left, if_pos rfl]

def zeroKeys : TrafficKeys := ⟨replicate 16 0, replicate 12 0, Or.inl rfl, rfl⟩

/-- A `send` that fails and is repeated, another one, and the end of the stream. -/
theorem record_stream_retry :
    ∃ es s', runCalls ⟨clear, clear⟩ ⟨zeroKeys, 0⟩ [.send [7, 8] (-11), .send [7, 8] 24, .send [9] 23, .shutdown 24] =
        .ok (es, s') ∧ peerReads ⟨clear, clear⟩ zeroKeys (wireOf es).length 0 (wireOf es) = reportedOf es := by
  have ho : Orderly none [.send [7, 8] (-11), .send [7, 8] 24, .send [9] 23, .shutdown 24] := by
    refine ⟨⟨by decide, by decide⟩, nofun, ⟨by decide, by decide⟩, fun plain h => ?_, ⟨by decide, by decide⟩, nofun,
      ⟨by decide, by decide⟩, nofun, trivial⟩
    cases h
    rfl
  obtain ⟨es, s', hrun, -, -, hreads⟩ := record_stream ⟨clear, clear⟩ zeroKeys ho (by decide)
  exact ⟨es, s', hrun, hreads⟩

/-- What the calls of a run encrypted under which sequence number, and whether the peer reads what was reported. -/
def observed (calls : List Call) : Option (List (Nat × ContentType × List Byte) × Bool) :=
  match runCalls ⟨clear, clear⟩ ⟨zeroKeys, 0⟩ calls with
  | .error _ => none
  | .ok (es, _) => some (es.map (fun e => (e.seq, e.plain)),
      decide (peerReads ⟨clear, clear⟩ zeroKeys (wireOf es).length 0 (wireOf es) = reportedOf es))

/-- **A sequence number is used twice** by a `send` after a `shutdown`, and by a `send` after one that failed;
    and what the socket has not taken is reported as sent. -/
theorem sequence_number_reused :
    observed [.shutdown 24, .send [7] 23] = some ([(0, .alert, [1, 0]), (0, .applicationData, [7])], false) ∧
      observed [.send [7] (-11), .send [8] 23] =
        some ([(0, .applicationData, [7]), (0, .applicationData, [8])], true) ∧
      observed [.send [7] 10] = some ([(0, .applicationData, [7])], false) := by
  refine ⟨?_, ?_, ?_⟩ <;> decide +kernel

end OxideOs.Tls
