import OxideOs.Lib.Bytes

/-!
# `Tls.Record` — the record layer of the TLS client

The framing of records and their protection. AES-GCM is a parameter: `Aead` is the pair of operations of one key
length, with what the record layer relies on, that a ciphertext is 16 bytes longer than its plaintext and
decrypts to it under the same nonce and associated data. The length field of a record has 16 bits, and `encode`
writes whatever of the length fits: `decode_encode` needs a fragment below `2^16` bytes.
-/

namespace OxideOs.Tls

open List

inductive ContentType where
  | changeCipherSpec
  | alert
  | handshake
  | applicationData
  deriving DecidableEq

namespace ContentType

def code : ContentType → Byte
  | changeCipherSpec => 20
  | alert => 21
  | handshake => 22
  | applicationData => 23

def ofCode (b : Byte) : Option ContentType :=
  if b = 20 then some changeCipherSpec
  else if b = 21 then some alert
  else if b = 22 then some handshake
  else if b = 23 then some applicationData
  else none

@[simp] theorem ofCode_code (t : ContentType) : ofCode t.code = some t := by
  cases t <;> decide

theorem code_ne_zero (t : ContentType) : t.code ≠ 0 := by
  cases t <;> decide

end ContentType

def TLS_12 : BitVec 16 := 0x0303

def MAX_PLAINTEXT_LENGTH : Nat := 16384

def MAX_CIPHERTEXT_LENGTH : Nat := MAX_PLAINTEXT_LENGTH + 256

structure TlsRecord where
  contentType : ContentType
  legacyVersion : BitVec 16
  fragment : List Byte
  deriving DecidableEq

namespace TlsRecord

/-- The five bytes before a fragment of `len` bytes. -/
def header (contentType : ContentType) (version : BitVec 16) (len : Nat) : List Byte :=
  [contentType.code, (version >>> 8).setWidth 8, version.setWidth 8, BitVec.ofNat 8 (len >>> 8), BitVec.ofNat 8 len]

def encode (r : TlsRecord) : List Byte := header r.contentType r.legacyVersion r.fragment.length ++ r.fragment

/-- The record at the start of the data and the number of bytes it takes. -/
def decode : List Byte → Option (TlsRecord × Nat)
  | b0 :: b1 :: b2 :: b3 :: b4 :: rest =>
    match ContentType.ofCode b0 with
    | none => none
    | some contentType =>
      let version : BitVec 16 := b1.setWidth 16 <<< 8 ||| b2.setWidth 16
      let length := b3.toNat * 256 + b4.toNat
      if rest.length < length then none else some (⟨contentType, version, rest.take length⟩, 5 + length)
  | _ => none

/-- `TlsRecord::application_data` -/
def applicationData (data : List Byte) : TlsRecord := ⟨.applicationData, TLS_12, data⟩

/-- **What is encoded is decoded**, whatever follows, when its length fits the length field. -/
theorem decode_encode {data : List Byte} (h : data.length < 2 ^ 16) (rest : List Byte) :
    decode ((applicationData data).encode ++ rest) =
      some (applicationData data, (applicationData data).encode.length) := by
  have hlen : (BitVec.ofNat 8 (data.length >>> 8)).toNat * 256 + (BitVec.ofNat 8 data.length).toNat = data.length := by
    rw [BitVec.toNat_ofNat, BitVec.toNat_ofNat]
    omega
  have hnot : ¬(data ++ rest).length < data.length := by
    rw [length_append]
    omega
  have hwire : (applicationData data).encode ++ rest =
      ContentType.applicationData.code :: (TLS_12 >>> 8).setWidth 8 :: TLS_12.setWidth 8 ::
        BitVec.ofNat 8 (data.length >>> 8) :: BitVec.ofNat 8 data.length :: (data ++ rest) := rfl
  rw [hwire]
  unfold decode
  dsimp only
  rw [ContentType.ofCode_code]
  dsimp only
  rw [hlen, if_neg hnot, take_left, add_comm 5]
  rfl

end TlsRecord

/-- AES-GCM with one key length, as `oxide_crypto` provides it. -/
structure Aead where
  /-- Key, nonce, plaintext, associated data. -/
  encrypt : List Byte → List Byte → List Byte → List Byte → List Byte
  decrypt : List Byte → List Byte → List Byte → List Byte → Option (List Byte)
  length_encrypt : ∀ key nonce plaintext aad, (encrypt key nonce plaintext aad).length = plaintext.length + 16
  decrypt_encrypt : ∀ key nonce plaintext aad, decrypt key nonce (encrypt key nonce plaintext aad) aad = some plaintext

/-- The two ciphers a key can be for. -/
structure Ciphers where
  aes128 : Aead
  aes256 : Aead

/-- The key and the IV of one direction. -/
structure TrafficKeys where
  key : List Byte
  iv : List Byte
  keyLength : key.length = 16 ∨ key.length = 32
  ivLength : iv.length = 12

/-- The big-endian bytes of a sequence number. -/
def seqBytes (seq : Nat) : List Byte := (range 8).map (fun i => BitVec.ofNat 8 (seq >>> (8 * (7 - i))))

/-- The sequence number goes into the last eight bytes of the IV. -/
def buildNonce (iv : List Byte) (seq : Nat) : List Byte :=
  iv.take 4 ++ zipWith (fun a b => a ^^^ b) (iv.drop 4) (seqBytes seq)

/-- The header of the outer record, which the ciphertext is bound to. -/
def recordAad (len : Nat) : List Byte := TlsRecord.header .applicationData TLS_12 len

def encryptRecord (ciphers : Ciphers) (keys : TrafficKeys) (seq : Nat) (contentType : ContentType)
    (plaintext : List Byte) : List Byte :=
  let nonce := buildNonce keys.iv seq
  let inner := plaintext ++ [contentType.code]
  let aad := recordAad (inner.length + 16)
  if keys.key.length = 16 then ciphers.aes128.encrypt keys.key nonce inner aad
  else ciphers.aes256.encrypt (keys.key.take 32) nonce inner aad

/-- The place of the content type: the last byte that is not zero, or the first. -/
def contentTypeAt (inner : List Byte) : Nat → Nat
  | 0 => 0
  | k + 1 => if inner[k + 1]? = some 0 then contentTypeAt inner k else k + 1

def decryptRecord (ciphers : Ciphers) (keys : TrafficKeys) (seq : Nat) (fragment : List Byte) :
    Option (ContentType × List Byte) :=
  let nonce := buildNonce keys.iv seq
  let aad := recordAad fragment.length
  let opened :=
    if keys.key.length = 16 then ciphers.aes128.decrypt keys.key nonce fragment aad
    else ciphers.aes256.decrypt (keys.key.take 32) nonce fragment aad
  opened.bind (fun inner =>
    if inner.isEmpty then none
    else
      let last := contentTypeAt inner (inner.length - 1)
      (inner[last]?).bind (fun b => (ContentType.ofCode b).map (fun contentType => (contentType, inner.take last))))

theorem length_encryptRecord (ciphers : Ciphers) (keys : TrafficKeys) (seq : Nat) (contentType : ContentType)
    (plaintext : List Byte) :
    (encryptRecord ciphers keys seq contentType plaintext).length = plaintext.length + 17 := by
  unfold encryptRecord
  split
  all_goals
    rw [Aead.length_encrypt, length_append]
    rfl

/-- The type byte is not zero, so nothing of the plaintext is taken for padding. -/
theorem contentTypeAt_append (plaintext : List Byte) {b : Byte} (hb : b ≠ 0) :
    contentTypeAt (plaintext ++ [b]) plaintext.length = plaintext.length := by
  have hget : (plaintext ++ [b])[plaintext.length]? = some b := by simp
  cases hlen : plaintext.length with
  | zero => rfl
  | succ k =>
    rw [hlen] at hget
    unfold contentTypeAt
    rw [hget, if_neg (fun h => hb (Option.some.inj h))]

/-- **A record decrypts** to what was encrypted, under the same keys and sequence number. -/
theorem decryptRecord_encryptRecord (ciphers : Ciphers) (keys : TrafficKeys) (seq : Nat) (contentType : ContentType)
    (plaintext : List Byte) :
    decryptRecord ciphers keys seq (encryptRecord ciphers keys seq contentType plaintext) =
      some (contentType, plaintext) := by
  have hlen := length_encryptRecord ciphers keys seq contentType plaintext
  have hopen : (if keys.key.length = 16 then
        ciphers.aes128.decrypt keys.key (buildNonce keys.iv seq)
          (encryptRecord ciphers keys seq contentType plaintext) (recordAad (plaintext.length + 17))
      else ciphers.aes256.decrypt (keys.key.take 32) (buildNonce keys.iv seq)
        (encryptRecord ciphers keys seq contentType plaintext) (recordAad (plaintext.length + 17))) =
      some (plaintext ++ [contentType.code]) := by
    have hinner : (plaintext ++ [contentType.code]).length + 16 = plaintext.length + 17 := by
      rw [length_append]
      rfl
    unfold encryptRecord
    dsimp only
    rw [hinner]
    split
    · exact ciphers.aes128.decrypt_encrypt _ _ _ _
    · exact ciphers.aes256.decrypt_encrypt _ _ _ _
  unfold decryptRecord
  dsimp only
  rw [hlen, hopen, Option.bind_some]
  have hlast : (plaintext ++ [contentType.code]).length - 1 = plaintext.length := by simp
  rw [hlast, contentTypeAt_append plaintext contentType.code_ne_zero]
  simp

end OxideOs.Tls
