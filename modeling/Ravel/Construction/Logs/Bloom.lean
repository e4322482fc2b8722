/-
This file models the word tokenizer and the blocked bloom filter of a row block.
-/

import Ravel.Construction.Logs.Records

namespace Ravel.Logs

/-- What the model takes from the platform: BLAKE3, the Unicode tables of `char`,
the float product that sizes a filter, and the text of a float. -/
structure Platform where
  blake3 : Blake3
  isAlphanumeric : Char → Bool
  toLowercase : Char → List Char
  bloomTarget : Nat → Nat
  f64ToString : UInt64 → String

def tokenMaxBytes : Nat := 64

/-- The token read so far. A full token takes no further character. -/
structure TokenBuffer where
  bytes : List UInt8
  truncated : Bool

namespace TokenBuffer

def empty : TokenBuffer := ⟨[], false⟩

/-- The buffer as a token, unless it is empty. -/
def flush (buffer : TokenBuffer) : List (List UInt8) :=
  if buffer.bytes.isEmpty then [] else [buffer.bytes]

end TokenBuffer

def asciiTokens (buffer : List UInt8) : List Char → List (List UInt8)
  | [] => if buffer.isEmpty then [] else [buffer]
  | char :: rest =>
    if char.isAlphanum then
      asciiTokens (if buffer.length < tokenMaxBytes then buffer ++ utf8Bytes char.toLower.toString else buffer) rest
    else (if buffer.isEmpty then [] else [buffer]) ++ asciiTokens [] rest

/-- The lowercase characters of one character, until one does not fit. -/
def appendLowercase (platform : Platform) (buffer : TokenBuffer) : List Char → TokenBuffer
  | [] => buffer
  | char :: rest =>
    if platform.isAlphanumeric char then
      let encoded := utf8Bytes char.toString
      if tokenMaxBytes < buffer.bytes.length + encoded.length then { buffer with truncated := true }
      else appendLowercase platform { buffer with bytes := buffer.bytes ++ encoded } rest
    else appendLowercase platform buffer rest

def unicodeTokens (platform : Platform) (buffer : TokenBuffer) : List Char → List (List UInt8)
  | [] => buffer.flush
  | char :: rest =>
    if platform.isAlphanumeric char then
      unicodeTokens platform
        (if buffer.truncated then buffer else appendLowercase platform buffer (platform.toLowercase char)) rest
    else buffer.flush ++ unicodeTokens platform .empty rest

/-- The lowercase words of a text. -/
def tokens (platform : Platform) (text : String) : List (List UInt8) :=
  if text.toList.all fun char => char.toNat < 128 then asciiTokens [] text.toList
  else unicodeTokens platform .empty text.toList

/-- The hashes of a `(column, token)` key. -/
structure KeyHash where
  block : UInt64
  g1 : UInt64
  g2 : UInt64
  deriving DecidableEq

def littleEndianAt (digest : Vector UInt8 32) (start : Nat) : UInt64 :=
  littleEndian64 ((digest.toList.drop start).take 8)

def keyHash (platform : Platform) (seed : UInt64) (columnId : Nat) (token : List UInt8) : KeyHash :=
  let digest := platform.blake3 (toLeBytes seed ++ (toLeBytes (UInt64.ofNat columnId)).take 4 ++ token)
  { block := littleEndianAt digest 0
    g1 := littleEndianAt digest 8
    g2 := littleEndianAt digest 16 ||| 1 }

def bloomHashCount : Nat := 7

def bloomBlockBits : Nat := 512

/-- The bits of a key in a filter of `blockCount` blocks. -/
def probeBits (hash : KeyHash) (blockCount : Nat) : List Nat :=
  (List.range bloomHashCount).map fun index =>
    (hash.block.toNat % blockCount) * bloomBlockBits +
      (hash.g1 + UInt64.ofNat index * hash.g2).toNat % bloomBlockBits

/-- A finished filter: its size in bits and the bits that are set. -/
structure BloomFilter where
  seed : UInt64
  mBits : Nat
  bits : List Nat

/-- The filter of the staged keys. The size in bits is rounded up from the target. -/
def bloomFinishSized (platform : Platform) (size : Nat → Nat) (seed : UInt64) (staged : List (Nat × List UInt8)) :
    BloomFilter :=
  let hashes := (staged.map fun key => keyHash platform seed key.1 key.2).dedup
  let mBits := size (platform.bloomTarget hashes.length)
  { seed := seed
    mBits := mBits
    bits := hashes.flatMap fun hash => probeBits hash (mBits / bloomBlockBits) }

/-- The target in whole blocks. -/
def exactSize (target : Nat) : Nat :=
  (max target bloomBlockBits + (bloomBlockBits - 1)) / bloomBlockBits * bloomBlockBits

/-- `finish_exact` over the staged keys. -/
def bloomFinish (platform : Platform) (seed : UInt64) (staged : List (Nat × List UInt8)) : BloomFilter :=
  bloomFinishSized platform exactSize seed staged

/-- False is proof that the block has no such token in the column. -/
def BloomFilter.mayContain (platform : Platform) (filter : BloomFilter) (columnId : Nat) (token : List UInt8) : Bool :=
  (probeBits (keyHash platform filter.seed columnId token) (filter.mBits / bloomBlockBits)).all filter.bits.contains

def exactBloomMax : Nat := 64

/-- The word tokens of a text and, when it is short, the text itself. -/
def insertText (platform : Platform) (columnId : Nat) (bytes : List UInt8) : List (Nat × List UInt8) :=
  (match String.fromUTF8? bytes.toByteArray with
    | some text => (tokens platform text).map fun token => (columnId, token)
    | none => []) ++
  if bytes.length ≤ exactBloomMax then [(columnId, bytes)] else []

end Ravel.Logs
