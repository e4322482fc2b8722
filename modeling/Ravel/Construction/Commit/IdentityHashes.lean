/-
This file models the byte strings that name things by their hash: the identity of a series, and the input sets of compactions,
superseding compactions and rewrites.
-/

import Ravel.Construction.Logs.CanonicalAttrs
import Ravel.Construction.Promql.Expressions

namespace Ravel.Commit

open Logs Promql

inductive TypeError where
  | oversizedSeriesComponent
  deriving DecidableEq, Repr

/-- The low bytes of a count, the least significant first. -/
def leBytes (width count : Nat) : List UInt8 :=
  (toLeBytes (UInt64.ofNat count)).take width

/-- A text behind its length. -/
def lenPrefixed (width : Nat) (text : String) : List UInt8 :=
  leBytes width (utf8Bytes text).length ++ utf8Bytes text

def pushLenPrefixed (buf : List UInt8) (s : String) : Except TypeError (List UInt8) :=
  if 2 ^ 16 ≤ (utf8Bytes s).length then .error .oversizedSeriesComponent
  else .ok (buf ++ lenPrefixed 2 s)

/-- The bytes that `SeriesId::compute` hashes. -/
def seriesPreimage (tenant metricName : String) (labels : LabelSet) : Except TypeError (List UInt8) := do
  let buf ← pushLenPrefixed (utf8Bytes "ravel-series-v1\x00") tenant
  let buf ← pushLenPrefixed buf metricName
  let hashed := labels.labels.filter fun label => label.1 ≠ metricNameLabel
  if 2 ^ 16 ≤ hashed.length then .error .oversizedSeriesComponent
  else
    hashed.foldlM (fun buf label => do
      let buf ← pushLenPrefixed buf label.1
      pushLenPrefixed buf label.2) (buf ++ leBytes 2 hashed.length)

structure CompactionInputIdentity where
  writerId : String
  writerEpoch : UInt64
  writerSeq : UInt64
  deriving DecidableEq, Repr

def updateInput (input : CompactionInputIdentity) : List UInt8 :=
  lenPrefixed 8 input.writerId ++ (toLeBytes input.writerEpoch ++ toLeBytes input.writerSeq)

/-- The identities behind their count. -/
def updateInputs (inputs : List CompactionInputIdentity) : List UInt8 :=
  leBytes 8 inputs.length ++ inputs.flatMap updateInput

/-- The texts behind their count. -/
def updateTexts (texts : List String) : List UInt8 :=
  leBytes 8 texts.length ++ texts.flatMap (lenPrefixed 8)

/-- The bytes that `compute_compaction_input_set_hash` hashes. -/
def compactionPreimage (inputs : List CompactionInputIdentity) : List UInt8 :=
  utf8Bytes "ravel-compaction-input-set-v1\x00" ++ updateInputs inputs

/-- The bytes that `compute_superseding_compaction_input_set_hash` hashes. -/
def supersedingPreimage (inputs : List CompactionInputIdentity) (supersededRecordKey : String) : List UInt8 :=
  utf8Bytes "ravel-compaction-input-set-v2-superseding\x00" ++ (updateInputs inputs ++ lenPrefixed 8 supersededRecordKey)

/-- The bytes that `compute_rewrite_input_set_hash` hashes. It panics unless exactly one of inputs and a key is given. -/
def rewritePreimage (inputs : List CompactionInputIdentity) (supersededRecordKey : Option String)
    (appliedRequestIds : List String) : Option (List UInt8) :=
  match inputs, supersededRecordKey.filter (· ≠ "") with
  | _ :: _, none =>
    some (utf8Bytes "ravel-rewrite-input-set-v1\x00" ++ 0 :: (updateInputs inputs ++ updateTexts appliedRequestIds))
  | [], some key =>
    some (utf8Bytes "ravel-rewrite-input-set-v1\x00" ++ 1 :: (lenPrefixed 8 key ++ updateTexts appliedRequestIds))
  | _, _ => none

end Ravel.Commit
