/-
This file models `topk` and `bottomk`: the order of floats, the groups of a vector, and the heap of the best members of a group.
-/

import Ravel.Construction.Promql.Evaluation
import Ravel.Library.BinaryHeaps

namespace Ravel.Promql

open Library

/-- The number of a bit pattern, on a scale with the order of floats. Both zeros are the same number, and a NaN is none. -/
def number (bits : UInt64) : Option Int :=
  let magnitude : Nat := bits.toNat % 2 ^ 63
  if 0x7ff0000000000000 < magnitude then none
  else if bits.toNat < 2 ^ 63 then some magnitude
  else some (-magnitude)

def isNan (bits : UInt64) : Bool := (number bits).isNone

/-- `partial_cmp`: a NaN compares with nothing. -/
def partialCmp (a b : UInt64) : Option Ordering := do
  return compare (← number a) (← number b)

/-- `a < b` for floats. -/
def lessThan (a b : UInt64) : Bool := partialCmp a b = some .lt

/-- `as usize` drops the fraction and saturates at both ends. -/
def asUsize (bits : UInt64) : Nat :=
  if isNan bits ∨ 2 ^ 63 ≤ bits.toNat then 0
  else min ((2 ^ 52 + bits.toNat % 2 ^ 52) * 2 ^ (bits.toNat / 2 ^ 52) / 2 ^ 1075) (2 ^ 64 - 1)

/-- The labels that name the group of a sample. -/
def groupLabels (labels : LabelSet) (modifier : Option LabelModifier) : LabelSet :=
  let filtered := match modifier with
    | none => []
    | some (.include names) => labels.labels.filter fun label => names.contains label.1
    | some (.exclude names) => labels.labels.filter fun label => label.1 ≠ metricNameLabel && !names.contains label.1
  (LabelSet.new filtered).getD .empty

/-- A sample joins the group of its key, which opens after the others when it is new. -/
def joinGroup (key : LabelSet) (sample : InstantSample) :
    List (LabelSet × InstantVector) → List (LabelSet × InstantVector)
  | [] => [(key, [sample])]
  | group :: rest =>
    if group.1 = key then (group.1, group.2 ++ [sample]) :: rest else group :: joinGroup key sample rest

def groupBy (modifier : Option LabelModifier) (input : InstantVector) : List (LabelSet × InstantVector) :=
  input.foldl (fun groups sample => joinGroup (groupLabels sample.labels modifier) sample groups) []

/-- `a` is worse than `b`. A NaN is worse than every value, also than a NaN. -/
def heapLess (isTop : Bool) (a b : UInt64) : Bool :=
  if isTop then isNan a || lessThan a b else isNan a || lessThan b a

/-- The heap keeps its worst member at the root, where a better member takes its place. -/
def offer (isTop : Bool) (k : Nat) (heap : Array InstantSample) (member : InstantSample) : Array InstantSample :=
  let less := fun left right : InstantSample => heapLess isTop left.value right.value
  if heap.size < k then heapPush less heap member
  else
    match heap[0]? with
    -- The source indexes here. The heap is empty only for `k = 0`, which is refused before.
    | none => heap
    | some root => if less root member then heapPush less (heapPop less heap) member else heap

/-- The comparison of the final sort. -/
def compareResult (isTop : Bool) (a b : UInt64) : Ordering :=
  if isNan a then .gt
  else if isNan b then .lt
  else if isTop then (partialCmp b a).getD .eq
  else (partialCmp a b).getD .eq

def sortHeapResult (isTop : Bool) (heap : Array InstantSample) : InstantVector :=
  heap.toList.mergeSort fun left right => compareResult isTop left.value right.value ≠ .gt

/-- A returned sample has the labels and the value of its member. -/
def emitted (evalTsNs : Int) (member : InstantSample) : InstantSample :=
  ⟨member.labels, evalTsNs, evalTsNs, member.value⟩

/-- `topk` and `bottomk` over a vector of float samples. -/
def evalTopkBottomk (isTop : Bool) (kRaw : UInt64) (modifier : Option LabelModifier) (input : InstantVector)
    (evalTsNs : Int) : InstantVector :=
  if isNan kRaw || lessThan kRaw oneBits then []
  else
    (groupBy modifier input).flatMap fun group =>
      (sortHeapResult isTop (group.2.foldl (offer isTop (asUsize kRaw)) #[])).map (emitted evalTsNs)

end Ravel.Promql
