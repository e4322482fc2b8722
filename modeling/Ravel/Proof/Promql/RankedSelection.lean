import Mathlib
import Ravel.Construction.Promql.TopK
import Ravel.Library.OptionalRuns

namespace Ravel.Promql

open List Library

section Ranks

variable {isTop : Bool} {a b : UInt64}

/-- The place of a value in the order of the selection. A NaN is below every number. -/
def rank (isTop : Bool) (bits : UInt64) : WithBot Int :=
  (number bits).elim ⊥ fun value => ↑(if isTop then value else -value)

theorem rank_eq_bot : rank isTop a = ⊥ ↔ isNan a = true := by
  unfold rank isNan
  cases number a <;> simp

/-- The first value comes strictly before the second in the selection. Nothing comes before or after a NaN. -/
def above (isTop : Bool) (a b : UInt64) : Bool := if isTop then lessThan b a else lessThan a b

theorem rank_lt_of_above (isAbove : above isTop a b = true) : rank isTop b < rank isTop a := by
  unfold above lessThan partialCmp at isAbove
  unfold rank
  cases isTop <;> cases left : number a <;> cases right : number b <;> simp_all [compare_lt_iff_lt]

theorem heapLess_follows : Follows (fun left right : InstantSample => heapLess isTop left.value right.value)
    fun member => rank isTop member.value := by
  constructor
  · intro left right less
    unfold heapLess isNan lessThan partialCmp at less
    unfold rank
    cases isTop <;> cases first : number left.value <;> cases second : number right.value <;>
      simp_all [compare_lt_iff_lt, le_of_lt]
  · intro left right notLess
    unfold heapLess isNan lessThan partialCmp at notLess
    unfold rank
    cases isTop <;> cases first : number left.value <;> cases second : number right.value <;>
      simp_all [compare_lt_iff_lt]

section Numbers

variable (aNumber : isNan a = false) (bNumber : isNan b = false)

include aNumber bNumber

theorem compareResult_ne_gt : compareResult isTop a b ≠ .gt ↔ rank isTop b ≤ rank isTop a := by
  unfold compareResult
  rw [aNumber, bNumber]
  unfold isNan at aNumber bNumber
  unfold partialCmp rank
  cases isTop <;> cases left : number a <;> cases right : number b <;> simp_all [compare_le_iff_le]

theorem compareResult_swap : compareResult isTop b a = (compareResult isTop a b).swap := by
  unfold compareResult
  rw [aNumber, bNumber]
  unfold isNan at aNumber bNumber
  unfold partialCmp
  cases isTop <;> cases left : number a <;> cases right : number b <;> simp_all
  all_goals exact Std.OrientedCmp.eq_swap

end Numbers

end Ranks

section Selections

variable {isTop : Bool} {k : Nat} {members : InstantVector} {heap : Array InstantSample} {member : InstantSample}

/-- The heap holds as many of the members so far as it may, and none that is left out is better than one it holds. -/
structure Keeps (isTop : Bool) (k : Nat) (members : InstantVector) (heap : Array InstantSample) : Prop where
  ordered : HeapOrdered (keyAt (fun member : InstantSample => rank isTop member.value) heap)
  size : heap.size = min k members.length
  split : ∃ dropped, (heap.toList ++ dropped).Perm members ∧
    ∀ out ∈ dropped, ∀ kept ∈ heap.toList, rank isTop out.value ≤ rank isTop kept.value

theorem Keeps.offer (keeps : Keeps isTop k members heap) (positive : 0 < k) :
    Keeps isTop k (members ++ [member]) (offer isTop k heap member) := by
  obtain ⟨dropped, part, worse⟩ := keeps.split
  have size := keeps.size
  unfold Promql.offer
  dsimp only
  split
  · rename_i room
    have length := part.length_eq
    rw [length_append, Array.length_toList] at length
    have nothing : dropped = [] := length_eq_zero_iff.mp (by omega)
    have pushed := heapPush_perm (fun left right => heapLess isTop left.value right.value) heap member
    rw [nothing, append_nil] at part
    have whole := (pushed.trans (part.cons member)).trans (perm_append_singleton member members).symm
    refine ⟨heapPush_ordered heapLess_follows member keeps.ordered, ?_, [], ?_, ?_⟩
    · rw [← Array.length_toList, whole.length_eq, length_append, length_singleton]
      omega
    · rw [append_nil]
      exact whole
    · intro out none
      cases none
  · rename_i full
    split
    · rename_i empty
      rw [Array.getElem?_eq_none_iff] at empty
      omega
    · rename_i root isRoot
      have least {kept : InstantSample} (inside : kept ∈ heap.toList) : rank isTop root.value ≤ rank isTop kept.value :=
        keeps.ordered.root_le_of_mem isRoot inside
      split
      · rename_i less
        have popped := heapPop_perm (fun left right => heapLess isTop left.value right.value) isRoot
        have pushed := heapPush_perm (fun left right => heapLess isTop left.value right.value)
          (heapPop (fun left right => heapLess isTop left.value right.value) heap) member
        refine ⟨heapPush_ordered heapLess_follows member (heapPop_ordered heapLess_follows keeps.ordered), ?_,
          root :: dropped, ?_, ?_⟩
        · have sizes := pushed.length_eq.trans popped.length_eq
          rw [Array.length_toList, Array.length_toList] at sizes
          rw [sizes, length_append]
          omega
        · apply (pushed.append_right (root :: dropped)).trans
          rw [cons_append]
          apply ((perm_middle.trans (popped.append_right dropped)).trans part).cons member |>.trans
          exact (perm_append_singleton member members).symm
        · have below : ∀ out ∈ root :: dropped, rank isTop out.value ≤ rank isTop root.value := by
            intro out isOut
            rcases mem_cons.mp isOut with rfl | before
            · exact le_rfl
            · exact worse out before root (Array.mem_toList_iff.mpr (Array.mem_of_getElem? isRoot))
          intro out isOut kept inside
          apply (below out isOut).trans
          rcases mem_cons.mp (pushed.mem_iff.mp inside) with rfl | remains
          · exact heapLess_follows.le _ _ less
          · exact least (popped.mem_iff.mp (mem_cons_of_mem root remains))
      · rename_i notLess
        refine ⟨keeps.ordered, ?_, dropped ++ [member], ?_, ?_⟩
        · rw [length_append]
          omega
        · rw [← append_assoc]
          exact part.append_right _
        · intro out isOut kept inside
          rcases mem_append.mp isOut with before | isMember
          · exact worse out before kept inside
          · rw [mem_singleton.mp isMember]
            exact (heapLess_follows.ge _ _ (Bool.eq_false_of_not_eq_true notLess)).trans (least inside)

theorem keeps_foldl (positive : 0 < k) : Keeps isTop k members (members.foldl (Promql.offer isTop k) #[]) := by
  induction members using reverseRecOn with
  | nil =>
    refine ⟨fun child _ => ?_, (Nat.min_zero k).symm, [], .nil, fun out none => nomatch none⟩
    exact le_of_eq_of_le rfl le_top
  | append_singleton members member ih =>
    rw [foldl_concat]
    exact ih.offer positive

/-- What the members of a group come to: the best of them, as many as asked, with the NaNs last. -/
structure Selects (isTop : Bool) (k : Nat) (members selected : InstantVector) : Prop where
  count : selected.length = min k members.length
  part : ∃ dropped, (selected ++ dropped).Perm members ∧
    ∀ out ∈ dropped, ∀ kept ∈ selected, above isTop out.value kept.value = false
  nans : ∀ kept ∈ selected, isNan kept.value = true → (members.countP fun member => !isNan member.value) < k
  ordered : selected.Pairwise fun first second =>
    above isTop second.value first.value = false ∧ (isNan first.value = true → isNan second.value = true)
  /-- The comparison of the final sort is a total preorder on the values it is given. -/
  symmetric : ∀ first ∈ selected, ∀ second ∈ selected,
    compareResult isTop second.value first.value = (compareResult isTop first.value second.value).swap
  transitive : ∀ first ∈ selected, ∀ second ∈ selected, ∀ third ∈ selected,
    compareResult isTop first.value second.value ≠ .gt → compareResult isTop second.value third.value ≠ .gt →
      compareResult isTop first.value third.value ≠ .gt

variable {selected : InstantVector}

/-- A NaN stays only among too few numbers: everything left out is a NaN too. -/
theorem Keeps.numbers_lt (keeps : Keeps isTop k members heap) {kept : InstantSample} (inside : kept ∈ heap.toList)
    (isNaN : isNan kept.value = true) : (members.countP fun member => !isNan member.value) < k := by
  obtain ⟨dropped, part, worse⟩ := keeps.split
  have others : dropped.countP (fun member => !isNan member.value) = 0 := by
    rw [countP_eq_zero]
    intro out isOut
    have bottom := worse out isOut kept inside
    rw [rank_eq_bot.mpr isNaN, le_bot_iff, rank_eq_bot] at bottom
    simp [bottom]
  have fewer : heap.toList.countP (fun member => !isNan member.value) ≠ heap.toList.length := by
    rw [Ne, countP_eq_length]
    intro all
    simpa [isNaN] using all kept inside
  have bound := @countP_le_length _ (fun member => !isNan member.value) heap.toList
  have size := keeps.size
  rw [← part.countP_eq, countP_append, others]
  rw [Array.length_toList] at fewer bound
  omega

theorem sortHeapResult_ranked (numbers : ∀ kept ∈ heap.toList, isNan kept.value = false) :
    (sortHeapResult isTop heap).Pairwise fun first second => rank isTop second.value ≤ rank isTop first.value := by
  let ranked : InstantSample → InstantSample → Bool := fun first second =>
    decide (rank isTop second.value ≤ rank isTop first.value)
  have same : sortHeapResult isTop heap = heap.toList.mergeSort ranked := by
    have mapped := @map_mergeSort _ _ (fun left right : InstantSample =>
      decide (compareResult isTop left.value right.value ≠ .gt)) ranked id heap.toList fun left leftIn right rightIn =>
        decide_eq_decide.mpr (compareResult_ne_gt (numbers left leftIn) (numbers right rightIn))
    rwa [map_id, map_id] at mapped
  have sorted := @pairwise_mergeSort _ ranked ?_ ?_ heap.toList
  · rw [same]
    simpa [ranked] using sorted
  · intro first second third
    simpa [ranked] using fun former latter => le_trans latter former
  · intro first second
    simpa [ranked] using le_total _ _

theorem Keeps.selects (keeps : Keeps isTop k members heap)
    (few : (∀ member ∈ members, isNan member.value = false) ∨ k ≤ members.countP fun member => !isNan member.value) :
    Selects isTop k members (sortHeapResult isTop heap) := by
  have sorted : (sortHeapResult isTop heap).Perm heap.toList := mergeSort_perm _ _
  obtain ⟨dropped, part, worse⟩ := keeps.split
  have numbers : ∀ kept ∈ heap.toList, isNan kept.value = false := by
    intro kept inside
    rcases few with none | enough
    · exact none kept (part.mem_iff.mp (mem_append_left _ inside))
    · by_contra isNaN
      have fewer := keeps.numbers_lt inside (Bool.eq_true_of_not_eq_false isNaN)
      omega
  have held (kept : InstantSample) (inside : kept ∈ sortHeapResult isTop heap) : isNan kept.value = false :=
    numbers kept (sorted.mem_iff.mp inside)
  constructor
  · rw [sorted.length_eq, Array.length_toList, keeps.size]
  · refine ⟨dropped, (sorted.append_right dropped).trans part, ?_⟩
    intro out isOut kept inside
    rw [Bool.eq_false_iff]
    intro isAbove
    exact absurd (rank_lt_of_above isAbove) (worse out isOut kept (sorted.mem_iff.mp inside)).not_gt
  · intro kept inside isNaN
    rw [held kept inside] at isNaN
    cases isNaN
  · apply (sortHeapResult_ranked numbers).imp
    intro first second ranked
    refine ⟨?_, fun isNaN => ?_⟩
    · rw [Bool.eq_false_iff]
      intro isAbove
      exact absurd (rank_lt_of_above isAbove) ranked.not_gt
    · rw [rank_eq_bot.mpr isNaN, le_bot_iff, rank_eq_bot] at ranked
      exact ranked
  · intro first firstIn second secondIn
    exact compareResult_swap (held first firstIn) (held second secondIn)
  · intro first firstIn second secondIn third thirdIn former latter
    rw [compareResult_ne_gt (held _ ‹_›) (held _ ‹_›)] at former latter ⊢
    exact latter.trans former

/-- A comparison that orders the selection has met no NaN. -/
theorem Selects.number (selects : Selects isTop k members selected) {kept : InstantSample} (inside : kept ∈ selected) :
    isNan kept.value = false := by
  have symmetric := selects.symmetric kept inside kept inside
  by_contra isNaN
  rw [compareResult, if_pos (Bool.eq_true_of_not_eq_false isNaN)] at symmetric
  cases symmetric

theorem Selects.few (selects : Selects isTop k members selected) :
    (∀ member ∈ members, isNan member.value = false) ∨ k ≤ members.countP fun member => !isNan member.value := by
  obtain ⟨dropped, part, -⟩ := selects.part
  have all : selected.countP (fun member => !isNan member.value) = selected.length := by
    rw [countP_eq_length]
    intro kept inside
    rw [selects.number inside]
    rfl
  have count := part.countP_eq fun member : InstantSample => !isNan member.value
  rw [countP_append, all, selects.count] at count
  rcases Nat.le_total k members.length with full | short
  · exact .inr (by omega)
  · have every : members.countP (fun member => !isNan member.value) = members.length :=
      Nat.le_antisymm countP_le_length (by omega)
    rw [countP_eq_length] at every
    exact .inl fun member inside => by simpa using every member inside

end Selections

section Calls

variable {isTop : Bool} {kRaw : UInt64}

theorem asUsize_pos (isNumber : isNan kRaw = false) (least : lessThan kRaw oneBits = false) : 0 < asUsize kRaw := by
  have one : number oneBits = some (1023 * 2 ^ 52) := by decide
  cases read : number kRaw with
  | none => simp [isNan, read] at isNumber
  | some value =>
    have large : 1023 * 2 ^ 52 ≤ value := by
      simpa [lessThan, partialCmp, one, read, compare_lt_iff_lt] using least
    obtain ⟨unsigned, exponent⟩ : kRaw.toNat < 2 ^ 63 ∧ 1023 ≤ kRaw.toNat / 2 ^ 52 := by
      unfold number at read
      grind
    have scaled : 2 ^ (52 + 1023) ≤ (2 ^ 52 + kRaw.toNat % 2 ^ 52) * 2 ^ (kRaw.toNat / 2 ^ 52) := by
      rw [Nat.pow_add]
      exact Nat.mul_le_mul (Nat.le_add_right _ _) (Nat.pow_le_pow_right Nat.two_pos exponent)
    unfold asUsize
    rw [isNumber, if_neg (by simpa using unsigned)]
    exact lt_min (Nat.div_pos scaled (Nat.two_pow_pos 1075)) (by decide)

/-- A sample of one series. -/
def valueOf (series : String) (value : UInt64) : InstantSample :=
  ⟨⟨[("series", series)], pairwise_singleton _ _⟩, 0, 0, value⟩

end Calls

end Ravel.Promql
