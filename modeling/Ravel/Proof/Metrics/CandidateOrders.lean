import Ravel.Proof.Metrics.RunMerge

namespace Ravel.Metrics

/-- A chained comparison is greater at the first difference. -/
theorem then_compare_eq_gt_iff {Key : Type} [LinearOrder Key] (left right : Key) (next : Ordering) :
    (compare left right).then next = .gt ↔ right < left ∨ left = right ∧ next = .gt := by
  rw [Ordering.then_eq_gt, compare_gt_iff_gt, compare_eq_iff_eq]

/-- A priority is determined by its tuple. -/
theorem SamplePriority.key_injective : Function.Injective SamplePriority.key := by
  intro left right same
  cases left
  cases right
  simpa [SamplePriority.key, Prod.ext_iff] using same

/-- The scalar comparison is the order of the priority and then of the value bits. -/
def scalarOrder : CandidateOrder UInt64 ((Int ×ₗ Nat ×ₗ Nat ×ₗ Nat) ×ₗ Nat) where
  greater := isGreater
  key candidate := toLex (candidate.priority.key, candidate.value.toNat)
  greater_iff left right := by
    rw [isGreater, servesOver, beq_iff_eq, SamplePriority.compare]
    simp only [Ordering.then_assoc, then_compare_eq_gt_iff, compare_gt_iff_gt, SamplePriority.key,
      Prod.Lex.toLex_lt_toLex, EmbeddingLike.apply_eq_iff_eq, Prod.mk.injEq]
    omega
  injective := by
    intro left right same
    simp only [EmbeddingLike.apply_eq_iff_eq, Prod.mk.injEq] at same
    obtain ⟨samePriority, sameBits⟩ := same
    cases left
    cases right
    simp only [Candidate.mk.injEq]
    exact ⟨UInt64.toNat_inj.mp sameBits, SamplePriority.key_injective samePriority⟩

/-- An injective key of values gives an injective key of optional values. -/
theorem optionKey_injective {Value Key : Type} {key : Value → Key} (injective : Function.Injective key) :
    Function.Injective (optionKey key) := by
  intro left right same
  cases left with
  | none =>
    cases right with
    | none => rfl
    | some value => exact absurd same (WithBot.bot_ne_coe)
  | some first =>
    cases right with
    | none => exact absurd same (WithBot.coe_ne_bot)
    | some second => rw [injective (WithBot.coe_injective same)]

/-- Bit patterns are determined by their numbers. -/
theorem map_toNat_injective : Function.Injective (List.map UInt64.toNat) :=
  List.map_injective_iff.mpr fun _ _ same => UInt64.toNat_inj.mp same

theorem spansSortKey_injective : Function.Injective spansSortKey := by
  refine List.map_injective_iff.mpr ?_
  intro left right same
  cases left
  cases right
  simpa [Prod.ext_iff] using same

/-- Counts of one variant are determined by their key. -/
theorem countsKey_inj {zeroFirst countFirst zeroSecond countSecond : UInt64}
    {positiveFirst negativeFirst positiveSecond negativeSecond : List UInt64}
    (same : countsKey zeroFirst countFirst positiveFirst negativeFirst =
      countsKey zeroSecond countSecond positiveSecond negativeSecond) :
    zeroFirst = zeroSecond ∧ countFirst = countSecond ∧ positiveFirst = positiveSecond ∧
      negativeFirst = negativeSecond := by
  simp only [countsKey, EmbeddingLike.apply_eq_iff_eq, Prod.mk.injEq] at same
  obtain ⟨zeroCount, count, positive, negative⟩ := same
  exact ⟨UInt64.toNat_inj.mp zeroCount, UInt64.toNat_inj.mp count, map_toNat_injective positive,
    map_toNat_injective negative⟩

theorem countsSortKey_injective : Function.Injective countsSortKey := by
  intro left right same
  cases left with
  | int =>
    cases right with
    | int =>
      obtain ⟨rfl, rfl, rfl, rfl⟩ := countsKey_inj (Sum.inl.inj (toLex.injective same))
      rfl
    | float => cases toLex.injective same
  | float =>
    cases right with
    | int => cases toLex.injective same
    | float =>
      obtain ⟨rfl, rfl, rfl, rfl⟩ := countsKey_inj (Sum.inr.inj (toLex.injective same))
      rfl

/-- A histogram value is determined by its structural key. -/
theorem histogramSortKey_injective : Function.Injective histogramSortKey := by
  intro left right same
  simp only [histogramSortKey, EmbeddingLike.apply_eq_iff_eq, Prod.mk.injEq] at same
  obtain ⟨scale, zeroThreshold, sum, customValues, positiveSpans, negativeSpans, counts, resetHint⟩ := same
  cases left
  cases right
  simp only [HistogramValue.mk.injEq]
  refine ⟨scale, UInt64.toNat_inj.mp zeroThreshold, ?_, optionKey_injective map_toNat_injective customValues,
    spansSortKey_injective positiveSpans, spansSortKey_injective negativeSpans, countsSortKey_injective counts, ?_⟩
  · exact optionKey_injective (fun _ _ bits => UInt64.toNat_inj.mp bits) sum
  · rename_i first _ _ _ _ _ _ _ second
    cases first <;> cases second <;> first | rfl | cases resetHint

/-- The histogram comparison is the order of the priority and then of the structure. -/
def histogramOrder : CandidateOrder HistogramValue ((Int ×ₗ Nat ×ₗ Nat ×ₗ Nat) ×ₗ HistogramSortKey) where
  greater := histogramIsGreater
  key candidate := toLex (candidate.priority.key, histogramSortKey candidate.value)
  greater_iff left right := by
    rw [histogramIsGreater, decide_eq_true_eq]
  injective := by
    intro left right same
    simp only [EmbeddingLike.apply_eq_iff_eq, Prod.mk.injEq] at same
    obtain ⟨samePriority, sameValue⟩ := same
    cases left
    cases right
    simp only [Candidate.mk.injEq]
    exact ⟨histogramSortKey_injective sameValue, SamplePriority.key_injective samePriority⟩

end Ravel.Metrics
