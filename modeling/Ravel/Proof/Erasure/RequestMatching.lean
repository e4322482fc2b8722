import Ravel.Construction.Erasure.Request

namespace Ravel.Erasure

open List

/-- A predicate without a window covers every time, so the window test alone decides. -/
theorem ErasurePredicate.coversTime_eq (predicate : ErasurePredicate) (tsNs : Int) :
    predicate.coversTime tsNs = tsInWindow predicate.windowStartNs predicate.windowEndNs tsNs := by
  cases windowed : predicate.hasWindow with
  | true => simp only [coversTime, windowed, Bool.not_true, Bool.false_or, inWindow]
  | false =>
    simp only [hasWindow, Bool.or_eq_false_iff, bne_eq_false_iff_eq] at windowed
    simp [coversTime, hasWindow, tsInWindow, windowed]

/-- The event time is inside the request's window. -/
def ErasureRequest.Covers (request : ErasureRequest) (tsNs : Int) : Prop :=
  tsInWindow request.windowStartNs request.windowEndNs tsNs = true

/-- The lookup resolves every pair of the request, and there is at least one. -/
def ErasureRequest.ResolvedBy (request : ErasureRequest) (lookup : String → Option String) : Prop :=
  request.predicate ≠ [] ∧ ∀ pair ∈ request.predicate, lookup pair.1 = some pair.2

/-- Every pair of the request is carried, and there is at least one. -/
def ErasureRequest.CarriedBy (request : ErasureRequest) (carries : String → String → Prop) : Prop :=
  request.predicate ≠ [] ∧ ∀ pair ∈ request.predicate, carries pair.1 pair.2

/-- The query-time exclusion of any lookup, in terms of the requests. -/
theorem any_matchersSatisfied_iff (requests : List ErasureRequest) (lookup : String → Option String) (tsNs : Int) :
    ((snapshotPendingErasurePredicates requests).any fun predicate =>
        predicate.matchersSatisfied lookup && predicate.coversTime tsNs) = true ↔
      ∃ request ∈ requests, request.Covers tsNs ∧ request.ResolvedBy lookup := by
  simp only [snapshotPendingErasurePredicates, any_map, any_eq_true, Function.comp_apply,
    ErasurePredicate.coversTime_eq, Bool.and_eq_true, ErasurePredicate.matchersSatisfied,
    ErasureRequest.Covers, ErasureRequest.ResolvedBy]
  apply exists_congr
  intro request
  by_cases empty : request.predicate = []
  · simp [empty]
  · simp [empty, and_comm]

/-- The rewrite's first dropping request, in terms of the requests. -/
theorem findIdx?_matchesBy_isSome_iff (requests : List ErasureRequest) (carries : String → String → Bool)
    (tsNs : Int) :
    (((requests.map ApplicableRequest.ofRequest).findIdx? fun request =>
        request.matcher.matchesBy carries && request.matcher.inWindow tsNs).isSome) = true ↔
      ∃ request ∈ requests, request.Covers tsNs ∧ request.CarriedBy fun key value => carries key value = true := by
  rw [findIdx?_isSome]
  simp only [any_map, any_eq_true, Function.comp_apply, Bool.and_eq_true,
    ApplicableRequest.ofRequest, RewriteMatcher.fromRequest, RewriteMatcher.inWindow,
    RewriteMatcher.matchesBy, ErasureRequest.Covers, ErasureRequest.CarriedBy]
  apply exists_congr
  intro request
  by_cases empty : request.predicate = []
  · simp [empty]
  · simp [empty, and_comm]

end Ravel.Erasure
