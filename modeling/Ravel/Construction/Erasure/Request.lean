/-
This file models erasure requests and the two forms in which the query layer and the rewrite read them.
-/

import Mathlib.Algebra.Order.Ring.Int
import Mathlib.Data.List.Basic

namespace Ravel.Erasure

/-- A pending erasure request: a conjunction of `key = value` matchers and an event-time window. -/
structure ErasureRequest where
  requestId : String
  predicate : List (String × String)
  windowStartNs : Int
  windowEndNs : Int
  deriving DecidableEq, Repr

/-- The half-open window test. A zero bound is unset. -/
def tsInWindow (windowStartNs windowEndNs tsNs : Int) : Bool :=
  (windowStartNs == 0 || decide (windowStartNs ≤ tsNs)) && (windowEndNs == 0 || decide (tsNs < windowEndNs))

/-- The query layer's form of a request. -/
structure ErasurePredicate where
  matchers : List (String × String)
  windowStartNs : Int
  windowEndNs : Int
  deriving DecidableEq, Repr

namespace ErasurePredicate

def hasWindow (predicate : ErasurePredicate) : Bool :=
  predicate.windowStartNs != 0 || predicate.windowEndNs != 0

def inWindow (predicate : ErasurePredicate) (tsNs : Int) : Bool :=
  tsInWindow predicate.windowStartNs predicate.windowEndNs tsNs

/-- Every matcher is satisfied by the lookup. An empty matcher set matches nothing. -/
def matchersSatisfied (predicate : ErasurePredicate) (lookup : String → Option String) : Bool :=
  if predicate.matchers.isEmpty then false
  else predicate.matchers.all fun matcher => lookup matcher.1 == some matcher.2

/-- The window part of every query-time exclusion. -/
def coversTime (predicate : ErasurePredicate) (tsNs : Int) : Bool :=
  !predicate.hasWindow || predicate.inWindow tsNs

end ErasurePredicate

/-- The pending predicates that a resolved snapshot carries. -/
def snapshotPendingErasurePredicates (requests : List ErasureRequest) : List ErasurePredicate :=
  requests.map fun request => ⟨request.predicate, request.windowStartNs, request.windowEndNs⟩

/-- The rewrite's form of a request. The three matchers of the rewrite differ in what they match. -/
structure RewriteMatcher where
  matchers : List (String × String)
  windowStartNs : Int
  windowEndNs : Int
  deriving DecidableEq, Repr

namespace RewriteMatcher

def fromRequest (request : ErasureRequest) : RewriteMatcher :=
  ⟨request.predicate, request.windowStartNs, request.windowEndNs⟩

def inWindow (matcher : RewriteMatcher) (tsNs : Int) : Bool :=
  tsInWindow matcher.windowStartNs matcher.windowEndNs tsNs

/-- Every `key = value` pair is carried. An empty matcher set matches nothing. -/
def matchesBy (matcher : RewriteMatcher) (carries : String → String → Bool) : Bool :=
  if matcher.matchers.isEmpty then false
  else matcher.matchers.all fun pair => carries pair.1 pair.2

end RewriteMatcher

/-- A request that applies to a bucket, paired with its matcher. -/
structure ApplicableRequest where
  requestId : String
  matcher : RewriteMatcher
  deriving DecidableEq, Repr

def ApplicableRequest.ofRequest (request : ErasureRequest) : ApplicableRequest :=
  ⟨request.requestId, .fromRequest request⟩

structure RewriteDrop where
  requestId : String
  droppedCount : Nat
  deriving DecidableEq, Repr

end Ravel.Erasure
