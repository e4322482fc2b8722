import Ravel.Construction.Erasure.LogSpan
import Ravel.Library.FailingRuns
import Ravel.Proof.Erasure.RequestMatching

namespace Ravel.Erasure

open List Logs Library

variable {Record : Type} {record : LogRecord} {request : ErasureRequest} (requests : List ErasureRequest)
  {predicates : List ErasurePredicate} (span : SpanRecord)

/-- The merge keeps exactly the records without a dropping request, in order. -/
theorem foldl_rewriteStep_kept (firstDropping : Record → Option Nat) (records : List Record)
    (state : RewriteState Record) : (records.foldl (rewriteStep firstDropping) state).kept =
      state.kept ++ records.filter fun record => !(firstDropping record).isSome := by
  induction records generalizing state with
  | nil => simp
  | cons record rest ih =>
    rw [foldl_cons, ih]
    cases dropping : firstDropping record with
    | none => simp [rewriteStep, dropping]
    | some index => simp [rewriteStep, dropping]

/-- A record is missing from a successful rewrite exactly when some request drops it. -/
theorem not_mem_survivors_iff {firstDropping : Record → Option Nat} {requests : List ApplicableRequest}
    {footerRecordCounts : List Nat} {records : List Record} {build : RecordRewriteBuild Record}
    (built : buildRewriteRecords firstDropping requests footerRecordCounts records = .ok build) {record : Record}
    (member : record ∈ records) : record ∉ build.survivors ↔ (firstDropping record).isSome = true := by
  unfold buildRewriteRecords at built
  obtain ⟨footerRecordCount, summed, built⟩ := ok_of_bind built
  split at built
  · cases built
  · cases built
    rw [foldl_rewriteStep_kept]
    simp [member, Option.isSome_iff_ne_none]

/-- The first string under a key is carried by the attributes. -/
theorem firstText_mem {attrs : List (String × AttrValue)} {key value : String}
    (found : firstText attrs key = some value) : (key, AttrValue.str value) ∈ attrs := by
  obtain ⟨entry, member, resolved⟩ := exists_of_findSome?_eq_some found
  by_cases same : entry.1 = key
  · rw [if_pos same] at resolved
    obtain ⟨name, attr⟩ := entry
    cases attr <;> simp_all [attrText]
  · rw [if_neg same] at resolved
    cases resolved

/-- An overlay keeps entries of the view or adds the record's attribute. -/
theorem mem_overlayAttr {merged : List (String × AttrValue)} {attr entry : String × AttrValue}
    (member : entry ∈ overlayAttr merged attr) : entry ∈ merged ∨ entry = attr := by
  induction merged with
  | nil => exact .inr (mem_singleton.mp member)
  | cons head rest ih =>
    unfold overlayAttr at member
    split at member
    · rename_i same
      rcases mem_cons.mp member with replaced | kept
      · exact .inr (by rw [replaced, same])
      · exact .inl (mem_cons_of_mem head kept)
    · rcases mem_cons.mp member with rfl | kept
      · exact .inl mem_cons_self
      · rcases ih kept with inside | added
        · exact .inl (mem_cons_of_mem head inside)
        · exact .inr added

/-- Every entry of the merged view comes from the stream identity or from the record. -/
theorem mem_foldl_overlayAttr {attrs identity : List (String × AttrValue)} {entry : String × AttrValue}
    (member : entry ∈ attrs.foldl overlayAttr identity) : entry ∈ identity ∨ entry ∈ attrs := by
  induction attrs generalizing identity with
  | nil => exact .inl member
  | cons attr rest ih =>
    rcases ih member with inView | own
    · rcases mem_overlayAttr inView with inIdentity | added
      · exact .inl inIdentity
      · exact .inr (mem_cons.mpr (.inl added))
    · exact .inr (mem_cons_of_mem attr own)

/-- The record's own attributes carry the pair. -/
def OwnCarries (record : LogRecord) (key value : String) : Prop :=
  (key, AttrValue.str value) ∈ record.attrs

/-- The first strings of the record's own attributes resolve the request. -/
def OwnMatch (record : LogRecord) (request : ErasureRequest) : Prop :=
  request.ResolvedBy (firstText record.attrs)

/-- The merged view of the record resolves the request. -/
def ViewMatch (record : LogRecord) (request : ErasureRequest) : Prop :=
  ∃ view, mergedLogAttrs record = .ok view ∧ request.ResolvedBy (firstText view)

/-- The merged view resolves the request, and one of its pairs is a string of the resource or scope that the
record itself does not carry. -/
def IdentityMatch (record : LogRecord) (request : ErasureRequest) : Prop :=
  ViewMatch record request ∧ ∃ identity, streamIdentityAttrs record.streamAttrs = .ok identity ∧
    ∃ pair ∈ request.predicate, (pair.1, AttrValue.str pair.2) ∈ identity ∧ ¬ OwnCarries record pair.1 pair.2

/-- The record carries every pair of the request, and one pair is behind another string under its key, both in
the record's own attributes and in its merged view. -/
def ShadowedMatch (record : LogRecord) (request : ErasureRequest) : Prop :=
  request.CarriedBy (OwnCarries record) ∧ ¬ OwnMatch record request ∧ ¬ ViewMatch record request

/-- A view match that is not carried by the record goes through the resource or scope. -/
theorem identityMatch_of_viewMatch (viewed : ViewMatch record request)
    (missing : ¬ request.CarriedBy (OwnCarries record)) : IdentityMatch record request := by
  refine ⟨viewed, ?_⟩
  obtain ⟨view, merged, nonempty, resolved⟩ := viewed
  unfold mergedLogAttrs at merged
  obtain ⟨identity, decoded, merged⟩ := ok_of_bind merged
  cases merged
  simp only [ErasureRequest.CarriedBy, not_and, not_forall] at missing
  obtain ⟨pair, member, absent⟩ := missing nonempty
  refine ⟨identity, decoded, pair, member, ?_, absent⟩
  rcases mem_foldl_overlayAttr (firstText_mem (resolved pair member)) with inIdentity | own
  · exact inIdentity
  · exact absurd own absent

/-- The first strings of a record are carried by it. -/
theorem carriedBy_of_ownMatch (matched : OwnMatch record request) : request.CarriedBy (OwnCarries record) :=
  ⟨matched.1, fun pair member => firstText_mem (matched.2 pair member)⟩

/-- The rewrite drops a record that some request in its window finds on the record itself. -/
theorem firstDroppingLogRequest_isSome_iff (record : LogRecord) :
    (firstDroppingLogRequest (requests.map .ofRequest) record.attrs record.tsNs).isSome = true ↔
      ∃ request ∈ requests, request.Covers record.tsNs ∧ request.CarriedBy (OwnCarries record) := by
  have carries : ∀ key value, (record.attrs.any fun entry =>
      entry.1 == key && attrText entry.2 == some value) = true ↔ OwnCarries record key value := by
    intro key value
    simp only [any_eq_true, Bool.and_eq_true, beq_iff_eq, OwnCarries]
    constructor
    · intro found
      obtain ⟨⟨name, attr⟩, member, rfl, text⟩ := found
      cases attr <;> simp_all [attrText]
    · intro member
      exact ⟨_, member, rfl, rfl⟩
  unfold firstDroppingLogRequest RewriteMatcher.dropsLogRecord RewriteMatcher.matchesLogAttrs
  rw [findIdx?_matchesBy_isSome_iff]
  simp only [carries]

/-- The own-attribute exclusion, in terms of the requests. -/
theorem erasedByAttrs_iff (attrs : List (String × AttrValue)) (tsNs : Int) :
    erasedByAttrs (snapshotPendingErasurePredicates requests) attrs tsNs = true ↔
      ∃ request ∈ requests, request.Covers tsNs ∧ request.ResolvedBy (firstText attrs) :=
  any_matchersSatisfied_iff requests (firstText attrs) tsNs

/-- The fetcher's filter keeps the records that no request erases by their own attributes. -/
theorem retainLogRecords_eq (records : List LogRecord) (predicates : List ErasurePredicate) :
    retainLogRecords records predicates =
      records.filter fun record => !erasedByAttrs predicates record.attrs record.tsNs := by
  cases predicates with
  | nil => simp [retainLogRecords, erasedByAttrs]
  | cons first rest => rfl

/-- A record survives the authoritative filter exactly when its decoded view is not erased. -/
theorem mem_retainUnerasedLoop {records survivors : List LogRecord}
    (retained : retainUnerasedLoop predicates records = .ok survivors) (record : LogRecord) :
    record ∈ survivors ↔ record ∈ records ∧ ∃ view, mergedLogAttrs record = .ok view ∧
      erasedByAttrs predicates view record.tsNs = false := by
  induction records generalizing survivors with
  | nil =>
    cases retained
    simp
  | cons head rest ih =>
    unfold retainUnerasedLoop at retained
    obtain ⟨view, merged, retained⟩ := ok_of_bind retained
    obtain ⟨tail, kept, retained⟩ := ok_of_bind retained
    cases retained
    have inTail := ih kept
    cases erased : erasedByAttrs predicates view head.tsNs with
    | true =>
      rw [if_pos rfl, inTail, mem_cons]
      constructor
      · intro inside
        exact ⟨.inr inside.1, inside.2⟩
      · intro inside
        refine ⟨?_, inside.2⟩
        rcases inside.1 with rfl | member
        · obtain ⟨other, decoded, unerased⟩ := inside.2
          rw [merged] at decoded
          cases decoded
          rw [erased] at unerased
          cases unerased
        · exact member
    | false =>
      rw [if_neg (by simp), mem_cons, inTail, mem_cons]
      constructor
      · intro inside
        rcases inside with rfl | inside
        · exact ⟨.inl rfl, view, merged, erased⟩
        · exact ⟨.inr inside.1, inside.2⟩
      · intro inside
        rcases inside.1 with rfl | member
        · exact .inl rfl
        · exact .inr ⟨member, inside.2⟩

/-- Every record that the authoritative filter visits has a decodable view. -/
theorem exists_view_of_retained {records survivors : List LogRecord}
    (retained : retainUnerasedLoop predicates records = .ok survivors) (member : record ∈ records) :
    ∃ view, mergedLogAttrs record = .ok view := by
  induction records generalizing survivors with
  | nil => cases member
  | cons head rest ih =>
    unfold retainUnerasedLoop at retained
    obtain ⟨view, merged, retained⟩ := ok_of_bind retained
    obtain ⟨tail, kept, _⟩ := ok_of_bind retained
    rcases mem_cons.mp member with rfl | inRest
    · exact ⟨view, merged⟩
    · exact ih kept inRest

/-- A query excludes a record that some request in its window resolves on the record or on its view. -/
theorem not_mem_served_iff {requests : List ErasureRequest} {records served : List LogRecord}
    (queried : servedLogRecords records requests = .ok served) (member : record ∈ records) : record ∉ served ↔
      ∃ request ∈ requests, request.Covers record.tsNs ∧ (OwnMatch record request ∨ ViewMatch record request) := by
  unfold servedLogRecords retainUnerasedLogRecords at queried
  simp only [retainLogRecords_eq] at queried
  cases requests with
  | nil =>
    simp only [snapshotPendingErasurePredicates, map_nil, isEmpty_nil, if_true] at queried
    cases queried
    simp [member, erasedByAttrs]
  | cons first rest =>
    rw [if_neg (by simp [snapshotPendingErasurePredicates])] at queried
    have survives := mem_retainUnerasedLoop queried record
    have own := erasedByAttrs_iff (first :: rest) record.attrs record.tsNs
    cases erased : erasedByAttrs (snapshotPendingErasurePredicates (first :: rest)) record.attrs record.tsNs with
    | true =>
      obtain ⟨request, inRequests, covers, matched⟩ := own.mp erased
      have absent : record ∉ served := by
        rw [survives, mem_filter, erased]
        simp
      exact ⟨fun _ => ⟨request, inRequests, covers, .inl matched⟩, fun _ => absent⟩
    | false =>
      have visited : record ∈ records.filter fun record =>
          !erasedByAttrs (snapshotPendingErasurePredicates (first :: rest)) record.attrs record.tsNs := by
        rw [mem_filter, erased]
        exact ⟨member, rfl⟩
      obtain ⟨view, merged⟩ := exists_view_of_retained queried visited
      have viewed := erasedByAttrs_iff (first :: rest) view record.tsNs
      constructor
      · intro absent
        have viewErased : erasedByAttrs (snapshotPendingErasurePredicates (first :: rest)) view
            record.tsNs = true := by
          by_contra kept
          exact absent (survives.mpr ⟨visited, view, merged, Bool.eq_false_iff.mpr kept⟩)
        obtain ⟨request, inRequests, covers, matched⟩ := viewed.mp viewErased
        exact ⟨request, inRequests, covers, .inr ⟨view, merged, matched⟩⟩
      · intro excluded
        obtain ⟨request, inRequests, covers, matched⟩ := excluded
        rcases matched with ownMatched | ⟨other, decoded, viewMatched⟩
        · rw [own.mpr ⟨request, inRequests, covers, ownMatched⟩] at erased
          cases erased
        · intro inServed
          obtain ⟨-, again, decodedAgain, kept⟩ := survives.mp inServed
          rw [merged] at decoded decodedAgain
          cases decoded
          cases decodedAgain
          rw [viewed.mpr ⟨request, inRequests, covers, viewMatched⟩] at kept
          cases kept

/-- Each request that reaches a record only through its resource or scope has another that the record carries,
and each request that only shadowed strings satisfy has another that the query resolves. -/
def LogErasureAgrees (requests : List ErasureRequest) (record : LogRecord) : Prop :=
  (∀ request ∈ requests, request.Covers record.tsNs → IdentityMatch record request →
    ∃ other ∈ requests, other.Covers record.tsNs ∧ other.CarriedBy (OwnCarries record)) ∧
  ∀ request ∈ requests, request.Covers record.tsNs → ShadowedMatch record request →
    ∃ other ∈ requests, other.Covers record.tsNs ∧ (OwnMatch record other ∨ ViewMatch record other)

/-- The rewrite and the query agree on a log record exactly under `LogErasureAgrees`. -/
theorem logDrop_iff_excluded_iff (record : LogRecord) :
    ((∃ request ∈ requests, request.Covers record.tsNs ∧ request.CarriedBy (OwnCarries record)) ↔
      ∃ request ∈ requests, request.Covers record.tsNs ∧ (OwnMatch record request ∨ ViewMatch record request)) ↔
      LogErasureAgrees requests record := by
  constructor
  · intro agree
    constructor
    · intro request inRequests covers identity
      exact agree.mpr ⟨request, inRequests, covers, .inr identity.1⟩
    · intro request inRequests covers shadowed
      exact agree.mp ⟨request, inRequests, covers, shadowed.1⟩
  · intro agrees
    constructor
    · intro dropped
      obtain ⟨request, inRequests, covers, carried⟩ := dropped
      by_cases matched : OwnMatch record request ∨ ViewMatch record request
      · exact ⟨request, inRequests, covers, matched⟩
      · rw [not_or] at matched
        exact agrees.2 request inRequests covers ⟨carried, matched.1, matched.2⟩
    · intro excluded
      obtain ⟨request, inRequests, covers, matched⟩ := excluded
      rcases matched with own | viewed
      · exact ⟨request, inRequests, covers, carriedBy_of_ownMatch own⟩
      · by_cases carried : request.CarriedBy (OwnCarries record)
        · exact ⟨request, inRequests, covers, carried⟩
        · exact agrees.1 request inRequests covers (identityMatch_of_viewMatch viewed carried)

/-- The first value of a span under a key. -/
def firstSpanText (attrs : List (String × String)) (key : String) : Option String :=
  attrs.findSome? fun entry => if entry.1 = key then some entry.2 else none

/-- Each request that only a later duplicate of a key satisfies has another that the first values resolve. -/
def SpanErasureAgrees (requests : List ErasureRequest) (span : SpanRecord) : Prop :=
  ∀ request ∈ requests, request.Covers span.startTsNs →
    request.CarriedBy (fun key value => (key, value) ∈ span.attrs) →
    (∃ pair ∈ request.predicate, firstSpanText span.attrs pair.1 ≠ some pair.2) →
    ∃ other ∈ requests, other.Covers span.startTsNs ∧ other.ResolvedBy (firstSpanText span.attrs)

theorem firstSpanText_mem {attrs : List (String × String)} {key value : String}
    (found : firstSpanText attrs key = some value) : (key, value) ∈ attrs := by
  obtain ⟨entry, member, resolved⟩ := exists_of_findSome?_eq_some found
  by_cases same : entry.1 = key
  · rw [if_pos same, Option.some.injEq] at resolved
    rw [← same, ← resolved]
    exact member
  · rw [if_neg same] at resolved
    cases resolved

/-- The rewrite drops a span that some request in its window finds on the span. -/
theorem firstDroppingSpanRequest_isSome_iff :
    (firstDroppingSpanRequest (requests.map .ofRequest) span.attrs span.startTsNs).isSome = true ↔
      ∃ request ∈ requests, request.Covers span.startTsNs ∧
        request.CarriedBy fun key value => (key, value) ∈ span.attrs := by
  unfold firstDroppingSpanRequest RewriteMatcher.dropsSpanRecord RewriteMatcher.matchesSpanAttrs
  rw [findIdx?_matchesBy_isSome_iff]
  simp

/-- The rewrite and the query agree on a span exactly under `SpanErasureAgrees`. -/
theorem spanDrop_iff_erased_iff :
    ((firstDroppingSpanRequest (requests.map .ofRequest) span.attrs span.startTsNs).isSome = true ↔
      isErasedSpan span.attrs span.startTsNs (snapshotPendingErasurePredicates requests) = true) ↔
      SpanErasureAgrees requests span := by
  have erased : isErasedSpan span.attrs span.startTsNs (snapshotPendingErasurePredicates requests) = true ↔
      ∃ request ∈ requests, request.Covers span.startTsNs ∧ request.ResolvedBy (firstSpanText span.attrs) :=
    any_matchersSatisfied_iff requests (firstSpanText span.attrs) span.startTsNs
  rw [firstDroppingSpanRequest_isSome_iff, erased]
  constructor
  · intro agree request inRequests covers carried _
    exact agree.mp ⟨request, inRequests, covers, carried⟩
  · intro agrees
    constructor
    · intro dropped
      obtain ⟨request, inRequests, covers, carried⟩ := dropped
      by_cases resolved : ∀ pair ∈ request.predicate, firstSpanText span.attrs pair.1 = some pair.2
      · exact ⟨request, inRequests, covers, carried.1, resolved⟩
      · push Not at resolved
        exact agrees request inRequests covers carried resolved
    · intro excluded
      obtain ⟨request, inRequests, covers, resolved⟩ := excluded
      exact ⟨request, inRequests, covers, resolved.1, fun pair member =>
        firstSpanText_mem (resolved.2 pair member)⟩

/-- A request for one user, without a window. -/
def userRequest : ErasureRequest :=
  ⟨"request", [("user_id", "7")], 0, 0⟩

/-- A request for a user with two different identifiers. -/
def twoUserRequest : ErasureRequest :=
  ⟨"request", [("user_id", "7"), ("user_id", "8")], 0, 0⟩

/-- The user is named in the resource attributes only. -/
def resourceUserRecord : LogRecord :=
  ⟨[1, 7, 0x75, 0x73, 0x65, 0x72, 0x5f, 0x69, 0x64, 1, 1, 0x37, 0, 0, 0], 5, []⟩

/-- The user is named in the record's own attributes, twice. -/
def ownUserRecord : LogRecord :=
  ⟨[0, 0, 0, 0], 5, [("user_id", .str "7"), ("user_id", .str "8")]⟩

def twoUserSpan : SpanRecord :=
  ⟨5, [("user_id", "7"), ("user_id", "8")]⟩

end Ravel.Erasure
