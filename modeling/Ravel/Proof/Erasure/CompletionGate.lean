import Ravel.Construction.Erasure.Completion
import Ravel.Proof.Catalog.ResolvedBucket

namespace Ravel.Erasure

open List Catalog Library

/-- A segment can hold a record in the window of a request: some instant within its event bounds is in the window. A
windowless request meets every segment. -/
def MeetsWindow (request : ErasureRequest) (segment : SegmentRef) : Prop :=
  (request.windowStartNs = 0 ∧ request.windowEndNs = 0) ∨
    ∃ tsNs : Int, segment.minEventTsNs.toInt ≤ tsNs ∧ tsNs ≤ segment.maxEventTsNs.toInt ∧
      tsInWindow request.windowStartNs request.windowEndNs tsNs = true

/-- The gate's bounds check misses no segment that meets the window. -/
theorem bucketMayOverlap_of_meetsWindow {request : ErasureRequest} {segment : SegmentRef}
    (meets : MeetsWindow request segment) :
    bucketMayOverlap segment.minEventTsNs segment.maxEventTsNs request = true := by
  rw [bucketMayOverlap]
  rcases meets with ⟨noStart, noEnd⟩ | ⟨tsNs, afterMin, beforeMax, inWindow⟩
  · simp [noStart, noEnd]
  · rw [tsInWindow, Bool.and_eq_true, Bool.or_eq_true, Bool.or_eq_true, beq_iff_eq, beq_iff_eq, decide_eq_true_eq,
      decide_eq_true_eq] at inWindow
    obtain ⟨afterStart, beforeEnd⟩ := inWindow
    have ordered : ¬segment.minEventTsNs > segment.maxEventTsNs := by
      rw [gt_iff_lt, Int64.lt_iff_toInt_lt]
      omega
    simp only [if_neg ordered]
    split_ifs with windowless
    · rfl
    · rw [Bool.and_eq_true, Bool.or_eq_true, Bool.or_eq_true, beq_iff_eq, beq_iff_eq, decide_eq_true_eq,
        decide_eq_true_eq]
      exact ⟨afterStart.imp_right fun start => start.trans beforeMax,
        beforeEnd.imp_right fun before => lt_of_le_of_lt afterMin before⟩

/-- A view that does not serve the subject holds, within the window, only rewrites that name the request. -/
theorem bucketServesSubject_eq_false {request : ErasureRequest} {view : LiveView}
    (clear : bucketServesSubject request view.liveL0 view.liveCompactions view.liveRewrites = false) :
    (∀ record ∈ view.liveL0, bucketMayOverlap record.minEventTsNs record.maxEventTsNs request = false) ∧
      (∀ record ∈ view.liveCompactions, ∀ part ∈ record.parts, partMayOverlap request part = false) ∧
      ∀ record ∈ view.liveRewrites, ∀ part ∈ record.parts, partMayOverlap request part = true →
        namesRequest record request = true := by
  rw [bucketServesSubject] at clear
  split_ifs at clear with l0 compactions
  rw [Bool.not_eq_true, any_eq_false] at l0 compactions
  rw [any_eq_false] at clear
  refine ⟨fun record member => Bool.not_eq_true _ ▸ l0 record member, ?_, ?_⟩
  · intro record member part inside
    have none := compactions record member
    rw [Bool.not_eq_true, any_eq_false] at none
    exact Bool.not_eq_true _ ▸ none part inside
  · intro record member part inside overlaps
    by_contra unnamed
    have fails := clear record member
    rw [Bool.and_eq_true, Bool.not_eq_true', any_eq_true] at fails
    exact fails ⟨Bool.not_eq_true _ ▸ unnamed, part, inside, overlaps⟩

variable {bucket : Bucket}

/-- The gate's view holds the records that the resolver serves. -/
structure Views (bucket : Bucket) (view : LiveView) (resolved : ResolvedBucket) : Prop where
  liveL0 : ∀ record, record ∈ view.liveL0 ↔ record ∈ resolved.servedCommits bucket
  liveCompactions : ∀ record, record ∈ view.liveCompactions ↔ record ∈ resolved.servedCompactions bucket.compactions
  liveRewrites : ∀ record, record ∈ view.liveRewrites ↔ record ∈ resolved.servedRewrites bucket.rewrites

theorem fewerLinks_refl (compactions : List CompactionRecord) (rewrites : List RewriteRecord) :
    FewerLinks compactions compactions rewrites rewrites :=
  fun _ _ present => present

theorem views_of_liveView {view : LiveView} (viewed : liveView bucket = .ok view) :
    ∃ resolved, resolveBucket bucket.compactions bucket.rewrites = .ok resolved ∧ Views bucket view resolved := by
  rw [liveView] at viewed
  obtain ⟨dominated, marked, viewed⟩ := ok_of_bind viewed
  obtain ⟨selection, selected, viewed⟩ := ok_of_bind viewed
  -- The gate adds the rewrites' exclusions to those of the authoritative records; the resolver starts empty.
  obtain ⟨exclusions, chased, viewed⟩ := ok_of_bind viewed
  cases viewed
  obtain ⟨fresh, resolvedFresh⟩ := resolveRewrites_ok_of_fewer (fewerLinks_refl _ _)
    (fun _ member => member) chased ⟨[], []⟩
  obtain ⟨superseded, excluded⟩ := resolveRewrites_adds chased
  obtain ⟨freshSuperseded, freshExcluded⟩ := resolveRewrites_spec resolvedFresh
  have sameSuperseded : ∀ key, key ∈ exclusions.supersededRecords ↔ key ∈ fresh.supersededRecords := by
    intro key
    rw [superseded, freshSuperseded, ReachedByRewrite]
    simp
  refine ⟨⟨fresh, dominated, selection⟩, ?_, ?_, ?_, ?_⟩
  · rw [resolveBucket, resolvedFresh, marked]
    simp only [bind, Except.bind, selected]
    rfl
  · intro record
    rw [ResolvedBucket.servedCommits, mem_filter, mem_filter, decide_eq_true_eq,
      decide_eq_true_eq, excluded, ResolvedBucket.excludedInputs, mem_append, freshExcluded,
      ErasedInput]
    exact and_congr_right fun _ => not_congr or_comm
  · intro record
    rw [ResolvedBucket.servedCompactions, mem_filter, mem_filter, Bool.and_eq_true,
      decide_eq_true_eq, decide_eq_true_eq, sameSuperseded, AuthoritativeSelection.isExcluded]
    simp only [mem_append, Bool.not_or, Bool.and_eq_true, Bool.not_eq_true', decide_eq_false_iff_not]
    tauto
  · intro record
    rw [ResolvedBucket.servedRewrites, mem_filter, mem_filter, decide_eq_true_eq,
      decide_eq_true_eq, sameSuperseded]

theorem liveView_of_resolveBucket {resolved : ResolvedBucket}
    (resolves : resolveBucket bucket.compactions bucket.rewrites = .ok resolved) :
    ∃ view, liveView bucket = .ok view := by
  obtain ⟨chased, marked, selected⟩ := resolveBucket_ok resolves
  rw [liveView, marked]
  simp only [bind, Except.bind, selected]
  obtain ⟨exclusions, again⟩ := resolveRewrites_ok_of_fewer (fewerLinks_refl _ _) (fun _ member => member) chased
    ⟨((undominated bucket.compactions resolved.dominated).filter fun record =>
      !resolved.selection.isExcluded record.key).flatMap CompactionRecord.inputs, []⟩
  simp only [again]
  exact ⟨_, rfl⟩

/-- Every segment of a resolution whose view is clear of a request, within the window, is a part of a rewrite that
names the request. -/
theorem named_of_clear {view : LiveView} {resolved : ResolvedBucket} (views : Views bucket view resolved)
    {request : ErasureRequest}
    (clear : bucketServesSubject request view.liveL0 view.liveCompactions view.liveRewrites = false)
    {segment : SegmentRef} (offered : segment ∈ resolved.segments bucket) (meets : MeetsWindow request segment) :
    ∃ rewrite ∈ bucket.rewrites, (∃ part ∈ rewrite.parts, segment = buildRewriteL1SegmentRef rewrite part) ∧
      ∃ drop ∈ rewrite.drops, drop.requestId = request.requestId := by
  have overlaps := bucketMayOverlap_of_meetsWindow meets
  obtain ⟨l0, compactions, rewrites⟩ := bucketServesSubject_eq_false clear
  rcases mem_segments_iff.mp offered with ⟨record, served, part, member, rfl⟩ | ⟨rewrite, served, part, member, rfl⟩ |
    ⟨commit, served, rfl⟩
  · have apart := compactions record ((views.liveCompactions record).mpr served) part member
    rw [partMayOverlap] at apart
    exact absurd overlaps (Bool.not_eq_true _ ▸ apart)
  · have named := rewrites rewrite ((views.liveRewrites rewrite).mpr served) part member overlaps
    rw [namesRequest, any_eq_true] at named
    obtain ⟨drop, dropped, same⟩ := named
    exact ⟨rewrite, (mem_filter.mp served).1, ⟨part, member, rfl⟩, drop, dropped, beq_iff_eq.mp same⟩
  · have apart := l0 commit ((views.liveL0 commit).mpr served)
    exact absurd overlaps (Bool.not_eq_true _ ▸ apart)

/-- Behind its front gates, the gate's verdict is that of its view. -/
theorem bucketErasureCompletion_sealed {config : CompactorConfig} {nowNs : Int} {isProtected : ListedKey → Bool}
    {ingestHourBucket : Nat} {pending : List PendingErasureRequest} (nonempty : pending ≠ [])
    (isSealedNow : isSealed ingestHourBucket nowNs config = true) (unheld : bucketIsHeld bucket isProtected = false)
    (tombstoneFree : bucket.hasTombstone = false) :
    bucketErasureCompletion config nowNs isProtected ingestHourBucket bucket pending =
      (liveView bucket).map fun view =>
        ⟨(pending.filter fun entry => bucketServesSubject entry.request view.liveL0 view.liveCompactions
          view.liveRewrites).map (·.request.requestId), false⟩ := by
  rw [bucketErasureCompletion, if_neg (by simpa using nonempty), isSealedNow, if_neg (by simp), tombstoneFree,
    if_neg (by simp), unheld, if_neg (by simp)]
  cases liveView bucket with
  | error failure => rfl
  | ok view => rfl

/-- A request that the gate does not block has, within its window, only segments of rewrites that name it; and where
the gate fails, the resolver fails. -/
theorem completion_gate_refines_resolver (config : CompactorConfig) (nowNs : Int) (isProtected : ListedKey → Bool)
    (ingestHourBucket : Nat) (bucket : Bucket) (pending : List PendingErasureRequest)
    (isSealedNow : isSealed ingestHourBucket nowNs config = true) (unheld : bucketIsHeld bucket isProtected = false)
    (tombstoneFree : bucket.hasTombstone = false) :
    (∀ completion,
      bucketErasureCompletion config nowNs isProtected ingestHourBucket bucket pending = .ok completion →
      ∀ entry ∈ pending, entry.request.requestId ∉ completion.blocked →
        ∃ out, processBucket bucket .unbounded = .ok out ∧
          ∀ key segment, out.lookup key = some segment → MeetsWindow entry.request segment →
            ∃ rewrite ∈ bucket.rewrites,
              (∃ part ∈ rewrite.parts, segment = buildRewriteL1SegmentRef rewrite part) ∧
              ∃ drop ∈ rewrite.drops, drop.requestId = entry.request.requestId) ∧
    ∀ failure, bucketErasureCompletion config nowNs isProtected ingestHourBucket bucket pending = .error failure →
      ∀ range, ∃ other, processBucket bucket range = .error other := by
  constructor
  · intro completion completed entry listed unblocked
    rw [bucketErasureCompletion_sealed (ne_nil_of_mem listed) isSealedNow unheld tombstoneFree] at completed
    obtain ⟨view, viewed, completed⟩ := ok_of_bind completed
    cases completed
    obtain ⟨resolved, resolves, views⟩ := views_of_liveView viewed
    obtain ⟨out, processed, served⟩ := processBucket_resolved tombstoneFree resolves
    refine ⟨out, processed, ?_⟩
    intro key segment found meets
    rw [served] at found
    have clear : bucketServesSubject entry.request view.liveL0 view.liveCompactions view.liveRewrites = false := by
      by_contra serves
      rw [Bool.not_eq_false] at serves
      exact unblocked (mem_map.mpr ⟨entry, mem_filter.mpr ⟨listed, serves⟩, rfl⟩)
    exact named_of_clear views clear (find_segment found).1 meets
  · intro failure failed range
    by_cases empty : pending = []
    · rw [empty] at failed
      cases failed
    · rw [bucketErasureCompletion_sealed empty isSealedNow unheld tombstoneFree] at failed
      cases processed : processBucket bucket range with
      | error other => exact ⟨other, rfl⟩
      | ok out =>
        obtain ⟨resolved, resolves⟩ := resolveBucket_of_processBucket tombstoneFree processed
        obtain ⟨view, viewed⟩ := liveView_of_resolveBucket resolves
        rw [viewed] at failed
        cases failed

/-- A bucket that two requests share: a rewrite names the first of them, and a raw commit is outside both windows. -/
def rewrittenBucket : Bucket where
  hasTombstone := false
  commits := [⟨⟨"w", 1, 0⟩, 0, 0, 9, 0⟩, ⟨⟨"w", 1, 1⟩, 2 ^ 192, 100, 200, 0⟩]
  compactions := [⟨[⟨"w", 1, 0⟩], 1 * 2 ^ 192, none, [⟨0, 7, 0, 9⟩], 0⟩]
  rewrites := [⟨[], 2 * 2 ^ 192, some (.compaction 1), [⟨"first", 3⟩], [⟨0, 5, 0, 9⟩], 0, .refl true⟩]
  commitsNodup := by decide
  compactionsNodup := by decide
  rewritesNodup := by decide
  namesCompaction := by simp

def rewrittenPending : List PendingErasureRequest :=
  [⟨⟨"first", [("user", "a")], 1, 50⟩, 0⟩, ⟨⟨"second", [("user", "b")], 1, 50⟩, 0⟩]

theorem completion_gate_refines_rewritten_bucket :
    bucketErasureCompletion ⟨0, 0⟩ (2 * nsPerHour) (fun _ => false) 0 rewrittenBucket rewrittenPending =
      .ok ⟨["second"], false⟩ ∧
    ∃ out, processBucket rewrittenBucket .unbounded = .ok out ∧
      ∀ key segment, out.lookup key = some segment →
        MeetsWindow ⟨"first", [("user", "a")], 1, 50⟩ segment →
          ∃ rewrite ∈ rewrittenBucket.rewrites,
            (∃ part ∈ rewrite.parts, segment = buildRewriteL1SegmentRef rewrite part) ∧
            ∃ drop ∈ rewrite.drops, drop.requestId = "first" := by
  have completed : bucketErasureCompletion ⟨0, 0⟩ (2 * nsPerHour) (fun _ => false) 0 rewrittenBucket rewrittenPending =
      .ok ⟨["second"], false⟩ := by rfl
  exact ⟨completed, (completion_gate_refines_resolver ⟨0, 0⟩ (2 * nsPerHour) (fun _ => false) 0 rewrittenBucket
    rewrittenPending (by decide) rfl rfl).1 _ completed ⟨⟨"first", [("user", "a")], 1, 50⟩, 0⟩ (by decide) (by decide)⟩

end Ravel.Erasure
