import Ravel.Proof.Agents.SealedDrafts

namespace Ravel.Agents

open List Library

section Figures

variable {Entry : Type} {digests : Digests} {pages : PageEntry Entry} {size : Nat} {dir loaded inMemory all : Directory}
  {before edited part held : List Entry} {groups : List (PageGroup Entry)} {rest : List Entry}

theorem unloaded_figures (dir : Directory) (measure : PageMeta → Nat) :
    dir.unloaded.map (dir.figure measure) = dir.unloadedPages.map measure := by
  rw [Directory.unloadedPages, map_filterMap, ← filterMap_eq_map]
  apply filterMap_congr
  intro page member
  have within : page < dir.pages.length := mem_range.mp (mem_filter.mp member).1
  rw [Function.comp, Directory.figure, getElem?_eq_getElem within]
  rfl

theorem total_unloadedPages (dir : Directory) (count : Nat) :
    dir.total count = count + (dir.unloadedPages.map (·.entries)).sum := by
  rw [Directory.total, foldl_add_figure, unloaded_figures]

theorem unloadedMarked_unloadedPages (dir : Directory) :
    dir.unloadedMarked = (dir.unloadedPages.map (·.marked)).sum := by
  rw [Directory.unloadedMarked, foldl_add_figure, unloaded_figures, Nat.zero_add]

theorem unloadedReferencedBytes_unloadedPages (dir : Directory) :
    dir.unloadedReferencedBytes = min (dir.unloadedPages.map (·.referencedBytes)).sum (2 ^ 64 - 1) := by
  rw [Directory.unloadedReferencedBytes, foldl_saturatingAddU64 _ _ (Nat.zero_le _), unloaded_figures, Nat.zero_add]

section

variable (pair : SealedPair digests pages size loaded edited (hiddenEntries pages loaded before) inMemory all)
  (described : Described digests pages size dir before groups rest) (loads : ListLoads pages dir loaded before held)
  (cut : edited.Perm (part ++ hiddenEntries pages loaded before))

include pair described loads cut

/-- The sealed directories count the same entries. -/
theorem SealedPair.total_eq : inMemory.total part.length = all.total edited.length := by
  have counted := Agents.total_eq described loads part.length
  rw [total_unloadedPages] at counted
  have lengths := cut.length_eq
  rw [length_append] at lengths
  rw [total_unloadedPages, total_unloadedPages, pair.unloaded, pair.allLoaded, counted, lengths]
  rfl

theorem SealedPair.marked_eq :
    inMemory.unloadedMarked + part.countP pages.marked = all.unloadedMarked + edited.countP pages.marked := by
  have counted := unloadedMarked_eq described loads
  rw [unloadedMarked_unloadedPages] at counted
  have marked := cut.countP_eq pages.marked
  rw [countP_append] at marked
  rw [unloadedMarked_unloadedPages, unloadedMarked_unloadedPages, pair.unloaded, pair.allLoaded, counted, marked]
  exact (Nat.add_comm _ _).trans (Nat.zero_add _).symm

/-- The bytes that the pages not in memory reference, up to the largest value. -/
theorem SealedPair.referenced_eq :
    inMemory.unloadedReferencedBytes = min (referenced pages (hiddenEntries pages loaded before)) (2 ^ 64 - 1) ∧
      all.unloadedReferencedBytes = 0 ∧
      referenced pages edited = referenced pages part + referenced pages (hiddenEntries pages loaded before) := by
  have counted := unloadedReferencedBytes_eq described loads
  rw [unloadedReferencedBytes_unloadedPages] at counted
  refine ⟨?_, ?_, ?_⟩
  · rw [unloadedReferencedBytes_unloadedPages, pair.unloaded, counted]
  · rw [unloadedReferencedBytes_unloadedPages, pair.allLoaded]
    rfl
  · rw [referenced_perm cut, referenced_append]

end

theorem SealedPair.isInline_eq (pair : SealedPair digests pages size loaded edited (hiddenEntries pages loaded before) inMemory all)
    (key : Nat) : inMemory.isInline key = all.isInline key := by
  rw [Directory.isInline, Directory.isInline, Directory.pageFor, Directory.pageFor, pair.sameRecord.1, pair.sameRecord.2.1]

/-- The sealed directories leave the same entries inline. -/
theorem SealedPair.inline_perm (pair : SealedPair digests pages size loaded edited (hiddenEntries pages loaded before) inMemory all)
    (cut : edited.Perm (part ++ hiddenEntries pages loaded before)) :
    (Encoded.inlineEntries pages inMemory part).Perm (Encoded.inlineEntries pages all edited) := by
  have sealed : (hiddenEntries pages loaded before).filter (fun entry => all.isInline (pages.key entry)) = [] := by
    rw [filter_eq_nil_iff]
    intro entry member
    simp [pair.sealed entry member]
  have inline := cut.filter fun entry => all.isInline (pages.key entry)
  rw [filter_append, sealed, append_nil] at inline
  rw [Encoded.inlineEntries, Encoded.inlineEntries]
  simp only [pair.isInline_eq]
  exact inline.symm

theorem repeatedField_perm {Message : Type} (tag : Nat) (length : Message → Nat) {left right : List Message}
    (reordered : left.Perm right) : Encoded.repeatedField tag length left = Encoded.repeatedField tag length right :=
  (reordered.map _).sum_nat

theorem directoryField_record (tag : Nat) {left right : Directory} (same : left.SameRecord right) :
    Encoded.directoryField tag left = Encoded.directoryField tag right := by
  rw [Encoded.directoryField, Encoded.directoryField, Encoded.pageDirectory, Encoded.pageDirectory, same.1, same.2.1]

/-- The entries that were not in memory join the published list again. -/
theorem SealedPair.rejoinList_eq
    (pair : SealedPair digests pages size loaded edited (hiddenEntries pages loaded before) inMemory all)
    (described : Described digests pages size dir before groups rest) (loads : ListLoads pages dir loaded before held)
    (distinct : (edited.map pages.key).Nodup) (cut : edited.Perm (part ++ hiddenEntries pages loaded before)) :
    rejoinList pages loaded inMemory before part = sortByKey pages edited := by
  have unread : before.filter (stillSealed pages loaded inMemory) = hiddenEntries pages loaded before := by
    apply filter_congr
    intro entry member
    rw [stillSealed, Directory.inMemory]
    cases routed : loaded.pageFor (pages.key entry) with
    | none => rfl
    | some page =>
      cases isLoaded : loaded.isLoaded page with
      | true => simp [isLoaded]
      | false =>
        have within : page < loaded.pages.length := by
          rw [pageFor_eq_pageOf] at routed
          simpa using pageOf_lt routed
        have listed : loaded.pages.get ⟨page, within⟩ ∈ loaded.unloadedPages := by
          rw [Directory.unloadedPages, mem_filterMap]
          refine ⟨page, ?_, getElem?_eq_getElem within⟩
          rw [Directory.unloaded, mem_filter, isLoaded]
          exact ⟨mem_range.mpr within, rfl⟩
        rw [get_eq_getElem] at listed
        simp [pair.unloaded, getElem?_eq_getElem within, isLoaded, listed]
  rw [rejoinList, unread]
  exact (sortBy_eq_of_perm distinct cut).symm

end Figures

/-- The bytes of the state, the steps, the effects and the outbox of a root. -/
def unpagedBytes (head : Head) : Nat :=
  refBytes head.state + (head.steps.map fun step => refBytes step.output).sum +
    (head.effects.map fun effect => refBytes effect.result).sum + (head.outbox.map fun intent => refBytes intent.input).sum

theorem filterMap_bytes {Entry : Type} (ref : Entry → Option ObjectRef) (entries : List Entry) :
    ((entries.filterMap ref).map (·.sizeBytes.toNat)).sum = (entries.map fun entry => refBytes (ref entry)).sum := by
  induction entries with
  | nil => rfl
  | cons entry rest ih =>
    rw [filterMap_cons, map_cons, sum_cons, ← ih]
    cases ref entry with
    | none => exact (Nat.zero_add _).symm
    | some object => rfl

theorem payloadRefs_bytes (digests : Digests) (head : Head) :
    (head.payloadRefs.map (·.sizeBytes.toNat)).sum =
      unpagedBytes head + referenced (inboxPages digests) head.inbox + referenced (resultPages digests) head.results +
        referenced (eventPages digests) head.events + referenced (timerPages digests) head.timers := by
  have state : (head.state.toList.map (·.sizeBytes.toNat)).sum = refBytes head.state := by
    cases head.state <;> rfl
  rw [Head.payloadRefs]
  simp only [map_append, sum_append, filterMap_bytes, state]
  rw [unpagedBytes]
  simp only [referenced, inboxPages, resultPages, eventPages, timerPages]
  omega

/-- The bytes that a root counts: those of its pages not in memory and those in memory. -/
theorem computedQuota_referencedBytes (digests : Digests) (head : Head) :
    head.computedQuota.referencedBytes =
      min (min (head.index.inbox.unloadedReferencedBytes + head.index.receipts.unloadedReferencedBytes +
          head.index.results.unloadedReferencedBytes + head.index.events.unloadedReferencedBytes +
          head.index.timers.unloadedReferencedBytes) (2 ^ 64 - 1) +
        (unpagedBytes head + referenced (inboxPages digests) head.inbox + referenced (resultPages digests) head.results +
          referenced (eventPages digests) head.events + referenced (timerPages digests) head.timers)) (2 ^ 64 - 1) := by
  have unloaded := foldl_saturatingAddU64 [ListKind.inbox, .receipts, .results, .events, .timers]
    (fun list => (head.index.directory list).unloadedReferencedBytes) (Nat.zero_le (2 ^ 64 - 1))
  have summed : ([ListKind.inbox, .receipts, .results, .events, .timers].map fun list =>
      (head.index.directory list).unloadedReferencedBytes).sum =
      head.index.inbox.unloadedReferencedBytes + head.index.receipts.unloadedReferencedBytes +
        head.index.results.unloadedReferencedBytes + head.index.events.unloadedReferencedBytes +
        head.index.timers.unloadedReferencedBytes := by
    simp only [map_cons, map_nil, sum_cons, sum_nil, Index.directory]
    omega
  rw [Nat.zero_add, summed] at unloaded
  rw [Head.computedQuota]
  dsimp only
  rw [unloaded, foldl_saturatingAddU64 _ _ (Nat.min_le_right _ _), payloadRefs_bytes digests]

section Publish

variable {ids : CollisionFree} {limits : Limits} {root whole : Head} {lists drafted : Lists} {inMemory all : Index}

/-- The draft in memory with its sealed index. -/
def heldHead (whole : Head) (drafted : Lists) (inMemory : Index) : Head :=
  { whole.holding drafted with index := inMemory }

/-- The draft on the whole root with its sealed index. -/
def fullHead (whole : Head) (all : Index) : Head :=
  { whole with index := all }

theorem heldHead_holding (whole : Head) (drafted : Lists) (inMemory all : Index) (quota : Quota) :
    ({ heldHead whole drafted inMemory with quota := quota } : Head) =
      Head.holding { fullHead whole all with quota := quota } { drafted with index := inMemory } := rfl

section

variable (inv : RootInv ids limits root) (loads : Loads ids root lists)
  (draftOf : DraftOf ids root lists whole drafted) (pair : IndexPair ids limits root whole lists inMemory all)

include inv loads draftOf pair

theorem inboxDepth_pair : (heldHead whole drafted inMemory).inboxDepth = (fullHead whole all).inboxDepth := by
  obtain ⟨_, _, described⟩ := inv.paged.inbox
  exact pair.inbox.total_eq described loads.inbox draftOf.inbox

theorem receiptCount_pair : (heldHead whole drafted inMemory).receiptCount = (fullHead whole all).receiptCount := by
  obtain ⟨_, _, described⟩ := inv.paged.receipts
  exact pair.receipts.total_eq described loads.receipts draftOf.receipts

theorem scheduledTimers_pair :
    (heldHead whole drafted inMemory).scheduledTimers = (fullHead whole all).scheduledTimers := by
  obtain ⟨_, _, described⟩ := inv.paged.timers
  exact pair.timers.marked_eq described loads.timers draftOf.timers

theorem referencedBytes_pair :
    (heldHead whole drafted inMemory).computedQuota.referencedBytes = (fullHead whole all).computedQuota.referencedBytes := by
  obtain ⟨_, _, inboxDescribed⟩ := inv.paged.inbox
  obtain ⟨_, _, receiptsDescribed⟩ := inv.paged.receipts
  obtain ⟨_, _, resultsDescribed⟩ := inv.paged.results
  obtain ⟨_, _, eventsDescribed⟩ := inv.paged.events
  obtain ⟨_, _, timersDescribed⟩ := inv.paged.timers
  obtain ⟨inboxBytes, inboxAll, inboxCut⟩ := pair.inbox.referenced_eq inboxDescribed loads.inbox draftOf.inbox
  obtain ⟨receiptBytes, receiptAll, -⟩ := pair.receipts.referenced_eq receiptsDescribed loads.receipts draftOf.receipts
  obtain ⟨resultBytes, resultAll, resultCut⟩ := pair.results.referenced_eq resultsDescribed loads.results draftOf.results
  obtain ⟨eventBytes, eventAll, eventCut⟩ := pair.events.referenced_eq eventsDescribed loads.events draftOf.events
  obtain ⟨timerBytes, timerAll, timerCut⟩ := pair.timers.referenced_eq timersDescribed loads.timers draftOf.timers
  have unreceipted : referenced (receiptPages ids)
      (hiddenEntries (receiptPages ids) lists.index.receipts root.receipts) = 0 := by
    simp [referenced, receiptPages]
  rw [computedQuota_referencedBytes ids, computedQuota_referencedBytes ids]
  show min (min (inMemory.inbox.unloadedReferencedBytes + inMemory.receipts.unloadedReferencedBytes +
      inMemory.results.unloadedReferencedBytes + inMemory.events.unloadedReferencedBytes +
      inMemory.timers.unloadedReferencedBytes) (2 ^ 64 - 1) +
    (unpagedBytes whole + referenced (inboxPages ids) drafted.inbox +
      referenced (resultPages ids) drafted.results + referenced (eventPages ids) drafted.events +
      referenced (timerPages ids) drafted.timers)) (2 ^ 64 - 1) =
    min (min (all.inbox.unloadedReferencedBytes + all.receipts.unloadedReferencedBytes +
      all.results.unloadedReferencedBytes + all.events.unloadedReferencedBytes +
      all.timers.unloadedReferencedBytes) (2 ^ 64 - 1) +
    (unpagedBytes whole + referenced (inboxPages ids) whole.inbox +
      referenced (resultPages ids) whole.results + referenced (eventPages ids) whole.events +
      referenced (timerPages ids) whole.timers)) (2 ^ 64 - 1)
  rw [inboxBytes, receiptBytes, resultBytes, eventBytes, timerBytes, inboxAll, receiptAll, resultAll, eventAll, timerAll,
    inboxCut, resultCut, eventCut, timerCut, unreceipted]
  omega

theorem computedQuota_pair :
    (heldHead whole drafted inMemory).computedQuota = (fullHead whole all).computedQuota := by
  have bytes := referencedBytes_pair inv loads draftOf pair
  have depth := inboxDepth_pair inv loads draftOf pair
  have receipts := receiptCount_pair inv loads draftOf pair
  have timers := scheduledTimers_pair inv loads draftOf pair
  exact Quota.mk.injEq .. ▸ ⟨bytes, depth, receipts, timers⟩

end

theorem encodedLen_pair (draftOf : DraftOf ids root lists whole drafted)
    (pair : IndexPair ids limits root whole lists inMemory all) (quota : Quota) :
    Head.encodedLen ids { heldHead whole drafted inMemory with quota := quota } =
      Head.encodedLen ids { fullHead whole all with quota := quota } := by
  have inbox := repeatedField_perm 27 Encoded.inboxEntry (pair.inbox.inline_perm draftOf.inbox)
  have receipts := repeatedField_perm 28 Encoded.receipt (pair.receipts.inline_perm draftOf.receipts)
  have results := repeatedField_perm 29 Encoded.resultEntry (pair.results.inline_perm draftOf.results)
  have events := repeatedField_perm 30 Encoded.eventEntry (pair.events.inline_perm draftOf.events)
  have timers := repeatedField_perm 31 Encoded.timerEntry (pair.timers.inline_perm draftOf.timers)
  have inboxDirectory := directoryField_record 35 pair.inbox.sameRecord
  have receiptsDirectory := directoryField_record 36 pair.receipts.sameRecord
  have resultsDirectory := directoryField_record 37 pair.results.sameRecord
  have eventsDirectory := directoryField_record 38 pair.events.sameRecord
  have timersDirectory := directoryField_record 39 pair.timers.sameRecord
  simp only [Head.encodedLen, heldHead, fullHead, Head.holding, inbox, receipts, results, events, timers, inboxDirectory,
    receiptsDirectory, resultsDirectory, eventsDirectory, timersDirectory]
  rfl

theorem countP_inline {Entry : Type} (pages : PageEntry Entry) (dir : Directory) (entries : List Entry) :
    (entries.countP fun entry => dir.isInline (pages.key entry)) = (Encoded.inlineEntries pages dir entries).length :=
  countP_eq_length_filter

section

variable (inv : RootInv ids limits root) (loads : Loads ids root lists)
  (draftOf : DraftOf ids root lists whole drafted) (pair : IndexPair ids limits root whole lists inMemory all)
  (quota : Quota)

include inv loads draftOf pair quota

theorem reservedIndexPages_pair (list : ListKind) :
    limits.reservedIndexPages { heldHead whole drafted inMemory with quota := quota } list =
      limits.reservedIndexPages { fullHead whole all with quota := quota } list := by
  have sealedDepth := inboxDepth_pair inv loads draftOf pair
  have depth : Head.inboxDepth { heldHead whole drafted inMemory with quota := quota } =
      Head.inboxDepth { fullHead whole all with quota := quota } := sealedDepth
  have results := (pair.results.inline_perm draftOf.results).length_eq
  have events := (pair.events.inline_perm draftOf.events).length_eq
  rw [← countP_inline, ← countP_inline] at results events
  cases list with
  | results =>
    rw [Limits.reservedIndexPages, Limits.reservedIndexPages, depth]
    exact congrArg (fun count => (count + _ - 1) / _) results
  | events =>
    rw [Limits.reservedIndexPages, Limits.reservedIndexPages]
    exact congrArg (fun count => (count + _ - 1) / _) events
  | inbox => rfl
  | receipts => rfl
  | timers => rfl

theorem reservedBytes_pair : limits.reservedBytes ids { heldHead whole drafted inMemory with quota := quota } =
      limits.reservedBytes ids { fullHead whole all with quota := quota } := by
  have sealedDepth := inboxDepth_pair inv loads draftOf pair
  have depth : Head.inboxDepth { heldHead whole drafted inMemory with quota := quota } =
      Head.inboxDepth { fullHead whole all with quota := quota } := sealedDepth
  rw [Limits.reservedBytes, Limits.reservedBytes, Limits.indexReserveBytes, Limits.indexReserveBytes, depth,
    reservedIndexPages_pair inv loads draftOf pair, reservedIndexPages_pair inv loads draftOf pair]
  rfl

end

/-- The root that the publish in memory leaves is the one that the publish on the whole root leaves. -/
theorem rejoin_pair (inv : RootInv ids limits root) (loads : Loads ids root lists)
    (tracked : Tracked ids whole) (draftOf : DraftOf ids root lists whole drafted)
    (pair : IndexPair ids limits root whole lists inMemory all) (quota : Quota) :
    rejoin ids root lists { heldHead whole drafted inMemory with quota := quota } =
      settled ids { fullHead whole all with quota := quota } := by
  obtain ⟨_, _, inboxDescribed⟩ := inv.paged.inbox
  obtain ⟨_, _, receiptsDescribed⟩ := inv.paged.receipts
  obtain ⟨_, _, resultsDescribed⟩ := inv.paged.results
  obtain ⟨_, _, eventsDescribed⟩ := inv.paged.events
  obtain ⟨_, _, timersDescribed⟩ := inv.paged.timers
  have inbox := pair.inbox.rejoinList_eq inboxDescribed loads.inbox tracked.inbox_distinct draftOf.inbox
  have receipts := pair.receipts.rejoinList_eq receiptsDescribed loads.receipts tracked.receiptSeqs draftOf.receipts
  have results := pair.results.rejoinList_eq resultsDescribed loads.results tracked.results_distinct draftOf.results
  have events := pair.events.rejoinList_eq eventsDescribed loads.events tracked.eventSeqs draftOf.events
  have timers := pair.timers.rejoinList_eq timersDescribed loads.timers tracked.generations draftOf.timers
  have index : inMemory.allLoaded = all.allLoaded := by
    have sameLoaded : ∀ {left right : Directory}, left.SameRecord right → left.allLoaded = right.allLoaded := by
      intro left right same
      rw [Directory.allLoaded, Directory.allLoaded, same.1, same.2.1, same.2.2]
    rw [Index.allLoaded, Index.allLoaded, sameLoaded pair.inbox.sameRecord, sameLoaded pair.receipts.sameRecord,
      sameLoaded pair.results.sameRecord, sameLoaded pair.events.sameRecord, sameLoaded pair.timers.sameRecord]
  simp only [rejoin, settled, heldHead, fullHead, Head.holding, inbox, receipts, results, events, timers, index]

end Publish

end Ravel.Agents
