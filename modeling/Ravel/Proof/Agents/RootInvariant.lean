import Ravel.Proof.Agents.LoadedPages

namespace Ravel.Agents

open List Library

/-- The identifier was derived for a turn on the input. -/
def TurnOf (digests : Digests) (incarnation acceptSeq : Nat) (turnId : Id128) : Prop :=
  ∃ epoch failedAttempts, turnId = digests.turnId incarnation acceptSeq epoch failedAttempts

/-- The active turn runs on the first input of the inbox, on the current state. -/
structure Running (digests : Digests) (head : Head) (turn : ActiveTurn) : Prop where
  waiting : turn.inputAcceptSeq ∈ head.inbox.map (·.acceptSeq)
  first : ∀ entry ∈ head.inbox, turn.inputAcceptSeq ≤ entry.acceptSeq
  base : turn.baseStateVersion = head.stateVersion
  derived : TurnOf digests head.incarnation turn.inputAcceptSeq turn.turnId

/-- How the entries of a root fit together. -/
structure Tracked (digests : Digests) (head : Head) : Prop where
  started : 1 ≤ head.nextAcceptSeq
  conserved : (head.inbox.map (·.acceptSeq) ++ head.results.map (·.acceptSeq)).Perm (List.range' 1 (head.nextAcceptSeq - 1))
  running : ∀ turn, head.activeTurn = some turn → Running digests head turn
  completed : head.stateVersion = head.results.countP fun result => result.status = .completed
  failedTurns : ∀ entry ∈ head.inbox, ∀ turnId, entry.lastFailedTurnId = some turnId →
    TurnOf digests head.incarnation entry.acceptSeq turnId
  resultTurns : ∀ result ∈ head.results, ∀ turnId, result.turnId = some turnId →
    TurnOf digests head.incarnation result.acceptSeq turnId
  receiptKeys : (head.receipts.map fun receipt => (receipt.requestId, receipt.handler)).Nodup
  receiptSeqs : (head.receipts.map (·.acceptSeq)).Nodup
  receiptBound : ∀ receipt ∈ head.receipts, receipt.acceptSeq < head.nextAcceptSeq
  timerIds : (head.timers.map (·.timerId)).Nodup
  timerKeys : ∀ timer ∈ head.timers, timer.timerId = digests.timerId head.incarnation timer.timerKey
  generations : (head.timers.map (·.generation)).Nodup
  generationBound : ∀ timer ∈ head.timers, timer.generation ≤ head.timerGeneration
  effectIds : (head.effects.map (·.effectId)).Nodup
  eventSeqs : (head.events.map (·.eventSeq)).Nodup
  eventBound : ∀ event ∈ head.events, event.eventSeq < head.nextEventSeq

/-- Two heads with the same fields and entries, in any order, whatever their revision, counters and index. -/
structure SameEntries (left right : Head) : Prop where
  inbox : left.inbox.Perm right.inbox
  receipts : left.receipts.Perm right.receipts
  results : left.results.Perm right.results
  events : left.events.Perm right.events
  timers : left.timers.Perm right.timers
  fields : left = { right with
    rootRevision := left.rootRevision
    quota := left.quota
    inbox := left.inbox
    receipts := left.receipts
    results := left.results
    events := left.events
    timers := left.timers
    index := left.index }

/-- The most entries of one page. -/
def Limits.pageSize (limits : Limits) : Nat :=
  Nat.max limits.maxPageEntries 1

/-- How the directories of a root describe its lists, and what is never sealed. -/
structure Paged (digests : Digests) (limits : Limits) (root : Head) : Prop where
  inbox : Describes digests (inboxPages digests) limits.pageSize root.index.inbox root.inbox
  receipts : Describes digests (receiptPages digests) limits.pageSize root.index.receipts root.receipts
  results : Describes digests (resultPages digests) limits.pageSize root.index.results root.results
  events : Describes digests (eventPages digests) limits.pageSize root.index.events root.events
  timers : Describes digests (timerPages digests) limits.pageSize root.index.timers root.timers
  inboxTail : root.index.inbox.tailFrom ≤ root.nextAcceptSeq
  receiptTail : root.index.receipts.tailFrom ≤ root.nextAcceptSeq
  resultTail : root.index.results.tailFrom ≤ root.nextAcceptSeq
  eventTail : root.index.events.tailFrom ≤ root.nextEventSeq
  timerTail : root.index.timers.tailFrom ≤ root.timerGeneration + 1
  pendingOpen : ∀ entry ∈ root.inbox, root.index.results.tailFrom ≤ entry.acceptSeq
  scheduledOpen : ∀ timer ∈ root.timers, timer.status = .scheduled → root.index.timers.tailFrom ≤ timer.generation
  inboxOpen : root.index.inbox.pages ≠ [] → ∃ entry ∈ root.inbox, root.index.inbox.tailFrom ≤ entry.acceptSeq
  allLoaded : root.index.allLoaded = root.index
  inOrder : root.inbox.Pairwise fun left right => left.acceptSeq < right.acceptSeq

/-- What holds of every root of a run. -/
structure RootInv (digests : Digests) (limits : Limits) (root : Head) : Prop where
  tracked : Tracked digests root
  paged : Paged digests limits root

namespace Tracked

variable {digests : Digests} {head : Head}

section

variable (tracked : Tracked digests head)

include tracked

theorem inputs_distinct : (head.inbox.map (·.acceptSeq) ++ head.results.map (·.acceptSeq)).Nodup :=
  tracked.conserved.nodup_iff.mpr nodup_range'

theorem inbox_distinct : (head.inbox.map (·.acceptSeq)).Nodup :=
  (nodup_append.mp tracked.inputs_distinct).1

theorem results_distinct : (head.results.map (·.acceptSeq)).Nodup :=
  (nodup_append.mp tracked.inputs_distinct).2.1

theorem inbox_bound : ∀ entry ∈ head.inbox, entry.acceptSeq < head.nextAcceptSeq := by
  intro entry member
  have listed : entry.acceptSeq ∈ head.inbox.map (·.acceptSeq) ++ head.results.map (·.acceptSeq) :=
    mem_append_left _ (mem_map_of_mem member)
  have range := tracked.conserved.mem_iff.mp listed
  rw [mem_range'_1] at range
  have := tracked.started
  omega

theorem results_bound : ∀ result ∈ head.results, result.acceptSeq < head.nextAcceptSeq := by
  intro result member
  have listed : result.acceptSeq ∈ head.inbox.map (·.acceptSeq) ++ head.results.map (·.acceptSeq) :=
    mem_append_right _ (mem_map_of_mem member)
  have range := tracked.conserved.mem_iff.mp listed
  rw [mem_range'_1] at range
  have := tracked.started
  omega

/-- An input that waits has no result yet. -/
theorem waiting_no_result {acceptSeq : Nat} (waiting : acceptSeq ∈ head.inbox.map (·.acceptSeq)) : acceptSeq ∉ head.results.map (·.acceptSeq) := by
  intro settled
  exact (nodup_append.mp tracked.inputs_distinct).2.2 _ waiting _ settled rfl

end

theorem running_of_same {left right : Head} (same : SameEntries left right) {turn : ActiveTurn}
    (running : Running digests right turn) : Running digests left turn where
  waiting := (same.inbox.map _).mem_iff.mpr running.waiting
  first entry member := running.first entry (same.inbox.mem_iff.mp member)
  base := by rw [same.fields]; exact running.base
  derived := by rw [same.fields]; exact running.derived

theorem of_same {left right : Head} (tracked : Tracked digests right) (same : SameEntries left right) :
    Tracked digests left where
  started := by rw [same.fields]; exact tracked.started
  conserved := by
    have next : left.nextAcceptSeq = right.nextAcceptSeq := by rw [same.fields]
    rw [next]
    exact ((same.inbox.map _).append (same.results.map _)).trans tracked.conserved
  running turn isRunning := by
    have active : left.activeTurn = right.activeTurn := by rw [same.fields]
    exact running_of_same same (tracked.running turn (active ▸ isRunning))
  completed := by
    have version : left.stateVersion = right.stateVersion := by rw [same.fields]
    rw [version, same.results.countP_eq]
    exact tracked.completed
  failedTurns entry member := by
    rw [same.fields]
    exact tracked.failedTurns entry (same.inbox.mem_iff.mp member)
  resultTurns result member := by
    rw [same.fields]
    exact tracked.resultTurns result (same.results.mem_iff.mp member)
  receiptKeys := (same.receipts.map _).nodup_iff.mpr tracked.receiptKeys
  receiptSeqs := (same.receipts.map _).nodup_iff.mpr tracked.receiptSeqs
  receiptBound receipt member := by
    rw [same.fields]
    exact tracked.receiptBound receipt (same.receipts.mem_iff.mp member)
  timerIds := (same.timers.map _).nodup_iff.mpr tracked.timerIds
  timerKeys timer member := by
    rw [same.fields]
    exact tracked.timerKeys timer (same.timers.mem_iff.mp member)
  generations := (same.timers.map _).nodup_iff.mpr tracked.generations
  generationBound timer member := by
    rw [same.fields]
    exact tracked.generationBound timer (same.timers.mem_iff.mp member)
  effectIds := by rw [same.fields]; exact tracked.effectIds
  eventSeqs := (same.events.map _).nodup_iff.mpr tracked.eventSeqs
  eventBound event member := by
    rw [same.fields]
    exact tracked.eventBound event (same.events.mem_iff.mp member)

theorem revised (tracked : Tracked digests head) (revision : Nat) : Tracked digests { head with rootRevision := revision } :=
  tracked.of_same ⟨Perm.refl _, Perm.refl _, Perm.refl _, Perm.refl _, Perm.refl _, rfl⟩

end Tracked

section AllLoaded

variable {dir : Directory}

theorem allLoaded_unloaded (loaded : dir.allLoaded = dir) : dir.unloaded = [] := by
  rw [Directory.unloaded, filter_eq_nil_iff]
  intro page within
  rw [mem_range] at within
  rw [← loaded, Directory.isLoaded, Directory.allLoaded, getD_eq_getElem?_getD, getElem?_replicate,
    if_pos within]
  simp

theorem allLoaded_isLoaded (loaded : dir.allLoaded = dir) {page : Nat} (within : page < dir.pages.length) :
    dir.isLoaded page = true := by
  rw [← loaded, Directory.isLoaded, Directory.allLoaded, getD_eq_getElem?_getD, getElem?_replicate,
    if_pos within]
  rfl

theorem allLoaded_total (loaded : dir.allLoaded = dir) (inMemory : Nat) : dir.total inMemory = inMemory := by
  rw [Directory.total, allLoaded_unloaded loaded, foldl_nil]

theorem allLoaded_unloadedMarked (loaded : dir.allLoaded = dir) : dir.unloadedMarked = 0 := by
  rw [Directory.unloadedMarked, allLoaded_unloaded loaded, foldl_nil]

theorem allLoaded_inMemory (loaded : dir.allLoaded = dir) (key : Nat) : dir.inMemory key = true := by
  rw [Directory.inMemory]
  cases routed : dir.pageFor key with
  | none => rfl
  | some page =>
    apply allLoaded_isLoaded loaded
    rw [pageFor_eq_pageOf] at routed
    simpa using pageOf_lt routed

end AllLoaded

namespace Paged

variable {digests : Digests} {limits : Limits} {root : Head}

theorem inboxLoaded (paged : Paged digests limits root) : root.index.inbox.allLoaded = root.index.inbox :=
  congrArg Index.inbox paged.allLoaded

theorem receiptsLoaded (paged : Paged digests limits root) : root.index.receipts.allLoaded = root.index.receipts :=
  congrArg Index.receipts paged.allLoaded

theorem resultsLoaded (paged : Paged digests limits root) : root.index.results.allLoaded = root.index.results :=
  congrArg Index.results paged.allLoaded

theorem eventsLoaded (paged : Paged digests limits root) : root.index.events.allLoaded = root.index.events :=
  congrArg Index.events paged.allLoaded

theorem timersLoaded (paged : Paged digests limits root) : root.index.timers.allLoaded = root.index.timers :=
  congrArg Index.timers paged.allLoaded

end Paged

end Ravel.Agents
