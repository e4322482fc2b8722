import Ravel.Proof.Agents.PagedRefinement

namespace Ravel.Agents

open List Library

section Tails

variable {Entry : Type} {digests : Digests} {pages : PageEntry Entry} {size : Nat} {dir : Directory}
  {before edited : List Entry} {groups : List (PageGroup Entry)} {rest : List Entry} {sealBelow : WithTop Nat}

section

variable (described : Described digests pages size dir before groups rest)

include described

theorem sealBase_tail_le : (sealBase pages dir.tailFrom edited groups).tail ≤ dir.tailFrom := by
  rw [sealBase]
  split
  · rename_i last pulls lastAt
    dsimp only
    split
    · exact Nat.zero_le _
    · exact Nat.le_of_lt (described.layout.starts last (mem_of_getLast? lastAt))
  · exact Nat.le_refl _

/-- The new tail is not behind the old one, or it is the key of an entry within the bound of the seal. -/
theorem resealedTail_cases (edits : EditsAbove pages.key dir.tailFrom before edited)
    (distinct : (edited.map pages.key).Nodup) :
    resealedTail pages size sealBelow (sealBase pages dir.tailFrom edited groups) ≤ dir.tailFrom ∨
      ((resealedTail pages size sealBelow (sealBase pages dir.tailFrom edited groups) : Nat) : WithTop Nat) ≤ sealBelow ∧
        ∃ entry ∈ edited, pages.key entry = resealedTail pages size sealBelow (sealBase pages dir.tailFrom edited groups) := by
  have laidOut := baseLaidOut described edits distinct
  rw [resealedTail]
  split
  · exact .inl (Nat.zero_le _)
  · rw [openTail]
    split
    · exact .inl (sealBase_tail_le described)
    · rename_i cut
      right
      refine ⟨openGroups_tail_le cut, ?_⟩
      have openLeft : (sealBase pages dir.tailFrom edited groups).openPage ≠ [] := by
        intro empty
        rw [sealCut, empty] at cut
        exact cut rfl
      have restLeft : (sealCut pages size sealBelow (sealBase pages dir.tailFrom edited groups)).2 ≠ [] :=
        openGroups_rest_ne openLeft
      obtain ⟨next, others, restEq⟩ := exists_cons_of_ne_nil restLeft
      refine ⟨next, ?_, by rw [restEq]; rfl⟩
      rw [laidOut.members, contents, mem_append]
      right
      apply (@openGroups_rest_sublist Entry pages.key size sealBelow _ _).subset
      show next ∈ (sealCut pages size sealBelow (sealBase pages dir.tailFrom edited groups)).2
      rw [restEq]
      exact mem_cons_self

theorem resealedTail_le (edits : EditsAbove pages.key dir.tailFrom before edited)
    (distinct : (edited.map pages.key).Nodup) {bound : Nat} (tail : dir.tailFrom ≤ bound)
    (keys : ∀ entry ∈ edited, pages.key entry ≤ bound) :
    resealedTail pages size sealBelow (sealBase pages dir.tailFrom edited groups) ≤ bound := by
  rcases @resealedTail_cases _ _ _ _ _ _ _ _ _ sealBelow described edits distinct with old | ⟨-, entry, member, same⟩
  · exact Nat.le_trans old tail
  · rw [← same]
    exact keys entry member

/-- The directory stays a record of the list in any order and with any pages in memory. -/
theorem Described.reorder {flagged : Directory} {list : List Entry} (same : flagged.SameRecord dir)
    (reordered : list.Perm before) : Described digests pages size flagged list groups rest where
  layout := by rw [same.2.1]; exact described.layout
  recorded := by rw [same.1]; exact described.recorded
  paged := by rw [same.2.2]; exact described.paged
  filled := described.filled
  fits := described.fits
  ascending := described.ascending
  members entry := reordered.mem_iff.trans (described.members entry)
  distinct := (reordered.map pages.key).nodup_iff.mpr described.distinct
  restDistinct := described.restDistinct
  emptyTail := by rw [same.2.1]; exact described.emptyTail

end

/-- What a seal of a whole list leaves. -/
structure SealedList (digests : Digests) (pages : PageEntry Entry) (bounds : PageBounds) (sealBelow : WithTop Nat)
    (dir : Directory) (edited : List Entry) (groups : List (PageGroup Entry)) (after : Directory) : Prop where
  described : Described digests pages (Nat.max bounds.maxPageEntries 1) after edited
    (resealedGroups pages (Nat.max bounds.maxPageEntries 1) sealBelow (sealBase pages dir.tailFrom edited groups))
    (sealCut pages (Nat.max bounds.maxPageEntries 1) sealBelow (sealBase pages dir.tailFrom edited groups)).2
  tail : after.tailFrom =
    resealedTail pages (Nat.max bounds.maxPageEntries 1) sealBelow (sealBase pages dir.tailFrom edited groups)
  within : (resealedGroups pages (Nat.max bounds.maxPageEntries 1) sealBelow
    (sealBase pages dir.tailFrom edited groups)).length ≤ bounds.maxIndexPages
  unloaded : after.unloadedPages = []

theorem sealedList_of_ok {bounds : PageBounds} {after : Directory} {objects : List PageObject}
    (described : Described digests pages (Nat.max bounds.maxPageEntries 1) dir before groups rest)
    (edits : EditsAbove pages.key dir.tailFrom before edited) (distinct : (edited.map pages.key).Nodup)
    (allLoaded : dir.allLoaded = dir) (sealed : sealDirectory digests pages dir edited sealBelow bounds = .ok (after, objects)) :
    SealedList digests pages bounds sealBelow dir edited groups after := by
  obtain ⟨flags, written, outcome, unloaded⟩ := sealDirectory_spec (sealable_whole described edits distinct allLoaded) sealBelow
  rw [sealed] at outcome
  split at outcome
  · cases outcome
  · rename_i within
    cases outcome
    refine ⟨described_sealed (baseLaidOut described edits distinct) distinct (Nat.le_max_right _ _) sealBelow flags, rfl,
      Nat.le_of_not_lt within, ?_⟩
    rw [unloaded, Directory.unloadedPages, allLoaded_unloaded allLoaded]
    rfl

end Tails

section Publish

variable {digests : Digests} {limits : Limits} {base whole : Head}

/-- The five sealed lists of a root. -/
structure SealedRoot (digests : Digests) (limits : Limits) (base whole : Head) (index : Index) : Prop where
  inbox : ∃ groups rest,
    Described digests (inboxPages digests) limits.pageSize base.index.inbox base.inbox groups rest ∧
    SealedList digests (inboxPages digests) limits.pageBounds ⊤ base.index.inbox whole.inbox groups index.inbox
  receipts : ∃ groups rest,
    Described digests (receiptPages digests) limits.pageSize base.index.receipts base.receipts groups rest ∧
    SealedList digests (receiptPages digests) limits.pageBounds ⊤ base.index.receipts whole.receipts groups index.receipts
  results : ∃ groups rest,
    Described digests (resultPages digests) limits.pageSize base.index.results base.results groups rest ∧
    SealedList digests (resultPages digests) limits.pageBounds whole.pendingFloor base.index.results whole.results groups
      index.results
  events : ∃ groups rest,
    Described digests (eventPages digests) limits.pageSize base.index.events base.events groups rest ∧
    SealedList digests (eventPages digests) limits.pageBounds ⊤ base.index.events whole.events groups index.events
  timers : ∃ groups rest,
    Described digests (timerPages digests) limits.pageSize base.index.timers base.timers groups rest ∧
    SealedList digests (timerPages digests) limits.pageBounds whole.firstScheduled base.index.timers whole.timers groups
      index.timers

theorem sealIndex_ok (inv : RootInv digests limits base) (edits : EditsRoot digests base whole)
    (tracked : Tracked digests whole) {sealed : Head}
    (isSealed : sealIndex digests whole limits.pageBounds = .ok sealed) :
    ∃ index, sealed = { whole with index := index } ∧ SealedRoot digests limits base whole index := by
  obtain ⟨inboxGroups, inboxRest, inboxDescribed⟩ := inv.paged.inbox
  obtain ⟨receiptGroups, receiptRest, receiptsDescribed⟩ := inv.paged.receipts
  obtain ⟨resultGroups, resultRest, resultsDescribed⟩ := inv.paged.results
  obtain ⟨eventGroups, eventRest, eventsDescribed⟩ := inv.paged.events
  obtain ⟨timerGroups, timerRest, timersDescribed⟩ := inv.paged.timers
  rw [sealIndex, edits.index] at isSealed
  obtain ⟨⟨inbox, inboxObjects⟩, inboxSealed, receiptsNext⟩ := ok_of_bind isSealed
  obtain ⟨⟨receipts, receiptObjects⟩, receiptsSealed, resultsNext⟩ := ok_of_bind receiptsNext
  obtain ⟨⟨results, resultObjects⟩, resultsSealed, eventsNext⟩ := ok_of_bind resultsNext
  obtain ⟨⟨events, eventObjects⟩, eventsSealed, timersNext⟩ := ok_of_bind eventsNext
  obtain ⟨⟨timers, timerObjects⟩, timersSealed, done⟩ := ok_of_bind timersNext
  cases done
  refine ⟨_, rfl, ?_⟩
  exact {
    inbox := ⟨inboxGroups, inboxRest, inboxDescribed,
      sealedList_of_ok inboxDescribed edits.inbox tracked.inbox_distinct inv.paged.inboxLoaded inboxSealed⟩
    receipts := ⟨receiptGroups, receiptRest, receiptsDescribed,
      sealedList_of_ok receiptsDescribed edits.receipts tracked.receiptSeqs inv.paged.receiptsLoaded receiptsSealed⟩
    results := ⟨resultGroups, resultRest, resultsDescribed,
      sealedList_of_ok resultsDescribed edits.results tracked.results_distinct inv.paged.resultsLoaded resultsSealed⟩
    events := ⟨eventGroups, eventRest, eventsDescribed,
      sealedList_of_ok eventsDescribed edits.events tracked.eventSeqs inv.paged.eventsLoaded eventsSealed⟩
    timers := ⟨timerGroups, timerRest, timersDescribed,
      sealedList_of_ok timersDescribed edits.timers tracked.generations inv.paged.timersLoaded timersSealed⟩ }

/-- A list whose seal would have more pages than a directory may. -/
inductive Overfull (digests : Digests) (limits : Limits) (base whole : Head) : ListKind → Prop where
  | inbox (groups : List (PageGroup InboxEntry)) (rest : List InboxEntry)
      (described : Described digests (inboxPages digests) limits.pageSize base.index.inbox base.inbox groups rest)
      (exceeds : limits.maxIndexPages < (resealedGroups (inboxPages digests) limits.pageSize ⊤
        (sealBase (inboxPages digests) base.index.inbox.tailFrom whole.inbox groups)).length) :
      Overfull digests limits base whole .inbox
  | receipts (groups : List (PageGroup Receipt)) (rest : List Receipt)
      (described : Described digests (receiptPages digests) limits.pageSize base.index.receipts base.receipts groups rest)
      (exceeds : limits.maxIndexPages < (resealedGroups (receiptPages digests) limits.pageSize ⊤
        (sealBase (receiptPages digests) base.index.receipts.tailFrom whole.receipts groups)).length) :
      Overfull digests limits base whole .receipts
  | results (groups : List (PageGroup ResultEntry)) (rest : List ResultEntry)
      (described : Described digests (resultPages digests) limits.pageSize base.index.results base.results groups rest)
      (exceeds : limits.maxIndexPages < (resealedGroups (resultPages digests) limits.pageSize whole.pendingFloor
        (sealBase (resultPages digests) base.index.results.tailFrom whole.results groups)).length) :
      Overfull digests limits base whole .results
  | events (groups : List (PageGroup EventEntry)) (rest : List EventEntry)
      (described : Described digests (eventPages digests) limits.pageSize base.index.events base.events groups rest)
      (exceeds : limits.maxIndexPages < (resealedGroups (eventPages digests) limits.pageSize ⊤
        (sealBase (eventPages digests) base.index.events.tailFrom whole.events groups)).length) :
      Overfull digests limits base whole .events
  | timers (groups : List (PageGroup TimerEntry)) (rest : List TimerEntry)
      (described : Described digests (timerPages digests) limits.pageSize base.index.timers base.timers groups rest)
      (exceeds : limits.maxIndexPages < (resealedGroups (timerPages digests) limits.pageSize whole.firstScheduled
        (sealBase (timerPages digests) base.index.timers.tailFrom whole.timers groups)).length) :
      Overfull digests limits base whole .timers

/-- A seal of a whole list fails only when its pages would be more than the directory holds. -/
theorem sealDirectory_error {Entry : Type} {pages : PageEntry Entry} {dir : Directory} {before edited : List Entry}
    {groups : List (PageGroup Entry)} {rest : List Entry} {sealBelow : WithTop Nat} {bounds : PageBounds} {error : PageError}
    (described : Described digests pages (Nat.max bounds.maxPageEntries 1) dir before groups rest)
    (edits : EditsAbove pages.key dir.tailFrom before edited) (distinct : (edited.map pages.key).Nodup)
    (allLoaded : dir.allLoaded = dir) (failed : sealDirectory digests pages dir edited sealBelow bounds = .error error) :
    error = .directoryFull pages.list bounds.maxIndexPages ∧ bounds.maxIndexPages <
      (resealedGroups pages (Nat.max bounds.maxPageEntries 1) sealBelow (sealBase pages dir.tailFrom edited groups)).length := by
  obtain ⟨flags, written, outcome, -⟩ := sealDirectory_spec (sealable_whole described edits distinct allLoaded) sealBelow
  rw [failed] at outcome
  split at outcome
  · rename_i exceeds
    cases outcome
    exact ⟨rfl, exceeds⟩
  · cases outcome

theorem sealIndex_error (inv : RootInv digests limits base) (edits : EditsRoot digests base whole)
    (tracked : Tracked digests whole) {error : PageError}
    (failed : sealIndex digests whole limits.pageBounds = .error error) :
    ∃ list, error = .directoryFull list limits.maxIndexPages ∧ Overfull digests limits base whole list := by
  obtain ⟨inboxGroups, inboxRest, inboxDescribed⟩ := inv.paged.inbox
  obtain ⟨receiptGroups, receiptRest, receiptsDescribed⟩ := inv.paged.receipts
  obtain ⟨resultGroups, resultRest, resultsDescribed⟩ := inv.paged.results
  obtain ⟨eventGroups, eventRest, eventsDescribed⟩ := inv.paged.events
  obtain ⟨timerGroups, timerRest, timersDescribed⟩ := inv.paged.timers
  rw [sealIndex, edits.index] at failed
  rcases error_of_bind failed with inboxFailed | ⟨_, -, receiptsNext⟩
  · obtain ⟨isFull, exceeds⟩ :=
      sealDirectory_error inboxDescribed edits.inbox tracked.inbox_distinct inv.paged.inboxLoaded inboxFailed
    exact ⟨_, isFull, .inbox _ _ inboxDescribed exceeds⟩
  rcases error_of_bind receiptsNext with receiptsFailed | ⟨_, -, resultsNext⟩
  · obtain ⟨isFull, exceeds⟩ :=
      sealDirectory_error receiptsDescribed edits.receipts tracked.receiptSeqs inv.paged.receiptsLoaded receiptsFailed
    exact ⟨_, isFull, .receipts _ _ receiptsDescribed exceeds⟩
  rcases error_of_bind resultsNext with resultsFailed | ⟨_, -, eventsNext⟩
  · obtain ⟨isFull, exceeds⟩ :=
      sealDirectory_error resultsDescribed edits.results tracked.results_distinct inv.paged.resultsLoaded resultsFailed
    exact ⟨_, isFull, .results _ _ resultsDescribed exceeds⟩
  rcases error_of_bind eventsNext with eventsFailed | ⟨_, -, timersNext⟩
  · obtain ⟨isFull, exceeds⟩ :=
      sealDirectory_error eventsDescribed edits.events tracked.eventSeqs inv.paged.eventsLoaded eventsFailed
    exact ⟨_, isFull, .events _ _ eventsDescribed exceeds⟩
  rcases error_of_bind timersNext with timersFailed | ⟨_, -, done⟩
  · obtain ⟨isFull, exceeds⟩ :=
      sealDirectory_error timersDescribed edits.timers tracked.generations inv.paged.timersLoaded timersFailed
    exact ⟨_, isFull, .timers _ _ timersDescribed exceeds⟩
  · cases done

theorem pendingFloor_le {head : Head} {entry : InboxEntry} (member : entry ∈ head.inbox) :
    head.pendingFloor ≤ entry.acceptSeq := by
  have listed : entry.acceptSeq ∈ (head.activeTurn.map (·.inputAcceptSeq)).toList ++
      (head.index.inbox.pages.head?.map (·.firstKey)).toList ++ head.inbox.map (·.acceptSeq) :=
    mem_append_right _ (mem_map_of_mem member)
  rw [Head.pendingFloor]
  cases least : List.min? ((head.activeTurn.map (·.inputAcceptSeq)).toList ++
      (head.index.inbox.pages.head?.map (·.firstKey)).toList ++ head.inbox.map (·.acceptSeq)) with
  | none =>
    rw [min?_eq_none_iff] at least
    rw [least] at listed
    cases listed
  | some floor => exact (min?_eq_some_iff.mp least).2 _ listed

theorem firstScheduled_le {head : Head} {timer : TimerEntry} (member : timer ∈ head.timers)
    (scheduled : timer.status = .scheduled) : head.firstScheduled ≤ (timer.generation : WithTop Nat) := by
  have listed : (timer.generation : WithTop Nat) ∈ ((head.timers.filter fun timer => decide (timer.status = .scheduled)).map
      fun timer => (timer.generation : WithTop Nat)) :=
    mem_map_of_mem (mem_filter.mpr ⟨member, decide_eq_true scheduled⟩)
  rw [Head.firstScheduled]
  cases least : List.min? ((head.timers.filter fun timer => decide (timer.status = .scheduled)).map
      fun timer => (timer.generation : WithTop Nat)) with
  | none =>
    rw [min?_eq_none_iff] at least
    rw [least] at listed
    cases listed
  | some first => exact min?_le least _ listed

theorem inboxOpen_sealed (inv : RootInv digests limits base) (edits : EditsRoot digests base whole)
    {groups : List (PageGroup InboxEntry)} {rest : List InboxEntry} {after : Directory}
    (described : Described digests (inboxPages digests) limits.pageSize base.index.inbox base.inbox groups rest)
    (sealed : SealedList digests (inboxPages digests) limits.pageBounds ⊤ base.index.inbox whole.inbox groups after)
    (pagesLeft : after.pages ≠ []) : ∃ entry ∈ whole.inbox, after.tailFrom ≤ entry.acceptSeq := by
  have openLeft : (sealBase (inboxPages digests) base.index.inbox.tailFrom whole.inbox groups).openPage ≠ [] := by
    intro empty
    rw [sealBase] at empty
    split at empty
    · rename_i last pulls lastAt
      -- The one input that left was open, so the page that goes back still has its inputs.
      have lastIn := mem_of_getLast? lastAt
      simp only [pulled, Bool.and_eq_true, Bool.not_eq_true', List.isEmpty_iff] at pulls
      have basePages : base.index.inbox.pages ≠ [] := by
        rw [described.recorded]
        intro noGroups
        rw [map_eq_nil_iff] at noGroups
        rw [noGroups] at lastIn
        cases lastIn
      have stays : ∀ entry ∈ base.inbox, base.index.inbox.tailFrom ≤ entry.acceptSeq →
          entry.acceptSeq ∉ whole.inbox.map (·.acceptSeq) := by
        intro entry _ isOpen listed
        obtain ⟨kept, keptIn, same⟩ := mem_map.mp listed
        have opened : kept ∈ openEntries (inboxPages digests) base.index.inbox.tailFrom whole.inbox := by
          rw [openEntries, mem_filter]
          refine ⟨keptIn, decide_eq_true ?_⟩
          show _ ≤ kept.acceptSeq
          rw [same]
          exact isOpen
        rw [pulls.1.2] at opened
        cases opened
      obtain ⟨taken, others⟩ := edits.oneTaken
      obtain ⟨openEntry, openIn, isOpen⟩ := inv.paged.inboxOpen basePages
      have isTaken : openEntry.acceptSeq = taken := by
        by_contra other
        exact stays openEntry openIn isOpen (others openEntry openIn other)
      obtain ⟨entry, inLast⟩ := exists_mem_of_ne_nil _ (described.filled last lastIn)
      obtain ⟨index, located⟩ := getElem?_of_mem lastIn
      have inBase := ((described.pageFor_group located entry).mpr inLast).1
      have below : entry.acceptSeq < base.index.inbox.tailFrom := (described.layout.inside last lastIn entry inLast).2
      obtain ⟨kept, keptIn, same⟩ := mem_map.mp (others entry inBase (by omega))
      have regrouped : kept ∈ (regroup (inboxPages digests).key whole.inbox last).entries :=
        mem_regroup.mpr ⟨keptIn, entry, inLast, same.symm⟩
      have noneLeft : (regroup (inboxPages digests).key whole.inbox last).entries = [] := empty
      rw [noneLeft] at regrouped
      cases regrouped
    · rename_i notPulled
      have noneOpen : openEntries (inboxPages digests) base.index.inbox.tailFrom whole.inbox = [] := by
        have sorted := congrArg List.length empty
        rw [length_sortBy] at sorted
        exact length_eq_zero_iff.mp sorted
      have noGroups : groups = [] := by
        by_contra someGroups
        obtain ⟨last, lastAt⟩ : ∃ last, groups.getLast? = some last := ⟨_, getLast?_eq_some_getLast someGroups⟩
        apply notPulled last _ lastAt
        rw [pulled, noneOpen]
        cases groups with
        | nil => exact absurd rfl someGroups
        | cons group others => rfl
      apply pagesLeft
      rw [sealed.described.recorded, map_eq_nil_iff, resealedGroups, sealBase, noGroups]
      simp [pulled, keptGroups, sealCut, noneOpen, openGroups]
  have restLeft : (sealCut (inboxPages digests) (Nat.max limits.pageBounds.maxPageEntries 1) ⊤
      (sealBase (inboxPages digests) base.index.inbox.tailFrom whole.inbox groups)).2 ≠ [] := openGroups_rest_ne openLeft
  obtain ⟨entry, inRest⟩ := exists_mem_of_ne_nil _ restLeft
  exact ⟨entry, ((sealed.described.pageFor_rest entry).mpr inRest).1, sealed.described.layout.behind entry inRest⟩

theorem settled_same (digests : Digests) (whole : Head) (index : Index) (quota : Quota) :
    SameEntries (settled digests { whole with index := index, quota := quota }) whole :=
  ⟨sortBy_perm _, sortBy_perm _, sortBy_perm _, sortBy_perm _, sortBy_perm _, rfl⟩

theorem allLoaded_sameRecord (dir : Directory) : dir.allLoaded.SameRecord dir := ⟨rfl, rfl, rfl⟩

/-- The directories of the root that a publish leaves describe its lists. -/
theorem paged_settled (inv : RootInv digests limits base) (edits : EditsRoot digests base whole)
    (tracked : Tracked digests whole) {index : Index} (sealed : SealedRoot digests limits base whole index) (quota : Quota) :
    Paged digests limits (settled digests { whole with index := index, quota := quota }) := by
  have same := settled_same digests whole index quota
  obtain ⟨_, _, inboxDescribed, inbox⟩ := sealed.inbox
  obtain ⟨_, _, receiptsDescribed, receipts⟩ := sealed.receipts
  obtain ⟨_, _, resultsDescribed, results⟩ := sealed.results
  obtain ⟨_, _, eventsDescribed, events⟩ := sealed.events
  obtain ⟨_, _, timersDescribed, timers⟩ := sealed.timers
  exact {
    inbox := ⟨_, _, inbox.described.reorder (allLoaded_sameRecord _) same.inbox⟩
    receipts := ⟨_, _, receipts.described.reorder (allLoaded_sameRecord _) same.receipts⟩
    results := ⟨_, _, results.described.reorder (allLoaded_sameRecord _) same.results⟩
    events := ⟨_, _, events.described.reorder (allLoaded_sameRecord _) same.events⟩
    timers := ⟨_, _, timers.described.reorder (allLoaded_sameRecord _) same.timers⟩
    inboxTail := by
      show index.inbox.tailFrom ≤ whole.nextAcceptSeq
      rw [inbox.tail]
      exact resealedTail_le inboxDescribed edits.inbox tracked.inbox_distinct edits.inboxTail
        fun entry member => Nat.le_of_lt (tracked.inbox_bound entry member)
    receiptTail := by
      show index.receipts.tailFrom ≤ whole.nextAcceptSeq
      rw [receipts.tail]
      exact resealedTail_le receiptsDescribed edits.receipts tracked.receiptSeqs edits.receiptTail
        fun receipt member => Nat.le_of_lt (tracked.receiptBound receipt member)
    resultTail := by
      show index.results.tailFrom ≤ whole.nextAcceptSeq
      rw [results.tail]
      exact resealedTail_le resultsDescribed edits.results tracked.results_distinct edits.resultTail
        fun result member => Nat.le_of_lt (tracked.results_bound result member)
    eventTail := by
      show index.events.tailFrom ≤ whole.nextEventSeq
      rw [events.tail]
      exact resealedTail_le eventsDescribed edits.events tracked.eventSeqs edits.eventTail
        fun event member => Nat.le_of_lt (tracked.eventBound event member)
    timerTail := by
      show index.timers.tailFrom ≤ whole.timerGeneration + 1
      rw [timers.tail]
      exact resealedTail_le timersDescribed edits.timers tracked.generations edits.timerTail
        fun timer member => Nat.le_succ_of_le (tracked.generationBound timer member)
    pendingOpen := by
      intro entry member
      have waiting := same.inbox.mem_iff.mp member
      show index.results.tailFrom ≤ entry.acceptSeq
      rw [results.tail]
      rcases resealedTail_cases resultsDescribed edits.results tracked.results_distinct with old | ⟨below, -⟩
      · exact Nat.le_trans old (edits.pendingOpen entry waiting)
      · exact Nat.le_trans (WithTop.coe_le_coe.mp below) (pendingFloor_le waiting)
    scheduledOpen := by
      intro timer member scheduled
      have waiting := same.timers.mem_iff.mp member
      show index.timers.tailFrom ≤ timer.generation
      rw [timers.tail]
      rcases resealedTail_cases timersDescribed edits.timers tracked.generations with old | ⟨below, -⟩
      · exact Nat.le_trans old (edits.scheduledOpen timer waiting scheduled)
      · exact WithTop.coe_le_coe.mp (le_trans below (firstScheduled_le waiting scheduled))
    inboxOpen := by
      intro pagesLeft
      obtain ⟨entry, member, isOpen⟩ := inboxOpen_sealed inv edits inboxDescribed inbox pagesLeft
      exact ⟨entry, same.inbox.mem_iff.mpr member, isOpen⟩
    allLoaded := rfl
    inOrder := ascending_of_sorted (distinct_sortBy tracked.inbox_distinct) (sortBy_sorted _) }

end Publish

section Runs

variable {digests : Digests} {limits : Limits} {kernel : Kernel} {root published : Head} {now : Int64} {command : Command}
  {effects : List Effect} {reply : Reply}

/-- What a publish of the kernel on a whole root did. -/
structure Publication (digests : Digests) (limits : Limits) (root : Head) (now : Int64) (command : Command) (reply : Reply)
    (published whole : Head) (index : Index) : Prop where
  step : Step digests limits root now command whole reply
  outcome : published = { whole with rootRevision := published.rootRevision, index := index, quota := published.quota }
  isSealed : sealIndex digests { whole with rootRevision := published.rootRevision } limits.pageBounds =
    .ok { whole with rootRevision := published.rootRevision, index := index }
  capped : published.encodedLen digests ≤ limits.maxHeadBytes
  kept : guarded root command reply = true →
    published.encodedLen digests ≤ limits.maxHeadBytes - limits.reservedBytes digests published ∧
      ∀ list, (published.index.directory list).pages.length + limits.reservedIndexPages published list ≤ limits.maxIndexPages

variable {head : Head} {outcome : Transition} {c : Create}

theorem sealIndex_shape {sealed : Head} {bounds : PageBounds} (isSealed : sealIndex digests head bounds = .ok sealed) :
    ∃ index, sealed = { head with index := index } := by
  obtain ⟨_, _, receiptsNext⟩ := ok_of_bind isSealed
  obtain ⟨_, _, resultsNext⟩ := ok_of_bind receiptsNext
  obtain ⟨_, _, eventsNext⟩ := ok_of_bind resultsNext
  obtain ⟨_, _, timersNext⟩ := ok_of_bind eventsNext
  obtain ⟨_, _, done⟩ := ok_of_bind timersNext
  cases done
  exact ⟨_, rfl⟩

theorem checkGrowthHeadroom_ok
    (passed : checkGrowthHeadroom digests limits root command (.publish head effects reply) = .ok outcome) :
    outcome = .publish head effects reply ∧ (guarded root command reply = true →
      head.encodedLen digests ≤ limits.maxHeadBytes - limits.reservedBytes digests head ∧
        ∀ list, (head.index.directory list).pages.length + limits.reservedIndexPages head list ≤ limits.maxIndexPages) := by
  rw [checkGrowthHeadroom] at passed
  split at passed
  · rename_i exempt
    cases passed
    refine ⟨rfl, ?_⟩
    intro isGuarded
    rw [isGuarded] at exempt
    cases exempt
  · obtain ⟨bytes, passed⟩ := ok_of_guard passed
    obtain ⟨pages, passed⟩ := ok_of_guard passed
    cases passed
    refine ⟨rfl, fun _ => ⟨Nat.le_of_not_lt bytes, ?_⟩⟩
    intro list
    by_contra exceeds
    apply pages
    rw [any_eq_true]
    refine ⟨list, ?_, decide_eq_true (Nat.lt_of_not_le exceeds)⟩
    cases list <;> simp

theorem cappedPublish_ok (passed : cappedPublish digests limits head effects reply = .ok outcome) :
    outcome = .publish head effects reply ∧ head.encodedLen digests ≤ limits.maxHeadBytes := by
  rw [cappedPublish] at passed
  obtain ⟨within, passed⟩ := ok_of_guard passed
  cases passed
  exact ⟨rfl, Nat.le_of_not_lt within⟩

theorem publishRevised_ok {revised : Head}
    (passed : publishRevised digests limits revised effects reply = .ok outcome) :
    ∃ index quota, sealIndex digests revised limits.pageBounds = .ok { revised with index := index } ∧
      outcome = .publish { revised with index := index, quota := quota } effects reply ∧
      Head.encodedLen digests { revised with index := index, quota := quota } ≤ limits.maxHeadBytes := by
  obtain ⟨sealed, mapped, counted⟩ := ok_of_bind passed
  cases isSealed : sealIndex digests revised limits.pageBounds with
  | error error =>
    rw [isSealed] at mapped
    cases mapped
  | ok indexed =>
    rw [isSealed] at mapped
    cases mapped
    obtain ⟨index, rfl⟩ := sealIndex_shape isSealed
    obtain ⟨rfl, within⟩ := cappedPublish_ok counted
    exact ⟨index, _, rfl, rfl, within⟩

/-- A publish of the kernel on a whole root is one of the rules, sealed, capped and guarded. -/
theorem publication_of_apply (applied : kernel.apply digests (some root) command now = .ok (.publish published effects reply)) :
    ∃ whole index, Publication digests kernel.limits root now command reply published whole index := by
  rw [apply_eq] at applied
  obtain ⟨_, _, pagesChecked⟩ := ok_of_bind applied
  obtain ⟨_, _, command⟩ := ok_of_bind pagesChecked
  obtain ⟨drafted, isDrafted, finished⟩ := ok_of_bind command
  obtain ⟨outcome, isPublished, guarded⟩ := ok_of_bind finished
  cases drafted with
  | unchanged answered =>
    cases isPublished
    cases guarded
  | publish whole draftEffects draftReply =>
    rw [publish_eq] at isPublished
    obtain ⟨revision, _, revised⟩ := ok_of_bind isPublished
    obtain ⟨index, quota, isSealed, rfl, capped⟩ := publishRevised_ok revised
    obtain ⟨same, kept⟩ := checkGrowthHeadroom_ok guarded
    cases same
    exact ⟨whole, index, step_of_transition isDrafted, rfl, isSealed, capped, kept⟩

/-- What holds of a root holds of the root that a publish leaves. -/
theorem rootInv_published {whole : Head} {index : Index} (inv : RootInv digests limits root)
    (publication : Publication digests limits root now command reply published whole index) :
    RootInv digests limits (settled digests published) := by
  have tracked := tracked_of_step inv publication.step
  have revisedTracked := tracked.revised published.rootRevision
  obtain ⟨base, baseInv, edits⟩ := editsRoot_exists inv publication.step
  have revisedEdits : EditsRoot digests base { whole with rootRevision := published.rootRevision } := { edits with }
  obtain ⟨sealedIndex, sealedHead, sealed⟩ := sealIndex_ok baseInv revisedEdits revisedTracked publication.isSealed
  have sameIndex : index = sealedIndex := congrArg Head.index sealedHead
  rw [publication.outcome, sameIndex]
  have same := settled_same digests { whole with rootRevision := published.rootRevision } sealedIndex published.quota
  refine ⟨revisedTracked.of_same same, ?_⟩
  exact paged_settled baseInv revisedEdits revisedTracked sealed published.quota

/-- The first root of an agent has the entries of an empty one. -/
theorem created_same {effects : List Effect}
    (created : kernel.apply digests none (.create c) now = .ok (.publish published effects reply)) :
    SameEntries (settled digests published) (recreated (settled digests published) 1) ∧ published.index = {} := by
  have published : publish digests kernel.limits none (createNew c) = .ok (.publish published effects reply) := created
  rw [createNew, publish_eq] at published
  obtain ⟨revision, _, revised⟩ := ok_of_bind published
  rw [publishRevised_fresh ⟨rfl, rfl, rfl, rfl, rfl, rfl⟩] at revised
  obtain ⟨isPublished, -⟩ := cappedPublish_ok revised
  cases isPublished
  exact ⟨⟨Perm.refl _, Perm.refl _, Perm.refl _, Perm.refl _, Perm.refl _, rfl⟩, rfl⟩

/-- What holds of every root holds of the first one. -/
theorem rootInv_created {effects : List Effect}
    (created : kernel.apply digests none (.create c) now = .ok (.publish published effects reply)) :
    RootInv digests kernel.limits (settled digests published) := by
  obtain ⟨same, index⟩ := created_same created
  refine ⟨(tracked_recreated _ 1).of_same same, ?_⟩
  apply paged_nil
  · exact same.inbox.eq_nil
  · exact same.receipts.eq_nil
  · exact same.results.eq_nil
  · exact same.events.eq_nil
  · exact same.timers.eq_nil
  · show published.index.allLoaded = {}
    rw [index]
    rfl

/-- What one application of the kernel does to a root, whichever of its pages were in memory. -/
inductive Advance (kernel : Kernel) (digests : Digests) (root : Head) (command : Command) (now : Int64) :
    Except AgentError Transition → Head → Prop where
  | refused (error : AgentError) : Advance kernel digests root command now (.error error) root
  | answered (reply : Reply) (whole : kernel.apply digests (some root) command now = .ok (.unchanged reply)) :
      Advance kernel digests root command now (.ok (.unchanged reply)) root
  | published (held full whole : Head) (index : Index) (effects : List Effect) (reply : Reply)
      (applied : kernel.apply digests (some root) command now = .ok (.publish full effects reply))
      (publication : Publication digests kernel.limits root now command reply full whole index) :
      Advance kernel digests root command now (.ok (.publish held effects reply)) (settled digests full)

variable {ids : CollisionFree} {lists : Lists}

/-- Every application of the kernel refuses, answers or publishes as on the whole root. -/
theorem advance_of_apply (inv : RootInv ids kernel.limits root) (loads : Loads ids root lists) :
    Advance kernel ids root command now (kernel.apply ids (some (root.holding lists)) command now)
      (nextRoot ids root lists (kernel.apply ids (some (root.holding lists)) command now)) := by
  by_cases read : PagesRead ids (root.holding lists) command
  · have same := @apply_read ids root lists now command kernel inv loads read
    cases held : kernel.apply ids (some (root.holding lists)) command now with
    | error error => exact .refused error
    | ok outcome =>
      cases full : kernel.apply ids (some root) command now with
      | error error => cases outcome <;> (rw [held, full] at same; exact same.elim)
      | ok wholeOutcome =>
        rw [held, full] at same
        cases outcome with
        | unchanged reply =>
          cases wholeOutcome with
          | unchanged wholeReply =>
            have sameReply : reply = wholeReply := same
            rw [sameReply]
            exact .answered wholeReply full
          | publish whole effects wholeReply => exact same.elim
        | publish heldHead effects reply =>
          cases wholeOutcome with
          | unchanged wholeReply => exact same.elim
          | publish fullHead wholeEffects wholeReply =>
            obtain ⟨rfl, rfl, -, rejoined⟩ := same
            obtain ⟨whole, index, publication⟩ := publication_of_apply full
            rw [nextRoot, rejoined]
            exact .published heldHead fullHead whole index effects reply full publication
  · obtain ⟨error, refused⟩ := @apply_unread ids root lists now command kernel read
    rw [refused]
    exact .refused error

theorem rootInv_advance {outcome : Except AgentError Transition} {next : Head} (inv : RootInv digests kernel.limits root)
    (advance : Advance kernel digests root command now outcome next) : RootInv digests kernel.limits next := by
  cases advance with
  | refused error => exact inv
  | answered reply whole => exact inv
  | published held full whole index effects reply applied publication => exact rootInv_published inv publication

theorem rootInv_run {applied : List Applied} (run : Run kernel ids applied root) :
    RootInv ids kernel.limits root := by
  induction run with
  | create c now published effects reply created => exact rootInv_created created
  | apply applied root lists command now run loads ih =>
    exact rootInv_advance ih (advance_of_apply ih loads)

end Runs

end Ravel.Agents
