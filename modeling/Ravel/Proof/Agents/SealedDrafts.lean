import Mathlib.Data.List.TakeWhile
import Ravel.Proof.Agents.RootSteps
import Ravel.Proof.Agents.TransitionAgreement

namespace Ravel.Agents

open List Library

section ListSeals

variable {Entry : Type} {digests : Digests} {pages : PageEntry Entry} {size : Nat} {dir loaded : Directory}
  {before edited part held : List Entry} {groups : List (PageGroup Entry)} {rest : List Entry}

/-- A list with every page in memory can be sealed. -/
theorem sealable_whole (described : Described digests pages size dir before groups rest)
    (edits : EditsAbove pages.key dir.tailFrom before edited) (distinct : (edited.map pages.key).Nodup)
    (allLoaded : dir.allLoaded = dir) : Sealable digests pages size dir dir before edited edited groups rest where
  described := described
  edits := edits
  distinct := distinct
  held := ⟨rfl, rfl, rfl, fun entry => by simp [allLoaded_inMemory allLoaded], distinct⟩
  kept index group located unloaded := by
    obtain ⟨within, -⟩ := List.getElem?_eq_some_iff.mp located
    rw [allLoaded_isLoaded allLoaded (by rw [described.pageCount]; exact within)] at unloaded
    cases unloaded
  tailLoaded pulls := by
    apply allLoaded_isLoaded allLoaded
    rw [described.pageCount]
    cases groups with
    | nil => simp [pulled] at pulls
    | cons group others => simp

theorem inMemory_part (loads : ListLoads pages dir loaded before held)
    (edits : EditsAbove pages.key dir.tailFrom before edited) (distinct : (edited.map pages.key).Nodup)
    (cut : edited.Perm (part ++ hiddenEntries pages loaded before)) : InMemory pages dir loaded edited part := by
  have cutDistinct := (cut.map pages.key).nodup_iff.mp distinct
  rw [map_append, nodup_append] at cutDistinct
  refine ⟨loads.sameRecord.1, loads.sameRecord.2.1, loads.sameRecord.2.2, ?_, cutDistinct.1⟩
  intro entry
  constructor
  · intro inPart
    refine ⟨cut.mem_iff.mpr (mem_append_left _ inPart), ?_⟩
    -- An entry in memory under an unread page would share its key with an unread entry.
    by_contra unread
    rcases edits entry (cut.mem_iff.mpr (mem_append_left _ inPart)) with isOpen | ⟨old, oldIn, same⟩
    · apply unread
      rw [Directory.inMemory, loads.pageFor_eq, pageFor_eq_pageOf, pageOf_none isOpen]
    · have hidden : old ∈ hiddenEntries pages loaded before := by
        rw [hiddenEntries, mem_filter, same]
        exact ⟨oldIn, by simpa using unread⟩
      exact cutDistinct.2.2 _ (mem_map_of_mem inPart) _ (mem_map_of_mem hidden) same.symm
  · rintro ⟨member, inMemory⟩
    rcases mem_append.mp (cut.mem_iff.mp member) with inPart | hidden
    · exact inPart
    · rw [hiddenEntries, mem_filter, inMemory] at hidden
      simp at hidden

theorem regroup_unread (described : Described digests pages size dir before groups rest)
    (loads : ListLoads pages dir loaded before held) (distinct : (edited.map pages.key).Nodup)
    (cut : edited.Perm (part ++ hiddenEntries pages loaded before)) {index : Nat} {group : PageGroup Entry}
    (located : groups[index]? = some group) (unloaded : loaded.isLoaded index = false) :
    (regroup pages.key edited group).entries = group.entries := by
  have ascending := described.ascending group (mem_of_getElem? located)
  have groupDistinct : (group.entries.map pages.key).Nodup := by
    rw [Nodup, pairwise_map]
    exact ascending.imp Nat.ne_of_lt
  have groupEdited : ∀ entry ∈ group.entries, entry ∈ edited := by
    intro entry inGroup
    apply cut.mem_iff.mpr
    exact mem_append_right _ ((mem_hiddenEntries described loads).mpr ⟨index, group, located, unloaded, inGroup⟩)
  apply eq_of_sorted_perm (distinct_regroup distinct group) (sortBy_sorted _) (ascending.imp Nat.le_of_lt)
  apply perm_of_mem_iff (distinct_regroup distinct group) groupDistinct
  intro entry
  rw [mem_regroup]
  constructor
  · rintro ⟨member, old, oldIn, same⟩
    rw [← eq_of_key distinct (groupEdited old oldIn) member same]
    exact oldIn
  · intro inGroup
    exact ⟨groupEdited entry inGroup, entry, inGroup, rfl⟩

/-- A list with some pages in memory can be sealed, once a page that goes back into HEAD is among them. -/
theorem sealable_part (described : Described digests pages size dir before groups rest)
    (loads : ListLoads pages dir loaded before held) (edits : EditsAbove pages.key dir.tailFrom before edited)
    (distinct : (edited.map pages.key).Nodup) (cut : edited.Perm (part ++ hiddenEntries pages loaded before))
    (tailLoaded : pulled pages dir.tailFrom edited groups = true → loaded.isLoaded (groups.length - 1) = true) :
    Sealable digests pages size dir loaded before edited part groups rest where
  described := described
  edits := edits
  distinct := distinct
  held := inMemory_part loads edits distinct cut
  kept _ _ located unloaded := regroup_unread described loads distinct cut located unloaded
  tailLoaded := tailLoaded

/-- A directory sealed in memory against the one sealed on the whole list. -/
structure SealedPair (digests : Digests) (pages : PageEntry Entry) (size : Nat) (loaded : Directory) (edited hidden : List Entry)
    (inMemory whole : Directory) : Prop where
  sameRecord : inMemory.SameRecord whole
  describes : Describes digests pages size whole edited
  unloaded : inMemory.unloadedPages = loaded.unloadedPages
  allLoaded : whole.unloadedPages = []
  sealed : ∀ entry ∈ hidden, whole.isInline (pages.key entry) = false

theorem pulled_not_last (described : Described digests pages size dir before groups rest)
    (tailLoaded : pulled pages dir.tailFrom edited groups = true → loaded.isLoaded (groups.length - 1) = true)
    {index : Nat} {group : PageGroup Entry} (located : groups[index]? = some group) (unloaded : loaded.isLoaded index = false)
    (pulls : pulled pages dir.tailFrom edited groups = true) : group ∈ groups.dropLast := by
  obtain ⟨within, atIndex⟩ := List.getElem?_eq_some_iff.mp located
  have notLast : index ≠ groups.length - 1 := by
    intro isLast
    rw [isLast, tailLoaded pulls] at unloaded
    cases unloaded
  apply mem_of_getElem?
  rw [getElem?_dropLast, if_pos (by omega : index < groups.length - 1)]
  exact located

theorem unread_group_kept (sealable : Sealable digests pages size dir loaded before edited part groups rest)
    {index : Nat} {group : PageGroup Entry} (located : groups[index]? = some group) (unloaded : loaded.isLoaded index = false) :
    regroup pages.key edited group ∈ (sealBase pages dir.tailFrom edited groups).groups := by
  have nonempty : (regroup pages.key edited group).entries ≠ [] := by
    rw [sealable.kept index group located unloaded]
    exact sealable.described.filled group (mem_of_getElem? located)
  have listed : ∀ kept, group ∈ kept → regroup pages.key edited group ∈ keptGroups pages edited kept := by
    intro kept member
    rw [keptGroups, mem_filter]
    exact ⟨mem_map_of_mem member, by simpa using nonempty⟩
  rw [sealBase]
  split
  · rename_i last pulls lastAt
    exact listed _ (pulled_not_last sealable.described sealable.tailLoaded located unloaded pulls)
  · exact listed _ (mem_of_getElem? located)

/-- Both seals refuse alike, or leave directories with one record. -/
theorem seal_pair {bounds : PageBounds}
    (described : Described digests pages (Nat.max bounds.maxPageEntries 1) dir before groups rest)
    (loads : ListLoads pages dir loaded before held) (edits : EditsAbove pages.key dir.tailFrom before edited)
    (distinct : (edited.map pages.key).Nodup) (cut : edited.Perm (part ++ hiddenEntries pages loaded before))
    (tailLoaded : pulled pages dir.tailFrom edited groups = true → loaded.isLoaded (groups.length - 1) = true)
    (allLoaded : dir.allLoaded = dir) (sealBelow : WithTop Nat) :
    (∃ error, sealDirectory digests pages loaded part sealBelow bounds = .error error ∧
      sealDirectory digests pages dir edited sealBelow bounds = .error error) ∨
    ∃ inMemory objects whole wholeObjects,
      sealDirectory digests pages loaded part sealBelow bounds = .ok (inMemory, objects) ∧
      sealDirectory digests pages dir edited sealBelow bounds = .ok (whole, wholeObjects) ∧
      SealedPair digests pages (Nat.max bounds.maxPageEntries 1) loaded edited (hiddenEntries pages loaded before)
        inMemory whole := by
  have sealablePart := sealable_part described loads edits distinct cut tailLoaded
  obtain ⟨flags, objects, outcome, unloaded⟩ := sealDirectory_spec sealablePart sealBelow
  obtain ⟨wholeFlags, wholeObjects, wholeOutcome, wholeUnloaded⟩ :=
    sealDirectory_spec (sealable_whole described edits distinct allLoaded) sealBelow
  rw [outcome, wholeOutcome]
  split
  · exact .inl ⟨_, rfl, rfl⟩
  · right
    refine ⟨_, _, _, _, rfl, rfl, ⟨rfl, rfl, rfl⟩, ?_, unloaded, ?_, ?_⟩
    · exact ⟨_, _, described_sealed (baseLaidOut described edits distinct) distinct (Nat.le_max_right _ _) sealBelow _⟩
    · rw [wholeUnloaded, Directory.unloadedPages, allLoaded_unloaded allLoaded]
      rfl
    · intro entry member
      have sealed := @described_sealed Entry digests pages edited (Nat.max bounds.maxPageEntries 1)
        (sealBase pages dir.tailFrom edited groups) (baseLaidOut described edits distinct) distinct
        (Nat.le_max_right _ _) sealBelow wholeFlags
      obtain ⟨index, group, located, notLoaded, inGroup⟩ := (mem_hiddenEntries described loads).mp member
      have kept := mem_append_left (sealCut pages (Nat.max bounds.maxPageEntries 1) sealBelow
        (sealBase pages dir.tailFrom edited groups)).1 (unread_group_kept sealablePart located notLoaded)
      obtain ⟨newIndex, newLocated⟩ := getElem?_of_mem kept
      have inNew : entry ∈ (regroup pages.key edited group).entries := by
        rw [sealablePart.kept index group located notLoaded]
        exact inGroup
      have routed := ((sealed.pageFor_group newLocated entry).mpr inNew).2
      rw [Directory.isInline, routed]
      rfl

end ListSeals

section Drafts

variable {ids : CollisionFree} {limits : Limits} {root whole : Head} {lists drafted : Lists}

section

variable (inv : RootInv ids limits root) (loads : Loads ids root lists)

include inv loads

theorem hidden_behind_first {entry : InboxEntry} (hidden : entry ∈ hiddenInbox ids root lists) :
    ∃ page, root.index.inbox.pages.head? = some page ∧ page.firstKey ≤ entry.acceptSeq := by
  obtain ⟨groups, rest, described⟩ := inv.paged.inbox
  obtain ⟨index, group, located, -, inGroup⟩ := (mem_hiddenEntries described loads.inbox).mp hidden
  have member := mem_of_getElem? located
  have inside : group.firstKey ≤ entry.acceptSeq := (described.layout.inside group member entry inGroup).1
  cases groups with
  | nil => cases member
  | cons first others =>
    refine ⟨groupMeta ids (inboxPages ids) first, by rw [described.recorded]; rfl, ?_⟩
    show first.firstKey ≤ entry.acceptSeq
    rcases mem_cons.mp member with rfl | later
    · exact inside
    · have ordered := (pairwise_cons.mp described.layout.ordered).1 group later
      omega

theorem pendingFloor_draft (draftOf : DraftOf ids root lists whole drafted) :
    (whole.holding drafted).pendingFloor = whole.pendingFloor := by
  have samePages : drafted.index.inbox.pages = whole.index.inbox.pages := by
    rw [draftOf.sameIndex, draftOf.rootIndex, loads.inbox.sameRecord.1]
  rw [Head.pendingFloor, Head.pendingFloor]
  show ((_ ++ (drafted.index.inbox.pages.head?.map (·.firstKey)).toList ++ drafted.inbox.map (·.acceptSeq)).min?).getD _ = _
  rw [samePages]
  show (List.min? ((whole.activeTurn.map (·.inputAcceptSeq)).toList ++ _ ++ _)).getD whole.nextAcceptSeq = _
  congr 1
  apply min?_eq_of_dominated
  · intro value member
    rcases mem_append.mp member with fixed | held
    · exact mem_append_left _ fixed
    · apply mem_append_right
      obtain ⟨entry, entryIn, rfl⟩ := mem_map.mp held
      exact mem_map_of_mem (draftOf.inbox.mem_iff.mpr (mem_append_left _ entryIn))
  · intro value member
    rcases mem_append.mp member with fixed | waiting
    · exact ⟨value, mem_append_left _ fixed, Nat.le_refl _⟩
    · obtain ⟨entry, entryIn, rfl⟩ := mem_map.mp waiting
      rcases mem_append.mp (draftOf.inbox.mem_iff.mp entryIn) with held | hidden
      · exact ⟨entry.acceptSeq, mem_append_right _ (mem_map_of_mem held), Nat.le_refl _⟩
      · obtain ⟨page, first, bound⟩ := hidden_behind_first inv loads hidden
        refine ⟨page.firstKey, ?_, bound⟩
        rw [draftOf.rootIndex, first]
        exact mem_append_left _ (mem_append_right _ (by simp))

theorem hidden_not_scheduled {timer : TimerEntry} (hidden : timer ∈ hiddenTimers ids root lists) : timer.status ≠ .scheduled := by
  intro scheduled
  obtain ⟨member, unread⟩ := mem_filter.mp hidden
  have isOpen : root.index.timers.tailFrom ≤ (timerPages ids).key timer :=
    inv.paged.scheduledOpen timer member scheduled
  rw [Directory.inMemory, loads.timers.pageFor_eq, pageFor_eq_pageOf, pageOf_none isOpen] at unread
  cases unread

theorem firstScheduled_draft (draftOf : DraftOf ids root lists whole drafted) :
    (whole.holding drafted).firstScheduled = whole.firstScheduled := by
  have unread : (hiddenTimers ids root lists).filter (fun timer => decide (timer.status = .scheduled)) = [] := by
    rw [filter_eq_nil_iff]
    intro timer member
    simpa using hidden_not_scheduled inv loads member
  have scheduled := draftOf.timers.filter fun timer => decide (timer.status = .scheduled)
  rw [filter_append, unread, append_nil] at scheduled
  have generations := scheduled.map fun timer => (timer.generation : WithTop Nat)
  have least : (((whole.holding drafted).timers.filter fun timer => decide (timer.status = .scheduled)).map
      fun timer => (timer.generation : WithTop Nat)).min? =
      ((whole.timers.filter fun timer => decide (timer.status = .scheduled)).map
        fun timer => (timer.generation : WithTop Nat)).min? := by
    apply min?_eq_of_dominated
    · intro value member
      exact generations.mem_iff.mpr member
    · intro value member
      exact ⟨value, generations.mem_iff.mp member, le_refl _⟩
  rw [Head.firstScheduled, Head.firstScheduled, least]

end

/-- The page that goes back into HEAD is in memory. -/
def TailLoaded (digests : Digests) (limits : Limits) (root whole : Head) (lists : Lists) : Prop :=
  ∀ groups rest, Described digests (inboxPages digests) limits.pageSize root.index.inbox root.inbox groups rest →
    pulled (inboxPages digests) root.index.inbox.tailFrom whole.inbox groups = true →
      lists.index.inbox.isLoaded (groups.length - 1) = true

/-- An index sealed in memory against the one sealed on the whole root. -/
structure IndexPair (digests : Digests) (limits : Limits) (root whole : Head) (lists : Lists) (inMemory all : Index) : Prop where
  inbox : SealedPair digests (inboxPages digests) limits.pageSize lists.index.inbox whole.inbox
    (hiddenInbox digests root lists) inMemory.inbox all.inbox
  receipts : SealedPair digests (receiptPages digests) limits.pageSize lists.index.receipts whole.receipts
    (hiddenReceipts digests root lists) inMemory.receipts all.receipts
  results : SealedPair digests (resultPages digests) limits.pageSize lists.index.results whole.results
    (hiddenResults digests root lists) inMemory.results all.results
  events : SealedPair digests (eventPages digests) limits.pageSize lists.index.events whole.events
    (hiddenEvents digests root lists) inMemory.events all.events
  timers : SealedPair digests (timerPages digests) limits.pageSize lists.index.timers whole.timers
    (hiddenTimers digests root lists) inMemory.timers all.timers

theorem not_pulled {Entry : Type} {pages : PageEntry Entry} (keeps : pages.keepTail = false) {tail : Nat}
    {edited : List Entry} {groups : List (PageGroup Entry)} {goal : Prop} (pulls : pulled pages tail edited groups = true) : goal := by
  rw [pulled, keeps] at pulls
  simp at pulls

/-- Both seals of the index refuse alike, or leave directories with one record. -/
theorem sealIndex_pair (inv : RootInv ids limits root) (loads : Loads ids root lists)
    (edits : EditsRoot ids root whole) (tracked : Tracked ids whole)
    (draftOf : DraftOf ids root lists whole drafted) (tailLoaded : TailLoaded ids limits root whole lists) :
    (∃ error, sealIndex ids (whole.holding drafted) limits.pageBounds = .error error ∧
      sealIndex ids whole limits.pageBounds = .error error) ∨
    ∃ inMemory all, sealIndex ids (whole.holding drafted) limits.pageBounds =
        .ok { whole.holding drafted with index := inMemory } ∧
      sealIndex ids whole limits.pageBounds = .ok { whole with index := all } ∧
      IndexPair ids limits root whole lists inMemory all := by
  obtain ⟨_, _, inboxDescribed⟩ := inv.paged.inbox
  obtain ⟨_, _, receiptsDescribed⟩ := inv.paged.receipts
  obtain ⟨_, _, resultsDescribed⟩ := inv.paged.results
  obtain ⟨_, _, eventsDescribed⟩ := inv.paged.events
  obtain ⟨_, _, timersDescribed⟩ := inv.paged.timers
  have inboxPair := @seal_pair _ _ _ _ _ _ _ _ _ _ _ limits.pageBounds inboxDescribed loads.inbox edits.inbox
    tracked.inbox_distinct draftOf.inbox (tailLoaded _ _ inboxDescribed) inv.paged.inboxLoaded ⊤
  have receiptsPair := @seal_pair _ _ _ _ _ _ _ _ _ _ _ limits.pageBounds receiptsDescribed loads.receipts edits.receipts
    tracked.receiptSeqs draftOf.receipts (not_pulled rfl) inv.paged.receiptsLoaded ⊤
  have resultsPair := @seal_pair _ _ _ _ _ _ _ _ _ _ _ limits.pageBounds resultsDescribed loads.results edits.results
    tracked.results_distinct draftOf.results (not_pulled rfl) inv.paged.resultsLoaded whole.pendingFloor
  have eventsPair := @seal_pair _ _ _ _ _ _ _ _ _ _ _ limits.pageBounds eventsDescribed loads.events edits.events
    tracked.eventSeqs draftOf.events (not_pulled rfl) inv.paged.eventsLoaded ⊤
  have timersPair := @seal_pair _ _ _ _ _ _ _ _ _ _ _ limits.pageBounds timersDescribed loads.timers edits.timers
    tracked.generations draftOf.timers (not_pulled rfl) inv.paged.timersLoaded whole.firstScheduled
  rw [sealIndex, sealIndex, pendingFloor_draft inv loads draftOf, firstScheduled_draft inv loads draftOf]
  simp only [Head.holding, draftOf.sameIndex, draftOf.rootIndex]
  rcases inboxPair with ⟨error, inMemory, all⟩ | ⟨inbox, inboxObjects, inboxAll, inboxAllObjects, inMemory, all, inboxPair⟩
  · simp only [inMemory, all]
    exact .inl ⟨error, rfl, rfl⟩
  simp only [inMemory, all]
  rcases receiptsPair with ⟨error, inMemory, all⟩ | ⟨receipts, receiptsObjects, receiptsAll, receiptsAllObjects, inMemory, all, receiptsPair⟩
  · simp only [inMemory, all]
    exact .inl ⟨error, rfl, rfl⟩
  simp only [inMemory, all]
  rcases resultsPair with ⟨error, inMemory, all⟩ | ⟨results, resultsObjects, resultsAll, resultsAllObjects, inMemory, all, resultsPair⟩
  · simp only [inMemory, all]
    exact .inl ⟨error, rfl, rfl⟩
  simp only [inMemory, all]
  rcases eventsPair with ⟨error, inMemory, all⟩ | ⟨events, eventsObjects, eventsAll, eventsAllObjects, inMemory, all, eventsPair⟩
  · simp only [inMemory, all]
    exact .inl ⟨error, rfl, rfl⟩
  simp only [inMemory, all]
  rcases timersPair with ⟨error, inMemory, all⟩ | ⟨timers, timersObjects, timersAll, timersAllObjects, inMemory, all, timersPair⟩
  · simp only [inMemory, all]
    exact .inl ⟨error, rfl, rfl⟩
  simp only [inMemory, all]
  exact .inr ⟨_, _, rfl, rfl, inboxPair, receiptsPair, resultsPair, eventsPair, timersPair⟩

section PullBack

variable {now : Int64} {command : Command} {reply : Reply} {groups : List (PageGroup InboxEntry)} {rest : List InboxEntry}

/-- A list that keeps its open inputs pulls no page back. -/
theorem tailLoaded_of_kept (inv : RootInv ids limits root)
    (kept : ∀ entry ∈ root.inbox, entry.acceptSeq ∈ whole.inbox.map (·.acceptSeq)) :
    TailLoaded ids limits root whole lists := by
  intro groups rest described pulls
  simp only [pulled, Bool.and_eq_true, Bool.not_eq_true', List.isEmpty_iff] at pulls
  have pagesLeft : root.index.inbox.pages ≠ [] := by
    rw [described.recorded]
    intro empty
    rw [map_eq_nil_iff] at empty
    rw [empty] at pulls
    simp at pulls
  obtain ⟨entry, member, isOpen⟩ := inv.paged.inboxOpen pagesLeft
  obtain ⟨keptEntry, keptIn, same⟩ := mem_map.mp (kept entry member)
  have opened : keptEntry ∈ openEntries (inboxPages ids) root.index.inbox.tailFrom whole.inbox := by
    rw [openEntries, mem_filter]
    refine ⟨keptIn, decide_eq_true ?_⟩
    show _ ≤ keptEntry.acceptSeq
    rw [same]
    exact isOpen
  rw [pulls.1.2] at opened
  cases opened

theorem running_sealed (described : Described ids (inboxPages ids) limits.pageSize root.index.inbox root.inbox
    groups rest) (nonempty : groups ≠ []) {turn : ActiveTurn} (running : Running ids root turn) :
    turn.inputAcceptSeq < root.index.inbox.tailFrom := by
  obtain ⟨group, member⟩ := exists_mem_of_ne_nil groups nonempty
  obtain ⟨entry, inGroup⟩ := exists_mem_of_ne_nil _ (described.filled group member)
  obtain ⟨index, located⟩ := getElem?_of_mem member
  have waiting := ((described.pageFor_group located entry).mpr inGroup).1
  have first := running.first entry waiting
  have below : entry.acceptSeq < root.index.inbox.tailFrom := (described.layout.inside group member entry inGroup).2
  omega

theorem tailLoaded_of_ended (inv : RootInv ids limits root) {turn : ActiveTurn}
    (running : root.activeTurn = some turn) (inbox : whole.inbox = withoutInput root turn.inputAcceptSeq) :
    TailLoaded ids limits root whole lists := by
  intro groups rest described pulls
  have nonempty : groups ≠ [] := by
    intro empty
    rw [empty, pulled] at pulls
    simp at pulls
  have sealed := running_sealed described nonempty (inv.tracked.running turn running)
  simp only [pulled, Bool.and_eq_true, Bool.not_eq_true', List.isEmpty_iff] at pulls
  have pagesLeft : root.index.inbox.pages ≠ [] := by
    rw [described.recorded]
    simpa using nonempty
  obtain ⟨entry, member, isOpen⟩ := inv.paged.inboxOpen pagesLeft
  have opened : entry ∈ openEntries (inboxPages ids) root.index.inbox.tailFrom whole.inbox := by
    rw [openEntries, mem_filter, inbox]
    refine ⟨(mem_withoutInput inv.tracked).mpr ⟨member, ?_⟩, decide_eq_true isOpen⟩
    omega
  rw [pulls.1.2] at opened
  cases opened

theorem pageFor_last (described : Described ids (inboxPages ids) limits.pageSize root.index.inbox root.inbox
    groups rest) (nonempty : groups ≠ []) :
    root.index.inbox.pageFor (root.index.inbox.tailFrom - 1) = some (groups.length - 1) := by
  have pagesLeft : root.index.inbox.pages.isEmpty = false := by
    rw [described.recorded, isEmpty_eq_false_iff]
    simpa using nonempty
  obtain ⟨group, member⟩ := exists_mem_of_ne_nil groups nonempty
  have start := described.layout.starts group member
  have before : ∀ page ∈ root.index.inbox.pages, decide (page.firstKey ≤ root.index.inbox.tailFrom - 1) = true := by
    intro page pageIn
    rw [described.recorded] at pageIn
    obtain ⟨other, otherIn, rfl⟩ := mem_map.mp pageIn
    have otherStart := described.layout.starts other otherIn
    apply decide_eq_true
    show other.firstKey ≤ _
    omega
  have below : ¬root.index.inbox.tailFrom ≤ root.index.inbox.tailFrom - 1 := by omega
  rw [Directory.pageFor, takeWhile_eq_self_iff.mpr before, described.pageCount]
  simp [pagesLeft, below]

/-- A cancel that takes the last open input has read the page that goes back into HEAD. -/
theorem tailLoaded_of_cancel (inv : RootInv ids limits root) (loads : Loads ids root lists) (c : Cancel)
    (inbox : whole.inbox = withoutInput root c.acceptSeq)
    (read : PagesRead ids (root.holding lists) (.cancel c)) : TailLoaded ids limits root whole lists := by
  intro groups rest described pulls
  have nonempty : groups ≠ [] := by
    intro empty
    rw [empty, pulled] at pulls
    simp at pulls
  simp only [pulled, Bool.and_eq_true, Bool.not_eq_true', List.isEmpty_iff] at pulls
  -- Every open input of the root is the one that the cancel takes.
  have onlyOpen : ∀ entry ∈ root.inbox, root.index.inbox.tailFrom ≤ entry.acceptSeq → entry.acceptSeq = c.acceptSeq := by
    intro entry member isOpen
    by_contra other
    have opened : entry ∈ openEntries (inboxPages ids) root.index.inbox.tailFrom whole.inbox := by
      rw [openEntries, mem_filter, inbox]
      exact ⟨(mem_withoutInput inv.tracked).mpr ⟨member, other⟩, decide_eq_true isOpen⟩
    rw [pulls.1.2] at opened
    cases opened
  have pagesLeft : root.index.inbox.pages ≠ [] := by
    rw [described.recorded]
    simpa using nonempty
  have inline_iff : ∀ key, lists.index.inbox.isInline key = true ↔ root.index.inbox.tailFrom ≤ key := by
    intro key
    rw [Directory.isInline, loads.inbox.pageFor_eq, pageFor_eq_pageOf, Option.isNone_iff_eq_none]
    exact pageOf_none_iff (by simpa using pagesLeft)
  obtain ⟨last, lastIn, lastOpen⟩ := inv.paged.inboxOpen pagesLeft
  have inlineCount : (lists.inbox.countP fun entry => lists.index.inbox.isInline entry.acceptSeq) ≤ 1 := by
    have distinct : (lists.inbox.map (·.acceptSeq)).Nodup := by
      rw [Nodup, pairwise_map]
      exact loads.inOrder.imp Nat.ne_of_lt
    have counted := nodup_iff_count_le_one.mp distinct c.acceptSeq
    rw [List.count, countP_map] at counted
    refine Nat.le_trans (countP_mono_left ?_) counted
    intro entry member isInline
    have inRoot := (mem_filter.mp (loads.inbox.reordered.mem_iff.mp member)).1
    simpa using onlyOpen entry inRoot ((inline_iff _).mp isInline)
  have needed : (ListKind.inbox, Need.key (lists.index.inbox.tailFrom - 1)) ∈
      pageNeeds ids (root.holding lists) (.cancel c) := by
    rw [pageNeeds, mem_append]
    right
    have isEmpty : lists.index.inbox.pages.isEmpty = false := by
      rw [loads.inbox.sameRecord.1, isEmpty_eq_false_iff]
      exact pagesLeft
    have isInline : lists.index.inbox.isInline c.acceptSeq = true := by
      rw [inline_iff, ← onlyOpen last lastIn lastOpen]
      exact lastOpen
    show _ ∈ if (!lists.index.inbox.pages.isEmpty && lists.index.inbox.isInline c.acceptSeq &&
      decide ((lists.inbox.countP fun entry => lists.index.inbox.isInline entry.acceptSeq) ≤ 1)) = true then _ else _
    rw [isEmpty, isInline, decide_eq_true inlineCount]
    exact mem_cons_self
  have complete := read _ needed
  apply loaded_of_missing complete
  show groups.length - 1 ∈ (lists.index.inbox.pageFor (lists.index.inbox.tailFrom - 1)).toList
  rw [loads.inbox.pageFor_eq, loads.inbox.sameRecord.2.1, pageFor_last described nonempty]
  exact mem_cons_self

theorem mem_seqs_updateFirst {inbox : List InboxEntry} {test : InboxEntry → Bool} {change : InboxEntry → InboxEntry}
    (kept : ∀ entry, (change entry).acceptSeq = entry.acceptSeq) {entry : InboxEntry} (member : entry ∈ inbox) :
    entry.acceptSeq ∈ (updateFirst test change inbox).map (·.acceptSeq) := by
  rw [map_updateFirst]
  · exact mem_map_of_mem member
  · intro other _
    exact kept other

/-- A command that read its pages can put a page back into HEAD. -/
theorem tailLoaded_of_step (inv : RootInv ids limits root) (loads : Loads ids root lists)
    (step : Step ids limits root now command whole reply) (same : whole.incarnation = root.incarnation)
    (read : PagesRead ids (root.holding lists) command) : TailLoaded ids limits root whole lists := by
  cases step with
  | recreate c incarnation gone next =>
    have later : incarnation = root.incarnation := same
    have := checkedSuccU64_some next
    omega
  | accept c addressed unseen =>
    apply tailLoaded_of_kept inv
    intro entry member
    exact mem_map_of_mem (mem_append_left _ member)
  | completeCancelled c turn onTurn requested waiting => exact tailLoaded_of_ended inv onTurn.running rfl
  | complete c turn journaled onTurn open' waiting journal => exact tailLoaded_of_ended inv onTurn.running rfl
  | failCancelled c turn onTurn requested waiting => exact tailLoaded_of_ended inv onTurn.running rfl
  | failRetry c turn failedAttempts onTurn open' waiting resolved =>
    apply tailLoaded_of_kept inv
    intro entry member
    apply mem_seqs_updateFirst _ member
    intro _
    rfl
  | failTerminal c turn onTurn open' waiting => exact tailLoaded_of_ended inv onTurn.running rfl
  | cancelWaiting c addressed elsewhere waiting => exact tailLoaded_of_cancel inv loads c rfl read
  | fireTimer c timer addressed found due =>
    apply tailLoaded_of_kept inv
    intro entry member
    exact mem_map_of_mem (mem_append_left _ member)
  | recordResult c effect addressed found pending attempted =>
    apply tailLoaded_of_kept inv
    intro entry member
    split
    · exact mem_map_of_mem member
    · exact mem_map_of_mem member
  | _ => exact tailLoaded_of_kept inv fun entry member => mem_map_of_mem member

end PullBack

end Drafts

end Ravel.Agents
