import Ravel.Proof.Agents.Refusals
import Ravel.Proof.Agents.Replays

namespace Ravel.Agents

open List Library

section ListReserve

variable {Entry : Type} {digests : Digests} {pages : PageEntry Entry} {size : Nat} {dir : Directory}
  {before edited : List Entry} {groups : List (PageGroup Entry)} {rest : List Entry} {sealBelow : WithTop Nat}

theorem openEntries_perm (described : Described digests pages size dir before groups rest) :
    (openEntries pages dir.tailFrom before).Perm rest := by
  apply perm_of_mem_iff (distinct_filter described.distinct _) described.restDistinct
  intro entry
  show entry ∈ before.filter _ ↔ entry ∈ rest
  rw [mem_filter, described.members, contents, mem_append, mem_flatMap, decide_eq_true_eq]
  constructor
  · rintro ⟨⟨group, groupIn, inGroup⟩ | inRest, behind⟩
    · have below := (described.layout.inside group groupIn entry inGroup).2
      omega
    · exact inRest
  · intro inRest
    exact ⟨.inr inRest, described.layout.behind entry inRest⟩

theorem isInline_described (described : Described digests pages size dir before groups rest) (key : Nat) :
    dir.isInline key = decide (dir.tailFrom ≤ key) := by
  rw [Directory.isInline, pageFor_eq_pageOf, described.firstKeys]
  by_cases none : groups = []
  · rw [none, described.emptyTail none]
    simp [pageOf]
  · have starts : groups.map (·.firstKey) ≠ [] := by simpa using none
    rw [Bool.eq_iff_iff, Option.isNone_iff_eq_none, pageOf_none_iff starts, decide_eq_true_eq]

theorem countP_isInline (described : Described digests pages size dir before groups rest) :
    (before.countP fun entry => dir.isInline (pages.key entry)) = (openEntries pages dir.tailFrom before).length := by
  rw [openEntries, countP_eq_length_filter]
  simp only [isInline_described described]

theorem length_keptGroups_le (groups : List (PageGroup Entry)) : (keptGroups pages edited groups).length ≤ groups.length := by
  rw [keptGroups]
  exact Nat.le_trans (length_filter_le _ _) (Nat.le_of_eq (length_map _))

theorem sealBase_kept (keeps : pages.keepTail = false) (tail : Nat) :
    sealBase pages tail edited groups =
      ⟨keptGroups pages edited groups, sortBy pages.key (openEntries pages tail edited), tail⟩ := by
  have stays : pulled pages tail edited groups = false := by
    rw [pulled, keeps]
    rfl
  rw [sealBase, stays]

/-- A list that pulls no page back seals within what its open entries can still fill. -/
theorem resealed_reserve (keeps : pages.keepTail = false) (positive : 0 < size) (tail appended : Nat) :
    (resealedGroups pages size sealBelow (sealBase pages tail edited groups)).length +
        ((sealCut pages size sealBelow (sealBase pages tail edited groups)).2.length + appended - 1) / size ≤
      groups.length + ((openEntries pages tail edited).length + appended - 1) / size := by
  have base := @sealBase_kept Entry pages edited groups keeps tail
  have cut := @openGroups_reserve Entry pages.key size sealBelow positive
    (sortBy pages.key (openEntries pages tail edited)).length (sortBy pages.key (openEntries pages tail edited)) appended
  have kept := @length_keptGroups_le Entry pages edited groups
  rw [length_sortBy] at cut
  rw [base, resealedGroups, length_append, sealCut]
  dsimp only
  rw [length_sortBy]
  omega

/-- A list that is not cut keeps at most its pages. -/
theorem resealed_uncut (keeps : pages.keepTail = false) {tail : Nat}
    (uncut : Uncut pages.key size sealBelow (sortBy pages.key (openEntries pages tail edited))) :
    (resealedGroups pages size sealBelow (sealBase pages tail edited groups)).length ≤ groups.length := by
  rw [sealBase_kept keeps, resealedGroups, sealCut, uncut.openGroups_eq, append_nil]
  exact length_keptGroups_le groups

/-- A list with a short open page keeps at most its pages, also when it pulls its last page back. -/
theorem resealed_short (fits : ∀ group ∈ groups, group.entries.length ≤ size) (distinct : (edited.map pages.key).Nodup) {tail : Nat}
    (short : (openEntries pages tail edited).length ≤ size) :
    (resealedGroups pages size sealBelow (sealBase pages tail edited groups)).length ≤ groups.length := by
  have openShort : (sealBase pages tail edited groups).openPage.length ≤ size := by
    rw [sealBase]
    split
    · rename_i last pulls lastAt
      exact Nat.le_trans (length_regroup_le distinct last) (fits last (mem_of_getLast? lastAt))
    · rwa [length_sortBy]
  rw [resealedGroups, sealCut, (uncut_of_short openShort).openGroups_eq, append_nil, sealBase]
  split
  · exact Nat.le_trans (length_keptGroups_le _) (dropLast_sublist groups).length_le
  · exact length_keptGroups_le groups

variable {bounds : PageBounds} {after : Directory}

/-- What a seal leaves open is not cut by the next one. -/
theorem SealedList.uncut (sealed : SealedList digests pages bounds sealBelow dir edited groups after) :
    Uncut pages.key (Nat.max bounds.maxPageEntries 1) sealBelow (sortBy pages.key (openEntries pages after.tailFrom edited)) := by
  have positive : 0 < Nat.max bounds.maxPageEntries 1 := Nat.le_max_right _ _
  have rest := openEntries_perm sealed.described
  have left : Uncut pages.key (Nat.max bounds.maxPageEntries 1) sealBelow
      (sealCut pages (Nat.max bounds.maxPageEntries 1) sealBelow (sealBase pages dir.tailFrom edited groups)).2 :=
    openGroups_uncut positive (Nat.le_refl _)
  have sorted : (sealCut pages (Nat.max bounds.maxPageEntries 1) sealBelow
      (sealBase pages dir.tailFrom edited groups)).2.Pairwise fun left right => pages.key left ≤ pages.key right := by
    apply List.Pairwise.sublist (openGroups_rest_sublist _ _)
    rw [sealBase]
    split
    · exact sortBy_sorted _
    · exact sortBy_sorted _
  have sameRest : sortBy pages.key (openEntries pages after.tailFrom edited) = _ :=
    sortBy_eq_of_perm (distinct_filter sealed.described.distinct _) rest
  rwa [sameRest, sortBy_eq_self sorted]

/-- A seal keeps the pages and what the open entries can still fill within what they were before it. -/
theorem SealedList.reserve_le (described : Described digests pages (Nat.max bounds.maxPageEntries 1) dir before groups rest)
    (sealed : SealedList digests pages bounds sealBelow dir edited groups after) (keeps : pages.keepTail = false) {appended owed : Nat}
    (count : (openEntries pages dir.tailFrom edited).length + appended ≤ (openEntries pages dir.tailFrom before).length + owed) :
    after.pages.length +
        ((openEntries pages after.tailFrom edited).length + appended - 1) / Nat.max bounds.maxPageEntries 1 ≤
      dir.pages.length +
        ((openEntries pages dir.tailFrom before).length + owed - 1) / Nat.max bounds.maxPageEntries 1 := by
  have left := (openEntries_perm sealed.described).length_eq
  have within := @resealed_reserve Entry pages _ edited groups sealBelow keeps (Nat.le_max_right bounds.maxPageEntries 1)
    dir.tailFrom appended
  have room := @Nat.div_le_div_right _ _ (Nat.max bounds.maxPageEntries 1) (Nat.sub_le_sub_right count 1)
  rw [described.pageCount, sealed.described.pageCount, left]
  exact Nat.le_trans within (Nat.add_le_add_left room groups.length)

end ListReserve

section RootReserve

variable {digests : Digests} {limits : Limits} {root whole : Head} {now : Int64} {command : Command} {reply : Reply}

/-- The pages that results can still fill, of a root in memory as a whole. -/
def resultReserve (digests : Digests) (limits : Limits) (head : Head) : Nat :=
  ((openEntries (resultPages digests) head.index.results.tailFrom head.results).length + head.inbox.length - 1) / limits.pageSize

/-- The pages that events can still fill, of a root in memory as a whole. -/
def eventReserve (digests : Digests) (limits : Limits) (head : Head) : Nat :=
  ((openEntries (eventPages digests) head.index.events.tailFrom head.events).length + pendingEffects head - 1) / limits.pageSize

/-- The index of a root has room for what the exempt publishes can still seal, and no list of it can be cut as it stands. -/
structure PageReserve (digests : Digests) (limits : Limits) (root : Head) : Prop where
  inbox : root.index.inbox.pages.length ≤ limits.maxIndexPages
  receipts : root.index.receipts.pages.length ≤ limits.maxIndexPages
  timers : root.index.timers.pages.length ≤ limits.maxIndexPages
  results : root.index.results.pages.length + resultReserve digests limits root ≤ limits.maxIndexPages
  events : root.index.events.pages.length + eventReserve digests limits root ≤ limits.maxIndexPages
  inboxShort : (openEntries (inboxPages digests) root.index.inbox.tailFrom root.inbox).length ≤ limits.pageSize
  receiptsUncut : Uncut (receiptPages digests).key limits.pageSize ⊤
    (sortBy (receiptPages digests).key (openEntries (receiptPages digests) root.index.receipts.tailFrom root.receipts))
  timersUncut : Uncut (timerPages digests).key limits.pageSize root.firstScheduled
    (sortBy (timerPages digests).key (openEntries (timerPages digests) root.index.timers.tailFrom root.timers))

/-- A root without entries keeps the reserve. -/
theorem pageReserve_nil {head : Head} (inbox : head.inbox = []) (receipts : head.receipts = []) (results : head.results = [])
    (events : head.events = []) (timers : head.timers = []) (effects : head.effects = []) (index : head.index = {}) :
    PageReserve digests limits head where
  inbox := by rw [index]; exact Nat.zero_le _
  receipts := by rw [index]; exact Nat.zero_le _
  timers := by rw [index]; exact Nat.zero_le _
  results := by rw [resultReserve, index, results, inbox]; simp [openEntries]
  events := by rw [eventReserve, pendingEffects, index, events, effects]; simp [openEntries]
  inboxShort := by rw [inbox]; exact Nat.zero_le _
  receiptsUncut := by rw [receipts]; exact uncut_of_short (Nat.zero_le _)
  timersUncut := by rw [timers]; exact uncut_of_short (Nat.zero_le _)

/-- What a step leaves open, against the root it started from. -/
structure OwesNoMore (digests : Digests) (root whole : Head) : Prop where
  results : ∀ tail, (openEntries (resultPages digests) tail whole.results).length + whole.inbox.length ≤
    (openEntries (resultPages digests) tail root.results).length + root.inbox.length
  events : ∀ tail, (openEntries (eventPages digests) tail whole.events).length + pendingEffects whole ≤
    (openEntries (eventPages digests) tail root.events).length + pendingEffects root

theorem owesNoMore_of_same (inbox : whole.inbox = root.inbox) (results : whole.results = root.results)
    (events : whole.events = root.events) (pending : pendingEffects whole ≤ pendingEffects root) :
    OwesNoMore digests root whole := by
  refine ⟨fun tail => ?_, fun tail => ?_⟩
  · rw [inbox, results]
  · rw [events]
    omega

theorem length_openEntries_append {Entry : Type} {pages : PageEntry Entry} (tail : Nat) (entries added : List Entry) :
    (openEntries pages tail (entries ++ added)).length ≤ (openEntries pages tail entries).length + added.length := by
  rw [openEntries, filter_append, length_append]
  exact Nat.add_le_add_left (length_filter_le _ _) _

/-- An input that leaves the inbox with a result owes nothing more. -/
theorem owesNoMore_settledHead {turn : Option ActiveTurn} {acceptSeq : Nat} {result : ResultEntry}
    (waiting : acceptSeq ∈ root.inbox.map (·.acceptSeq)) :
    OwesNoMore digests root (settledHead digests root turn acceptSeq result) := by
  obtain ⟨entry, member, rfl⟩ := mem_map.mp waiting
  refine ⟨fun tail => ?_, fun tail => Nat.le_refl _⟩
  have shorter : (withoutInput root entry.acceptSeq).length = root.inbox.length - 1 :=
    length_eraseP_of_mem member (by simp)
  have nonempty := length_pos_of_mem member
  have one := @length_openEntries_append ResultEntry (resultPages digests) tail root.results [result]
  show (openEntries (resultPages digests) tail (root.results ++ [result])).length + (withoutInput root entry.acceptSeq).length ≤ _
  rw [length_singleton] at one
  omega

/-- An effect that is updated in place is pending before if it is pending after. -/
theorem pendingEffects_updateEffect {effectId : Id128} {change : EffectRecord → EffectRecord} {effect : EffectRecord}
    (found : root.effects.find? (fun effect => effect.effectId = effectId) = some effect) (pending : effect.status ≠ .completed) :
    pendingEffects (updateEffect root effectId change) + (if (change effect).status ≠ .completed then 0 else 1) =
      pendingEffects root := by
  have count := countP_updateFirst (fun effect => effect.status ≠ .completed) change found
  rw [if_pos (by simpa using pending)] at count
  rw [pendingEffects, pendingEffects]
  show (updateFirst _ change root.effects).countP _ + _ = _
  by_cases stays : (change effect).status = .completed
  · simp only [stays, ne_eq, not_true_eq_false, decide_false, Bool.false_eq_true, if_false] at count ⊢
    omega
  · simp only [stays, ne_eq, not_false_eq_true, decide_true, if_true] at count ⊢
    omega

/-- An exempt publish owes no more results and events than the root it started from. -/
theorem owesNoMore_of_exempt (step : Step digests limits root now command whole reply)
    (exempt : guarded root command reply = false) : OwesNoMore digests root whole := by
  cases step with
  | recreate c incarnation gone next => exact ⟨fun tail => Nat.zero_le _, fun tail => Nat.zero_le _⟩
  | accept c addressed unseen => cases exempt
  | takeover c epoch addressed next => exact owesNoMore_of_same rfl rfl rfl (Nat.le_refl _)
  | start c next pin owned idle first => exact owesNoMore_of_same rfl rfl rfl (Nat.le_refl _)
  | block command fence turn error fenced onTurn => exact owesNoMore_of_same rfl rfl rfl (Nat.le_refl _)
  | completeCancelled c turn onTurn requested waiting => cases exempt
  | complete c turn journaled onTurn isOpen waiting journal => cases exempt
  | failCancelled c turn onTurn requested waiting => exact owesNoMore_settledHead waiting
  | failRetry c turn failedAttempts onTurn isOpen waiting resolved =>
    refine ⟨fun tail => ?_, fun tail => Nat.le_refl _⟩
    show _ + (updateFirst _ _ root.inbox).length ≤ _
    rw [length_updateFirst]
    exact Nat.le_refl _
  | failTerminal c turn onTurn isOpen waiting => exact owesNoMore_settledHead waiting
  | requestCancel c turn addressed running same => exact owesNoMore_of_same rfl rfl rfl (Nat.le_refl _)
  | cancelWaiting c addressed elsewhere waiting => exact owesNoMore_settledHead waiting
  | scheduleTimer c addressed => cases exempt
  | fireTimer c timer addressed found due => cases exempt
  | cancelTimer c timer addressed found scheduled => exact owesNoMore_of_same rfl rfl rfl (Nat.le_refl _)
  | tombstone c addressed => exact owesNoMore_of_same rfl rfl rfl (Nat.le_refl _)
  | recordStep c turn record onTurn => cases exempt
  | commitIntent c turn effects added onTurn journal => cases exempt
  | latchDoubt c fence effect error authority owned found ambiguous =>
    refine owesNoMore_of_same rfl rfl rfl ?_
    have pending : effect.status ≠ .completed := by
      rw [ambiguous.1]
      rintro ⟨⟩
    exact Nat.le_trans (Nat.le_add_right _ _) (Nat.le_of_eq (pendingEffects_updateEffect found pending))
  | grantOwner c fence effect turn authority owned found pending known unambiguous follows running ofTurn isOpen =>
    refine owesNoMore_of_same rfl rfl rfl ?_
    exact Nat.le_trans (Nat.le_add_right _ _) (Nat.le_of_eq (pendingEffects_updateEffect found pending))
  | grantReconcile c fence effect authority addressed found pending follows =>
    simp [guarded, authority] at exempt
  | recordResult c effect addressed found pending attempted =>
    refine ⟨fun tail => ?_, fun tail => ?_⟩
    · split <;> exact Nat.le_refl _
    · have settles := @pendingEffects_updateEffect root c.effectId
        (fun effect => { effect with status := .completed, result := some c.result, resultAttempt := c.attempt }) effect found
        pending
      rw [if_neg (by simp)] at settles
      split
      · have one := @length_openEntries_append EventEntry (eventPages digests) tail root.events
          [⟨root.nextEventSeq, auditedInput digests root effect, effect.turnId, auditReconcileResult, none⟩]
        rw [length_singleton] at one
        show (openEntries (eventPages digests) tail (root.events ++ [_])).length + pendingEffects (updateEffect root c.effectId _) ≤ _
        omega
      · show (openEntries (eventPages digests) tail root.events).length + pendingEffects (updateEffect root c.effectId _) ≤ _
        omega

theorem openEntries_sorted {Entry : Type} (pages : PageEntry Entry) (tail : Nat) (entries : List Entry) :
    (openEntries pages tail (sortByKey pages entries)).Perm (openEntries pages tail entries) :=
  (sortBy_perm entries).filter _

/-- The lowest scheduled generation does not depend on the order of the timers. -/
theorem firstScheduled_perm {left right : Head} (same : left.timers.Perm right.timers) :
    left.firstScheduled = right.firstScheduled := by
  have waiting := (same.filter fun timer => timer.status = .scheduled).map fun timer => (timer.generation : WithTop Nat)
  have least := min?_eq_of_dominated (fun value member => waiting.mem_iff.mp member)
    (fun value member => ⟨value, waiting.mem_iff.mpr member, le_refl value⟩)
  rw [Head.firstScheduled, Head.firstScheduled, least]

/-- The order of the lists and the pages in memory do not matter to the reserve. -/
theorem pageReserve_settled {head : Head} (tracked : Tracked digests head) (reserve : PageReserve digests limits head) :
    PageReserve digests limits (settled digests head) where
  inbox := reserve.inbox
  receipts := reserve.receipts
  timers := reserve.timers
  results := by
    have opened := (openEntries_sorted (resultPages digests) head.index.results.tailFrom head.results).length_eq
    have waiting := (@sortBy_perm _ (inboxPages digests).key head.inbox).length_eq
    have kept := reserve.results
    rw [resultReserve, ← opened, ← waiting] at kept
    exact kept
  events := by
    have opened := (openEntries_sorted (eventPages digests) head.index.events.tailFrom head.events).length_eq
    have kept := reserve.events
    rw [eventReserve, ← opened] at kept
    exact kept
  inboxShort := by
    have opened := (openEntries_sorted (inboxPages digests) head.index.inbox.tailFrom head.inbox).length_eq
    exact Nat.le_trans (Nat.le_of_eq opened) reserve.inboxShort
  receiptsUncut := by
    have uncut := reserve.receiptsUncut
    have same : sortBy (receiptPages digests).key _ = _ :=
      sortBy_eq_of_perm (distinct_filter (distinct_sortBy tracked.receiptSeqs) _)
        (openEntries_sorted (receiptPages digests) head.index.receipts.tailFrom head.receipts)
    rw [← same] at uncut
    exact uncut
  timersUncut := by
    have uncut := reserve.timersUncut
    have same : sortBy (timerPages digests).key _ = _ :=
      sortBy_eq_of_perm (distinct_filter (distinct_sortBy tracked.generations) _)
        (openEntries_sorted (timerPages digests) head.index.timers.tailFrom head.timers)
    rw [← same, ← @firstScheduled_perm (settled digests head) head (sortBy_perm head.timers)] at uncut
    exact uncut

variable {base draft : Head} {index : Index}

theorem pageReserve_sealed (sealed : SealedRoot digests limits base draft index)
    (results : index.results.pages.length + resultReserve digests limits { draft with index := index } ≤ limits.maxIndexPages)
    (events : index.events.pages.length + eventReserve digests limits { draft with index := index } ≤ limits.maxIndexPages) :
    PageReserve digests limits { draft with index := index } := by
  obtain ⟨inboxGroups, inboxRest, inboxDescribed, inbox⟩ := sealed.inbox
  obtain ⟨receiptGroups, receiptRest, receiptsDescribed, receipts⟩ := sealed.receipts
  obtain ⟨timerGroups, timerRest, timersDescribed, timers⟩ := sealed.timers
  exact {
    inbox := Nat.le_trans (Nat.le_of_eq inbox.described.pageCount) inbox.within
    receipts := Nat.le_trans (Nat.le_of_eq receipts.described.pageCount) receipts.within
    timers := Nat.le_trans (Nat.le_of_eq timers.described.pageCount) timers.within
    results := results
    events := events
    inboxShort := by
      have short := inbox.uncut.short
      rw [length_sortBy] at short
      exact short
    receiptsUncut := receipts.uncut
    timersUncut := timers.uncut }

/-- What the growth guard counts is at least the reserve of a root in memory as a whole. -/
theorem reserve_of_guard (sealed : SealedRoot digests limits base draft index)
    (kept : ∀ list, (index.directory list).pages.length + limits.reservedIndexPages { draft with index := index } list ≤
      limits.maxIndexPages) :
    PageReserve digests limits { draft with index := index } := by
  obtain ⟨resultGroups, resultRest, -, results⟩ := sealed.results
  obtain ⟨eventGroups, eventRest, -, events⟩ := sealed.events
  have resultCount := countP_isInline results.described
  have eventCount := countP_isInline events.described
  have waiting : draft.inbox.length ≤ index.inbox.total draft.inbox.length := by
    rw [Directory.total, foldl_add_figure]
    exact Nat.le_add_right _ _
  apply pageReserve_sealed sealed
  · refine Nat.le_trans (Nat.add_le_add_left ?_ _) (kept .results)
    rw [resultReserve, Limits.reservedIndexPages, ← resultCount]
    apply Nat.div_le_div_right
    exact Nat.sub_le_sub_right (Nat.add_le_add_left waiting _) 1
  · refine Nat.le_trans (Nat.add_le_add_left ?_ _) (kept .events)
    rw [eventReserve, Limits.reservedIndexPages, ← eventCount]
    exact Nat.le_refl _

theorem reserve_of_exempt (sealed : SealedRoot digests limits base draft index) (reserve : PageReserve digests limits base)
    (owes : OwesNoMore digests base draft) : PageReserve digests limits { draft with index := index } := by
  obtain ⟨resultGroups, resultRest, resultsDescribed, results⟩ := sealed.results
  obtain ⟨eventGroups, eventRest, eventsDescribed, events⟩ := sealed.events
  apply pageReserve_sealed sealed
  · exact Nat.le_trans (results.reserve_le resultsDescribed rfl (owes.results base.index.results.tailFrom)) reserve.results
  · exact Nat.le_trans (events.reserve_le eventsDescribed rfl (owes.events base.index.events.tailFrom)) reserve.events

/-- A draft edits a root that keeps the reserve, and owes no more than it when its publish is exempt. -/
theorem reservedBase_exists (inv : RootInv digests limits root) (reserve : PageReserve digests limits root)
    (step : Step digests limits root now command whole reply) :
    ∃ base, RootInv digests limits base ∧ EditsRoot digests base whole ∧ PageReserve digests limits base ∧
      (guarded root command reply = false → OwesNoMore digests base whole) := by
  rcases step_incarnation step with ⟨same, sameIndex⟩ | restarted
  · exact ⟨root, inv, editsRoot_of_step inv step same sameIndex, reserve, owesNoMore_of_exempt step⟩
  · have fresh : RootInv digests limits whole := by
      rw [restarted]
      exact ⟨tracked_recreated root _, paged_nil rfl rfl rfl rfl rfl rfl⟩
    refine ⟨whole, fresh, editsRoot_refl fresh, ?_, fun _ => ⟨fun _ => Nat.le_refl _, fun _ => Nat.le_refl _⟩⟩
    rw [restarted]
    exact pageReserve_nil rfl rfl rfl rfl rfl rfl rfl

/-- A publish keeps the reserve: a guarded one checks it, and an exempt one owes no more than before. -/
theorem pageReserve_published {published : Head} (inv : RootInv digests limits root)
    (reserve : PageReserve digests limits root)
    (publication : Publication digests limits root now command reply published whole index) :
    PageReserve digests limits (settled digests published) := by
  have tracked := tracked_of_step inv publication.step
  obtain ⟨base, baseInv, edits, baseReserve, owes⟩ := reservedBase_exists inv reserve publication.step
  have revisedEdits : EditsRoot digests base { whole with rootRevision := published.rootRevision } := { edits with }
  obtain ⟨sealedIndex, sealedHead, sealed⟩ :=
    sealIndex_ok baseInv revisedEdits (tracked.revised published.rootRevision) publication.isSealed
  obtain rfl : index = sealedIndex := congrArg Head.index sealedHead
  have kept := publication.kept
  rw [publication.outcome] at kept ⊢
  generalize published.quota = quota at kept ⊢
  generalize published.rootRevision = revision at sealed kept ⊢
  have draftSealed : SealedRoot digests limits base { whole with rootRevision := revision, quota := quota } index :=
    ⟨sealed.inbox, sealed.receipts, sealed.results, sealed.events, sealed.timers⟩
  apply pageReserve_settled
  · exact (tracked.revised revision).of_same
      ⟨Perm.refl _, Perm.refl _, Perm.refl _, Perm.refl _, Perm.refl _, rfl⟩
  · cases isGuarded : guarded root command reply with
    | true => exact reserve_of_guard draftSealed (kept isGuarded).2
    | false =>
      have owed := owes isGuarded
      exact reserve_of_exempt draftSealed baseReserve ⟨owed.results, owed.events⟩

end RootReserve

/-- The commands that end an outstanding input or settle a pending effect. -/
def Command.endsWork : Command → Bool
  | .failTurn _ => true
  | .cancel _ => true
  | .recordEffectResult _ => true
  | _ => false

section Terminal

variable {digests : Digests} {limits : Limits} {kernel : Kernel} {root whole : Head} {now : Int64} {command : Command} {reply : Reply}

theorem endsWork_exempt (ends : command.endsWork = true) : guarded root command reply = false := by
  cases command with
  | failTurn c => cases reply <;> rfl
  | cancel c => cases reply <;> rfl
  | recordEffectResult c => cases reply <;> rfl
  | _ => cases ends

/-- What a command that ends work leaves of the lists that it appends nothing to. -/
structure AppendsNothing (digests : Digests) (root whole : Head) : Prop where
  index : whole.index = root.index
  inbox : ∀ tail, (openEntries (inboxPages digests) tail whole.inbox).length ≤
    (openEntries (inboxPages digests) tail root.inbox).length
  receipts : whole.receipts = root.receipts
  timers : whole.timers = root.timers

theorem appendsNothing_settledHead {turn : Option ActiveTurn} {acceptSeq : Nat} {result : ResultEntry} :
    AppendsNothing digests root (settledHead digests root turn acceptSeq result) where
  index := rfl
  inbox _ := ((eraseP_sublist).filter _).length_le
  receipts := rfl
  timers := rfl

theorem appendsNothing_of_endsWork (step : Step digests limits root now command whole reply) (ends : command.endsWork = true) :
    AppendsNothing digests root whole := by
  cases step with
  | block command fence turn error fenced onTurn => exact ⟨rfl, fun _ => Nat.le_refl _, rfl, rfl⟩
  | failCancelled c turn onTurn requested waiting => exact appendsNothing_settledHead
  | failRetry c turn failedAttempts onTurn isOpen waiting resolved =>
    refine ⟨rfl, fun tail => ?_, rfl, rfl⟩
    -- The retried input keeps its key, so it stays on its side of the tail.
    have keys := @map_updateFirst _ (fun entry : InboxEntry => entry.acceptSeq = turn.inputAcceptSeq) _ (·.acceptSeq)
      (fun entry => { entry with failedAttempts := failedAttempts, lastFailedTurnId := some turn.turnId }) (fun _ _ => rfl)
      root.inbox
    have counts := congrArg (List.countP fun key => tail ≤ key) keys
    rw [countP_map, countP_map] at counts
    rw [openEntries, openEntries, ← countP_eq_length_filter, ← countP_eq_length_filter]
    exact Nat.le_of_eq counts
  | failTerminal c turn onTurn isOpen waiting => exact appendsNothing_settledHead
  | requestCancel c turn addressed running same => exact ⟨rfl, fun _ => Nat.le_refl _, rfl, rfl⟩
  | cancelWaiting c addressed elsewhere waiting => exact appendsNothing_settledHead
  | recordResult c effect addressed found pending attempted =>
    split
    · exact ⟨rfl, fun _ => Nat.le_refl _, rfl, rfl⟩
    · exact ⟨rfl, fun _ => Nat.le_refl _, rfl, rfl⟩
  | _ => cases ends

theorem not_overfull {base : Head} {list : ListKind} (reserve : PageReserve digests limits root)
    (step : Step digests limits root now command whole reply) (ends : command.endsWork = true) (edits : EditsRoot digests base whole)
    (tracked : Tracked digests whole) : ¬Overfull digests limits base whole list := by
  have appends := appendsNothing_of_endsWork step ends
  have owes := owesNoMore_of_exempt step (endsWork_exempt ends)
  have sameIndex : base.index = root.index := edits.index.symm.trans appends.index
  have positive : 0 < limits.pageSize := Nat.le_max_right _ _
  intro exceeds
  cases exceeds with
  | inbox groups rest described exceeds =>
    have count := described.pageCount
    rw [sameIndex] at exceeds count
    have short := Nat.le_trans (appends.inbox root.index.inbox.tailFrom) reserve.inboxShort
    have kept := @resealed_short _ (inboxPages digests) _ whole.inbox groups ⊤ described.fits tracked.inbox_distinct _ short
    have room := reserve.inbox
    omega
  | receipts groups rest described exceeds =>
    have count := described.pageCount
    rw [sameIndex] at exceeds count
    rw [appends.receipts] at exceeds
    have kept := @resealed_uncut _ (receiptPages digests) _ _ groups _ rfl _ reserve.receiptsUncut
    have room := reserve.receipts
    omega
  | results groups rest described exceeds =>
    have count := described.pageCount
    rw [sameIndex] at exceeds count
    have kept := Nat.le_trans (Nat.le_add_right _ _) (@resealed_reserve _ (resultPages digests) _ whole.results groups
      whole.pendingFloor rfl positive root.index.results.tailFrom whole.inbox.length)
    have owed := @Nat.div_le_div_right _ _ limits.pageSize
      (Nat.sub_le_sub_right (owes.results root.index.results.tailFrom) 1)
    have room := reserve.results
    rw [resultReserve] at room
    omega
  | events groups rest described exceeds =>
    have count := described.pageCount
    rw [sameIndex] at exceeds count
    have kept := Nat.le_trans (Nat.le_add_right _ _) (@resealed_reserve _ (eventPages digests) _ whole.events groups ⊤ rfl
      positive root.index.events.tailFrom (pendingEffects whole))
    have owed := @Nat.div_le_div_right _ _ limits.pageSize
      (Nat.sub_le_sub_right (owes.events root.index.events.tailFrom) 1)
    have room := reserve.events
    rw [eventReserve] at room
    omega
  | timers groups rest described exceeds =>
    have count := described.pageCount
    rw [sameIndex, @firstScheduled_perm whole root (by rw [appends.timers])] at exceeds
    rw [sameIndex] at count
    rw [appends.timers] at exceeds
    have kept := @resealed_uncut _ (timerPages digests) _ _ groups _ rfl _ reserve.timersUncut
    have room := reserve.timers
    omega

variable {ids : CollisionFree}

theorem pageReserve_advance {outcome : Except AgentError Transition} {next : Head} (inv : RootInv digests kernel.limits root)
    (reserve : PageReserve digests kernel.limits root) (advance : Advance kernel digests root command now outcome next) :
    PageReserve digests kernel.limits next := by
  cases advance with
  | refused error => exact reserve
  | answered reply whole => exact reserve
  | published held full whole index effects reply applied publication => exact pageReserve_published inv reserve publication

theorem pageReserve_run {applied : List Applied} (run : Run kernel ids applied root) :
    PageReserve ids kernel.limits root := by
  induction run with
  | create c now published effects reply created =>
    obtain ⟨same, index⟩ := created_same created
    apply pageReserve_nil
    · exact same.inbox.eq_nil
    · exact same.receipts.eq_nil
    · exact same.results.eq_nil
    · exact same.events.eq_nil
    · exact same.timers.eq_nil
    · rw [same.fields]
      rfl
    · show published.index.allLoaded = {}
      rw [index]
      rfl
  | apply applied root lists command now run loads ih =>
    have inv := rootInv_run run
    exact pageReserve_advance inv ih (advance_of_apply inv loads)

/-- A command that waits for a page, or whose texts are too long, is refused for no cap on pages. -/
theorem unread_plain {lists : Lists} {error : AgentError} (unread : ¬PagesRead ids (root.holding lists) command)
    (refused : kernel.apply ids (some (root.holding lists)) command now = .error error) :
    error.cap ≠ some .indexPages := by
  rw [apply_eq, checkPages_refused unread] at refused
  rcases error_of_bind refused with tooLong | ⟨_, -, missing⟩
  · exact (checkStrings_plain command error tooLong).pages
  · cases missing
    rintro ⟨⟩

end Terminal

end Ravel.Agents
