import Ravel.Proof.Agents.PublishedDrafts

namespace Ravel.Agents

open List Library

/-- Two outcomes with the same answer, of which the first leaves the root of the second. -/
def SameOutcome (digests : Digests) (root : Head) (lists : Lists) :
    Except AgentError Transition → Except AgentError Transition → Prop
  | .error error, .error wholeError => error = wholeError
  | .ok (.unchanged reply), .ok (.unchanged wholeReply) => reply = wholeReply
  | .ok (.publish held effects reply), .ok (.publish full wholeEffects wholeReply) =>
    effects = wholeEffects ∧ reply = wholeReply ∧ (∃ drafted, held = full.holding drafted) ∧
      rejoin digests root lists held = settled digests full
  | _, _ => False

namespace SameOutcome

variable {digests : Digests} {root : Head} {lists : Lists} {held : Except AgentError Transition}

theorem answered {reply : Reply} (same : SameOutcome digests root lists held (.ok (.unchanged reply))) :
    held = .ok (.unchanged reply) := by
  cases held with
  | error error => exact same.elim
  | ok outcome =>
    cases outcome with
    | unchanged heldReply =>
      have sameReply : heldReply = reply := same
      rw [sameReply]
    | publish published effects heldReply => exact same.elim

theorem refused {error : AgentError} (same : SameOutcome digests root lists held (.error error)) : held = .error error := by
  cases held with
  | error heldError =>
    have sameError : heldError = error := same
    rw [sameError]
  | ok outcome => cases outcome <;> exact same.elim

theorem whole_refused {full : Except AgentError Transition} {error : AgentError}
    (same : SameOutcome digests root lists (.error error) full) : full = .error error := by
  cases full with
  | error wholeError =>
    have sameError : error = wholeError := same
    rw [sameError]
  | ok outcome => cases outcome <;> exact same.elim

end SameOutcome

section Refinement

variable {ids : CollisionFree} {limits : Limits} {root whole : Head} {lists drafted : Lists} {now : Int64} {command : Command}
  {effects : List Effect} {reply : Reply}

theorem sealDirectory_nil {Entry : Type} (digests : Digests) (pages : PageEntry Entry) (sealBelow : WithTop Nat)
    (bounds : PageBounds) : sealDirectory digests pages {} [] sealBelow bounds = .ok ({}, []) := by
  have noPages : ¬bounds.maxIndexPages < ([] : List PageMeta).length := Nat.not_lt_zero _
  have pulls : pullsBack pages {} [] = false := by simp [pullsBack]
  have opened : sortByKey pages (routed pages {} [] none) = [] := rfl
  rw [sealDirectory]
  simp only [sealSource, pulls, Bool.false_eq_true, if_false, opened]
  show sealTail digests pages {} [] 0 sealBelow bounds = _
  rw [sealTail]
  simp only [sealOpen, bind, Except.bind, nil_append, noPages, if_false]
  rfl

variable {head : Head} {Item : Type} {check : Item → Except AgentError Unit} {items : List Item} {dir : Directory}
  (kernel : Kernel)

theorem sealIndex_fresh (digests : Digests) (fresh : Fresh head) (bounds : PageBounds) :
    sealIndex digests head bounds = .ok head := by
  cases head
  obtain ⟨rfl, rfl, rfl, rfl, rfl, rfl⟩ := fresh
  simp only [sealIndex, sealDirectory_nil]
  rfl

theorem rejoin_fresh (digests : Digests) (fresh : Fresh head) (root : Head) (lists : Lists) :
    rejoin digests root lists head = settled digests head := by
  obtain ⟨inbox, receipts, results, events, timers, index⟩ := fresh
  have rejoined : ∀ {Entry : Type} (pages : PageEntry Entry) (before : Directory) (list : List Entry),
      rejoinList pages before {} list [] = sortByKey pages [] := by
    intro Entry pages before list
    have unread : list.filter (stillSealed pages before {}) = [] := by
      rw [filter_eq_nil_iff]
      intro entry _
      rw [stillSealed]
      cases before.pageFor (pages.key entry) with
      | none => simp
      | some page =>
        cases before.pages[page]? <;> simp [Directory.unloadedPages, Directory.unloaded]
    rw [rejoinList, unread]
    rfl
  rw [rejoin, settled, inbox, receipts, results, events, timers, index]
  simp only [rejoined]

/-- The last two stages of the kernel: the publish and the growth guard. -/
def finish (digests : Digests) (limits : Limits) (observed : Head) (command : Command) (drafted : Transition) :
    Except AgentError Transition := do
  let published ← publish digests limits (some observed) drafted
  checkGrowthHeadroom digests limits observed command published

theorem guarded_holding (root : Head) (lists : Lists) (command : Command) (reply : Reply) :
    guarded (root.holding lists) command reply = guarded root command reply := by
  cases command <;> rfl

/-- The publish and the guard treat two heads alike that agree on their length and reserves. -/
theorem checkGrowthHeadroom_same {held full : Head} (same : SameOutcome ids root lists
      (.ok (.publish held effects reply)) (.ok (.publish full effects reply)))
    (length : held.encodedLen ids = full.encodedLen ids)
    (reserve : limits.reservedBytes ids held = limits.reservedBytes ids full)
    (pages : ∀ list, (held.index.directory list).pages.length + limits.reservedIndexPages held list =
      (full.index.directory list).pages.length + limits.reservedIndexPages full list)
    (identity : safeIds ids held = safeIds ids full) :
    SameOutcome ids root lists
      (checkGrowthHeadroom ids limits (root.holding lists) command (.publish held effects reply))
      (checkGrowthHeadroom ids limits root command (.publish full effects reply)) := by
  have sameFail : ∀ kind reason, fail ids held kind reason = fail ids full kind reason := by
    intro kind reason
    rw [fail, fail, identity]
  rw [checkGrowthHeadroom, checkGrowthHeadroom, guarded_holding, length, reserve]
  simp only [pages, sameFail]
  split
  · exact same
  · split
    · rfl
    · split
      · rfl
      · exact same

/-- The byte cap on a sealed root with its counters. -/
def cappedPublish (digests : Digests) (limits : Limits) (head : Head) (effects : List Effect) (reply : Reply) :
    Except AgentError Transition :=
  if limits.maxHeadBytes < head.encodedLen digests then
    .error ((fail digests head .budgetExceeded "HEAD would exceed its byte cap").withCap .headBytes)
  else .ok (.publish head effects reply)

/-- The publish of a draft that has its revision. -/
def publishRevised (digests : Digests) (limits : Limits) (revised : Head) (effects : List Effect) (reply : Reply) :
    Except AgentError Transition := do
  let sealed ← (sealIndex digests revised limits.pageBounds).mapError (pageError digests revised)
  cappedPublish digests limits { sealed with quota := sealed.computedQuota } effects reply

theorem publishRevised_sealed {digests : Digests} {revised sealed : Head}
    (isSealed : sealIndex digests revised limits.pageBounds = .ok sealed) :
    publishRevised digests limits revised effects reply =
      cappedPublish digests limits { sealed with quota := sealed.computedQuota } effects reply := by
  rw [publishRevised, isSealed]
  rfl

/-- Two sealed roots that agree on their length and reserves are published alike. -/
theorem cappedPublish_same {held full : Head} (same : SameOutcome ids root lists
      (.ok (.publish held effects reply)) (.ok (.publish full effects reply)))
    (length : held.encodedLen ids = full.encodedLen ids)
    (reserve : limits.reservedBytes ids held = limits.reservedBytes ids full)
    (pages : ∀ list, (held.index.directory list).pages.length + limits.reservedIndexPages held list =
      (full.index.directory list).pages.length + limits.reservedIndexPages full list)
    (identity : safeIds ids held = safeIds ids full) :
    SameOutcome ids root lists
      (cappedPublish ids limits held effects reply >>=
        checkGrowthHeadroom ids limits (root.holding lists) command)
      (cappedPublish ids limits full effects reply >>= checkGrowthHeadroom ids limits root command) := by
  rw [cappedPublish, cappedPublish, length]
  split
  · rw [fail, fail, identity]
    rfl
  · exact checkGrowthHeadroom_same same length reserve pages identity

theorem publish_eq (digests : Digests) (limits : Limits) (before : Option Head) (new : Head) (effects : List Effect)
    (reply : Reply) :
    publish digests limits before (.publish new effects reply) =
      nextRevision digests before >>= fun revision =>
        publishRevised digests limits { new with rootRevision := revision } effects reply := rfl

theorem publishRevised_fresh {digests : Digests} {revised : Head} (fresh : Fresh revised) :
    publishRevised digests limits revised effects reply =
      cappedPublish digests limits { revised with quota := revised.computedQuota } effects reply :=
  publishRevised_sealed (sealIndex_fresh digests fresh limits.pageBounds)

theorem finish_fresh (fresh : Fresh whole) :
    SameOutcome ids root lists
      (finish ids limits (root.holding lists) command (.publish whole effects reply))
      (finish ids limits root command (.publish whole effects reply)) := by
  rw [finish, finish, publish_eq, publish_eq]
  have sameRevision : nextRevision ids (some (root.holding lists)) = nextRevision ids (some root) := rfl
  rw [sameRevision]
  cases nextRevision ids (some root) with
  | error error => rfl
  | ok revision =>
    have freshRevised : Fresh { whole with rootRevision := revision } := fresh
    show SameOutcome _ _ _ (publishRevised _ _ _ _ _ >>= _) (publishRevised _ _ _ _ _ >>= _)
    rw [publishRevised_fresh freshRevised]
    apply cappedPublish_same
    · refine ⟨rfl, rfl, ⟨Head.lists _, rfl⟩, ?_⟩
      apply rejoin_fresh
      exact fresh
    · rfl
    · rfl
    · intro _
      rfl
    · rfl

theorem finish_draft (inv : RootInv ids limits root) (loads : Loads ids root lists)
    (edits : EditsRoot ids root whole) (tracked : Tracked ids whole)
    (draftOf : DraftOf ids root lists whole drafted) (tailLoaded : TailLoaded ids limits root whole lists) :
    SameOutcome ids root lists
      (finish ids limits (root.holding lists) command (.publish (whole.holding drafted) effects reply))
      (finish ids limits root command (.publish whole effects reply)) := by
  rw [finish, finish, publish_eq, publish_eq]
  have sameRevision : nextRevision ids (some (root.holding lists)) = nextRevision ids (some root) := rfl
  rw [sameRevision]
  cases nextRevision ids (some root) with
  | error error => rfl
  | ok revision =>
    have revisedEdits : EditsRoot ids root { whole with rootRevision := revision } := { edits with }
    have revisedTracked : Tracked ids { whole with rootRevision := revision } := tracked.revised revision
    have revisedDraft : DraftOf ids root lists { whole with rootRevision := revision } drafted := { draftOf with }
    have revisedTail : TailLoaded ids limits root { whole with rootRevision := revision } lists := tailLoaded
    show SameOutcome _ _ _
      (publishRevised ids limits (Head.holding { whole with rootRevision := revision } drafted) effects reply >>= _)
      (publishRevised ids limits { whole with rootRevision := revision } effects reply >>= _)
    generalize { whole with rootRevision := revision } = revised at revisedEdits revisedTracked revisedDraft revisedTail ⊢
    rcases sealIndex_pair inv loads revisedEdits revisedTracked revisedDraft revisedTail with
      ⟨error, held, full⟩ | ⟨inMemory, all, held, full, pair⟩
    · rw [publishRevised, publishRevised, held, full]
      rfl
    · have quota := computedQuota_pair inv loads revisedDraft pair
      have heldSealed : sealIndex ids (revised.holding drafted) limits.pageBounds =
          .ok (heldHead revised drafted inMemory) := held
      have fullSealed : sealIndex ids revised limits.pageBounds = .ok (fullHead revised all) := full
      rw [publishRevised_sealed heldSealed, publishRevised_sealed fullSealed, quota]
      generalize (fullHead revised all).computedQuota = counted
      apply cappedPublish_same
      · refine ⟨rfl, rfl, ⟨_, heldHead_holding revised drafted inMemory all counted⟩, ?_⟩
        exact rejoin_pair inv loads revisedTracked revisedDraft pair counted
      · exact encodedLen_pair revisedDraft pair counted
      · exact reservedBytes_pair inv loads revisedDraft pair counted
      · intro list
        rw [reservedIndexPages_pair inv loads revisedDraft pair]
        cases list with
        | inbox => exact congrArg (·.length + _) pair.inbox.sameRecord.1
        | receipts => exact congrArg (·.length + _) pair.receipts.sameRecord.1
        | results => exact congrArg (·.length + _) pair.results.sameRecord.1
        | events => exact congrArg (·.length + _) pair.events.sameRecord.1
        | timers => exact congrArg (·.length + _) pair.timers.sameRecord.1
      · rfl

theorem forM_ok (passes : ∀ item ∈ items, check item = .ok ()) : items.forM check = .ok () := by
  induction items with
  | nil => rfl
  | cons item rest ih =>
    rw [List.forM, passes item mem_cons_self]
    exact ih fun other member => passes other (mem_cons_of_mem item member)

theorem forM_error {error : AgentError} (fails : ∀ item ∈ items, check item = .ok () ∨ check item = .error error)
    (refused : ∃ item ∈ items, check item ≠ .ok ()) : items.forM check = .error error := by
  induction items with
  | nil =>
    obtain ⟨item, member, -⟩ := refused
    cases member
  | cons item rest ih =>
    rw [List.forM]
    rcases fails item mem_cons_self with passes | refusal
    · rw [passes]
      apply ih fun other member => fails other (mem_cons_of_mem item member)
      obtain ⟨other, member, refusesOther⟩ := refused
      rcases mem_cons.mp member with rfl | later
      · exact absurd passes refusesOther
      · exact ⟨other, later, refusesOther⟩
    · rw [refusal]
      rfl

/-- One need is met when no page it names is missing, and is refused otherwise. -/
theorem require_cases (digests : Digests) (head : Head) (need : ListKind × Need) :
    ((head.index.directory need.1).require need.1 need.2).mapError (pageError digests head) =
      if (head.index.directory need.1).missing need.2 = [] then .ok ()
      else .error (fail digests head .storeUnavailable pageNotLoaded) := by
  rw [Directory.require]
  cases (head.index.directory need.1).missing need.2 with
  | nil => rfl
  | cons page others => rfl

theorem checkPages_ok {digests : Digests} (read : PagesRead digests head command) :
    checkPages digests head command = .ok () := by
  apply forM_ok
  intro need member
  rw [require_cases, if_pos (read need member)]

theorem checkPages_refused {digests : Digests} (unread : ¬PagesRead digests head command) :
    checkPages digests head command = .error (fail digests head .storeUnavailable pageNotLoaded) := by
  apply forM_error
  · intro need _
    rw [require_cases]
    split
    · exact .inl rfl
    · exact .inr rfl
  · rw [PagesRead, not_forall] at unread
    obtain ⟨need, unreadNeed⟩ := unread
    rw [Classical.not_imp] at unreadNeed
    refine ⟨need, unreadNeed.1, ?_⟩
    rw [require_cases, if_neg unreadNeed.2]
    rintro ⟨⟩

theorem pagesFor_lt {need : Need} {page : Nat} (named : page ∈ dir.pagesFor need) : page < dir.pages.length := by
  cases need with
  | key key =>
    have routed : dir.pageFor key = some page := by simpa [Directory.pagesFor] using named
    rw [pageFor_eq_pageOf] at routed
    simpa using pageOf_lt routed
  | first => exact mem_range.mp (mem_of_mem_take named)
  | fingerprint fingerprint => exact mem_range.mp (mem_filter.mp named).1
  | marked => exact mem_range.mp (mem_filter.mp named).1
  | all => exact mem_range.mp named

theorem allLoaded_missing (allLoaded : dir.allLoaded = dir) (need : Need) : dir.missing need = [] := by
  rw [Directory.missing, filter_eq_nil_iff]
  intro page named
  rw [allLoaded_isLoaded allLoaded (pagesFor_lt named)]
  decide

/-- A root has every page in memory. -/
theorem pagesRead_root {digests : Digests} (inv : RootInv digests limits root) (command : Command) :
    PagesRead digests root command := by
  intro need _
  apply allLoaded_missing
  cases need.1 with
  | inbox => exact inv.paged.inboxLoaded
  | receipts => exact inv.paged.receiptsLoaded
  | results => exact inv.paged.resultsLoaded
  | events => exact inv.paged.eventsLoaded
  | timers => exact inv.paged.timersLoaded

theorem checkStrings_holding (limits : Limits) (root : Head) (lists : Lists) (command : Command) :
    checkStrings ids limits (root.holding lists) command = checkStrings ids limits root command := rfl

/-- The transition, the publish and the guard in memory have the outcome of those on the whole root. -/
theorem finish_transition (inv : RootInv ids limits root) (loads : Loads ids root lists)
    (read : PagesRead ids (root.holding lists) command) :
    SameOutcome ids root lists
      (transition ids limits (root.holding lists) now command >>=
        finish ids limits (root.holding lists) command)
      (transition ids limits root now command >>= finish ids limits root command) := by
  have agrees := transition_agrees inv loads command now read
  cases draft : transition ids limits (root.holding lists) now command with
  | error error =>
    cases full : transition ids limits root now command with
    | error wholeError =>
      rw [draft, full] at agrees
      exact agrees
    | ok outcome => cases outcome <;> (rw [draft, full] at agrees; exact agrees.elim)
  | ok outcome =>
    cases full : transition ids limits root now command with
    | error wholeError => cases outcome <;> (rw [draft, full] at agrees; exact agrees.elim)
    | ok wholeOutcome =>
      rw [draft, full] at agrees
      cases outcome with
      | unchanged reply =>
        cases wholeOutcome with
        | unchanged wholeReply => exact agrees
        | publish whole effects wholeReply => exact agrees.elim
      | publish held effects reply =>
        cases wholeOutcome with
        | unchanged wholeReply => exact agrees.elim
        | publish whole wholeEffects wholeReply =>
          obtain ⟨rfl, rfl, ⟨rfl, fresh⟩ | ⟨drafted, rfl, draftOf⟩⟩ := agrees
          · exact finish_fresh fresh
          · have step := step_of_transition full
            exact finish_draft inv loads (editsRoot_of_step inv step draftOf.incarnation draftOf.rootIndex)
              (tracked_of_step inv step) draftOf (tailLoaded_of_step inv loads step draftOf.incarnation read)

/-- The kernel without its bounds on the command and its page check. -/
def settleCommand (digests : Digests) (limits : Limits) (head : Head) (command : Command) (now : Int64) :
    Except AgentError Transition :=
  transition digests limits head now command >>= finish digests limits head command

theorem apply_eq (digests : Digests) (head : Head) (command : Command) (now : Int64) :
    kernel.apply digests (some head) command now =
      checkStrings digests kernel.limits head command >>= fun _ =>
        checkPages digests head command >>= fun _ => settleCommand digests kernel.limits head command now := rfl

theorem apply_read (inv : RootInv ids kernel.limits root) (loads : Loads ids root lists)
    (read : PagesRead ids (root.holding lists) command) :
    SameOutcome ids root lists (kernel.apply ids (some (root.holding lists)) command now)
      (kernel.apply ids (some root) command now) := by
  rw [apply_eq, apply_eq, checkStrings_holding, checkPages_ok read, checkPages_ok (pagesRead_root inv command)]
  cases checkStrings ids kernel.limits root command with
  | error error => rfl
  | ok checked => exact finish_transition inv loads read

/-- A command that lacks a page it reads is refused before it changes anything. -/
theorem apply_unread (unread : ¬PagesRead ids (root.holding lists) command) :
    ∃ error, kernel.apply ids (some (root.holding lists)) command now = .error error := by
  rw [apply_eq, checkPages_refused unread]
  cases checkStrings ids kernel.limits (root.holding lists) command with
  | error error => exact ⟨error, rfl⟩
  | ok checked => exact ⟨_, rfl⟩

end Refinement

end Ravel.Agents
