import Ravel.Proof.Agents.LoadedLookups
import Ravel.Proof.Agents.Steps

namespace Ravel.Agents

open List Library

/-- The lists of a draft in memory, against the draft on the whole root: the unread pages are the same. -/
structure DraftOf (digests : Digests) (root : Head) (lists : Lists) (whole : Head) (draft : Lists) : Prop where
  incarnation : whole.incarnation = root.incarnation
  sameIndex : draft.index = lists.index
  rootIndex : whole.index = root.index
  inbox : whole.inbox.Perm (draft.inbox ++ hiddenInbox digests root lists)
  receipts : whole.receipts.Perm (draft.receipts ++ hiddenReceipts digests root lists)
  results : whole.results.Perm (draft.results ++ hiddenResults digests root lists)
  events : whole.events.Perm (draft.events ++ hiddenEvents digests root lists)
  timers : whole.timers.Perm (draft.timers ++ hiddenTimers digests root lists)

/-- A draft of a new incarnation: it has no entries and no pages. -/
def Fresh (head : Head) : Prop :=
  head.inbox = [] ∧ head.receipts = [] ∧ head.results = [] ∧ head.events = [] ∧ head.timers = [] ∧ head.index = {}

/-- Two drafts have the same outcome, and lists that differ by the unread pages. -/
def Agrees (digests : Digests) (root : Head) (lists : Lists) :
    Except AgentError Transition → Except AgentError Transition → Prop
  | .error error, .error wholeError => error = wholeError
  | .ok (.unchanged reply), .ok (.unchanged wholeReply) => reply = wholeReply
  | .ok (.publish draft effects reply), .ok (.publish whole wholeEffects wholeReply) =>
    effects = wholeEffects ∧ reply = wholeReply ∧
      ((draft = whole ∧ Fresh whole) ∨ ∃ drafted, draft = whole.holding drafted ∧ DraftOf digests root lists whole drafted)
  | _, _ => False

section Agreement

variable {ids : CollisionFree} {limits : Limits} {root : Head} {lists : Lists}

theorem agrees_error (error : AgentError) : Agrees ids root lists (.error error) (.error error) := rfl

theorem agrees_unchanged (reply : Reply) :
    Agrees ids root lists (.ok (.unchanged reply)) (.ok (.unchanged reply)) := rfl

theorem agrees_bind {Value : Type} {check : Except AgentError Value}
    {draft whole : Value → Except AgentError Transition}
    (agrees : ∀ value, check = .ok value → Agrees ids root lists (draft value) (whole value)) :
    Agrees ids root lists (check >>= draft) (check >>= whole) := by
  cases result : check with
  | error error => exact agrees_error error
  | ok value => exact agrees value result

/-- Both drafts make one check, and agree once it passed. -/
theorem agrees_checked {Value : Type} {draftCheck wholeCheck : Except AgentError Value}
    {draft whole : Value → Except AgentError Transition} (same : draftCheck = wholeCheck)
    (agrees : ∀ value, wholeCheck = .ok value → Agrees ids root lists (draft value) (whole value)) :
    Agrees ids root lists (draftCheck >>= draft) (wholeCheck >>= whole) := by
  rw [same]
  exact agrees_bind agrees

theorem agrees_ite {condition : Prop} [Decidable condition] {draftThen draftElse wholeThen wholeElse : Except AgentError Transition}
    (onTrue : condition → Agrees ids root lists draftThen wholeThen)
    (onFalse : ¬condition → Agrees ids root lists draftElse wholeElse) :
    Agrees ids root lists (if condition then draftThen else draftElse) (if condition then wholeThen else wholeElse) := by
  by_cases holds : condition
  · rw [if_pos holds, if_pos holds]
    exact onTrue holds
  · rw [if_neg holds, if_neg holds]
    exact onFalse holds

theorem draftOf_root (loads : Loads ids root lists) : DraftOf ids root lists root lists where
  incarnation := rfl
  sameIndex := rfl
  rootIndex := rfl
  inbox := loads.inbox.cut
  receipts := loads.receipts.cut
  results := loads.results.cut
  events := loads.events.cut
  timers := loads.timers.cut

section

variable {whole : Head} {draft : Lists} (inv : RootInv ids limits root) (loads : Loads ids root lists)
  (draftOf : DraftOf ids root lists whole draft)

include inv loads draftOf

theorem inboxDepth_draft : (whole.holding draft).inboxDepth = whole.inboxDepth := by
  obtain ⟨groups, rest, described⟩ := inv.paged.inbox
  have counted := total_eq described loads.inbox draft.inbox.length
  have lengths := draftOf.inbox.length_eq
  rw [length_append] at lengths
  rw [Head.inboxDepth, Head.inboxDepth, draftOf.rootIndex, allLoaded_total inv.paged.inboxLoaded, lengths]
  show draft.index.inbox.total draft.inbox.length = _
  rw [draftOf.sameIndex, counted]
  rfl

theorem receiptCount_draft : (whole.holding draft).receiptCount = whole.receiptCount := by
  obtain ⟨groups, rest, described⟩ := inv.paged.receipts
  have counted := total_eq described loads.receipts draft.receipts.length
  have lengths := draftOf.receipts.length_eq
  rw [length_append] at lengths
  rw [Head.receiptCount, Head.receiptCount, draftOf.rootIndex, allLoaded_total inv.paged.receiptsLoaded, lengths]
  show draft.index.receipts.total draft.receipts.length = _
  rw [draftOf.sameIndex, counted]
  rfl

theorem scheduledTimers_draft : (whole.holding draft).scheduledTimers = whole.scheduledTimers := by
  obtain ⟨groups, rest, described⟩ := inv.paged.timers
  have counted := unloadedMarked_eq described loads.timers
  have scheduled := draftOf.timers.countP_eq fun timer => timer.status = .scheduled
  rw [countP_append] at scheduled
  rw [Head.scheduledTimers, Head.scheduledTimers, draftOf.rootIndex, allLoaded_unloadedMarked inv.paged.timersLoaded,
    scheduled]
  show draft.index.timers.unloadedMarked + draft.timers.countP _ = _
  rw [draftOf.sameIndex, counted, Nat.zero_add, Nat.add_comm]
  rfl

theorem hasInbox_draft : (whole.holding draft).hasInbox = whole.hasInbox := by
  rw [Head.hasInbox, Head.hasInbox, inboxDepth_draft inv loads draftOf]

end

theorem create_agrees (c : Create) :
    Agrees ids root lists (create ids (root.holding lists) c) (create ids root c) := by
  apply agrees_ite
  · intro _
    exact agrees_error _
  · intro _
    apply agrees_ite
    · intro _
      exact agrees_unchanged _
    · intro _
      dsimp only [Head.holding]
      cases checkedSuccU64 root.incarnation with
      | none => exact agrees_error _
      | some incarnation => exact ⟨rfl, rfl, .inl ⟨rfl, rfl, rfl, rfl, rfl, rfl, rfl⟩⟩

section

variable (inv : RootInv ids limits root) (loads : Loads ids root lists)

include inv loads

theorem enqueue_agrees (c : Enqueue) (now : Int64)
    (complete : lists.index.receipts.missing (.fingerprint (ids.receiptFingerprint c.handler c.requestId)) = []) :
    Agrees ids root lists (enqueue ids limits (root.holding lists) c now)
      (enqueue ids limits root c now) := by
  have found := (receipt_resolves inv loads complete).find?
  have depth := inboxDepth_draft inv loads (draftOf_root loads)
  have receipts := receiptCount_draft inv loads (draftOf_root loads)
  rw [enqueue, enqueue, depth, receipts]
  apply agrees_bind
  intro _ _
  dsimp only [Head.holding]
  rw [found]
  cases root.receipts.find? fun receipt => decide (receipt.requestId = c.requestId ∧ receipt.handler = c.handler) with
  | some receipt => exact agrees_ite (fun _ => agrees_error _) (fun _ => agrees_unchanged _)
  | none =>
    apply agrees_ite (fun _ => agrees_error _)
    intro _
    apply agrees_ite (fun _ => agrees_error _)
    intro _
    have draft := draftOf_root loads
    refine ⟨rfl, rfl, .inr ⟨{ lists with inbox := lists.inbox ++ [_], receipts := lists.receipts ++ [_] }, rfl, ?_⟩⟩
    exact { draft with inbox := append_cut draft.inbox _, receipts := append_cut draft.receipts _ }

theorem takeover_agrees (c : Takeover) :
    Agrees ids root lists (takeover ids (root.holding lists) c) (takeover ids root c) := by
  apply agrees_bind
  intro _ _
  apply agrees_ite (fun _ => agrees_error _)
  intro _
  dsimp only [Head.holding]
  cases checkedSuccU64 root.epoch with
  | none => exact agrees_error _
  | some epoch =>
    have draft := draftOf_root loads
    have owned : DraftOf ids root lists
        { root with epoch := epoch, ownerId := c.ownerId, ownerLeaseHintUnixNs := c.leaseHintUnixNs } lists :=
      { draft with }
    have worked := hasInbox_draft inv loads owned
    refine ⟨?_, rfl, .inr ⟨lists, rfl, { draft with }⟩⟩
    exact congrArg (fun has => if has || root.activeTurn.isSome then [Effect.wakeWorker] else []) worked

theorem beginTurn_agrees (c : BeginTurn) (now : Int64)
    (complete : root.activeTurn = none → lists.index.inbox.missing .first = []) :
    Agrees ids root lists (beginTurn ids (root.holding lists) c now)
      (beginTurn ids root c now) := by
  apply agrees_bind
  intro _ _
  dsimp only [Head.holding]
  cases active : root.activeTurn with
  | some turn => exact agrees_ite (fun _ => agrees_unchanged _) (fun _ => agrees_error _)
  | none =>
    dsimp only [Head.holding]
    rw [inbox_first inv loads (complete active)]
    cases root.inbox.head? with
    | none => exact agrees_unchanged _
    | some next =>
      dsimp only
      cases c.handlers.find? fun pin => decide (pin.handler = next.handler) with
      | none => exact agrees_error _
      | some pin => exact ⟨rfl, rfl, .inr ⟨lists, rfl, { draftOf_root loads with }⟩⟩

/-- The checks of a turn's command answer from memory as from the whole root. -/
theorem checkTurn_holding (fence : TurnFence)
    (complete : (∀ turn, root.activeTurn = some turn → turn.turnId ≠ fence.turnId) → lists.index.results.missing (.fingerprint (ids.idFingerprint fence.turnId)) = []) :
    checkTurn ids (root.holding lists) fence = checkTurn ids root fence := by
  rw [checkTurn, checkTurn]
  show (checkOwner ids root fence.owner >>= _) = (checkOwner ids root fence.owner >>= _)
  congr 1
  funext _
  dsimp only [Head.holding]
  cases active : root.activeTurn.filter fun turn => decide (turn.turnId = fence.turnId) with
  | some turn => rfl
  | none =>
    have other : ∀ turn, root.activeTurn = some turn → turn.turnId ≠ fence.turnId := by
      intro turn isActive same
      rw [isActive, Option.filter_some, if_pos (by simpa using same)] at active
      cases active
    dsimp only [Head.holding]
    rw [(result_turn_resolves inv loads (complete other)).find?]
    rfl

end

/-- The pages that a turn's command reads: the input's page, or the pages of a committed result. -/
def TurnPages (digests : Digests) (root : Head) (lists : Lists) (fence : TurnFence) : Prop :=
  (∀ turn, root.activeTurn = some turn → turn.turnId = fence.turnId →
    lists.index.inbox.missing (.key turn.inputAcceptSeq) = []) ∧
  ((∀ turn, root.activeTurn = some turn → turn.turnId ≠ fence.turnId) →
    lists.index.results.missing (.fingerprint (digests.idFingerprint fence.turnId)) = [])

theorem checkTurn_active {digests : Digests} {head : Head} {fence : TurnFence} {turn : ActiveTurn}
    (checked : checkTurn digests head fence = .ok (.inl turn)) :
    head.activeTurn = some turn ∧ turn.turnId = fence.turnId := by
  rw [checkTurn] at checked
  cases owned : checkOwner digests head fence.owner with
  | error error => simp [owned, bind, Except.bind] at checked
  | ok _ =>
    simp only [owned, bind, Except.bind] at checked
    cases active : head.activeTurn.filter fun turn => decide (turn.turnId = fence.turnId) with
    | none =>
      simp only [active] at checked
      split at checked <;> cases checked
    | some found =>
      simp only [active] at checked
      obtain ⟨-, checked⟩ := ok_of_guard checked
      obtain ⟨-, checked⟩ := ok_of_guard checked
      simp only [Except.ok.injEq, Sum.inl.injEq] at checked
      subst checked
      obtain ⟨isActive, same⟩ := Option.filter_eq_some_iff.mp active
      exact ⟨isActive, of_decide_eq_true same⟩

theorem requireRunning_holding (inv : RootInv ids limits root) (loads : Loads ids root lists)
    (fence : TurnFence) (pages : TurnPages ids root lists fence) :
    requireRunning ids (root.holding lists) fence = requireRunning ids root fence := by
  rw [requireRunning, requireRunning, checkTurn_holding inv loads fence pages.2]
  rfl

theorem takeInput_agrees (inv : RootInv ids limits root) (loads : Loads ids root lists) {acceptSeq : Nat}
    (complete : lists.index.inbox.missing (.key acceptSeq) = [])
    {draft whole : List InboxEntry → Except AgentError Transition}
    (agrees : ∀ part all : List InboxEntry, all.Perm (part ++ hiddenInbox ids root lists) →
      Agrees ids root lists (draft part) (whole all)) :
    Agrees ids root lists (takeInput ids (root.holding lists) acceptSeq >>= draft)
      (takeInput ids root acceptSeq >>= whole) := by
  have resolves := inbox_key_resolves inv loads complete
  have present : (lists.inbox.any fun entry => decide (entry.acceptSeq = acceptSeq)) =
      root.inbox.any fun entry => decide (entry.acceptSeq = acceptSeq) := resolves.any
  rw [takeInput, takeInput]
  show Agrees _ _ _ ((if (lists.inbox.any fun entry => decide (entry.acceptSeq = acceptSeq)) = true then _ else _) >>= draft) _
  rw [present]
  by_cases waiting : (root.inbox.any fun entry => decide (entry.acceptSeq = acceptSeq)) = true
  · rw [if_pos waiting, if_pos waiting]
    exact agrees _ _ resolves.eraseP
  · rw [if_neg waiting, if_neg waiting]
    exact agrees_error _

theorem wakeIfInbox_draft (inv : RootInv ids limits root) (loads : Loads ids root lists) {whole : Head}
    {draft : Lists} (draftOf : DraftOf ids root lists whole draft) :
    wakeIfInbox (whole.holding draft) = wakeIfInbox whole := by
  rw [wakeIfInbox, wakeIfInbox, hasInbox_draft inv loads draftOf]

theorem blockTurn_agrees (loads : Loads ids root lists) (reason : String) :
    Agrees ids root lists (.ok (blockTurn ids (root.holding lists) reason))
      (.ok (blockTurn ids root reason)) :=
  ⟨rfl, rfl, .inr ⟨lists, rfl, { draftOf_root loads with }⟩⟩

/-- Timer tables that differ by timers no change names. -/
structure TableCut (hidden : List TimerEntry) (whole part : TimerTable) : Prop where
  cut : whole.timers.Perm (part.timers ++ hidden)
  generation : part.generation = whole.generation
  distinct : (whole.timers.map (·.timerId)).Nodup

theorem schedule_cut {hidden : List TimerEntry} {incarnation : Nat} {spec : TimerSpec} {whole part : TimerTable}
    (table : TableCut hidden whole part)
    (unread : ∀ timer ∈ hidden, timer.timerId ≠ ids.timerId incarnation spec.timerKey) :
    TableCut hidden (schedule ids incarnation whole spec) (schedule ids incarnation part spec) := by
  have fails : ∀ timer ∈ hidden, ¬decide (timer.timerId = ids.timerId incarnation spec.timerKey) = true := by
    intro timer member
    simpa using unread timer member
  have unique := atMostOne_key table.distinct (ids.timerId incarnation spec.timerKey)
  have present := any_cut table.cut fails
  refine ⟨?_, ?_, schedule_ids_distinct ids incarnation spec table.distinct⟩
  · rw [schedule, schedule]
    dsimp only
    rw [present, table.generation]
    split
    · exact updateFirst_cut _ unique table.cut fails
    · exact append_cut table.cut _
  · show part.generation + 1 = whole.generation + 1
    rw [table.generation]

/-- The timer that a change names. -/
def TimerChange.timerKey : TimerChange → String
  | .schedule spec => spec.timerKey
  | .cancel timerKey => timerKey

theorem applyTimerChange_cut {hidden : List TimerEntry} {incarnation : Nat} {change : TimerChange} {whole part : TimerTable}
    (table : TableCut hidden whole part)
    (unread : ∀ timer ∈ hidden, timer.timerId ≠ ids.timerId incarnation change.timerKey) :
    TableCut hidden (applyTimerChange ids incarnation whole change)
      (applyTimerChange ids incarnation part change) := by
  cases change with
  | schedule spec => exact schedule_cut table unread
  | cancel timerKey =>
    refine ⟨?_, table.generation, ?_⟩
    · apply updateFirst_cut _ (timer_id_unique table.distinct _ _) table.cut
      intro timer member passes
      exact unread timer member (of_decide_eq_true passes).1
    · show ((updateFirst _ _ whole.timers).map (·.timerId)).Nodup
      rw [map_updateFirst]
      · exact table.distinct
      · intro timer _
        rfl

theorem timerChanges_cut {hidden : List TimerEntry} {incarnation : Nat} (changes : List TimerChange) {whole part : TimerTable}
    (table : TableCut hidden whole part)
    (unread : ∀ change ∈ changes, ∀ timer ∈ hidden, timer.timerId ≠ ids.timerId incarnation change.timerKey) :
    TableCut hidden (changes.foldl (applyTimerChange ids incarnation) whole)
      (changes.foldl (applyTimerChange ids incarnation) part) := by
  induction changes generalizing whole part with
  | nil => exact table
  | cons change others ih =>
    apply ih (applyTimerChange_cut table (unread change mem_cons_self))
    intro other member
    exact unread other (mem_cons_of_mem change member)

section

variable (inv : RootInv ids limits root) (loads : Loads ids root lists)

include inv loads

theorem checkTimerCap_draft {whole : Head} {draft : Lists} (draftOf : DraftOf ids root lists whole draft) :
    checkTimerCap ids limits (whole.holding draft) = checkTimerCap ids limits whole := by
  rw [checkTimerCap, checkTimerCap, scheduledTimers_draft inv loads draftOf]
  rfl

/-- The timers of a root and of its HEAD in memory. -/
theorem timerTable_cut : TableCut (hiddenTimers ids root lists) root.timerTable (root.holding lists).timerTable :=
  ⟨loads.timers.cut, rfl, inv.tracked.timerIds⟩

theorem completeCancelled_agrees (c : CompleteTurn) (turn : ActiveTurn) (now : Int64) {part all : List InboxEntry}
    (taken : all.Perm (part ++ hiddenInbox ids root lists)) :
    Agrees ids root lists (.ok (completeCancelled ids (root.holding lists) c turn part now))
      (.ok (completeCancelled ids root c turn all now)) := by
  have draft := draftOf_root loads
  have drafted : DraftOf ids root lists
      { root with
        activeTurn := none
        inbox := all
        steps := dropInputSteps ids root turn.inputAcceptSeq
        results := root.results ++ [cancelledResult turn.inputAcceptSeq (some turn.turnId) now] }
      { lists with
        inbox := part
        results := lists.results ++ [cancelledResult turn.inputAcceptSeq (some turn.turnId) now] } :=
    { draft with inbox := taken, results := append_cut draft.results _ }
  refine ⟨?_, rfl, .inr ⟨_, rfl, drafted⟩⟩
  exact congrArg ([Effect.operationTerminal turn.inputAcceptSeq] ++ ·) (wakeIfInbox_draft inv loads drafted)

theorem completeCommitted_agrees (c : CompleteTurn) (turn : ActiveTurn) (now : Int64) {part all : List InboxEntry}
    (taken : all.Perm (part ++ hiddenInbox ids root lists))
    (unread : ∀ change ∈ c.timerChanges, ∀ timer ∈ hiddenTimers ids root lists, timer.timerId ≠ ids.timerId root.incarnation change.timerKey) :
    Agrees ids root lists (completeCommitted ids limits (root.holding lists) c turn part now)
      (completeCommitted ids limits root c turn all now) := by
  have draft := draftOf_root loads
  have table := timerChanges_cut c.timerChanges (timerTable_cut inv loads) unread
  let heldTable := c.timerChanges.foldl (applyTimerChange ids root.incarnation) (root.holding lists).timerTable
  let committedLists : Lists :=
    { lists with
      inbox := part
      results := (committedHead ids (root.holding lists) c turn part now).results
      events := (committedHead ids (root.holding lists) c turn part now).events
      timers := heldTable.timers }
  have committed : DraftOf ids root lists (committedHead ids root c turn all now) committedLists :=
    { draft with
      inbox := taken
      results := append_cut draft.results _
      events := append_cut draft.events _
      timers := table.cut }
  have sameHead : committedHead ids (root.holding lists) c turn part now =
      (committedHead ids root c turn all now).holding committedLists := by
    show _ = Head.holding { committedHead ids root c turn all now with timerGeneration := _ } committedLists
    rw [← table.generation]
    rfl
  have sameJournal : c.intents.foldlM (journalIntent ids (root.holding lists) turn.inputAcceptSeq turn.turnId)
      ⟨(root.holding lists).effects, (root.holding lists).outbox, []⟩ =
        c.intents.foldlM (journalIntent ids root turn.inputAcceptSeq turn.turnId) ⟨root.effects, root.outbox, []⟩ := rfl
  rw [completeCommitted, completeCommitted, sameHead, checkTimerCap_draft inv loads committed]
  apply agrees_bind
  intro _ _
  dsimp only
  rw [sameJournal]
  cases c.intents.foldlM (journalIntent ids root turn.inputAcceptSeq turn.turnId)
      ⟨root.effects, root.outbox, []⟩ with
  | error error => exact agrees_ite (fun _ => blockTurn_agrees loads _) (fun _ => agrees_error _)
  | ok journaled =>
    have drafted : DraftOf ids root lists
        { committedHead ids root c turn all now with effects := journaled.effects, outbox := journaled.outbox }
        committedLists := { committed with }
    have woken := wakeIfInbox_draft inv loads drafted
    refine ⟨?_, rfl, .inr ⟨committedLists, rfl, drafted⟩⟩
    exact congrArg ((([Effect.operationTerminal turn.inputAcceptSeq] ++ wakeHints c.timerChanges) ++
      if journaled.dispatched.isEmpty then [] else [Effect.dispatchIntents journaled.dispatched]) ++ ·) woken

theorem completeTurn_agrees (c : CompleteTurn) (now : Int64) (pages : TurnPages ids root lists c.fence)
    (unread : ∀ change ∈ c.timerChanges, ∀ timer ∈ hiddenTimers ids root lists, timer.timerId ≠ ids.timerId root.incarnation change.timerKey) :
    Agrees ids root lists (completeTurn ids limits (root.holding lists) c now)
      (completeTurn ids limits root c now) := by
  rw [completeTurn, completeTurn, checkTurn_holding inv loads c.fence pages.2]
  apply agrees_bind
  intro checked turnChecked
  cases checked with
  | inr acceptSeq => exact agrees_unchanged _
  | inl turn =>
    obtain ⟨active, same⟩ := checkTurn_active turnChecked
    have complete := pages.1 turn active same
    apply agrees_ite (fun _ => agrees_error _)
    intro _
    apply agrees_ite (fun _ => agrees_error _)
    intro _
    apply agrees_ite
    · intro _
      apply takeInput_agrees inv loads complete
      intro part all taken
      exact completeCancelled_agrees inv loads c turn now taken
    · intro _
      have sameIntents : relistedIntent ids (root.holding lists) turn.inputAcceptSeq c.intents =
        relistedIntent ids root turn.inputAcceptSeq c.intents := rfl
      rw [sameIntents]
      cases relistedIntent ids root turn.inputAcceptSeq c.intents with
      | some relisted => exact agrees_ite (fun _ => blockTurn_agrees loads _) (fun _ => agrees_error _)
      | none =>
        apply takeInput_agrees inv loads complete
        intro part all taken
        exact completeCommitted_agrees inv loads c turn now taken unread

theorem failCancelled_agrees (turn : ActiveTurn) (now : Int64)
    (complete : lists.index.inbox.missing (.key turn.inputAcceptSeq) = []) :
    Agrees ids root lists (failCancelled ids (root.holding lists) turn now)
      (failCancelled ids root turn now) := by
  apply takeInput_agrees inv loads complete
  intro part all taken
  have draft := draftOf_root loads
  have drafted : DraftOf ids root lists
      { root with
        activeTurn := none
        inbox := all
        steps := dropInputSteps ids root turn.inputAcceptSeq
        results := root.results ++ [cancelledResult turn.inputAcceptSeq (some turn.turnId) now] }
      { lists with
        inbox := part
        results := lists.results ++ [cancelledResult turn.inputAcceptSeq (some turn.turnId) now] } :=
    { draft with inbox := taken, results := append_cut draft.results _ }
  refine ⟨?_, rfl, .inr ⟨_, rfl, drafted⟩⟩
  exact congrArg ([Effect.operationTerminal turn.inputAcceptSeq] ++ ·) (wakeIfInbox_draft inv loads drafted)

theorem failOpen_agrees (c : FailTurn) (turn : ActiveTurn) (now : Int64)
    (complete : lists.index.inbox.missing (.key turn.inputAcceptSeq) = []) :
    Agrees ids root lists (failOpen ids (root.holding lists) c turn now)
      (failOpen ids root c turn now) := by
  have resolves := inbox_key_resolves inv loads complete
  have draft := draftOf_root loads
  rw [failOpen, failOpen]
  dsimp only [Head.holding]
  rw [resolves.find?]
  cases root.inbox.find? fun entry => decide (entry.acceptSeq = turn.inputAcceptSeq) with
  | none => exact agrees_error _
  | some entry =>
    apply agrees_ite
    · intro _
      refine ⟨rfl, rfl, .inr ⟨{ lists with inbox := updateFirst _ _ lists.inbox }, rfl, ?_⟩⟩
      exact { draft with inbox := resolves.updateFirst _ }
    · intro _
      apply takeInput_agrees inv loads complete
      intro part all taken
      have drafted : DraftOf ids root lists
          { root with
            activeTurn := none
            inbox := all
            steps := dropInputSteps ids root turn.inputAcceptSeq
            results := root.results ++ [⟨turn.inputAcceptSeq, .failed, none, c.error, some turn.turnId, !c.terminal, now⟩] }
          { lists with
            inbox := part
            results := lists.results ++ [⟨turn.inputAcceptSeq, .failed, none, c.error, some turn.turnId, !c.terminal, now⟩] } :=
        { draft with inbox := taken, results := append_cut draft.results _ }
      refine ⟨?_, rfl, .inr ⟨_, rfl, drafted⟩⟩
      exact congrArg ([Effect.operationTerminal turn.inputAcceptSeq] ++ ·) (wakeIfInbox_draft inv loads drafted)

theorem failTurn_agrees (c : FailTurn) (now : Int64)
    (failed : lists.index.inbox.missing (.fingerprint (ids.idFingerprint c.fence.turnId)) = [])
    (pages : TurnPages ids root lists c.fence) : Agrees ids root lists (failTurn ids (root.holding lists) c now)
      (failTurn ids root c now) := by
  have found : ((root.holding lists).inbox.find? fun entry => decide (entry.lastFailedTurnId = some c.fence.turnId)) =
      root.inbox.find? fun entry => decide (entry.lastFailedTurnId = some c.fence.turnId) :=
    (inbox_failed_resolves inv loads failed).find?
  rw [failTurn, failTurn, checkTurn_holding inv loads c.fence pages.2, found]
  apply agrees_bind
  intro _ _
  cases root.inbox.find? fun entry => decide (entry.lastFailedTurnId = some c.fence.turnId) with
  | some entry => exact agrees_unchanged _
  | none =>
    apply agrees_bind
    intro checked turnChecked
    cases checked with
    | inr acceptSeq => exact agrees_unchanged _
    | inl turn =>
      obtain ⟨active, same⟩ := checkTurn_active turnChecked
      have complete := pages.1 turn active same
      have sameEffects : unsettledEffect ids (root.holding lists) turn.inputAcceptSeq =
        unsettledEffect ids root turn.inputAcceptSeq := rfl
      dsimp only
      rw [sameEffects]
      cases unsettledEffect ids root turn.inputAcceptSeq with
      | some error => exact agrees_error _
      | none =>
        exact agrees_ite (fun _ => failCancelled_agrees inv loads turn now complete)
          (fun _ => failOpen_agrees inv loads c turn now complete)

theorem settleCancelled_agrees (acceptSeq : Nat) (now : Int64)
    (complete : lists.index.inbox.missing (.key acceptSeq) = []) :
    Agrees ids root lists (settleCancelled ids (root.holding lists) acceptSeq now)
      (settleCancelled ids root acceptSeq now) := by
  have draft := draftOf_root loads
  have found : ((root.holding lists).inbox.find? fun entry => decide (entry.acceptSeq = acceptSeq)) =
      root.inbox.find? fun entry => decide (entry.acceptSeq = acceptSeq) := (inbox_key_resolves inv loads complete).find?
  rw [settleCancelled, settleCancelled, found]
  apply takeInput_agrees inv loads complete
  intro part all taken
  refine ⟨rfl, rfl, .inr ⟨{ lists with inbox := part, results := lists.results ++ [_] }, rfl, ?_⟩⟩
  exact { draft with inbox := taken, results := append_cut draft.results _ }

theorem cancel_agrees (c : Cancel) (now : Int64) (settled : lists.index.results.missing (.key c.acceptSeq) = [])
    (waiting : lists.index.inbox.missing (.key c.acceptSeq) = []) :
    Agrees ids root lists (cancel ids (root.holding lists) c now) (cancel ids root c now) := by
  apply agrees_bind
  intro _ _
  dsimp only [Head.holding]
  rw [(result_key_resolves inv loads settled).find?]
  cases root.results.find? fun result => decide (result.acceptSeq = c.acceptSeq) with
  | some result => exact agrees_unchanged _
  | none =>
    dsimp only [Head.holding]
    cases root.activeTurn.filter fun turn => decide (turn.inputAcceptSeq = c.acceptSeq) with
    | some turn =>
      apply agrees_ite (fun _ => agrees_unchanged _)
      intro _
      exact ⟨rfl, rfl, .inr ⟨lists, rfl, { draftOf_root loads with }⟩⟩
    | none =>
      show Agrees _ _ _ (if (!(lists.inbox.any fun entry => decide (entry.acceptSeq = c.acceptSeq))) = true then _ else _) _
      rw [(inbox_key_resolves inv loads waiting).any]
      exact agrees_ite (fun _ => agrees_error _) (fun _ => settleCancelled_agrees inv loads c.acceptSeq now waiting)

theorem scheduleTimer_agrees (c : ScheduleTimer)
    (complete : lists.index.timers.missing (.fingerprint (ids.idFingerprint (ids.timerId root.incarnation c.timer.timerKey))) = []) :
    Agrees ids root lists (scheduleTimer ids limits (root.holding lists) c)
      (scheduleTimer ids limits root c) := by
  have table := schedule_cut (timerTable_cut inv loads) (hidden_timer_id inv loads complete)
  have draft := draftOf_root loads
  have drafted : DraftOf ids root lists
      { root with
        timers := (schedule ids root.incarnation root.timerTable c.timer).timers
        timerGeneration := (schedule ids root.incarnation root.timerTable c.timer).generation }
      { lists with
        timers := (schedule ids root.incarnation (root.holding lists).timerTable c.timer).timers } :=
    { draft with timers := table.cut }
  apply agrees_bind
  intro _ _
  apply agrees_checked (checkTimerCap_draft inv loads drafted)
  intro _ _
  exact ⟨rfl, rfl, .inr ⟨_, rfl, drafted⟩⟩

theorem fireTimer_agrees (c : FireTimer) (now : Int64)
    (complete : lists.index.timers.missing (.key c.generation) = []) :
    Agrees ids root lists (fireTimer ids limits (root.holding lists) c now)
      (fireTimer ids limits root c now) := by
  have draft := draftOf_root loads
  have resolves := @timer_fire_resolves ids limits root lists c.timerId inv loads c.generation complete
  have depth := inboxDepth_draft inv loads draft
  rw [fireTimer, fireTimer, depth]
  apply agrees_bind
  intro _ _
  dsimp only [Head.holding]
  rw [resolves.find?]
  cases found : root.timers.find? fun timer =>
      decide (timer.timerId = c.timerId ∧ timer.generation = c.generation ∧ timer.status = .scheduled) with
  | none => exact agrees_unchanged _
  | some timer =>
    apply agrees_ite (fun _ => agrees_unchanged _)
    intro _
    apply agrees_ite (fun _ => agrees_error _)
    intro _
    -- The timer that fires is in memory, so no unread page has a timer with its id.
    have fails : ∀ hidden ∈ hiddenTimers ids root lists, ¬decide (hidden.timerId = c.timerId) = true := by
      intro hidden member same
      have foundIn : timer ∈ lists.timers := mem_of_find?_eq_some (resolves.find?.trans found)
      have passes := find?_some found
      have foundId : timer.timerId = c.timerId := (of_decide_eq_true passes).1
      have distinct := (draft.timers.map (·.timerId)).nodup_iff.mp inv.tracked.timerIds
      rw [map_append, nodup_append] at distinct
      exact distinct.2.2 _ (mem_map_of_mem foundIn) _ (mem_map_of_mem member)
        (foundId.trans (of_decide_eq_true same).symm)
    refine ⟨rfl, rfl, .inr
      ⟨{ lists with inbox := lists.inbox ++ [_], timers := updateFirst _ _ lists.timers }, rfl, ?_⟩⟩
    exact { draft with
      inbox := append_cut draft.inbox _
      timers := updateFirst_cut _ (atMostOne_key inv.tracked.timerIds c.timerId) draft.timers fails }

theorem cancelTimer_agrees (c : CancelTimer)
    (complete : lists.index.timers.missing (.fingerprint (ids.idFingerprint (ids.timerId root.incarnation c.timerKey))) = []) :
    Agrees ids root lists (cancelTimer ids (root.holding lists) c)
      (cancelTimer ids root c) := by
  have draft := draftOf_root loads
  have fails : ∀ hidden ∈ hiddenTimers ids root lists,
      ¬decide (hidden.timerId = ids.timerId root.incarnation c.timerKey) = true := by
    intro hidden member
    simpa using hidden_timer_id inv loads complete hidden member
  have resolves : Resolves (fun timer : TimerEntry => decide (timer.timerId = ids.timerId root.incarnation c.timerKey))
      root.timers lists.timers (hiddenTimers ids root lists) :=
    ⟨draft.timers, atMostOne_key inv.tracked.timerIds _, fails⟩
  have found : ((root.holding lists).timers.find? fun timer =>
      decide (timer.timerId = ids.timerId root.incarnation c.timerKey)) =
      root.timers.find? fun timer => decide (timer.timerId = ids.timerId root.incarnation c.timerKey) := resolves.find?
  apply agrees_bind
  intro _ _
  dsimp only [Head.holding] at found ⊢
  rw [found]
  cases root.timers.find? fun timer => decide (timer.timerId = ids.timerId root.incarnation c.timerKey) with
  | none => exact agrees_unchanged _
  | some timer =>
    dsimp only
    cases timer.status with
    | delivered => exact agrees_unchanged _
    | cancelled => exact agrees_unchanged _
    | scheduled =>
      refine ⟨rfl, rfl, .inr ⟨{ lists with timers := updateFirst _ _ lists.timers }, rfl, ?_⟩⟩
      exact { draft with timers := resolves.updateFirst _ }

end

theorem tombstone_agrees (loads : Loads ids root lists) (c : Tombstone) :
    Agrees ids root lists (tombstone ids (root.holding lists) c) (tombstone ids root c) := by
  apply agrees_ite (fun _ => agrees_unchanged _)
  intro _
  apply agrees_bind
  intro _ _
  exact ⟨rfl, rfl, .inr ⟨lists, rfl, { draftOf_root loads with }⟩⟩

theorem recordStep_agrees (inv : RootInv ids limits root) (loads : Loads ids root lists)
    (c : RecordStep) (pages : TurnPages ids root lists c.fence) :
    Agrees ids root lists (recordStep ids (root.holding lists) c) (recordStep ids root c) := by
  rw [recordStep, recordStep, requireRunning_holding inv loads c.fence pages]
  apply agrees_bind
  intro turn _
  dsimp only [Head.holding]
  cases root.steps.find? fun step =>
      decide (step.stepId = ids.stepId root.incarnation turn.inputAcceptSeq c.stepKey) with
  | none => exact ⟨rfl, rfl, .inr ⟨lists, rfl, { draftOf_root loads with }⟩⟩
  | some existing =>
    apply agrees_ite (fun _ => blockTurn_agrees loads _)
    intro _
    apply agrees_ite (fun _ => agrees_unchanged _)
    intro _
    exact ⟨rfl, rfl, .inr ⟨lists, rfl, { draftOf_root loads with }⟩⟩

theorem commitIntent_agrees (inv : RootInv ids limits root) (loads : Loads ids root lists)
    (c : CommitIntent) (pages : TurnPages ids root lists c.fence) :
    Agrees ids root lists (commitIntent ids (root.holding lists) c)
      (commitIntent ids root c) := by
  rw [commitIntent, commitIntent, requireRunning_holding inv loads c.fence pages]
  apply agrees_bind
  intro turn _
  dsimp only [Head.holding]
  cases root.effects.find? fun effect =>
      decide (effect.effectId = ids.effectId root.incarnation turn.inputAcceptSeq c.intent.intentKey) with
  | some existing => exact agrees_ite (fun _ => blockTurn_agrees loads _) (fun _ => agrees_unchanged _)
  | none =>
    show Agrees _ _ _ (addIntent ids root root.effects turn.inputAcceptSeq turn.turnId c.intent >>= _)
      (addIntent ids root root.effects turn.inputAcceptSeq turn.turnId c.intent >>= _)
    apply agrees_bind
    intro added _
    exact ⟨rfl, rfl, .inr ⟨lists, rfl, { draftOf_root loads with }⟩⟩

/-- The pages that an audit event of the effect reads. -/
def AuditPages (digests : Digests) (root : Head) (lists : Lists) (effectId : Id128) : Prop :=
  ∀ effect, (root.effects.find? fun effect => decide (effect.effectId = effectId)) = some effect →
    root.activeTurn.any (effectOfTurn digests root effect) = false →
      lists.index.inbox.missing .all = [] ∧ lists.index.results.missing .all = []

theorem find?_eq_of_mem_iff {Value : Type} {test : Value → Bool} {left right : List Value}
    (unique : ∀ first second, test first → test second → first = second) (members : ∀ value, value ∈ left ↔ value ∈ right) :
    left.find? test = right.find? test := by
  cases found : right.find? test with
  | none =>
    rw [find?_eq_none] at found ⊢
    intro value member
    exact found value ((members value).mp member)
  | some value =>
    cases foundLeft : left.find? test with
    | none =>
      have fails := find?_eq_none.mp foundLeft value ((members value).mpr (mem_of_find?_eq_some found))
      exact absurd (find?_some found) fails
    | some first => rw [unique first value (find?_some foundLeft) (find?_some found)]

/-- An audit event is filed under the same input from memory as from the whole root. -/
theorem auditedInput_holding (inv : RootInv ids limits root) (loads : Loads ids root lists)
    (effect : EffectRecord)
    (complete : root.activeTurn.any (effectOfTurn ids root effect) = false →
      lists.index.inbox.missing .all = [] ∧ lists.index.results.missing .all = []) :
    auditedInput ids (root.holding lists) effect = auditedInput ids root effect := by
  rw [auditedInput, auditedInput]
  congr 1
  cases ofTurn : root.activeTurn.any (effectOfTurn ids root effect) with
  | true =>
    cases active : root.activeTurn with
    | none => simp [active] at ofTurn
    | some turn =>
      simp only [active, Option.any_some, effectOfTurn, decide_eq_true_eq] at ofTurn
      simp [Head.holding, active, ofTurn]
  | false =>
    obtain ⟨inboxComplete, resultsComplete⟩ := complete ofTurn
    obtain ⟨_, _, inboxDescribed⟩ := inv.paged.inbox
    obtain ⟨_, _, resultsDescribed⟩ := inv.paged.results
    have inbox := loads.inbox.cut
    have results := loads.results.cut
    rw [hidden_all inboxDescribed loads.inbox inboxComplete, append_nil] at inbox
    rw [hidden_all resultsDescribed loads.results resultsComplete, append_nil] at results
    apply find?_eq_of_mem_iff
    · intro first second firstPasses secondPasses
      have sameId := (of_decide_eq_true firstPasses).trans (of_decide_eq_true secondPasses).symm
      exact (ids.effectId_injective sameId).2.1
    · intro acceptSeq
      rw [mem_append, mem_append, mem_append, mem_append]
      show (acceptSeq ∈ (root.activeTurn.map (·.inputAcceptSeq)).toList ∨ acceptSeq ∈ lists.inbox.map (·.acceptSeq)) ∨
        acceptSeq ∈ lists.results.map (·.acceptSeq) ↔ _
      rw [(inbox.map (·.acceptSeq)).mem_iff, (results.map (·.acceptSeq)).mem_iff]

theorem pushAudit_draft (inv : RootInv ids limits root) (loads : Loads ids root lists)
    (effect : EffectRecord) (eventType : String) (effects : List EffectRecord)
    (complete : root.activeTurn.any (effectOfTurn ids root effect) = false →
      lists.index.inbox.missing .all = [] ∧ lists.index.results.missing .all = []) :
    ∃ drafted, pushAudit ids { root.holding lists with effects := effects } effect eventType =
        (pushAudit ids { root with effects := effects } effect eventType).holding drafted ∧
      DraftOf ids root lists (pushAudit ids { root with effects := effects } effect eventType) drafted := by
  have filed : auditedInput ids { root.holding lists with effects := effects } effect =
      auditedInput ids { root with effects := effects } effect := auditedInput_holding inv loads effect complete
  have draft := draftOf_root loads
  refine ⟨{ lists with events := lists.events ++
    [⟨root.nextEventSeq, auditedInput ids { root with effects := effects } effect, effect.turnId, eventType,
      none⟩] }, ?_, ?_⟩
  · rw [pushAudit, pushAudit, filed]
    rfl
  · exact { draft with events := append_cut draft.events _ }

theorem grantAttempt_agrees (inv : RootInv ids limits root) (loads : Loads ids root lists)
    (c : AuthorizeAttempt) (effect : EffectRecord) (owner : Bool)
    (complete : owner = false → root.activeTurn.any (effectOfTurn ids root effect) = false →
      lists.index.inbox.missing .all = [] ∧ lists.index.results.missing .all = []) :
    Agrees ids root lists (grantAttempt ids (root.holding lists) c effect owner)
      (grantAttempt ids root c effect owner) := by
  apply agrees_ite (fun _ => agrees_error _)
  intro _
  apply agrees_ite
  · intro _
    exact ⟨rfl, rfl, .inr ⟨lists, rfl, { draftOf_root loads with }⟩⟩
  · intro _
    refine ⟨rfl, rfl, .inr ?_⟩
    cases owner with
    | true => exact ⟨lists, rfl, { draftOf_root loads with }⟩
    | false => exact pushAudit_draft inv loads effect auditReconcileAttempt _ (complete rfl)

theorem checkAuthority_reconcile {digests : Digests} {head : Head} {authority : Authority}
    (checked : checkAuthority digests head authority = .ok false) : ∃ fence, authority = .reconcile fence := by
  cases authority with
  | reconcile fence => exact ⟨fence, rfl⟩
  | owner fence =>
    rw [checkAuthority] at checked
    cases owned : checkOwner digests head fence <;> simp [owned, bind, Except.bind] at checked

theorem authorizeAttempt_agrees (inv : RootInv ids limits root) (loads : Loads ids root lists)
    (c : AuthorizeAttempt)
    (complete : ∀ fence, c.authority = .reconcile fence → AuditPages ids root lists c.effectId) :
    Agrees ids root lists (authorizeAttempt ids (root.holding lists) c)
      (authorizeAttempt ids root c) := by
  rw [authorizeAttempt, authorizeAttempt]
  apply agrees_checked (rfl : checkAuthority ids (root.holding lists) c.authority =
    checkAuthority ids root c.authority)
  intro owner checked
  dsimp only [Head.holding]
  cases found : root.effects.find? fun effect => decide (effect.effectId = c.effectId) with
  | none => exact agrees_error _
  | some effect =>
    apply agrees_ite (fun _ => agrees_unchanged _)
    intro _
    apply agrees_ite (fun _ => agrees_unchanged _)
    intro _
    apply agrees_ite (fun _ => agrees_error _)
    intro _
    have granted := grantAttempt_agrees inv loads c effect owner fun reconciled => by
      rw [reconciled] at checked
      obtain ⟨fence, authority⟩ := checkAuthority_reconcile checked
      exact complete fence authority effect found
    apply agrees_ite
    · intro _
      apply agrees_checked (rfl : checkOwnedEffect ids (root.holding lists) effect =
        checkOwnedEffect ids root effect)
      intro _ _
      exact granted
    · intro _
      exact granted

theorem recordEffectResult_agrees (inv : RootInv ids limits root) (loads : Loads ids root lists)
    (c : RecordEffectResult) (marked : lists.index.results.missing .marked = [])
    (complete : AuditPages ids root lists c.effectId) :
    Agrees ids root lists (recordEffectResult ids (root.holding lists) c)
      (recordEffectResult ids root c) := by
  have sameEffects : (root.holding lists).effects = root.effects := rfl
  rw [recordEffectResult, recordEffectResult, sameEffects]
  apply agrees_bind
  intro _ _
  cases found : root.effects.find? fun effect => decide (effect.effectId = c.effectId) with
  | none => exact agrees_error _
  | some effect =>
    have cancelled : inputCancelled ids (root.holding lists) effect = inputCancelled ids root effect :=
      cancelled_results_any inv loads marked _
    apply agrees_ite (fun _ => agrees_error _)
    intro _
    apply agrees_ite
    · intro _
      apply agrees_ite (fun _ => agrees_unchanged _)
      intro _
      exact agrees_ite (fun _ => agrees_error _) (fun _ => agrees_unchanged _)
    · intro _
      rw [cancelled]
      apply agrees_ite (fun _ => agrees_unchanged _)
      intro _
      refine ⟨rfl, rfl, .inr ?_⟩
      by_cases doubted : effect.status = .inDoubt
      · obtain ⟨drafted, audited, draftOf⟩ :=
          pushAudit_draft inv loads effect auditReconcileResult root.effects (complete effect found)
        have auditedHead : pushAudit ids (root.holding lists) effect auditReconcileResult =
          (pushAudit ids root effect auditReconcileResult).holding drafted := audited
        simp only [doubted, if_true]
        rw [auditedHead]
        exact ⟨drafted, rfl, { draftOf with }⟩
      · simp only [doubted, if_false]
        exact ⟨lists, rfl, { draftOf_root loads with }⟩

/-- Every page that the command reads is in memory. -/
def PagesRead (digests : Digests) (head : Head) (command : Command) : Prop :=
  ∀ need ∈ pageNeeds digests head command, (head.index.directory need.1).missing need.2 = []

theorem turnPages_of_need (fence : TurnFence)
    (read : (lists.index.directory (turnNeed ids root fence).1).missing (turnNeed ids root fence).2 = []) :
    TurnPages ids root lists fence := by
  rw [turnNeed] at read
  refine ⟨?_, ?_⟩
  · intro turn active same
    simp only [active, same, if_true] at read
    exact read
  · intro other
    cases active : root.activeTurn with
    | none =>
      simp only [active] at read
      exact read
    | some turn =>
      simp only [active, if_neg (other turn active)] at read
      exact read

theorem auditPages_of_needs (effectId : Id128)
    (read : ∀ need ∈ auditNeeds ids root effectId, (lists.index.directory need.1).missing need.2 = []) :
    AuditPages ids root lists effectId := by
  intro effect found elsewhere
  rw [auditNeeds, found] at read
  simp only [elsewhere, Bool.false_eq_true, if_false, mem_cons, not_mem_nil, or_false,
    forall_eq_or_imp, forall_eq] at read
  exact read

theorem transition_agrees (inv : RootInv ids limits root) (loads : Loads ids root lists)
    (command : Command) (now : Int64) (read : PagesRead ids (root.holding lists) command) :
    Agrees ids root lists (transition ids limits (root.holding lists) now command)
      (transition ids limits root now command) := by
  cases command with
  | create c => exact create_agrees c
  | enqueue c => exact enqueue_agrees inv loads c now (read _ mem_cons_self)
  | takeover c => exact takeover_agrees inv loads c
  | beginTurn c =>
    apply beginTurn_agrees inv loads c now
    intro idle
    have first := read (.inbox, .first)
    rw [pageNeeds, show (root.holding lists).activeTurn = none from idle] at first
    exact first mem_cons_self
  | completeTurn c =>
    apply completeTurn_agrees inv loads c now (turnPages_of_need c.fence (read _ mem_cons_self))
    intro change member
    apply hidden_timer_id inv loads
    have listed : timerChangeNeed ids (root.holding lists) change ∈
        pageNeeds ids (root.holding lists) (.completeTurn c) :=
      mem_cons_of_mem _ (mem_map_of_mem member)
    have complete := read _ listed
    cases change <;> exact complete
  | failTurn c =>
    exact failTurn_agrees inv loads c now (read _ mem_cons_self)
      (turnPages_of_need c.fence (read _ (mem_cons_of_mem _ mem_cons_self)))
  | cancel c =>
    exact cancel_agrees inv loads c now (read _ mem_cons_self)
      (read _ (mem_cons_of_mem _ mem_cons_self))
  | scheduleTimer c => exact scheduleTimer_agrees inv loads c (read _ mem_cons_self)
  | fireTimer c => exact fireTimer_agrees inv loads c now (read _ mem_cons_self)
  | cancelTimer c => exact cancelTimer_agrees inv loads c (read _ mem_cons_self)
  | tombstone c => exact tombstone_agrees loads c
  | recordStep c => exact recordStep_agrees inv loads c (turnPages_of_need c.fence (read _ mem_cons_self))
  | commitIntent c => exact commitIntent_agrees inv loads c (turnPages_of_need c.fence (read _ mem_cons_self))
  | authorizeAttempt c =>
    apply authorizeAttempt_agrees inv loads c
    intro fence authority
    apply auditPages_of_needs
    intro need member
    apply read need
    rw [pageNeeds, authority]
    exact member
  | recordEffectResult c =>
    apply recordEffectResult_agrees inv loads c (read _ mem_cons_self)
    apply auditPages_of_needs
    intro need member
    exact read need (mem_cons_of_mem _ member)

end Agreement

end Ravel.Agents
