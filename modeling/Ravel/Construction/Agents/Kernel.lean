/-
This file models the pure transition kernel of an agent: the limits, the pages a command reads, the fifteen
transitions, and the publish with its caps and its growth guard.
-/

import Ravel.Construction.Agents.Command
import Ravel.Construction.Agents.EncodedLength
import Ravel.Library.KeyedLists

namespace Ravel.Agents

open Library

structure Limits where
  maxMailboxDepth : Nat
  maxReceipts : Nat
  maxTimers : Nat
  maxHeadBytes : Nat
  maxStringBytes : Nat
  maxOwnerBytes : Nat
  maxVersionBytes : Nat
  maxErrorBytes : Nat
  maxEventsPerTurn : Nat
  maxIntentsPerTurn : Nat
  terminalReservePerInputBytes : Nat
  maxPageEntries : Nat
  maxIndexPages : Nat
  deriving DecidableEq, Repr

def pageNotLoaded : String := "an index page the command reads is not loaded"

def pendingEffectReserveBytes : Nat := 132

def auditReconcileResult : String := "audit.reconcile_result"

def auditReconcileAttempt : String := "audit.reconcile_attempt"

/-- The bytes of a terminal result entry beyond its error text, and of the retryable failure before it. -/
def resultEntryOverheadBytes (maxErrorBytes : Nat) : Nat :=
  let errorLen := Encoded.varintLen maxErrorBytes
  let body := 45 + errorLen + maxErrorBytes
  45 + errorLen + 2 + Encoded.varintLen body + 25

/-- The least reserve that covers the terminal result of an input. -/
def Limits.reserveFloor (limits : Limits) : Nat :=
  limits.maxErrorBytes + resultEntryOverheadBytes limits.maxErrorBytes

/-- The limits in force. The reserve of each input covers its terminal result. -/
structure Kernel where
  limits : Limits
  reserved : limits.reserveFloor ≤ limits.terminalReservePerInputBytes

/-- A reserve below the floor is raised to it. -/
def Kernel.new (limits : Limits) : Kernel :=
  if below : limits.terminalReservePerInputBytes < limits.reserveFloor then
    ⟨{ limits with terminalReservePerInputBytes := limits.reserveFloor }, Nat.le_refl _⟩
  else ⟨limits, Nat.le_of_not_lt below⟩

/-- A text of one repeated ASCII character. -/
def repeated (character : Char) (count : Nat) : String :=
  String.ofList (List.replicate count character)

def pendingEffects (head : Head) : Nat :=
  head.effects.countP fun effect => effect.status ≠ .completed

/-- A root of the template's agent with every other field at its default. -/
def narrowHead (template : Head) : Head where
  tenant := template.tenant
  kind := template.kind
  key := template.key
  incarnation := template.incarnation
  rootRevision := 0
  ownerId := ""
  epoch := 0
  ownerLeaseHintUnixNs := 0
  stateVersion := 0
  state := none
  nextAcceptSeq := 1
  activeTurn := none
  timerGeneration := 0
  nextEventSeq := 1
  lifecycle := .active
  quota := {}
  inbox := []
  receipts := []
  results := []
  events := []
  timers := []
  steps := []
  effects := []
  outbox := []
  index := {}

namespace Limits

/-- The narrow root with its singleton fields at their widest. -/
def wideHead (limits : Limits) (template : Head) : Head :=
  { narrowHead template with
    rootRevision := 2 ^ 64 - 1
    ownerId := repeated 'o' limits.maxOwnerBytes
    epoch := 2 ^ 64 - 1
    ownerLeaseHintUnixNs := Int64.minValue
    activeTurn := some
      { inputAcceptSeq := 2 ^ 64 - 1
        turnId := 2 ^ 128 - 1
        baseStateVersion := 2 ^ 64 - 1
        handler := repeated 'h' limits.maxStringBytes
        handlerVersion := repeated 'v' limits.maxVersionBytes
        handlerDigest := 2 ^ 256 - 1
        cancellation := .requested
        block := .nonDeterministicReplay
        startedUnixNs := Int64.minValue }
    quota := { referencedBytes := 2 ^ 64 - 1 } }

/-- The fixed slack for the exempt growth of which a root holds at most one copy. -/
def exemptGrowthSlackBytes (digests : Digests) (limits : Limits) (template : Head) : Nat :=
  (limits.wideHead template).encodedLen digests - (narrowHead template).encodedLen digests

/-- The sealed pages that exempt publishes may still add to a list. -/
def reservedIndexPages (limits : Limits) (head : Head) (list : ListKind) : Nat :=
  let size := Nat.max limits.maxPageEntries 1
  match list with
  | .results =>
    ((head.results.countP fun result => head.index.results.isInline result.acceptSeq) + head.inboxDepth - 1) / size
  | .events =>
    ((head.events.countP fun event => head.index.events.isInline event.eventSeq) + pendingEffects head - 1) / size
  | .inbox => 0
  | .receipts => 0
  | .timers => 0

/-- The bytes left free for index growth on the exempt paths. -/
def indexReserveBytes (limits : Limits) (head : Head) : Nat :=
  let size := Nat.max limits.maxPageEntries 1
  limits.reservedIndexPages head .results * maxPageRefBytes .results size +
    limits.reservedIndexPages head .events * maxPageRefBytes .events size

/-- The bytes that the growth guard keeps free. -/
def reservedBytes (digests : Digests) (limits : Limits) (head : Head) : Nat :=
  limits.exemptGrowthSlackBytes digests head + limits.terminalReservePerInputBytes * head.inboxDepth +
    pendingEffectReserveBytes * pendingEffects head + limits.indexReserveBytes head

def pageBounds (limits : Limits) : PageBounds :=
  ⟨limits.maxPageEntries, limits.maxIndexPages⟩

end Limits

section PageNeeds

variable (digests : Digests)

/-- The input of a running turn, or the result of a committed one. -/
def turnNeed (head : Head) (fence : TurnFence) : ListKind × Need :=
  match head.activeTurn with
  | some turn =>
    if turn.turnId = fence.turnId then (.inbox, .key turn.inputAcceptSeq)
    else (.results, .fingerprint (digests.idFingerprint fence.turnId))
  | none => (.results, .fingerprint (digests.idFingerprint fence.turnId))

def timerNeed (head : Head) (timerKey : String) : ListKind × Need :=
  (.timers, .fingerprint (digests.idFingerprint (digests.timerId head.incarnation timerKey)))

def timerChangeNeed (head : Head) : TimerChange → ListKind × Need
  | .schedule spec => timerNeed digests head spec.timerKey
  | .cancel timerKey => timerNeed digests head timerKey

/-- The effect was journaled under the input of the active turn. -/
def effectOfTurn (head : Head) (effect : EffectRecord) (turn : ActiveTurn) : Bool :=
  digests.effectId head.incarnation turn.inputAcceptSeq effect.stepKey = effect.effectId

/-- The audit event of an effect outside the active turn reads every inbox and result page. -/
def auditNeeds (head : Head) (effectId : Id128) : List (ListKind × Need) :=
  match head.effects.find? fun effect => effect.effectId = effectId with
  | none => []
  | some effect =>
    if head.activeTurn.any (effectOfTurn digests head effect) then [] else [(.inbox, .all), (.results, .all)]

/-- The page that a cancel of the open page's last input pulls back. -/
def pullBackNeeds (head : Head) (acceptSeq : Nat) : List (ListKind × Need) :=
  let dir := head.index.inbox
  let inlineCount := head.inbox.countP fun entry => dir.isInline entry.acceptSeq
  if !dir.pages.isEmpty && dir.isInline acceptSeq && decide (inlineCount ≤ 1) then
    [(.inbox, .key (dir.tailFrom - 1))]
  else []

/-- The entries of the paged lists that a command reads. -/
def pageNeeds (head : Head) : Command → List (ListKind × Need)
  | .create _ => []
  | .takeover _ => []
  | .tombstone _ => []
  | .enqueue c => [(.receipts, .fingerprint (digests.receiptFingerprint c.handler c.requestId))]
  | .beginTurn _ =>
    match head.activeTurn with
    | some turn => [(.inbox, .key turn.inputAcceptSeq)]
    | none => [(.inbox, .first)]
  | .completeTurn c => turnNeed digests head c.fence :: c.timerChanges.map (timerChangeNeed digests head)
  | .failTurn c => [(.inbox, .fingerprint (digests.idFingerprint c.fence.turnId)), turnNeed digests head c.fence]
  | .cancel c => [(.results, .key c.acceptSeq), (.inbox, .key c.acceptSeq)] ++ pullBackNeeds head c.acceptSeq
  | .scheduleTimer c => [timerNeed digests head c.timer.timerKey]
  | .fireTimer c => [(.timers, .key c.generation)]
  | .cancelTimer c => [timerNeed digests head c.timerKey]
  | .recordStep c => [turnNeed digests head c.fence]
  | .commitIntent c => [turnNeed digests head c.fence]
  | .authorizeAttempt c =>
    match c.authority with
    | .reconcile _ => auditNeeds digests head c.effectId
    | .owner _ => []
  | .recordEffectResult c => (.results, .marked) :: auditNeeds digests head c.effectId

/-- The sealed pages that a command reads and that are not attached yet, each once. -/
def pagesNeeded (head : Option Head) (command : Command) : List (ListKind × Nat) :=
  match head with
  | none => []
  | some head =>
    (pageNeeds digests head command).foldl (fun needed need =>
      ((head.index.directory need.1).missing need.2).foldl (fun needed page =>
        if needed.contains (need.1, page) then needed else needed ++ [(need.1, page)]) needed) []

end PageNeeds

def pageError (digests : Digests) (head : Head) : PageError → AgentError
  | .notLoaded _ _ => fail digests head .storeUnavailable pageNotLoaded
  | .pageFull _ => (fail digests head .budgetExceeded "PageBelowCap: an index page is full").withCap .indexPages
  | .directoryFull _ _ =>
    (fail digests head .budgetExceeded "IndexPagesBelowCap: an index list has max_index_pages pages").withCap .indexPages

/-- A command is refused while a page it reads is not attached. -/
def checkPages (digests : Digests) (head : Head) (command : Command) : Except AgentError Unit :=
  (pageNeeds digests head command).forM fun need =>
    ((head.index.directory need.1).require need.1 need.2).mapError (pageError digests head)

def turnFenceStrings (fence : TurnFence) : List String :=
  [fence.owner.ownerId, fence.handlerVersion]

def intentStrings (intent : IntentSpec) : List String :=
  [intent.intentKey, intent.toolName, intent.toolVersion]

def timerChangeStrings : TimerChange → List String
  | .schedule spec => [spec.timerKey, spec.handler]
  | .cancel timerKey => [timerKey]

/-- The texts of the caller that a command carries. -/
def callerStrings : Command → List String
  | .create _ => []
  | .cancel _ => []
  | .tombstone _ => []
  | .enqueue c => [c.requestId, c.handler]
  | .takeover c => [c.ownerId]
  | .beginTurn c => c.fence.ownerId :: c.handlers.flatMap fun pin => [pin.handler, pin.version]
  | .completeTurn c =>
    turnFenceStrings c.fence ++ c.events.map (·.eventType) ++ c.timerChanges.flatMap timerChangeStrings ++
      c.intents.flatMap intentStrings
  | .failTurn c => turnFenceStrings c.fence ++ [c.error]
  | .scheduleTimer c => [c.timer.timerKey, c.timer.handler]
  | .fireTimer _ => []
  | .cancelTimer c => [c.timerKey]
  | .recordStep c => turnFenceStrings c.fence ++ [c.stepKey, c.toolName, c.toolVersion]
  | .commitIntent c => turnFenceStrings c.fence ++ intentStrings c.intent
  | .authorizeAttempt c =>
    match c.authority with
    | .owner fence => [fence.ownerId]
    | .reconcile _ => []
  | .recordEffectResult _ => []

/-- The turn fence of a command that a running turn sends. -/
def Command.turnFence? : Command → Option TurnFence
  | .completeTurn c => some c.fence
  | .failTurn c => some c.fence
  | .recordStep c => some c.fence
  | .commitIntent c => some c.fence
  | _ => none

/-- The owner ids and the handler versions that a command carries. -/
def identityStrings (command : Command) : List String × List String :=
  let ofFence : List String × List String :=
    match command.turnFence? with
    | some fence => ([fence.owner.ownerId], [fence.handlerVersion])
    | none => ([], [])
  let further : List String × List String :=
    match command with
    | .takeover c => ([c.ownerId], [])
    | .beginTurn c => ([c.fence.ownerId], c.handlers.map (·.version))
    | .authorizeAttempt c =>
      match c.authority with
      | .owner fence => ([fence.ownerId], [])
      | .reconcile _ => ([], [])
    | _ => ([], [])
  (ofFence.1 ++ further.1, ofFence.2 ++ further.2)

def overLong (texts : List String) (cap : Nat) : Bool :=
  texts.any fun text => cap < text.utf8ByteSize

/-- The bounds on what one command carries. -/
def checkStrings (digests : Digests) (limits : Limits) (head : Head) (command : Command) : Except AgentError Unit :=
  if overLong (callerStrings command) limits.maxStringBytes then
    .error (fail digests head .budgetExceeded "a caller-supplied string exceeds the string cap")
  else if overLong (identityStrings command).1 limits.maxOwnerBytes then
    .error (fail digests head .budgetExceeded "the owner id exceeds its cap")
  else if overLong (identityStrings command).2 limits.maxVersionBytes then
    .error (fail digests head .budgetExceeded "a handler version exceeds its cap")
  else
    match command with
    | .completeTurn c =>
      if limits.maxEventsPerTurn < c.events.length then
        .error (fail digests head .budgetExceeded "EventsBelowCap: the turn buffers too many events")
      else if limits.maxIntentsPerTurn < c.intents.length then
        .error (fail digests head .budgetExceeded "IntentsBelowCap: the turn journals too many intents")
      else .ok ()
    | .failTurn c =>
      if limits.maxErrorBytes < c.error.utf8ByteSize then
        .error (fail digests head .budgetExceeded "the failure error text exceeds its cap")
      else .ok ()
    | _ => .ok ()

section Transitions

variable (digests : Digests) (limits : Limits)

def checkActive (head : Head) : Except AgentError Unit :=
  match head.lifecycle with
  | .active => .ok ()
  | .tombstoned => .error (fail digests head .agentGone "agent is tombstoned")

def checkIncarnation (head : Head) (fence : IncarnationFence) : Except AgentError Unit := do
  checkActive digests head
  if fence.incarnation ≠ head.incarnation then .error (fail digests head .agentGone "handle names another incarnation")
  else .ok ()

def checkOwner (head : Head) (fence : OwnerFence) : Except AgentError Unit := do
  checkIncarnation digests head ⟨fence.incarnation⟩
  if fence.epoch ≠ head.epoch ∨ fence.ownerId ≠ head.ownerId then
    .error (fail digests head .ownershipLost "owner epoch no longer matches")
  else .ok ()

/-- The owner and turn checks of a turn's commands. The second answer is the input of a commit that already published. -/
def checkTurn (head : Head) (fence : TurnFence) : Except AgentError (ActiveTurn ⊕ Nat) := do
  checkOwner digests head fence.owner
  match head.activeTurn.filter fun turn => turn.turnId = fence.turnId with
  | none =>
    match head.results.find? fun result => result.turnId = some fence.turnId with
    | some result => .ok (.inr result.acceptSeq)
    | none => .error (fail digests head .ownershipLost "turn is no longer active")
  | some turn =>
    if fence.baseStateVersion ≠ turn.baseStateVersion then
      .error (fail digests head .ownershipLost "base state version moved")
    else if fence.handlerVersion ≠ turn.handlerVersion ∨ fence.handlerDigest ≠ turn.handlerDigest then
      .error (fail digests head .incompatibleHandler "handler version differs from the turn's")
    else .ok (.inl turn)

/-- The checks of a command that only makes sense while the turn runs. -/
def requireRunning (head : Head) (fence : TurnFence) : Except AgentError ActiveTurn := do
  match ← checkTurn digests head fence with
  | .inr _ => .error (fail digests head .ownershipLost "turn already committed")
  | .inl turn =>
    if turn.block ≠ .none then
      .error (fail digests head .nonDeterministicReplay "turn is blocked by a non-deterministic replay")
    else .ok turn

/-- The first root of an agent. -/
def createNew (c : Create) : Transition :=
  let head : Head :=
    { tenant := c.tenant
      kind := c.kind
      key := c.key
      incarnation := 1
      rootRevision := 0
      ownerId := ""
      epoch := 0
      ownerLeaseHintUnixNs := 0
      stateVersion := 0
      state := none
      nextAcceptSeq := 1
      activeTurn := none
      timerGeneration := 0
      nextEventSeq := 1
      lifecycle := .active
      quota := {}
      inbox := []
      receipts := []
      results := []
      events := []
      timers := []
      steps := []
      effects := []
      outbox := []
      index := {} }
  .publish head [.writeDirEntry] (.created 1)

/-- A tombstoned agent gets its next incarnation. The epoch is kept, so that an earlier owner stays fenced. -/
def create (head : Head) (c : Create) : Except AgentError Transition :=
  if head.tenant ≠ c.tenant ∨ head.kind ≠ c.kind ∨ head.key ≠ c.key then
    .error (fail digests head .agentGone "HEAD names a different agent")
  else if head.lifecycle = .active then .ok (.unchanged (.exists head.incarnation))
  else
    match checkedSuccU64 head.incarnation with
    | none => .error (fail digests head .budgetExceeded "incarnation is exhausted")
    | some incarnation =>
      let new : Head :=
        { head with
          incarnation := incarnation
          ownerId := ""
          ownerLeaseHintUnixNs := 0
          stateVersion := 0
          state := none
          nextAcceptSeq := 1
          activeTurn := none
          timerGeneration := 0
          nextEventSeq := 1
          lifecycle := .active
          inbox := []
          receipts := []
          results := []
          events := []
          timers := []
          steps := []
          effects := []
          outbox := []
          index := {} }
      .ok (.publish new [.writeDirEntry] (.created incarnation))

def mailboxFull (head : Head) : AgentError :=
  (fail digests head .mailboxFull "mailbox is full").withCap .mailbox

def enqueue (head : Head) (c : Enqueue) (now : Int64) : Except AgentError Transition := do
  checkIncarnation digests head c.fence
  match head.receipts.find? fun receipt => receipt.requestId = c.requestId ∧ receipt.handler = c.handler with
  | some receipt =>
    if receipt.requestHash ≠ c.requestHash then
      .error (fail digests head .idempotencyConflict "request id reused with a different request")
    else .ok (.unchanged (.accepted receipt.acceptSeq true))
  | none =>
    if limits.maxMailboxDepth ≤ head.inboxDepth then .error (mailboxFull digests head)
    else if limits.maxReceipts ≤ head.receiptCount then
      .error ((fail digests head .budgetExceeded "receipt list is at its cap").withCap .receipts)
    else
      let entry : InboxEntry :=
        { acceptSeq := head.nextAcceptSeq
          handler := c.handler
          source := .message c.requestId c.requestHash
          payload := c.payload
          acceptedUnixNs := now
          failedAttempts := 0
          lastFailedTurnId := none }
      let receipt : Receipt := ⟨c.requestId, c.handler, c.requestHash, head.nextAcceptSeq⟩
      let new : Head :=
        { head with
          nextAcceptSeq := head.nextAcceptSeq + 1
          inbox := head.inbox ++ [entry]
          receipts := head.receipts ++ [receipt] }
      .ok (.publish new [.wakeWorker] (.accepted head.nextAcceptSeq false))

def takeover (head : Head) (c : Takeover) : Except AgentError Transition := do
  checkIncarnation digests head ⟨c.incarnation⟩
  if c.observedEpoch ≠ head.epoch then .error (fail digests head .ownershipLost "another owner advanced the epoch")
  else
    match checkedSuccU64 head.epoch with
    | none => .error (fail digests head .budgetExceeded "epoch is exhausted")
    | some epoch =>
      let new : Head :=
        { head with epoch := epoch, ownerId := c.ownerId, ownerLeaseHintUnixNs := c.leaseHintUnixNs }
      .ok (.publish new (if new.hasInbox || new.activeTurn.isSome then [.wakeWorker] else []) (.owned epoch))

def beginTurn (head : Head) (c : BeginTurn) (now : Int64) : Except AgentError Transition := do
  checkOwner digests head c.fence
  match head.activeTurn with
  | some turn =>
    if c.handlers.any fun pin =>
        pin.handler = turn.handler ∧ pin.version = turn.handlerVersion ∧ pin.digest = turn.handlerDigest then
      .ok (.unchanged (.turnResumed turn))
    else .error (fail digests head .incompatibleHandler "worker lacks the active turn's handler version")
  | none =>
    match head.inbox.head? with
    | none => .ok (.unchanged .idle)
    | some next =>
      match c.handlers.find? fun pin => pin.handler = next.handler with
      | none => .error (fail digests head .incompatibleHandler "worker has no handler for the next input")
      | some pin =>
        let turn : ActiveTurn :=
          { inputAcceptSeq := next.acceptSeq
            turnId := digests.turnId head.incarnation next.acceptSeq head.epoch next.failedAttempts
            baseStateVersion := head.stateVersion
            handler := pin.handler
            handlerVersion := pin.version
            handlerDigest := pin.digest
            cancellation := .none
            block := .none
            startedUnixNs := now }
        .ok (.publish { head with activeTurn := some turn } [] (.turnStarted turn))

/-- The inbox without the input. -/
def takeInput (head : Head) (acceptSeq : Nat) : Except AgentError (List InboxEntry) :=
  if head.inbox.any fun entry => entry.acceptSeq = acceptSeq then
    .ok (head.inbox.eraseP fun entry => entry.acceptSeq = acceptSeq)
  else .error (fail digests head .ownershipLost "active turn's input is not in the inbox")

/-- The steps without those of the input. -/
def dropInputSteps (head : Head) (acceptSeq : Nat) : List StepRecord :=
  head.steps.filter fun step => step.stepId ≠ digests.stepId head.incarnation acceptSeq step.stepKey

/-- The effects that were journaled for the input, by any of its turns. -/
def inputEffects (head : Head) (acceptSeq : Nat) : List EffectRecord :=
  head.effects.filter fun effect => effect.effectId = digests.effectId head.incarnation acceptSeq effect.stepKey

def cancelledResult (acceptSeq : Nat) (turnId : Option Id128) (now : Int64) : ResultEntry where
  acceptSeq := acceptSeq
  status := .cancelled
  output := none
  error := ""
  turnId := turnId
  deadLettered := false
  finishedUnixNs := now

/-- A waiting input is consumed as cancelled. Its result names the turn that last failed on it. -/
def settleCancelled (head : Head) (acceptSeq : Nat) (now : Int64) : Except AgentError Transition := do
  let turnId := (head.inbox.find? fun entry => entry.acceptSeq = acceptSeq).bind (·.lastFailedTurnId)
  let inbox ← takeInput digests head acceptSeq
  let new : Head :=
    { head with
      inbox := inbox
      steps := dropInputSteps digests head acceptSeq
      results := head.results ++ [cancelledResult acceptSeq turnId now] }
  .ok (.publish new [.operationTerminal acceptSeq] (.cancelled acceptSeq))

def blockTurn (head : Head) (reason : String) : Transition :=
  let new : Head :=
    { head with activeTurn := head.activeTurn.map fun turn => { turn with block := .nonDeterministicReplay } }
  .publish new [] (.blocked (fail digests head .nonDeterministicReplay reason))

def sameIntent (existing : EffectRecord) (intent : IntentSpec) : Bool :=
  existing.toolName = intent.toolName ∧ existing.toolVersion = intent.toolVersion ∧
    existing.inputHash = intent.inputHash ∧ existing.policy = intent.policy

/-- The events of a turn, numbered from the next event. -/
def turnEvents (head : Head) (acceptSeq : Nat) (turnId : Id128) (events : List EventSpec) : List EventEntry :=
  events.mapIdx fun index event => ⟨head.nextEventSeq + index, acceptSeq, turnId, event.eventType, event.payload⟩

/-- The timers of an agent with the generation of the last one. -/
structure TimerTable where
  timers : List TimerEntry
  generation : Nat
  deriving DecidableEq, Repr

def Head.timerTable (head : Head) : TimerTable :=
  ⟨head.timers, head.timerGeneration⟩

/-- A timer takes the next generation, in the place of the timer with its id when there is one. -/
def schedule (incarnation : Nat) (table : TimerTable) (spec : TimerSpec) : TimerTable :=
  let timerId := digests.timerId incarnation spec.timerKey
  let entry : TimerEntry :=
    { timerId := timerId
      timerKey := spec.timerKey
      generation := table.generation + 1
      dueUnixNs := spec.dueUnixNs
      handler := spec.handler
      payload := spec.payload
      status := .scheduled }
  { timers :=
      if table.timers.any fun timer => timer.timerId = timerId then
        updateFirst (fun timer => timer.timerId = timerId) (fun _ => entry) table.timers
      else table.timers ++ [entry]
    generation := table.generation + 1 }

def applyTimerChange (incarnation : Nat) (table : TimerTable) : TimerChange → TimerTable
  | .schedule spec => schedule digests incarnation table spec
  | .cancel timerKey =>
    let timerId := digests.timerId incarnation timerKey
    { table with
      timers := updateFirst (fun timer => timer.timerId = timerId ∧ timer.status = .scheduled)
        (fun timer => { timer with status := .cancelled }) table.timers }

/-- The wake hints of the timers that a turn schedules. -/
def wakeHints (changes : List TimerChange) : List Effect :=
  changes.filterMap fun change =>
    match change with
    | .schedule spec => some (.writeWakeHint spec.dueUnixNs)
    | .cancel _ => none

/-- The journal with one more intent. The identifier is absent when the same intent is already journaled. -/
def addIntent (head : Head) (effects : List EffectRecord) (acceptSeq : Nat) (turnId : Id128) (intent : IntentSpec) :
    Except AgentError (List EffectRecord × Option Id128) :=
  let effectId := digests.effectId head.incarnation acceptSeq intent.intentKey
  match effects.find? fun effect => effect.effectId = effectId with
  | some existing =>
    if sameIntent existing intent then .ok (effects, none)
    else .error (fail digests head .nonDeterministicReplay "intent key reused with a different tool or input")
  | none =>
    let effect : EffectRecord :=
      { effectId := effectId
        stepKey := intent.intentKey
        toolName := intent.toolName
        toolVersion := intent.toolVersion
        inputHash := intent.inputHash
        policy := intent.policy
        status := .intent
        attempt := 0
        result := none
        resultAttempt := 0
        turnId := turnId }
    .ok (effects ++ [effect], some effectId)

/-- What the intents of a turn add: the journal, the outbox entries and the dispatched effects. -/
structure Journaled where
  effects : List EffectRecord
  outbox : List OutboxIntent
  dispatched : List Id128
  deriving DecidableEq, Repr

/-- One intent of a committed turn. A new one is dispatched from the outbox. -/
def journalIntent (head : Head) (acceptSeq : Nat) (turnId : Id128) (journaled : Journaled) (intent : IntentSpec) :
    Except AgentError Journaled := do
  let (effects, added) ← addIntent digests head journaled.effects acceptSeq turnId intent
  match added with
  | none => .ok { journaled with effects := effects }
  | some effectId =>
    let entry : OutboxIntent :=
      { effectId := effectId
        intentKey := intent.intentKey
        toolName := intent.toolName
        toolVersion := intent.toolVersion
        policy := intent.policy
        input := intent.input
        turnId := turnId }
    .ok { effects := effects
          outbox := journaled.outbox ++ [entry]
          dispatched := journaled.dispatched ++ [effectId] }

def checkTimerCap (new : Head) : Except AgentError Unit :=
  if limits.maxTimers < new.scheduledTimers then
    .error ((fail digests new .budgetExceeded "timer count is at its cap").withCap .timers)
  else .ok ()

/-- The first listed intent whose key the input already journaled, with that effect. -/
def relistedIntent (head : Head) (acceptSeq : Nat) (intents : List IntentSpec) : Option (EffectRecord × IntentSpec) :=
  intents.findSome? fun intent =>
    (head.effects.find? fun effect =>
      effect.effectId = digests.effectId head.incarnation acceptSeq intent.intentKey).map fun existing => (existing, intent)

def wakeIfInbox (new : Head) : List Effect :=
  if new.hasInbox then [.wakeWorker] else []

/-- The commit of a turn whose cancellation was requested: its input is consumed as cancelled. -/
def completeCancelled (head : Head) (c : CompleteTurn) (turn : ActiveTurn) (inbox : List InboxEntry) (now : Int64) :
    Transition :=
  let new : Head :=
    { head with
      activeTurn := none
      inbox := inbox
      steps := dropInputSteps digests head turn.inputAcceptSeq
      results := head.results ++ [cancelledResult turn.inputAcceptSeq (some turn.turnId) now] }
  .publish new ([.operationTerminal turn.inputAcceptSeq] ++ wakeIfInbox new)
    (.turnCommitted turn.inputAcceptSeq new.stateVersion (c.observedRootRevision ≠ head.rootRevision))

/-- The root of a committed turn before its intents are journaled. -/
def committedHead (head : Head) (c : CompleteTurn) (turn : ActiveTurn) (inbox : List InboxEntry) (now : Int64) : Head :=
  let result : ResultEntry :=
    { acceptSeq := turn.inputAcceptSeq
      status := .completed
      output := c.output
      error := ""
      turnId := some turn.turnId
      deadLettered := false
      finishedUnixNs := now }
  let table := c.timerChanges.foldl (applyTimerChange digests head.incarnation) head.timerTable
  { head with
    activeTurn := none
    inbox := inbox
    steps := dropInputSteps digests head turn.inputAcceptSeq
    stateVersion := head.stateVersion + 1
    state := some c.newState
    results := head.results ++ [result]
    events := head.events ++ turnEvents head turn.inputAcceptSeq turn.turnId c.events
    nextEventSeq := head.nextEventSeq + c.events.length
    timers := table.timers
    timerGeneration := table.generation }

/-- The commit of a turn: the new state, the consumed input, its result, its events, timer changes and intents. -/
def completeCommitted (head : Head) (c : CompleteTurn) (turn : ActiveTurn) (inbox : List InboxEntry) (now : Int64) :
    Except AgentError Transition := do
  let committed := committedHead digests head c turn inbox now
  checkTimerCap digests limits committed
  match c.intents.foldlM (journalIntent digests head turn.inputAcceptSeq turn.turnId) ⟨head.effects, head.outbox, []⟩ with
  | .error error =>
    if error.kind = .nonDeterministicReplay then
      .ok (blockTurn digests head "intent key reused with a different tool or input")
    else .error error
  | .ok journaled =>
    let new : Head := { committed with effects := journaled.effects, outbox := journaled.outbox }
    let dispatch : List Effect :=
      if journaled.dispatched.isEmpty then [] else [.dispatchIntents journaled.dispatched]
    .ok (.publish new ([.operationTerminal turn.inputAcceptSeq] ++ wakeHints c.timerChanges ++ dispatch ++ wakeIfInbox new)
      (.turnCommitted turn.inputAcceptSeq new.stateVersion (c.observedRootRevision ≠ head.rootRevision)))

def completeTurn (head : Head) (c : CompleteTurn) (now : Int64) : Except AgentError Transition := do
  match ← checkTurn digests head c.fence with
  | .inr acceptSeq => .ok (.unchanged (.alreadyCommitted acceptSeq))
  | .inl turn =>
    if turn.block ≠ .none then
      .error (fail digests head .nonDeterministicReplay "turn is blocked by a non-deterministic replay")
    else if (inputEffects digests head turn.inputAcceptSeq).any fun effect => effect.status = .inDoubt then
      .error (fail digests head .effectInDoubt "NoEffectInDoubt: an effect of this turn is in doubt")
    else if turn.cancellation = .requested then do
      let inbox ← takeInput digests head turn.inputAcceptSeq
      .ok (completeCancelled digests head c turn inbox now)
    else
      match relistedIntent digests head turn.inputAcceptSeq c.intents with
      | some (existing, intent) =>
        if !sameIntent existing intent then
          .ok (blockTurn digests head "intent key reused with a different tool or input")
        else
          .error (fail digests head .idempotencyConflict "intent key already journaled by a CommitIntent of this input")
      | none => do
        let inbox ← takeInput digests head turn.inputAcceptSeq
        completeCommitted digests limits head c turn inbox now

/-- The refusal of a failure while an effect of the input has no settled attempt. -/
def unsettledEffect (head : Head) (acceptSeq : Nat) : Option AgentError :=
  (inputEffects digests head acceptSeq).findSome? fun effect =>
    match effect.status with
    | .inDoubt =>
      some (fail digests head .effectInDoubt "NoEffectInDoubt: an effect of this input awaits reconciliation")
    | .authorized =>
      some (fail digests head .effectInDoubt "NoAuthorizedAttemptPending: an authorized attempt has no result")
    | .intent => none
    | .completed => none

/-- The `u32` increment that stops at the largest value. -/
def saturatingSuccU32 (value : Nat) : Nat :=
  min (value + 1) (2 ^ 32 - 1)

/-- A failure on a turn whose cancellation was requested consumes the input as cancelled. -/
def failCancelled (head : Head) (turn : ActiveTurn) (now : Int64) : Except AgentError Transition := do
  let inbox ← takeInput digests head turn.inputAcceptSeq
  let new : Head :=
    { head with
      activeTurn := none
      inbox := inbox
      steps := dropInputSteps digests head turn.inputAcceptSeq
      results := head.results ++ [cancelledResult turn.inputAcceptSeq (some turn.turnId) now] }
  .ok (.publish new ([.operationTerminal turn.inputAcceptSeq] ++ wakeIfInbox new) (.cancelled turn.inputAcceptSeq))

/-- A failure that keeps the input for a retry, or consumes it as failed. -/
def failOpen (head : Head) (c : FailTurn) (turn : ActiveTurn) (now : Int64) : Except AgentError Transition :=
  match head.inbox.find? fun entry => entry.acceptSeq = turn.inputAcceptSeq with
  | none => .error (fail digests head .ownershipLost "active turn's input is not in the inbox")
  | some entry =>
    let failedAttempts := saturatingSuccU32 entry.failedAttempts
    if !c.terminal ∧ failedAttempts < c.maxAttempts.toNat then
      let new : Head :=
        { head with
          activeTurn := none
          inbox := updateFirst (fun entry => entry.acceptSeq = turn.inputAcceptSeq)
            (fun entry => { entry with failedAttempts := failedAttempts, lastFailedTurnId := some turn.turnId }) head.inbox }
      .ok (.publish new [.wakeWorker] (.turnRetry turn.inputAcceptSeq failedAttempts))
    else do
      let inbox ← takeInput digests head turn.inputAcceptSeq
      let result : ResultEntry :=
        { acceptSeq := turn.inputAcceptSeq
          status := .failed
          output := none
          error := c.error
          turnId := some turn.turnId
          deadLettered := !c.terminal
          finishedUnixNs := now }
      let new : Head :=
        { head with
          activeTurn := none
          inbox := inbox
          steps := dropInputSteps digests head turn.inputAcceptSeq
          results := head.results ++ [result] }
      .ok (.publish new ([.operationTerminal turn.inputAcceptSeq] ++ wakeIfInbox new)
        (.turnFailed turn.inputAcceptSeq (!c.terminal)))

def failTurn (head : Head) (c : FailTurn) (now : Int64) : Except AgentError Transition := do
  checkOwner digests head c.fence.owner
  match head.inbox.find? fun entry => entry.lastFailedTurnId = some c.fence.turnId with
  | some entry => .ok (.unchanged (.turnRetry entry.acceptSeq entry.failedAttempts))
  | none =>
    match ← checkTurn digests head c.fence with
    | .inr acceptSeq => .ok (.unchanged (.alreadyCommitted acceptSeq))
    | .inl turn =>
      match unsettledEffect digests head turn.inputAcceptSeq with
      | some error => .error error
      | none =>
        if turn.cancellation = .requested then failCancelled digests head turn now
        else failOpen digests head c turn now

def cancel (head : Head) (c : Cancel) (now : Int64) : Except AgentError Transition := do
  checkIncarnation digests head c.fence
  match head.results.find? fun result => result.acceptSeq = c.acceptSeq with
  | some result => .ok (.unchanged (.alreadyTerminal c.acceptSeq result.status))
  | none =>
    match head.activeTurn.filter fun turn => turn.inputAcceptSeq = c.acceptSeq with
    | some turn =>
      if turn.cancellation = .requested then .ok (.unchanged (.cancelRequested c.acceptSeq))
      else
        let new : Head :=
          { head with activeTurn := head.activeTurn.map fun turn => { turn with cancellation := .requested } }
        .ok (.publish new [] (.cancelRequested c.acceptSeq))
    | none =>
      if !(head.inbox.any fun entry => entry.acceptSeq = c.acceptSeq) then
        .error (fail digests head .agentGone "operation was never accepted")
      else settleCancelled digests head c.acceptSeq now

def scheduleTimer (head : Head) (c : ScheduleTimer) : Except AgentError Transition := do
  checkIncarnation digests head c.fence
  let table := schedule digests head.incarnation head.timerTable c.timer
  let new : Head := { head with timers := table.timers, timerGeneration := table.generation }
  checkTimerCap digests limits new
  .ok (.publish new [.writeWakeHint c.timer.dueUnixNs]
    (.timerScheduled (digests.timerId head.incarnation c.timer.timerKey) table.generation))

def fireTimer (head : Head) (c : FireTimer) (now : Int64) : Except AgentError Transition := do
  checkIncarnation digests head c.fence
  match head.timers.find? fun timer =>
      timer.timerId = c.timerId ∧ timer.generation = c.generation ∧ timer.status = .scheduled with
  | none => .ok (.unchanged .timerStale)
  | some timer =>
    if now < timer.dueUnixNs then .ok (.unchanged .timerNotDue)
    else if limits.maxMailboxDepth ≤ head.inboxDepth then .error (mailboxFull digests head)
    else
      let entry : InboxEntry :=
        { acceptSeq := head.nextAcceptSeq
          handler := timer.handler
          source := .timer timer.timerId timer.generation
          payload := timer.payload
          acceptedUnixNs := now
          failedAttempts := 0
          lastFailedTurnId := none }
      let new : Head :=
        { head with
          nextAcceptSeq := head.nextAcceptSeq + 1
          inbox := head.inbox ++ [entry]
          timers := updateFirst (fun timer => timer.timerId = c.timerId)
            (fun timer => { timer with status := .delivered }) head.timers }
      .ok (.publish new [.wakeWorker] (.timerFired head.nextAcceptSeq))

def cancelTimer (head : Head) (c : CancelTimer) : Except AgentError Transition := do
  checkIncarnation digests head c.fence
  let timerId := digests.timerId head.incarnation c.timerKey
  match head.timers.find? fun timer => timer.timerId = timerId with
  | none => .ok (.unchanged .unknownTimer)
  | some timer =>
    match timer.status with
    | .delivered => .ok (.unchanged .alreadyFired)
    | .cancelled => .ok (.unchanged .timerCancelled)
    | .scheduled =>
      let new : Head :=
        { head with
          timers := updateFirst (fun timer => timer.timerId = timerId)
            (fun timer => { timer with status := .cancelled }) head.timers }
      .ok (.publish new [] .timerCancelled)

def tombstone (head : Head) (c : Tombstone) : Except AgentError Transition :=
  if head.lifecycle = .tombstoned ∧ c.fence.incarnation = head.incarnation then .ok (.unchanged .alreadyTombstoned)
  else do
    checkIncarnation digests head c.fence
    .ok (.publish { head with lifecycle := .tombstoned } [] .tombstoned)

/-- The step is written in the place of the one with its id, or behind the others. -/
def placeStep (steps : List StepRecord) (record : StepRecord) : List StepRecord :=
  if steps.any fun step => step.stepId = record.stepId then
    updateFirst (fun step => step.stepId = record.stepId) (fun _ => record) steps
  else steps ++ [record]

def recordStep (head : Head) (c : RecordStep) : Except AgentError Transition := do
  let turn ← requireRunning digests head c.fence
  let stepId := digests.stepId head.incarnation turn.inputAcceptSeq c.stepKey
  let record : StepRecord := ⟨stepId, c.stepKey, c.toolName, c.toolVersion, c.inputHash, c.status, c.output⟩
  let recorded := Transition.publish { head with steps := placeStep head.steps record } [] (.stepRecorded record)
  match head.steps.find? fun step => step.stepId = stepId with
  | none => .ok recorded
  | some existing =>
    if existing.toolName ≠ c.toolName ∨ existing.toolVersion ≠ c.toolVersion ∨ existing.inputHash ≠ c.inputHash then
      .ok (blockTurn digests head "step key reused with a different tool or input")
    else if existing.status = .completed ∨ c.status = .started then .ok (.unchanged (.stepReplayed existing))
    else .ok recorded

def commitIntent (head : Head) (c : CommitIntent) : Except AgentError Transition := do
  let turn ← requireRunning digests head c.fence
  let effectId := digests.effectId head.incarnation turn.inputAcceptSeq c.intent.intentKey
  match head.effects.find? fun effect => effect.effectId = effectId with
  | some existing =>
    if !sameIntent existing c.intent then
      .ok (blockTurn digests head "intent key reused with a different tool or input")
    else .ok (.unchanged (.intentCommitted effectId))
  | none => do
    let (effects, _) ← addIntent digests head head.effects turn.inputAcceptSeq turn.turnId c.intent
    .ok (.publish { head with effects := effects } [] (.intentCommitted effectId))

/-- The input under which an audit event of the effect is filed: the first candidate that derives the effect's id. -/
def auditedInput (head : Head) (effect : EffectRecord) : Nat :=
  (((head.activeTurn.map (·.inputAcceptSeq)).toList ++ head.inbox.map (·.acceptSeq) ++
    head.results.map (·.acceptSeq)).find? fun acceptSeq =>
      digests.effectId head.incarnation acceptSeq effect.stepKey = effect.effectId).getD 0

/-- An audit event joins the stream of the turn that journaled the effect. -/
def pushAudit (head : Head) (effect : EffectRecord) (eventType : String) : Head :=
  { head with
    events := head.events ++ [⟨head.nextEventSeq, auditedInput digests head effect, effect.turnId, eventType, none⟩]
    nextEventSeq := head.nextEventSeq + 1 }

def checkAuthority (head : Head) : Authority → Except AgentError Bool
  | .owner fence => do
    checkOwner digests head fence
    .ok true
  | .reconcile fence => do
    checkIncarnation digests head fence
    .ok false

/-- An owner authorizes only for the running input, and not while its cancellation is requested. -/
def checkOwnedEffect (head : Head) (effect : EffectRecord) : Except AgentError Unit :=
  match head.activeTurn.filter (effectOfTurn digests head effect) with
  | none => .error (fail digests head .ownershipLost "EffectStateAdmits: the effect's input is not the active turn's")
  | some turn =>
    let latch := effect.status = .authorized ∧ effect.policy = .manual
    if turn.cancellation = .requested ∧ ¬latch then
      .error (fail digests head .ownershipLost "EffectStateAdmits: the effect's input is being cancelled")
    else .ok ()

def updateEffect (head : Head) (effectId : Id128) (change : EffectRecord → EffectRecord) : Head :=
  { head with effects := updateFirst (fun effect => effect.effectId = effectId) change head.effects }

def checkedSuccU32 (value : Nat) : Option Nat :=
  if value + 1 < 2 ^ 32 then some (value + 1) else none

/-- The authorization of the next attempt, once its checks passed. -/
def grantAttempt (head : Head) (c : AuthorizeAttempt) (effect : EffectRecord) (owner : Bool) :
    Except AgentError Transition :=
  if owner ∧ effect.status = .inDoubt then
    .error (fail digests head .effectInDoubt "effect awaits reconciliation")
  else if owner ∧ effect.status = .authorized ∧ effect.policy = .manual then
    .ok (.publish (updateEffect head c.effectId fun effect => { effect with status := .inDoubt }) []
      (.blocked (fail digests head .effectInDoubt "a manual effect's attempt is ambiguous")))
  else
    let authorized := updateEffect head c.effectId fun effect =>
      { effect with status := .authorized, attempt := c.attempt }
    let new := if owner then authorized else pushAudit digests authorized effect auditReconcileAttempt
    .ok (.publish new [] (.attemptAuthorized c.effectId c.attempt))

def authorizeAttempt (head : Head) (c : AuthorizeAttempt) : Except AgentError Transition := do
  let owner ← checkAuthority digests head c.authority
  match head.effects.find? fun effect => effect.effectId = c.effectId with
  | none => .error (fail digests head .agentGone "effect is not journaled")
  | some effect =>
    if effect.status = .completed then
      .ok (.unchanged (.effectCompleted c.effectId effect.result effect.resultAttempt))
    else if c.attempt = effect.attempt ∧ effect.status = .authorized then
      .ok (.unchanged (.attemptAuthorized c.effectId effect.attempt))
    else if some c.attempt ≠ checkedSuccU32 effect.attempt then
      .error (fail digests head .ownershipLost "attempt does not follow the journaled attempt")
    else do
      if owner then checkOwnedEffect digests head effect else .ok ()
      grantAttempt digests head c effect owner

/-- The effect's input ended cancelled. -/
def inputCancelled (head : Head) (effect : EffectRecord) : Bool :=
  head.results.any fun result =>
    result.status = .cancelled ∧ digests.effectId head.incarnation result.acceptSeq effect.stepKey = effect.effectId

def recordEffectResult (head : Head) (c : RecordEffectResult) : Except AgentError Transition := do
  checkIncarnation digests head c.fence
  match head.effects.find? fun effect => effect.effectId = c.effectId with
  | none => .error (fail digests head .agentGone "effect is not journaled")
  | some effect =>
    if c.attempt = 0 ∨ effect.attempt < c.attempt then
      .error (fail digests head .ownershipLost "attempt was never authorized")
    else if effect.status = .completed then
      if effect.resultAttempt ≠ c.attempt then .ok (.unchanged (.lateResultIgnored c.effectId))
      else if effect.result.map (·.hash) ≠ some c.result.hash then
        .error (fail digests head .idempotencyConflict "attempt already has a different result")
      else .ok (.unchanged (.effectResultRecorded c.effectId))
    else if c.attempt < effect.attempt ∨ inputCancelled digests head effect then
      .ok (.unchanged (.lateResultIgnored c.effectId))
    else
      let audited := if effect.status = .inDoubt then pushAudit digests head effect auditReconcileResult else head
      let settled := updateEffect audited c.effectId fun effect =>
        { effect with status := .completed, result := some c.result, resultAttempt := c.attempt }
      let new : Head := { settled with outbox := settled.outbox.filter fun intent => intent.effectId ≠ c.effectId }
      .ok (.publish new [.wakeWorker] (.effectResultRecorded c.effectId))

/-- The transition of a command on an existing root, before its publish. -/
def transition (head : Head) (now : Int64) : Command → Except AgentError Transition
  | .create c => create digests head c
  | .enqueue c => enqueue digests limits head c now
  | .takeover c => takeover digests head c
  | .beginTurn c => beginTurn digests head c now
  | .completeTurn c => completeTurn digests limits head c now
  | .failTurn c => failTurn digests head c now
  | .cancel c => cancel digests head c now
  | .scheduleTimer c => scheduleTimer digests limits head c
  | .fireTimer c => fireTimer digests limits head c now
  | .cancelTimer c => cancelTimer digests head c
  | .tombstone c => tombstone digests head c
  | .recordStep c => recordStep digests head c
  | .commitIntent c => commitIntent digests head c
  | .authorizeAttempt c => authorizeAttempt digests head c
  | .recordEffectResult c => recordEffectResult digests head c

/-- The growth guard applies to a publish. -/
def guarded (observed : Head) (command : Command) (reply : Reply) : Bool :=
  match reply with
  | .blocked _ => false
  | _ =>
    match command with
    | .enqueue _ => true
    | .recordStep _ => true
    | .commitIntent _ => true
    | .scheduleTimer _ => true
    | .fireTimer _ => true
    | .completeTurn _ => true
    | .authorizeAttempt c =>
      match c.authority with
      | .reconcile _ => true
      | .owner _ =>
        !(observed.effects.any fun effect =>
          effect.effectId = c.effectId ∧ (effect.status = .authorized ∨ effect.status = .inDoubt))
    | .create _ => false
    | .takeover _ => false
    | .beginTurn _ => false
    | .failTurn _ => false
    | .cancel _ => false
    | .cancelTimer _ => false
    | .tombstone _ => false
    | .recordEffectResult _ => false

/-- A guarded publish leaves the reserves free. -/
def checkGrowthHeadroom (observed : Head) (command : Command) : Transition → Except AgentError Transition
  | .unchanged reply => .ok (.unchanged reply)
  | .publish head effects reply =>
    if !guarded observed command reply then .ok (.publish head effects reply)
    else if limits.maxHeadBytes - limits.reservedBytes digests head < head.encodedLen digests then
      .error ((fail digests head .budgetExceeded "HEAD would enter the terminal reserve of its byte cap").withCap .headBytes)
    else if [ListKind.inbox, .receipts, .results, .events, .timers].any fun list =>
        limits.maxIndexPages < (head.index.directory list).pages.length + limits.reservedIndexPages head list then
      .error ((fail digests head .budgetExceeded "IndexPagesBelowCap: HEAD would enter the index page reserve").withCap
        .indexPages)
    else .ok (.publish head effects reply)

/-- The revision of the root that follows. -/
def nextRevision (before : Option Head) : Except AgentError Nat :=
  match before with
  | none => .ok 1
  | some before =>
    match checkedSuccU64 before.rootRevision with
    | none => .error (fail digests before .budgetExceeded "root revision is exhausted")
    | some revision => .ok revision

/-- A new root gets its revision, its sealed index and its counters, and stays under the byte cap. -/
def publish (before : Option Head) : Transition → Except AgentError Transition
  | .unchanged reply => .ok (.unchanged reply)
  | .publish new effects reply => do
    let revision ← nextRevision digests before
    let revised : Head := { new with rootRevision := revision }
    let sealed ← (sealIndex digests revised limits.pageBounds).mapError (pageError digests revised)
    let head : Head := { sealed with quota := sealed.computedQuota }
    if limits.maxHeadBytes < head.encodedLen digests then
      .error ((fail digests head .budgetExceeded "HEAD would exceed its byte cap").withCap .headBytes)
    else .ok (.publish head effects reply)

end Transitions

/-- The transition kernel. -/
def Kernel.apply (kernel : Kernel) (digests : Digests) (head : Option Head) (command : Command) (now : Int64) :
    Except AgentError Transition :=
  match head with
  | none =>
    match command with
    | .create c => publish digests kernel.limits none (createNew c)
    | _ => .error { kind := .agentGone, ids := {}, reason := "agent does not exist" }
  | some head => do
    checkStrings digests kernel.limits head command
    checkPages digests head command
    let drafted ← transition digests kernel.limits head now command
    let published ← publish digests kernel.limits (some head) drafted
    checkGrowthHeadroom digests kernel.limits head command published

end Ravel.Agents
