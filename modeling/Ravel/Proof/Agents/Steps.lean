import Ravel.Construction.Agents.Runs
import Ravel.Library.FailingRuns

namespace Ravel.Agents

open List Library

/-- The command addresses the active agent under its current incarnation. -/
structure Addressed (root : Head) (incarnation : Nat) : Prop where
  alive : root.lifecycle = .active
  current : incarnation = root.incarnation

/-- The command carries the current owner and epoch. -/
structure Owned (root : Head) (fence : OwnerFence) : Prop extends Addressed root fence.incarnation where
  epoch : fence.epoch = root.epoch
  owner : fence.ownerId = root.ownerId

/-- The command carries the binding of the active turn. -/
structure OnTurn (root : Head) (fence : TurnFence) (turn : ActiveTurn) : Prop extends Owned root fence.owner where
  running : root.activeTurn = some turn
  turnId : turn.turnId = fence.turnId

/-- The root of the next incarnation. -/
def recreated (root : Head) (incarnation : Nat) : Head :=
  { root with
    incarnation := incarnation
    ownerId := ""
    ownerLeaseHintUnixNs := 0
    stateVersion := 0
    state := none
    nextAcceptSeq := 1
    activeTurn := none
    timerGeneration := 0
    nextEventSeq := 1
    lifecycle := .active
    inbox := []
    receipts := []
    results := []
    events := []
    timers := []
    steps := []
    effects := []
    outbox := []
    index := {} }

/-- The input of an accepted message. -/
def messageInput (root : Head) (c : Enqueue) (now : Int64) : InboxEntry where
  acceptSeq := root.nextAcceptSeq
  handler := c.handler
  source := .message c.requestId c.requestHash
  payload := c.payload
  acceptedUnixNs := now
  failedAttempts := 0
  lastFailedTurnId := none

/-- The input of a fired timer. -/
def timerInput (root : Head) (timer : TimerEntry) (now : Int64) : InboxEntry where
  acceptSeq := root.nextAcceptSeq
  handler := timer.handler
  source := .timer timer.timerId timer.generation
  payload := timer.payload
  acceptedUnixNs := now
  failedAttempts := 0
  lastFailedTurnId := none

/-- The turn that starts on an input. -/
def startedTurn (digests : Digests) (root : Head) (next : InboxEntry) (pin : HandlerPin) (now : Int64) : ActiveTurn where
  inputAcceptSeq := next.acceptSeq
  turnId := digests.turnId root.incarnation next.acceptSeq root.epoch next.failedAttempts
  baseStateVersion := root.stateVersion
  handler := pin.handler
  handlerVersion := pin.version
  handlerDigest := pin.digest
  cancellation := .none
  block := .none
  startedUnixNs := now

/-- The result of a turn that failed for good. -/
def failedResult (c : FailTurn) (turn : ActiveTurn) (now : Int64) : ResultEntry where
  acceptSeq := turn.inputAcceptSeq
  status := .failed
  output := none
  error := c.error
  turnId := some turn.turnId
  deadLettered := !c.terminal
  finishedUnixNs := now

/-- The inbox without an input. -/
def withoutInput (root : Head) (acceptSeq : Nat) : List InboxEntry :=
  root.inbox.eraseP fun entry => entry.acceptSeq = acceptSeq

/-- The root after an input was consumed with a result that changes no state. -/
def settledHead (digests : Digests) (root : Head) (turn : Option ActiveTurn) (acceptSeq : Nat) (result : ResultEntry) : Head :=
  { root with
    activeTurn := turn
    inbox := withoutInput root acceptSeq
    steps := dropInputSteps digests root acceptSeq
    results := root.results ++ [result] }

/-- The root after a failed turn whose input stays for a retry. -/
def retriedHead (root : Head) (turn : ActiveTurn) (failedAttempts : Nat) : Head :=
  { root with
    activeTurn := none
    inbox := updateFirst (fun entry => entry.acceptSeq = turn.inputAcceptSeq)
      (fun entry => { entry with failedAttempts := failedAttempts, lastFailedTurnId := some turn.turnId }) root.inbox }

/-- The root whose active turn is blocked. -/
def blockedHead (root : Head) : Head :=
  { root with activeTurn := root.activeTurn.map fun turn => { turn with block := .nonDeterministicReplay } }

/-- The root after the result of an effect is recorded. -/
def resultRecorded (root : Head) (c : RecordEffectResult) : Head :=
  let completed := updateEffect root c.effectId fun effect =>
    { effect with status := .completed, result := some c.result, resultAttempt := c.attempt }
  { completed with outbox := completed.outbox.filter fun intent => intent.effectId ≠ c.effectId }

/-- The root with the next attempt of an effect authorized. -/
def attemptGranted (root : Head) (c : AuthorizeAttempt) : Head :=
  updateEffect root c.effectId fun effect => { effect with status := .authorized, attempt := c.attempt }

/-- One publishing branch of the kernel, on a root with every page in memory. -/
inductive Step (digests : Digests) (limits : Limits) (root : Head) (now : Int64) : Command → Head → Reply → Prop where
  | recreate (c : Create) (incarnation : Nat) (gone : root.lifecycle = .tombstoned)
      (next : checkedSuccU64 root.incarnation = some incarnation) :
      Step digests limits root now (.create c) (recreated root incarnation) (.created incarnation)
  | accept (c : Enqueue) (addressed : Addressed root c.fence.incarnation)
      (unseen : root.receipts.find? (fun receipt => receipt.requestId = c.requestId ∧ receipt.handler = c.handler) = none) :
      Step digests limits root now (.enqueue c)
        { root with
          nextAcceptSeq := root.nextAcceptSeq + 1
          inbox := root.inbox ++ [messageInput root c now]
          receipts := root.receipts ++ [⟨c.requestId, c.handler, c.requestHash, root.nextAcceptSeq⟩] }
        (.accepted root.nextAcceptSeq false)
  | takeover (c : Takeover) (epoch : Nat) (addressed : Addressed root c.incarnation)
      (next : checkedSuccU64 root.epoch = some epoch) :
      Step digests limits root now (.takeover c)
        { root with epoch := epoch, ownerId := c.ownerId, ownerLeaseHintUnixNs := c.leaseHintUnixNs } (.owned epoch)
  | start (c : BeginTurn) (next : InboxEntry) (pin : HandlerPin) (owned : Owned root c.fence)
      (idle : root.activeTurn = none) (first : root.inbox.head? = some next) :
      Step digests limits root now (.beginTurn c) { root with activeTurn := some (startedTurn digests root next pin now) }
        (.turnStarted (startedTurn digests root next pin now))
  | block (command : Command) (fence : TurnFence) (turn : ActiveTurn) (error : AgentError)
      (fenced : command.turnFence? = some fence) (onTurn : OnTurn root fence turn) :
      Step digests limits root now command (blockedHead root) (.blocked error)
  | completeCancelled (c : CompleteTurn) (turn : ActiveTurn) (onTurn : OnTurn root c.fence turn)
      (requested : turn.cancellation = .requested)
      (waiting : turn.inputAcceptSeq ∈ root.inbox.map (·.acceptSeq)) :
      Step digests limits root now (.completeTurn c)
        (settledHead digests root none turn.inputAcceptSeq (cancelledResult turn.inputAcceptSeq (some turn.turnId) now))
        (.turnCommitted turn.inputAcceptSeq root.stateVersion (c.observedRootRevision ≠ root.rootRevision))
  | complete (c : CompleteTurn) (turn : ActiveTurn) (journaled : Journaled) (onTurn : OnTurn root c.fence turn)
      (open' : turn.cancellation = .none) (waiting : turn.inputAcceptSeq ∈ root.inbox.map (·.acceptSeq))
      (journal : c.intents.foldlM (journalIntent digests root turn.inputAcceptSeq turn.turnId)
        ⟨root.effects, root.outbox, []⟩ = .ok journaled) :
      Step digests limits root now (.completeTurn c)
        { committedHead digests root c turn (withoutInput root turn.inputAcceptSeq) now with
          effects := journaled.effects
          outbox := journaled.outbox }
        (.turnCommitted turn.inputAcceptSeq (root.stateVersion + 1) (c.observedRootRevision ≠ root.rootRevision))
  | failCancelled (c : FailTurn) (turn : ActiveTurn) (onTurn : OnTurn root c.fence turn)
      (requested : turn.cancellation = .requested)
      (waiting : turn.inputAcceptSeq ∈ root.inbox.map (·.acceptSeq)) :
      Step digests limits root now (.failTurn c)
        (settledHead digests root none turn.inputAcceptSeq (cancelledResult turn.inputAcceptSeq (some turn.turnId) now))
        (.cancelled turn.inputAcceptSeq)
  | failRetry (c : FailTurn) (turn : ActiveTurn) (failedAttempts : Nat) (onTurn : OnTurn root c.fence turn)
      (open' : turn.cancellation = .none) (waiting : turn.inputAcceptSeq ∈ root.inbox.map (·.acceptSeq))
      (resolved : unsettledEffect digests root turn.inputAcceptSeq = none) :
      Step digests limits root now (.failTurn c) (retriedHead root turn failedAttempts)
        (.turnRetry turn.inputAcceptSeq failedAttempts)
  | failTerminal (c : FailTurn) (turn : ActiveTurn) (onTurn : OnTurn root c.fence turn)
      (open' : turn.cancellation = .none) (waiting : turn.inputAcceptSeq ∈ root.inbox.map (·.acceptSeq)) :
      Step digests limits root now (.failTurn c)
        (settledHead digests root none turn.inputAcceptSeq (failedResult c turn now))
        (.turnFailed turn.inputAcceptSeq (!c.terminal))
  | requestCancel (c : Cancel) (turn : ActiveTurn) (addressed : Addressed root c.fence.incarnation)
      (running : root.activeTurn = some turn) (same : turn.inputAcceptSeq = c.acceptSeq) :
      Step digests limits root now (.cancel c)
        { root with activeTurn := root.activeTurn.map fun turn => { turn with cancellation := .requested } }
        (.cancelRequested c.acceptSeq)
  | cancelWaiting (c : Cancel) (addressed : Addressed root c.fence.incarnation)
      (elsewhere : ∀ turn, root.activeTurn = some turn → turn.inputAcceptSeq ≠ c.acceptSeq)
      (waiting : c.acceptSeq ∈ root.inbox.map (·.acceptSeq)) :
      Step digests limits root now (.cancel c)
        (settledHead digests root root.activeTurn c.acceptSeq (cancelledResult c.acceptSeq
          ((root.inbox.find? fun entry => entry.acceptSeq = c.acceptSeq).bind (·.lastFailedTurnId)) now))
        (.cancelled c.acceptSeq)
  | scheduleTimer (c : ScheduleTimer) (addressed : Addressed root c.fence.incarnation) :
      Step digests limits root now (.scheduleTimer c)
        { root with
          timers := (schedule digests root.incarnation root.timerTable c.timer).timers
          timerGeneration := root.timerGeneration + 1 }
        (.timerScheduled (digests.timerId root.incarnation c.timer.timerKey) (root.timerGeneration + 1))
  | fireTimer (c : FireTimer) (timer : TimerEntry) (addressed : Addressed root c.fence.incarnation)
      (found : root.timers.find? (fun timer =>
        timer.timerId = c.timerId ∧ timer.generation = c.generation ∧ timer.status = .scheduled) = some timer)
      (due : timer.dueUnixNs ≤ now) :
      Step digests limits root now (.fireTimer c)
        { root with
          nextAcceptSeq := root.nextAcceptSeq + 1
          inbox := root.inbox ++ [timerInput root timer now]
          timers := updateFirst (fun timer => timer.timerId = c.timerId)
            (fun timer => { timer with status := .delivered }) root.timers }
        (.timerFired root.nextAcceptSeq)
  | cancelTimer (c : CancelTimer) (timer : TimerEntry) (addressed : Addressed root c.fence.incarnation)
      (found : root.timers.find? (fun timer => timer.timerId = digests.timerId root.incarnation c.timerKey) = some timer)
      (scheduled : timer.status = .scheduled) :
      Step digests limits root now (.cancelTimer c)
        { root with
          timers := updateFirst (fun timer => timer.timerId = digests.timerId root.incarnation c.timerKey)
            (fun timer => { timer with status := .cancelled }) root.timers }
        .timerCancelled
  | tombstone (c : Tombstone) (addressed : Addressed root c.fence.incarnation) :
      Step digests limits root now (.tombstone c) { root with lifecycle := .tombstoned } .tombstoned
  | recordStep (c : RecordStep) (turn : ActiveTurn) (record : StepRecord) (onTurn : OnTurn root c.fence turn) :
      Step digests limits root now (.recordStep c) { root with steps := placeStep root.steps record } (.stepRecorded record)
  | commitIntent (c : CommitIntent) (turn : ActiveTurn) (effects : List EffectRecord) (added : Option Id128)
      (onTurn : OnTurn root c.fence turn)
      (journal : addIntent digests root root.effects turn.inputAcceptSeq turn.turnId c.intent = .ok (effects, added)) :
      Step digests limits root now (.commitIntent c) { root with effects := effects }
        (.intentCommitted (digests.effectId root.incarnation turn.inputAcceptSeq c.intent.intentKey))
  | latchDoubt (c : AuthorizeAttempt) (fence : OwnerFence) (effect : EffectRecord) (error : AgentError)
      (authority : c.authority = .owner fence) (owned : Owned root fence)
      (found : root.effects.find? (fun effect => effect.effectId = c.effectId) = some effect)
      (ambiguous : effect.status = .authorized ∧ effect.policy = .manual) :
      Step digests limits root now (.authorizeAttempt c)
        (updateEffect root c.effectId fun effect => { effect with status := .inDoubt }) (.blocked error)
  | grantOwner (c : AuthorizeAttempt) (fence : OwnerFence) (effect : EffectRecord) (turn : ActiveTurn)
      (authority : c.authority = .owner fence) (owned : Owned root fence)
      (found : root.effects.find? (fun effect => effect.effectId = c.effectId) = some effect)
      (pending : effect.status ≠ .completed) (known : effect.status ≠ .inDoubt)
      (unambiguous : ¬(effect.status = .authorized ∧ effect.policy = .manual))
      (follows : c.attempt = effect.attempt + 1) (running : root.activeTurn = some turn)
      (ofTurn : effectOfTurn digests root effect turn = true) (open' : turn.cancellation = .none) :
      Step digests limits root now (.authorizeAttempt c) (attemptGranted root c) (.attemptAuthorized c.effectId c.attempt)
  | grantReconcile (c : AuthorizeAttempt) (fence : IncarnationFence) (effect : EffectRecord)
      (authority : c.authority = .reconcile fence) (addressed : Addressed root fence.incarnation)
      (found : root.effects.find? (fun effect => effect.effectId = c.effectId) = some effect)
      (pending : effect.status ≠ .completed) (follows : c.attempt = effect.attempt + 1) :
      Step digests limits root now (.authorizeAttempt c)
        (pushAudit digests (attemptGranted root c) effect auditReconcileAttempt) (.attemptAuthorized c.effectId c.attempt)
  | recordResult (c : RecordEffectResult) (effect : EffectRecord) (addressed : Addressed root c.fence.incarnation)
      (found : root.effects.find? (fun effect => effect.effectId = c.effectId) = some effect)
      (pending : effect.status ≠ .completed) (attempted : c.attempt = effect.attempt) :
      Step digests limits root now (.recordEffectResult c)
        (resultRecorded
          (if effect.status = .inDoubt then pushAudit digests root effect auditReconcileResult else root) c)
        (.effectResultRecorded c.effectId)

section Inversion

variable {digests : Digests} {limits : Limits} {root whole : Head} {now : Int64} {effects : List Effect} {reply : Reply}

variable {Error Value Outcome : Type} {check : Except Error Value} {next : Value → Except Error Outcome}
  {checked : Unit} {fence : OwnerFence} {turn : ActiveTurn} {effect : EffectRecord} (c : AuthorizeAttempt)

theorem error_of_bind {error : Error} (failed : (check >>= next) = .error error) :
    check = .error error ∨ ∃ value, check = .ok value ∧ next value = .error error := by
  cases check with
  | error refusal =>
    cases failed
    exact .inl rfl
  | ok value => exact .inr ⟨value, rfl, failed⟩

theorem checkIncarnation_ok {fence : IncarnationFence} (passed : checkIncarnation digests root fence = .ok checked) :
    Addressed root fence.incarnation := by
  obtain ⟨_, active, current⟩ := ok_of_bind passed
  rw [checkActive] at active
  split at active
  · rename_i alive
    obtain ⟨same, current⟩ := ok_of_guard current
    exact ⟨alive, not_not.mp same⟩
  · cases active

theorem checkOwner_ok (passed : checkOwner digests root fence = .ok checked) : Owned root fence := by
  obtain ⟨_, addressed, owner⟩ := ok_of_bind passed
  obtain ⟨same, owner⟩ := ok_of_guard owner
  obtain ⟨epoch, ownerId⟩ := not_or.mp same
  exact ⟨checkIncarnation_ok addressed, not_not.mp epoch, not_not.mp ownerId⟩

theorem checkTurn_ok {fence : TurnFence} (passed : checkTurn digests root fence = .ok (.inl turn)) :
    OnTurn root fence turn := by
  obtain ⟨_, owned, bound⟩ := ok_of_bind passed
  split at bound
  · split at bound <;> cases bound
  · rename_i found active
    obtain ⟨-, bound⟩ := ok_of_guard bound
    split at bound
    · cases bound
    · cases bound
      obtain ⟨isActive, same⟩ := Option.filter_eq_some_iff.mp active
      exact ⟨checkOwner_ok owned, isActive, of_decide_eq_true same⟩

theorem requireRunning_ok {fence : TurnFence} (passed : requireRunning digests root fence = .ok turn) :
    OnTurn root fence turn := by
  obtain ⟨checked, turnChecked, running⟩ := ok_of_bind passed
  split at running
  · cases running
  · split at running
    · cases running
    · cases running
      exact checkTurn_ok turnChecked

theorem create_step (c : Create) (published : create digests root c = .ok (.publish whole effects reply)) :
    Step digests limits root now (.create c) whole reply := by
  rw [create] at published
  obtain ⟨-, published⟩ := ok_of_guard published
  split at published
  · cases published
  · rename_i inactive
    have gone : root.lifecycle = .tombstoned := by
      cases lifecycle : root.lifecycle with
      | active => exact absurd lifecycle inactive
      | tombstoned => rfl
    split at published
    · cases published
    · rename_i incarnation next
      cases published
      exact .recreate c incarnation gone next

theorem enqueue_step (c : Enqueue) (published : enqueue digests limits root c now = .ok (.publish whole effects reply)) :
    Step digests limits root now (.enqueue c) whole reply := by
  obtain ⟨_, addressed, accepted⟩ := ok_of_bind published
  split at accepted
  · split at accepted <;> cases accepted
  · rename_i unseen
    obtain ⟨-, accepted⟩ := ok_of_guard accepted
    split at accepted
    · cases accepted
    · cases accepted
      exact .accept c (checkIncarnation_ok addressed) unseen

theorem takeover_step (c : Takeover) (published : takeover digests root c = .ok (.publish whole effects reply)) :
    Step digests limits root now (.takeover c) whole reply := by
  obtain ⟨_, addressed, taken⟩ := ok_of_bind published
  obtain ⟨-, taken⟩ := ok_of_guard taken
  split at taken
  · cases taken
  · rename_i epoch next
    cases taken
    exact .takeover c epoch (checkIncarnation_ok addressed) next

theorem beginTurn_step (c : BeginTurn) (published : beginTurn digests root c now = .ok (.publish whole effects reply)) :
    Step digests limits root now (.beginTurn c) whole reply := by
  obtain ⟨_, owned, begun⟩ := ok_of_bind published
  split at begun
  · split at begun <;> cases begun
  · rename_i idle
    split at begun
    · cases begun
    · rename_i next first
      split at begun
      · cases begun
      · rename_i pin _
        cases begun
        exact .start c next pin (checkOwner_ok owned) idle first

theorem takeInput_ok {acceptSeq : Nat} {inbox : List InboxEntry} (taken : takeInput digests root acceptSeq = .ok inbox) :
    acceptSeq ∈ root.inbox.map (·.acceptSeq) ∧ inbox = withoutInput root acceptSeq := by
  rw [takeInput] at taken
  split at taken
  · rename_i waiting
    cases taken
    refine ⟨?_, rfl⟩
    obtain ⟨entry, member, same⟩ := any_eq_true.mp waiting
    exact mem_map.mpr ⟨entry, member, of_decide_eq_true same⟩
  · cases taken

theorem not_requested (unrequested : ¬turn.cancellation = .requested) : turn.cancellation = .none := by
  cases cancellation : turn.cancellation with
  | none => rfl
  | requested => exact absurd cancellation unrequested

theorem completeTurn_step (c : CompleteTurn)
    (published : completeTurn digests limits root c now = .ok (.publish whole effects reply)) :
    Step digests limits root now (.completeTurn c) whole reply := by
  obtain ⟨checked, turnChecked, completed⟩ := ok_of_bind published
  split at completed
  · cases completed
  · rename_i turn
    have onTurn := checkTurn_ok turnChecked
    obtain ⟨-, completed⟩ := ok_of_guard completed
    obtain ⟨-, completed⟩ := ok_of_guard completed
    split at completed
    · rename_i requested
      obtain ⟨inbox, taken, cancelled⟩ := ok_of_bind completed
      obtain ⟨waiting, rfl⟩ := takeInput_ok taken
      cases cancelled
      exact .completeCancelled c turn onTurn requested waiting
    · rename_i unrequested
      split at completed
      · split at completed
        · cases completed
          exact .block _ c.fence turn _ rfl onTurn
        · cases completed
      · obtain ⟨inbox, taken, committed⟩ := ok_of_bind completed
        obtain ⟨waiting, rfl⟩ := takeInput_ok taken
        obtain ⟨_, _, journaling⟩ := ok_of_bind committed
        split at journaling
        · split at journaling
          · cases journaling
            exact .block _ c.fence turn _ rfl onTurn
          · cases journaling
        · rename_i journaled journal
          cases journaling
          exact .complete c turn journaled onTurn (not_requested unrequested) waiting journal

theorem failOpen_step (c : FailTurn) (onTurn : OnTurn root c.fence turn)
    (resolved : unsettledEffect digests root turn.inputAcceptSeq = none) (open' : turn.cancellation = .none)
    (published : failOpen digests root c turn now = .ok (.publish whole effects reply)) :
    Step digests limits root now (.failTurn c) whole reply := by
  rw [failOpen] at published
  split at published
  · cases published
  · rename_i entry found
    have waiting : turn.inputAcceptSeq ∈ root.inbox.map (·.acceptSeq) := by
      have passes := find?_some found
      exact mem_map.mpr ⟨entry, mem_of_find?_eq_some found, of_decide_eq_true passes⟩
    dsimp only at published
    split at published
    · cases published
      exact .failRetry c turn _ onTurn open' waiting resolved
    · obtain ⟨inbox, taken, failed⟩ := ok_of_bind published
      obtain ⟨-, rfl⟩ := takeInput_ok taken
      cases failed
      exact .failTerminal c turn onTurn open' waiting

theorem failTurn_step (c : FailTurn) (published : failTurn digests root c now = .ok (.publish whole effects reply)) :
    Step digests limits root now (.failTurn c) whole reply := by
  obtain ⟨_, _, failed⟩ := ok_of_bind published
  split at failed
  · cases failed
  · obtain ⟨checked, turnChecked, turnFailed⟩ := ok_of_bind failed
    split at turnFailed
    · cases turnFailed
    · rename_i turn
      have onTurn := checkTurn_ok turnChecked
      split at turnFailed
      · cases turnFailed
      · rename_i resolved
        split at turnFailed
        · rename_i requested
          obtain ⟨inbox, taken, cancelled⟩ := ok_of_bind turnFailed
          obtain ⟨waiting, rfl⟩ := takeInput_ok taken
          cases cancelled
          exact .failCancelled c turn onTurn requested waiting
        · rename_i unrequested
          exact failOpen_step c onTurn resolved (not_requested unrequested) turnFailed

theorem cancel_step (c : Cancel) (published : cancel digests root c now = .ok (.publish whole effects reply)) :
    Step digests limits root now (.cancel c) whole reply := by
  obtain ⟨_, addressed, cancelled⟩ := ok_of_bind published
  have address := checkIncarnation_ok addressed
  split at cancelled
  · cases cancelled
  · split at cancelled
    · rename_i turn active
      obtain ⟨running, same⟩ := Option.filter_eq_some_iff.mp active
      split at cancelled
      · cases cancelled
      · cases cancelled
        exact .requestCancel c turn address running (of_decide_eq_true same)
    · rename_i inactive
      have elsewhere : ∀ turn, root.activeTurn = some turn → turn.inputAcceptSeq ≠ c.acceptSeq := by
        intro turn running same
        rw [running, Option.filter_some, if_pos (decide_eq_true same)] at inactive
        cases inactive
      obtain ⟨-, cancelled⟩ := ok_of_guard cancelled
      obtain ⟨inbox, taken, settled⟩ := ok_of_bind cancelled
      obtain ⟨waiting, rfl⟩ := takeInput_ok taken
      cases settled
      exact .cancelWaiting c address elsewhere waiting

theorem scheduleTimer_step (c : ScheduleTimer)
    (published : scheduleTimer digests limits root c = .ok (.publish whole effects reply)) :
    Step digests limits root now (.scheduleTimer c) whole reply := by
  obtain ⟨_, addressed, scheduled⟩ := ok_of_bind published
  obtain ⟨_, _, capped⟩ := ok_of_bind scheduled
  cases capped
  exact .scheduleTimer c (checkIncarnation_ok addressed)

theorem fireTimer_step (c : FireTimer)
    (published : fireTimer digests limits root c now = .ok (.publish whole effects reply)) :
    Step digests limits root now (.fireTimer c) whole reply := by
  obtain ⟨_, addressed, fired⟩ := ok_of_bind published
  split at fired
  · cases fired
  · rename_i timer found
    split at fired
    · cases fired
    · rename_i due
      split at fired
      · cases fired
      · cases fired
        exact .fireTimer c timer (checkIncarnation_ok addressed) found (Int64.not_lt.mp due)

theorem cancelTimer_step (c : CancelTimer) (published : cancelTimer digests root c = .ok (.publish whole effects reply)) :
    Step digests limits root now (.cancelTimer c) whole reply := by
  obtain ⟨_, addressed, cancelled⟩ := ok_of_bind published
  dsimp only at cancelled
  split at cancelled
  · cases cancelled
  · rename_i timer found
    split at cancelled
    · cases cancelled
    · cases cancelled
    · rename_i scheduled
      cases cancelled
      exact .cancelTimer c timer (checkIncarnation_ok addressed) found scheduled

theorem tombstone_step (c : Tombstone) (published : tombstone digests root c = .ok (.publish whole effects reply)) :
    Step digests limits root now (.tombstone c) whole reply := by
  rw [tombstone] at published
  split at published
  · cases published
  · obtain ⟨_, addressed, entombed⟩ := ok_of_bind published
    cases entombed
    exact .tombstone c (checkIncarnation_ok addressed)

theorem recordStep_step (c : RecordStep) (published : recordStep digests root c = .ok (.publish whole effects reply)) :
    Step digests limits root now (.recordStep c) whole reply := by
  obtain ⟨turn, running, recorded⟩ := ok_of_bind published
  have onTurn := requireRunning_ok running
  dsimp only at recorded
  split at recorded
  · cases recorded
    exact .recordStep c turn _ onTurn
  · split at recorded
    · cases recorded
      exact .block _ c.fence turn _ rfl onTurn
    · split at recorded
      · cases recorded
      · cases recorded
        exact .recordStep c turn _ onTurn

theorem commitIntent_step (c : CommitIntent)
    (published : commitIntent digests root c = .ok (.publish whole effects reply)) :
    Step digests limits root now (.commitIntent c) whole reply := by
  obtain ⟨turn, running, committed⟩ := ok_of_bind published
  have onTurn := requireRunning_ok running
  dsimp only at committed
  split at committed
  · split at committed
    · cases committed
      exact .block _ c.fence turn _ rfl onTurn
    · cases committed
  · obtain ⟨⟨journal, added⟩, addedIntent, journaled⟩ := ok_of_bind committed
    cases journaled
    exact .commitIntent c turn journal added onTurn addedIntent

theorem checkOwnedEffect_ok (passed : checkOwnedEffect digests root effect = .ok checked) :
    ∃ turn, root.activeTurn = some turn ∧ effectOfTurn digests root effect turn = true ∧
      (turn.cancellation = .requested → effect.status = .authorized ∧ effect.policy = .manual) := by
  rw [checkOwnedEffect] at passed
  split at passed
  · cases passed
  · rename_i turn active
    obtain ⟨running, ofTurn⟩ := Option.filter_eq_some_iff.mp active
    dsimp only at passed
    obtain ⟨admitted, passed⟩ := ok_of_guard passed
    refine ⟨turn, running, ofTurn, ?_⟩
    intro requested
    by_contra unlatched
    exact admitted ⟨requested, unlatched⟩

theorem checkedSuccU64_some {value next : Nat} (follows : checkedSuccU64 value = some next) : next = value + 1 := by
  rw [checkedSuccU64] at follows
  split at follows
  · exact (Option.some.inj follows).symm
  · cases follows

theorem checkedSuccU32_some {value next : Nat} (follows : ¬some next ≠ checkedSuccU32 value) : next = value + 1 := by
  rw [ne_eq, not_not, checkedSuccU32] at follows
  split at follows
  · simpa using follows
  · cases follows

theorem grantAttempt_owner_step (authority : c.authority = .owner fence) (owned : Owned root fence)
    (found : root.effects.find? (fun effect => decide (effect.effectId = c.effectId)) = some effect)
    (pending : effect.status ≠ .completed) (follows : c.attempt = effect.attempt + 1)
    (checked : checkOwnedEffect digests root effect = .ok ())
    (published : grantAttempt digests root c effect true = .ok (.publish whole effects reply)) :
    Step digests limits root now (.authorizeAttempt c) whole reply := by
  obtain ⟨turn, running, ofTurn, latched⟩ := checkOwnedEffect_ok checked
  rw [grantAttempt] at published
  obtain ⟨known, published⟩ := ok_of_guard published
  split at published
  · rename_i ambiguous
    cases published
    exact .latchDoubt c fence effect _ authority owned found ambiguous.2
  · rename_i unambiguous
    cases published
    have distinct : ¬(effect.status = .authorized ∧ effect.policy = .manual) := fun ambiguous =>
      unambiguous ⟨rfl, ambiguous⟩
    have open' : turn.cancellation = .none := not_requested fun requested => distinct (latched requested)
    exact .grantOwner c fence effect turn authority owned found pending (fun doubted => known ⟨rfl, doubted⟩) distinct
      follows running ofTurn open'

theorem authorizeAttempt_step (published : authorizeAttempt digests root c = .ok (.publish whole effects reply)) :
    Step digests limits root now (.authorizeAttempt c) whole reply := by
  obtain ⟨owner, checked, authorized⟩ := ok_of_bind published
  split at authorized
  · cases authorized
  · rename_i effect found
    split at authorized
    · cases authorized
    · rename_i pending
      split at authorized
      · cases authorized
      · obtain ⟨refused, authorized⟩ := ok_of_guard authorized
        have follows := checkedSuccU32_some refused
        cases authority : c.authority with
        | owner fence =>
          rw [authority] at checked
          obtain ⟨_, owned, granted⟩ := ok_of_bind checked
          cases granted
          obtain ⟨_, ofTurn, grant⟩ := ok_of_bind authorized
          exact grantAttempt_owner_step c authority (checkOwner_ok owned) found pending follows ofTurn grant
        | reconcile fence =>
          rw [authority] at checked
          obtain ⟨_, addressed, granted⟩ := ok_of_bind checked
          cases granted
          have grant : grantAttempt digests root c effect false = .ok (.publish whole effects reply) := authorized
          rw [grantAttempt] at grant
          simp only [Bool.false_eq_true, false_and, if_false] at grant
          cases grant
          exact .grantReconcile c fence effect authority (checkIncarnation_ok addressed) found pending follows

theorem recordEffectResult_step (c : RecordEffectResult)
    (published : recordEffectResult digests root c = .ok (.publish whole effects reply)) :
    Step digests limits root now (.recordEffectResult c) whole reply := by
  obtain ⟨_, addressed, recorded⟩ := ok_of_bind published
  split at recorded
  · cases recorded
  · rename_i effect found
    obtain ⟨authorized, recorded⟩ := ok_of_guard recorded
    split at recorded
    · split at recorded
      · cases recorded
      · split at recorded <;> cases recorded
    · rename_i pending
      split at recorded
      · cases recorded
      · rename_i current
        cases recorded
        have attempted : c.attempt = effect.attempt := by
          have notLate := (not_or.mp current).1
          have notEarly := (not_or.mp authorized).2
          omega
        exact .recordResult c effect (checkIncarnation_ok addressed) found pending attempted

theorem step_of_transition {command : Command}
    (published : transition digests limits root now command = .ok (.publish whole effects reply)) :
    Step digests limits root now command whole reply := by
  cases command with
  | create c => exact create_step c published
  | enqueue c => exact enqueue_step c published
  | takeover c => exact takeover_step c published
  | beginTurn c => exact beginTurn_step c published
  | completeTurn c => exact completeTurn_step c published
  | failTurn c => exact failTurn_step c published
  | cancel c => exact cancel_step c published
  | scheduleTimer c => exact scheduleTimer_step c published
  | fireTimer c => exact fireTimer_step c published
  | cancelTimer c => exact cancelTimer_step c published
  | tombstone c => exact tombstone_step c published
  | recordStep c => exact recordStep_step c published
  | commitIntent c => exact commitIntent_step c published
  | authorizeAttempt c => exact authorizeAttempt_step c published
  | recordEffectResult c => exact recordEffectResult_step c published

end Inversion

/-- A schedule keeps one timer for each identifier. -/
theorem schedule_ids_distinct (digests : Digests) (incarnation : Nat) (spec : TimerSpec) {table : TimerTable}
    (distinct : (table.timers.map (·.timerId)).Nodup) :
    ((schedule digests incarnation table spec).timers.map (·.timerId)).Nodup := by
  rw [schedule]
  dsimp only
  split
  · rw [map_updateFirst]
    · exact distinct
    · intro timer same
      exact (of_decide_eq_true same).symm
  · rename_i absent
    rw [map_append, nodup_append]
    refine ⟨distinct, by simp, ?_⟩
    intro timerId listed other isNew same
    obtain ⟨timer, timerIn, rfl⟩ := mem_map.mp listed
    simp only [map_cons, map_nil, mem_singleton] at isNew
    apply absent
    rw [any_eq_true]
    exact ⟨timer, timerIn, by simp [same, isNew]⟩

end Ravel.Agents
