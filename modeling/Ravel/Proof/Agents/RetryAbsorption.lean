import Ravel.Proof.Agents.AcceptedOnce

namespace Ravel.Agents

open List Library

/-- What a reply names. -/
structure Named where
  acceptSeq : Option Nat := none
  incarnation : Option Nat := none
  turn : Option ActiveTurn := none
  step : Option StepRecord := none
  effect : Option Id128 := none
  attempt : Option Nat := none
  deriving DecidableEq, Repr

/-- The input, incarnation, turn, step, effect and attempt of a reply. -/
def Reply.named : Reply → Named
  | .created incarnation => { incarnation := some incarnation }
  | .exists incarnation => { incarnation := some incarnation }
  | .accepted acceptSeq _ => { acceptSeq := some acceptSeq }
  | .turnStarted turn => { turn := some turn }
  | .turnResumed turn => { turn := some turn }
  | .turnCommitted acceptSeq _ _ => { acceptSeq := some acceptSeq }
  | .alreadyCommitted acceptSeq => { acceptSeq := some acceptSeq }
  | .turnRetry acceptSeq failedAttempts => { acceptSeq := some acceptSeq, attempt := some failedAttempts }
  | .turnFailed acceptSeq _ => { acceptSeq := some acceptSeq }
  | .cancelRequested acceptSeq => { acceptSeq := some acceptSeq }
  | .cancelled acceptSeq => { acceptSeq := some acceptSeq }
  | .alreadyTerminal acceptSeq _ => { acceptSeq := some acceptSeq }
  | .timerFired acceptSeq => { acceptSeq := some acceptSeq }
  | .stepRecorded step => { step := some step }
  | .stepReplayed step => { step := some step }
  | .intentCommitted effectId => { effect := some effectId }
  | .attemptAuthorized effectId attempt => { effect := some effectId, attempt := some attempt }
  | .effectCompleted effectId _ attempt => { effect := some effectId, attempt := some attempt }
  | .effectResultRecorded effectId => { effect := some effectId }
  | .lateResultIgnored effectId => { effect := some effectId }
  | .owned _ => {}
  | .idle => {}
  | .timerScheduled _ _ => {}
  | .timerNotDue => {}
  | .timerStale => {}
  | .timerCancelled => {}
  | .alreadyFired => {}
  | .unknownTimer => {}
  | .tombstoned => {}
  | .alreadyTombstoned => {}
  | .blocked _ => {}

def Reply.isBlocked : Reply → Bool
  | .blocked _ => true
  | _ => false

/-- A second schedule takes a new generation, and a second takeover meets the epoch of the first. The other commands are
repeated by a client or worker that lost their reply. -/
def Command.repeatable : Command → Bool
  | .takeover _ => false
  | .scheduleTimer _ => false
  | _ => true

def Command.firesTimer : Command → Bool
  | .fireTimer _ => true
  | _ => false

/-- The command authorizes an attempt while the cancellation of the active turn is requested. -/
def AuthorizesCancelled (root : Head) (command : Command) : Prop :=
  (∃ c, command = .authorizeAttempt c) ∧ ∃ turn, root.activeTurn = some turn ∧ turn.cancellation = .requested

/-- What the second application of a command comes to, after the first published with the reply. -/
inductive Retried (root : Head) : Command → Reply → Except AgentError Transition → Prop where
  | answered (command : Command) (reply answer : Reply) (unblocked : reply.isBlocked = false)
      (other : command.firesTimer = false) (same : answer.named = reply.named) : Retried root command reply (.ok (.unchanged answer))
  | delivered (c : FireTimer) (acceptSeq : Nat) :
      Retried root (.fireTimer c) (.timerFired acceptSeq) (.ok (.unchanged .timerStale))
  | refused (command : Command) (error again : AgentError) (other : ¬AuthorizesCancelled root command)
      (sameKind : again.kind = error.kind) : Retried root command (.blocked error) (.error again)
  | cancelled (command : Command) (error again : AgentError) (isCancelled : AuthorizesCancelled root command)
      (lost : again.kind = .ownershipLost) : Retried root command (.blocked error) (.error again)

namespace SameEntries

variable {next whole : Head}

section

variable (same : SameEntries next whole)

include same

theorem lifecycle : next.lifecycle = whole.lifecycle := by rw [same.fields]

theorem incarnation : next.incarnation = whole.incarnation := by rw [same.fields]

theorem activeTurn : next.activeTurn = whole.activeTurn := by rw [same.fields]

theorem steps : next.steps = whole.steps := by rw [same.fields]

theorem effects : next.effects = whole.effects := by rw [same.fields]

theorem addressed {incarnation : Nat} (addressed : Addressed whole incarnation) : Addressed next incarnation :=
  ⟨same.lifecycle.trans addressed.alive, addressed.current.trans same.incarnation.symm⟩

theorem owned {fence : OwnerFence} (owned : Owned whole fence) : Owned next fence := by
  refine ⟨same.addressed owned.toAddressed, ?_, ?_⟩
  · rw [owned.epoch, same.fields]
  · rw [owned.owner, same.fields]

end

end SameEntries

section Checks

variable {digests : Digests} {root next : Head} {fence : TurnFence} {turn current : ActiveTurn}

theorem checkOwner_owned {fence : OwnerFence} (owned : Owned root fence) : checkOwner digests root fence = .ok () := by
  have addressed : checkIncarnation digests root ⟨fence.incarnation⟩ = .ok () := checkIncarnation_addressed owned.toAddressed
  rw [checkOwner, addressed]
  show (if fence.epoch ≠ root.epoch ∨ fence.ownerId ≠ root.ownerId then _ else _) = _
  rw [if_neg]
  rintro (epoch | owner)
  · exact epoch owned.epoch
  · exact owner owned.owner

/-- Two turns with the same binding. -/
structure SameBinding (left right : ActiveTurn) : Prop where
  turnId : left.turnId = right.turnId
  base : left.baseStateVersion = right.baseStateVersion
  version : left.handlerVersion = right.handlerVersion
  digest : left.handlerDigest = right.handlerDigest

theorem checkTurn_again (passed : checkTurn digests root fence = .ok (.inl turn)) (owned : Owned next fence.owner)
    (running : next.activeTurn = some current) (same : SameBinding current turn) :
    checkTurn digests next fence = .ok (.inl current) := by
  obtain ⟨_, -, bound⟩ := ok_of_bind passed
  rw [checkTurn, checkOwner_owned owned, ok_bind]
  split at bound
  · split at bound <;> cases bound
  · rename_i found active
    obtain ⟨base, bound⟩ := ok_of_guard bound
    obtain ⟨handler, bound⟩ := ok_of_guard bound
    cases bound
    obtain ⟨-, sameTurn⟩ := Option.filter_eq_some_iff.mp active
    have sameId : current.turnId = fence.turnId := same.turnId.trans (of_decide_eq_true sameTurn)
    rw [running, Option.filter_some, if_pos (decide_eq_true sameId)]
    dsimp only
    rw [same.base, if_neg base, same.version, same.digest, if_neg handler]

/-- A turn whose input has its result is known as committed. -/
theorem checkTurn_committed (owned : Owned next fence.owner) (idle : next.activeTurn = none) {result : ResultEntry}
    (found : next.results.find? (fun result => result.turnId = some fence.turnId) = some result) :
    checkTurn digests next fence = .ok (.inr result.acceptSeq) := by
  rw [checkTurn, checkOwner_owned owned, idle, ok_bind, Option.filter_none]
  dsimp only
  rw [found]

theorem requireRunning_open (passed : requireRunning digests root fence = .ok turn) :
    checkTurn digests root fence = .ok (.inl turn) ∧ turn.block = .none := by
  obtain ⟨checked, turnChecked, running⟩ := ok_of_bind passed
  split at running
  · cases running
  · obtain ⟨unblocked, running⟩ := ok_of_guard running
    cases running
    exact ⟨turnChecked, not_not.mp unblocked⟩

theorem requireRunning_again (passed : requireRunning digests root fence = .ok turn) (owned : Owned next fence.owner)
    (running : next.activeTurn = some turn) : requireRunning digests next fence = .ok turn := by
  obtain ⟨checked, unblocked⟩ := requireRunning_open passed
  rw [requireRunning, checkTurn_again checked owned running ⟨rfl, rfl, rfl, rfl⟩]
  show (if turn.block ≠ .none then _ else _) = _
  rw [if_neg (not_not.mpr unblocked)]

end Checks

section Commands

variable {ids : CollisionFree} {limits : Limits} {root whole next : Head} {now later : Int64} {effects : List Effect} {reply : Reply}

theorem create_retried (c : Create) (published : create ids root c = .ok (.publish whole effects reply))
    (same : SameEntries next whole) : Retried root (.create c) reply (create ids next c) := by
  rw [create] at published
  obtain ⟨sameNames, published⟩ := ok_of_guard published
  split at published
  · cases published
  · split at published
    · cases published
    · cases published
      have stillNamed : ¬(next.tenant ≠ c.tenant ∨ next.kind ≠ c.kind ∨ next.key ≠ c.key) := by
        rw [same.fields]
        exact sameNames
      have alive : next.lifecycle = .active := same.lifecycle
      rw [create, if_neg stillNamed, if_pos alive]
      apply Retried.answered _ _ _ rfl rfl
      rw [same.incarnation]
      rfl

theorem enqueue_retried (c : Enqueue) (tracked : Tracked ids next)
    (step : Step ids limits root now (.enqueue c) whole reply) (same : SameEntries next whole) :
    Retried root (.enqueue c) reply (enqueue ids limits next c later) := by
  cases step with
  | accept c addressed unseen =>
    have member : receiptOf c root.nextAcceptSeq ∈ next.receipts :=
      same.receipts.mem_iff.mpr (mem_append_right _ mem_cons_self)
    rw [enqueue, checkIncarnation_addressed (same.addressed ⟨addressed.alive, addressed.current⟩), ok_bind]
    rw [receipt_found tracked member ⟨rfl, rfl⟩]
    show Retried _ _ _ (if c.requestHash ≠ c.requestHash then _ else _)
    rw [if_neg (not_not.mpr rfl)]
    exact .answered _ _ _ rfl rfl rfl
  | block _ fence turn error fenced onTurn => cases fenced

theorem beginTurn_retried (c : BeginTurn) (published : beginTurn ids root c now = .ok (.publish whole effects reply))
    (same : SameEntries next whole) : Retried root (.beginTurn c) reply (beginTurn ids next c later) := by
  obtain ⟨_, ownerChecked, begun⟩ := ok_of_bind published
  have owned := checkOwner_ok ownerChecked
  split at begun
  · split at begun <;> cases begun
  · split at begun
    · cases begun
    · rename_i input first
      split at begun
      · cases begun
      · rename_i pin found
        cases begun
        have pinned : (c.handlers.any fun other =>
            decide (other.handler = pin.handler ∧ other.version = pin.version ∧ other.digest = pin.digest)) = true :=
          any_eq_true.mpr ⟨pin, mem_of_find?_eq_some found, decide_eq_true ⟨rfl, rfl, rfl⟩⟩
        rw [beginTurn, checkOwner_owned (same.owned ⟨⟨owned.alive, owned.current⟩, owned.epoch, owned.owner⟩), same.activeTurn]
        show Retried _ _ _ (if (c.handlers.any fun other => decide (other.handler = pin.handler ∧
          other.version = pin.version ∧ other.digest = pin.digest)) = true then _ else _)
        rw [if_pos pinned]
        exact .answered _ _ _ rfl rfl rfl

variable {result : ResultEntry} {Entry : Type} {test : Entry → Bool} {entries : List Entry} {entry : Entry}
  {timers : List TimerEntry} {effect : EffectRecord} (c : AuthorizeAttempt)

/-- The result of the turn's input is found under the turn. -/
theorem result_found (tracked : Tracked ids next) {turnId : Id128} (member : result ∈ next.results)
    (ofTurn : result.turnId = some turnId) :
    next.results.find? (fun result => result.turnId = some turnId) = some result := by
  apply AtMostOne.find?_eq_some
  · apply atMostOne_of_key tracked.results_distinct
    intro left leftIn right rightIn leftPasses rightPasses
    exact turnOf_unique (tracked.resultTurns left leftIn turnId (of_decide_eq_true leftPasses))
      (tracked.resultTurns right rightIn turnId (of_decide_eq_true rightPasses))
  · exact member
  · exact decide_eq_true ofTurn

/-- After a turn consumed its input, its fence finds the result. -/
theorem checkTurn_consumed {fence : TurnFence} {turn : ActiveTurn} (onTurn : OnTurn root fence turn)
    (tracked : Tracked ids next) (owned : Owned next fence.owner) (idle : next.activeTurn = none)
    (member : result ∈ next.results) (ofTurn : result.turnId = some turn.turnId) :
    checkTurn ids next fence = .ok (.inr result.acceptSeq) := by
  rw [onTurn.turnId] at ofTurn
  exact checkTurn_committed owned idle (result_found tracked member ofTurn)

theorem checkTurn_blocked {fence : TurnFence} {turn : ActiveTurn} (passed : checkTurn ids root fence = .ok (.inl turn))
    (same : SameEntries next (blockedHead root)) :
    checkTurn ids next fence = .ok (.inl { turn with block := .nonDeterministicReplay }) := by
  have onTurn := checkTurn_ok passed
  apply checkTurn_again passed (same.owned ⟨⟨onTurn.alive, onTurn.current⟩, onTurn.epoch, onTurn.owner⟩)
  · rw [same.activeTurn, blockedHead, onTurn.running]
    rfl
  · exact ⟨rfl, rfl, rfl, rfl⟩

theorem requireRunning_blocked {fence : TurnFence} {turn : ActiveTurn}
    (passed : requireRunning ids root fence = .ok turn) (same : SameEntries next (blockedHead root)) :
    requireRunning ids next fence =
      .error (fail ids next .nonDeterministicReplay "turn is blocked by a non-deterministic replay") := by
  rw [requireRunning, checkTurn_blocked (requireRunning_open passed).1 same]
  rfl

theorem completeTurn_cases (c : CompleteTurn)
    (published : completeTurn ids limits root c now = .ok (.publish whole effects reply)) :
    ∃ turn, checkTurn ids root c.fence = .ok (.inl turn) ∧
      ((∃ reason, whole = blockedHead root ∧ reply = .blocked (fail ids root .nonDeterministicReplay reason)) ∨
        ∃ stateVersion rebased, reply = .turnCommitted turn.inputAcceptSeq stateVersion rebased) := by
  obtain ⟨checked, turnChecked, completed⟩ := ok_of_bind published
  split at completed
  · cases completed
  · rename_i turn
    refine ⟨turn, turnChecked, ?_⟩
    obtain ⟨-, completed⟩ := ok_of_guard completed
    obtain ⟨-, completed⟩ := ok_of_guard completed
    split at completed
    · obtain ⟨inbox, -, cancelled⟩ := ok_of_bind completed
      cases cancelled
      exact .inr ⟨_, _, rfl⟩
    · split at completed
      · split at completed
        · cases completed
          exact .inl ⟨_, rfl, rfl⟩
        · cases completed
      · obtain ⟨inbox, -, committed⟩ := ok_of_bind completed
        obtain ⟨_, -, journaling⟩ := ok_of_bind committed
        split at journaling
        · split at journaling
          · cases journaling
            exact .inl ⟨_, rfl, rfl⟩
          · cases journaling
        · cases journaling
          exact .inr ⟨_, _, rfl⟩

/-- The commit of a turn leaves the result of its input, under the turn. -/
theorem step_committed {c : CompleteTurn} {acceptSeq stateVersion : Nat} {rebased : Bool}
    (step : Step ids limits root now (.completeTurn c) whole (.turnCommitted acceptSeq stateVersion rebased))
    (same : SameEntries next whole) (tracked : Tracked ids next) :
    checkTurn ids next c.fence = .ok (.inr acceptSeq) := by
  cases step with
  | completeCancelled c turn onTurn requested waiting =>
    have member : cancelledResult turn.inputAcceptSeq (some turn.turnId) now ∈ next.results :=
      same.results.mem_iff.mpr (mem_append_right _ mem_cons_self)
    exact checkTurn_consumed onTurn tracked (same.owned ⟨⟨onTurn.alive, onTurn.current⟩, onTurn.epoch, onTurn.owner⟩)
      same.activeTurn member rfl
  | complete c turn journaled onTurn open' waiting journal =>
    obtain ⟨result, member, ofTurn, sameInput⟩ : ∃ result ∈ next.results,
        result.turnId = some turn.turnId ∧ result.acceptSeq = turn.inputAcceptSeq :=
      ⟨_, same.results.mem_iff.mpr (mem_append_right _ mem_cons_self), rfl, rfl⟩
    rw [← sameInput]
    exact checkTurn_consumed onTurn tracked (same.owned ⟨⟨onTurn.alive, onTurn.current⟩, onTurn.epoch, onTurn.owner⟩)
      same.activeTurn member ofTurn

theorem completeTurn_retried (c : CompleteTurn) (tracked : Tracked ids next)
    (published : completeTurn ids limits root c now = .ok (.publish whole effects reply))
    (same : SameEntries next whole) :
    Retried root (.completeTurn c) reply (completeTurn ids limits next c later) := by
  obtain ⟨turn, checked, ⟨reason, rfl, rfl⟩ | ⟨stateVersion, rebased, rfl⟩⟩ := completeTurn_cases c published
  · rw [completeTurn, checkTurn_blocked checked same]
    apply Retried.refused
    · rintro ⟨⟨_, isAuthorize⟩, -⟩
      cases isAuthorize
    · rfl
  · rw [completeTurn, step_committed (completeTurn_step c published) same tracked]
    exact .answered _ _ _ rfl rfl rfl

/-- A publish of a turn's failure found no failure of the turn before. -/
theorem failTurn_unseen (c : FailTurn) (published : failTurn ids root c now = .ok (.publish whole effects reply)) :
    ∀ entry ∈ root.inbox, entry.lastFailedTurnId ≠ some c.fence.turnId := by
  obtain ⟨_, -, failed⟩ := ok_of_bind published
  split at failed
  · cases failed
  · rename_i unseen
    intro entry member
    simpa using find?_eq_none.mp unseen entry member

theorem failTurn_unblocked (c : FailTurn) (published : failTurn ids root c now = .ok (.publish whole effects reply)) :
    reply.isBlocked = false := by
  obtain ⟨_, -, failed⟩ := ok_of_bind published
  split at failed
  · cases failed
  · obtain ⟨checked, -, turnFailed⟩ := ok_of_bind failed
    split at turnFailed
    · cases turnFailed
    · split at turnFailed
      · cases turnFailed
      · split at turnFailed
        · obtain ⟨inbox, -, cancelled⟩ := ok_of_bind turnFailed
          cases cancelled
          rfl
        · rw [failOpen] at turnFailed
          split at turnFailed
          · cases turnFailed
          · dsimp only at turnFailed
            split at turnFailed
            · cases turnFailed
              rfl
            · obtain ⟨inbox, -, consumed⟩ := ok_of_bind turnFailed
              cases consumed
              rfl

theorem failTurn_consumed (c : FailTurn) {turn : ActiveTurn} (onTurn : OnTurn root c.fence turn)
    (tracked : Tracked ids next)
    (unseen : ∀ entry ∈ root.inbox, entry.lastFailedTurnId ≠ some c.fence.turnId)
    (same : SameEntries next (settledHead ids root none turn.inputAcceptSeq result))
    (ofTurn : result.turnId = some turn.turnId) :
    failTurn ids next c later = .ok (.unchanged (.alreadyCommitted result.acceptSeq)) := by
  have owned : Owned next c.fence.owner := same.owned ⟨⟨onTurn.alive, onTurn.current⟩, onTurn.epoch, onTurn.owner⟩
  have member : result ∈ next.results := same.results.mem_iff.mpr (mem_append_right _ mem_cons_self)
  have stillUnseen : next.inbox.find? (fun entry => entry.lastFailedTurnId = some c.fence.turnId) = none := by
    rw [find?_eq_none]
    intro entry listed
    have waiting : entry ∈ root.inbox := mem_of_mem_eraseP (same.inbox.mem_iff.mp listed)
    simpa using unseen entry waiting
  rw [failTurn, checkOwner_owned owned, ok_bind]
  rw [stillUnseen]
  show (checkTurn ids next c.fence >>= _) = _
  rw [checkTurn_consumed onTurn tracked owned same.activeTurn member ofTurn]
  rfl

theorem mem_updateFirst_of_mem (unique : AtMostOne test entries) (member : entry ∈ entries) (passes : test entry)
    (change : Entry → Entry) : change entry ∈ updateFirst test change entries := by
  rw [unique.updateFirst_eq_map, mem_map]
  exact ⟨entry, member, by rw [if_pos passes]⟩

/-- A failure that kept the input is answered from it. -/
theorem failTurn_kept (c : FailTurn) {turn : ActiveTurn} {failedAttempts : Nat} (onTurn : OnTurn root c.fence turn)
    (before : Tracked ids root) (tracked : Tracked ids next)
    (waiting : turn.inputAcceptSeq ∈ root.inbox.map (·.acceptSeq)) (same : SameEntries next (retriedHead root turn failedAttempts)) :
    failTurn ids next c later = .ok (.unchanged (.turnRetry turn.inputAcceptSeq failedAttempts)) := by
  obtain ⟨entry, listed, isInput⟩ := mem_map.mp waiting
  have onlyInput : AtMostOne (fun entry : InboxEntry => decide (entry.acceptSeq = turn.inputAcceptSeq)) root.inbox :=
    atMostOne_key before.inbox_distinct _
  have updated := mem_updateFirst_of_mem onlyInput listed (decide_eq_true isInput) fun entry : InboxEntry =>
    { entry with failedAttempts := failedAttempts, lastFailedTurnId := some turn.turnId }
  have found : next.inbox.find? (fun entry => entry.lastFailedTurnId = some c.fence.turnId) =
      some { entry with failedAttempts := failedAttempts, lastFailedTurnId := some turn.turnId } := by
    apply AtMostOne.find?_eq_some
    · apply atMostOne_of_key tracked.inbox_distinct
      intro left leftIn right rightIn leftPasses rightPasses
      exact turnOf_unique (tracked.failedTurns left leftIn _ (of_decide_eq_true leftPasses))
        (tracked.failedTurns right rightIn _ (of_decide_eq_true rightPasses))
    · exact same.inbox.mem_iff.mpr updated
    · rw [← onTurn.turnId]
      exact decide_eq_true rfl
  have owned : Owned next c.fence.owner := same.owned ⟨⟨onTurn.alive, onTurn.current⟩, onTurn.epoch, onTurn.owner⟩
  rw [failTurn, checkOwner_owned owned, ok_bind]
  rw [found, ← isInput]

theorem failTurn_retried (limits : Limits) (c : FailTurn) (before : Tracked ids root) (tracked : Tracked ids next)
    (published : failTurn ids root c now = .ok (.publish whole effects reply))
    (same : SameEntries next whole) : Retried root (.failTurn c) reply (failTurn ids next c later) := by
  have unseen := failTurn_unseen c published
  have unblocked := failTurn_unblocked c published
  have step : Step ids limits root now (.failTurn c) whole reply := failTurn_step c published
  cases step with
  | failCancelled c turn onTurn requested waiting =>
    rw [failTurn_consumed c onTurn tracked unseen same rfl]
    exact .answered _ _ _ rfl rfl rfl
  | failTerminal c turn onTurn open' waiting =>
    rw [failTurn_consumed c onTurn tracked unseen same rfl]
    exact .answered _ _ _ rfl rfl rfl
  | failRetry c turn failedAttempts onTurn open' waiting resolved =>
    rw [failTurn_kept c onTurn before tracked waiting same]
    exact .answered _ _ _ rfl rfl rfl
  | block _ fence turn error fenced onTurn => cases unblocked

theorem cancel_retried (c : Cancel) (tracked : Tracked ids next)
    (published : cancel ids root c now = .ok (.publish whole effects reply))
    (same : SameEntries next whole) : Retried root (.cancel c) reply (cancel ids next c later) := by
  obtain ⟨_, addressed, cancelled⟩ := ok_of_bind published
  have address := checkIncarnation_ok addressed
  split at cancelled
  · cases cancelled
  · rename_i unsettled
    split at cancelled
    · rename_i turn active
      obtain ⟨running, isInput⟩ := Option.filter_eq_some_iff.mp active
      split at cancelled
      · cases cancelled
      · cases cancelled
        have still : next.results.find? (fun result => result.acceptSeq = c.acceptSeq) = none := by
          rw [find?_eq_none] at unsettled ⊢
          intro result member
          exact unsettled result (same.results.mem_iff.mp member)
        have stillRunning : next.activeTurn = some { turn with cancellation := .requested } := by
          rw [same.activeTurn, running]
          rfl
        rw [cancel, checkIncarnation_addressed (same.addressed ⟨address.alive, address.current⟩), ok_bind]
        rw [still, stillRunning, Option.filter_some, if_pos isInput]
        exact .answered _ _ _ rfl rfl rfl
    · obtain ⟨-, cancelled⟩ := ok_of_guard cancelled
      obtain ⟨inbox, taken, settled⟩ := ok_of_bind cancelled
      cases settled
      obtain ⟨result, member, sameInput⟩ : ∃ result ∈ next.results, result.acceptSeq = c.acceptSeq :=
        ⟨_, same.results.mem_iff.mpr (mem_append_right _ mem_cons_self), rfl⟩
      have found : next.results.find? (fun result => result.acceptSeq = c.acceptSeq) = some result := by
        apply AtMostOne.find?_eq_some
        · exact atMostOne_key tracked.results_distinct _
        · exact member
        · exact decide_eq_true sameInput
      rw [cancel, checkIncarnation_addressed (same.addressed ⟨address.alive, address.current⟩), ok_bind]
      rw [found]
      exact .answered _ _ _ rfl rfl rfl

theorem timer_found (distinct : (timers.map (·.timerId)).Nodup) {timer : TimerEntry} (member : timer ∈ timers) :
    timers.find? (fun other => other.timerId = timer.timerId) = some timer :=
  (atMostOne_key distinct timer.timerId).find?_eq_some member (decide_eq_true rfl)

/-- The delivered timer is no longer scheduled under its generation. -/
theorem fireTimer_retried (c : FireTimer) (before : Tracked ids root) (tracked : Tracked ids next)
    (step : Step ids limits root now (.fireTimer c) whole reply) (same : SameEntries next whole) :
    Retried root (.fireTimer c) reply (fireTimer ids limits next c later) := by
  cases step with
  | fireTimer c timer addressed found due =>
    have passes := find?_some found
    obtain ⟨sameId, -, -⟩ := of_decide_eq_true passes
    have updated := mem_updateFirst_of_mem (atMostOne_key before.timerIds c.timerId) (mem_of_find?_eq_some found)
      (decide_eq_true sameId) fun timer : TimerEntry => { timer with status := .delivered }
    have delivered := timer_found tracked.timerIds (same.timers.mem_iff.mpr updated)
    have stale : next.timers.find? (fun timer =>
        timer.timerId = c.timerId ∧ timer.generation = c.generation ∧ timer.status = .scheduled) = none := by
      rw [find?_eq_none]
      intro other member scheduled
      obtain ⟨otherId, -, otherScheduled⟩ := of_decide_eq_true scheduled
      have isTimer := timer_found tracked.timerIds member
      rw [otherId, ← sameId] at isTimer
      have both := Option.some.inj (isTimer.symm.trans delivered)
      rw [both] at otherScheduled
      cases otherScheduled
    rw [fireTimer, checkIncarnation_addressed (same.addressed ⟨addressed.alive, addressed.current⟩), ok_bind]
    rw [stale]
    exact .delivered c root.nextAcceptSeq
  | block _ fence turn error fenced onTurn => cases fenced

theorem cancelTimer_retried (c : CancelTimer) (before : Tracked ids root) (tracked : Tracked ids next)
    (step : Step ids limits root now (.cancelTimer c) whole reply) (same : SameEntries next whole) :
    Retried root (.cancelTimer c) reply (cancelTimer ids next c) := by
  cases step with
  | cancelTimer c timer addressed found scheduled =>
    have passes := find?_some found
    have sameId : timer.timerId = ids.timerId root.incarnation c.timerKey := of_decide_eq_true passes
    have updated := mem_updateFirst_of_mem (atMostOne_key before.timerIds (ids.timerId root.incarnation c.timerKey))
      (mem_of_find?_eq_some found) (decide_eq_true sameId) fun timer : TimerEntry => { timer with status := .cancelled }
    have stillFound := timer_found tracked.timerIds (same.timers.mem_iff.mpr updated)
    have sameIncarnation : next.incarnation = root.incarnation := same.incarnation
    rw [cancelTimer, checkIncarnation_addressed (same.addressed ⟨addressed.alive, addressed.current⟩), sameIncarnation, ok_bind]
    dsimp only
    rw [← sameId, stillFound]
    exact .answered _ _ _ rfl rfl rfl
  | block _ fence turn error fenced onTurn => cases fenced

theorem tombstone_retried (c : Tombstone) (step : Step ids limits root now (.tombstone c) whole reply)
    (same : SameEntries next whole) : Retried root (.tombstone c) reply (tombstone ids next c) := by
  cases step with
  | tombstone c addressed =>
    rw [tombstone, if_pos ⟨same.lifecycle, addressed.current.trans same.incarnation.symm⟩]
    exact .answered _ _ _ rfl rfl rfl
  | block _ fence turn error fenced onTurn => cases fenced

/-- The step is found where it was placed. -/
theorem placeStep_found (steps : List StepRecord) (record : StepRecord) :
    (placeStep steps record).find? (fun step => step.stepId = record.stepId) = some record := by
  rw [placeStep]
  split
  · rename_i placed
    induction steps with
    | nil => cases placed
    | cons step rest ih =>
      rw [updateFirst]
      by_cases isStep : step.stepId = record.stepId
      · simp [isStep]
      · have inRest : (rest.any fun step => decide (step.stepId = record.stepId)) = true := by simpa [isStep] using placed
        simpa [isStep] using ih inRest
  · rename_i absent
    rw [find?_append]
    have unplaced : steps.find? (fun step => decide (step.stepId = record.stepId)) = none := by
      rw [find?_eq_none]
      simpa using absent
    simp [unplaced]

theorem recordStep_retried (c : RecordStep) (published : recordStep ids root c = .ok (.publish whole effects reply))
    (same : SameEntries next whole) : Retried root (.recordStep c) reply (recordStep ids next c) := by
  obtain ⟨turn, running, recorded⟩ := ok_of_bind published
  have onTurn := requireRunning_ok running
  dsimp only at recorded
  -- the two branches that record the step leave the same root
  have again : whole = { root with steps := placeStep root.steps ⟨ids.stepId root.incarnation turn.inputAcceptSeq c.stepKey,
        c.stepKey, c.toolName, c.toolVersion, c.inputHash, c.status, c.output⟩ } →
      reply = .stepRecorded ⟨ids.stepId root.incarnation turn.inputAcceptSeq c.stepKey, c.stepKey, c.toolName, c.toolVersion,
        c.inputHash, c.status, c.output⟩ → Retried root (.recordStep c) reply (recordStep ids next c) := by
    rintro rfl rfl
    have sameIncarnation : next.incarnation = root.incarnation := same.incarnation
    have found := placeStep_found root.steps ⟨ids.stepId root.incarnation turn.inputAcceptSeq c.stepKey, c.stepKey, c.toolName,
      c.toolVersion, c.inputHash, c.status, c.output⟩
    have stillRunning := requireRunning_again running
      (same.owned ⟨⟨onTurn.alive, onTurn.current⟩, onTurn.epoch, onTurn.owner⟩) (same.activeTurn.trans onTurn.running)
    rw [recordStep, stillRunning, ok_bind]
    dsimp only
    rw [sameIncarnation, same.steps, found]
    dsimp only
    rw [if_neg (by simp), if_pos]
    · exact .answered _ _ _ rfl rfl rfl
    · cases status : c.status with
      | started => exact .inr rfl
      | completed => exact .inl rfl
  split at recorded
  · cases recorded
    exact again rfl rfl
  · split at recorded
    · cases recorded
      rw [recordStep, requireRunning_blocked running same]
      apply Retried.refused
      · rintro ⟨⟨_, isAuthorize⟩, -⟩
        cases isAuthorize
      · rfl
    · split at recorded
      · cases recorded
      · cases recorded
        exact again rfl rfl

theorem sameIntent_self (effectId : Id128) (turnId : Id128) (intent : IntentSpec) :
    sameIntent ⟨effectId, intent.intentKey, intent.toolName, intent.toolVersion, intent.inputHash, intent.policy, .intent, 0,
      none, 0, turnId⟩ intent = true := by
  simp [sameIntent]

theorem commitIntent_retried (c : CommitIntent)
    (published : commitIntent ids root c = .ok (.publish whole effects reply)) (same : SameEntries next whole) :
    Retried root (.commitIntent c) reply (commitIntent ids next c) := by
  obtain ⟨turn, running, committed⟩ := ok_of_bind published
  have onTurn := requireRunning_ok running
  dsimp only at committed
  split at committed
  · split at committed
    · cases committed
      rw [commitIntent, requireRunning_blocked running same]
      apply Retried.refused
      · rintro ⟨⟨_, isAuthorize⟩, -⟩
        cases isAuthorize
      · rfl
    · cases committed
  · rename_i absent
    obtain ⟨⟨journal, added⟩, addedIntent, journaled⟩ := ok_of_bind committed
    rw [addIntent] at addedIntent
    dsimp only at addedIntent
    rw [absent] at addedIntent
    cases addedIntent
    cases journaled
    have sameIncarnation : next.incarnation = root.incarnation := same.incarnation
    have stillRunning := requireRunning_again running
      (same.owned ⟨⟨onTurn.alive, onTurn.current⟩, onTurn.epoch, onTurn.owner⟩) (same.activeTurn.trans onTurn.running)
    rw [commitIntent, stillRunning, ok_bind]
    dsimp only
    rw [sameIncarnation, same.effects, find?_append, absent, Option.none_or, find?_cons_of_pos (by simp)]
    dsimp only
    rw [sameIntent_self]
    exact .answered _ _ _ rfl rfl rfl

theorem find?_updateFirst (found : entries.find? test = some entry) {change : Entry → Entry}
    (passes : test (change entry)) : (updateFirst test change entries).find? test = some (change entry) := by
  induction entries with
  | nil => cases found
  | cons first rest ih =>
    rw [updateFirst]
    by_cases isFirst : test first
    · rw [find?_cons_of_pos isFirst, Option.some.injEq] at found
      subst found
      rw [if_pos isFirst, find?_cons_of_pos passes]
    · rw [find?_cons_of_neg isFirst] at found
      rw [if_neg isFirst, find?_cons_of_neg isFirst, ih found]

/-- The effect is found where it was changed. -/
theorem find?_updateEffect {effectId : Id128}
    (found : root.effects.find? (fun effect => decide (effect.effectId = effectId)) = some effect)
    (change : EffectRecord → EffectRecord) (kept : ∀ effect, (change effect).effectId = effect.effectId) :
    (updateEffect root effectId change).effects.find? (fun effect => decide (effect.effectId = effectId)) =
      some (change effect) := by
  apply find?_updateFirst found
  have passes := find?_some found
  rw [kept]
  exact passes

/-- A latched attempt is refused while the doubt stands, or because its input is being cancelled. -/
theorem latched_refused {fence : OwnerFence} (authority : c.authority = .owner fence) (owned : Owned root fence)
    (found : root.effects.find? (fun effect => decide (effect.effectId = c.effectId)) = some effect)
    (follows : ¬some c.attempt ≠ checkedSuccU32 effect.attempt)
    (checked : checkOwnedEffect ids root effect = .ok ())
    (same : SameEntries next (updateEffect root c.effectId fun effect => { effect with status := .inDoubt }))
    (reason : String) : Retried root (.authorizeAttempt c) (.blocked (fail ids root .effectInDoubt reason))
      (authorizeAttempt ids next c) := by
  obtain ⟨turn, running, ofTurn, -⟩ := checkOwnedEffect_ok checked
  have stillOwned : Owned next fence := same.owned ⟨⟨owned.alive, owned.current⟩, owned.epoch, owned.owner⟩
  have stillFound := find?_updateEffect found (fun effect => { effect with status := .inDoubt }) fun _ => rfl
  have stillRunning : next.activeTurn = some turn := same.activeTurn.trans running
  have sameIncarnation : next.incarnation = root.incarnation := same.incarnation
  have stillOfTurn : effectOfTurn ids next { effect with status := .inDoubt } turn = true := by
    rw [effectOfTurn, sameIncarnation]
    exact ofTurn
  have authorized : checkAuthority ids next c.authority = .ok true := by
    rw [authority, checkAuthority, checkOwner_owned stillOwned]
    rfl
  rw [authorizeAttempt, authorized, ok_bind]
  rw [same.effects, stillFound]
  dsimp only
  rw [if_neg (by simp), if_neg (by simp), if_neg follows, if_pos rfl, checkOwnedEffect, stillRunning, Option.filter_some,
    if_pos stillOfTurn]
  dsimp only
  by_cases requested : turn.cancellation = .requested
  · rw [if_pos ⟨requested, by simp⟩]
    apply Retried.cancelled
    · exact ⟨⟨c, rfl⟩, turn, running, requested⟩
    · rfl
  · rw [if_neg (by simp [requested])]
    apply Retried.refused
    · rintro ⟨-, other, otherRunning, isRequested⟩
      rw [running] at otherRunning
      cases otherRunning
      exact requested isRequested
    · rfl

/-- A granted attempt is granted again under the same authority. -/
theorem authorizeAttempt_granted {owner : Bool}
    (authorized : checkAuthority ids next c.authority = .ok owner)
    (found : next.effects.find? (fun effect => decide (effect.effectId = c.effectId)) = some effect)
    (granted : effect.status = .authorized ∧ effect.attempt = c.attempt) :
    authorizeAttempt ids next c = .ok (.unchanged (.attemptAuthorized c.effectId c.attempt)) := by
  rw [authorizeAttempt, authorized, ok_bind]
  rw [found]
  dsimp only
  rw [if_neg (by simp [granted.1]), if_pos ⟨granted.2.symm, granted.1⟩, granted.2]

theorem authorizeAttempt_retried
    (published : authorizeAttempt ids root c = .ok (.publish whole effects reply))
    (same : SameEntries next whole) :
    Retried root (.authorizeAttempt c) reply (authorizeAttempt ids next c) := by
  obtain ⟨owner, checked, authorized⟩ := ok_of_bind published
  split at authorized
  · cases authorized
  · rename_i effect found
    have stillFound := find?_updateEffect found
      (fun effect => { effect with status := .authorized, attempt := c.attempt }) fun _ => rfl
    split at authorized
    · cases authorized
    · split at authorized
      · cases authorized
      · obtain ⟨follows, authorized⟩ := ok_of_guard authorized
        cases authority : c.authority with
        | owner fence =>
          rw [authority] at checked
          obtain ⟨_, ownerChecked, granted⟩ := ok_of_bind checked
          cases granted
          have owned := checkOwner_ok ownerChecked
          obtain ⟨_, ofTurn, grant⟩ := ok_of_bind authorized
          rw [grantAttempt] at grant
          obtain ⟨-, grant⟩ := ok_of_guard grant
          split at grant
          · cases grant
            exact latched_refused c authority owned found follows ofTurn same _
          · cases grant
            have stillOwned : Owned next fence := same.owned ⟨⟨owned.alive, owned.current⟩, owned.epoch, owned.owner⟩
            have stillAuthorized : checkAuthority ids next c.authority = .ok true := by
              rw [authority, checkAuthority, checkOwner_owned stillOwned]
              rfl
            rw [authorizeAttempt_granted c stillAuthorized (by rw [same.effects]; exact stillFound) ⟨rfl, rfl⟩]
            exact .answered _ _ _ rfl rfl rfl
        | reconcile fence =>
          rw [authority] at checked
          obtain ⟨_, incarnationChecked, granted⟩ := ok_of_bind checked
          cases granted
          have addressed := checkIncarnation_ok incarnationChecked
          have grant : grantAttempt ids root c effect false = .ok (.publish whole effects reply) := authorized
          rw [grantAttempt] at grant
          simp only [Bool.false_eq_true, false_and, if_false] at grant
          cases grant
          have stillAddressed : Addressed next fence.incarnation := same.addressed ⟨addressed.alive, addressed.current⟩
          have stillAuthorized : checkAuthority ids next c.authority = .ok false := by
            rw [authority, checkAuthority, checkIncarnation_addressed stillAddressed]
            rfl
          rw [authorizeAttempt_granted c stillAuthorized (by rw [same.effects]; exact stillFound) ⟨rfl, rfl⟩]
          exact .answered _ _ _ rfl rfl rfl

theorem recordEffectResult_retried (c : RecordEffectResult)
    (published : recordEffectResult ids root c = .ok (.publish whole effects reply)) (same : SameEntries next whole) :
    Retried root (.recordEffectResult c) reply (recordEffectResult ids next c) := by
  obtain ⟨_, incarnationChecked, recorded⟩ := ok_of_bind published
  have addressed := checkIncarnation_ok incarnationChecked
  split at recorded
  · cases recorded
  · rename_i effect found
    have stillFound := find?_updateEffect found
      (fun effect => { effect with status := .completed, result := some c.result, resultAttempt := c.attempt })
      fun _ => rfl
    obtain ⟨attempted, recorded⟩ := ok_of_guard recorded
    split at recorded
    · split at recorded
      · cases recorded
      · split at recorded <;> cases recorded
    · split at recorded
      · cases recorded
      · cases recorded
        have effectsNow : next.effects.find? (fun effect => decide (effect.effectId = c.effectId)) =
            some { effect with status := .completed, result := some c.result, resultAttempt := c.attempt } := by
          rw [same.effects, ← stillFound]
          dsimp only
          split <;> rfl
        have stillAddressed : Addressed next c.fence.incarnation := by
          apply same.addressed
          split <;> exact ⟨addressed.alive, addressed.current⟩
        rw [recordEffectResult, checkIncarnation_addressed stillAddressed, ok_bind]
        rw [effectsNow]
        dsimp only
        rw [if_neg attempted, if_pos rfl, if_neg (not_not.mpr rfl)]
        show Retried _ _ _ (if some c.result.hash ≠ some c.result.hash then _ else _)
        rw [if_neg (not_not.mpr rfl)]
        exact .answered _ _ _ rfl rfl rfl

theorem transition_retried {command : Command} (repeatable : command.repeatable = true) (before : Tracked ids root)
    (tracked : Tracked ids next)
    (published : transition ids limits root now command = .ok (.publish whole effects reply))
    (same : SameEntries next whole) : Retried root command reply (transition ids limits next later command) := by
  cases command with
  | create c => exact create_retried c published same
  | enqueue c => exact enqueue_retried c tracked (enqueue_step c published) same
  | takeover c => cases repeatable
  | beginTurn c => exact beginTurn_retried c published same
  | completeTurn c => exact completeTurn_retried c tracked published same
  | failTurn c => exact failTurn_retried limits c before tracked published same
  | cancel c => exact cancel_retried c tracked published same
  | scheduleTimer c => cases repeatable
  | fireTimer c => exact fireTimer_retried c before tracked (fireTimer_step c published) same
  | cancelTimer c => exact @cancelTimer_retried ids limits root whole next now reply c before tracked (cancelTimer_step c published) same
  | tombstone c => exact @tombstone_retried ids limits root whole next now reply c (tombstone_step c published) same
  | recordStep c => exact recordStep_retried c published same
  | commitIntent c => exact commitIntent_retried c published same
  | authorizeAttempt c => exact authorizeAttempt_retried c published same
  | recordEffectResult c => exact recordEffectResult_retried c published same

end Commands

section Runs

variable {kernel : Kernel} {ids : CollisionFree} {root next : Head} {command : Command} {now later : Int64}

theorem draft_of_apply {digests : Digests} {published : Head} {effects : List Effect} {reply : Reply}
    (applied : kernel.apply digests (some root) command now = .ok (.publish published effects reply)) :
    ∃ whole, transition digests kernel.limits root now command = .ok (.publish whole effects reply) ∧
      SameEntries (settled digests published) whole := by
  rw [apply_eq] at applied
  obtain ⟨_, _, pagesChecked⟩ := ok_of_bind applied
  obtain ⟨_, _, settledCommand⟩ := ok_of_bind pagesChecked
  obtain ⟨drafted, isDrafted, finished⟩ := ok_of_bind settledCommand
  obtain ⟨outcome, isPublished, guarded⟩ := ok_of_bind finished
  cases drafted with
  | unchanged answered =>
    cases isPublished
    cases guarded
  | publish whole draftEffects draftReply =>
    rw [publish_eq] at isPublished
    obtain ⟨revision, _, revised⟩ := ok_of_bind isPublished
    obtain ⟨index, quota, -, rfl, -⟩ := publishRevised_ok revised
    obtain ⟨same, -⟩ := checkGrowthHeadroom_ok guarded
    cases same
    have sameEntries := settled_same digests { whole with rootRevision := revision } index quota
    exact ⟨whole, isDrafted, sameEntries.inbox, sameEntries.receipts, sameEntries.results, sameEntries.events,
      sameEntries.timers, rfl⟩

/-- The bounds of a command depend on the root only in the text of a refusal. -/
theorem checkStrings_again {digests : Digests} {limits : Limits} (passed : checkStrings digests limits root command = .ok ()) :
    checkStrings digests limits next command = .ok () := by
  unfold checkStrings at passed ⊢
  obtain ⟨short, passed⟩ := ok_of_guard passed
  rw [if_neg short]
  obtain ⟨owner, passed⟩ := ok_of_guard passed
  rw [if_neg owner]
  obtain ⟨version, passed⟩ := ok_of_guard passed
  rw [if_neg version]
  split at passed
  · obtain ⟨events, passed⟩ := ok_of_guard passed
    obtain ⟨intents, passed⟩ := ok_of_guard passed
    rw [if_neg events, if_neg intents]
  · obtain ⟨text, passed⟩ := ok_of_guard passed
    rw [if_neg text]
  · rfl

theorem unpublished_of_retried {reply : Reply} {outcome : Except AgentError Transition}
    (retried : Retried root command reply outcome) : isPublish outcome = false := by
  cases retried <;> rfl

/-- A repeatable command on the root that its publish left, with every page in memory. -/
theorem apply_retried {held : Head} {effects : List Effect} {reply : Reply} (repeatable : command.repeatable = true)
    (inv : RootInv ids kernel.limits root)
    (advance : Advance kernel ids root command now (.ok (.publish held effects reply)) next) :
    Retried root command reply (kernel.apply ids (some next) command later) := by
  have nextInv := rootInv_advance inv advance
  have passed := strings_of_advance advance
  cases advance with
  | published held full whole index effects reply applied publication =>
    obtain ⟨drafted, isDrafted, same⟩ := draft_of_apply applied
    have retried := @transition_retried ids kernel.limits root drafted _ now later effects reply command repeatable inv.tracked
      nextInv.tracked isDrafted same
    rw [apply_unpublished nextInv (checkStrings_again passed) rfl (unpublished_of_retried retried)]
    exact retried

/-- A repeatable command on the HEAD that its publish left, with the pages it reads in memory. -/
theorem retried_of_applied (history : History kernel ids) {application : Applied}
    (member : application ∈ history.applied) (repeatable : application.command.repeatable = true) {head : Head}
    {effects : List Effect} {reply : Reply} (published : application.outcome = .ok (.publish head effects reply)) {lists : Lists}
    (loads : Loads ids application.after lists)
    (named : pagesNeeded ids (some (application.after.holding lists)) application.command = []) :
    Retried application.before application.command reply
      (kernel.apply ids (some (application.after.holding lists)) application.command later) := by
  obtain ⟨earlier, onward, cut⟩ := append_of_mem member
  obtain ⟨beforeRun, advance, -⟩ := run_at history.run cut
  have inv := rootInv_run beforeRun
  have afterInv := rootInv_advance inv advance
  rw [published] at advance
  have retried := @apply_retried kernel ids _ _ _ _ later _ _ _ repeatable inv advance
  have sameOutcome := @apply_read ids _ _ later application.command kernel afterInv loads (pagesRead_of_named named)
  generalize kernel.apply ids (some application.after) application.command later = outcome at retried sameOutcome
  cases outcome with
  | error error =>
    rw [sameOutcome.refused]
    exact retried
  | ok transition =>
    cases transition with
    | unchanged answer =>
      rw [sameOutcome.answered]
      exact retried
    | publish head effects reply => cases unpublished_of_retried retried

/-- The creation of an absent agent is answered with the incarnation it created. -/
theorem created_retried {c : Create} {published : Head} {effects : List Effect} {reply : Reply}
    (created : kernel.apply ids none (.create c) now = .ok (.publish published effects reply)) (lists : Lists) :
    ∃ answer, kernel.apply ids (some ((settled ids published).holding lists)) (.create c) later =
      .ok (.unchanged answer) ∧ answer.named = reply.named := by
  have fresh : ¬(published.tenant ≠ c.tenant ∨ published.kind ≠ c.kind ∨ published.key ≠ c.key) ∧
      published.lifecycle = .active ∧ published.incarnation = 1 ∧ reply = .created 1 := by
    have isPublished : publish ids kernel.limits none (createNew c) = .ok (.publish published effects reply) := created
    rw [createNew, publish_eq] at isPublished
    obtain ⟨revision, -, revised⟩ := ok_of_bind isPublished
    rw [publishRevised_fresh ⟨rfl, rfl, rfl, rfl, rfl, rfl⟩] at revised
    obtain ⟨same, -⟩ := cappedPublish_ok revised
    cases same
    simp
  obtain ⟨sameNames, alive, first, rfl⟩ := fresh
  have answered : transition ids kernel.limits ((settled ids published).holding lists) later (.create c) =
      .ok (.unchanged (.exists published.incarnation)) := by
    show (if published.tenant ≠ c.tenant ∨ published.kind ≠ c.kind ∨ published.key ≠ c.key then _ else
      if published.lifecycle = .active then _ else _) = _
    rw [if_neg sameNames, if_pos alive]
    rfl
  refine ⟨.exists published.incarnation, ?_, by rw [first]; rfl⟩
  rw [apply_eq, settleCommand, answered]
  rfl

end Runs

/-- A published command that is sent again publishes nothing. Its answer names what the first reply named, or it is refused with
the kind of error that blocked it. A delivered timer is stale, and an attempt that was latched while its turn was being cancelled
is refused for the cancellation. -/
theorem retry_absorbed (kernel : Kernel) (ids : CollisionFree) (history : History kernel ids.toDigests) :
    (∀ c now published effects reply, kernel.apply ids.toDigests none (.create c) now = .ok (.publish published effects reply) →
      ∀ lists, Loads ids.toDigests (settled ids.toDigests published) lists → ∀ later, ∃ answer,
        kernel.apply ids.toDigests (some ((settled ids.toDigests published).holding lists)) (.create c) later =
          .ok (.unchanged answer) ∧ answer.named = reply.named) ∧
    ∀ application ∈ history.applied, application.command.repeatable = true → ∀ head effects reply,
      application.outcome = .ok (.publish head effects reply) → ∀ lists, Loads ids.toDigests application.after lists →
        pagesNeeded ids.toDigests (some (application.after.holding lists)) application.command = [] → ∀ later,
          (reply.isBlocked = false → ∃ answer,
            kernel.apply ids.toDigests (some (application.after.holding lists)) application.command later =
              .ok (.unchanged answer) ∧
            (application.command.firesTimer = false → answer.named = reply.named) ∧
            (application.command.firesTimer = true → answer = .timerStale)) ∧
          (∀ error, reply = .blocked error → ∃ again,
            kernel.apply ids.toDigests (some (application.after.holding lists)) application.command later = .error again ∧
            (¬AuthorizesCancelled application.before application.command → again.kind = error.kind) ∧
            (AuthorizesCancelled application.before application.command → again.kind = .ownershipLost)) := by
  refine ⟨fun c now published effects reply created lists _ later => created_retried created lists, ?_⟩
  intro application member repeatable head effects reply published lists loads named later
  have retried := @retried_of_applied kernel ids later history application member repeatable head effects reply published lists
    loads named
  generalize kernel.apply ids (some (application.after.holding lists)) application.command later = outcome at retried
  generalize application.command = command at retried ⊢
  cases retried with
  | answered command reply answer unblocked other same =>
    refine ⟨fun _ => ⟨answer, rfl, fun _ => same, ?_⟩, ?_⟩
    · intro fires
      rw [other] at fires
      cases fires
    · rintro error rfl
      cases unblocked
  | delivered c acceptSeq =>
    refine ⟨fun _ => ⟨.timerStale, rfl, ?_, fun _ => rfl⟩, ?_⟩
    · intro other
      cases other
    · intro error isBlocked
      cases isBlocked
  | refused command error again other sameKind =>
    refine ⟨fun unblocked => (by cases unblocked), ?_⟩
    intro first isFirst
    cases isFirst
    exact ⟨again, rfl, fun _ => sameKind, fun isCancelled => absurd isCancelled other⟩
  | cancelled command error again isCancelled lost =>
    refine ⟨fun unblocked => (by cases unblocked), ?_⟩
    intro first isFirst
    cases isFirst
    exact ⟨again, rfl, fun other => absurd isCancelled other, fun _ => lost⟩

/-- The kind of a refusal. -/
def refusalKind? : Except AgentError Transition → Option ErrorKind
  | .error error => some error.kind
  | .ok _ => none

theorem unnamed_application (commands : List (Command × Int64))
    (position : Fin (replay roomyKernel pairedIds.toDigests unnamedRoot commands).1.length) :
    ∃ history : History roomyKernel pairedIds.toDigests,
      (replay roomyKernel pairedIds.toDigests unnamedRoot commands).1.get position ∈ history.applied := by
  obtain ⟨history, applied, -⟩ := unnamed_history commands
  refine ⟨history, ?_⟩
  rw [applied]
  exact get_mem _ _

/-- A message is accepted. -/
def oneMessage : List (Command × Int64) :=
  [(.enqueue ⟨⟨1⟩, "", "", 0, none⟩, 0)]

theorem message_retry_absorbed :
    ∃ (history : History roomyKernel pairedIds.toDigests) (application : Applied), application ∈ history.applied ∧
      reply? application.outcome = some (.accepted 1 false) ∧
      ∃ answer, roomyKernel.apply pairedIds.toDigests (some (application.after.holding application.after.lists))
        application.command 5 = .ok (.unchanged answer) ∧ answer.named = { acceptSeq := some 1 } := by
  obtain ⟨history, member⟩ := unnamed_application oneMessage ⟨0, by decide +kernel⟩
  obtain ⟨earlier, onward, cut⟩ := append_of_mem member
  obtain ⟨before, advance, -⟩ := run_at history.run cut
  have loads := loads_root (rootInv_advance (rootInv_run before) advance)
  obtain ⟨head, effects, published⟩ := @publish_of_reply ((replay roomyKernel pairedIds.toDigests unnamedRoot oneMessage).1.get
    ⟨0, by decide +kernel⟩).outcome (.accepted 1 false) (by decide +kernel) (by decide +kernel)
  obtain ⟨answer, answered, same, -⟩ := ((retry_absorbed roomyKernel pairedIds history).2 _ member rfl head effects
    (.accepted 1 false) published _ loads (by decide +kernel) 5).1 rfl
  exact ⟨history, _, member, by decide +kernel, answer, answered, same rfl⟩

/-- A timer is scheduled and fires. -/
def firedTimer : List (Command × Int64) :=
  [(.scheduleTimer ⟨⟨1⟩, ⟨"", 0, "", none⟩⟩, 0), (.fireTimer ⟨⟨1⟩, pairedIds.timerId 1 "", 1⟩, 0)]

/-- A manual effect has an attempt, its turn is cancelled, and the next attempt is latched. -/
def latchedAfterCancel : List (Command × Int64) :=
  let owner : OwnerFence := ⟨1, "", 1⟩
  [(.enqueue ⟨⟨1⟩, "", "", 0, none⟩, 0),
    (.takeover ⟨1, "", 0, 0⟩, 0),
    (.beginTurn ⟨owner, [⟨"", "", 0⟩]⟩, 0),
    (.commitIntent ⟨⟨owner, pairedIds.turnId 1 1 1 0, 0, "", 0⟩, ⟨"", "", "", 0, .manual, none⟩⟩, 0),
    (.authorizeAttempt ⟨.owner owner, pairedIds.effectId 1 1 "", 1⟩, 0),
    (.cancel ⟨⟨1⟩, 1⟩, 0),
    (.authorizeAttempt ⟨.owner owner, pairedIds.effectId 1 1 "", 2⟩, 0)]

/-- The answer to a delivered timer names no input, and a latched attempt of a cancelled turn is refused with another kind. -/
theorem fired_timer_unnamed :
    (¬∀ history : History roomyKernel pairedIds.toDigests, ∀ application ∈ history.applied,
      application.command.repeatable = true → ∀ head effects reply, application.outcome = .ok (.publish head effects reply) →
        reply.isBlocked = false → ∀ later, ∃ answer,
          roomyKernel.apply pairedIds.toDigests (some application.after) application.command later = .ok (.unchanged answer) ∧
            answer.named = reply.named) ∧
    ¬∀ history : History roomyKernel pairedIds.toDigests, ∀ application ∈ history.applied,
      application.command.repeatable = true → ∀ head effects error,
        application.outcome = .ok (.publish head effects (.blocked error)) → ∀ later, ∃ again,
          roomyKernel.apply pairedIds.toDigests (some application.after) application.command later = .error again ∧
            again.kind = error.kind := by
  refine ⟨?_, ?_⟩
  · intro absorbs
    obtain ⟨history, member⟩ := unnamed_application firedTimer ⟨1, by decide +kernel⟩
    obtain ⟨head, effects, published⟩ := @publish_of_reply ((replay roomyKernel pairedIds.toDigests unnamedRoot
      firedTimer).1.get ⟨1, by decide +kernel⟩).outcome (.timerFired 1) (by decide +kernel) (by decide +kernel)
    obtain ⟨answer, answered, named⟩ := absorbs history _ member (by decide +kernel) head effects _ published rfl 0
    have stale : reply? (roomyKernel.apply pairedIds.toDigests (some ((replay roomyKernel pairedIds.toDigests unnamedRoot
        firedTimer).1.get ⟨1, by decide +kernel⟩).after) (.fireTimer ⟨⟨1⟩, pairedIds.timerId 1 "", 1⟩) 0) =
          some .timerStale := by decide +kernel
    have replied := (congrArg reply? answered).symm.trans stale
    cases replied
    cases named
  · intro absorbs
    obtain ⟨history, member⟩ := unnamed_application latchedAfterCancel ⟨6, by decide +kernel⟩
    obtain ⟨head, effects, published⟩ := @publish_of_reply ((replay roomyKernel pairedIds.toDigests unnamedRoot
      latchedAfterCancel).1.get ⟨6, by decide +kernel⟩).outcome
      (.blocked (fail pairedIds.toDigests unnamedRoot .effectInDoubt "a manual effect's attempt is ambiguous"))
      (by decide +kernel) (by decide +kernel)
    obtain ⟨again, refused, sameKind⟩ := absorbs history _ member (by decide +kernel) head effects _ published 0
    have lost : refusalKind? (roomyKernel.apply pairedIds.toDigests (some ((replay roomyKernel pairedIds.toDigests unnamedRoot
        latchedAfterCancel).1.get ⟨6, by decide +kernel⟩).after)
          (.authorizeAttempt ⟨.owner ⟨1, "", 1⟩, pairedIds.effectId 1 1 "", 2⟩) 0) = some .ownershipLost := by decide +kernel
    have kinds := (congrArg refusalKind? refused).symm.trans lost
    rw [refusalKind?, sameKind] at kinds
    cases kinds

end Ravel.Agents
