import Ravel.Proof.Agents.EffectJournal

namespace Ravel.Agents

open List Library

section Answers

/-- The outcome is not the given answer without a publish. -/
def NeverAnswers (reply : Reply) (outcome : Except AgentError Transition) : Prop :=
  outcome ≠ .ok (.unchanged reply)

variable {digests : Digests} {limits : Limits} {root : Head} {now : Int64} {command : Command} {reply : Reply}

theorem neverAnswers_bind {Value : Type} {check : Except AgentError Value} {next : Value → Except AgentError Transition}
    (never : ∀ value, NeverAnswers reply (next value)) : NeverAnswers reply (check >>= next) := by
  intro answered
  obtain ⟨value, -, answers⟩ := ok_of_bind answered
  exact never value answers

theorem neverAnswers_error (error : AgentError) : NeverAnswers reply (.error error) := by
  rintro ⟨⟩

theorem neverAnswers_publish (head : Head) (effects : List Effect) (published : Reply) :
    NeverAnswers reply (.ok (.publish head effects published)) := by
  rintro ⟨⟩

theorem neverAnswers_other {other : Reply} (different : other ≠ reply) : NeverAnswers reply (.ok (.unchanged other)) := by
  intro answered
  cases answered
  exact different rfl

/-- Only a cancel is answered as requested or done without a publish. -/
theorem neverAnswers_cancel {acceptSeq : Nat} (isCancel : reply = .cancelRequested acceptSeq ∨ reply = .cancelled acceptSeq)
    (other : ∀ c, command ≠ .cancel c) : NeverAnswers reply (transition digests limits root now command) := by
  have different : ∀ {answer : Reply}, answer ≠ .cancelRequested acceptSeq → answer ≠ .cancelled acceptSeq →
      NeverAnswers reply (.ok (.unchanged answer)) := by
    intro answer notRequested notCancelled
    apply neverAnswers_other
    rcases isCancel with rfl | rfl
    · exact notRequested
    · exact notCancelled
  cases command with
  | cancel c => exact absurd rfl (other c)
  | _ =>
    simp only [transition, create, enqueue, takeover, beginTurn, completeTurn, failTurn, scheduleTimer, fireTimer, cancelTimer,
      tombstone, recordStep, commitIntent, authorizeAttempt, recordEffectResult, completeCommitted, failCancelled, failOpen,
      grantAttempt, blockTurn, completeCancelled]
    repeat' first
      | apply neverAnswers_error
      | apply neverAnswers_publish
      | (apply different <;> rintro ⟨⟩)
      | (apply neverAnswers_bind; intro _)
      | split

/-- A cancel is answered without a publish only while its request is on the active turn. -/
theorem cancel_answered {acceptSeq : Nat} (isCancel : reply = .cancelRequested acceptSeq ∨ reply = .cancelled acceptSeq)
    (answered : transition digests limits root now command = .ok (.unchanged reply)) :
    ∃ turn, root.activeTurn = some turn ∧ turn.inputAcceptSeq = acceptSeq ∧ turn.cancellation = .requested := by
  by_cases other : ∀ c, command ≠ .cancel c
  · exact absurd answered (neverAnswers_cancel isCancel other)
  · obtain ⟨c, same⟩ := not_forall.mp other
    obtain rfl := not_not.mp same
    obtain ⟨_, _, cancelled⟩ := ok_of_bind answered
    split at cancelled
    · cases cancelled
      rcases isCancel with ⟨⟨⟩⟩ | ⟨⟨⟩⟩
    · split at cancelled
      · rename_i turn active
        obtain ⟨running, sameInput⟩ := Option.filter_eq_some_iff.mp active
        split at cancelled
        · rename_i requested
          cases cancelled
          rcases isCancel with ⟨⟨⟩⟩ | ⟨⟨⟩⟩
          exact ⟨turn, running, of_decide_eq_true sameInput, requested⟩
        · cases cancelled
      · obtain ⟨-, cancelled⟩ := ok_of_guard cancelled
        obtain ⟨_, _, settled⟩ := ok_of_bind cancelled
        cases settled

end Answers

section Kept

/-- The cancel of an input stands: its request is on the active turn, or the input ended as cancelled. -/
def CancelStands (acceptSeq : Nat) (root : Head) : Prop :=
  (∃ turn, root.activeTurn = some turn ∧ turn.inputAcceptSeq = acceptSeq ∧ turn.cancellation = .requested) ∨
    ∃ result ∈ root.results, result.acceptSeq = acceptSeq ∧ result.status = .cancelled

variable {digests : Digests} {limits : Limits} {root whole : Head} {now : Int64} {command : Command} {reply : Reply}
  {acceptSeq : Nat}

theorem cancelStands_of_same {next : Head} (same : SameEntries next whole) (stands : CancelStands acceptSeq whole) :
    CancelStands acceptSeq next := by
  rcases stands with active | ⟨result, member, named, isCancelled⟩
  · have sameTurn : next.activeTurn = whole.activeTurn := by rw [same.fields]
    left
    rw [sameTurn]
    exact active
  · exact .inr ⟨result, same.results.mem_iff.mpr member, named, isCancelled⟩

theorem settledHead_cancelled (turn : Option ActiveTurn) (turnId : Option Id128) :
    CancelStands acceptSeq (settledHead digests root turn acceptSeq (cancelledResult acceptSeq turnId now)) := by
  refine .inr ⟨cancelledResult acceptSeq turnId now, ?_, rfl, rfl⟩
  show _ ∈ root.results ++ [_]
  exact mem_append_right _ mem_cons_self

/-- The request on the active turn stays until its input ends as cancelled. -/
theorem requested_step {turn : ActiveTurn} (active : root.activeTurn = some turn) (named : turn.inputAcceptSeq = acceptSeq)
    (requested : turn.cancellation = .requested) (step : Step digests limits root now command whole reply)
    (same : whole.incarnation = root.incarnation) : CancelStands acceptSeq whole := by
  have isOpen : ∀ {other : ActiveTurn}, root.activeTurn = some other → other.cancellation ≠ .none := by
    intro other otherActive unrequested
    rw [active] at otherActive
    cases otherActive
    rw [requested] at unrequested
    cases unrequested
  have stays : CancelStands acceptSeq root := .inl ⟨turn, active, named, requested⟩
  cases step with
  | recreate c incarnation gone next =>
    have later : incarnation = root.incarnation := same
    have := checkedSuccU64_some next
    omega
  | start c next pin owned idle first =>
    rw [active] at idle
    cases idle
  | block command fence other error fenced onTurn =>
    left
    refine ⟨{ turn with block := .nonDeterministicReplay }, ?_, named, requested⟩
    rw [blockedHead, active]
    rfl
  | completeCancelled c other onTurn isRequested waiting =>
    have sameTurn := onTurn.running
    rw [active] at sameTurn
    cases sameTurn
    rw [named]
    exact settledHead_cancelled none _
  | complete c other journaled onTurn open' waiting journal => exact absurd open' (isOpen onTurn.running)
  | failCancelled c other onTurn isRequested waiting =>
    have sameTurn := onTurn.running
    rw [active] at sameTurn
    cases sameTurn
    rw [named]
    exact settledHead_cancelled none _
  | failRetry c other failedAttempts onTurn open' waiting resolved => exact absurd open' (isOpen onTurn.running)
  | failTerminal c other onTurn open' waiting => exact absurd open' (isOpen onTurn.running)
  | requestCancel c other addressed running sameInput =>
    left
    refine ⟨{ turn with cancellation := .requested }, ?_, named, rfl⟩
    show root.activeTurn.map _ = _
    rw [active]
    rfl
  | recordResult c effect addressed found pending attempted =>
    split
    · exact stays
    · exact stays
  | _ => exact .inl ⟨turn, active, named, requested⟩

theorem cancelStands_step (inv : RootInv digests limits root) (step : Step digests limits root now command whole reply)
    (same : whole.incarnation = root.incarnation) (stands : CancelStands acceptSeq root) : CancelStands acceptSeq whole := by
  rcases stands with ⟨turn, active, named, requested⟩ | ⟨result, member, named, isCancelled⟩
  · exact requested_step active named requested step same
  · obtain ⟨added, results⟩ := step_results inv.tracked inv.paged.inOrder step same
    refine .inr ⟨result, ?_, named, isCancelled⟩
    rw [results]
    exact mem_append_left _ member

theorem cancelStands_answered (step : Step digests limits root now command whole reply)
    (answers : reply = .cancelRequested acceptSeq ∨ reply = .cancelled acceptSeq) :
    whole.incarnation = root.incarnation ∧ CancelStands acceptSeq whole := by
  cases step with
  | failCancelled c turn onTurn requested waiting =>
    rcases answers with ⟨⟨⟩⟩ | ⟨⟨⟩⟩
    exact ⟨rfl, settledHead_cancelled none _⟩
  | requestCancel c turn addressed running sameInput =>
    rcases answers with ⟨⟨⟩⟩ | ⟨⟨⟩⟩
    refine ⟨rfl, .inl ⟨{ turn with cancellation := .requested }, ?_, sameInput, rfl⟩⟩
    show root.activeTurn.map _ = _
    rw [running]
    rfl
  | cancelWaiting c addressed elsewhere waiting =>
    rcases answers with ⟨⟨⟩⟩ | ⟨⟨⟩⟩
    exact ⟨rfl, settledHead_cancelled root.activeTurn _⟩
  | _ => rcases answers with ⟨⟨⟩⟩ | ⟨⟨⟩⟩

theorem requested_of_stands (tracked : Tracked digests root) (stands : CancelStands acceptSeq root) {turn : ActiveTurn}
    (active : root.activeTurn = some turn) (named : turn.inputAcceptSeq = acceptSeq) : turn.cancellation = .requested := by
  rcases stands with ⟨other, otherActive, -, requested⟩ | ⟨result, member, sameInput, -⟩
  · rw [active] at otherActive
    cases otherActive
    exact requested
  · have waiting := (tracked.running turn active).waiting
    rw [named, ← sameInput] at waiting
    exact absurd (mem_map_of_mem member) (tracked.waiting_no_result waiting)

theorem cancelled_of_stands (tracked : Tracked digests root) (stands : CancelStands acceptSeq root) {result : ResultEntry}
    (member : result ∈ root.results) (named : result.acceptSeq = acceptSeq) : result.status = .cancelled := by
  rcases stands with ⟨turn, active, sameInput, -⟩ | ⟨other, otherIn, otherNamed, isCancelled⟩
  · have waiting := (tracked.running turn active).waiting
    rw [sameInput, ← named] at waiting
    exact absurd (mem_map_of_mem member) (tracked.waiting_no_result waiting)
  · rw [inj_on_of_nodup_map tracked.results_distinct member otherIn (named.trans otherNamed.symm)]
    exact isCancelled

end Kept

section Turns

/-- The publish leaves the state, the events, the timers and the outbox. It can only add intents to the journal. -/
structure CommitsNothing (before after : Head) : Prop where
  state : after.state = before.state
  stateVersion : after.stateVersion = before.stateVersion
  events : after.events.Perm before.events
  timers : after.timers.Perm before.timers
  timerGeneration : after.timerGeneration = before.timerGeneration
  outbox : after.outbox = before.outbox
  journal : ∃ added, after.effects = before.effects ++ added ∧
    ∀ effect ∈ added, effect.status = .intent ∧ effect.attempt = 0

theorem CommitsNothing.of_same {before whole next : Head} (nothing : CommitsNothing before whole)
    (same : SameEntries next whole) : CommitsNothing before next where
  state := by rw [same.fields]; exact nothing.state
  stateVersion := by rw [same.fields]; exact nothing.stateVersion
  events := same.events.trans nothing.events
  timers := same.timers.trans nothing.timers
  timerGeneration := by rw [same.fields]; exact nothing.timerGeneration
  outbox := by rw [same.fields]; exact nothing.outbox
  journal := by rw [same.fields]; exact nothing.journal

variable {ids : CollisionFree} {limits : Limits} {root whole : Head} {now : Int64} {command : Command} {reply : Reply}
  {acceptSeq : Nat}

theorem turn_commits_nothing (tracked : Tracked ids root) (stands : CancelStands acceptSeq root)
    (step : Step ids limits root now command whole reply) {fence : TurnFence}
    (fenced : command.turnFence? = some fence) (onInput : TurnOf ids root.incarnation acceptSeq fence.turnId) :
    CommitsNothing root whole := by
  have kept : ∀ {head : Head}, head.state = root.state → head.stateVersion = root.stateVersion → head.events = root.events →
      head.timers = root.timers → head.timerGeneration = root.timerGeneration → head.outbox = root.outbox →
      JournalGrowth ids root.incarnation root.effects head.effects → CommitsNothing root head := by
    intro head state version events timers generation outbox ⟨added, effects, fresh, _⟩
    exact ⟨state, version, events ▸ Perm.refl _, timers ▸ Perm.refl _, generation, outbox, added, effects,
      fun effect member => ⟨(fresh effect member).status, (fresh effect member).attempt⟩⟩
  have unchanged := journalGrowth_refl ids root.incarnation root.effects
  cases step with
  | complete c turn journaled onTurn open' waiting journal =>
    cases fenced
    obtain ⟨epoch, failed, derived⟩ := (tracked.running turn onTurn.running).derived
    obtain ⟨otherEpoch, otherFailed, otherDerived⟩ := onInput
    rw [onTurn.turnId, otherDerived] at derived
    have named := (ids.turnId_injective derived).2.1
    have requested := requested_of_stands tracked stands onTurn.running named.symm
    rw [open'] at requested
    cases requested
  | block command otherFence turn error otherFenced onTurn => exact kept rfl rfl rfl rfl rfl rfl unchanged
  | completeCancelled c turn onTurn requested waiting => exact kept rfl rfl rfl rfl rfl rfl unchanged
  | failCancelled c turn onTurn requested waiting => exact kept rfl rfl rfl rfl rfl rfl unchanged
  | failRetry c turn failedAttempts onTurn open' waiting resolved => exact kept rfl rfl rfl rfl rfl rfl unchanged
  | failTerminal c turn onTurn open' waiting => exact kept rfl rfl rfl rfl rfl rfl unchanged
  | recordStep c turn record onTurn => exact kept rfl rfl rfl rfl rfl rfl unchanged
  | commitIntent c turn effects added onTurn journal =>
    exact kept rfl rfl rfl rfl rfl rfl (journalGrowth_added unchanged journal)
  | _ => cases fenced

theorem owner_grants_nothing (tracked : Tracked ids root) (stands : CancelStands acceptSeq root) {effectId : Id128}
    {attempt : Nat} (step : Step ids limits root now command whole (.attemptAuthorized effectId attempt))
    (owner : command.ownerFence?.isSome) (key : String) : effectId ≠ ids.effectId root.incarnation acceptSeq key := by
  intro ofInput
  cases step with
  | grantOwner c fence effect turn authority owned found pending known unambiguous follows running ofTurn open' =>
    have passes := find?_some found
    have named : effect.effectId = c.effectId := of_decide_eq_true passes
    have derived : ids.effectId root.incarnation turn.inputAcceptSeq effect.stepKey = effect.effectId :=
      of_decide_eq_true ofTurn
    rw [named, ofInput] at derived
    have sameInput := (ids.effectId_injective derived).2.1
    have requested := requested_of_stands tracked stands running sameInput
    rw [open'] at requested
    cases requested
  | grantReconcile c fence effect authority addressed found pending follows =>
    simp [Command.ownerFence?, authority] at owner

end Turns

section Runs

/-- The application answers that the cancel of an input is requested or done, with or without a publish. -/
def Applied.answersCancel (application : Applied) (acceptSeq : Nat) : Prop :=
  reply? application.outcome = some (.cancelRequested acceptSeq) ∨ reply? application.outcome = some (.cancelled acceptSeq)

variable {kernel : Kernel} {ids : CollisionFree} {root next : Head} {command : Command} {now : Int64}
  {outcome : Except AgentError Transition} {acceptSeq : Nat}

theorem transition_of_answer {digests : Digests} {reply : Reply}
    (answered : kernel.apply digests (some root) command now = .ok (.unchanged reply)) :
    transition digests kernel.limits root now command = .ok (.unchanged reply) := by
  rw [apply_eq] at answered
  obtain ⟨_, _, pagesChecked⟩ := ok_of_bind answered
  obtain ⟨_, _, command⟩ := ok_of_bind pagesChecked
  obtain ⟨drafted, isDrafted, finished⟩ := ok_of_bind command
  obtain ⟨outcome, isPublished, guarded⟩ := ok_of_bind finished
  cases drafted with
  | unchanged answer =>
    cases isPublished
    cases guarded
    exact isDrafted
  | publish whole effects answer =>
    rw [publish_eq] at isPublished
    obtain ⟨revision, _, revised⟩ := ok_of_bind isPublished
    obtain ⟨index, quota, -, rfl, -⟩ := publishRevised_ok revised
    obtain ⟨same, -⟩ := checkGrowthHeadroom_ok guarded
    cases same

theorem cancelStands_advance {application : Applied}
    (advance : Advance kernel ids application.before application.command application.now application.outcome
      application.after) (answers : application.answersCancel acceptSeq) : CancelStands acceptSeq application.after := by
  obtain ⟨reply, isCancel, replied⟩ : ∃ reply, (reply = .cancelRequested acceptSeq ∨ reply = .cancelled acceptSeq) ∧
      reply? application.outcome = some reply := by
    rcases answers with requested | isCancelled
    · exact ⟨_, .inl rfl, requested⟩
    · exact ⟨_, .inr rfl, isCancelled⟩
  rcases reply_cases replied with ⟨head, effects, published⟩ | answered
  · rw [published] at advance
    obtain ⟨whole, step, same⟩ := advance_publish advance
    exact cancelStands_of_same same (cancelStands_answered step isCancel).2
  · rw [answered] at advance
    generalize application.after = next at advance
    cases advance with
    | answered reply whole => exact .inl (cancel_answered isCancel (transition_of_answer whole))

/-- The cancel of an input stands for the rest of its incarnation. -/
def StandsWithin (incarnation acceptSeq : Nat) (root : Head) : Prop :=
  incarnation ≤ root.incarnation ∧ (root.incarnation = incarnation → CancelStands acceptSeq root)

theorem standsWithin_advance {incarnation : Nat} (inv : RootInv ids kernel.limits root)
    (advance : Advance kernel ids root command now outcome next) (stands : StandsWithin incarnation acceptSeq root) :
    StandsWithin incarnation acceptSeq next := by
  have later := advance_incarnation_le advance
  refine ⟨Nat.le_trans stands.1 later, ?_⟩
  intro isCurrent
  have wasCurrent : root.incarnation = incarnation := Nat.le_antisymm (by omega) stands.1
  rcases advance_cases advance with rfl | ⟨_, _, reply, whole, -, step, same⟩
  · exact stands.2 isCurrent
  · have sameIncarnation : next.incarnation = whole.incarnation := by rw [same.fields]
    apply cancelStands_of_same same
    apply cancelStands_step inv step _ (stands.2 wasCurrent)
    rw [← sameIncarnation, isCurrent, wasCurrent]

variable {history : History kernel ids} {earlier later : List Applied} {first application : Applied}

theorem cancel_stands_after (cut : history.applied = earlier ++ first :: later) (answers : first.answersCancel acceptSeq) :
    RootInv ids kernel.limits first.after ∧ CancelStands acceptSeq first.after ∧ ∀ application ∈ later,
      RootInv ids kernel.limits application.before ∧
        Advance kernel ids application.before application.command application.now application.outcome
          application.after ∧
        StandsWithin first.after.incarnation acceptSeq application.before ∧
        StandsWithin first.after.incarnation acceptSeq application.after := by
  obtain ⟨beforeRun, advance, onward⟩ := run_at history.run cut
  have stands := cancelStands_advance advance answers
  refine ⟨rootInv_advance (rootInv_run beforeRun) advance, stands, ?_⟩
  exact (onward_keeps (StandsWithin first.after.incarnation acceptSeq)
    (fun _ _ _ _ _ inv advance stands => standsWithin_advance inv advance stands) onward
    ⟨Nat.le_refl _, fun _ => stands⟩).2

theorem stands_before (inLater : application ∈ later) (cut : history.applied = earlier ++ first :: later)
    (answers : first.answersCancel acceptSeq) (same : application.after.incarnation = first.after.incarnation) :
    RootInv ids kernel.limits application.before ∧
      Advance kernel ids application.before application.command application.now application.outcome
        application.after ∧
      CancelStands acceptSeq application.before ∧ application.before.incarnation = first.after.incarnation := by
  obtain ⟨-, -, after⟩ := cancel_stands_after cut answers
  obtain ⟨inv, advance, before, -⟩ := after application inLater
  have notBehind := advance_incarnation_le advance
  have isCurrent : application.before.incarnation = first.after.incarnation := Nat.le_antisymm (by omega) before.1
  exact ⟨inv, advance, before.2 isCurrent, isCurrent⟩

end Runs

/-- Once a cancel is answered as requested or done, within the incarnation its input has no result but a cancelled one, a turn
on it commits nothing, and no owner authorizes an attempt of its effects. -/
theorem cancels_kept (kernel : Kernel) (ids : CollisionFree) (history : History kernel ids.toDigests) :
    ∀ (earlier later : List Applied) (first : Applied), history.applied = earlier ++ first :: later →
      ∀ acceptSeq, first.answersCancel acceptSeq →
        (∀ application ∈ first :: later, application.after.incarnation = first.after.incarnation →
          ∀ result ∈ application.after.results, result.acceptSeq = acceptSeq → result.status = .cancelled) ∧
        (∀ application ∈ later, application.after.incarnation = first.after.incarnation →
          ∀ head effects reply, application.outcome = .ok (.publish head effects reply) →
            ∀ fence, application.command.turnFence? = some fence →
              TurnOf ids.toDigests first.after.incarnation acceptSeq fence.turnId →
                CommitsNothing application.before application.after) ∧
        (∀ application ∈ later, application.after.incarnation = first.after.incarnation →
          application.command.ownerFence?.isSome → ∀ effectId attempt, application.grants effectId attempt →
            ∀ key, effectId ≠ ids.effectId first.after.incarnation acceptSeq key) := by
  intro earlier later first cut acceptSeq answers
  refine ⟨?_, ?_, ?_⟩
  · intro application member same result resultIn named
    obtain ⟨inv, stands, after⟩ := cancel_stands_after cut answers
    rcases mem_cons.mp member with rfl | inLater
    · exact cancelled_of_stands inv.tracked stands resultIn named
    · obtain ⟨beforeInv, advance, -, within⟩ := after application inLater
      exact cancelled_of_stands (rootInv_advance beforeInv advance).tracked (within.2 same) resultIn named
  · intro application inLater same head effects reply published fence fenced onInput
    obtain ⟨inv, advance, stands, isCurrent⟩ := stands_before inLater cut answers same
    rw [published] at advance
    obtain ⟨whole, step, sameEntries⟩ := advance_publish advance
    rw [← isCurrent] at onInput
    exact (turn_commits_nothing inv.tracked stands step fenced onInput).of_same sameEntries
  · intro application inLater same owner effectId attempt grants key
    obtain ⟨inv, advance, stands, isCurrent⟩ := stands_before inLater cut answers same
    obtain ⟨head, effects, published⟩ := grants
    rw [published] at advance
    obtain ⟨whole, step, -⟩ := advance_publish advance
    rw [← isCurrent]
    exact owner_grants_nothing inv.tracked stands step owner key

/-- A cancel is requested on a running turn, which then commits an intent. -/
def intentAfterCancel : List (Command × Int64) :=
  let owner : OwnerFence := ⟨1, "", 1⟩
  [(.enqueue ⟨⟨1⟩, "", "", 0, none⟩, 0),
    (.takeover ⟨1, "", 0, 0⟩, 0),
    (.beginTurn ⟨owner, [⟨"", "", 0⟩]⟩, 0),
    (.cancel ⟨⟨1⟩, 1⟩, 0),
    (.commitIntent ⟨⟨owner, pairedIds.turnId 1 1 1 0, 0, "", 0⟩, ⟨"", "", "", 0, .manual, none⟩⟩, 0)]

/-- The requested cancel stands after the intent. -/
theorem requested_cancel_kept :
    ∃ (history : History roomyKernel pairedIds.toDigests) (earlier later : List Applied) (first : Applied),
      history.applied = earlier ++ first :: later ∧ first.answersCancel 1 ∧
      (∀ application ∈ first :: later, application.after.incarnation = first.after.incarnation →
        ∀ result ∈ application.after.results, result.acceptSeq = 1 → result.status = .cancelled) := by
  obtain ⟨history, cut⟩ := unnamed_history_cut intentAfterCancel ⟨3, by decide +kernel⟩
  have answers : ((replay roomyKernel pairedIds.toDigests unnamedRoot intentAfterCancel).1.get
      ⟨3, by decide +kernel⟩).answersCancel 1 := .inl (by decide +kernel)
  exact ⟨history, _, _, _, cut, answers, (cancels_kept roomyKernel pairedIds history _ _ _ cut 1 answers).1⟩

/-- The turn of a cancelled input can still journal an intent. -/
theorem cancelled_turn_journals_intent :
    ¬∀ history : History roomyKernel pairedIds.toDigests, ∀ (earlier later : List Applied) (first : Applied),
      history.applied = earlier ++ first :: later → ∀ acceptSeq, first.answersCancel acceptSeq →
        ∀ application ∈ later, application.after.incarnation = first.after.incarnation →
          ∀ fence, application.command.turnFence? = some fence →
            TurnOf pairedIds.toDigests first.after.incarnation acceptSeq fence.turnId →
              application.after.effects = application.before.effects := by
  intro keeps
  obtain ⟨history, cut⟩ := unnamed_history_cut intentAfterCancel ⟨3, by decide +kernel⟩
  have kept := keeps history _ _ _ cut 1 (.inl (by decide +kernel))
    ((replay roomyKernel pairedIds.toDigests unnamedRoot intentAfterCancel).1.get ⟨4, by decide +kernel⟩)
    (get_mem_drop _ (by decide)) (by decide +kernel) _ rfl ⟨1, 0, rfl⟩
  revert kept
  decide +kernel

end Ravel.Agents
