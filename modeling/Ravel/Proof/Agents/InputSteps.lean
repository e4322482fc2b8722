import Ravel.Proof.Agents.Steps
import Ravel.Proof.Agents.RootInvariant

namespace Ravel.Agents

open List Library

/-- The change of the inputs in one step. -/
inductive InputEdit (digests : Digests) (root whole : Head) : Prop where
  | kept (inbox : whole.inbox = root.inbox) (results : whole.results = root.results)
      (next : whole.nextAcceptSeq = root.nextAcceptSeq) (version : whole.stateVersion = root.stateVersion)
      (incarnation : whole.incarnation = root.incarnation)
      (running : ∀ turn, whole.activeTurn = some turn → Running digests root turn)
  | accepted (entry : InboxEntry) (inbox : whole.inbox = root.inbox ++ [entry])
      (numbered : entry.acceptSeq = root.nextAcceptSeq) (untried : entry.lastFailedTurnId = none)
      (results : whole.results = root.results) (next : whole.nextAcceptSeq = root.nextAcceptSeq + 1)
      (version : whole.stateVersion = root.stateVersion) (incarnation : whole.incarnation = root.incarnation)
      (running : whole.activeTurn = root.activeTurn)
  | settled (acceptSeq : Nat) (result : ResultEntry) (waiting : acceptSeq ∈ root.inbox.map (·.acceptSeq))
      (inbox : whole.inbox = withoutInput root acceptSeq) (results : whole.results = root.results ++ [result])
      (numbered : result.acceptSeq = acceptSeq)
      (derived : ∀ turnId, result.turnId = some turnId → TurnOf digests root.incarnation acceptSeq turnId)
      (version : whole.stateVersion = root.stateVersion + if result.status = .completed then 1 else 0)
      (next : whole.nextAcceptSeq = root.nextAcceptSeq) (incarnation : whole.incarnation = root.incarnation)
      (running : ∀ turn, whole.activeTurn = some turn →
        root.activeTurn = some turn ∧ turn.inputAcceptSeq ≠ acceptSeq ∧ whole.stateVersion = root.stateVersion)
  | retried (acceptSeq : Nat) (turnId : Id128) (failedAttempts : Nat)
      (inbox : whole.inbox = updateFirst (fun entry => entry.acceptSeq = acceptSeq)
        (fun entry => { entry with failedAttempts := failedAttempts, lastFailedTurnId := some turnId }) root.inbox)
      (derived : TurnOf digests root.incarnation acceptSeq turnId) (results : whole.results = root.results)
      (next : whole.nextAcceptSeq = root.nextAcceptSeq) (version : whole.stateVersion = root.stateVersion)
      (incarnation : whole.incarnation = root.incarnation) (running : whole.activeTurn = none)
  | restarted (inbox : whole.inbox = []) (results : whole.results = []) (next : whole.nextAcceptSeq = 1)
      (version : whole.stateVersion = 0) (running : whole.activeTurn = none)
      (incarnation : whole.incarnation ≠ root.incarnation)

section StepToEdit

variable {digests : Digests} {limits : Limits} {root whole : Head} {now : Int64} {command : Command} {reply : Reply}

/-- A step that leaves the inputs and the active turn as they are. -/
theorem InputEdit.untouched (tracked : Tracked digests root) (inbox : whole.inbox = root.inbox)
    (results : whole.results = root.results) (next : whole.nextAcceptSeq = root.nextAcceptSeq)
    (version : whole.stateVersion = root.stateVersion) (incarnation : whole.incarnation = root.incarnation)
    (turn : whole.activeTurn = root.activeTurn) : InputEdit digests root whole := by
  apply InputEdit.kept inbox results next version incarnation
  intro running isRunning
  exact tracked.running running (turn ▸ isRunning)

/-- A step that changes only the flags of the active turn. -/
theorem InputEdit.flagged (tracked : Tracked digests root) (change : ActiveTurn → ActiveTurn)
    (kept : ∀ turn, (change turn).inputAcceptSeq = turn.inputAcceptSeq ∧
      (change turn).baseStateVersion = turn.baseStateVersion ∧ (change turn).turnId = turn.turnId) :
    InputEdit digests root { root with activeTurn := root.activeTurn.map change } := by
  refine .kept rfl rfl rfl rfl rfl ?_
  intro turn isRunning
  obtain ⟨before, wasRunning, rfl⟩ := Option.map_eq_some_iff.mp isRunning
  obtain ⟨sameInput, sameBase, sameId⟩ := kept before
  have running := tracked.running before wasRunning
  exact ⟨by rw [sameInput]; exact running.waiting, by rw [sameInput]; exact running.first,
    by rw [sameBase]; exact running.base, by rw [sameInput, sameId]; exact running.derived⟩

/-- The turn of a command that passed its checks was derived for its input. -/
theorem OnTurn.derived {fence : TurnFence} {turn : ActiveTurn} (onTurn : OnTurn root fence turn)
    (tracked : Tracked digests root) : TurnOf digests root.incarnation turn.inputAcceptSeq turn.turnId :=
  (tracked.running turn onTurn.running).derived

/-- The end of a turn that leaves the state as it is. -/
theorem InputEdit.ended (tracked : Tracked digests root) {fence : TurnFence} {turn : ActiveTurn}
    (onTurn : OnTurn root fence turn) (waiting : turn.inputAcceptSeq ∈ root.inbox.map (·.acceptSeq)) {result : ResultEntry}
    (numbered : result.acceptSeq = turn.inputAcceptSeq) (ofTurn : result.turnId = some turn.turnId)
    (incomplete : result.status ≠ .completed) :
    InputEdit digests root (settledHead digests root none turn.inputAcceptSeq result) := by
  apply InputEdit.settled turn.inputAcceptSeq result waiting rfl rfl numbered
  · intro turnId same
    rw [ofTurn, Option.some.injEq] at same
    rw [← same]
    exact onTurn.derived tracked
  · rw [if_neg incomplete]
    rfl
  · rfl
  · rfl
  · intro running isRunning
    cases isRunning

theorem running_started (tracked : Tracked digests root)
    (inOrder : root.inbox.Pairwise fun left right => left.acceptSeq < right.acceptSeq) {next : InboxEntry}
    (first : root.inbox.head? = some next) (pin : HandlerPin) :
    Running digests root (startedTurn digests root next pin now) := by
  obtain ⟨others, inbox⟩ := head?_eq_some_iff.mp first
  refine ⟨?_, ?_, rfl, _, _, rfl⟩
  · rw [inbox]
    exact mem_cons_self
  · intro entry member
    rw [inbox] at member inOrder
    rcases mem_cons.mp member with rfl | later
    · exact Nat.le_refl _
    · exact Nat.le_of_lt ((pairwise_cons.mp inOrder).1 entry later)

/-- Every step moves the inputs in one of the five ways. -/
theorem inputEdit_of_step (tracked : Tracked digests root)
    (inOrder : root.inbox.Pairwise fun left right => left.acceptSeq < right.acceptSeq)
    (step : Step digests limits root now command whole reply) : InputEdit digests root whole := by
  cases step with
  | recreate c incarnation gone next =>
    have later := checkedSuccU64_some next
    exact .restarted rfl rfl rfl rfl rfl (by show incarnation ≠ root.incarnation; omega)
  | accept c addressed unseen => exact .accepted _ rfl rfl rfl rfl rfl rfl rfl rfl
  | takeover c epoch addressed next => exact .untouched tracked rfl rfl rfl rfl rfl rfl
  | start c next pin owned idle first =>
    refine .kept rfl rfl rfl rfl rfl ?_
    intro turn started
    cases started
    exact running_started tracked inOrder first pin
  | block command fence turn error fenced onTurn => exact .flagged tracked _ fun _ => ⟨rfl, rfl, rfl⟩
  | completeCancelled c turn onTurn requested waiting =>
    exact .ended tracked onTurn waiting rfl rfl (by rintro ⟨⟩)
  | complete c turn journaled onTurn open' waiting journal =>
    apply InputEdit.settled turn.inputAcceptSeq _ waiting rfl rfl rfl
    · intro turnId same
      cases same
      exact onTurn.derived tracked
    · rfl
    · rfl
    · rfl
    · intro running isRunning
      cases isRunning
  | failCancelled c turn onTurn requested waiting => exact .ended tracked onTurn waiting rfl rfl (by rintro ⟨⟩)
  | failRetry c turn failedAttempts onTurn open' waiting resolved =>
    exact .retried turn.inputAcceptSeq turn.turnId failedAttempts rfl (onTurn.derived tracked) rfl rfl rfl rfl rfl
  | failTerminal c turn onTurn open' waiting => exact .ended tracked onTurn waiting rfl rfl (by rintro ⟨⟩)
  | requestCancel c turn addressed running same => exact .flagged tracked _ fun _ => ⟨rfl, rfl, rfl⟩
  | cancelWaiting c addressed elsewhere waiting =>
    apply InputEdit.settled c.acceptSeq _ waiting rfl rfl rfl
    · intro turnId failed
      obtain ⟨entry, found, same⟩ := Option.bind_eq_some_iff.mp failed
      have passes := find?_some found
      have derived := tracked.failedTurns entry (mem_of_find?_eq_some found) turnId same
      rwa [of_decide_eq_true passes] at derived
    · rfl
    · rfl
    · rfl
    · intro turn isRunning
      exact ⟨isRunning, elsewhere turn isRunning, rfl⟩
  | scheduleTimer c addressed => exact .untouched tracked rfl rfl rfl rfl rfl rfl
  | fireTimer c timer addressed found due => exact .accepted _ rfl rfl rfl rfl rfl rfl rfl rfl
  | cancelTimer c timer addressed found scheduled => exact .untouched tracked rfl rfl rfl rfl rfl rfl
  | tombstone c addressed => exact .untouched tracked rfl rfl rfl rfl rfl rfl
  | recordStep c turn record onTurn => exact .untouched tracked rfl rfl rfl rfl rfl rfl
  | commitIntent c turn effects added onTurn journal => exact .untouched tracked rfl rfl rfl rfl rfl rfl
  | latchDoubt c fence effect error authority owned found ambiguous =>
    exact .untouched tracked rfl rfl rfl rfl rfl rfl
  | grantOwner c fence effect turn authority owned found pending known unambiguous follows running ofTurn open' =>
    exact .untouched tracked rfl rfl rfl rfl rfl rfl
  | grantReconcile c fence effect authority addressed found pending follows =>
    exact .untouched tracked rfl rfl rfl rfl rfl rfl
  | recordResult c effect addressed found pending attempted =>
    split
    · exact .untouched tracked rfl rfl rfl rfl rfl rfl
    · exact .untouched tracked rfl rfl rfl rfl rfl rfl

end StepToEdit

section WithoutInput

variable {digests : Digests} {root : Head}

theorem withoutInput_eq_filter (tracked : Tracked digests root) (acceptSeq : Nat) :
    withoutInput root acceptSeq = root.inbox.filter fun entry => !decide (entry.acceptSeq = acceptSeq) := by
  apply AtMostOne.eraseP_eq_filter
  exact atMostOne_key tracked.inbox_distinct _

theorem mem_withoutInput (tracked : Tracked digests root) {acceptSeq : Nat} {entry : InboxEntry} :
    entry ∈ withoutInput root acceptSeq ↔ entry ∈ root.inbox ∧ entry.acceptSeq ≠ acceptSeq := by
  rw [withoutInput_eq_filter tracked, mem_filter]
  simp

/-- The input that is taken and the inputs that stay are those of the inbox. -/
theorem withoutInput_perm {acceptSeq : Nat} (waiting : acceptSeq ∈ root.inbox.map (·.acceptSeq)) :
    (root.inbox.map (·.acceptSeq)).Perm (acceptSeq :: (withoutInput root acceptSeq).map (·.acceptSeq)) := by
  obtain ⟨entry, member, same⟩ := mem_map.mp waiting
  obtain ⟨taken, before, after, -, takenPasses, inbox, erased⟩ :=
    exists_of_eraseP (p := fun entry : InboxEntry => decide (entry.acceptSeq = acceptSeq)) member
      (decide_eq_true same)
  have takenSeq : taken.acceptSeq = acceptSeq := of_decide_eq_true takenPasses
  rw [withoutInput, erased, inbox, map_append, map_append, map_cons, takenSeq]
  exact perm_middle

end WithoutInput

namespace InputEdit

variable {digests : Digests} {root whole : Head}

section

variable (edit : InputEdit digests root whole) (tracked : Tracked digests root)

include edit tracked

theorem started : 1 ≤ whole.nextAcceptSeq := by
  have before := tracked.started
  cases edit <;> omega

/-- An input that waits stays numbered once across the inbox and the results. -/
theorem conserved :
    (whole.inbox.map (·.acceptSeq) ++ whole.results.map (·.acceptSeq)).Perm (List.range' 1 (whole.nextAcceptSeq - 1)) := by
  have before := tracked.conserved
  cases edit with
  | kept inbox results next version incarnation running =>
    rw [inbox, results, next]
    exact before
  | accepted entry inbox numbered untried results next version incarnation running =>
    have count : root.nextAcceptSeq + 1 - 1 = root.nextAcceptSeq - 1 + 1 := by
      have := tracked.started
      omega
    have last : 1 + (root.nextAcceptSeq - 1) = root.nextAcceptSeq := by
      have := tracked.started
      omega
    rw [inbox, results, next, count, range'_concat, Nat.one_mul, last, map_append, map_singleton, numbered,
      append_assoc]
    apply (Perm.append_left _ perm_append_comm).trans
    rw [← append_assoc]
    exact before.append_right _
  | settled acceptSeq result waiting inbox results numbered derived version next incarnation running =>
    rw [inbox, results, next, map_append, map_singleton, numbered]
    apply Perm.trans _ before
    apply Perm.trans _ ((withoutInput_perm waiting).append_right _).symm
    rw [← append_assoc, cons_append]
    exact perm_append_singleton _ _
  | retried acceptSeq turnId failedAttempts inbox derived results next version incarnation running =>
    rw [inbox, results, next, map_updateFirst]
    · exact before
    · intro entry _
      rfl
  | restarted inbox results next version running incarnation =>
    rw [inbox, results, next]
    exact Perm.refl _

theorem inOrder (before : root.inbox.Pairwise fun left right => left.acceptSeq < right.acceptSeq) :
    whole.inbox.Pairwise fun left right => left.acceptSeq < right.acceptSeq := by
  cases edit with
  | kept inbox results next version incarnation running =>
    rw [inbox]
    exact before
  | accepted entry inbox numbered untried results next version incarnation running =>
    rw [inbox, pairwise_append]
    refine ⟨before, pairwise_singleton _ _, ?_⟩
    intro other member added isAdded
    obtain rfl := mem_singleton.mp isAdded
    rw [numbered]
    exact tracked.inbox_bound other member
  | settled acceptSeq result waiting inbox results numbered derived version next incarnation running =>
    rw [inbox]
    exact before.sublist eraseP_sublist
  | retried acceptSeq turnId failedAttempts inbox derived results next version incarnation running =>
    have seqs : (root.inbox.map (·.acceptSeq)).Pairwise (· < ·) := pairwise_map.mpr before
    rw [inbox]
    apply pairwise_map.mp
    rw [map_updateFirst]
    · exact seqs
    · intro entry _
      rfl
  | restarted inbox results next version running incarnation =>
    rw [inbox]
    exact List.Pairwise.nil

/-- The active turn runs on the first input that waits, on the current state. -/
theorem turnRunning : ∀ turn, whole.activeTurn = some turn → Running digests whole turn := by
  intro turn isRunning
  cases edit with
  | kept inbox results next version incarnation running =>
    have before := running turn isRunning
    exact ⟨by rw [inbox]; exact before.waiting, by rw [inbox]; exact before.first, by rw [version]; exact before.base,
      by rw [incarnation]; exact before.derived⟩
  | accepted entry inbox numbered untried results next version incarnation running =>
    have before := tracked.running turn (running ▸ isRunning)
    refine ⟨?_, ?_, by rw [version]; exact before.base, by rw [incarnation]; exact before.derived⟩
    · rw [inbox, map_append]
      exact mem_append_left _ before.waiting
    · intro other member
      rw [inbox] at member
      rcases mem_append.mp member with old | added
      · exact before.first other old
      · obtain ⟨input, inputIn, same⟩ := mem_map.mp before.waiting
        have bound := tracked.inbox_bound input inputIn
        obtain rfl := mem_singleton.mp added
        omega
  | settled acceptSeq result waiting inbox results numbered derived version next incarnation running =>
    obtain ⟨wasRunning, elsewhere, sameVersion⟩ := running turn isRunning
    have before := tracked.running turn wasRunning
    refine ⟨?_, ?_, by rw [sameVersion]; exact before.base, by rw [incarnation]; exact before.derived⟩
    · obtain ⟨input, inputIn, same⟩ := mem_map.mp before.waiting
      rw [inbox]
      refine mem_map.mpr ⟨input, (mem_withoutInput tracked).mpr ⟨inputIn, ?_⟩, same⟩
      rw [same]
      exact elsewhere
    · intro other member
      rw [inbox] at member
      exact before.first other ((mem_withoutInput tracked).mp member).1
  | retried acceptSeq turnId failedAttempts inbox derived results next version incarnation running =>
    rw [running] at isRunning
    cases isRunning
  | restarted inbox results next version running incarnation =>
    rw [running] at isRunning
    cases isRunning

theorem completed : whole.stateVersion = whole.results.countP fun result => result.status = .completed := by
  have before := tracked.completed
  cases edit with
  | kept inbox results next version incarnation running => rw [version, results, before]
  | accepted entry inbox numbered untried results next version incarnation running => rw [version, results, before]
  | settled acceptSeq result waiting inbox results numbered derived version next incarnation running =>
    rw [version, results, countP_append, before, countP_singleton]
    simp
  | retried acceptSeq turnId failedAttempts inbox derived results next version incarnation running =>
    rw [version, results, before]
  | restarted inbox results next version running incarnation =>
    rw [version, results]
    rfl

theorem failedTurns : ∀ entry ∈ whole.inbox, ∀ turnId, entry.lastFailedTurnId = some turnId →
      TurnOf digests whole.incarnation entry.acceptSeq turnId := by
  intro entry member turnId failed
  cases edit with
  | kept inbox results next version incarnation running =>
    rw [inbox] at member
    rw [incarnation]
    exact tracked.failedTurns entry member turnId failed
  | accepted added inbox numbered untried results next version incarnation running =>
    rw [inbox] at member
    rw [incarnation]
    rcases mem_append.mp member with old | isAdded
    · exact tracked.failedTurns entry old turnId failed
    · obtain rfl := mem_singleton.mp isAdded
      rw [untried] at failed
      cases failed
  | settled acceptSeq result waiting inbox results numbered derived version next incarnation running =>
    rw [inbox] at member
    rw [incarnation]
    exact tracked.failedTurns entry ((mem_withoutInput tracked).mp member).1 turnId failed
  | retried acceptSeq retriedTurn failedAttempts inbox derived results next version incarnation running =>
    rw [inbox] at member
    rw [incarnation]
    rcases mem_updateFirst member with old | ⟨before, beforeIn, passes, rfl⟩
    · exact tracked.failedTurns entry old turnId failed
    · cases failed
      show TurnOf digests root.incarnation before.acceptSeq turnId
      rw [of_decide_eq_true passes]
      exact derived
  | restarted inbox results next version running incarnation =>
    rw [inbox] at member
    cases member

theorem resultTurns : ∀ result ∈ whole.results, ∀ turnId, result.turnId = some turnId →
      TurnOf digests whole.incarnation result.acceptSeq turnId := by
  intro result member turnId ofTurn
  cases edit with
  | kept inbox results next version incarnation running =>
    rw [results] at member
    rw [incarnation]
    exact tracked.resultTurns result member turnId ofTurn
  | accepted added inbox numbered untried results next version incarnation running =>
    rw [results] at member
    rw [incarnation]
    exact tracked.resultTurns result member turnId ofTurn
  | settled acceptSeq added waiting inbox results numbered derived version next incarnation running =>
    rw [results] at member
    rw [incarnation]
    rcases mem_append.mp member with old | isAdded
    · exact tracked.resultTurns result old turnId ofTurn
    · obtain rfl := mem_singleton.mp isAdded
      rw [numbered]
      exact derived turnId ofTurn
  | retried acceptSeq retriedTurn failedAttempts inbox derived results next version incarnation running =>
    rw [results] at member
    rw [incarnation]
    exact tracked.resultTurns result member turnId ofTurn
  | restarted inbox results next version running incarnation =>
    rw [results] at member
    cases member

end

end InputEdit

end Ravel.Agents
