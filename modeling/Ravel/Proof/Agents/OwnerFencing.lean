import Ravel.Proof.Agents.Replays

namespace Ravel.Agents

open List

section StepFacts

variable {digests : Digests} {limits : Limits} {root whole : Head} {now : Int64} {command : Command} {reply : Reply}

theorem step_epoch_le (step : Step digests limits root now command whole reply) : root.epoch ≤ whole.epoch := by
  cases step with
  | takeover c epoch addressed next =>
    have later := checkedSuccU64_some next
    show root.epoch ≤ epoch
    omega
  | recordResult c effect addressed found pending attempted =>
    split
    · exact Nat.le_refl _
    · exact Nat.le_refl _
  | _ => exact Nat.le_refl _

theorem step_incarnation_le (step : Step digests limits root now command whole reply) : root.incarnation ≤ whole.incarnation := by
  rcases step_incarnation step with ⟨same, -⟩ | rfl
  · exact Nat.le_of_eq same.symm
  · exact Nat.le_succ _

theorem ownerFence_of_turnFence {fence : TurnFence} (fenced : command.turnFence? = some fence) :
    command.ownerFence? = some fence.owner := by
  cases command <;> simp_all [Command.turnFence?, Command.ownerFence?]

/-- A publish by an owner carries the current owner, epoch and incarnation. -/
theorem step_owned (step : Step digests limits root now command whole reply) {fence : OwnerFence}
    (fenced : command.ownerFence? = some fence) : Owned root fence := by
  cases step with
  | start c next pin owned idle first =>
    cases fenced
    exact owned
  | block command turnFence turn error turnFenced onTurn =>
    rw [ownerFence_of_turnFence turnFenced] at fenced
    cases fenced
    exact onTurn.toOwned
  | completeCancelled c turn onTurn requested waiting =>
    cases fenced
    exact onTurn.toOwned
  | complete c turn journaled onTurn open' waiting journal =>
    cases fenced
    exact onTurn.toOwned
  | failCancelled c turn onTurn requested waiting =>
    cases fenced
    exact onTurn.toOwned
  | failRetry c turn failedAttempts onTurn open' waiting resolved =>
    cases fenced
    exact onTurn.toOwned
  | failTerminal c turn onTurn open' waiting =>
    cases fenced
    exact onTurn.toOwned
  | recordStep c turn record onTurn =>
    cases fenced
    exact onTurn.toOwned
  | commitIntent c turn effects added onTurn journal =>
    cases fenced
    exact onTurn.toOwned
  | latchDoubt c ownerFence effect error authority owned found ambiguous =>
    simp only [Command.ownerFence?, authority, Option.some.injEq] at fenced
    rw [← fenced]
    exact owned
  | grantOwner c ownerFence effect turn authority owned found pending known unambiguous follows running ofTurn open' =>
    simp only [Command.ownerFence?, authority, Option.some.injEq] at fenced
    rw [← fenced]
    exact owned
  | grantReconcile c reconcileFence effect authority addressed found pending follows =>
    simp [Command.ownerFence?, authority] at fenced
  | _ => cases fenced

theorem step_results (tracked : Tracked digests root)
    (inOrder : root.inbox.Pairwise fun left right => left.acceptSeq < right.acceptSeq)
    (step : Step digests limits root now command whole reply) (same : whole.incarnation = root.incarnation) :
    ∃ added, whole.results = root.results ++ added := by
  cases inputEdit_of_step tracked inOrder step with
  | kept inbox results next version incarnation running => exact ⟨[], by rw [results, append_nil]⟩
  | accepted entry inbox numbered untried results next version incarnation running =>
    exact ⟨[], by rw [results, append_nil]⟩
  | settled acceptSeq result waiting inbox results numbered derived version next incarnation running =>
    exact ⟨[result], results⟩
  | retried acceptSeq turnId failedAttempts inbox derived results next version incarnation running =>
    exact ⟨[], by rw [results, append_nil]⟩
  | restarted inbox results next version running incarnation => exact absurd same incarnation

/-- The commit of a turn: its completed result is added and its input is consumed. -/
def CommitsTurn (before after : Head) (command : Command) : Prop :=
  ∃ c turn result, command = .completeTurn c ∧ before.activeTurn = some turn ∧ turn.turnId = c.fence.turnId ∧
    result.acceptSeq = turn.inputAcceptSeq ∧ result.status = .completed ∧ result.turnId = some turn.turnId ∧
    after.results.Perm (before.results ++ [result]) ∧ turn.inputAcceptSeq ∈ before.inbox.map (·.acceptSeq) ∧
    turn.inputAcceptSeq ∉ after.inbox.map (·.acceptSeq)

theorem step_state {next : Head} (tracked : Tracked digests root) (step : Step digests limits root now command whole reply)
    (sameEntries : SameEntries next whole) (same : whole.incarnation = root.incarnation)
    (changed : whole.state ≠ root.state ∨ whole.stateVersion ≠ root.stateVersion) : CommitsTurn root next command := by
  cases step with
  | recreate c incarnation gone next =>
    have later : incarnation = root.incarnation := same
    have := checkedSuccU64_some next
    omega
  | complete c turn journaled onTurn open' waiting journal =>
    refine ⟨c, turn, _, rfl, onTurn.running, onTurn.turnId, rfl, rfl, rfl, sameEntries.results, waiting, ?_⟩
    rw [(sameEntries.inbox.map (·.acceptSeq)).mem_iff]
    intro listed
    obtain ⟨entry, member, isTaken⟩ := mem_map.mp listed
    exact ((mem_withoutInput tracked).mp member).2 isTaken
  | recordResult c effect addressed found pending attempted =>
    split at changed
    · rcases changed with changed | changed <;> exact absurd rfl changed
    · rcases changed with changed | changed <;> exact absurd rfl changed
  | _ => rcases changed with changed | changed <;> exact absurd rfl changed

end StepFacts

section Advances

variable {kernel : Kernel} {ids : CollisionFree} {root next : Head} {command : Command} {now : Int64}
  {outcome : Except AgentError Transition}

theorem advance_epoch_le (advance : Advance kernel ids root command now outcome next) : root.epoch ≤ next.epoch := by
  rcases advance_cases advance with rfl | ⟨_, _, _, whole, -, step, same⟩
  · exact Nat.le_refl _
  · have later := step_epoch_le step
    rw [same.fields]
    exact later

theorem advance_incarnation_le (advance : Advance kernel ids root command now outcome next) :
    root.incarnation ≤ next.incarnation := by
  rcases advance_cases advance with rfl | ⟨_, _, _, whole, -, step, same⟩
  · exact Nat.le_refl _
  · have later := step_incarnation_le step
    rw [same.fields]
    exact later

theorem advance_results (inv : RootInv ids kernel.limits root)
    (advance : Advance kernel ids root command now outcome next) (same : next.incarnation = root.incarnation) :
    ∃ added, next.results.Perm (root.results ++ added) := by
  rcases advance_cases advance with rfl | ⟨_, _, _, whole, -, step, sameEntries⟩
  · exact ⟨[], by rw [append_nil]⟩
  · have incarnation : next.incarnation = whole.incarnation := by rw [sameEntries.fields]
    obtain ⟨added, results⟩ := step_results inv.tracked inv.paged.inOrder step (incarnation ▸ same)
    exact ⟨added, results ▸ sameEntries.results⟩

/-- Within the incarnation of an earlier root, its results are still there, unchanged. -/
def ResultsKept (earlier root : Head) : Prop :=
  earlier.incarnation ≤ root.incarnation ∧
    (root.incarnation = earlier.incarnation → ∃ added, root.results.Perm (earlier.results ++ added))

theorem resultsKept_advance {earlier : Head} (inv : RootInv ids kernel.limits root)
    (advance : Advance kernel ids root command now outcome next) (kept : ResultsKept earlier root) :
    ResultsKept earlier next := by
  have later := advance_incarnation_le advance
  refine ⟨Nat.le_trans kept.1 later, ?_⟩
  intro sameNext
  have same : root.incarnation = earlier.incarnation := Nat.le_antisymm (by omega) kept.1
  obtain ⟨added, before⟩ := kept.2 same
  obtain ⟨addedNext, after⟩ := advance_results inv advance (sameNext.trans same.symm)
  refine ⟨added ++ addedNext, after.trans ?_⟩
  rw [← append_assoc]
  exact before.append_right _

end Advances

section Interleavings

variable {kernel : Kernel} {ids : CollisionFree} {shared : Shared}

variable {application first : Applied}

section

variable (reached : Interleaving kernel ids shared)

include reached

/-- An application of an interleaving is a publish of a rule. -/
theorem applied_step (member : application ∈ shared.applied) :
    ∃ whole reply, RootInv ids kernel.limits application.before ∧
      Step ids kernel.limits application.before application.now application.command whole reply ∧
      SameEntries application.after whole := by
  obtain ⟨published, effects, reply, outcome⟩ := interleaving_publishes reached application member
  obtain ⟨earlier, later, cut⟩ := append_of_mem member
  obtain ⟨beforeRun, advance, -⟩ := run_at (interleaving_run reached).1 cut
  rw [outcome] at advance
  obtain ⟨whole, step, same⟩ := advance_publish advance
  exact ⟨whole, reply, rootInv_run beforeRun, step, same⟩

theorem takeover_epoch {takeover : Applied} {c : Takeover} (member : takeover ∈ shared.applied)
    (isTakeover : takeover.command = .takeover c) : takeover.after.epoch = takeover.before.epoch + 1 := by
  obtain ⟨whole, reply, -, step, same⟩ := applied_step reached member
  rw [isTakeover] at step
  cases step with
  | takeover c epoch addressed next =>
    rw [same.fields]
    exact checkedSuccU64_some next
  | block command fence turn error fenced onTurn => cases fenced

theorem fenced_after {earlier later : List Applied} (cut : shared.applied = earlier ++ first :: later)
    (inLater : application ∈ later) {fence : OwnerFence} (fenced : application.command.ownerFence? = some fence) :
    first.after.epoch ≤ fence.epoch ∧ first.after.incarnation ≤ fence.incarnation := by
  obtain ⟨-, -, onward⟩ := run_at (interleaving_run reached).1 cut
  obtain ⟨-, laterHolds⟩ := onward_keeps
    (fun root => first.after.epoch ≤ root.epoch ∧ first.after.incarnation ≤ root.incarnation)
    (fun root next command now outcome _ advance holds =>
      ⟨Nat.le_trans holds.1 (advance_epoch_le advance), Nat.le_trans holds.2 (advance_incarnation_le advance)⟩)
    onward ⟨Nat.le_refl _, Nat.le_refl _⟩
  obtain ⟨-, -, atLeast, -⟩ := laterHolds application inLater
  have member : application ∈ shared.applied := by rw [cut]; simp [inLater]
  obtain ⟨whole, reply, -, step, -⟩ := applied_step reached member
  have owned := step_owned step fenced
  rw [owned.epoch, owned.current]
  exact atLeast

theorem results_written_once {earlier later : List Applied} (cut : shared.applied = earlier ++ first :: later)
    (member : application ∈ first :: later) (same : application.after.incarnation = first.before.incarnation) :
    ∃ added, application.after.results.Perm (first.before.results ++ added) := by
  obtain ⟨beforeRun, advance, onward⟩ := run_at (interleaving_run reached).1 cut
  have start : ResultsKept first.before first.before := ⟨Nat.le_refl _, fun _ => ⟨[], by rw [append_nil]⟩⟩
  have kept := resultsKept_advance (rootInv_run beforeRun) advance start
  rcases mem_cons.mp member with rfl | inLater
  · exact kept.2 same
  · obtain ⟨-, laterHolds⟩ := onward_keeps (ResultsKept first.before)
      (fun root next command now outcome inv advance holds => resultsKept_advance inv advance holds) onward kept
    obtain ⟨-, -, -, holds⟩ := laterHolds application inLater
    exact holds.2 same

theorem state_changed_by_commit (member : application ∈ shared.applied)
    (same : application.after.incarnation = application.before.incarnation)
    (changed : application.after.state ≠ application.before.state ∨ application.after.stateVersion ≠ application.before.stateVersion) :
    CommitsTurn application.before application.after application.command := by
  obtain ⟨whole, reply, inv, step, sameEntries⟩ := applied_step reached member
  have fields := sameEntries.fields
  have incarnation : application.after.incarnation = whole.incarnation := by rw [fields]
  have state : application.after.state = whole.state := by rw [fields]
  have version : application.after.stateVersion = whole.stateVersion := by rw [fields]
  rw [state, version] at changed
  exact step_state inv.tracked step sameEntries (incarnation ▸ same) changed

end

end Interleavings

/-- After a takeover no command of an earlier epoch or incarnation publishes; results are only added within an incarnation;
and within an incarnation only the commit of a turn changes the state. -/
theorem owners_fenced (kernel : Kernel) (ids : CollisionFree) (history : SharedHistory kernel ids.toDigests) :
    (∀ (earlier later : List Applied) (takeover : Applied), history.shared.applied = earlier ++ takeover :: later →
      ∀ c, takeover.command = .takeover c →
        takeover.after.epoch = takeover.before.epoch + 1 ∧
        ∀ application ∈ later, ∀ fence, application.command.ownerFence? = some fence →
          takeover.after.epoch ≤ fence.epoch ∧ takeover.after.incarnation ≤ fence.incarnation) ∧
    (∀ (earlier later : List Applied) (first : Applied), history.shared.applied = earlier ++ first :: later →
      ∀ application ∈ first :: later, application.after.incarnation = first.before.incarnation →
        ∃ added, application.after.results.Perm (first.before.results ++ added)) ∧
    (∀ application ∈ history.shared.applied, application.after.incarnation = application.before.incarnation →
      (application.after.state ≠ application.before.state ∨ application.after.stateVersion ≠ application.before.stateVersion) →
        CommitsTurn application.before application.after application.command) := by
  refine ⟨?_, ?_, ?_⟩
  · intro earlier later takeover cut c isTakeover
    refine ⟨takeover_epoch history.reached (by rw [cut]; simp) isTakeover, ?_⟩
    intro application inLater fence fenced
    exact fenced_after history.reached cut inLater fenced
  · intro earlier later first cut application member same
    exact results_written_once history.reached cut member same
  · intro application member same changed
    exact state_changed_by_commit history.reached member same changed

/-- A turn commits a state; then the agent is tombstoned and created again. -/
def committedThenRecreated : List (Command × Int64) :=
  let owner : OwnerFence := ⟨1, "", 1⟩
  [(.enqueue ⟨⟨1⟩, "", "", 0, none⟩, 0),
    (.takeover ⟨1, "", 0, 0⟩, 0),
    (.beginTurn ⟨owner, [⟨"", "", 0⟩]⟩, 0),
    (.completeTurn ⟨⟨owner, pairedIds.turnId 1 1 1 0, 0, "", 0⟩, 0, ⟨0, 0⟩, none, [], [], []⟩, 0),
    (.tombstone ⟨⟨1⟩⟩, 0),
    (.create unnamedAgent, 0)]

/-- The creation of the next incarnation drops the state, so that not every change of the state is the commit of a turn. -/
theorem recreation_drops_state :
    ¬∀ history : SharedHistory roomyKernel pairedIds.toDigests, ∀ application ∈ history.shared.applied,
      application.after.state ≠ application.before.state →
        CommitsTurn application.before application.after application.command := by
  intro commits
  obtain ⟨history, applied⟩ := unnamed_sharedHistory committedThenRecreated (by decide +kernel)
  have dropped : ((replay roomyKernel pairedIds.toDigests unnamedRoot committedThenRecreated).1.any fun application =>
      decide (application.command = .create unnamedAgent ∧ application.after.state ≠ application.before.state)) = true := by
    decide +kernel
  obtain ⟨application, member, changes⟩ := any_eq_true.mp dropped
  obtain ⟨isCreate, changed⟩ := of_decide_eq_true changes
  obtain ⟨c, turn, result, isComplete, -⟩ := commits history application (applied ▸ member) changed
  rw [isCreate] at isComplete
  cases isComplete

end Ravel.Agents
