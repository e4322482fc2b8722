import Ravel.Proof.Agents.RootRuns

namespace Ravel.Agents

open List

/-- The applications of the kernel from one root of a run to a later one. -/
inductive Onward (kernel : Kernel) (digests : Digests) (start : Head) : List Applied → Head → Prop where
  | here : Onward kernel digests start [] start
  | step (applied : List Applied) (root next : Head) (command : Command) (now : Int64) (outcome : Except AgentError Transition)
      (onward : Onward kernel digests start applied root) (inv : RootInv digests kernel.limits root)
      (advance : Advance kernel digests root command now outcome next) :
      Onward kernel digests start (applied ++ [⟨command, now, root, outcome, next⟩]) next

section Segments

variable {kernel : Kernel} {ids : CollisionFree} {start root : Head} {earlier later : List Applied} {first : Applied}

variable (holds : Head → Prop) {applied : List Applied}

theorem run_keeps (created : ∀ base root, SameEntries root (recreated base 1) → holds root)
    (step : ∀ root next command now outcome, RootInv ids kernel.limits root → Advance kernel ids root command now outcome next → holds root → holds next)
    (run : Run kernel ids applied root) : holds root := by
  induction run with
  | create c now published effects reply isCreated => exact created _ _ (created_same isCreated).1
  | apply applied root lists command now run loads ih =>
    have inv := rootInv_run run
    exact step _ _ _ _ _ inv (advance_of_apply inv loads) ih

/-- A list with one more entry, cut in two. -/
theorem append_snoc_cases {Item : Type} {items left right : List Item} {last : Item} (cut : items ++ [last] = left ++ right) :
    (right = [] ∧ left = items ++ [last]) ∨ ∃ others, right = others ++ [last] ∧ items = left ++ others := by
  rcases eq_nil_or_concat right with rfl | ⟨others, other, rfl⟩
  · rw [append_nil] at cut
    exact .inl ⟨rfl, cut.symm⟩
  · rw [concat_eq_append, ← append_assoc] at cut
    obtain ⟨same, sameLast⟩ := append_inj' cut rfl
    cases sameLast
    exact .inr ⟨others, concat_eq_append, same⟩

theorem run_split (run : Run kernel ids applied root) (cut : applied = earlier ++ later) :
    ∃ middle, Run kernel ids earlier middle ∧ Onward kernel ids middle later root := by
  induction run generalizing earlier later with
  | create c now published effects reply created =>
    obtain ⟨rfl, rfl⟩ := append_eq_nil_iff.mp cut.symm
    exact ⟨_, .create c now published effects reply created, .here⟩
  | apply applied root lists command now run loads ih =>
    rcases append_snoc_cases cut with ⟨rfl, rfl⟩ | ⟨others, rfl, rfl⟩
    · exact ⟨_, .apply applied root lists command now run loads, .here⟩
    · obtain ⟨middle, before, onward⟩ := ih rfl
      have inv := rootInv_run run
      exact ⟨middle, before, .step others root _ command now _ onward inv (advance_of_apply inv loads)⟩

/-- What one application of a run is, and how the run goes on from it. -/
theorem run_at (run : Run kernel ids applied root) (cut : applied = earlier ++ first :: later) :
    Run kernel ids earlier first.before ∧
      Advance kernel ids first.before first.command first.now first.outcome first.after ∧
      Onward kernel ids first.after later root := by
  have regrouped : applied = (earlier ++ [first]) ++ later := by rw [cut, append_assoc]; rfl
  obtain ⟨middle, upTo, onward⟩ := run_split run regrouped
  generalize reached : earlier ++ [first] = steps at upTo
  cases upTo with
  | create c now published effects reply created => simp at reached
  | apply before root lists command now run loads =>
    obtain ⟨rfl, same⟩ := append_inj' reached rfl
    cases same
    exact ⟨run, advance_of_apply (rootInv_run run) loads, onward⟩

theorem onward_keeps
    (step : ∀ root next command now outcome, RootInv ids kernel.limits root → Advance kernel ids root command now outcome next → holds root → holds next)
    (onward : Onward kernel ids start later root) (atStart : holds start) :
    holds root ∧ ∀ applied ∈ later, RootInv ids kernel.limits applied.before ∧
      Advance kernel ids applied.before applied.command applied.now applied.outcome applied.after ∧
      holds applied.before ∧ holds applied.after := by
  induction onward with
  | here => exact ⟨atStart, fun _ member => by cases member⟩
  | step applied root next command now outcome onward inv advance ih =>
    obtain ⟨reached, before⟩ := ih
    have kept := step root next command now outcome inv advance reached
    refine ⟨kept, ?_⟩
    intro application member
    rcases mem_append.mp member with old | isLast
    · exact before application old
    · obtain rfl := mem_singleton.mp isLast
      exact ⟨inv, advance, reached, kept⟩

end Segments

section Advances

variable {kernel : Kernel} {digests : Digests} {root next : Head} {command : Command} {now : Int64}
  {outcome : Except AgentError Transition}

/-- An application leaves the root as it is, or leaves the entries of a published draft. -/
theorem advance_cases (advance : Advance kernel digests root command now outcome next) :
    next = root ∨ ∃ held effects reply whole, outcome = .ok (.publish held effects reply) ∧
      Step digests kernel.limits root now command whole reply ∧ SameEntries next whole := by
  cases advance with
  | refused error => exact .inl rfl
  | answered reply whole => exact .inl rfl
  | published held full whole index effects reply applied publication =>
    refine .inr ⟨held, effects, reply, whole, rfl, publication.step, ?_⟩
    have same := settled_same digests { whole with rootRevision := full.rootRevision } index full.quota
    rw [publication.outcome]
    exact ⟨same.inbox, same.receipts, same.results, same.events, same.timers, rfl⟩

/-- The draft behind the new root of a publish. -/
theorem advance_publish {held : Head} {effects : List Effect} {reply : Reply}
    (advance : Advance kernel digests root command now (.ok (.publish held effects reply)) next) :
    ∃ whole, Step digests kernel.limits root now command whole reply ∧ SameEntries next whole := by
  cases advance with
  | published held full whole index effects reply applied publication =>
    refine ⟨whole, publication.step, ?_⟩
    have same := settled_same digests { whole with rootRevision := full.rootRevision } index full.quota
    rw [publication.outcome]
    exact ⟨same.inbox, same.receipts, same.results, same.events, same.timers, rfl⟩

end Advances

section Conservation

/-- How often a number is the `accept_seq` of an input or of a result. -/
def occurrences (root : Head) (acceptSeq : Nat) : Nat :=
  (root.inbox.map (·.acceptSeq) ++ root.results.map (·.acceptSeq)).count acceptSeq

theorem count_range' (start length value : Nat) :
    (List.range' start length).count value = if start ≤ value ∧ value < start + length then 1 else 0 := by
  split
  · rename_i within
    exact count_eq_one_of_mem nodup_range' (mem_range'_1.mpr within)
  · rename_i outside
    rw [count_eq_zero, mem_range'_1]
    exact outside

/-- Every number below the next one is the `accept_seq` of exactly one input or result, and the active turn and the state
version are those of the inputs. -/
theorem inputs_conserved (kernel : Kernel) (ids : CollisionFree) (history : History kernel ids.toDigests) :
    (∀ acceptSeq, occurrences history.root acceptSeq =
      if 1 ≤ acceptSeq ∧ acceptSeq < history.root.nextAcceptSeq then 1 else 0) ∧
    (∀ turn, history.root.activeTurn = some turn →
      turn.inputAcceptSeq ∈ history.root.inbox.map (·.acceptSeq) ∧ turn.baseStateVersion = history.root.stateVersion) ∧
    history.root.stateVersion = history.root.results.countP fun result => result.status = .completed := by
  have tracked := (rootInv_run history.run).tracked
  refine ⟨?_, ?_, tracked.completed⟩
  · intro acceptSeq
    have started := tracked.started
    rw [occurrences, tracked.conserved.count_eq, count_range']
    have bound : 1 + (history.root.nextAcceptSeq - 1) = history.root.nextAcceptSeq := by omega
    rw [bound]
  · intro turn active
    have running := tracked.running turn active
    exact ⟨running.waiting, running.base⟩

end Conservation

end Ravel.Agents
