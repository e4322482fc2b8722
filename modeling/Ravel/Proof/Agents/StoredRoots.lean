import Ravel.Proof.Agents.OwnerFencing

namespace Ravel.Agents

open List Library

section Revisions

variable {kernel : Kernel} {ids : CollisionFree} {digests : Digests} {limits : Limits} {root next : Head}
  {drafted : Transition} {published : Head} {effects : List Effect} {reply : Reply} {command : Command} {now : Int64}

/-- A published root has the revision that follows the one it was computed from. -/
theorem publish_revision {before : Option Head} (passed : publish digests limits before drafted = .ok (.publish published effects reply)) :
    nextRevision digests before = .ok published.rootRevision := by
  cases drafted with
  | unchanged answer => cases passed
  | publish whole draftEffects draftReply =>
    rw [publish_eq] at passed
    obtain ⟨revision, follows, revised⟩ := ok_of_bind passed
    obtain ⟨index, quota, -, same, -⟩ := publishRevised_ok revised
    cases same
    exact follows

/-- Every publish on a whole root is the publish of some draft. -/
theorem apply_published (applied : kernel.apply digests (some root) command now = .ok (.publish published effects reply)) :
    ∃ drafted, publish digests kernel.limits (some root) drafted = .ok (.publish published effects reply) := by
  rw [apply_eq] at applied
  obtain ⟨-, -, pagesChecked⟩ := ok_of_bind applied
  obtain ⟨-, -, settledCommand⟩ := ok_of_bind pagesChecked
  obtain ⟨drafted, -, finished⟩ := ok_of_bind settledCommand
  obtain ⟨outcome, isPublished, guarded⟩ := ok_of_bind finished
  cases outcome with
  | unchanged answer => cases guarded
  | publish head headEffects headReply =>
    obtain ⟨same, -⟩ := checkGrowthHeadroom_ok guarded
    cases same
    exact ⟨drafted, isPublished⟩

theorem apply_revision (applied : kernel.apply digests (some root) command now = .ok (.publish published effects reply)) :
    published.rootRevision = root.rootRevision + 1 := by
  obtain ⟨drafted, isPublished⟩ := apply_published applied
  have follows := publish_revision isPublished
  rw [nextRevision] at follows
  split at follows
  · cases follows
  · rename_i revision succeeds
    cases follows
    exact checkedSuccU64_some succeeds

theorem advance_revision (advance : Advance kernel digests root command now (.ok (.publish published effects reply)) next) :
    next.rootRevision = root.rootRevision + 1 := by
  cases advance with
  | published held full whole index effects reply applied publication =>
    show full.rootRevision = root.rootRevision + 1
    exact apply_revision applied

variable {shared : Shared} (reached : Interleaving kernel ids shared)

include reached

/-- Each publish was computed on the root that the one before it left. -/
theorem interleaving_swap {proposal : Proposal} (proposed : proposal ∈ shared.proposals)
    (current : proposal.version = shared.version)
    (publishes : proposal.application.outcome = .ok (.publish published effects reply)) :
    proposal.application.before = shared.root ∧
      proposal.application.after.rootRevision = shared.root.rootRevision + 1 := by
  obtain ⟨lists, command, now, loads, application⟩ := ((interleaving_run reached).2 proposal proposed).2 current
  have base : proposal.application.before = shared.root := by rw [application]
  have swapped := (interleaving_run (.swap shared proposal published effects reply reached proposed current publishes)).1
  obtain ⟨-, advance, -⟩ := run_at swapped rfl
  rw [publishes, base] at advance
  exact ⟨base, advance_revision advance⟩

/-- The publishes follow each other from root to root, and each raises the revision by one. -/
structure RevisionChain (shared : Shared) : Prop where
  version : shared.version = shared.applied.length
  stored : shared.root.rootRevision = shared.applied.length + 1
  last : ∀ application ∈ shared.applied.getLast?, application.after = shared.root
  before : shared.applied.map (·.before.rootRevision) = List.range' 1 shared.applied.length
  after : shared.applied.map (·.after.rootRevision) = List.range' 2 shared.applied.length
  chained : shared.applied.IsChain fun first second => second.before = first.after

end Revisions

section Sequences

variable {kernel : Kernel} {ids : CollisionFree} {limits : Limits} {root whole next : Head} {now : Int64} {command : Command}
  {reply : Reply} {outcome : Except AgentError Transition}

/-- A later root is of a later incarnation, or its counters are at least those of the earlier one. -/
def Succeeds (earlier later : Head) : Prop :=
  earlier.incarnation < later.incarnation ∨ earlier.incarnation = later.incarnation ∧
    earlier.nextAcceptSeq ≤ later.nextAcceptSeq ∧ earlier.nextEventSeq ≤ later.nextEventSeq ∧
      earlier.timerGeneration ≤ later.timerGeneration

theorem Succeeds.refl (root : Head) : Succeeds root root :=
  .inr ⟨rfl, Nat.le_refl _, Nat.le_refl _, Nat.le_refl _⟩

theorem Succeeds.trans {first middle last : Head} (earlier : Succeeds first middle) (later : Succeeds middle last) :
    Succeeds first last := by
  unfold Succeeds at *
  omega

theorem timerChanges_generation_le (incarnation : Nat) (changes : List TimerChange) (table : TimerTable) :
    table.generation ≤ (changes.foldl (applyTimerChange ids.toDigests incarnation) table).generation := by
  induction changes generalizing table with
  | nil => exact Nat.le_refl _
  | cons change changes ih =>
    refine Nat.le_trans ?_ (ih (applyTimerChange ids.toDigests incarnation table change))
    cases change with
    | schedule spec => exact Nat.le_succ _
    | cancel timerKey => exact Nat.le_refl _

theorem step_succeeds (step : Step ids limits root now command whole reply) : Succeeds root whole := by
  cases step with
  | recreate c incarnation gone next => exact .inl (by rw [checkedSuccU64_some next]; exact Nat.lt_succ_self _)
  | accept c addressed unseen => exact .inr ⟨rfl, Nat.le_succ _, Nat.le_refl _, Nat.le_refl _⟩
  | scheduleTimer c addressed => exact .inr ⟨rfl, Nat.le_refl _, Nat.le_refl _, Nat.le_succ _⟩
  | fireTimer c timer addressed found due => exact .inr ⟨rfl, Nat.le_succ _, Nat.le_refl _, Nat.le_refl _⟩
  | complete c turn journaled onTurn open' waiting journal =>
    exact .inr ⟨rfl, Nat.le_refl _, Nat.le_add_right _ _, timerChanges_generation_le _ _ root.timerTable⟩
  | recordResult c effect addressed found pending attempted =>
    split
    · exact .inr ⟨rfl, Nat.le_refl _, Nat.le_succ _, Nat.le_refl _⟩
    · exact .refl root
  | grantReconcile c fence effect authority addressed found pending follows =>
    exact .inr ⟨rfl, Nat.le_refl _, Nat.le_succ _, Nat.le_refl _⟩
  | _ => exact .refl root

theorem advance_succeeds (advance : Advance kernel ids root command now outcome next) : Succeeds root next := by
  rcases advance_cases advance with rfl | ⟨_, _, _, whole, -, step, same⟩
  · exact .refl next
  · have grown := step_succeeds step
    rw [same.fields]
    exact grown

end Sequences

/-- What holds at the end of every run and is kept by one application holds of every root that was ever stored. -/
theorem history_holds {kernel : Kernel} {ids : CollisionFree} {holds : Head → Prop}
    (atEnd : ∀ {applied : List Applied} {root : Head}, Run kernel ids applied root → holds root)
    (step : ∀ {root : Head} {command : Command} {now : Int64} {outcome : Except AgentError Transition} {next : Head},
      RootInv ids kernel.limits root → Advance kernel ids root command now outcome next → holds root → holds next)
    (history : SharedHistory kernel ids.toDigests) :
    holds history.shared.root ∧ ∀ application ∈ history.shared.applied, holds application.before ∧ holds application.after := by
  obtain ⟨run, -⟩ := interleaving_run history.reached
  refine ⟨atEnd run, ?_⟩
  intro application member
  obtain ⟨earlier, later, cut⟩ := append_of_mem member
  obtain ⟨beforeRun, advance, -⟩ := run_at run cut
  have before := atEnd beforeRun
  exact ⟨before, step (rootInv_run beforeRun) advance before⟩

section Counters

variable {kernel : Kernel} {ids : CollisionFree} {digests : Digests} {limits : Limits} {root whole next published : Head}
  {drafted : Transition} {now : Int64} {command : Command} {effects : List Effect} {reply : Reply} {index : Index}
  {outcome : Except AgentError Transition}

/-- The counters of a root are those of its own lists, sealed pages included, and of the objects that it references. -/
structure Counted (root : Head) : Prop where
  mailbox : root.quota.mailboxDepth = root.inbox.length
  receipts : root.quota.receiptCount = root.receipts.length
  timers : root.quota.timerCount = root.timers.countP fun timer => timer.status = .scheduled
  bytes : root.quota.referencedBytes = min (root.payloadRefs.map (·.sizeBytes.toNat)).sum (2 ^ 64 - 1)

theorem counted_loaded (loaded : ∀ list, (root.index.directory list).unloadedPages = [])
    (computed : root.quota = root.computedQuota) : Counted root := by
  have noBytes : ∀ list, (root.index.directory list).unloadedReferencedBytes = 0 := by
    intro list
    rw [unloadedReferencedBytes_unloadedPages, loaded list]
    rfl
  constructor
  · rw [computed]
    show (root.index.directory .inbox).total root.inbox.length = root.inbox.length
    rw [total_unloadedPages, loaded .inbox]
    rfl
  · rw [computed]
    show (root.index.directory .receipts).total root.receipts.length = root.receipts.length
    rw [total_unloadedPages, loaded .receipts]
    rfl
  · rw [computed]
    show (root.index.directory .timers).unloadedMarked + _ = _
    rw [unloadedMarked_unloadedPages, loaded .timers]
    exact Nat.zero_add _
  · rw [computed, Head.computedQuota]
    simp only [noBytes]
    rw [foldl_saturatingAddU64 _ _ (by decide)]
    congr 1
    exact Nat.zero_add _

theorem Counted.settled (counted : Counted root) : Counted (settled digests root) := by
  have same := settled_same digests root root.index root.quota
  have refs : (Agents.settled digests root).payloadRefs.Perm root.payloadRefs := by
    rw [Head.payloadRefs, Head.payloadRefs]
    iterate 3 refine Perm.append ?_ (Perm.refl _)
    refine Perm.append ?_ (same.timers.filterMap _)
    refine Perm.append ?_ (same.events.filterMap _)
    refine Perm.append ?_ (same.results.filterMap _)
    exact (same.inbox.filterMap _).append_left _
  constructor
  · exact counted.mailbox.trans same.inbox.length_eq.symm
  · exact counted.receipts.trans same.receipts.length_eq.symm
  · exact counted.timers.trans (same.timers.countP_eq _).symm
  · rw [(refs.map _).sum_eq]
    exact counted.bytes

/-- A published root's counters are recomputed on its sealed lists. -/
theorem publish_quota {before : Option Head} (passed : publish digests limits before drafted = .ok (.publish published effects reply)) :
    published.quota = published.computedQuota := by
  cases drafted with
  | unchanged answer => cases passed
  | publish new draftEffects draftReply =>
    rw [publish_eq] at passed
    obtain ⟨revision, -, revised⟩ := ok_of_bind passed
    obtain ⟨sealed, -, counted⟩ := ok_of_bind revised
    obtain ⟨same, -⟩ := cappedPublish_ok counted
    cases same
    rfl

theorem publication_loaded (inv : RootInv digests limits root)
    (publication : Publication digests limits root now command reply published whole index) (list : ListKind) :
    (published.index.directory list).unloadedPages = [] := by
  have tracked := (tracked_of_step inv publication.step).revised published.rootRevision
  obtain ⟨base, baseInv, edits⟩ := editsRoot_exists inv publication.step
  have revised : EditsRoot digests base { whole with rootRevision := published.rootRevision } := { edits with }
  obtain ⟨sealedIndex, sealedHead, sealed⟩ := sealIndex_ok baseInv revised tracked publication.isSealed
  have sameIndex : index = sealedIndex := congrArg Head.index sealedHead
  rw [publication.outcome, sameIndex]
  cases list with
  | inbox => obtain ⟨_, _, -, inbox⟩ := sealed.inbox; exact inbox.unloaded
  | receipts => obtain ⟨_, _, -, receipts⟩ := sealed.receipts; exact receipts.unloaded
  | results => obtain ⟨_, _, -, results⟩ := sealed.results; exact results.unloaded
  | events => obtain ⟨_, _, -, events⟩ := sealed.events; exact events.unloaded
  | timers => obtain ⟨_, _, -, timers⟩ := sealed.timers; exact timers.unloaded

theorem counted_advance (inv : RootInv ids kernel.limits root) (advance : Advance kernel ids root command now outcome next)
    (counted : Counted root) : Counted next := by
  cases advance with
  | refused error => exact counted
  | answered reply whole => exact counted
  | published held full whole index effects reply applied publication =>
    obtain ⟨drafted, isPublished⟩ := apply_published applied
    exact (counted_loaded (publication_loaded inv publication) (publish_quota isPublished)).settled

theorem counted_run {applied : List Applied} (run : Run kernel ids applied root) : Counted root := by
  induction run with
  | create c now published effects reply created =>
    have isPublished : publish ids kernel.limits none (createNew c) = .ok (.publish published effects reply) := created
    have index := (created_same created).2
    refine (counted_loaded ?_ (publish_quota isPublished)).settled
    intro list
    rw [index]
    cases list <;> rfl
  | apply applied root lists command now run loads ih =>
    have inv := rootInv_run run
    exact counted_advance inv (advance_of_apply inv loads) ih

end Counters

/-- The stored root, and every root a publish replaced or stored, keeps the invariant of the paged head. -/
theorem stored_roots_hold (kernel : Kernel) (ids : CollisionFree) (history : SharedHistory kernel ids.toDigests) :
    RootInv ids.toDigests kernel.limits history.shared.root ∧
      ∀ application ∈ history.shared.applied, RootInv ids.toDigests kernel.limits application.before ∧
        RootInv ids.toDigests kernel.limits application.after := by
  apply history_holds rootInv_run
  intro root command now outcome next inv advance _
  exact rootInv_advance inv advance

/-- The counters of every root that a caller stores are exact, whichever of its pages the caller had in memory. -/
theorem stored_counters_exact (kernel : Kernel) (ids : CollisionFree) (history : SharedHistory kernel ids.toDigests) :
    Counted history.shared.root ∧
      ∀ application ∈ history.shared.applied, Counted application.before ∧ Counted application.after := by
  apply history_holds counted_run
  intro root command now outcome next inv advance counted
  exact counted_advance inv advance counted

/-- No publish is lost or made twice: each follows from the root that the one before it stored, and the revision counts them. -/
theorem publishes_counted (kernel : Kernel) (ids : CollisionFree) (history : SharedHistory kernel ids.toDigests) :
    RevisionChain history.shared := by
  obtain ⟨shared, reached⟩ := history
  show RevisionChain shared
  induction reached with
  | create c now published effects reply created =>
    have isPublished : publish ids kernel.limits none (createNew c) = .ok (.publish published effects reply) := created
    have first := publish_revision isPublished
    rw [nextRevision, Except.ok.injEq] at first
    exact ⟨rfl, first.symm, by simp, rfl, rfl, .nil⟩
  | propose shared lists command now reached loads ih => exact ⟨ih.version, ih.stored, ih.last, ih.before, ih.after, ih.chained⟩
  | swap shared proposal published effects reply reached proposed current publishes ih =>
    obtain ⟨base, follows⟩ := interleaving_swap reached proposed current publishes
    rw [ih.stored] at follows
    constructor
    · rw [length_append, length_singleton, ← ih.version]
    · rw [length_append, length_singleton, follows]
    · simp
    · rw [map_append, map_singleton, length_append, length_singleton, List.range'_1_concat, ih.before, base, ih.stored,
        Nat.add_comm]
    · rw [map_append, map_singleton, length_append, length_singleton, List.range'_1_concat, ih.after, follows]
      congr 2
      omega
    · rw [isChain_append]
      refine ⟨ih.chained, .singleton _, ?_⟩
      intro application isLast next isNext
      rw [head?_singleton, Option.mem_some_iff] at isNext
      rw [← isNext, base, ih.last application isLast]

end Ravel.Agents
