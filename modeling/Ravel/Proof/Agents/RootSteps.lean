import Ravel.Proof.Agents.InputSteps
import Ravel.Proof.Agents.JournalSteps
import Ravel.Proof.Agents.LoadedLookups

namespace Ravel.Agents

open List Library

/-- How a timer table fits together, over a tail below which no timer is scheduled or added. -/
structure TableInv (digests : Digests) (incarnation tail : Nat) (before : List TimerEntry) (table : TimerTable) : Prop where
  ids : (table.timers.map (·.timerId)).Nodup
  keyed : ∀ timer ∈ table.timers, timer.timerId = digests.timerId incarnation timer.timerKey
  generations : (table.timers.map (·.generation)).Nodup
  bound : ∀ timer ∈ table.timers, timer.generation ≤ table.generation
  tailBound : tail ≤ table.generation + 1
  scheduledOpen : ∀ timer ∈ table.timers, timer.status = .scheduled → tail ≤ timer.generation
  edits : EditsAbove (·.generation) tail before table.timers

section Tables

variable {digests : Digests} {incarnation tail : Nat} {before : List TimerEntry} {table : TimerTable}

theorem tableInv_root {limits : Limits} {root : Head} (inv : RootInv digests limits root) :
    TableInv digests root.incarnation root.index.timers.tailFrom root.timers root.timerTable where
  ids := inv.tracked.timerIds
  keyed := inv.tracked.timerKeys
  generations := inv.tracked.generations
  bound := inv.tracked.generationBound
  tailBound := inv.paged.timerTail
  scheduledOpen := inv.paged.scheduledOpen
  edits timer member := .inr ⟨timer, member, rfl⟩

/-- A change of one timer's status to an ended one keeps the table. -/
theorem TableInv.ended (inv : TableInv digests incarnation tail before table) (test : TimerEntry → Bool)
    {status : TimerStatus} (exceeds : status ≠ .scheduled) :
    TableInv digests incarnation tail before
      { table with timers := updateFirst test (fun timer => { timer with status := status }) table.timers } where
  ids := by
    rw [map_updateFirst]
    · exact inv.ids
    · intro timer _
      rfl
  keyed timer member := by
    rcases mem_updateFirst member with old | ⟨changed, changedIn, -, rfl⟩
    · exact inv.keyed timer old
    · exact inv.keyed changed changedIn
  generations := by
    rw [map_updateFirst]
    · exact inv.generations
    · intro timer _
      rfl
  bound timer member := by
    rcases mem_updateFirst member with old | ⟨changed, changedIn, -, rfl⟩
    · exact inv.bound timer old
    · exact inv.bound changed changedIn
  tailBound := inv.tailBound
  scheduledOpen timer member scheduled := by
    rcases mem_updateFirst member with old | ⟨changed, changedIn, -, rfl⟩
    · exact inv.scheduledOpen timer old scheduled
    · exact absurd scheduled exceeds
  edits timer member := by
    rcases mem_updateFirst member with old | ⟨changed, changedIn, -, rfl⟩
    · exact inv.edits timer old
    · exact inv.edits changed changedIn

/-- The timer that a schedule places. -/
def scheduledTimer (digests : Digests) (incarnation : Nat) (table : TimerTable) (spec : TimerSpec) : TimerEntry where
  timerId := digests.timerId incarnation spec.timerKey
  timerKey := spec.timerKey
  generation := table.generation + 1
  dueUnixNs := spec.dueUnixNs
  handler := spec.handler
  payload := spec.payload
  status := .scheduled

theorem mem_schedule {spec : TimerSpec} {timer : TimerEntry}
    (member : timer ∈ (schedule digests incarnation table spec).timers) :
    timer ∈ table.timers ∨ timer = scheduledTimer digests incarnation table spec := by
  rw [schedule] at member
  dsimp only at member
  split at member
  · rcases mem_updateFirst member with old | ⟨changed, -, -, rfl⟩
    · exact .inl old
    · exact .inr rfl
  · rcases mem_append.mp member with old | added
    · exact .inl old
    · exact .inr (mem_singleton.mp added)

/-- The generations of a list stay distinct when one timer takes a new one. -/
theorem generations_replaced {timers : List TimerEntry} (distinct : (timers.map (·.generation)).Nodup) (test : TimerEntry → Bool)
    (entry : TimerEntry) (fresh : ∀ timer ∈ timers, timer.generation ≠ entry.generation) :
    ((updateFirst test (fun _ => entry) timers).map (·.generation)).Nodup := by
  induction timers with
  | nil => exact distinct
  | cons timer rest ih =>
    obtain ⟨absent, restDistinct⟩ := nodup_cons.mp distinct
    have restFresh : ∀ other ∈ rest, other.generation ≠ entry.generation := fun other member =>
      fresh other (mem_cons_of_mem timer member)
    rw [updateFirst]
    split
    · refine nodup_cons.mpr ⟨?_, restDistinct⟩
      intro listed
      obtain ⟨other, otherIn, same⟩ := mem_map.mp listed
      exact restFresh other otherIn same
    · refine nodup_cons.mpr ⟨?_, ih restDistinct restFresh⟩
      intro listed
      obtain ⟨other, otherIn, same⟩ := mem_map.mp listed
      rcases mem_updateFirst otherIn with old | ⟨_, -, -, rfl⟩
      · exact absent (mem_map.mpr ⟨other, old, same⟩)
      · exact fresh timer mem_cons_self same.symm

section

variable (inv : TableInv digests incarnation tail before table)

include inv

theorem TableInv.generation_fresh (spec : TimerSpec) :
    ∀ timer ∈ table.timers, timer.generation ≠ (scheduledTimer digests incarnation table spec).generation := by
  intro timer member same
  have bound := inv.bound timer member
  have placed : (scheduledTimer digests incarnation table spec).generation = table.generation + 1 := rfl
  omega

theorem TableInv.schedule (spec : TimerSpec) :
    TableInv digests incarnation tail before (schedule digests incarnation table spec) where
  ids := schedule_ids_distinct digests incarnation spec inv.ids
  keyed timer member := by
    rcases mem_schedule member with old | rfl
    · exact inv.keyed timer old
    · rfl
  generations := by
    have fresh := inv.generation_fresh spec
    rw [Agents.schedule]
    dsimp only
    split
    · exact generations_replaced inv.generations _ _ fresh
    · rw [map_append, nodup_append]
      refine ⟨inv.generations, by simp, ?_⟩
      intro generation listed other added same
      obtain ⟨timer, timerIn, rfl⟩ := mem_map.mp listed
      rw [map_singleton, mem_singleton] at added
      exact fresh timer timerIn (same.trans added)
  bound timer member := by
    rcases mem_schedule member with old | rfl
    · exact Nat.le_succ_of_le (inv.bound timer old)
    · exact Nat.le_refl _
  tailBound := Nat.le_succ_of_le inv.tailBound
  scheduledOpen timer member scheduled := by
    rcases mem_schedule member with old | rfl
    · exact inv.scheduledOpen timer old scheduled
    · exact inv.tailBound
  edits timer member := by
    rcases mem_schedule member with old | rfl
    · exact inv.edits timer old
    · exact .inl inv.tailBound

theorem TableInv.change (change : TimerChange) :
    TableInv digests incarnation tail before (applyTimerChange digests incarnation table change) := by
  cases change with
  | schedule spec => exact inv.schedule spec
  | cancel timerKey => exact inv.ended _ (by rintro ⟨⟩)

theorem TableInv.changes (changes : List TimerChange) :
    TableInv digests incarnation tail before (changes.foldl (applyTimerChange digests incarnation) table) := by
  induction changes generalizing table with
  | nil => exact inv
  | cons change others ih => exact ih (inv.change change)

end

end Tables

section StepToTable

variable {digests : Digests} {limits : Limits} {root whole : Head} {now : Int64} {command : Command} {reply : Reply}

theorem scheduled_found {timers : List TimerEntry} {timerId : Id128} {generation : Nat} {timer : TimerEntry}
    (found : timers.find? (fun timer =>
      decide (timer.timerId = timerId ∧ timer.generation = generation ∧ timer.status = .scheduled)) = some timer) :
    timer ∈ timers ∧ timer.timerId = timerId ∧ timer.generation = generation ∧ timer.status = .scheduled := by
  have passes := find?_some found
  exact ⟨mem_of_find?_eq_some found, of_decide_eq_true passes⟩

theorem tableInv_of_step (inv : RootInv digests limits root) (step : Step digests limits root now command whole reply)
    (same : whole.incarnation = root.incarnation) :
    TableInv digests root.incarnation root.index.timers.tailFrom root.timers whole.timerTable := by
  have table := tableInv_root inv
  cases step with
  | recreate c incarnation gone next =>
    have later : incarnation = root.incarnation := same
    have := checkedSuccU64_some next
    omega
  | complete c turn journaled onTurn open' waiting journal => exact table.changes c.timerChanges
  | scheduleTimer c addressed => exact table.schedule c.timer
  | fireTimer c timer addressed found due => exact table.ended _ (by rintro ⟨⟩)
  | cancelTimer c timer addressed found scheduled => exact table.ended _ (by rintro ⟨⟩)
  | recordResult c effect addressed found pending attempted =>
    split
    · exact table
    · exact table
  | _ => exact table

end StepToTable

/-- What a draft changed against the root whose directories it still carries. -/
structure EditsRoot (digests : Digests) (base whole : Head) : Prop where
  index : whole.index = base.index
  inbox : EditsAbove (inboxPages digests).key base.index.inbox.tailFrom base.inbox whole.inbox
  receipts : EditsAbove (receiptPages digests).key base.index.receipts.tailFrom base.receipts whole.receipts
  results : EditsAbove (resultPages digests).key base.index.results.tailFrom base.results whole.results
  events : EditsAbove (eventPages digests).key base.index.events.tailFrom base.events whole.events
  timers : EditsAbove (timerPages digests).key base.index.timers.tailFrom base.timers whole.timers
  inboxTail : base.index.inbox.tailFrom ≤ whole.nextAcceptSeq
  receiptTail : base.index.receipts.tailFrom ≤ whole.nextAcceptSeq
  resultTail : base.index.results.tailFrom ≤ whole.nextAcceptSeq
  eventTail : base.index.events.tailFrom ≤ whole.nextEventSeq
  timerTail : base.index.timers.tailFrom ≤ whole.timerGeneration + 1
  pendingOpen : ∀ entry ∈ whole.inbox, base.index.results.tailFrom ≤ entry.acceptSeq
  scheduledOpen : ∀ timer ∈ whole.timers, timer.status = .scheduled → base.index.timers.tailFrom ≤ timer.generation
  inOrder : whole.inbox.Pairwise fun left right => left.acceptSeq < right.acceptSeq
  oneTaken : ∃ taken, ∀ entry ∈ base.inbox, entry.acceptSeq ≠ taken → entry.acceptSeq ∈ whole.inbox.map (·.acceptSeq)

section Edits

variable {digests : Digests} {limits : Limits} {root whole : Head} {now : Int64} {command : Command} {reply : Reply}

theorem step_incarnation (step : Step digests limits root now command whole reply) :
    (whole.incarnation = root.incarnation ∧ whole.index = root.index) ∨ whole = recreated root (root.incarnation + 1) := by
  cases step with
  | recreate c incarnation gone next =>
    rw [checkedSuccU64_some next]
    exact .inr rfl
  | recordResult c effect addressed found pending attempted =>
    split
    · exact .inl ⟨rfl, rfl⟩
    · exact .inl ⟨rfl, rfl⟩
  | _ => exact .inl ⟨rfl, rfl⟩

theorem tracked_recreated (root : Head) (incarnation : Nat) : Tracked digests (recreated root incarnation) where
  started := Nat.le_refl 1
  conserved := Perm.refl _
  running _ isRunning := by cases isRunning
  completed := rfl
  failedTurns _ member := by cases member
  resultTurns _ member := by cases member
  receiptKeys := nodup_nil
  receiptSeqs := nodup_nil
  receiptBound _ member := by cases member
  timerIds := nodup_nil
  timerKeys _ member := by cases member
  generations := nodup_nil
  generationBound _ member := by cases member
  effectIds := nodup_nil
  eventSeqs := nodup_nil
  eventBound _ member := by cases member

/-- A step keeps how the entries of the root fit together. -/
theorem tracked_of_step (inv : RootInv digests limits root) (step : Step digests limits root now command whole reply) :
    Tracked digests whole := by
  have tracked := inv.tracked
  have inputs := inputEdit_of_step tracked inv.paged.inOrder step
  have receipts := receiptEdit_of_step step
  have events := eventEdit_of_step step
  rcases step_incarnation step with ⟨same, -⟩ | rfl
  · have table := tableInv_of_step inv step same
    exact {
      started := inputs.started tracked
      conserved := inputs.conserved tracked
      running := inputs.turnRunning tracked
      completed := inputs.completed tracked
      failedTurns := inputs.failedTurns tracked
      resultTurns := inputs.resultTurns tracked
      receiptKeys := receipts.receiptKeys tracked
      receiptSeqs := receipts.receiptSeqs tracked
      receiptBound := receipts.receiptBound tracked
      timerIds := table.ids
      timerKeys := by rw [same]; exact table.keyed
      generations := table.generations
      generationBound := table.bound
      effectIds := effectIds_of_step tracked.effectIds step
      eventSeqs := events.eventSeqs tracked
      eventBound := events.eventBound tracked }
  · exact tracked_recreated root _

theorem describes_nil {Entry : Type} (pages : PageEntry Entry) (size : Nat) : Describes digests pages size {} [] :=
  ⟨[], [], ⟨⟨List.Pairwise.nil, by simp, by simp, by simp⟩, rfl, rfl, by simp, by simp, by simp, by simp [contents],
    nodup_nil, nodup_nil, fun _ => rfl⟩⟩

/-- A root without entries has nothing in its directories. -/
theorem paged_nil {head : Head} (inbox : head.inbox = []) (receipts : head.receipts = []) (results : head.results = [])
    (events : head.events = []) (timers : head.timers = []) (index : head.index = {}) : Paged digests limits head where
  inbox := by rw [inbox, index]; exact describes_nil _ _
  receipts := by rw [receipts, index]; exact describes_nil _ _
  results := by rw [results, index]; exact describes_nil _ _
  events := by rw [events, index]; exact describes_nil _ _
  timers := by rw [timers, index]; exact describes_nil _ _
  inboxTail := by rw [index]; exact Nat.zero_le _
  receiptTail := by rw [index]; exact Nat.zero_le _
  resultTail := by rw [index]; exact Nat.zero_le _
  eventTail := by rw [index]; exact Nat.zero_le _
  timerTail := by rw [index]; exact Nat.zero_le _
  pendingOpen := by simp [inbox]
  scheduledOpen := by simp [timers]
  inboxOpen := by simp [index]
  allLoaded := by rw [index]; rfl
  inOrder := by rw [inbox]; exact List.Pairwise.nil

theorem editsAbove_refl {Entry : Type} (key : Entry → Nat) (tail : Nat) (entries : List Entry) :
    EditsAbove key tail entries entries :=
  fun entry member => .inr ⟨entry, member, rfl⟩

theorem editsRoot_refl (inv : RootInv digests limits root) : EditsRoot digests root root where
  index := rfl
  inbox := editsAbove_refl _ _ _
  receipts := editsAbove_refl _ _ _
  results := editsAbove_refl _ _ _
  events := editsAbove_refl _ _ _
  timers := editsAbove_refl _ _ _
  inboxTail := inv.paged.inboxTail
  receiptTail := inv.paged.receiptTail
  resultTail := inv.paged.resultTail
  eventTail := inv.paged.eventTail
  timerTail := inv.paged.timerTail
  pendingOpen := inv.paged.pendingOpen
  scheduledOpen := inv.paged.scheduledOpen
  inOrder := inv.paged.inOrder
  oneTaken := ⟨0, fun _ member _ => mem_map_of_mem member⟩

theorem InputEdit.inboxEdits (edit : InputEdit digests root whole) (paged : Paged digests limits root) :
    EditsAbove (inboxPages digests).key root.index.inbox.tailFrom root.inbox whole.inbox := by
  intro entry member
  cases edit with
  | kept inbox results next version incarnation running => exact .inr ⟨entry, inbox ▸ member, rfl⟩
  | accepted added inbox numbered untried results next version incarnation running =>
    rw [inbox] at member
    rcases mem_append.mp member with old | isAdded
    · exact .inr ⟨entry, old, rfl⟩
    · obtain rfl := mem_singleton.mp isAdded
      left
      show _ ≤ entry.acceptSeq
      rw [numbered]
      exact paged.inboxTail
  | settled acceptSeq result waiting inbox results numbered derived version next incarnation running =>
    rw [inbox] at member
    exact .inr ⟨entry, mem_of_mem_eraseP member, rfl⟩
  | retried acceptSeq turnId failedAttempts inbox derived results next version incarnation running =>
    rw [inbox] at member
    rcases mem_updateFirst member with old | ⟨before, beforeIn, -, rfl⟩
    · exact .inr ⟨entry, old, rfl⟩
    · exact .inr ⟨before, beforeIn, rfl⟩
  | restarted inbox results next version running incarnation =>
    rw [inbox] at member
    cases member

theorem InputEdit.resultEdits (edit : InputEdit digests root whole) (paged : Paged digests limits root) :
    EditsAbove (resultPages digests).key root.index.results.tailFrom root.results whole.results := by
  intro result member
  cases edit with
  | kept inbox results next version incarnation running => exact .inr ⟨result, results ▸ member, rfl⟩
  | accepted added inbox numbered untried results next version incarnation running =>
    exact .inr ⟨result, results ▸ member, rfl⟩
  | settled acceptSeq added waiting inbox results numbered derived version next incarnation running =>
    rw [results] at member
    rcases mem_append.mp member with old | isAdded
    · exact .inr ⟨result, old, rfl⟩
    · obtain rfl := mem_singleton.mp isAdded
      obtain ⟨entry, entryIn, same⟩ := mem_map.mp waiting
      left
      show _ ≤ result.acceptSeq
      rw [numbered, ← same]
      exact paged.pendingOpen entry entryIn
  | retried acceptSeq turnId failedAttempts inbox derived results next version incarnation running =>
    exact .inr ⟨result, results ▸ member, rfl⟩
  | restarted inbox results next version running incarnation =>
    rw [results] at member
    cases member

theorem InputEdit.pendingOpen (edit : InputEdit digests root whole) (paged : Paged digests limits root) :
    ∀ entry ∈ whole.inbox, root.index.results.tailFrom ≤ entry.acceptSeq := by
  intro entry member
  cases edit with
  | kept inbox results next version incarnation running => exact paged.pendingOpen entry (inbox ▸ member)
  | accepted added inbox numbered untried results next version incarnation running =>
    rw [inbox] at member
    rcases mem_append.mp member with old | isAdded
    · exact paged.pendingOpen entry old
    · obtain rfl := mem_singleton.mp isAdded
      rw [numbered]
      exact paged.resultTail
  | settled acceptSeq result waiting inbox results numbered derived version next incarnation running =>
    rw [inbox] at member
    exact paged.pendingOpen entry (mem_of_mem_eraseP member)
  | retried acceptSeq turnId failedAttempts inbox derived results next version incarnation running =>
    rw [inbox] at member
    rcases mem_updateFirst member with old | ⟨before, beforeIn, -, rfl⟩
    · exact paged.pendingOpen entry old
    · exact paged.pendingOpen before beforeIn
  | restarted inbox results next version running incarnation =>
    rw [inbox] at member
    cases member

/-- At most one input leaves the inbox in a step. -/
theorem InputEdit.oneTaken (edit : InputEdit digests root whole) (tracked : Tracked digests root)
    (same : whole.incarnation = root.incarnation) :
    ∃ taken, ∀ entry ∈ root.inbox, entry.acceptSeq ≠ taken → entry.acceptSeq ∈ whole.inbox.map (·.acceptSeq) := by
  cases edit with
  | kept inbox results next version incarnation running =>
    rw [inbox]
    exact ⟨0, fun _ member _ => mem_map_of_mem member⟩
  | accepted added inbox numbered untried results next version incarnation running =>
    rw [inbox]
    exact ⟨0, fun _ member _ => mem_map_of_mem (mem_append_left _ member)⟩
  | settled acceptSeq result waiting inbox results numbered derived version next incarnation running =>
    rw [inbox]
    exact ⟨acceptSeq, fun _ member other => mem_map_of_mem ((mem_withoutInput tracked).mpr ⟨member, other⟩)⟩
  | retried acceptSeq turnId failedAttempts inbox derived results next version incarnation running =>
    rw [inbox, map_updateFirst]
    · exact ⟨0, fun _ member _ => mem_map_of_mem member⟩
    · intro entry _
      rfl
  | restarted inbox results next version running incarnation => exact absurd same incarnation

/-- The next input number never goes back within an incarnation. -/
theorem step_next_le (step : Step digests limits root now command whole reply) (same : whole.incarnation = root.incarnation) :
    root.nextAcceptSeq ≤ whole.nextAcceptSeq := by
  cases step with
  | recreate c incarnation gone next =>
    have later : incarnation = root.incarnation := same
    have := checkedSuccU64_some next
    omega
  | accept c addressed unseen => exact Nat.le_succ _
  | fireTimer c timer addressed found due => exact Nat.le_succ _
  | recordResult c effect addressed found pending attempted =>
    split
    · exact Nat.le_refl _
    · exact Nat.le_refl _
  | _ => exact Nat.le_refl _

theorem ReceiptEdit.receiptEdits (edit : ReceiptEdit root whole) (paged : Paged digests limits root) :
    EditsAbove (receiptPages digests).key root.index.receipts.tailFrom root.receipts whole.receipts := by
  intro receipt member
  cases edit with
  | kept receipts next => exact .inr ⟨receipt, receipts ▸ member, rfl⟩
  | added new receipts numbered unseen next =>
    rw [receipts] at member
    rcases mem_append.mp member with old | isAdded
    · exact .inr ⟨receipt, old, rfl⟩
    · obtain rfl := mem_singleton.mp isAdded
      left
      show _ ≤ receipt.acceptSeq
      rw [numbered]
      exact paged.receiptTail
  | restarted receipts incarnation =>
    rw [receipts] at member
    cases member

theorem EventEdit.eventEdits (edit : EventEdit root whole) (paged : Paged digests limits root) :
    EditsAbove (eventPages digests).key root.index.events.tailFrom root.events whole.events := by
  intro event member
  cases edit with
  | kept events next => exact .inr ⟨event, events ▸ member, rfl⟩
  | added entries events numbered next =>
    rw [events] at member
    rcases mem_append.mp member with old | isAdded
    · exact .inr ⟨event, old, rfl⟩
    · have listed : event.eventSeq ∈ entries.map (·.eventSeq) := mem_map_of_mem isAdded
      rw [numbered, mem_range'_1] at listed
      exact .inl (Nat.le_trans paged.eventTail listed.1)
  | restarted events incarnation =>
    rw [events] at member
    cases member

theorem EventEdit.eventTail (edit : EventEdit root whole) (paged : Paged digests limits root)
    (same : whole.incarnation = root.incarnation) : root.index.events.tailFrom ≤ whole.nextEventSeq := by
  have before := paged.eventTail
  cases edit with
  | kept events next => omega
  | added entries events numbered next => omega
  | restarted events incarnation => exact absurd same incarnation

/-- Within an incarnation, a step changes the lists where their directories allow it. -/
theorem editsRoot_of_step (inv : RootInv digests limits root) (step : Step digests limits root now command whole reply)
    (same : whole.incarnation = root.incarnation) (index : whole.index = root.index) : EditsRoot digests root whole := by
  have inputs := inputEdit_of_step inv.tracked inv.paged.inOrder step
  have receipts := receiptEdit_of_step step
  have events := eventEdit_of_step step
  have table := tableInv_of_step inv step same
  have next := step_next_le step same
  exact {
    index := index
    inbox := inputs.inboxEdits inv.paged
    receipts := receipts.receiptEdits inv.paged
    results := inputs.resultEdits inv.paged
    events := events.eventEdits inv.paged
    timers := table.edits
    inboxTail := Nat.le_trans inv.paged.inboxTail next
    receiptTail := Nat.le_trans inv.paged.receiptTail next
    resultTail := Nat.le_trans inv.paged.resultTail next
    eventTail := events.eventTail inv.paged same
    timerTail := table.tailBound
    pendingOpen := inputs.pendingOpen inv.paged
    scheduledOpen := table.scheduledOpen
    inOrder := inputs.inOrder inv.tracked inv.paged.inOrder
    oneTaken := inputs.oneTaken inv.tracked same }

/-- Every draft edits a root whose directories it still carries. -/
theorem editsRoot_exists (inv : RootInv digests limits root) (step : Step digests limits root now command whole reply) :
    ∃ base, RootInv digests limits base ∧ EditsRoot digests base whole := by
  rcases step_incarnation step with ⟨same, index⟩ | restarted
  · exact ⟨root, inv, editsRoot_of_step inv step same index⟩
  · have fresh : RootInv digests limits whole := by
      rw [restarted]
      exact ⟨tracked_recreated root _, paged_nil rfl rfl rfl rfl rfl rfl⟩
    exact ⟨whole, fresh, editsRoot_refl fresh⟩

end Edits

end Ravel.Agents
