import Ravel.Proof.Agents.AcceptedOnce

namespace Ravel.Agents

open List Library

/-- A timer and what it has become: the same generation, whose end is final, or a later one. -/
def TimerProgress (before after : TimerEntry) : Prop :=
  (after.generation = before.generation ∧ after.dueUnixNs = before.dueUnixNs ∧
    (before.status ≠ .scheduled → after.status = before.status)) ∨ before.generation < after.generation

theorem TimerProgress.refl (timer : TimerEntry) : TimerProgress timer timer :=
  .inl ⟨rfl, rfl, fun _ => rfl⟩

theorem TimerProgress.trans {first second third : TimerEntry} (left : TimerProgress first second)
    (right : TimerProgress second third) : TimerProgress first third := by
  rcases left with ⟨sameGeneration, sameDue, ended⟩ | later
  · rcases right with ⟨stillGeneration, stillDue, stillEnded⟩ | later
    · refine .inl ⟨stillGeneration.trans sameGeneration, stillDue.trans sameDue, ?_⟩
      intro isEnded
      have sameStatus := ended isEnded
      rw [stillEnded (by rw [sameStatus]; exact isEnded), sameStatus]
    · exact .inr (by omega)
  · rcases right with ⟨stillGeneration, -, -⟩ | evenLater
    · exact .inr (by omega)
    · exact .inr (by omega)

/-- Every timer of one list goes on in another. -/
def TimersGoOn (before after : List TimerEntry) : Prop :=
  ∀ timer ∈ before, ∃ current ∈ after, current.timerId = timer.timerId ∧ TimerProgress timer current

theorem TimersGoOn.refl (timers : List TimerEntry) : TimersGoOn timers timers :=
  fun timer member => ⟨timer, member, rfl, .refl timer⟩

theorem TimersGoOn.trans {first second third : List TimerEntry} (left : TimersGoOn first second)
    (right : TimersGoOn second third) : TimersGoOn first third := by
  intro timer member
  obtain ⟨middle, middleIn, middleId, middleProgress⟩ := left timer member
  obtain ⟨current, currentIn, currentId, progress⟩ := right middle middleIn
  exact ⟨current, currentIn, currentId.trans middleId, middleProgress.trans progress⟩

section Tables

variable {digests : Digests} {incarnation tail : Nat} {base : List TimerEntry} {table : TimerTable}

theorem goOn_updateFirst {timers : List TimerEntry} {test : TimerEntry → Bool} {change : TimerEntry → TimerEntry}
    (progress : ∀ timer ∈ timers, test timer = true → (change timer).timerId = timer.timerId ∧ TimerProgress timer (change timer)) :
    TimersGoOn timers (updateFirst test change timers) := by
  induction timers with
  | nil => exact .refl []
  | cons first rest ih =>
    rw [updateFirst]
    split
    · rename_i passes
      obtain ⟨sameId, changed⟩ := progress first mem_cons_self passes
      intro timer member
      rcases mem_cons.mp member with rfl | inRest
      · exact ⟨_, mem_cons_self, sameId, changed⟩
      · exact ⟨timer, mem_cons_of_mem _ inRest, rfl, .refl timer⟩
    · have restGoesOn := ih fun timer member => progress timer (mem_cons_of_mem first member)
      intro timer member
      rcases mem_cons.mp member with rfl | inRest
      · exact ⟨timer, mem_cons_self, rfl, .refl timer⟩
      · obtain ⟨current, currentIn, sameId, goesOn⟩ := restGoesOn timer inRest
        exact ⟨current, mem_cons_of_mem _ currentIn, sameId, goesOn⟩

theorem goOn_ended {timers : List TimerEntry} {test : TimerEntry → Bool} {status : TimerStatus}
    (scheduled : ∀ timer ∈ timers, test timer = true → timer.status = .scheduled) :
    TimersGoOn timers (updateFirst test (fun timer => { timer with status := status }) timers) := by
  apply goOn_updateFirst
  intro timer member passes
  exact ⟨rfl, .inl ⟨rfl, rfl, fun ended => absurd (scheduled timer member passes) ended⟩⟩

theorem goOn_schedule (inv : TableInv digests incarnation tail base table) (spec : TimerSpec) :
    TimersGoOn table.timers (schedule digests incarnation table spec).timers := by
  rw [schedule]
  dsimp only
  split
  · apply goOn_updateFirst
    intro timer member passes
    have named : timer.timerId = digests.timerId incarnation spec.timerKey := of_decide_eq_true passes
    have bound := inv.bound timer member
    exact ⟨named.symm, .inr (Nat.lt_succ_of_le bound)⟩
  · intro timer member
    exact ⟨timer, mem_append_left _ member, rfl, .refl timer⟩

theorem goOn_changes (inv : TableInv digests incarnation tail base table) (changes : List TimerChange) :
    TimersGoOn table.timers (changes.foldl (applyTimerChange digests incarnation) table).timers := by
  induction changes generalizing table with
  | nil => exact .refl _
  | cons change others ih =>
    have first : TimersGoOn table.timers (applyTimerChange digests incarnation table change).timers := by
      cases change with
      | schedule spec => exact goOn_schedule inv spec
      | cancel timerKey =>
        apply goOn_ended
        intro timer _ passes
        exact (of_decide_eq_true passes).2
    exact first.trans (ih (inv.change change))

end Tables

section Steps

variable {digests : Digests} {limits : Limits} {root whole : Head} {now : Int64} {command : Command} {reply : Reply}

/-- A look-up by identifier finds the one timer that an update by identifier changes. -/
theorem timer_of_id (tracked : Tracked digests root) {timer other : TimerEntry} (member : timer ∈ root.timers)
    (otherIn : other ∈ root.timers) (sameId : timer.timerId = other.timerId) : timer = other :=
  inj_on_of_nodup_map tracked.timerIds member otherIn sameId

/-- Within an incarnation every timer goes on. -/
theorem timersGoOn_step (inv : RootInv digests limits root) (step : Step digests limits root now command whole reply)
    (same : whole.incarnation = root.incarnation) : TimersGoOn root.timers whole.timers := by
  have unchanged := TimersGoOn.refl root.timers
  cases step with
  | recreate c incarnation gone next =>
    have later : incarnation = root.incarnation := same
    have := checkedSuccU64_some next
    omega
  | complete c turn journaled onTurn open' waiting journal => exact goOn_changes (tableInv_root inv) c.timerChanges
  | scheduleTimer c addressed => exact goOn_schedule (tableInv_root inv) c.timer
  | fireTimer c timer addressed found due =>
    obtain ⟨member, named, -, scheduled⟩ := scheduled_found found
    apply goOn_ended
    intro other otherIn passes
    rw [timer_of_id inv.tracked otherIn member ((of_decide_eq_true passes).trans named.symm)]
    exact scheduled
  | cancelTimer c timer addressed found scheduled =>
    have passes := find?_some found
    have named : timer.timerId = digests.timerId root.incarnation c.timerKey := of_decide_eq_true passes
    apply goOn_ended
    intro other otherIn otherPasses
    rw [timer_of_id inv.tracked otherIn (mem_of_find?_eq_some found)
      ((of_decide_eq_true otherPasses).trans named.symm)]
    exact scheduled
  | recordResult c effect addressed found pending attempted =>
    split
    · exact unchanged
    · exact unchanged
  | _ => exact unchanged

/-- What the delivery of a timer found and left. -/
structure Delivered (root whole : Head) (now : Int64) (timerId : Id128) (generation : Nat) (timer : TimerEntry) : Prop where
  member : timer ∈ root.timers
  named : timer.timerId = timerId
  generated : timer.generation = generation
  scheduled : timer.status = .scheduled
  due : timer.dueUnixNs ≤ now
  input : whole.inbox.Perm (root.inbox ++ [timerInput root timer now])
  delivered : { timer with status := .delivered } ∈ whole.timers

theorem delivered_of_step (tracked : Tracked digests root) {c : FireTimer}
    (step : Step digests limits root now (.fireTimer c) whole reply) :
    ∃ timer, Delivered root whole now c.timerId c.generation timer := by
  cases step with
  | fireTimer c timer addressed found due =>
    obtain ⟨member, named, generated, scheduled⟩ := scheduled_found found
    refine ⟨timer, member, named, generated, scheduled, due, Perm.refl _, ?_⟩
    show _ ∈ updateFirst _ _ root.timers
    rw [(atMostOne_key tracked.timerIds c.timerId).updateFirst_eq_map]
    exact mem_map.mpr ⟨timer, member, if_pos (decide_eq_true named)⟩
  | block command fence turn error fenced onTurn => cases fenced

/-- Every timer key of a step was there before, or is a text of the command. -/
theorem timerKeys_changes {incarnation : Nat} (changes : List TimerChange) {table : TimerTable} {timer : TimerEntry}
    (member : timer ∈ (changes.foldl (applyTimerChange digests incarnation) table).timers) :
    timer.timerKey ∈ table.timers.map (·.timerKey) ∨ timer.timerKey ∈ changes.flatMap timerChangeStrings := by
  induction changes generalizing table with
  | nil => exact .inl (mem_map_of_mem member)
  | cons change others ih =>
    rw [flatMap_cons, mem_append]
    rcases ih member with changed | inOthers
    · obtain ⟨current, currentIn, sameKey⟩ := mem_map.mp changed
      rw [← sameKey]
      cases change with
      | schedule spec =>
        rcases mem_schedule currentIn with old | rfl
        · exact .inl (mem_map_of_mem old)
        · exact .inr (.inl mem_cons_self)
      | cancel timerKey =>
        rcases mem_updateFirst currentIn with old | ⟨cancelled, cancelledIn, -, rfl⟩
        · exact .inl (mem_map_of_mem old)
        · exact .inl (mem_map.mpr ⟨cancelled, cancelledIn, rfl⟩)
    · exact .inr (.inr inOthers)

theorem timerKeys_step (step : Step digests limits root now command whole reply) {timer : TimerEntry}
    (member : timer ∈ whole.timers) :
    timer.timerKey ∈ root.timers.map (·.timerKey) ∨ timer.timerKey ∈ callerStrings command := by
  cases step with
  | recreate c incarnation gone next => cases member
  | complete c turn journaled onTurn open' waiting journal =>
    rcases timerKeys_changes c.timerChanges member with old | named
    · exact .inl old
    · right
      rw [callerStrings]
      exact mem_append_left _ (mem_append_right _ named)
  | scheduleTimer c addressed =>
    rcases mem_schedule member with old | rfl
    · exact .inl (mem_map_of_mem old)
    · exact .inr mem_cons_self
  | fireTimer c fired addressed found due =>
    rcases mem_updateFirst member with old | ⟨changed, changedIn, -, rfl⟩
    · exact .inl (mem_map_of_mem old)
    · exact .inl (mem_map.mpr ⟨changed, changedIn, rfl⟩)
  | cancelTimer c cancelled addressed found scheduled =>
    rcases mem_updateFirst member with old | ⟨changed, changedIn, -, rfl⟩
    · exact .inl (mem_map_of_mem old)
    · exact .inl (mem_map.mpr ⟨changed, changedIn, rfl⟩)
  | recordResult c effect addressed found pending attempted =>
    split at member
    · exact .inl (mem_map_of_mem member)
    · exact .inl (mem_map_of_mem member)
  | _ => exact .inl (mem_map_of_mem member)

end Steps

section Runs

variable {kernel : Kernel} {ids : CollisionFree} {root next : Head} {command : Command} {now : Int64}
  {outcome : Except AgentError Transition}

/-- No timer key is longer than a text of a caller. -/
def ShortKeys (limits : Limits) (root : Head) : Prop :=
  ∀ timer ∈ root.timers, timer.timerKey.utf8ByteSize ≤ limits.maxStringBytes

theorem short_of_checkStrings {digests : Digests} {limits : Limits} (passed : checkStrings digests limits root command = .ok ())
    {text : String} (carried : text ∈ callerStrings command) : text.utf8ByteSize ≤ limits.maxStringBytes := by
  unfold checkStrings at passed
  obtain ⟨short, passed⟩ := ok_of_guard passed
  by_contra long
  apply short
  rw [overLong, any_eq_true]
  exact ⟨text, carried, decide_eq_true (Nat.lt_of_not_le long)⟩

theorem shortKeys_advance (advance : Advance kernel ids root command now outcome next)
    (short : ShortKeys kernel.limits root) : ShortKeys kernel.limits next := by
  rcases advance_cases advance with rfl | ⟨held, effects, reply, whole, published, step, same⟩
  · exact short
  · rw [published] at advance
    have passed := strings_of_advance advance
    intro timer member
    rcases timerKeys_step step (same.timers.mem_iff.mp member) with old | carried
    · obtain ⟨earlier, earlierIn, sameKey⟩ := mem_map.mp old
      rw [← sameKey]
      exact short earlier earlierIn
    · exact short_of_checkStrings passed carried

theorem shortKeys_run {applied : List Applied} (run : Run kernel ids applied root) : ShortKeys kernel.limits root := by
  apply run_keeps (ShortKeys kernel.limits) _ _ run
  · intro base root same timer member
    rw [same.timers.eq_nil] at member
    cases member
  · intro root next command now outcome inv advance short
    exact shortKeys_advance advance short

/-- What has become of one timer, given by an earlier entry and its incarnation. -/
def TimerTraced (incarnation : Nat) (timer : TimerEntry) (root : Head) : Prop :=
  incarnation ≤ root.incarnation ∧ (root.incarnation = incarnation →
    ∃ current ∈ root.timers, current.timerId = timer.timerId ∧ TimerProgress timer current)

theorem timerTraced_advance {incarnation : Nat} {timer : TimerEntry} (inv : RootInv ids kernel.limits root)
    (advance : Advance kernel ids root command now outcome next) (traced : TimerTraced incarnation timer root) :
    TimerTraced incarnation timer next := by
  have later := advance_incarnation_le advance
  refine ⟨Nat.le_trans traced.1 later, ?_⟩
  intro isCurrent
  have wasCurrent : root.incarnation = incarnation := Nat.le_antisymm (by omega) traced.1
  rcases advance_cases advance with rfl | ⟨_, _, reply, whole, -, step, same⟩
  · exact traced.2 isCurrent
  · have sameIncarnation : next.incarnation = whole.incarnation := by rw [same.fields]
    have goesOn := timersGoOn_step inv step (by rw [← sameIncarnation, isCurrent, wasCurrent])
    obtain ⟨middle, middleIn, middleId, progress⟩ := traced.2 wasCurrent
    obtain ⟨current, currentIn, currentId, further⟩ := goesOn middle middleIn
    exact ⟨current, same.timers.mem_iff.mpr currentIn, currentId.trans middleId, progress.trans further⟩

theorem progress_of_traced {incarnation : Nat} {key : String} {timer current : TimerEntry}
    (tracked : Tracked ids root) (derived : timer.timerId = ids.timerId incarnation key)
    (traced : TimerTraced incarnation timer root) (member : current ∈ root.timers) (sameId : current.timerId = timer.timerId) :
    TimerProgress timer current := by
  have isCurrent : root.incarnation = incarnation := by
    have currentDerived := tracked.timerKeys current member
    rw [sameId, derived] at currentDerived
    exact (ids.timerId_injective currentDerived).1.symm
  obtain ⟨other, otherIn, otherId, progress⟩ := traced.2 isCurrent
  rw [timer_of_id tracked member otherIn (sameId.trans otherId.symm)]
  exact progress

/-- The application delivers a generation of a timer. -/
def Applied.fires (application : Applied) (timerId : Id128) (generation : Nat) : Prop :=
  ∃ c, application.command = .fireTimer c ∧ c.timerId = timerId ∧ c.generation = generation ∧
    isPublish application.outcome = true

theorem delivered_of_advance {application : Applied} {timerId : Id128} {generation : Nat}
    (inv : RootInv ids kernel.limits application.before)
    (advance : Advance kernel ids application.before application.command application.now application.outcome
      application.after) (fires : application.fires timerId generation) :
    ∃ timer, Delivered application.before application.after application.now timerId generation timer := by
  obtain ⟨c, isFire, rfl, rfl, publishes⟩ := fires
  obtain ⟨published, effects, reply, outcome⟩ := publish_of_isPublish publishes
  rw [isFire, outcome] at advance
  obtain ⟨whole, step, same⟩ := advance_publish advance
  obtain ⟨timer, delivered⟩ := delivered_of_step inv.tracked step
  exact ⟨timer, { delivered with
    input := same.inbox.trans delivered.input
    delivered := same.timers.mem_iff.mpr delivered.delivered }⟩

variable {history : History kernel ids} {earlier later : List Applied} {first application : Applied}

variable {timer : TimerEntry} {generation : Nat} {timerId : Id128}

theorem timer_traced_onward {start : Head} {incarnation : Nat} (traced : TimerTraced incarnation timer start)
    (onward : Onward kernel ids start later root) :
    ∀ application ∈ later, RootInv ids kernel.limits application.before ∧
      Advance kernel ids application.before application.command application.now application.outcome
        application.after ∧
      TimerTraced incarnation timer application.before ∧ TimerTraced incarnation timer application.after :=
  (onward_keeps (TimerTraced incarnation timer)
    (fun _ _ _ _ _ inv advance traced => timerTraced_advance inv advance traced) onward traced).2

theorem timerTraced_self (member : timer ∈ root.timers) : TimerTraced root.incarnation timer root :=
  ⟨Nat.le_refl _, fun _ => ⟨timer, member, rfl, .refl timer⟩⟩

/-- A delivery after a root that lists the timer finds what the timer has become. -/
theorem fired_progress (cut : history.applied = earlier ++ first :: later) (member : timer ∈ first.before.timers)
    (inLater : application ∈ first :: later) (fires : application.fires timer.timerId generation) :
    ∃ current, TimerProgress timer current ∧ current.generation = generation ∧ current.status = .scheduled ∧
      current.dueUnixNs ≤ application.now := by
  obtain ⟨beforeRun, advance, onward⟩ := run_at history.run cut
  have inv := rootInv_run beforeRun
  have derived := inv.tracked.timerKeys timer member
  have start := timerTraced_self member
  obtain ⟨laterInv, laterAdvance, traced⟩ : RootInv ids kernel.limits application.before ∧
      Advance kernel ids application.before application.command application.now application.outcome
        application.after ∧ TimerTraced first.before.incarnation timer application.before := by
    rcases mem_cons.mp inLater with rfl | inRest
    · exact ⟨inv, advance, start⟩
    · obtain ⟨laterInv, laterAdvance, traced, -⟩ :=
        timer_traced_onward (timerTraced_advance inv advance start) onward application inRest
      exact ⟨laterInv, laterAdvance, traced⟩
  obtain ⟨current, delivered⟩ := delivered_of_advance laterInv laterAdvance fires
  refine ⟨current, ?_, delivered.generated, delivered.scheduled, delivered.due⟩
  exact progress_of_traced laterInv.tracked derived traced delivered.member delivered.named

/-- A delivered generation stays delivered until its key is scheduled again. -/
theorem delivered_traced (cut : history.applied = earlier ++ first :: later) (fires : first.fires timerId generation) :
    ∃ timer key, timer.timerId = timerId ∧ timer.generation = generation ∧ timer.status = .delivered ∧
      timerId = ids.timerId first.after.incarnation key ∧ RootInv ids kernel.limits first.after ∧
      timer ∈ first.after.timers ∧ Onward kernel ids first.after later history.root := by
  obtain ⟨beforeRun, advance, onward⟩ := run_at history.run cut
  have inv := rootInv_run beforeRun
  obtain ⟨timer, delivered⟩ := delivered_of_advance inv advance fires
  have nextInv := rootInv_advance inv advance
  refine ⟨{ timer with status := .delivered }, timer.timerKey, delivered.named, delivered.generated, rfl, ?_, nextInv,
    delivered.delivered, onward⟩
  have derived := nextInv.tracked.timerKeys { timer with status := .delivered } delivered.delivered
  rw [← delivered.named]
  exact derived

/-- A generation is delivered once. -/
theorem not_fired_again (cut : history.applied = earlier ++ first :: later) (fires : first.fires timerId generation)
    (inLater : application ∈ later) : ¬application.fires timerId generation := by
  intro firesAgain
  obtain ⟨timer, key, named, generated, isDelivered, derived, inv, member, onward⟩ := delivered_traced cut fires
  obtain ⟨laterInv, laterAdvance, traced, -⟩ := timer_traced_onward (timerTraced_self member) onward application inLater
  obtain ⟨current, delivered⟩ := delivered_of_advance laterInv laterAdvance firesAgain
  have progress := progress_of_traced laterInv.tracked (named.trans derived) traced delivered.member
    (delivered.named.trans named.symm)
  rcases progress with ⟨-, -, ended⟩ | rescheduled
  · have stillDelivered := ended (by rw [isDelivered]; rintro ⟨⟩)
    rw [delivered.scheduled, isDelivered] at stillDelivered
    cases stillDelivered
  · rw [delivered.generated, generated] at rescheduled
    exact Nat.lt_irrefl _ rescheduled

end Runs

section LateCancels

variable {digests : Digests} {limits : Limits} {kernel : Kernel} {root : Head} {now : Int64} {c : CancelTimer}

theorem lateCancel_answered (inv : RootInv digests kernel.limits root) (addressed : Addressed root c.fence.incarnation)
    {timer : TimerEntry} (member : timer ∈ root.timers) (named : timer.timerId = digests.timerId root.incarnation c.timerKey)
    (isDelivered : timer.status = .delivered) (short : c.timerKey.utf8ByteSize ≤ kernel.limits.maxStringBytes) :
    kernel.apply digests (some root) (.cancelTimer c) now = .ok (.unchanged .alreadyFired) := by
  have passed : checkStrings digests kernel.limits root (.cancelTimer c) = .ok () := by
    have fits : overLong (callerStrings (.cancelTimer c)) kernel.limits.maxStringBytes = false := by
      simp [overLong, callerStrings, Nat.not_lt.mpr short]
    unfold checkStrings
    rw [fits]
    rfl
  have found := (atMostOne_key inv.tracked.timerIds (digests.timerId root.incarnation c.timerKey)).find?_eq_some member
    (decide_eq_true named)
  refine apply_unpublished inv passed ?_ rfl
  show (checkIncarnation digests root c.fence >>= _) = _
  rw [checkIncarnation_addressed addressed, ok_bind]
  dsimp only
  rw [found]
  dsimp only
  rw [isDelivered]

variable {ids : CollisionFree} {history : History kernel ids} {earlier later : List Applied}
  {first application : Applied}

/-- While the key of a delivered generation is not scheduled again, a cancel of it answers that it fired. -/
theorem lateCancel_outcome (cut : history.applied = earlier ++ first :: later) {timerId : Id128} {generation : Nat}
    (fires : first.fires timerId generation) (inLater : application ∈ first :: later)
    (notRescheduled : ∀ timer ∈ application.after.timers, timer.timerId = timerId → timer.generation ≤ generation)
    (addressed : Addressed application.after c.fence.incarnation)
    (ofKey : ids.timerId application.after.incarnation c.timerKey = timerId) {lists : Lists}
    (loads : Loads ids application.after lists)
    (named : pagesNeeded ids (some (application.after.holding lists)) (.cancelTimer c) = []) :
    kernel.apply ids (some (application.after.holding lists)) (.cancelTimer c) now =
      .ok (.unchanged .alreadyFired) := by
  obtain ⟨timer, key, timerNamed, generated, isDelivered, derived, inv, member, onward⟩ := delivered_traced cut fires
  have start := timerTraced_self member
  obtain ⟨afterInv, traced⟩ : RootInv ids kernel.limits application.after ∧
      TimerTraced first.after.incarnation timer application.after := by
    rcases mem_cons.mp inLater with rfl | inRest
    · exact ⟨inv, start⟩
    · obtain ⟨beforeInv, advance, -, traced⟩ := timer_traced_onward start onward application inRest
      exact ⟨rootInv_advance beforeInv advance, traced⟩
  have short : ShortKeys kernel.limits application.after := by
    obtain ⟨front, back, split⟩ := append_of_mem inLater
    have regrouped : history.applied = (earlier ++ front) ++ application :: back := by rw [cut, split, append_assoc]
    obtain ⟨beforeRun, advance, -⟩ := run_at history.run regrouped
    exact shortKeys_advance advance (shortKeys_run beforeRun)
  have isCurrent := (ids.timerId_injective (ofKey.trans derived)).1
  obtain ⟨current, currentIn, currentId, progress⟩ := traced.2 isCurrent
  have currentNamed : current.timerId = ids.timerId application.after.incarnation c.timerKey := by
    rw [currentId, timerNamed, ofKey]
  have stillDelivered : current.status = .delivered := by
    rcases progress with ⟨-, -, ended⟩ | rescheduled
    · rw [ended (by rw [isDelivered]; rintro ⟨⟩), isDelivered]
    · have := notRescheduled current currentIn (currentId.trans timerNamed)
      omega
  have sameKey : current.timerKey = c.timerKey :=
    (ids.timerId_injective ((afterInv.tracked.timerKeys current currentIn).symm.trans currentNamed)).2
  have answered := @lateCancel_answered ids kernel application.after now c afterInv addressed current currentIn
    currentNamed stillDelivered (sameKey ▸ short current currentIn)
  have sameOutcome := @apply_read ids _ _ now (.cancelTimer c) kernel afterInv loads (pagesRead_of_named named)
  rw [answered] at sameOutcome
  exact sameOutcome.answered

end LateCancels

/-- In every run the timers have distinct identifiers, none that is scheduled is in a sealed page, each generation is delivered
at most once, not early, not after it ended and not after its key was scheduled again, and a cancel that comes after the delivery
answers that it fired until the key is scheduled again. -/
theorem timers_delivered_once (kernel : Kernel) (ids : CollisionFree) (history : History kernel ids.toDigests) :
    (history.root.timers.map (·.timerId)).Nodup ∧
    (∀ timer ∈ history.root.timers, timer.status = .scheduled → history.root.index.timers.isInline timer.generation = true) ∧
    (∀ (earlier later : List Applied) (first : Applied), history.applied = earlier ++ first :: later →
      ∀ timerId generation, first.fires timerId generation →
        (∃ entry, entry.source = .timer timerId generation ∧ first.after.inbox.Perm (first.before.inbox ++ [entry])) ∧
        ∀ application ∈ later, ¬application.fires timerId generation) ∧
    (∀ (earlier later : List Applied) (first : Applied), history.applied = earlier ++ first :: later →
      ∀ timer ∈ first.before.timers, ∀ application ∈ first :: later, ∀ generation,
        application.fires timer.timerId generation → timer.generation ≤ generation ∧
          (generation = timer.generation → timer.status = .scheduled ∧ timer.dueUnixNs ≤ application.now)) ∧
    (∀ (earlier later : List Applied) (first : Applied), history.applied = earlier ++ first :: later →
      ∀ timerId generation, first.fires timerId generation → ∀ application ∈ first :: later,
        (∀ timer ∈ application.after.timers, timer.timerId = timerId → timer.generation ≤ generation) →
          ∀ c, Addressed application.after c.fence.incarnation →
            ids.timerId application.after.incarnation c.timerKey = timerId →
              ∀ lists, Loads ids.toDigests application.after lists →
                pagesNeeded ids.toDigests (some (application.after.holding lists)) (.cancelTimer c) = [] → ∀ now,
                  kernel.apply ids.toDigests (some (application.after.holding lists)) (.cancelTimer c) now =
                    .ok (.unchanged .alreadyFired)) := by
  have inv := rootInv_run history.run
  refine ⟨inv.tracked.timerIds, ?_, ?_, ?_, ?_⟩
  · intro timer member scheduled
    have isOpen := inv.paged.scheduledOpen timer member scheduled
    rw [Directory.isInline, Directory.pageFor]
    simp [isOpen]
  · intro earlier later first cut timerId generation fires
    refine ⟨?_, fun application inLater => not_fired_again cut fires inLater⟩
    obtain ⟨beforeRun, advance, -⟩ := run_at history.run cut
    obtain ⟨timer, delivered⟩ := delivered_of_advance (rootInv_run beforeRun) advance fires
    refine ⟨timerInput first.before timer first.now, ?_, delivered.input⟩
    rw [timerInput, delivered.named, delivered.generated]
  · intro earlier later first cut timer member application inLater generation fires
    obtain ⟨current, progress, generated, scheduled, due⟩ := fired_progress cut member inLater fires
    rcases progress with ⟨sameGeneration, sameDue, ended⟩ | later
    · refine ⟨by omega, ?_⟩
      intro _
      refine ⟨?_, sameDue ▸ due⟩
      by_contra isEnded
      rw [ended isEnded] at scheduled
      exact isEnded scheduled
    · exact ⟨by omega, fun same => by omega⟩
  · intro earlier later first cut timerId generation fires application inLater notRescheduled c addressed ofKey lists loads named now
    exact lateCancel_outcome cut fires inLater notRescheduled addressed ofKey loads named

/-- A timer fires, its key is scheduled again, and then it is cancelled. -/
def cancelAfterReschedule : List (Command × Int64) :=
  [(.scheduleTimer ⟨⟨1⟩, ⟨"", 0, "", none⟩⟩, 0),
    (.fireTimer ⟨⟨1⟩, pairedIds.timerId 1 "", 1⟩, 0),
    (.scheduleTimer ⟨⟨1⟩, ⟨"", 0, "", none⟩⟩, 0),
    (.cancelTimer ⟨⟨1⟩, ""⟩, 0)]

/-- A cancel that comes after a delivery and a new schedule of the key cancels the new generation. -/
theorem rescheduled_cancel_answered :
    ¬∀ history : History roomyKernel pairedIds.toDigests, ∀ (earlier later : List Applied) (first : Applied),
      history.applied = earlier ++ first :: later → ∀ timerId generation, first.fires timerId generation →
        ∀ application ∈ later, ∀ c, application.command = .cancelTimer c →
          pairedIds.timerId application.before.incarnation c.timerKey = timerId →
            reply? application.outcome = some .alreadyFired := by
  intro answers
  obtain ⟨history, cut⟩ := unnamed_history_cut cancelAfterReschedule ⟨1, by decide +kernel⟩
  have answered := answers history _ _ _ cut (pairedIds.timerId 1 "") 1
    ⟨⟨⟨1⟩, pairedIds.timerId 1 "", 1⟩, rfl, rfl, rfl, by decide +kernel⟩
    ((replay roomyKernel pairedIds.toDigests unnamedRoot cancelAfterReschedule).1.get ⟨3, by decide +kernel⟩)
    (get_mem_drop _ (by decide)) ⟨⟨1⟩, ""⟩ rfl (by decide +kernel)
  revert answered
  decide +kernel

end Ravel.Agents
