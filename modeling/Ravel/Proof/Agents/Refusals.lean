import Ravel.Proof.Agents.RootRuns

namespace Ravel.Agents

open Library

/-- A refusal that names no missing page, no full directory and no byte cap. -/
structure AgentError.Plain (error : AgentError) : Prop where
  available : error.kind ≠ .storeUnavailable
  pages : error.cap ≠ some .indexPages
  bytes : error.cap ≠ some .headBytes

/-- Every refusal of a check is plain. -/
def PlainErrors {Value : Type} (outcome : Except AgentError Value) : Prop :=
  ∀ error, outcome = .error error → error.Plain

section Checks

variable {Value : Type} {digests : Digests} {limits : Limits} {head : Head}

theorem plainErrors_ok (value : Value) : PlainErrors (.ok value) := by
  rintro error ⟨⟩

variable {kind : ErrorKind} (reason : String) (fence : TurnFence) (acceptSeq : Nat)

theorem plainErrors_fail (available : kind ≠ .storeUnavailable) :
    PlainErrors (.error (fail digests head kind reason) : Except AgentError Value) := by
  intro error refused
  cases refused
  exact ⟨available, by rintro ⟨⟩, by rintro ⟨⟩⟩

theorem plainErrors_cap {cap : BudgetCap} (available : kind ≠ .storeUnavailable) (pages : cap ≠ .indexPages)
    (bytes : cap ≠ .headBytes) :
    PlainErrors (.error ((fail digests head kind reason).withCap cap) : Except AgentError Value) := by
  intro error refused
  cases refused
  exact ⟨available, fun same => pages (Option.some.inj same), fun same => bytes (Option.some.inj same)⟩

theorem plainErrors_bind {Outcome : Type} {check : Except AgentError Value} {next : Value → Except AgentError Outcome}
    (checked : PlainErrors check) (continued : ∀ value, PlainErrors (next value)) : PlainErrors (check >>= next) := by
  intro error refused
  rcases error_of_bind refused with failed | ⟨value, -, failed⟩
  · exact checked error failed
  · exact continued value error failed

theorem plainErrors_foldlM {Item : Type} {step : Value → Item → Except AgentError Value} (items : List Item) (start : Value)
    (plain : ∀ value item, PlainErrors (step value item)) : PlainErrors (items.foldlM step start) := by
  induction items generalizing start with
  | nil => exact plainErrors_ok start
  | cons item rest ih => exact plainErrors_bind (plain start item) fun next => ih next

theorem checkActive_plain : PlainErrors (checkActive digests head) := by
  rw [checkActive]
  split
  · exact plainErrors_ok ()
  · exact plainErrors_fail _ (by rintro ⟨⟩)

theorem checkIncarnation_plain (fence : IncarnationFence) : PlainErrors (checkIncarnation digests head fence) := by
  apply plainErrors_bind checkActive_plain
  intro _
  split
  · exact plainErrors_fail _ (by rintro ⟨⟩)
  · exact plainErrors_ok ()

theorem checkOwner_plain (fence : OwnerFence) : PlainErrors (checkOwner digests head fence) := by
  apply plainErrors_bind (checkIncarnation_plain _)
  intro _
  split
  · exact plainErrors_fail _ (by rintro ⟨⟩)
  · exact plainErrors_ok ()

theorem checkTurn_plain : PlainErrors (checkTurn digests head fence) := by
  apply plainErrors_bind (checkOwner_plain _)
  intro _
  split
  · split
    · exact plainErrors_ok _
    · exact plainErrors_fail _ (by rintro ⟨⟩)
  · split
    · exact plainErrors_fail _ (by rintro ⟨⟩)
    · split
      · exact plainErrors_fail _ (by rintro ⟨⟩)
      · exact plainErrors_ok _

theorem requireRunning_plain : PlainErrors (requireRunning digests head fence) := by
  apply plainErrors_bind (checkTurn_plain fence)
  intro checked
  split
  · exact plainErrors_fail _ (by rintro ⟨⟩)
  · split
    · exact plainErrors_fail _ (by rintro ⟨⟩)
    · exact plainErrors_ok _

theorem takeInput_plain : PlainErrors (takeInput digests head acceptSeq) := by
  rw [takeInput]
  split
  · exact plainErrors_ok _
  · exact plainErrors_fail _ (by rintro ⟨⟩)

theorem checkTimerCap_plain : PlainErrors (checkTimerCap digests limits head) := by
  rw [checkTimerCap]
  split
  · exact plainErrors_cap _ (by rintro ⟨⟩) (by rintro ⟨⟩) (by rintro ⟨⟩)
  · exact plainErrors_ok ()

theorem addIntent_plain (effects : List EffectRecord) (acceptSeq : Nat) (turnId : Id128) (intent : IntentSpec) :
    PlainErrors (addIntent digests head effects acceptSeq turnId intent) := by
  rw [addIntent]
  dsimp only
  split
  · split
    · exact plainErrors_ok _
    · exact plainErrors_fail _ (by rintro ⟨⟩)
  · exact plainErrors_ok _

theorem journalIntent_plain (turnId : Id128) (journaled : Journaled) (intent : IntentSpec) :
    PlainErrors (journalIntent digests head acceptSeq turnId journaled intent) := by
  apply plainErrors_bind (addIntent_plain _ _ _ _)
  rintro ⟨effects, added⟩
  dsimp only
  split
  · exact plainErrors_ok _
  · exact plainErrors_ok _

theorem unsettledEffect_plain {acceptSeq : Nat} {error : AgentError}
    (unsettled : unsettledEffect digests head acceptSeq = some error) : error.Plain := by
  obtain ⟨effect, -, refuses⟩ := List.exists_of_findSome?_eq_some unsettled
  split at refuses
  · cases refuses
    exact ⟨by rintro ⟨⟩, by rintro ⟨⟩, by rintro ⟨⟩⟩
  · cases refuses
    exact ⟨by rintro ⟨⟩, by rintro ⟨⟩, by rintro ⟨⟩⟩
  · cases refuses
  · cases refuses

end Checks

section Transitions

variable {digests : Digests} {limits : Limits} {head : Head} {now : Int64}

theorem completeTurn_plain (c : CompleteTurn) : PlainErrors (completeTurn digests limits head c now) := by
  apply plainErrors_bind (checkTurn_plain c.fence)
  intro checked
  split
  · exact plainErrors_ok _
  · split
    · exact plainErrors_fail _ (by rintro ⟨⟩)
    · split
      · exact plainErrors_fail _ (by rintro ⟨⟩)
      · split
        · exact plainErrors_bind (takeInput_plain _) fun _ => plainErrors_ok _
        · split
          · split
            · exact plainErrors_ok _
            · exact plainErrors_fail _ (by rintro ⟨⟩)
          · apply plainErrors_bind (takeInput_plain _)
            intro inbox
            apply plainErrors_bind checkTimerCap_plain
            intro _
            split
            · rename_i error failed
              split
              · exact plainErrors_ok _
              · intro other same
                cases same
                exact plainErrors_foldlM _ _ (fun _ _ => journalIntent_plain _ _ _ _) error failed
            · exact plainErrors_ok _

theorem failTurn_plain (c : FailTurn) : PlainErrors (failTurn digests head c now) := by
  apply plainErrors_bind (checkOwner_plain _)
  intro _
  split
  · exact plainErrors_ok _
  · apply plainErrors_bind (checkTurn_plain c.fence)
    intro checked
    split
    · exact plainErrors_ok _
    · split
      · rename_i unsettled
        intro other same
        cases same
        exact unsettledEffect_plain unsettled
      · split
        · exact plainErrors_bind (takeInput_plain _) fun _ => plainErrors_ok _
        · rw [failOpen]
          split
          · exact plainErrors_fail _ (by rintro ⟨⟩)
          · dsimp only
            split
            · exact plainErrors_ok _
            · exact plainErrors_bind (takeInput_plain _) fun _ => plainErrors_ok _

theorem checkOwnedEffect_plain (effect : EffectRecord) : PlainErrors (checkOwnedEffect digests head effect) := by
  rw [checkOwnedEffect]
  split
  · exact plainErrors_fail _ (by rintro ⟨⟩)
  · dsimp only
    split
    · exact plainErrors_fail _ (by rintro ⟨⟩)
    · exact plainErrors_ok _

theorem grantAttempt_plain (c : AuthorizeAttempt) (effect : EffectRecord) (owner : Bool) :
    PlainErrors (grantAttempt digests head c effect owner) := by
  rw [grantAttempt]
  split
  · exact plainErrors_fail _ (by rintro ⟨⟩)
  · split
    · exact plainErrors_ok _
    · exact plainErrors_ok _

theorem authorizeAttempt_plain (c : AuthorizeAttempt) : PlainErrors (authorizeAttempt digests head c) := by
  apply plainErrors_bind
  · cases c.authority with
    | owner fence => exact plainErrors_bind (checkOwner_plain fence) fun _ => plainErrors_ok _
    | reconcile fence => exact plainErrors_bind (checkIncarnation_plain fence) fun _ => plainErrors_ok _
  · intro owner
    split
    · exact plainErrors_fail _ (by rintro ⟨⟩)
    · split
      · exact plainErrors_ok _
      · split
        · exact plainErrors_ok _
        · split
          · exact plainErrors_fail _ (by rintro ⟨⟩)
          · dsimp only
            split
            · exact plainErrors_bind (checkOwnedEffect_plain _) fun _ => grantAttempt_plain c _ owner
            · exact grantAttempt_plain c _ owner

/-- No rule of a transition refuses for a page or for the byte cap. -/
theorem transition_plain (command : Command) : PlainErrors (transition digests limits head now command) := by
  cases command with
  | completeTurn c => exact completeTurn_plain c
  | failTurn c => exact failTurn_plain c
  | authorizeAttempt c => exact authorizeAttempt_plain c
  | _ =>
    simp only [transition, create, enqueue, takeover, beginTurn, cancel, settleCancelled, scheduleTimer, fireTimer, cancelTimer,
      tombstone, recordStep, commitIntent, recordEffectResult, mailboxFull]
    repeat' first
      | apply plainErrors_ok
      | (apply plainErrors_fail; rintro ⟨⟩)
      | (apply plainErrors_cap <;> rintro ⟨⟩)
      | refine plainErrors_bind (checkIncarnation_plain _) fun _ => ?_
      | refine plainErrors_bind (checkOwner_plain _) fun _ => ?_
      | refine plainErrors_bind (requireRunning_plain _) fun _ => ?_
      | refine plainErrors_bind (takeInput_plain _) fun _ => ?_
      | refine plainErrors_bind checkTimerCap_plain fun _ => ?_
      | refine plainErrors_bind (addIntent_plain _ _ _ _) fun _ => ?_
      | split

theorem checkStrings_plain (command : Command) : PlainErrors (checkStrings digests limits head command) := by
  unfold checkStrings
  repeat' first
    | apply plainErrors_ok
    | (apply plainErrors_fail; rintro ⟨⟩)
    | split

theorem nextRevision_plain (before : Option Head) : PlainErrors (nextRevision digests before) := by
  cases before with
  | none => exact plainErrors_ok 1
  | some before =>
    rw [nextRevision]
    split
    · exact plainErrors_fail _ (by rintro ⟨⟩)
    · exact plainErrors_ok _

end Transitions

section Refusals

variable {digests : Digests} {limits : Limits} {kernel : Kernel} {root : Head} {now : Int64} {command : Command}
  {error : AgentError}

/-- The reasons of the kernel to refuse a command on a whole root. -/
inductive Refusal (digests : Digests) (limits : Limits) (root : Head) (command : Command) (now : Int64) (error : AgentError) :
    Prop where
  | rule (plain : error.Plain)
  | fullDirectory (whole base : Head) (reply : Reply) (list : ListKind)
      (step : Step digests limits root now command whole reply) (inv : RootInv digests limits base)
      (edits : EditsRoot digests base whole) (tracked : Tracked digests whole)
      (exceeds : Overfull digests limits base whole list) (kind : error.kind = .budgetExceeded)
      (cap : error.cap = some .indexPages)
  | byteCap (whole published : Head) (reply : Reply) (index : Index)
      (step : Step digests limits root now command whole reply)
      (outcome : published = { whole with rootRevision := published.rootRevision, index := index, quota := published.quota })
      (isSealed : sealIndex digests { whole with rootRevision := published.rootRevision } limits.pageBounds =
        .ok { whole with rootRevision := published.rootRevision, index := index })
      (exceeds : limits.maxHeadBytes < published.encodedLen digests) (kind : error.kind = .budgetExceeded)
      (cap : error.cap = some .headBytes)
  | growthGuard (whole : Head) (reply : Reply) (step : Step digests limits root now command whole reply)
      (isGuarded : guarded root command reply = true) (kind : error.kind = .budgetExceeded)

variable {effects : List Effect} {reply : Reply} {revision : Nat}

theorem checkGrowthHeadroom_error {head : Head}
    (refused : checkGrowthHeadroom digests limits root command (.publish head effects reply) = .error error) :
    guarded root command reply = true ∧ error.kind = .budgetExceeded := by
  rw [checkGrowthHeadroom] at refused
  split at refused
  · cases refused
  · rename_i isGuarded
    have guards : guarded root command reply = true := by simpa using isGuarded
    split at refused
    · cases refused
      exact ⟨guards, rfl⟩
    · split at refused
      · cases refused
        exact ⟨guards, rfl⟩
      · cases refused

theorem cappedPublish_error {head : Head} (refused : cappedPublish digests limits head effects reply = .error error) :
    limits.maxHeadBytes < head.encodedLen digests ∧ error.kind = .budgetExceeded ∧ error.cap = some .headBytes := by
  rw [cappedPublish] at refused
  split at refused
  · rename_i exceeds
    cases refused
    exact ⟨exceeds, rfl, rfl⟩
  · cases refused

/-- A revision changes nothing that a seal looks at. -/
theorem overfull_revised {base whole : Head} {list : ListKind}
    (exceeds : Overfull digests limits base { whole with rootRevision := revision } list) :
    Overfull digests limits base whole list := by
  cases exceeds with
  | inbox groups rest described exceeds => exact .inbox groups rest described exceeds
  | receipts groups rest described exceeds => exact .receipts groups rest described exceeds
  | results groups rest described exceeds => exact .results groups rest described exceeds
  | events groups rest described exceeds => exact .events groups rest described exceeds
  | timers groups rest described exceeds => exact .timers groups rest described exceeds

/-- The seal and the cap refuse a draft of a whole root only for a full directory or for its bytes. -/
theorem publishRevised_refused {whole : Head} (inv : RootInv digests limits root)
    (step : Step digests limits root now command whole reply)
    (refused : publishRevised digests limits { whole with rootRevision := revision } effects reply = .error error) :
    Refusal digests limits root command now error := by
  have tracked := tracked_of_step inv step
  obtain ⟨base, baseInv, edits⟩ := editsRoot_exists inv step
  have revisedEdits : EditsRoot digests base { whole with rootRevision := revision } := { edits with }
  cases isSealed : sealIndex digests { whole with rootRevision := revision } limits.pageBounds with
  | error pageRefusal =>
    obtain ⟨list, isFull, exceeds⟩ := sealIndex_error baseInv revisedEdits (tracked.revised revision) isSealed
    rw [publishRevised, isSealed, isFull] at refused
    cases refused
    exact .fullDirectory whole base reply list step baseInv edits tracked (overfull_revised exceeds) rfl rfl
  | ok sealed =>
    obtain ⟨index, rfl⟩ := sealIndex_shape isSealed
    rw [publishRevised_sealed isSealed] at refused
    generalize Head.computedQuota _ = quota at refused
    obtain ⟨exceeds, kind, cap⟩ := cappedPublish_error refused
    exact .byteCap whole { whole with rootRevision := revision, index := index, quota := quota } reply index step rfl isSealed
      exceeds kind cap

theorem refusal_of_apply (inv : RootInv digests kernel.limits root)
    (refused : kernel.apply digests (some root) command now = .error error) :
    Refusal digests kernel.limits root command now error := by
  rw [apply_eq, checkPages_ok (pagesRead_root inv command)] at refused
  rcases error_of_bind refused with tooLong | ⟨_, -, checked⟩
  · exact .rule (checkStrings_plain command error tooLong)
  · rcases error_of_bind checked with ⟨⟨⟩⟩ | ⟨_, -, settled⟩
    rcases error_of_bind settled with ruledOut | ⟨drafted, isDrafted, finished⟩
    · exact .rule (transition_plain command error ruledOut)
    · rcases error_of_bind finished with unpublished | ⟨published, isPublished, unguarded⟩
      · cases drafted with
        | unchanged reply => cases unpublished
        | publish whole effects reply =>
          rw [publish_eq] at unpublished
          rcases error_of_bind unpublished with exhausted | ⟨revision, -, revised⟩
          · exact .rule (nextRevision_plain (some root) error exhausted)
          · exact publishRevised_refused inv (step_of_transition isDrafted) revised
      · cases drafted with
        | unchanged reply =>
          cases isPublished
          cases unguarded
        | publish whole effects reply =>
          rw [publish_eq] at isPublished
          obtain ⟨revision, -, revised⟩ := ok_of_bind isPublished
          obtain ⟨index, quota, -, rfl, -⟩ := publishRevised_ok revised
          obtain ⟨isGuarded, kind⟩ := checkGrowthHeadroom_error unguarded
          exact .growthGuard whole reply (step_of_transition isDrafted) isGuarded kind

/-- A command on a whole root is never refused for a page that is not loaded. -/
theorem available_of_apply (inv : RootInv digests kernel.limits root)
    (refused : kernel.apply digests (some root) command now = .error error) : error.kind ≠ .storeUnavailable := by
  cases refusal_of_apply inv refused with
  | rule plain => exact plain.available
  | fullDirectory whole base reply list step inv edits tracked exceeds kind cap =>
    rw [kind]
    rintro ⟨⟩
  | byteCap whole published reply index step outcome isSealed exceeds kind cap =>
    rw [kind]
    rintro ⟨⟩
  | growthGuard whole reply step isGuarded kind =>
    rw [kind]
    rintro ⟨⟩

end Refusals

end Ravel.Agents
