import Ravel.Proof.Agents.OwnerFencing

namespace Ravel.Agents

open List Library

/-- The change of one journaled effect in one step. -/
inductive EffectAdvance (reply : Reply) (before : EffectRecord) : EffectRecord → Prop where
  | latched (ambiguous : before.status = .authorized) :
      EffectAdvance reply before { before with status := .inDoubt }
  | granted (pending : before.status ≠ .completed) (answered : reply = .attemptAuthorized before.effectId (before.attempt + 1)) :
      EffectAdvance reply before { before with status := .authorized, attempt := before.attempt + 1 }
  | completed (result : ObjectRef) (pending : before.status ≠ .completed) :
      EffectAdvance reply before
        { before with status := .completed, result := some result, resultAttempt := before.attempt }

/-- An effect as an intent journals it. -/
structure FreshEffect (digests : Digests) (incarnation : Nat) (effect : EffectRecord) : Prop where
  derived : ∃ acceptSeq key, effect.effectId = digests.effectId incarnation acceptSeq key
  status : effect.status = .intent
  attempt : effect.attempt = 0

/-- The change of the effect journal in one step. -/
inductive EffectEdit (digests : Digests) (root whole : Head) (reply : Reply) : Prop where
  | kept (effects : whole.effects = root.effects) (incarnation : whole.incarnation = root.incarnation)
  | journaled (added : List EffectRecord) (effects : whole.effects = root.effects ++ added)
      (fresh : ∀ effect ∈ added, FreshEffect digests root.incarnation effect)
      (unseen : ∀ effect ∈ added, ∀ old ∈ root.effects, old.effectId ≠ effect.effectId)
      (incarnation : whole.incarnation = root.incarnation)
  | changed (before after : EffectRecord) (member : before ∈ root.effects) (advance : EffectAdvance reply before after)
      (effects : whole.effects = root.effects.map fun effect => if effect.effectId = before.effectId then after else effect)
      (incarnation : whole.incarnation = root.incarnation)
  | restarted (effects : whole.effects = []) (incarnation : root.incarnation < whole.incarnation)

section StepToEdit

variable {digests : Digests} {limits : Limits} {root whole : Head} {now : Int64} {command : Command} {reply : Reply}

/-- The effects that intents add to a journal. -/
def JournalGrowth (digests : Digests) (incarnation : Nat) (before after : List EffectRecord) : Prop :=
  ∃ added, after = before ++ added ∧ (∀ effect ∈ added, FreshEffect digests incarnation effect) ∧
    ∀ effect ∈ added, ∀ old ∈ before, old.effectId ≠ effect.effectId

theorem journalGrowth_refl (digests : Digests) (incarnation : Nat) (effects : List EffectRecord) :
    JournalGrowth digests incarnation effects effects :=
  ⟨[], (append_nil _).symm, by simp, by simp⟩

theorem journalGrowth_added {before effects journal : List EffectRecord} {acceptSeq : Nat} {turnId : Id128}
    {intent : IntentSpec} {added : Option Id128} (grown : JournalGrowth digests root.incarnation before effects)
    (journaled : addIntent digests root effects acceptSeq turnId intent = .ok (journal, added)) :
    JournalGrowth digests root.incarnation before journal := by
  obtain ⟨earlier, rfl, fresh, unseen⟩ := grown
  rcases addIntent_ok journaled with ⟨rfl, -⟩ | ⟨effect, rfl, -, derived, -, status, attempt, distinct⟩
  · exact ⟨earlier, rfl, fresh, unseen⟩
  · refine ⟨earlier ++ [effect], append_assoc .., ?_, ?_⟩
    · intro other member
      rcases mem_append.mp member with old | isAdded
      · exact fresh other old
      · obtain rfl := mem_singleton.mp isAdded
        exact ⟨⟨acceptSeq, intent.intentKey, derived⟩, status, attempt⟩
    · intro other member old oldIn
      rcases mem_append.mp member with early | isAdded
      · exact unseen other early old oldIn
      · obtain rfl := mem_singleton.mp isAdded
        exact distinct old (mem_append_left _ oldIn)

theorem updateEffect_found {effectId : Id128} {effect : EffectRecord} (tracked : Tracked digests root)
    (found : root.effects.find? (fun effect => decide (effect.effectId = effectId)) = some effect)
    (change : EffectRecord → EffectRecord) :
    effect ∈ root.effects ∧ effect.effectId = effectId ∧
      (updateEffect root effectId change).effects =
        root.effects.map fun other => if other.effectId = effect.effectId then change effect else other := by
  have member := mem_of_find?_eq_some found
  have passes := find?_some found
  have named : effect.effectId = effectId := of_decide_eq_true passes
  have unique : AtMostOne (fun effect : EffectRecord => decide (effect.effectId = effectId)) root.effects := by
    apply atMostOne_of_key tracked.effectIds
    intro left _ right _ leftNamed rightNamed
    exact (of_decide_eq_true leftNamed).trans (of_decide_eq_true rightNamed).symm
  refine ⟨member, named, ?_⟩
  show updateFirst _ change root.effects = _
  rw [unique.updateFirst_eq_map]
  apply map_congr_left
  intro other otherIn
  by_cases same : other.effectId = effectId
  · have isEffect : other = effect := unique.eq_of_mem otherIn member (decide_eq_true same) (decide_eq_true named)
    rw [isEffect, if_pos (decide_eq_true named), if_pos rfl]
  · rw [if_neg (by simpa using same), if_neg (by rw [named]; exact same)]

theorem granted_advance {c : AuthorizeAttempt} {effect : EffectRecord} (named : effect.effectId = c.effectId)
    (pending : effect.status ≠ .completed) (follows : c.attempt = effect.attempt + 1) :
    EffectAdvance (.attemptAuthorized c.effectId c.attempt) effect
      { effect with status := .authorized, attempt := c.attempt } := by
  rw [follows]
  exact .granted pending (by rw [named])

/-- Every step keeps, extends, advances or restarts the journal. -/
theorem effectEdit_of_step (tracked : Tracked digests root) (step : Step digests limits root now command whole reply) :
    EffectEdit digests root whole reply := by
  cases step with
  | recreate c incarnation gone next =>
    have later := checkedSuccU64_some next
    exact .restarted rfl (by show root.incarnation < incarnation; omega)
  | complete c turn journaled onTurn open' waiting journal =>
    have grown : JournalGrowth digests root.incarnation root.effects journaled.effects := by
      apply foldlM_journal (JournalGrowth digests root.incarnation root.effects) c.intents _ _ journal
      · exact journalGrowth_refl digests root.incarnation root.effects
      · intro effects next intent added before addedIntent
        exact journalGrowth_added before addedIntent
    obtain ⟨added, effects, fresh, unseen⟩ := grown
    exact .journaled added effects fresh unseen rfl
  | commitIntent c turn effects added onTurn journal =>
    have start := journalGrowth_refl digests root.incarnation root.effects
    obtain ⟨grown, isGrown, fresh, unseen⟩ := journalGrowth_added start journal
    exact .journaled grown isGrown fresh unseen rfl
  | latchDoubt c fence effect error authority owned found ambiguous =>
    obtain ⟨member, named, effects⟩ := updateEffect_found tracked found fun effect => { effect with status := .inDoubt }
    exact .changed effect _ member (.latched ambiguous.1) effects rfl
  | grantOwner c fence effect turn authority owned found pending known unambiguous follows running ofTurn open' =>
    obtain ⟨member, named, effects⟩ := updateEffect_found tracked found fun effect =>
      { effect with status := .authorized, attempt := c.attempt }
    exact .changed effect _ member (granted_advance named pending follows) effects rfl
  | grantReconcile c fence effect authority addressed found pending follows =>
    obtain ⟨member, named, effects⟩ := updateEffect_found tracked found fun effect =>
      { effect with status := .authorized, attempt := c.attempt }
    exact .changed effect _ member (granted_advance named pending follows) effects rfl
  | recordResult c effect addressed found pending attempted =>
    obtain ⟨member, named, effects⟩ := updateEffect_found tracked found fun effect =>
      { effect with status := .completed, result := some c.result, resultAttempt := c.attempt }
    have advance : EffectAdvance (.effectResultRecorded c.effectId) effect
        { effect with status := .completed, result := some c.result, resultAttempt := c.attempt } := by
      rw [attempted]
      exact .completed c.result pending
    split
    · exact .changed effect _ member advance effects rfl
    · exact .changed effect _ member advance effects rfl
  | _ => exact .kept rfl rfl

end StepToEdit

section Progress

/-- An effect and what it has become. -/
structure EffectProgress (before after : EffectRecord) : Prop where
  policy : after.policy = before.policy
  attempt : before.attempt ≤ after.attempt
  settled : before.status = .completed → after = before
  begun : before.status ≠ .intent → after.status ≠ .intent

theorem EffectProgress.refl (effect : EffectRecord) : EffectProgress effect effect :=
  ⟨rfl, Nat.le_refl _, fun _ => rfl, id⟩

theorem EffectProgress.trans {first second third : EffectRecord} (left : EffectProgress first second)
    (right : EffectProgress second third) : EffectProgress first third where
  policy := right.policy.trans left.policy
  attempt := Nat.le_trans left.attempt right.attempt
  settled isCompleted := by
    have same := left.settled isCompleted
    rw [← same] at isCompleted
    rw [right.settled isCompleted, same]
  begun isBegun := right.begun (left.begun isBegun)

theorem EffectAdvance.progress {reply : Reply} {before after : EffectRecord} (advance : EffectAdvance reply before after) :
    EffectProgress before after := by
  cases advance with
  | latched ambiguous =>
    refine ⟨rfl, Nat.le_refl _, ?_, fun _ => by rintro ⟨⟩⟩
    intro isCompleted
    rw [ambiguous] at isCompleted
    cases isCompleted
  | granted pending answered =>
    exact ⟨rfl, Nat.le_succ _, fun isCompleted => absurd isCompleted pending, fun _ => by rintro ⟨⟩⟩
  | completed result pending =>
    exact ⟨rfl, Nat.le_refl _, fun isCompleted => absurd isCompleted pending, fun _ => by rintro ⟨⟩⟩

theorem EffectAdvance.effectId {reply : Reply} {before after : EffectRecord} (advance : EffectAdvance reply before after) :
    after.effectId = before.effectId := by
  cases advance <;> rfl

/-- Every effect of the journal was derived under the current incarnation, and an intent has no attempt. -/
def JournalInv (digests : Digests) (root : Head) : Prop :=
  ∀ effect ∈ root.effects, (∃ acceptSeq key, effect.effectId = digests.effectId root.incarnation acceptSeq key) ∧
    (effect.status = .intent → effect.attempt = 0)

/-- What has become of one effect, given by its first record and the incarnation that derived it. -/
structure Traced (incarnation : Nat) (effect : EffectRecord) (root : Head) : Prop where
  later : incarnation ≤ root.incarnation
  listed : root.incarnation = incarnation → effect.effectId ∈ root.effects.map (·.effectId)
  progress : ∀ current ∈ root.effects, current.effectId = effect.effectId → EffectProgress effect current

variable {ids : CollisionFree} {root whole : Head} {reply : Reply}

theorem journalInv_edit (edit : EffectEdit ids root whole reply) (inv : JournalInv ids root) :
    JournalInv ids whole := by
  intro effect member
  cases edit with
  | kept effects incarnation =>
    rw [effects] at member
    rw [incarnation]
    exact inv effect member
  | journaled added effects fresh unseen incarnation =>
    rw [effects] at member
    rw [incarnation]
    rcases mem_append.mp member with old | isAdded
    · exact inv effect old
    · exact ⟨(fresh effect isAdded).derived, fun _ => (fresh effect isAdded).attempt⟩
  | changed before after beforeIn advance effects incarnation =>
    rw [effects] at member
    rw [incarnation]
    obtain ⟨other, otherIn, rfl⟩ := mem_map.mp member
    split
    · refine ⟨?_, ?_⟩
      · rw [advance.effectId]
        exact (inv before beforeIn).1
      · intro isIntent
        cases advance <;> cases isIntent
    · exact inv other otherIn
  | restarted effects incarnation =>
    rw [effects] at member
    cases member

theorem traced_edit {incarnation : Nat} {effect : EffectRecord} (edit : EffectEdit ids root whole reply)
    (derived : ∃ acceptSeq key, effect.effectId = ids.effectId incarnation acceptSeq key)
    (traced : Traced incarnation effect root) : Traced incarnation effect whole := by
  cases edit with
  | kept effects same =>
    exact ⟨by rw [same]; exact traced.later, by rw [same, effects]; exact traced.listed,
      by rw [effects]; exact traced.progress⟩
  | journaled added effects fresh unseen same =>
    refine ⟨by rw [same]; exact traced.later, ?_, ?_⟩
    · rw [same, effects, map_append]
      intro isCurrent
      exact mem_append_left _ (traced.listed isCurrent)
    · intro current member named
      rw [effects] at member
      rcases mem_append.mp member with old | isAdded
      · exact traced.progress current old named
      · -- A fresh effect under the traced identifier has its incarnation, in which the identifier is taken.
        obtain ⟨acceptSeq, key, isDerived⟩ := derived
        obtain ⟨freshSeq, freshKey, isFresh⟩ := (fresh current isAdded).derived
        have sameId : ids.effectId root.incarnation freshSeq freshKey = ids.effectId incarnation acceptSeq key := by
          rw [← isFresh, ← isDerived, named]
        obtain ⟨old, oldIn, oldNamed⟩ := mem_map.mp (traced.listed (ids.effectId_injective sameId).1)
        exact absurd (oldNamed.trans named.symm) (unseen current isAdded old oldIn)
  | changed before after beforeIn advance effects same =>
    refine ⟨by rw [same]; exact traced.later, ?_, ?_⟩
    · intro isCurrent
      rw [same] at isCurrent
      obtain ⟨old, oldIn, named⟩ := mem_map.mp (traced.listed isCurrent)
      rw [effects, map_map]
      refine mem_map.mpr ⟨old, oldIn, ?_⟩
      show EffectRecord.effectId (if old.effectId = before.effectId then after else old) = effect.effectId
      split
      · rename_i isBefore
        rw [advance.effectId, ← isBefore, named]
      · exact named
    · intro current member named
      rw [effects] at member
      obtain ⟨other, otherIn, rfl⟩ := mem_map.mp member
      split at named
      · rename_i isBefore
        rw [if_pos isBefore]
        rw [advance.effectId] at named
        exact (traced.progress before beforeIn named).trans advance.progress
      · rename_i otherwise
        rw [if_neg otherwise]
        exact traced.progress other otherIn named
  | restarted effects later =>
    refine ⟨Nat.le_of_lt (Nat.lt_of_le_of_lt traced.later later), ?_, ?_⟩
    · intro isCurrent
      have := traced.later
      omega
    · intro current member
      rw [effects] at member
      cases member

end Progress

section Grants

/-- The application publishes the authorization of an attempt. -/
def Applied.grants (application : Applied) (effectId : Id128) (attempt : Nat) : Prop :=
  ∃ head effects, application.outcome = .ok (.publish head effects (.attemptAuthorized effectId attempt))

/-- What the authorization of an attempt found and left. -/
structure Granted (root whole : Head) (command : Command) (effectId : Id128) (attempt : Nat) (effect : EffectRecord) : Prop where
  member : effect ∈ root.effects
  named : effect.effectId = effectId
  pending : effect.status ≠ .completed
  follows : attempt = effect.attempt + 1
  authorized : { effect with status := .authorized, attempt := attempt } ∈ whole.effects
  byOwner : command.ownerFence?.isSome →
    effect.status ≠ .inDoubt ∧ ¬(effect.status = .authorized ∧ effect.policy = .manual)

variable {digests : Digests} {limits : Limits} {root whole : Head} {now : Int64} {command : Command}

theorem attemptGranted_mem {c : AuthorizeAttempt} {effect : EffectRecord} (tracked : Tracked digests root)
    (found : root.effects.find? (fun effect => decide (effect.effectId = c.effectId)) = some effect) :
    effect ∈ root.effects ∧ effect.effectId = c.effectId ∧
      { effect with status := .authorized, attempt := c.attempt } ∈ (attemptGranted root c).effects := by
  obtain ⟨member, named, effects⟩ := updateEffect_found tracked found fun effect =>
    { effect with status := .authorized, attempt := c.attempt }
  refine ⟨member, named, ?_⟩
  rw [attemptGranted, effects]
  exact mem_map.mpr ⟨effect, member, if_pos rfl⟩

theorem granted_of_step {effectId : Id128} {attempt : Nat} (tracked : Tracked digests root)
    (step : Step digests limits root now command whole (.attemptAuthorized effectId attempt)) :
    ∃ effect, Granted root whole command effectId attempt effect := by
  cases step with
  | grantOwner c fence effect turn authority owned found pending known unambiguous follows running ofTurn open' =>
    obtain ⟨member, named, authorized⟩ := attemptGranted_mem tracked found
    exact ⟨effect, member, named, pending, follows, authorized, fun _ => ⟨known, unambiguous⟩⟩
  | grantReconcile c fence effect authority addressed found pending follows =>
    obtain ⟨member, named, authorized⟩ := attemptGranted_mem tracked found
    refine ⟨effect, member, named, pending, follows, authorized, ?_⟩
    intro owner
    simp [Command.ownerFence?, authority] at owner

/-- A turn is retried only when no effect of its input has an attempt without a result. -/
theorem retried_effects {acceptSeq failedAttempts : Nat}
    (step : Step digests limits root now command whole (.turnRetry acceptSeq failedAttempts)) :
    whole.effects = root.effects ∧ whole.incarnation = root.incarnation ∧ ∀ effect ∈ root.effects,
      effect.effectId = digests.effectId root.incarnation acceptSeq effect.stepKey →
        effect.status = .intent ∨ effect.status = .completed := by
  cases step with
  | failRetry c turn failedAttempts onTurn open' waiting resolved =>
    refine ⟨rfl, rfl, ?_⟩
    intro effect member ofInput
    have listed : effect ∈ inputEffects digests root turn.inputAcceptSeq :=
      mem_filter.mpr ⟨member, decide_eq_true ofInput⟩
    have settled := findSome?_eq_none_iff.mp resolved effect listed
    cases status : effect.status with
    | intent => exact .inl rfl
    | completed => exact .inr rfl
    | authorized =>
      rw [status] at settled
      cases settled
    | inDoubt =>
      rw [status] at settled
      cases settled

end Grants

section Runs

variable {kernel : Kernel} {ids : CollisionFree} {root next : Head} {command : Command} {now : Int64}
  {outcome : Except AgentError Transition}

theorem effectEdit_of_advance (inv : RootInv ids kernel.limits root)
    (advance : Advance kernel ids root command now outcome next) :
    next = root ∨ ∃ held effects reply, outcome = .ok (.publish held effects reply) ∧
      EffectEdit ids root next reply := by
  rcases advance_cases advance with rfl | ⟨held, effects, reply, whole, published, step, same⟩
  · exact .inl rfl
  · refine .inr ⟨held, effects, reply, published, ?_⟩
    have sameEffects : next.effects = whole.effects := by rw [same.fields]
    have sameIncarnation : next.incarnation = whole.incarnation := by rw [same.fields]
    cases effectEdit_of_step inv.tracked step with
    | kept kept incarnation => exact .kept (sameEffects.trans kept) (sameIncarnation.trans incarnation)
    | journaled added journal fresh unseen incarnation =>
      exact .journaled added (sameEffects.trans journal) fresh unseen (sameIncarnation.trans incarnation)
    | changed before after member advance changed incarnation =>
      exact .changed before after member advance (sameEffects.trans changed) (sameIncarnation.trans incarnation)
    | restarted emptied incarnation => exact .restarted (sameEffects.trans emptied) (sameIncarnation ▸ incarnation)

theorem journalInv_advance (inv : RootInv ids kernel.limits root)
    (advance : Advance kernel ids root command now outcome next) (journal : JournalInv ids root) :
    JournalInv ids next := by
  rcases effectEdit_of_advance inv advance with rfl | ⟨_, _, reply, -, edit⟩
  · exact journal
  · exact journalInv_edit edit journal

theorem journalInv_run {applied : List Applied} (run : Run kernel ids applied root) :
    JournalInv ids root := by
  apply run_keeps (JournalInv ids) _ _ run
  · intro base root same effect member
    have effects : root.effects = [] := by rw [same.fields]; rfl
    rw [effects] at member
    cases member
  · intro root next command now outcome inv advance journal
    exact journalInv_advance inv advance journal

variable {incarnation : Nat} {effect : EffectRecord}

theorem traced_advance (inv : RootInv ids kernel.limits root)
    (derived : ∃ acceptSeq key, effect.effectId = ids.effectId incarnation acceptSeq key)
    (advance : Advance kernel ids root command now outcome next) (traced : Traced incarnation effect root) :
    Traced incarnation effect next := by
  rcases effectEdit_of_advance inv advance with rfl | ⟨_, _, reply, -, edit⟩
  · exact traced
  · exact traced_edit edit derived traced

theorem traced_self (tracked : Tracked ids root) (member : effect ∈ root.effects) :
    Traced root.incarnation effect root := by
  refine ⟨Nat.le_refl _, fun _ => mem_map_of_mem member, ?_⟩
  intro current currentIn named
  have unique : AtMostOne (fun other : EffectRecord => decide (other.effectId = effect.effectId)) root.effects := by
    apply atMostOne_of_key tracked.effectIds
    intro left _ right _ leftNamed rightNamed
    exact (of_decide_eq_true leftNamed).trans (of_decide_eq_true rightNamed).symm
  rw [unique.eq_of_mem currentIn member (decide_eq_true named) (decide_eq_true rfl)]
  exact .refl effect

theorem traced_onward {start : Head} {later : List Applied}
    (derived : ∃ acceptSeq key, effect.effectId = ids.effectId incarnation acceptSeq key)
    (traced : Traced incarnation effect start) (onward : Onward kernel ids start later root) :
    ∀ application ∈ later, RootInv ids kernel.limits application.before ∧
      Advance kernel ids application.before application.command application.now application.outcome
        application.after ∧
      Traced incarnation effect application.before ∧ Traced incarnation effect application.after :=
  (onward_keeps (Traced incarnation effect)
    (fun _ _ _ _ _ inv advance traced => traced_advance inv derived advance traced) onward traced).2

variable {history : History kernel ids} {earlier later : List Applied} {first application : Applied}

variable {effect : EffectRecord} {effectId : Id128}

/-- What becomes of an effect that a root of a run has. -/
theorem traced_history (cut : history.applied = earlier ++ first :: later) (member : effect ∈ first.before.effects)
    (inLater : application ∈ first :: later) : RootInv ids kernel.limits application.before ∧
      Advance kernel ids application.before application.command application.now application.outcome
        application.after ∧
      Traced first.before.incarnation effect application.before ∧ Traced first.before.incarnation effect application.after := by
  obtain ⟨beforeRun, advance, onward⟩ := run_at history.run cut
  have inv := rootInv_run beforeRun
  have derived := (journalInv_run beforeRun effect member).1
  have start := traced_self inv.tracked member
  have next := traced_advance inv derived advance start
  rcases mem_cons.mp inLater with rfl | later
  · exact ⟨inv, advance, start, next⟩
  · exact traced_onward derived next onward application later

/-- The effect whose attempt an application of a run authorizes. -/
theorem granted_of_advance {attempt : Nat} (inv : RootInv ids kernel.limits root)
    (advance : Advance kernel ids root command now outcome next)
    (grants : (Applied.mk command now root outcome next).grants effectId attempt) :
    ∃ effect, Granted root next command effectId attempt effect := by
  obtain ⟨head, effects, published⟩ := grants
  have isPublished : outcome = .ok (.publish head effects (.attemptAuthorized effectId attempt)) := published
  rw [isPublished] at advance
  obtain ⟨whole, step, same⟩ := advance_publish advance
  obtain ⟨effect, granted⟩ := granted_of_step inv.tracked step
  have sameEffects : next.effects = whole.effects := by rw [same.fields]
  exact ⟨effect, { granted with authorized := sameEffects ▸ granted.authorized }⟩

/-- An attempt that raises the number of an effect is authorized by its publish. -/
theorem raised_by_grant (cut : history.applied = earlier ++ first :: later) {current : EffectRecord}
    (member : effect ∈ first.before.effects) (currentIn : current ∈ first.after.effects)
    (named : current.effectId = effect.effectId) (raised : current.attempt ≠ effect.attempt) :
    first.grants effect.effectId current.attempt := by
  obtain ⟨beforeRun, advance, -⟩ := run_at history.run cut
  have inv := rootInv_run beforeRun
  have same : ∀ other ∈ first.before.effects, other.effectId = effect.effectId → other = effect := by
    intro other otherIn otherNamed
    exact inj_on_of_nodup_map inv.tracked.effectIds otherIn member otherNamed
  rcases effectEdit_of_advance inv advance with unchanged | ⟨held, effects, reply, published, edit⟩
  · rw [unchanged] at currentIn
    rw [same current currentIn named] at raised
    exact absurd rfl raised
  · cases edit with
    | kept kept incarnation =>
      rw [kept] at currentIn
      rw [same current currentIn named] at raised
      exact absurd rfl raised
    | journaled added journal fresh unseen incarnation =>
      rw [journal] at currentIn
      rcases mem_append.mp currentIn with old | isAdded
      · rw [same current old named] at raised
        exact absurd rfl raised
      · exact absurd named.symm (unseen current isAdded effect member)
    | changed before after beforeIn effectAdvance changed incarnation =>
      rw [changed] at currentIn
      obtain ⟨other, otherIn, rfl⟩ := mem_map.mp currentIn
      split at named
      · rename_i isBefore
        rw [if_pos isBefore] at raised ⊢
        rw [effectAdvance.effectId] at named
        obtain rfl := same before beforeIn named
        cases effectAdvance with
        | latched ambiguous => exact absurd rfl raised
        | granted pending answered => exact ⟨held, effects, by rw [published, answered]⟩
        | completed result pending => exact absurd rfl raised
      · rename_i otherwise
        rw [if_neg otherwise] at raised
        rw [same other otherIn named] at raised
        exact absurd rfl raised
    | restarted emptied incarnation =>
      rw [emptied] at currentIn
      cases currentIn

theorem granted_again (cut : history.applied = earlier ++ first :: later) {attempt again : Nat}
    (grants : first.grants effectId attempt) (inLater : application ∈ later)
    (grantsAgain : application.grants effectId again) :
    attempt < again ∧ ∀ effect ∈ first.before.effects, effect.effectId = effectId → effect.policy = .manual →
      application.command.ownerFence? = none := by
  obtain ⟨beforeRun, advance, onward⟩ := run_at history.run cut
  have inv := rootInv_run beforeRun
  obtain ⟨granted, isGranted⟩ := granted_of_advance inv advance grants
  have nextInv := rootInv_advance inv advance
  have derived := (journalInv_advance inv advance (journalInv_run beforeRun) _ isGranted.authorized).1
  obtain ⟨laterInv, laterAdvance, traced, -⟩ :=
    traced_onward derived (traced_self nextInv.tracked isGranted.authorized) onward application inLater
  obtain ⟨current, isCurrent⟩ := granted_of_advance laterInv laterAdvance grantsAgain
  have progress := traced.progress current isCurrent.member (isCurrent.named.trans isGranted.named.symm)
  refine ⟨?_, ?_⟩
  · have passed : attempt ≤ current.attempt := progress.attempt
    have follows := isCurrent.follows
    omega
  · intro effect member named manual
    have isEffect : granted = effect :=
      inj_on_of_nodup_map inv.tracked.effectIds isGranted.member member (isGranted.named.trans named.symm)
    have stillManual : current.policy = .manual := by
      rw [progress.policy, isEffect]
      exact manual
    have begun : current.status ≠ .intent := progress.begun (by rintro ⟨⟩)
    cases fence : application.command.ownerFence? with
    | none => rfl
    | some owner =>
      obtain ⟨known, unambiguous⟩ := isCurrent.byOwner (by rw [fence]; rfl)
      cases status : current.status with
      | intent => exact absurd status begun
      | authorized => exact absurd ⟨status, stillManual⟩ unambiguous
      | inDoubt => exact absurd status known
      | completed => exact absurd status isCurrent.pending

/-- A completed effect is never authorized again. -/
theorem completed_not_granted (cut : history.applied = earlier ++ first :: later)
    (member : effect ∈ first.before.effects) (isCompleted : effect.status = .completed)
    (inLater : application ∈ first :: later) (attempt : Nat) : ¬application.grants effect.effectId attempt := by
  intro grants
  obtain ⟨inv, advance, traced, -⟩ := traced_history cut member inLater
  obtain ⟨current, granted⟩ := granted_of_advance inv advance grants
  have settled := (traced.progress current granted.member granted.named).settled isCompleted
  rw [← settled] at isCompleted
  exact granted.pending isCompleted

theorem retry_leaves_settled (member : application ∈ history.applied) {acceptSeq failedAttempts : Nat} {head : Head}
    {effects : List Effect}
    (retries : application.outcome = .ok (.publish head effects (.turnRetry acceptSeq failedAttempts)))
    (effectIn : effect ∈ application.after.effects)
    (ofInput : effect.effectId = ids.effectId application.after.incarnation acceptSeq effect.stepKey) :
    (effect.status = .intent ∧ effect.attempt = 0) ∨ effect.status = .completed := by
  obtain ⟨earlier, later, cut⟩ := append_of_mem member
  obtain ⟨beforeRun, advance, -⟩ := run_at history.run cut
  rw [retries] at advance
  obtain ⟨whole, step, same⟩ := advance_publish advance
  obtain ⟨kept, incarnation, settled⟩ := retried_effects step
  have sameEffects : application.after.effects = application.before.effects := by rw [same.fields]; exact kept
  have sameIncarnation : application.after.incarnation = application.before.incarnation := by
    rw [same.fields]
    exact incarnation
  rw [sameEffects] at effectIn
  rw [sameIncarnation] at ofInput
  rcases settled effect effectIn ofInput with isIntent | isCompleted
  · exact .inl ⟨isIntent, (journalInv_run beforeRun effect effectIn).2 isIntent⟩
  · exact .inr isCompleted

end Runs

/-- In every run the attempts of an effect go up, each by one publish; a completed effect keeps its result and is not authorized
again; an owner authorizes a manual effect at most once; and a retried turn finds no effect with an open attempt. -/
theorem effects_authorized_once (kernel : Kernel) (ids : CollisionFree) (history : History kernel ids.toDigests) :
    (∀ (earlier later : List Applied) (first : Applied), history.applied = earlier ++ first :: later →
      ∀ effect ∈ first.before.effects, ∀ application ∈ first :: later, ∀ current ∈ application.after.effects,
        current.effectId = effect.effectId → effect.attempt ≤ current.attempt ∧ (effect.status = .completed →
          current.status = .completed ∧ current.result = effect.result ∧ current.resultAttempt = effect.resultAttempt)) ∧
    (∀ (earlier later : List Applied) (first : Applied), history.applied = earlier ++ first :: later →
      ∀ effect ∈ first.before.effects, ∀ current ∈ first.after.effects, current.effectId = effect.effectId →
        current.attempt ≠ effect.attempt → first.grants effect.effectId current.attempt) ∧
    (∀ (earlier later : List Applied) (first : Applied), history.applied = earlier ++ first :: later →
      ∀ effectId attempt, first.grants effectId attempt → ∀ application ∈ later, ¬application.grants effectId attempt) ∧
    (∀ (earlier later : List Applied) (first : Applied), history.applied = earlier ++ first :: later →
      ∀ effect ∈ first.before.effects, effect.policy = .manual → ∀ attempt, first.grants effect.effectId attempt →
        ∀ application ∈ later, ∀ again, application.grants effect.effectId again → application.command.ownerFence? = none) ∧
    (∀ (earlier later : List Applied) (first : Applied), history.applied = earlier ++ first :: later →
      ∀ effect ∈ first.before.effects, effect.status = .completed →
        ∀ application ∈ first :: later, ∀ attempt, ¬application.grants effect.effectId attempt) ∧
    (∀ application ∈ history.applied, ∀ acceptSeq failedAttempts head effects,
      application.outcome = .ok (.publish head effects (.turnRetry acceptSeq failedAttempts)) →
        ∀ effect ∈ application.after.effects,
          effect.effectId = ids.effectId application.after.incarnation acceptSeq effect.stepKey →
            (effect.status = .intent ∧ effect.attempt = 0) ∨ effect.status = .completed) := by
  refine ⟨?_, ?_, ?_, ?_, ?_, ?_⟩
  · intro earlier later first cut effect member application inLater current currentIn named
    obtain ⟨-, -, -, traced⟩ := traced_history cut member inLater
    have progress := traced.progress current currentIn named
    refine ⟨progress.attempt, ?_⟩
    intro isCompleted
    rw [progress.settled isCompleted]
    exact ⟨isCompleted, rfl, rfl⟩
  · intro earlier later first cut effect member current currentIn named raised
    exact raised_by_grant cut member currentIn named raised
  · intro earlier later first cut effectId attempt grants application inLater grantsAgain
    exact absurd (granted_again cut grants inLater grantsAgain).1 (Nat.lt_irrefl _)
  · intro earlier later first cut effect member manual attempt grants application inLater again grantsAgain
    exact (granted_again cut grants inLater grantsAgain).2 effect member rfl manual
  · intro earlier later first cut effect member isCompleted application inLater attempt
    exact completed_not_granted cut member isCompleted inLater attempt
  · intro application member acceptSeq failedAttempts head effects retries effect effectIn ofInput
    exact retry_leaves_settled member retries effectIn ofInput

end Ravel.Agents
