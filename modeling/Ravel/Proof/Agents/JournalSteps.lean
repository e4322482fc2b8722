import Ravel.Proof.Agents.Steps
import Ravel.Proof.Agents.RootInvariant

namespace Ravel.Agents

open List Library

/-- The change of the receipts in one step. -/
inductive ReceiptEdit (root whole : Head) : Prop where
  | kept (receipts : whole.receipts = root.receipts) (next : root.nextAcceptSeq ≤ whole.nextAcceptSeq)
  | added (receipt : Receipt) (receipts : whole.receipts = root.receipts ++ [receipt])
      (numbered : receipt.acceptSeq = root.nextAcceptSeq)
      (unseen : ∀ old ∈ root.receipts, (old.requestId, old.handler) ≠ (receipt.requestId, receipt.handler))
      (next : whole.nextAcceptSeq = root.nextAcceptSeq + 1)
  | restarted (receipts : whole.receipts = []) (incarnation : whole.incarnation ≠ root.incarnation)

/-- The change of the events in one step. -/
inductive EventEdit (root whole : Head) : Prop where
  | kept (events : whole.events = root.events) (next : whole.nextEventSeq = root.nextEventSeq)
  | added (entries : List EventEntry) (events : whole.events = root.events ++ entries)
      (numbered : entries.map (·.eventSeq) = List.range' root.nextEventSeq entries.length)
      (next : whole.nextEventSeq = root.nextEventSeq + entries.length)
  | restarted (events : whole.events = []) (incarnation : whole.incarnation ≠ root.incarnation)

section StepToEdit

variable {digests : Digests} {limits : Limits} {root whole : Head} {now : Int64} {command : Command} {reply : Reply}

theorem receiptEdit_of_step (step : Step digests limits root now command whole reply) : ReceiptEdit root whole := by
  cases step with
  | recreate c incarnation gone next =>
    have later := checkedSuccU64_some next
    exact .restarted rfl (by show incarnation ≠ root.incarnation; omega)
  | accept c addressed unseen =>
    refine .added _ rfl rfl ?_ rfl
    intro old member same
    obtain ⟨sameId, sameHandler⟩ := Prod.mk.inj same
    have fails := find?_eq_none.mp unseen old member
    exact fails (decide_eq_true ⟨sameId, sameHandler⟩)
  | fireTimer c timer addressed found due => exact .kept rfl (Nat.le_succ _)
  | recordResult c effect addressed found pending attempted =>
    split
    · exact .kept rfl (Nat.le_refl _)
    · exact .kept rfl (Nat.le_refl _)
  | _ => exact .kept rfl (Nat.le_refl _)

theorem turnEvents_numbered (root : Head) (acceptSeq : Nat) (turnId : Id128) (events : List EventSpec) :
    (turnEvents root acceptSeq turnId events).map (·.eventSeq) =
      List.range' root.nextEventSeq (turnEvents root acceptSeq turnId events).length := by
  apply ext_getElem
  · simp [turnEvents]
  · intro index _ _
    simp [turnEvents, getElem_range']

theorem turnEvents_length (root : Head) (acceptSeq : Nat) (turnId : Id128) (events : List EventSpec) :
    (turnEvents root acceptSeq turnId events).length = events.length := by
  rw [turnEvents, length_mapIdx]

theorem eventEdit_of_step (step : Step digests limits root now command whole reply) : EventEdit root whole := by
  cases step with
  | recreate c incarnation gone next =>
    have later := checkedSuccU64_some next
    exact .restarted rfl (by show incarnation ≠ root.incarnation; omega)
  | complete c turn journaled onTurn open' waiting journal =>
    refine .added (turnEvents root turn.inputAcceptSeq turn.turnId c.events) rfl (turnEvents_numbered ..) ?_
    rw [turnEvents_length]
    rfl
  | grantReconcile c fence effect authority addressed found pending follows => exact .added [_] rfl rfl rfl
  | recordResult c effect addressed found pending attempted =>
    split
    · exact .added [_] rfl rfl rfl
    · exact .kept rfl rfl
  | _ => exact .kept rfl rfl

theorem effectIds_update (effects : List EffectRecord) (effectId : Id128) (change : EffectRecord → EffectRecord)
    (kept : ∀ effect, (change effect).effectId = effect.effectId) :
    (updateFirst (fun effect => decide (effect.effectId = effectId)) change effects).map (·.effectId) =
      effects.map (·.effectId) :=
  map_updateFirst _ _ (fun effect _ => kept effect) effects

variable {acceptSeq : Nat} {turnId : Id128} {intent : IntentSpec} {added : Option Id128}

theorem addIntent_ok {effects journal : List EffectRecord}
    (journaled : addIntent digests root effects acceptSeq turnId intent = .ok (journal, added)) :
    (journal = effects ∧ added = none) ∨
      ∃ effect, journal = effects ++ [effect] ∧ added = some effect.effectId ∧
        effect.effectId = digests.effectId root.incarnation acceptSeq intent.intentKey ∧ effect.stepKey = intent.intentKey ∧
        effect.status = .intent ∧ effect.attempt = 0 ∧ ∀ old ∈ effects, old.effectId ≠ effect.effectId := by
  rw [addIntent] at journaled
  dsimp only at journaled
  split at journaled
  · split at journaled
    · cases journaled
      exact .inl ⟨rfl, rfl⟩
    · cases journaled
  · rename_i absent
    cases journaled
    refine .inr ⟨_, rfl, rfl, rfl, rfl, rfl, rfl, ?_⟩
    intro old member same
    exact find?_eq_none.mp absent old member (decide_eq_true same)

theorem effectIds_added {effects journal : List EffectRecord} (distinct : (effects.map (·.effectId)).Nodup)
    (journaled : addIntent digests root effects acceptSeq turnId intent = .ok (journal, added)) :
    (journal.map (·.effectId)).Nodup := by
  rcases addIntent_ok journaled with ⟨rfl, -⟩ | ⟨effect, rfl, -, -, -, -, -, fresh⟩
  · exact distinct
  · rw [map_append, nodup_append]
    refine ⟨distinct, by simp, ?_⟩
    intro effectId listed other isAdded same
    obtain ⟨old, oldIn, rfl⟩ := mem_map.mp listed
    rw [map_singleton, mem_singleton] at isAdded
    exact fresh old oldIn (same.trans isAdded)

/-- One intent of a committed turn goes through the journal. -/
theorem journalIntent_ok {before after : Journaled}
    (journaled : journalIntent digests root acceptSeq turnId before intent = .ok after) :
    ∃ added, addIntent digests root before.effects acceptSeq turnId intent = .ok (after.effects, added) := by
  obtain ⟨⟨journal, added⟩, addedIntent, kept⟩ := ok_of_bind journaled
  refine ⟨added, ?_⟩
  cases added with
  | none =>
    cases kept
    exact addedIntent
  | some effectId =>
    cases kept
    exact addedIntent

theorem foldlM_journal (holds : List EffectRecord → Prop) (intents : List IntentSpec) {before after : Journaled}
    (start : holds before.effects)
    (step : ∀ effects journal intent added, holds effects → addIntent digests root effects acceptSeq turnId intent = .ok (journal, added) → holds journal)
    (journaled : intents.foldlM (journalIntent digests root acceptSeq turnId) before = .ok after) :
    holds after.effects := by
  induction intents generalizing before with
  | nil =>
    cases journaled
    exact start
  | cons intent others ih =>
    rw [foldlM_cons] at journaled
    obtain ⟨next, first, rest⟩ := ok_of_bind journaled
    obtain ⟨added, addedIntent⟩ := journalIntent_ok first
    exact ih (step _ _ intent added start addedIntent) rest

theorem effectIds_of_step (distinct : (root.effects.map (·.effectId)).Nodup)
    (step : Step digests limits root now command whole reply) : (whole.effects.map (·.effectId)).Nodup := by
  cases step with
  | recreate c incarnation gone next => exact nodup_nil
  | complete c turn journaled onTurn open' waiting journal =>
    apply foldlM_journal (fun effects => (effects.map (·.effectId)).Nodup) c.intents distinct _ journal
    intro effects next intent added before addedIntent
    exact effectIds_added before addedIntent
  | commitIntent c turn effects added onTurn journal => exact effectIds_added distinct journal
  | latchDoubt c fence effect error authority owned found ambiguous =>
    show ((updateFirst _ _ root.effects).map (·.effectId)).Nodup
    rw [effectIds_update]
    · exact distinct
    · intro _
      rfl
  | grantOwner c fence effect turn authority owned found pending known unambiguous follows running ofTurn open' =>
    show ((updateFirst _ _ root.effects).map (·.effectId)).Nodup
    rw [effectIds_update]
    · exact distinct
    · intro _
      rfl
  | grantReconcile c fence effect authority addressed found pending follows =>
    show ((updateFirst _ _ root.effects).map (·.effectId)).Nodup
    rw [effectIds_update]
    · exact distinct
    · intro _
      rfl
  | recordResult c effect addressed found pending attempted =>
    have recorded : ((updateFirst (fun effect => decide (effect.effectId = c.effectId)) (fun effect =>
        { effect with status := .completed, result := some c.result, resultAttempt := c.attempt })
        root.effects).map (·.effectId)).Nodup := by
      rw [effectIds_update]
      · exact distinct
      · intro _
        rfl
    split
    · exact recorded
    · exact recorded
  | _ => exact distinct

end StepToEdit

namespace ReceiptEdit

variable {digests : Digests} {root whole : Head}

theorem receiptKeys (edit : ReceiptEdit root whole) (tracked : Tracked digests root) :
    (whole.receipts.map fun receipt => (receipt.requestId, receipt.handler)).Nodup := by
  cases edit with
  | kept receipts next =>
    rw [receipts]
    exact tracked.receiptKeys
  | added receipt receipts numbered unseen next =>
    rw [receipts, map_append, nodup_append]
    refine ⟨tracked.receiptKeys, by simp, ?_⟩
    intro pair listed other isAdded same
    obtain ⟨old, oldIn, rfl⟩ := mem_map.mp listed
    rw [map_singleton, mem_singleton] at isAdded
    exact unseen old oldIn (same.trans isAdded)
  | restarted receipts incarnation =>
    rw [receipts]
    exact nodup_nil

theorem receiptBound (edit : ReceiptEdit root whole) (tracked : Tracked digests root) :
    ∀ receipt ∈ whole.receipts, receipt.acceptSeq < whole.nextAcceptSeq := by
  intro receipt member
  cases edit with
  | kept receipts next =>
    rw [receipts] at member
    exact Nat.lt_of_lt_of_le (tracked.receiptBound receipt member) next
  | added new receipts numbered unseen next =>
    rw [receipts] at member
    rcases mem_append.mp member with old | isAdded
    · have := tracked.receiptBound receipt old
      omega
    · obtain rfl := mem_singleton.mp isAdded
      omega
  | restarted receipts incarnation =>
    rw [receipts] at member
    cases member

theorem receiptSeqs (edit : ReceiptEdit root whole) (tracked : Tracked digests root) :
    (whole.receipts.map (·.acceptSeq)).Nodup := by
  cases edit with
  | kept receipts next =>
    rw [receipts]
    exact tracked.receiptSeqs
  | added receipt receipts numbered unseen next =>
    rw [receipts, map_append, nodup_append]
    refine ⟨tracked.receiptSeqs, by simp, ?_⟩
    intro acceptSeq listed other isAdded same
    obtain ⟨old, oldIn, rfl⟩ := mem_map.mp listed
    rw [map_singleton, mem_singleton] at isAdded
    have bound := tracked.receiptBound old oldIn
    omega
  | restarted receipts incarnation =>
    rw [receipts]
    exact nodup_nil

end ReceiptEdit

namespace EventEdit

variable {digests : Digests} {root whole : Head}

theorem eventBound (edit : EventEdit root whole) (tracked : Tracked digests root) :
    ∀ event ∈ whole.events, event.eventSeq < whole.nextEventSeq := by
  intro event member
  cases edit with
  | kept events next =>
    rw [events] at member
    rw [next]
    exact tracked.eventBound event member
  | added entries events numbered next =>
    rw [events] at member
    rcases mem_append.mp member with old | isAdded
    · have := tracked.eventBound event old
      omega
    · have listed : event.eventSeq ∈ entries.map (·.eventSeq) := mem_map_of_mem isAdded
      rw [numbered, mem_range'_1] at listed
      omega
  | restarted events incarnation =>
    rw [events] at member
    cases member

theorem eventSeqs (edit : EventEdit root whole) (tracked : Tracked digests root) :
    (whole.events.map (·.eventSeq)).Nodup := by
  cases edit with
  | kept events next =>
    rw [events]
    exact tracked.eventSeqs
  | added entries events numbered next =>
    rw [events, map_append, nodup_append]
    refine ⟨tracked.eventSeqs, ?_, ?_⟩
    · rw [numbered]
      exact nodup_range'
    · intro eventSeq listed other isAdded same
      obtain ⟨old, oldIn, rfl⟩ := mem_map.mp listed
      rw [numbered, mem_range'_1] at isAdded
      have bound := tracked.eventBound old oldIn
      omega
  | restarted events incarnation =>
    rw [events]
    exact nodup_nil

end EventEdit

end Ravel.Agents
