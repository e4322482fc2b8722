import Ravel.Proof.Agents.OwnerFencing
import Ravel.Proof.Agents.ShallowHeads

namespace Ravel.Agents

open List Library

/-- The application accepts a message under a new `accept_seq`. -/
def Applied.accepts (application : Applied) (c : Enqueue) (acceptSeq : Nat) : Prop :=
  application.command = .enqueue c ∧
    ∃ head effects, application.outcome = .ok (.publish head effects (.accepted acceptSeq false))

/-- Two messages with the same handler and request id. -/
def SameRequest (left right : Enqueue) : Prop :=
  left.handler = right.handler ∧ left.requestId = right.requestId

/-- The receipt of an accepted message. -/
def receiptOf (c : Enqueue) (acceptSeq : Nat) : Receipt :=
  ⟨c.requestId, c.handler, c.requestHash, acceptSeq⟩

section Receipts

variable {digests : Digests} {limits : Limits} {root whole : Head} {now : Int64} {command : Command} {reply : Reply}
  {c : Enqueue} {acceptSeq : Nat}

/-- Within its incarnation a receipt stays. -/
def ReceiptKept (incarnation : Nat) (receipt : Receipt) (root : Head) : Prop :=
  incarnation ≤ root.incarnation ∧ (root.incarnation = incarnation → receipt ∈ root.receipts)

theorem step_receipt {receipt : Receipt} (step : Step digests limits root now command whole reply)
    (same : whole.incarnation = root.incarnation) (member : receipt ∈ root.receipts) : receipt ∈ whole.receipts := by
  cases receiptEdit_of_step step with
  | kept receipts next =>
    rw [receipts]
    exact member
  | added new receipts numbered unseen next =>
    rw [receipts]
    exact mem_append_left _ member
  | restarted receipts incarnation => exact absurd same incarnation

theorem step_accepts (step : Step digests limits root now (.enqueue c) whole (.accepted acceptSeq false)) :
    receiptOf c acceptSeq ∈ whole.receipts := by
  cases step with
  | accept c addressed unseen => exact mem_append_right _ mem_cons_self

/-- A published message has no receipt yet. -/
theorem step_unseen (step : Step digests limits root now (.enqueue c) whole reply) {receipt : Receipt}
    (member : receipt ∈ root.receipts) : ¬(receipt.requestId = c.requestId ∧ receipt.handler = c.handler) := by
  intro same
  cases step with
  | accept c addressed unseen => exact find?_eq_none.mp unseen receipt member (decide_eq_true same)
  | block command fence turn error fenced onTurn => cases fenced

end Receipts

section Answers

variable {digests : Digests} {limits : Limits} {kernel : Kernel} {root : Head} {now : Int64} {c retry : Enqueue} {acceptSeq : Nat}

theorem checkIncarnation_addressed {fence : IncarnationFence} (addressed : Addressed root fence.incarnation) :
    checkIncarnation digests root fence = .ok () := by
  rw [checkIncarnation, checkActive, addressed.alive]
  show (if fence.incarnation ≠ root.incarnation then _ else _) = _
  rw [if_neg (not_not.mpr addressed.current)]

theorem apply_unpublished (inv : RootInv digests kernel.limits root) {command : Command}
    (passed : checkStrings digests kernel.limits root command = .ok ()) {outcome : Except AgentError Transition}
    (drafted : transition digests kernel.limits root now command = outcome) (unpublished : isPublish outcome = false) :
    kernel.apply digests (some root) command now = outcome := by
  rw [apply_eq, passed, checkPages_ok (pagesRead_root inv _)]
  show (transition digests kernel.limits root now command >>= _) = _
  rw [drafted]
  cases outcome with
  | error error => rfl
  | ok transition =>
    cases transition with
    | unchanged reply => rfl
    | publish head effects reply => cases unpublished

/-- The bounds on a message depend only on its handler and its request id. -/
theorem checkStrings_retry {other : Head} (same : SameRequest retry c)
    (passed : checkStrings digests limits root (.enqueue c) = .ok ()) :
    checkStrings digests limits other (.enqueue retry) = .ok () := by
  have sameStrings : callerStrings (.enqueue retry) = callerStrings (.enqueue c) := by
    rw [callerStrings, callerStrings, same.1, same.2]
  have sameIdentity : identityStrings (.enqueue retry) = identityStrings (.enqueue c) := rfl
  unfold checkStrings at passed ⊢
  rw [sameStrings, sameIdentity]
  obtain ⟨short, passed⟩ := ok_of_guard passed
  rw [if_neg short]
  rfl

theorem receipt_found (tracked : Tracked digests root) (member : receiptOf c acceptSeq ∈ root.receipts)
    (same : SameRequest retry c) :
    root.receipts.find? (fun receipt => decide (receipt.requestId = retry.requestId ∧ receipt.handler = retry.handler)) =
      some (receiptOf c acceptSeq) := by
  apply AtMostOne.find?_eq_some
  · apply atMostOne_of_key tracked.receiptKeys
    intro left _ right _ leftSame rightSame
    have ofLeft := of_decide_eq_true leftSame
    have ofRight := of_decide_eq_true rightSame
    rw [ofLeft.1, ofLeft.2, ofRight.1, ofRight.2]
  · exact member
  · exact decide_eq_true ⟨same.2.symm, same.1.symm⟩

/-- A retry on the whole root is answered from the receipt, before any cap. -/
theorem retry_answered (inv : RootInv digests kernel.limits root) (member : receiptOf c acceptSeq ∈ root.receipts)
    (same : SameRequest retry c) (addressed : Addressed root retry.fence.incarnation)
    (passed : checkStrings digests kernel.limits root (.enqueue retry) = .ok ()) :
    kernel.apply digests (some root) (.enqueue retry) now =
      if c.requestHash ≠ retry.requestHash then
        .error (fail digests root .idempotencyConflict "request id reused with a different request")
      else .ok (.unchanged (.accepted acceptSeq true)) := by
  apply apply_unpublished inv passed
  · show (checkIncarnation digests root retry.fence >>= _) = _
    rw [checkIncarnation_addressed addressed, ok_bind, receipt_found inv.tracked member same]
    rfl
  · split
    · rfl
    · rfl

end Answers

section Interleavings

variable {kernel : Kernel} {ids : CollisionFree} {root next : Head} {command : Command} {now : Int64}
  {outcome : Except AgentError Transition} {c retry : Enqueue} {acceptSeq : Nat}

theorem receiptKept_advance {incarnation : Nat} {receipt : Receipt}
    (advance : Advance kernel ids root command now outcome next) (kept : ReceiptKept incarnation receipt root) :
    ReceiptKept incarnation receipt next := by
  have later := advance_incarnation_le advance
  refine ⟨Nat.le_trans kept.1 later, ?_⟩
  intro isCurrent
  have wasCurrent : root.incarnation = incarnation := Nat.le_antisymm (by omega) kept.1
  rcases advance_cases advance with rfl | ⟨_, _, reply, whole, -, step, same⟩
  · exact kept.2 isCurrent
  · have sameIncarnation : next.incarnation = whole.incarnation := by rw [same.fields]
    apply same.receipts.mem_iff.mpr
    apply step_receipt step _ (kept.2 wasCurrent)
    rw [← sameIncarnation, isCurrent, wasCurrent]

/-- A publish passed the bounds on its command. -/
theorem strings_of_advance {held : Head} {effects : List Effect} {reply : Reply}
    (advance : Advance kernel ids root command now (.ok (.publish held effects reply)) next) :
    checkStrings ids kernel.limits root command = .ok () := by
  cases advance with
  | published held full whole index effects reply applied publication =>
    rw [apply_eq] at applied
    obtain ⟨_, passed, -⟩ := ok_of_bind applied
    exact passed

variable {shared : Shared} {earlier later : List Applied} {first application : Applied}

section

variable (reached : Interleaving kernel ids shared) (cut : shared.applied = earlier ++ first :: later)
  (accepts : first.accepts c acceptSeq)

include reached cut accepts

theorem accepted_receipt : checkStrings ids kernel.limits first.before (.enqueue c) = .ok () ∧
      (∀ application ∈ later, ReceiptKept first.after.incarnation (receiptOf c acceptSeq) application.before) ∧
      ∀ application ∈ first :: later, RootInv ids kernel.limits application.after ∧
        ReceiptKept first.after.incarnation (receiptOf c acceptSeq) application.after := by
  obtain ⟨beforeRun, advance, onward⟩ := run_at (interleaving_run reached).1 cut
  obtain ⟨isEnqueue, head, effects, published⟩ := accepts
  have inv := rootInv_advance (rootInv_run beforeRun) advance
  rw [isEnqueue, published] at advance
  obtain ⟨whole, step, same⟩ := advance_publish advance
  have kept : ReceiptKept first.after.incarnation (receiptOf c acceptSeq) first.after :=
    ⟨Nat.le_refl _, fun _ => same.receipts.mem_iff.mpr (step_accepts step)⟩
  have after := (onward_keeps (ReceiptKept first.after.incarnation (receiptOf c acceptSeq))
    (fun _ _ _ _ _ _ advance kept => receiptKept_advance advance kept) onward kept).2
  refine ⟨strings_of_advance advance, ?_, ?_⟩
  · intro application inLater
    obtain ⟨-, -, before, -⟩ := after application inLater
    exact before
  · intro application member
    rcases mem_cons.mp member with rfl | inLater
    · exact ⟨inv, kept⟩
    · obtain ⟨beforeInv, laterAdvance, -, still⟩ := after application inLater
      exact ⟨rootInv_advance beforeInv laterAdvance, still⟩

theorem not_accepted_again (inLater : application ∈ later)
    (sameIncarnation : application.before.incarnation = first.after.incarnation)
    (isEnqueue : application.command = .enqueue retry) : ¬SameRequest retry c := by
  intro same
  obtain ⟨-, before, -⟩ := accepted_receipt reached cut accepts
  have member := (before application inLater).2 sameIncarnation
  have isApplied : application ∈ shared.applied := by rw [cut]; simp [inLater]
  obtain ⟨whole, reply, -, step, -⟩ := applied_step reached isApplied
  rw [isEnqueue] at step
  exact step_unseen step member ⟨same.2.symm, same.1.symm⟩

/-- A retry on a later HEAD with the pages it reads in memory is answered from the receipt. -/
theorem retry_outcome (member : application ∈ first :: later)
    (sameIncarnation : application.after.incarnation = first.after.incarnation) (same : SameRequest retry c)
    (addressed : Addressed application.after retry.fence.incarnation) {lists : Lists}
    (loads : Loads ids application.after lists)
    (named : pagesNeeded ids (some (application.after.holding lists)) (.enqueue retry) = []) (now : Int64) :
    (retry.requestHash = c.requestHash →
      kernel.apply ids (some (application.after.holding lists)) (.enqueue retry) now =
        .ok (.unchanged (.accepted acceptSeq true))) ∧
    (retry.requestHash ≠ c.requestHash →
      ∃ error, kernel.apply ids (some (application.after.holding lists)) (.enqueue retry) now = .error error ∧
        error.kind = .idempotencyConflict) := by
  obtain ⟨passed, -, after⟩ := accepted_receipt reached cut accepts
  obtain ⟨inv, kept⟩ := after application member
  have answered := @retry_answered ids kernel application.after now c retry acceptSeq inv (kept.2 sameIncarnation) same
    addressed (checkStrings_retry same passed)
  have sameOutcome := @apply_read ids _ _ now (.enqueue retry) kernel inv loads (pagesRead_of_named named)
  rw [answered] at sameOutcome
  refine ⟨?_, ?_⟩
  · intro sameHash
    rw [if_neg (not_not.mpr sameHash.symm)] at sameOutcome
    exact sameOutcome.answered
  · intro different
    rw [if_pos (Ne.symm different)] at sameOutcome
    exact ⟨_, sameOutcome.refused, rfl⟩

end

end Interleavings

/-- In every interleaving a message is accepted at most once in an incarnation, and every retry that its active agent admits is
answered from the receipt, whatever the caps. -/
theorem accepted_once (kernel : Kernel) (ids : CollisionFree) (history : SharedHistory kernel ids.toDigests) :
    (∀ (earlier later : List Applied) (first : Applied), history.shared.applied = earlier ++ first :: later →
      ∀ c acceptSeq, first.accepts c acceptSeq → ∀ application ∈ later,
        application.before.incarnation = first.after.incarnation → ∀ retry, application.command = .enqueue retry →
          ¬SameRequest retry c) ∧
    (∀ (earlier later : List Applied) (first : Applied), history.shared.applied = earlier ++ first :: later →
      ∀ c acceptSeq, first.accepts c acceptSeq → ∀ application ∈ first :: later,
        application.after.incarnation = first.after.incarnation → ∀ retry, SameRequest retry c →
          Addressed application.after retry.fence.incarnation → ∀ lists, Loads ids.toDigests application.after lists →
            pagesNeeded ids.toDigests (some (application.after.holding lists)) (.enqueue retry) = [] → ∀ now,
              (retry.requestHash = c.requestHash →
                kernel.apply ids.toDigests (some (application.after.holding lists)) (.enqueue retry) now =
                  .ok (.unchanged (.accepted acceptSeq true))) ∧
              (retry.requestHash ≠ c.requestHash →
                ∃ error, kernel.apply ids.toDigests (some (application.after.holding lists)) (.enqueue retry) now =
                  .error error ∧ error.kind = .idempotencyConflict)) := by
  refine ⟨?_, ?_⟩
  · intro earlier later first cut c acceptSeq accepts application inLater sameIncarnation retry isEnqueue
    exact not_accepted_again history.reached cut accepts inLater sameIncarnation isEnqueue
  · intro earlier later first cut c acceptSeq accepts application member sameIncarnation retry same addressed lists loads named now
    exact retry_outcome history.reached cut accepts member sameIncarnation same addressed loads named now

/-- A message is accepted, and then its agent is tombstoned. -/
def acceptedThenTombstoned : List (Command × Int64) :=
  [(.enqueue ⟨⟨1⟩, "", "", 0, none⟩, 0), (.tombstone ⟨⟨1⟩⟩, 0)]

/-- A tombstoned agent refuses the retry of a message it accepted in its incarnation. -/
theorem tombstoned_retry_refused :
    ¬∀ history : SharedHistory roomyKernel pairedIds.toDigests, ∀ (earlier later : List Applied) (first : Applied),
      history.shared.applied = earlier ++ first :: later → ∀ c acceptSeq, first.accepts c acceptSeq →
        ∀ application ∈ first :: later, application.after.incarnation = first.after.incarnation →
          ∀ retry now, SameRequest retry c → retry.requestHash = c.requestHash →
            retry.fence.incarnation = first.after.incarnation →
              roomyKernel.apply pairedIds.toDigests (some application.after) (.enqueue retry) now =
                .ok (.unchanged (.accepted acceptSeq true)) := by
  intro answers
  obtain ⟨history, applied⟩ := unnamed_sharedHistory acceptedThenTombstoned (by decide +kernel)
  have cut := applied.trans (take_get_drop _ ⟨0, by decide +kernel⟩)
  have answered := answers history _ _ _ cut ⟨⟨1⟩, "", "", 0, none⟩ 1
    ⟨rfl, publish_of_reply (by decide +kernel) (by decide +kernel)⟩
    ((replay roomyKernel pairedIds.toDigests unnamedRoot acceptedThenTombstoned).1.get ⟨1, by decide +kernel⟩)
    (mem_cons_of_mem _ (get_mem_drop _ (by decide))) (by decide +kernel) ⟨⟨1⟩, "", "", 0, none⟩ 0 ⟨rfl, rfl⟩ rfl
    (by decide +kernel)
  have replied := congrArg reply? answered
  revert replied
  decide +kernel

end Ravel.Agents
