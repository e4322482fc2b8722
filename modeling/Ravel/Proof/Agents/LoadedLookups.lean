import Ravel.Proof.Agents.RootInvariant

namespace Ravel.Agents

open List Library

section Hidden

variable (digests : Digests) (root : Head) (lists : Lists)

/-- The entries of a root that a HEAD in memory does not hold. -/
def hiddenInbox : List InboxEntry := hiddenEntries (inboxPages digests) lists.index.inbox root.inbox

def hiddenReceipts : List Receipt := hiddenEntries (receiptPages digests) lists.index.receipts root.receipts

def hiddenResults : List ResultEntry := hiddenEntries (resultPages digests) lists.index.results root.results

def hiddenEvents : List EventEntry := hiddenEntries (eventPages digests) lists.index.events root.events

def hiddenTimers : List TimerEntry := hiddenEntries (timerPages digests) lists.index.timers root.timers

end Hidden

section Lookups

variable {ids : CollisionFree} {limits : Limits} {root : Head} {lists : Lists}

variable {acceptSeq : Nat} {turnId timerId : Id128} {timers : List TimerEntry}

theorem inbox_key_resolves (inv : RootInv ids limits root) (loads : Loads ids root lists)
    (complete : lists.index.inbox.missing (.key acceptSeq) = []) :
    Resolves (fun entry : InboxEntry => entry.acceptSeq = acceptSeq) root.inbox lists.inbox
      (hiddenInbox ids root lists) := by
  obtain ⟨groups, rest, described⟩ := inv.paged.inbox
  refine ⟨loads.inbox.cut, ?_, ?_⟩
  · exact atMostOne_key inv.tracked.inbox_distinct _
  · intro entry member passes
    exact hidden_key described loads.inbox complete entry member (of_decide_eq_true passes)

theorem result_key_resolves (inv : RootInv ids limits root) (loads : Loads ids root lists)
    (complete : lists.index.results.missing (.key acceptSeq) = []) :
    Resolves (fun result : ResultEntry => result.acceptSeq = acceptSeq) root.results lists.results
      (hiddenResults ids root lists) := by
  obtain ⟨groups, rest, described⟩ := inv.paged.results
  refine ⟨loads.results.cut, ?_, ?_⟩
  · exact atMostOne_key inv.tracked.results_distinct _
  · intro entry member passes
    exact hidden_key described loads.results complete entry member (of_decide_eq_true passes)

/-- Two turns under one identifier run on one input. -/
theorem turnOf_unique {incarnation left right : Nat} (ofLeft : TurnOf ids incarnation left turnId)
    (ofRight : TurnOf ids incarnation right turnId) : left = right := by
  obtain ⟨_, _, leftId⟩ := ofLeft
  obtain ⟨_, _, rightId⟩ := ofRight
  exact (ids.turnId_injective (leftId.symm.trans rightId)).2.1

section

variable (inv : RootInv ids limits root) (loads : Loads ids root lists)

include inv loads

theorem inbox_failed_resolves (complete : lists.index.inbox.missing (.fingerprint (ids.idFingerprint turnId)) = []) :
    Resolves (fun entry : InboxEntry => entry.lastFailedTurnId = some turnId) root.inbox lists.inbox
      (hiddenInbox ids root lists) := by
  obtain ⟨groups, rest, described⟩ := inv.paged.inbox
  refine ⟨loads.inbox.cut, ?_, ?_⟩
  · apply atMostOne_of_key inv.tracked.inbox_distinct
    intro left leftIn right rightIn leftPasses rightPasses
    exact turnOf_unique (inv.tracked.failedTurns left leftIn turnId (of_decide_eq_true leftPasses))
      (inv.tracked.failedTurns right rightIn turnId (of_decide_eq_true rightPasses))
  · intro entry member passes
    apply hidden_fingerprint described loads.inbox complete entry member
    simp [inboxPages, of_decide_eq_true passes]

theorem result_turn_resolves (complete : lists.index.results.missing (.fingerprint (ids.idFingerprint turnId)) = []) :
    Resolves (fun result : ResultEntry => result.turnId = some turnId) root.results lists.results
      (hiddenResults ids root lists) := by
  obtain ⟨groups, rest, described⟩ := inv.paged.results
  refine ⟨loads.results.cut, ?_, ?_⟩
  · apply atMostOne_of_key inv.tracked.results_distinct
    intro left leftIn right rightIn leftPasses rightPasses
    exact turnOf_unique (inv.tracked.resultTurns left leftIn turnId (of_decide_eq_true leftPasses))
      (inv.tracked.resultTurns right rightIn turnId (of_decide_eq_true rightPasses))
  · intro entry member passes
    apply hidden_fingerprint described loads.results complete entry member
    simp [resultPages, of_decide_eq_true passes]

theorem receipt_resolves {requestId handler : String}
    (complete : lists.index.receipts.missing (.fingerprint (ids.receiptFingerprint handler requestId)) = []) :
    Resolves (fun receipt : Receipt => receipt.requestId = requestId ∧ receipt.handler = handler) root.receipts lists.receipts
      (hiddenReceipts ids root lists) := by
  obtain ⟨groups, rest, described⟩ := inv.paged.receipts
  refine ⟨loads.receipts.cut, ?_, ?_⟩
  · apply atMostOne_of_key inv.tracked.receiptKeys
    intro left _ right _ leftPasses rightPasses
    obtain ⟨leftId, leftHandler⟩ := of_decide_eq_true leftPasses
    obtain ⟨rightId, rightHandler⟩ := of_decide_eq_true rightPasses
    rw [leftId, leftHandler, rightId, rightHandler]
  · intro entry member passes
    obtain ⟨sameId, sameHandler⟩ := of_decide_eq_true passes
    apply hidden_fingerprint described loads.receipts complete entry member
    simp [receiptPages, sameId, sameHandler]

theorem hidden_timer_id (complete : lists.index.timers.missing (.fingerprint (ids.idFingerprint timerId)) = []) :
    ∀ timer ∈ hiddenTimers ids root lists, timer.timerId ≠ timerId := by
  obtain ⟨groups, rest, described⟩ := inv.paged.timers
  intro timer member same
  apply hidden_fingerprint described loads.timers complete timer member
  simp [timerPages, same]

end

theorem timer_id_unique (distinct : (timers.map (·.timerId)).Nodup) (timerId : Id128) (further : TimerEntry → Prop)
    [DecidablePred further] : AtMostOne (fun timer => decide (timer.timerId = timerId ∧ further timer)) timers := by
  apply atMostOne_of_key distinct
  intro left _ right _ leftPasses rightPasses
  rw [(of_decide_eq_true leftPasses).1, (of_decide_eq_true rightPasses).1]

theorem timer_fire_resolves (inv : RootInv ids limits root) (loads : Loads ids root lists)
    {generation : Nat} (complete : lists.index.timers.missing (.key generation) = []) :
    Resolves (fun timer : TimerEntry => timer.timerId = timerId ∧ timer.generation = generation ∧ timer.status = .scheduled)
      root.timers lists.timers (hiddenTimers ids root lists) := by
  obtain ⟨groups, rest, described⟩ := inv.paged.timers
  refine ⟨loads.timers.cut, timer_id_unique inv.tracked.timerIds timerId _, ?_⟩
  intro timer member passes
  exact hidden_key described loads.timers complete timer member (of_decide_eq_true passes).2.1

theorem cancelled_results_any (inv : RootInv ids limits root) (loads : Loads ids root lists)
    (complete : lists.index.results.missing .marked = []) (further : ResultEntry → Prop) [DecidablePred further] :
    (lists.results.any fun result => decide (result.status = .cancelled ∧ further result)) =
      root.results.any fun result => decide (result.status = .cancelled ∧ further result) := by
  obtain ⟨groups, rest, described⟩ := inv.paged.results
  apply any_cut loads.results.cut
  intro result member passes
  have unmarked := hidden_marked described loads.results complete result member
  simp [resultPages, (of_decide_eq_true passes).1] at unmarked

/-- The first input of the inbox is in memory once the first page is. -/
theorem inbox_first (inv : RootInv ids limits root) (loads : Loads ids root lists)
    (complete : lists.index.inbox.missing .first = []) : lists.inbox.head? = root.inbox.head? := by
  obtain ⟨groups, rest, described⟩ := inv.paged.inbox
  have inOrder := inv.paged.inOrder
  have sameList : lists.inbox = root.inbox.filter fun entry => lists.index.inbox.inMemory entry.acceptSeq := by
    have distinct : (lists.inbox.map (·.acceptSeq)).Nodup := by
      rw [Nodup, pairwise_map]
      exact loads.inOrder.imp Nat.ne_of_lt
    exact eq_of_sorted_perm distinct (loads.inOrder.imp Nat.le_of_lt) ((inOrder.filter _).imp Nat.le_of_lt)
      loads.inbox.reordered
  rw [sameList]
  cases whole : root.inbox with
  | nil => rfl
  | cons first others =>
    have firstLeast : ∀ entry ∈ root.inbox, first.acceptSeq ≤ entry.acceptSeq := by
      rw [whole] at inOrder ⊢
      intro entry member
      rcases mem_cons.mp member with rfl | later
      · exact Nat.le_refl _
      · exact Nat.le_of_lt ((pairwise_cons.mp inOrder).1 entry later)
    have firstHeld : lists.index.inbox.inMemory first.acceptSeq = true := by
      by_contra hidden
      have member : first ∈ hiddenEntries (inboxPages ids) lists.index.inbox root.inbox := by
        rw [hiddenEntries, mem_filter, whole]
        exact ⟨mem_cons_self, by simpa [inboxPages] using hidden⟩
      obtain ⟨index, group, located, unloaded, inGroup⟩ := (mem_hiddenEntries described loads.inbox).mp member
      -- The group of the first page holds an entry, and no entry is before the first input.
      have isFirst : index = 0 := by
        by_contra later
        obtain ⟨front, frontAt⟩ : ∃ front, groups[0]? = some front := by
          obtain ⟨bound, -⟩ := List.getElem?_eq_some_iff.mp located
          exact ⟨_, getElem?_eq_getElem (by omega)⟩
        obtain ⟨entry, inFront⟩ := exists_mem_of_ne_nil _ (described.filled front (mem_of_getElem? frontAt))
        have inWhole := ((described.pageFor_group frontAt entry).mpr inFront).1
        obtain ⟨frontBound, frontEq⟩ := List.getElem?_eq_some_iff.mp frontAt
        obtain ⟨bound, groupEq⟩ := List.getElem?_eq_some_iff.mp located
        have pair := pairwise_iff_getElem.mp described.layout.ordered 0 index frontBound bound (by omega)
        rw [frontEq, groupEq] at pair
        have before := pair.2 entry inFront
        have reached := (described.layout.inside group (mem_of_getElem? located) first inGroup).1
        have least := firstLeast entry inWhole
        have sameKey : (inboxPages ids).key entry = entry.acceptSeq := rfl
        have firstKey : (inboxPages ids).key first = first.acceptSeq := rfl
        omega
      have named : index ∈ lists.index.inbox.pagesFor .first := by
        obtain ⟨bound, -⟩ := List.getElem?_eq_some_iff.mp (page_of_group described loads.inbox located)
        rw [isFirst] at bound ⊢
        rw [Directory.pagesFor, take_range]
        simp only [mem_range]
        omega
      rw [loaded_of_missing complete named] at unloaded
      cases unloaded
    simp [firstHeld]

end Lookups

end Ravel.Agents
