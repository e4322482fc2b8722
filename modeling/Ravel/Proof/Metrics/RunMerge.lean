import Mathlib.Algebra.BigOperators.Group.List.Basic
import Mathlib.Algebra.Order.Group.Nat
import Ravel.Construction.Metrics.SeriesRuns
import Ravel.Library.TimedSelection

namespace Ravel.Metrics

open List TimedSelection

variable {Value Key : Type} [LinearOrder Key]

/-- A candidate comparison that is the strict order of an injective key. -/
structure CandidateOrder (Value Key : Type) [LinearOrder Key] where
  greater : Candidate Value → Candidate Value → Bool
  key : Candidate Value → Key
  greater_iff : ∀ left right, greater left right = true ↔ key right < key left
  injective : Function.Injective key

/-- The samples of a run with their timestamps and priorities. -/
def runEntries (priorities : RunPriorities) : Nat → List (Sample Value) → List (Int × Candidate Value)
  | _, [] => []
  | pos, sample :: rest =>
    ((priorities.atPos pos).toList.map fun priority => (sample.tsNs, ⟨sample.value, priority⟩)) ++
      runEntries priorities (pos + 1) rest

/-- Every position from `pos` on has a priority. -/
def Prioritized (priorities : RunPriorities) (pos : Nat) (samples : List (Sample Value)) : Prop :=
  ∀ offset, offset < samples.length → (priorities.atPos (pos + offset)).isSome = true

/-- The samples are in ascending time order. -/
def Ascending (samples : List (Sample Value)) : Prop :=
  samples.Pairwise fun before after => before.tsNs ≤ after.tsNs

/-- A run that a decoded page can hold. -/
structure SeriesRun.WellFormed (run : SeriesRun Value) : Prop where
  ascending : Ascending run.samples
  parallel : ∀ column, run.priorities = .perSample column → column.length = run.samples.length

/-- All candidates of a list of runs. -/
def runsEntries (runs : List (SeriesRun Value)) : List (Int × Candidate Value) :=
  runs.flatMap fun run => runEntries run.priorities 0 run.samples

/-- The option holds the greatest candidate of the set. -/
def IsBest (order : CandidateOrder Value Key) (seen : Set (Candidate Value)) : Option (Candidate Value) → Prop
  | none => ∀ candidate, candidate ∉ seen
  | some best => best ∈ seen ∧ ∀ candidate ∈ seen, order.key candidate ≤ order.key best

/-- The merge's choice is the greatest of the candidates so far and the new one. -/
theorem pickBest_isBest (order : CandidateOrder Value Key) {seen : Set (Candidate Value)}
    {best : Option (Candidate Value)} (isBest : IsBest order seen best) (candidate : Candidate Value) :
    IsBest order (insert candidate seen) (some (pickBest order.greater best candidate)) := by
  cases best with
  | none =>
    refine ⟨Set.mem_insert _ _, ?_⟩
    intro other member
    rcases Set.mem_insert_iff.mp member with rfl | inside
    · exact le_refl _
    · exact absurd inside (isBest other)
  | some current =>
    obtain ⟨member, highest⟩ := isBest
    simp only [pickBest]
    by_cases wins : order.greater current candidate = true
    · rw [if_pos wins]
      refine ⟨Set.mem_insert_of_mem _ member, ?_⟩
      intro other inside
      rcases Set.mem_insert_iff.mp inside with rfl | earlier
      · exact le_of_lt ((order.greater_iff _ _).mp wins)
      · exact highest other earlier
    · rw [if_neg wins]
      have below : order.key current ≤ order.key candidate := by
        rw [order.greater_iff] at wins
        exact not_lt.mp wins
      refine ⟨Set.mem_insert _ _, ?_⟩
      intro other inside
      rcases Set.mem_insert_iff.mp inside with rfl | earlier
      · exact le_refl _
      · exact le_trans (highest other earlier) below

theorem Prioritized.tail {priorities : RunPriorities} {pos : Nat} {sample : Sample Value}
    {rest : List (Sample Value)} (supplied : Prioritized priorities pos (sample :: rest)) :
    Prioritized priorities (pos + 1) rest := by
  intro offset inside
  have next := supplied (offset + 1) (by simpa using inside)
  rwa [show pos + (offset + 1) = pos + 1 + offset by omega] at next

theorem exists_sample_of_mem_runEntries {priorities : RunPriorities} {pos : Nat} {samples : List (Sample Value)}
    {entry : Int × Candidate Value} (member : entry ∈ runEntries priorities pos samples) :
    ∃ sample ∈ samples, sample.tsNs = entry.1 := by
  induction samples generalizing pos with
  | nil => cases member
  | cons sample rest ih =>
    rw [runEntries, mem_append] at member
    rcases member with here | later
    · obtain ⟨priority, -, same⟩ := mem_map.mp here
      exact ⟨sample, mem_cons_self, by rw [← same]⟩
    · obtain ⟨found, inRest, same⟩ := ih later
      exact ⟨found, mem_cons_of_mem _ inRest, same⟩

/-- The candidates of a list of entries at one time. -/
def atTime (ts : Int) (entries : Set (Int × Candidate Value)) : Set (Candidate Value) :=
  {candidate | (ts, candidate) ∈ entries}

/-- What one drained run leaves behind. -/
structure Drained (order : CandidateOrder Value Key) (ts : Int) (priorities : RunPriorities)
    (seen : Set (Candidate Value)) (pos : Nat) (samples : List (Sample Value)) (best : Option (Candidate Value))
    (newPos : Nat) (rest : List (Sample Value)) : Prop where
  best : IsBest order (seen ∪ atTime ts {entry | entry ∈ runEntries priorities pos samples}) best
  entries : ∀ entry, entry ∈ runEntries priorities newPos rest ↔
    entry ∈ runEntries priorities pos samples ∧ ts < entry.1
  ascending : Ascending rest
  supplied : Prioritized priorities newPos rest
  later : ∀ sample ∈ rest, ts < sample.tsNs
  shorter : rest.length ≤ samples.length
  consumed : ∀ sample, samples.head? = some sample → sample.tsNs = ts → rest.length < samples.length

/-- One run gives up exactly its candidates at the time. -/
theorem drainRun_drained (order : CandidateOrder Value Key) (ts : Int) (priorities : RunPriorities) (total : Nat)
    {samples : List (Sample Value)} {pos : Nat} {seen : Set (Candidate Value)} {best : Option (Candidate Value)}
    (isBest : IsBest order seen best) (ascending : Ascending samples)
    (supplied : Prioritized priorities pos samples) (notBefore : ∀ sample ∈ samples, ts ≤ sample.tsNs) :
    ∃ newBest newPos rest,
      drainRun order.greater ts priorities total best pos samples = .ok (newBest, newPos, rest) ∧
        Drained order ts priorities seen pos samples newBest newPos rest := by
  induction samples generalizing pos seen best with
  | nil =>
    refine ⟨best, pos, [], rfl, ?_, ?_, ascending, supplied, ?_, le_refl _, ?_⟩
    · have same : seen ∪ atTime ts {entry | entry ∈ runEntries priorities pos ([] : List (Sample Value))} =
          seen := by
        simp [atTime, runEntries]
      rw [same]
      exact isBest
    · intro entry
      simp [runEntries]
    · intro sample member
      cases member
    · intro sample member
      cases member
  | cons sample rest ih =>
    obtain ⟨following, restAscending⟩ := pairwise_cons.mp ascending
    by_cases here : sample.tsNs = ts
    · have found := supplied 0 (by simp)
      rw [Nat.add_zero, Option.isSome_iff_exists] at found
      obtain ⟨priority, atPos⟩ := found
      have picked := pickBest_isBest order isBest ⟨sample.value, priority⟩
      obtain ⟨newBest, newPos, left, drained, spec⟩ := ih picked restAscending supplied.tail
        fun other member => notBefore other (mem_cons_of_mem _ member)
      have split : runEntries priorities pos (sample :: rest) =
          (ts, ⟨sample.value, priority⟩) :: runEntries priorities (pos + 1) rest := by
        rw [runEntries, atPos, here]
        rfl
      refine ⟨newBest, newPos, left, ?_, ?_, ?_, spec.ascending, spec.supplied, spec.later, ?_, ?_⟩
      · rw [drainRun, if_pos here, atPos]
        exact drained
      · have same : seen ∪ atTime ts {entry | entry ∈ runEntries priorities pos (sample :: rest)} =
            insert ⟨sample.value, priority⟩ seen ∪
              atTime ts {entry | entry ∈ runEntries priorities (pos + 1) rest} := by
          ext candidate
          simp only [split, atTime, Set.mem_union, Set.mem_ofPred_eq, mem_cons, Prod.mk.injEq, true_and,
            Set.mem_insert_iff]
          tauto
        rw [same]
        exact spec.best
      · intro entry
        rw [spec.entries, split, mem_cons]
        constructor
        · intro inside
          exact ⟨.inr inside.1, inside.2⟩
        · intro inside
          rcases inside.1 with rfl | later
          · exact absurd inside.2 (lt_irrefl _)
          · exact ⟨later, inside.2⟩
      · exact le_trans spec.shorter (by simp)
      · intro _ _ _
        exact Nat.lt_of_le_of_lt spec.shorter (by simp)
    · have after : ts < sample.tsNs :=
        lt_of_le_of_ne (notBefore sample mem_cons_self) (Ne.symm here)
      have later : ∀ other ∈ sample :: rest, ts < other.tsNs := by
        intro other member
        rcases mem_cons.mp member with rfl | inRest
        · exact after
        · exact lt_of_lt_of_le after (following other inRest)
      have entryLater : ∀ entry ∈ runEntries priorities pos (sample :: rest), ts < entry.1 := by
        intro entry member
        obtain ⟨other, otherMember, same⟩ := exists_sample_of_mem_runEntries member
        rw [← same]
        exact later other otherMember
      refine ⟨best, pos, sample :: rest, ?_, ?_, ?_, ascending, supplied, later, le_refl _, ?_⟩
      · rw [drainRun, if_neg here]
      · have same : seen ∪ atTime ts {entry | entry ∈ runEntries priorities pos (sample :: rest)} = seen := by
          ext candidate
          constructor
          · intro inside
            rcases inside with earlier | atTs
            · exact earlier
            · exact absurd (entryLater _ atTs) (lt_irrefl _)
          · exact Or.inl
        rw [same]
        exact isBest
      · intro entry
        constructor
        · intro member
          exact ⟨member, entryLater entry member⟩
        · exact And.left
      · intro found same equal
        rw [head?_cons, Option.some.injEq] at same
        rw [← same] at equal
        exact absurd equal here

/-- The pending samples of a head. -/
def RunHead.samples (head : RunHead Value) : List (Sample Value) :=
  head.next :: head.rest

/-- The pending candidates of a head. -/
def RunHead.entries (head : RunHead Value) : List (Int × Candidate Value) :=
  runEntries head.priorities head.pos head.samples

/-- A head whose pending samples ascend and have priorities. -/
structure RunHead.Valid (head : RunHead Value) : Prop where
  ascending : Ascending head.samples
  supplied : Prioritized head.priorities head.pos head.samples

/-- The pending candidates of a heap. -/
def heapEntries (heap : List (RunHead Value)) : Set (Int × Candidate Value) :=
  {entry | ∃ head ∈ heap, entry ∈ head.entries}

/-- The number of pending samples of a heap. -/
def pending (heap : List (RunHead Value)) : Nat :=
  (heap.map fun head => head.samples.length).sum

/-- A heap order between two heads bounds their times. -/
theorem RunHead.before_le {left right : RunHead Value} (ordered : left.before right = true) :
    left.next.tsNs ≤ right.next.tsNs := by
  simp only [RunHead.before, Bool.or_eq_true, Bool.and_eq_true, decide_eq_true_eq] at ordered
  omega

theorem RunHead.le_of_not_before {left right : RunHead Value} (unordered : left.before right = false) :
    right.next.tsNs ≤ left.next.tsNs := by
  simp only [RunHead.before, Bool.or_eq_false_iff, Bool.and_eq_false_iff, decide_eq_false_iff_not] at unordered
  omega

/-- Only the empty heap has no least head. -/
theorem popMin_none {heap : List (RunHead Value)} (popped : popMin heap = none) : heap = [] := by
  cases heap with
  | nil => rfl
  | cons head rest =>
    rw [popMin] at popped
    cases inner : popMin rest with
    | none => rw [inner] at popped; cases popped
    | some pair =>
      rw [inner] at popped
      simp only at popped
      split at popped <;> cases popped

theorem popMin_some {heap others : List (RunHead Value)} {least : RunHead Value}
    (popped : popMin heap = some (least, others)) :
    heap.Perm (least :: others) ∧ ∀ head ∈ heap, least.next.tsNs ≤ head.next.tsNs := by
  induction heap generalizing least others with
  | nil => cases popped
  | cons head rest ih =>
    rw [popMin] at popped
    cases inner : popMin rest with
    | none =>
      rw [inner] at popped
      cases popped
      rw [popMin_none inner]
      exact ⟨Perm.refl _, by simp⟩
    | some pair =>
      obtain ⟨candidate, remaining⟩ := pair
      rw [inner] at popped
      obtain ⟨reordered, lowest⟩ := ih inner
      cases ordered : head.before candidate with
      | true =>
        simp only [ordered, if_true, Option.some.injEq, Prod.mk.injEq] at popped
        obtain ⟨rfl, rfl⟩ := popped
        refine ⟨reordered.cons _, ?_⟩
        intro other member
        rcases mem_cons.mp member with rfl | inRest
        · exact le_refl _
        · exact le_trans (RunHead.before_le ordered) (lowest other inRest)
      | false =>
        simp only [ordered, Bool.false_eq_true, if_false, Option.some.injEq, Prod.mk.injEq] at popped
        obtain ⟨rfl, rfl⟩ := popped
        refine ⟨(reordered.cons _).trans (Perm.swap _ _ _), ?_⟩
        intro other member
        rcases mem_cons.mp member with rfl | inRest
        · exact RunHead.le_of_not_before ordered
        · exact lowest other inRest

/-- A reordered heap has the same pending candidates. -/
theorem heapEntries_perm {first second : List (RunHead Value)} (reordered : first.Perm second) :
    heapEntries first = heapEntries second := by
  ext entry
  simp only [heapEntries, Set.mem_ofPred_eq, reordered.mem_iff]

/-- The pending candidates of a heap with one more head. -/
theorem mem_heapEntries_cons {head : RunHead Value} {heap : List (RunHead Value)} {entry : Int × Candidate Value} :
    entry ∈ heapEntries (head :: heap) ↔ entry ∈ head.entries ∨ entry ∈ heapEntries heap := by
  simp [heapEntries]

theorem RunHead.Valid.le_of_mem {head : RunHead Value} (valid : head.Valid) {entry : Int × Candidate Value}
    (member : entry ∈ head.entries) : head.next.tsNs ≤ entry.1 := by
  obtain ⟨sample, inSamples, same⟩ := exists_sample_of_mem_runEntries member
  rw [← same]
  rcases mem_cons.mp inSamples with rfl | later
  · exact le_refl _
  · exact (pairwise_cons.mp valid.ascending).1 sample later

/-- What the inner loop leaves behind. -/
structure HeapDrained (order : CandidateOrder Value Key) (ts : Int) (seen : Set (Candidate Value))
    (heap : List (RunHead Value)) (best : Option (Candidate Value)) (remaining : List (RunHead Value)) : Prop where
  best : IsBest order (seen ∪ atTime ts (heapEntries heap)) best
  entries : ∀ entry, entry ∈ heapEntries remaining ↔ entry ∈ heapEntries heap ∧ ts < entry.1
  valid : ∀ head ∈ remaining, head.Valid
  shorter : pending remaining ≤ pending heap
  consumed : (∃ head ∈ heap, head.next.tsNs = ts) → pending remaining < pending heap

/-- A heap whose heads are all later has nothing to drain. -/
theorem heapDrained_of_later (order : CandidateOrder Value Key) {ts : Int} {seen : Set (Candidate Value)}
    {heap : List (RunHead Value)} {best : Option (Candidate Value)} (isBest : IsBest order seen best)
    (valid : ∀ head ∈ heap, head.Valid) (later : ∀ head ∈ heap, ts < head.next.tsNs) :
    HeapDrained order ts seen heap best heap := by
  have entryLater : ∀ entry ∈ heapEntries heap, ts < entry.1 := by
    intro entry member
    obtain ⟨head, inHeap, inHead⟩ := member
    exact lt_of_lt_of_le (later head inHeap) ((valid head inHeap).le_of_mem inHead)
  refine ⟨?_, ?_, valid, le_refl _, ?_⟩
  · have same : seen ∪ atTime ts (heapEntries heap) = seen := by
      ext candidate
      constructor
      · intro inside
        rcases inside with earlier | atTs
        · exact earlier
        · exact absurd (entryLater _ atTs) (lt_irrefl _)
      · exact Or.inl
    rw [same]
    exact isBest
  · intro entry
    constructor
    · intro member
      exact ⟨member, entryLater entry member⟩
    · exact And.left
  · intro found
    obtain ⟨head, inHeap, same⟩ := found
    exact absurd same (ne_of_gt (later head inHeap))

theorem pending_cons (head : RunHead Value) (heap : List (RunHead Value)) :
    pending (head :: heap) = head.samples.length + pending heap := by
  simp [pending]

theorem HeapDrained.of_perm {order : CandidateOrder Value Key} {ts : Int} {seen : Set (Candidate Value)}
    {first second remaining : List (RunHead Value)} {best : Option (Candidate Value)}
    (reordered : first.Perm second) (drained : HeapDrained order ts seen second best remaining) :
    HeapDrained order ts seen first best remaining := by
  have samePending : pending first = pending second := by
    unfold pending
    exact (reordered.map _).sum_eq
  refine ⟨?_, ?_, drained.valid, ?_, ?_⟩
  · rw [heapEntries_perm reordered]
    exact drained.best
  · rw [heapEntries_perm reordered]
    exact drained.entries
  · rw [samePending]
    exact drained.shorter
  · intro found
    obtain ⟨head, inHeap, same⟩ := found
    rw [samePending]
    exact drained.consumed ⟨head, reordered.mem_iff.mp inHeap, same⟩

theorem HeapDrained.step {order : CandidateOrder Value Key} {ts : Int} {seen : Set (Candidate Value)}
    {head : RunHead Value} (remainder : List (RunHead Value)) {others remaining : List (RunHead Value)}
    {best : Option (Candidate Value)} (kept : ∀ entry, entry ∈ heapEntries remainder ↔ entry ∈ head.entries ∧ ts < entry.1)
    (fewer : pending remainder < head.samples.length)
    (inner : HeapDrained order ts (seen ∪ atTime ts {entry | entry ∈ head.entries}) (remainder ++ others) best
      remaining) :
    HeapDrained order ts seen (head :: others) best remaining := by
  have split : ∀ entry, entry ∈ heapEntries (remainder ++ others) ↔
      entry ∈ heapEntries remainder ∨ entry ∈ heapEntries others := by
    intro entry
    simp only [heapEntries, Set.mem_ofPred_eq, mem_append]
    constructor
    · intro found
      obtain ⟨other, inside | inside, member⟩ := found
      · exact .inl ⟨other, inside, member⟩
      · exact .inr ⟨other, inside, member⟩
    · intro found
      rcases found with ⟨other, inside, member⟩ | ⟨other, inside, member⟩
      · exact ⟨other, .inl inside, member⟩
      · exact ⟨other, .inr inside, member⟩
  have total : pending (remainder ++ others) = pending remainder + pending others := by
    simp [pending]
  have smaller := inner.shorter
  refine ⟨?_, ?_, inner.valid, ?_, ?_⟩
  · have same : seen ∪ atTime ts (heapEntries (head :: others)) =
        seen ∪ atTime ts {entry | entry ∈ head.entries} ∪ atTime ts (heapEntries (remainder ++ others)) := by
      ext candidate
      simp only [atTime, Set.mem_union, Set.mem_ofPred_eq, mem_heapEntries_cons, split, kept, lt_irrefl,
        and_false, false_or]
      tauto
    rw [same]
    exact inner.best
  · intro entry
    rw [inner.entries, split, kept, mem_heapEntries_cons]
    tauto
  · rw [pending_cons]
    omega
  · intro _
    rw [pending_cons]
    omega

/-- The inner loop drains every head at the time. -/
theorem drainHeads_drained (order : CandidateOrder Value Key) (ts : Int) {turns : Nat} {seen : Set (Candidate Value)}
    {best : Option (Candidate Value)} {heap : List (RunHead Value)} (isBest : IsBest order seen best)
    (valid : ∀ head ∈ heap, head.Valid) (notBefore : ∀ head ∈ heap, ts ≤ head.next.tsNs)
    (room : heap.countP (fun head => decide (head.next.tsNs = ts)) < turns) :
    ∃ newBest remaining, drainHeads order.greater ts turns best heap = .ok (newBest, remaining) ∧
      HeapDrained order ts seen heap newBest remaining := by
  induction turns generalizing seen best heap with
  | zero => exact absurd room (Nat.not_lt_zero _)
  | succ turns ih =>
    rw [drainHeads]
    cases popped : popMin heap with
    | none =>
      rw [popMin_none popped]
      exact ⟨best, [], rfl, heapDrained_of_later order isBest (by simp) (by simp)⟩
    | some pair =>
      obtain ⟨head, others⟩ := pair
      obtain ⟨reordered, lowest⟩ := popMin_some popped
      have inHeap : head ∈ heap := reordered.mem_iff.mpr mem_cons_self
      have othersValid : ∀ other ∈ others, other.Valid := fun other member =>
        valid other (reordered.mem_iff.mpr (mem_cons_of_mem _ member))
      have othersNotBefore : ∀ other ∈ others, ts ≤ other.next.tsNs := fun other member =>
        notBefore other (reordered.mem_iff.mpr (mem_cons_of_mem _ member))
      by_cases here : head.next.tsNs = ts
      · have fewer : others.countP (fun head => decide (head.next.tsNs = ts)) < turns := by
          rw [reordered.countP_eq, countP_cons_of_pos (by simpa using here)] at room
          omega
        have allNotBefore : ∀ sample ∈ head.samples, ts ≤ sample.tsNs := by
          intro sample member
          rcases mem_cons.mp member with rfl | later
          · exact notBefore head inHeap
          · rw [← here]
            exact (pairwise_cons.mp (valid head inHeap).ascending).1 sample later
        obtain ⟨newBest, newPos, rest, ran, drained⟩ := drainRun_drained order ts head.priorities head.total
          isBest (valid head inHeap).ascending (valid head inHeap).supplied allNotBefore
        have consumed := drained.consumed head.next rfl here
        simp only [here, ne_eq, not_true_eq_false, if_false]
        rw [show head.next :: head.rest = head.samples from rfl, ran]
        cases rest with
        | nil =>
          obtain ⟨finalBest, remaining, looped, inner⟩ := ih drained.best othersValid othersNotBefore fewer
          refine ⟨finalBest, remaining, looped, (HeapDrained.step [] ?_ ?_ inner).of_perm reordered⟩
          · intro entry
            rw [RunHead.entries, ← drained.entries]
            simp [heapEntries, runEntries]
          · simp [pending, RunHead.samples]
        | cons sample rest =>
          have after := drained.later sample mem_cons_self
          simp only [not_lt.mpr (le_of_lt after), if_false]
          let left : RunHead Value := { head with pos := newPos, next := sample, rest := rest }
          have nextValid : ∀ other ∈ left :: others, other.Valid := by
            intro other member
            rcases mem_cons.mp member with rfl | inOthers
            · exact ⟨drained.ascending, drained.supplied⟩
            · exact othersValid other inOthers
          have nextNotBefore : ∀ other ∈ left :: others, ts ≤ other.next.tsNs := by
            intro other member
            rcases mem_cons.mp member with rfl | inOthers
            · exact le_of_lt after
            · exact othersNotBefore other inOthers
          have nextRoom : (left :: others).countP (fun head => decide (head.next.tsNs = ts)) < turns := by
            rwa [countP_cons_of_neg (by simpa using ne_of_gt after)]
          obtain ⟨finalBest, remaining, looped, inner⟩ := ih drained.best nextValid nextNotBefore nextRoom
          refine ⟨finalBest, remaining, looped, (HeapDrained.step [left] ?_ ?_ inner).of_perm reordered⟩
          · intro entry
            rw [RunHead.entries, ← drained.entries]
            simp [heapEntries, RunHead.entries, RunHead.samples, left]
          · simpa [pending, RunHead.samples, left] using consumed
      · simp only [here, ne_eq, not_false_eq_true, if_true]
        have after : ts < head.next.tsNs := lt_of_le_of_ne (notBefore head inHeap) (Ne.symm here)
        refine ⟨best, head :: others, rfl, (heapDrained_of_later order isBest ?_ ?_).of_perm reordered⟩
        · intro other member
          exact valid other (reordered.mem_iff.mpr member)
        · intro other member
          exact lt_of_lt_of_le after (lowest other (reordered.mem_iff.mpr member))

/-- The selected candidates are yielded in order against the budget. -/
def yieldAll : YieldBudget → List (Sample Value) → List (Int × Candidate Value) →
    Except QueryError (YieldBudget × List (Sample Value))
  | budget, out, [] => .ok (budget, out)
  | budget, out, entry :: rest =>
    match budget.countOne with
    | .error failure => .error failure
    | .ok budget => yieldAll budget (out ++ [⟨entry.1, entry.2.value⟩]) rest

/-- A list is the merge's answer for a set of candidates. -/
abbrev SelectsEntries (order : CandidateOrder Value Key) (entries : Set (Int × Candidate Value))
    (selected : List (Int × Candidate Value)) : Prop :=
  Selects Prod.fst (fun entry => order.key entry.2) entries selected

theorem RunHead.Valid.exists_first {head : RunHead Value} (valid : head.Valid) :
    ∃ candidate, (head.next.tsNs, candidate) ∈ head.entries := by
  have found := valid.supplied 0 (by simp [RunHead.samples])
  rw [Nat.add_zero, Option.isSome_iff_exists] at found
  obtain ⟨priority, atPos⟩ := found
  refine ⟨⟨head.next.value, priority⟩, ?_⟩
  rw [RunHead.entries, RunHead.samples, runEntries, atPos]
  simp

/-- The outer loop yields the selection of the pending candidates. -/
theorem mergeLoop_eq (order : CandidateOrder Value Key) {turns : Nat} {heap : List (RunHead Value)}
    (valid : ∀ head ∈ heap, head.Valid) (room : pending heap < turns) :
    ∃ selected, SelectsEntries order (heapEntries heap) selected ∧
      ∀ budget out, mergeLoop order.greater turns heap budget out = yieldAll budget out selected := by
  induction turns generalizing heap with
  | zero => exact absurd room (Nat.not_lt_zero _)
  | succ turns ih =>
    cases popped : popMin heap with
    | none =>
      have empty := popMin_none popped
      subst empty
      refine ⟨[], Selects.nil (by simp [heapEntries]), ?_⟩
      intro budget out
      rw [mergeLoop, popped, yieldAll]
    | some pair =>
      obtain ⟨head, others⟩ := pair
      obtain ⟨reordered, lowest⟩ := popMin_some popped
      have inHeap : head ∈ heap := reordered.mem_iff.mpr mem_cons_self
      have entryLowest : ∀ entry ∈ heapEntries heap, head.next.tsNs ≤ entry.1 := by
        intro entry member
        obtain ⟨other, otherInHeap, inOther⟩ := member
        exact le_trans (lowest other otherInHeap) ((valid other otherInHeap).le_of_mem inOther)
      have isBest : IsBest order ∅ none := fun candidate => Set.notMem_empty candidate
      obtain ⟨newBest, remaining, ran, drained⟩ := drainHeads_drained order head.next.tsNs isBest valid lowest
        (Nat.lt_succ_of_le countP_le_length)
      have consumed := drained.consumed ⟨head, inHeap, rfl⟩
      have best := drained.best
      rw [Set.empty_union] at best
      cases newBest with
      | none =>
        obtain ⟨candidate, first⟩ := (valid head inHeap).exists_first
        exact absurd ⟨head, inHeap, first⟩ (best candidate)
      | some candidate =>
        obtain ⟨selected, selects, looped⟩ := ih drained.valid (by omega)
        refine ⟨(head.next.tsNs, candidate) :: selected, ?_, ?_⟩
        · refine Selects.cons ⟨best.1, ?_⟩ entryLowest ?_ ?_
          · intro other member sameTime
            obtain ⟨otherTime, otherCandidate⟩ := other
            cases sameTime
            exact best.2 otherCandidate member
          · intro other _ sameTime sameKey
            obtain ⟨otherTime, otherCandidate⟩ := other
            cases sameTime
            exact Prod.ext rfl (order.injective sameKey)
          · have same : {entry | entry ∈ heapEntries heap ∧ head.next.tsNs < entry.1} =
                heapEntries remaining := by
              ext entry
              rw [drained.entries]
              rfl
            rw [same]
            exact selects
        · intro budget out
          rw [mergeLoop, popped]
          simp only [ran]
          rw [yieldAll]
          cases budget.countOne with
          | error failure => rfl
          | ok budget => exact looped budget _

theorem SeriesRun.WellFormed.head_valid {run : SeriesRun Value} (formed : run.WellFormed) {index : Nat}
    {head : RunHead Value} (started : run.head index = some head) :
    head.Valid ∧ head.entries = runEntries run.priorities 0 run.samples := by
  unfold SeriesRun.head at started
  cases stored : run.samples with
  | nil =>
    rw [stored] at started
    cases started
  | cons sample rest =>
    rw [stored] at started
    cases started
    refine ⟨⟨?_, ?_⟩, rfl⟩
    · have ascending := formed.ascending
      rw [stored] at ascending
      exact ascending
    · intro offset inside
      cases source : run.priorities with
      | runWide triple => rfl
      | perSample column =>
        have parallel := formed.parallel column source
        rw [stored] at parallel
        have covered : 0 + offset < column.length := by
          rw [parallel, Nat.zero_add]
          exact inside
        rw [RunPriorities.atPos, getElem?_eq_getElem covered]
        rfl

/-- A run without a heap entry has no candidates. -/
theorem runEntries_eq_nil_of_head {run : SeriesRun Value} {index : Nat} (empty : run.head index = none) :
    runEntries run.priorities 0 run.samples = [] := by
  unfold SeriesRun.head at empty
  cases stored : run.samples with
  | nil => rfl
  | cons sample rest =>
    rw [stored] at empty
    cases empty

theorem forM_checkLen_ok {runs : List (SeriesRun Value)} (formed : ∀ run ∈ runs, run.WellFormed) :
    (runs.forM fun run => run.priorities.checkLen run.samples.length) = Except.ok () := by
  induction runs with
  | nil => rfl
  | cons run rest ih =>
    have passed : run.priorities.checkLen run.samples.length = .ok () := by
      cases source : run.priorities with
      | runWide triple => rfl
      | perSample column =>
        have parallel := (formed run mem_cons_self).parallel column source
        simp [RunPriorities.checkLen, RunPriorities.columnLen, parallel]
    change (run.priorities.checkLen run.samples.length >>= fun _ =>
      rest.forM fun run => run.priorities.checkLen run.samples.length) = _
    rw [passed]
    exact ih fun other member => formed other (mem_cons_of_mem _ member)

theorem initialHeap_spec {runs : List (SeriesRun Value)} (formed : ∀ run ∈ runs, run.WellFormed) (start : Nat) :
    (∀ head ∈ (runs.zipIdx start).filterMap fun entry => entry.1.head entry.2, head.Valid) ∧
      heapEntries ((runs.zipIdx start).filterMap fun entry => entry.1.head entry.2) =
        {entry | entry ∈ runsEntries runs} ∧
      pending ((runs.zipIdx start).filterMap fun entry => entry.1.head entry.2) ≤
        (runs.map fun run => run.samples.length).sum := by
  induction runs generalizing start with
  | nil =>
    refine ⟨by simp, ?_, by simp [pending]⟩
    ext entry
    simp [heapEntries, runsEntries]
  | cons run rest ih =>
    obtain ⟨restValid, restEntries, restPending⟩ :=
      ih (fun other member => formed other (mem_cons_of_mem _ member)) (start + 1)
    have split : runsEntries (run :: rest) = runEntries run.priorities 0 run.samples ++ runsEntries rest := rfl
    rw [zipIdx_cons]
    cases entered : run.head start with
    | none =>
      simp only [filterMap_cons, entered]
      refine ⟨restValid, ?_, Nat.le_trans restPending (by simp)⟩
      rw [restEntries, split, runEntries_eq_nil_of_head entered]
      rfl
    | some head =>
      obtain ⟨valid, same⟩ := (formed run mem_cons_self).head_valid entered
      simp only [filterMap_cons, entered]
      refine ⟨?_, ?_, ?_⟩
      · intro other member
        rcases mem_cons.mp member with rfl | inRest
        · exact valid
        · exact restValid other inRest
      · ext entry
        rw [mem_heapEntries_cons, restEntries, same, split]
        simp
      · have length : head.samples.length = run.samples.length := by
          unfold SeriesRun.head at entered
          cases stored : run.samples with
          | nil =>
            rw [stored] at entered
            cases entered
          | cons sample tail =>
            rw [stored] at entered
            cases entered
            rfl
        rw [pending_cons, length, map_cons, sum_cons]
        omega

theorem mergeRunsBy_eq (order : CandidateOrder Value Key) {runs : List (SeriesRun Value)}
    (formed : ∀ run ∈ runs, run.WellFormed) :
    ∃ selected, SelectsEntries order {entry | entry ∈ runsEntries runs} selected ∧
      ∀ budget, mergeRunsBy order.greater runs budget = yieldAll budget [] selected := by
  obtain ⟨valid, entries, bounded⟩ := initialHeap_spec formed 0
  obtain ⟨selected, selects, looped⟩ := mergeLoop_eq order valid (Nat.lt_succ_of_le bounded)
  rw [entries] at selects
  refine ⟨selected, selects, ?_⟩
  intro budget
  rw [mergeRunsBy, forM_checkLen_ok formed]
  exact looped budget []

/-- The merge is a function of the set of candidates. -/
theorem mergeRunsBy_congr (order : CandidateOrder Value Key) {first second : List (SeriesRun Value)}
    (firstFormed : ∀ run ∈ first, run.WellFormed) (secondFormed : ∀ run ∈ second, run.WellFormed)
    (same : ∀ entry, entry ∈ runsEntries first ↔ entry ∈ runsEntries second) (budget : YieldBudget) :
    mergeRunsBy order.greater first budget = mergeRunsBy order.greater second budget := by
  obtain ⟨firstSelected, firstSelects, firstEq⟩ := mergeRunsBy_eq order firstFormed
  obtain ⟨secondSelected, secondSelects, secondEq⟩ := mergeRunsBy_eq order secondFormed
  have equal : {entry | entry ∈ runsEntries first} = {entry | entry ∈ runsEntries second} := Set.ext same
  rw [equal] at firstSelects
  rw [firstEq, secondEq, firstSelects.unique secondSelects]

end Ravel.Metrics
