import Ravel.Construction.Erasure.MetricRewrite
import Ravel.Proof.Erasure.RequestMatching
import Ravel.Proof.Metrics.RunReplacement

namespace Ravel.Erasure

open List Metrics SortedGroups Library

variable {Value : Type}

/-- Some request that matches the labels covers the time. -/
def Erased (requests : List ErasureRequest) (labels : LabelSet) (tsNs : Int) : Prop :=
  ∃ request ∈ requests, request.Covers tsNs ∧ request.ResolvedBy fun key => labels.lookup key

/-- The labels are those of some request. -/
def Targeted (requests : List ErasureRequest) (labels : LabelSet) : Prop :=
  ∃ request ∈ requests, request.ResolvedBy fun key => labels.lookup key

/-- The query-time label test of a request. -/
theorem matchesLabels_iff (request : ErasureRequest) (labels : LabelSet) :
    (ErasurePredicate.mk request.predicate request.windowStartNs request.windowEndNs).matchesLabels labels = true ↔
      request.ResolvedBy fun key => labels.lookup key := by
  by_cases empty : request.predicate = []
  · simp [ErasurePredicate.matchesLabels, ErasurePredicate.matchersSatisfied, ErasureRequest.ResolvedBy, empty]
  · simp [ErasurePredicate.matchesLabels, ErasurePredicate.matchersSatisfied, ErasureRequest.ResolvedBy, empty]

theorem sampleSurvives_iff (requests : List ErasureRequest) (labels : LabelSet) (tsNs : Int) :
    sampleSurvives tsNs (matchingPredicates labels (snapshotPendingErasurePredicates requests)) = true ↔
      ¬Erased requests labels tsNs := by
  rw [sampleSurvives, Bool.not_eq_true', ← Bool.not_eq_true, not_iff_not, matchingPredicates, any_filter,
    snapshotPendingErasurePredicates, any_map, any_eq_true]
  simp only [Function.comp_apply, Bool.and_eq_true, matchesLabels_iff, Erased, ErasureRequest.Covers,
    ErasurePredicate.inWindow]
  apply exists_congr
  intro request
  tauto

theorem matchingPredicates_isEmpty_iff (requests : List ErasureRequest) (labels : LabelSet) :
    (matchingPredicates labels (snapshotPendingErasurePredicates requests)).isEmpty = true ↔
      ¬Targeted requests labels := by
  rw [List.isEmpty_iff, matchingPredicates, filter_eq_nil_iff, snapshotPendingErasurePredicates,
    forall_mem_map]
  simp only [matchesLabels_iff, Targeted, not_exists, not_and]

/-- The rewrite's applicable requests are those at the indexes of targeting requests. -/
theorem mem_applicableRequests_iff (requests : List ApplicableRequest) (labels : LabelSet) (index : Nat) :
    index ∈ applicableRequests requests labels ↔
      ∃ request, requests[index]? = some request ∧ request.matcher.matchesLabels labels = true := by
  simp only [applicableRequests, mem_map, mem_filter, Prod.exists, mk_mem_zipIdx_iff_getElem?,
    exists_eq_right]

theorem applicableRequests_isEmpty_iff (requests : List ErasureRequest) (labels : LabelSet) :
    (applicableRequests (requests.map ApplicableRequest.ofRequest) labels).isEmpty = true ↔
      ¬Targeted requests labels := by
  rw [List.isEmpty_iff, eq_nil_iff_forall_not_mem, Targeted, not_exists]
  simp only [mem_applicableRequests_iff]
  constructor
  · intro none request ⟨member, resolved⟩
    obtain ⟨index, found⟩ := mem_iff_getElem?.mp member
    refine none index ⟨ApplicableRequest.ofRequest request, by simp [found], ?_⟩
    exact (matchesLabels_iff request labels).mpr resolved
  · intro none index ⟨applicable, found, matched⟩
    have member := mem_of_getElem? found
    obtain ⟨request, inRequests, rfl⟩ := mem_map.mp member
    exact none request ⟨inRequests, (matchesLabels_iff request labels).mp matched⟩

/-- The rewrite keeps a sample when no request erases it. -/
theorem firstDroppingRequest_isNone_iff (requests : List ErasureRequest) (labels : LabelSet) (tsNs : Int) :
    (firstDroppingRequest (applicableRequests (requests.map ApplicableRequest.ofRequest) labels)
        (requests.map ApplicableRequest.ofRequest) labels tsNs).isNone = true ↔ ¬Erased requests labels tsNs := by
  rw [Option.isNone_iff_eq_none, firstDroppingRequest, find?_eq_none, Erased, not_exists]
  simp only [mem_applicableRequests_iff]
  constructor
  · intro none request ⟨member, covers, resolved⟩
    obtain ⟨index, found⟩ := mem_iff_getElem?.mp member
    have matched := (matchesLabels_iff request labels).mpr resolved
    have located : (requests.map ApplicableRequest.ofRequest)[index]? = some (.ofRequest request) := by
      simp [found]
    refine none index ⟨_, located, matched⟩ ?_
    rw [located]
    exact Bool.and_eq_true_iff.mpr ⟨matched, covers⟩
  · intro none index ⟨applicable, found, matched⟩ dropped
    obtain ⟨request, inRequests, rfl⟩ := mem_map.mp (mem_of_getElem? found)
    rw [found] at dropped
    exact none request ⟨inRequests, (Bool.and_eq_true_iff.mp dropped).2, (matchesLabels_iff request labels).mp matched⟩

variable {index : Nat} {Item : Type} {samples : List (Sample Value)} {dropping : Int → Option Nat}
  {column : List SamplePriority} {matching : List ErasurePredicate} {run : RunOutput Value}
  {requests : List ErasureRequest} {counts : List Nat} {tally : RewriteTally} {inputCount : Nat}
  {rewritten : Option (RunOutput Value)}

theorem firstDroppingRequest_lt {applicable : List Nat} {requests : List ApplicableRequest} {labels : LabelSet}
    {tsNs : Int} (found : firstDroppingRequest applicable requests labels tsNs = some index) :
    index < requests.length := by
  have dropped := find?_some found
  by_contra outside
  rw [getElem?_eq_none (not_lt.mp outside)] at dropped
  cases dropped

/-- Survivors' entries at their original positions are the entries beside them. -/
theorem keptIndexes_column (dropping : Int → Option Nat) (earlier : List Item) {column : List Item}
    (parallel : column.length = samples.length) :
    (keptIndexes dropping earlier.length samples).filterMap (fun index => (earlier ++ column)[index]?) =
      keptBeside (fun sample => (dropping sample.tsNs).isNone) samples column := by
  induction samples generalizing earlier column with
  | nil => rfl
  | cons sample rest ih =>
    cases column with
    | nil => cases parallel
    | cons item others =>
      have next := ih (earlier ++ [item]) (Nat.succ.inj parallel)
      rw [length_append, length_singleton, append_assoc, singleton_append] at next
      rw [keptIndexes]
      cases dropped : dropping sample.tsNs with
      | some index =>
        simp only [keptBeside, zip_cons_cons, filter_cons, dropped]
        exact next
      | none =>
        simp only [keptBeside, zip_cons_cons, filter_cons, dropped]
        rw [filterMap_cons, getElem?_append_right (le_refl _), Nat.sub_self]
        simp only [getElem?_cons_zero, Option.isNone_none, if_true, map_cons]
        rw [next]
        rfl

/-- There is one kept index for each survivor. -/
theorem length_keptIndexes (dropping : Int → Option Nat) (pos : Nat) (samples : List (Sample Value)) :
    (keptIndexes dropping pos samples).length = (survivingSamples dropping samples).length := by
  induction samples generalizing pos with
  | nil => rfl
  | cons sample rest ih =>
    rw [keptIndexes, survivingSamples, filter_cons]
    cases dropped : dropping sample.tsNs with
    | some index => exact ih (pos + 1)
    | none => exact congrArg Nat.succ (ih (pos + 1))

/-- Kept indexes are positions of the run. -/
theorem keptIndexes_lt {pos : Nat} (member : index ∈ keptIndexes dropping pos samples) :
    index < pos + samples.length := by
  induction samples generalizing pos with
  | nil => cases member
  | cons sample rest ih =>
    have inRest : index ∈ keptIndexes dropping (pos + 1) rest → index < pos + (sample :: rest).length := by
      intro later
      have bound := ih later
      rw [length_cons]
      omega
    rw [keptIndexes] at member
    cases dropped : dropping sample.tsNs with
    | some charged =>
      rw [dropped] at member
      exact inRest member
    | none =>
      rw [dropped] at member
      rcases mem_cons.mp member with rfl | later
      · rw [length_cons]
        omega
      · exact inRest later

/-- Pinned survivors have the keys that their original positions imply. -/
theorem pinnedSurvivors_eq {triple : RunTriple} {count : Nat} {indexes : List Nat}
    (accepted : pinnedSurvivors triple indexes = .ok column) (inside : ∀ index ∈ indexes, index < count) :
    column = indexes.filterMap fun index => (pinnedColumn triple count)[index]? := by
  induction indexes generalizing column with
  | nil =>
    cases accepted
    rfl
  | cons index rest ih =>
    rw [forall_mem_cons] at inside
    rw [pinnedSurvivors] at accepted
    by_cases beyond : u32Max < index
    · rw [if_pos beyond] at accepted
      cases accepted
    · rw [if_neg beyond] at accepted
      obtain ⟨others, inner, accepted⟩ := ok_of_bind accepted
      cases accepted
      have here : (pinnedColumn triple count)[index]? =
          some ⟨triple.createdUnixNs, triple.writerEpoch, triple.writerSeq, index⟩ := by
        rw [pinnedColumn, getElem?_map, getElem?_range inside.1, Option.map_some,
          Nat.min_eq_left (not_lt.mp beyond)]
      rw [filterMap_cons, here, ← ih inner inside.2]

/-- A run that loses nothing keeps every entry beside it. -/
theorem keptBeside_of_all {keep : Sample Value → Bool} {items : List Item} (all : samples.all keep = true)
    (parallel : items.length = samples.length) : keptBeside keep samples items = items := by
  have kept : (samples.zip items).filter (fun pair => keep pair.1) = samples.zip items := by
    refine filter_eq_self.mpr fun pair member => ?_
    exact all_eq_true.mp all pair.1 (of_mem_zip member).1
  rw [keptBeside, kept, map_snd_zip (le_of_eq parallel)]

/-- A run that loses nothing is served as fetched. -/
theorem compactParallel_of_all (run : RunOutput Value)
    (all : (run.samples.all fun sample => sampleSurvives sample.tsNs matching) = true) :
    compactParallel run matching = run := by
  rw [compactParallel, if_pos all]

/-- A run that loses a sample is served with the entries of its column that stand beside survivors. -/
theorem compactParallel_served (run : RunOutput Value)
    (lost : ¬(run.samples.all fun sample => sampleSurvives sample.tsNs matching) = true)
    (source : pinRunWidePositions run.provenance run.triple run.samples.length = column)
    (parallel : column.length = run.samples.length) : (compactParallel run matching).served =
      ⟨run.samples.filter fun sample => sampleSurvives sample.tsNs matching,
        .perSample (keptBeside (fun sample => sampleSurvives sample.tsNs matching) run.samples column)⟩ := by
  subst source
  rw [compactParallel, if_neg lost]
  dsimp only
  rw [if_pos parallel]
  rfl

/-- The rewrite serves the survivors of a run as the query-time compaction does. -/
theorem survivors_served (agree : ∀ tsNs, (dropping tsNs).isNone = sampleSurvives tsNs matching)
    {provenance : Option (List SamplePriority)}
    (accepted : survivorProvenance run.triple run.provenance (keptIndexes dropping 0 run.samples) run.samples.length = .ok provenance) :
    RunOutput.served ⟨survivorRunPrefix run.triple provenance, survivingSamples dropping run.samples, provenance⟩ =
      (compactParallel run matching).served := by
  obtain ⟨triple, samples, column⟩ := run
  have keepEq : (fun sample : Sample Value => (dropping sample.tsNs).isNone) =
      fun sample => sampleSurvives sample.tsNs matching := funext fun sample => agree sample.tsNs
  rw [survivingSamples, keepEq]
  cases column with
  | some column =>
    rw [survivorProvenance] at accepted
    by_cases parallel : column.length = samples.length
    · have aligned := keptIndexes_column dropping [] parallel
      rw [length_nil, keepEq] at aligned
      rw [if_neg (not_not.mpr parallel)] at accepted
      cases accepted
      simp only [nil_append] at aligned
      rw [aligned]
      by_cases all : (samples.all fun sample => sampleSurvives sample.tsNs matching) = true
      · rw [compactParallel_of_all _ all, keptBeside_of_all all parallel,
          filter_eq_self.mpr (all_eq_true.mp all)]
        rfl
      · rw [compactParallel_served ⟨triple, samples, some column⟩ all rfl parallel]
        rfl
    · rw [if_pos parallel] at accepted
      cases accepted
  | none =>
    rw [survivorProvenance] at accepted
    have counted := length_keptIndexes dropping 0 samples
    rw [survivingSamples, keepEq] at counted
    by_cases all : (samples.all fun sample => sampleSurvives sample.tsNs matching) = true
    · have whole := filter_eq_self.mpr (all_eq_true.mp all)
      rw [whole] at counted
      rw [if_pos counted] at accepted
      cases accepted
      rw [compactParallel_of_all _ all, whole]
      rfl
    · have fewer : (keptIndexes dropping 0 samples).length ≠ samples.length := by
        rw [counted]
        intro same
        exact all (all_eq_true.mpr (length_filter_eq_length_iff.mp same))
      rw [if_neg fewer] at accepted
      obtain ⟨keys, pinned, accepted⟩ := ok_of_bind accepted
      cases accepted
      have length : (pinnedColumn triple samples.length).length = samples.length := by
        simp [pinnedColumn]
      have aligned := keptIndexes_column dropping [] length
      rw [length_nil, keepEq] at aligned
      simp only [nil_append] at aligned
      have equal := pinnedSurvivors_eq pinned fun index member => by
        simpa using keptIndexes_lt member
      rw [compactParallel_served ⟨triple, samples, none⟩ all rfl length, equal, aligned]
      rfl

/-- The compaction keeps the surviving samples. -/
theorem compactParallel_samples (run : RunOutput Value) (matching : List ErasurePredicate) :
    (compactParallel run matching).samples =
      run.samples.filter fun sample => sampleSurvives sample.tsNs matching := by
  by_cases all : (run.samples.all fun sample => sampleSurvives sample.tsNs matching) = true
  · rw [compactParallel_of_all run all, filter_eq_self.mpr (all_eq_true.mp all)]
  · rw [compactParallel, if_neg all]

theorem retainOne_of_not_targeted {series : FetchedSeries Value} (untargeted : ¬Targeted requests series.labels) :
    retainOne (snapshotPendingErasurePredicates requests) series = some series := by
  rw [retainOne, if_pos ((matchingPredicates_isEmpty_iff requests series.labels).mpr untargeted)]

theorem not_sampleSurvives_of_windowless (windowless : (matching.any fun predicate => !predicate.hasWindow) = true)
    (tsNs : Int) : sampleSurvives tsNs matching = false := by
  obtain ⟨predicate, member, unbounded⟩ := any_eq_true.mp windowless
  rw [sampleSurvives, Bool.not_eq_false', any_eq_true]
  refine ⟨predicate, member, ?_⟩
  have covered := predicate.coversTime_eq tsNs
  rw [ErasurePredicate.coversTime, unbounded, Bool.true_or] at covered
  exact covered.symm

/-- A targeted series keeps its surviving samples and is dropped without any. -/
theorem retainOne_of_targeted (series : FetchedSeries Value)
    (selected : matchingPredicates series.labels (snapshotPendingErasurePredicates requests) = matching)
    (targeted : Targeted requests series.labels) : retainOne (snapshotPendingErasurePredicates requests) series =
      if (series.run.samples.filter fun sample => sampleSurvives sample.tsNs matching).isEmpty then none
      else some { series with run := compactParallel series.run matching } := by
  have matched : ¬matching.isEmpty = true := by
    rw [← selected, matchingPredicates_isEmpty_iff]
    exact not_not.mpr targeted
  rw [retainOne, selected, if_neg matched]
  by_cases windowless : (matching.any fun predicate => !predicate.hasWindow) = true
  · have none : (series.run.samples.filter fun sample => sampleSurvives sample.tsNs matching) = [] := by
      refine filter_eq_nil_iff.mpr fun sample _ => ?_
      rw [not_sampleSurvives_of_windowless windowless]
      exact Bool.false_ne_true
    rw [if_pos windowless, none]
    rfl
  · rw [if_neg windowless]
    dsimp only
    rw [compactParallel_samples]

/-- One charge adds one to the sum of the counts. -/
theorem sum_modify_succ (inside : index < counts.length) : (counts.modify index (· + 1)).sum = counts.sum + 1 := by
  induction counts generalizing index with
  | nil => cases inside
  | cons count rest ih =>
    cases index with
    | zero =>
      rw [modify_zero_cons, sum_cons, sum_cons]
      omega
    | succ index =>
      rw [modify_succ_cons, sum_cons, ih (Nat.lt_of_succ_lt_succ inside), sum_cons]
      omega

/-- Every sample either survives or is charged to one request. -/
theorem chargeDrops_spec (inside : ∀ tsNs index, dropping tsNs = some index → index < counts.length)
    (samples : List (Sample Value)) : (chargeDrops dropping counts samples).length = counts.length ∧
      (chargeDrops dropping counts samples).sum + (survivingSamples dropping samples).length =
        counts.sum + samples.length := by
  induction samples generalizing counts with
  | nil => exact ⟨rfl, rfl⟩
  | cons sample rest ih =>
    rw [chargeDrops, foldl_cons, ← chargeDrops, survivingSamples, filter_cons, ← survivingSamples]
    cases dropped : dropping sample.tsNs with
    | none =>
      obtain ⟨length, total⟩ := ih inside
      refine ⟨length, ?_⟩
      simp only [Option.isNone_none, if_true, length_cons]
      omega
    | some index =>
      have modified : (counts.modify index (· + 1)).length = counts.length := length_modify _ _ _
      have still : ∀ tsNs other, dropping tsNs = some other →
          other < (counts.modify index (· + 1)).length := by
        rw [modified]
        exact inside
      obtain ⟨length, total⟩ := ih still
      rw [sum_modify_succ (inside _ _ dropped)] at total
      refine ⟨length.trans modified, ?_⟩
      simp only [Option.isNone_some, Bool.false_eq_true, if_false, length_cons]
      omega

/-- The query reads a fetched series through its run. -/
def FetchedSeries.served (series : FetchedSeries Value) : SeriesRun Value :=
  series.run.served

/-- The counts of a rewrite so far: every input sample is in the output or charged to a request. -/
structure Balanced (requests : List ErasureRequest) (tally : RewriteTally) : Prop where
  charged : tally.droppedCounts.length = requests.length
  conserved : tally.inputSampleCount = tally.outputSampleCount + tally.droppedCounts.sum

/-- What the rewrite of one run does. -/
structure RunRewritten (requests : List ErasureRequest) (labels : LabelSet) (run : RunOutput Value)
    (tally next : RewriteTally) (rewritten : Option (RunOutput Value)) : Prop where
  balanced : Balanced requests tally → Balanced requests next
  served : rewritten.map RunOutput.served =
    (retainOne (snapshotPendingErasurePredicates requests) ⟨labels, run⟩).map FetchedSeries.served
  settled : ∀ result ∈ rewritten,
    retainOne (snapshotPendingErasurePredicates requests) ⟨labels, result⟩ = some ⟨labels, result⟩

/-- A checked sum that is accepted is the sum. -/
theorem checkedAdd_ok {failure : MetricRewriteError} {left right total : Nat}
    (accepted : checkedAdd failure left right = .ok total) : total = left + right := by
  rw [checkedAdd] at accepted
  split at accepted <;> cases accepted
  rfl

/-- A series whose samples all survive is settled. -/
theorem retainOne_of_all {labels : LabelSet} (nonempty : run.samples ≠ [])
    (all : (run.samples.all fun sample => sampleSurvives sample.tsNs (matchingPredicates labels (snapshotPendingErasurePredicates requests))) = true) :
    retainOne (snapshotPendingErasurePredicates requests) ⟨labels, run⟩ = some ⟨labels, run⟩ := by
  by_cases targeted : Targeted requests labels
  · have kept := filter_eq_self.mpr (all_eq_true.mp all)
    rw [retainOne_of_targeted _ rfl targeted, kept, if_neg (by rwa [List.isEmpty_iff]), compactParallel_of_all run all]
  · exact retainOne_of_not_targeted targeted

theorem Balanced.charge {outputCount : Nat} (balanced : Balanced requests tally)
    (inside : ∀ tsNs index, dropping tsNs = some index → index < requests.length)
    (inputTotal : inputCount = tally.inputSampleCount + run.samples.length)
    (outputTotal : outputCount = tally.outputSampleCount + (survivingSamples dropping run.samples).length) :
    Balanced requests ⟨inputCount, outputCount, chargeDrops dropping tally.droppedCounts run.samples⟩ := by
  have bounded : ∀ tsNs index, dropping tsNs = some index → index < tally.droppedCounts.length := by
    rw [balanced.charged]
    exact inside
  obtain ⟨length, total⟩ := chargeDrops_spec bounded run.samples
  refine ⟨length.trans balanced.charged, ?_⟩
  have conserved := balanced.conserved
  simp only [inputTotal, outputTotal]
  omega

/-- The filter of a targeted run leaves what the query-time exclusion leaves of it. -/
theorem filterRun_rewritten {labels : LabelSet} {next : RewriteTally} (targeted : Targeted requests labels)
    (agree : ∀ tsNs, (dropping tsNs).isNone = sampleSurvives tsNs (matchingPredicates labels (snapshotPendingErasurePredicates requests)))
    (inside : ∀ tsNs index, dropping tsNs = some index → index < requests.length)
    (inputTotal : inputCount = tally.inputSampleCount + run.samples.length)
    (accepted : filterRun dropping inputCount tally run = .ok (next, rewritten)) :
    RunRewritten requests labels run tally next rewritten := by
  have retained := retainOne_of_targeted ⟨labels, run⟩ rfl targeted
  have same : survivingSamples dropping run.samples = run.samples.filter fun sample =>
      sampleSurvives sample.tsNs (matchingPredicates labels (snapshotPendingErasurePredicates requests)) := by
    simp only [survivingSamples, agree]
  rw [← same] at retained
  rw [filterRun] at accepted
  by_cases empty : (survivingSamples dropping run.samples).isEmpty = true
  · rw [if_pos empty] at accepted retained
    cases accepted
    refine ⟨fun balanced => balanced.charge inside inputTotal ?_, ?_, ?_⟩
    · rw [List.isEmpty_iff.mp empty]
      rfl
    · rw [retained]
      rfl
    · intro result member
      cases member
  · rw [if_neg empty] at accepted retained
    obtain ⟨outputCount, summed, accepted⟩ := ok_of_bind accepted
    obtain ⟨provenance, column, accepted⟩ := ok_of_bind accepted
    cases accepted
    refine ⟨fun balanced => balanced.charge inside inputTotal (checkedAdd_ok summed), ?_, ?_⟩
    · rw [retained, Option.map_some, survivors_served agree column]
      rfl
    · intro result member
      cases member
      refine retainOne_of_all ?_ ?_
      · simpa using empty
      · rw [same]
        simp

/-- The rewrite of one run leaves what the query-time exclusion leaves of it. -/
theorem rewriteRun_rewritten {labels : LabelSet} {next : RewriteTally}
    (accepted : rewriteRun (applicableRequests (requests.map ApplicableRequest.ofRequest) labels) (requests.map ApplicableRequest.ofRequest) labels tally run = .ok (next, rewritten)) :
    RunRewritten requests labels run tally next rewritten := by
  rw [rewriteRun] at accepted
  obtain ⟨inputCount, counted, accepted⟩ := ok_of_bind accepted
  have inputTotal := checkedAdd_ok counted
  change (if _ then _ else _) = _ at accepted
  by_cases targeted : Targeted requests labels
  · have applies : ¬(applicableRequests (requests.map ApplicableRequest.ofRequest) labels).isEmpty = true := by
      rw [applicableRequests_isEmpty_iff]
      exact not_not.mpr targeted
    rw [if_neg applies] at accepted
    refine filterRun_rewritten targeted ?_ ?_ inputTotal accepted
    · intro tsNs
      rw [Bool.eq_iff_iff, firstDroppingRequest_isNone_iff, sampleSurvives_iff]
    · intro tsNs index found
      simpa using firstDroppingRequest_lt found
  · have untouched : ∀ result : RunOutput Value,
        retainOne (snapshotPendingErasurePredicates requests) ⟨labels, result⟩ = some ⟨labels, result⟩ :=
      fun result => retainOne_of_not_targeted targeted
    rw [if_pos ((applicableRequests_isEmpty_iff requests labels).mpr targeted)] at accepted
    obtain ⟨outputCount, summed, accepted⟩ := ok_of_bind accepted
    cases accepted
    refine ⟨?_, ?_, fun result _ => untouched result⟩
    · intro balanced
      refine ⟨balanced.charged, ?_⟩
      have conserved := balanced.conserved
      simp only [inputTotal, checkedAdd_ok summed]
      omega
    · rw [untouched]
      rfl

end Ravel.Erasure
