import Ravel.Proof.Logs.BlockPruning

namespace Ravel.Logs

open List Library RlogWriter

/-- The posting lists of the arms keep the block. -/
def postingsKeep (object : RlogObject) (arms : List (Nat × List UInt8)) (block : Nat) : Bool :=
  arms.all fun arm =>
    match probePostings object.postings arm.1 arm.2 with
    | some blocks => blocks.contains block
    | none => true

theorem retainPosted_eq (object : RlogObject) (arms : List (Nat × List UInt8)) : ∀ candidates : List Nat,
    object.retainPosted candidates arms = candidates.filter (postingsKeep object arms) := by
  induction arms with
  | nil =>
    intro candidates
    exact (filter_eq_self.mpr fun _ _ => rfl).symm
  | cons arm arms ih =>
    intro candidates
    have stepped : object.retainPosted candidates (arm :: arms) = object.retainPosted
        (match probePostings object.postings arm.1 arm.2 with
          | some blocks => candidates.filter blocks.contains
          | none => candidates) arms := rfl
    rw [stepped, ih]
    cases probed : probePostings object.postings arm.1 arm.2 with
    | none =>
      apply filter_congr
      intro block _
      simp [postingsKeep, probed]
    | some blocks =>
      simp only [filter_filter]
      apply filter_congr
      intro block _
      simp [postingsKeep, probed, Bool.and_comm]

theorem keptPositions_eq_filter {Entry : Type} (test : Entry → Bool) (entries : List Entry) : ∀ start : Nat,
    keptPositions test start entries =
      (List.range' start entries.length).filter fun position => (entries[position - start]?).any test := by
  induction entries with
  | nil =>
    intro start
    rfl
  | cons entry rest ih =>
    intro start
    have later : (List.range' (start + 1) rest.length).filter (fun position => (rest[position - (start + 1)]?).any test) =
        (List.range' (start + 1) rest.length).filter
          fun position => ((entry :: rest)[position - start]?).any test := by
      apply filter_congr
      intro position member
      obtain ⟨low, _⟩ := mem_range'_1.mp member
      have shifted : position - start = position - (start + 1) + 1 := by omega
      rw [shifted, getElem?_cons_succ]
    have first : keptPositions test start (entry :: rest) =
        (if test entry then [start] else []) ++ keptPositions test (start + 1) rest := by
      cases passes : test entry <;> simp [keptPositions, passes]
    rw [first, ih, later, length_cons, range'_succ, filter_cons]
    cases passes : test entry <;> simp [passes]

/-- The scan keeps the block for a content predicate and a prune channel. -/
def survives (platform : Platform) (object : RlogObject) (content : Predicate) (prune : List Predicate) (block : Nat) :
    Bool :=
  let window := tsWindow content.flatten
  let refs := object.streamFilter content.flatten
  !(window.isEmpty || refs.any List.isEmpty) &&
    ((object.skip.l0[block]?).any fun entry => !ruledOut window refs entry.bounds) &&
    postingsKeep object (object.postingsArms content.flatten ++ object.prunePostingsArms (flattenAll prune)) block &&
    !object.blockPrunedByBloom platform block (object.bloomArms platform content.flatten)

section Scans

variable {platform : Platform} {writer : RlogWriter} {plan : Layout} {rows : List (RlogRecord × ResolvedRow)}
  {object : RlogObject}

theorem objectSkip (finished : Finished platform writer plan rows object) :
    object.skip = buildSkipIndex object.skip.l0 ∧ object.skip.l0.length = object.blocks.length := by
  rw [finished.assembled]
  exact ⟨rfl, by simp [assemble, buildSkipIndex]⟩

/-- The surviving blocks are those that every index keeps, in order. -/
theorem scanBlocks_eq (finished : Finished platform writer plan rows object) (content : Predicate)
    (prune : List Predicate) :
    object.scanBlocks platform content prune =
      (List.range object.blocks.length).filter (survives platform object content prune) := by
  obtain ⟨built, count⟩ := objectSkip finished
  rw [RlogObject.scanBlocks]
  dsimp only
  split
  · rename_i empty
    symm
    rw [filter_eq_nil_iff]
    intro block _
    simp [survives, empty]
  · rename_i open_
    rw [retainPosted_eq, built, candidateBlocks_eq, keptPositions_eq_filter, filter_filter, filter_filter,
      count, ← range_eq_range']
    apply filter_congr
    intro block _
    simp only [survives, Bool.not_eq_true] at open_ ⊢
    rw [open_, Nat.sub_zero]
    simp only [Bool.not_false, Bool.true_and]
    ac_rfl

/-- The rows of a block that pass a predicate. -/
def passing (platform : Platform) (object : RlogObject) (content : Predicate) (block : Nat) : List ResolvedRow :=
  ((object.blocks[block]?).getD []).filter fun row => passes platform object row content

theorem scans_eq (finished : Finished platform writer plan rows object) : ∃ rebuilt : ResolvedRow → RlogRecord,
    ∀ content,
      object.scan platform content = .ok ((((List.range object.blocks.length).filter
        (survives platform object content [])).flatMap (passing platform object content)).map rebuilt) ∧
      object.scanExact platform content =
        .ok (((List.range object.blocks.length).flatMap (passing platform object content)).map rebuilt) := by
  obtain ⟨first, firstIn⟩ := exists_mem_of_ne_nil _ finished.planned.nonempty
  have : Nonempty RlogRecord := ⟨first⟩
  have readable : ∀ row, ∃ record, row ∈ object.rows → object.rebuildRecord row = .ok record := by
    intro row
    by_cases member : row ∈ object.rows
    · obtain ⟨record, pair⟩ := finished.record_of_row member
      exact ⟨_, fun _ => finished.rebuildRecord_row pair⟩
    · exact ⟨first, fun inRows => absurd inRows member⟩
  choose rebuilt rebuilds using readable
  refine ⟨rebuilt, fun content => ⟨?_, ?_⟩⟩
  · have blockScan : ∀ block ∈ (List.range object.blocks.length).filter (survives platform object content []),
        object.scanBlock platform content block = .ok ((passing platform object content block).map rebuilt) := by
      intro block member
      have within := mem_range.mp (mem_filter.mp member).1
      have located : object.blocks[block]? = some object.blocks[block] := getElem?_eq_getElem within
      have inObject : ∀ row ∈ object.blocks[block], row ∈ object.rows := fun row rowIn =>
        Finished.mem_rows_of_block located rowIn
      have survivors := blockSurvivors_eq finished inObject (fun row rowIn => boundsOf_covers rowIn) content
      rw [RlogObject.scanBlock, finished.skipEntry located, located]
      simp only [survivors]
      rw [passing, located]
      exact mapM_eq_map fun row rowIn => rebuilds row (inObject row (mem_filter.mp rowIn).1)
    rw [RlogObject.scan, RlogObject.scanPruned, scanBlocks_eq finished, mapM_eq_map blockScan]
    simp only [bind, Except.bind, pure, Except.pure]
    rw [map_flatMap, List.flatMap]
  · have blockwise : object.rows.filter (fun row => passes platform object row content) =
        (List.range object.blocks.length).flatMap (passing platform object content) := by
      have positions : (List.range object.blocks.length).map (fun block => (object.blocks[block]?).getD []) =
          object.blocks := by
        apply ext_getElem
        · simp
        · intro block _ within
          simp [getElem?_eq_getElem within]
      have whole : object.rows = ((List.range object.blocks.length).map
          fun block => (object.blocks[block]?).getD []).flatten := by
        rw [positions]
        rfl
      rw [whole, filter_flatten, map_map]
      rfl
    have total : ∀ row ∈ object.rows, object.eval platform row content = .ok (passes platform object row content) :=
      fun row member => (readable_row finished member).eval_eq platform content
    rw [RlogObject.scanExact, retainRows_eq total, blockwise]
    apply mapM_eq_map
    intro row member
    apply rebuilds
    rw [← blockwise] at member
    exact (mem_filter.mp member).1

theorem sum_filter_add {weight : Nat → Nat} (test : Nat → Bool) (blocks : List Nat) :
    (blocks.map weight).sum =
      ((blocks.filter test).map weight).sum + ((blocks.filter fun block => !test block).map weight).sum := by
  induction blocks with
  | nil => rfl
  | cons block rest ih =>
    cases passes : test block <;> simp [passes, ih] <;> omega

theorem scan_exact_iff (finished : Finished platform writer plan rows object) (content : Predicate) :
    object.scan platform content = object.scanExact platform content ↔
      ∀ block ∈ List.range object.blocks.length, survives platform object content [] block = false →
        passing platform object content block = [] := by
  obtain ⟨rebuilt, scans⟩ := scans_eq finished
  obtain ⟨scanned, exact⟩ := scans content
  rw [scanned, exact]
  constructor
  · intro same block inRange dropped
    have lengths := congrArg List.length (Except.ok.inj same)
    rw [length_map, length_map, length_flatMap, length_flatMap,
      sum_filter_add (survives platform object content []) (List.range object.blocks.length)] at lengths
    have none : (((List.range object.blocks.length).filter fun block => !survives platform object content [] block).map
        fun block => (passing platform object content block).length).sum = 0 := by omega
    have own := sum_eq_zero_iff.mp none _ (mem_map.mpr
      ⟨block, mem_filter.mpr ⟨inRange, by rw [dropped]; rfl⟩, rfl⟩)
    exact length_eq_zero_iff.mp own
  · intro empty
    congr 2
    rw [List.flatMap, List.flatMap]
    generalize List.range object.blocks.length = blocks at empty
    induction blocks with
    | nil => rfl
    | cons block rest ih =>
      have later := ih fun other member => empty other (mem_cons_of_mem block member)
      cases kept : survives platform object content [] block with
      | true =>
        rw [filter_cons_of_pos kept, map_cons, map_cons, flatten_cons, flatten_cons, later]
      | false =>
        rw [filter_cons_of_neg (by rw [kept]; simp), later, map_cons, flatten_cons,
          empty block mem_cons_self kept, nil_append]

/-- In every block, some row stamps the POSTINGS term of each value that the block stores in an uncapped column. -/
def CellsPosted (object : RlogObject) : Prop :=
  ∀ (block : Nat) (blockRows : List ResolvedRow), object.blocks[block]? = some blockRows → ∀ row ∈ blockRows,
    ∀ column ∈ object.fieldDir, (probePostings object.postings column.columnId []).isSome →
      ∀ cell : ColumnValue, cellOf row.columns column.columnId = some cell →
        ∃ other ∈ blockRows, ∃ value, (column.columnId, value) ∈ other.indexedTerms ∧ termKey value = termKey cell

variable {block : Nat} {blockRows : List ResolvedRow} {row : ResolvedRow}

/-- Only the posting lists can drop a block with a passing row. -/
theorem survives_of_passing (finished : Finished platform writer plan rows object)
    (located : object.blocks[block]? = some blockRows) (member : row ∈ blockRows) {content : Predicate}
    (passed : passes platform object row content) (prune : List Predicate) :
    survives platform object content prune block =
      postingsKeep object (object.postingsArms content.flatten ++ object.prunePostingsArms (flattenAll prune)) block := by
  have inRows := Finished.mem_rows_of_block located member
  have armsPassed : ∀ arm ∈ content.flatten, passes platform object row arm := by
    rw [(readable_row finished inRows).passes_flatten content, all_eq_true] at passed
    exact passed
  have timely := tsWindow_holds armsPassed
  have streamed := streamFilter_holds finished inRows armsPassed
  have refsOpen : (object.streamFilter content.flatten).any List.isEmpty = false := by
    cases filtered : object.streamFilter content.flatten with
    | none => rfl
    | some refs =>
      have listed := streamed refs filtered
      cases refs with
      | nil => cases listed
      | cons first rest => rfl
  have skipped := not_ruledOut (boundsOf_covers member) timely streamed
  have bloom := not_blockPrunedByBloom finished located member armsPassed
  simp only [survives, finished.skipEntry located, Option.any_some, skipped, bloom, timely.not_isEmpty, refsOpen,
    Bool.or_false, Bool.not_false, Bool.true_and, Bool.and_true]

theorem postingsKeep_of_passing (finished : Finished platform writer plan rows object) (posted : CellsPosted object)
    (located : object.blocks[block]? = some blockRows) (member : row ∈ blockRows) {arms : List Predicate}
    (armsPassed : ∀ arm ∈ arms, passes platform object row arm) :
    postingsKeep object (object.postingsArms arms) block := by
  have inRows := Finished.mem_rows_of_block located member
  rw [postingsKeep, all_eq_true]
  intro arm armIn
  split
  · rename_i found probed
    obtain ⟨source, sourceIn, compiled⟩ := mem_filterMap.mp armIn
    split at compiled
    · rename_i name value
      obtain ⟨column, columnFound, rfl⟩ := Option.map_eq_some_iff.mp compiled
      have cell := (passes_columnEq finished inRows columnFound).mp (armsPassed _ sourceIn)
      have columnIn := (fieldDir_mem finished).mpr ((objectColumn_eq finished).mp columnFound).1
      have answered : (probePostings object.postings column.columnId []).isSome := by
        rw [Finished.probePostings_isSome object column.columnId [] (termKey (resolveValue value).2), probed]
        rfl
      rw [contains_iff_mem, finished.mem_probePostings probed]
      obtain ⟨other, otherIn, stamped, termIn, sameTerm⟩ := posted block blockRows located row member column columnIn
        answered _ cell
      exact ⟨blockRows, located, other, otherIn, stamped, termIn, sameTerm⟩
    · cases compiled
  · rfl

/-- The content scan of an object is exact on every predicate exactly when every stored value of an uncapped column is
posted in its block. -/
theorem scan_exact_iff_cellsPosted (finished : Finished platform writer plan rows object) :
    (∀ content, object.scan platform content = object.scanExact platform content) ↔ CellsPosted object := by
  constructor
  · intro exactScan block blockRows located row member column columnIn answered cell stored
    have inRows := Finished.mem_rows_of_block located member
    have inPlan := (fieldDir_mem finished).mp columnIn
    obtain ⟨value, resolvedAs, _⟩ := cell_typed finished inRows inPlan stored
    have columnFound : object.column column.name (resolveValue value).1 = some column := by
      rw [objectColumn_eq finished, resolvedAs]
      exact ⟨inPlan, rfl⟩
    -- The query for the stored value itself finds the row.
    have passed : passes platform object row (.equals (.attr column.name) value) := by
      rw [passes_columnEq finished inRows columnFound, stored, resolvedAs]
    have kept : survives platform object (.equals (.attr column.name) value) [] block := by
      by_contra dropped
      have empty := (scan_exact_iff finished _).mp (exactScan (.equals (.attr column.name) value)) block
        (mem_range.mpr (List.getElem?_eq_some_iff.mp located).1) (by simpa using dropped)
      rw [passing, located, filter_eq_nil_iff] at empty
      exact empty row member passed
    simp only [survives, Bool.and_eq_true] at kept
    have posting := all_eq_true.mp kept.1.2 (column.columnId, termKey (resolveValue value).2) (by
      apply mem_append_left
      refine mem_filterMap.mpr ⟨.equals (.attr column.name) value, mem_cons_self, ?_⟩
      simp [columnFound])
    rw [Finished.probePostings_isSome object column.columnId [] (termKey (resolveValue value).2)] at answered
    obtain ⟨found, probed⟩ := Option.isSome_iff_exists.mp answered
    simp only [probed] at posting
    rw [contains_iff_mem, finished.mem_probePostings probed] at posting
    obtain ⟨postedRows, postedAt, other, otherIn, stamped, termIn, sameTerm⟩ := posting
    rw [located] at postedAt
    cases postedAt
    rw [resolvedAs] at sameTerm
    exact ⟨other, otherIn, stamped, termIn, sameTerm⟩
  · intro posted content
    rw [scan_exact_iff finished]
    intro block inRange dropped
    have within := mem_range.mp inRange
    have located : object.blocks[block]? = some object.blocks[block] := getElem?_eq_getElem within
    rw [passing, located, filter_eq_nil_iff]
    intro row member passed
    have armsPassed : ∀ arm ∈ content.flatten, passes platform object row arm := by
      rw [(readable_row finished (Finished.mem_rows_of_block located member)).passes_flatten content,
        all_eq_true] at passed
      exact passed
    have noPrune : object.prunePostingsArms (flattenAll []) = [] := rfl
    rw [survives_of_passing finished located member passed, noPrune, append_nil,
      postingsKeep_of_passing finished posted located member armsPassed] at dropped
    cases dropped

end Scans

end Ravel.Logs
