import Ravel.Proof.Logs.StampedWinners

namespace Ravel.Logs

open List Library RlogWriter

/-- The arms of a conjunction come before the conjunction. -/
theorem Predicate.induction {motive : Predicate → Prop}
    (leaf : ∀ arm, (∀ arms, arm ≠ .and arms) → motive arm)
    (and : ∀ arms, (∀ arm ∈ arms, motive arm) → motive (.and arms)) : ∀ predicate, motive predicate
  | .and arms => and arms fun arm member =>
    have : sizeOf arm < sizeOf arms := sizeOf_lt_of_mem member
    Predicate.induction leaf and arm
  | .tsRange minNs maxNs => leaf _ fun _ same => nomatch same
  | .streamIn ids => leaf _ fun _ same => nomatch same
  | .hasWord field word => leaf _ fun _ same => nomatch same
  | .equals field value => leaf _ fun _ same => nomatch same
  | .contains key needle negated => leaf _ fun _ same => nomatch same
termination_by predicate => sizeOf predicate
decreasing_by all_goals (simp only [Predicate.and.sizeOf_spec]; omega)

theorem flattenAll_eq (arms : List Predicate) : flattenAll arms = arms.flatMap Predicate.flatten := by
  induction arms with
  | nil => rfl
  | cons arm arms ih => rw [flattenAll, ih, flatMap_cons]

/-- A stored row of a finished object: its stream is listed and its blobs decode. -/
structure Readable (object : RlogObject) (row : ResolvedRow) : Prop where
  stream : ∃ stream, object.streamDir[row.streamRef]? = some stream ∧ ∃ pairs, streamAttrPairs stream.2 = .ok pairs
  overflow : ∃ attrs, overflowAttrs row = .ok attrs

section Readable

variable {platform : Platform} {writer : RlogWriter} {plan : Layout} {rows : List (RlogRecord × ResolvedRow)}
  {object : RlogObject} {row : ResolvedRow}

theorem streamRef_row (finished : Finished platform writer plan rows object) {record : RlogRecord}
    (member : (record, row) ∈ rows) : object.streamDir[row.streamRef]? = some (record.streamId, record.streamAttrs) := by
  obtain ⟨recordIn, resolved⟩ := finished.row_of_record member
  obtain ⟨attrsRaw, _, rfl⟩ := resolveRow_ok resolved
  rw [finished.streamDir]
  exact finished.planned.streams.streamRef recordIn

theorem readable_row (finished : Finished platform writer plan rows object) (member : row ∈ object.rows) :
    Readable object row := by
  obtain ⟨record, pair⟩ := finished.record_of_row member
  have recordIn := (finished.row_of_record pair).1
  exact ⟨⟨_, streamRef_row finished pair, _, finished.planned.pairs record recordIn⟩,
    ⟨_, finished.overflowAttrs_row pair⟩⟩

theorem Readable.overflowAttr (readable : Readable object row) (name : String) :
    ∃ found, overflowAttr row name = .ok found := by
  obtain ⟨attrs, read⟩ := readable.overflow
  exact ⟨_, by rw [Logs.overflowAttr, read]; rfl⟩

theorem Readable.fieldText (readable : Readable object row) (field : FieldSel) :
    ∃ text, object.fieldText field row = .ok text := by
  cases field with
  | body => exact ⟨_, rfl⟩
  | severityText => exact ⟨_, rfl⟩
  | attr name =>
    rw [RlogObject.fieldText]
    cases object.column name .str with
    | some column => exact ⟨_, rfl⟩
    | none =>
      apply exists_bind (readable.overflowAttr name)
      intro found
      split <;> exact ⟨_, rfl⟩

theorem Readable.equals (readable : Readable object row) (field : FieldSel) (value : AttrValue) :
    ∃ verdict, object.equals field value row = .ok verdict := by
  cases field with
  | body => cases value <;> exact ⟨_, rfl⟩
  | severityText => cases value <;> exact ⟨_, rfl⟩
  | attr name =>
    rw [RlogObject.equals]
    cases object.column name (resolveValue value).1 with
    | some column => exact ⟨_, rfl⟩
    | none =>
      apply exists_bind (readable.overflowAttr name)
      intro found
      cases found <;> exact ⟨_, rfl⟩

theorem Readable.evalContains (readable : Readable object row) (key needle : String) (negated : Bool) :
    ∃ verdict, object.evalContains key needle negated row = .ok verdict := by
  obtain ⟨stream, located, pairs, decoded⟩ := readable.stream
  have streamed : ∃ verdict, object.streamContains row.streamRef key negated
      (fun value => containsBytes value (utf8Bytes needle)) = .ok verdict := by
    rw [RlogObject.streamContains, located]
    apply exists_bind ⟨pairs, decoded⟩
    intro others
    split <;> exact ⟨_, rfl⟩
  apply exists_bind streamed
  intro verdict
  have overflowed : ∃ verdict, (do return (← Logs.overflowAttr row key).isSome) = Except.ok verdict :=
    exists_bind (readable.overflowAttr key) fun found => ⟨_, rfl⟩
  dsimp only
  split <;> split <;> first | exact ⟨_, rfl⟩ | exact overflowed

/-- The row filter succeeds on every predicate. -/
theorem Readable.eval (platform : Platform) (readable : Readable object row) (predicate : Predicate) :
    ∃ verdict, object.eval platform row predicate = .ok verdict := by
  induction predicate using Predicate.induction with
  | leaf arm single =>
    cases arm with
    | and arms => exact absurd rfl (single arms)
    | tsRange minNs maxNs => exact ⟨_, rfl⟩
    | streamIn ids =>
      rw [RlogObject.eval]
      split <;> exact ⟨_, rfl⟩
    | hasWord field word =>
      rw [RlogObject.eval]
      apply exists_bind (readable.fieldText field)
      intro text
      cases text <;> exact ⟨_, rfl⟩
    | equals field value =>
      rw [RlogObject.eval]
      exact readable.equals field value
    | contains key needle negated =>
      rw [RlogObject.eval]
      exact readable.evalContains key needle negated
  | and arms ih =>
    rw [RlogObject.eval]
    induction arms with
    | nil => exact ⟨_, rfl⟩
    | cons arm arms later =>
      have rest := later fun other member => ih other (mem_cons_of_mem arm member)
      rw [RlogObject.evalAll]
      apply exists_bind (ih arm mem_cons_self)
      intro verdict
      split
      · exact rest
      · exact ⟨_, rfl⟩

/-- The verdict of the row filter. -/
def passes (platform : Platform) (object : RlogObject) (row : ResolvedRow) (predicate : Predicate) : Bool :=
  (object.eval platform row predicate).toOption.getD false

theorem Readable.eval_eq (platform : Platform) (readable : Readable object row) (predicate : Predicate) :
    object.eval platform row predicate = .ok (passes platform object row predicate) := by
  obtain ⟨verdict, evaluated⟩ := readable.eval platform predicate
  rw [passes, evaluated]
  rfl

theorem Readable.passes_flatten (readable : Readable object row) (predicate : Predicate) :
    passes platform object row predicate = predicate.flatten.all (passes platform object row) := by
  induction predicate using Predicate.induction with
  | leaf arm single =>
    have alone : arm.flatten = [arm] := by
      cases arm with
      | and arms => exact absurd rfl (single arms)
      | _ => rfl
    rw [alone]
    simp
  | and arms ih =>
    rw [Predicate.flatten, flattenAll_eq]
    have whole : passes platform object row (.and arms) = arms.all (passes platform object row) := by
      clear ih
      have step : object.evalAll platform row arms = .ok (arms.all (passes platform object row)) := by
        induction arms with
        | nil => rfl
        | cons arm arms later =>
          rw [RlogObject.evalAll, readable.eval_eq platform arm, all_cons]
          cases passes platform object row arm
          · rfl
          · exact later
      rw [passes, RlogObject.eval, step]
      rfl
    rw [whole, all_flatMap]
    rw [Bool.eq_iff_iff, all_eq_true, all_eq_true]
    apply forall_congr'
    intro arm
    apply imp_congr_right
    intro member
    rw [ih arm member]

end Readable

/-- Equality against a stored value of the query's type is equality of the storage forms. -/
theorem attrValueEq_storedValue {stored query : AttrValue} (typed : (resolveValue stored).1 = (resolveValue query).1) :
    attrValueEq (storedValue stored) query = decide ((resolveValue stored).2 = (resolveValue query).2) := by
  rw [Bool.eq_iff_iff, decide_eq_true_eq]
  cases stored <;> cases query <;>
    first | (cases typed; done) | simp [storedValue, attrValueEq, resolveValue, attrValuePartialEq, utf8Bytes_inj]

section Kernels

variable {platform : Platform} {writer : RlogWriter} {plan : Layout} {rows : List (RlogRecord × ResolvedRow)}
  {object : RlogObject} {row : ResolvedRow}

section

variable (finished : Finished platform writer plan rows object) (member : row ∈ object.rows)

include finished member

/-- A cell of a column holds the storage form of a value of the column's type. -/
theorem cell_typed {column : Column} (columnIn : column ∈ plan.columns) {cell : ColumnValue}
    (stored : cellOf row.columns column.columnId = some cell) :
    ∃ value, resolveValue value = (column.ty, cell) ∧ getAttrValue row column = some (storedValue value) := by
  obtain ⟨record, pair⟩ := finished.record_of_row member
  have read := finished.getAttrValue_row pair columnIn
  rw [finished.cellOf_row pair columnIn, Option.map_eq_some_iff] at stored
  obtain ⟨attr, found, rfl⟩ := stored
  have passes := find?_some found
  have typed : typedPair attr = column.pair := of_decide_eq_true passes
  rw [found] at read
  exact ⟨attr.2, Prod.ext (congrArg Prod.snd typed) rfl, read⟩

/-- The column kernel decides as the row filter does. -/
theorem columnEqRow_eq {column : Column} (columnIn : column ∈ plan.columns) {value : AttrValue}
    (typed : (resolveValue value).1 = column.ty) :
    RlogObject.columnEqRow column value row = RlogObject.attrEquals row column value := by
  rw [RlogObject.columnEqRow, RlogObject.attrEquals]
  cases stored : cellOf row.columns column.columnId with
  | none =>
    rw [getAttrValue_none stored]
    rfl
  | some cell =>
    obtain ⟨original, resolvedAs, read⟩ := cell_typed finished member columnIn stored
    have sameType : (resolveValue original).1 = (resolveValue value).1 := by rw [resolvedAs, typed]
    rw [read]
    simp only
    rw [attrValueEq_storedValue sameType, resolvedAs, Bool.eq_iff_iff, decide_eq_true_eq]
    simp

/-- The stream kernel decides as the row filter does. -/
theorem streamRefs_contains (ids : List LogStreamId) :
    (object.streamRefs ids).contains row.streamRef = passes platform object row (.streamIn ids) := by
  obtain ⟨record, pair⟩ := finished.record_of_row member
  have located := streamRef_row finished pair
  have listed : object.streamDir = plan.streams := finished.streamDir
  rw [passes, RlogObject.eval, located]
  simp only [Except.toOption, Option.getD_some]
  rw [Bool.eq_iff_iff, contains_iff_mem, contains_iff_mem, RlogObject.streamRefs, mem_filterMap]
  have within : row.streamRef < object.streamDir.length := (List.getElem?_eq_some_iff.mp located).1
  have atRef : object.streamDir[row.streamRef] = (record.streamId, record.streamAttrs) :=
    (List.getElem?_eq_some_iff.mp located).2
  constructor
  · rintro ⟨id, idIn, found⟩
    obtain ⟨inDir, sameId, _⟩ := findIdx?_eq_some_iff_getElem.mp found
    rw [atRef] at sameId
    rw [show record.streamId = id from of_decide_eq_true sameId]
    exact idIn
  · intro idIn
    refine ⟨record.streamId, idIn, ?_⟩
    rw [findIdx?_eq_some_iff_getElem]
    refine ⟨within, by rw [atRef]; exact decide_eq_true rfl, ?_⟩
    intro earlier before
    have distinct : (object.streamDir.map Prod.fst).Nodup := listed ▸ finished.planned.streams.distinct
    intro sameId
    have firstId : object.streamDir[earlier].1 = object.streamDir[row.streamRef].1 := by
      rw [atRef]
      exact of_decide_eq_true sameId
    have sameStream := inj_on_of_nodup_map distinct (getElem_mem (by omega)) (getElem_mem within) firstId
    have equal : earlier = row.streamRef := distinct.of_map.getElem_inj_iff.mp sameStream
    omega

end

theorem some_beq_some_comm (left right : List UInt8) : (some left == some right) = (right == left) := by
  rw [Bool.eq_iff_iff, beq_iff_eq, beq_iff_eq, Option.some.injEq]
  exact eq_comm

/-- The compiled arm decides as the row filter does. -/
theorem armKeeps_compileArm (finished : Finished platform writer plan rows object) (member : row ∈ object.rows)
    {arm : Predicate} {compiled : Arm} (compiledAs : object.compileArm arm = some compiled) :
    object.armKeeps platform row compiled = .ok (passes platform object row arm) := by
  have evaluated := (readable_row finished member).eval_eq platform arm
  cases arm with
  | and arms => cases compiledAs
  | tsRange minNs maxNs =>
    cases compiledAs
    rw [← evaluated]
    rfl
  | streamIn ids =>
    cases compiledAs
    rw [← streamRefs_contains finished member]
    rfl
  | hasWord field word =>
    rw [← evaluated]
    cases field with
    | body =>
      cases compiledAs
      rfl
    | severityText =>
      cases compiledAs
      rfl
    | attr name =>
      rw [RlogObject.compileArm] at compiledAs
      split at compiledAs <;> cases compiledAs <;> rfl
  | equals field value =>
    rw [← evaluated]
    cases field with
    | body =>
      cases value with
      | str text =>
        cases compiledAs
        exact congrArg Except.ok (some_beq_some_comm (utf8Bytes row.body) (utf8Bytes text))
      | _ =>
        cases compiledAs
        rfl
    | severityText =>
      cases value with
      | str text =>
        cases compiledAs
        exact congrArg Except.ok (some_beq_some_comm (utf8Bytes row.severityText) (utf8Bytes text))
      | _ =>
        cases compiledAs
        rfl
    | attr name =>
      rw [RlogObject.compileArm] at compiledAs
      split at compiledAs
      · rename_i column found
        cases compiledAs
        obtain ⟨columnIn, paired⟩ := (objectColumn_eq finished).mp found
        rw [RlogObject.armKeeps, columnEqRow_eq finished member columnIn (congrArg Prod.snd paired).symm,
          RlogObject.eval, RlogObject.equals, found]
      · cases compiledAs
        rfl
  | contains key needle negated =>
    cases compiledAs
    rw [← evaluated, RlogObject.eval]
    rfl

end Kernels

theorem retainRows_eq {keep : ResolvedRow → Except LogSegError Bool} {test : ResolvedRow → Bool} {rows : List ResolvedRow}
    (total : ∀ row ∈ rows, keep row = .ok (test row)) : retainRows keep rows = .ok (rows.filter test) := by
  induction rows with
  | nil => rfl
  | cons row rest ih =>
    have later := ih fun other member => total other (mem_cons_of_mem row member)
    rw [retainRows, total row mem_cons_self, later, filter_cons]
    rfl

/-- The verdict of a compiled arm. -/
def keeps (platform : Platform) (object : RlogObject) (arm : Arm) (row : ResolvedRow) : Bool :=
  (object.armKeeps platform row arm).toOption.getD false

theorem foldlM_retainRows {platform : Platform} {object : RlogObject} (arms : List Arm) :
    ∀ rows : List ResolvedRow,
      (∀ arm ∈ arms, ∀ row ∈ rows, object.armKeeps platform row arm = .ok (keeps platform object arm row)) →
      arms.foldlM (fun rows arm => retainRows (fun row => object.armKeeps platform row arm) rows) rows =
        .ok (rows.filter fun row => arms.all fun arm => keeps platform object arm row) := by
  induction arms with
  | nil =>
    intro rows _
    simp only [all_nil, filter_true]
    rfl
  | cons arm arms ih =>
    intro rows total
    rw [foldlM_cons, retainRows_eq (total arm mem_cons_self)]
    show List.foldlM _ (rows.filter (keeps platform object arm)) arms = _
    rw [ih (rows.filter (keeps platform object arm)) fun other otherIn row rowIn =>
      total other (mem_cons_of_mem arm otherIn) row (mem_filter.mp rowIn).1, filter_filter]
    congr 1
    apply filter_congr
    intro row _
    rw [all_cons, Bool.and_comm]

theorem mem_overflowLast {arms : List Arm} {arm : Arm} :
    arm ∈ arms.filter (fun arm => !RlogObject.Arm.isOverflow arm) ++ arms.filter RlogObject.Arm.isOverflow ↔ arm ∈ arms := by
  rw [mem_append, mem_filter, mem_filter]
  cases RlogObject.Arm.isOverflow arm <;> simp

/-- The bounds cover the row. -/
structure Covers (bounds : SkipBounds) (row : ResolvedRow) : Prop where
  minTs : bounds.minTs ≤ row.tsNs
  maxTs : row.tsNs ≤ bounds.maxTs
  minStreamRef : bounds.minStreamRef ≤ row.streamRef
  maxStreamRef : row.streamRef ≤ bounds.maxStreamRef

theorem holdsForBlock_keeps {platform : Platform} {object : RlogObject} {arm : Arm} {bounds : SkipBounds}
    {row : ResolvedRow} (covers : Covers bounds row) (proved : RlogObject.holdsForBlock arm bounds) :
    object.armKeeps platform row arm = .ok true := by
  cases arm with
  | ts minNs maxNs =>
    simp only [RlogObject.holdsForBlock, Bool.and_eq_true, decide_eq_true_eq] at proved
    have low : minNs ≤ row.tsNs := le_trans proved.1.2 covers.minTs
    have high : row.tsNs ≤ maxNs := le_trans covers.maxTs proved.2
    simp [RlogObject.armKeeps, low, high]
  | stream refs =>
    simp only [RlogObject.holdsForBlock, Bool.and_eq_true, decide_eq_true_eq] at proved
    -- As many distinct refs as the range has numbers fill the range.
    have filled : List.range' bounds.minStreamRef (bounds.maxStreamRef - bounds.minStreamRef + 1) ⊆ refs.dedup.filter
        fun streamRef => bounds.minStreamRef ≤ streamRef && streamRef ≤ bounds.maxStreamRef := by
      have inRange : (refs.dedup.filter fun streamRef =>
          bounds.minStreamRef ≤ streamRef && streamRef ≤ bounds.maxStreamRef) ⊆
          List.range' bounds.minStreamRef (bounds.maxStreamRef - bounds.minStreamRef + 1) := by
        intro streamRef member
        have bounded := (mem_filter.mp member).2
        simp only [Bool.and_eq_true, decide_eq_true_eq] at bounded
        rw [mem_range'_1]
        omega
      have distinct := (nodup_dedup refs).filter fun streamRef =>
        bounds.minStreamRef ≤ streamRef && streamRef ≤ bounds.maxStreamRef
      have reordered := (subperm_of_subset distinct inRange).perm_of_length_le (by
        rw [length_range']
        omega)
      exact reordered.symm.subset
    have listed := filled (mem_range'_1.mpr ⟨covers.minStreamRef, by have := covers.maxStreamRef; omega⟩)
    have inRefs : row.streamRef ∈ refs := mem_dedup.mp (mem_filter.mp listed).1
    simp [RlogObject.armKeeps, inRefs]
  | _ => cases proved

/-- A leaf arm of a predicate always compiles. -/
theorem compileArm_isSome (object : RlogObject) (predicate : Predicate) :
    ∀ arm ∈ predicate.flatten, (object.compileArm arm).isSome := by
  induction predicate using Predicate.induction with
  | leaf arm single =>
    intro other member
    have alone : arm.flatten = [arm] := by
      cases arm with
      | and arms => exact absurd rfl (single arms)
      | _ => rfl
    rw [alone, mem_singleton] at member
    rw [member]
    cases arm with
    | and arms => exact absurd rfl (single arms)
    | tsRange minNs maxNs => rfl
    | streamIn ids => rfl
    | hasWord field word =>
      cases field with
      | attr name =>
        rw [RlogObject.compileArm]
        split <;> rfl
      | _ => rfl
    | equals field value =>
      cases field with
      | attr name =>
        rw [RlogObject.compileArm]
        split <;> rfl
      | _ => cases value <;> rfl
    | contains key needle negated => rfl
  | and arms ih =>
    intro other member
    rw [Predicate.flatten, flattenAll_eq, mem_flatMap] at member
    obtain ⟨arm, armIn, inArm⟩ := member
    exact ih arm armIn other inArm

/-- The surviving rows of a block are those on which the row filter is true. -/
theorem blockSurvivors_eq {platform : Platform} {writer : RlogWriter} {plan : Layout}
    {rows : List (RlogRecord × ResolvedRow)} {object : RlogObject} (finished : Finished platform writer plan rows object)
    {blockRows : List ResolvedRow} (inObject : ∀ row ∈ blockRows, row ∈ object.rows) {bounds : SkipBounds}
    (covers : ∀ row ∈ blockRows, Covers bounds row) (content : Predicate) :
    object.blockSurvivors platform (content.flatten.filterMap object.compileArm) bounds blockRows =
      .ok (blockRows.filter fun row => passes platform object row content) := by
  have compiled : ∀ arm ∈ content.flatten.filterMap object.compileArm, ∃ source ∈ content.flatten,
      object.compileArm source = some arm := fun arm member => mem_filterMap.mp member
  have kept : ∀ source arm, object.compileArm source = some arm → ∀ row ∈ blockRows,
      object.armKeeps platform row arm = .ok (passes platform object row source) :=
    fun source arm compiledAs row member => armKeeps_compileArm finished (inObject row member) compiledAs
  have verdict : ∀ source arm, object.compileArm source = some arm → ∀ row ∈ blockRows,
      keeps platform object arm row = passes platform object row source := by
    intro source arm compiledAs row member
    rw [keeps, kept source arm compiledAs row member]
    rfl
  rw [RlogObject.blockSurvivors, foldlM_retainRows]
  · congr 1
    apply filter_congr
    intro row rowIn
    rw [(readable_row finished (inObject row rowIn)).passes_flatten content, Bool.eq_iff_iff, all_eq_true,
      all_eq_true]
    constructor
    · intro live source sourceIn
      obtain ⟨arm, compiledAs⟩ := Option.isSome_iff_exists.mp (compileArm_isSome object content source sourceIn)
      have member : arm ∈ content.flatten.filterMap object.compileArm :=
        mem_filterMap.mpr ⟨source, sourceIn, compiledAs⟩
      by_cases proved : RlogObject.holdsForBlock arm bounds
      · have holds := kept source arm compiledAs row rowIn
        rw [holdsForBlock_keeps (covers row rowIn) proved] at holds
        exact (Except.ok.inj holds).symm
      · rw [← verdict source arm compiledAs row rowIn]
        apply live
        rw [mem_overflowLast, mem_filter]
        exact ⟨member, by simpa using proved⟩
    · intro all arm member
      obtain ⟨source, sourceIn, compiledAs⟩ := compiled arm (mem_filter.mp (mem_overflowLast.mp member)).1
      rw [verdict source arm compiledAs row rowIn]
      exact all source sourceIn
  · intro arm member row rowIn
    obtain ⟨source, _, compiledAs⟩ := compiled arm (mem_filter.mp (mem_overflowLast.mp member)).1
    rw [verdict source arm compiledAs row rowIn]
    exact kept source arm compiledAs row rowIn

end Ravel.Logs
