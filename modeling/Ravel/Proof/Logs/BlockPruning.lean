import Ravel.Proof.Logs.RowEvaluation

namespace Ravel.Logs

open List Library RlogWriter

/-- The bounds on the left include the bounds on the right. -/
structure SkipBounds.Includes (outer inner : SkipBounds) : Prop where
  minTs : outer.minTs ≤ inner.minTs
  maxTs : inner.maxTs ≤ outer.maxTs
  minStreamRef : outer.minStreamRef ≤ inner.minStreamRef
  maxStreamRef : inner.maxStreamRef ≤ outer.maxStreamRef

theorem SkipBounds.Includes.refl (bounds : SkipBounds) : bounds.Includes bounds :=
  ⟨le_refl _, le_refl _, le_refl _, le_refl _⟩

theorem SkipBounds.Includes.trans {outer middle inner : SkipBounds} (first : outer.Includes middle)
    (second : middle.Includes inner) : outer.Includes inner where
  minTs := le_trans first.minTs second.minTs
  maxTs := le_trans second.maxTs first.maxTs
  minStreamRef := le_trans first.minStreamRef second.minStreamRef
  maxStreamRef := le_trans second.maxStreamRef first.maxStreamRef

theorem joinBounds_includes_left (left right : SkipBounds) : (joinBounds left right).Includes left :=
  ⟨min_le_left _ _, le_max_left _ _, min_le_left _ _, le_max_left _ _⟩

theorem joinBounds_includes_right (left right : SkipBounds) : (joinBounds left right).Includes right :=
  ⟨min_le_right _ _, le_max_right _ _, min_le_right _ _, le_max_right _ _⟩

theorem foldl_joinBounds_includes (rest : List SkipBounds) : ∀ first : SkipBounds,
    (rest.foldl joinBounds first).Includes first ∧
      ∀ bounds ∈ rest, (rest.foldl joinBounds first).Includes bounds := by
  induction rest with
  | nil =>
    intro first
    exact ⟨.refl first, fun _ member => nomatch member⟩
  | cons next rest ih =>
    intro first
    obtain ⟨joined, later⟩ := ih (joinBounds first next)
    rw [foldl_cons]
    refine ⟨joined.trans (joinBounds_includes_left first next), ?_⟩
    intro bounds member
    rcases mem_cons.mp member with rfl | inRest
    · exact joined.trans (joinBounds_includes_right first bounds)
    · exact later bounds inRest

variable {bounds : SkipBounds} {window : TsWindow} {refs : Option (List Nat)} {Entry : Type}

theorem boundsOf_includes {group : List SkipBounds} (member : bounds ∈ group) : (boundsOf group).Includes bounds := by
  cases group with
  | nil => cases member
  | cons first rest =>
    rcases mem_cons.mp member with rfl | inRest
    · exact (foldl_joinBounds_includes rest bounds).1
    · exact (foldl_joinBounds_includes rest first).2 bounds inRest

theorem boundsOf_covers {rows : List ResolvedRow} {row : ResolvedRow} (member : row ∈ rows) :
    Covers (boundsOf (rows.map rowBounds)) row := by
  have includes := boundsOf_includes (mem_map.mpr ⟨row, member, rfl⟩ : rowBounds row ∈ rows.map rowBounds)
  exact ⟨includes.minTs, includes.maxTs, includes.minStreamRef, includes.maxStreamRef⟩

/-- The skip index rules out the bounds for a window and a set of streams. -/
def ruledOut (window : TsWindow) (refs : Option (List Nat)) (bounds : SkipBounds) : Bool :=
  window.misses bounds || refsMiss refs bounds

theorem ruledOut_of_includes {outer inner : SkipBounds} (includes : outer.Includes inner)
    (ruled : ruledOut window refs outer) : ruledOut window refs inner := by
  rw [ruledOut, Bool.or_eq_true] at ruled ⊢
  obtain ⟨minTs, maxTs, minStreamRef, maxStreamRef⟩ := includes
  rcases ruled with missed | missed
  · left
    cases window with
    | none => cases missed
    | some range =>
      simp only [TsWindow.misses, Bool.or_eq_true, decide_eq_true_eq] at missed ⊢
      omega
  · right
    cases refs with
    | none => cases missed
    | some refs =>
      simp only [refsMiss, Bool.not_eq_true', any_eq_false, Bool.and_eq_true, decide_eq_true_eq] at missed ⊢
      intro streamRef member within
      exact missed streamRef member ⟨by omega, by omega⟩

/-- The positions of a list whose entries a test keeps. -/
def keptPositions {Entry : Type} (test : Entry → Bool) (start : Nat) (entries : List Entry) : List Nat :=
  (entries.zipIdx start).filterMap fun entry => if test entry.1 then some entry.2 else none

theorem keptPositions_append (test : Entry → Bool) (start : Nat) (first second : List Entry) :
    keptPositions test start (first ++ second) =
      keptPositions test start first ++ keptPositions test (start + first.length) second := by
  rw [keptPositions, zipIdx_append, filterMap_append]
  rfl

theorem keptPositions_eq_nil {test : Entry → Bool} {entries : List Entry}
    (none : ∀ entry ∈ entries, test entry = false) (start : Nat) : keptPositions test start entries = [] := by
  rw [keptPositions, filterMap_eq_nil_iff]
  intro entry member
  rw [none entry.1 (fst_mem_of_mem_zipIdx member)]
  rfl

/-- The candidates of one group of blocks. -/
def groupCandidates (l0 : List Level0Entry) (window : TsWindow) (refs : Option (List Nat)) (group : SkipBounds × Nat) :
    List Nat :=
  if ruledOut window refs group.1 then []
  else
    (((l0.drop (group.2 * skipFanout)).take skipFanout).zipIdx).filterMap fun entry =>
      if ruledOut window refs entry.1.bounds then none else some (group.2 * skipFanout + entry.2)

theorem groupCandidates_eq {l0 rest : List Level0Entry} {position : Nat} (at_ : l0.drop (position * skipFanout) = rest)
    (window : TsWindow) (refs : Option (List Nat)) :
    groupCandidates l0 window refs (boundsOf ((rest.take skipFanout).map Level0Entry.bounds), position) =
      keptPositions (fun entry => !ruledOut window refs entry.bounds) (position * skipFanout) (rest.take skipFanout) := by
  rw [groupCandidates]
  split
  · rename_i ruled
    symm
    apply keptPositions_eq_nil
    intro entry member
    have inside := boundsOf_includes (mem_map.mpr ⟨entry, member, rfl⟩ :
      entry.bounds ∈ (rest.take skipFanout).map Level0Entry.bounds)
    simpa using ruledOut_of_includes inside ruled
  · rw [at_, keptPositions]
    conv_rhs => rw [zipIdx_eq_map_add, filterMap_map]
    apply filterMap_congr
    intro entry _
    simp only [Function.comp]
    cases ruledOut window refs entry.1.bounds <;> rfl

theorem candidateBlocks_eq (l0 : List Level0Entry) (window : TsWindow) (refs : Option (List Nat)) :
    (buildSkipIndex l0).candidateBlocks window refs =
      keptPositions (fun entry => !ruledOut window refs entry.bounds) 0 l0 := by
  suffices run : ∀ (fuel : Nat) (rest : List Level0Entry) (position : Nat), rest.length ≤ fuel →
      l0.drop (position * skipFanout) = rest →
      ((((chunksLoop skipFanout fuel rest).map fun chunk => boundsOf (chunk.map Level0Entry.bounds)).zipIdx
        position).flatMap (groupCandidates l0 window refs)) =
        keptPositions (fun entry => !ruledOut window refs entry.bounds) (position * skipFanout) rest by
    have whole := run l0.length l0 0 (le_refl _) (by simp)
    rw [Nat.zero_mul] at whole
    exact whole
  intro fuel
  induction fuel with
  | zero =>
    intro rest position short _
    rw [length_eq_zero_iff.mp (Nat.le_zero.mp short)]
    rfl
  | succ fuel ih =>
    intro rest position short at_
    cases rest with
    | nil => rfl
    | cons entry others =>
      have next : l0.drop ((position + 1) * skipFanout) = (entry :: others).drop skipFanout := by
        rw [← at_, drop_drop, Nat.add_mul, Nat.one_mul]
      have later := ih ((entry :: others).drop skipFanout) (position + 1) (by
        simp only [skipFanout, length_drop, length_cons] at short ⊢
        omega) next
      have first := groupCandidates_eq at_ window refs
      rw [chunksLoop, map_cons, zipIdx_cons, flatMap_cons, first, later]
      · conv_rhs => rw [← take_append_drop skipFanout (entry :: others), keptPositions_append]
        congr 1
        rcases Nat.lt_or_ge skipFanout (entry :: others).length with long | short'
        · rw [length_take, Nat.min_eq_left long.le, Nat.add_mul, Nat.one_mul]
        · rw [drop_of_length_le short']
          rfl
      · intro empty
        cases empty

/-- The timestamp is in the window. -/
def TsWindow.Holds (window : TsWindow) (tsNs : Int) : Prop :=
  match window with
  | none => True
  | some (low, high) => low ≤ tsNs ∧ tsNs ≤ high

/-- The stream ref is in the filter. -/
def refsHold (refs : Option (List Nat)) (streamRef : Nat) : Prop :=
  ∀ kept, refs = some kept → streamRef ∈ kept

theorem not_ruledOut {row : ResolvedRow} (covers : Covers bounds row) (timely : window.Holds row.tsNs)
    (streamed : refsHold refs row.streamRef) : ruledOut window refs bounds = false := by
  obtain ⟨minTs, maxTs, minStreamRef, maxStreamRef⟩ := covers
  rw [ruledOut, Bool.or_eq_false_iff]
  constructor
  · cases window with
    | none => rfl
    | some range =>
      obtain ⟨low, high⟩ := timely
      simp only [TsWindow.misses, Bool.or_eq_false_iff, decide_eq_false_iff_not]
      omega
  · cases refs with
    | none => rfl
    | some refs =>
      rw [refsMiss, Bool.not_eq_false', any_eq_true]
      refine ⟨row.streamRef, streamed refs rfl, ?_⟩
      simp [minStreamRef, maxStreamRef]

theorem TsWindow.Holds.meet {tsNs minNs maxNs : Int} (holds : window.Holds tsNs) (low : minNs ≤ tsNs)
    (high : tsNs ≤ maxNs) : (window.meet minNs maxNs).Holds tsNs := by
  cases window with
  | none => exact ⟨low, high⟩
  | some range => exact ⟨max_le holds.1 low, le_min holds.2 high⟩

theorem TsWindow.Holds.not_isEmpty {tsNs : Int} (holds : window.Holds tsNs) : window.isEmpty = false := by
  cases window with
  | none => rfl
  | some range =>
    simp only [TsWindow.isEmpty, decide_eq_false_iff_not]
    have ordered := le_trans holds.1 holds.2
    omega

section Rows

variable {platform : Platform} {writer : RlogWriter} {plan : Layout} {rows : List (RlogRecord × ResolvedRow)}
  {object : RlogObject} {row : ResolvedRow}

theorem tsWindow_holds {arms : List Predicate} (passed : ∀ arm ∈ arms, passes platform object row arm) :
    (tsWindow arms).Holds row.tsNs := by
  induction arms using reverseRecOn with
  | nil => trivial
  | append_singleton arms arm ih =>
    have earlier := ih fun other member => passed other (mem_append_left _ member)
    have own := passed arm (mem_append_right _ mem_cons_self)
    rw [tsWindow, foldl_append]
    cases arm with
    | tsRange minNs maxNs =>
      have range : minNs ≤ row.tsNs ∧ row.tsNs ≤ maxNs := by
        simpa [passes, RlogObject.eval, Except.toOption] using own
      exact earlier.meet range.1 range.2
    | _ => exact earlier

theorem streamFilter_holds (finished : Finished platform writer plan rows object) (member : row ∈ object.rows)
    {arms : List Predicate} (passed : ∀ arm ∈ arms, passes platform object row arm) :
    refsHold (object.streamFilter arms) row.streamRef := by
  induction arms using reverseRecOn with
  | nil =>
    intro kept none
    cases none
  | append_singleton arms arm ih =>
    have earlier := ih fun other otherIn => passed other (mem_append_left _ otherIn)
    have own := passed arm (mem_append_right _ mem_cons_self)
    cases arm with
    | streamIn ids =>
      rw [← streamRefs_contains finished member, contains_iff_mem] at own
      intro kept filtered
      rw [RlogObject.streamFilter, foldl_append, ← RlogObject.streamFilter] at filtered
      cases folded : object.streamFilter arms with
      | none =>
        rw [folded] at filtered
        cases filtered
        exact own
      | some previous =>
        rw [folded] at filtered
        cases filtered
        rw [mem_filter, contains_iff_mem]
        exact ⟨earlier previous folded, own⟩
    | _ =>
      rw [RlogObject.streamFilter, foldl_append]
      exact earlier

end Rows

/-- A filter of any size may contain every key that was staged for it. -/
theorem mayContain_of_staged (platform : Platform) (size : Nat → Nat) (seed : UInt64) {staged : List (Nat × List UInt8)}
    {columnId : Nat} {token : List UInt8} (member : (columnId, token) ∈ staged) :
    (bloomFinishSized platform size seed staged).mayContain platform columnId token := by
  have hashed : keyHash platform seed columnId token ∈ (staged.map fun key => keyHash platform seed key.1 key.2).dedup :=
    mem_dedup.mpr (mem_map.mpr ⟨_, member, rfl⟩)
  rw [BloomFilter.mayContain, all_eq_true]
  intro bit bitIn
  rw [contains_iff_mem]
  exact mem_flatMap.mpr ⟨_, hashed, bitIn⟩

theorem mem_tokens_of_phraseMatch {platform : Platform} {value : List UInt8} {word : String}
    (matched : phraseMatch platform value word) (nonempty : (tokens platform word).isEmpty = false) :
    ∃ text, String.fromUTF8? value.toByteArray = some text ∧
      ∀ token ∈ tokens platform word, token ∈ tokens platform text := by
  simp only [phraseMatch, nonempty, Bool.false_eq_true, if_false] at matched
  split at matched
  · cases matched
  · rename_i text decoded
    refine ⟨text, decoded, ?_⟩
    intro token member
    obtain ⟨tail, tailIn, leads⟩ := any_eq_true.mp matched
    have inTail : token ∈ tail := (List.isPrefixOf_iff_prefix.mp leads).subset member
    exact (mem_tails _ _ |>.mp tailIn).subset inTail

theorem firstDynamicCol_le {distinct : List (String × FieldType)} {cfg : RlogConfig} {column : Column}
    (member : column ∈ assignColumns distinct cfg) : firstDynamicCol ≤ column.columnId := by
  obtain ⟨entry, _, rfl⟩ := mem_map.mp member
  exact Nat.le_add_right _ _

section Bloom

variable {platform : Platform} {writer : RlogWriter} {plan : Layout} {rows : List (RlogRecord × ResolvedRow)}
  {object : RlogObject} {row : ResolvedRow}

theorem objectBloomCovered (finished : Finished platform writer plan rows object) :
    object.bloomCovered = bloomCovered writer.bloomScope plan.columns := by
  rw [finished.assembled]
  rfl

variable {column : Column} {field : FieldSel} {columnId : Nat} {arms : List Predicate}

section

variable (finished : Finished platform writer plan rows object)

include finished

theorem not_skipped (columnIn : column ∈ plan.columns) (covered : object.bloomCovered.contains column.columnId) :
    (bloomSkip writer.bloomScope plan.columns).contains column.columnId = false := by
  rw [objectBloomCovered finished, contains_iff_mem, bloomCovered, mem_append] at covered
  have sameColumn : ∀ other ∈ plan.columns, other.columnId = column.columnId → other = column := fun other otherIn =>
    inj_on_of_nodup_map finished.planned.distinctColumns.ids otherIn columnIn
  rw [← Bool.not_eq_true, contains_iff_mem]
  intro skipped
  obtain ⟨other, otherKept, sameId⟩ := mem_map.mp skipped
  obtain ⟨otherIn, otherSkipped⟩ := mem_filter.mp otherKept
  rw [sameColumn other otherIn sameId] at otherSkipped
  rcases covered with fixed | kept
  · have dynamic : firstDynamicCol ≤ column.columnId := firstDynamicCol_le (finished.planned.columns ▸ columnIn)
    simp only [mem_cons, not_mem_nil, or_false, colSeverityText, colBody] at fixed
    simp only [firstDynamicCol] at dynamic
    omega
  · obtain ⟨covering, coveringIn, coveringId⟩ := mem_map.mp kept
    obtain ⟨inColumns, covers⟩ := mem_filter.mp coveringIn
    rw [sameColumn covering inColumns coveringId] at covers
    simp only [Bool.and_eq_true, Bool.not_eq_true'] at covers otherSkipped
    rw [covers.2] at otherSkipped
    cases otherSkipped.2

theorem staged_text (member : row ∈ object.rows) (worded : object.wordColumn field = some columnId)
    (covered : object.bloomCovered.contains columnId) {text : List UInt8}
    (read : object.fieldText field row = .ok (some text)) : ∀ key ∈ insertText platform columnId text,
      key ∈ rowBloomKeys platform (bloomSkip writer.bloomScope plan.columns) row := by
  intro key keyIn
  rw [rowBloomKeys]
  cases field with
  | body =>
    cases worded
    cases read
    exact mem_append_left _ (mem_append_left _ keyIn)
  | severityText =>
    cases worded
    cases read
    exact mem_append_left _ (mem_append_right _ keyIn)
  | attr name =>
    obtain ⟨column, found, rfl⟩ := Option.map_eq_some_iff.mp worded
    obtain ⟨columnIn, paired⟩ := (objectColumn_eq finished).mp found
    have isStr : column.ty = .str := congrArg Prod.snd paired
    rw [RlogObject.fieldText, found] at read
    have textAt : strAt row column.columnId = some text := Except.ok.inj read
    rw [strAt] at textAt
    cases stored : cellOf row.columns column.columnId with
    | none =>
      rw [stored] at textAt
      cases textAt
    | some cell =>
      obtain ⟨value, resolvedAs, _⟩ := cell_typed finished member columnIn stored
      have cellText : cell = .str text := by
        rw [stored] at textAt
        rw [isStr] at resolvedAs
        cases value <;> cases resolvedAs
        cases textAt
        rfl
      obtain ⟨located, locatedAt, rfl⟩ := Option.map_eq_some_iff.mp stored
      have passes := find?_some locatedAt
      have sameId : located.1 = column.columnId := of_decide_eq_true passes
      apply mem_append_right
      refine mem_flatMap.mpr ⟨located, mem_of_find?_eq_some locatedAt, ?_⟩
      rw [cellText]
      simp only [sameId, not_skipped finished columnIn covered]
      exact keyIn

/-- The row filter on an attribute with a column of the value's type compares the cell. -/
theorem passes_columnEq (member : row ∈ object.rows) {name : String} {value : AttrValue}
    (found : object.column name (resolveValue value).1 = some column) :
    passes platform object row (.equals (.attr name) value) ↔
      cellOf row.columns column.columnId = some (resolveValue value).2 := by
  obtain ⟨columnIn, paired⟩ := (objectColumn_eq finished).mp found
  have decided := columnEqRow_eq finished member columnIn (congrArg Prod.snd paired).symm
  have verdict : passes platform object row (.equals (.attr name) value) = RlogObject.columnEqRow column value row := by
    rw [passes, RlogObject.eval, RlogObject.equals, found, decided]
    rfl
  rw [verdict, RlogObject.columnEqRow, beq_iff_eq]

theorem fieldText_of_equals (member : row ∈ object.rows) (worded : object.wordColumn field = some columnId)
    {text : String} (passed : passes platform object row (.equals field (.str text))) :
    object.fieldText field row = .ok (some (utf8Bytes text)) := by
  cases field with
  | body =>
    have same : utf8Bytes text = utf8Bytes row.body := eq_of_beq passed
    rw [same]
    rfl
  | severityText =>
    have same : utf8Bytes text = utf8Bytes row.severityText := eq_of_beq passed
    rw [same]
    rfl
  | attr name =>
    obtain ⟨column, found, rfl⟩ := Option.map_eq_some_iff.mp worded
    have cell : cellOf row.columns column.columnId = some (.str (utf8Bytes text)) :=
      (passes_columnEq finished member found).mp passed
    rw [RlogObject.fieldText, found]
    simp only [strAt, cell]

theorem staged_arm (member : row ∈ object.rows) (passed : ∀ arm ∈ arms, passes platform object row arm)
    {arm : Nat × List (List UInt8)} (armed : arm ∈ object.bloomArms platform arms) :
    ∀ token ∈ arm.2, (arm.1, token) ∈ rowBloomKeys platform (bloomSkip writer.bloomScope plan.columns) row := by
  obtain ⟨source, sourceIn, compiled⟩ := mem_filterMap.mp armed
  have own := passed source sourceIn
  have readable := readable_row finished member
  cases source with
  | hasWord field word =>
    obtain ⟨columnId, coveredColumn, emitted⟩ := Option.bind_eq_some_iff.mp compiled
    obtain ⟨worded, covered⟩ := Option.filter_eq_some_iff.mp coveredColumn
    cases nonempty : (tokens platform word).isEmpty with
    | true =>
      rw [nonempty] at emitted
      cases emitted
    | false =>
      rw [nonempty] at emitted
      cases emitted
      obtain ⟨text, read⟩ := readable.fieldText field
      rw [passes, RlogObject.eval, read] at own
      cases text with
      | none => cases own
      | some bytes =>
        obtain ⟨decoded, valid, within⟩ := mem_tokens_of_phraseMatch own nonempty
        intro token tokenIn
        apply staged_text finished member worded covered read
        rw [insertText, valid]
        exact mem_append_left _ (mem_map.mpr ⟨token, within token tokenIn, rfl⟩)
  | equals field value =>
    cases value with
    | str text =>
      simp only at compiled
      split at compiled
      · rename_i short
        obtain ⟨columnId, coveredColumn, rfl⟩ := Option.map_eq_some_iff.mp compiled
        obtain ⟨worded, covered⟩ := Option.filter_eq_some_iff.mp coveredColumn
        intro token tokenIn
        obtain rfl := mem_singleton.mp tokenIn
        apply staged_text finished member worded covered (fieldText_of_equals finished member worded own)
        rw [insertText]
        apply mem_append_right
        rw [if_pos (show (utf8Bytes text).length ≤ exactBloomMax from short)]
        exact mem_cons_self
      · cases compiled
    | _ => cases compiled
  | _ => cases compiled

/-- The bloom filter of a block does not drop it while a row passes. -/
theorem not_blockPrunedByBloom {block : Nat} {blockRows : List ResolvedRow}
    (located : object.blocks[block]? = some blockRows) (member : row ∈ blockRows)
    (passed : ∀ arm ∈ arms, passes platform object row arm) :
    object.blockPrunedByBloom platform block (object.bloomArms platform arms) = false := by
  have stored : object.bloom[block]? =
      some (blockBloom platform writer.cfg.bloomSeed (bloomSkip writer.bloomScope plan.columns) blockRows) := by
    have cut := located
    rw [finished.blocks] at cut
    rw [finished.assembled]
    simp [assemble, cut]
  rw [RlogObject.blockPrunedByBloom, stored, any_eq_false]
  intro arm armed
  rw [Bool.not_eq_true, Bool.not_eq_false', all_eq_true]
  intro token tokenIn
  have staged := staged_arm finished (Finished.mem_rows_of_block located member) passed armed token tokenIn
  have inBlock : (arm.1, token) ∈
      blockRows.flatMap (rowBloomKeys platform (bloomSkip writer.bloomScope plan.columns)) :=
    mem_flatMap.mpr ⟨row, member, staged⟩
  exact mayContain_of_staged platform exactSize writer.cfg.bloomSeed inBlock

end

end Bloom

end Ravel.Logs
