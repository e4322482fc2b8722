import Ravel.Proof.Logs.ShadowedValues

namespace Ravel.Logs

open List Library RlogWriter

/-- The prune arm of the SQL filter `attrs[name] = text`. -/
def pruneArm (name text : String) : Predicate :=
  .equals (.attr name) (.str text)

/-- A block that a further prune arm drops has no row whose merged view renders the name as the text. -/
def PruneWidens (platform : Platform) (object : RlogObject) : Prop :=
  ∀ content prune name text block, block ∈ object.scanBlocks platform content prune →
    block ∉ object.scanBlocks platform content (prune ++ [pruneArm name text]) →
      ∀ blockRows, object.blocks[block]? = some blockRows → ∀ row ∈ blockRows, ∀ view, object.mergedView row = .ok view →
        ∀ entry, resolveName view name = some entry → attrValueToString platform entry.2 ≠ text

/-- The record of the block renders the name as a value of another type than a string, in an object whose only column of
the name is an uncapped string column. -/
structure RendersOther (platform : Platform) (writer : RlogWriter) (plan : Layout) (object : RlogObject) (block : Nat)
    (column : Column) (entry : String × AttrValue) : Prop where
  columnIn : column ∈ plan.columns
  text : column.ty = .str
  alone : ∀ other ∈ plan.columns, other.name = column.name → other.ty = .str
  answered : (probePostings object.postings column.columnId []).isSome
  stored : ∃ record, InBlock platform writer plan object block record ∧
    resolveName (viewOf plan record) column.name = some entry
  other : (resolveValue entry.2).1 ≠ .str

/-- Every text that a block renders from a value of another type is also a string that some record of the block shows. -/
def RenderedPosted (platform : Platform) (writer : RlogWriter) (plan : Layout) (object : RlogObject) : Prop :=
  ∀ block column entry, RendersOther platform writer plan object block column entry →
    ∃ other, InBlock platform writer plan object block other ∧
      (column.name, .str (attrValueToString platform entry.2)) ∈
        shownValues plan.columns other.attrs (pairsOf plan.pairs other.streamId) column.name

theorem flattenAll_append (prune : List Predicate) (name text : String) :
    flattenAll (prune ++ [pruneArm name text]) = flattenAll prune ++ [pruneArm name text] := by
  induction prune with
  | nil => rfl
  | cons arm rest ih =>
    rw [cons_append, flattenAll, flattenAll, ih, append_assoc]

section Prunes

variable {platform : Platform} {writer : RlogWriter} {plan : Layout} {rows : List (RlogRecord × ResolvedRow)}
  {object : RlogObject}

/-- The posting list of one more arm. -/
theorem survives_append (content : Predicate) (prune : List Predicate) (name text : String) (block : Nat) :
    survives platform object content (prune ++ [pruneArm name text]) block =
      (survives platform object content prune block &&
        postingsKeep object (object.prunePostingsArms [pruneArm name text]) block) := by
  have arms : object.prunePostingsArms (flattenAll (prune ++ [pruneArm name text])) =
      object.prunePostingsArms (flattenAll prune) ++ object.prunePostingsArms [pruneArm name text] := by
    rw [flattenAll_append]
    exact filterMap_append
  simp only [survives, arms, postingsKeep, all_append]
  ac_rfl

theorem str_of_resolveValue {value : AttrValue} (typed : (resolveValue value).1 = .str) :
    ∃ text, value = .str text := by
  cases value with
  | str text => exact ⟨text, rfl⟩
  | _ => cases typed

section

variable (finished : Finished platform writer plan rows object)

include finished

/-- The object declines the arm or drops exactly the blocks that do not post the text. -/
theorem postingsKeep_pruneArm (name text : String) (block : Nat) :
    postingsKeep object (object.prunePostingsArms [pruneArm name text]) block = false ↔
      ∃ column ∈ plan.columns, column.pair = (name, .str) ∧ (∀ other ∈ plan.columns, other.name = name → other.ty = .str) ∧
        (probePostings object.postings column.columnId []).isSome ∧
          ¬Posted object column.columnId block (utf8Bytes text) := by
  have declines : object.nameHasNonStrColumn name = false ↔
      ∀ other ∈ plan.columns, other.name = name → other.ty = .str := by
    simp [RlogObject.nameHasNonStrColumn, fieldDir_mem finished]
  have arms : object.prunePostingsArms [pruneArm name text] =
      if object.nameHasNonStrColumn name then [] else
        ((object.column name .str).map fun column => (column.columnId, utf8Bytes text)).toList := by
    cases refused : object.nameHasNonStrColumn name <;> cases found : object.column name .str <;>
      simp [RlogObject.prunePostingsArms, pruneArm, refused, found, resolveValue, termKey]
  rw [arms]
  constructor
  · intro dropped
    split at dropped
    · cases dropped
    · rename_i open_
      cases found : object.column name .str with
      | none =>
        rw [found] at dropped
        cases dropped
      | some column =>
        rw [found] at dropped
        obtain ⟨columnIn, paired⟩ := (objectColumn_eq finished).mp found
        have only := declines.mp (by simpa using open_)
        cases probed : probePostings object.postings column.columnId (utf8Bytes text) with
        | none => simp [postingsKeep, probed] at dropped
        | some blocks =>
          have answered : (probePostings object.postings column.columnId []).isSome := by
            rw [Finished.probePostings_isSome object column.columnId [] (utf8Bytes text), probed]
            rfl
          refine ⟨column, columnIn, paired, only, answered, ?_⟩
          rw [← finished.mem_probePostings probed]
          simpa [postingsKeep, probed] using dropped
  · rintro ⟨column, columnIn, paired, only, answered, unposted⟩
    have found : object.column name .str = some column := (objectColumn_eq finished).mpr ⟨columnIn, paired⟩
    rw [Finished.probePostings_isSome object column.columnId [] (utf8Bytes text)] at answered
    obtain ⟨blocks, probed⟩ := Option.isSome_iff_exists.mp answered
    rw [← finished.mem_probePostings probed] at unposted
    rw [declines.mpr only, found]
    simpa [postingsKeep, probed] using unposted

theorem posted_iff_shown {column : Column} (columnIn : column ∈ plan.columns) {name text : String}
    (paired : column.pair = (name, .str)) (answered : (probePostings object.postings column.columnId []).isSome)
    {block : Nat} : Posted object column.columnId block (utf8Bytes text) ↔
      ∃ other, InBlock platform writer plan object block other ∧
        (name, .str text) ∈ shownValues plan.columns other.attrs (pairsOf plan.pairs other.streamId) name := by
  obtain ⟨_, probed⟩ := Option.isSome_iff_exists.mp answered
  have named : column.name = name := congrArg Prod.fst paired
  have indexed : name ∈ writer.indexedFields := named ▸ finished.indexed_of_probe columnIn probed
  have owned : columnOf plan.columns (name, .str) = some column.columnId := by
    rw [← paired]
    exact columnOf_mem finished.planned.distinctColumns columnIn
  constructor
  · rintro ⟨blockRows, located, row, rowIn, value, termIn, sameTerm⟩
    obtain ⟨record, pair⟩ := finished.record_of_row (Finished.mem_rows_of_block located rowIn)
    obtain ⟨shown, shownIn, typed, rfl⟩ := (finished.mem_indexedTerms pair indexed owned value).mp termIn
    refine ⟨record, (inBlock_iff finished located).mpr ⟨row, rowIn, pair⟩, ?_⟩
    rw [typedPair, Prod.mk.injEq] at typed
    obtain ⟨other, isText⟩ := str_of_resolveValue typed.2
    rw [isText] at sameTerm
    have sameText : other = text := utf8Bytes_injective sameTerm
    have same : shown = (name, .str text) := by
      rw [← typed.1, ← sameText, ← isText]
    exact same ▸ shownIn
  · rintro ⟨other, inBlock, shownIn⟩
    obtain ⟨_, blockRows, _, located, _, _⟩ := id inBlock
    obtain ⟨row, rowIn, pair⟩ := (inBlock_iff finished located).mp inBlock
    exact ⟨blockRows, located, row, rowIn, _,
      (finished.mem_indexedTerms pair indexed owned _).mpr ⟨_, shownIn, rfl, rfl⟩, rfl⟩

theorem posted_of_resolved {column : Column} (columnIn : column ∈ plan.columns) {name text : String}
    (paired : column.pair = (name, .str)) (answered : (probePostings object.postings column.columnId []).isSome)
    {block : Nat} {record : RlogRecord} (inBlock : InBlock platform writer plan object block record)
    (found : resolveName (viewOf plan record) name = some (name, .str text)) :
    Posted object column.columnId block (utf8Bytes text) :=
  (posted_iff_shown finished columnIn paired answered).mpr ⟨record, inBlock, resolved_mem_shownValues found⟩

theorem renderedPosted_of_pruneWidens (widens : PruneWidens platform object) : RenderedPosted platform writer plan object := by
  intro block column entry renders
  obtain ⟨record, inBlock, found⟩ := renders.stored
  obtain ⟨_, blockRows, _, located, _, _⟩ := id inBlock
  obtain ⟨row, rowIn, pair⟩ := (inBlock_iff finished located).mp inBlock
  have paired : column.pair = (column.name, .str) := Prod.ext rfl renders.text
  have within : block ∈ List.range object.blocks.length := mem_range.mpr (List.getElem?_eq_some_iff.mp located).1
  rw [← posted_iff_shown finished renders.columnIn paired renders.answered]
  by_contra unposted
  -- The scan without a content arm keeps the block until the prune arm drops it.
  have kept : survives platform object (.and []) [] block := survives_of_passing finished located rowIn rfl []
  have dropped := (postingsKeep_pruneArm finished column.name (attrValueToString platform entry.2) block).mpr
    ⟨column, renders.columnIn, paired, renders.alone, renders.answered, unposted⟩
  refine widens (.and []) [] column.name (attrValueToString platform entry.2) block ?_ ?_ blockRows located row rowIn _
    (finished.mergedView_row pair) entry found rfl
  · rw [scanBlocks_eq finished]
    exact mem_filter.mpr ⟨within, kept⟩
  · rw [scanBlocks_eq finished, mem_filter, survives_append, dropped]
    simp

theorem pruneWidens_of_renderedPosted (posted : RenderedPosted platform writer plan object) : PruneWidens platform object := by
  rintro content prune name text block kept dropped blockRows located row rowIn view read entry found rfl
  obtain ⟨record, pair⟩ := finished.record_of_row (Finished.mem_rows_of_block located rowIn)
  rw [finished.mergedView_row pair] at read
  cases read
  rw [scanBlocks_eq finished, mem_filter] at kept dropped
  have unkept : postingsKeep object (object.prunePostingsArms [pruneArm name (attrValueToString platform entry.2)]) block =
      false := by
    rw [survives_append, kept.2, Bool.true_and] at dropped
    simpa [kept.1] using dropped
  obtain ⟨column, columnIn, paired, alone, answered, unposted⟩ := (postingsKeep_pruneArm finished name _ block).mp unkept
  have inBlock : InBlock platform writer plan object block record :=
    (inBlock_iff finished located).mpr ⟨row, rowIn, pair⟩
  apply unposted
  by_cases isText : (resolveValue entry.2).1 = .str
  · obtain ⟨text, value⟩ := str_of_resolveValue isText
    have whole : entry = (name, .str text) := Prod.ext (resolveName_name found) value
    rw [whole] at found ⊢
    exact posted_of_resolved finished columnIn paired answered inBlock found
  · have columnName : column.name = name := congrArg Prod.fst paired
    subst columnName
    rw [posted_iff_shown finished columnIn paired answered]
    exact posted block column entry
      ⟨columnIn, congrArg Prod.snd paired, alone, answered, ⟨record, inBlock, found⟩, isText⟩

theorem renderedPosted_of_texts
    (texts : ∀ record ∈ writer.records, ∀ name ∈ writer.indexedFields, ∀ attr ∈ record.attrs ++ pairsOf plan.pairs record.streamId, attr.1 = name → (resolveValue attr.2).1 = .str) :
    RenderedPosted platform writer plan object := by
  intro block column entry renders
  obtain ⟨record, inBlock, found⟩ := renders.stored
  obtain ⟨_, probed⟩ := Option.isSome_iff_exists.mp renders.answered
  have indexed := finished.indexed_of_probe renders.columnIn probed
  have own := texts record inBlock.1 column.name indexed
  exfalso
  apply renders.other
  have shown := resolved_mem_shownValues found
  have layered : ∀ pair ∈ (pairsOf plan.pairs record.streamId).filter (named column.name),
      (resolveValue pair.2).1 = .str := by
    intro pair pairIn
    obtain ⟨member, passes⟩ := mem_filter.mp pairIn
    exact own pair (mem_append_right _ member) (of_decide_eq_true passes)
  rw [shownValues] at shown
  split at shown
  · rename_i last lastIs
    rcases mem_cons.mp shown with rfl | later
    · obtain ⟨attr, attrIn, attrNamed, same⟩ := source_of_lastPassing lastIs
      have sameType : (resolveValue entry.2).1 = (resolveValue attr.2).1 := congrArg ViewEntry.ty same
      rw [sameType]
      exact own attr (mem_append_left _ attrIn) (of_decide_eq_true attrNamed)
    · exact layered entry (mem_of_mem_tail later)
  · exact layered entry shown

end

end Prunes

/-- The prune channel only widens exactly when every block shows, as a string, each text that it renders from a value of
another type under an uncapped string column without a sibling. -/
theorem pruneWidens_iff (platform : Platform) (writer : RlogWriter) (plan : Layout) (object : RlogObject)
    (planned : writer.layout = .ok plan) (wrote : writer.finish platform = .ok object) :
    PruneWidens platform object ↔ RenderedPosted platform writer plan object := by
  obtain ⟨rows, finished⟩ := finished_of_layout planned wrote
  exact ⟨renderedPosted_of_pruneWidens finished, pruneWidens_of_renderedPosted finished⟩

/-- The prune channel of an object with string values only widens. -/
theorem pruneWidens_sample : ∃ plan object, stampedWriter.layout = .ok plan ∧
    stampedWriter.finish samplePlatform = .ok object ∧ RenderedPosted samplePlatform stampedWriter plan object ∧
      PruneWidens samplePlatform object := by
  have sampled : (stampedWriter.finish samplePlatform).toOption.any fun object => object.blocks[0]?.isSome := by
    decide +kernel
  obtain ⟨object, wrote, _⟩ := exists_finished sampled
  obtain ⟨plan, planned, _⟩ := ok_of_bind wrote
  obtain ⟨rows, finished⟩ := finished_of_layout planned wrote
  have posted : RenderedPosted samplePlatform stampedWriter plan object := by
    apply renderedPosted_of_texts finished
    have texts : stampedWriter.records.all fun record => stampedWriter.indexedFields.all fun name =>
        (streamAttrPairs record.streamAttrs).toOption.any fun pairs =>
          (record.attrs ++ pairs).all fun attr => attr.1 ≠ name || (resolveValue attr.2).1 = .str := by
      decide +kernel
    intro record recordIn name indexed attr attrIn attrName
    have own := all_eq_true.mp (all_eq_true.mp texts record recordIn) name indexed
    rw [finished.planned.pairs record recordIn] at own
    have checked := all_eq_true.mp own attr attrIn
    simpa [attrName] using checked
  exact ⟨plan, object, planned, wrote, posted,
    (pruneWidens_iff samplePlatform stampedWriter plan object planned wrote).mpr posted⟩

/-- Two records with the same indexed name, a string and an integer, in an object with one column. -/
def unlistedTypeWriter : RlogWriter where
  cfg := sampleConfig 1
  records := [sampleRecord [("k", .str "x")], sampleRecord [("k", .i64 5)]]
  indexedFields := ["k"]
  keyIndexFields := []
  bloomScope := .text
  cluster := none
  fits := by decide +kernel

/-- The prune arm drops the block of a row whose merged view renders the name as the text. -/
theorem prune_drops_rendered_integer : ∃ object, unlistedTypeWriter.finish samplePlatform = .ok object ∧
    0 ∈ object.scanBlocks samplePlatform (.and []) [] ∧
      0 ∉ object.scanBlocks samplePlatform (.and []) [pruneArm "k" "5"] ∧
        ∃ blockRows, object.blocks[0]? = some blockRows ∧ ∃ row ∈ blockRows, ∃ view entry,
          object.mergedView row = .ok view ∧ resolveName view "k" = some entry ∧
            attrValueToString samplePlatform entry.2 = "5" := by
  have sampled : (unlistedTypeWriter.finish samplePlatform).toOption.any (fun object =>
      (object.scanBlocks samplePlatform (.and []) []).contains 0 &&
        !(object.scanBlocks samplePlatform (.and []) [pruneArm "k" "5"]).contains 0 &&
          (object.blocks[0]?).any fun blockRows => blockRows.any fun row => (object.mergedView row).toOption.any fun view =>
            (resolveName view "k").any fun entry => attrValueToString samplePlatform entry.2 == "5") := by
    decide +kernel
  obtain ⟨object, wrote, tested⟩ := exists_finished sampled
  simp only [Bool.and_eq_true, contains_iff_mem, Bool.not_eq_true', ← Bool.not_eq_true] at tested
  obtain ⟨⟨kept, dropped⟩, inBlock⟩ := tested
  obtain ⟨blockRows, located, inRows⟩ := (Option.any_eq_true _ _).mp inBlock
  obtain ⟨row, rowIn, viewed⟩ := any_eq_true.mp inRows
  obtain ⟨view, read, resolved⟩ := (Option.any_eq_true _ _).mp viewed
  obtain ⟨entry, found, rendered⟩ := (Option.any_eq_true _ _).mp resolved
  exact ⟨object, wrote, kept, dropped, blockRows, located, row, rowIn, view, entry, ok_of_toOption read, found,
    eq_of_beq rendered⟩

end Ravel.Logs
