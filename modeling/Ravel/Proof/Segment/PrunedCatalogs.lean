import Ravel.Proof.Segment.LabelOrdinals

namespace Ravel.Segment

open List Codec Logs Library

section Schemas

variable {count : Nat} {bytes rest : Bytes} {Input Value : Type}
  {read : Input → Bytes → Except SegmentError (Value × Bytes)} {holds : Input → Value → Prop} {inputs : List Input}
  {values : List Value}

/-- The names of a schema ascend, so that none repeats. -/
theorem nodup_readNameOrds {dict : List Bytes} {previous : Option Bytes} {ords : Schema}
    (read : readNameOrds dict count previous bytes = .ok (ords, rest)) :
    ords.Nodup ∧ ∀ ord ∈ ords, ∃ name, dict[ord.toNat]? = some name ∧ ∀ earlier ∈ previous, earlier < name := by
  induction count generalizing previous bytes rest ords with
  | zero =>
    cases read
    exact ⟨nodup_nil, fun _ member => absurd member not_mem_nil⟩
  | succ count ih =>
    obtain ⟨⟨ord, afterOrd⟩, _, read⟩ := ok_of_bind read
    dsimp only at read
    cases stored : dict[ord.toNat]? with
    | none =>
      rw [stored] at read
      cases read
    | some name =>
      rw [stored] at read
      dsimp only at read
      obtain ⟨ascends, read⟩ := ok_of_guard read
      obtain ⟨⟨later, afterLater⟩, isLater, returned⟩ := ok_of_bind read
      cases returned
      obtain ⟨distinct, above⟩ := ih isLater
      have atName : ∀ earlier ∈ previous, earlier < name := by
        intro earlier isPrevious
        rw [Option.mem_def.mp isPrevious] at ascends
        simpa using ascends
      constructor
      · apply nodup_cons.mpr
        refine ⟨fun again => ?_, distinct⟩
        obtain ⟨other, isOther, after⟩ := above ord again
        rw [stored] at isOther
        cases isOther
        exact List.lt_irrefl _ (after name rfl)
      · intro other member
        rcases mem_cons.mp member with rfl | inLater
        · exact ⟨name, stored, atName⟩
        · obtain ⟨otherName, isOther, after⟩ := above other inLater
          exact ⟨otherName, isOther, fun earlier isPrevious =>
            List.lt_trans (atName earlier isPrevious) (after name rfl)⟩

theorem forall₂_of_readEach
    (each : ∀ input bytes value rest, read input bytes = .ok (value, rest) → holds input value)
    (all : readEach read inputs bytes = .ok (values, rest)) : Forall₂ holds inputs values := by
  induction inputs generalizing bytes values with
  | nil =>
    cases all
    exact .nil
  | cons input inputs ih =>
    obtain ⟨⟨value, afterValue⟩, isValue, all⟩ := ok_of_bind all
    obtain ⟨⟨later, afterLater⟩, isLater, returned⟩ := ok_of_bind all
    cases returned
    exact .cons (each _ _ _ _ isValue) (ih isLater)

theorem forall₂_of_blockOf (each : ∀ input bytes value rest, read input bytes = .ok (value, rest) → holds input value)
    (all : blockOf read inputs bytes = .ok (values, rest)) : Forall₂ holds inputs values := by
  obtain ⟨⟨block, afterBlock⟩, _, all⟩ := ok_of_bind all
  obtain ⟨⟨found, left⟩, isFound, all⟩ := ok_of_bind all
  dsimp only at isFound all
  split at all
  · cases all
    exact forall₂_of_readEach each isFound
  · cases all

/-- A property of each value alone. -/
theorem forall_of_units {holds : Value → Prop}
    (related : Forall₂ (fun _ value => holds value) (units count) values) : ∀ value ∈ values, holds value := by
  intro value member
  obtain ⟨index, inside, rfl⟩ := mem_iff_getElem.mp member
  exact related.get (related.length_eq ▸ inside) inside

theorem nodup_parseSchemaList {dict : List Bytes} {schemas : List Schema}
    (parsed : parseSchemaList dict bytes = .ok (count, schemas, rest)) : ∀ schema ∈ schemas, schema.Nodup := by
  obtain ⟨⟨series, afterCount⟩, _, parsed⟩ := ok_of_bind parsed
  obtain ⟨⟨schemaCount, afterSchemaCount⟩, _, parsed⟩ := ok_of_bind parsed
  obtain ⟨⟨read, afterSchemas⟩, isRead, returned⟩ := ok_of_bind parsed
  cases returned
  have each : ∀ (_ : Unit) bytes schema rest, readSchema dict bytes = .ok (schema, rest) → schema.Nodup := by
    intro _ bytes schema rest isSchema
    obtain ⟨⟨names, afterNames⟩, _, isSchema⟩ := ok_of_bind isSchema
    dsimp only at isSchema
    obtain ⟨-, isSchema⟩ := ok_of_guard isSchema
    exact (nodup_readNameOrds isSchema).1
  exact forall_of_units (forall₂_of_readEach each isRead)

theorem lt_parseSchemaRefBlock {schemaCount : Nat} {refs : List Nat}
    (parsed : parseSchemaRefBlock count schemaCount bytes = .ok (refs, rest)) : ∀ ref ∈ refs, ref < schemaCount := by
  have each : ∀ (_ : Unit) bytes ref rest, readSchemaRef schemaCount bytes = .ok (ref, rest) → ref < schemaCount := by
    intro _ bytes ref rest isRef
    obtain ⟨⟨word, afterWord⟩, _, isRef⟩ := ok_of_bind isRef
    dsimp only at isRef
    split at isRef
    · rename_i inside
      cases isRef
      exact inside
    · cases isRef
  exact forall_of_units (forall₂_of_blockOf each parsed)

end Schemas

section Rows

/-- The labels of a series have every wanted pair. -/
def SeriesEntry.hasPairs (equals : List (String × String)) (entry : SeriesEntry) : Bool :=
  equals.all fun pair => pair ∈ entry.labels.labels

variable {pairs : List (String × String)} {labels : Promql.LabelSet} {refs : List Nat} {ref : Nat}

theorem mem_newLabelSet (made : newLabelSet pairs = .ok labels) (pair : String × String) :
    pair ∈ labels.labels ↔ pair ∈ pairs := by
  unfold newLabelSet Promql.LabelSet.new at made
  dsimp only at made
  by_cases ascending : (pairs.insertionSort fun first second => first.1 ≤ second.1).Pairwise fun first second => first.1 < second.1
  · rw [dif_pos ascending] at made
    cases made
    exact (perm_insertionSort _ pairs).mem_iff
  · rw [dif_neg ascending] at made
    cases made

theorem hasPairs_entry (made : newLabelSet pairs = .ok labels) (equals : List (String × String)) (row : SeriesRow)
    (bounds : Nat × Int64 × Int64) :
    (row.entry labels bounds).hasPairs equals = true ↔ ∀ pair ∈ equals, pair ∈ pairs := by
  rw [SeriesEntry.hasPairs, all_eq_true]
  show (∀ pair ∈ equals, decide (pair ∈ labels.labels) = true) ↔ _
  simp only [decide_eq_true_eq, mem_newLabelSet made]

/-- A test on the ordinals of a series decides whether its labels have every wanted pair. -/
def Decides (dict : List Bytes) (schemas : List Schema) (equals : List (String × String))
    (keep : Schema → List UInt64 → Bool) : Prop :=
  ∀ schema ∈ schemas, ∀ values pairs, labelPairs dict schema values = .ok pairs →
    (keep schema values = true ↔ ∀ pair ∈ equals, pair ∈ pairs)

theorem decides_ordinalsMatch {dict : List Bytes} (isDict : IsLabelDict dict) {schemas : List Schema}
    (distinct : ∀ schema ∈ schemas, schema.Nodup) {equals : List (String × String)} {wanted : List (UInt64 × UInt64)}
    (ordinals : Forall₂ (HasOrdinals dict) equals wanted) : Decides dict schemas equals (ordinalsMatch wanted) := by
  intro schema member values pairs resolved
  exact ordinalsMatch_iff isDict (distinct schema member) resolved ordinals

/-- The test of a series whose schema is read, with the names of the schema first. -/
def plausibleMatch (likely : Schema → Bool) (wanted : List (UInt64 × UInt64)) (schema : Schema) (values : List UInt64) : Bool :=
  likely schema && ordinalsMatch wanted schema values

/-- The value ordinals that the selective read keeps. -/
def maskedValues (likely : List Bool) (refs : List Nat) (values : List (List UInt64)) : List (Option (List UInt64)) :=
  List.zipWith (fun ref own => if (likely[ref]?).getD false then some own else none) refs values

theorem readEach_map {Input Value Kept : Type} (read : Input → Bytes → Except SegmentError (Value × Bytes))
    (keep : Input → Value → Kept) {inputs : List Input} {bytes rest : Bytes} {values : List Value}
    (all : readEach read inputs bytes = .ok (values, rest)) :
    readEach (fun input bytes => do
        let (value, rest) ← read input bytes
        return (keep input value, rest)) inputs bytes = .ok (List.zipWith keep inputs values, rest) := by
  induction inputs generalizing bytes values with
  | nil =>
    cases all
    rfl
  | cons input inputs ih =>
    obtain ⟨⟨value, afterValue⟩, isValue, all⟩ := ok_of_bind all
    obtain ⟨⟨later, afterLater⟩, isLater, returned⟩ := ok_of_bind all
    cases returned
    rw [readEach, isValue]
    apply bind_eq_ok.mpr
    refine ⟨(keep input value, afterValue), rfl, ?_⟩
    dsimp only
    rw [ih isLater]
    rfl

theorem parseValueOrdBlockSelective_of_all {schemas : List Schema} {bytes rest : Bytes} {flat : List UInt64}
    (likely : List Bool) (read : parseValueOrdBlockAll refs schemas bytes = .ok (flat, rest)) :
    ∃ values, flat = values.flatten ∧
      Forall₂ (fun ref own => own.length = (schemaAt schemas ref).length) refs values ∧
      parseValueOrdBlockSelective refs schemas likely bytes = .ok (maskedValues likely refs values, rest) := by
  obtain ⟨⟨values, afterValues⟩, isValues, returned⟩ := ok_of_bind read
  cases returned
  have lengths : ∀ ref bytes own rest, readUvarints (schemaAt schemas ref).length bytes = .ok (own, rest) →
      own.length = (schemaAt schemas ref).length := by
    intro ref bytes own rest isOwn
    have related := forall₂_of_readEach (fun _ _ _ _ _ => trivial) isOwn
    rw [← related.length_eq, units, length_replicate]
  refine ⟨values, rfl, forall₂_of_blockOf lengths isValues, ?_⟩
  obtain ⟨⟨block, afterBlock⟩, isBlock, isValues⟩ := ok_of_bind isValues
  obtain ⟨⟨found, left⟩, isFound, isValues⟩ := ok_of_bind isValues
  dsimp only at isFound isValues
  split at isValues
  · rename_i exhausted
    cases isValues
    have selective : readEach (readPlausible schemas likely) refs block = .ok (maskedValues likely refs values, left) :=
      readEach_map _ (fun ref own => if (likely[ref]?).getD false then some own else none) isFound
    rw [parseValueOrdBlockSelective, blockOf]
    apply bind_eq_ok.mpr
    refine ⟨_, isBlock, bind_eq_ok.mpr ⟨_, selective, ?_⟩⟩
    dsimp only
    rw [if_pos exhausted]
    rfl
  · cases isValues

theorem getD_map_plausible {schemas : List Schema} (likely : Schema → Bool) (inside : ref < schemas.length) :
    (((schemas.map likely)[ref]?).getD false) = likely (schemaAt schemas ref) := by
  rw [schemaAt, getElem?_map, getElem?_eq_getElem inside]
  rfl

theorem schemaAt_mem {schemas : List Schema} (inside : ref < schemas.length) : schemaAt schemas ref ∈ schemas := by
  rw [schemaAt, getElem?_eq_getElem inside]
  exact getElem_mem inside

/-- Every row is read past, and the rows that pass the test make the filtered entries. -/
theorem decodeMatchingRows_of_all {dict : List Bytes} {schemas : List Schema} {equals : List (String × String)}
    {likely : Schema → Bool} {wanted : List (UInt64 × UInt64)}
    (decides : Decides dict schemas equals (plausibleMatch likely wanted)) {values : List (List UInt64)}
    (lengths : Forall₂ (fun ref own => own.length = (schemaAt schemas ref).length) refs values)
    (inside : ∀ ref ∈ refs, ref < schemas.length) {ids : List Bytes} {columns : List (ValueKind × Nat)}
    {cursor : MetaCursor} {entries : List SeriesEntry}
    (all : decodeRows dict schemas (ids.zip (refs.zip columns)) values.flatten cursor = .ok entries) :
    decodeMatchingRows dict schemas wanted (ids.zip (refs.zip columns)) (maskedValues (schemas.map likely) refs values)
        cursor = .ok (entries.filter (SeriesEntry.hasPairs equals)) := by
  induction lengths generalizing ids columns cursor entries with
  | nil =>
    rw [zip_nil_left, zip_nil_right] at all ⊢
    cases all
    rfl
  | @cons ref own refs values length _ ih =>
    cases ids with
    | nil =>
      cases all
      rfl
    | cons seriesId ids =>
      cases columns with
      | nil =>
        cases all
        rfl
      | cons column columns =>
        obtain ⟨kind, runCount⟩ := column
        obtain ⟨entry, isEntry, all⟩ := ok_of_bind all
        obtain ⟨later, isLater, returned⟩ := ok_of_bind all
        cases returned
        rw [flatten_cons, ← length, take_left] at isEntry
        rw [flatten_cons, ← length, drop_left] at isLater
        have refInside := inside ref mem_cons_self
        have rest := ih (fun other member => inside other (mem_cons_of_mem _ member)) isLater
        obtain ⟨pairs, isPairs, built⟩ := ok_of_bind isEntry
        obtain ⟨labels, isLabels, built⟩ := ok_of_bind built
        obtain ⟨bounds, isBounds, built⟩ := ok_of_bind built
        have passes := decides _ (schemaAt_mem refInside) own pairs isPairs
        rw [← hasPairs_entry isLabels equals _ bounds, Except.ok.inj built] at passes
        rw [filter_cons, maskedValues, zipWith_cons_cons, getD_map_plausible likely refInside]
        show decodeMatchingRows dict schemas wanted ((seriesId, ref, kind, runCount) :: ids.zip (refs.zip columns))
          ((if likely (schemaAt schemas ref) then some own else none) ::
            maskedValues (schemas.map likely) refs values) cursor = _
        by_cases isPlausible : likely (schemaAt schemas ref) = true
        · rw [if_pos isPlausible, decodeMatchingRows]
          rw [plausibleMatch, isPlausible, Bool.true_and] at passes
          by_cases matched : ordinalsMatch wanted (schemaAt schemas ref) own = true
          · rw [if_pos (passes.mp matched), if_pos matched, isEntry]
            apply bind_eq_ok.mpr
            exact ⟨_, rfl, bind_eq_ok.mpr ⟨_, rest, rfl⟩⟩
          · rw [if_neg fun has => matched (passes.mpr has), if_neg matched]
            exact rest
        · rw [if_neg isPlausible, decodeMatchingRows]
          have failed : ¬entry.hasPairs equals = true := by
            intro has
            exact isPlausible (Bool.and_eq_true_iff.mp (passes.mpr has)).1
          rw [if_neg failed]
          exact rest

/-- When a text is not in the dictionary, no series has every wanted pair. -/
theorem decides_none {dict : List Bytes} {schemas : List Schema} {equals : List (String × String)} (lacks : LacksText dict equals)
    (wanted : List (UInt64 × UInt64)) : Decides dict schemas equals (plausibleMatch (fun _ => false) wanted) := by
  intro schema _ values pairs resolved
  constructor
  · intro impossible
    cases impossible
  · intro every
    exact absurd every (lacks.absent resolved)

theorem decides_plausible {dict : List Bytes} {schemas : List Schema} {equals : List (String × String)}
    {wanted : List (UInt64 × UInt64)} (decides : Decides dict schemas equals (ordinalsMatch wanted)) :
    Decides dict schemas equals (plausibleMatch (schemaPlausible wanted) wanted) := by
  intro schema member values pairs resolved
  rw [← decides schema member values pairs resolved, plausibleMatch, Bool.and_eq_true_iff]
  exact ⟨And.right, fun matched => ⟨schemaPlausible_of_ordinalsMatch matched, matched⟩⟩

/-- The schemas that the whole-section decoder reads for, as a test of each. -/
theorem exists_plausible {dict : List Bytes} (isDict : IsLabelDict dict) {schemas : List Schema}
    (distinct : ∀ schema ∈ schemas, schema.Nodup) (equals : List (String × String)) :
    ∃ likely : Schema → Bool,
      (if (matcherOrds dict equals).2 then schemas.map (schemaPlausible (matcherOrds dict equals).1)
        else List.replicate schemas.length false) = schemas.map likely ∧
      Decides dict schemas equals (plausibleMatch likely (matcherOrds dict equals).1) := by
  rcases matcherOrds_spec isDict equals with ⟨all, ordinals⟩ | ⟨notAll, lacks⟩
  · refine ⟨schemaPlausible (matcherOrds dict equals).1, ?_, ?_⟩
    · rw [all, if_pos rfl]
    · exact decides_plausible (decides_ordinalsMatch isDict distinct ordinals)
  · refine ⟨fun _ => false, ?_, ?_⟩
    · rw [notAll, if_neg Bool.false_ne_true, map_const']
    · exact decides_none lacks _

end Rows

section WholeSections

variable {primitives : SectionPrimitives} {footer : Footer} {limits : ReaderLimits} {equals : List (String × String)}

theorem isLabelDict_of_wholeSections {labelDictBytes seriesIdsBytes seriesMetaBytes : Bytes} {dict ids : List Bytes} {metaBytes : Bytes}
    (decoded : decodeWholeSections primitives footer labelDictBytes seriesIdsBytes seriesMetaBytes limits =
      .ok (dict, ids, metaBytes)) : IsLabelDict dict := by
  obtain ⟨_, _, decoded⟩ := ok_of_bind decoded
  obtain ⟨_, _, decoded⟩ := ok_of_bind decoded
  obtain ⟨_, _, decoded⟩ := ok_of_bind decoded
  obtain ⟨_, _, decoded⟩ := ok_of_bind decoded
  obtain ⟨_, _, decoded⟩ := ok_of_bind decoded
  obtain ⟨_, _, decoded⟩ := ok_of_bind decoded
  obtain ⟨own, isDict, decoded⟩ := ok_of_bind decoded
  obtain ⟨_, _, returned⟩ := ok_of_bind decoded
  cases returned
  exact isLabelDict_of_index isDict

theorem decodeCatalogMatchingV4_of_all {labelDictBytes seriesIdsBytes seriesMetaBytes : Bytes} {entries : List SeriesEntry}
    (all : decodeCatalogV4 primitives footer labelDictBytes seriesIdsBytes seriesMetaBytes limits = .ok entries) :
    decodeCatalogMatchingV4 primitives footer labelDictBytes seriesIdsBytes seriesMetaBytes equals limits =
      .ok (entries.filter (SeriesEntry.hasPairs equals)) := by
  obtain ⟨⟨dict, ids, metaBytes⟩, isSections, all⟩ := ok_of_bind all
  have isDict := isLabelDict_of_wholeSections isSections
  obtain ⟨⟨count, schemas, afterSchemas⟩, isSchemas, all⟩ := ok_of_bind all
  obtain ⟨⟨⟩, isCounts, all⟩ := ok_of_bind all
  obtain ⟨⟨runTotal, afterTotal⟩, isTotal, all⟩ := ok_of_bind all
  obtain ⟨⟨refs, afterRefs⟩, isRefs, all⟩ := ok_of_bind all
  obtain ⟨⟨flat, afterValues⟩, isFlat, all⟩ := ok_of_bind all
  obtain ⟨tail, isTail, all⟩ := ok_of_bind all
  obtain ⟨⟨⟩, isPages, all⟩ := ok_of_bind all
  obtain ⟨likely, isPlausible, decides⟩ := exists_plausible isDict (nodup_parseSchemaList isSchemas) equals
  obtain ⟨values, rfl, lengths, isSelective⟩ := parseValueOrdBlockSelective_of_all (schemas.map likely) isFlat
  have rows := decodeMatchingRows_of_all decides lengths (lt_parseSchemaRefBlock isRefs) all
  rw [← isPlausible] at isSelective rows
  rw [decodeCatalogMatchingV4]
  apply bind_eq_ok.mpr
  refine ⟨_, isSections, bind_eq_ok.mpr ⟨_, isSchemas, bind_eq_ok.mpr ⟨_, isCounts, bind_eq_ok.mpr ⟨_, isTotal, ?_⟩⟩⟩⟩
  apply bind_eq_ok.mpr
  refine ⟨_, isRefs, bind_eq_ok.mpr ⟨_, isSelective, bind_eq_ok.mpr ⟨_, isTail, bind_eq_ok.mpr ⟨_, isPages, ?_⟩⟩⟩⟩
  exact rows

end WholeSections

section Chunks

variable {primitives : SectionPrimitives} {footer : Footer} {limits : ReaderLimits} {equals : List (String × String)}
  {dict : List Bytes} {schemas : List Schema} {wanted : List (UInt64 × UInt64)}

variable {schema : Schema} {values : List UInt64} {entries : List SeriesEntry}

/-- The labels of a series that is kept are made, and those of another are resolved. -/
theorem frameLabels_of_kept {labels : Promql.LabelSet}
    (kept : frameLabels dict true schema values = .ok (some labels)) (keep : Bool) :
    frameLabels dict keep schema values = .ok (if keep then some labels else none) := by
  cases keep with
  | true => exact kept
  | false =>
    obtain ⟨pairs, isPairs, _⟩ := ok_of_bind kept
    exact bind_eq_ok.mpr ⟨pairs, isPairs, rfl⟩

/-- The full decode makes the labels of every series. -/
theorem exists_frameLabels {labels : Option Promql.LabelSet} (kept : frameLabels dict true schema values = .ok labels) :
    ∃ pairs own, labelPairs dict schema values = .ok pairs ∧ newLabelSet pairs = .ok own ∧ labels = some own := by
  obtain ⟨pairs, isPairs, kept⟩ := ok_of_bind kept
  obtain ⟨own, isOwn, returned⟩ := ok_of_bind kept
  exact ⟨pairs, own, isPairs, isOwn, (Except.ok.inj returned).symm⟩

/-- The frame is read past in both decodes alike, and the kept series are the filtered ones. -/
theorem decodeFrameRows_of_all (decides : Decides dict schemas equals (ordinalsMatch wanted))
    {rows : List (Nat × ValueKind × Nat)} {left : List UInt64} {cursor : MetaCursor} {ids remaining : List Bytes}
    (all : decodeFrameRows dict schemas none rows values cursor ids = .ok (entries, left, remaining)) :
    decodeFrameRows dict schemas (some wanted) rows values cursor ids =
      .ok (entries.filter (SeriesEntry.hasPairs equals), left, remaining) := by
  induction rows generalizing values cursor ids entries with
  | nil =>
    cases all
    rfl
  | cons row rows ih =>
    obtain ⟨ref, kind, runCount⟩ := row
    rw [decodeFrameRows] at all ⊢
    cases isSchema : schemas[ref]? with
    | none =>
      rw [isSchema] at all
      cases all
    | some schema =>
      rw [isSchema] at all
      dsimp only at all ⊢
      by_cases short : values.length < schema.length
      · rw [if_pos short] at all
        cases all
      · rw [if_neg short] at all ⊢
        obtain ⟨labels, isLabels, all⟩ := ok_of_bind all
        obtain ⟨pairs, own, isPairs, isOwn, rfl⟩ := exists_frameLabels isLabels
        obtain ⟨bounds, isBounds, all⟩ := ok_of_bind all
        cases ids with
        | nil => cases all
        | cons seriesId ids =>
          obtain ⟨⟨later, afterValues, afterIds⟩, isLater, returned⟩ := ok_of_bind all
          cases returned
          have kept := frameLabels_of_kept isLabels (keepsSeries (some wanted) schema (values.take schema.length))
          apply bind_eq_ok.mpr
          refine ⟨_, kept, bind_eq_ok.mpr ⟨_, isBounds, bind_eq_ok.mpr ⟨_, ih isLater, ?_⟩⟩⟩
          have passes := decides schema (mem_of_getElem? isSchema) _ pairs isPairs
          rw [← keepsSeries_some, ← hasPairs_entry isOwn equals] at passes
          show Except.ok (_, _, _) = Except.ok (List.filter _ (_ :: later), _, _)
          rw [filter_cons]
          by_cases keep : keepsSeries (some wanted) schema (values.take schema.length) = true
          · rw [if_pos keep, if_pos (passes.mp keep)]
            rfl
          · rw [if_neg keep, if_neg fun has => keep (passes.mpr has)]
            rfl

theorem decodeChunks_of_all (decides : Decides dict schemas equals (ordinalsMatch wanted)) {chunkBytes : Bytes}
    {chunks : List ChunkDirEntry} {start total : Nat} {ids remaining : List Bytes}
    (all : decodeChunks primitives footer limits chunkBytes dict schemas none chunks start ids = .ok (entries, total, remaining)) :
    decodeChunks primitives footer limits chunkBytes dict schemas (some wanted) chunks start ids =
      .ok (entries.filter (SeriesEntry.hasPairs equals), total, remaining) := by
  induction chunks generalizing start ids entries with
  | nil =>
    cases all
    rfl
  | cons chunk chunks ih =>
    rw [decodeChunks] at all ⊢
    obtain ⟨frame, isFrame, all⟩ := ok_of_bind all
    apply bind_eq_ok.mpr
    refine ⟨frame, isFrame, ?_⟩
    dsimp only at all ⊢
    obtain ⟨fits, all⟩ := ok_of_guard all
    rw [if_neg fits]
    obtain ⟨⟨own, left, afterFrame⟩, isOwn, all⟩ := ok_of_bind all
    apply bind_eq_ok.mpr
    refine ⟨_, decodeFrameRows_of_all decides isOwn, ?_⟩
    dsimp only at all ⊢
    obtain ⟨exhausted, all⟩ := ok_of_guard all
    rw [if_neg exhausted]
    obtain ⟨⟨later, total, afterAll⟩, isLater, returned⟩ := ok_of_bind all
    cases returned
    apply bind_eq_ok.mpr
    refine ⟨_, ih isLater, ?_⟩
    rw [filter_append]
    rfl

theorem decodeAfterDict_of_all {sections : ChunkedSections}
    {dictBytes seriesIdsStored seriesIdxStored metaChunksStored : Bytes}
    (indexed : indexLabelDict dictBytes = .ok dict) (resolved : resolveEquals dict equals = some wanted)
    (all : decodeAfterDict primitives footer sections dictBytes seriesIdsStored seriesIdxStored metaChunksStored none limits = .ok entries) :
    decodeAfterDict primitives footer sections dictBytes seriesIdsStored seriesIdxStored metaChunksStored (some wanted) limits =
      .ok (entries.filter (SeriesEntry.hasPairs equals)) := by
  have isDict := isLabelDict_of_index indexed
  obtain ⟨idsBytes, isIdsBytes, all⟩ := ok_of_bind all
  obtain ⟨own, isOwn, all⟩ := ok_of_bind all
  cases (indexed.symm.trans isOwn)
  obtain ⟨ids, isIds, all⟩ := ok_of_bind all
  obtain ⟨idxBytes, isIdxBytes, all⟩ := ok_of_bind all
  obtain ⟨chunkBytes, isChunkBytes, all⟩ := ok_of_bind all
  obtain ⟨index, isIndex, all⟩ := ok_of_bind all
  obtain ⟨⟨count, schemas, afterSchemas⟩, isSchemas, all⟩ := ok_of_bind all
  obtain ⟨⟨⟩, isCounts, all⟩ := ok_of_bind all
  obtain ⟨⟨runTotal, afterTotal⟩, isTotal, all⟩ := ok_of_bind all
  obtain ⟨⟨kept, total, remaining⟩, isKept, all⟩ := ok_of_bind all
  have decides := decides_ordinalsMatch isDict (nodup_parseSchemaList isSchemas) (resolveEquals_some isDict resolved)
  rw [decodeAfterDict]
  apply bind_eq_ok.mpr
  refine ⟨_, isIdsBytes, bind_eq_ok.mpr ⟨_, indexed, bind_eq_ok.mpr ⟨_, isIds, bind_eq_ok.mpr ⟨_, isIdxBytes, ?_⟩⟩⟩⟩
  apply bind_eq_ok.mpr
  refine ⟨_, isChunkBytes, bind_eq_ok.mpr ⟨_, isIndex, bind_eq_ok.mpr ⟨_, isSchemas, bind_eq_ok.mpr ⟨_, isCounts, ?_⟩⟩⟩⟩
  apply bind_eq_ok.mpr
  refine ⟨_, isTotal, bind_eq_ok.mpr ⟨_, decodeChunks_of_all decides isKept, ?_⟩⟩
  dsimp only at all ⊢
  obtain ⟨counted, all⟩ := ok_of_guard all
  rw [if_neg counted]
  obtain ⟨exhausted, all⟩ := ok_of_guard all
  rw [if_neg exhausted]
  cases all
  rfl

end Chunks

section Unresolved

variable {primitives : SectionPrimitives} {footer : Footer} {limits : ReaderLimits} {equals : List (String × String)}
  {dict : List Bytes} {schemas : List Schema}

/-- The labels of an entry come from ordinals of the dictionary. -/
def FromDict (dict : List Bytes) (entry : SeriesEntry) : Prop :=
  ∃ schema values pairs, labelPairs dict schema values = .ok pairs ∧ newLabelSet pairs = .ok entry.labels

variable {entry : SeriesEntry} {entries : List SeriesEntry} {values : List UInt64} {cursor : MetaCursor}
  {dictBytes seriesIdsStored seriesIdxStored metaChunksStored labelDictStored : Bytes} {labelDict : Section}

theorem FromDict.lacks (fromDict : FromDict dict entry) (lacks : LacksText dict equals) :
    ¬entry.hasPairs equals = true := by
  obtain ⟨schema, values, pairs, resolved, made⟩ := fromDict
  intro has
  apply lacks.absent resolved
  intro pair member
  have inLabels := all_eq_true.mp has pair member
  exact (mem_newLabelSet made pair).mp (of_decide_eq_true inLabels)

theorem filter_of_lacks (fromDict : ∀ entry ∈ entries, FromDict dict entry) (lacks : LacksText dict equals) :
    entries.filter (SeriesEntry.hasPairs equals) = [] := by
  apply filter_eq_nil_iff.mpr
  intro entry member
  exact (fromDict entry member).lacks lacks

theorem fromDict_buildEntry {row : SeriesRow} (built : buildEntry dict row values = .ok entry) :
    FromDict dict entry := by
  obtain ⟨pairs, isPairs, built⟩ := ok_of_bind built
  obtain ⟨labels, isLabels, built⟩ := ok_of_bind built
  obtain ⟨bounds, _, returned⟩ := ok_of_bind built
  cases returned
  exact ⟨row.schema, values, pairs, isPairs, isLabels⟩

theorem fromDict_decodeRows {rows : List (Bytes × Nat × ValueKind × Nat)}
    (all : decodeRows dict schemas rows values cursor = .ok entries) : ∀ entry ∈ entries, FromDict dict entry := by
  induction rows generalizing values cursor entries with
  | nil =>
    cases all
    intro entry member
    exact absurd member not_mem_nil
  | cons row rows ih =>
    obtain ⟨seriesId, ref, kind, runCount⟩ := row
    obtain ⟨own, isOwn, all⟩ := ok_of_bind all
    obtain ⟨later, isLater, returned⟩ := ok_of_bind all
    cases returned
    exact forall_mem_cons.mpr ⟨fromDict_buildEntry isOwn, ih isLater⟩

theorem fromDict_decodeFrameRows {rows : List (Nat × ValueKind × Nat)} {left : List UInt64}
    {ids remaining : List Bytes}
    (all : decodeFrameRows dict schemas none rows values cursor ids = .ok (entries, left, remaining)) :
    ∀ entry ∈ entries, FromDict dict entry := by
  induction rows generalizing values cursor ids entries with
  | nil =>
    cases all
    intro entry member
    exact absurd member not_mem_nil
  | cons row rows ih =>
    obtain ⟨ref, kind, runCount⟩ := row
    rw [decodeFrameRows] at all
    split at all
    · cases all
    · rename_i schema _
      obtain ⟨-, all⟩ := ok_of_guard all
      obtain ⟨labels, isLabels, all⟩ := ok_of_bind all
      obtain ⟨pairs, own, isPairs, isOwn, rfl⟩ := exists_frameLabels isLabels
      obtain ⟨bounds, _, all⟩ := ok_of_bind all
      cases ids with
      | nil => cases all
      | cons seriesId ids =>
        obtain ⟨⟨later, afterValues, afterIds⟩, isLater, returned⟩ := ok_of_bind all
        cases returned
        exact forall_mem_cons.mpr ⟨⟨schema, _, pairs, isPairs, isOwn⟩, ih isLater⟩

theorem fromDict_decodeChunks {chunkBytes : Bytes} {chunks : List ChunkDirEntry} {start total : Nat}
    {ids remaining : List Bytes}
    (all : decodeChunks primitives footer limits chunkBytes dict schemas none chunks start ids = .ok (entries, total, remaining)) :
    ∀ entry ∈ entries, FromDict dict entry := by
  induction chunks generalizing start ids entries with
  | nil =>
    cases all
    intro entry member
    exact absurd member not_mem_nil
  | cons chunk chunks ih =>
    obtain ⟨frame, _, all⟩ := ok_of_bind all
    dsimp only at all
    obtain ⟨-, all⟩ := ok_of_guard all
    obtain ⟨⟨own, left, afterFrame⟩, isOwn, all⟩ := ok_of_bind all
    dsimp only at all
    obtain ⟨-, all⟩ := ok_of_guard all
    obtain ⟨⟨later, _, _⟩, isLater, returned⟩ := ok_of_bind all
    cases returned
    exact forall_mem_append.mpr ⟨fromDict_decodeFrameRows isOwn, ih isLater⟩

theorem fromDict_decodeAfterDict {sections : ChunkedSections} (indexed : indexLabelDict dictBytes = .ok dict)
    (all : decodeAfterDict primitives footer sections dictBytes seriesIdsStored seriesIdxStored metaChunksStored none limits = .ok entries) :
    ∀ entry ∈ entries, FromDict dict entry := by
  obtain ⟨_, _, all⟩ := ok_of_bind all
  obtain ⟨own, isOwn, all⟩ := ok_of_bind all
  cases (indexed.symm.trans isOwn)
  obtain ⟨_, _, all⟩ := ok_of_bind all
  obtain ⟨_, _, all⟩ := ok_of_bind all
  obtain ⟨_, _, all⟩ := ok_of_bind all
  obtain ⟨_, _, all⟩ := ok_of_bind all
  obtain ⟨_, _, all⟩ := ok_of_bind all
  obtain ⟨_, _, all⟩ := ok_of_bind all
  obtain ⟨_, _, all⟩ := ok_of_bind all
  obtain ⟨⟨kept, total, remaining⟩, isKept, all⟩ := ok_of_bind all
  dsimp only at all
  obtain ⟨-, all⟩ := ok_of_guard all
  split at all
  · cases all
  · cases all
    exact fromDict_decodeChunks isKept

theorem decodeCatalogV5ChunkedMatching_of_all
    (all : decodeCatalogV5Chunked primitives footer labelDictStored seriesIdsStored seriesIdxStored metaChunksStored limits = .ok entries) :
    decodeCatalogV5ChunkedMatching primitives footer labelDictStored seriesIdsStored seriesIdxStored metaChunksStored equals limits =
      .ok (entries.filter (SeriesEntry.hasPairs equals)) := by
  obtain ⟨sections, isSections, all⟩ := ok_of_bind all
  obtain ⟨dictBytes, isDictBytes, all⟩ := ok_of_bind all
  obtain ⟨_, _, unread⟩ := ok_of_bind all
  obtain ⟨dict, indexed, _⟩ := ok_of_bind unread
  rw [decodeCatalogV5ChunkedMatching, decodeChunked]
  apply bind_eq_ok.mpr
  refine ⟨_, isSections, bind_eq_ok.mpr ⟨_, isDictBytes, bind_eq_ok.mpr ⟨_, indexed, ?_⟩⟩⟩
  cases resolved : resolveEquals dict equals with
  | none =>
    have lacks := resolveEquals_none (isLabelDict_of_index indexed) resolved
    rw [filter_of_lacks (fromDict_decodeAfterDict indexed all) lacks]
    rfl
  | some wanted => exact decodeAfterDict_of_all indexed resolved all

/-- A dictionary that does not hold every text leaves no series. -/
theorem lacksText_of_holdsAll
    (lacking : labelDictHoldsAll primitives footer labelDictStored equals limits = .ok false) :
    ∃ labelDict dictBytes dict, findSection footer labelDictKind = some labelDict ∧
      decodeSectionBytes primitives labelDict labelDictStored limits = .ok dictBytes ∧
      indexLabelDict dictBytes = .ok dict ∧ LacksText dict equals := by
  obtain ⟨sections, isSections, lacking⟩ := ok_of_bind lacking
  obtain ⟨dictBytes, isDictBytes, lacking⟩ := ok_of_bind lacking
  obtain ⟨dict, indexed, returned⟩ := ok_of_bind lacking
  obtain ⟨labelDict, isLabelDict, isSections⟩ := ok_of_bind isSections
  obtain ⟨_, _, isSections⟩ := ok_of_bind isSections
  obtain ⟨_, _, isSections⟩ := ok_of_bind isSections
  obtain ⟨_, _, isSections⟩ := ok_of_bind isSections
  cases isSections
  refine ⟨labelDict, dictBytes, dict, ?_, isDictBytes, indexed, ?_⟩
  · unfold needSection at isLabelDict
    split at isLabelDict
    · cases isLabelDict
      assumption
    · cases isLabelDict
  · apply resolveEquals_none (isLabelDict_of_index indexed)
    exact Option.not_isSome_iff_eq_none.mp fun isSome => by rw [isSome] at returned; cases returned

theorem needSection_of_find {kind : Nat} {missing : SegmentError} {stored named : Section}
    (found : findSection footer kind = some stored) (needed : needSection footer kind missing = .ok named) : named = stored := by
  rw [needSection, found] at needed
  cases needed
  rfl

/-- The whole-section and the chunked decoder take their labels from the same dictionary. -/
theorem fromDict_decodeCatalogV4 {labelDictBytes seriesIdsBytes seriesMetaBytes : Bytes}
    (found : findSection footer labelDictKind = some labelDict)
    (stored : decodeSectionBytes primitives labelDict labelDictBytes limits = .ok dictBytes)
    (indexed : indexLabelDict dictBytes = .ok dict)
    (all : decodeCatalogV4 primitives footer labelDictBytes seriesIdsBytes seriesMetaBytes limits = .ok entries) :
    ∀ entry ∈ entries, FromDict dict entry := by
  obtain ⟨⟨own, ids, metaBytes⟩, isSections, all⟩ := ok_of_bind all
  obtain ⟨named, isNamed, isSections⟩ := ok_of_bind isSections
  rw [needSection_of_find found isNamed] at isSections
  obtain ⟨_, _, isSections⟩ := ok_of_bind isSections
  obtain ⟨_, _, isSections⟩ := ok_of_bind isSections
  obtain ⟨ownBytes, isOwnBytes, isSections⟩ := ok_of_bind isSections
  cases (stored.symm.trans isOwnBytes)
  obtain ⟨_, _, isSections⟩ := ok_of_bind isSections
  obtain ⟨_, _, isSections⟩ := ok_of_bind isSections
  obtain ⟨_, isOwn, isSections⟩ := ok_of_bind isSections
  cases (indexed.symm.trans isOwn)
  obtain ⟨_, _, returned⟩ := ok_of_bind isSections
  cases returned
  obtain ⟨_, _, all⟩ := ok_of_bind all
  obtain ⟨_, _, all⟩ := ok_of_bind all
  obtain ⟨_, _, all⟩ := ok_of_bind all
  obtain ⟨_, _, all⟩ := ok_of_bind all
  obtain ⟨_, _, all⟩ := ok_of_bind all
  obtain ⟨_, _, all⟩ := ok_of_bind all
  obtain ⟨_, _, all⟩ := ok_of_bind all
  exact fromDict_decodeRows all

theorem fromDict_decodeCatalogV5Chunked (found : findSection footer labelDictKind = some labelDict)
    (stored : decodeSectionBytes primitives labelDict labelDictStored limits = .ok dictBytes)
    (indexed : indexLabelDict dictBytes = .ok dict)
    (all : decodeCatalogV5Chunked primitives footer labelDictStored seriesIdsStored seriesIdxStored metaChunksStored limits = .ok entries) :
    ∀ entry ∈ entries, FromDict dict entry := by
  obtain ⟨sections, isSections, all⟩ := ok_of_bind all
  obtain ⟨named, isNamed, isSections⟩ := ok_of_bind isSections
  rw [needSection_of_find found isNamed] at isSections
  obtain ⟨_, _, isSections⟩ := ok_of_bind isSections
  obtain ⟨_, _, isSections⟩ := ok_of_bind isSections
  obtain ⟨_, _, returned⟩ := ok_of_bind isSections
  cases returned
  obtain ⟨ownBytes, isOwnBytes, all⟩ := ok_of_bind all
  cases (stored.symm.trans isOwnBytes)
  exact fromDict_decodeAfterDict indexed all

end Unresolved

/-- Whenever the full decode succeeds, the one for wanted labels gives its series that have every wanted pair, in the same order.
When the dictionary lacks a wanted text, there is none. -/
theorem pruned_catalog_is_filtered (primitives : SectionPrimitives) (footer : Footer)
    (labelDictStored seriesIdsStored seriesMetaStored seriesIdxStored metaChunksStored : Bytes) (equals : List (String × String))
    (limits : ReaderLimits) :
    (∀ entries, decodeCatalogV4 primitives footer labelDictStored seriesIdsStored seriesMetaStored limits = .ok entries →
      decodeCatalogMatchingV4 primitives footer labelDictStored seriesIdsStored seriesMetaStored equals limits =
        .ok (entries.filter (SeriesEntry.hasPairs equals))) ∧
    (∀ entries,
      decodeCatalogV5Chunked primitives footer labelDictStored seriesIdsStored seriesIdxStored metaChunksStored limits =
        .ok entries →
      decodeCatalogV5ChunkedMatching primitives footer labelDictStored seriesIdsStored seriesIdxStored metaChunksStored equals
        limits = .ok (entries.filter (SeriesEntry.hasPairs equals))) ∧
    (labelDictHoldsAll primitives footer labelDictStored equals limits = .ok false →
      ∀ entries,
        decodeCatalogV4 primitives footer labelDictStored seriesIdsStored seriesMetaStored limits = .ok entries ∨
          decodeCatalogV5Chunked primitives footer labelDictStored seriesIdsStored seriesIdxStored metaChunksStored limits =
            .ok entries →
        entries.filter (SeriesEntry.hasPairs equals) = []) := by
  refine ⟨?_, ?_, ?_⟩
  · intro entries all
    exact decodeCatalogMatchingV4_of_all all
  · intro entries all
    exact decodeCatalogV5ChunkedMatching_of_all all
  · intro lacking entries all
    obtain ⟨labelDict, dictBytes, dict, found, stored, indexed, lacks⟩ := lacksText_of_holdsAll lacking
    rcases all with whole | chunked
    · exact filter_of_lacks (fromDict_decodeCatalogV4 found stored indexed whole) lacks
    · exact filter_of_lacks (fromDict_decodeCatalogV5Chunked found stored indexed chunked) lacks

end Ravel.Segment
