import Ravel.Proof.Logs.MergedViews

namespace Ravel.Logs

open List Library RlogWriter

variable (value : AttrValue)

/-- The canonical form of a value is in canonical form. -/
@[simp] theorem canonicalValue_canonicalValue : canonicalValue (canonicalValue value) = canonicalValue value := by
  induction value using AttrValue.induction with
  | scalar value flat => cases value <;> first | rfl | cases flat
  | list items ih =>
    have same : ∀ item ∈ items, (canonicalValue ∘ canonicalValue) item = canonicalValue item := ih
    rw [canonicalValue, canonicalValue, canonicalItems_eq, canonicalItems_eq, map_map, map_congr_left same]
  | map entries ih =>
    have same : ∀ entry ∈ entries, (canonicalEntry ∘ canonicalEntry) entry = canonicalEntry entry := by
      intro entry member
      exact Prod.ext rfl (ih entry member)
    -- The order depends on the encodings, which the canonical form keeps.
    have ordered : (entries.map canonicalEntry).insertionSort attrLe = (entries.insertionSort attrLe).map canonicalEntry := by
      rw [← canonicalEntries_eq]
      exact canonicalAttrs_eq entries fun entry _ => encodedEntry_canonicalEntry entry
    have sorted : ((entries.insertionSort attrLe).map canonicalEntry).Pairwise attrLe := by
      rw [← ordered]
      exact pairwise_insertionSort attrLe _
    have again : ((entries.insertionSort attrLe).map canonicalEntry).map canonicalEntry =
        (entries.insertionSort attrLe).map canonicalEntry := by
      rw [map_map]
      apply map_congr_left
      intro entry member
      exact same entry ((mem_insertionSort attrLe).mp member)
    rw [canonicalValue, canonicalEntries_eq, ordered, canonicalValue, canonicalEntries_eq, again, sorted.insertionSort_eq]

@[simp] theorem canonicalEntry_canonicalEntry (entry : String × AttrValue) :
    canonicalEntry (canonicalEntry entry) = canonicalEntry entry := by
  rw [canonicalEntry, canonicalEntry, canonicalValue_canonicalValue]

theorem isNested_storedValue : isNested (storedValue value) = false := by
  cases value <;> rfl

theorem storedValue_of_flat {value : AttrValue} (flat : isNested value = false) : storedValue value = value := by
  cases value <;> first | rfl | cases flat

theorem canonicalValue_of_flat {value : AttrValue} (flat : isNested value = false) : canonicalValue value = value := by
  cases value <;> first | rfl | cases flat

/-- Every attribute that a reader returns is in canonical form. -/
theorem canonicalEntry_of_mem_readAttrs {columns : List Column} {attrs : List (String × AttrValue)}
    {attr : String × AttrValue} (member : attr ∈ readAttrs columns attrs) : canonicalEntry attr = attr := by
  rcases mem_append.mp member with columnar | overflow
  · obtain ⟨source, _, rfl⟩ := mem_map.mp columnar
    exact Prod.ext rfl (canonicalValue_of_flat (isNested_storedValue source.2))
  · rw [canonicalAttrs_eq _ fun attr _ => encodedEntry_canonicalEntry attr] at overflow
    obtain ⟨source, _, rfl⟩ := mem_map.mp overflow
    exact canonicalEntry_canonicalEntry source

/-- The first byte of an encoded value. -/
def valueTag : AttrValue → UInt8
  | .str _ => 1
  | .i64 _ => 2
  | .f64 _ => 3
  | .bool _ => 4
  | .bytes _ => 5
  | .list _ => 6
  | .map _ => 7

theorem encodeValue_tag : ∃ rest, encodeValue value = valueTag value :: rest := by
  cases value <;> exact ⟨_, rfl⟩

/-- The lists and maps share the type of the bytes. -/
theorem toU8_eq_tag : (resolveValue value).1.toU8 = min (valueTag value).toNat 5 := by
  cases value <;> rfl

/-- The canonical order of values follows their types. -/
theorem toU8_le_of_canonicalValueBytes_le {left right : AttrValue}
    (below : canonicalValueBytes left ≤ canonicalValueBytes right) :
    (resolveValue left).1.toU8 ≤ (resolveValue right).1.toU8 := by
  obtain ⟨leftRest, leftBytes⟩ := encodeValue_tag left
  obtain ⟨rightRest, rightBytes⟩ := encodeValue_tag right
  rw [canonicalValueBytes_eq, canonicalValueBytes_eq, leftBytes, rightBytes] at below
  have tags : (valueTag left).toNat ≤ (valueTag right).toNat := by
    rcases cons_le_cons_iff.mp below with lower | ⟨_, afterCount⟩
    · exact absurd lower (by decide)
    rcases cons_le_cons_iff.mp afterCount with lower | ⟨_, afterKey⟩
    · exact absurd lower (by decide)
    rcases cons_le_cons_iff.mp afterKey with lower | ⟨same, _⟩
    · exact Nat.le_of_lt (UInt8.lt_iff_toNat_lt.mp lower)
    · rw [same]
  rw [toU8_eq_tag, toU8_eq_tag]
  omega

theorem canonicalValue_eq_of_bytes {left right : AttrValue} (leftChecked : checkAttrsRawValue 0 left = .ok ())
    (rightChecked : checkAttrsRawValue 0 right = .ok ()) (addressed : (encodeValue left).length < 2 ^ 64)
    (same : encodeValue left = encodeValue right) : canonicalValue left = canonicalValue right := by
  have readLeft := decodes_rawValue left 0 leftChecked 0 [] (by rwa [Nat.zero_add])
  have readRight := decodes_rawValue right 0 rightChecked 0 [] (by rwa [Nat.zero_add, ← same])
  rw [same, readRight] at readLeft
  exact (congrArg Prod.fst (Except.ok.inj readLeft)).symm

/-- A list is in order under a relation on equal names when the entries of each name are. -/
theorem pairwise_of_names {Value : Type} {before : String × Value → String × Value → Prop}
    {entries : List (String × Value)}
    (perName : ∀ name, (entries.filter fun entry => entry.1 = name).Pairwise before) :
    entries.Pairwise fun left right => left.1 = right.1 → before left right := by
  induction entries with
  | nil => exact List.Pairwise.nil
  | cons entry rest ih =>
    rw [pairwise_cons]
    constructor
    · intro other member sameName
      have own := perName entry.1
      have first : (entry :: rest).filter (fun other => other.1 = entry.1) =
          entry :: rest.filter fun other => other.1 = entry.1 := by simp
      rw [first, pairwise_cons] at own
      exact own.1 other (mem_filter.mpr ⟨member, decide_eq_true sameName.symm⟩)
    · apply ih
      intro name
      exact (perName name).sublist ((sublist_cons_self entry rest).filter _)

theorem dynamicColumnOrder_byType {distinct : List (String × FieldType)} (sorted : distinct.Pairwise pairLe)
    (chunkOrder : List String) :
    (dynamicColumnOrder distinct chunkOrder).Pairwise fun left right =>
      left.1 = right.1 → left.2.toU8 ≤ right.2.toU8 := by
  have byType : ∀ {pairs : List (String × FieldType)}, pairs.Sublist distinct → ∀ name,
      (pairs.filter fun pair => pair.1 = name).Pairwise fun left right => left.2.toU8 ≤ right.2.toU8 := by
    intro pairs part name
    apply ((sorted.sublist part).filter _).imp_of_mem
    intro left right leftIn rightIn below
    have leftName : left.1 = name := of_decide_eq_true (mem_filter.mp leftIn).2
    have rightName : right.1 = name := of_decide_eq_true (mem_filter.mp rightIn).2
    rcases below with before | ⟨_, lower⟩
    · rw [leftName, rightName] at before
      exact absurd before (List.lt_irrefl _)
    · exact lower
  rw [dynamicColumnOrder, pairwise_append]
  refine ⟨?_, ?_, ?_⟩
  · have : Std.Total fun left right : String × FieldType => chunkOrder.idxOf left.1 ≤ chunkOrder.idxOf right.1 :=
      ⟨fun left right => Nat.le_total _ _⟩
    have : IsTrans (String × FieldType) fun left right => chunkOrder.idxOf left.1 ≤ chunkOrder.idxOf right.1 :=
      ⟨fun _ _ _ first second => Nat.le_trans first second⟩
    apply pairwise_of_names
    intro name
    rw [filter_insertionSort]
    have level : (((distinct.filter fun pair => chunkOrder.contains pair.1).filter fun pair => pair.1 = name)).Pairwise
        fun left right => chunkOrder.idxOf left.1 ≤ chunkOrder.idxOf right.1 := by
      apply List.Pairwise.imp_of_mem _ (byType filter_sublist name)
      intro left right leftIn rightIn _
      rw [of_decide_eq_true (mem_filter.mp leftIn).2, of_decide_eq_true (mem_filter.mp rightIn).2]
    rw [level.insertionSort_eq]
    exact byType filter_sublist name
  · exact pairwise_of_names fun name => byType filter_sublist name
  · intro left leftIn right rightIn sameName
    have listed := (mem_filter.mp ((mem_insertionSort _).mp leftIn)).2
    have unlisted := (mem_filter.mp rightIn).2
    rw [sameName] at listed
    rw [listed] at unlisted
    cases unlisted

section Reread

variable {writer : RlogWriter} {plan : Layout} {record : RlogRecord}

theorem Planned.column_of_lowerType (planned : Planned writer plan) (recordIn : record ∈ writer.records)
    {attr : String × AttrValue} (attrIn : attr ∈ record.attrs) {ty : FieldType}
    (covered : (columnOf plan.columns (attr.1, ty)).isSome) (lower : (resolveValue attr.2).1.toU8 ≤ ty.toU8) :
    (columnOf plan.columns (typedPair attr)).isSome := by
  rw [columnOf_isSome_iff planned.distinctColumns, planned.columns, assignColumns_pairs] at covered ⊢
  by_contra beyond
  have competes : typedPair attr ∈
      distinctPairs writer.records (plan.pairs.flatMap Prod.snd) writer.indexedFields := by
    rw [distinctPairs, mem_insertionSort, mem_dedup, mem_append]
    left
    exact mem_flatMap.mpr ⟨record, recordIn, mem_map.mpr ⟨attr, attrIn, rfl⟩⟩
  have ordered := (dynamicColumnOrder_perm _ writer.cfg.chunkOrder).mem_iff.mpr competes
  have byType := dynamicColumnOrder_byType (pairwise_insertionSort pairLe
    ((writer.records.flatMap fun record => record.attrs.map typedPair) ++
      ((plan.pairs.flatMap Prod.snd).map typedPair).filter fun pair =>
        streamLevelColumnEligible pair.1 pair.2 writer.indexedFields).dedup) writer.cfg.chunkOrder
  rw [← take_append_drop writer.cfg.maxDynamicColumns (dynamicColumnOrder _ _)] at ordered
  rw [← take_append_drop writer.cfg.maxDynamicColumns (dynamicColumnOrder _ _), pairwise_append] at byType
  rcases mem_append.mp ordered with first | later
  · exact beyond first
  · have above := byType.2.2 _ covered _ later rfl
    have same : typedPair attr = (attr.1, ty) := Prod.ext rfl (toU8_injective (Nat.le_antisymm lower above))
    exact beyond (same ▸ covered)

theorem Planned.last_has_greatest_type (planned : Planned writer plan) (recordIn : record ∈ writer.records) {name : String}
    (distinct : (((readAttrs plan.columns record.attrs).filter (named name)).map typedPair).Nodup)
    {last other : String × AttrValue}
    (isLast : lastPassing (named name) (readAttrs plan.columns record.attrs) = some last)
    (otherIn : other ∈ readAttrs plan.columns record.attrs) (otherNamed : named name other) :
    (resolveValue other.2).1.toU8 ≤ (resolveValue last.2).1.toU8 := by
  have placed := placeAttrs_placed plan.columns record.attrs
  have parts : readAttrs plan.columns record.attrs =
      ((placeAttrs plan.columns record.attrs).columnar.insertionSort typedLe).map storedAttr ++
        ((placeAttrs plan.columns record.attrs).overflow.insertionSort attrLe).map canonicalEntry := by
    rw [readAttrs, canonicalAttrs_eq _ fun attr _ => encodedEntry_canonicalEntry attr]
  rw [lastPassing_readAttrs] at isLast
  rw [parts, mem_append, mem_map, mem_map] at otherIn
  cases found : lastPassing (named name) ((placeAttrs plan.columns record.attrs).overflow.insertionSort attrLe) with
  | some winner =>
    rw [found] at isLast
    cases isLast
    obtain ⟨winnerSorted, winnerNamed⟩ := mem_of_lastPassing found
    have winnerIn := (mem_insertionSort attrLe).mp winnerSorted
    rcases otherIn with ⟨source, sourceSorted, rfl⟩ | ⟨source, sourceSorted, rfl⟩
    -- A columnar value of a greater type would give the winner's type a column, and then a second value of that type.
    · have sourceIn := (mem_insertionSort typedLe).mp sourceSorted
      by_contra above
      simp only [storedAttr, canonicalEntry, resolveValue_storedValue, resolveValue_canonicalValue, not_le] at above
      have sourceName : source.1 = winner.1 :=
        (of_decide_eq_true otherNamed).trans (of_decide_eq_true winnerNamed).symm
      have covered : (columnOf plan.columns (winner.1, (resolveValue source.2).1)).isSome := by
        rw [← sourceName]
        exact placed.hasColumn source sourceIn
      have winnerCovered := planned.column_of_lowerType recordIn (placed.overflowInOrder.mem winnerIn) covered
        (Nat.le_of_lt above)
      obtain ⟨twin, twinIn, sameType⟩ := placed.columnar_of_overflow winnerIn winnerCovered
      have twinNamed : named name twin := by
        have sameName : (typedPair twin).1 = (typedPair winner).1 := congrArg Prod.fst sameType
        exact decide_eq_true (sameName.trans (of_decide_eq_true winnerNamed))
      rw [parts, filter_append, map_append, nodup_append] at distinct
      apply distinct.2.2 (typedPair (storedAttr twin)) _ (typedPair (canonicalEntry winner)) _
      · simpa [typedPair, storedAttr, canonicalEntry] using sameType
      · exact mem_map.mpr ⟨_, mem_filter.mpr
          ⟨mem_map.mpr ⟨twin, (mem_insertionSort typedLe).mpr twinIn, rfl⟩, twinNamed⟩, rfl⟩
      · exact mem_map.mpr ⟨_, mem_filter.mpr ⟨mem_map.mpr ⟨winner, winnerSorted, rfl⟩, winnerNamed⟩, rfl⟩
    · have sourceIn := (mem_insertionSort attrLe).mp sourceSorted
      have sourceNamed : named name source := otherNamed
      have below := before_lastPassing_insertionSort attrLe found sourceIn sourceNamed
      have bytes := (attrLe_of_named sourceNamed winnerNamed).mp below
      simpa [canonicalEntry] using toU8_le_of_canonicalValueBytes_le bytes
  | none =>
    rw [found, Option.map_none, Option.none_or, Option.map_eq_some_iff] at isLast
    obtain ⟨winner, winnerFound, rfl⟩ := isLast
    have winnerNamed := (mem_of_lastPassing winnerFound).2
    rcases otherIn with ⟨source, sourceSorted, rfl⟩ | ⟨source, sourceSorted, rfl⟩
    · have sourceIn := (mem_insertionSort typedLe).mp sourceSorted
      have sourceNamed : named name source := otherNamed
      have below := before_lastPassing_insertionSort typedLe winnerFound sourceIn sourceNamed
      simpa [storedAttr] using (typedLe_of_named sourceNamed winnerNamed).mp below
    · exact absurd otherNamed (lastPassing_eq_none.mp found source sourceSorted)

/-- The last value of a name stays the winner in an object with the columns. Either a value of the name overflows there,
and then the last one overflows and no overflowing one has greater bytes, or the last one is a scalar. -/
structure WinnerKept (columns : List Column) (attrs : List (String × AttrValue)) (name : String)
    (last : String × AttrValue) : Prop where
  overflowing : ∀ other ∈ (placeAttrs columns attrs).overflow, named name other →
    last ∈ (placeAttrs columns attrs).overflow ∧ canonicalValueBytes other.2 ≤ canonicalValueBytes last.2
  columnar : (∀ other ∈ (placeAttrs columns attrs).overflow, ¬named name other) → isNested last.2 = false

/-- The values of an encoded overflow are checked and addressed. -/
structure Encodable (overflow : List (String × AttrValue)) : Prop where
  checked : ∀ attr ∈ overflow, checkAttrsRawValue 0 attr.2 = .ok ()
  addressed : ∀ attr ∈ overflow, (encodeValue attr.2).length < 2 ^ 64

variable {columns : List Column} {name : String} {last : String × AttrValue}

/-- With an overflow, the winner of the second object is the overflowing value with the greatest bytes. -/
theorem reread_overflowing (encodable : Encodable (placeAttrs columns (readAttrs plan.columns record.attrs)).overflow)
    (isLast : lastPassing (named name) (readAttrs plan.columns record.attrs) = some last) {winner : String × AttrValue}
    (found : lastPassing (named name)
      ((placeAttrs columns (readAttrs plan.columns record.attrs)).overflow.insertionSort attrLe) = some winner) :
    canonicalEntry winner = last ↔ WinnerKept columns (readAttrs plan.columns record.attrs) name last := by
  have placed := placeAttrs_placed columns (readAttrs plan.columns record.attrs)
  obtain ⟨lastIn, lastNamed⟩ := mem_of_lastPassing isLast
  obtain ⟨winnerSorted, winnerNamed⟩ := mem_of_lastPassing found
  have winnerIn := (mem_insertionSort attrLe).mp winnerSorted
  have greatest : ∀ other ∈ (placeAttrs columns (readAttrs plan.columns record.attrs)).overflow, named name other →
      canonicalValueBytes other.2 ≤ canonicalValueBytes winner.2 := by
    intro other otherIn otherNamed
    exact (attrLe_of_named otherNamed winnerNamed).mp
      (before_lastPassing_insertionSort attrLe found otherIn otherNamed)
  rw [canonicalEntry_of_mem_readAttrs (placed.overflowInOrder.mem winnerIn)]
  constructor
  · rintro rfl
    constructor
    · intro other otherIn otherNamed
      exact ⟨winnerIn, greatest other otherIn otherNamed⟩
    · intro none
      exact absurd winnerNamed (none winner winnerIn)
  · intro kept
    obtain ⟨lastOverflows, above⟩ := kept.overflowing winner winnerIn winnerNamed
    have sameBytes := List.le_antisymm above (greatest last lastOverflows lastNamed)
    rw [canonicalValueBytes_eq, canonicalValueBytes_eq, cons.injEq, cons.injEq] at sameBytes
    have sameValue := canonicalValue_eq_of_bytes (encodable.checked winner winnerIn) (encodable.checked last lastOverflows)
      (encodable.addressed winner winnerIn) sameBytes.2.2
    have winnerCanonical := canonicalEntry_of_mem_readAttrs (placed.overflowInOrder.mem winnerIn)
    have lastCanonical := canonicalEntry_of_mem_readAttrs lastIn
    rw [← winnerCanonical, ← lastCanonical]
    exact Prod.ext ((of_decide_eq_true winnerNamed).trans (of_decide_eq_true lastNamed).symm) sameValue

/-- Without an overflow, the winner of the second object is the value of the greatest type. -/
theorem reread_columnar (planned : Planned writer plan) (recordIn : record ∈ writer.records)
    (isLast : lastPassing (named name) (readAttrs plan.columns record.attrs) = some last)
    (none : ∀ other ∈ (placeAttrs columns (readAttrs plan.columns record.attrs)).overflow, ¬named name other) :
    (lastPassing (named name)
        ((placeAttrs columns (readAttrs plan.columns record.attrs)).columnar.insertionSort typedLe)).map storedAttr =
      some last ↔ isNested last.2 = false := by
  have placed := placeAttrs_placed columns (readAttrs plan.columns record.attrs)
  obtain ⟨lastIn, lastNamed⟩ := mem_of_lastPassing isLast
  constructor
  · intro kept
    obtain ⟨winner, _, rfl⟩ := Option.map_eq_some_iff.mp kept
    exact isNested_storedValue winner.2
  · intro flat
    have lastColumnar : last ∈ (placeAttrs columns (readAttrs plan.columns record.attrs)).columnar := by
      rcases mem_append.mp (placed.perm.mem_iff.mpr lastIn) with columnar | overflow
      · exact columnar
      · exact absurd lastNamed (none last overflow)
    have distinct : (((readAttrs plan.columns record.attrs).filter (named name)).map typedPair).Nodup := by
      have noOverflow : (placeAttrs columns (readAttrs plan.columns record.attrs)).overflow.filter (named name) = [] :=
        filter_eq_nil_iff.mpr none
      have reordered := (placed.perm.filter (named name)).map typedPair
      rw [filter_append, noOverflow, append_nil] at reordered
      exact reordered.nodup_iff.mp (placed.distinct.sublist (filter_sublist.map typedPair))
    cases found : lastPassing (named name)
        ((placeAttrs columns (readAttrs plan.columns record.attrs)).columnar.insertionSort typedLe) with
    | none =>
      exact absurd lastNamed
        (lastPassing_eq_none.mp found last ((mem_insertionSort typedLe).mpr lastColumnar))
    | some winner =>
      obtain ⟨winnerSorted, winnerNamed⟩ := mem_of_lastPassing found
      have winnerIn := (mem_insertionSort typedLe).mp winnerSorted
      have below := (typedLe_of_named lastNamed winnerNamed).mp
        (before_lastPassing_insertionSort typedLe found lastColumnar lastNamed)
      have above := planned.last_has_greatest_type recordIn distinct isLast
        (placed.perm.mem_iff.mp (mem_append_left _ winnerIn)) winnerNamed
      have sameType : typedPair winner = typedPair last :=
        Prod.ext ((of_decide_eq_true winnerNamed).trans (of_decide_eq_true lastNamed).symm)
          (toU8_injective (Nat.le_antisymm above below))
      have same := inj_on_of_nodup_map placed.distinct winnerIn lastColumnar sameType
      rw [same, Option.map_some, storedAttr, storedValue_of_flat flat]

/-- The second object returns the same winner exactly when the last value of the name stays the winner. -/
theorem reread_last_iff (planned : Planned writer plan) (recordIn : record ∈ writer.records)
    (encodable : Encodable (placeAttrs columns (readAttrs plan.columns record.attrs)).overflow)
    (isLast : lastPassing (named name) (readAttrs plan.columns record.attrs) = some last) :
    lastPassing (named name) (readAttrs columns (readAttrs plan.columns record.attrs)) = some last ↔
      WinnerKept columns (readAttrs plan.columns record.attrs) name last := by
  rw [lastPassing_readAttrs]
  cases found : lastPassing (named name)
      ((placeAttrs columns (readAttrs plan.columns record.attrs)).overflow.insertionSort attrLe) with
  | some winner =>
    rw [Option.map_some, Option.some_or, Option.some.injEq]
    exact reread_overflowing encodable isLast found
  | none =>
    have noOverflow : ∀ other ∈ (placeAttrs columns (readAttrs plan.columns record.attrs)).overflow,
        ¬named name other := by
      intro other otherIn
      exact lastPassing_eq_none.mp found other ((mem_insertionSort attrLe).mpr otherIn)
    rw [Option.map_none, Option.none_or, reread_columnar planned recordIn isLast noOverflow]
    constructor
    · intro flat
      exact ⟨fun other otherIn otherNamed => absurd otherNamed (noOverflow other otherIn), fun _ => flat⟩
    · intro kept
      exact kept.columnar noOverflow

end Reread

end Ravel.Logs
