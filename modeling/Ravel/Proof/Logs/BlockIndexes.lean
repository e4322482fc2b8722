import Ravel.Proof.Logs.StampedRows

namespace Ravel.Logs

open List Library RlogWriter

/-- The blocks under a term. -/
def postedBlocks (map : List (List UInt8 × List Nat)) (term : List UInt8) : List Nat :=
  ((map.find? fun entry => entry.1 = term).map Prod.snd).getD []

theorem insertTerm_eq (map : List (List UInt8 × List Nat)) (term : List UInt8) (block : Nat) : insertTerm map term block =
    alterEntry term [block] (fun blocks => if blocks.contains block then blocks else blocks ++ [block]) map := by
  induction map with
  | nil => rfl
  | cons entry rest ih => rw [insertTerm, alterEntry, ih]

theorem mem_postedBlocks_insertTerm (map : List (List UInt8 × List Nat)) (term other : List UInt8) (block found : Nat) :
    found ∈ postedBlocks (insertTerm map term block) other ↔
      found ∈ postedBlocks map other ∨ term = other ∧ found = block := by
  rw [insertTerm_eq, postedBlocks, find?_alterEntry, postedBlocks]
  by_cases same : term = other
  · cases map.find? (fun entry => entry.1 = other) with
    | none => simp [same]
    | some entry =>
      by_cases present : block ∈ entry.2
      · simp only [same, if_true, Option.map_some, Option.getD_some, contains_iff_mem, if_pos present, true_and]
        exact ⟨.inl, fun either => either.elim id fun isBlock => isBlock ▸ present⟩
      · simp [same, present]
  · simp [same]

theorem foldl_postTerm_capped (maxDistinct : Nat) (postings : List (Nat × List UInt8)) :
    postings.foldl (postTerm maxDistinct) .capped = .capped := by
  induction postings with
  | nil => rfl
  | cons posting rest ih => exact ih

/-- The blocks of a term in an uncapped field are those of its postings. -/
theorem mem_postedBlocks_foldl {maxDistinct : Nat} (postings : List (Nat × List UInt8)) :
    ∀ {start map : List (List UInt8 × List Nat)}, postings.foldl (postTerm maxDistinct) (.terms start) = .terms map →
      ∀ (term : List UInt8) (block : Nat),
        block ∈ postedBlocks map term ↔ block ∈ postedBlocks start term ∨ (block, term) ∈ postings := by
  induction postings with
  | nil =>
    intro start map built term block
    cases built
    simp
  | cons posting rest ih =>
    intro start map built term block
    rw [foldl_cons, postTerm] at built
    split at built
    · rw [foldl_postTerm_capped] at built
      cases built
    · rw [ih built term block, mem_postedBlocks_insertTerm, mem_cons, or_assoc]
      have same : (block, term) = posting ↔ posting.2 = term ∧ block = posting.1 := by
        rw [Prod.ext_iff]
        exact ⟨fun ⟨left, right⟩ => ⟨right.symm, left⟩, fun ⟨right, left⟩ => ⟨left, right.symm⟩⟩
      rw [same]

/-- Some row of the block stamps the term under the column. -/
def Posted (object : RlogObject) (columnId block : Nat) (term : List UInt8) : Prop :=
  ∃ rows, object.blocks[block]? = some rows ∧
    ∃ row ∈ rows, ∃ value, (columnId, value) ∈ row.indexedTerms ∧ termKey value = term

theorem mem_columnPostings {columnId block : Nat} {term : List UInt8} {blocks : List (List ResolvedRow)} :
    (block, term) ∈ columnPostings columnId blocks ↔
      ∃ rows, blocks[block]? = some rows ∧
        ∃ row ∈ rows, ∃ value, (columnId, value) ∈ row.indexedTerms ∧ termKey value = term := by
  simp only [columnPostings, mem_flatMap, mem_filterMap, Prod.exists, mem_zipIdx_iff_getElem?]
  constructor
  · rintro ⟨rows, position, located, row, rowIn, columnId', value, termIn, emitted⟩
    split at emitted
    · rename_i same
      cases emitted
      cases same
      exact ⟨rows, located, row, rowIn, value, termIn, rfl⟩
    · cases emitted
  · rintro ⟨rows, located, row, rowIn, value, termIn, rfl⟩
    exact ⟨rows, block, located, row, rowIn, columnId, value, termIn, by simp⟩

namespace Finished

variable {platform : Platform} {writer : RlogWriter} {plan : Layout} {rows : List (RlogRecord × ResolvedRow)}
  {object : RlogObject}

theorem postings (finished : Finished platform writer plan rows object) :
    object.postings = buildPostings writer.cfg plan.columns writer.indexedFields object.blocks := by
  rw [finished.blocks, finished.assembled]
  rfl

variable {term : List UInt8} {found : List Nat} {block : Nat} {blockRows : List ResolvedRow}

/-- An answer of POSTINGS is exactly the blocks with a row that stamps the term. -/
theorem mem_probePostings (finished : Finished platform writer plan rows object) {columnId : Nat}
    (probed : probePostings object.postings columnId term = some found) (block : Nat) :
    block ∈ found ↔ Posted object columnId block term := by
  rw [probePostings, finished.postings] at probed
  split at probed
  · cases probed
  · cases probed
  · rename_i field map located
    cases probed
    obtain ⟨column, _, built⟩ := mem_map.mp (mem_of_find?_eq_some located)
    have passes := find?_some located
    have sameId : field = columnId := of_decide_eq_true passes
    obtain ⟨rfl, folded⟩ := Prod.mk.injEq _ _ _ _ ▸ built
    have spec := mem_postedBlocks_foldl _ folded term block
    rw [← sameId, Posted, ← mem_columnPostings]
    simpa [postedBlocks] using spec

/-- A probe of one term answers exactly when a probe of another does. -/
theorem probePostings_isSome (object : RlogObject) (columnId : Nat) (left right : List UInt8) :
    (probePostings object.postings columnId left).isSome = (probePostings object.postings columnId right).isSome := by
  rw [probePostings, probePostings]
  split <;> rfl

theorem indexed_of_probe (finished : Finished platform writer plan rows object) {column : Column}
    (columnIn : column ∈ plan.columns) (probed : probePostings object.postings column.columnId term = some found) :
    column.name ∈ writer.indexedFields := by
  rw [probePostings, finished.postings] at probed
  have located : ∃ field, (buildPostings writer.cfg plan.columns writer.indexedFields object.blocks).find?
      (fun field => field.1 = column.columnId) = some field := by
    split at probed
    · cases probed
    · exact ⟨_, ‹_›⟩
    · exact ⟨_, ‹_›⟩
  obtain ⟨field, found⟩ := located
  obtain ⟨other, otherIn, rfl⟩ := mem_map.mp (mem_of_find?_eq_some found)
  have passes := find?_some found
  have sameId : other.columnId = column.columnId := of_decide_eq_true passes
  have same := inj_on_of_nodup_map finished.planned.distinctColumns.ids (mem_filter.mp otherIn).1 columnIn sameId
  rw [← same]
  simpa using (mem_filter.mp otherIn).2

theorem skipEntry (finished : Finished platform writer plan rows object)
    (located : object.blocks[block]? = some blockRows) :
    object.skip.l0[block]? = some ⟨boundsOf (blockRows.map rowBounds), blockStats plan.columns blockRows⟩ := by
  rw [finished.blocks] at located
  rw [finished.assembled]
  simp [assemble, buildSkipIndex, located]

theorem mem_rows_of_block (located : object.blocks[block]? = some blockRows) {row : ResolvedRow}
    (member : row ∈ blockRows) : row ∈ object.rows :=
  mem_flatten.mpr ⟨blockRows, mem_of_getElem? located, member⟩

end Finished

end Ravel.Logs
