import Mathlib.Algebra.Order.BigOperators.Group.Finset
import Ravel.Construction.Codec.KeyIndex
import Ravel.Library.FailingRuns
import Ravel.Library.OptionalRuns

namespace Ravel.Codec

open List Library

instance : Std.IsLinearOrder KeyEntry where
  le_refl entry := .inr ⟨rfl, UInt32.le_refl _⟩
  le_trans first second third := by
    rintro (before | ⟨same, below⟩) (later | ⟨sameAgain, belowAgain⟩)
    · exact .inl (Std.lt_trans before later)
    · exact .inl (sameAgain ▸ before)
    · exact .inl (same ▸ later)
    · exact .inr ⟨same.trans sameAgain, UInt32.le_trans below belowAgain⟩
  le_antisymm first second := by
    rintro (before | ⟨same, below⟩) (later | ⟨sameAgain, belowAgain⟩)
    · exact absurd later (Std.not_gt_of_lt before)
    · exact absurd before (by rw [sameAgain]; exact Std.lt_irrefl)
    · exact absurd later (by rw [same]; exact Std.lt_irrefl)
    · cases first
      cases second
      cases same
      cases UInt32.le_antisymm below belowAgain
      rfl
  le_total first second := by
    rcases Std.lt_trichotomy first.key8.toList second.key8.toList with before | same | after
    · exact .inl (.inl before)
    · have sameKey := Vector.toList_inj.mp same
      rcases UInt32.le_total first.block second.block with below | above
      · exact .inl (.inr ⟨sameKey, below⟩)
      · exact .inr (.inr ⟨sameKey.symm, above⟩)
    · exact .inr (.inl after)

instance : Std.LawfulOrderLT KeyEntry where
  lt_iff _ _ := Iff.rfl

theorem mix_lt (key8 : Key8) {bucketBits : Nat} (within : bucketBits ≤ 64) : mix key8 bucketBits < bucketCount bucketBits := by
  rw [mix, bucketCount, Nat.div_lt_iff_lt_mul (Nat.two_pow_pos _), ← Nat.pow_add, Nat.add_sub_cancel' within]
  exact UInt64.toNat_lt _

/-- The entries of a bucket in a section that indexes these ones. -/
def bucketEntries (entries : List KeyEntry) (bucketBits bucket : Nat) : List KeyEntry :=
  (sortedDistinct entries).filter fun entry => mix entry.key8 bucketBits = bucket

section Buckets

variable {field : KeyIdxFieldInput} {bucketBits : Nat} {parts : KeyIdxField}

/-- A written field has a frame of every bucket, and each is within the bound of the reader. -/
theorem bucketField_eq_ok (written : bucketField field bucketBits = .ok parts) :
    parts = ⟨field.name, field.keyType, (sortedDistinct field.entries).length,
      (List.range (bucketCount bucketBits)).map (bucketEntries field.entries bucketBits)⟩ ∧
    ∀ bucket < bucketCount bucketBits, (bucketEntries field.entries bucketBits bucket).length ≤ keyIdxBucketMaxEntries := by
  obtain ⟨frames, framed, returned⟩ := ok_of_bind written
  have aligned := mapM_eq_ok.mp framed
  have each : ∀ {bucket : Nat} {frame : List KeyEntry},
      encodeFrame (bucketEntries field.entries bucketBits bucket) = .ok frame →
        frame = bucketEntries field.entries bucketBits bucket ∧
          (bucketEntries field.entries bucketBits bucket).length ≤ keyIdxBucketMaxEntries := by
    intro bucket frame encoded
    rw [encodeFrame] at encoded
    split at encoded
    · rename_i fits
      exact ⟨(Except.ok.inj encoded).symm, fits⟩
    · cases encoded
  constructor
  · have same : frames = (List.range (bucketCount bucketBits)).map (bucketEntries field.entries bucketBits) := by
      rw [← forall₂_eq_eq_eq, forall₂_map_right_iff]
      exact (aligned.imp fun bucket frame encoded => (each encoded).1).flip
    cases returned
    rw [same]
  · intro bucket inside
    obtain ⟨frame, _, encoded⟩ := exists_of_mapM framed (mem_range.mpr inside)
    exact (each encoded).2

/-- The entries of a frame pass the checks of the reader: they are of its bucket and ascend strictly. -/
theorem checkEntries_ok {bucket : Nat} {entries : List KeyEntry} (home : ∀ entry ∈ entries, mix entry.key8 bucketBits = bucket)
    (ascending : entries.Pairwise (· < ·)) {previous : Option KeyEntry}
    (after : ∀ last, previous = some last → ∀ entry ∈ entries, last < entry) :
    checkEntries bucket bucketBits previous entries = .ok () := by
  induction entries generalizing previous with
  | nil => rfl
  | cons entry rest ih =>
    obtain ⟨first, later⟩ := pairwise_cons.mp ascending
    rw [checkEntries, if_neg (not_not_intro (home entry mem_cons_self)), if_neg, if_neg]
    · apply ih (fun other member => home other (mem_cons_of_mem entry member)) later
      intro last same other member
      cases same
      exact first other member
    · rw [Option.any_eq_true]
      rintro ⟨last, same, unsorted⟩
      exact of_decide_eq_true unsorted (after last same entry mem_cons_self).1
    · intro same
      exact Std.lt_irrefl (after entry same entry mem_cons_self)

/-- A lookup of a written field finds the bucket of the key, and reads its entries. -/
theorem locate_written (index : KeyIdxSection) (within : index.bucketBits ≤ keyIdxMaxBucketBits)
    (written : bucketField field index.bucketBits = .ok parts)
    (found : index.fields.find? (fun other => other.name = field.name) = some parts) (key8 : Key8) :
    ∃ located, index.locate field.name field.keyType key8 = .ok (some located) ∧ located.key8 = key8 ∧
      located.frame = bucketEntries field.entries index.bucketBits (mix key8 index.bucketBits) ∧
      located.entries = .ok located.frame := by
  obtain ⟨rfl, bounded⟩ := bucketField_eq_ok written
  have inside := mix_lt key8 (Nat.le_trans within (by decide))
  refine ⟨⟨key8, mix key8 index.bucketBits, index.bucketBits, (sortedDistinct field.entries).length,
    bucketEntries field.entries index.bucketBits (mix key8 index.bucketBits)⟩, ?_, rfl, rfl, ?_⟩
  · simp [KeyIdxSection.locate, found, inside]
  · have checked : checkEntries (mix key8 index.bucketBits) index.bucketBits none
        (bucketEntries field.entries index.bucketBits (mix key8 index.bucketBits)) = .ok () := by
      apply checkEntries_ok
      · intro entry member
        exact of_decide_eq_true (mem_filter.mp member).2
      · exact (sortedDistinct_ascending field.entries).filter _
      · intro last absent
        cases absent
    have counted := bounded _ inside
    have covered : (bucketEntries field.entries index.bucketBits (mix key8 index.bucketBits)).length ≤
        (sortedDistinct field.entries).length :=
      length_filter_le _ _
    rw [KeyIdxBucket.entries]
    dsimp only
    split
    · rename_i empty
      rw [eq_nil_of_length_eq_zero empty]
      rfl
    · rw [if_neg (Nat.not_lt.mpr counted), if_neg (Nat.not_lt.mpr covered), checked]
      rfl

/-- A written section has its fields in order, under ascending names. -/
theorem bucketFields_eq_ok {previous : Option String} {fields : List KeyIdxFieldInput} {written : List KeyIdxField}
    (bucketed : bucketFields bucketBits previous fields = .ok written) :
    Forall₂ (fun field parts => bucketField field bucketBits = .ok parts) fields written ∧
      (∀ last ∈ previous, ∀ parts ∈ written, last < parts.name) ∧ written.Pairwise fun left right => left.name < right.name := by
  induction fields generalizing previous written with
  | nil =>
    cases bucketed
    exact ⟨.nil, by simp, .nil⟩
  | cons field rest ih =>
    rw [bucketFields] at bucketed
    dsimp only at bucketed
    obtain ⟨-, bucketed⟩ := ok_of_guard bucketed
    obtain ⟨ascends, bucketed⟩ := ok_of_guard bucketed
    obtain ⟨parts, first, bucketed⟩ := ok_of_bind bucketed
    obtain ⟨later, others, returned⟩ := ok_of_bind bucketed
    cases returned
    obtain ⟨aligned, above, ordered⟩ := ih others
    have named : parts.name = field.name := by rw [(bucketField_eq_ok first).1]
    refine ⟨.cons first aligned, ?_, pairwise_cons.mpr ⟨fun other member => named ▸ above _ rfl other member, ordered⟩⟩
    intro last isLast
    have before : last < field.name := by
      by_contra unordered
      exact ascends (by simp [Option.mem_def.mp isLast, String.not_lt.mp unordered])
    rw [forall_mem_cons, named]
    exact ⟨before, fun other member => String.lt_trans before (above _ rfl other member)⟩

theorem encodeKeyIdx_ok {fields : List KeyIdxFieldInput} {index : KeyIdxSection}
    (encoded : encodeKeyIdxWithBucketBits fields bucketBits = .ok index) :
    bucketBits ≤ keyIdxMaxBucketBits ∧ ∃ written, bucketFields bucketBits none fields = .ok written ∧
      index = ⟨bucketBits, written⟩ := by
  obtain ⟨⟨⟩, checked, rest⟩ := ok_of_bind encoded
  have within : bucketBits ≤ keyIdxMaxBucketBits := by
    rw [checkBucketBits] at checked
    split at checked
    · rename_i both
      exact both.2
    · cases checked
  obtain ⟨-, rest⟩ := ok_of_guard rest
  obtain ⟨written, bucketed, returned⟩ := ok_of_bind rest
  cases returned
  exact ⟨within, written, bucketed, rfl⟩

section

variable {index : KeyIdxSection} (encoded : encodeKeyIdxWithBucketBits [field] bucketBits = .ok index)

include encoded

/-- A section of one field is the field with its frames. -/
theorem encodeKeyIdx_single :
    bucketBits ≤ keyIdxMaxBucketBits ∧ ∃ parts, bucketField field bucketBits = .ok parts ∧ index = ⟨bucketBits, [parts]⟩ := by
  obtain ⟨within, written, bucketed, rfl⟩ := encodeKeyIdx_ok encoded
  cases (bucketFields_eq_ok bucketed).1 with
  | cons first rest =>
    cases rest
    exact ⟨within, _, first, rfl⟩

/-- A lookup in a written section finds the bucket of the key, and reads its entries. -/
theorem locate_encoded (key8 : Key8) :
    ∃ located, index.locate field.name field.keyType key8 = .ok (some located) ∧ located.key8 = key8 ∧
      located.frame = bucketEntries field.entries bucketBits (mix key8 bucketBits) ∧
      located.entries = .ok located.frame := by
  obtain ⟨within, parts, written, rfl⟩ := encodeKeyIdx_single encoded
  exact locate_written ⟨bucketBits, [parts]⟩ within written (by simp [(bucketField_eq_ok written).1]) key8

/-- A written section has at most the entries of full buckets. -/
theorem length_le_of_encoded :
    (sortedDistinct field.entries).length ≤ keyIdxBucketMaxEntries * bucketCount bucketBits := by
  obtain ⟨within, parts, written, -⟩ := encodeKeyIdx_single encoded
  have bounded := (bucketField_eq_ok written).2
  have distinct : (sortedDistinct field.entries).Nodup :=
    (sortedDistinct_ascending field.entries).imp fun before => Std.ne_of_lt before
  have inside : ∀ entry : KeyEntry, mix entry.key8 bucketBits < bucketCount bucketBits := fun entry =>
    mix_lt entry.key8 (Nat.le_trans within (by decide))
  let home (entry : KeyEntry) : Nat := mix entry.key8 bucketBits
  have fibers : ∀ bucket ∈ (sortedDistinct field.entries).toFinset.image home,
      ((sortedDistinct field.entries).toFinset.filter fun entry => home entry = bucket).card ≤ keyIdxBucketMaxEntries := by
    intro bucket member
    obtain ⟨entry, _, rfl⟩ := Finset.mem_image.mp member
    have framed : ((sortedDistinct field.entries).toFinset.filter fun other => home other = home entry) =
        (bucketEntries field.entries bucketBits (home entry)).toFinset := by
      ext other
      simp [bucketEntries, home]
    rw [framed, bucketEntries, toFinset_card_of_nodup (distinct.filter _)]
    exact bounded _ (inside entry)
  have image : ((sortedDistinct field.entries).toFinset.image home).card ≤ bucketCount bucketBits := by
    rw [← Finset.card_range (bucketCount bucketBits)]
    apply Finset.card_le_card
    intro bucket member
    obtain ⟨entry, _, rfl⟩ := Finset.mem_image.mp member
    exact Finset.mem_range.mpr (inside entry)
  calc (sortedDistinct field.entries).length
      = (sortedDistinct field.entries).toFinset.card := (toFinset_card_of_nodup distinct).symm
    _ ≤ keyIdxBucketMaxEntries * ((sortedDistinct field.entries).toFinset.image home).card :=
        Finset.card_le_mul_card_image _ _ fibers
    _ ≤ keyIdxBucketMaxEntries * bucketCount bucketBits := Nat.mul_le_mul_left _ image

end

end Buckets

/-- In every section that the writer accepts, the probe of a key under a field's name and type reads exactly the blocks
indexed under the key, in ascending order and each once; under any other name or type it declines. -/
theorem key_lookup_exact (fields : List KeyIdxFieldInput) (bucketBits : Nat) (index : KeyIdxSection)
    (encoded : encodeKeyIdxWithBucketBits fields bucketBits = .ok index) (key8 : Key8) :
    (∀ field ∈ fields, ∃ located entries, index.locate field.name field.keyType key8 = .ok (some located) ∧
      located.entries = .ok entries ∧ (located.matching entries).Pairwise (· < ·) ∧
      ∀ block, block ∈ located.matching entries ↔ ⟨key8, block⟩ ∈ field.entries) ∧
      ∀ name keyType, (∀ field ∈ fields, (field.name, field.keyType) ≠ (name, keyType)) →
        index.locate name keyType key8 = .ok none := by
  obtain ⟨within, written, bucketed, rfl⟩ := encodeKeyIdx_ok encoded
  obtain ⟨aligned, -, ascending⟩ := bucketFields_eq_ok bucketed
  constructor
  · intro field member
    obtain ⟨parts, inside, first⟩ := exists_right_of_forall₂ aligned member
    have named : parts.name = field.name := by rw [(bucketField_eq_ok first).1]
    have found : written.find? (fun other => other.name = field.name) = some parts := by
      cases found : written.find? fun other => other.name = field.name with
      | none => exact absurd named (by simpa using find?_eq_none.mp found parts inside)
      | some other =>
        have sameName : other.name = field.name := by simpa using find?_some found
        have distinct : (written.map KeyIdxField.name).Nodup :=
          pairwise_map.mpr (ascending.imp fun before => String.ne_of_lt before)
        rw [inj_on_of_nodup_map distinct inside (mem_of_find?_eq_some found) (named.trans sameName.symm)]
    obtain ⟨located, reads, ofKey, framed, entries⟩ := locate_written ⟨bucketBits, written⟩ within first found key8
    refine ⟨located, located.frame, reads, entries, ?_, ?_⟩
    · rw [KeyIdxBucket.matching, framed, ofKey, pairwise_map]
      refine (((sortedDistinct_ascending field.entries).filter _).filter _).imp_of_mem ?_
      intro first second firstIn secondIn before
      have firstKey : first.key8 = key8 := of_decide_eq_true (mem_filter.mp firstIn).2
      have secondKey : second.key8 = key8 := of_decide_eq_true (mem_filter.mp secondIn).2
      exact UInt32.not_le.mp fun above => before.2 (.inr ⟨secondKey.trans firstKey.symm, above⟩)
    · intro block
      rw [KeyIdxBucket.matching, framed, ofKey, bucketEntries, mem_map]
      constructor
      · rintro ⟨entry, inside, rfl⟩
        obtain ⟨inBucket, isKey⟩ := mem_filter.mp inside
        rw [← of_decide_eq_true isKey]
        exact mem_sortedDistinct.mp (mem_filter.mp inBucket).1
      · intro indexed
        exact ⟨⟨key8, block⟩, by simp [indexed], rfl⟩
  · intro name keyType absent
    rw [KeyIdxSection.locate]
    cases found : written.find? fun field => field.name = name with
    | none => rfl
    | some parts =>
      obtain ⟨field, member, first⟩ := exists_left_of_forall₂ aligned (mem_of_find?_eq_some found)
      have same := (bucketField_eq_ok first).1
      have named : parts.name = name := by simpa using find?_some found
      refine if_pos ?_
      intro sameType
      apply absent field member
      rw [← named, ← sameType, same]

/-- A field with a key of two blocks. -/
def codeField : KeyIdxFieldInput :=
  ⟨"code", .i64, [⟨Vector.replicate 8 7, 3⟩, ⟨Vector.replicate 8 7, 1⟩]⟩

theorem key_lookup_exact_two_fields :
    ∃ index located entries, encodeKeyIdxWithBucketBits [codeField, ⟨"trace_id", .id16, []⟩] 1 = .ok index ∧
      index.locate codeField.name codeField.keyType (Vector.replicate 8 7) = .ok (some located) ∧
      located.entries = .ok entries ∧
      ∀ block, block ∈ located.matching entries ↔ ⟨Vector.replicate 8 7, block⟩ ∈ codeField.entries := by
  have written : ∃ index, encodeKeyIdxWithBucketBits [codeField, ⟨"trace_id", .id16, []⟩] 1 = .ok index := ⟨_, by rfl⟩
  obtain ⟨index, encoded⟩ := written
  obtain ⟨located, entries, reads, checked, -, blocks⟩ :=
    (key_lookup_exact _ 1 index encoded (Vector.replicate 8 7)).1 codeField mem_cons_self
  exact ⟨index, located, entries, encoded, reads, checked, blocks⟩

end Ravel.Codec
