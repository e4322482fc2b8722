import Ravel.Proof.Logs.CanonicalRoundTrip

namespace Ravel.Logs

open List

variable {value : AttrValue} {depth : Nat} (text invalid : String)

theorem decodes_advance (bytes : List UInt8) : Decodes (advance bytes.length) bytes bytes := by
  intro pos rest within
  have enough : ¬(bytes ++ rest).length < bytes.length := by
    rw [length_append]
    omega
  have noOverflow : ¬2 ^ 64 ≤ pos + bytes.length := by omega
  simp only [advance, noOverflow, enough, if_false, take_left, drop_left]

/-- A length-prefixed run is read for a decoder that takes nothing more. -/
theorem decodes_lengthPrefixed {Value : Type} {next : List UInt8 → Decoder Value} {bytes : List UInt8} {result : Value}
    (reads : Decodes (next bytes) [] result) :
    Decodes (do next (← advance (← getUvarint).toNat)) (lengthPrefixed bytes) result := by
  apply Decodes.of_addressed
  intro addressed
  rw [lengthPrefixed, length_append] at addressed
  have read : Decodes (do next (← advance bytes.length)) (bytes ++ []) result := (decodes_advance bytes).bind reads
  rw [append_nil] at read
  apply (decodes_putUvarint _).bind
  rw [toNat_ofNat_of_lt (by omega)]
  exact read

theorem decodes_text : Decodes (decodeText invalid) (lengthPrefixed (utf8Bytes text)) text := by
  apply decodes_lengthPrefixed
  rw [utf8Text, fromUTF8_utf8Bytes]
  exact Decodes.pure text

/-- A count over the cap is refused before its elements are read. -/
theorem decides_capped {Value : Type} {decoder : Decoder Value} {bytes : List UInt8} {result : Value} {count : Nat}
    {fits : Prop} (what : String) (addressed : count < 2 ^ 64) (decides : Decides decoder bytes result fits) :
    Decides (if maxAttrEntries < UInt64.ofNat count then throw (corrupt what) else decoder) bytes result
      (count ≤ maxAttrEntries.toNat ∧ fits) := by
  have exceeds : maxAttrEntries < UInt64.ofNat count ↔ ¬count ≤ maxAttrEntries.toNat := by
    rw [UInt64.lt_iff_toNat_lt, toNat_ofNat_of_lt addressed, Nat.not_le]
  by_cases within : count ≤ maxAttrEntries.toNat
  · rw [if_neg fun exceeded => exceeds.mp exceeded within]
    exact decides.congr (by simp [within])
  · rw [if_pos (exceeds.mpr within)]
    exact decides_throw _ _ _ fun holds => within holds.1

/-- A set decoder with a level left decides the count and the values of the set. -/
theorem decides_attrSet {attrs : List (String × AttrValue)} {budget : Nat} (fits : AttrValue → Prop)
    (decides : ∀ attr ∈ attrs, Decides (decodeValue budget) (encodeValue attr.2) (canonicalValue attr.2) (fits attr.2)) :
    Decides (decodeAttrSet (budget + 1)) (canonicalAttrBytes attrs) (canonicalAttrs attrs)
      (attrs.length ≤ maxAttrEntries.toNat ∧ ∀ attr ∈ attrs, fits attr.2) := by
  apply Decides.of_addressed
  intro addressed
  have bounded := length_le_encodeEntrySet attrs
  rw [canonicalAttrBytes] at addressed ⊢
  rw [encodeEntrySet_eq, decodeAttrSet]
  apply (decodes_putUvarint _).andThen
  apply decides_capped _ (by omega)
  rw [toNat_ofNat_of_lt (by omega)]
  exact decides_entries fits (fun key => decodes_text key _) decides

theorem decides_attrList {items : List AttrValue} {budget : Nat} {fits : AttrValue → Prop}
    (decides : ∀ item ∈ items, Decides (decodeValue budget) (encodeValue item) (canonicalValue item) (fits item)) :
    Decides (do
      let count ← getUvarint
      if maxAttrEntries < count then throw (corrupt "stream_attrs list length over cap")
      else return .list (← decodeTimes (decodeValue budget) count.toNat))
      (putUvarint (UInt64.ofNat items.length) ++ encodeItems items) (canonicalValue (.list items))
      (items.length ≤ maxAttrEntries.toNat ∧ ∀ item ∈ items, fits item) := by
  apply Decides.of_addressed
  intro addressed
  have bounded := length_le_encodeItems items
  rw [length_append] at addressed
  apply (decodes_putUvarint _).andThen
  apply decides_capped _ (by omega)
  rw [toNat_ofNat_of_lt (by omega), encodeItems_eq, canonicalValue, canonicalItems_eq]
  exact (decides_times items decides).map AttrValue.list

theorem itemsFitAt_iff (items : List AttrValue) : itemsFitAt items depth ↔ ∀ item ∈ items, valueFitsAt item depth := by
  induction items with
  | nil => simp [itemsFitAt]
  | cons item items ih => rw [itemsFitAt, Bool.and_eq_true, ih, forall_mem_cons]

theorem entriesFitAt_iff (entries : List (String × AttrValue)) :
    entriesFitAt entries depth ↔ ∀ entry ∈ entries, valueFitsAt entry.2 depth := by
  induction entries with
  | nil => simp [entriesFitAt]
  | cons entry entries ih => rw [entriesFitAt, Bool.and_eq_true, ih, forall_mem_cons]

theorem valueFitsAt_deep (deep : maxAttrDepth < depth) : ¬valueFitsAt value depth := by
  cases value <;> simp [valueFitsAt, deep]

theorem valueFitsAt_list {items : List AttrValue} (within : depth ≤ maxAttrDepth) : valueFitsAt (.list items) depth ↔
    items.length ≤ maxAttrEntries.toNat ∧ ∀ item ∈ items, valueFitsAt item (depth + 1) := by
  rw [valueFitsAt, if_neg (Nat.not_lt.mpr within), Bool.and_eq_true, decide_eq_true_eq, itemsFitAt_iff]

theorem valueFitsAt_map {entries : List (String × AttrValue)} (within : depth ≤ maxAttrDepth) :
    valueFitsAt (.map entries) depth ↔ depth < maxAttrDepth ∧ entries.length ≤ maxAttrEntries.toNat ∧
      ∀ entry ∈ entries, valueFitsAt entry.2 (depth + 2) := by
  rw [valueFitsAt, if_neg (Nat.not_lt.mpr within), Bool.and_eq_true, Bool.and_eq_true, decide_eq_true_eq,
    decide_eq_true_eq, entriesFitAt_iff, and_assoc]

/-- The budget of a depth has the levels from it to the cap. -/
theorem budget_eq (within : depth ≤ maxAttrDepth) : maxAttrDepth + 1 - depth = (maxAttrDepth + 1 - (depth + 1)) + 1 := by
  omega

/-- The `stream_attrs` decoder reads back every value that fits, in canonical form, and refuses every other value. -/
theorem decides_value : ∀ depth, Decides (decodeValue (maxAttrDepth + 1 - depth)) (encodeValue value)
    (canonicalValue value) (valueFitsAt value depth) := by
  induction value using AttrValue.induction with
  | scalar value flat =>
    intro depth
    by_cases within : depth ≤ maxAttrDepth
    · have fits : valueFitsAt value depth := by
        cases value with
        | list items => cases flat
        | map entries => cases flat
        | _ => simp [valueFitsAt, within]
      rw [budget_eq within, decodeValue]
      cases value with
      | str text => exact (decodes_nextByte _ 1).andThen (((decodes_text text _).map AttrValue.str).decides fits)
      | i64 number => exact (decodes_nextByte _ 2).andThen (((decodes_zigzag number).map AttrValue.i64).decides fits)
      | f64 bits =>
        have read := (decodes_advance (toLeBytes bits)).map fun bytes => AttrValue.f64 (littleEndian64 bytes)
        rw [littleEndian64_toLeBytes] at read
        exact (decodes_nextByte _ 3).andThen (read.decides fits)
      | bool flag =>
        have read := (decodes_nextByte (corrupt "stream_attrs truncated") (if flag then 1 else 0)).map
          fun byte => AttrValue.bool (byte != 0)
        have flagged : ((if flag then 1 else 0 : UInt8) != 0) = flag := by cases flag <;> rfl
        rw [flagged] at read
        exact (decodes_nextByte _ 4).andThen (read.decides fits)
      | bytes run =>
        exact (decodes_nextByte _ 5).andThen ((decodes_lengthPrefixed (Decodes.pure (AttrValue.bytes run))).decides fits)
      | list items => cases flat
      | map entries => cases flat
    · rw [Nat.sub_eq_zero_of_le (by omega), decodeValue]
      exact decides_throw _ _ _ (valueFitsAt_deep (by omega))
  | list items ih =>
    intro depth
    by_cases within : depth ≤ maxAttrDepth
    · rw [budget_eq within, decodeValue]
      apply (decodes_nextByte _ 6).andThen
      exact (decides_attrList fun item member => ih item member (depth + 1)).congr (valueFitsAt_list within).symm
    · rw [Nat.sub_eq_zero_of_le (by omega), decodeValue]
      exact decides_throw _ _ _ (valueFitsAt_deep (by omega))
  | map entries ih =>
    intro depth
    by_cases within : depth ≤ maxAttrDepth
    · rw [budget_eq within, decodeValue]
      apply (decodes_nextByte _ 7).andThen
      refine Decides.map AttrValue.map (Decides.congr ?_ (valueFitsAt_map within).symm)
      by_cases inner : depth + 1 ≤ maxAttrDepth
      · rw [budget_eq inner]
        exact (decides_attrSet (fun value => valueFitsAt value (depth + 2)) fun entry member =>
          ih entry member (depth + 2)).congr (by simp [Nat.lt_of_succ_le inner])
      · rw [Nat.sub_eq_zero_of_le (by omega), decodeAttrSet]
        exact decides_throw _ _ _ fun holds => inner holds.1
    · rw [Nat.sub_eq_zero_of_le (by omega), decodeValue]
      exact decides_throw _ _ _ (valueFitsAt_deep (by omega))

/-- A map takes two levels of the admission rule and one of the `attrs_raw` decoder. -/
theorem checkAttrsRawValue_of_fits : ∀ depth level, depth + 1 ≤ level → valueFitsAt value level →
    checkAttrsRawValue depth value = .ok () := by
  have caps : maxAttrDepth ≤ attrsRawMapDepthCap ∧ attrsRawMapDepthCap < attrsRawReadDepthCap := by decide
  induction value using AttrValue.induction with
  | scalar value flat =>
    intro depth level _ _
    cases value <;> first | rfl | cases flat
  | list items ih =>
    intro depth level below fits
    have within : level ≤ maxAttrDepth := Nat.le_of_not_lt fun deep => valueFitsAt_deep deep fits
    obtain ⟨counted, fitItems⟩ := (valueFitsAt_list within).mp fits
    rw [checkAttrsRawValue_list (by omega)]
    exact ⟨if_neg (Nat.not_lt.mpr counted), fun item member =>
      ih item member (depth + 1) (level + 1) (by omega) (fitItems item member)⟩
  | map entries ih =>
    intro depth level below fits
    have within : level ≤ maxAttrDepth := Nat.le_of_not_lt fun deep => valueFitsAt_deep deep fits
    obtain ⟨_, counted, fitEntries⟩ := (valueFitsAt_map within).mp fits
    rw [checkAttrsRawValue_map (by omega)]
    exact ⟨if_neg (by omega), if_neg (Nat.not_lt.mpr counted), fun entry member =>
      ih entry member (depth + 1) (level + 2) (by omega) (fitEntries entry member)⟩

/-- The sets that the `stream_attrs` decoder accepts. -/
def SetFits (attrs : List (String × AttrValue)) : Prop :=
  attrs.length ≤ maxAttrEntries.toNat ∧ ∀ attr ∈ attrs, attrValueFitsStorage attr.2

theorem decides_set (attrs : List (String × AttrValue)) :
    Decides (decodeAttrSet (maxAttrDepth + 1)) (canonicalAttrBytes attrs) (canonicalAttrs attrs) (SetFits attrs) :=
  decides_attrSet (fun value => attrValueFitsStorage value) fun _ _ => decides_value 1

theorem isOk_of_decides {Value Output : Type} {decoder : Decoder Value} {bytes : List UInt8} {result : Value} {fits : Prop}
    (decided : Decides decoder bytes result fits) (addressed : bytes.length < 2 ^ 64)
    {finish : Value × Cursor → Except LogSegError Output} (finishes : ∃ output, finish (result, ⟨bytes.length, []⟩) = .ok output) :
    ((decoder ⟨0, bytes⟩ >>= finish).isOk ↔ fits) := by
  by_cases holds : fits
  · have read := decided.reads holds 0 [] (by rwa [Nat.zero_add])
    rw [append_nil, Nat.zero_add] at read
    obtain ⟨output, finished⟩ := finishes
    rw [read]
    show (finish (result, ⟨bytes.length, []⟩)).isOk ↔ fits
    rw [finished]
    exact iff_of_true rfl holds
  · obtain ⟨failure, refused⟩ := decided.refuses holds 0 [] (by rwa [Nat.zero_add])
    rw [append_nil] at refused
    rw [refused]
    exact iff_of_false Bool.false_ne_true holds

/-- The `stream_attrs` decoder accepts a blob exactly when both of its sets fit. -/
theorem decodeStreamAttrs_isOk {resource scopeAttrs : List (String × AttrValue)} {scopeName scopeVersion : String}
    (addressed : (streamAttrsBytes resource scopeName scopeVersion scopeAttrs).length < 2 ^ 64) :
    (decodeStreamAttrs (streamAttrsBytes resource scopeName scopeVersion scopeAttrs)).isOk ↔
      SetFits resource ∧ SetFits scopeAttrs := by
  apply isOk_of_decides _ addressed ⟨(⟨canonicalAttrs resource, scopeName, scopeVersion, canonicalAttrs scopeAttrs⟩ : StreamAttrs), rfl⟩
  apply (decides_set resource).bind
  intro _
  apply (decodes_text scopeName _).andThen
  apply (decodes_text scopeVersion _).andThen
  exact (decides_set scopeAttrs).map (StreamAttrs.mk (canonicalAttrs resource) scopeName scopeVersion)

/-- The `attrs_raw` decoder accepts the canonical bytes of a set exactly when the writer's check passes. -/
theorem decodeCanonicalAttrs_isOk {attrs : List (String × AttrValue)} (addressed : (canonicalAttrBytes attrs).length < 2 ^ 64) :
    (decodeCanonicalAttrs (canonicalAttrBytes attrs)).isOk ↔ (checkAttrsRawDecodable attrs).isOk := by
  have passed : (checkAttrsRawDecodable attrs).isOk ↔ checkAttrsRawDecodable attrs = .ok () := by
    cases checkAttrsRawDecodable attrs <;> simp [Except.isOk, Except.toBool]
  rw [passed]
  exact isOk_of_decides decides_canonicalAttrs addressed ⟨_, rfl⟩

theorem setFits_singleton (key : String) : SetFits [(key, value)] ↔ attrValueFitsStorage value := by
  have one : 1 ≤ maxAttrEntries.toNat := by decide
  simp [SetFits, one]

/-- The admission rule, the check and the two decoders agree. Encodings are addressed by 64 bits. -/
theorem admitted_values_decode :
    (∀ (value : AttrValue) (key scopeName scopeVersion : String),
      (streamAttrsBytes [(key, value)] scopeName scopeVersion [(key, value)]).length < 2 ^ 64 →
      (attrValueFitsStorage value ↔
        (decodeStreamAttrs (streamAttrsBytes [(key, value)] scopeName scopeVersion [(key, value)])).isOk ∧
        (decodeCanonicalAttrs (canonicalAttrBytes [(key, value)])).isOk)) ∧
    ∀ (bytes : List UInt8) (attrs : List (String × AttrValue)), canonicalAttrBytes attrs = bytes → bytes.length < 2 ^ 64 →
      ((checkAttrsRawDecodable attrs).isOk ↔ (decodeCanonicalAttrs bytes).isOk) := by
  constructor
  · intro value key scopeName scopeVersion addressed
    have inner : (canonicalAttrBytes [(key, value)]).length < 2 ^ 64 := by
      rw [streamAttrsBytes, length_append] at addressed
      omega
    rw [decodeStreamAttrs_isOk addressed, decodeCanonicalAttrs_isOk inner, setFits_singleton, and_self]
    constructor
    · intro fits
      have checkedValue := checkAttrsRawValue_of_fits 0 1 (Nat.le_refl 1) fits
      have checkedSet : checkAttrsRawDecodable [(key, value)] = .ok () :=
        checkAttrsRawDecodable_iff.mpr ⟨rfl, rfl, forall_mem_singleton.mpr checkedValue⟩
      exact ⟨fits, by rw [checkedSet]; rfl⟩
    · exact fun accepted => accepted.1
  · rintro bytes attrs rfl addressed
    exact (decodeCanonicalAttrs_isOk addressed).symm

/-- A list around a map. -/
theorem admitted_values_decode_nested :
    (attrValueFitsStorage (.list [.map [("k", .i64 7)]]) ↔
      (decodeStreamAttrs (streamAttrsBytes [("a", .list [.map [("k", .i64 7)]])] "" "" [("a", .list [.map [("k", .i64 7)]])])).isOk ∧
      (decodeCanonicalAttrs (canonicalAttrBytes [("a", .list [.map [("k", .i64 7)]])])).isOk) ∧
    ((checkAttrsRawDecodable [("a", .list [.map [("k", .i64 7)]])]).isOk ↔
      (decodeCanonicalAttrs (canonicalAttrBytes [("a", .list [.map [("k", .i64 7)]])])).isOk) :=
  ⟨admitted_values_decode.1 _ "a" "" "" (by decide +kernel), admitted_values_decode.2 _ _ rfl (by decide +kernel)⟩

end Ravel.Logs
