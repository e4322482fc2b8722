import Ravel.Construction.Logs.Stamp
import Ravel.Proof.Logs.Varints

namespace Ravel.Logs

open List

/-- The contents of a list or map come before the value. -/
theorem AttrValue.induction {motive : AttrValue → Prop} (scalar : ∀ value, isNested value = false → motive value)
    (list : ∀ items, (∀ item ∈ items, motive item) → motive (.list items))
    (map : ∀ entries, (∀ entry ∈ entries, motive entry.2) → motive (.map entries)) : ∀ value, motive value
  | .str value => scalar _ rfl
  | .i64 value => scalar _ rfl
  | .f64 value => scalar _ rfl
  | .bool value => scalar _ rfl
  | .bytes value => scalar _ rfl
  | .list items => list items fun item member =>
    have : sizeOf item < sizeOf items := sizeOf_lt_of_mem member
    AttrValue.induction scalar list map item
  | .map entries => map entries fun entry member =>
    have : sizeOf entry.2 < sizeOf entry := by
      obtain ⟨key, value⟩ := entry
      simp only [Prod.mk.sizeOf_spec]
      omega
    have : sizeOf entry < sizeOf entries := sizeOf_lt_of_mem member
    AttrValue.induction scalar list map entry.2
termination_by value => sizeOf value
decreasing_by all_goals (simp only [AttrValue.list.sizeOf_spec, AttrValue.map.sizeOf_spec]; omega)

theorem encodeItems_eq (items : List AttrValue) : encodeItems items = items.flatMap encodeValue := by
  induction items with
  | nil => rfl
  | cons item items ih =>
    rw [encodeItems, ih, flatMap_cons]

/-- An entry with its encoded value. -/
def encodedEntry (entry : String × AttrValue) : String × List UInt8 :=
  (entry.1, encodeValue entry.2)

theorem encodeEntries_eq (entries : List (String × AttrValue)) : encodeEntries entries = entries.map encodedEntry := by
  induction entries with
  | nil => rfl
  | cons entry entries ih =>
    rw [encodeEntries, ih, map_cons, encodedEntry]

/-- The order of the entries of a set: by key bytes, then by encoded value. -/
def attrLe (left right : String × AttrValue) : Prop :=
  encodedEntryLe (encodedEntry left) (encodedEntry right)

instance : DecidableRel attrLe := fun _ _ =>
  inferInstanceAs (Decidable (encodedEntryLe _ _))

instance : Std.Total encodedEntryLe where
  total left right := by
    unfold encodedEntryLe
    by_cases before : utf8Bytes left.1 < utf8Bytes right.1
    · exact .inl (.inl before)
    by_cases after : utf8Bytes right.1 < utf8Bytes left.1
    · exact .inr (.inl after)
    have same : utf8Bytes left.1 = utf8Bytes right.1 := List.le_antisymm after before
    rcases List.le_total left.2 right.2 with below | above
    · exact .inl (.inr ⟨same, below⟩)
    · exact .inr (.inr ⟨same.symm, above⟩)

instance : IsTrans (String × List UInt8) encodedEntryLe where
  trans first second third := by
    unfold encodedEntryLe
    rintro (before | ⟨same, below⟩) (next | ⟨sameNext, belowNext⟩)
    · exact .inl (List.lt_trans before next)
    · exact .inl (sameNext ▸ before)
    · exact .inl (same ▸ next)
    · exact .inr ⟨same.trans sameNext, List.le_trans below belowNext⟩

instance : Std.Total attrLe where
  total left right := Std.Total.total (r := encodedEntryLe) (encodedEntry left) (encodedEntry right)

instance : IsTrans (String × AttrValue) attrLe where
  trans _ _ _ first second := IsTrans.trans (r := encodedEntryLe) _ _ _ first second

/- The value that the decoder returns for the bytes of a value: every map in canonical order. -/
mutual

def canonicalValue : AttrValue → AttrValue
  | .list items => .list (canonicalItems items)
  | .map entries => .map ((canonicalEntries entries).insertionSort attrLe)
  | value => value

def canonicalItems : List AttrValue → List AttrValue
  | [] => []
  | item :: items => canonicalValue item :: canonicalItems items

def canonicalEntries : List (String × AttrValue) → List (String × AttrValue)
  | [] => []
  | (key, value) :: entries => (key, canonicalValue value) :: canonicalEntries entries

end

/-- The set that the decoder returns for the canonical bytes of a set. -/
def canonicalAttrs (attrs : List (String × AttrValue)) : List (String × AttrValue) :=
  (canonicalEntries attrs).insertionSort attrLe

theorem canonicalItems_eq (items : List AttrValue) : canonicalItems items = items.map canonicalValue := by
  induction items with
  | nil => rfl
  | cons item items ih =>
    rw [canonicalItems, ih, map_cons]

/-- An entry with its canonical value. -/
def canonicalEntry (entry : String × AttrValue) : String × AttrValue :=
  (entry.1, canonicalValue entry.2)

variable (entries : List (String × AttrValue)) {attrs : List (String × AttrValue)} (value : AttrValue) {Value : Type}
  {decoder : Decoder Value} {count : Nat} (what text : String) {decodeValue : Decoder AttrValue} {depth : Nat}

theorem canonicalEntries_eq : canonicalEntries entries = entries.map canonicalEntry := by
  induction entries with
  | nil => rfl
  | cons entry entries ih =>
    rw [canonicalEntries, ih, map_cons, canonicalEntry]

theorem sortedEncodings :
    (encodeEntries entries).insertionSort encodedEntryLe = (entries.insertionSort attrLe).map encodedEntry := by
  rw [encodeEntries_eq]
  symm
  apply map_insertionSort
  intro left _ right _
  rfl

/-- Canonical order depends on the encodings only. -/
theorem canonicalAttrs_eq (attrs : List (String × AttrValue))
    (same : ∀ attr ∈ attrs, encodedEntry (canonicalEntry attr) = encodedEntry attr) :
    canonicalAttrs attrs = (attrs.insertionSort attrLe).map canonicalEntry := by
  rw [canonicalAttrs, canonicalEntries_eq]
  symm
  apply map_insertionSort
  intro left leftIn right rightIn
  rw [attrLe, attrLe, same left leftIn, same right rightIn]

/-- The canonical set has the encodings of the set, in order. -/
theorem encodeEntries_canonicalAttrs (same : ∀ attr ∈ attrs, encodedEntry (canonicalEntry attr) = encodedEntry attr) :
    encodeEntries (canonicalAttrs attrs) = (encodeEntries attrs).insertionSort encodedEntryLe := by
  rw [canonicalAttrs_eq attrs same, sortedEncodings, encodeEntries_eq, map_map]
  apply map_congr_left
  intro attr member
  exact same attr ((mem_insertionSort _).mp member)

theorem encodeEntrySet_canonicalAttrs (same : ∀ attr ∈ attrs, encodedEntry (canonicalEntry attr) = encodedEntry attr) :
    encodeEntrySet (encodeEntries (canonicalAttrs attrs)) = encodeEntrySet (encodeEntries attrs) := by
  rw [encodeEntrySet, encodeEntries_canonicalAttrs same,
    (pairwise_insertionSort encodedEntryLe _).insertionSort_eq, length_insertionSort, encodeEntrySet]

/-- The canonical form keeps the encoding. -/
@[simp] theorem encodeValue_canonicalValue : encodeValue (canonicalValue value) = encodeValue value := by
  induction value using AttrValue.induction with
  | scalar value flat => cases value <;> first | rfl | cases flat
  | list items ih =>
    have sameItems : (items.map canonicalValue).flatMap encodeValue = items.flatMap encodeValue := by
      rw [flatMap_map]
      exact flatMap_congr ih
    rw [canonicalValue, encodeValue, encodeValue, canonicalItems_eq, encodeItems_eq, encodeItems_eq, sameItems,
      length_map]
  | map entries ih =>
    have same : ∀ entry ∈ entries, encodedEntry (canonicalEntry entry) = encodedEntry entry := by
      intro entry member
      rw [encodedEntry, encodedEntry, canonicalEntry, ih entry member]
    have sameSet := encodeEntrySet_canonicalAttrs same
    rw [canonicalAttrs] at sameSet
    rw [canonicalValue, encodeValue, encodeValue, sameSet]

@[simp] theorem encodedEntry_canonicalEntry (entry : String × AttrValue) :
    encodedEntry (canonicalEntry entry) = encodedEntry entry := by
  rw [encodedEntry, encodedEntry, canonicalEntry, encodeValue_canonicalValue]

/-- The bytes of a decoder's input are addressed by 64 bits. -/
theorem Decodes.of_addressed {bytes : List UInt8} {value : Value}
    (reads : bytes.length < 2 ^ 64 → Decodes decoder bytes value) : Decodes decoder bytes value := by
  intro pos rest within
  exact reads (by omega) pos rest within

theorem toNat_ofNat_of_lt (within : count < 2 ^ 64) : (UInt64.ofNat count).toNat = count := by
  rw [UInt64.toNat_ofNat']
  exact Nat.mod_eq_of_lt within

theorem decodes_rawBytes (bytes : List UInt8) : Decodes (decodeRawBytes what) (lengthPrefixed bytes) bytes := by
  apply Decodes.of_addressed
  intro addressed
  rw [lengthPrefixed, length_append] at addressed
  apply (decodes_putUvarint _).bind
  rw [toNat_ofNat_of_lt (by omega)]
  exact decodes_takeBytes what bytes

theorem fromUTF8_utf8Bytes : String.fromUTF8? (utf8Bytes text).toByteArray = some text := by
  have bytes : (utf8Bytes text).toByteArray = text.toByteArray := by
    apply ByteArray.ext
    rw [data_toByteArray, utf8Bytes, Array.toArray_toList]
  rw [bytes, String.fromUTF8?, dif_pos text.isValidUTF8]
  rfl

theorem utf8Bytes_injective {left right : String} (same : utf8Bytes left = utf8Bytes right) : left = right := by
  have read := fromUTF8_utf8Bytes left
  rw [same, fromUTF8_utf8Bytes] at read
  exact (Option.some_injective _ read).symm

theorem utf8Bytes_inj {left right : String} : utf8Bytes left = utf8Bytes right ↔ left = right :=
  ⟨utf8Bytes_injective, congrArg utf8Bytes⟩

/-- The text of a byte run of the named field. -/
def rawText (what : String) (bytes : List UInt8) : Decoder String :=
  match String.fromUTF8? bytes.toByteArray with
  | some text => pure text
  | none => throw (.corrupted (what ++ " not utf-8"))

theorem decodes_rawText : Decodes (decodeRawText what) (lengthPrefixed (utf8Bytes text)) text := by
  have decoded : Decodes (rawText what (utf8Bytes text)) [] text := by
    rw [rawText, fromUTF8_utf8Bytes]
    exact Decodes.pure text
  have read : Decodes (decodeRawBytes what >>= rawText what) _ text := (decodes_rawBytes what _).bind decoded
  rwa [append_nil] at read

theorem Decides.of_addressed {bytes : List UInt8} {value : Value} {fits : Prop}
    (decides : bytes.length < 2 ^ 64 → Decides decoder bytes value fits) : Decides decoder bytes value fits :=
  ⟨fun holds => Decodes.of_addressed fun addressed => (decides addressed).reads holds,
    fun fails pos rest within => (decides (by omega)).refuses fails pos rest within⟩

theorem decides_checked (bound : Except LogSegError Unit) : Decides (checked bound) [] () (bound = .ok ()) := by
  constructor
  · intro holds pos rest _
    rw [holds]
    rfl
  · intro fails pos rest _
    cases bound with
    | error failure => exact ⟨failure, rfl⟩
    | ok => exact absurd rfl fails

theorem decides_throw (failure : LogSegError) (bytes : List UInt8) (value : Value)
    {fits : Prop} (fails : ¬fits) : Decides (throw failure : Decoder Value) bytes value fits :=
  ⟨fun holds => absurd holds fails, fun _ _ _ _ => ⟨failure, rfl⟩⟩

theorem decides_times {Element : Type} {encode : Element → List UInt8} {decode : Element → Value} {fits : Element → Prop}
    (elements : List Element)
    (decides : ∀ element ∈ elements, Decides decoder (encode element) (decode element) (fits element)) :
    Decides (decodeTimes decoder elements.length) (elements.flatMap encode) (elements.map decode)
      (∀ element ∈ elements, fits element) := by
  induction elements with
  | nil => exact (Decodes.pure []).decides (by simp)
  | cons element elements ih =>
    have first := decides element mem_cons_self
    have later := ih fun other member => decides other (mem_cons_of_mem element member)
    exact (first.bind fun _ => later.map (decode element :: ·)).congr forall_mem_cons.symm

theorem length_le_flatMap {Element : Type} {encode : Element → List UInt8} {elements : List Element}
    (written : ∀ element ∈ elements, encode element ≠ []) : elements.length ≤ (elements.flatMap encode).length := by
  induction elements with
  | nil => exact Nat.le_refl 0
  | cons element elements ih =>
    have first := length_pos_of_ne_nil (written element mem_cons_self)
    have rest := ih fun other member => written other (mem_cons_of_mem _ member)
    rw [flatMap_cons, length_append, length_cons]
    omega

theorem encodeValue_ne_nil : encodeValue value ≠ [] := by
  cases value <;> simp [encodeValue]

/-- A set or a list has no more elements than bytes. -/
theorem length_le_encodeItems (items : List AttrValue) : items.length ≤ (encodeItems items).length := by
  rw [encodeItems_eq]
  exact length_le_flatMap fun item _ => encodeValue_ne_nil item

theorem encodeEntrySet_eq : encodeEntrySet (encodeEntries entries) = putUvarint (UInt64.ofNat entries.length) ++
      (entries.insertionSort attrLe).flatMap fun attr => lengthPrefixed (utf8Bytes attr.1) ++ encodeValue attr.2 := by
  rw [encodeEntrySet, sortedEncodings, flatMap_map, encodeEntries_eq, length_map]
  rfl

theorem length_le_encodeEntrySet : entries.length ≤ (encodeEntrySet (encodeEntries entries)).length := by
  have each : ∀ attr ∈ entries.insertionSort attrLe, lengthPrefixed (utf8Bytes attr.1) ++ encodeValue attr.2 ≠ [] :=
    fun attr _ empty => encodeValue_ne_nil attr.2 (append_eq_nil_iff.mp empty).2
  have written := length_le_flatMap each
  rw [length_insertionSort] at written
  rw [encodeEntrySet_eq, length_append]
  omega

/-- A decoder that decides the values of a set decides its entries, and reads them in canonical order. -/
theorem decides_entries {decodeKey : Decoder String} (fits : AttrValue → Prop)
    (keys : ∀ key, Decodes decodeKey (lengthPrefixed (utf8Bytes key)) key)
    (decides : ∀ attr ∈ attrs, Decides decodeValue (encodeValue attr.2) (canonicalValue attr.2) (fits attr.2)) :
    Decides (decodeTimes (do
      let key ← decodeKey
      let value ← decodeValue
      return (key, value)) attrs.length)
      ((attrs.insertionSort attrLe).flatMap fun attr => lengthPrefixed (utf8Bytes attr.1) ++ encodeValue attr.2)
      (canonicalAttrs attrs) (∀ attr ∈ attrs, fits attr.2) := by
  have decidesEntry : ∀ attr ∈ attrs.insertionSort attrLe, Decides (do
      let key ← decodeKey
      let value ← decodeValue
      return (key, value)) (lengthPrefixed (utf8Bytes attr.1) ++ encodeValue attr.2) (canonicalEntry attr) (fits attr.2) := by
    intro attr member
    apply (keys attr.1).andThen
    exact (decides attr ((mem_insertionSort _).mp member)).map (attr.1, ·)
  have decidesAll := decides_times (attrs.insertionSort attrLe) decidesEntry
  rw [length_insertionSort] at decidesAll
  rw [canonicalAttrs_eq attrs fun attr _ => encodedEntry_canonicalEntry attr]
  exact decidesAll.congr (by simp only [mem_insertionSort])

theorem decides_rawSet (fits : AttrValue → Prop)
    (decides : ∀ attr ∈ attrs, Decides decodeValue (encodeValue attr.2) (canonicalValue attr.2) (fits attr.2)) :
    Decides (decodeRawSet decodeValue depth) (encodeEntrySet (encodeEntries attrs)) (canonicalAttrs attrs)
      (attrsRawSetDepth depth = .ok () ∧ attrsRawSetCount attrs.length = .ok () ∧ ∀ attr ∈ attrs, fits attr.2) := by
  apply Decides.of_addressed
  intro addressed
  have bounded := length_le_encodeEntrySet attrs
  rw [encodeEntrySet_eq]
  apply (decides_checked (attrsRawSetDepth depth)).bind
  intro _
  apply (decodes_putUvarint _).andThen
  rw [toNat_ofNat_of_lt (by omega)]
  apply (decides_checked _).bind
  intro _
  exact decides_entries fits (decodes_rawText "attr key") decides

theorem decides_rawList {items : List AttrValue} {fits : AttrValue → Prop}
    (decides : ∀ item ∈ items, Decides decodeValue (encodeValue item) (canonicalValue item) (fits item)) :
    Decides (decodeRawList decodeValue) (putUvarint (UInt64.ofNat items.length) ++ encodeItems items)
      (canonicalItems items) (attrsRawListCount items.length = .ok () ∧ ∀ item ∈ items, fits item) := by
  apply Decides.of_addressed
  intro addressed
  have bounded := length_le_encodeItems items
  rw [length_append] at addressed
  rw [canonicalItems_eq]
  apply (decodes_putUvarint _).andThen
  rw [toNat_ofNat_of_lt (by omega), encodeItems_eq]
  apply (decides_checked _).bind
  intro _
  exact decides_times items decides

theorem decides_tagged {decodeList : Decoder (List AttrValue)} {decodeMap : Decoder (List (String × AttrValue))}
    {fits : Prop} (scalar : isNested value = false → fits)
    (decidesList : ∀ items, value = .list items → Decides decodeList
      (putUvarint (UInt64.ofNat items.length) ++ encodeItems items) (canonicalItems items) fits)
    (decidesMap : ∀ entries, value = .map entries → Decides decodeMap (encodeEntrySet (encodeEntries entries))
      (canonicalAttrs entries) fits) :
    Decides (decodeRawTagged decodeList decodeMap) (encodeValue value) (canonicalValue value) fits := by
  cases value with
  | str text => exact (decodes_nextByte _ 1).andThen (((decodes_rawText "attr str" text).map AttrValue.str).decides (scalar rfl))
  | i64 number => exact (decodes_nextByte _ 2).andThen (((decodes_zigzag number).map AttrValue.i64).decides (scalar rfl))
  | f64 bits =>
    have read := (decodes_takeBytes "attr f64" (toLeBytes bits)).map fun bytes => AttrValue.f64 (littleEndian64 bytes)
    rw [littleEndian64_toLeBytes] at read
    exact (decodes_nextByte _ 3).andThen (read.decides (scalar rfl))
  | bool flag =>
    have read := (decodes_nextByte (.corrupted "attr bool truncated") (if flag then 1 else 0)).map
      fun byte => AttrValue.bool (byte != 0)
    have flagged : ((if flag then 1 else 0 : UInt8) != 0) = flag := by cases flag <;> rfl
    rw [flagged] at read
    exact (decodes_nextByte _ 4).andThen (read.decides (scalar rfl))
  | bytes run =>
    exact (decodes_nextByte _ 5).andThen (((decodes_rawBytes "attr bytes" run).map AttrValue.bytes).decides (scalar rfl))
  | list items => exact (decodes_nextByte _ 6).andThen ((decidesList items rfl).map AttrValue.list)
  | map entries => exact (decodes_nextByte _ 7).andThen ((decidesMap entries rfl).map AttrValue.map)

theorem checkAttrsRawItems_iff (depth : Nat) (items : List AttrValue) :
    checkAttrsRawItems depth items = .ok () ↔ ∀ item ∈ items, checkAttrsRawValue depth item = .ok () := by
  induction items with
  | nil => simp [checkAttrsRawItems]
  | cons item items ih =>
    rw [forall_mem_cons, ← ih, checkAttrsRawItems]
    cases checkAttrsRawValue depth item <;> simp [bind, Except.bind]

theorem checkAttrsRawEntries_iff (depth : Nat) (entries : List (String × AttrValue)) :
    checkAttrsRawEntries depth entries = .ok () ↔ ∀ entry ∈ entries, checkAttrsRawValue depth entry.2 = .ok () := by
  induction entries with
  | nil => simp [checkAttrsRawEntries]
  | cons entry entries ih =>
    rw [forall_mem_cons, ← ih, checkAttrsRawEntries]
    cases checkAttrsRawValue depth entry.2 <;> simp [bind, Except.bind]

/-- The budget of a level is one above the budget of its contents. -/
theorem decodeRawValue_at (within : depth + 1 ≤ attrsRawReadDepthCap) : decodeRawValue (attrsRawReadDepthCap - depth) =
      decodeRawTagged (decodeRawList (decodeRawValue (attrsRawReadDepthCap - (depth + 1))))
        (decodeRawSet (decodeRawValue (attrsRawReadDepthCap - (depth + 1))) (depth + 1)) := by
  have budget : attrsRawReadDepthCap - depth = (attrsRawReadDepthCap - (depth + 1)) + 1 := by omega
  have level : attrsRawReadDepthCap - (attrsRawReadDepthCap - (depth + 1)) = depth + 1 := by omega
  rw [budget, decodeRawValue, level]

theorem attrsRawInnerDepth_of_le (within : depth + 1 ≤ attrsRawReadDepthCap) : attrsRawInnerDepth depth = .ok (depth + 1) :=
  if_neg (Nat.not_lt.mpr within)

/-- At the read cap the decoder has no level left, and the check fails. -/
theorem attrsRawInnerDepth_of_lt (deep : attrsRawReadDepthCap < depth + 1) : attrsRawInnerDepth depth = .error attrsRawTooDeep :=
  if_pos deep

theorem checkAttrsRawValue_list {items : List AttrValue} (within : depth + 1 ≤ attrsRawReadDepthCap) :
    checkAttrsRawValue depth (.list items) = .ok () ↔
      attrsRawListCount items.length = .ok () ∧ ∀ item ∈ items, checkAttrsRawValue (depth + 1) item = .ok () := by
  rw [← checkAttrsRawItems_iff, checkAttrsRawValue, attrsRawInnerDepth_of_le within]
  cases attrsRawListCount items.length <;> simp [bind, Except.bind]

theorem checkAttrsRawValue_map {entries : List (String × AttrValue)} (within : depth + 1 ≤ attrsRawReadDepthCap) :
    checkAttrsRawValue depth (.map entries) = .ok () ↔
      attrsRawSetDepth (depth + 1) = .ok () ∧ attrsRawSetCount entries.length = .ok () ∧
        ∀ entry ∈ entries, checkAttrsRawValue (depth + 1) entry.2 = .ok () := by
  rw [← checkAttrsRawEntries_iff, checkAttrsRawValue, attrsRawInnerDepth_of_le within]
  show (attrsRawSetDepth (depth + 1) >>= fun _ => attrsRawSetCount entries.length >>= fun _ =>
    checkAttrsRawEntries (depth + 1) entries) = .ok () ↔ _
  cases attrsRawSetDepth (depth + 1) <;> cases attrsRawSetCount entries.length <;> simp [bind, Except.bind]

theorem checkAttrsRawValue_deep (nested : isNested value = true) (deep : attrsRawReadDepthCap < depth + 1) :
    checkAttrsRawValue depth value ≠ .ok () := by
  cases value with
  | list items =>
    rw [checkAttrsRawValue, attrsRawInnerDepth_of_lt deep]
    intro passed
    cases passed
  | map entries =>
    rw [checkAttrsRawValue, attrsRawInnerDepth_of_lt deep]
    intro passed
    cases passed
  | _ => cases nested

/-- The decoder reads back every checked value, in canonical form, and refuses every other value. -/
theorem decides_rawValue : ∀ depth, Decides (decodeRawValue (attrsRawReadDepthCap - depth)) (encodeValue value)
    (canonicalValue value) (checkAttrsRawValue depth value = .ok ()) := by
  induction value using AttrValue.induction with
  | scalar value flat =>
    intro depth
    have passed : checkAttrsRawValue depth value = .ok () := by cases value <;> first | rfl | cases flat
    cases attrsRawReadDepthCap - depth <;>
      exact decides_tagged value (fun _ => passed) (fun items nested => by rw [nested] at flat; cases flat)
        fun entries nested => by rw [nested] at flat; cases flat
  | list items ih =>
    intro depth
    by_cases within : depth + 1 ≤ attrsRawReadDepthCap
    · rw [decodeRawValue_at within]
      apply decides_tagged (.list items) nofun
      · intro others same
        cases same
        exact (decides_rawList fun item member => ih item member _).congr (checkAttrsRawValue_list within).symm
      · nofun
    · rw [Nat.sub_eq_zero_of_le (by omega)]
      have refused := checkAttrsRawValue_deep (.list items) rfl (Nat.lt_of_not_le within)
      exact decides_tagged (.list items) nofun (fun _ _ => decides_throw _ _ _ refused) fun _ _ => decides_throw _ _ _ refused
  | map entries ih =>
    intro depth
    by_cases within : depth + 1 ≤ attrsRawReadDepthCap
    · rw [decodeRawValue_at within]
      apply decides_tagged (.map entries) nofun
      · nofun
      · intro others same
        cases same
        exact (decides_rawSet (fun value => checkAttrsRawValue (depth + 1) value = .ok ())
          fun entry member => ih entry member _).congr (checkAttrsRawValue_map within).symm
    · rw [Nat.sub_eq_zero_of_le (by omega)]
      have refused := checkAttrsRawValue_deep (.map entries) rfl (Nat.lt_of_not_le within)
      exact decides_tagged (.map entries) nofun (fun _ _ => decides_throw _ _ _ refused) fun _ _ => decides_throw _ _ _ refused

theorem decodes_rawValue (depth : Nat) (passed : checkAttrsRawValue depth value = .ok ()) :
    Decodes (decodeRawValue (attrsRawReadDepthCap - depth)) (encodeValue value) (canonicalValue value) :=
  (decides_rawValue value depth).reads passed

theorem checkAttrsRawDecodable_iff : checkAttrsRawDecodable attrs = .ok () ↔ attrsRawSetDepth 0 = .ok () ∧
    attrsRawSetCount attrs.length = .ok () ∧ ∀ attr ∈ attrs, checkAttrsRawValue 0 attr.2 = .ok () := by
  rw [← checkAttrsRawEntries_iff, checkAttrsRawDecodable, checkAttrsRawSet]
  cases attrsRawSetDepth 0 <;> cases attrsRawSetCount attrs.length <;> simp [bind, Except.bind]

theorem decides_canonicalAttrs : Decides (decodeRawSet (decodeRawValue attrsRawReadDepthCap) 0) (canonicalAttrBytes attrs)
    (canonicalAttrs attrs) (checkAttrsRawDecodable attrs = .ok ()) :=
  (decides_rawSet (fun value => checkAttrsRawValue 0 value = .ok ()) fun attr _ => decides_rawValue attr.2 0).congr
    checkAttrsRawDecodable_iff.symm

theorem decodeCanonicalAttrs_canonicalAttrBytes (passed : checkAttrsRawDecodable attrs = .ok ())
    (addressed : (canonicalAttrBytes attrs).length < 2 ^ 64) :
    decodeCanonicalAttrs (canonicalAttrBytes attrs) = .ok (canonicalAttrs attrs) := by
  have read := decides_canonicalAttrs.reads passed 0 [] (by rwa [Nat.zero_add])
  rw [append_nil] at read
  rw [decodeCanonicalAttrs, read]
  rfl

end Ravel.Logs
