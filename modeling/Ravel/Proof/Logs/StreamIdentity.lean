import Ravel.Proof.Logs.CanonicalRoundTrip

namespace Ravel.Logs

open List

/-- Two values that differ in the order of map entries only, at any level. -/
inductive Reordered : AttrValue → AttrValue → Prop where
  | refl (value : AttrValue) : Reordered value value
  | symm {left right : AttrValue} (same : Reordered left right) : Reordered right left
  | trans {left middle right : AttrValue} (first : Reordered left middle) (second : Reordered middle right) :
    Reordered left right
  | item {left right : AttrValue} (before after : List AttrValue) (same : Reordered left right) :
    Reordered (.list (before ++ left :: after)) (.list (before ++ right :: after))
  | entry {left right : AttrValue} (before after : List (String × AttrValue)) (key : String) (same : Reordered left right) :
    Reordered (.map (before ++ (key, left) :: after)) (.map (before ++ (key, right) :: after))
  | order {left right : List (String × AttrValue)} (same : left.Perm right) : Reordered (.map left) (.map right)

section Orders

/-- The order of the entries is lost in the sort. -/
theorem encodeEntrySet_perm {left right : List (String × List UInt8)} (same : left.Perm right) :
    encodeEntrySet left = encodeEntrySet right := by
  have sorted : left.insertionSort encodedEntryLe = right.insertionSort encodedEntryLe := by
    apply Perm.eq_of_pairwise _ (pairwise_insertionSort encodedEntryLe left) (pairwise_insertionSort encodedEntryLe right)
    · exact ((perm_insertionSort _ left).trans same).trans (perm_insertionSort _ right).symm
    · intro first second _ _ below above
      rcases below with before | ⟨sameKey, below⟩
      · rcases above with after | ⟨sameKey, -⟩
        · exact absurd (List.lt_trans before after) (List.lt_irrefl _)
        · exact absurd (sameKey ▸ before) (List.lt_irrefl _)
      · rcases above with after | ⟨-, above⟩
        · exact absurd (sameKey ▸ after) (List.lt_irrefl _)
        · exact Prod.ext (utf8Bytes_injective sameKey) (List.le_antisymm below above)
  rw [encodeEntrySet, encodeEntrySet, sorted, same.length_eq]

theorem Reordered.encodeValue_eq {left right : AttrValue} (same : Reordered left right) :
    encodeValue left = encodeValue right := by
  induction same with
  | refl value => rfl
  | symm _ ih => exact ih.symm
  | trans _ _ first second => exact first.trans second
  | item before after _ ih =>
    simp only [encodeValue, encodeItems_eq, flatMap_append, flatMap_cons, ih, length_append, length_cons]
  | entry before after key _ ih =>
    simp only [encodeValue, encodeEntries_eq, map_append, map_cons, encodedEntry, ih]
  | order same =>
    simp only [encodeValue, encodeEntries_eq]
    rw [encodeEntrySet_perm (same.map encodedEntry)]

/-- Every item of a list may be replaced. -/
theorem Reordered.items {change : AttrValue → AttrValue} (before : List AttrValue) {items : List AttrValue}
    (same : ∀ item ∈ items, Reordered item (change item)) :
    Reordered (.list (before ++ items)) (.list (before ++ items.map change)) := by
  induction items generalizing before with
  | nil => exact .refl _
  | cons item items ih =>
    have later := ih (before ++ [change item]) fun other member => same other (mem_cons_of_mem item member)
    rw [append_assoc, append_assoc] at later
    exact (Reordered.item before items (same item mem_cons_self)).trans later

theorem Reordered.entries {change : AttrValue → AttrValue} (before : List (String × AttrValue))
    {entries : List (String × AttrValue)} (same : ∀ entry ∈ entries, Reordered entry.2 (change entry.2)) :
    Reordered (.map (before ++ entries)) (.map (before ++ entries.map fun entry => (entry.1, change entry.2))) := by
  induction entries generalizing before with
  | nil => exact .refl _
  | cons entry entries ih =>
    have later := ih (before ++ [(entry.1, change entry.2)]) fun other member => same other (mem_cons_of_mem entry member)
    rw [append_assoc, append_assoc] at later
    exact (Reordered.entry before entries entry.1 (same entry mem_cons_self)).trans later

/-- The canonical form of a value is an order of it. -/
theorem reordered_canonicalValue (value : AttrValue) : Reordered value (canonicalValue value) := by
  induction value using AttrValue.induction with
  | scalar value flat => cases value <;> first | exact .refl _ | cases flat
  | list items ih =>
    rw [canonicalValue, canonicalItems_eq]
    exact Reordered.items [] ih
  | map entries ih =>
    rw [canonicalValue, canonicalEntries_eq]
    exact (Reordered.entries [] ih).trans (.order (perm_insertionSort _ _).symm)

end Orders

section Readers

/-- A reader of nested values without bounds on depth and counts. -/
def decodeNested : Nat → Decoder AttrValue
  | 0 => throw attrsRawTooDeep
  | level + 1 =>
    decodeRawTagged (do decodeTimes (decodeNested level) (← getUvarint).toNat) (do
      let count ← getUvarint
      decodeTimes (do
        let key ← decodeRawText "attr key"
        let value ← decodeNested level
        return (key, value)) count.toNat)

/-- The bytes of a set after its tag. -/
theorem decides_nestedSet {level : Nat} {attrs : List (String × AttrValue)}
    (decides : ∀ attr ∈ attrs, Decides (decodeNested level) (encodeValue attr.2) (canonicalValue attr.2) True) :
    Decides (do
      let count ← getUvarint
      decodeTimes (do
        let key ← decodeRawText "attr key"
        let value ← decodeNested level
        return (key, value)) count.toNat) (encodeEntrySet (encodeEntries attrs)) (canonicalAttrs attrs) True := by
  apply Decides.of_addressed
  intro addressed
  have bounded := length_le_encodeEntrySet attrs
  rw [encodeEntrySet_eq]
  apply (decodes_putUvarint _).andThen
  rw [toNat_ofNat_of_lt (by omega)]
  exact (decides_entries (fun _ => True) (decodes_rawText "attr key") decides).congr (by simp)

/-- A value is read back in canonical form, however deep it is. -/
theorem decides_nested (level : Nat) : ∀ value : AttrValue, sizeOf value ≤ level →
    Decides (decodeNested level) (encodeValue value) (canonicalValue value) True := by
  induction level with
  | zero =>
    intro value deep
    cases value <;> simp at deep
  | succ level ih =>
    intro value deep
    apply decides_tagged value fun _ => trivial
    · rintro items rfl
      apply Decides.of_addressed
      intro addressed
      have bounded := length_le_encodeItems items
      rw [length_append] at addressed
      apply (decodes_putUvarint _).andThen
      rw [toNat_ofNat_of_lt (by omega), encodeItems_eq, canonicalItems_eq]
      have each : ∀ item ∈ items, Decides (decodeNested level) (encodeValue item) (canonicalValue item) True := by
        intro item member
        have smaller := sizeOf_lt_of_mem member
        rw [AttrValue.list.sizeOf_spec] at deep
        exact ih item (by omega)
      exact (decides_times items each).congr (by simp)
    · rintro entries rfl
      apply decides_nestedSet
      rintro ⟨key, value⟩ member
      apply ih
      have smaller := sizeOf_lt_of_mem member
      rw [AttrValue.map.sizeOf_spec] at deep
      rw [Prod.mk.sizeOf_spec] at smaller
      dsimp only
      omega

/-- A reader of two byte runs that go on to one text has read the same value from both. -/
theorem Decodes.unique {Value : Type} {decoder : Decoder Value} {left right leftRest rightRest : List UInt8}
    {leftValue rightValue : Value} (readsLeft : Decodes decoder left leftValue) (readsRight : Decodes decoder right rightValue)
    (leftFits : left.length < 2 ^ 64) (rightFits : right.length < 2 ^ 64) (same : left ++ leftRest = right ++ rightRest) :
    leftValue = rightValue ∧ leftRest = rightRest := by
  have first := readsLeft 0 leftRest (by omega)
  have second := readsRight 0 rightRest (by omega)
  rw [same, second, Except.ok.injEq, Prod.mk.injEq, Cursor.mk.injEq] at first
  exact ⟨first.1.symm, first.2.2.symm⟩

end Readers

section Streams

/-- Attributes whose canonical bytes are addressed by 64 bits. -/
structure AttrTree where
  attrs : List (String × AttrValue)
  addressed : (canonicalAttrBytes attrs).length < 2 ^ 64

/-- The bytes that open two texts determine the attributes up to the order of map entries, and what follows them. -/
theorem AttrTree.bytes_unique (left right : AttrTree) {leftRest rightRest : List UInt8}
    (same : canonicalAttrBytes left.attrs ++ leftRest = canonicalAttrBytes right.attrs ++ rightRest) :
    Reordered (.map left.attrs) (.map right.attrs) ∧ leftRest = rightRest := by
  have read (tree : AttrTree) (within : sizeOf tree.attrs ≤ sizeOf left.attrs + sizeOf right.attrs) :=
    (@decides_nestedSet (sizeOf left.attrs + sizeOf right.attrs) tree.attrs (by
      rintro ⟨key, value⟩ member
      apply decides_nested
      have smaller := sizeOf_lt_of_mem member
      rw [Prod.mk.sizeOf_spec] at smaller
      dsimp only
      omega)).reads trivial
  obtain ⟨canonical, rest⟩ := (read left (by omega)).unique (read right (by omega)) left.addressed right.addressed same
  have leftOrder := reordered_canonicalValue (.map left.attrs)
  have rightOrder := reordered_canonicalValue (.map right.attrs)
  rw [canonicalValue, ← canonicalAttrs] at leftOrder rightOrder
  rw [canonical] at leftOrder
  exact ⟨leftOrder.trans rightOrder.symm, rest⟩

theorem AttrTree.bytes_eq_iff (left right : AttrTree) :
    canonicalAttrBytes left.attrs = canonicalAttrBytes right.attrs ↔ Reordered (.map left.attrs) (.map right.attrs) := by
  constructor
  · intro same
    exact (left.bytes_unique right (congrArg (· ++ []) same)).1
  · intro same
    have bytes := same.encodeValue_eq
    rw [encodeValue, encodeValue] at bytes
    exact (cons.inj bytes).2

/-- A log stream of a tenant. -/
structure LogStream where
  tenant : List UInt8
  resource : AttrTree
  scopeName : String
  scopeVersion : String
  scopeAttrs : AttrTree
  named : (utf8Bytes scopeName).length < 2 ^ 63
  versioned : (utf8Bytes scopeVersion).length < 2 ^ 63

def LogStream.preimage (stream : LogStream) : List UInt8 :=
  logStreamPreimage stream.resource.attrs stream.scopeName stream.scopeVersion stream.scopeAttrs.attrs

theorem text_unique {left right : String} {leftRest rightRest : List UInt8} (leftFits : (utf8Bytes left).length < 2 ^ 63)
    (rightFits : (utf8Bytes right).length < 2 ^ 63)
    (same : lengthPrefixed (utf8Bytes left) ++ leftRest = lengthPrefixed (utf8Bytes right) ++ rightRest) :
    left = right ∧ leftRest = rightRest := by
  have fits {text : String} (short : (utf8Bytes text).length < 2 ^ 63) : (lengthPrefixed (utf8Bytes text)).length < 2 ^ 64 := by
    have header : (putUvarint (UInt64.ofNat (utf8Bytes text).length)).length ≤ 10 := length_putUvarintLoop_le 10 _
    rw [lengthPrefixed, length_append]
    omega
  exact (decodes_rawText "" left).unique (decodes_rawText "" right) (fits leftFits) (fits rightFits) same

/-- Canonical bytes are a complete invariant of attribute trees, and the bytes hashed for a stream determine its attribute trees
and its scope. -/
theorem stream_preimage_eq_iff (left right : LogStream) :
    (canonicalAttrBytes left.resource.attrs = canonicalAttrBytes right.resource.attrs ↔
      Reordered (.map left.resource.attrs) (.map right.resource.attrs)) ∧
    (left.preimage = right.preimage ↔ Reordered (.map left.resource.attrs) (.map right.resource.attrs) ∧
      left.scopeName = right.scopeName ∧ left.scopeVersion = right.scopeVersion ∧
        Reordered (.map left.scopeAttrs.attrs) (.map right.scopeAttrs.attrs)) := by
  refine ⟨left.resource.bytes_eq_iff right.resource, ?_⟩
  unfold LogStream.preimage logStreamPreimage streamAttrsBytes
  rw [append_cancel_left_eq]
  constructor
  · intro same
    obtain ⟨resources, same⟩ := left.resource.bytes_unique right.resource same
    obtain ⟨names, same⟩ := text_unique left.named right.named same
    obtain ⟨versions, same⟩ := text_unique left.versioned right.versioned same
    exact ⟨resources, names, versions, (left.scopeAttrs.bytes_eq_iff right.scopeAttrs).mp same⟩
  · rintro ⟨resources, names, versions, scopes⟩
    rw [(left.resource.bytes_eq_iff right.resource).mpr resources, names, versions,
      (left.scopeAttrs.bytes_eq_iff right.scopeAttrs).mpr scopes]

/-- A stream without attributes and without a scope. -/
def bareStream (tenant : List UInt8) : LogStream where
  tenant := tenant
  resource := ⟨[], by decide⟩
  scopeName := ""
  scopeVersion := ""
  scopeAttrs := ⟨[], by decide⟩
  named := by decide
  versioned := by decide

/-- Streams of two tenants share the bytes. -/
theorem preimage_names_no_tenant :
    (bareStream [1]).tenant ≠ (bareStream [2]).tenant ∧ (bareStream [1]).preimage = (bareStream [2]).preimage :=
  ⟨by decide, rfl⟩

end Streams

end Ravel.Logs
