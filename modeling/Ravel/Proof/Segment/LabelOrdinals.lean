import Ravel.Construction.Segment.ChunkedCatalogs
import Ravel.Library.FailingRuns
import Ravel.Proof.Logs.CanonicalRoundTrip

namespace Ravel.Segment

open List Codec Logs Library

section Dictionaries

/-- What indexing a dictionary ensures: each string has one ordinal, of 32 bits. -/
structure IsLabelDict (dict : List Bytes) : Prop where
  distinct : dict.Nodup
  bounded : dict.length < 2 ^ 32

variable {count : Nat} {bytes rest : Bytes} {dict : List Bytes}

theorem dictEntries_nodup {seen entries : List Bytes} (read : dictEntries count seen bytes = .ok (entries, rest))
    (distinct : seen.Nodup) : (seen ++ entries).Nodup := by
  induction count generalizing seen entries bytes rest with
  | zero =>
    cases read
    rw [append_nil]
    exact distinct
  | succ count ih =>
    obtain ⟨⟨length, afterLength⟩, _, read⟩ := ok_of_bind read
    obtain ⟨⟨entry, afterEntry⟩, _, read⟩ := ok_of_bind read
    dsimp only at read
    by_cases repeated : entry ∈ seen
    · rw [if_pos repeated] at read
      cases read
    · rw [if_neg repeated] at read
      obtain ⟨⟨later, afterLater⟩, isLater, returned⟩ := ok_of_bind read
      cases returned
      have extended : (seen ++ [entry]).Nodup := by
        rw [← concat_eq_append]
        exact Nodup.concat repeated distinct
      have whole := ih isLater extended
      rwa [append_assoc, singleton_append] at whole

theorem length_dictEntries {seen entries : List Bytes} (read : dictEntries count seen bytes = .ok (entries, rest)) :
    entries.length = count := by
  induction count generalizing seen entries bytes rest with
  | zero =>
    cases read
    rfl
  | succ count ih =>
    obtain ⟨⟨length, afterLength⟩, _, read⟩ := ok_of_bind read
    obtain ⟨⟨entry, afterEntry⟩, _, read⟩ := ok_of_bind read
    dsimp only at read
    by_cases repeated : entry ∈ seen
    · rw [if_pos repeated] at read
      cases read
    · rw [if_neg repeated] at read
      obtain ⟨⟨later, afterLater⟩, isLater, returned⟩ := ok_of_bind read
      cases returned
      rw [length_cons, ih isLater]

theorem takeU32_lt {value : Nat} (read : takeU32 bytes = .ok (value, rest)) : value < 2 ^ 32 := by
  unfold takeU32 at read
  split at read
  · cases read
    exact UInt32.toNat_lt _
  · cases read

theorem isLabelDict_of_index (indexed : indexLabelDict bytes = .ok dict) : IsLabelDict dict := by
  obtain ⟨⟨count, afterCount⟩, isCount, indexed⟩ := ok_of_bind indexed
  obtain ⟨⟨entries, afterEntries⟩, isEntries, indexed⟩ := ok_of_bind indexed
  dsimp only at isEntries indexed
  split at indexed
  · cases indexed
    constructor
    · exact dictEntries_nodup isEntries nodup_nil
    · rw [length_dictEntries isEntries]
      exact takeU32_lt isCount
  · cases indexed

theorem IsLabelDict.ordinal_eq (isDict : IsLabelDict dict) {entry : Bytes} {left right : UInt64}
    (atLeft : dict[left.toNat]? = some entry) (atRight : dict[right.toNat]? = some entry) : left = right := by
  obtain ⟨inside, _⟩ := List.getElem?_eq_some_iff.mp atLeft
  apply UInt64.toNat_inj.mp
  exact (getElem?_inj inside isDict.distinct).mp (atLeft.trans atRight.symm)

theorem IsLabelDict.toNat_ofNat (isDict : IsLabelDict dict) {index : Nat} (inside : index < dict.length) :
    (UInt64.ofNat index).toNat = index := by
  have bounded := isDict.bounded
  have size : UInt64.size = 2 ^ 64 := rfl
  exact UInt64.toNat_ofNat_of_lt' (by omega)

/-- Resolving an ordinal gives the text whose bytes it has. -/
theorem resolveOrdinal_eq_ok {ord : UInt64} {text : String} :
    resolveOrdinal dict ord = .ok text ↔ dict[ord.toNat]? = some (utf8Bytes text) := by
  rw [resolveOrdinal]
  cases stored : dict[ord.toNat]? with
  | none => simp
  | some entry =>
    dsimp only
    rw [Option.some_inj]
    constructor
    · intro resolved
      split at resolved
      · rename_i decoded isDecoded
        cases resolved
        rw [String.fromUTF8?] at isDecoded
        split at isDecoded
        · cases isDecoded
          exact (toList_data_toByteArray (l := entry)).symm
        · cases isDecoded
      · cases resolved
    · rintro rfl
      rw [fromUTF8_utf8Bytes]

end Dictionaries

section WantedPairs

/-- Two ordinals have the texts of a pair. -/
def HasOrdinals (dict : List Bytes) (pair : String × String) (ords : UInt64 × UInt64) : Prop :=
  dict[ords.1.toNat]? = some (utf8Bytes pair.1) ∧ dict[ords.2.toNat]? = some (utf8Bytes pair.2)

variable {dict : List Bytes} {pair : String × String} {ords : UInt64 × UInt64} {schema : Schema}
  {values : List UInt64} {pairs : List (String × String)} {wanted : List (UInt64 × UInt64)}

theorem HasOrdinals.ord_eq (isDict : IsLabelDict dict) {left right : UInt64 × UInt64}
    (atLeft : HasOrdinals dict pair left) (atRight : HasOrdinals dict pair right) : left = right :=
  Prod.ext (isDict.ordinal_eq atLeft.1 atRight.1) (isDict.ordinal_eq atLeft.2 atRight.2)

/-- Two pairs with the same ordinals are the same. -/
theorem HasOrdinals.pair_eq {left right : String × String} (atLeft : HasOrdinals dict left ords)
    (atRight : HasOrdinals dict right ords) : left = right := by
  have name := Option.some.inj (atLeft.1.symm.trans atRight.1)
  have value := Option.some.inj (atLeft.2.symm.trans atRight.2)
  exact Prod.ext (utf8Bytes_injective name) (utf8Bytes_injective value)

/-- The pairs of a series are those of its ordinals, one for one. -/
theorem labelPairs_eq_ok : labelPairs dict schema values = .ok pairs ↔
      Forall₂ (fun ords pair => HasOrdinals dict pair ords) (schema.zip values) pairs := by
  rw [labelPairs, mapM_eq_ok]
  apply Iff.of_eq
  congr
  funext ords pair
  apply propext
  rw [bind_eq_ok]
  constructor
  · rintro ⟨name, isName, resolved⟩
    obtain ⟨value, isValue, returned⟩ := ok_of_bind resolved
    cases returned
    exact ⟨resolveOrdinal_eq_ok.mp isName, resolveOrdinal_eq_ok.mp isValue⟩
  · rintro ⟨isName, isValue⟩
    exact ⟨pair.1, resolveOrdinal_eq_ok.mpr isName, bind_eq_ok.mpr ⟨pair.2, resolveOrdinal_eq_ok.mpr isValue, rfl⟩⟩

theorem exists_ordinals (resolved : labelPairs dict schema values = .ok pairs) (member : pair ∈ pairs) :
    ∃ ords ∈ schema.zip values, HasOrdinals dict pair ords := by
  obtain ⟨index, inside, rfl⟩ := mem_iff_getElem.mp member
  have related := labelPairs_eq_ok.mp resolved
  have within : index < (schema.zip values).length := related.length_eq ▸ inside
  exact ⟨(schema.zip values)[index], getElem_mem within, related.get within inside⟩

/-- A wanted pair is among those of a series exactly when its ordinals are. -/
theorem mem_pairs_iff (isDict : IsLabelDict dict) (resolved : labelPairs dict schema values = .ok pairs)
    (wanted : HasOrdinals dict pair ords) : pair ∈ pairs ↔ ords ∈ schema.zip values := by
  constructor
  · intro member
    obtain ⟨own, inZip, has⟩ := exists_ordinals resolved member
    rwa [wanted.ord_eq isDict has]
  · intro member
    obtain ⟨index, within, rfl⟩ := mem_iff_getElem.mp member
    have related := labelPairs_eq_ok.mp resolved
    have inside : index < pairs.length := related.length_eq ▸ within
    rw [wanted.pair_eq (related.get within inside)]
    exact getElem_mem inside

/-- A schema without repeated names has an ordinal at one position only. -/
theorem mem_zip_iff (distinct : schema.Nodup) : ords ∈ schema.zip values ↔
      ((schema.findIdx? fun ord => ord = ords.1).any fun position => values[position]? = some ords.2) = true := by
  constructor
  · intro member
    obtain ⟨position, within, rfl⟩ := mem_iff_getElem.mp member
    rw [length_zip] at within
    have inSchema : position < schema.length := by omega
    have inValues : position < values.length := by omega
    rw [getElem_zip]
    have found : (schema.findIdx? fun ord => ord = schema[position]) = some position := by
      apply findIdx?_eq_some_iff_getElem.mpr
      refine ⟨inSchema, decide_eq_true rfl, ?_⟩
      intro earlier before same
      have equal := distinct.getElem_inj_iff.mp (of_decide_eq_true same)
      omega
    rw [found]
    exact decide_eq_true (getElem?_eq_getElem inValues)
  · intro matched
    rw [Option.any_eq_true] at matched
    obtain ⟨position, found, same⟩ := matched
    obtain ⟨inSchema, isName, _⟩ := findIdx?_eq_some_iff_getElem.mp found
    obtain ⟨inValues, isValue⟩ := List.getElem?_eq_some_iff.mp (of_decide_eq_true same)
    apply mem_iff_getElem.mpr
    refine ⟨position, by rw [length_zip]; omega, ?_⟩
    rw [getElem_zip, of_decide_eq_true isName, isValue]

/-- The values at the wanted names are the wanted ones exactly when every wanted pair is among those of the series. -/
theorem ordinalsMatch_iff (isDict : IsLabelDict dict) (distinct : schema.Nodup)
    (resolved : labelPairs dict schema values = .ok pairs) {equals : List (String × String)}
    (ordinals : Forall₂ (HasOrdinals dict) equals wanted) :
    ordinalsMatch wanted schema values = true ↔ ∀ pair ∈ equals, pair ∈ pairs := by
  rw [ordinalsMatch, all_eq_true]
  induction ordinals with
  | nil => simp
  | cons has _ ih =>
    rw [forall_mem_cons, forall_mem_cons, ih, mem_pairs_iff isDict resolved has,
      mem_zip_iff distinct]

/-- The positions of the wanted names are taken one by one or all together. -/
theorem keepsSeries_some (wanted : List (UInt64 × UInt64)) (schema : Schema) (values : List UInt64) :
    keepsSeries (some wanted) schema values = ordinalsMatch wanted schema values := by
  induction wanted with
  | nil => rfl
  | cons pair wanted ih =>
    rw [keepsSeries] at ih ⊢
    rw [schemaPositions, mapM_cons, ordinalsMatch, all_cons]
    rw [schemaPositions, ordinalsMatch] at ih
    cases schema.findIdx? fun ord => ord = pair.1 with
    | none => rfl
    | some position =>
      rw [← ih]
      cases wanted.mapM fun pair => schema.findIdx? fun ord => ord = pair.1 with
      | none => simp
      | some positions => simp

/-- A series whose values match has every wanted name. -/
theorem schemaPlausible_of_ordinalsMatch (matched : ordinalsMatch wanted schema values = true) :
    schemaPlausible wanted schema = true := by
  rw [ordinalsMatch, all_eq_true] at matched
  rw [schemaPlausible, all_eq_true]
  intro pair member
  obtain ⟨position, found, _⟩ := (Option.any_eq_true _ _).mp (matched pair member)
  obtain ⟨inSchema, isName, _⟩ := findIdx?_eq_some_iff_getElem.mp found
  rw [contains_iff_mem, ← of_decide_eq_true isName]
  exact getElem_mem inSchema

end WantedPairs

section Resolution

/-- A search gives the ordinal of each text of the dictionary. -/
structure FindsOrdinals (dict : List Bytes) (find : String → Option UInt64) : Prop where
  found : ∀ {text ord}, find text = some ord → dict[ord.toNat]? = some (utf8Bytes text)
  absent : ∀ {text}, find text = none → utf8Bytes text ∉ dict

variable {dict : List Bytes} {equals : List (String × String)}

theorem finds_findOrdinal (isDict : IsLabelDict dict) : FindsOrdinals dict (findOrdinal dict) where
  found := by
    intro text ord found
    obtain ⟨index, isIndex, rfl⟩ := Option.map_eq_some_iff.mp found
    obtain ⟨inside, same, _⟩ := findIdx?_eq_some_iff_getElem.mp isIndex
    rw [isDict.toNat_ofNat inside, getElem?_eq_getElem inside, of_decide_eq_true same]
  absent := by
    intro text absent member
    have noIndex := findIdx?_eq_none_iff.mp (Option.map_eq_none_iff.mp absent) _ member
    exact of_decide_eq_false noIndex rfl

theorem ascending_of_sorted (sorted : sortedAfterFirst dict = true) {first second : Nat} (least : 1 ≤ first)
    (before : first < second) (inside : second < dict.length) : dict.getD first [] < dict.getD second [] := by
  have next : ∀ index, 1 ≤ index → index + 1 < dict.length → dict.getD index [] < dict.getD (index + 1) [] := by
    intro index atLeast within
    have member : index ∈ List.range' 1 (dict.length - 1 - 1) := mem_range'_1.mpr ⟨atLeast, by omega⟩
    exact of_decide_eq_true (all_eq_true.mp sorted index member)
  induction second, before using Nat.le_induction with
  | base => exact next first least inside
  | succ second before ih =>
    exact List.lt_trans (ih (by omega)) (next second (by omega) inside)

theorem getD_eq_iff {index : Nat} (inside : index < dict.length) {entry : Bytes} :
    dict.getD index [] = entry ↔ dict[index]? = some entry := by
  rw [getD_eq_getElem?_getD, getElem?_eq_getElem inside, Option.getD_some, Option.some_inj]

/-- The search by halving and the one by one both find every text. -/
theorem finds_resolveText (isDict : IsLabelDict dict) : FindsOrdinals dict (resolveText dict) where
  found := by
    intro text ord found
    unfold resolveText at found
    dsimp only at found
    split at found
    · rename_i atHead
      cases found
      rw [head?_eq_getElem?] at atHead
      exact atHead
    · split at found
      · obtain ⟨index, isIndex, rfl⟩ := Option.map_eq_some_iff.mp found
        obtain ⟨_, inside, same⟩ := halvingFind_sound isIndex
        rw [isDict.toNat_ofNat inside]
        exact (getD_eq_iff inside).mp same
      · obtain ⟨index, isIndex, rfl⟩ := Option.map_eq_some_iff.mp found
        obtain ⟨least, bounded⟩ := mem_range'_1.mp (mem_of_find?_eq_some isIndex)
        have inside : index < dict.length := by omega
        rw [isDict.toNat_ofNat inside]
        have same := find?_some isIndex
        exact (getD_eq_iff inside).mp (of_decide_eq_true same)
  absent := by
    intro text absent member
    obtain ⟨index, inside, same⟩ := mem_iff_getElem.mp member
    have atIndex : dict[index]? = some (utf8Bytes text) := by rw [getElem?_eq_getElem inside, same]
    unfold resolveText at absent
    dsimp only at absent
    split at absent
    · cases absent
    · rename_i notHead
      have least : 1 ≤ index := by
        by_contra zero
        rw [show index = 0 by omega] at atIndex
        exact notHead (head?_eq_getElem? ▸ atIndex)
      split at absent
      · rename_i sorted
        have ascending : ∀ first second, 1 ≤ first → first < second → second < dict.length →
            dict.getD first [] < dict.getD second [] :=
          fun first second => ascending_of_sorted sorted
        exact halvingFind_complete ascending (Option.map_eq_none_iff.mp absent) least inside ((getD_eq_iff inside).mpr atIndex)
      · have none := find?_eq_none.mp (Option.map_eq_none_iff.mp absent) index
          (mem_range'_1.mpr ⟨least, by omega⟩)
        exact none (decide_eq_true ((getD_eq_iff inside).mpr atIndex))

/-- A wanted pair has a text that no label can have. -/
def LacksText (dict : List Bytes) (equals : List (String × String)) : Prop :=
  ∃ pair ∈ equals, utf8Bytes pair.1 ∉ dict ∨ utf8Bytes pair.2 ∉ dict

theorem LacksText.absent {pairs : List (String × String)} (lacks : LacksText dict equals) {schema : Schema}
    {values : List UInt64} (resolved : labelPairs dict schema values = .ok pairs) : ¬∀ pair ∈ equals, pair ∈ pairs := by
  obtain ⟨pair, wanted, missing⟩ := lacks
  intro every
  obtain ⟨ords, _, atName, atValue⟩ := exists_ordinals resolved (every pair wanted)
  rcases missing with noName | noValue
  · exact noName (mem_of_getElem? atName)
  · exact noValue (mem_of_getElem? atValue)

/-- The wanted pairs all have ordinals, or one has a text that is not in the dictionary. -/
theorem matcherOrds_spec (isDict : IsLabelDict dict) (equals : List (String × String)) :
    ((matcherOrds dict equals).2 = true ∧ Forall₂ (HasOrdinals dict) equals (matcherOrds dict equals).1) ∨
      ((matcherOrds dict equals).2 = false ∧ LacksText dict equals) := by
  have finds := finds_findOrdinal isDict
  induction equals with
  | nil => exact .inl ⟨rfl, .nil⟩
  | cons pair equals ih =>
    obtain ⟨name, value⟩ := pair
    rw [matcherOrds]
    split
    · rename_i nameOrd valueOrd atName atValue
      rcases ih with ⟨all, ordinals⟩ | ⟨notAll, other, member, lacks⟩
      · exact .inl ⟨all, .cons ⟨finds.found atName, finds.found atValue⟩ ordinals⟩
      · exact .inr ⟨notAll, other, mem_cons_of_mem _ member, lacks⟩
    · rename_i notBoth
      refine .inr ⟨rfl, (name, value), mem_cons_self, ?_⟩
      cases atName : findOrdinal dict name with
      | none => exact .inl (finds.absent atName)
      | some nameOrd =>
        cases atValue : findOrdinal dict value with
        | none => exact .inr (finds.absent atValue)
        | some valueOrd => exact absurd atValue (notBoth nameOrd valueOrd atName)

theorem resolveEquals_some (isDict : IsLabelDict dict) {wanted : List (UInt64 × UInt64)}
    (resolved : resolveEquals dict equals = some wanted) : Forall₂ (HasOrdinals dict) equals wanted := by
  have finds := finds_resolveText isDict
  induction equals generalizing wanted with
  | nil =>
    cases resolved
    exact .nil
  | cons pair equals ih =>
    rw [resolveEquals, mapM_cons] at resolved
    obtain ⟨ords, isOrds, resolved⟩ := Option.bind_eq_some_iff.mp resolved
    obtain ⟨later, isLater, returned⟩ := Option.bind_eq_some_iff.mp resolved
    obtain ⟨name, isName, isOrds⟩ := Option.bind_eq_some_iff.mp isOrds
    obtain ⟨value, isValue, isPair⟩ := Option.bind_eq_some_iff.mp isOrds
    cases isPair
    cases returned
    exact .cons ⟨finds.found isName, finds.found isValue⟩ (ih isLater)

theorem resolveEquals_none (isDict : IsLabelDict dict) (unresolved : resolveEquals dict equals = none) :
    LacksText dict equals := by
  have finds := finds_resolveText isDict
  induction equals with
  | nil => cases unresolved
  | cons pair equals ih =>
    rw [resolveEquals, mapM_cons] at unresolved
    cases atName : resolveText dict pair.1 with
    | none => exact ⟨pair, mem_cons_self, .inl (finds.absent atName)⟩
    | some name =>
      cases atValue : resolveText dict pair.2 with
      | none => exact ⟨pair, mem_cons_self, .inr (finds.absent atValue)⟩
      | some value =>
        rw [atName, atValue] at unresolved
        cases later : resolveEquals dict equals with
        | none =>
          obtain ⟨other, member, lacks⟩ := ih later
          exact ⟨other, mem_cons_of_mem _ member, lacks⟩
        | some wanted =>
          rw [resolveEquals] at later
          rw [later] at unresolved
          cases unresolved

end Resolution

end Ravel.Segment
