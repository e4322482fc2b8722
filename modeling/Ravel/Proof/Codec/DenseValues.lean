import Ravel.Construction.Codec.Scatter
import Ravel.Proof.Codec.BulkDecoding

namespace Ravel.Codec

open List Logs Library

section DenseValues

variable {map : Int64 → Except CodecError Int64}

variable {value : Int64} {run : Nat} {dense : List Int64} {rest : Bytes} {count : Nat} {bytes : Bytes} {enc : Enc}

theorem mapM_replicate_ok {mapped : Int64} (isMapped : map value = .ok mapped) (count : Nat) :
    (List.replicate count value).mapM map = .ok (List.replicate count mapped) := by
  apply mapM_eq_ok.mpr
  induction count with
  | zero => exact .nil
  | succ count ih => exact .cons isMapped ih

theorem mapM_append_eq_ok {first second outputs : List Int64} :
    (first ++ second).mapM map = .ok outputs ↔
      ∃ front back, first.mapM map = .ok front ∧ second.mapM map = .ok back ∧ outputs = front ++ back := by
  rw [mapM_append]
  constructor
  · intro mapped
    obtain ⟨front, isFront, mapped⟩ := ok_of_bind mapped
    obtain ⟨back, isBack, returned⟩ := ok_of_bind mapped
    exact ⟨front, back, isFront, isBack, (Except.ok.inj returned).symm⟩
  · rintro ⟨front, back, isFront, isBack, rfl⟩
    exact bind_eq_ok.mpr ⟨front, isFront, bind_eq_ok.mpr ⟨back, isBack, rfl⟩⟩

/-- A run is mapped once, and each of its values is that of the map. -/
theorem filled_eq_ok {filled : List Int64} :
    (if 0 < run then List.replicate run <$> map value else pure [] : Except CodecError (List Int64)) = .ok filled ↔
      (List.replicate run value).mapM map = .ok filled := by
  cases run with
  | zero => rfl
  | succ run =>
    rw [if_pos (Nat.succ_pos run)]
    cases isMapped : map value with
    | error error =>
      rw [replicate_succ, mapM_cons, isMapped]
      exact ⟨fun absurd => (by cases absurd), fun absurd => (by cases absurd)⟩
    | ok mapped =>
      rw [mapM_replicate_ok isMapped]
      rfl

theorem bind_filled (mapped : Except CodecError Int64) (run : Nat) (tail : Except CodecError (List Int64 × Bytes)) :
    (do
        let filled ← if 0 < run then List.replicate run <$> mapped else pure []
        let (values, rest) ← tail
        return (filled ++ values, rest) : Except CodecError (List Int64 × Bytes)) =
      (if 0 < run then List.replicate run <$> mapped else pure []) >>= fun filled =>
        tail >>= fun result => pure (filled ++ result.1, result.2) := by
  split <;> rfl

theorem runs_map_iff {mapped plain : Except CodecError (List Int64 × Bytes)}
    (later : ∀ {dense : List Int64}, mapped = .ok (dense, rest) ↔ ∃ values, plain = .ok (values, rest) ∧ values.mapM map = .ok dense) :
    (do
        let filled ← if 0 < run then List.replicate run <$> map value else pure []
        let (values, rest) ← mapped
        return (filled ++ values, rest) : Except CodecError (List Int64 × Bytes)) = .ok (dense, rest) ↔
      ∃ values, (do
        let filled ← if 0 < run then List.replicate run <$> Except.ok value else pure []
        let (values, rest) ← plain
        return (filled ++ values, rest) : Except CodecError (List Int64 × Bytes)) = .ok (values, rest) ∧
        values.mapM map = .ok dense := by
  simp only [bind_filled]
  constructor
  · intro same
    obtain ⟨filled, isFilled, same⟩ := ok_of_bind same
    obtain ⟨⟨others, left⟩, isOthers, returned⟩ := ok_of_bind same
    cases returned
    obtain ⟨values, isPlain, isMapped⟩ := later.mp isOthers
    have repeated := filled_eq_ok.mpr (mapM_ok (List.replicate run value))
    refine ⟨List.replicate run value ++ values, ?_, ?_⟩
    · exact bind_eq_ok.mpr ⟨_, repeated, bind_eq_ok.mpr ⟨_, isPlain, rfl⟩⟩
    · exact mapM_append_eq_ok.mpr ⟨filled, others, filled_eq_ok.mp isFilled, isMapped, rfl⟩
  · rintro ⟨values, same, isMapped⟩
    obtain ⟨filled, isFilled, same⟩ := ok_of_bind same
    obtain ⟨⟨others, left⟩, isOthers, returned⟩ := ok_of_bind same
    cases returned
    have repeated := filled_eq_ok.mp isFilled
    rw [mapM_ok] at repeated
    cases repeated
    obtain ⟨front, back, isFront, isBack, rfl⟩ := mapM_append_eq_ok.mp isMapped
    exact bind_eq_ok.mpr ⟨front, filled_eq_ok.mpr isFront, bind_eq_ok.mpr ⟨_, later.mpr ⟨others, isOthers, isBack⟩, rfl⟩⟩

theorem decodeRleLoop_map {runs total : Nat} : decodeRleLoop count map runs total bytes = .ok (dense, rest) ↔
      ∃ values, decodeRleLoop count .ok runs total bytes = .ok (values, rest) ∧ values.mapM map = .ok dense := by
  induction runs generalizing total bytes dense with
  | zero =>
    rw [decodeRleLoop, decodeRleLoop]
    split
    · constructor
      · intro same
        cases same
        exact ⟨[], rfl, rfl⟩
      · rintro ⟨values, same, mapped⟩
        cases same
        cases mapped
        rfl
    · constructor
      · intro same
        cases same
      · rintro ⟨values, same, _⟩
        cases same
  | succ runs ih =>
    rw [decodeRleLoop, decodeRleLoop]
    cases getIvarint bytes with
    | error error => simp [bind, Except.bind]
    | ok result =>
      obtain ⟨value, afterValue⟩ := result
      dsimp only [bind, Except.bind]
      cases getUvarint afterValue with
      | error error => simp [bind, Except.bind]
      | ok result =>
        obtain ⟨run, afterRun⟩ := result
        dsimp only
        split
        · simp [bind, Except.bind]
        · split
          · simp [bind, Except.bind]
          · exact runs_map_iff ih

theorem decodeVarints_map : decodeVarints enc bytes count map = .ok (dense, rest) ↔
      ∃ values, summed (sumsOf enc) (readRemaining count bytes) = .ok (values, rest) ∧ values.mapM map = .ok dense := by
  rw [decodeVarints, varintsInto_eq, summed]
  dsimp only
  have failed : ∀ (values : List Int64) (error : CodecError),
      (do
        let _ ← values.mapM map
        throw error : Except CodecError (List Int64 × Bytes)) ≠ .ok (dense, rest) := by
    intro values error same
    obtain ⟨_, _, absurd⟩ := ok_of_bind same
    cases absurd
  cases (sumsOf enc (readRemaining count bytes).1).2 with
  | some error => simp [failed]
  | none =>
    cases (readRemaining count bytes).2 with
    | error error => simp [failed]
    | ok left =>
      dsimp only
      constructor
      · intro same
        obtain ⟨mapped, isMapped, returned⟩ := ok_of_bind same
        cases returned
        exact ⟨_, rfl, isMapped⟩
      · rintro ⟨values, same, isMapped⟩
        cases same
        exact bind_eq_ok.mpr ⟨dense, isMapped, rfl⟩

theorem decodeDense_varints (storesVarints : StoresVarints enc) : decodeDense enc bytes count map = .ok dense ↔
      ∃ values, decodeI64 enc bytes count = .ok values ∧ values.mapM map = .ok dense := by
  have shape : decodeDense enc bytes count map = (do
      let (values, rest) ← decodeVarints enc bytes count map
      expectConsumed rest bytes
      return values) := by
    cases enc with
    | plain => rfl
    | deltaZigzag => rfl
    | doubleDelta => rfl
    | _ => exact absurd storesVarints id
  rw [shape, decodeI64_varints_eq storesVarints, varintsEach_eq storesVarints]
  constructor
  · intro same
    obtain ⟨⟨mapped, rest⟩, isMapped, same⟩ := ok_of_bind same
    obtain ⟨⟨⟩, consumed, returned⟩ := ok_of_bind same
    cases returned
    obtain ⟨values, isRead, isMap⟩ := decodeVarints_map.mp isMapped
    exact ⟨values, bind_eq_ok.mpr ⟨_, isRead, bind_eq_ok.mpr ⟨_, consumed, rfl⟩⟩, isMap⟩
  · rintro ⟨values, same, isMap⟩
    obtain ⟨⟨own, rest⟩, isRead, same⟩ := ok_of_bind same
    obtain ⟨⟨⟩, consumed, returned⟩ := ok_of_bind same
    cases returned
    exact bind_eq_ok.mpr ⟨_, decodeVarints_map.mpr ⟨values, isRead, isMap⟩, bind_eq_ok.mpr ⟨_, consumed, rfl⟩⟩

theorem decodeDense_rle : decodeDense .rle bytes count map = .ok dense ↔
      ∃ values, decodeI64 .rle bytes count = .ok values ∧ values.mapM map = .ok dense := by
  rw [decodeDense, decodeI64]
  constructor
  · intro same
    obtain ⟨⟨mapped, rest⟩, isMapped, same⟩ := ok_of_bind same
    obtain ⟨⟨⟩, consumed, returned⟩ := ok_of_bind same
    cases returned
    obtain ⟨⟨runCount, afterCount⟩, isCount, isMapped⟩ := ok_of_bind isMapped
    obtain ⟨values, isRead, isMap⟩ := decodeRleLoop_map.mp isMapped
    exact ⟨values, bind_eq_ok.mpr ⟨_, bind_eq_ok.mpr ⟨_, isCount, isRead⟩, bind_eq_ok.mpr ⟨_, consumed, rfl⟩⟩, isMap⟩
  · rintro ⟨values, same, isMap⟩
    obtain ⟨⟨own, rest⟩, isRead, same⟩ := ok_of_bind same
    obtain ⟨⟨⟩, consumed, returned⟩ := ok_of_bind same
    cases returned
    obtain ⟨⟨runCount, afterCount⟩, isCount, isRead⟩ := ok_of_bind isRead
    have mapped := decodeRleLoop_map.mpr ⟨values, isRead, isMap⟩
    exact bind_eq_ok.mpr ⟨_, bind_eq_ok.mpr ⟨_, isCount, mapped⟩, bind_eq_ok.mpr ⟨_, consumed, rfl⟩⟩

theorem decodeDense_constant : decodeDense .constant bytes count map = .ok dense ↔
      ∃ values, decodeI64 .constant bytes count = .ok values ∧ values.mapM map = .ok dense := by
  have shape : decodeDense .constant bytes count map = getIvarint bytes >>= fun read =>
      (if 0 < count then List.replicate count <$> map read.1 else pure []) >>= fun values =>
        expectConsumed read.2 bytes >>= fun _ => pure values := by
    rw [decodeDense]
    cases getIvarint bytes with
    | error error => rfl
    | ok read => cases count <;> rfl
  rw [shape, decodeI64]
  constructor
  · intro same
    obtain ⟨⟨value, rest⟩, isValue, same⟩ := ok_of_bind same
    obtain ⟨mapped, isMapped, same⟩ := ok_of_bind same
    obtain ⟨⟨⟩, consumed, returned⟩ := ok_of_bind same
    cases returned
    exact ⟨_, bind_eq_ok.mpr ⟨_, isValue, bind_eq_ok.mpr ⟨_, consumed, rfl⟩⟩, filled_eq_ok.mp isMapped⟩
  · rintro ⟨values, same, isMap⟩
    obtain ⟨⟨value, rest⟩, isValue, same⟩ := ok_of_bind same
    obtain ⟨⟨⟩, consumed, returned⟩ := ok_of_bind same
    cases returned
    exact bind_eq_ok.mpr ⟨_, isValue, bind_eq_ok.mpr ⟨_, filled_eq_ok.mpr isMap, bind_eq_ok.mpr ⟨_, consumed, rfl⟩⟩⟩

theorem decodeDense_for : decodeDense .forBitpack bytes count map = .ok dense ↔
      ∃ values, decodeI64 .forBitpack bytes count = .ok values ∧ values.mapM map = .ok dense := by
  rw [decodeDense, decodeI64]
  constructor
  · intro same
    obtain ⟨⟨base, bitWidth, payload⟩, isHeader, isMap⟩ := ok_of_bind same
    exact ⟨_, bind_eq_ok.mpr ⟨_, isHeader, rfl⟩, isMap⟩
  · rintro ⟨values, same, isMap⟩
    obtain ⟨⟨base, bitWidth, payload⟩, isHeader, returned⟩ := ok_of_bind same
    cases returned
    exact bind_eq_ok.mpr ⟨_, isHeader, isMap⟩

/-- The values of a page in place are those of the decoder, each mapped. -/
theorem decodeDense_eq_ok : decodeDense enc bytes count map = .ok dense ↔
      ∃ values, decodeI64 enc bytes count = .ok values ∧ values.mapM map = .ok dense := by
  cases enc with
  | constant => exact decodeDense_constant
  | rle => exact decodeDense_rle
  | forBitpack => exact decodeDense_for
  | plain => exact decodeDense_varints (show StoresVarints .plain from trivial)
  | deltaZigzag => exact decodeDense_varints (show StoresVarints .deltaZigzag from trivial)
  | doubleDelta => exact decodeDense_varints (show StoresVarints .doubleDelta from trivial)
  | _ => simp [decodeDense, decodeI64]

end DenseValues

section Lengths

variable {count : Nat} {bytes rest : Bytes} {values : List Int64} {enc : Enc} (buf : Bytes) (bitWidth : Nat)
  (base : Int64)

theorem length_plainEach (read : Oracle.plainEach count bytes = .ok (values, rest)) : values.length = count := by
  induction count generalizing bytes values with
  | zero =>
    cases read
    rfl
  | succ count ih =>
    obtain ⟨⟨value, afterValue⟩, _, read⟩ := ok_of_bind read
    obtain ⟨⟨later, afterLater⟩, isLater, returned⟩ := ok_of_bind read
    cases returned
    rw [length_cons, ih isLater]

theorem length_deltaEach {acc : Int64} (read : Oracle.deltaEach count acc bytes = .ok (values, rest)) :
    values.length = count := by
  induction count generalizing acc bytes values with
  | zero =>
    cases read
    rfl
  | succ count ih =>
    obtain ⟨⟨delta, afterDelta⟩, _, read⟩ := ok_of_bind read
    obtain ⟨sum, _, read⟩ := ok_of_bind read
    obtain ⟨⟨later, afterLater⟩, isLater, returned⟩ := ok_of_bind read
    cases returned
    rw [length_cons, ih isLater]

theorem length_doubleDeltaEach {value prevDelta : Int64}
    (read : Oracle.doubleDeltaEach count value prevDelta bytes = .ok (values, rest)) : values.length = count := by
  induction count generalizing value prevDelta bytes values with
  | zero =>
    cases read
    rfl
  | succ count ih =>
    obtain ⟨⟨dod, afterDod⟩, _, read⟩ := ok_of_bind read
    obtain ⟨delta, _, read⟩ := ok_of_bind read
    obtain ⟨sum, _, read⟩ := ok_of_bind read
    obtain ⟨⟨later, afterLater⟩, isLater, returned⟩ := ok_of_bind read
    cases returned
    rw [length_cons, ih isLater]

theorem length_varintsEach (storesVarints : StoresVarints enc)
    (read : Oracle.varintsEach enc count bytes = .ok (values, rest)) : values.length = count := by
  cases enc with
  | plain => exact length_plainEach read
  | deltaZigzag =>
    cases count with
    | zero =>
      cases read
      rfl
    | succ later =>
      obtain ⟨⟨first, afterFirst⟩, _, read⟩ := ok_of_bind read
      obtain ⟨⟨others, afterOthers⟩, isOthers, returned⟩ := ok_of_bind read
      cases returned
      rw [length_cons, length_deltaEach isOthers]
  | doubleDelta =>
    match count with
    | 0 =>
      cases read
      rfl
    | 1 =>
      obtain ⟨⟨first, afterFirst⟩, _, returned⟩ := ok_of_bind read
      cases returned
      rfl
    | later + 2 =>
      obtain ⟨⟨first, afterFirst⟩, _, read⟩ := ok_of_bind read
      obtain ⟨⟨delta, afterDelta⟩, _, read⟩ := ok_of_bind read
      obtain ⟨second, _, read⟩ := ok_of_bind read
      obtain ⟨⟨others, afterOthers⟩, isOthers, returned⟩ := ok_of_bind read
      cases returned
      rw [length_cons, length_cons, length_doubleDeltaEach isOthers]
  | _ => exact absurd storesVarints id

theorem length_rleEach {runs total : Nat} (read : Oracle.rleEach count runs total bytes = .ok (values, rest)) :
    total + values.length = count := by
  induction runs generalizing total bytes values with
  | zero =>
    rw [Oracle.rleEach] at read
    split at read
    · cases read
      assumption
    · cases read
  | succ runs ih =>
    obtain ⟨⟨value, afterValue⟩, _, read⟩ := ok_of_bind read
    obtain ⟨⟨run, afterRun⟩, _, read⟩ := ok_of_bind read
    dsimp only at read
    obtain ⟨-, read⟩ := ok_of_guard read
    obtain ⟨-, read⟩ := ok_of_guard read
    obtain ⟨⟨later, afterLater⟩, isLater, returned⟩ := ok_of_bind read
    cases returned
    have sum : total + run.toNat + later.length = count := ih isLater
    rw [length_append, length_replicate]
    show total + (run.toNat + later.length) = count
    omega

theorem length_unpackWide (wanted index : Nat) : (unpackWide buf bitWidth base wanted index).length = wanted := by
  induction wanted generalizing index with
  | zero => rfl
  | succ wanted ih => rw [unpackWide, length_cons, ih]

theorem length_unpackWindows (wanted index : Nat) : (unpackWindows buf bitWidth base wanted index).length = wanted := by
  induction wanted generalizing index with
  | zero => rfl
  | succ wanted ih =>
    rw [unpackWindows]
    split
    · exact length_unpackWide buf bitWidth base (wanted + 1) index
    · rw [length_cons, ih]

theorem length_unpackFor (count : Nat) : (unpackFor buf bitWidth base count).length = count := by
  rw [unpackFor]
  split
  · exact length_replicate
  · split
    · exact length_unpackWindows buf bitWidth base count 0
    · exact length_unpackWide buf bitWidth base count 0

/-- A page gives as many values as it is read for. -/
theorem length_decodeI64 (decoded : decodeI64 enc bytes count = .ok values) : values.length = count := by
  have varints : ∀ enc, StoresVarints enc → decodeI64 enc bytes count = .ok values → values.length = count := by
    intro enc storesVarints decoded
    rw [decodeI64_varints_eq storesVarints] at decoded
    obtain ⟨⟨own, rest⟩, isOwn, decoded⟩ := ok_of_bind decoded
    obtain ⟨⟨⟩, _, returned⟩ := ok_of_bind decoded
    cases returned
    exact length_varintsEach storesVarints isOwn
  cases enc with
  | plain => exact varints .plain trivial decoded
  | deltaZigzag => exact varints .deltaZigzag trivial decoded
  | doubleDelta => exact varints .doubleDelta trivial decoded
  | constant =>
    obtain ⟨_, _, decoded⟩ := ok_of_bind decoded
    obtain ⟨_, _, returned⟩ := ok_of_bind decoded
    cases returned
    exact length_replicate
  | rle =>
    obtain ⟨⟨own, rest⟩, isOwn, decoded⟩ := ok_of_bind decoded
    obtain ⟨_, _, returned⟩ := ok_of_bind decoded
    cases returned
    obtain ⟨⟨runCount, afterCount⟩, _, isOwn⟩ := ok_of_bind isOwn
    dsimp only at isOwn
    rw [← rleEach_eq] at isOwn
    rw [← length_rleEach isOwn, Nat.zero_add]
  | forBitpack =>
    obtain ⟨_, _, returned⟩ := ok_of_bind decoded
    cases returned
    exact length_unpackFor _ _ _ _
  | _ => cases decoded

theorem length_decodeDense {map : Int64 → Except CodecError Int64} {dense : List Int64}
    (decoded : decodeDense enc bytes count map = .ok dense) : dense.length = count := by
  obtain ⟨values, isValues, isMap⟩ := decodeDense_eq_ok.mp decoded
  rw [← (mapM_eq_ok.mp isMap).length_eq]
  exact length_decodeI64 isValues

end Lengths

end Ravel.Codec
