import Ravel.Construction.Maintain.LogParts
import Ravel.Proof.Logs.MergedViews

namespace Ravel.Maintain

open List Library Logs

/-- The value that a merged view holds for a declared column. A value of another type is null. -/
def declaredValue (view : List (String × AttrValue)) (column : String × DeclaredStatType) : Option DeclaredStatValue :=
  (resolveName view column.1).bind fun entry => typedStat column.2 entry.2

theorem declaredIndex_eq_some_iff {cols : List (String × DeclaredStatType)} (distinct : (cols.map Prod.fst).Nodup)
    {position : Nat} {column : String × DeclaredStatType} (located : cols[position]? = some column) (name : String) :
    declaredIndex cols name = some position ↔ name = column.1 := by
  have entries : ((cols.zipIdx.map fun entry => entry.1.1)).Nodup := by
    have same : (cols.zipIdx.map fun entry => entry.1.1) = cols.map Prod.fst := by
      conv_rhs => rw [← zipIdx_map_fst 0 cols, map_map]
      rfl
    rw [same]
    exact distinct
  have listed : (column, position) ∈ cols.zipIdx := mem_zipIdx_iff_getElem?.mpr located
  have only : ∀ entry ∈ cols.zipIdx, entry.1.1 = column.1 → entry = (column, position) := by
    intro entry entryIn sameName
    exact inj_on_of_nodup_map entries entryIn listed sameName
  rw [declaredIndex, Option.map_eq_some_iff]
  constructor
  · rintro ⟨entry, found, samePosition⟩
    obtain ⟨entryIn, passes⟩ := mem_of_lastPassing found
    have there : cols[entry.2]? = some entry.1 := mem_zipIdx_iff_getElem?.mp entryIn
    rw [samePosition, located] at there
    rw [Option.some_injective _ there]
    exact (of_decide_eq_true passes).symm
  · rintro rfl
    cases found : (cols.zipIdx.filter fun entry => entry.1.1 = column.1).getLast? with
    | none =>
      rw [getLast?_eq_none_iff, filter_eq_nil_iff] at found
      exact absurd (decide_eq_true rfl) (found (column, position) listed)
    | some entry =>
      obtain ⟨entryIn, passes⟩ := mem_of_lastPassing found
      have same := only entry entryIn (of_decide_eq_true passes)
      exact ⟨entry, rfl, congrArg Prod.snd same⟩

section Claims

variable {cols : List (String × DeclaredStatType)}

/-- The first scalar pair of a stream that names the declared column at a position. -/
def firstClaim (cols : List (String × DeclaredStatType)) (pairs : List (String × AttrValue)) (position : Nat) :
    Option (String × AttrValue) :=
  (pairs.filter fun pair => !isNested pair.2).find? fun pair => declaredIndex cols pair.1 = some position

def claimsOf (cols : List (String × DeclaredStatType)) (pairs : List (String × AttrValue)) : StreamClaims :=
  pairs.foldl (StreamClaims.claim cols) ⟨[], []⟩

/-- The typed value of a claim. -/
def claimValue (cols : List (String × DeclaredStatType)) (position : Nat) (pair : String × AttrValue) :
    Option DeclaredStatValue :=
  (cols[position]?).bind fun declared => typedStat declared.2 pair.2

/-- What the claims of a stream hold. -/
structure Claims (cols : List (String × DeclaredStatType)) (pairs : List (String × AttrValue)) (claims : StreamClaims) :
    Prop where
  claimed : ∀ position, position ∈ claims.claimed ↔ (firstClaim cols pairs position).isSome
  values : ∀ position, (claims.values.find? fun entry => entry.1 = position).map Prod.snd =
    (firstClaim cols pairs position).bind (claimValue cols position)
  distinct : (claims.values.map Prod.fst).Nodup
  listed : ∀ entry ∈ claims.values, entry.1 ∈ claims.claimed

theorem firstClaim_append (pairs : List (String × AttrValue)) (pair : String × AttrValue) (position : Nat) :
    firstClaim cols (pairs ++ [pair]) position =
      (firstClaim cols pairs position).or
        (if !isNested pair.2 ∧ declaredIndex cols pair.1 = some position then some pair else none) := by
  rw [firstClaim, filter_append, find?_append, firstClaim]
  cases nested : isNested pair.2
  · by_cases sought : declaredIndex cols pair.1 = some position <;> simp [nested, sought]
  · simp [nested]

theorem Claims.step {pairs : List (String × AttrValue)} {claims : StreamClaims} (holds : Claims cols pairs claims)
    (pair : String × AttrValue) : Claims cols (pairs ++ [pair]) (claims.claim cols pair) := by
  have same (skipped : ∀ position, firstClaim cols (pairs ++ [pair]) position = firstClaim cols pairs position) :
      Claims cols (pairs ++ [pair]) claims := by
    constructor
    · intro position
      rw [skipped, holds.claimed]
    · intro position
      rw [skipped, holds.values]
    · exact holds.distinct
    · exact holds.listed
  rw [StreamClaims.claim]
  split
  · rename_i nested
    apply same
    intro position
    simp [firstClaim_append, nested]
  rename_i scalar
  split
  · rename_i unindexed
    apply same
    intro position
    simp [firstClaim_append, unindexed]
  rename_i column indexed
  split
  · rename_i shadowed
    apply same
    intro position
    rw [firstClaim_append]
    by_cases own : column = position
    · have present := (holds.claimed position).mp (by simpa [own] using shadowed)
      obtain ⟨first, found⟩ := Option.isSome_iff_exists.mp present
      rw [found, Option.some_or]
    · simp [indexed, own]
  · rename_i fresh
    have absent : firstClaim cols pairs column = none := by
      rw [← Option.not_isSome_iff_eq_none, ← holds.claimed]
      simpa using fresh
    have own : firstClaim cols (pairs ++ [pair]) column = some pair := by
      simp [firstClaim_append, absent, scalar, indexed]
    have others : ∀ position, position ≠ column →
        firstClaim cols (pairs ++ [pair]) position = firstClaim cols pairs position := by
      intro position different
      simp [firstClaim_append, indexed, different.symm]
    have claimed : ∀ position, position ∈ column :: claims.claimed ↔
        (firstClaim cols (pairs ++ [pair]) position).isSome := by
      intro position
      by_cases here : position = column
      · simp [here, own]
      · rw [others position here, ← holds.claimed, mem_cons]
        simp [here]
    have unvalued : claims.values.find? (fun entry => entry.1 = column) = none := by
      have none := holds.values column
      rw [absent, Option.bind_none, Option.map_eq_none_iff] at none
      exact none
    cases valued : (cols[column]?).bind fun declared => typedStat declared.2 pair.2 with
    | none =>
      refine ⟨claimed, ?_, holds.distinct, fun entry entryIn => mem_cons_of_mem column (holds.listed entry entryIn)⟩
      intro position
      by_cases here : position = column
      · rw [here, own, unvalued, Option.bind_some, claimValue, valued]
        rfl
      · rw [others position here, holds.values]
    | some value =>
      refine ⟨claimed, ?_, ?_, ?_⟩
      · intro position
        rw [find?_append]
        by_cases here : position = column
        · rw [here, own, unvalued, Option.bind_some, claimValue, valued]
          simp
        · rw [others position here, ← holds.values]
          have skipped : [(column, value)].find? (fun entry => entry.1 = position) = none := by
            simp [Ne.symm here]
          rw [skipped, Option.or_none]
      · rw [map_append, nodup_append]
        refine ⟨holds.distinct, nodup_singleton _, ?_⟩
        intro old oldIn new newIn repeated
        obtain ⟨entry, entryIn, rfl⟩ := mem_map.mp oldIn
        rw [map_singleton, mem_singleton] at newIn
        have claimedTwice := holds.listed entry entryIn
        rw [repeated, newIn] at claimedTwice
        exact fresh (by simpa using claimedTwice)
      · intro entry entryIn
        rcases mem_append.mp entryIn with old | new
        · exact mem_cons_of_mem column (holds.listed entry old)
        · rw [mem_singleton.mp new]
          exact mem_cons_self

theorem claimsOf_claims (cols : List (String × DeclaredStatType)) (pairs : List (String × AttrValue)) :
    Claims cols pairs (claimsOf cols pairs) := by
  induction pairs using reverseRecOn with
  | nil =>
    constructor
    · intro position
      simp [claimsOf, firstClaim]
    · intro position
      rfl
    · exact nodup_nil
    · intro entry entryIn
      cases entryIn
  | append_singleton pairs pair ih =>
    rw [claimsOf, foldl_append]
    exact ih.step pair

end Claims

section Schemas

/-- The stream's values of the declared columns, when its blob decodes and holds any. -/
def streamFallback (cols : List (String × DeclaredStatType)) (stream : LogStreamId × List UInt8) :
    Option (LogStreamId × List (Nat × DeclaredStatValue)) :=
  match streamAttrPairs stream.2 with
  | .error _ => none
  | .ok pairs => if (claimsOf cols pairs).values.isEmpty then none else some (stream.1, (claimsOf cols pairs).values)

theorem foldl_addStream (cols : List (String × DeclaredStatType)) (streams : List (LogStreamId × List UInt8)) :
    ∀ (fallbacks : List (LogStreamId × List (Nat × DeclaredStatValue))) (unresolved : Bool),
      streams.foldl DeclaredSchema.addStream ⟨cols, fallbacks, unresolved⟩ =
        ⟨cols, fallbacks ++ streams.filterMap (streamFallback cols),
          unresolved || streams.any fun stream => !(streamAttrPairs stream.2).isOk⟩ := by
  induction streams with
  | nil =>
    intro fallbacks unresolved
    simp
  | cons stream rest ih =>
    intro fallbacks unresolved
    rw [foldl_cons, DeclaredSchema.addStream]
    cases decoded : streamAttrPairs stream.2 with
    | error failure =>
      have skipped : streamFallback cols stream = none := by simp [streamFallback, decoded]
      simp only [ih, filterMap_cons_none skipped, any_cons, decoded]
      simp [Except.isOk, Except.toBool]
    | ok pairs =>
      have claims : pairs.foldl (StreamClaims.claim cols) ⟨[], []⟩ = claimsOf cols pairs := rfl
      have resolved : (!(Except.ok pairs : Except LogSegError (List (String × AttrValue))).isOk) = false := rfl
      simp only [claims, any_cons, decoded, resolved, Bool.false_or]
      split
      · rename_i empty
        have skipped : streamFallback cols stream = none := by simp [streamFallback, decoded, empty]
        rw [ih, filterMap_cons_none skipped]
      · rename_i some_
        have added : streamFallback cols stream = some (stream.1, (claimsOf cols pairs).values) := by
          simp [streamFallback, decoded, some_]
        rw [ih, filterMap_cons_some added, append_assoc, singleton_append]

variable {declared : List (String × DeclaredStatType)} {streams : List (LogStreamId × List UInt8)}

theorem build_cols : (DeclaredSchema.build declared streams).cols = declared := by
  rw [DeclaredSchema.build]
  split
  · rfl
  · rw [foldl_addStream]

theorem build_resolved (decodes : ∀ stream ∈ streams, ∃ pairs, streamAttrPairs stream.2 = .ok pairs) :
    (DeclaredSchema.build declared streams).unresolved = false := by
  rw [DeclaredSchema.build]
  split
  · rfl
  · rw [foldl_addStream]
    simp only [Bool.false_or, any_eq_false]
    intro stream member
    obtain ⟨pairs, decoded⟩ := decodes stream member
    rw [decoded]
    simp [Except.isOk, Except.toBool]

theorem fallbacksFor_build (distinct : (streams.map Prod.fst).Nodup) {id : LogStreamId} {blob : List UInt8}
    (listed : (id, blob) ∈ streams) {pairs : List (String × AttrValue)} (decoded : streamAttrPairs blob = .ok pairs)
    (nonempty : declared ≠ []) :
    (DeclaredSchema.build declared streams).fallbacksFor id = (claimsOf declared pairs).values := by
  have filled : declared.isEmpty = false := by simpa using nonempty
  rw [DeclaredSchema.build, filled, if_neg Bool.false_ne_true, foldl_addStream, DeclaredSchema.fallbacksFor,
    nil_append]
  have other : ∀ stream ∈ streams, stream.1 = id → stream = (id, blob) := by
    intro stream member sameId
    exact inj_on_of_nodup_map distinct member listed sameId
  have ids : ∀ stream entry, streamFallback declared stream = some entry → entry.1 = stream.1 := by
    intro stream entry added
    rw [streamFallback] at added
    split at added
    · cases added
    · split at added
      · cases added
      · cases added
        rfl
  have own : ∀ entry ∈ streams.filterMap (streamFallback declared), entry.1 = id →
      streamFallback declared (id, blob) = some entry := by
    intro entry entryIn sameId
    obtain ⟨stream, member, added⟩ := mem_filterMap.mp entryIn
    rw [ids stream entry added] at sameId
    rw [← other stream member sameId]
    exact added
  cases found : (streams.filterMap (streamFallback declared)).find? fun entry => entry.1 = id with
  | some entry =>
    have passes := find?_some found
    have added := own entry (mem_of_find?_eq_some found) (of_decide_eq_true passes)
    simp only [streamFallback, decoded] at added
    split at added
    · cases added
    · cases added
      rfl
  | none =>
    have empty : (claimsOf declared pairs).values.isEmpty := by
      by_contra some_
      have added : streamFallback declared (id, blob) = some (id, (claimsOf declared pairs).values) := by
        simp [streamFallback, decoded, some_]
      exact find?_eq_none.mp found _ (mem_filterMap.mpr ⟨_, listed, added⟩) (decide_eq_true rfl)
    rw [List.isEmpty_iff.mp empty]
    rfl

end Schemas

section Mentions

variable {schema : DeclaredSchema}

/-- The last attribute that names the column at a position. -/
def lastMention (schema : DeclaredSchema) (attrs : List (String × AttrValue)) (position : Nat) :
    Option (String × AttrValue) :=
  lastPassing (fun attr => declaredIndex schema.cols attr.1 = some position) attrs

/-- A column after the attributes of a record. -/
def mentioned (epoch : Nat) (last : Option (String × AttrValue)) (column : ColumnAccum) : ColumnAccum :=
  match last with
  | some attr => { column with mentionEpoch := epoch, pending := some (.ofAttr attr.2) }
  | none => column

/-- What the attributes of a record leave behind. -/
structure Mentions (schema : DeclaredSchema) (start : DeclaredStatAccum) (attrs : List (String × AttrValue))
    (accum : DeclaredStatAccum) : Prop where
  epoch : accum.epoch = start.epoch
  cols : ∀ position, accum.cols[position]? =
    (start.cols[position]?).map (mentioned start.epoch (lastMention schema attrs position))
  touched : ∀ position, position ∈ accum.touched ↔
    position < start.cols.length ∧ (lastMention schema attrs position).isSome
  distinct : accum.touched.Nodup

theorem lastMention_append (attrs : List (String × AttrValue)) (attr : String × AttrValue) (position : Nat) :
    lastMention schema (attrs ++ [attr]) position =
      if declaredIndex schema.cols attr.1 = some position then some attr else lastMention schema attrs position := by
  rw [lastMention, lastPassing_append, lastMention]
  by_cases sought : declaredIndex schema.cols attr.1 = some position <;> simp [lastPassing, sought]

theorem Mentions.step {start accum : DeclaredStatAccum} {attrs : List (String × AttrValue)}
    (older : ∀ column ∈ start.cols, column.mentionEpoch ≠ start.epoch) (holds : Mentions schema start attrs accum)
    (attr : String × AttrValue) : Mentions schema start (attrs ++ [attr]) (accum.mention schema attr) := by
  have same (unindexed : ∀ position < start.cols.length, declaredIndex schema.cols attr.1 ≠ some position) :
      Mentions schema start (attrs ++ [attr]) accum := by
    constructor
    · exact holds.epoch
    · intro position
      rw [holds.cols, lastMention_append]
      by_cases within : position < start.cols.length
      · rw [if_neg (unindexed position within)]
      · rw [getElem?_eq_none (Nat.le_of_not_lt within), Option.map_none, Option.map_none]
    · intro position
      rw [holds.touched, lastMention_append]
      apply and_congr_right
      intro within
      rw [if_neg (unindexed position within)]
    · exact holds.distinct
  rw [DeclaredStatAccum.mention]
  split
  · rename_i none
    apply same
    intro position _ indexed
    rw [none] at indexed
    cases indexed
  rename_i column indexed
  split
  · rename_i beyond
    apply same
    intro position within here
    rw [indexed] at here
    cases here
    rw [holds.cols, Option.map_eq_none_iff] at beyond
    exact absurd (List.getElem?_eq_none_iff.mp beyond) (Nat.not_le_of_lt within)
  · rename_i found located
    rw [holds.cols, Option.map_eq_some_iff] at located
    obtain ⟨first, firstAt, rfl⟩ := located
    have within : column < start.cols.length := (List.getElem?_eq_some_iff.mp firstAt).1
    have firstOlder := older first (mem_of_getElem? firstAt)
    have length : accum.cols.length = start.cols.length := by
      apply le_antisymm
      · rw [← List.getElem?_eq_none_iff, holds.cols, getElem?_eq_none (le_refl _), Option.map_none]
      · by_contra shorter
        have missing := holds.cols accum.cols.length
        rw [getElem?_eq_none (le_refl _), eq_comm, Option.map_eq_none_iff, List.getElem?_eq_none_iff] at missing
        exact shorter missing
    have current : (mentioned start.epoch (lastMention schema attrs column) first).mentionEpoch = accum.epoch ↔
        column ∈ accum.touched := by
      rw [holds.touched, holds.epoch]
      cases lastMention schema attrs column with
      | none => simp [mentioned, firstOlder]
      | some last => simp [mentioned, within]
    constructor
    · exact holds.epoch
    · intro position
      rw [lastMention_append, indexed]
      by_cases here : column = position
      · subst here
        have inside : column < accum.cols.length := length ▸ within
        rw [getElem?_set_self inside, firstAt, if_pos rfl, holds.epoch]
        cases lastMention schema attrs column <;> rfl
      · have other : some column ≠ some position := fun equal => here (Option.some_injective _ equal)
        rw [getElem?_set_ne here, if_neg other, holds.cols]
    · intro position
      rw [lastMention_append, indexed]
      by_cases here : column = position
      · subst here
        simp only [if_true, Option.isSome_some, and_true, within, iff_true]
        split
        · rename_i again
          exact current.mp again
        · exact mem_append_right _ mem_cons_self
      · have other : some column ≠ some position := fun equal => here (Option.some_injective _ equal)
        rw [if_neg other, ← holds.touched]
        split
        · rfl
        · simp [Ne.symm here]
    · dsimp only
      split
      · exact holds.distinct
      · rename_i again
        rw [nodup_append]
        refine ⟨holds.distinct, nodup_singleton _, ?_⟩
        intro old oldIn new newIn repeated
        rw [mem_singleton.mp newIn] at repeated
        exact again (current.mpr (repeated ▸ oldIn))

theorem foldl_mention (schema : DeclaredSchema) (start : DeclaredStatAccum) (untouched : start.touched = [])
    (older : ∀ column ∈ start.cols, column.mentionEpoch ≠ start.epoch) (attrs : List (String × AttrValue)) :
    Mentions schema start attrs (attrs.foldl (DeclaredStatAccum.mention schema) start) := by
  induction attrs using reverseRecOn with
  | nil =>
    constructor
    · rfl
    · intro position
      cases located : start.cols[position]? <;> simp [located, lastMention, lastPassing, mentioned]
    · intro position
      simp [untouched, lastMention, lastPassing]
    · simp [untouched]
  | append_singleton attrs attr ih =>
    rw [foldl_append]
    exact ih.step older attr

end Mentions

section Records

/-- Two accumulators of a column with the same runs. -/
def SameRuns (left right : ColumnAccum) : Prop :=
  left.i64Run = right.i64Run ∧ left.boolRun = right.boolRun

/-- The column takes the value of a row, unless it is null. -/
def observeValue (value : Option DeclaredStatValue) (column : ColumnAccum) : ColumnAccum :=
  match value with
  | some value => column.observe value
  | none => column

/-- The pending occurrence adds its typed value. -/
theorem foldWinner_runs (ty : DeclaredStatType) (epoch : Nat) (attr : String × AttrValue) (column : ColumnAccum) :
    SameRuns (ColumnAccum.foldWinner ty (mentioned epoch (some attr) column))
      (observeValue (typedStat ty attr.2) column) := by
  obtain ⟨name, value⟩ := attr
  cases ty <;> cases value <;> exact ⟨rfl, rfl⟩

theorem foldWinner_epoch (ty : DeclaredStatType) (column : ColumnAccum) :
    (ColumnAccum.foldWinner ty column).mentionEpoch = column.mentionEpoch := by
  obtain ⟨i64Run, boolRun, mentionEpoch, pending⟩ := column
  cases ty <;> rcases pending with _ | (_ | _ | _) <;> rfl

theorem observe_epoch (column : ColumnAccum) (value : DeclaredStatValue) :
    (column.observe value).mentionEpoch = column.mentionEpoch := by
  cases value <;> rfl

/-- The change of a touched column. -/
def touchedChange (schema : DeclaredSchema) (position : Nat) (column : ColumnAccum) : ColumnAccum :=
  match schema.cols[position]? with
  | some declared => column.foldWinner declared.2
  | none => column

theorem foldTouched_eq (schema : DeclaredSchema) :
    DeclaredStatAccum.foldTouched schema = fun cols position => cols.modify position (touchedChange schema position) := by
  funext cols position
  rw [DeclaredStatAccum.foldTouched]
  cases located : schema.cols[position]? with
  | none =>
    have unchanged : touchedChange schema position = id := by
      funext column
      simp [touchedChange, located]
    rw [unchanged, modify_id]
  | some declared =>
    have changed : touchedChange schema position = ColumnAccum.foldWinner declared.2 := by
      funext column
      simp [touchedChange, located]
    rw [changed]

variable {declared : List (String × DeclaredStatType)} {streams : List (LogStreamId × List UInt8)}

/-- What one record does to the fold: each column takes the value of the merged view. -/
structure Folded (declared : List (String × DeclaredStatType)) (view : List (String × AttrValue))
    (before after : DeclaredStatAccum) : Prop where
  length : after.cols.length = before.cols.length
  epochs : ∀ column ∈ after.cols, column.mentionEpoch ≤ after.epoch
  runs : ∀ (position : Nat) (column : String × DeclaredStatType) (old : ColumnAccum), declared[position]? = some column →
    before.cols[position]? = some old →
      ∃ new, after.cols[position]? = some new ∧ SameRuns new (observeValue (declaredValue view column) old)

theorem observeRecord_cols (schema : DeclaredSchema) {accum : DeclaredStatAccum}
    (older : ∀ column ∈ accum.cols, column.mentionEpoch ≤ accum.epoch) {record : RlogRecord}
    (distinct : ((schema.fallbacksFor record.streamId).map Prod.fst).Nodup) (position : Nat) :
    (accum.observeRecord schema record).cols[position]? = (accum.cols[position]?).map fun column =>
      match lastMention schema record.attrs position with
      | some attr => touchedChange schema position (mentioned (accum.epoch + 1) (some attr) column)
      | none =>
        observeValue (((schema.fallbacksFor record.streamId).find? fun entry => entry.1 = position).map Prod.snd)
          column := by
  by_cases empty : accum.cols.isEmpty
  · rw [DeclaredStatAccum.observeRecord, if_pos empty, List.isEmpty_iff.mp empty]
    rfl
  have fresh : ∀ column ∈ accum.cols, column.mentionEpoch ≠ accum.epoch + 1 := by
    intro column member
    have bound := older column member
    omega
  have mentions := foldl_mention schema ⟨accum.cols, [], accum.epoch + 1⟩ rfl fresh record.attrs
  have touchedDistinct : ((record.attrs.foldl (DeclaredStatAccum.mention schema)
      ⟨accum.cols, [], accum.epoch + 1⟩).touched.map id).Nodup := by
    rw [map_id]
    exact mentions.distinct
  have fallback : DeclaredStatAccum.foldFallback (accum.epoch + 1) = fun cols (entry : Nat × DeclaredStatValue) =>
      cols.modify entry.1 fun column =>
        if column.mentionEpoch = accum.epoch + 1 then column else column.observe entry.2 := rfl
  have touchedFold := @getElem?_foldl_modify ColumnAccum Nat id (touchedChange schema) _ touchedDistinct
    (record.attrs.foldl (DeclaredStatAccum.mention schema) ⟨accum.cols, [], accum.epoch + 1⟩).cols position
  simp only [id] at touchedFold
  rw [DeclaredStatAccum.observeRecord, if_neg empty]
  dsimp only
  rw [mentions.epoch, fallback, getElem?_foldl_modify _ distinct, foldTouched_eq, touchedFold, mentions.cols]
  cases located : accum.cols[position]? with
  | none => rfl
  | some column =>
    have within : position < accum.cols.length := (List.getElem?_eq_some_iff.mp located).1
    have columnOlder := fresh column (mem_of_getElem? located)
    have touched := mentions.touched position
    cases last : lastMention schema record.attrs position with
    | none =>
      have untouched : (record.attrs.foldl (DeclaredStatAccum.mention schema)
          ⟨accum.cols, [], accum.epoch + 1⟩).touched.find? (fun entry => entry = position) = none := by
        rw [last] at touched
        rw [find?_eq_none]
        intro entry entryIn passes
        rw [of_decide_eq_true passes] at entryIn
        exact absurd (touched.mp entryIn).2 (by simp)
      simp only [untouched, Option.map_some, mentioned]
      cases (schema.fallbacksFor record.streamId).find? fun entry => entry.1 = position <;>
        simp [observeValue, columnOlder]
    | some attr =>
      have found : (record.attrs.foldl (DeclaredStatAccum.mention schema)
          ⟨accum.cols, [], accum.epoch + 1⟩).touched.find? (fun entry => entry = position) = some position := by
        rw [last] at touched
        have member := touched.mpr ⟨within, rfl⟩
        cases search : (record.attrs.foldl (DeclaredStatAccum.mention schema)
            ⟨accum.cols, [], accum.epoch + 1⟩).touched.find? (fun entry => entry = position) with
        | none => exact absurd (decide_eq_true rfl) (find?_eq_none.mp search position member)
        | some entry =>
          have passes := find?_some search
          rw [show entry = position from of_decide_eq_true passes]
      have current : (touchedChange schema position (mentioned (accum.epoch + 1) (some attr) column)).mentionEpoch =
          accum.epoch + 1 := by
        rw [touchedChange]
        split
        · rw [foldWinner_epoch]
          rfl
        · rfl
      simp only [found, Option.map_some]
      cases (schema.fallbacksFor record.streamId).find? fun entry => entry.1 = position <;>
        simp [current]

theorem observeRecord_epoch (schema : DeclaredSchema) {accum : DeclaredStatAccum}
    (older : ∀ column ∈ accum.cols, column.mentionEpoch ≤ accum.epoch) (record : RlogRecord)
    (filled : accum.cols.isEmpty = false) : (accum.observeRecord schema record).epoch = accum.epoch + 1 := by
  have fresh : ∀ column ∈ accum.cols, column.mentionEpoch ≠ accum.epoch + 1 := by
    intro column member
    have bound := older column member
    omega
  rw [DeclaredStatAccum.observeRecord, filled, if_neg Bool.false_ne_true]
  exact (foldl_mention schema ⟨accum.cols, [], accum.epoch + 1⟩ rfl fresh record.attrs).epoch

/-- The names of the declared columns and the ids of the streams are distinct, and a record's stream is listed. -/
structure Listed (declared : List (String × DeclaredStatType)) (streams : List (LogStreamId × List UInt8))
    (record : RlogRecord) (pairs : List (String × AttrValue)) : Prop where
  names : (declared.map Prod.fst).Nodup
  ids : (streams.map Prod.fst).Nodup
  stream : (record.streamId, record.streamAttrs) ∈ streams
  decoded : streamAttrPairs record.streamAttrs = .ok pairs

variable {record : RlogRecord} {pairs : List (String × AttrValue)}

theorem Listed.fallbacks_distinct (listed : Listed declared streams record pairs) :
    (((DeclaredSchema.build declared streams).fallbacksFor record.streamId).map Prod.fst).Nodup := by
  cases declared with
  | nil => exact nodup_nil
  | cons column rest =>
    rw [fallbacksFor_build listed.ids listed.stream listed.decoded (cons_ne_nil column rest)]
    exact (claimsOf_claims _ pairs).distinct

theorem Listed.fallback_value (listed : Listed declared streams record pairs) {position : Nat}
    {column : String × DeclaredStatType} (located : declared[position]? = some column) :
    (((DeclaredSchema.build declared streams).fallbacksFor record.streamId).find? fun entry => entry.1 = position).map
        Prod.snd =
      (resolveName (pairs.filter fun pair => !isNested pair.2) column.1).bind fun entry => typedStat column.2 entry.2 := by
  have filled : declared ≠ [] := by
    rintro rfl
    cases located
  have first : firstClaim declared pairs position = resolveName (pairs.filter fun pair => !isNested pair.2) column.1 := by
    rw [firstClaim, resolveName]
    apply congrArg (List.find? · _)
    funext pair
    rw [named, decide_eq_decide, declaredIndex_eq_some_iff listed.names located]
  have typed : claimValue declared position = fun entry => typedStat column.2 entry.2 := by
    funext entry
    rw [claimValue, located, Option.bind_some]
  rw [fallbacksFor_build listed.ids listed.stream listed.decoded filled, (claimsOf_claims declared pairs).values, first,
    typed]

theorem Listed.lastMention_eq (listed : Listed declared streams record pairs) {position : Nat}
    {column : String × DeclaredStatType} (located : declared[position]? = some column) :
    lastMention (DeclaredSchema.build declared streams) record.attrs position =
      lastPassing (named column.1) record.attrs := by
  rw [lastMention, build_cols]
  apply congrArg (lastPassing · _)
  funext attr
  rw [named, decide_eq_decide, declaredIndex_eq_some_iff listed.names located]

/-- One record is folded by its merged view. -/
theorem Listed.folded (listed : Listed declared streams record pairs) {accum : DeclaredStatAccum}
    (older : ∀ column ∈ accum.cols, column.mentionEpoch ≤ accum.epoch) :
    Folded declared (record.attrs.foldl Erasure.overlayAttr (pairs.filter fun pair => !isNested pair.2)) accum
      (accum.observeRecord (DeclaredSchema.build declared streams) record) := by
  have cols := observeRecord_cols (DeclaredSchema.build declared streams) older listed.fallbacks_distinct
  constructor
  · apply le_antisymm
    · rw [← List.getElem?_eq_none_iff, cols, getElem?_eq_none (le_refl _), Option.map_none]
    · have missing := cols (accum.observeRecord (DeclaredSchema.build declared streams) record).cols.length
      rw [getElem?_eq_none (le_refl _), eq_comm, Option.map_eq_none_iff, List.getElem?_eq_none_iff] at missing
      exact missing
  · intro column member
    obtain ⟨position, located⟩ := getElem?_of_mem member
    rw [cols, Option.map_eq_some_iff] at located
    obtain ⟨old, oldAt, rfl⟩ := located
    have oldIn := mem_of_getElem? oldAt
    have filled : accum.cols.isEmpty = false := by
      simpa using ne_nil_of_mem oldIn
    rw [observeRecord_epoch _ older record filled]
    have bound := older old oldIn
    cases lastMention (DeclaredSchema.build declared streams) record.attrs position with
    | some attr =>
      dsimp only
      rw [touchedChange]
      split
      · rw [foldWinner_epoch]
        exact le_refl _
      · exact le_refl _
    | none =>
      dsimp only
      cases ((DeclaredSchema.build declared streams).fallbacksFor record.streamId).find?
          fun entry => entry.1 = position with
      | none => exact Nat.le_succ_of_le bound
      | some entry =>
        show ((old.observe entry.2).mentionEpoch) ≤ _
        rw [observe_epoch]
        exact Nat.le_succ_of_le bound
  · intro position column old located oldAt
    refine ⟨_, by rw [cols, oldAt]; rfl, ?_⟩
    rw [declaredValue, resolveName_foldl_overlayAttr, listed.lastMention_eq located]
    cases last : lastPassing (named column.1) record.attrs with
    | some attr =>
      have changed : touchedChange (DeclaredSchema.build declared streams) position =
          ColumnAccum.foldWinner column.2 := by
        funext entry
        simp only [touchedChange, build_cols, located]
      rw [Option.some_or, Option.bind_some]
      dsimp only
      rw [changed]
      exact foldWinner_runs column.2 (accum.epoch + 1) attr old
    | none =>
      rw [Option.none_or]
      dsimp only
      rw [listed.fallback_value located]
      exact ⟨rfl, rfl⟩

end Records

end Ravel.Maintain
