import Ravel.Proof.Catalog.AuthoritativeSelection

namespace Ravel.Catalog

open List DisjointSets SortedGroups Library

/-- Two records share an input. -/
def Overlaps (left right : CompactionRecord) : Prop :=
  ∃ identity ∈ left.inputs, identity ∈ right.inputs

/-- Records are connected when a chain of overlapping candidates joins them. -/
def Connected (candidate : CompactionRecord → Prop) : CompactionRecord → CompactionRecord → Prop :=
  Relation.EqvGen fun left right => candidate left ∧ candidate right ∧ Overlaps left right

/-- The rank of a candidate. The least rank has authority. -/
def authorityKey (record : CompactionRecord) : ℕᵒᵈ ×ₗ Nat ×ₗ Nat :=
  toLex (OrderDual.toDual (inputIdentitySet record).length,
    toLex (record.inputSetHash, hash16 record.inputSetHash))

theorem authorityOrder_eq_gt_iff (left right : CompactionRecord) :
    authorityOrder left right = .gt ↔ authorityKey right < authorityKey left := by
  rw [authorityOrder, Ordering.then_eq_gt, Ordering.then_eq_gt, compare_gt_iff_gt, compare_gt_iff_gt,
    compare_gt_iff_gt, compare_eq_iff_eq, compare_eq_iff_eq, authorityKey, authorityKey, Prod.Lex.toLex_lt_toLex,
    Prod.Lex.toLex_lt_toLex]
  simp only [OrderDual.toDual_lt_toDual, OrderDual.toDual_inj, @eq_comm _ left.inputSetHash]

theorem key_eq_of_authorityKey_eq {left right : CompactionRecord} (same : authorityKey left = authorityKey right) :
    left.key = right.key := by
  simp only [authorityKey, EmbeddingLike.apply_eq_iff_eq, Prod.mk.injEq] at same
  rw [CompactionRecord.key, CompactionRecord.key, same.2.2]

variable {live : List CompactionRecord}

variable {index first second : Nat} {left right : CompactionRecord} {component : Nat × List Nat} {members : List Nat}
  {records : List CompactionRecord} {selection : AuthoritativeSelection}

theorem mem_identityEntries {identity : InputIdentity} :
    (index, identity) ∈ identityEntries live ↔ ∃ record, live[index]? = some record ∧ identity ∈ record.inputs := by
  simp only [identityEntries, inputIdentitySet, mem_flatMap, mem_map, mem_dedup, Prod.exists,
    Prod.mk.injEq, mk_mem_zipIdx_iff_getElem?]
  constructor
  · rintro ⟨record, position, found, other, inside, samePosition, sameIdentity⟩
    exact ⟨record, samePosition ▸ found, sameIdentity ▸ inside⟩
  · rintro ⟨record, found, inside⟩
    exact ⟨record, index, found, identity, inside, rfl, rfl⟩

theorem identityEntries_bounded : ∀ entry ∈ identityEntries live, entry.1 < live.length := by
  intro entry member
  obtain ⟨record, found, -⟩ := mem_identityEntries.mp member
  exact (List.getElem?_eq_some_iff.mp found).1

/-- Positions of records with distinct keys are determined by the record. -/
theorem position_unique (distinct : KeysNodup live) (atFirst : live[first]? = some left)
    (atSecond : live[second]? = some right) (same : left.key = right.key) : first = second := by
  have bound := (List.getElem?_eq_some_iff.mp atFirst).1
  have equal : (live.map CompactionRecord.key)[first]? = (live.map CompactionRecord.key)[second]? := by
    rw [getElem?_map, getElem?_map, atFirst, atSecond, Option.map_some, Option.map_some, same]
  exact (getElem?_inj (by simpa using bound) distinct).mp equal

/-- Positions that shared inputs join hold connected records. -/
theorem connected_of_shares (joined : Relation.EqvGen (Shares (identityEntries live)) first second) :
    first = second ∨ ∃ left right, live[first]? = some left ∧ live[second]? = some right ∧
      Connected (· ∈ live) left right := by
  induction joined with
  | rel first second shared =>
    obtain ⟨identity, inFirst, inSecond⟩ := shared
    obtain ⟨left, atFirst, leftInput⟩ := mem_identityEntries.mp inFirst
    obtain ⟨right, atSecond, rightInput⟩ := mem_identityEntries.mp inSecond
    exact .inr ⟨left, right, atFirst, atSecond, .rel _ _ ⟨mem_of_getElem? atFirst,
      mem_of_getElem? atSecond, identity, leftInput, rightInput⟩⟩
  | refl index => exact .inl rfl
  | symm first second _ ih =>
    rcases ih with same | ⟨left, right, atFirst, atSecond, connected⟩
    · exact .inl same.symm
    · exact .inr ⟨right, left, atSecond, atFirst, connected.symm⟩
  | trans first second third _ _ firstIh secondIh =>
    rcases firstIh with rfl | ⟨left, middle, atFirst, atSecond, connected⟩
    · exact secondIh
    · rcases secondIh with rfl | ⟨other, right, atSecondAgain, atThird, continued⟩
      · exact .inr ⟨left, middle, atFirst, atSecond, connected⟩
      · rw [atSecond, Option.some.injEq] at atSecondAgain
        subst atSecondAgain
        exact .inr ⟨left, right, atFirst, atThird, connected.trans _ _ _ continued⟩

/-- Connected records are candidates together. -/
theorem Connected.candidate_iff {candidate : CompactionRecord → Prop} (connected : Connected candidate left right) :
    candidate left ↔ candidate right := by
  induction connected with
  | rel _ _ overlap => exact ⟨fun _ => overlap.2.1, fun _ => overlap.1⟩
  | refl _ => exact Iff.rfl
  | symm _ _ _ ih => exact ih.symm
  | trans _ _ _ _ _ firstIh secondIh => exact firstIh.trans secondIh

/-- Positions of connected records are joined by shared inputs. -/
theorem shares_of_connected (distinct : KeysNodup live) (connected : Connected (· ∈ live) left right)
    (atFirst : live[first]? = some left) (atSecond : live[second]? = some right) :
    Relation.EqvGen (Shares (identityEntries live)) first second := by
  induction connected generalizing first second with
  | rel left right overlap =>
    obtain ⟨-, -, identity, leftInput, rightInput⟩ := overlap
    exact .rel _ _ ⟨identity, mem_identityEntries.mpr ⟨left, atFirst, leftInput⟩,
      mem_identityEntries.mpr ⟨right, atSecond, rightInput⟩⟩
  | refl record =>
    rw [position_unique distinct atFirst atSecond rfl]
    exact .refl _
  | symm _ _ _ ih => exact (ih atSecond atFirst).symm
  | trans left middle right leftMiddle _ firstIh secondIh =>
    have member := (Connected.candidate_iff leftMiddle).mp (mem_of_getElem? atFirst)
    obtain ⟨position, atPosition⟩ := mem_iff_getElem?.mp member
    exact (firstIh atFirst atPosition).trans _ _ _ (secondIh atPosition atSecond)

/-- The pointers that the overlap of a list of records links. -/
def overlapParents (live : List CompactionRecord) : List Nat :=
  (linkAll live.length (identityEntries live)).parents

theorem overlapParents_forest (live : List CompactionRecord) : Forest (overlapParents live) :=
  (linkAll_linked identityEntries_bounded).forest

/-- Positions have one root exactly when shared inputs join them. -/
theorem overlapParents_same (live : List CompactionRecord) (first second : Nat) :
    Same (overlapParents live) first second ↔ Relation.EqvGen (Shares (identityEntries live)) first second :=
  (linkAll_linked identityEntries_bounded).same first second

/-- Every position is paired with a root once, in order. -/
theorem overlapRoots_positions (live : List CompactionRecord) :
    (rootsFrom (overlapParents live) (List.range live.length)).map Prod.snd = List.range live.length :=
  (rootsFrom_spec (overlapParents_forest live) _).1

theorem mem_component_iff (member : component ∈ overlapComponents live) (index : Nat) :
    index ∈ component.2 ↔ (component.1, index) ∈ rootsFrom (overlapParents live) (List.range live.length) := by
  have items := lookup_of_mem (groupAll_sorted _) member
  rw [lookup_groupAll] at items
  rw [← items, mem_map]
  constructor
  · intro ⟨pair, inPairs, same⟩
    obtain ⟨inside, root⟩ := mem_filter.mp inPairs
    rw [← of_decide_eq_true root, ← same]
    exact inside
  · intro inside
    exact ⟨_, mem_filter.mpr ⟨inside, decide_eq_true rfl⟩, rfl⟩

theorem component_lt (member : component ∈ overlapComponents live) (inside : index ∈ component.2) :
    index < live.length := by
  have pair := (mem_component_iff member index).mp inside
  have listed : index ∈ (rootsFrom (overlapParents live) (List.range live.length)).map Prod.snd :=
    mem_map.mpr ⟨_, pair, rfl⟩
  rw [overlapRoots_positions] at listed
  exact mem_range.mp listed

/-- Every position is in a component. -/
theorem exists_component (inside : index < live.length) :
    ∃ component ∈ overlapComponents live, index ∈ component.2 := by
  have listed : index ∈ (rootsFrom (overlapParents live) (List.range live.length)).map Prod.snd := by
    rw [overlapRoots_positions]
    exact mem_range.mpr inside
  obtain ⟨pair, inPairs, same⟩ := mem_map.mp listed
  have rooted : pair.1 ∈ (overlapComponents live).map Prod.fst := by
    rw [overlapComponents, (groupAll_keys _).1]
    exact mem_map_of_mem inPairs
  obtain ⟨component, member, root⟩ := mem_map.mp rooted
  refine ⟨component, member, (mem_component_iff member index).mpr ?_⟩
  rw [root, ← same]
  exact inPairs

theorem mem_component_iff_connected (distinct : KeysNodup live) (member : component ∈ overlapComponents live)
    (inside : first ∈ component.2) (atFirst : live[first]? = some left) (atSecond : live[second]? = some right) :
    second ∈ component.2 ↔ Connected (· ∈ live) left right := by
  have forest := overlapParents_forest live
  have firstPair := (mem_component_iff member first).mp inside
  constructor
  · intro also
    have secondPair := (mem_component_iff member second).mp also
    have same : Same (overlapParents live) first second := (roots_eq_iff_same forest firstPair secondPair).mp rfl
    rcases connected_of_shares ((overlapParents_same live _ _).mp same) with equal | found
    · rw [← equal, atFirst, Option.some.injEq] at atSecond
      rw [atSecond]
      exact .refl _
    · obtain ⟨other, another, atFirstAgain, atSecondAgain, connected⟩ := found
      rw [atFirst, Option.some.injEq] at atFirstAgain
      rw [atSecond, Option.some.injEq] at atSecondAgain
      rw [atFirstAgain, atSecondAgain]
      exact connected
  · intro connected
    have same := (overlapParents_same live _ _).mpr (shares_of_connected distinct connected atFirst atSecond)
    have listed : second ∈ (rootsFrom (overlapParents live) (List.range live.length)).map Prod.snd := by
      rw [overlapRoots_positions]
      exact mem_range.mpr (List.getElem?_eq_some_iff.mp atSecond).1
    obtain ⟨pair, inPairs, isSecond⟩ := mem_map.mp listed
    rw [← isSecond] at same
    have roots := (roots_eq_iff_same forest firstPair inPairs).mpr same
    rw [mem_component_iff member, ← isSecond, show component.1 = pair.1 from roots]
    exact inPairs

/-- A fold that keeps the lesser of two elements ends at a least element. -/
theorem foldl_least {Rank : Type} [LinearOrder Rank] {order : Nat → Nat → Ordering} {rank : Nat → Rank}
    (agrees : ∀ left ∈ first :: members, ∀ right ∈ first :: members, order left right = .gt ↔ rank right < rank left) :
    members.foldl (fun best next => if order best next = .gt then next else best) first ∈ first :: members ∧
      ∀ member ∈ first :: members,
        rank (members.foldl (fun best next => if order best next = .gt then next else best) first) ≤ rank member := by
  induction members generalizing first with
  | nil => simp
  | cons next rest ih =>
    rw [foldl_cons]
    have nextInside : next ∈ first :: next :: rest := mem_cons_of_mem _ mem_cons_self
    by_cases greater : order first next = .gt
    · rw [if_pos greater]
      have below := (agrees first mem_cons_self next nextInside).mp greater
      obtain ⟨inside, least⟩ := ih fun left leftIn right rightIn =>
        agrees left (mem_cons_of_mem _ leftIn) right (mem_cons_of_mem _ rightIn)
      refine ⟨mem_cons_of_mem _ inside, ?_⟩
      intro member listed
      rcases mem_cons.mp listed with rfl | later
      · exact le_of_lt (lt_of_le_of_lt (least next mem_cons_self) below)
      · exact least member later
    · rw [if_neg greater]
      have notBelow := mt (agrees first mem_cons_self next nextInside).mpr greater
      have widen : ∀ member ∈ first :: rest, member ∈ first :: next :: rest := by
        intro member listed
        rcases mem_cons.mp listed with rfl | later
        · exact mem_cons_self
        · exact mem_cons_of_mem _ (mem_cons_of_mem _ later)
      obtain ⟨inside, least⟩ := ih fun left leftIn right rightIn =>
        agrees left (widen left leftIn) right (widen right rightIn)
      refine ⟨widen _ inside, ?_⟩
      intro member listed
      rcases mem_cons.mp listed with rfl | later
      · exact least member mem_cons_self
      · rcases mem_cons.mp later with rfl | inRest
        · exact le_trans (least first mem_cons_self) (not_lt.mp notBelow)
        · exact least member (mem_cons_of_mem _ inRest)

theorem exists_at (inside : index < live.length) : ∃ record, live[index]? = some record :=
  ⟨_, getElem?_eq_getElem inside⟩

/-- The elements of a list with fewer than two of them are equal. -/
theorem eq_of_length_lt_two {Item : Type} {items : List Item} (few : items.length < 2) {first second : Item}
    (firstIn : first ∈ items) (secondIn : second ∈ items) : first = second := by
  match items, few with
  | [], _ => cases firstIn
  | [only], _ => rw [mem_singleton.mp firstIn, mem_singleton.mp secondIn]

/-- The rank of a position. -/
def rankAt (live : List CompactionRecord) (index : Nat) : ℕᵒᵈ ×ₗ Nat ×ₗ Nat :=
  match live[index]? with
  | some record => authorityKey record
  | none => toLex (OrderDual.toDual 0, toLex (0, 0))

theorem rankAt_of_some {record : CompactionRecord} (found : live[index]? = some record) :
    rankAt live index = authorityKey record := by
  rw [rankAt, found]

/-- The winner of a component has the least rank. -/
theorem minBy_orderAt (inside : ∀ member ∈ members, member < live.length) (nonempty : members ≠ []) :
    ∃ winner ∈ members, minBy (orderAt live) members = some winner ∧
      ∀ member ∈ members, rankAt live winner ≤ rankAt live member := by
  cases members with
  | nil => exact absurd rfl nonempty
  | cons first rest =>
    have agrees : ∀ left ∈ first :: rest, ∀ right ∈ first :: rest,
        orderAt live left right = .gt ↔ rankAt live right < rankAt live left := by
      intro left leftIn right rightIn
      obtain ⟨leftRecord, atLeft⟩ := exists_at (inside left leftIn)
      obtain ⟨rightRecord, atRight⟩ := exists_at (inside right rightIn)
      rw [rankAt_of_some atLeft, rankAt_of_some atRight, orderAt, atLeft, atRight]
      exact authorityOrder_eq_gt_iff leftRecord rightRecord
    obtain ⟨member, least⟩ := foldl_least agrees
    exact ⟨_, member, rfl, least⟩

/-- A record loses its component when a connected candidate has a lesser rank. -/
def Loses (candidate : CompactionRecord → Prop) (record : CompactionRecord) : Prop :=
  candidate record ∧ ∃ winner, candidate winner ∧ Connected candidate winner record ∧
    authorityKey winner < authorityKey record

/-- The losers of a component are its members above the least rank. -/
theorem mem_losersOf_iff (distinct : KeysNodup live) (inside : ∀ member ∈ members, member < live.length)
    (key : RecordKey) :
    key ∈ losersOf live members ↔ ∃ loser ∈ members, ∃ record, live[loser]? = some record ∧ record.key = key ∧
      ∃ winner ∈ members, rankAt live winner < rankAt live loser := by
  rw [losersOf]
  by_cases single : members.length < 2
  · rw [if_pos single]
    constructor
    · intro none
      cases none
    · intro ⟨loser, loserIn, record, _, _, winner, winnerIn, below⟩
      rw [eq_of_length_lt_two single winnerIn loserIn] at below
      exact absurd below (lt_irrefl _)
  · rw [if_neg single]
    have nonempty : members ≠ [] := by
      intro empty
      rw [empty] at single
      simp at single
    obtain ⟨winner, winnerIn, chosen, least⟩ := minBy_orderAt inside nonempty
    rw [chosen]
    simp only [mem_filterMap, mem_filter, decide_eq_true_eq, Option.map_eq_some_iff]
    constructor
    · intro ⟨loser, ⟨loserIn, different⟩, record, found, same⟩
      refine ⟨loser, loserIn, record, found, same, winner, winnerIn, ?_⟩
      refine lt_of_le_of_ne (least loser loserIn) ?_
      intro equal
      obtain ⟨winnerRecord, atWinner⟩ := exists_at (inside winner winnerIn)
      rw [rankAt_of_some atWinner, rankAt_of_some found] at equal
      exact different (position_unique distinct found atWinner (key_eq_of_authorityKey_eq equal).symm)
    · intro ⟨loser, loserIn, record, found, same, better, betterIn, below⟩
      refine ⟨loser, ⟨loserIn, ?_⟩, record, found, same⟩
      intro equal
      rw [equal] at below
      exact absurd (least better betterIn) (not_le.mpr below)

theorem mem_losers_iff (distinct : KeysNodup live) (key : RecordKey) :
    key ∈ (overlapComponents live).flatMap (fun component => losersOf live component.2) ↔
      ∃ record, record.key = key ∧ Loses (· ∈ live) record := by
  rw [mem_flatMap]
  constructor
  · intro ⟨component, member, lost⟩
    obtain ⟨loser, loserIn, record, atLoser, same, winner, winnerIn, below⟩ :=
      (mem_losersOf_iff distinct (fun _ inside => component_lt member inside) key).mp lost
    obtain ⟨winnerRecord, atWinner⟩ := exists_at (component_lt member winnerIn)
    rw [rankAt_of_some atWinner, rankAt_of_some atLoser] at below
    exact ⟨record, same, mem_of_getElem? atLoser, winnerRecord, mem_of_getElem? atWinner,
      (mem_component_iff_connected distinct member winnerIn atWinner atLoser).mp loserIn, below⟩
  · intro ⟨record, same, inLive, winner, winnerIn, connected, below⟩
    obtain ⟨loserAt, atLoser⟩ := mem_iff_getElem?.mp inLive
    obtain ⟨winnerAt, atWinner⟩ := mem_iff_getElem?.mp winnerIn
    obtain ⟨component, member, inside⟩ := exists_component (List.getElem?_eq_some_iff.mp atWinner).1
    refine ⟨component, member, ?_⟩
    rw [mem_losersOf_iff distinct (fun _ listed => component_lt member listed) key]
    refine ⟨loserAt, ?_, record, atLoser, same, winnerAt, inside, ?_⟩
    · exact (mem_component_iff_connected distinct member inside atWinner atLoser).mpr connected
    · rw [rankAt_of_some atWinner, rankAt_of_some atLoser]
      exact below

/-- A record that no present version 2 record names. -/
def IsLive (records : List CompactionRecord) (record : CompactionRecord) : Prop :=
  record ∈ records ∧ ¬NamedByVersion2 records record.key

/-- What the selector decides, in terms of the set of records. -/
structure Selects (records : List CompactionRecord) (selection : AuthoritativeSelection) : Prop where
  superseded : ∀ key, key ∈ selection.superseded ↔ NamedByVersion2 records key
  losing : ∀ key, key ∈ selection.losing ↔ ∃ record, record.key = key ∧ Loses (IsLive records) record

/-- A selection comes from resolved version 2 supersession. -/
theorem select_ok (selected : selectAuthoritativeCompactionRecords records = .ok selection) :
    ∃ superseded, supersededByVersion2Records records = .ok superseded ∧
      selection = selectAmongLive (records.filter fun record => record.key ∉ superseded) superseded := by
  rw [selectAuthoritativeCompactionRecords] at selected
  cases resolved : supersededByVersion2Records records with
  | error failure =>
    rw [resolved] at selected
    cases selected
  | ok superseded =>
    rw [resolved] at selected
    cases selected
    exact ⟨superseded, rfl, rfl⟩

/-- The selector keeps the superseded keys and the losers of every component. -/
theorem selectAmongLive_spec (distinct : KeysNodup live) (superseded : List RecordKey) :
    (selectAmongLive live superseded).superseded = superseded ∧
      ∀ key, key ∈ (selectAmongLive live superseded).losing ↔ ∃ record, record.key = key ∧ Loses (· ∈ live) record := by
  rw [selectAmongLive]
  by_cases few : live.length < 2
  · rw [if_pos few]
    refine ⟨rfl, fun key => ?_⟩
    constructor
    · intro none
      cases none
    · intro ⟨record, _, inLive, winner, winnerIn, _, below⟩
      rw [eq_of_length_lt_two few winnerIn inLive] at below
      exact absurd below (lt_irrefl _)
  · rw [if_neg few]
    exact ⟨rfl, fun key => mem_losers_iff distinct key⟩

theorem mem_filter_superseded {superseded : List RecordKey}
    (named : ∀ key, key ∈ superseded ↔ NamedByVersion2 records key) :
    (· ∈ records.filter fun record => record.key ∉ superseded) = IsLive records := by
  funext record
  rw [mem_filter, decide_eq_true_eq, named]
  rfl

theorem KeysNodup.filter (distinct : KeysNodup records) (keep : CompactionRecord → Bool) :
    KeysNodup (records.filter keep) :=
  (filter_sublist.map _).nodup distinct

/-- The selector sets aside the superseded records and keeps the best record of each overlap component. -/
theorem select_selects (distinct : KeysNodup records)
    (selected : selectAuthoritativeCompactionRecords records = .ok selection) : Selects records selection := by
  obtain ⟨superseded, resolved, rfl⟩ := select_ok selected
  have named := mem_superseded_iff distinct resolved
  obtain ⟨kept, lost⟩ := selectAmongLive_spec (distinct.filter _) superseded
  refine ⟨fun key => ?_, fun key => ?_⟩
  · rw [kept, named]
  · rw [lost, mem_filter_superseded named]

end Ravel.Catalog
