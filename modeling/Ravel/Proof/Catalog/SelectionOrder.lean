import Ravel.Proof.Catalog.OverlapComponents

namespace Ravel.Catalog

open List DisjointSets SortedGroups

theorem foldl_max_le {sizes : List Nat} {start bound : Nat} (startLe : start ≤ bound)
    (sizesLe : ∀ size ∈ sizes, size ≤ bound) : sizes.foldl max start ≤ bound := by
  induction sizes generalizing start with
  | nil => exact startLe
  | cons size rest ih =>
    rw [forall_mem_cons] at sizesLe
    exact ih (max_le startLe sizesLe.1) sizesLe.2

theorem le_foldl_max {sizes : List Nat} {size start : Nat} (member : size ∈ sizes ∨ size ≤ start) :
    size ≤ sizes.foldl max start := by
  induction sizes generalizing start with
  | nil =>
    rcases member with absent | below
    · cases absent
    · exact below
  | cons first rest ih =>
    refine ih ?_
    rcases member with inside | below
    · rcases mem_cons.mp inside with rfl | later
      · exact .inr (le_max_right _ _)
      · exact .inl later
    · exact .inr (le_trans below (le_max_left _ _))

variable {live other : List CompactionRecord}

variable {component : Nat × List Nat} {members : List Nat} {record : CompactionRecord}
  {records : List CompactionRecord} {selection : AuthoritativeSelection} {listed : List CompactionRecord}

/-- The positions of a component are distinct. -/
theorem component_nodup (member : component ∈ overlapComponents live) : component.2.Nodup := by
  have items := lookup_of_mem (groupAll_sorted _) member
  rw [lookup_groupAll] at items
  rw [← items]
  have positions := overlapRoots_positions live
  refine (filter_sublist.map Prod.snd).nodup ?_
  change ((rootsFrom (overlapParents live) (List.range live.length)).map Prod.snd).Nodup
  rw [positions]
  exact nodup_range

/-- The records at the positions of a component. -/
def componentRecords (live : List CompactionRecord) (members : List Nat) : List CompactionRecord :=
  members.filterMap fun member => live[member]?

theorem length_componentRecords (inside : ∀ member ∈ members, member < live.length) :
    (componentRecords live members).length = members.length := by
  induction members with
  | nil => rfl
  | cons member rest ih =>
    rw [forall_mem_cons] at inside
    obtain ⟨record, found⟩ := exists_at inside.1
    rw [componentRecords, filterMap_cons, found]
    exact congrArg Nat.succ (ih inside.2)

theorem componentRecords_nodup (distinct : KeysNodup live) (nodup : members.Nodup) :
    (componentRecords live members).Nodup := by
  refine nodup.filterMap ?_
  intro first second record atFirst atSecond
  exact position_unique distinct atFirst atSecond rfl

theorem mem_componentRecords (distinct : KeysNodup live) (member : component ∈ overlapComponents live) {first : Nat}
    (inside : first ∈ component.2) (atFirst : live[first]? = some record) (candidate : CompactionRecord) :
    candidate ∈ componentRecords live component.2 ↔ candidate ∈ live ∧ Connected (· ∈ live) record candidate := by
  rw [componentRecords, mem_filterMap]
  constructor
  · intro ⟨second, listed, atSecond⟩
    exact ⟨mem_of_getElem? atSecond,
      (mem_component_iff_connected distinct member inside atFirst atSecond).mp listed⟩
  · intro ⟨inLive, connected⟩
    obtain ⟨second, atSecond⟩ := mem_iff_getElem?.mp inLive
    exact ⟨second, (mem_component_iff_connected distinct member inside atFirst atSecond).mpr connected, atSecond⟩

/-- Reordered records have components of the same sizes. -/
theorem exists_component_length (distinct : KeysNodup live) (otherDistinct : KeysNodup other)
    (reordered : other.Perm live) (member : component ∈ overlapComponents live) :
    ∃ found ∈ overlapComponents other, found.2.length = component.2.length := by
  have nonempty : component.2 ≠ [] := (groupAll_keys _).2 component member
  obtain ⟨first, inside⟩ := exists_mem_of_ne_nil _ nonempty
  obtain ⟨record, atFirst⟩ := exists_at (component_lt member inside)
  have inOther : record ∈ other := reordered.mem_iff.mpr (mem_of_getElem? atFirst)
  obtain ⟨position, atPosition⟩ := mem_iff_getElem?.mp inOther
  obtain ⟨found, foundMember, positionIn⟩ := exists_component (List.getElem?_eq_some_iff.mp atPosition).1
  refine ⟨found, foundMember, ?_⟩
  have sameSet : (· ∈ other) = (· ∈ live) := funext fun candidate => propext reordered.mem_iff
  have same : (componentRecords other found.2).Perm (componentRecords live component.2) := by
    rw [perm_ext_iff_of_nodup (componentRecords_nodup otherDistinct (component_nodup foundMember))
      (componentRecords_nodup distinct (component_nodup member))]
    intro candidate
    rw [mem_componentRecords otherDistinct foundMember positionIn atPosition,
      mem_componentRecords distinct member inside atFirst, reordered.mem_iff, sameSet]
  have lengths := same.length_eq
  rwa [length_componentRecords fun _ listed => component_lt foundMember listed,
    length_componentRecords fun _ listed => component_lt member listed] at lengths

/-- The size of the largest component does not depend on the order. -/
theorem largestComponent_perm (distinct : KeysNodup live) (otherDistinct : KeysNodup other)
    (reordered : other.Perm live) :
    ((overlapComponents other).map fun component => component.2.length).foldl max 0 =
      ((overlapComponents live).map fun component => component.2.length).foldl max 0 := by
  refine le_antisymm (foldl_max_le (Nat.zero_le _) ?_) (foldl_max_le (Nat.zero_le _) ?_)
  · intro size listed
    obtain ⟨component, member, rfl⟩ := mem_map.mp listed
    obtain ⟨found, foundMember, same⟩ :=
      exists_component_length otherDistinct distinct reordered.symm member
    exact le_foldl_max (.inl (mem_map.mpr ⟨found, foundMember, same⟩))
  · intro size listed
    obtain ⟨component, member, rfl⟩ := mem_map.mp listed
    obtain ⟨found, foundMember, same⟩ := exists_component_length distinct otherDistinct reordered member
    exact le_foldl_max (.inl (mem_map.mpr ⟨found, foundMember, same⟩))

/-- A selection that succeeds on some records succeeds on fewer. -/
theorem select_ok_of_subset {fewer : List CompactionRecord} (distinct : KeysNodup records)
    (subset : ∀ record ∈ fewer, record ∈ records)
    (selected : selectAuthoritativeCompactionRecords records = .ok selection) :
    ∃ others, selectAuthoritativeCompactionRecords fewer = .ok others := by
  obtain ⟨superseded, resolved, -⟩ := select_ok selected
  obtain ⟨others, resolvedFewer⟩ := supersededByVersion2Records_ok_of_subset distinct subset resolved
  rw [selectAuthoritativeCompactionRecords, resolvedFewer]
  exact ⟨_, rfl⟩

/-- Named keys depend on the set of records. -/
theorem namedByVersion2_congr (same : ∀ record, record ∈ listed ↔ record ∈ records) :
    NamedByVersion2 listed = NamedByVersion2 records := by
  funext key
  simp only [NamedByVersion2, same]

theorem isLive_congr (same : ∀ record, record ∈ listed ↔ record ∈ records) : IsLive listed = IsLive records := by
  funext record
  rw [IsLive, IsLive, same, namedByVersion2_congr same]

/-- Two selections decide alike. -/
structure AuthoritativeSelection.Agrees (left right : AuthoritativeSelection) : Prop where
  superseded : ∀ key, key ∈ left.superseded ↔ key ∈ right.superseded
  losing : ∀ key, key ∈ left.losing ↔ key ∈ right.losing
  largestComponent : left.largestComponent = right.largestComponent

/-- The selection does not depend on the order of the records. -/
theorem select_perm (distinct : KeysNodup records) (reordered : listed.Perm records)
    (selected : selectAuthoritativeCompactionRecords records = .ok selection) :
    ∃ others, selectAuthoritativeCompactionRecords listed = .ok others ∧ others.Agrees selection := by
  have listedDistinct : KeysNodup listed := (reordered.map _).nodup_iff.mpr distinct
  have same : ∀ record, record ∈ listed ↔ record ∈ records := fun record => reordered.mem_iff
  obtain ⟨others, listedSelected⟩ := select_ok_of_subset distinct (fun record => (same record).mp) selected
  have first := select_selects distinct selected
  have second := select_selects listedDistinct listedSelected
  refine ⟨others, listedSelected, ?_, ?_, ?_⟩
  · intro key
    rw [first.superseded, second.superseded, namedByVersion2_congr same]
  · intro key
    rw [first.losing, second.losing, isLive_congr same]
  · obtain ⟨superseded, resolved, rfl⟩ := select_ok selected
    obtain ⟨listedSuperseded, listedResolved, rfl⟩ := select_ok listedSelected
    have liveReordered : (listed.filter fun record => record.key ∉ listedSuperseded).Perm
        (records.filter fun record => record.key ∉ superseded) := by
      have keep : (fun record : CompactionRecord => decide (record.key ∉ listedSuperseded)) =
          fun record => decide (record.key ∉ superseded) := by
        funext record
        rw [decide_eq_decide, mem_superseded_iff distinct resolved, mem_superseded_iff listedDistinct listedResolved,
          namedByVersion2_congr same]
      rw [keep]
      exact reordered.filter _
    rw [selectAmongLive, selectAmongLive, liveReordered.length_eq]
    by_cases few : (records.filter fun record => record.key ∉ superseded).length < 2
    · rw [if_pos few, if_pos few]
    · rw [if_neg few, if_neg few]
      exact largestComponent_perm (distinct.filter _) (listedDistinct.filter _) liveReordered

/-- A record that the selector keeps: live and not losing. -/
def Authoritative (records : List CompactionRecord) (record : CompactionRecord) : Prop :=
  IsLive records record ∧ ¬Loses (IsLive records) record

theorem Selects.isExcluded_iff (selects : Selects records selection) (distinct : KeysNodup records)
    (member : record ∈ records) : selection.isExcluded record.key = false ↔ Authoritative records record := by
  rw [AuthoritativeSelection.isExcluded, Bool.or_eq_false_iff, decide_eq_false_iff_not, decide_eq_false_iff_not,
    selects.superseded, selects.losing, Authoritative, IsLive]
  constructor
  · intro ⟨unnamed, kept⟩
    exact ⟨⟨member, unnamed⟩, fun loses => kept ⟨record, rfl, loses⟩⟩
  · intro ⟨⟨_, unnamed⟩, kept⟩
    refine ⟨unnamed, ?_⟩
    intro ⟨other, same, loses⟩
    rw [inj_on_of_nodup_map distinct loses.1.1 member same] at loses
    exact kept loses

theorem authoritative_eq_of_overlaps (distinct : KeysNodup records) {left right : CompactionRecord}
    (leftAuthority : Authoritative records left) (rightAuthority : Authoritative records right)
    (overlap : Overlaps left right) : left = right := by
  have connected : Connected (IsLive records) left right :=
    .rel _ _ ⟨leftAuthority.1, rightAuthority.1, overlap⟩
  rcases lt_trichotomy (authorityKey left) (authorityKey right) with below | same | above
  · exact absurd ⟨rightAuthority.1, left, leftAuthority.1, connected, below⟩ rightAuthority.2
  · exact inj_on_of_nodup_map distinct leftAuthority.1.1 rightAuthority.1.1 (key_eq_of_authorityKey_eq same)
  · exact absurd ⟨leftAuthority.1, right, rightAuthority.1, connected.symm, above⟩ leftAuthority.2

end Ravel.Catalog
