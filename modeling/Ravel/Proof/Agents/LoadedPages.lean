import Ravel.Proof.Agents.SealedDirectories

namespace Ravel.Agents

open List Library

section Hidden

variable {Entry : Type} {digests : Digests} {pages : PageEntry Entry} {size : Nat} {dir loaded : Directory}
  {whole part : List Entry} {groups : List (PageGroup Entry)} {rest : List Entry}

/-- The entries of the pages that are not in memory. -/
def hiddenEntries (pages : PageEntry Entry) (loaded : Directory) (whole : List Entry) : List Entry :=
  whole.filter fun entry => !loaded.inMemory (pages.key entry)

theorem ListLoads.cut (loads : ListLoads pages dir loaded whole part) :
    whole.Perm (part ++ hiddenEntries pages loaded whole) := by
  have split := filter_append_perm (fun entry => loaded.inMemory (pages.key entry)) whole
  exact split.symm.trans ((loads.reordered.symm).append_right _)

theorem ListLoads.pageFor_eq (loads : ListLoads pages dir loaded whole part) (key : Nat) :
    loaded.pageFor key = dir.pageFor key := by
  obtain ⟨samePages, sameTail, -⟩ := loads.sameRecord
  rw [Directory.pageFor, Directory.pageFor, samePages, sameTail]

theorem mem_hiddenEntries (described : Described digests pages size dir whole groups rest)
    (loads : ListLoads pages dir loaded whole part) {entry : Entry} :
    entry ∈ hiddenEntries pages loaded whole ↔
      ∃ index group, groups[index]? = some group ∧ loaded.isLoaded index = false ∧ entry ∈ group.entries := by
  rw [hiddenEntries, mem_filter, Directory.inMemory, loads.pageFor_eq]
  constructor
  · rintro ⟨member, hidden⟩
    cases routed : dir.pageFor (pages.key entry) with
    | none => simp [routed] at hidden
    | some index =>
      have within : index < groups.length := by
        rw [pageFor_eq_pageOf, described.firstKeys] at routed
        simpa using pageOf_lt routed
      have located := getElem?_eq_getElem within
      refine ⟨index, _, located, ?_, (described.pageFor_group located entry).mp ⟨member, routed⟩⟩
      simpa [routed] using hidden
  · rintro ⟨index, group, located, unloaded, inGroup⟩
    obtain ⟨member, routed⟩ := (described.pageFor_group located entry).mpr inGroup
    exact ⟨member, by simp [routed, unloaded]⟩

theorem page_of_group (described : Described digests pages size dir whole groups rest)
    (loads : ListLoads pages dir loaded whole part) {index : Nat} {group : PageGroup Entry}
    (located : groups[index]? = some group) : loaded.pages[index]? = some (groupMeta digests pages group) := by
  rw [loads.sameRecord.1, described.recorded, getElem?_map, located]
  rfl

theorem loaded_of_missing {need : Need} (complete : loaded.missing need = []) {index : Nat}
    (named : index ∈ loaded.pagesFor need) : loaded.isLoaded index = true := by
  rw [Directory.missing, filter_eq_nil_iff] at complete
  simpa using complete index named

/-- No hidden entry has the key that a satisfied need names. -/
theorem hidden_key (described : Described digests pages size dir whole groups rest)
    (loads : ListLoads pages dir loaded whole part) {key : Nat} (complete : loaded.missing (.key key) = []) :
    ∀ entry ∈ hiddenEntries pages loaded whole, pages.key entry ≠ key := by
  intro entry member same
  obtain ⟨index, group, located, unloaded, inGroup⟩ := (mem_hiddenEntries described loads).mp member
  have routed := ((described.pageFor_group located entry).mpr inGroup).2
  have named : index ∈ loaded.pagesFor (.key key) := by
    rw [Directory.pagesFor, loads.pageFor_eq, ← same, routed]
    simp
  rw [loaded_of_missing complete named] at unloaded
  cases unloaded

theorem mem_pagesWhere {test : PageMeta → Bool} {index : Nat} {page : PageMeta} (located : loaded.pages[index]? = some page)
    (passes : test page = true) : index ∈ loaded.pagesWhere test := by
  obtain ⟨within, -⟩ := List.getElem?_eq_some_iff.mp located
  rw [Directory.pagesWhere, mem_filter, mem_range, located]
  exact ⟨within, passes⟩

section

variable (described : Described digests pages size dir whole groups rest)
  (loads : ListLoads pages dir loaded whole part)

include described loads

theorem hidden_fingerprint {fingerprint : Nat} (complete : loaded.missing (.fingerprint fingerprint) = []) :
    ∀ entry ∈ hiddenEntries pages loaded whole, pages.fingerprint entry ≠ some fingerprint := by
  intro entry member same
  obtain ⟨index, group, located, unloaded, inGroup⟩ := (mem_hiddenEntries described loads).mp member
  have named : index ∈ loaded.pagesFor (.fingerprint fingerprint) := by
    apply mem_pagesWhere (page_of_group described loads located)
    rw [contains_iff_mem]
    have listed : fingerprint ∈ group.entries.filterMap pages.fingerprint :=
      mem_filterMap.mpr ⟨entry, inGroup, same⟩
    exact (perm_insertionSort _ _).mem_iff.mpr listed
  rw [loaded_of_missing complete named] at unloaded
  cases unloaded

theorem hidden_marked (complete : loaded.missing .marked = []) :
    ∀ entry ∈ hiddenEntries pages loaded whole, pages.marked entry = false := by
  intro entry member
  obtain ⟨index, group, located, unloaded, inGroup⟩ := (mem_hiddenEntries described loads).mp member
  cases marked : pages.marked entry with
  | false => rfl
  | true =>
    have named : index ∈ loaded.pagesFor .marked := by
      apply mem_pagesWhere (page_of_group described loads located)
      have counted : 0 < group.entries.countP pages.marked := countP_pos_iff.mpr ⟨entry, inGroup, marked⟩
      simpa [groupMeta, pageMeta, PageWriter.finish] using counted
    rw [loaded_of_missing complete named] at unloaded
    cases unloaded

theorem hidden_all (complete : loaded.missing .all = []) : hiddenEntries pages loaded whole = [] := by
  apply eq_nil_iff_forall_not_mem.mpr
  intro entry member
  obtain ⟨index, group, located, unloaded, -⟩ := (mem_hiddenEntries described loads).mp member
  have named : index ∈ loaded.pagesFor .all := by
    obtain ⟨within, -⟩ := List.getElem?_eq_some_iff.mp (page_of_group described loads located)
    simpa [Directory.pagesFor] using within
  rw [loaded_of_missing complete named] at unloaded
  cases unloaded

end

/-- The entries of the group at an index. -/
def groupAt (groups : List (PageGroup Entry)) (index : Nat) : List Entry :=
  (groups[index]?.map (·.entries)).getD []

theorem range_flatMap_groupAt (groups : List (PageGroup Entry)) :
    (List.range groups.length).flatMap (groupAt groups) = groups.flatMap (·.entries) := by
  induction groups with
  | nil => rfl
  | cons group others ih =>
    rw [length_cons, range_succ_eq_map, flatMap_cons, flatMap_map, flatMap_cons,
      ← ih]
    rfl

theorem hidden_perm (described : Described digests pages size dir whole groups rest)
    (loads : ListLoads pages dir loaded whole part) :
    (hiddenEntries pages loaded whole).Perm (loaded.unloaded.flatMap (groupAt groups)) := by
  have count : loaded.pages.length = groups.length := by rw [loads.sameRecord.1, described.pageCount]
  have within : (loaded.unloaded.flatMap (groupAt groups)).Sublist (contents groups rest) := by
    have all := (filter_sublist (p := fun page => !loaded.isLoaded page) (l := List.range loaded.pages.length)).flatMap
      (groupAt groups)
    rw [count, range_flatMap_groupAt] at all
    rw [Directory.unloaded, count]
    exact all.trans (sublist_append_left _ _)
  have allDistinct := described.layout.distinct described.ascending described.restDistinct
  apply perm_of_mem_iff (distinct_filter described.distinct _) (allDistinct.sublist (within.map pages.key))
  intro entry
  change entry ∈ hiddenEntries pages loaded whole ↔ _
  rw [mem_hiddenEntries described loads, mem_flatMap]
  constructor
  · rintro ⟨index, group, located, unloaded, inGroup⟩
    obtain ⟨bound, -⟩ := List.getElem?_eq_some_iff.mp located
    refine ⟨index, ?_, by rw [groupAt, located]; exact inGroup⟩
    rw [Directory.unloaded, mem_filter, mem_range, count]
    exact ⟨bound, by simp [unloaded]⟩
  · rintro ⟨index, isUnloaded, inGroup⟩
    rw [Directory.unloaded, mem_filter, mem_range, count] at isUnloaded
    have located := getElem?_eq_getElem isUnloaded.1
    rw [groupAt, located] at inGroup
    exact ⟨index, _, located, by simpa using isUnloaded.2, inGroup⟩

theorem figure_group (described : Described digests pages size dir whole groups rest)
    (loads : ListLoads pages dir loaded whole part) (measure : PageMeta → Nat) (measureOf : List Entry → Nat)
    (measures : ∀ group, measure (groupMeta digests pages group) = measureOf group.entries) (nothing : measureOf [] = 0)
    (index : Nat) : loaded.figure measure index = measureOf (groupAt groups index) := by
  rw [Directory.figure, loads.sameRecord.1, described.recorded, getElem?_map, groupAt]
  cases groups[index]? with
  | none => exact nothing.symm
  | some group => exact measures group

theorem foldl_add_figure (indexes : List Nat) (figure : Nat → Nat) (start : Nat) :
    indexes.foldl (fun count page => count + figure page) start = start + (indexes.map figure).sum := by
  induction indexes generalizing start with
  | nil => rfl
  | cons index rest ih =>
    rw [foldl_cons, ih, map_cons, sum_cons, Nat.add_assoc]

/-- The directory counts the hidden entries. -/
theorem total_eq (described : Described digests pages size dir whole groups rest)
    (loads : ListLoads pages dir loaded whole part) (inMemory : Nat) :
    loaded.total inMemory = inMemory + (hiddenEntries pages loaded whole).length := by
  rw [Directory.total, foldl_add_figure, (hidden_perm described loads).length_eq, length_flatMap]
  congr 2
  apply map_congr_left
  intro index _
  exact figure_group described loads (·.entries) List.length (fun _ => rfl) rfl index

theorem unloadedMarked_eq (described : Described digests pages size dir whole groups rest)
    (loads : ListLoads pages dir loaded whole part) :
    loaded.unloadedMarked = (hiddenEntries pages loaded whole).countP pages.marked := by
  rw [Directory.unloadedMarked, foldl_add_figure, Nat.zero_add, (hidden_perm described loads).countP_eq,
    countP_flatMap]
  congr 1
  apply map_congr_left
  intro index _
  exact figure_group described loads (·.marked) (List.countP pages.marked) (fun _ => rfl) rfl index

/-- The saturating sum is the sum up to its largest value. -/
theorem foldl_saturatingAddU64 {Item : Type} (items : List Item) (measure : Item → Nat) {start : Nat}
    (bounded : start ≤ 2 ^ 64 - 1) :
    items.foldl (fun bytes item => saturatingAddU64 bytes (measure item)) start =
      min (start + (items.map measure).sum) (2 ^ 64 - 1) := by
  induction items generalizing start with
  | nil => simp only [foldl_nil, map_nil, sum_nil]; omega
  | cons item rest ih =>
    have step : saturatingAddU64 start (measure item) ≤ 2 ^ 64 - 1 := Nat.min_le_right _ _
    rw [foldl_cons, ih step, saturatingAddU64, map_cons, sum_cons]
    omega

/-- The bytes that a list of entries references. -/
def referenced (pages : PageEntry Entry) (entries : List Entry) : Nat :=
  (entries.map pages.referencedBytes).sum

theorem referenced_append (left right : List Entry) :
    referenced pages (left ++ right) = referenced pages left + referenced pages right := by
  rw [referenced, map_append, sum_append]
  rfl

theorem referenced_perm {left right : List Entry} (reordered : left.Perm right) :
    referenced pages left = referenced pages right :=
  (reordered.map pages.referencedBytes).sum_nat

theorem referenced_flatMap (indexes : List Nat) (groupOf : Nat → List Entry) :
    referenced pages (indexes.flatMap groupOf) = (indexes.map fun index => referenced pages (groupOf index)).sum := by
  induction indexes with
  | nil => rfl
  | cons index others ih =>
    rw [flatMap_cons, referenced_append, ih, map_cons, sum_cons]

theorem sum_min_eq (values : List Nat) (cap : Nat) :
    min ((values.map fun value => min value cap).sum) cap = min values.sum cap := by
  induction values with
  | nil => rfl
  | cons value rest ih =>
    rw [map_cons, sum_cons, sum_cons]
    omega

theorem unloadedReferencedBytes_eq (described : Described digests pages size dir whole groups rest)
    (loads : ListLoads pages dir loaded whole part) :
    loaded.unloadedReferencedBytes = min (referenced pages (hiddenEntries pages loaded whole)) (2 ^ 64 - 1) := by
  have figures : (loaded.unloaded.map (loaded.figure (·.referencedBytes))) =
      ((loaded.unloaded.map fun index => referenced pages (groupAt groups index)).map fun bytes =>
        min bytes (2 ^ 64 - 1)) := by
    rw [map_map]
    apply map_congr_left
    intro index _
    apply figure_group described loads (·.referencedBytes) (fun entries => min (referenced pages entries) (2 ^ 64 - 1))
    · intro group
      have summed := foldl_saturatingAddU64 group.entries pages.referencedBytes (Nat.zero_le (2 ^ 64 - 1))
      rw [Nat.zero_add] at summed
      exact summed
    · rfl
  rw [Directory.unloadedReferencedBytes, foldl_saturatingAddU64 _ _ (Nat.zero_le _), Nat.zero_add, figures, sum_min_eq,
    referenced_perm (hidden_perm described loads), referenced_flatMap]

end Hidden

end Ravel.Agents
