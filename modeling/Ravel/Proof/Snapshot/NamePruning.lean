import Ravel.Construction.Snapshot.NamePostings
import Ravel.Library.FailingRuns
import Ravel.Library.KeyedLists

namespace Ravel.Snapshot

open List Library

section Texts

variable {text other leading : List Char}

theorem not_lt_of_startsWith (starts : leading <+: text) : ¬text < leading := by
  induction leading generalizing text with
  | nil => exact not_lt_nil _
  | cons first rest ih =>
    obtain ⟨tail, rfl⟩ := starts
    rw [cons_append, cons_lt_cons_iff]
    rintro (smaller | ⟨-, before⟩)
    · exact lt_irrefl _ smaller
    · exact ih (prefix_append _ _) before

/-- A text between a prefix and a text with that prefix has the prefix. -/
theorem startsWith_of_between (starts : leading <+: other) (before : text < other) (reached : ¬text < leading) :
    leading <+: text := by
  induction leading generalizing text other with
  | nil => exact nil_prefix
  | cons first rest ih =>
    obtain ⟨tail, rfl⟩ := starts
    cases text with
    | nil => exact absurd (nil_lt_cons _ _) reached
    | cons own ownRest =>
      rw [cons_append, cons_lt_cons_iff] at before
      rw [cons_lt_cons_iff, not_or] at reached
      obtain ⟨notSmaller, notBefore⟩ := reached
      rcases before with smaller | ⟨rfl, restBefore⟩
      · exact absurd smaller notSmaller
      · apply (prefix_cons_inj own).mpr
        exact ih (prefix_append _ _) restBefore fun smaller => notBefore ⟨rfl, smaller⟩

end Texts

theorem startsWith_iff {text leading : String} : startsWith text leading = true ↔ leading.toList <+: text.toList :=
  isPrefixOf_iff_prefix

/-- A name that the filter asks for. A filter after the sentinel is a prefix, and the name that is the whole text stays. -/
def nameMatches (filter name : String) : Bool :=
  match stripPrefix prefixFilterSentinel filter with
  | none => decide (name = filter)
  | some leading => startsWith name leading || decide (name = filter)

/-- A matching name lists the ordinal. -/
def Postings.lists (postings : Postings) (filter : String) (ordinal : Nat) : Bool :=
  postings.names.any fun entry => nameMatches filter entry.name && entry.ordinals.contains ordinal

section Ordinals

variable {window : SnapshotWindow} {postings : Postings}

theorem sortDedup_ascending (ordinals : List Nat) : (sortDedup ordinals).Pairwise (· < ·) := by
  apply dedupAdjacent_ascending
  apply List.Pairwise.imp fun before => of_decide_eq_true before
  apply pairwise_mergeSort
  · intro first second third before after
    simp only [decide_eq_true_eq] at before after ⊢
    omega
  · intro first second
    simp only [Bool.or_eq_true, decide_eq_true_eq]
    omega

@[simp] theorem mem_sortDedup {ordinals : List Nat} {ordinal : Nat} : ordinal ∈ sortDedup ordinals ↔ ordinal ∈ ordinals := by
  rw [sortDedup, mem_dedupAdjacent, mem_mergeSort]

theorem postingsOrdinalsForFilter_unbound (unbound : window.postingsBindAllParts = false) (filter : Option String) :
    window.postingsOrdinalsForFilter filter = none := by
  have exact : ∀ name, window.postingsOrdinalsFor name = none := by
    intro name
    rw [SnapshotWindow.postingsOrdinalsFor, unbound]
    rfl
  have prefixed : ∀ leading, window.postingsPrefixOrdinalsFor leading = none := by
    intro leading
    rw [SnapshotWindow.postingsPrefixOrdinalsFor, unbound]
    split
    · rfl
    · rfl
  cases filter with
  | none => rfl
  | some filter =>
    rw [SnapshotWindow.postingsOrdinalsForFilter]
    split
    · exact exact filter
    · rw [prefixed]

/-- The exact lookup finds the ordinals of its name. -/
theorem postingsOrdinalsFor_spec (held : window.postings = some postings) (bound : window.postingsBindAllParts = true)
    (name : String) : ∃ ordinals, window.postingsOrdinalsFor name = some ordinals ∧ ordinals.Pairwise (· < ·) ∧
      ∀ ordinal, ordinal ∈ ordinals ↔ ∃ entry ∈ postings.names, entry.name = name ∧ ordinal ∈ entry.ordinals := by
  have distinct : (postings.names.map NamePostings.name).Nodup := by
    rw [Nodup, pairwise_map]
    exact postings.namesAscend.imp fun before => ne_of_lt before
  rw [SnapshotWindow.postingsOrdinalsFor, bound, held]
  cases found : postings.names.find? fun entry => decide (entry.name = name) with
  | none =>
    refine ⟨[], by simp [found], List.Pairwise.nil, ?_⟩
    intro ordinal
    constructor
    · intro member
      cases member
    · rintro ⟨entry, member, named, -⟩
      exact absurd named (by simpa using find?_eq_none.mp found entry member)
  | some entry =>
    have member := mem_of_find?_eq_some found
    have named : entry.name = name := by simpa using find?_some found
    refine ⟨entry.ordinals, by simp [found], postings.ordinalsAscend entry member, ?_⟩
    intro ordinal
    constructor
    · intro listed
      exact ⟨entry, member, named, listed⟩
    · rintro ⟨other, otherMember, otherNamed, listed⟩
      rw [inj_on_of_nodup_map distinct member otherMember (named.trans otherNamed.symm)]
      exact listed

/-- The names with a prefix stand together. -/
theorem prefix_window (postings : Postings) (leading : String) :
    (postings.names.take (partitionPoint (fun entry => decide (entry.name < leading) || startsWith entry.name leading)
        postings.names)).drop (partitionPoint (fun entry => decide (entry.name < leading)) postings.names) =
      postings.names.filter fun entry => startsWith entry.name leading := by
  rw [Partitioned.window]
  · apply filter_congr
    intro entry _
    by_cases starts : startsWith entry.name leading = true
    · have reached : ¬entry.name < leading := by
        rw [String.lt_iff_toList_lt]
        exact not_lt_of_startsWith (startsWith_iff.mp starts)
      simp [starts, reached]
    · simp [starts]
  · apply postings.namesAscend.imp
    intro first second before below
    rw [decide_eq_true_eq] at below ⊢
    exact lt_trans before below
  · apply postings.namesAscend.imp
    intro first second before passes
    rw [Bool.or_eq_true, decide_eq_true_eq] at passes ⊢
    by_cases below : first.name < leading
    · exact .inl below
    · right
      rcases passes with secondBelow | starts
      · exact absurd (lt_trans before secondBelow) below
      · rw [String.lt_iff_toList_lt] at before below
        exact startsWith_iff.mpr (startsWith_of_between (startsWith_iff.mp starts) before below)
  · intro entry below
    simp only [Bool.or_eq_true]
    exact .inl below

theorem postingsPrefixOrdinalsFor_spec (held : window.postings = some postings) (bound : window.postingsBindAllParts = true)
    {leading : String} (inhabited : leading.isEmpty = false) :
    ∃ ordinals, window.postingsPrefixOrdinalsFor leading = some ordinals ∧ ordinals.Pairwise (· < ·) ∧
      ∀ ordinal, ordinal ∈ ordinals ↔
        ∃ entry ∈ postings.names, startsWith entry.name leading = true ∧ ordinal ∈ entry.ordinals := by
  refine ⟨_, by rw [SnapshotWindow.postingsPrefixOrdinalsFor, inhabited, bound, held]; rfl, sortDedup_ascending _, ?_⟩
  intro ordinal
  rw [mem_sortDedup, prefix_window, mem_flatMap]
  simp only [mem_filter, and_assoc]

/-- A filter other than the bare sentinel keeps what its matching names list, in ascending order. -/
theorem postingsOrdinalsForFilter_spec (held : window.postings = some postings) (bound : window.postingsBindAllParts = true)
    {filter : String} (usable : stripPrefix prefixFilterSentinel filter ≠ some "") :
    ∃ ordinals, window.postingsOrdinalsForFilter (some filter) = some ordinals ∧ ordinals.Pairwise (· < ·) ∧
      ∀ ordinal, ordinal ∈ ordinals ↔ postings.lists filter ordinal = true := by
  have listed : ∀ ordinal, postings.lists filter ordinal = true ↔
      ∃ entry ∈ postings.names, nameMatches filter entry.name = true ∧ ordinal ∈ entry.ordinals := by
    intro ordinal
    simp only [Postings.lists, any_eq_true, Bool.and_eq_true, contains_iff_mem]
  obtain ⟨exact, exactFound, exactAscend, exactMem⟩ := postingsOrdinalsFor_spec held bound filter
  rw [SnapshotWindow.postingsOrdinalsForFilter]
  cases stripped : stripPrefix prefixFilterSentinel filter with
  | none =>
    refine ⟨exact, exactFound, exactAscend, ?_⟩
    intro ordinal
    rw [exactMem, listed]
    simp only [nameMatches, stripped, decide_eq_true_eq]
  | some leading =>
    have inhabited : leading.isEmpty = false := by
      rw [Bool.eq_false_iff]
      intro isEmpty
      exact usable (by rw [stripped, String.isEmpty_iff.mp isEmpty])
    obtain ⟨ordinals, found, ascend, mem⟩ := postingsPrefixOrdinalsFor_spec held bound inhabited
    have either : ∀ ordinal, postings.lists filter ordinal = true ↔ ordinal ∈ ordinals ∨ ordinal ∈ exact := by
      intro ordinal
      rw [listed, mem, exactMem]
      simp only [nameMatches, stripped, Bool.or_eq_true, decide_eq_true_eq, or_and_right, and_or_left, exists_or]
    dsimp only
    rw [found, exactFound]
    dsimp only
    by_cases noExact : exact.isEmpty = true
    · rw [if_pos noExact]
      refine ⟨ordinals, rfl, ascend, ?_⟩
      intro ordinal
      rw [either, List.isEmpty_iff.mp noExact]
      simp
    · rw [if_neg noExact]
      refine ⟨_, rfl, sortDedup_ascending _, ?_⟩
      intro ordinal
      rw [either, mem_sortDedup, mem_append]

end Ordinals

/-- An entry of a window: its part, its place there, and its ordinal in the concatenation of the parts. -/
structure PartEntry where
  part : Nat
  place : Nat
  ordinal : Nat
  entry : SnapshotEntry

def partEntries (partIndex partBase : Nat) (part : SnapshotPart) : List PartEntry :=
  part.entries.zipIdx.map fun placed => ⟨partIndex, placed.2, partBase + placed.2, placed.1⟩

/-- The entries of the parts, numbered through. -/
def windowEntries : Nat → Nat → List SnapshotPart → List PartEntry
  | _, _, [] => []
  | partIndex, partBase, part :: rest =>
    partEntries partIndex partBase part ++ windowEntries (partIndex + 1) (partBase + part.entries.length) rest

/-- The entry's hour is in the query's window. -/
def ExtractQuery.inHours (query : ExtractQuery) (held : PartEntry) : Bool :=
  decide (query.lowerHour ≤ held.entry.ingestHourBucket) && decide (held.entry.ingestHourBucket ≤ query.upperHour)

/-- One entry is inserted with its origin. -/
def insertEntry (query : ExtractQuery) (state : Extraction) (held : PartEntry) : Except EntryError Extraction :=
  maybeInsert query held.entry (if held.part < 2 ^ 32 ∧ held.place < 2 ^ 32 then some ⟨held.part, held.place⟩ else none) state

/-- So many more entries are pruned. -/
def Extraction.prune (state : Extraction) (count : Nat) : Extraction :=
  { state with pruned := state.pruned + count }

theorem Extraction.prune_add (state : Extraction) (first second : Nat) :
    state.prune (first + second) = (state.prune first).prune second := by
  rw [Extraction.prune, Extraction.prune, Extraction.prune, Nat.add_assoc]

section Insertion

variable {query : ExtractQuery}

theorem insertEntry_prune (state : Extraction) (count : Nat) (held : PartEntry) :
    insertEntry query (state.prune count) held = (insertEntry query state held).map (·.prune count) := by
  unfold insertEntry maybeInsert
  split
  · rfl
  · cases buildSegmentRefFromEntry query.tenant query.signal held.entry with
    | error failure => rfl
    | ok segment =>
      show (if state.out.any _ then _ else _) = Except.map _ (if state.out.any _ then _ else _)
      split
      · rfl
      · rfl

/-- The count of pruned entries does not meet the insertions. -/
theorem foldlM_insertEntry_prune (entries : List PartEntry) (state : Extraction) (count : Nat) :
    entries.foldlM (insertEntry query) (state.prune count) =
      (entries.foldlM (insertEntry query) state).map (·.prune count) := by
  induction entries generalizing state with
  | nil => rfl
  | cons held rest ih =>
    rw [foldlM_cons, foldlM_cons, insertEntry_prune]
    cases insertEntry query state held with
    | error failure => rfl
    | ok next => exact ih next

theorem insertEntry_keeps {state next : Extraction} {held : PartEntry} (inserted : insertEntry query state held = .ok next) :
    ∀ recorded ∈ state.out, recorded ∈ next.out := by
  unfold insertEntry maybeInsert at inserted
  split at inserted
  · cases inserted
    exact fun recorded member => member
  · obtain ⟨segment, -, stored⟩ := ok_of_bind inserted
    split at stored
    · cases stored
      exact fun recorded member => member
    · cases stored
      exact fun recorded member => mem_append_left _ member

theorem insertEntry_records {state next : Extraction} {held : PartEntry} (inserted : insertEntry query state held = .ok next)
    (overlaps : (TimeRange.mk held.entry.minEventTsNs held.entry.maxEventTsNs).overlaps query.range = true) :
    ∃ segment, buildSegmentRefFromEntry query.tenant query.signal held.entry = .ok segment ∧
      segment.dataObjectKey ∈ next.out.map Prod.fst := by
  unfold insertEntry maybeInsert at inserted
  rw [overlaps, Bool.not_true, if_neg (by decide)] at inserted
  obtain ⟨segment, built, stored⟩ := ok_of_bind inserted
  refine ⟨segment, built, ?_⟩
  split at stored
  · rename_i recorded
    cases stored
    obtain ⟨entry, member, same⟩ := any_eq_true.mp recorded
    exact mem_map.mpr ⟨entry, member, by simpa using same⟩
  · cases stored
    simp

theorem foldlM_insertEntry_records {entries : List PartEntry} {state result : Extraction}
    (inserted : entries.foldlM (insertEntry query) state = .ok result) :
    (∀ recorded ∈ state.out, recorded ∈ result.out) ∧
    ∀ held ∈ entries, (TimeRange.mk held.entry.minEventTsNs held.entry.maxEventTsNs).overlaps query.range = true →
      ∃ segment, buildSegmentRefFromEntry query.tenant query.signal held.entry = .ok segment ∧
        segment.dataObjectKey ∈ result.out.map Prod.fst := by
  induction entries generalizing state with
  | nil =>
    cases inserted
    refine ⟨fun recorded member => member, ?_⟩
    intro held member
    cases member
  | cons first rest ih =>
    obtain ⟨next, firstInserted, restInserted⟩ := ok_of_bind inserted
    obtain ⟨kept, recorded⟩ := ih restInserted
    refine ⟨fun entry member => kept entry (insertEntry_keeps firstInserted entry member), ?_⟩
    intro held member overlaps
    rcases mem_cons.mp member with rfl | later
    · obtain ⟨segment, built, inNext⟩ := insertEntry_records firstInserted overlaps
      obtain ⟨entry, inOut, same⟩ := mem_map.mp inNext
      exact ⟨segment, built, mem_map.mpr ⟨entry, kept entry inOut, same⟩⟩
    · exact recorded held later overlaps

end Insertion

section Parts

variable {query : ExtractQuery} {partIndex partBase : Nat} {part : SnapshotPart} {kept : PartEntry → Bool}

theorem mem_partEntries {held : PartEntry} : held ∈ partEntries partIndex partBase part ↔
    held.part = partIndex ∧ held.ordinal = partBase + held.place ∧ part.entries[held.place]? = some held.entry := by
  rw [partEntries, mem_map]
  constructor
  · rintro ⟨placed, member, rfl⟩
    exact ⟨rfl, rfl, mk_mem_zipIdx_iff_getElem?.mp member⟩
  · rintro ⟨isPart, isOrdinal, located⟩
    exact ⟨(held.entry, held.place), mk_mem_zipIdx_iff_getElem?.mpr located, by rw [← isPart, ← isOrdinal]⟩

theorem partEntries_places (partIndex partBase : Nat) (part : SnapshotPart) :
    (partEntries partIndex partBase part).map PartEntry.place = List.range part.entries.length := by
  rw [partEntries, map_map]
  exact (zipIdx_map_snd 0 part.entries).trans range_eq_range'.symm

theorem places_ascend : (((partEntries partIndex partBase part).filter kept).map PartEntry.place).Pairwise (· < ·) := by
  have sublist := (filter_sublist (p := kept) (l := partEntries partIndex partBase part)).map PartEntry.place
  rw [partEntries_places] at sublist
  exact pairwise_lt_range.sublist sublist

theorem mem_places {place : Nat} : place ∈ ((partEntries partIndex partBase part).filter kept).map PartEntry.place ↔
    ∃ entry, part.entries[place]? = some entry ∧ kept ⟨partIndex, place, partBase + place, entry⟩ = true := by
  simp only [mem_map, mem_filter, mem_partEntries]
  constructor
  · rintro ⟨held, ⟨⟨isPart, isOrdinal, located⟩, isKept⟩, rfl⟩
    exact ⟨held.entry, located, by rw [← isPart, ← isOrdinal]; exact isKept⟩
  · rintro ⟨entry, located, isKept⟩
    exact ⟨⟨partIndex, place, partBase + place, entry⟩, ⟨⟨rfl, rfl, located⟩, isKept⟩, rfl⟩

theorem foldlM_insertAt (state : Extraction) :
    (((partEntries partIndex partBase part).filter kept).map PartEntry.place).foldlM (insertAt query partIndex part) state =
      ((partEntries partIndex partBase part).filter kept).foldlM (insertEntry query) state := by
  have inPart : ∀ held ∈ (partEntries partIndex partBase part).filter kept,
      held.part = partIndex ∧ part.entries[held.place]? = some held.entry := by
    intro held member
    obtain ⟨isPart, -, located⟩ := mem_partEntries.mp (mem_filter.mp member).1
    exact ⟨isPart, located⟩
  revert inPart
  generalize (partEntries partIndex partBase part).filter kept = entries
  intro inPart
  induction entries generalizing state with
  | nil => rfl
  | cons held rest ih =>
    obtain ⟨isPart, located⟩ := inPart held mem_cons_self
    have same : insertAt query partIndex part state held.place = insertEntry query state held := by
      rw [insertAt, located, insertEntry, isPart]
    rw [map_cons, foldlM_cons, foldlM_cons, same]
    congr 1
    funext next
    exact ih next fun later member => inPart later (mem_cons_of_mem _ member)

/-- The first place of the query's hours. -/
def startPlace (query : ExtractQuery) (part : SnapshotPart) : Nat :=
  partitionPoint (fun entry => decide (entry.ingestHourBucket < query.lowerHour)) part.entries

/-- The first place after the query's hours. -/
def stopPlace (query : ExtractQuery) (part : SnapshotPart) : Nat :=
  partitionPoint (fun entry => decide (entry.ingestHourBucket ≤ query.upperHour)) part.entries

theorem lt_startPlace (query : ExtractQuery) {place : Nat} (inside : place < part.entries.length) :
    place < startPlace query part ↔ part.entries[place].ingestHourBucket < query.lowerHour := by
  have partitioned : Partitioned (fun entry => decide (entry.ingestHourBucket < query.lowerHour)) part.entries := by
    apply part.hourMajor.imp
    intro first second before below
    rw [decide_eq_true_eq, UInt32.lt_iff_toNat_lt] at below ⊢
    omega
  exact (partitioned.lt_partitionPoint inside).trans decide_eq_true_iff

theorem lt_stopPlace (query : ExtractQuery) {place : Nat} (inside : place < part.entries.length) :
    place < stopPlace query part ↔ part.entries[place].ingestHourBucket ≤ query.upperHour := by
  have partitioned : Partitioned (fun entry => decide (entry.ingestHourBucket ≤ query.upperHour)) part.entries := by
    apply part.hourMajor.imp
    intro first second before below
    rw [decide_eq_true_eq, UInt32.le_iff_toNat_le] at below ⊢
    omega
  exact (partitioned.lt_partitionPoint inside).trans decide_eq_true_iff

theorem startPlace_le (query : ExtractQuery) (part : SnapshotPart) : startPlace query part ≤ stopPlace query part := by
  by_contra inverted
  have atMost : startPlace query part ≤ part.entries.length := partitionPoint_le _ _
  have inside : stopPlace query part < part.entries.length := by omega
  have below := (lt_startPlace query inside).mp (by omega)
  apply absurd ((lt_stopPlace query inside).mpr _) (Nat.lt_irrefl _)
  have ordered := query.hoursOrdered
  rw [UInt32.lt_iff_toNat_lt] at below
  rw [UInt32.le_iff_toNat_le] at ordered ⊢
  omega

theorem inHours_places (query : ExtractQuery) (partIndex partBase : Nat) (part : SnapshotPart) :
    List.range' (startPlace query part) (stopPlace query part - startPlace query part) =
      ((partEntries partIndex partBase part).filter query.inHours).map PartEntry.place := by
  apply eq_of_ascending pairwise_lt_range' places_ascend
  intro place
  have ordered := startPlace_le query part
  have atMost : stopPlace query part ≤ part.entries.length := partitionPoint_le _ _
  rw [mem_range'_1, mem_places]
  constructor
  · rintro ⟨reached, before⟩
    have inside : place < part.entries.length := by omega
    refine ⟨part.entries[place], getElem?_eq_getElem inside, ?_⟩
    have notBelow := mt (lt_startPlace query inside).mpr (by omega)
    have notAbove := (lt_stopPlace query inside).mp (by omega)
    rw [ExtractQuery.inHours, Bool.and_eq_true, decide_eq_true_eq, decide_eq_true_eq]
    exact ⟨UInt32.not_lt.mp notBelow, notAbove⟩
  · rintro ⟨entry, located, isKept⟩
    obtain ⟨inside, rfl⟩ := List.getElem?_eq_some_iff.mp located
    rw [ExtractQuery.inHours, Bool.and_eq_true, decide_eq_true_eq, decide_eq_true_eq] at isKept
    have reached := mt (lt_startPlace query inside).mp (UInt32.not_lt.mpr isKept.1)
    have before := (lt_stopPlace query inside).mpr isKept.2
    omega

/-- The ordinals of a part's window are those of the entries that they list. -/
theorem listed_places (query : ExtractQuery) (partIndex partBase : Nat) (part : SnapshotPart) {ordinals : List Nat}
    (ascend : ordinals.Pairwise (· < ·)) :
    ((ordinals.take (partitionPoint (fun ordinal => decide (ordinal < partBase + stopPlace query part)) ordinals)).drop
        (partitionPoint (fun ordinal => decide (ordinal < partBase + startPlace query part)) ordinals)).map (· - partBase) =
      ((partEntries partIndex partBase part).filter fun held => query.inHours held && ordinals.contains held.ordinal).map
        PartEntry.place := by
  have ordered := startPlace_le query part
  have partitioned : ∀ bound, Partitioned (fun ordinal => decide (ordinal < bound)) ordinals := by
    intro bound
    apply ascend.imp
    intro first second before below
    rw [decide_eq_true_eq] at below ⊢
    omega
  rw [Partitioned.window (partitioned _) (partitioned _)]
  · apply eq_of_ascending _ places_ascend
    · intro place
      have inHours : (startPlace query part ≤ place ∧ place < stopPlace query part) ↔ ∃ entry,
          part.entries[place]? = some entry ∧ query.inHours ⟨partIndex, place, partBase + place, entry⟩ = true := by
        rw [← mem_places, ← inHours_places, mem_range'_1]
        omega
      rw [mem_places, mem_map]
      simp only [mem_filter, Bool.and_eq_true, decide_eq_true_eq, Bool.not_eq_true', decide_eq_false_iff_not,
        contains_iff_mem]
      constructor
      · rintro ⟨ordinal, ⟨member, below, reached⟩, rfl⟩
        obtain ⟨entry, located, isKept⟩ := inHours.mp (by omega)
        exact ⟨entry, located, isKept, by rwa [show partBase + (ordinal - partBase) = ordinal by omega]⟩
      · rintro ⟨entry, located, isKept, member⟩
        have bounds := inHours.mpr ⟨entry, located, isKept⟩
        exact ⟨partBase + place, ⟨member, by omega, by omega⟩, by omega⟩
    · rw [pairwise_map]
      apply List.Pairwise.imp_of_mem _ (ascend.filter _)
      intro first second firstIn secondIn before
      simp only [mem_filter, Bool.and_eq_true, decide_eq_true_eq, Bool.not_eq_true', decide_eq_false_iff_not] at firstIn
      omega
  · intro ordinal below
    rw [decide_eq_true_eq] at below ⊢
    omega

/-- A part's window of ordinals leaves out the entries of its hours that no ordinal names. -/
theorem pruned_count (query : ExtractQuery) (partIndex partBase : Nat) (part : SnapshotPart) {ordinals : List Nat}
    (ascend : ordinals.Pairwise (· < ·)) :
    (stopPlace query part - startPlace query part) -
        (partitionPoint (fun ordinal => decide (ordinal < partBase + stopPlace query part)) ordinals -
          partitionPoint (fun ordinal => decide (ordinal < partBase + startPlace query part)) ordinals) =
      (((partEntries partIndex partBase part).filter query.inHours).filter fun held => !ordinals.contains held.ordinal).length := by
  have hours := congrArg List.length (inHours_places query partIndex partBase part)
  have listed := congrArg List.length (listed_places query partIndex partBase part ascend)
  have atMost := partitionPoint_le (fun ordinal => decide (ordinal < partBase + stopPlace query part)) ordinals
  rw [length_range', length_map] at hours
  rw [length_map, length_map, length_drop, length_take, Nat.min_eq_left atMost] at listed
  rw [hours, listed]
  have split := length_eq_length_filter_add (l := (partEntries partIndex partBase part).filter query.inHours)
    fun held => ordinals.contains held.ordinal
  rw [filter_filter] at split
  simp only [Bool.and_comm] at split ⊢
  omega

end Parts

section Extraction

variable {query : ExtractQuery}

theorem extractParts_none (query : ExtractQuery) (partIndex partBase : Nat) (parts : List SnapshotPart) (state : Extraction) :
    extractParts query none partIndex partBase parts state =
      ((windowEntries partIndex partBase parts).filter query.inHours).foldlM (insertEntry query) state := by
  induction parts generalizing partIndex partBase state with
  | nil => rfl
  | cons part rest ih =>
    rw [windowEntries, filter_append, foldlM_append, ← foldlM_insertAt, ← inHours_places]
    show Bind.bind _ _ = _
    congr 1
    funext next
    exact ih (partIndex + 1) (partBase + part.entries.length) next

/-- With ordinals the entries in the hours that they name are inserted, and the others are counted. -/
theorem extractParts_some (query : ExtractQuery) {ordinals : List Nat} (ascend : ordinals.Pairwise (· < ·))
    (partIndex partBase : Nat) (parts : List SnapshotPart) (state : Extraction) :
    extractParts query (some ordinals) partIndex partBase parts state =
      (((windowEntries partIndex partBase parts).filter query.inHours).filter fun held =>
          ordinals.contains held.ordinal).foldlM (insertEntry query)
        (state.prune (((windowEntries partIndex partBase parts).filter query.inHours).filter fun held =>
          !ordinals.contains held.ordinal).length) := by
  induction parts generalizing partIndex partBase state with
  | nil => rfl
  | cons part rest ih =>
    have pruned := pruned_count query partIndex partBase part ascend
    have places := listed_places query partIndex partBase part ascend
    have both : ((partEntries partIndex partBase part).filter query.inHours).filter (fun held =>
        ordinals.contains held.ordinal) =
        (partEntries partIndex partBase part).filter fun held => query.inHours held && ordinals.contains held.ordinal := by
      rw [filter_filter]
      exact filter_congr fun held _ => Bool.and_comm _ _
    have first : extractParts query (some ordinals) partIndex partBase (part :: rest) state =
        (((partEntries partIndex partBase part).filter query.inHours).filter fun held =>
          ordinals.contains held.ordinal).foldlM (insertEntry query)
            (state.prune (((partEntries partIndex partBase part).filter query.inHours).filter fun held =>
              !ordinals.contains held.ordinal).length) >>=
          extractParts query (some ordinals) (partIndex + 1) (partBase + part.entries.length) rest := by
      rw [both, ← foldlM_insertAt, ← places, ← pruned]
      rfl
    rw [first, windowEntries, filter_append, filter_append, filter_append, foldlM_append,
      length_append, Extraction.prune_add]
    generalize state.prune (((partEntries partIndex partBase part).filter query.inHours).filter fun held =>
      !ordinals.contains held.ordinal).length = counted
    rw [foldlM_insertEntry_prune _ counted]
    generalize (((partEntries partIndex partBase part).filter query.inHours).filter fun held =>
      ordinals.contains held.ordinal).foldlM (insertEntry query) counted = inserted
    cases inserted with
    | error failure => rfl
    | ok next => exact ih (partIndex + 1) (partBase + part.entries.length) next

theorem windowEntries_ascend (partIndex partBase : Nat) (parts : List SnapshotPart) :
    ((windowEntries partIndex partBase parts).map PartEntry.ordinal).Pairwise (· < ·) ∧
      ∀ held ∈ windowEntries partIndex partBase parts, partBase ≤ held.ordinal := by
  induction parts generalizing partIndex partBase with
  | nil =>
    refine ⟨List.Pairwise.nil, ?_⟩
    intro held member
    cases member
  | cons part rest ih =>
    obtain ⟨restAscends, restReached⟩ := ih (partIndex + 1) (partBase + part.entries.length)
    have ownOrdinals : (partEntries partIndex partBase part).map PartEntry.ordinal =
        (List.range part.entries.length).map (partBase + ·) := by
      rw [← partEntries_places partIndex partBase part, map_map]
      apply map_congr_left
      intro held member
      exact (mem_partEntries.mp member).2.1
    refine ⟨?_, ?_⟩
    · rw [windowEntries, map_append, pairwise_append]
      refine ⟨?_, restAscends, ?_⟩
      · rw [ownOrdinals, pairwise_map]
        exact pairwise_lt_range.imp fun before => Nat.add_lt_add_left before _
      · intro own ownMember later laterMember
        rw [ownOrdinals] at ownMember
        obtain ⟨place, inside, rfl⟩ := mem_map.mp ownMember
        obtain ⟨held, inRest, rfl⟩ := mem_map.mp laterMember
        have reached := restReached held inRest
        have below := mem_range.mp inside
        omega
    · intro held member
      rcases mem_append.mp member with own | later
      · have isOrdinal := (mem_partEntries.mp own).2.1
        omega
      · have reached := restReached held later
        omega

end Extraction

/-- The entries of a window in the hours of a query, numbered through its parts. -/
def SnapshotWindow.inRange (window : SnapshotWindow) (query : ExtractQuery) : List PartEntry :=
  (windowEntries 0 0 window.parts).filter query.inHours

/-- An extraction with a filter inserts exactly the entries in its hours that a matching name lists, in the order of the
extraction without one, which it equals where the filter is the bare sentinel or the postings do not bind every part. -/
theorem name_pruning_exact (window : SnapshotWindow) (query : ExtractQuery) (state : Extraction) :
    ((window.inRange query).map PartEntry.ordinal).Pairwise (· < ·) ∧
    window.extractInto query none state = (window.inRange query).foldlM (insertEntry query) state ∧
    ∀ filter : String,
      (window.postingsBindAllParts = false ∨ stripPrefix prefixFilterSentinel filter = some "" →
        window.extractInto query (some filter) state = window.extractInto query none state) ∧
      ∀ postings, window.postings = some postings → window.postingsBindAllParts = true →
        stripPrefix prefixFilterSentinel filter ≠ some "" →
        window.extractInto query (some filter) state =
          ((window.inRange query).filter fun held => postings.lists filter held.ordinal).foldlM (insertEntry query)
            (state.prune ((window.inRange query).filter fun held => !postings.lists filter held.ordinal).length) ∧
        ∀ result, window.extractInto query (some filter) state = .ok result →
          ∀ held ∈ window.inRange query, (∃ entry ∈ postings.names, nameMatches filter entry.name = true ∧
            held.ordinal ∈ entry.ordinals) →
          (TimeRange.mk held.entry.minEventTsNs held.entry.maxEventTsNs).overlaps query.range = true →
          ∃ segment, buildSegmentRefFromEntry query.tenant query.signal held.entry = .ok segment ∧
            segment.dataObjectKey ∈ result.out.map Prod.fst := by
  have ascend : ((window.inRange query).map PartEntry.ordinal).Pairwise (· < ·) :=
    (windowEntries_ascend 0 0 window.parts).1.sublist (filter_sublist.map PartEntry.ordinal)
  refine ⟨ascend, extractParts_none query 0 0 window.parts state, ?_⟩
  intro filter
  refine ⟨?_, ?_⟩
  · intro unusable
    have noOrdinals : window.postingsOrdinalsForFilter (some filter) = none := by
      rcases unusable with unbound | bare
      · exact postingsOrdinalsForFilter_unbound unbound _
      · rw [SnapshotWindow.postingsOrdinalsForFilter]
        simp only [bare, SnapshotWindow.postingsPrefixOrdinalsFor]
        rfl
    rw [SnapshotWindow.extractInto, noOrdinals]
    rfl
  · intro postings held bound usable
    obtain ⟨ordinals, found, ordinalsAscend, listed⟩ := postingsOrdinalsForFilter_spec held bound usable
    have same : ∀ entry : PartEntry, ordinals.contains entry.ordinal = postings.lists filter entry.ordinal := by
      intro entry
      rw [Bool.eq_iff_iff, contains_iff_mem]
      exact listed entry.ordinal
    have extracted : window.extractInto query (some filter) state =
        ((window.inRange query).filter fun entry => postings.lists filter entry.ordinal).foldlM (insertEntry query)
          (state.prune ((window.inRange query).filter fun entry => !postings.lists filter entry.ordinal).length) := by
      rw [SnapshotWindow.extractInto, found, extractParts_some query ordinalsAscend]
      simp only [same]
      rfl
    refine ⟨extracted, ?_⟩
    intro result completed entry inRange matched overlaps
    rw [extracted] at completed
    refine (foldlM_insertEntry_records completed).2 entry (mem_filter.mpr ⟨inRange, ?_⟩) overlaps
    obtain ⟨named, inNames, matching, carries⟩ := matched
    exact any_eq_true.mpr ⟨named, inNames, by simpa [matching] using carries⟩

/-- An entry of hour 1. -/
def upEntry : SnapshotEntry := ⟨0, 0, 1, List.replicate 16 0, 0, 0, List.replicate 32 0, 0, 0, 0, 0, 0, 0, 1⟩

/-- Postings that list the entry under `up`. -/
def upPostings : Postings :=
  ⟨[[0]], [⟨"up", [0]⟩], pairwise_singleton _ _, by
    intro postings member
    rw [mem_singleton.mp member]
    exact pairwise_singleton _ _⟩

def upWindow : SnapshotWindow := ⟨[⟨[upEntry], pairwise_singleton _ _⟩], [[0]], some upPostings⟩

def hourQuery : ExtractQuery := ⟨List.replicate 16 0, .metrics, 0, 2, by decide, ⟨0, 0⟩⟩

/-- A name that starts with the sentinel. -/
def sentinelName : String := String.ofList [prefixFilterSentinel, 'u']

theorem stripPrefix_sentinelName : stripPrefix prefixFilterSentinel sentinelName = some "u" := by
  rw [stripPrefix, sentinelName, String.toList_ofList]
  rfl

/-- An exact filter that starts with the sentinel is read as a prefix: it keeps an entry of `up`, which no name equal to the
filter lists. -/
theorem sentinel_filter_keeps_prefix :
    upWindow.postingsBindAllParts = true ∧ (∀ entry ∈ upPostings.names, entry.name ≠ sentinelName) ∧
    ∃ result, upWindow.extractInto hourQuery (some sentinelName) ⟨0, [], none⟩ = .ok result ∧ result.out.length = 1 := by
  have bound : upWindow.postingsBindAllParts = true := by decide
  refine ⟨bound, ?_, ?_⟩
  · intro entry member same
    rw [mem_singleton.mp member] at same
    have texts := congrArg String.toList same
    rw [sentinelName, String.toList_ofList] at texts
    exact absurd texts (by decide)
  · have usable : stripPrefix prefixFilterSentinel sentinelName ≠ some "" := by
      rw [stripPrefix_sentinelName]
      decide
    have held : upWindow.postings = some upPostings := rfl
    obtain ⟨ordinals, found, ascend, mem⟩ := postingsOrdinalsForFilter_spec held bound usable
    have listed : ordinals.contains 0 = true := by
      rw [contains_iff_mem, mem]
      simp only [Postings.lists, upPostings, nameMatches, stripPrefix_sentinelName]
      decide
    have inRange : (windowEntries 0 0 upWindow.parts).filter hourQuery.inHours = [⟨0, 0, 0, upEntry⟩] := rfl
    rw [SnapshotWindow.extractInto, found, extractParts_some hourQuery ascend, inRange]
    simp only [filter_cons, listed, if_true, filter_nil]
    exact ⟨_, rfl, rfl⟩

end Ravel.Snapshot
