import Mathlib.Data.List.TakeWhile
import Mathlib.Data.UInt
import Ravel.Construction.Snapshot.Parts
import Ravel.Library.SortedWindows

namespace Ravel.Snapshot

open List

/-- The entries in the order of their hours. -/
def HourMajor (entries : List SnapshotEntry) : Prop :=
  entries.Pairwise fun first second => first.ingestHourBucket.toNat ≤ second.ingestHourBucket.toNat

/-- Every hour before the position is over at the position. -/
def HourBoundary (entries : List SnapshotEntry) (position : Nat) : Prop :=
  ∀ earlier ∈ entries.take position, ∀ later ∈ entries.drop position,
    earlier.ingestHourBucket.toNat < later.ingestHourBucket.toNat

/-- The spans follow each other from a start to a stop. -/
def Tiles : Nat → Nat → List PartSpan → Prop
  | start, stop, [] => start = stop
  | start, stop, span :: rest => span.start = start ∧ start ≤ span.stop ∧ Tiles span.stop stop rest

/-- A span of whole hours that says which they are. -/
structure SpansHours (entries : List SnapshotEntry) (cap : Nat) (span : PartSpan) : Prop where
  inhabited : span.start < span.stop
  within : span.stop ≤ entries.length
  opens : entries[span.start]?.map (·.ingestHourBucket) = some span.minHour
  closes : entries[span.stop - 1]?.map (·.ingestHourBucket) = some span.watermarkHour
  sealed : HourBoundary entries span.stop
  bounded : span.stop - span.start ≤ cap ∨ span.minHour = span.watermarkHour

section Runs

variable {entries : List SnapshotEntry} {position : Nat} {entry : SnapshotEntry}

theorem take_hourRun (hour : UInt32) (entries : List SnapshotEntry) :
    entries.take (hourRun hour entries) = entries.takeWhile fun entry => entry.ingestHourBucket = hour :=
  Library.take_length_takeWhile _ entries

theorem drop_hourRun (hour : UInt32) (entries : List SnapshotEntry) :
    entries.drop (hourRun hour entries) = entries.dropWhile fun entry => entry.ingestHourBucket = hour :=
  Library.drop_length_takeWhile _ entries

/-- A run stays inside the entries. -/
theorem hourRun_le (hour : UInt32) (entries : List SnapshotEntry) : hourRun hour entries ≤ entries.length :=
  (List.takeWhile_prefix _).length_le

theorem hourRun_within (located : entries[position]? = some entry) :
    position + hourRun entry.ingestHourBucket (entries.drop position) ≤ entries.length := by
  have inside := (List.getElem?_eq_some_iff.mp located).1
  have short := hourRun_le entry.ingestHourBucket (entries.drop position)
  rw [length_drop] at short
  omega

theorem hour_of_run {index : Nat} (from_ : position ≤ index)
    (before : index < position + hourRun entry.ingestHourBucket (entries.drop position)) :
    entries[index]?.map (·.ingestHourBucket) = some entry.ingestHourBucket := by
  have located : entries[index]? = (entries.drop position)[index - position]? := by
    rw [getElem?_drop]
    congr 1
    omega
  have inRun : index - position < hourRun entry.ingestHourBucket (entries.drop position) := by omega
  have short : index - position < (entries.drop position).length := lt_of_lt_of_le inRun (hourRun_le _ _)
  have member : (entries.drop position)[index - position] ∈
      (entries.drop position).takeWhile fun other => other.ingestHourBucket = entry.ingestHourBucket := by
    rw [← take_hourRun]
    exact mem_iff_getElem.mpr ⟨index - position, by rw [length_take]; omega, getElem_take⟩
  have same := mem_takeWhile_imp member
  rw [located, getElem?_eq_getElem short, Option.map_some]
  simpa using same

/-- What follows a run at the front comes later. -/
theorem hour_lt_of_dropWhile {hour : UInt32} (ordered : HourMajor entries)
    (reached : ∀ entry ∈ entries, hour.toNat ≤ entry.ingestHourBucket.toNat) :
    ∀ next ∈ entries.dropWhile fun entry => entry.ingestHourBucket = hour, hour.toNat < next.ingestHourBucket.toNat := by
  induction entries with
  | nil =>
    intro next member
    cases member
  | cons first rest ih =>
    obtain ⟨atFirst, restOrdered⟩ := pairwise_cons.mp ordered
    by_cases same : first.ingestHourBucket = hour
    · rw [dropWhile_cons_of_pos (by simpa using same)]
      exact ih restOrdered fun entry member => reached entry (mem_cons_of_mem _ member)
    · rw [dropWhile_cons_of_neg (by simpa using same)]
      have firstLater : hour.toNat < first.ingestHourBucket.toNat :=
        lt_of_le_of_ne (reached first mem_cons_self) fun equal => same (UInt32.toNat_inj.mp equal.symm)
      intro next member
      rcases mem_cons.mp member with rfl | later
      · exact firstLater
      · exact lt_of_lt_of_le firstLater (atFirst next later)

theorem hourBoundary_run (ordered : HourMajor entries) (boundary : HourBoundary entries position)
    (located : entries[position]? = some entry) :
    HourBoundary entries (position + hourRun entry.ingestHourBucket (entries.drop position)) := by
  obtain ⟨inside, rfl⟩ := List.getElem?_eq_some_iff.mp located
  have tailOrdered : HourMajor (entries.drop position) := ordered.sublist (drop_sublist _ _)
  have reached : ∀ entry ∈ entries.drop position, entries[position].ingestHourBucket.toNat ≤ entry.ingestHourBucket.toNat := by
    rw [HourMajor, drop_eq_getElem_cons inside] at tailOrdered
    rw [drop_eq_getElem_cons inside]
    intro entry member
    rcases mem_cons.mp member with rfl | later
    · exact Nat.le_refl _
    · exact (pairwise_cons.mp tailOrdered).1 entry later
  intro earlier inEarlier next inNext
  rw [← drop_drop, drop_hourRun] at inNext
  rw [take_add, take_hourRun] at inEarlier
  rcases mem_append.mp inEarlier with before | inRun
  · exact boundary earlier before next ((dropWhile_sublist _).mem inNext)
  · have same : earlier.ingestHourBucket = entries[position].ingestHourBucket := by
      simpa using mem_takeWhile_imp inRun
    rw [same]
    exact hour_lt_of_dropWhile tailOrdered reached next inNext

end Runs

theorem hourBefore_spec {entries : List SnapshotEntry} {position : Nat} (positive : 0 < position)
    (within : position ≤ entries.length) :
    entries[position - 1]?.map (·.ingestHourBucket) = some (hourBefore entries position) := by
  have located : entries[position - 1]? = some (entries[position - 1]) := getElem?_eq_getElem (by omega)
  rw [hourBefore, located, Option.map_some]

/-- The state of the loop at an hour boundary. -/
structure OpenSpan (entries : List SnapshotEntry) (cap curStart curCount : Nat) (curMinHour : UInt32) (position : Nat) : Prop where
  counted : curStart + curCount = position
  within : position ≤ entries.length
  inhabited : curCount = 0 → position < entries.length
  boundary : HourBoundary entries position
  opens : entries[curStart]?.map (·.ingestHourBucket) = some curMinHour
  bounded : curCount ≤ cap ∨ ∀ index, curStart ≤ index → index < position →
    entries[index]?.map (·.ingestHourBucket) = some curMinHour

section Loop

variable {entries : List SnapshotEntry} {cap curStart curCount position : Nat} {curMinHour : UInt32} {entry : SnapshotEntry}

theorem OpenSpan.seal (state : OpenSpan entries cap curStart curCount curMinHour position) (positive : 0 < curCount) :
    SpansHours entries cap ⟨curStart, position, curMinHour, hourBefore entries position⟩ := by
  have counted := state.counted
  have closes := hourBefore_spec (by omega) state.within
  refine ⟨?_, state.within, state.opens, closes, state.boundary, ?_⟩
  · show curStart < position
    omega
  · rcases state.bounded with small | single
    · left
      show position - curStart ≤ cap
      omega
    · right
      have last := single (position - 1) (by omega) (by omega)
      rw [closes, Option.some.injEq] at last
      exact last.symm

section

variable (ordered : HourMajor entries) (state : OpenSpan entries cap curStart curCount curMinHour position)

include ordered state

theorem OpenSpan.reopen (located : entries[position]? = some entry) :
    OpenSpan entries cap position (hourRun entry.ingestHourBucket (entries.drop position)) entry.ingestHourBucket
      (position + hourRun entry.ingestHourBucket (entries.drop position)) := by
  have inside := (List.getElem?_eq_some_iff.mp located).1
  have advances := hourRun_pos located
  have short := hourRun_within located
  refine ⟨rfl, by omega, by omega, hourBoundary_run ordered state.boundary located, by rw [located, Option.map_some], ?_⟩
  right
  intro index reached before
  exact hour_of_run reached before

theorem OpenSpan.extend (located : entries[position]? = some entry)
    (admits : ¬(0 < curCount ∧ cap < curCount + hourRun entry.ingestHourBucket (entries.drop position))) :
    OpenSpan entries cap curStart (curCount + hourRun entry.ingestHourBucket (entries.drop position)) curMinHour
      (position + hourRun entry.ingestHourBucket (entries.drop position)) := by
  have inside := (List.getElem?_eq_some_iff.mp located).1
  have counted := state.counted
  have advances := hourRun_pos located
  have short := hourRun_within located
  refine ⟨by omega, by omega, by omega, hourBoundary_run ordered state.boundary located, state.opens, ?_⟩
  by_cases isOpen : 0 < curCount
  · left
    omega
  · right
    have atStart : curStart = position := by omega
    have opens := state.opens
    rw [atStart, located, Option.map_some, Option.some.injEq] at opens
    intro index reached before
    rw [← opens]
    exact hour_of_run (by omega) before

/-- The loop tiles the rest of the entries with spans of whole hours. -/
theorem partitionFrom_spans :
    Tiles curStart entries.length (partitionFrom entries cap curStart curCount curMinHour position) ∧
      ∀ span ∈ partitionFrom entries cap curStart curCount curMinHour position, SpansHours entries cap span := by
  fun_induction partitionFrom entries cap curStart curCount curMinHour position with
  | case1 curStart curCount curMinHour position missing =>
    have counted := state.counted
    have atEnd : position = entries.length := by
      have reached := List.getElem?_eq_none_iff.mp missing
      have within := state.within
      omega
    subst atEnd
    have positive : 0 < curCount := by
      by_contra isEmpty
      exact absurd (state.inhabited (by omega)) (Nat.lt_irrefl _)
    refine ⟨⟨rfl, by show curStart ≤ entries.length; omega, rfl⟩, ?_⟩
    intro span member
    rw [mem_singleton.mp member]
    exact state.seal positive
  | case2 curStart curCount curMinHour position entry located hour runLen seals ih =>
    obtain ⟨tiled, spans⟩ := ih (state.reopen ordered located)
    have counted := state.counted
    refine ⟨⟨rfl, by show curStart ≤ position; omega, tiled⟩, ?_⟩
    intro span member
    rcases mem_cons.mp member with rfl | later
    · exact state.seal seals.1
    · exact spans span later
  | case3 curStart curCount curMinHour position entry located hour runLen admits ih =>
    exact ih (state.extend ordered located admits)

end

/-- The loop always closes a span. -/
theorem partitionFrom_ne_nil : partitionFrom entries cap curStart curCount curMinHour position ≠ [] := by
  fun_induction partitionFrom entries cap curStart curCount curMinHour position with
  | case1 => exact cons_ne_nil _ _
  | case2 => exact cons_ne_nil _ _
  | case3 curStart curCount curMinHour position entry located hour runLen admits ih => exact ih

end Loop

section Tiling

variable {entries : List SnapshotEntry} {spans : List PartSpan} {start stop : Nat}

theorem Tiles.start_le (tiled : Tiles start stop spans) : start ≤ stop := by
  induction spans generalizing start with
  | nil => exact Nat.le_of_eq tiled
  | cons span rest ih =>
    obtain ⟨-, reached, later⟩ := tiled
    exact Nat.le_trans reached (ih later)

theorem Tiles.slices (tiled : Tiles start stop spans) :
    (spans.flatMap fun span => span.slice entries) = (entries.take stop).drop start := by
  induction spans generalizing start with
  | nil =>
    rw [show start = stop from tiled, flatMap_nil]
    exact (drop_eq_nil_of_le (by rw [length_take]; omega)).symm
  | cons span rest ih =>
    obtain ⟨opens, reached, later⟩ := tiled
    have before := later.start_le
    rw [flatMap_cons, ih later, PartSpan.slice, opens]
    have cut : entries.take span.stop = (entries.take stop).take span.stop := by
      rw [take_take, Nat.min_eq_left before]
    have joined := take_append_drop (span.stop - start) ((entries.take stop).drop start)
    rw [take_drop, drop_drop] at joined
    rw [cut]
    simpa [Nat.add_sub_cancel' reached, show start + (span.stop - start) = span.stop by omega] using joined

theorem Tiles.start_le_of_mem (tiled : Tiles start stop spans) : ∀ span ∈ spans, start ≤ span.start := by
  induction spans generalizing start with
  | nil =>
    intro span member
    cases member
  | cons first rest ih =>
    obtain ⟨opens, reached, later⟩ := tiled
    intro span member
    rcases mem_cons.mp member with rfl | inRest
    · exact Nat.le_of_eq opens.symm
    · exact Nat.le_trans reached (ih later span inRest)

theorem Tiles.pairwise (tiled : Tiles start stop spans) : spans.Pairwise fun first second => first.stop ≤ second.start := by
  induction spans generalizing start with
  | nil => exact List.Pairwise.nil
  | cons first rest ih =>
    obtain ⟨-, -, later⟩ := tiled
    exact pairwise_cons.mpr ⟨later.start_le_of_mem, ih later⟩

end Tiling

section Spans

variable {entries : List SnapshotEntry} {cap : Nat} {span : PartSpan}

theorem SpansHours.length_slice (spans : SpansHours entries cap span) :
    (span.slice entries).length = span.stop - span.start := by
  have within := spans.within
  rw [PartSpan.slice, length_drop, length_take, Nat.min_eq_left within]

/-- The hours of a span lie between the two that it says. -/
theorem SpansHours.hours (spans : SpansHours entries cap span) (ordered : HourMajor entries) :
    ∀ entry ∈ span.slice entries, span.minHour ≤ entry.ingestHourBucket ∧ entry.ingestHourBucket ≤ span.watermarkHour := by
  intro entry member
  have within := spans.within
  have inhabited := spans.inhabited
  obtain ⟨offset, short, rfl⟩ := mem_iff_getElem.mp member
  rw [spans.length_slice] at short
  obtain ⟨first, firstAt, opens⟩ := Option.map_eq_some_iff.mp spans.opens
  obtain ⟨last, lastAt, closes⟩ := Option.map_eq_some_iff.mp spans.closes
  obtain ⟨firstInside, rfl⟩ := List.getElem?_eq_some_iff.mp firstAt
  obtain ⟨lastInside, rfl⟩ := List.getElem?_eq_some_iff.mp lastAt
  have located : (span.slice entries)[offset] = entries[span.start + offset] := by
    simp only [PartSpan.slice, getElem_drop, getElem_take]
  have sorted : ∀ early late (before : early ≤ late) (inside : late < entries.length),
      entries[early].ingestHourBucket.toNat ≤ entries[late].ingestHourBucket.toNat := by
    intro early late before inside
    rcases Nat.lt_or_eq_of_le before with strictly | rfl
    · exact pairwise_iff_getElem.mp ordered early late (by omega) inside strictly
    · exact Nat.le_refl _
  rw [located, ← opens, ← closes, UInt32.le_iff_toNat_le, UInt32.le_iff_toNat_le]
  exact ⟨sorted _ _ (by omega) (by omega), sorted _ _ (by omega) (by omega)⟩

theorem SpansHours.hours_lt (first : SpansHours entries cap span) {other : PartSpan} (second : SpansHours entries cap other)
    (before : span.stop ≤ other.start) : span.watermarkHour < other.minHour := by
  have inhabited := first.inhabited
  obtain ⟨last, lastAt, closes⟩ := Option.map_eq_some_iff.mp first.closes
  obtain ⟨next, nextAt, opens⟩ := Option.map_eq_some_iff.mp second.opens
  rw [← closes, ← opens, UInt32.lt_iff_toNat_lt]
  apply first.sealed
  · obtain ⟨inside, isLast⟩ := List.getElem?_eq_some_iff.mp lastAt
    rw [← isLast]
    exact mem_iff_getElem.mpr ⟨span.stop - 1, by rw [length_take]; omega, getElem_take⟩
  · apply mem_of_getElem? (i := other.start - span.stop)
    rw [getElem?_drop, show span.stop + (other.start - span.stop) = other.start by omega, nextAt]

end Spans

section Growth

variable {entries later : List SnapshotEntry}

theorem hourRun_append {position : Nat} {entry : SnapshotEntry} (located : entries[position]? = some entry)
    (after : ∀ old ∈ entries, ∀ new ∈ later, old.ingestHourBucket < new.ingestHourBucket) :
    hourRun entry.ingestHourBucket ((entries ++ later).drop position) =
      hourRun entry.ingestHourBucket (entries.drop position) := by
  have inside := (List.getElem?_eq_some_iff.mp located).1
  have stopsThere : later.takeWhile (fun new => new.ingestHourBucket = entry.ingestHourBucket) = [] := by
    cases later with
    | nil => rfl
    | cons new rest =>
      have isLater := after entry (mem_of_getElem? located) new mem_cons_self
      apply takeWhile_cons_of_neg
      rw [decide_eq_true_eq]
      intro same
      rw [same] at isLater
      exact UInt32.lt_irrefl _ isLater
  rw [drop_append_of_le_length (by omega), hourRun, hourRun, takeWhile_append]
  split
  · rename_i whole
    rw [stopsThere, append_nil, whole]
  · rfl

theorem hourBefore_append {position : Nat} (inside : position - 1 < entries.length) :
    hourBefore (entries ++ later) position = hourBefore entries position := by
  rw [hourBefore, hourBefore, getElem?_append_left inside]

/-- Later hours leave every sealed span as it is. -/
theorem partitionFrom_append {cap curStart curCount position : Nat} {curMinHour : UInt32} (within : position ≤ entries.length)
    (after : ∀ old ∈ entries, ∀ new ∈ later, old.ingestHourBucket < new.ingestHourBucket) :
    (partitionFrom entries cap curStart curCount curMinHour position).dropLast <+:
      partitionFrom (entries ++ later) cap curStart curCount curMinHour position := by
  -- both runs take the same branch at every hour of the old entries
  fun_induction partitionFrom entries cap curStart curCount curMinHour position with
  | case1 => exact List.nil_prefix
  | case2 curStart curCount curMinHour position entry located hour runLen seals ih =>
    have inside := (List.getElem?_eq_some_iff.mp located).1
    have kept : (entries ++ later)[position]? = some entry := by rw [getElem?_append_left inside, located]
    have grown := ih (hourRun_within located)
    rw [dropLast_cons_of_ne_nil partitionFrom_ne_nil, partitionFrom.eq_def (entries ++ later)]
    split
    · rename_i missing
      rw [kept] at missing
      cases missing
    · rename_i other found
      rw [kept, Option.some.injEq] at found
      subst found
      simp only [hourRun_append located after]
      rw [if_pos seals, hourBefore_append (by omega)]
      exact cons_prefix_cons.mpr ⟨rfl, grown⟩
  | case3 curStart curCount curMinHour position entry located hour runLen admits ih =>
    have inside := (List.getElem?_eq_some_iff.mp located).1
    have kept : (entries ++ later)[position]? = some entry := by rw [getElem?_append_left inside, located]
    have grown := ih (hourRun_within located)
    rw [partitionFrom.eq_def (entries ++ later)]
    split
    · rename_i missing
      rw [kept] at missing
      cases missing
    · rename_i other found
      rw [kept, Option.some.injEq] at found
      subst found
      simp only [hourRun_append located after]
      rw [if_neg admits]
      exact grown

end Growth

theorem openSpan_start (first : SnapshotEntry) (rest : List SnapshotEntry) (cap : Nat) :
    OpenSpan (first :: rest) cap 0 0 first.ingestHourBucket 0 := by
  refine ⟨rfl, Nat.zero_le _, fun _ => Nat.succ_pos _, ?_, rfl, .inl (Nat.zero_le _)⟩
  intro earlier member
  cases member

/-- The parts of a fold tile its entries, cover disjoint ascending hours, exceed the cap only with a single hour, and stay as
they are, but for the last, when later hours follow. -/
theorem partitionParts_lossless_stable (entries : List SnapshotEntry) (ordered : HourMajor entries) (maxEntries : Nat) :
    ((partitionParts entries maxEntries).flatMap fun span => span.slice entries) = entries ∧
    ((partitionParts entries maxEntries).Pairwise fun first second => first.watermarkHour < second.minHour) ∧
    (∀ span ∈ partitionParts entries maxEntries, span.minHour ≤ span.watermarkHour ∧
      (∀ entry ∈ span.slice entries, span.minHour ≤ entry.ingestHourBucket ∧ entry.ingestHourBucket ≤ span.watermarkHour) ∧
      (maxEntries < (span.slice entries).length → span.minHour = span.watermarkHour)) ∧
    ∀ later : List SnapshotEntry, (∀ old ∈ entries, ∀ new ∈ later, old.ingestHourBucket < new.ingestHourBucket) →
      (partitionParts entries maxEntries).dropLast <+: partitionParts (entries ++ later) maxEntries ∧
      ∀ span ∈ (partitionParts entries maxEntries).dropLast, span.slice (entries ++ later) = span.slice entries := by
  cases entries with
  | nil =>
    refine ⟨rfl, pairwise_singleton _ _, ?_, ?_⟩
    · intro span member
      rw [mem_singleton.mp member]
      exact ⟨UInt32.le_refl _, by simp [PartSpan.slice], fun _ => rfl⟩
    · intro later _
      exact ⟨List.nil_prefix, by simp [partitionParts]⟩
  | cons first rest =>
    obtain ⟨tiled, spans⟩ := partitionFrom_spans ordered (openSpan_start first rest (max maxEntries 1))
    refine ⟨?_, ?_, ?_, ?_⟩
    · rw [partitionParts, tiled.slices, take_length, drop_zero]
    · apply List.Pairwise.imp_of_mem _ tiled.pairwise
      intro span other member otherMember before
      exact (spans span member).hours_lt (spans other otherMember) before
    · intro span member
      have isSpan := spans span member
      have hours := isSpan.hours ordered
      have inhabited := isSpan.inhabited
      have length := isSpan.length_slice
      obtain ⟨entry, inSlice⟩ := exists_mem_of_length_pos (l := span.slice (first :: rest)) (by omega)
      obtain ⟨above, below⟩ := hours entry inSlice
      refine ⟨UInt32.le_trans above below, hours, ?_⟩
      intro exceeds
      rcases isSpan.bounded with small | single
      · -- a cap of zero counts as one, and a single entry has a single hour
        have one : span.stop - 1 = span.start := by omega
        have closes := isSpan.closes
        rw [one, isSpan.opens, Option.some.injEq] at closes
        exact closes
      · exact single
    · intro later after
      refine ⟨partitionFrom_append (Nat.zero_le _) after, ?_⟩
      intro span member
      have within := (spans span ((dropLast_sublist _).mem member)).within
      rw [PartSpan.slice, PartSpan.slice, take_append_of_le_length within]

/-- An entry of an hour. -/
def hourEntry (hour : UInt32) : SnapshotEntry :=
  ⟨0, 0, hour, List.replicate 16 0, 0, 0, List.replicate 32 0, 0, 0, 0, 0, 0, 0, 1⟩

theorem partitionParts_three_hours :
    HourMajor [hourEntry 1, hourEntry 1, hourEntry 2] ∧
      ((partitionParts [hourEntry 1, hourEntry 1, hourEntry 2] 1).flatMap fun span =>
        span.slice [hourEntry 1, hourEntry 1, hourEntry 2]) = [hourEntry 1, hourEntry 1, hourEntry 2] := by
  have ordered : HourMajor [hourEntry 1, hourEntry 1, hourEntry 2] := by
    rw [HourMajor]
    decide
  exact ⟨ordered, (partitionParts_lossless_stable _ ordered 1).1⟩

end Ravel.Snapshot
