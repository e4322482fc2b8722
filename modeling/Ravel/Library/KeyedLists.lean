/-
This file develops look-ups, removals and updates of the one entry of a list that passes a test, and how they act on a
list that is cut into a part and a remainder without a passing entry.
-/

import Mathlib.Data.List.Perm.Basic
import Mathlib.Data.List.Nodup

namespace Ravel.Library

open List

section KeyedLists

variable {Entry Key : Type} {test : Entry → Bool}

/-- The first entry that passes the test is changed. -/
def updateFirst (test : Entry → Bool) (change : Entry → Entry) : List Entry → List Entry
  | [] => []
  | entry :: rest => if test entry then change entry :: rest else entry :: updateFirst test change rest

/-- At most one position of the list passes the test. -/
def AtMostOne (test : Entry → Bool) (entries : List Entry) : Prop :=
  entries.Pairwise fun left right => test left → test right → False

variable {entries : List Entry} {entry : Entry}

theorem atMostOne_of_key {key : Entry → Key} (distinct : (entries.map key).Nodup)
    (sameKey : ∀ left ∈ entries, ∀ right ∈ entries, test left → test right → key left = key right) :
    AtMostOne test entries := by
  rw [Nodup, pairwise_map] at distinct
  apply distinct.imp_of_mem
  intro left right leftIn rightIn different leftPasses rightPasses
  exact different (sameKey left leftIn right rightIn leftPasses rightPasses)

theorem atMostOne_key [DecidableEq Key] {key : Entry → Key} (distinct : (entries.map key).Nodup) (value : Key) :
    AtMostOne (fun entry => decide (key entry = value)) entries := by
  apply atMostOne_of_key distinct
  intro left _ right _ leftPasses rightPasses
  rw [of_decide_eq_true leftPasses, of_decide_eq_true rightPasses]

theorem AtMostOne.perm {left right : List Entry} (unique : AtMostOne test left) (reordered : left.Perm right) :
    AtMostOne test right :=
  List.Pairwise.perm unique reordered fun clash second first => clash first second

theorem AtMostOne.eq_of_mem (unique : AtMostOne test entries) {left right : Entry} (leftIn : left ∈ entries)
    (rightIn : right ∈ entries) (leftPasses : test left) (rightPasses : test right) : left = right := by
  induction entries with
  | nil => cases leftIn
  | cons entry rest ih =>
    obtain ⟨clash, restUnique⟩ := pairwise_cons.mp unique
    rcases mem_cons.mp leftIn with rfl | leftRest <;> rcases mem_cons.mp rightIn with rfl | rightRest
    · rfl
    · exact (clash right rightRest leftPasses rightPasses).elim
    · exact (clash left leftRest rightPasses leftPasses).elim
    · exact ih restUnique leftRest rightRest

theorem AtMostOne.find?_eq_some (unique : AtMostOne test entries) (member : entry ∈ entries) (passes : test entry) :
    entries.find? test = some entry := by
  cases found : entries.find? test with
  | none => exact absurd passes (find?_eq_none.mp found entry member)
  | some first =>
    rw [unique.eq_of_mem (mem_of_find?_eq_some found) member (find?_some found) passes]

/-- The filter keeps the one entry that passes the test. -/
theorem AtMostOne.filter_eq_singleton (unique : AtMostOne test entries) (member : entry ∈ entries)
    (passes : test entry) : entries.filter test = [entry] := by
  induction entries with
  | nil => cases member
  | cons first rest ih =>
    obtain ⟨clash, restUnique⟩ := pairwise_cons.mp unique
    rcases mem_cons.mp member with own | later
    · subst own
      have none : rest.filter test = [] :=
        filter_eq_nil_iff.mpr fun other otherIn otherPasses => clash other otherIn passes otherPasses
      rw [filter_cons_of_pos passes, none]
    · rw [filter_cons_of_neg fun firstPasses => clash entry later firstPasses passes,
        ih restUnique later]

theorem updateFirst_of_none {change : Entry → Entry} (fails : ∀ entry ∈ entries, ¬test entry) :
    updateFirst test change entries = entries := by
  induction entries with
  | nil => rfl
  | cons entry rest ih =>
    rw [updateFirst, if_neg (fails entry mem_cons_self),
      ih fun other member => fails other (mem_cons_of_mem entry member)]

/-- A unique passing entry makes the first-match update a map. -/
theorem AtMostOne.updateFirst_eq_map (unique : AtMostOne test entries) (change : Entry → Entry) :
    updateFirst test change entries = entries.map fun entry => if test entry then change entry else entry := by
  induction entries with
  | nil => rfl
  | cons entry rest ih =>
    obtain ⟨clash, restUnique⟩ := pairwise_cons.mp unique
    rw [updateFirst, map_cons]
    by_cases passes : test entry
    · have restFails : ∀ other ∈ rest, ¬test other := fun other member otherPasses =>
        clash other member passes otherPasses
      have restMap : (rest.map fun other => if test other then change other else other) = rest := by
        conv_rhs => rw [← map_id rest]
        apply map_congr_left
        intro other member
        simp [restFails other member]
      rw [if_pos passes, if_pos passes, restMap]
    · rw [if_neg passes, if_neg passes, ih restUnique]

/-- A unique passing entry makes the first-match removal a filter. -/
theorem AtMostOne.eraseP_eq_filter (unique : AtMostOne test entries) :
    entries.eraseP test = entries.filter fun entry => !test entry := by
  induction entries with
  | nil => rfl
  | cons entry rest ih =>
    obtain ⟨clash, restUnique⟩ := pairwise_cons.mp unique
    by_cases passes : test entry
    · have restKept : (rest.filter fun other => !test other) = rest := by
        apply filter_eq_self.mpr
        intro other member
        have fails : ¬test other := fun otherPasses => clash other member passes otherPasses
        simpa using fails
      simp [passes, restKept]
    · simp [passes, ih restUnique]

theorem map_updateFirst {Image : Type} (view : Entry → Image) (change : Entry → Entry)
    (kept : ∀ entry, test entry → view (change entry) = view entry) (entries : List Entry) :
    (updateFirst test change entries).map view = entries.map view := by
  induction entries with
  | nil => rfl
  | cons entry rest ih =>
    rw [updateFirst]
    by_cases passes : test entry
    · simp [passes, kept entry passes]
    · simp [passes, ih]

theorem length_updateFirst (change : Entry → Entry) (entries : List Entry) :
    (updateFirst test change entries).length = entries.length := by
  have lengths := congrArg List.length (@map_updateFirst Entry test Unit (fun _ => ()) change (fun _ _ => rfl) entries)
  simpa using lengths

/-- An update moves the count of a test by what it does to the entry it finds. -/
theorem countP_updateFirst (counted : Entry → Bool) (change : Entry → Entry) (found : entries.find? test = some entry) :
    (updateFirst test change entries).countP counted + (if counted entry then 1 else 0) =
      entries.countP counted + if counted (change entry) then 1 else 0 := by
  induction entries with
  | nil => cases found
  | cons first rest ih =>
    by_cases passes : test first
    · rw [find?_cons_of_pos passes, Option.some.injEq] at found
      subst found
      rw [updateFirst, if_pos passes, countP_cons, countP_cons]
      omega
    · rw [find?_cons_of_neg passes] at found
      have later := ih found
      rw [updateFirst, if_neg passes, countP_cons, countP_cons]
      omega

theorem mem_updateFirst {change : Entry → Entry} (member : entry ∈ updateFirst test change entries) :
    entry ∈ entries ∨ ∃ before ∈ entries, test before ∧ entry = change before := by
  induction entries with
  | nil => cases member
  | cons first rest ih =>
    rw [updateFirst] at member
    by_cases passes : test first
    · rw [if_pos passes] at member
      rcases mem_cons.mp member with rfl | inRest
      · exact .inr ⟨first, mem_cons_self, passes, rfl⟩
      · exact .inl (mem_cons_of_mem first inRest)
    · rw [if_neg passes] at member
      rcases mem_cons.mp member with rfl | inRest
      · exact .inl mem_cons_self
      · rcases ih inRest with old | ⟨before, beforeIn, beforePasses, changed⟩
        · exact .inl (mem_cons_of_mem first old)
        · exact .inr ⟨before, mem_cons_of_mem first beforeIn, beforePasses, changed⟩

/-- Two tests that no entry passes together cut what passes one of them in two. -/
theorem filter_or_perm {left right : Entry → Bool} (entries : List Entry)
    (apart : ∀ entry ∈ entries, left entry = true → right entry = true → False) :
    (entries.filter left ++ entries.filter right).Perm (entries.filter fun entry => left entry || right entry) := by
  have split := filter_append_perm left (entries.filter fun entry => left entry || right entry)
  rw [filter_filter, filter_filter] at split
  have isLeft : (entries.filter fun entry => left entry && (left entry || right entry)) = entries.filter left := by
    apply filter_congr
    intro entry _
    cases left entry <;> simp
  have isRight : (entries.filter fun entry => !left entry && (left entry || right entry)) = entries.filter right := by
    apply filter_congr
    intro entry member
    have clash := apart entry member
    cases leftPasses : left entry <;> cases rightPasses : right entry <;> simp_all
  rw [isLeft, isRight] at split
  exact split

section Cut

variable {whole part hidden : List Entry}

/-- The part answers a look-up as the whole list does. -/
theorem find?_cut (unique : AtMostOne test whole) (cut : whole.Perm (part ++ hidden))
    (fails : ∀ entry ∈ hidden, ¬test entry) : part.find? test = whole.find? test := by
  cases found : whole.find? test with
  | none =>
    rw [find?_eq_none] at found ⊢
    intro entry member
    exact found entry (cut.mem_iff.mpr (mem_append_left hidden member))
  | some entry =>
    have passes := find?_some found
    have entryIn := cut.mem_iff.mp (mem_of_find?_eq_some found)
    have inPart : entry ∈ part := by
      rcases mem_append.mp entryIn with inPart | inHidden
      · exact inPart
      · exact (fails entry inHidden passes).elim
    have partUnique : AtMostOne test part := (pairwise_append.mp (unique.perm cut)).1
    exact partUnique.find?_eq_some inPart passes

theorem any_cut (cut : whole.Perm (part ++ hidden)) (fails : ∀ entry ∈ hidden, ¬test entry) :
    part.any test = whole.any test := by
  rw [cut.any_eq, any_append]
  have none : hidden.any test = false := by
    rw [any_eq_false]
    exact fails
  rw [none, Bool.or_false]

theorem eraseP_cut (unique : AtMostOne test whole) (cut : whole.Perm (part ++ hidden))
    (fails : ∀ entry ∈ hidden, ¬test entry) : (whole.eraseP test).Perm (part.eraseP test ++ hidden) := by
  have cutUnique := unique.perm cut
  have partUnique : AtMostOne test part := (pairwise_append.mp cutUnique).1
  have hiddenKept : (hidden.filter fun entry => !test entry) = hidden := by
    apply filter_eq_self.mpr
    intro entry member
    simpa using fails entry member
  rw [unique.eraseP_eq_filter, partUnique.eraseP_eq_filter]
  have filtered := cut.filter fun entry => !test entry
  rwa [filter_append, hiddenKept] at filtered

theorem updateFirst_cut (change : Entry → Entry) (unique : AtMostOne test whole) (cut : whole.Perm (part ++ hidden))
    (fails : ∀ entry ∈ hidden, ¬test entry) :
    (updateFirst test change whole).Perm (updateFirst test change part ++ hidden) := by
  have partUnique : AtMostOne test part := (pairwise_append.mp (unique.perm cut)).1
  have hiddenUnique : AtMostOne test hidden := (pairwise_append.mp (unique.perm cut)).2.1
  have hiddenKept := hiddenUnique.updateFirst_eq_map change
  rw [updateFirst_of_none fails] at hiddenKept
  rw [unique.updateFirst_eq_map, partUnique.updateFirst_eq_map]
  have mapped := cut.map fun entry => if test entry then change entry else entry
  rwa [map_append, ← hiddenKept] at mapped

theorem append_cut (cut : whole.Perm (part ++ hidden)) (added : List Entry) :
    (whole ++ added).Perm ((part ++ added) ++ hidden) := by
  apply (cut.append_right added).trans
  rw [append_assoc, append_assoc]
  exact Perm.append_left part perm_append_comm

/-- The part resolves a test: the whole list has at most one passing entry, and the remainder has none. -/
structure Resolves (test : Entry → Bool) (whole part hidden : List Entry) : Prop where
  cut : whole.Perm (part ++ hidden)
  unique : AtMostOne test whole
  fails : ∀ entry ∈ hidden, ¬test entry

namespace Resolves

theorem find? (resolves : Resolves test whole part hidden) : part.find? test = whole.find? test :=
  find?_cut resolves.unique resolves.cut resolves.fails

theorem any (resolves : Resolves test whole part hidden) : part.any test = whole.any test :=
  any_cut resolves.cut resolves.fails

theorem eraseP (resolves : Resolves test whole part hidden) : (whole.eraseP test).Perm (part.eraseP test ++ hidden) :=
  eraseP_cut resolves.unique resolves.cut resolves.fails

theorem updateFirst (resolves : Resolves test whole part hidden) (change : Entry → Entry) :
    (updateFirst test change whole).Perm (updateFirst test change part ++ hidden) :=
  updateFirst_cut change resolves.unique resolves.cut resolves.fails

end Resolves

end Cut

end KeyedLists

section AlteredEntries

variable {Key Value : Type} [DecidableEq Key]

/-- The value of a key is changed. A key without an entry gets a fresh one at the end. -/
def alterEntry (key : Key) (fresh : Value) (change : Value → Value) : List (Key × Value) → List (Key × Value)
  | [] => [(key, fresh)]
  | entry :: rest =>
    if entry.1 = key then (entry.1, change entry.2) :: rest else entry :: alterEntry key fresh change rest

variable {key other : Key} {fresh : Value} {change : Value → Value} {entries : List (Key × Value)} {entry : Key × Value}

theorem mem_keys_alterEntry :
    other ∈ (alterEntry key fresh change entries).map Prod.fst ↔ other = key ∨ other ∈ entries.map Prod.fst := by
  induction entries with
  | nil => simp [alterEntry]
  | cons entry rest ih =>
    by_cases found : entry.1 = key
    · simp [alterEntry, found]
    · rw [alterEntry, if_neg found, map_cons, mem_cons, ih, map_cons, mem_cons]
      exact or_left_comm

theorem nodup_alterEntry (distinct : (entries.map Prod.fst).Nodup) :
    ((alterEntry key fresh change entries).map Prod.fst).Nodup := by
  induction entries with
  | nil => exact nodup_singleton _
  | cons entry rest ih =>
    obtain ⟨unlisted, restDistinct⟩ := nodup_cons.mp distinct
    by_cases found : entry.1 = key
    · rw [alterEntry, if_pos found]
      exact distinct
    · rw [alterEntry, if_neg found, map_cons, nodup_cons, mem_keys_alterEntry]
      refine ⟨?_, ih restDistinct⟩
      rintro (same | listed)
      · exact found same
      · exact unlisted listed

/-- Each entry is an old one of another key, the changed one or the fresh one. -/
theorem mem_alterEntry (distinct : (entries.map Prod.fst).Nodup) (member : entry ∈ alterEntry key fresh change entries) :
    (entry ∈ entries ∧ entry.1 ≠ key) ∨ (∃ old ∈ entries, old.1 = key ∧ entry = (key, change old.2)) ∨
      (key ∉ entries.map Prod.fst ∧ entry = (key, fresh)) := by
  induction entries with
  | nil => exact .inr (.inr ⟨by simp, mem_singleton.mp member⟩)
  | cons first rest ih =>
    obtain ⟨unlisted, restDistinct⟩ := nodup_cons.mp distinct
    rw [alterEntry] at member
    split at member
    · rename_i same
      rcases mem_cons.mp member with rfl | inRest
      · exact .inr (.inl ⟨first, mem_cons_self, same, by rw [same]⟩)
      · refine .inl ⟨mem_cons_of_mem _ inRest, ?_⟩
        intro named
        exact unlisted (same ▸ named ▸ mem_map_of_mem inRest)
    · rename_i other
      rcases mem_cons.mp member with rfl | inRest
      · exact .inl ⟨mem_cons_self, other⟩
      · rcases ih restDistinct inRest with kept | ⟨old, inside, changed⟩ | ⟨absent, added⟩
        · exact .inl ⟨mem_cons_of_mem _ kept.1, kept.2⟩
        · exact .inr (.inl ⟨old, mem_cons_of_mem _ inside, changed⟩)
        · refine .inr (.inr ⟨?_, added⟩)
          rw [map_cons, mem_cons]
          rintro (same | later)
          · exact other same.symm
          · exact absent later

theorem find?_alterEntry : (alterEntry key fresh change entries).find? (fun entry => entry.1 = other) =
    if key = other then
      some (other, ((entries.find? fun entry => entry.1 = other).map fun entry => change entry.2).getD fresh)
    else entries.find? fun entry => entry.1 = other := by
  induction entries with
  | nil => by_cases own : key = other <;> simp [alterEntry, own]
  | cons entry rest ih =>
    by_cases found : entry.1 = key
    · by_cases own : key = other <;> simp [alterEntry, found, own]
    · rw [alterEntry, if_neg found]
      by_cases first : entry.1 = other
      · have different : ¬key = other := fun same => found (first.trans same.symm)
        simp [first, different]
      · simp only [find?_cons, first, decide_false, ih]

end AlteredEntries

/-- After updates of distinct positions, each position holds its own update. -/
theorem getElem?_foldl_modify {Cell Update : Type} {position : Update → Nat} {change : Update → Cell → Cell}
    (updates : List Update) (distinct : (updates.map position).Nodup) : ∀ (cells : List Cell) (index : Nat),
    (updates.foldl (fun cells update => cells.modify (position update) (change update)) cells)[index]? =
      (cells[index]?).map fun cell =>
        match updates.find? fun update => position update = index with
        | some update => change update cell
        | none => cell := by
  induction updates with
  | nil =>
    intro cells index
    simp
  | cons update rest ih =>
    intro cells index
    obtain ⟨fresh, restDistinct⟩ := nodup_cons.mp distinct
    rw [foldl_cons, ih restDistinct, getElem?_modify]
    by_cases own : position update = index
    · have absent : rest.find? (fun update => position update = index) = none := by
        rw [find?_eq_none]
        intro other otherIn passes
        apply fresh
        rw [own, ← of_decide_eq_true passes]
        exact mem_map.mpr ⟨other, otherIn, rfl⟩
      cases cells[index]? <;> simp [own, absent]
    · cases cells[index]? <;> simp [own]

end Ravel.Library
