import Ravel.Construction.Erasure.LogSpan
import Ravel.Proof.Logs.RecordReconstruction

namespace Ravel.Logs

open List Library RlogWriter Erasure

/-- The entry carries the name. -/
def named (name : String) (attr : String × AttrValue) : Bool :=
  attr.1 = name

/-- The entry that resolves a name in a view. -/
def resolveName (view : List (String × AttrValue)) (name : String) : Option (String × AttrValue) :=
  view.find? (named name)

theorem resolveName_name {view : List (String × AttrValue)} {name : String} {entry : String × AttrValue}
    (found : resolveName view name = some entry) : entry.1 = name := by
  have passes := find?_some found
  exact of_decide_eq_true passes

theorem overlayAttr_eq (view : List (String × AttrValue)) (attr : String × AttrValue) :
    overlayAttr view attr = alterEntry attr.1 attr.2 (fun _ => attr.2) view := by
  induction view with
  | nil => rfl
  | cons entry rest ih => rw [overlayAttr, alterEntry, ih]

theorem resolveName_overlayAttr (view : List (String × AttrValue)) (attr : String × AttrValue) (name : String) :
    resolveName (overlayAttr view attr) name = if named name attr then some attr else resolveName view name := by
  unfold resolveName named
  rw [overlayAttr_eq, find?_alterEntry]
  by_cases sought : attr.1 = name
  · cases view.find? (fun entry => entry.1 = name) <;> simp [← sought]
  · simp [sought]

/-- The last own attribute of a name resolves it, then the first one of the stream layer. -/
theorem resolveName_foldl_overlayAttr (attrs identity : List (String × AttrValue)) (name : String) :
    resolveName (attrs.foldl overlayAttr identity) name = (lastPassing (named name) attrs).or (resolveName identity name) := by
  induction attrs using reverseRecOn with
  | nil => rfl
  | append_singleton attrs attr ih =>
    rw [foldl_append, foldl_cons, foldl_nil, resolveName_overlayAttr, ih,
      lastPassing_append]
    by_cases last : named name attr
    · simp [lastPassing, last]
    · simp [lastPassing, last]

theorem isScalar_eq (value : AttrValue) : isScalar value = !isNested value := by
  cases value <;> rfl

theorem streamIdentityAttrs_eq {blob : List UInt8} {pairs : List (String × AttrValue)}
    (decoded : streamAttrPairs blob = .ok pairs) :
    streamIdentityAttrs blob = .ok (pairs.filter fun pair => !isNested pair.2) := by
  obtain ⟨attrs, read, returned⟩ := ok_of_bind decoded
  cases returned
  rw [streamIdentityAttrs, read]
  simp only [isScalar_eq]
  rfl

section Winners

variable {index : StampIndex} {attrs : List (String × AttrValue)}

/-- The stamp scratch of a record. -/
def scratchOf (index : StampIndex) (attrs : List (String × AttrValue)) : StampScratch :=
  ((placeAttrs index.columns attrs).toSplit index).stamp

variable {name : String} (attr : String × AttrValue) {columns : List Column}

theorem attrLe_of_named {left right : String × AttrValue} (leftNamed : named name left)
    (rightNamed : named name right) : attrLe left right ↔ canonicalValueBytes left.2 ≤ canonicalValueBytes right.2 := by
  have same : left.1 = right.1 := (of_decide_eq_true leftNamed).trans (of_decide_eq_true rightNamed).symm
  rw [canonicalValueBytes_eq, canonicalValueBytes_eq, cons_le_cons_iff, cons_le_cons_iff]
  simp [attrLe, encodedEntryLe, encodedEntry, same, List.lt_irrefl]

theorem filter_tracked (tracked : index.isTracked name) (entries : List (String × AttrValue)) :
    (entries.filter fun attr => index.isTracked attr.1).filter (named name) = entries.filter (named name) := by
  rw [filter_filter]
  apply filter_congr
  intro attr _
  by_cases sought : attr.1 = name
  · simp [named, sought, tracked]
  · simp [named, sought]

theorem pickOverflow_eq (tracked : index.isTracked name) : (scratchOf index attrs).pickOverflow name =
      (lastPassing (named name) ((placeAttrs index.columns attrs).overflow.insertionSort attrLe)).map Prod.snd := by
  rw [lastPassing_insertionSort, ← filter_tracked tracked, ← foldl_pickLater_map attrLe
    (fun left right : AttrValue => canonicalValueBytes left ≤ canonicalValueBytes right) Prod.snd]
  · rw [StampScratch.pickOverflow, foldl_map, foldl_filter]
    apply congrArg (List.foldl · none _)
    funext pick attr
    by_cases sought : attr.1 = name <;> cases pick <;> simp [named, sought, pickLater]
  · intro left leftIn right rightIn
    exact attrLe_of_named (mem_filter.mp leftIn).2 (mem_filter.mp rightIn).2

theorem typedLe_of_named {left right : String × AttrValue} (leftNamed : named name left)
    (rightNamed : named name right) :
    typedLe left right ↔ (resolveValue left.2).1.toU8 ≤ (resolveValue right.2).1.toU8 := by
  have same : left.1 = right.1 := (of_decide_eq_true leftNamed).trans (of_decide_eq_true rightNamed).symm
  simp [typedLe, pairLe, typedPair, same, List.lt_irrefl]

theorem pickColumnar_eq (tracked : index.isTracked name) : (scratchOf index attrs).pickColumnar name =
      (lastPassing (named name) ((placeAttrs index.columns attrs).columnar.insertionSort typedLe)).map viewEntryOf := by
  rw [lastPassing_insertionSort, ← filter_tracked tracked, ← foldl_pickLater_map typedLe
    (fun left right : ViewEntry => left.ty.toU8 ≤ right.ty.toU8) viewEntryOf]
  · rw [StampScratch.pickColumnar, foldl_map, foldl_filter]
    simp only [scratchOf, Placement.toSplit, foldl_map]
    apply congrArg (List.foldl · none _)
    funext pick attr
    by_cases sought : attr.1 = name <;> cases pick <;> simp [named, sought, pickLater, viewEntryOf]
  · intro left leftIn right rightIn
    exact typedLe_of_named (mem_filter.mp leftIn).2 (mem_filter.mp rightIn).2

@[simp] theorem viewEntryOf_storedAttr : viewEntryOf (storedAttr attr) = viewEntryOf attr := by
  simp [viewEntryOf, storedAttr]

@[simp] theorem viewEntryOf_canonicalEntry : viewEntryOf (canonicalEntry attr) = viewEntryOf attr := by
  simp [viewEntryOf, canonicalEntry]

/-- The last attribute of a name that the reader returns is the stored or canonical form of the one placed last. -/
theorem lastPassing_readAttrs (columns : List Column) (attrs : List (String × AttrValue)) (name : String) :
    lastPassing (named name) (readAttrs columns attrs) =
      ((lastPassing (named name) ((placeAttrs columns attrs).overflow.insertionSort attrLe)).map canonicalEntry).or
        ((lastPassing (named name) ((placeAttrs columns attrs).columnar.insertionSort typedLe)).map storedAttr) := by
  rw [readAttrs, lastPassing_append, canonicalAttrs_eq _ fun attr _ => encodedEntry_canonicalEntry attr,
    lastPassing_map, lastPassing_map]
  rfl

/-- The attribute that the reader returns last comes from an attribute of the record with the same stored value. -/
theorem source_of_lastPassing {own : String × AttrValue}
    (last : lastPassing (named name) (readAttrs columns attrs) = some own) :
    ∃ attr ∈ attrs, named name attr ∧ viewEntryOf own = viewEntryOf attr := by
  have placed := (placeAttrs_placed columns attrs).perm
  rw [lastPassing_readAttrs, Option.or_eq_some_iff] at last
  rcases last with fromOverflow | ⟨_, fromColumns⟩
  · obtain ⟨attr, found, rfl⟩ := Option.map_eq_some_iff.mp fromOverflow
    obtain ⟨member, passes⟩ := mem_of_lastPassing found
    have inOverflow := (mem_insertionSort _).mp member
    exact ⟨attr, placed.mem_iff.mp (mem_append_right _ inOverflow), passes, viewEntryOf_canonicalEntry attr⟩
  · obtain ⟨attr, found, rfl⟩ := Option.map_eq_some_iff.mp fromColumns
    obtain ⟨member, passes⟩ := mem_of_lastPassing found
    have inColumns := (mem_insertionSort _).mp member
    exact ⟨attr, placed.mem_iff.mp (mem_append_left _ inColumns), passes, viewEntryOf_storedAttr attr⟩

/-- The reader returns no attribute of a name exactly when the record has none. -/
theorem lastPassing_readAttrs_eq_none :
    lastPassing (named name) (readAttrs columns attrs) = none ↔ ∀ attr ∈ attrs, ¬named name attr := by
  have placed := (placeAttrs_placed columns attrs).perm
  rw [lastPassing_readAttrs, Option.or_eq_none_iff, Option.map_eq_none_iff, Option.map_eq_none_iff, lastPassing_eq_none,
    lastPassing_eq_none]
  simp only [mem_insertionSort, ← placed.mem_iff, mem_append]
  constructor
  · rintro ⟨overflow, columnar⟩ attr (member | member)
    · exact columnar attr member
    · exact overflow attr member
  · intro absent
    exact ⟨fun attr member => absent attr (.inr member), fun attr member => absent attr (.inl member)⟩

/-- The predicted winner of a tracked name is the last attribute of the name that the reader returns. -/
theorem winner_eq (tracked : index.isTracked name) : (scratchOf index attrs).winner name =
      (lastPassing (named name) (readAttrs index.columns attrs)).map viewEntryOf := by
  rw [StampScratch.winner, pickOverflow_eq tracked, lastPassing_readAttrs]
  cases found : lastPassing (named name) ((placeAttrs index.columns attrs).overflow.insertionSort attrLe) with
  | none => simpa [Function.comp_def] using pickColumnar_eq tracked
  | some attr =>
    have sought : attr.1 = name := of_decide_eq_true (mem_of_lastPassing found).2
    simp [viewEntryOf, canonicalEntry, sought]

theorem winner_slot (tracked : index.isTracked name) {entry : ViewEntry}
    (won : (scratchOf index attrs).winner name = some entry) : entry.slot = name := by
  rw [winner_eq tracked, Option.map_eq_some_iff] at won
  obtain ⟨attr, last, rfl⟩ := won
  exact of_decide_eq_true (mem_of_lastPassing last).2

end Winners

section Seeds

variable {index : StampIndex}

/-- The seed entry of a tracked pair after a seed. -/
def seedEntry (seed : StreamSeed) (pair : String × AttrValue) : SeedEntry where
  slot := pair.1
  ty := (resolveValue pair.2).1
  value := (resolveValue pair.2).2
  firstOfSlot := !seed.carries pair.1
  firstInView := !isNested pair.2 && !seed.carriesInView pair.1
  nested := isNested pair.2

theorem buildStep_eq (seed : StreamSeed) (pair : String × AttrValue) :
    StreamSeed.buildStep index seed pair = if index.isTracked pair.1 then seed ++ [seedEntry seed pair] else seed :=
  rfl

theorem build_append (index : StampIndex) (pairs : List (String × AttrValue)) (pair : String × AttrValue) :
    StreamSeed.build index (pairs ++ [pair]) = StreamSeed.buildStep index (StreamSeed.build index pairs) pair := by
  rw [StreamSeed.build, foldl_append]
  rfl

/-- A seed carries a tracked name as a scalar exactly when the stream layer does. -/
theorem carriesInView_build {name : String} (tracked : index.isTracked name) (pairs : List (String × AttrValue)) :
    (StreamSeed.build index pairs).carriesInView name =
      (pairs.filter fun pair => !isNested pair.2).any (named name) := by
  induction pairs using reverseRecOn with
  | nil => rfl
  | append_singleton pairs pair ih =>
    rw [build_append, buildStep_eq, filter_append, any_append, ← ih]
    by_cases sought : pair.1 = name
    · rw [sought, if_pos tracked]
      cases nested : isNested pair.2 <;>
        simp [StreamSeed.carriesInView, any_append, seedEntry, nested, named, sought]
    · split
      · cases nested : isNested pair.2 <;>
          simp [StreamSeed.carriesInView, any_append, seedEntry, nested, named, sought]
      · cases nested : isNested pair.2 <;> simp [nested, named, sought]

theorem carries_build {name : String} (tracked : index.isTracked name) (pairs : List (String × AttrValue)) :
    (StreamSeed.build index pairs).carries name = pairs.any (named name) := by
  induction pairs using reverseRecOn with
  | nil => rfl
  | append_singleton pairs pair ih =>
    rw [build_append, buildStep_eq, any_append, ← ih]
    by_cases sought : pair.1 = name
    · rw [sought, if_pos tracked]
      simp [StreamSeed.carries, any_append, seedEntry, named, sought]
    · split
      · simp [StreamSeed.carries, any_append, seedEntry, named, sought]
      · simp [named, sought]

/-- A seed entry with the record's winner in its place when the flag is set. -/
def overlaid (scratch : StampScratch) (flag : SeedEntry → Bool) (entry : SeedEntry) : ViewEntry :=
  match (scratch.winner entry.slot).filter fun _ => flag entry with
  | some win => win
  | none => ⟨entry.slot, entry.ty, entry.value⟩

theorem overlaid_of_flag {scratch : StampScratch} {flag : SeedEntry → Bool} {entry : SeedEntry} (set : flag entry) :
    overlaid scratch flag entry = (scratch.winner entry.slot).getD ⟨entry.slot, entry.ty, entry.value⟩ := by
  rw [overlaid]
  cases scratch.winner entry.slot <;> simp [Option.filter, set]

variable (attrs : List (String × AttrValue))

theorem overlaid_slot (flag : SeedEntry → Bool) {entry : SeedEntry} (tracked : index.isTracked entry.slot) :
    (overlaid (scratchOf index attrs) flag entry).slot = entry.slot := by
  rw [overlaid]
  cases won : (scratchOf index attrs).winner entry.slot with
  | none => rfl
  | some win =>
    cases set : flag entry
    · simp [Option.filter]
    · simp [Option.filter, winner_slot tracked won]

variable {name : String}

theorem find_scalarLayer (tracked : index.isTracked name) (pairs : List (String × AttrValue)) :
    (((StreamSeed.build index pairs).filter fun entry => !entry.nested).map
        (overlaid (scratchOf index attrs) SeedEntry.firstInView)).find? (fun entry => entry.slot = name) =
      (resolveName (pairs.filter fun pair => !isNested pair.2) name).map fun pair =>
        ((scratchOf index attrs).winner name).getD (viewEntryOf pair) := by
  induction pairs using reverseRecOn with
  | nil => rfl
  | append_singleton pairs pair ih =>
    have carried := carriesInView_build tracked pairs
    rw [build_append, buildStep_eq, filter_append, resolveName, find?_append]
    cases nested : isNested pair.2 with
    | true =>
      -- A nested pair is not part of the view.
      split <;> simpa [nested, resolveName, seedEntry] using ih
    | false =>
      by_cases sought : pair.1 = name
      · have scalar : (seedEntry (StreamSeed.build index pairs) pair).nested = false := nested
        rw [sought, if_pos tracked]
        simp only [filter_append, map_append, find?_append, ih]
        cases found : resolveName (pairs.filter fun pair => !isNested pair.2) name with
        | some first =>
          rw [resolveName] at found
          simp [found]
        | none =>
          have absent : (pairs.filter fun pair => !isNested pair.2).any (named name) = false := by
            rw [any_eq_false]
            exact find?_eq_none.mp found
          have first : (seedEntry (StreamSeed.build index pairs) pair).firstInView := by
            simp [seedEntry, nested, sought, carried, absent]
          have winning : overlaid (scratchOf index attrs) SeedEntry.firstInView
              (seedEntry (StreamSeed.build index pairs) pair) =
              ((scratchOf index attrs).winner name).getD (viewEntryOf pair) := by
            rw [overlaid_of_flag first, ← sought]
            rfl
          have slot : (((scratchOf index attrs).winner name).getD (viewEntryOf pair)).slot = name := by
            cases won : (scratchOf index attrs).winner name with
            | none => exact sought
            | some win => exact winner_slot tracked won
          rw [resolveName] at found
          simp [found, scalar, nested, named, sought, winning, slot]
      · have skipped : List.find? (named name) [pair] = none := by simp [named, sought]
        have scalar : (seedEntry (StreamSeed.build index pairs) pair).nested = false := nested
        have same : resolveName (pairs.filter (fun pair => !isNested pair.2)) name =
            List.find? (named name) (pairs.filter fun pair => !isNested pair.2) := rfl
        split
        · rename_i pairTracked
          have other : (overlaid (scratchOf index attrs) SeedEntry.firstInView
              (seedEntry (StreamSeed.build index pairs) pair)).slot ≠ name := by
            rw [overlaid_slot attrs SeedEntry.firstInView pairTracked]
            exact sought
          simp only [filter_append, map_append, find?_append, ih]
          simp [nested, skipped, same, scalar, other]
        · rw [ih]
          simp [nested, skipped, same]

theorem find_winners (tracked : index.isTracked name) (inLayer : String → Bool) :
    (((scratchOf index attrs).winners index).filter fun win => !inLayer win.slot).find? (fun win => win.slot = name) =
      if inLayer name then none else (scratchOf index attrs).winner name := by
  suffices run : ∀ names : List String, (∀ slot ∈ names, index.isTracked slot) →
      ((names.filterMap (scratchOf index attrs).winner).filter fun win => !inLayer win.slot).find?
        (fun win => win.slot = name) =
      if name ∈ names ∧ inLayer name = false then (scratchOf index attrs).winner name else none by
    rw [StampScratch.winners, run index.names fun slot member => by simpa [StampIndex.isTracked] using member]
    have listed : name ∈ index.names := by simpa [StampIndex.isTracked] using tracked
    cases inLayer name <;> simp [listed]
  intro names
  induction names with
  | nil =>
    intro _
    rfl
  | cons slot names ih =>
    intro allTracked
    have later := ih fun other member => allTracked other (mem_cons_of_mem slot member)
    have slotTracked := allTracked slot mem_cons_self
    cases won : (scratchOf index attrs).winner slot with
    | none =>
      rw [filterMap_cons_none won, later]
      by_cases same : name = slot
      · rw [same, won]
        simp
      · simp [same]
    | some win =>
      have winSlot := winner_slot slotTracked won
      rw [filterMap_cons_some won, filter_cons]
      by_cases same : name = slot
      · subst same
        cases covered : inLayer name
        · simp [winSlot, covered, won]
        · simp [winSlot, covered, later]
      · have other : win.slot ≠ name := by
          rw [winSlot]
          exact fun equal => same equal.symm
        split
        · simp [other, later, same]
        · simp [later, same]

/-- The stamped view resolves a tracked name to the winner, or else to the first scalar pair of the stream layer. -/
theorem find_viewEntries (tracked : index.isTracked name) (pairs : List (String × AttrValue)) :
    ((scratchOf index attrs).viewEntries index (StreamSeed.build index pairs)).find? (fun entry => entry.slot = name) =
      ((scratchOf index attrs).winner name).or
        ((resolveName (pairs.filter fun pair => !isNested pair.2) name).map viewEntryOf) := by
  have layer := find_scalarLayer attrs tracked pairs
  have own := find_winners attrs tracked (StreamSeed.build index pairs).carriesInView
  have carried := carriesInView_build tracked pairs
  have parts : (scratchOf index attrs).viewEntries index (StreamSeed.build index pairs) =
      ((StreamSeed.build index pairs).filter fun entry => !entry.nested).map
        (overlaid (scratchOf index attrs) SeedEntry.firstInView) ++
      ((scratchOf index attrs).winners index).filter fun win =>
        !(StreamSeed.build index pairs).carriesInView win.slot := rfl
  rw [parts, find?_append, layer, own, carried]
  cases found : resolveName (pairs.filter fun pair => !isNested pair.2) name with
  | some pair => cases (scratchOf index attrs).winner name <;> simp
  | none =>
    have absent : (pairs.filter fun pair => !isNested pair.2).any (named name) = false := by
      rw [any_eq_false]
      exact find?_eq_none.mp found
    simp [absent]

/-- The stamped view resolves a tracked name as the reader's merged view does. -/
theorem find_viewEntries_merged (tracked : index.isTracked name) (pairs : List (String × AttrValue)) :
    ((scratchOf index attrs).viewEntries index (StreamSeed.build index pairs)).find? (fun entry => entry.slot = name) =
      (resolveName ((readAttrs index.columns attrs).foldl overlayAttr (pairs.filter fun pair => !isNested pair.2))
        name).map viewEntryOf := by
  rw [find_viewEntries attrs tracked, resolveName_foldl_overlayAttr, winner_eq tracked]
  cases lastPassing (named name) (readAttrs index.columns attrs) <;> rfl

theorem filter_overlaidLayer (tracked : index.isTracked name) (pairs : List (String × AttrValue)) :
    ((StreamSeed.build index pairs).map (overlaid (scratchOf index attrs) SeedEntry.firstOfSlot)).filter
        (fun entry => entry.slot = name) =
      match (scratchOf index attrs).winner name, pairs.filter (named name) with
      | some win, _ :: later => win :: later.map viewEntryOf
      | _, layer => layer.map viewEntryOf := by
  induction pairs using reverseRecOn with
  | nil => cases (scratchOf index attrs).winner name <;> rfl
  | append_singleton pairs pair ih =>
    rw [build_append, buildStep_eq]
    by_cases sought : pair.1 = name
    · have carried := carries_build tracked pairs
      have pairNamed : named name pair := decide_eq_true sought
      rw [sought, if_pos tracked, map_append, filter_append, filter_append, ih,
        filter_cons_of_pos pairNamed]
      have slot : (overlaid (scratchOf index attrs) SeedEntry.firstOfSlot
          (seedEntry (StreamSeed.build index pairs) pair)).slot = name := by
        rw [overlaid_slot attrs SeedEntry.firstOfSlot (by rw [seedEntry, sought]; exact tracked), seedEntry, sought]
      cases layer : pairs.filter (named name) with
      | nil =>
        have first : (seedEntry (StreamSeed.build index pairs) pair).firstOfSlot := by
          have absent : pairs.any (named name) = false := by
            rw [any_eq_false]
            exact filter_eq_nil_iff.mp layer
          simp [seedEntry, sought, carried, absent]
        have winning : overlaid (scratchOf index attrs) SeedEntry.firstOfSlot
            (seedEntry (StreamSeed.build index pairs) pair) =
            ((scratchOf index attrs).winner name).getD (viewEntryOf pair) := by
          rw [overlaid_of_flag first, ← sought]
          rfl
        rw [winning] at slot
        cases won : (scratchOf index attrs).winner name with
        | none => simp [winning, won, viewEntryOf, sought]
        | some win =>
          rw [won] at slot
          simp only [Option.getD_some] at slot
          simp [winning, won, slot]
      | cons first later =>
        have notFirst : (seedEntry (StreamSeed.build index pairs) pair).firstOfSlot = false := by
          have present : pairs.any (named name) = true := by
            rw [any_eq_true]
            have firstIn : first ∈ pairs.filter (named name) := by
              rw [layer]
              exact mem_cons_self
            exact ⟨first, mem_filter.mp firstIn⟩
          simp [seedEntry, sought, carried, present]
        have own : overlaid (scratchOf index attrs) SeedEntry.firstOfSlot
            (seedEntry (StreamSeed.build index pairs) pair) = viewEntryOf pair := by
          rw [overlaid, notFirst]
          cases (scratchOf index attrs).winner (seedEntry (StreamSeed.build index pairs) pair).slot <;> rfl
        rw [own] at slot
        cases (scratchOf index attrs).winner name <;> simp [own, slot]
    · have pairOther : ¬named name pair := by simpa [named] using sought
      rw [filter_append, filter_cons_of_neg pairOther, filter_nil, append_nil,
        ← ih]
      split
      · rename_i pairTracked
        have other : (overlaid (scratchOf index attrs) SeedEntry.firstOfSlot
            (seedEntry (StreamSeed.build index pairs) pair)).slot ≠ name := by
          rw [overlaid_slot attrs SeedEntry.firstOfSlot pairTracked]
          exact sought
        simp [other]
      · rfl

/-- The values of a tracked name that POSTINGS covers for a record: the one that the reader returns last, then the
pairs of the stream layer, without the first pair when the record carries the name itself. -/
def shownValues (columns : List Column) (attrs pairs : List (String × AttrValue)) (name : String) :
    List (String × AttrValue) :=
  match lastPassing (named name) (readAttrs columns attrs) with
  | some own => own :: (pairs.filter (named name)).tail
  | none => pairs.filter (named name)

theorem resolved_mem_shownValues {columns : List Column} {attrs pairs : List (String × AttrValue)}
    {entry : String × AttrValue}
    (found : resolveName ((readAttrs columns attrs).foldl overlayAttr (pairs.filter fun pair => !isNested pair.2)) name = some entry) :
    entry ∈ shownValues columns attrs pairs name := by
  rw [resolveName_foldl_overlayAttr] at found
  rw [shownValues]
  cases last : lastPassing (named name) (readAttrs columns attrs) with
  | some own =>
    rw [last] at found
    cases found
    exact mem_cons_self
  | none =>
    rw [last] at found
    have passes := find?_some found
    have inLayer := (mem_filter.mp (mem_of_find?_eq_some found)).1
    exact mem_filter.mpr ⟨inLayer, passes⟩

theorem mem_postingsEntries (tracked : index.isTracked name) (pairs : List (String × AttrValue)) {entry : ViewEntry}
    (slot : entry.slot = name) : entry ∈ (scratchOf index attrs).postingsEntries index (StreamSeed.build index pairs) ↔
      entry ∈ (shownValues index.columns attrs pairs name).map viewEntryOf := by
  have parts : (scratchOf index attrs).postingsEntries index (StreamSeed.build index pairs) =
      (StreamSeed.build index pairs).map (overlaid (scratchOf index attrs) SeedEntry.firstOfSlot) ++
      ((scratchOf index attrs).winners index).filter fun win => !(StreamSeed.build index pairs).carries win.slot := rfl
  have layer : entry ∈ (StreamSeed.build index pairs).map (overlaid (scratchOf index attrs) SeedEntry.firstOfSlot) ↔
      entry ∈ ((StreamSeed.build index pairs).map (overlaid (scratchOf index attrs) SeedEntry.firstOfSlot)).filter
        fun entry => entry.slot = name := by
    rw [mem_filter, decide_eq_true slot]
    simp
  have own : entry ∈ (((scratchOf index attrs).winners index).filter fun win =>
      !(StreamSeed.build index pairs).carries win.slot) ↔
      (scratchOf index attrs).winner name = some entry ∧ pairs.filter (named name) = [] := by
    have uncarried : (StreamSeed.build index pairs).carries name = false ↔ pairs.filter (named name) = [] := by
      rw [carries_build tracked, any_eq_false, filter_eq_nil_iff]
    rw [mem_filter, StampScratch.winners, mem_filterMap, slot, Bool.not_eq_true', uncarried]
    apply and_congr_left
    intro _
    constructor
    · rintro ⟨other, otherIn, won⟩
      have otherTracked : index.isTracked other := by simpa [StampIndex.isTracked] using otherIn
      rw [← winner_slot otherTracked won, slot] at won
      exact won
    · intro won
      exact ⟨name, by simpa [StampIndex.isTracked] using tracked, won⟩
  rw [parts, mem_append, layer, own, filter_overlaidLayer attrs tracked, winner_eq tracked, shownValues]
  cases lastPassing (named name) (readAttrs index.columns attrs) with
  | none => cases pairs.filter (named name) <;> simp
  | some last => cases pairs.filter (named name) <;> simp [eq_comm]

end Seeds

end Ravel.Logs
