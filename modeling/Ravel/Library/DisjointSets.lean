/-
This file develops disjoint sets: a forest of parent pointers with path halving, and the partition of indices that
share a key.
-/

import Mathlib.Data.Fintype.Card

namespace DisjointSets

open List

/-- The parent of an index. A root is its own parent, and so is an index outside the list. -/
def parent (parents : List Nat) (index : Nat) : Nat :=
  parents.getD index index

/-- The search for a root. Each step points the index at its grandparent and goes there. -/
def find : Nat → List Nat → Nat → Nat × List Nat
  | 0, parents, index => (index, parents)
  | turns + 1, parents, index =>
    if parent parents index = index then (index, parents)
    else
      let above := parent parents (parent parents index)
      find turns (parents.set index above) above

/-- Two indices are joined below the root of the second. -/
def union (parents : List Nat) (first second : Nat) : List Nat :=
  let (secondRoot, parents) := find parents.length parents second
  let (firstRoot, parents) := find parents.length parents first
  if firstRoot = secondRoot then parents else parents.set firstRoot secondRoot

/-- The index leads to the root in a number of steps. -/
inductive Leads (parents : List Nat) : Nat → Nat → Nat → Prop where
  | root {index : Nat} : parent parents index = index → Leads parents 0 index index
  | step {steps index root : Nat} : parent parents index ≠ index → Leads parents steps (parent parents index) root →
      Leads parents (steps + 1) index root

/-- The pointers stay inside the list and lead to roots. -/
structure Forest (parents : List Nat) : Prop where
  inside : ∀ index, index < parents.length → parent parents index < parents.length
  rooted : ∀ index, ∃ steps root, Leads parents steps index root

/-- Two indices have one root. -/
def Same (parents : List Nat) (first second : Nat) : Prop :=
  ∃ root firstSteps secondSteps, Leads parents firstSteps first root ∧ Leads parents secondSteps second root

variable {parents : List Nat}

variable {index target steps root first second : Nat} {changed : List Nat}

theorem parent_of_length_le (outside : parents.length ≤ index) : parent parents index = index := by
  simp [parent, List.getD, outside]

theorem parent_set_self (inside : index < parents.length) : parent (parents.set index target) index = target := by
  simp [parent, inside]

theorem parent_set_of_ne {other : Nat} (different : other ≠ index) :
    parent (parents.set index target) other = parent parents other := by
  simp [parent, List.getD, getElem?_set_ne (Ne.symm different)]

theorem parent_range (count index : Nat) : parent (List.range count) index = index := by
  by_cases inside : index < count
  · simp [parent, inside]
  · exact parent_of_length_le (by simpa using inside)

/-- An index leads to one root in one number of steps. -/
theorem Leads.unique {other otherRoot : Nat} (first : Leads parents steps index root)
    (second : Leads parents other index otherRoot) : steps = other ∧ root = otherRoot := by
  induction first generalizing other with
  | root isRoot =>
    cases second with
    | root _ => exact ⟨rfl, rfl⟩
    | step notRoot _ => exact absurd isRoot notRoot
  | step notRoot _ ih =>
    cases second with
    | root isRoot => exact absurd isRoot notRoot
    | step _ rest =>
      obtain ⟨sameSteps, sameRoot⟩ := ih rest
      exact ⟨congrArg Nat.succ sameSteps, sameRoot⟩

/-- The end of a path is a root. -/
theorem Leads.parent_root (leads : Leads parents steps index root) : parent parents root = root := by
  induction leads with
  | root isRoot => exact isRoot
  | step _ _ ih => exact ih

/-- A path continues from each index on it. -/
theorem Leads.iterate (leads : Leads parents steps index root) {taken : Nat} (bounded : taken ≤ steps) :
    Leads parents (steps - taken) ((parent parents)^[taken] index) root := by
  induction leads generalizing taken with
  | root isRoot =>
    obtain rfl := Nat.le_zero.mp bounded
    exact .root isRoot
  | step notRoot rest ih =>
    cases taken with
    | zero => exact .step notRoot rest
    | succ taken =>
      rw [Nat.add_sub_add_right, Function.iterate_succ_apply]
      exact ih (Nat.le_of_succ_le_succ bounded)

theorem Forest.iterate_inside (forest : Forest parents) (inside : index < parents.length) (taken : Nat) :
    (parent parents)^[taken] index < parents.length := by
  induction taken with
  | zero => exact inside
  | succ taken ih =>
    rw [Function.iterate_succ_apply']
    exact forest.inside _ ih

/-- A path visits no index twice, so it is shorter than the list. -/
theorem Forest.steps_lt (forest : Forest parents) (inside : index < parents.length)
    (leads : Leads parents steps index root) : steps < parents.length := by
  let visit : Fin (steps + 1) → Fin parents.length := fun taken =>
    ⟨(parent parents)^[taken] index, forest.iterate_inside inside taken⟩
  have injective : Function.Injective visit := by
    intro first second same
    have equal : (parent parents)^[(first : Nat)] index = (parent parents)^[(second : Nat)] index :=
      congrArg Fin.val same
    have left := leads.iterate (Nat.le_of_lt_succ first.isLt)
    have right := leads.iterate (Nat.le_of_lt_succ second.isLt)
    rw [equal] at left
    have counts := (left.unique right).1
    have firstBound := first.isLt
    have secondBound := second.isLt
    exact Fin.ext (by omega)
  have cards := Fintype.card_le_of_injective visit injective
  rw [Fintype.card_fin, Fintype.card_fin] at cards
  exact cards

/-- An index with a parent of its own is inside the list. -/
theorem lt_of_parent_ne (notRoot : parent parents index ≠ index) : index < parents.length := by
  by_contra outside
  exact notRoot (parent_of_length_le (not_lt.mp outside))

/-- Path halving keeps every root and lengthens no path. -/
theorem Leads.halve (notRoot : parent parents index ≠ index) {start : Nat} (leads : Leads parents steps start root) :
    ∃ fewer ≤ steps,
      Leads (parents.set index (parent parents (parent parents index))) fewer start root := by
  have inside := lt_of_parent_ne notRoot
  induction steps using Nat.strong_induction_on generalizing start with
  | _ steps ih =>
    cases leads with
    | root isRoot =>
      have different : root ≠ index := by
        intro same
        exact notRoot (same ▸ isRoot)
      exact ⟨0, Nat.le_refl _, .root (by rw [parent_set_of_ne different]; exact isRoot)⟩
    | @step before _ _ startNotRoot rest =>
      by_cases same : start = index
      · subst same
        cases rest with
        | root aboveRoot =>
          refine ⟨1, by omega, .step ?_ ?_⟩
          · rw [parent_set_self inside, aboveRoot]
            exact startNotRoot
          · rw [parent_set_self inside, aboveRoot]
            exact .root (by rw [parent_set_of_ne startNotRoot]; exact aboveRoot)
        | @step earlier _ _ aboveNotRoot rest =>
          obtain ⟨fewer, bounded, continued⟩ := ih earlier (by omega) rest
          have different : parent parents (parent parents start) ≠ start := by
            intro cycle
            rw [cycle] at rest
            have counts := (rest.unique (.step startNotRoot (.step aboveNotRoot (cycle.symm ▸ rest)))).1
            omega
          refine ⟨fewer + 1, by omega, .step ?_ ?_⟩
          · rw [parent_set_self inside]
            exact different
          · rw [parent_set_self inside]
            exact continued
      · obtain ⟨fewer, bounded, continued⟩ := ih before (by omega) rest
        refine ⟨fewer + 1, by omega, .step ?_ ?_⟩
        · rw [parent_set_of_ne same]
          exact startNotRoot
        · rw [parent_set_of_ne same]
          exact continued

/-- A forest stays one when every index still leads to a root. -/
theorem Forest.set (forest : Forest parents) (inside : target < parents.length)
    (rooted : ∀ start, ∃ steps root, Leads (parents.set index target) steps start root) :
    Forest (parents.set index target) where
  inside := by
    intro other bound
    rw [length_set] at bound ⊢
    by_cases same : other = index
    · subst same
      rw [parent_set_self bound]
      exact inside
    · rw [parent_set_of_ne same]
      exact forest.inside other bound
  rooted := rooted

/-- What a search leaves behind: the root, and a forest of the same size with the same roots. -/
structure Found (parents : List Nat) (index : Nat) (result : Nat × List Nat) : Prop where
  forest : Forest result.2
  length : result.2.length = parents.length
  leads : ∃ steps, Leads parents steps index result.1
  kept : ∀ start steps root, Leads parents steps start root → ∃ fewer ≤ steps, Leads result.2 fewer start root

/-- A search with enough turns finds the root. -/
theorem find_found (forest : Forest parents) {turns : Nat} (leads : Leads parents steps index root)
    (enough : steps ≤ turns) : Found parents index (find turns parents index) := by
  induction turns generalizing parents index steps with
  | zero =>
    obtain rfl := Nat.le_zero.mp enough
    cases leads
    rename_i isRoot
    exact ⟨forest, rfl, ⟨0, .root isRoot⟩, fun start steps root path => ⟨steps, Nat.le_refl _, path⟩⟩
  | succ turns ih =>
    rw [find]
    by_cases isRoot : parent parents index = index
    · rw [if_pos isRoot]
      exact ⟨forest, rfl, ⟨0, .root isRoot⟩, fun start steps root path => ⟨steps, Nat.le_refl _, path⟩⟩
    · rw [if_neg isRoot]
      have inside := lt_of_parent_ne isRoot
      have aboveInside := forest.inside _ (forest.inside _ inside)
      have halved : Forest (parents.set index (parent parents (parent parents index))) := by
        refine forest.set aboveInside fun start => ?_
        obtain ⟨count, found, path⟩ := forest.rooted start
        obtain ⟨fewer, -, kept⟩ := path.halve isRoot
        exact ⟨fewer, found, kept⟩
      obtain ⟨count, bounded, path⟩ : ∃ count < steps,
          Leads parents count (parent parents (parent parents index)) root := by
        cases leads with
        | root top => exact absurd top isRoot
        | step _ rest =>
          cases rest with
          | root top => exact ⟨0, by omega, by rw [top]; exact .root top⟩
          | step _ rest => exact ⟨_, by omega, rest⟩
      obtain ⟨fewer, shorter, continued⟩ := path.halve isRoot
      have found := ih halved continued (by omega)
      refine ⟨found.forest, found.length.trans length_set, ?_, ?_⟩
      · obtain ⟨_, end_leads⟩ := found.leads
        rw [(end_leads.unique continued).2]
        exact ⟨steps, leads⟩
      · intro start length end_root given
        obtain ⟨middle, middleBound, kept⟩ := given.halve isRoot
        obtain ⟨last, lastBound, final⟩ := found.kept start middle end_root kept
        exact ⟨last, Nat.le_trans lastBound middleBound, final⟩

/-- A search with as many turns as indices finds the root. -/
theorem find_found_length (forest : Forest parents) (index : Nat) :
    Found parents index (find parents.length parents index) := by
  obtain ⟨steps, root, leads⟩ := forest.rooted index
  refine find_found forest leads ?_
  by_cases inside : index < parents.length
  · exact Nat.le_of_lt (forest.steps_lt inside leads)
  · cases leads with
    | root _ => exact Nat.zero_le _
    | step notRoot _ => exact absurd (lt_of_parent_ne notRoot) inside

theorem Same.symm (same : Same parents first second) : Same parents second first := by
  obtain ⟨root, firstSteps, secondSteps, left, right⟩ := same
  exact ⟨root, secondSteps, firstSteps, right, left⟩

theorem Same.trans {third : Nat} (left : Same parents first second) (right : Same parents second third) :
    Same parents first third := by
  obtain ⟨root, firstSteps, middleSteps, first_leads, middle_leads⟩ := left
  obtain ⟨other, otherSteps, thirdSteps, other_leads, third_leads⟩ := right
  obtain ⟨-, rfl⟩ := middle_leads.unique other_leads
  exact ⟨root, firstSteps, thirdSteps, first_leads, third_leads⟩

theorem Forest.same_refl (forest : Forest parents) (index : Nat) : Same parents index index := by
  obtain ⟨steps, root, leads⟩ := forest.rooted index
  exact ⟨root, steps, steps, leads, leads⟩

/-- Lists that keep every root have the same classes. -/
theorem same_iff_of_kept (forest : Forest parents)
    (kept : ∀ start steps root, Leads parents steps start root → ∃ fewer, Leads changed fewer start root)
    (first second : Nat) : Same changed first second ↔ Same parents first second := by
  constructor
  · intro same
    obtain ⟨root, firstSteps, secondSteps, left, right⟩ := same
    obtain ⟨firstCount, firstRoot, firstLeads⟩ := forest.rooted first
    obtain ⟨secondCount, secondRoot, secondLeads⟩ := forest.rooted second
    obtain ⟨_, firstKept⟩ := kept _ _ _ firstLeads
    obtain ⟨_, secondKept⟩ := kept _ _ _ secondLeads
    rw [← (left.unique firstKept).2] at firstLeads
    rw [← (right.unique secondKept).2] at secondLeads
    exact ⟨root, firstCount, secondCount, firstLeads, secondLeads⟩
  · intro same
    obtain ⟨root, firstSteps, secondSteps, left, right⟩ := same
    obtain ⟨firstCount, firstKept⟩ := kept _ _ _ left
    obtain ⟨secondCount, secondKept⟩ := kept _ _ _ right
    exact ⟨root, firstCount, secondCount, firstKept, secondKept⟩

/-- A link between two roots moves every path of the first root to the second. -/
theorem Leads.link {firstRoot secondRoot : Nat} (inside : firstRoot < parents.length)
    (different : firstRoot ≠ secondRoot) (firstIsRoot : parent parents firstRoot = firstRoot)
    (secondIsRoot : parent parents secondRoot = secondRoot) {start : Nat} (leads : Leads parents steps start root) :
    ∃ count, Leads (parents.set firstRoot secondRoot) count start (if root = firstRoot then secondRoot else root) := by
  have top : Leads (parents.set firstRoot secondRoot) 0 secondRoot secondRoot :=
    .root (by rw [parent_set_of_ne (Ne.symm different)]; exact secondIsRoot)
  induction leads with
  | @root index isRoot =>
    by_cases same : index = firstRoot
    · rw [if_pos same, same]
      refine ⟨1, .step ?_ ?_⟩
      · rw [parent_set_self inside]
        exact Ne.symm different
      · rw [parent_set_self inside]
        exact top
    · rw [if_neg same]
      exact ⟨0, .root (by rw [parent_set_of_ne same]; exact isRoot)⟩
  | @step steps index root notRoot rest ih =>
    by_cases same : index = firstRoot
    · exact absurd (same ▸ firstIsRoot) notRoot
    · obtain ⟨count, continued⟩ := ih
      refine ⟨count + 1, .step ?_ ?_⟩
      · rw [parent_set_of_ne same]
        exact notRoot
      · rw [parent_set_of_ne same]
        exact continued

/-- The root of an index inside the list is inside it. -/
theorem Forest.root_lt (forest : Forest parents) (leads : Leads parents steps index root)
    (inside : index < parents.length) : root < parents.length := by
  induction leads with
  | root _ => exact inside
  | step _ _ ih => exact ih (forest.inside _ inside)

/-- What a union does to the classes. -/
structure Joined (parents : List Nat) (first second : Nat) (joined : List Nat) : Prop where
  forest : Forest joined
  length : joined.length = parents.length
  same : ∀ left right, Same joined left right ↔
    Same parents left right ∨ (Same parents left first ∧ Same parents second right) ∨
      (Same parents left second ∧ Same parents first right)

/-- A union of indices that have one root already changes no class. -/
theorem Joined.of_same (changedForest : Forest changed) (length : changed.length = parents.length)
    (kept : ∀ left right, Same changed left right ↔ Same parents left right)
    (joinedAlready : Same parents first second) : Joined parents first second changed := by
  refine ⟨changedForest, length, fun left right => ?_⟩
  rw [kept]
  constructor
  · exact Or.inl
  · intro either
    rcases either with same | ⟨toFirst, fromSecond⟩ | ⟨toSecond, fromFirst⟩
    · exact same
    · exact (toFirst.trans joinedAlready).trans fromSecond
    · exact (toSecond.trans joinedAlready.symm).trans fromFirst

/-- A link between the roots of two indices joins their classes. -/
theorem Joined.of_link (forest : Forest parents) {firstRoot secondRoot : Nat} (firstInside : first < parents.length)
    (secondInside : second < parents.length) (firstLeads : ∃ steps, Leads parents steps first firstRoot)
    (secondLeads : ∃ steps, Leads parents steps second secondRoot) (different : firstRoot ≠ secondRoot) :
    Joined parents first second (parents.set firstRoot secondRoot) := by
  obtain ⟨firstSteps, firstPath⟩ := firstLeads
  obtain ⟨secondSteps, secondPath⟩ := secondLeads
  have inside := forest.root_lt firstPath firstInside
  have linked : ∀ {steps start root : Nat}, Leads parents steps start root → ∃ count,
      Leads (parents.set firstRoot secondRoot) count start (if root = firstRoot then secondRoot else root) :=
    fun path => path.link inside different firstPath.parent_root secondPath.parent_root
  refine ⟨?_, length_set, fun left right => ?_⟩
  · refine forest.set (forest.root_lt secondPath secondInside) fun start => ?_
    obtain ⟨steps, root, path⟩ := forest.rooted start
    obtain ⟨count, moved⟩ := linked path
    exact ⟨count, _, moved⟩
  · obtain ⟨leftSteps, leftRoot, leftPath⟩ := forest.rooted left
    obtain ⟨rightSteps, rightRoot, rightPath⟩ := forest.rooted right
    obtain ⟨leftCount, leftMoved⟩ := linked leftPath
    obtain ⟨rightCount, rightMoved⟩ := linked rightPath
    have same_iff : ∀ {start other startRoot otherRoot startSteps otherSteps : Nat},
        Leads parents startSteps start startRoot → Leads parents otherSteps other otherRoot →
          (Same parents start other ↔ startRoot = otherRoot) := by
      intro start other startRoot otherRoot startSteps otherSteps startPath otherPath
      constructor
      · intro ⟨root, _, _, toStart, toOther⟩
        rw [(startPath.unique toStart).2, (otherPath.unique toOther).2]
      · intro equal
        exact ⟨startRoot, startSteps, otherSteps, startPath, equal ▸ otherPath⟩
    have after : Same (parents.set firstRoot secondRoot) left right ↔
        (if leftRoot = firstRoot then secondRoot else leftRoot) =
          (if rightRoot = firstRoot then secondRoot else rightRoot) := by
      constructor
      · intro ⟨root, _, _, toLeft, toRight⟩
        rw [(leftMoved.unique toLeft).2, (rightMoved.unique toRight).2]
      · intro equal
        exact ⟨_, leftCount, rightCount, leftMoved, equal ▸ rightMoved⟩
    rw [after, same_iff leftPath rightPath, same_iff leftPath firstPath, same_iff secondPath rightPath,
      same_iff leftPath secondPath, same_iff firstPath rightPath]
    by_cases leftFirst : leftRoot = firstRoot
    · by_cases rightFirst : rightRoot = firstRoot
      · rw [if_pos leftFirst, if_pos rightFirst]
        omega
      · rw [if_pos leftFirst, if_neg rightFirst]
        omega
    · by_cases rightFirst : rightRoot = firstRoot
      · rw [if_neg leftFirst, if_pos rightFirst]
        omega
      · rw [if_neg leftFirst, if_neg rightFirst]
        omega

/-- A search keeps the classes. -/
theorem Found.same_iff (forest : Forest parents) {result : Nat × List Nat} (found : Found parents index result)
    (left right : Nat) : Same result.2 left right ↔ Same parents left right := by
  refine same_iff_of_kept forest (fun start steps root path => ?_) left right
  obtain ⟨fewer, -, kept⟩ := found.kept start steps root path
  exact ⟨fewer, kept⟩

/-- A union joins the classes of its two indices. -/
theorem union_joined (forest : Forest parents) (firstInside : first < parents.length)
    (secondInside : second < parents.length) : Joined parents first second (union parents first second) := by
  have secondFound := find_found_length forest second
  generalize searched : find parents.length parents second = secondResult at secondFound
  have firstFound := find_found_length secondFound.forest first
  generalize searchedAgain : find secondResult.2.length secondResult.2 first = firstResult at firstFound
  have unfolded : union parents first second =
      if firstResult.1 = secondResult.1 then firstResult.2
      else firstResult.2.set firstResult.1 secondResult.1 := by
    rw [← searchedAgain, ← searched]
    rfl
  have length : firstResult.2.length = parents.length := firstFound.length.trans secondFound.length
  have classes : ∀ left right, Same firstResult.2 left right ↔ Same parents left right := fun left right =>
    (firstFound.same_iff secondFound.forest left right).trans (secondFound.same_iff forest left right)
  have firstLeads : ∃ steps, Leads firstResult.2 steps first firstResult.1 := by
    obtain ⟨steps, path⟩ := firstFound.leads
    obtain ⟨fewer, -, kept⟩ := firstFound.kept _ _ _ path
    exact ⟨fewer, kept⟩
  have secondLeads : ∃ steps, Leads firstResult.2 steps second secondResult.1 := by
    obtain ⟨steps, path⟩ := secondFound.leads
    obtain ⟨middle, -, kept⟩ := secondFound.kept _ _ _ path
    obtain ⟨fewer, -, keptAgain⟩ := firstFound.kept _ _ _ kept
    exact ⟨fewer, keptAgain⟩
  rw [unfolded]
  by_cases equal : firstResult.1 = secondResult.1
  · rw [if_pos equal]
    refine Joined.of_same firstFound.forest length classes ((classes first second).mp ?_)
    obtain ⟨firstSteps, firstPath⟩ := firstLeads
    obtain ⟨secondSteps, secondPath⟩ := secondLeads
    exact ⟨secondResult.1, firstSteps, secondSteps, equal ▸ firstPath, secondPath⟩
  · rw [if_neg equal]
    have joined := Joined.of_link firstFound.forest (length.symm ▸ firstInside) (length.symm ▸ secondInside)
      firstLeads secondLeads equal
    refine ⟨joined.forest, joined.length.trans length, fun left right => ?_⟩
    rw [joined.same, classes, classes, classes, classes, classes]

variable {Key : Type} [DecidableEq Key]

/-- The pointers so far, and the first index of each key seen so far. -/
structure Links (Key : Type) where
  parents : List Nat
  owners : List (Key × Nat)

/-- An index with a key. A key seen before joins the index to the key's owner. -/
def Links.add (links : Links Key) (entry : Nat × Key) : Links Key :=
  match links.owners.lookup entry.2 with
  | some owner => { links with parents := union links.parents entry.1 owner }
  | none => { links with owners := (entry.2, entry.1) :: links.owners }

/-- Indices below `count` joined along a list of keyed indices. -/
def linkAll (count : Nat) (entries : List (Nat × Key)) : Links Key :=
  entries.foldl Links.add ⟨List.range count, []⟩

/-- Two indices share a key. -/
def Shares (entries : List (Nat × Key)) (first second : Nat) : Prop :=
  ∃ key, (first, key) ∈ entries ∧ (second, key) ∈ entries

/-- The links after a list of entries: the owners are indices of their keys, and the classes are those that shared
keys generate. -/
structure Linked (count : Nat) (entries : List (Nat × Key)) (links : Links Key) : Prop where
  forest : Forest links.parents
  length : links.parents.length = count
  owned : ∀ key owner, links.owners.lookup key = some owner → (owner, key) ∈ entries
  unowned : ∀ key index, links.owners.lookup key = none → (index, key) ∉ entries
  same : ∀ first second, Same links.parents first second ↔ Relation.EqvGen (Shares entries) first second

variable {count : Nat} {entries : List (Nat × Key)} {links : Links Key} {entry : Nat × Key}

/-- An index that shares no key stays alone, and the classes are unchanged. -/
theorem Linked.add_unowned (linked : Linked count entries links) (fresh : links.owners.lookup entry.2 = none) :
    Linked count (entries ++ [entry]) (links.add entry) := by
  have unfolded : links.add entry = { links with owners := (entry.2, entry.1) :: links.owners } := by
    rw [Links.add, fresh]
  rw [unfolded]
  refine ⟨linked.forest, linked.length, ?_, ?_, ?_⟩
  · intro key owner found
    rw [lookup_cons] at found
    by_cases same : key = entry.2
    · rw [beq_iff_eq.mpr same] at found
      cases found
      rw [same]
      exact mem_append_right _ (mem_singleton_self _)
    · rw [beq_eq_false_iff_ne.mpr same] at found
      exact mem_append_left _ (linked.owned key owner found)
  · intro key index missing member
    rw [lookup_cons] at missing
    by_cases same : key = entry.2
    · rw [beq_iff_eq.mpr same] at missing
      cases missing
    · rw [beq_eq_false_iff_ne.mpr same] at missing
      rcases mem_append.mp member with earlier | last
      · exact linked.unowned key index missing earlier
      · rw [mem_singleton] at last
        exact same (congrArg Prod.snd last)
  · intro first second
    rw [linked.same]
    constructor
    · intro generated
      refine generated.mono fun left right shared => ?_
      obtain ⟨key, inLeft, inRight⟩ := shared
      exact ⟨key, mem_append_left _ inLeft, mem_append_left _ inRight⟩
    · intro generated
      induction generated with
      | rel left right shared =>
        obtain ⟨key, inLeft, inRight⟩ := shared
        rcases mem_append.mp inLeft with leftEarlier | leftLast
        · rcases mem_append.mp inRight with rightEarlier | rightLast
          · exact .rel _ _ ⟨key, leftEarlier, rightEarlier⟩
          · rw [mem_singleton] at rightLast
            rw [← rightLast] at fresh
            exact absurd leftEarlier (linked.unowned _ _ fresh)
        · rw [mem_singleton] at leftLast
          rcases mem_append.mp inRight with rightEarlier | rightLast
          · rw [← leftLast] at fresh
            exact absurd rightEarlier (linked.unowned _ _ fresh)
          · rw [mem_singleton, ← leftLast] at rightLast
            cases rightLast
            exact .refl _
      | refl index => exact .refl _
      | symm _ _ _ ih => exact ih.symm
      | trans _ _ _ _ _ first_ih second_ih => exact first_ih.trans _ _ _ second_ih

/-- An index that shares a key joins the class of the key's owner. -/
theorem Linked.add_owned (linked : Linked count entries links) (bounded : ∀ entry ∈ entries, entry.1 < count)
    (inside : entry.1 < count) {owner : Nat} (found : links.owners.lookup entry.2 = some owner) :
    Linked count (entries ++ [entry]) (links.add entry) := by
  have ownerEntry := linked.owned _ _ found
  have unfolded : links.add entry = { links with parents := union links.parents entry.1 owner } := by
    rw [Links.add, found]
  have joined := union_joined linked.forest (linked.length.symm ▸ inside)
    (linked.length.symm ▸ bounded _ ownerEntry)
  have last : entry ∈ entries ++ [entry] := mem_append_right _ (mem_singleton_self _)
  have widen : ∀ {left right : Nat}, Same links.parents left right →
      Relation.EqvGen (Shares (entries ++ [entry])) left right := by
    intro left right same
    refine ((linked.same left right).mp same).mono fun _ _ shared => ?_
    obtain ⟨key, inLeft, inRight⟩ := shared
    exact ⟨key, mem_append_left _ inLeft, mem_append_left _ inRight⟩
  have bridge : Relation.EqvGen (Shares (entries ++ [entry])) entry.1 owner :=
    .rel _ _ ⟨entry.2, last, mem_append_left _ ownerEntry⟩
  rw [unfolded]
  refine ⟨joined.forest, joined.length.trans linked.length, ?_, ?_, ?_⟩
  · intro key other lookedUp
    exact mem_append_left _ (linked.owned key other lookedUp)
  · intro key index missing member
    rcases mem_append.mp member with earlier | isLast
    · exact linked.unowned key index missing earlier
    · rw [mem_singleton] at isLast
      rw [← isLast] at found
      rw [found] at missing
      cases missing
  · intro first second
    constructor
    · intro same
      rcases (joined.same first second).mp same with old | ⟨toEntry, fromOwner⟩ | ⟨toOwner, fromEntry⟩
      · exact widen old
      · exact ((widen toEntry).trans _ _ _ bridge).trans _ _ _ (widen fromOwner)
      · exact ((widen toOwner).trans _ _ _ bridge.symm).trans _ _ _ (widen fromEntry)
    · intro generated
      have old : ∀ {left right : Nat}, Same links.parents left right →
          Same (union links.parents entry.1 owner) left right := fun same => (joined.same _ _).mpr (.inl same)
      have joint : Same (union links.parents entry.1 owner) entry.1 owner :=
        (joined.same _ _).mpr (.inr (.inl ⟨linked.forest.same_refl _, linked.forest.same_refl _⟩))
      have toOwner : ∀ index, (index, entry.2) ∈ entries → Same links.parents index owner := fun index member =>
        (linked.same _ _).mpr (.rel _ _ ⟨entry.2, member, ownerEntry⟩)
      induction generated with
      | rel left right shared =>
        obtain ⟨key, inLeft, inRight⟩ := shared
        rcases mem_append.mp inLeft with leftEarlier | leftLast
        · rcases mem_append.mp inRight with rightEarlier | rightLast
          · exact old ((linked.same _ _).mpr (.rel _ _ ⟨key, leftEarlier, rightEarlier⟩))
          · obtain ⟨rfl, rfl⟩ := Prod.mk.inj (mem_singleton.mp rightLast)
            exact (old (toOwner _ leftEarlier)).trans joint.symm
        · obtain ⟨rfl, rfl⟩ := Prod.mk.inj (mem_singleton.mp leftLast)
          rcases mem_append.mp inRight with rightEarlier | rightLast
          · exact joint.trans (old (toOwner _ rightEarlier)).symm
          · rw [(Prod.mk.inj (mem_singleton.mp rightLast)).1]
            exact joined.forest.same_refl _
      | refl index => exact joined.forest.same_refl _
      | symm _ _ _ ih => exact ih.symm
      | trans _ _ _ _ _ first_ih second_ih => exact first_ih.trans second_ih

/-- Single indices are a forest without joined classes. -/
theorem linked_range (count : Nat) : Linked count ([] : List (Nat × Key)) ⟨List.range count, []⟩ := by
  have leads : ∀ index, Leads (List.range count) 0 index index := fun index => .root (parent_range count index)
  refine ⟨⟨?_, ?_⟩, length_range, ?_, ?_, ?_⟩
  · intro index inside
    rw [parent_range]
    exact inside
  · intro index
    exact ⟨0, index, leads index⟩
  · intro key owner found
    cases found
  · intro key index _ member
    cases member
  · intro first second
    constructor
    · intro ⟨root, _, _, left, right⟩
      rw [← ((leads first).unique left).2] at right
      rw [((leads second).unique right).2]
      exact .refl _
    · intro generated
      induction generated with
      | rel left right shared =>
        obtain ⟨key, member, -⟩ := shared
        cases member
      | refl index => exact ⟨index, 0, 0, leads index, leads index⟩
      | symm _ _ _ ih => exact ih.symm
      | trans _ _ _ _ _ first_ih second_ih => exact first_ih.trans second_ih

/-- The classes of linked indices are those that shared keys generate. -/
theorem linkAll_linked (bounded : ∀ entry ∈ entries, entry.1 < count) :
    Linked count entries (linkAll count entries) := by
  have general : ∀ (rest earlier : List (Nat × Key)) (links : Links Key), Linked count earlier links →
      (∀ entry ∈ earlier ++ rest, entry.1 < count) → Linked count (earlier ++ rest) (rest.foldl Links.add links) := by
    intro rest
    induction rest with
    | nil =>
      intro earlier links linked _
      rw [append_nil]
      exact linked
    | cons entry rest ih =>
      intro earlier links linked inside
      have next : Linked count (earlier ++ [entry]) (links.add entry) := by
        have earlierInside : ∀ other ∈ earlier, other.1 < count := fun other member =>
          inside other (mem_append_left _ member)
        cases found : links.owners.lookup entry.2 with
        | none => exact linked.add_unowned found
        | some owner =>
          exact linked.add_owned earlierInside
            (inside entry (mem_append_right _ mem_cons_self)) found
      have continued := ih (earlier ++ [entry]) (links.add entry) next (by simpa using inside)
      rw [append_assoc, singleton_append] at continued
      exact continued
  exact general entries [] _ (linked_range count) bounded

/-- The root of every index of a list, with the pointers of each search kept for the next. -/
def rootsFrom (parents : List Nat) : List Nat → List (Nat × Nat)
  | [] => []
  | index :: rest =>
    let (root, searched) := find parents.length parents index
    (root, index) :: rootsFrom searched rest

/-- Every index of the list is paired with its root, in order. -/
theorem rootsFrom_spec (forest : Forest parents) (indices : List Nat) :
    (rootsFrom parents indices).map Prod.snd = indices ∧
      ∀ pair ∈ rootsFrom parents indices, ∃ steps, Leads parents steps pair.2 pair.1 := by
  induction indices generalizing parents with
  | nil => exact ⟨rfl, fun pair member => by cases member⟩
  | cons index rest ih =>
    have found := find_found_length forest index
    obtain ⟨others, lead⟩ := ih found.forest
    refine ⟨congrArg (index :: ·) others, fun pair member => ?_⟩
    rcases mem_cons.mp member with rfl | later
    · exact found.leads
    · obtain ⟨steps, path⟩ := lead pair later
      obtain ⟨count, root, original⟩ := forest.rooted pair.2
      obtain ⟨fewer, -, kept⟩ := found.kept _ _ _ original
      rw [(path.unique kept).2]
      exact ⟨count, original⟩

/-- Paired indices have one root exactly when they are in one class. -/
theorem roots_eq_iff_same (forest : Forest parents) {indices : List Nat} {first second : Nat × Nat}
    (firstMember : first ∈ rootsFrom parents indices) (secondMember : second ∈ rootsFrom parents indices) :
    first.1 = second.1 ↔ Same parents first.2 second.2 := by
  obtain ⟨firstSteps, firstPath⟩ := (rootsFrom_spec forest indices).2 first firstMember
  obtain ⟨secondSteps, secondPath⟩ := (rootsFrom_spec forest indices).2 second secondMember
  constructor
  · intro equal
    exact ⟨first.1, firstSteps, secondSteps, firstPath, equal ▸ secondPath⟩
  · intro ⟨root, _, _, left, right⟩
    rw [(firstPath.unique left).2, (secondPath.unique right).2]

end DisjointSets
