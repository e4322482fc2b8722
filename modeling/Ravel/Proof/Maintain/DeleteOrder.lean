import Ravel.Construction.Maintain.SupersededSweep

namespace Ravel.Maintain

open List

/-- Every deleted key follows the earlier keys of some group that holds it. -/
def Justified (groups : List SupersededGroup) (deleted : List SweepKey) : Prop :=
  ∀ before key after, deleted = before ++ key :: after → ∃ group ∈ groups, ∃ earlier later,
    group.keys = earlier ++ key :: later ∧ ∀ other ∈ earlier, other ∈ before

variable {groups : List SupersededGroup} {deleted : List SweepKey} {key : SweepKey} {group : SupersededGroup}
  {index : Nat} (refuses : SweepKey → Bool) {phase : DeletePhase}

theorem Justified.of_start {done : List SweepKey} (justified : Justified groups deleted) (starts : done <+: deleted) :
    Justified groups done := by
  obtain ⟨rest, rfl⟩ := starts
  intro before key after split
  exact justified before key (after ++ rest) (by rw [split, append_assoc, cons_append])

theorem Justified.append (justified : Justified groups deleted) (member : group ∈ groups)
    {earlier later : List SweepKey} (order : group.keys = earlier ++ key :: later)
    (gone : ∀ other ∈ earlier, other ∈ deleted) : Justified groups (deleted ++ [key]) := by
  intro before other after split
  rcases eq_nil_or_concat after with rfl | ⟨init, last, rfl⟩
  · obtain ⟨rfl, same⟩ := append_inj' split rfl
    cases same
    exact ⟨group, member, earlier, later, order, gone⟩
  · rw [concat_eq_append, ← cons_append, ← append_assoc] at split
    obtain ⟨rfl, -⟩ := append_inj' split rfl
    exact justified before other init rfl

theorem Justified.exists_group (justified : Justified groups deleted) (member : key ∈ deleted) :
    ∃ group ∈ groups, ∃ earlier later, group.keys = earlier ++ key :: later ∧ ∀ other ∈ earlier, other ∈ deleted := by
  obtain ⟨before, after, split⟩ := append_of_mem member
  obtain ⟨group, inGroups, earlier, later, order, gone⟩ := justified before key after split
  refine ⟨group, inGroups, earlier, later, order, ?_⟩
  intro other inside
  rw [split]
  exact mem_append_left _ (gone other inside)

/-- The deletes and the stopped groups only grow. -/
structure DeletePhase.Extends (before after : DeletePhase) : Prop where
  deleted : ∀ key ∈ before.deleted, key ∈ after.deleted
  stopped : ∀ index ∈ before.stopped, index ∈ after.stopped

theorem DeletePhase.Extends.refl (phase : DeletePhase) : phase.Extends phase :=
  ⟨fun _ inside => inside, fun _ inside => inside⟩

theorem DeletePhase.Extends.trans {first middle last : DeletePhase} (earlier : first.Extends middle)
    (later : middle.Extends last) : first.Extends last :=
  ⟨fun key inside => later.deleted key (earlier.deleted key inside),
    fun index inside => later.stopped index (earlier.stopped index inside)⟩

/-- A group that is not stopped has deleted some of its keys. -/
def Handled (phase : DeletePhase) (index : Nat) (keys : List SweepKey) : Prop :=
  index ∉ phase.stopped → ∀ key ∈ keys, key ∈ phase.deleted

theorem Handled.mono {before after : DeletePhase} (extended : before.Extends after) {keys : List SweepKey}
    (handled : Handled before index keys) : Handled after index keys := by
  intro running key inside
  exact extended.deleted key (handled (fun stopped => running (extended.stopped index stopped)) key inside)

/-- One group in one loop. -/
theorem deleteKeys_spec (member : group ∈ groups) {keys earlier later : List SweepKey}
    (order : group.keys = earlier ++ (keys ++ later)) (justified : Justified groups phase.deleted)
    (handled : Handled phase index earlier) : Justified groups (deleteKeys refuses index keys phase).deleted ∧
      phase.Extends (deleteKeys refuses index keys phase) ∧
      Handled (deleteKeys refuses index keys phase) index (earlier ++ keys) := by
  induction keys generalizing earlier phase with
  | nil =>
    rw [append_nil]
    exact ⟨justified, .refl phase, handled⟩
  | cons key rest ih =>
    rw [deleteKeys]
    split_ifs with stops present refused
    · refine ⟨justified, ⟨fun _ inside => inside, fun _ inside => mem_cons_of_mem _ inside⟩, ?_⟩
      intro running
      exact absurd mem_cons_self running
    · have running : index ∉ phase.stopped := fun stopped => stops (.inl stopped)
      have next : Handled phase index (earlier ++ [key]) := by
        intro _ other inside
        rcases mem_append.mp inside with before | same
        · exact handled running other before
        · rw [mem_singleton.mp same]
          exact present
      have result := ih (by rw [order]; simp) justified next
      rwa [append_assoc, singleton_append] at result
    · refine ⟨justified, ⟨fun _ inside => inside, fun _ inside => mem_cons_of_mem _ inside⟩, ?_⟩
      intro running
      exact absurd mem_cons_self running
    · have running : index ∉ phase.stopped := fun stopped => stops (.inl stopped)
      have grown : Justified groups (phase.deleted ++ [key]) :=
        justified.append member (by rw [order, cons_append]) (handled running)
      have next : Handled { phase with deleted := phase.deleted ++ [key] } index (earlier ++ [key]) := by
        intro _ other inside
        rcases mem_append.mp inside with before | same
        · exact mem_append_left _ (handled running other before)
        · exact mem_append_right _ same
      obtain ⟨result, extended, finished⟩ := ih (by rw [order]; simp) grown next
      rw [append_assoc, singleton_append] at finished
      have first : phase.Extends { phase with deleted := phase.deleted ++ [key] } :=
        ⟨fun _ inside => mem_append_left _ inside, fun _ inside => inside⟩
      exact ⟨result, first.trans extended, finished⟩

/-- The keys of a group that stand before a loop. -/
def keysBefore (group : SupersededGroup) : DeleteLoop → List SweepKey
  | .inputRecords => []
  | .data => group.loopKeys .inputRecords
  | .chainRecords => group.loopKeys .inputRecords ++ group.loopKeys .data

theorem keys_split (group : SupersededGroup) (loop : DeleteLoop) :
    ∃ later, group.keys = keysBefore group loop ++ (group.loopKeys loop ++ later) := by
  cases loop with
  | inputRecords => exact ⟨_, by rw [SupersededGroup.keys, keysBefore, nil_append, append_assoc]⟩
  | data => exact ⟨_, by rw [SupersededGroup.keys, keysBefore, append_assoc]⟩
  | chainRecords => exact ⟨[], by rw [SupersededGroup.keys, keysBefore, append_nil]⟩

/-- One loop over the cleared groups. -/
theorem deleteLoop_spec (loop : DeleteLoop) {entries : List (SupersededGroup × Nat)}
    (members : ∀ entry ∈ entries, entry.1 ∈ groups) (justified : Justified groups phase.deleted)
    (handled : ∀ entry ∈ entries, Handled phase entry.2 (keysBefore entry.1 loop)) :
    Justified groups (deleteLoop refuses loop entries phase).deleted ∧
      phase.Extends (deleteLoop refuses loop entries phase) ∧
      ∀ entry ∈ entries, Handled (deleteLoop refuses loop entries phase) entry.2
        (keysBefore entry.1 loop ++ entry.1.loopKeys loop) := by
  induction entries generalizing phase with
  | nil => exact ⟨justified, .refl phase, by simp⟩
  | cons entry rest ih =>
    obtain ⟨group, index⟩ := entry
    rw [forall_mem_cons] at members handled
    obtain ⟨later, order⟩ := keys_split group loop
    obtain ⟨first, extended, finished⟩ :=
      deleteKeys_spec refuses members.1 order justified handled.1
    obtain ⟨result, further, others⟩ :=
      ih members.2 first fun other inside => (handled.2 other inside).mono extended
    rw [deleteLoop, forall_mem_cons]
    exact ⟨result, extended.trans further, finished.mono further, others⟩

theorem deletePhase_spec (cleared : List SupersededGroup) :
    Justified cleared (deletePhase refuses cleared).deleted ∧
      ∀ entry ∈ cleared.zipIdx, Handled (deletePhase refuses cleared) entry.2 entry.1.keys := by
  have members : ∀ entry ∈ cleared.zipIdx, entry.1 ∈ cleared := by
    intro entry inside
    exact fst_mem_of_mem_zipIdx inside
  have none : Justified cleared [] := by
    intro before key after split
    simp at split
  have start : ∀ entry ∈ cleared.zipIdx, Handled ⟨[], [], []⟩ entry.2 (keysBefore entry.1 .inputRecords) := by
    intro entry _ _ key inside
    cases inside
  obtain ⟨afterRecords, -, records⟩ := deleteLoop_spec refuses .inputRecords members none start
  obtain ⟨afterData, -, data⟩ := deleteLoop_spec refuses .data members afterRecords records
  obtain ⟨justified, -, handled⟩ := deleteLoop_spec refuses .chainRecords members afterData data
  exact ⟨justified, handled⟩

theorem deletePhase_justified (cleared : List SupersededGroup) :
    Justified cleared (deletePhase refuses cleared).deleted :=
  (deletePhase_spec refuses cleared).1

/-- Each delete is issued once and accepted, and a stopped group holds a refused key. -/
structure PassInv (groups : List SupersededGroup) (phase : DeletePhase) : Prop where
  once : phase.deleted.Nodup
  accepted : ∀ key ∈ phase.deleted, refuses key = false
  refused : ∀ key ∈ phase.refused, refuses key = true
  stopped : ∀ index ∈ phase.stopped, ∃ group, groups[index]? = some group ∧ ∃ key ∈ group.keys, refuses key = true

variable {refuses}

theorem PassInv.stop (inv : PassInv refuses groups phase) (atIndex : groups[index]? = some group)
    (member : key ∈ group.keys) (refusedKey : refuses key = true) :
    ∀ other ∈ index :: phase.stopped, ∃ group, groups[other]? = some group ∧ ∃ key ∈ group.keys, refuses key = true := by
  intro other inside
  rcases mem_cons.mp inside with rfl | earlier
  · exact ⟨group, atIndex, key, member, refusedKey⟩
  · exact inv.stopped other earlier

theorem deleteKeys_pass (atIndex : groups[index]? = some group) {keys : List SweepKey}
    (members : ∀ key ∈ keys, key ∈ group.keys) (inv : PassInv refuses groups phase) :
    PassInv refuses groups (deleteKeys refuses index keys phase) := by
  induction keys generalizing phase with
  | nil => exact inv
  | cons key rest ih =>
    rw [forall_mem_cons] at members
    rw [deleteKeys]
    split_ifs with stops present refused
    · refine ⟨inv.once, inv.accepted, inv.refused, ?_⟩
      rcases stops with already | meets
      · obtain ⟨other, sameIndex, found, inside, refusedFound⟩ := inv.stopped index already
        exact inv.stop sameIndex inside refusedFound
      · exact inv.stop atIndex members.1 (inv.refused key meets)
    · exact ih members.2 inv
    · refine ⟨inv.once, inv.accepted, ?_, inv.stop atIndex members.1 refused⟩
      rw [forall_mem_cons]
      exact ⟨refused, inv.refused⟩
    · refine ih members.2 ⟨?_, ?_, inv.refused, inv.stopped⟩
      · rw [nodup_append]
        refine ⟨inv.once, nodup_singleton key, ?_⟩
        intro earlier inside other isKey same
        rw [same, mem_singleton.mp isKey] at inside
        exact present inside
      · rw [forall_mem_append, forall_mem_singleton]
        exact ⟨inv.accepted, eq_false_of_ne_true refused⟩

theorem deleteLoop_pass (loop : DeleteLoop) {entries : List (SupersededGroup × Nat)}
    (indexed : ∀ entry ∈ entries, groups[entry.2]? = some entry.1) (inv : PassInv refuses groups phase) :
    PassInv refuses groups (deleteLoop refuses loop entries phase) := by
  induction entries generalizing phase with
  | nil => exact inv
  | cons entry rest ih =>
    rw [forall_mem_cons] at indexed
    refine ih indexed.2 (deleteKeys_pass indexed.1 ?_ inv)
    intro key inside
    obtain ⟨later, order⟩ := keys_split entry.1 loop
    rw [order]
    exact mem_append_right _ (mem_append_left _ inside)

theorem deletePhase_pass (cleared : List SupersededGroup) : PassInv refuses cleared (deletePhase refuses cleared) := by
  have indexed : ∀ entry ∈ cleared.zipIdx, cleared[entry.2]? = some entry.1 := by
    intro entry inside
    exact mem_zipIdx_iff_getElem?.mp inside
  have start : PassInv refuses cleared ⟨[], [], []⟩ := ⟨nodup_nil, by simp, by simp, by simp⟩
  exact deleteLoop_pass .chainRecords indexed (deleteLoop_pass .data indexed (deleteLoop_pass .inputRecords indexed start))

/-- However the store refuses deletes: a pass deletes no key twice and none that is refused; at every point of it, what is
gone follows the order of a cleared group; and a group of which no key is refused is gone at its end. -/
theorem pass_deletes_in_order (refuses : SweepKey → Bool) (cleared : List SupersededGroup) :
    (deletePhase refuses cleared).deleted.Nodup ∧ (∀ key ∈ (deletePhase refuses cleared).deleted, refuses key = false) ∧
      (∀ done, done <+: (deletePhase refuses cleared).deleted → Justified cleared done) ∧
      ∀ group ∈ cleared, (∀ key ∈ group.keys, refuses key = false) →
        ∀ key ∈ group.keys, key ∈ (deletePhase refuses cleared).deleted := by
  obtain ⟨justified, handled⟩ := deletePhase_spec refuses cleared
  have inv : PassInv refuses cleared (deletePhase refuses cleared) := deletePhase_pass cleared
  refine ⟨inv.once, inv.accepted, fun done starts => justified.of_start starts, ?_⟩
  intro group member clear
  obtain ⟨index, atIndex⟩ := mem_iff_getElem?.mp member
  refine handled (group, index) (mem_zipIdx_iff_getElem?.mpr atIndex) ?_
  intro stops
  obtain ⟨other, sameIndex, key, inside, refusedKey⟩ := inv.stopped index stops
  rw [atIndex, Option.some.injEq] at sameIndex
  rw [← sameIndex] at inside
  exact absurd refusedKey (by simp [clear key inside])

end Ravel.Maintain
