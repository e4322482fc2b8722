import Ravel.Construction.Agents.Runs
import Ravel.Library.PagedLists

namespace Ravel.Agents

open List Library

section PageWrites

variable {Entry : Type} (digests : Digests) (pages : PageEntry Entry)

/-- The record of a page with the given entries. -/
def pageMeta (entries : List Entry) (firstKey : Nat) : PageMeta :=
  (PageWriter.finish digests pages ⟨entries, 0⟩ firstKey).1

def groupMeta (group : PageGroup Entry) : PageMeta :=
  pageMeta digests pages group.entries group.firstKey

theorem foldlM_push (entries : List Entry) (writer : PageWriter Entry)
    (fits : writer.entries.length + entries.length ≤ writer.max) :
    entries.foldlM PageWriter.push writer = .ok ⟨writer.entries ++ entries, writer.max⟩ := by
  induction entries generalizing writer with
  | nil => simp [pure, Except.pure]
  | cons entry rest ih =>
    rw [length_cons] at fits
    have room : ¬writer.max ≤ writer.entries.length := by omega
    rw [foldlM_cons, PageWriter.push, if_neg room]
    have pushed := ih ⟨writer.entries ++ [entry], writer.max⟩ (by simp; omega)
    rw [append_assoc] at pushed
    exact pushed

/-- A page of at most the bound is written. -/
theorem writePage_ok (maxPageEntries firstKey : Nat) {entries : List Entry}
    (fits : entries.length ≤ Nat.max maxPageEntries 1) :
    writePage digests pages maxPageEntries firstKey entries =
      .ok (pageMeta digests pages entries firstKey, pages.encodePage entries) := by
  have filled := foldlM_push entries (PageWriter.new maxPageEntries) (by simpa [PageWriter.new] using fits)
  rw [writePage, filled]
  rfl

theorem chunks_nil (size fuel : Nat) : chunks size fuel ([] : List Entry) = [] := by
  cases fuel <;> rfl

theorem chunks_single {size : Nat} {entries : List Entry} (nonempty : entries ≠ []) (fits : entries.length ≤ size) :
    chunks size entries.length entries = [entries] := by
  cases entries with
  | nil => exact absurd rfl nonempty
  | cons entry rest =>
    rw [length_cons, chunks, take_of_length_le fits, drop_of_length_le fits, chunks_nil]

/-- The pages that a loaded page's sorted entries leave. -/
def rewritten (group : PageGroup Entry) : List PageMeta :=
  if group.entries = [] then [] else [groupMeta digests pages group]

theorem rewritePages_ok (maxPageEntries : Nat) (recorded : PageMeta) (group : PageGroup Entry)
    (fits : group.entries.length ≤ Nat.max maxPageEntries 1) :
    ∃ objects, rewritePages digests pages maxPageEntries recorded group.firstKey
      (chunks (Nat.max maxPageEntries 1) group.entries.length group.entries) =
        .ok (rewritten digests pages group, objects) := by
  by_cases empty : group.entries = []
  · refine ⟨[], ?_⟩
    rw [rewritten, if_pos empty, empty]
    rfl
  · rw [chunks_single empty fits, rewritten, if_neg empty, rewritePages,
      writePage_ok digests pages maxPageEntries group.firstKey fits]
    exact ⟨_, rfl⟩

end PageWrites

section Routing

variable {Entry : Type} {pages : PageEntry Entry}

theorem pageFor_eq_pageOf (dir : Directory) (key : Nat) :
    dir.pageFor key = pageOf (dir.pages.map (·.firstKey)) dir.tailFrom key := by
  rw [Directory.pageFor, pageOf, takeWhile_map, length_map]
  have empty : (dir.pages.map (·.firstKey)).isEmpty = dir.pages.isEmpty := by
    cases dir.pages <;> rfl
  rw [empty]
  rfl

theorem mem_routed {dir : Directory} {list : List Entry} {page : Option Nat} {entry : Entry} :
    entry ∈ routed pages dir list page ↔ entry ∈ list ∧ dir.pageFor (pages.key entry) = page := by
  simp [routed]

end Routing

/-- The directory records the groups of the whole list, and leaves the rest in the open page. -/
structure Described {Entry : Type} (digests : Digests) (pages : PageEntry Entry) (size : Nat) (dir : Directory)
    (whole : List Entry) (groups : List (PageGroup Entry)) (rest : List Entry) : Prop where
  layout : Layout pages.key groups rest dir.tailFrom
  recorded : dir.pages = groups.map (groupMeta digests pages)
  paged : dir.representation = .paged
  filled : ∀ group ∈ groups, group.entries ≠ []
  fits : ∀ group ∈ groups, group.entries.length ≤ size
  ascending : ∀ group ∈ groups, group.entries.Pairwise fun left right => pages.key left < pages.key right
  members : ∀ entry, entry ∈ whole ↔ entry ∈ contents groups rest
  distinct : (whole.map pages.key).Nodup
  restDistinct : (rest.map pages.key).Nodup
  emptyTail : groups = [] → dir.tailFrom = 0

/-- The directory describes the whole list. -/
def Describes {Entry : Type} (digests : Digests) (pages : PageEntry Entry) (size : Nat) (dir : Directory)
    (whole : List Entry) : Prop :=
  ∃ groups rest, Described digests pages size dir whole groups rest

namespace Described

variable {Entry : Type} {digests : Digests} {pages : PageEntry Entry} {size : Nat} {dir : Directory}
  {whole : List Entry} {groups : List (PageGroup Entry)} {rest : List Entry}

section

variable (described : Described digests pages size dir whole groups rest)

include described

theorem firstKeys : dir.pages.map (·.firstKey) = groups.map (·.firstKey) := by
  rw [described.recorded, map_map]
  rfl

theorem pageCount : dir.pages.length = groups.length := by
  rw [described.recorded, length_map]

theorem pageFor_group {index : Nat} {group : PageGroup Entry} (located : groups[index]? = some group) (entry : Entry) :
    entry ∈ whole ∧ dir.pageFor (pages.key entry) = some index ↔ entry ∈ group.entries := by
  rw [pageFor_eq_pageOf, described.firstKeys]
  exact described.layout.mem_group_iff described.members located entry

theorem pageFor_rest (entry : Entry) : entry ∈ whole ∧ dir.pageFor (pages.key entry) = none ↔ entry ∈ rest := by
  rw [pageFor_eq_pageOf, described.firstKeys]
  exact described.layout.mem_rest_iff described.members entry

end

end Described

section Reseal

variable {Entry : Type} {digests : Digests} {pages : PageEntry Entry} {maxPageEntries : Nat} {dir : Directory}
  {whole edited : List Entry} {groups : List (PageGroup Entry)} {rest : List Entry}

/-- The entries of the edited list in the open page. -/
def openEntries (pages : PageEntry Entry) (tail : Nat) (edited : List Entry) : List Entry :=
  edited.filter fun entry => tail ≤ pages.key entry

/-- The last page goes back into HEAD when the open page is empty. -/
def pulled (pages : PageEntry Entry) (tail : Nat) (edited : List Entry) (groups : List (PageGroup Entry)) : Bool :=
  pages.keepTail && (openEntries pages tail edited).isEmpty && !groups.isEmpty

/-- The groups that an edited list keeps. -/
def keptGroups (pages : PageEntry Entry) (edited : List Entry) (groups : List (PageGroup Entry)) : List (PageGroup Entry) :=
  (groups.map (regroup pages.key edited)).filter fun group => !group.entries.isEmpty

/-- What the seal of an edited list starts its open page from: kept groups, open entries and their tail. -/
structure SealBase (Entry : Type) where
  groups : List (PageGroup Entry)
  openPage : List Entry
  tail : Nat

def sealBase (pages : PageEntry Entry) (tail : Nat) (edited : List Entry) (groups : List (PageGroup Entry)) : SealBase Entry :=
  match pulled pages tail edited groups, groups.getLast? with
  | true, some last =>
    ⟨keptGroups pages edited groups.dropLast, (regroup pages.key edited last).entries,
      if groups.dropLast = [] then 0 else last.firstKey⟩
  | _, _ => ⟨keptGroups pages edited groups, sortBy pages.key (openEntries pages tail edited), tail⟩

def sealCut (pages : PageEntry Entry) (size : Nat) (sealBelow : WithTop Nat) (base : SealBase Entry) :
    List (PageGroup Entry) × List Entry :=
  openGroups pages.key size sealBelow base.openPage.length base.openPage

/-- The groups that a seal leaves. -/
def resealedGroups (pages : PageEntry Entry) (size : Nat) (sealBelow : WithTop Nat) (base : SealBase Entry) :
    List (PageGroup Entry) :=
  base.groups ++ (sealCut pages size sealBelow base).1

/-- The tail that a seal leaves. -/
def resealedTail (pages : PageEntry Entry) (size : Nat) (sealBelow : WithTop Nat) (base : SealBase Entry) : Nat :=
  if resealedGroups pages size sealBelow base = [] then 0
  else openTail pages.key base.tail (sealCut pages size sealBelow base)

/-- The loop over the sorted open page writes one page for each group that it cuts off. -/
theorem sealOpen_ok (sealBelow : WithTop Nat) (fuel : Nat) (openPage : List Entry) (tail : Nat) :
    ∃ objects, sealOpen digests pages maxPageEntries sealBelow fuel openPage tail =
      .ok ((openGroups pages.key (Nat.max maxPageEntries 1) sealBelow fuel openPage).1.map (groupMeta digests pages), objects,
        openTail pages.key tail (openGroups pages.key (Nat.max maxPageEntries 1) sealBelow fuel openPage)) := by
  induction fuel generalizing openPage tail with
  | zero => exact ⟨[], rfl⟩
  | succ fuel ih =>
    rw [sealOpen, openGroups]
    cases located : openPage[Nat.max maxPageEntries 1]? with
    | none => exact ⟨[], rfl⟩
    | some next =>
      by_cases reached : (pages.key next : WithTop Nat) ≤ sealBelow
      · obtain ⟨objects, tailSealed⟩ :=
          ih (openPage.drop (Nat.max maxPageEntries 1)) (pages.key next)
        simp only [reached, if_true]
        rw [writePage_ok digests pages maxPageEntries _ (length_take_le _ openPage), openTail_cons located]
        simp only [bind, Except.bind, tailSealed]
        exact ⟨_, rfl⟩
      · simp only [reached, if_false]
        exact ⟨[], rfl⟩

/-- What the seal finds of one recorded group: its edited entries when its page is loaded, and none otherwise. -/
structure Rebuilds (pages : PageEntry Entry) (size : Nat) (edited : List Entry) (source : Directory)
    (byPage : Nat → List Entry) (index : Nat) (group : PageGroup Entry) : Prop where
  fits : (regroup pages.key edited group).entries.length ≤ size
  found : source.isLoaded index = true → sortByKey pages (byPage index) = (regroup pages.key edited group).entries
  absent : source.isLoaded index = false → byPage index = []
  kept : source.isLoaded index = false →
    group.entries ≠ [] ∧ (regroup pages.key edited group).entries = group.entries

variable {source : Directory} {byPage : Nat → List Entry} {index : Nat} {group : PageGroup Entry}

theorem rewritten_kept {size : Nat} (rebuilds : Rebuilds pages size edited source byPage index group)
    (unloaded : source.isLoaded index = false) :
    rewritten digests pages (regroup pages.key edited group) = [groupMeta digests pages group] := by
  obtain ⟨nonempty, same⟩ := rebuilds.kept unloaded
  rw [rewritten, same, if_neg nonempty, groupMeta, same]
  rfl

/-- The pages whose flag says that they are not in memory. -/
def unflagged (pages : List PageMeta) (flags : List Bool) : List PageMeta :=
  (pages.zip flags).filterMap fun page => if page.2 then none else some page.1

theorem unflagged_append {pages others : List PageMeta} {flags otherFlags : List Bool} (sameLength : pages.length = flags.length) :
    unflagged (pages ++ others) (flags ++ otherFlags) = unflagged pages flags ++ unflagged others otherFlags := by
  rw [unflagged, zip_append sameLength, filterMap_append]
  rfl

theorem unflagged_replicate (pages : List PageMeta) : unflagged pages (List.replicate pages.length true) = [] := by
  rw [unflagged, filterMap_eq_nil_iff]
  intro page member
  have flagged := eq_of_mem_replicate (of_mem_zip member).2
  rw [flagged]
  rfl

/-- The recorded pages that a directory does not hold in memory, from an index on. -/
def unloadedFrom (source : Directory) : (start : Nat) → List PageMeta → List PageMeta
  | _, [] => []
  | start, page :: rest =>
    if source.isLoaded start then unloadedFrom source (start + 1) rest else page :: unloadedFrom source (start + 1) rest

theorem unloadedPages_eq (dir : Directory) : dir.unloadedPages = unloadedFrom dir 0 dir.pages := by
  have general : ∀ (start : Nat) (before after : List PageMeta), dir.pages = before ++ after → before.length = start →
      ((List.range' start after.length).filter fun page => !dir.isLoaded page).filterMap (fun page => dir.pages[page]?) =
        unloadedFrom dir start after := by
    intro start before after split count
    induction after generalizing start before with
    | nil => rfl
    | cons page rest ih =>
      have located : dir.pages[start]? = some page := by
        rw [split, ← count, getElem?_append_right (Nat.le_refl _), Nat.sub_self]
        rfl
      have later := ih (start + 1) (before ++ [page]) (by rw [split]; simp) (by simp [count])
      rw [length_cons, range'_succ, filter_cons, unloadedFrom]
      cases dir.isLoaded start with
      | true => simpa using later
      | false => simpa [located] using later
  rw [Directory.unloadedPages, Directory.unloaded, range_eq_range']
  exact general 0 [] dir.pages rfl rfl

theorem unloadedFrom_flags {dir : Directory} (pages : List PageMeta) (start : Nat)
    (count : (dir.loaded.drop start).length = pages.length) :
    unloadedFrom dir start pages = unflagged pages (dir.loaded.drop start) := by
  induction pages generalizing start with
  | nil => rfl
  | cons page rest ih =>
    have within : start < dir.loaded.length := by
      rw [length_drop, length_cons] at count
      omega
    have next := drop_eq_getElem_cons within
    have flag : dir.isLoaded start = dir.loaded.get ⟨start, within⟩ := by
      rw [Directory.isLoaded, getD_eq_getElem?_getD, getElem?_eq_getElem within]
      rfl
    rw [next, length_cons, length_cons, Nat.add_right_cancel_iff] at count
    rw [unloadedFrom, ih (start + 1) count, next, flag, unflagged, unflagged, zip_cons_cons,
      filterMap_cons]
    cases held : dir.loaded.get ⟨start, within⟩ with
    | true =>
      rw [get_eq_getElem] at held
      simp [held]
    | false =>
      rw [get_eq_getElem] at held
      simp [held]

theorem sealPage_ok (digests : Digests)
    (rebuilds : Rebuilds pages (Nat.max maxPageEntries 1) edited source byPage index group) (sealed : Sealed) :
    ∃ flags objects, sealPage digests pages maxPageEntries source byPage sealed (groupMeta digests pages group, index) =
      .ok { pages := sealed.pages ++ rewritten digests pages (regroup pages.key edited group)
            loaded := sealed.loaded ++ flags
            objects := sealed.objects ++ objects } ∧
      flags.length = (rewritten digests pages (regroup pages.key edited group)).length ∧
      unflagged (rewritten digests pages (regroup pages.key edited group)) flags =
        if source.isLoaded index then [] else [groupMeta digests pages group] := by
  cases loaded : source.isLoaded index with
  | true =>
    obtain ⟨objects, written⟩ := rewritePages_ok digests pages maxPageEntries (groupMeta digests pages group)
      (regroup pages.key edited group) rebuilds.fits
    refine ⟨List.replicate (rewritten digests pages (regroup pages.key edited group)).length true, objects, ?_, ?_, ?_⟩
    · have start : (groupMeta digests pages group).firstKey = (regroup pages.key edited group).firstKey := rfl
      simp only [sealPage, loaded, if_true, rebuilds.found loaded, start, written, bind, Except.bind]
      rfl
    · rw [length_replicate]
    · exact unflagged_replicate _
  | false =>
    refine ⟨[false], [], ?_, ?_, ?_⟩
    · simp only [sealPage, loaded, rebuilds.absent loaded, rewritten_kept rebuilds loaded]
      simp
    · rw [rewritten_kept rebuilds loaded]
      rfl
    · rw [rewritten_kept rebuilds loaded]
      rfl

/-- The loop over the recorded pages leaves the pages of the edited groups, and keeps the unloaded ones unloaded. -/
theorem foldlM_sealPage (start : Nat) (groups : List (PageGroup Entry))
    (rebuilds : ∀ index group, groups[index]? = some group → Rebuilds pages (Nat.max maxPageEntries 1) edited source byPage (start + index) group)
    (sealed : Sealed) : ∃ flags objects,
      ((groups.map (groupMeta digests pages)).zipIdx start).foldlM
        (sealPage digests pages maxPageEntries source byPage) sealed =
          .ok { pages := sealed.pages ++ groups.flatMap fun group => rewritten digests pages (regroup pages.key edited group)
                loaded := sealed.loaded ++ flags
                objects := sealed.objects ++ objects } ∧
      flags.length = (groups.flatMap fun group => rewritten digests pages (regroup pages.key edited group)).length ∧
      unflagged (groups.flatMap fun group => rewritten digests pages (regroup pages.key edited group)) flags =
        unloadedFrom source start (groups.map (groupMeta digests pages)) := by
  induction groups generalizing start sealed with
  | nil => exact ⟨[], [], by simp [pure, Except.pure], rfl, rfl⟩
  | cons first others ih =>
    have firstRebuilds : Rebuilds pages (Nat.max maxPageEntries 1) edited source byPage start first :=
      rebuilds 0 first rfl
    obtain ⟨firstFlags, firstObjects, firstSealed, firstLength, firstKept⟩ :=
      sealPage_ok digests firstRebuilds sealed
    obtain ⟨flags, objects, othersSealed, flagsLength, othersKept⟩ := ih (start + 1)
      (fun index group located => by
        have shifted := rebuilds (index + 1) group located
        rwa [← Nat.add_assoc, Nat.add_right_comm] at shifted)
      { pages := sealed.pages ++ rewritten digests pages (regroup pages.key edited first)
        loaded := sealed.loaded ++ firstFlags
        objects := sealed.objects ++ firstObjects }
    refine ⟨firstFlags ++ flags, firstObjects ++ objects, ?_, ?_, ?_⟩
    · rw [map_cons, zipIdx_cons, foldlM_cons, firstSealed]
      simp only [flatMap_cons, ← append_assoc]
      exact othersSealed
    · simp [firstLength, flagsLength]
    · rw [flatMap_cons, unflagged_append firstLength.symm, firstKept, othersKept, map_cons, unloadedFrom]
      split <;> rfl

/-- The part of an edited list that is in memory, under a directory with the same record. -/
structure InMemory (pages : PageEntry Entry) (dir loaded : Directory) (edited part : List Entry) : Prop where
  samePages : loaded.pages = dir.pages
  sameTail : loaded.tailFrom = dir.tailFrom
  sameRepresentation : loaded.representation = dir.representation
  members : ∀ entry, entry ∈ part ↔ entry ∈ edited ∧ loaded.inMemory (pages.key entry) = true
  distinct : (part.map pages.key).Nodup

variable {loaded : Directory} {part : List Entry} {size : Nat}

theorem InMemory.pageFor_eq (held : InMemory pages dir loaded edited part) (key : Nat) :
    loaded.pageFor key = dir.pageFor key := by
  rw [Directory.pageFor, Directory.pageFor, held.samePages, held.sameTail]

variable {index : Nat} {group : PageGroup Entry} {source : Directory} {bounds : PageBounds}

theorem pageFor_regroup (described : Described digests pages size dir whole groups rest)
    (edits : EditsAbove pages.key dir.tailFrom whole edited) (located : groups[index]? = some group) (entry : Entry) :
    entry ∈ edited ∧ dir.pageFor (pages.key entry) = some index ↔ entry ∈ (regroup pages.key edited group).entries := by
  have firstKeys : (groups.map (regroup pages.key edited)).map (·.firstKey) = groups.map (·.firstKey) := by
    rw [map_map]
    rfl
  rw [pageFor_eq_pageOf, described.firstKeys, ← firstKeys]
  apply (described.layout.regroup edited).mem_group_iff (mem_contents_regroup described.layout described.members edits)
  rw [getElem?_map, located]
  rfl

theorem pageFor_open (described : Described digests pages size dir whole groups rest)
    (edits : EditsAbove pages.key dir.tailFrom whole edited) (entry : Entry) :
    entry ∈ edited ∧ dir.pageFor (pages.key entry) = none ↔ entry ∈ openEntries pages dir.tailFrom edited := by
  have firstKeys : (groups.map (regroup pages.key edited)).map (·.firstKey) = groups.map (·.firstKey) := by
    rw [map_map]
    rfl
  rw [pageFor_eq_pageOf, described.firstKeys, ← firstKeys]
  exact (described.layout.regroup edited).mem_rest_iff (mem_contents_regroup described.layout described.members edits) entry

theorem distinct_routed (held : InMemory pages dir loaded edited part) (directory : Directory) (page : Option Nat) :
    ((routed pages directory part page).map pages.key).Nodup :=
  distinct_filter held.distinct _

theorem distinct_regroup (distinct : (edited.map pages.key).Nodup) (group : PageGroup Entry) :
    ((regroup pages.key edited group).entries.map pages.key).Nodup :=
  distinct_sortBy (distinct_filter distinct _)

theorem distinct_openEntries (distinct : (edited.map pages.key).Nodup) (tail : Nat) :
    ((openEntries pages tail edited).map pages.key).Nodup :=
  distinct_filter distinct _

theorem routed_loaded (described : Described digests pages size dir whole groups rest)
    (edits : EditsAbove pages.key dir.tailFrom whole edited) (distinct : (edited.map pages.key).Nodup)
    (held : InMemory pages dir loaded edited part) (located : groups[index]? = some group)
    (isLoaded : loaded.isLoaded index = true) :
    sortByKey pages (routed pages loaded part (some index)) = (regroup pages.key edited group).entries := by
  have foundDistinct := distinct_routed held loaded (some index)
  apply eq_of_sorted_perm (distinct_sortBy foundDistinct) (sortBy_sorted _) (sortBy_sorted _)
  apply (sortBy_perm _).trans
  apply perm_of_mem_iff foundDistinct (distinct_regroup distinct group)
  intro entry
  rw [mem_routed, ← pageFor_regroup described edits located, held.members, held.pageFor_eq,
    Directory.inMemory, held.pageFor_eq]
  constructor
  · rintro ⟨⟨member, -⟩, routed⟩
    exact ⟨member, routed⟩
  · rintro ⟨member, routed⟩
    simp [routed, member, isLoaded]

theorem routed_unloaded (held : InMemory pages dir loaded edited part) (unloaded : loaded.isLoaded index = false) :
    routed pages loaded part (some index) = [] := by
  apply eq_nil_iff_forall_not_mem.mpr
  intro entry member
  obtain ⟨inPart, routed⟩ := mem_routed.mp member
  have inMemory := ((held.members entry).mp inPart).2
  simp [Directory.inMemory, routed, unloaded] at inMemory

section

variable (described : Described digests pages size dir whole groups rest)
  (edits : EditsAbove pages.key dir.tailFrom whole edited) (distinct : (edited.map pages.key).Nodup)
  (held : InMemory pages dir loaded edited part)

include described edits distinct held

theorem routed_open : (routed pages loaded part none).Perm (openEntries pages dir.tailFrom edited) := by
  apply perm_of_mem_iff (distinct_routed held loaded none) (distinct_openEntries distinct dir.tailFrom)
  intro entry
  rw [mem_routed, ← pageFor_open described edits, held.members, held.pageFor_eq, Directory.inMemory, held.pageFor_eq]
  constructor
  · rintro ⟨⟨member, -⟩, routed⟩
    exact ⟨member, routed⟩
  · rintro ⟨member, routed⟩
    simp [routed, member]

/-- The seal finds every recorded group as the edit left it. -/
theorem rebuilds_of_inMemory
    (kept : ∀ index group, groups[index]? = some group → loaded.isLoaded index = false → (regroup pages.key edited group).entries = group.entries)
    (located : groups[index]? = some group) :
    Rebuilds pages size edited loaded (fun page => routed pages loaded part (some page)) index group where
  fits := Nat.le_trans (length_regroup_le distinct group) (described.fits group (mem_of_getElem? located))
  found isLoaded := routed_loaded described edits distinct held located isLoaded
  absent unloaded := routed_unloaded held unloaded
  kept unloaded := ⟨described.filled group (mem_of_getElem? located), kept index group located unloaded⟩

end

theorem flatMap_rewritten (groups : List (PageGroup Entry)) :
    (groups.flatMap fun group => rewritten digests pages (regroup pages.key edited group)) =
      (keptGroups pages edited groups).map (groupMeta digests pages) := by
  induction groups with
  | nil => rfl
  | cons group others ih =>
    rw [flatMap_cons, ih, keptGroups, keptGroups, map_cons, filter_cons, rewritten]
    by_cases empty : (regroup pages.key edited group).entries = []
    · simp [empty]
    · simp [empty]

theorem pullsBack_eq (described : Described digests pages size dir whole groups rest)
    (edits : EditsAbove pages.key dir.tailFrom whole edited) (distinct : (edited.map pages.key).Nodup)
    (held : InMemory pages dir loaded edited part)
    (tailLoaded : pulled pages dir.tailFrom edited groups = true → loaded.isLoaded (groups.length - 1) = true) :
    pullsBack pages loaded part = pulled pages dir.tailFrom edited groups := by
  have sameEmpty : (routed pages loaded part none).isEmpty = (openEntries pages dir.tailFrom edited).isEmpty := by
    rw [Bool.eq_iff_iff, List.isEmpty_iff, List.isEmpty_iff]
    have reordered := routed_open described edits distinct held
    constructor
    · intro empty
      rw [empty] at reordered
      exact reordered.nil_eq.symm
    · intro empty
      rw [empty] at reordered
      exact reordered.eq_nil
  have samePages : loaded.pages.isEmpty = groups.isEmpty := by
    rw [held.samePages, described.recorded]
    cases groups <;> rfl
  have sameCount : loaded.pages.length = groups.length := by rw [held.samePages, described.pageCount]
  rw [pullsBack, sameEmpty, samePages, sameCount, ← pulled]
  cases pulls : pulled pages dir.tailFrom edited groups with
  | false => rfl
  | true => rw [tailLoaded pulls, Bool.and_true]

/-- The directory that a seal leaves for the groups of a base. -/
def sealedDirectory (digests : Digests) (pages : PageEntry Entry) (size : Nat) (sealBelow : WithTop Nat)
    (base : SealBase Entry) (flags : List Bool) : Directory where
  representation := .paged
  pages := (resealedGroups pages size sealBelow base).map (groupMeta digests pages)
  tailFrom := resealedTail pages size sealBelow base
  loaded := flags

/-- Once the recorded pages are rebuilt, the open page is cut and the pages are counted. -/
theorem sealTail_spec (sealed : Sealed) (base : SealBase Entry) (sealBelow : WithTop Nat) (bounds : PageBounds)
    (basePages : sealed.pages = base.groups.map (groupMeta digests pages))
    (sameLength : sealed.loaded.length = sealed.pages.length) :
    ∃ flags objects,
      sealTail digests pages sealed base.openPage base.tail sealBelow bounds =
        (if bounds.maxIndexPages < (resealedGroups pages (Nat.max bounds.maxPageEntries 1) sealBelow base).length then
          .error (.directoryFull pages.list bounds.maxIndexPages)
        else .ok (sealedDirectory digests pages (Nat.max bounds.maxPageEntries 1) sealBelow base flags, objects)) ∧
      (sealedDirectory digests pages (Nat.max bounds.maxPageEntries 1) sealBelow base flags).unloadedPages =
        unflagged sealed.pages sealed.loaded := by
  obtain ⟨objects, opened⟩ :=
    @sealOpen_ok Entry digests pages bounds.maxPageEntries sealBelow base.openPage.length base.openPage base.tail
  have metas : sealed.pages ++ (sealCut pages (Nat.max bounds.maxPageEntries 1) sealBelow base).1.map
      (groupMeta digests pages) =
      (resealedGroups pages (Nat.max bounds.maxPageEntries 1) sealBelow base).map (groupMeta digests pages) := by
    rw [basePages, resealedGroups, map_append]
  have empty : ((resealedGroups pages (Nat.max bounds.maxPageEntries 1) sealBelow base).map
      (groupMeta digests pages)).isEmpty = true ↔
      resealedGroups pages (Nat.max bounds.maxPageEntries 1) sealBelow base = [] := by
    rw [List.isEmpty_iff, map_eq_nil_iff]
  refine ⟨sealed.loaded ++ List.replicate (sealCut pages (Nat.max bounds.maxPageEntries 1) sealBelow base).1.length true,
    sealed.objects ++ objects, ?_, ?_⟩
  · rw [sealTail, opened, ← sealCut]
    simp only [bind, Except.bind, metas, length_map, empty, sealedDirectory, resealedTail]
  · have cutFlags : (sealCut pages (Nat.max bounds.maxPageEntries 1) sealBelow base).1.length =
        ((sealCut pages (Nat.max bounds.maxPageEntries 1) sealBelow base).1.map (groupMeta digests pages)).length := by
      rw [length_map]
    rw [unloadedPages_eq, unloadedFrom_flags _ 0, drop_zero]
    · show unflagged ((resealedGroups pages (Nat.max bounds.maxPageEntries 1) sealBelow base).map (groupMeta digests pages)) _ = _
      rw [← metas, sealedDirectory, unflagged_append sameLength.symm, cutFlags, unflagged_replicate, append_nil]
    · rw [drop_zero]
      show (sealed.loaded ++ _).length = ((resealedGroups _ _ _ _).map _).length
      rw [length_append, length_replicate, sameLength, ← metas, length_append, ← cutFlags]

theorem withoutLast_isLoaded (within : index < source.pages.length - 1) :
    (withoutLast source).isLoaded index = source.isLoaded index := by
  rw [Directory.isLoaded, Directory.isLoaded, withoutLast, getD_eq_getElem?_getD, getD_eq_getElem?_getD,
    getElem?_take_of_lt within]

/-- A group of the list without its last one, at the same place. -/
theorem getElem?_dropLast_some {groups : List (PageGroup Entry)} (located : groups.dropLast[index]? = some group) :
    groups[index]? = some group ∧ index < groups.length - 1 := by
  obtain ⟨bound, atIndex⟩ := List.getElem?_eq_some_iff.mp located
  rw [length_dropLast] at bound
  refine ⟨?_, bound⟩
  rw [getElem_dropLast] at atIndex
  rw [← atIndex]
  exact getElem?_eq_getElem (by omega)

/-- What a seal needs of the list in memory: every change is in memory, and so is a page that goes back into HEAD. -/
structure Sealable (digests : Digests) (pages : PageEntry Entry) (size : Nat) (dir loaded : Directory)
    (whole edited part : List Entry) (groups : List (PageGroup Entry)) (rest : List Entry) : Prop where
  described : Described digests pages size dir whole groups rest
  edits : EditsAbove pages.key dir.tailFrom whole edited
  distinct : (edited.map pages.key).Nodup
  held : InMemory pages dir loaded edited part
  kept : ∀ index group, groups[index]? = some group → loaded.isLoaded index = false →
    (regroup pages.key edited group).entries = group.entries
  tailLoaded : pulled pages dir.tailFrom edited groups = true → loaded.isLoaded (groups.length - 1) = true

/-- The outcome of a seal: the directory of the base's groups, with the given pages not in memory. -/
def SealsTo (digests : Digests) (pages : PageEntry Entry) (bounds : PageBounds) (sealBelow : WithTop Nat)
    (base : SealBase Entry) (unloaded : List PageMeta) (outcome : Except PageError (Directory × List PageObject)) : Prop :=
  ∃ flags objects,
    outcome =
      (if bounds.maxIndexPages < (resealedGroups pages (Nat.max bounds.maxPageEntries 1) sealBelow base).length then
        .error (.directoryFull pages.list bounds.maxIndexPages)
      else .ok (sealedDirectory digests pages (Nat.max bounds.maxPageEntries 1) sealBelow base flags, objects)) ∧
    (sealedDirectory digests pages (Nat.max bounds.maxPageEntries 1) sealBelow base flags).unloadedPages = unloaded

/-- A seal that keeps every recorded page. -/
theorem sealDirectory_kept
    (sealable : Sealable digests pages (Nat.max bounds.maxPageEntries 1) dir loaded whole edited part groups rest)
    (stays : pulled pages dir.tailFrom edited groups = false) (sealBelow : WithTop Nat) :
    SealsTo digests pages bounds sealBelow (sealBase pages dir.tailFrom edited groups) loaded.unloadedPages
      (sealDirectory digests pages loaded part sealBelow bounds) := by
  obtain ⟨described, edits, distinct, held, kept, tailLoaded⟩ := sealable
  have routing : sealSource loaded = loaded := by
    rw [sealSource, held.sameRepresentation, described.paged]
  have recorded : loaded.pages = groups.map (groupMeta digests pages) := by rw [held.samePages, described.recorded]
  have base : sealBase pages dir.tailFrom edited groups =
      ⟨keptGroups pages edited groups, sortBy pages.key (openEntries pages dir.tailFrom edited), dir.tailFrom⟩ := by
    rw [sealBase, stays]
  obtain ⟨flags, objects, rebuilt, flagCount, unloaded⟩ := foldlM_sealPage 0 groups
    (fun index group located => by simpa using rebuilds_of_inMemory described edits distinct held kept located) {}
  have opened : sortByKey pages (routed pages loaded part none) =
      sortBy pages.key (openEntries pages dir.tailFrom edited) :=
    sortBy_eq_of_perm (distinct_routed held loaded none) (routed_open described edits distinct held)
  obtain ⟨allFlags, allObjects, outcome, allUnloaded⟩ := sealTail_spec
    { pages := groups.flatMap fun group => rewritten digests pages (regroup pages.key edited group)
      loaded := flags
      objects := objects } (sealBase pages dir.tailFrom edited groups) sealBelow bounds
    (by rw [flatMap_rewritten, base]) flagCount
  refine ⟨allFlags, allObjects, ?_, ?_⟩
  · rw [sealDirectory, routing, pullsBack_eq described edits distinct held tailLoaded, stays]
    simp only [Bool.false_eq_true, if_false]
    rw [recorded, rebuilt, opened, held.sameTail]
    simp only [nil_append]
    rw [base] at outcome ⊢
    exact outcome
  · rw [allUnloaded, unloaded, unloadedPages_eq, recorded]

theorem unloadedFrom_withoutLast
    (count : ∀ index, index < source.pages.length - 1 → (withoutLast source).isLoaded index = source.isLoaded index)
    (kept : List PageMeta) (start : Nat) (within : start + kept.length ≤ source.pages.length - 1) :
    unloadedFrom (withoutLast source) start kept = unloadedFrom source start kept := by
  induction kept generalizing start with
  | nil => rfl
  | cons page rest ih =>
    rw [length_cons] at within
    rw [unloadedFrom, unloadedFrom, count start (by omega), ih (start + 1) (by omega)]

theorem unloadedFrom_concat (source : Directory) (kept : List PageMeta) (last : PageMeta) (start : Nat)
    (lastLoaded : source.isLoaded (start + kept.length) = true) :
    unloadedFrom source start (kept ++ [last]) = unloadedFrom source start kept := by
  induction kept generalizing start with
  | nil =>
    rw [length_nil, Nat.add_zero] at lastLoaded
    rw [nil_append]
    simp only [unloadedFrom, lastLoaded, if_true]
  | cons page rest ih =>
    rw [length_cons, ← Nat.add_assoc, Nat.add_right_comm] at lastLoaded
    rw [cons_append, unloadedFrom, unloadedFrom, ih (start + 1) lastLoaded]

/-- A seal that puts the last recorded page back into HEAD. -/
theorem sealDirectory_pulled
    (sealable : Sealable digests pages (Nat.max bounds.maxPageEntries 1) dir loaded whole edited part groups rest)
    (pulls : pulled pages dir.tailFrom edited groups = true) (sealBelow : WithTop Nat) :
    SealsTo digests pages bounds sealBelow (sealBase pages dir.tailFrom edited groups) loaded.unloadedPages
      (sealDirectory digests pages loaded part sealBelow bounds) := by
  obtain ⟨described, edits, distinct, held, kept, tailLoaded⟩ := sealable
  have routing : sealSource loaded = loaded := by
    rw [sealSource, held.sameRepresentation, described.paged]
  have recorded : loaded.pages = groups.map (groupMeta digests pages) := by rw [held.samePages, described.recorded]
  have count : loaded.pages.length = groups.length := by rw [recorded, length_map]
  have nonempty : groups ≠ [] := by
    intro empty
    rw [empty, pulled] at pulls
    simp at pulls
  obtain ⟨last, lastAt⟩ : ∃ last, groups.getLast? = some last := ⟨_, getLast?_eq_some_getLast nonempty⟩
  have base : sealBase pages dir.tailFrom edited groups =
      ⟨keptGroups pages edited groups.dropLast, (regroup pages.key edited last).entries,
        if groups.dropLast = [] then 0 else last.firstKey⟩ := by
    rw [sealBase, pulls, lastAt]
  have lastLocated : groups[groups.length - 1]? = some last := by rw [← getLast?_eq_getElem?, lastAt]
  have sameFlags : ∀ index, index < loaded.pages.length - 1 → (withoutLast loaded).isLoaded index = loaded.isLoaded index :=
    fun index within => withoutLast_isLoaded within
  obtain ⟨flags, objects, rebuilt, flagCount, unloaded⟩ := foldlM_sealPage 0 groups.dropLast
    (fun index group located => by
      obtain ⟨inGroups, within⟩ := getElem?_dropLast_some located
      have same : (withoutLast loaded).isLoaded (0 + index) = loaded.isLoaded index := by
        rw [Nat.zero_add]
        exact sameFlags index (by rw [count]; exact within)
      have whole := rebuilds_of_inMemory described edits distinct held kept inGroups
      exact ⟨whole.fits, fun isLoaded => by rw [same] at isLoaded; simpa using whole.found isLoaded,
        fun notLoaded => by rw [same] at notLoaded; simpa using whole.absent notLoaded,
        fun notLoaded => whole.kept (by rw [same] at notLoaded; exact notLoaded)⟩) {}
  have opened : sortByKey pages (routed pages loaded part (some (loaded.pages.length - 1))) =
      (regroup pages.key edited last).entries := by
    rw [count]
    exact routed_loaded described edits distinct held lastLocated (tailLoaded pulls)
  obtain ⟨allFlags, allObjects, outcome, allUnloaded⟩ := sealTail_spec
    { pages := groups.dropLast.flatMap fun group => rewritten digests pages (regroup pages.key edited group)
      loaded := flags
      objects := objects } (sealBase pages dir.tailFrom edited groups) sealBelow bounds
    (by rw [flatMap_rewritten, base]) flagCount
  refine ⟨allFlags, allObjects, ?_, ?_⟩
  · have sourcePages : (withoutLast loaded).pages = groups.dropLast.map (groupMeta digests pages) := by
      rw [withoutLast, recorded, map_dropLast]
    have sourceTail : (withoutLast loaded).tailFrom = if groups.dropLast = [] then 0 else last.firstKey := by
      have lastPage : loaded.pages.getLast? = some (groupMeta digests pages last) := by
        rw [recorded, getLast?_map, lastAt]
        rfl
      have emptied : loaded.pages.length - 1 = 0 ↔ groups.dropLast = [] := by
        rw [count, ← length_dropLast, length_eq_zero_iff]
      simp only [withoutLast, lastPage, emptied]
      rfl
    rw [sealDirectory, routing, pullsBack_eq described edits distinct held tailLoaded, pulls]
    simp only [if_true]
    rw [sourcePages, rebuilt, opened, sourceTail]
    simp only [nil_append]
    rw [base] at outcome ⊢
    exact outcome
  · have lastLoaded : loaded.isLoaded (0 + (groups.dropLast.map (groupMeta digests pages)).length) = true := by
      rw [Nat.zero_add, length_map, length_dropLast]
      exact tailLoaded pulls
    have split : groups.map (groupMeta digests pages) =
        groups.dropLast.map (groupMeta digests pages) ++ [groupMeta digests pages last] := by
      obtain ⟨initial, rfl⟩ := getLast?_eq_some_iff.mp lastAt
      rw [dropLast_concat, map_append, map_singleton]
    have within : 0 + (groups.dropLast.map (groupMeta digests pages)).length ≤ loaded.pages.length - 1 := by
      rw [Nat.zero_add, length_map, length_dropLast, count]
    rw [allUnloaded, unloaded, unloadedFrom_withoutLast sameFlags _ 0 within, unloadedPages_eq, recorded, split,
      unloadedFrom_concat loaded _ _ 0 lastLoaded]

/-- The outcome of a seal does not depend on the pages in memory, and an unloaded page stays unloaded. -/
theorem sealDirectory_spec
    (sealable : Sealable digests pages (Nat.max bounds.maxPageEntries 1) dir loaded whole edited part groups rest)
    (sealBelow : WithTop Nat) :
    SealsTo digests pages bounds sealBelow (sealBase pages dir.tailFrom edited groups) loaded.unloadedPages
      (sealDirectory digests pages loaded part sealBelow bounds) := by
  cases pulls : pulled pages dir.tailFrom edited groups with
  | false => exact sealDirectory_kept sealable pulls sealBelow
  | true => exact sealDirectory_pulled sealable pulls sealBelow

theorem mem_keptGroups (member : group ∈ keptGroups pages edited groups) :
    ∃ old ∈ groups, group = regroup pages.key edited old ∧ group.entries ≠ [] := by
  obtain ⟨inMap, nonempty⟩ := mem_filter.mp member
  obtain ⟨old, oldIn, rfl⟩ := mem_map.mp inMap
  refine ⟨old, oldIn, rfl, ?_⟩
  simpa using nonempty

theorem contents_keptGroups (groups : List (PageGroup Entry)) (openPage : List Entry) :
    contents (keptGroups pages edited groups) openPage = contents (groups.map (regroup pages.key edited)) openPage := by
  rw [contents, contents]
  congr 1
  induction groups with
  | nil => rfl
  | cons group others ih =>
    rw [keptGroups, map_cons, filter_cons, flatMap_cons, ← ih, keptGroups]
    by_cases empty : (regroup pages.key edited group).entries = []
    · simp [empty]
    · simp [empty]

/-- The base of a seal lays out the edited list, with its open page in key order. -/
structure BaseLaidOut (pages : PageEntry Entry) (size : Nat) (edited : List Entry) (base : SealBase Entry) : Prop where
  layout : Layout pages.key base.groups base.openPage base.tail
  members : ∀ entry, entry ∈ edited ↔ entry ∈ contents base.groups base.openPage
  filled : ∀ group ∈ base.groups, group.entries ≠ []
  fits : ∀ group ∈ base.groups, group.entries.length ≤ size
  ascending : ∀ group ∈ base.groups, group.entries.Pairwise fun left right => pages.key left < pages.key right
  openAscending : base.openPage.Pairwise fun left right => pages.key left < pages.key right

theorem keptGroups_facts (described : Described digests pages size dir whole groups rest)
    (distinct : (edited.map pages.key).Nodup) {kept : List (PageGroup Entry)} (within : ∀ group ∈ kept, group ∈ groups) :
    ∀ group ∈ keptGroups pages edited kept, group.entries ≠ [] ∧ group.entries.length ≤ size ∧
      group.entries.Pairwise fun left right => pages.key left < pages.key right := by
  intro group member
  obtain ⟨old, oldIn, rfl, nonempty⟩ := mem_keptGroups member
  refine ⟨nonempty, ?_, ascending_of_sorted (distinct_regroup distinct old) (sortBy_sorted _)⟩
  exact Nat.le_trans (length_regroup_le distinct old) (described.fits old (within old oldIn))

theorem baseLaidOut (described : Described digests pages size dir whole groups rest)
    (edits : EditsAbove pages.key dir.tailFrom whole edited) (distinct : (edited.map pages.key).Nodup) :
    BaseLaidOut pages size edited (sealBase pages dir.tailFrom edited groups) := by
  have regrouped := described.layout.regroup edited
  have members := mem_contents_regroup described.layout described.members edits
  rw [sealBase]
  split
  · rename_i last pulls lastAt
    have facts := keptGroups_facts described distinct (fun group member => (dropLast_sublist groups).subset member)
    obtain ⟨initial, rfl⟩ : ∃ initial, groups = initial ++ [last] := by
      obtain ⟨initial, eq⟩ := getLast?_eq_some_iff.mp lastAt
      exact ⟨initial, eq⟩
    have noneOpen : openEntries pages dir.tailFrom edited = [] := by
      simp only [pulled, Bool.and_eq_true] at pulls
      exact List.isEmpty_iff.mp pulls.1.2
    rw [map_append, map_singleton] at regrouped members
    have pulledLayout := regrouped.pullBack
    simp only [map_eq_nil_iff] at pulledLayout
    rw [dropLast_concat] at facts ⊢
    refine ⟨pulledLayout.of_sublist filter_sublist, ?_, fun group member => (facts group member).1,
      fun group member => (facts group member).2.1, fun group member => (facts group member).2.2, ?_⟩
    · intro entry
      rw [members, contents_keptGroups, contents, contents, flatMap_append]
      have openNil : (edited.filter fun entry => decide (dir.tailFrom ≤ pages.key entry)) = [] := noneOpen
      rw [openNil]
      simp
    · exact ascending_of_sorted (distinct_regroup distinct last) (sortBy_sorted _)
  · have facts := keptGroups_facts described distinct (fun group member => member)
    have openLayout : Layout pages.key (groups.map (regroup pages.key edited))
        (sortBy pages.key (openEntries pages dir.tailFrom edited)) dir.tailFrom :=
      { regrouped with behind := fun entry member => regrouped.behind entry (mem_sortBy.mp member) }
    refine ⟨openLayout.of_sublist filter_sublist, ?_, fun group member => (facts group member).1,
      fun group member => (facts group member).2.1, fun group member => (facts group member).2.2, ?_⟩
    · intro entry
      rw [members, contents_keptGroups, contents, contents, mem_append, mem_append, mem_sortBy]
      rfl
    · exact ascending_of_sorted (distinct_sortBy (distinct_openEntries distinct dir.tailFrom)) (sortBy_sorted _)

theorem described_sealed {base : SealBase Entry} (laidOut : BaseLaidOut pages size edited base)
    (distinct : (edited.map pages.key).Nodup) (positive : 0 < size) (sealBelow : WithTop Nat) (flags : List Bool) :
    Described digests pages size (sealedDirectory digests pages size sealBelow base flags) edited
      (resealedGroups pages size sealBelow base) (sealCut pages size sealBelow base).2 := by
  have cutLayout : Layout pages.key (resealedGroups pages size sealBelow base) (sealCut pages size sealBelow base).2
      (openTail pages.key base.tail (sealCut pages size sealBelow base)) :=
    laidOut.layout.openGroups base.openPage.length laidOut.openAscending positive
  have restAscending := laidOut.openAscending.sublist
    (@openGroups_rest_sublist Entry pages.key size sealBelow base.openPage.length base.openPage)
  have restDistinct : ((sealCut pages size sealBelow base).2.map pages.key).Nodup := by
    rw [Nodup, pairwise_map]
    exact restAscending.imp Nat.ne_of_lt
  refine ⟨?_, rfl, rfl, ?_, ?_, ?_, ?_, distinct, restDistinct, ?_⟩
  · show Layout pages.key _ _ (resealedTail pages size sealBelow base)
    rw [resealedTail]
    split
    · rename_i empty
      rw [empty]
      exact ⟨List.Pairwise.nil, by simp, by simp, fun _ _ => Nat.zero_le _⟩
    · exact cutLayout
  · intro group member
    rcases mem_append.mp member with kept | cut
    · exact laidOut.filled group kept
    · have := openGroups_entries base.openPage.length base.openPage group cut
      intro empty
      rw [empty, length_nil] at this
      omega
  · intro group member
    rcases mem_append.mp member with kept | cut
    · exact laidOut.fits group kept
    · exact Nat.le_of_eq (openGroups_entries base.openPage.length base.openPage group cut)
  · intro group member
    rcases mem_append.mp member with kept | cut
    · exact laidOut.ascending group kept
    · exact laidOut.openAscending.sublist (openGroups_sublist base.openPage.length base.openPage group cut)
  · intro entry
    have cutContents := @contents_openGroups Entry pages.key size sealBelow base.openPage.length base.openPage
    rw [laidOut.members, resealedGroups, sealCut, contents, contents, flatMap_append, append_assoc]
    rw [contents] at cutContents
    rw [cutContents]
  · intro empty
    show resealedTail pages size sealBelow base = 0
    rw [resealedTail, if_pos empty]

end Reseal

end Ravel.Agents
