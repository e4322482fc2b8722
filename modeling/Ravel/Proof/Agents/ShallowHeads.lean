import Ravel.Proof.Agents.InputConservation
import Ravel.Proof.Agents.Refusals

namespace Ravel.Agents

open List Library

section Attachments

variable {Entry : Type} {pages : PageEntry Entry} {dir loaded : Directory} {whole part : List Entry} {page : Nat}

theorem noneLoaded_inMemory (dir : Directory) (key : Nat) : dir.noneLoaded.inMemory key = dir.isInline key := by
  have sameRoute : dir.noneLoaded.pageFor key = dir.pageFor key := rfl
  rw [Directory.inMemory, Directory.isInline, sameRoute]
  cases dir.pageFor key with
  | none => rfl
  | some page =>
    show (List.replicate dir.pages.length false).getD page false = false
    rw [getD_eq_getElem?_getD, getElem?_replicate]
    split <;> rfl

/-- The open page alone is a list in memory. -/
theorem inlineEntries_loads (pages : PageEntry Entry) (dir : Directory) (whole : List Entry) :
    ListLoads pages dir dir.noneLoaded whole (Encoded.inlineEntries pages dir whole) := by
  refine ⟨⟨rfl, rfl, rfl⟩, ?_⟩
  rw [Encoded.inlineEntries]
  simp only [noneLoaded_inMemory]
  exact Perm.refl _

theorem markLoaded_isLoaded (within : page < dir.pages.length) (other : Nat) :
    (dir.markLoaded page).isLoaded other = (decide (other = page) || dir.isLoaded other) := by
  rw [Directory.isLoaded, Directory.markLoaded, Directory.isLoaded, getD_eq_getElem?_getD, getD_eq_getElem?_getD,
    getElem?_set]
  by_cases same : page = other
  · have inRange : page < (dir.loaded ++ List.replicate (dir.pages.length - dir.loaded.length) false).length := by
      rw [length_append, length_replicate]
      omega
    rw [if_pos same, if_pos inRange]
    simp [same]
  · have differs : ¬other = page := fun isPage => same isPage.symm
    simp only [same, differs, if_false, decide_false, Bool.false_or]
    by_cases recorded : other < dir.loaded.length
    · rw [getElem?_append_left recorded]
    · rw [getElem?_append_right (Nat.le_of_not_lt recorded), getElem?_replicate,
        getElem?_eq_none (Nat.le_of_not_lt recorded)]
      split <;> rfl

theorem markLoaded_inMemory (within : page < dir.pages.length) (key : Nat) :
    (dir.markLoaded page).inMemory key = (dir.inMemory key || decide (dir.pageFor key = some page)) := by
  have sameRoute : (dir.markLoaded page).pageFor key = dir.pageFor key := rfl
  rw [Directory.inMemory, Directory.inMemory, sameRoute]
  cases dir.pageFor key with
  | none => rfl
  | some other =>
    dsimp only
    rw [markLoaded_isLoaded within, Bool.or_comm]
    simp

theorem attachTo_loads (loads : ListLoads pages dir loaded whole part) (within : page < dir.pages.length) :
    ListLoads pages dir (attachTo pages dir whole loaded part page).1 whole (attachTo pages dir whole loaded part page).2 := by
  rw [attachTo, attach]
  split
  · exact loads
  · rename_i unloaded
    refine ⟨loads.sameRecord, ?_⟩
    have inRange : page < loaded.pages.length := by rw [loads.sameRecord.1]; exact within
    have apart : ∀ entry ∈ whole, loaded.inMemory (pages.key entry) = true →
        decide (dir.pageFor (pages.key entry) = some page) = true → False := by
      intro entry _ held ofPage
      rw [Directory.inMemory, loads.pageFor_eq, of_decide_eq_true ofPage] at held
      exact unloaded held
    have split := filter_or_perm whole apart
    simp only [markLoaded_inMemory inRange, loads.pageFor_eq]
    refine (sortBy_perm _).trans (Perm.trans ?_ split)
    exact loads.reordered.append (sortBy_perm _)

theorem attachTo_isLoaded (loads : ListLoads pages dir loaded whole part) (within : page < dir.pages.length) (other : Nat) :
    (attachTo pages dir whole loaded part page).1.isLoaded other = (decide (other = page) || loaded.isLoaded other) := by
  rw [attachTo, attach]
  split
  · rename_i isLoaded
    by_cases same : other = page
    · rw [same, isLoaded]
      simp
    · simp [same]
  · exact markLoaded_isLoaded (by rw [loads.sameRecord.1]; exact within) other

theorem attachTo_inOrder (distinct : ((attachTo pages dir whole loaded part page).2.map pages.key).Nodup)
    (inOrder : part.Pairwise fun left right => pages.key left < pages.key right) :
    (attachTo pages dir whole loaded part page).2.Pairwise fun left right => pages.key left < pages.key right := by
  rw [attachTo, attach] at distinct ⊢
  split at distinct
  · rename_i isLoaded
    rw [if_pos isLoaded]
    exact inOrder
  · rename_i unloaded
    rw [if_neg unloaded]
    exact ascending_of_sorted distinct (sortBy_sorted _)

theorem ListLoads.distinct (loads : ListLoads pages dir loaded whole part) (distinct : (whole.map pages.key).Nodup) :
    (part.map pages.key).Nodup :=
  ((loads.reordered.map pages.key).nodup_iff).mpr (distinct_filter distinct _)

end Attachments

section Heads

variable {digests : Digests} {limits : Limits} {root : Head} {lists : Lists}

theorem shallow_loads (inv : RootInv digests limits root) : Loads digests root (root.shallow digests) where
  inbox := inlineEntries_loads _ _ _
  receipts := inlineEntries_loads _ _ _
  results := inlineEntries_loads _ _ _
  events := inlineEntries_loads _ _ _
  timers := inlineEntries_loads _ _ _
  inOrder := inv.paged.inOrder.sublist filter_sublist

theorem attachPage_loads (inv : RootInv digests limits root) (loads : Loads digests root lists) {page : ListKind × Nat}
    (within : page.2 < (root.index.directory page.1).pages.length) :
    Loads digests root (attachPage digests root lists page) := by
  obtain ⟨list, page⟩ := page
  cases list with
  | inbox =>
    have attached := attachTo_loads loads.inbox within
    refine { loads with inbox := attached, inOrder := ?_ }
    exact attachTo_inOrder (attached.distinct inv.tracked.inbox_distinct) loads.inOrder
  | receipts => exact { loads with receipts := attachTo_loads loads.receipts within }
  | results => exact { loads with results := attachTo_loads loads.results within }
  | events => exact { loads with events := attachTo_loads loads.events within }
  | timers => exact { loads with timers := attachTo_loads loads.timers within }

/-- An attached page is in memory, and the pages that were stay there. -/
theorem attachPage_isLoaded (loads : Loads digests root lists) {page : ListKind × Nat}
    (within : page.2 < (root.index.directory page.1).pages.length) (list : ListKind) (other : Nat)
    (isLoaded : (list, other) = page ∨ (lists.index.directory list).isLoaded other = true) :
    ((attachPage digests root lists page).index.directory list).isLoaded other = true := by
  obtain ⟨kind, page⟩ := page
  have attached : (decide (other = page) || (lists.index.directory kind).isLoaded other) = true →
      ((attachPage digests root lists (kind, page)).index.directory kind).isLoaded other = true := by
    intro wasLoaded
    cases kind with
    | inbox => exact (attachTo_isLoaded loads.inbox within other).trans wasLoaded
    | receipts => exact (attachTo_isLoaded loads.receipts within other).trans wasLoaded
    | results => exact (attachTo_isLoaded loads.results within other).trans wasLoaded
    | events => exact (attachTo_isLoaded loads.events within other).trans wasLoaded
    | timers => exact (attachTo_isLoaded loads.timers within other).trans wasLoaded
  by_cases same : list = kind
  · rw [same] at isLoaded ⊢
    apply attached
    rcases isLoaded with isPage | wasLoaded
    · rw [(Prod.mk.inj isPage).2]
      simp
    · rw [wasLoaded, Bool.or_true]
  · rcases isLoaded with isPage | wasLoaded
    · exact absurd (Prod.mk.inj isPage).1 same
    · rw [← wasLoaded]
      cases list <;> cases kind <;> first | exact absurd rfl same | rfl

/-- The HEAD with the given pages attached is one of the root, with those pages in memory. -/
theorem attachPages_spec (inv : RootInv digests limits root) (needed : List (ListKind × Nat))
    (within : ∀ page ∈ needed, page.2 < (root.index.directory page.1).pages.length) :
    Loads digests root (attachPages digests root needed) ∧ ∀ page ∈ needed,
      ((attachPages digests root needed).index.directory page.1).isLoaded page.2 = true := by
  have attached : ∀ (others : List (ListKind × Nat)) (lists : Lists), Loads digests root lists →
      (∀ page ∈ others, page.2 < (root.index.directory page.1).pages.length) →
      Loads digests root (others.foldl (attachPage digests root) lists) ∧
        ∀ page, (page ∈ others ∨ (lists.index.directory page.1).isLoaded page.2 = true) →
          ((others.foldl (attachPage digests root) lists).index.directory page.1).isLoaded page.2 = true := by
    intro others
    induction others with
    | nil =>
      intro lists loads _
      refine ⟨loads, ?_⟩
      intro page isLoaded
      exact isLoaded.resolve_left (by rintro ⟨⟩)
    | cons first rest ih =>
      intro lists loads inRange
      have firstWithin := inRange first mem_cons_self
      obtain ⟨later, held⟩ := ih (attachPage digests root lists first) (attachPage_loads inv loads firstWithin)
        fun page member => inRange page (mem_cons_of_mem first member)
      refine ⟨later, ?_⟩
      intro page isLoaded
      apply held page
      rcases isLoaded with member | wasLoaded
      · rcases mem_cons.mp member with rfl | inRest
        · exact .inr (attachPage_isLoaded loads firstWithin page.1 page.2 (.inl rfl))
        · exact .inl inRest
      · exact .inr (attachPage_isLoaded loads firstWithin page.1 page.2 (.inr wasLoaded))
  obtain ⟨loads, held⟩ := attached needed (root.shallow digests) (shallow_loads inv) within
  exact ⟨loads, fun page member => held page (.inl member)⟩

end Heads

section Needs

variable {digests : Digests} {limits : Limits} {root : Head}

/-- The pages of one list join those that are already named. -/
theorem mem_foldl_named {list : ListKind} (named : List Nat) (needed : List (ListKind × Nat)) (page : ListKind × Nat) :
    page ∈ named.foldl (fun needed page => if needed.contains (list, page) then needed else needed ++ [(list, page)]) needed ↔
      page ∈ needed ∨ page.1 = list ∧ page.2 ∈ named := by
  induction named generalizing needed with
  | nil => simp
  | cons first rest ih =>
    rw [foldl_cons, ih]
    obtain ⟨kind, index⟩ := page
    split
    · rename_i listed
      have isListed : (list, first) ∈ needed := by simpa using listed
      constructor
      · rintro (old | ⟨rfl, inRest⟩)
        · exact .inl old
        · exact .inr ⟨rfl, mem_cons_of_mem first inRest⟩
      · rintro (old | ⟨rfl, member⟩)
        · exact .inl old
        · rcases mem_cons.mp member with rfl | inRest
          · exact .inl isListed
          · exact .inr ⟨rfl, inRest⟩
    · simp only [mem_append, mem_singleton, Prod.mk.injEq, mem_cons]
      tauto

theorem mem_pagesNeeded {head : Head} {command : Command} {page : ListKind × Nat} :
    page ∈ pagesNeeded digests (some head) command ↔
      ∃ need ∈ pageNeeds digests head command, page.1 = need.1 ∧ page.2 ∈ (head.index.directory need.1).missing need.2 := by
  have named : ∀ (needs : List (ListKind × Need)) (needed : List (ListKind × Nat)),
      page ∈ needs.foldl (fun needed need => ((head.index.directory need.1).missing need.2).foldl (fun needed page =>
        if needed.contains (need.1, page) then needed else needed ++ [(need.1, page)]) needed) needed ↔
        page ∈ needed ∨ ∃ need ∈ needs, page.1 = need.1 ∧ page.2 ∈ (head.index.directory need.1).missing need.2 := by
    intro needs
    induction needs with
    | nil => simp
    | cons need rest ih =>
      intro needed
      rw [foldl_cons, ih, mem_foldl_named]
      simp only [mem_cons, exists_eq_or_imp, or_assoc]
  rw [pagesNeeded, named]
  simp

theorem pagesRead_of_named {head : Head} {command : Command} (none : pagesNeeded digests (some head) command = []) :
    PagesRead digests head command := by
  intro need reads
  rw [eq_nil_iff_forall_not_mem]
  intro page missing
  have named : (need.1, page) ∈ pagesNeeded digests (some head) command := mem_pagesNeeded.mpr ⟨need, reads, rfl, missing⟩
  rw [none] at named
  cases named

theorem isInline_of_loads {Entry : Type} {pages : PageEntry Entry} {dir loaded : Directory} {whole part : List Entry}
    (loads : ListLoads pages dir loaded whole part) (key : Nat) : loaded.isInline key = dir.isInline key := by
  rw [Directory.isInline, Directory.isInline, loads.pageFor_eq]

/-- The open page is in memory, whichever pages are. -/
theorem inlineCount_of_loads {Entry : Type} {pages : PageEntry Entry} {dir loaded : Directory} {whole part : List Entry}
    (loads : ListLoads pages dir loaded whole part) :
    part.countP (fun entry => loaded.isInline (pages.key entry)) = whole.countP fun entry => dir.isInline (pages.key entry) := by
  rw [loads.reordered.countP_eq, countP_filter]
  apply countP_congr
  intro entry _
  rw [isInline_of_loads loads, Directory.inMemory, loads.pageFor_eq, Directory.isInline]
  cases dir.pageFor (pages.key entry) <;> simp

/-- What a command reads does not depend on the pages in memory. -/
theorem pageNeeds_holding {left right : Lists} (leftLoads : Loads digests root left) (rightLoads : Loads digests root right)
    (command : Command) :
    pageNeeds digests (root.holding left) command = pageNeeds digests (root.holding right) command := by
  have pulled : ∀ {lists : Lists}, Loads digests root lists → ∀ acceptSeq,
      pullBackNeeds (root.holding lists) acceptSeq = pullBackNeeds root acceptSeq := by
    intro lists loads acceptSeq
    have inlineCount := inlineCount_of_loads loads.inbox
    have isInline := isInline_of_loads loads.inbox acceptSeq
    have record := loads.inbox.sameRecord
    have count : lists.inbox.countP (fun entry => lists.index.inbox.isInline entry.acceptSeq) =
        root.inbox.countP fun entry => root.index.inbox.isInline entry.acceptSeq := inlineCount
    rw [pullBackNeeds, pullBackNeeds]
    show (if !lists.index.inbox.pages.isEmpty && lists.index.inbox.isInline acceptSeq &&
      decide (lists.inbox.countP (fun entry => lists.index.inbox.isInline entry.acceptSeq) ≤ 1) then
        [(ListKind.inbox, Need.key (lists.index.inbox.tailFrom - 1))] else []) = _
    rw [record.1, record.2.1, isInline, count]
  cases command with
  | cancel c =>
    rw [pageNeeds, pageNeeds, pulled leftLoads, pulled rightLoads]
  | _ => rfl

theorem pagesFor_of_loads {Entry : Type} {pages : PageEntry Entry} {dir loaded : Directory} {whole part : List Entry}
    (loads : ListLoads pages dir loaded whole part) (need : Need) : loaded.pagesFor need = dir.pagesFor need := by
  obtain ⟨samePages, -, -⟩ := loads.sameRecord
  cases need with
  | key key => rw [Directory.pagesFor, Directory.pagesFor, loads.pageFor_eq]
  | first => rw [Directory.pagesFor, Directory.pagesFor, samePages]
  | fingerprint fingerprint => rw [Directory.pagesFor, Directory.pagesFor, Directory.pagesWhere, Directory.pagesWhere, samePages]
  | marked => rw [Directory.pagesFor, Directory.pagesFor, Directory.pagesWhere, Directory.pagesWhere, samePages]
  | all => rw [Directory.pagesFor, Directory.pagesFor, samePages]

theorem directory_pagesFor {lists : Lists} (loads : Loads digests root lists) (list : ListKind) (need : Need) :
    (lists.index.directory list).pagesFor need = (root.index.directory list).pagesFor need := by
  cases list with
  | inbox => exact pagesFor_of_loads loads.inbox need
  | receipts => exact pagesFor_of_loads loads.receipts need
  | results => exact pagesFor_of_loads loads.results need
  | events => exact pagesFor_of_loads loads.events need
  | timers => exact pagesFor_of_loads loads.timers need

/-- The pages that a command names on the decoded HEAD. -/
def namedPages (digests : Digests) (root : Head) (command : Command) : List (ListKind × Nat) :=
  pagesNeeded digests (some (root.holding (root.shallow digests))) command

/-- The decoded HEAD with the pages that a command names attached. -/
def preparedLists (digests : Digests) (root : Head) (command : Command) : Lists :=
  attachPages digests root (namedPages digests root command)

theorem prepared_read (inv : RootInv digests limits root) (command : Command) :
    Loads digests root (preparedLists digests root command) ∧
      PagesRead digests (root.holding (preparedLists digests root command)) command := by
  rw [preparedLists]
  have shallow := shallow_loads inv
  have within : ∀ page ∈ namedPages digests root command, page.2 < (root.index.directory page.1).pages.length := by
    intro page named
    obtain ⟨need, -, sameList, missing⟩ := mem_pagesNeeded.mp named
    have routed : page.2 ∈ ((root.shallow digests).index.directory need.1).pagesFor need.2 := (mem_filter.mp missing).1
    rw [directory_pagesFor shallow] at routed
    rw [sameList]
    exact pagesFor_lt routed
  obtain ⟨loads, held⟩ := attachPages_spec inv (namedPages digests root command) within
  refine ⟨loads, ?_⟩
  intro need reads
  rw [pageNeeds_holding loads shallow] at reads
  show ((attachPages digests root (namedPages digests root command)).index.directory need.1).missing need.2 = []
  rw [Directory.missing, filter_eq_nil_iff]
  intro page routed
  rw [directory_pagesFor loads, ← directory_pagesFor shallow] at routed
  -- The decoded HEAD has no page in memory, so that each page the need names is missing and is attached.
  have unloaded : ((root.shallow digests).index.directory need.1).isLoaded page = false := by
    cases need.1 <;>
    · show (List.replicate _ false).getD page false = false
      rw [getD_eq_getElem?_getD, getElem?_replicate]
      split <;> rfl
  have missing : page ∈ ((root.shallow digests).index.directory need.1).missing need.2 :=
    mem_filter.mpr ⟨routed, by rw [unloaded]; rfl⟩
  have isLoaded := held (need.1, page) (mem_pagesNeeded.mpr ⟨need, reads, rfl, missing⟩)
  simp [isLoaded]

end Needs

/-- In every root of a run, the decoded HEAD with the pages that a command names attached has the outcome of the HEAD with every
page in memory, leaves the same root, and is never refused for a page that is not loaded. -/
theorem prepared_head_refines (kernel : Kernel) (ids : CollisionFree) (history : History kernel ids.toDigests) (command : Command)
    (now : Int64) :
    SameOutcome ids.toDigests history.root (preparedLists ids.toDigests history.root command)
      (kernel.apply ids.toDigests (some (history.root.holding (preparedLists ids.toDigests history.root command))) command now)
      (kernel.apply ids.toDigests (some history.root) command now) ∧
    ∀ error, kernel.apply ids.toDigests (some (history.root.holding (preparedLists ids.toDigests history.root command)))
      command now ≠ .error error ∨ error.kind ≠ .storeUnavailable := by
  have inv := rootInv_run history.run
  obtain ⟨loads, read⟩ := prepared_read inv command
  have same := @apply_read ids _ _ now command kernel inv loads read
  refine ⟨same, ?_⟩
  intro error
  by_cases refused : kernel.apply ids
      (some (history.root.holding (preparedLists ids history.root command))) command now = .error error
  · right
    rw [refused] at same
    exact available_of_apply inv same.whole_refused
  · exact .inl refused

end Ravel.Agents
