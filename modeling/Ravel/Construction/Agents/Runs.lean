/-
This file models how the kernel runs against a store: the root with every sealed page's entries, the HEAD that holds
some of its pages in memory, the root that a publish leaves, and the clients that race for it.
-/

import Ravel.Construction.Agents.Kernel

namespace Ravel.Agents

namespace Directory

/-- The entry is in the open page or in a page that is in memory. -/
def inMemory (dir : Directory) (key : Nat) : Bool :=
  match dir.pageFor key with
  | none => true
  | some page => dir.isLoaded page

/-- The records of the sealed pages that are not in memory. -/
def unloadedPages (dir : Directory) : List PageMeta :=
  dir.unloaded.filterMap fun page => dir.pages[page]?

def allLoaded (dir : Directory) : Directory :=
  { dir with loaded := List.replicate dir.pages.length true }

def noneLoaded (dir : Directory) : Directory :=
  { dir with loaded := List.replicate dir.pages.length false }

/-- Two directories record the same pages, whichever of them are in memory. -/
def SameRecord (left right : Directory) : Prop :=
  left.pages = right.pages ∧ left.tailFrom = right.tailFrom ∧ left.representation = right.representation

end Directory

def Index.allLoaded (index : Index) : Index where
  inbox := index.inbox.allLoaded
  receipts := index.receipts.allLoaded
  results := index.results.allLoaded
  events := index.events.allLoaded
  timers := index.timers.allLoaded

def Index.noneLoaded (index : Index) : Index where
  inbox := index.inbox.noneLoaded
  receipts := index.receipts.noneLoaded
  results := index.results.noneLoaded
  events := index.events.noneLoaded
  timers := index.timers.noneLoaded

/-- The paged lists of a HEAD in memory, with the index that tells which pages they hold. -/
structure Lists where
  inbox : List InboxEntry
  receipts : List Receipt
  results : List ResultEntry
  events : List EventEntry
  timers : List TimerEntry
  index : Index

/-- The HEAD with the given lists in memory. -/
def Head.holding (root : Head) (lists : Lists) : Head :=
  { root with
    inbox := lists.inbox
    receipts := lists.receipts
    results := lists.results
    events := lists.events
    timers := lists.timers
    index := lists.index }

/-- One list in memory: the open page and the loaded pages of the whole list, in some order. -/
structure ListLoads {Entry : Type} (pages : PageEntry Entry) (dir loaded : Directory) (whole part : List Entry) : Prop where
  sameRecord : loaded.SameRecord dir
  reordered : part.Perm (whole.filter fun entry => loaded.inMemory (pages.key entry))

/-- A HEAD in memory of a root: some of its pages are loaded. The inbox is in key order. -/
structure Loads (digests : Digests) (root : Head) (lists : Lists) : Prop where
  inbox : ListLoads (inboxPages digests) root.index.inbox lists.index.inbox root.inbox lists.inbox
  receipts : ListLoads (receiptPages digests) root.index.receipts lists.index.receipts root.receipts lists.receipts
  results : ListLoads (resultPages digests) root.index.results lists.index.results root.results lists.results
  events : ListLoads (eventPages digests) root.index.events lists.index.events root.events lists.events
  timers : ListLoads (timerPages digests) root.index.timers lists.index.timers root.timers lists.timers
  inOrder : lists.inbox.Pairwise fun left right => left.acceptSeq < right.acceptSeq

/-- The HEAD as a reader decodes it: the open pages, and no sealed page. -/
def Head.shallow (digests : Digests) (root : Head) : Lists where
  inbox := Encoded.inlineEntries (inboxPages digests) root.index.inbox root.inbox
  receipts := Encoded.inlineEntries (receiptPages digests) root.index.receipts root.receipts
  results := Encoded.inlineEntries (resultPages digests) root.index.results root.results
  events := Encoded.inlineEntries (eventPages digests) root.index.events root.events
  timers := Encoded.inlineEntries (timerPages digests) root.index.timers root.timers
  index := root.index.noneLoaded

/-- The entries of one sealed page are attached to a list in memory. -/
def attachTo {Entry : Type} (pages : PageEntry Entry) (dir : Directory) (whole : List Entry) (loaded : Directory)
    (part : List Entry) (page : Nat) : Directory × List Entry :=
  attach pages loaded part page (sortByKey pages (routed pages dir whole (some page)))

/-- The attachment of one sealed page of a root. -/
def attachPage (digests : Digests) (root : Head) (lists : Lists) (page : ListKind × Nat) : Lists :=
  match page.1 with
  | .inbox =>
    let attached := attachTo (inboxPages digests) root.index.inbox root.inbox lists.index.inbox lists.inbox page.2
    { lists with inbox := attached.2, index := { lists.index with inbox := attached.1 } }
  | .receipts =>
    let attached := attachTo (receiptPages digests) root.index.receipts root.receipts lists.index.receipts lists.receipts page.2
    { lists with receipts := attached.2, index := { lists.index with receipts := attached.1 } }
  | .results =>
    let attached := attachTo (resultPages digests) root.index.results root.results lists.index.results lists.results page.2
    { lists with results := attached.2, index := { lists.index with results := attached.1 } }
  | .events =>
    let attached := attachTo (eventPages digests) root.index.events root.events lists.index.events lists.events page.2
    { lists with events := attached.2, index := { lists.index with events := attached.1 } }
  | .timers =>
    let attached := attachTo (timerPages digests) root.index.timers root.timers lists.index.timers lists.timers page.2
    { lists with timers := attached.2, index := { lists.index with timers := attached.1 } }

/-- The HEAD in memory after the given pages of a root are attached. -/
def attachPages (digests : Digests) (root : Head) (needed : List (ListKind × Nat)) : Lists :=
  needed.foldl (attachPage digests root) (root.shallow digests)

/-- The lists of a root with every page in memory. -/
def Head.lists (root : Head) : Lists where
  inbox := root.inbox
  receipts := root.receipts
  results := root.results
  events := root.events
  timers := root.timers
  index := root.index

/-- The entry is in a page that the new directory references and does not hold in memory. -/
def stillSealed {Entry : Type} (pages : PageEntry Entry) (before after : Directory) (entry : Entry) : Bool :=
  match before.pageFor (pages.key entry) with
  | none => false
  | some page => !before.isLoaded page && before.pages[page]?.any fun recorded => after.unloadedPages.contains recorded

/-- The whole list that a publish leaves: the list in memory, and the entries of the pages it did not load. -/
def rejoinList {Entry : Type} (pages : PageEntry Entry) (before after : Directory) (whole published : List Entry) :
    List Entry :=
  sortByKey pages (published ++ whole.filter (stillSealed pages before after))

/-- The root that a publish leaves. -/
def rejoin (digests : Digests) (root : Head) (lists : Lists) (published : Head) : Head :=
  { published with
    inbox := rejoinList (inboxPages digests) lists.index.inbox published.index.inbox root.inbox published.inbox
    receipts := rejoinList (receiptPages digests) lists.index.receipts published.index.receipts root.receipts
      published.receipts
    results := rejoinList (resultPages digests) lists.index.results published.index.results root.results published.results
    events := rejoinList (eventPages digests) lists.index.events published.index.events root.events published.events
    timers := rejoinList (timerPages digests) lists.index.timers published.index.timers root.timers published.timers
    index := published.index.allLoaded }

/-- The root of a publish with every page in memory. -/
def settled (digests : Digests) (published : Head) : Head :=
  { published with
    inbox := sortByKey (inboxPages digests) published.inbox
    receipts := sortByKey (receiptPages digests) published.receipts
    results := sortByKey (resultPages digests) published.results
    events := sortByKey (eventPages digests) published.events
    timers := sortByKey (timerPages digests) published.timers
    index := published.index.allLoaded }

/-- The root that an application of the kernel leaves. -/
def nextRoot (digests : Digests) (root : Head) (lists : Lists) : Except AgentError Transition → Head
  | .ok (.publish published _ _) => rejoin digests root lists published
  | .ok (.unchanged _) => root
  | .error _ => root

/-- One application of the kernel in a run, with the roots before and after it. -/
structure Applied where
  command : Command
  now : Int64
  before : Head
  outcome : Except AgentError Transition
  after : Head

/-- A run of the kernel: a creation, then any commands, each on a HEAD with any of the root's pages in memory. -/
inductive Run (kernel : Kernel) (digests : Digests) : List Applied → Head → Prop where
  | create (c : Create) (now : Int64) (published : Head) (effects : List Effect) (reply : Reply)
      (created : kernel.apply digests none (.create c) now = .ok (.publish published effects reply)) :
      Run kernel digests [] (settled digests published)
  | apply (applied : List Applied) (root : Head) (lists : Lists) (command : Command) (now : Int64)
      (run : Run kernel digests applied root) (loads : Loads digests root lists) :
      Run kernel digests
        (applied ++ [⟨command, now, root, kernel.apply digests (some (root.holding lists)) command now,
          nextRoot digests root lists (kernel.apply digests (some (root.holding lists)) command now)⟩])
        (nextRoot digests root lists (kernel.apply digests (some (root.holding lists)) command now))

/-- A run with the root it reached. -/
structure History (kernel : Kernel) (digests : Digests) where
  applied : List Applied
  root : Head
  run : Run kernel digests applied root

/-- What a client computed from a version of HEAD and may publish over it. -/
structure Proposal where
  version : Nat
  application : Applied

/-- The stored HEAD with its version, the proposals of every client, and the publishes in their order. -/
structure Shared where
  version : Nat
  root : Head
  proposals : List Proposal
  applied : List Applied

/-- Any interleaving of reads and publishes. A proposal stays after its publish, so that its swap can be tried again. -/
inductive Interleaving (kernel : Kernel) (digests : Digests) : Shared → Prop where
  | create (c : Create) (now : Int64) (published : Head) (effects : List Effect) (reply : Reply)
      (created : kernel.apply digests none (.create c) now = .ok (.publish published effects reply)) :
      Interleaving kernel digests ⟨0, settled digests published, [], []⟩
  | propose (shared : Shared) (lists : Lists) (command : Command) (now : Int64) (reached : Interleaving kernel digests shared)
      (loads : Loads digests shared.root lists) :
      Interleaving kernel digests
        { shared with
          proposals := ⟨shared.version, command, now, shared.root,
            kernel.apply digests (some (shared.root.holding lists)) command now,
            nextRoot digests shared.root lists (kernel.apply digests (some (shared.root.holding lists)) command now)⟩ ::
              shared.proposals }
  | swap (shared : Shared) (proposal : Proposal) (published : Head) (effects : List Effect) (reply : Reply)
      (reached : Interleaving kernel digests shared) (proposed : proposal ∈ shared.proposals)
      (current : proposal.version = shared.version)
      (publishes : proposal.application.outcome = .ok (.publish published effects reply)) :
      Interleaving kernel digests
        { shared with
          version := shared.version + 1
          root := proposal.application.after
          applied := shared.applied ++ [proposal.application] }

/-- A state that an interleaving reached. -/
structure SharedHistory (kernel : Kernel) (digests : Digests) where
  shared : Shared
  reached : Interleaving kernel digests shared

/-- The owner fence of a command that only an owner sends. -/
def Command.ownerFence? : Command → Option OwnerFence
  | .beginTurn c => some c.fence
  | .completeTurn c => some c.fence.owner
  | .failTurn c => some c.fence.owner
  | .recordStep c => some c.fence.owner
  | .commitIntent c => some c.fence.owner
  | .authorizeAttempt c =>
    match c.authority with
    | .owner fence => some fence
    | .reconcile _ => none
  | _ => none

/-- The outcome is a root to publish. -/
def isPublish : Except AgentError Transition → Bool
  | .ok (.publish _ _ _) => true
  | _ => false

/-- The reply of an outcome, with or without a publish. -/
def reply? : Except AgentError Transition → Option Reply
  | .ok (.publish _ _ reply) => some reply
  | .ok (.unchanged reply) => some reply
  | .error _ => none

/-- The commands one after the other, each on HEAD with every page in memory. -/
def replay (kernel : Kernel) (digests : Digests) : Head → List (Command × Int64) → List Applied × Head
  | root, [] => ([], root)
  | root, (command, now) :: rest =>
    let outcome := kernel.apply digests (some root) command now
    let next := nextRoot digests root root.lists outcome
    let later := replay kernel digests next rest
    (⟨command, now, root, outcome, next⟩ :: later.1, later.2)

end Ravel.Agents
