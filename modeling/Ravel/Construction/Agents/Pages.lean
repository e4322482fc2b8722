/-
This file models the index pages of HEAD: the lookups of a directory, the attachment of a sealed page, and the seal
that rebuilds every directory on publish.
-/

import Ravel.Construction.Agents.Head

namespace Ravel.Agents

/-- The typed refusals of the page layer. -/
inductive PageError where
  | notLoaded (list : ListKind) (page : Nat)
  | pageFull (max : Nat)
  | directoryFull (list : ListKind) (max : Nat)
  deriving DecidableEq, Repr

structure PageBounds where
  maxPageEntries : Nat
  maxIndexPages : Nat
  deriving DecidableEq, Repr

/-- The entries that a read of the kernel touches. -/
inductive Need where
  | key (key : Nat)
  | first
  | fingerprint (fingerprint : Nat)
  | marked
  | all
  deriving DecidableEq, Repr

/-- What the page layer knows of one list's entry type. -/
structure PageEntry (Entry : Type) where
  list : ListKind
  keepTail : Bool
  key : Entry → Nat
  fingerprint : Entry → Option Nat
  marked : Entry → Bool
  acceptSeq : Entry → Option Nat
  referencedBytes : Entry → Nat
  encodePage : List Entry → Bytes

def refBytes (ref : Option ObjectRef) : Nat :=
  (ref.map (·.sizeBytes.toNat)).getD 0

def inboxPages (digests : Digests) : PageEntry InboxEntry where
  list := .inbox
  keepTail := true
  key := (·.acceptSeq)
  fingerprint entry := entry.lastFailedTurnId.map digests.idFingerprint
  marked _ := false
  acceptSeq _ := none
  referencedBytes entry := refBytes entry.payload
  encodePage := digests.encodeInboxPage

def receiptPages (digests : Digests) : PageEntry Receipt where
  list := .receipts
  keepTail := false
  key := (·.acceptSeq)
  fingerprint receipt := some (digests.receiptFingerprint receipt.handler receipt.requestId)
  marked _ := false
  acceptSeq _ := none
  referencedBytes _ := 0
  encodePage := digests.encodeReceiptPage

def resultPages (digests : Digests) : PageEntry ResultEntry where
  list := .results
  keepTail := false
  key := (·.acceptSeq)
  fingerprint result := result.turnId.map digests.idFingerprint
  marked result := result.status = .cancelled
  acceptSeq _ := none
  referencedBytes result := refBytes result.output
  encodePage := digests.encodeResultPage

def eventPages (digests : Digests) : PageEntry EventEntry where
  list := .events
  keepTail := false
  key := (·.eventSeq)
  fingerprint _ := none
  marked _ := false
  acceptSeq event := some event.acceptSeq
  referencedBytes event := refBytes event.payload
  encodePage := digests.encodeEventPage

def timerPages (digests : Digests) : PageEntry TimerEntry where
  list := .timers
  keepTail := false
  key := (·.generation)
  fingerprint timer := some (digests.idFingerprint timer.timerId)
  marked timer := timer.status = .scheduled
  acceptSeq _ := none
  referencedBytes timer := refBytes timer.payload
  encodePage := digests.encodeTimerTable

namespace Directory

/-- The page whose range holds the key, or none when the key is in the open page. -/
def pageFor (dir : Directory) (key : Nat) : Option Nat :=
  if dir.pages.isEmpty || decide (dir.tailFrom ≤ key) then none
  else some ((dir.pages.takeWhile fun page => page.firstKey ≤ key).length - 1)

def isLoaded (dir : Directory) (page : Nat) : Bool :=
  dir.loaded.getD page false

def unloaded (dir : Directory) : List Nat :=
  (List.range dir.pages.length).filter fun page => !dir.isLoaded page

/-- The pages at which a test on the recorded page holds. -/
def pagesWhere (dir : Directory) (test : PageMeta → Bool) : List Nat :=
  (List.range dir.pages.length).filter fun page => dir.pages[page]?.any test

/-- The pages that may hold an entry the need names. -/
def pagesFor (dir : Directory) : Need → List Nat
  | .key key => (dir.pageFor key).toList
  | .first => (List.range dir.pages.length).take 1
  | .fingerprint fingerprint => dir.pagesWhere fun page => page.fingerprints.contains fingerprint
  | .marked => dir.pagesWhere fun page => 0 < page.marked
  | .all => List.range dir.pages.length

/-- The pages the need names that are not in memory. -/
def missing (dir : Directory) (need : Need) : List Nat :=
  (dir.pagesFor need).filter fun page => !dir.isLoaded page

/-- Every entry the need names is in memory. -/
def require (dir : Directory) (list : ListKind) (need : Need) : Except PageError Unit :=
  match dir.missing need with
  | page :: _ => .error (.notLoaded list page)
  | [] => .ok ()

/-- A figure of the recorded page at an index. -/
def figure (dir : Directory) (measure : PageMeta → Nat) (page : Nat) : Nat :=
  (dir.pages[page]?.map measure).getD 0

/-- The entries the list holds: those of the unloaded pages and those in memory. -/
def total (dir : Directory) (inMemory : Nat) : Nat :=
  dir.unloaded.foldl (fun count page => count + dir.figure (·.entries) page) inMemory

def unloadedMarked (dir : Directory) : Nat :=
  dir.unloaded.foldl (fun count page => count + dir.figure (·.marked) page) 0

def unloadedReferencedBytes (dir : Directory) : Nat :=
  dir.unloaded.foldl (fun bytes page => saturatingAddU64 bytes (dir.figure (·.referencedBytes) page)) 0

/-- The entry with this key is encoded inline in HEAD. -/
def isInline (dir : Directory) (key : Nat) : Bool :=
  (dir.pageFor key).isNone

def markLoaded (dir : Directory) (page : Nat) : Directory :=
  { dir with
    loaded := (dir.loaded ++ List.replicate (dir.pages.length - dir.loaded.length) false).set page true }

end Directory

section PageLayer

variable {Entry : Type}

/-- The stable sort by key. -/
def sortByKey (pages : PageEntry Entry) (entries : List Entry) : List Entry :=
  entries.insertionSort fun left right => pages.key left ≤ pages.key right

/-- The lowest and highest `accept_seq` of the entries, zero when they carry none. -/
def acceptRange (pages : PageEntry Entry) (entries : List Entry) : Nat × Nat :=
  let seqs := entries.filterMap pages.acceptSeq
  (seqs.min?.getD 0, seqs.max?.getD 0)

/-- The page that is being filled. -/
structure PageWriter (Entry : Type) where
  entries : List Entry
  max : Nat

namespace PageWriter

def new (maxPageEntries : Nat) : PageWriter Entry :=
  ⟨[], Nat.max maxPageEntries 1⟩

/-- An entry past the bound is refused. -/
def push (writer : PageWriter Entry) (entry : Entry) : Except PageError (PageWriter Entry) :=
  if writer.max ≤ writer.entries.length then .error (.pageFull writer.max)
  else .ok { writer with entries := writer.entries ++ [entry] }

/-- The record of the page for HEAD, and its bytes. -/
def finish (digests : Digests) (pages : PageEntry Entry) (writer : PageWriter Entry) (firstKey : Nat) : PageMeta × Bytes :=
  let bytes := pages.encodePage writer.entries
  let range := acceptRange pages writer.entries
  ({ firstKey := firstKey
     page := digests.objectRef bytes
     entries := writer.entries.length
     marked := writer.entries.countP pages.marked
     minAcceptSeq := range.1
     maxAcceptSeq := range.2
     referencedBytes := writer.entries.foldl (fun bytes entry => saturatingAddU64 bytes (pages.referencedBytes entry)) 0
     fingerprints := (writer.entries.filterMap pages.fingerprint).insertionSort (· ≤ ·) }, bytes)

end PageWriter

/-- The chunks of a list, each of `size` entries but the last. -/
def chunks (size : Nat) : Nat → List Entry → List (List Entry)
  | 0, _ => []
  | _ + 1, [] => []
  | fuel + 1, entry :: rest => (entry :: rest).take size :: chunks size fuel ((entry :: rest).drop size)

/-- One page written from its entries. -/
def writePage (digests : Digests) (pages : PageEntry Entry) (maxPageEntries firstKey : Nat) (entries : List Entry) :
    Except PageError (PageMeta × Bytes) := do
  let writer ← entries.foldlM PageWriter.push (PageWriter.new maxPageEntries)
  return writer.finish digests pages firstKey

/-- The pages of one loaded page's entries. Each chunk starts behind the last key of the chunk before it. -/
def rewritePages (digests : Digests) (pages : PageEntry Entry) (maxPageEntries : Nat) (recorded : PageMeta) :
    (firstKey : Nat) → List (List Entry) → Except PageError (List PageMeta × List PageObject)
  | _, [] => .ok ([], [])
  | firstKey, chunk :: rest => do
    let (newMeta, bytes) ← writePage digests pages maxPageEntries firstKey chunk
    let nextKey := (chunk.getLast?.map fun entry => pages.key entry + 1).getD firstKey
    let (metas, objects) ← rewritePages digests pages maxPageEntries recorded nextKey rest
    let written := if newMeta = recorded then [] else [⟨pages.list, newMeta.page, bytes⟩]
    return (newMeta :: metas, written ++ objects)

/-- What a seal has built so far: the pages, their flags and the objects to write. -/
structure Sealed where
  pages : List PageMeta := []
  loaded : List Bool := []
  objects : List PageObject := []
  deriving DecidableEq, Repr

/-- One recorded page. An unloaded page is kept, and a loaded one is rewritten from its entries in memory. -/
def sealPage (digests : Digests) (pages : PageEntry Entry) (maxPageEntries : Nat) (source : Directory) (byPage : Nat → List Entry)
    (sealed : Sealed) (page : PageMeta × Nat) : Except PageError Sealed :=
  let entries := byPage page.2
  if source.isLoaded page.2 then do
    let sorted := sortByKey pages entries
    let (metas, objects) ← rewritePages digests pages maxPageEntries page.1 page.1.firstKey
      (chunks (Nat.max maxPageEntries 1) sorted.length sorted)
    return { pages := sealed.pages ++ metas
             loaded := sealed.loaded ++ List.replicate metas.length true
             objects := sealed.objects ++ objects }
  else if entries.isEmpty then
    .ok { sealed with pages := sealed.pages ++ [page.1], loaded := sealed.loaded ++ [false] }
  else .error (.notLoaded pages.list page.2)

/-- The loop that seals full pages off the sorted open page. It ends with the entries that stay inline. -/
def sealOpen (digests : Digests) (pages : PageEntry Entry) (maxPageEntries : Nat) (sealBelow : WithTop Nat) :
    (fuel : Nat) → (openPage : List Entry) → (tailFrom : Nat) → Except PageError (List PageMeta × List PageObject × Nat)
  | 0, _, tailFrom => .ok ([], [], tailFrom)
  | fuel + 1, openPage, tailFrom =>
    match openPage[Nat.max maxPageEntries 1]? with
    | none => .ok ([], [], tailFrom)
    | some next =>
      if (pages.key next : WithTop Nat) ≤ sealBelow then do
        let firstKey := (openPage.head?.map pages.key).getD 0
        let (newMeta, bytes) ← writePage digests pages maxPageEntries firstKey (openPage.take (Nat.max maxPageEntries 1))
        let (metas, objects, tail) ← sealOpen digests pages maxPageEntries sealBelow fuel
          (openPage.drop (Nat.max maxPageEntries 1)) (pages.key next)
        return (newMeta :: metas, ⟨pages.list, newMeta.page, bytes⟩ :: objects, tail)
      else .ok ([], [], tailFrom)

/-- The entries in memory that the directory routes to a page, or to the open page. -/
def routed (pages : PageEntry Entry) (dir : Directory) (list : List Entry) (page : Option Nat) : List Entry :=
  list.filter fun entry => dir.pageFor (pages.key entry) = page

/-- The directory a seal starts from. A version 1 list has no sealed page. -/
def sealSource (dir : Directory) : Directory :=
  match dir.representation with
  | .inline => {}
  | .paged => dir

/-- The last page goes back into HEAD when the open page of the inbox is empty. -/
def pullsBack (pages : PageEntry Entry) (source : Directory) (list : List Entry) : Bool :=
  pages.keepTail && (routed pages source list none).isEmpty && !source.pages.isEmpty &&
    source.isLoaded (source.pages.length - 1)

/-- The source directory without its last page. -/
def withoutLast (source : Directory) : Directory :=
  { source with
    pages := source.pages.dropLast
    loaded := source.loaded.take (source.pages.length - 1)
    tailFrom := if source.pages.length - 1 = 0 then 0 else (source.pages.getLast?.map (·.firstKey)).getD 0 }

/-- Full pages are cut off the sorted open page, and the pages are counted against the bound. -/
def sealTail (digests : Digests) (pages : PageEntry Entry) (sealed : Sealed) (sorted : List Entry) (tailFrom : Nat)
    (sealBelow : WithTop Nat) (bounds : PageBounds) : Except PageError (Directory × List PageObject) := do
  let (metas, objects, tail) ← sealOpen digests pages bounds.maxPageEntries sealBelow sorted.length sorted tailFrom
  let allPages := sealed.pages ++ metas
  if bounds.maxIndexPages < allPages.length then .error (.directoryFull pages.list bounds.maxIndexPages)
  else
    .ok ({ representation := .paged
           pages := allPages
           tailFrom := if allPages.isEmpty then 0 else tail
           loaded := sealed.loaded ++ List.replicate metas.length true }, sealed.objects ++ objects)

/-- The directory that is rebuilt from the list in memory, and the page objects to write. -/
def sealDirectory (digests : Digests) (pages : PageEntry Entry) (dir : Directory) (list : List Entry)
    (sealBelow : WithTop Nat) (bounds : PageBounds) : Except PageError (Directory × List PageObject) := do
  let routing := sealSource dir
  let pulled := pullsBack pages routing list
  let source := if pulled then withoutLast routing else routing
  let openPage := if pulled then routed pages routing list (some (routing.pages.length - 1))
    else routed pages routing list none
  let sealed ← source.pages.zipIdx.foldlM
    (sealPage digests pages bounds.maxPageEntries source fun page => routed pages routing list (some page)) {}
  sealTail digests pages sealed (sortByKey pages openPage) source.tailFrom sealBelow bounds

/-- A sealed page's entries join the list in memory, which is then sorted by key. -/
def attach (pages : PageEntry Entry) (dir : Directory) (list : List Entry) (page : Nat) (entries : List Entry) :
    Directory × List Entry :=
  if dir.isLoaded page then (dir, list)
  else (dir.markLoaded page, sortByKey pages (list ++ entries))

end PageLayer

namespace Head

/-- The inputs in the inbox, sealed pages included. -/
def inboxDepth (head : Head) : Nat :=
  head.index.inbox.total head.inbox.length

/-- The receipts held, sealed pages included. -/
def receiptCount (head : Head) : Nat :=
  head.index.receipts.total head.receipts.length

/-- The scheduled timers, sealed pages included. -/
def scheduledTimers (head : Head) : Nat :=
  head.index.timers.unloadedMarked + head.timers.countP fun timer => timer.status = .scheduled

def hasInbox (head : Head) : Bool :=
  0 < head.inboxDepth

/-- The objects that the entries in memory reference. -/
def payloadRefs (head : Head) : List ObjectRef :=
  head.state.toList ++ head.inbox.filterMap (·.payload) ++ head.results.filterMap (·.output) ++
    head.events.filterMap (·.payload) ++ head.timers.filterMap (·.payload) ++ head.steps.filterMap (·.output) ++
    head.effects.filterMap (·.result) ++ head.outbox.filterMap (·.input)

/-- The quota counters, recomputed from the lists. -/
def computedQuota (head : Head) : Quota :=
  let unloadedBytes := [ListKind.inbox, .receipts, .results, .events, .timers].foldl
    (fun bytes list => saturatingAddU64 bytes (head.index.directory list).unloadedReferencedBytes) 0
  { referencedBytes := head.payloadRefs.foldl (fun bytes ref => saturatingAddU64 bytes ref.sizeBytes.toNat) unloadedBytes
    mailboxDepth := head.inboxDepth
    receiptCount := head.receiptCount
    timerCount := head.scheduledTimers }

/-- The lowest `accept_seq` that is still in the inbox or running. -/
def pendingFloor (head : Head) : Nat :=
  (((head.activeTurn.map (·.inputAcceptSeq)).toList ++ (head.index.inbox.pages.head?.map (·.firstKey)).toList ++
    head.inbox.map (·.acceptSeq)).min?).getD head.nextAcceptSeq

/-- The lowest scheduled generation. -/
def firstScheduled (head : Head) : WithTop Nat :=
  match ((head.timers.filter fun timer => timer.status = .scheduled).map (·.generation)).min? with
  | some generation => generation
  | none => ⊤

end Head

/-- Every list is sealed. Results seal only below the pending floor, and timers below the first scheduled one. -/
def sealIndex (digests : Digests) (head : Head) (bounds : PageBounds) : Except PageError Head := do
  let (inbox, inboxObjects) ← sealDirectory digests (inboxPages digests) head.index.inbox head.inbox ⊤ bounds
  let (receipts, receiptObjects) ← sealDirectory digests (receiptPages digests) head.index.receipts head.receipts ⊤ bounds
  let (results, resultObjects) ←
    sealDirectory digests (resultPages digests) head.index.results head.results head.pendingFloor bounds
  let (events, eventObjects) ← sealDirectory digests (eventPages digests) head.index.events head.events ⊤ bounds
  let (timers, timerObjects) ←
    sealDirectory digests (timerPages digests) head.index.timers head.timers head.firstScheduled bounds
  return { head with
    index := { inbox := inbox
               receipts := receipts
               results := results
               events := events
               timers := timers
               written := inboxObjects ++ receiptObjects ++ resultObjects ++ eventObjects ++ timerObjects } }

end Ravel.Agents
