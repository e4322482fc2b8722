import Mathlib.Data.Nat.Pairing
import Ravel.Proof.Agents.InputConservation

namespace Ravel.Agents

open List

section Interleavings

variable {kernel : Kernel} {ids : CollisionFree} {shared : Shared}

/-- Only publishes are swapped in. -/
theorem interleaving_publishes (reached : Interleaving kernel ids shared) :
    ∀ application ∈ shared.applied, ∃ published effects reply, application.outcome = .ok (.publish published effects reply) := by
  induction reached with
  | create c now published effects reply created =>
    intro application member
    cases member
  | propose shared lists command now reached loads ih => exact ih
  | swap shared proposal published effects reply reached proposed current publishes ih =>
    intro application member
    rcases mem_append.mp member with old | isLast
    · exact ih application old
    · obtain rfl := mem_singleton.mp isLast
      exact ⟨published, effects, reply, publishes⟩

/-- A proposal on the current version is the application of a command to the stored root. -/
def Current (kernel : Kernel) (digests : Digests) (shared : Shared) (proposal : Proposal) : Prop :=
  ∃ lists command now, Loads digests shared.root lists ∧
    proposal.application = ⟨command, now, shared.root, kernel.apply digests (some (shared.root.holding lists)) command now,
      nextRoot digests shared.root lists (kernel.apply digests (some (shared.root.holding lists)) command now)⟩

/-- The publishes of an interleaving are a run, and no proposal is ahead of the stored version. -/
theorem interleaving_run (reached : Interleaving kernel ids shared) :
    Run kernel ids shared.applied shared.root ∧ ∀ proposal ∈ shared.proposals,
      proposal.version ≤ shared.version ∧
        (proposal.version = shared.version → Current kernel ids shared proposal) := by
  induction reached with
  | create c now published effects reply created =>
    exact ⟨.create c now published effects reply created, fun _ member => by cases member⟩
  | propose shared lists command now reached loads ih =>
    refine ⟨ih.1, ?_⟩
    intro proposal member
    rcases mem_cons.mp member with rfl | old
    · exact ⟨Nat.le_refl _, fun _ => ⟨lists, command, now, loads, rfl⟩⟩
    · exact ih.2 proposal old
  | swap shared proposal published effects reply reached proposed current publishes ih =>
    obtain ⟨run, proposals⟩ := ih
    obtain ⟨lists, command, now, loads, application⟩ := (proposals proposal proposed).2 current
    refine ⟨?_, ?_⟩
    · rw [application]
      exact .apply shared.applied shared.root lists command now run loads
    · intro other member
      have behind := (proposals other member).1
      refine ⟨Nat.le_succ_of_le behind, ?_⟩
      intro ahead
      have same : other.version = shared.version + 1 := ahead
      omega

end Interleavings

section Replays

variable {kernel : Kernel} {ids : CollisionFree} {root : Head}

/-- A root with every page in memory is a HEAD of itself. -/
theorem loads_root {limits : Limits} {digests : Digests} (inv : RootInv digests limits root) : Loads digests root root.lists := by
  have whole : ∀ {Entry : Type} (pages : PageEntry Entry) (dir : Directory) (list : List Entry), dir.allLoaded = dir →
      ListLoads pages dir dir list list := by
    intro Entry pages dir list allLoaded
    refine ⟨⟨rfl, rfl, rfl⟩, ?_⟩
    rw [filter_eq_self.mpr fun entry _ => allLoaded_inMemory allLoaded (pages.key entry)]
  exact ⟨whole _ _ _ inv.paged.inboxLoaded, whole _ _ _ inv.paged.receiptsLoaded, whole _ _ _ inv.paged.resultsLoaded,
    whole _ _ _ inv.paged.eventsLoaded, whole _ _ _ inv.paged.timersLoaded, inv.paged.inOrder⟩

theorem run_replay {applied : List Applied} (run : Run kernel ids applied root) (commands : List (Command × Int64)) :
    Run kernel ids (applied ++ (replay kernel ids root commands).1)
      (replay kernel ids root commands).2 := by
  induction commands generalizing applied root with
  | nil =>
    rw [replay, append_nil]
    exact run
  | cons command rest ih =>
    have next := Run.apply applied root root.lists command.1 command.2 run (loads_root (rootInv_run run))
    have continued := ih next
    rw [append_assoc] at continued
    exact continued

variable {outcome : Except AgentError Transition} {reply : Reply}

theorem publish_of_isPublish (publishes : isPublish outcome = true) :
    ∃ published effects reply, outcome = .ok (.publish published effects reply) := by
  cases outcome with
  | error error => cases publishes
  | ok transition =>
    cases transition with
    | unchanged reply => cases publishes
    | publish published effects reply => exact ⟨published, effects, reply, rfl⟩

theorem reply_cases (replied : reply? outcome = some reply) :
    (∃ head effects, outcome = .ok (.publish head effects reply)) ∨ outcome = .ok (.unchanged reply) := by
  cases outcome with
  | error error => cases replied
  | ok transition =>
    cases transition with
    | unchanged answered =>
      cases replied
      exact .inr rfl
    | publish head effects answered =>
      cases replied
      exact .inl ⟨head, effects, rfl⟩

theorem publish_of_reply (publishes : isPublish outcome = true) (replied : reply? outcome = some reply) :
    ∃ head effects, outcome = .ok (.publish head effects reply) := by
  rcases reply_cases replied with published | answered
  · exact published
  · rw [answered] at publishes
    cases publishes

theorem interleaving_replay {shared : Shared} (reached : Interleaving kernel ids shared)
    (commands : List (Command × Int64))
    (publish : ((replay kernel ids shared.root commands).1.all fun application => isPublish application.outcome) =
      true) :
    ∃ later, Interleaving kernel ids later ∧
      later.applied = shared.applied ++ (replay kernel ids shared.root commands).1 ∧
      later.root = (replay kernel ids shared.root commands).2 := by
  induction commands generalizing shared with
  | nil => exact ⟨shared, reached, (append_nil _).symm, rfl⟩
  | cons command rest ih =>
    have inv := rootInv_run (interleaving_run reached).1
    have proposed := Interleaving.propose shared shared.root.lists command.1 command.2 reached (loads_root inv)
    rw [replay, all_cons, Bool.and_eq_true] at publish
    obtain ⟨published, effects, reply, publishes⟩ := publish_of_isPublish publish.1
    have swapped := Interleaving.swap _ _ published effects reply proposed mem_cons_self rfl publishes
    obtain ⟨later, laterReached, laterApplied, laterRoot⟩ := ih swapped publish.2
    refine ⟨later, laterReached, ?_, laterRoot⟩
    rw [laterApplied, append_assoc]
    rfl

end Replays

section PairedIds

/-- A number for each list of characters. -/
def charCode : List Char → Nat
  | [] => 0
  | character :: rest => Nat.pair character.toNat (charCode rest) + 1

theorem charCode_injective {left right : List Char} (same : charCode left = charCode right) : left = right := by
  induction left generalizing right with
  | nil =>
    cases right with
    | nil => rfl
    | cons character rest => simp [charCode] at same
  | cons first others ih =>
    cases right with
    | nil => simp [charCode] at same
    | cons character rest =>
      rw [charCode, charCode, Nat.add_right_cancel_iff, Nat.pair_eq_pair] at same
      rw [Char.toNat_inj.mp same.1, ih same.2]

def textCode (text : String) : Nat :=
  charCode text.toList

theorem textCode_injective {left right : String} (same : textCode left = textCode right) : left = right :=
  String.toList_inj.mp (charCode_injective same)

theorem keyed_injective {incarnation seq incarnation' seq' : Nat} {key key' : String}
    (same : Nat.pair incarnation (Nat.pair seq (textCode key)) = Nat.pair incarnation' (Nat.pair seq' (textCode key'))) :
    incarnation = incarnation' ∧ seq = seq' ∧ key = key' := by
  obtain ⟨sameIncarnation, sameRest⟩ := Nat.pair_eq_pair.mp same
  obtain ⟨sameSeq, sameKey⟩ := Nat.pair_eq_pair.mp sameRest
  exact ⟨sameIncarnation, sameSeq, textCode_injective sameKey⟩

/-- Identifiers that pair what they are derived from. -/
def pairedIds : CollisionFree where
  agentId kind key := kind ++ key
  turnId incarnation seq epoch failed := Nat.pair incarnation (Nat.pair seq (Nat.pair epoch failed))
  stepId incarnation seq key := Nat.pair incarnation (Nat.pair seq (textCode key))
  effectId incarnation seq key := Nat.pair incarnation (Nat.pair seq (textCode key))
  timerId incarnation key := Nat.pair incarnation (textCode key)
  receiptFingerprint handler requestId := (textCode handler + textCode requestId) % 2 ^ 32
  idFingerprint identifier := identifier % 2 ^ 32
  objectHash bytes := bytes.length
  encodeInboxPage entries := entries.map fun _ => 0
  encodeReceiptPage entries := entries.map fun _ => 0
  encodeResultPage entries := entries.map fun _ => 0
  encodeEventPage entries := entries.map fun _ => 0
  encodeTimerTable entries := entries.map fun _ => 0
  turnId_injective same := by
    obtain ⟨sameIncarnation, sameRest⟩ := Nat.pair_eq_pair.mp same
    obtain ⟨sameSeq, sameTail⟩ := Nat.pair_eq_pair.mp sameRest
    obtain ⟨sameEpoch, sameFailed⟩ := Nat.pair_eq_pair.mp sameTail
    exact ⟨sameIncarnation, sameSeq, sameEpoch, sameFailed⟩
  stepId_injective := keyed_injective
  effectId_injective := keyed_injective
  timerId_injective same := by
    obtain ⟨sameIncarnation, sameKey⟩ := Nat.pair_eq_pair.mp same
    exact ⟨sameIncarnation, textCode_injective sameKey⟩

end PairedIds

section RoomyRuns

/-- Limits that a short run does not reach. -/
def roomyLimits : Limits where
  maxMailboxDepth := 8
  maxReceipts := 8
  maxTimers := 8
  maxHeadBytes := 65536
  maxStringBytes := 16
  maxOwnerBytes := 16
  maxVersionBytes := 16
  maxErrorBytes := 16
  maxEventsPerTurn := 4
  maxIntentsPerTurn := 4
  terminalReservePerInputBytes := 256
  maxPageEntries := 4
  maxIndexPages := 8

def roomyKernel : Kernel := Kernel.new roomyLimits

/-- The creation of an agent with an empty kind and key. -/
def unnamedAgent : Create := ⟨0, "", ""⟩

/-- The root that an outcome publishes. -/
def published? : Except AgentError Transition → Option Head
  | .ok (.publish head _ _) => some head
  | _ => none

theorem isPublish_of_published {outcome : Except AgentError Transition} (publishes : (published? outcome).isSome) :
    ∃ effects reply, outcome = .ok (.publish ((published? outcome).get publishes) effects reply) := by
  cases outcome with
  | error error => cases publishes
  | ok transition =>
    cases transition with
    | unchanged reply => cases publishes
    | publish published effects reply => exact ⟨effects, reply, rfl⟩

theorem unnamedAgent_created :
    (published? (roomyKernel.apply pairedIds.toDigests none (.create unnamedAgent) 0)).isSome := by decide +kernel

/-- The first root of the unnamed agent. -/
def unnamedRoot : Head :=
  settled pairedIds.toDigests
    ((published? (roomyKernel.apply pairedIds.toDigests none (.create unnamedAgent) 0)).get unnamedAgent_created)

variable (commands : List (Command × Int64)) {Item : Type} (items : List Item)

/-- Commands on the unnamed agent are a run. -/
theorem unnamed_history : ∃ history : History roomyKernel pairedIds.toDigests,
      history.applied = (replay roomyKernel pairedIds.toDigests unnamedRoot commands).1 ∧
      history.root = (replay roomyKernel pairedIds.toDigests unnamedRoot commands).2 := by
  obtain ⟨effects, reply, created⟩ := isPublish_of_published unnamedAgent_created
  exact ⟨⟨_, _, run_replay (.create unnamedAgent 0 _ effects reply created) commands⟩, rfl, rfl⟩

theorem get_mem_drop {position later : Fin items.length} (behind : position < later) :
    items.get later ∈ items.drop (position + 1) := by
  rw [mem_drop_iff_getElem]
  have bound := later.isLt
  have order : position.val < later.val := behind
  refine ⟨later.val - (position.val + 1), by omega, ?_⟩
  rw [get_eq_getElem]
  congr 1
  omega

theorem take_get_drop (position : Fin items.length) :
    items = items.take position ++ items.get position :: items.drop (position + 1) := by
  rw [get_eq_getElem, ← drop_eq_getElem_cons, take_append_drop]

/-- A run of commands on the unnamed agent, cut at one of its applications. -/
theorem unnamed_history_cut (position : Fin (replay roomyKernel pairedIds.toDigests unnamedRoot commands).1.length) :
    ∃ history : History roomyKernel pairedIds.toDigests,
      history.applied = (replay roomyKernel pairedIds.toDigests unnamedRoot commands).1.take position ++
        (replay roomyKernel pairedIds.toDigests unnamedRoot commands).1.get position ::
          (replay roomyKernel pairedIds.toDigests unnamedRoot commands).1.drop (position + 1) := by
  obtain ⟨history, applied, -⟩ := unnamed_history commands
  exact ⟨history, applied.trans (take_get_drop _ position)⟩

theorem unnamed_sharedHistory
    (publish : ((replay roomyKernel pairedIds.toDigests unnamedRoot commands).1.all fun application => isPublish application.outcome) = true) :
    ∃ history : SharedHistory roomyKernel pairedIds.toDigests,
      history.shared.applied = (replay roomyKernel pairedIds.toDigests unnamedRoot commands).1 := by
  obtain ⟨effects, reply, created⟩ := isPublish_of_published unnamedAgent_created
  obtain ⟨later, reached, applied, -⟩ := interleaving_replay (.create unnamedAgent 0 _ effects reply created) commands publish
  exact ⟨⟨later, reached⟩, applied⟩

end RoomyRuns

end Ravel.Agents
