import Ravel.Construction.Commit.Publication
import Mathlib.Data.List.Basic

namespace Ravel.Commit

open List

variable {codec : Codec} {readsFail : Bool} {world next later : World}

variable {bytes : Bytes} {before after : Option Bytes} {reply : Except StoreError Unit} {publisher : Publisher}
  {record : CommitRecord} {policy : RetryPolicy} {index : Nat}

/-- A put-if-absent never replaces what is stored. -/
theorem stored_of_put {payload : Bytes} (replied : PutReply payload before reply after) (stored : before = some bytes) :
    after = some bytes := by
  cases replied with
  | landed => cases stored
  | refused other => exact stored
  | failedBefore other error notExists => exact stored
  | failedAfter other error notExists =>
    rw [stored]
    rfl

theorem stored_of_step (step : PublishStep codec readsFail world next) (stored : world.stored = some bytes) :
    next.stored = some bytes := by
  cases step with
  | put index publisher attempt reply after located stage replied => exact stored_of_put replied stored
  | read index publisher data located stage isStored => exact stored
  | readFailed index publisher error located stage allowed => exact stored

/-- What is stored stays. -/
theorem stored_onward (onward : Onward codec readsFail world later) (stored : world.stored = some bytes) :
    later.stored = some bytes := by
  induction onward with
  | refl => exact stored
  | tail before step ih => exact stored_of_step step ih

/-- The stored bytes are those of a valid record with the content. -/
def Holds (codec : Codec) (world : World) (contentHash : Bytes) : Prop :=
  ∃ record, world.stored = some (codec.encode record) ∧ validate record = .ok () ∧ record.contentHash = contentHash

theorem Holds.step {contentHash : Bytes} (holds : Holds codec world contentHash) (step : PublishStep codec readsFail world next) :
    Holds codec next contentHash := by
  obtain ⟨record, stored, valid, content⟩ := holds
  exact ⟨record, stored_of_step step stored, valid, content⟩

theorem Holds.unique {left right : Bytes} (leftHolds : Holds codec world left) (rightHolds : Holds codec world right) : left = right := by
  obtain ⟨leftRecord, leftStored, -, rfl⟩ := leftHolds
  obtain ⟨rightRecord, rightStored, -, rfl⟩ := rightHolds
  rw [leftStored, Option.some.injEq] at rightStored
  have decoded := codec.decode_encode leftRecord
  rw [rightStored, codec.decode_encode, Option.some.injEq] at decoded
  rw [decoded]

/-- What the stage of a publisher says about the store. -/
def StageOk (codec : Codec) (world : World) (publisher : Publisher) : Prop :=
  match publisher.stage with
  | .putting _ => validate publisher.record = .ok ()
  | .resolving => ∃ contentHash, Holds codec world contentHash
  | .finished (.ok _) => Holds codec world publisher.record.contentHash
  | .finished (.error _) => True

/-- Every publisher's stage fits the store, and what is stored is a valid record. -/
structure WorldInv (codec : Codec) (world : World) : Prop where
  stages : ∀ publisher ∈ world.publishers, StageOk codec world publisher
  stored : world.stored = none ∨ ∃ contentHash, Holds codec world contentHash

theorem stageOk_step (ok : StageOk codec world publisher) (step : PublishStep codec readsFail world next) :
    StageOk codec next publisher := by
  rw [StageOk] at ok ⊢
  split at ok
  · exact ok
  · obtain ⟨contentHash, holds⟩ := ok
    exact ⟨contentHash, holds.step step⟩
  · exact ok.step step
  · exact ok

/-- A put of a valid record leaves a valid record, or leaves the store as it was. -/
theorem holds_of_put {payload : CommitRecord} (replied : PutReply (codec.encode payload) before reply after) :
    after = before ∨ after = some (codec.encode payload) := by
  cases replied with
  | landed => exact .inr rfl
  | refused other => exact .inl rfl
  | failedBefore other error notExists => exact .inl rfl
  | failedAfter other error notExists =>
    cases before with
    | none => exact .inr rfl
    | some bytes => exact .inl rfl

theorem succeed_cases (codec : Codec) (record : CommitRecord) :
    (∃ token, succeed codec record = .finished (.ok token)) ∨ ∃ error, succeed codec record = .finished (.error error) := by
  rw [succeed]
  cases tokenFor codec record with
  | ok token => exact .inl ⟨token, rfl⟩
  | error error => exact .inr ⟨.record error, rfl⟩

/-- A publisher that ends over its own content fits the store. -/
theorem stageOk_succeed (holds : Holds codec world record.contentHash) :
    StageOk codec world ⟨record, policy, succeed codec record⟩ := by
  rw [StageOk]
  rcases succeed_cases codec record with ⟨token, isOk⟩ | ⟨error, isError⟩
  · rw [isOk]
    exact holds
  · rw [isError]
    trivial

theorem decodeRecord_encode (valid : validate record = .ok ()) :
    decodeRecord codec (codec.encode record) = .ok record := by
  rw [decodeRecord, codec.decode_encode]
  dsimp only
  rw [valid]
  rfl

/-- A read-back is answered with success over the same content, and with a split brain over other content. -/
theorem onGet_encode {stored : CommitRecord} (valid : validate stored = .ok ()) :
    onGet codec record (.ok (codec.encode stored)) =
      if stored.contentHash = record.contentHash then succeed codec record
      else .finished (.error (.splitBrain (hexEncode record.contentHash) (hexEncode stored.contentHash))) := by
  rw [onGet, decodeRecord_encode valid]

/-- The stage behind a put fits the store that the put leaves. -/
theorem stageOk_onPut {attempt : Nat} (valid : validate record = .ok ())
    (replied : PutReply (codec.encode record) before reply after) (stored : world.stored = after)
    (storedOk : after = none ∨ ∃ contentHash, Holds codec world contentHash) :
    StageOk codec world ⟨record, policy, onPut codec policy record attempt reply⟩ := by
  cases replied with
  | landed => exact stageOk_succeed ⟨record, stored, valid, rfl⟩
  | refused bytes =>
    rcases storedOk with absent | present
    · cases absent
    · exact present
  | failedBefore before error other =>
    simp only [onPut, other, if_false]
    split
    · exact valid
    · trivial
  | failedAfter before error other =>
    simp only [onPut, other, if_false]
    split
    · exact valid
    · trivial

theorem stageOk_moved (inv : WorldInv codec world) (step : PublishStep codec readsFail world next) {moved : Publisher}
    (publishers : next.publishers = world.publishers.set index moved) (movedOk : StageOk codec next moved)
    (located : world.publishers[index]? = some publisher) : ∀ other ∈ next.publishers, StageOk codec next other := by
  intro other member
  rw [publishers] at member
  rcases mem_or_eq_of_mem_set member with old | rfl
  · exact stageOk_step (inv.stages other old) step
  · exact movedOk

/-- A step keeps the invariant. -/
theorem worldInv_step (inv : WorldInv codec world) (step : PublishStep codec readsFail world next) : WorldInv codec next := by
  have kept := step
  cases step with
  | put index publisher attempt reply stored located stage replied =>
    have publisherOk := inv.stages publisher (mem_of_getElem? located)
    rw [StageOk, stage] at publisherOk
    have valid : validate publisher.record = .ok () := publisherOk
    have storedOk : stored = none ∨ ∃ contentHash, Holds codec (world.move stored index publisher
        (onPut codec publisher.policy publisher.record attempt reply)) contentHash := by
      rcases holds_of_put replied with same | landed
      · rcases inv.stored with absent | ⟨contentHash, holds⟩
        · exact .inl (same.trans absent)
        · exact .inr ⟨contentHash, holds.step kept⟩
      · exact .inr ⟨_, publisher.record, landed, valid, rfl⟩
    exact ⟨stageOk_moved inv kept rfl (stageOk_onPut valid replied rfl storedOk) located, storedOk⟩
  | read index publisher data located stage stored =>
    refine ⟨stageOk_moved inv kept rfl ?_ located, inv.stored⟩
    rcases inv.stored with absent | ⟨contentHash, record, holds, valid, content⟩
    · rw [absent] at stored
      cases stored
    · rw [stored, Option.some.injEq] at holds
      rw [holds, onGet_encode valid]
      split
      · rename_i same
        exact stageOk_succeed ⟨record, by rw [← holds]; exact stored, valid, same⟩
      · rw [StageOk]
        trivial
  | readFailed index publisher error located stage allowed =>
    refine ⟨stageOk_moved inv kept rfl ?_ located, inv.stored⟩
    rw [StageOk]
    trivial

theorem worldInv_start (codec : Codec) (records : List (CommitRecord × RetryPolicy)) :
    WorldInv codec (startWorld codec records) := by
  refine ⟨?_, .inl rfl⟩
  intro publisher member
  obtain ⟨entry, -, rfl⟩ := mem_map.mp member
  rw [StageOk, beginPublish]
  dsimp only
  cases checked : validate entry.1 with
  | error error => trivial
  | ok passed =>
    cases commitKeyForRecord codec entry.1 with
    | error error => trivial
    | ok key => rfl

/-- The invariant holds in every world that an interleaving reaches. -/
theorem worldInv_onward (inv : WorldInv codec world) (onward : Onward codec readsFail world later) : WorldInv codec later := by
  induction onward with
  | refl => exact inv
  | tail before step ih => exact worldInv_step ih step

theorem PublishHistory.inv (history : PublishHistory codec readsFail) : WorldInv codec history.world :=
  worldInv_onward (worldInv_start codec history.records) history.reached

/-- The publisher was refused over other content: it waits for its read-back, or ended with what the read-back said. -/
def Lost (codec : Codec) (readsFail : Bool) (world : World) (index : Nat) (record : CommitRecord) : Prop :=
  (∃ stored, Holds codec world stored ∧ stored ≠ record.contentHash) ∧
    ∃ publisher, world.publishers[index]? = some publisher ∧ publisher.record = record ∧
      (publisher.stage = .resolving ∨
        (∃ this stored, publisher.stage = .finished (.error (.splitBrain this stored))) ∨
        (readsFail = true ∧ ∃ error, publisher.stage = .finished (.error (.store 1 error))))

/-- A publisher that lost stays lost. -/
theorem lost_step (lost : Lost codec readsFail world index record) (step : PublishStep codec readsFail world next) :
    Lost codec readsFail next index record := by
  obtain ⟨⟨stored, holds, different⟩, publisher, located, same, stages⟩ := lost
  refine ⟨⟨stored, holds.step step, different⟩, ?_⟩
  have others : ∀ (place : Nat) (moved : Publisher), place ≠ index → (world.publishers.set place moved)[index]? = some publisher := by
    intro place moved elsewhere
    rw [getElem?_set_ne elsewhere]
    exact located
  have within := (List.getElem?_eq_some_iff.mp located).1
  cases step with
  | put place other attempt reply after otherAt stage replied =>
    have elsewhere : place ≠ index := by
      rintro rfl
      rw [located, Option.some.injEq] at otherAt
      rw [otherAt, stage] at stages
      rcases stages with waits | ⟨_, _, ended⟩ | ⟨-, _, ended⟩
      · cases waits
      · cases ended
      · cases ended
    exact ⟨publisher, others place _ elsewhere, same, stages⟩
  | read place other data otherAt stage isStored =>
    by_cases here : place = index
    · subst here
      rw [located, Option.some.injEq] at otherAt
      subst otherAt
      obtain ⟨present, kept, valid, content⟩ := holds
      rw [isStored, Option.some.injEq] at kept
      refine ⟨_, getElem?_set_self within, same, .inr (.inl ?_)⟩
      rw [kept, onGet_encode valid, if_neg (by rw [content, same]; exact different)]
      exact ⟨_, _, rfl⟩
    · exact ⟨publisher, others place _ here, same, stages⟩
  | readFailed place other error otherAt stage allowed =>
    by_cases here : place = index
    · subst here
      rw [located, Option.some.injEq] at otherAt
      subst otherAt
      exact ⟨_, getElem?_set_self within, same, .inr (.inr ⟨allowed, error, rfl⟩)⟩
    · exact ⟨publisher, others place _ here, same, stages⟩

theorem lost_onward (lost : Lost codec readsFail world index record) (onward : Onward codec readsFail world later) :
    Lost codec readsFail later index record := by
  induction onward with
  | refl => exact lost
  | tail before step ih => exact lost_step ih step

/-- A publisher that waits for its read-back over other content has lost. -/
theorem lost_of_resolving (inv : WorldInv codec world) {data : Bytes} {stored : CommitRecord}
    (located : world.publishers[index]? = some publisher) (stage : publisher.stage = .resolving)
    (isStored : world.stored = some data) (decoded : codec.decode data = some stored)
    (different : stored.contentHash ≠ publisher.record.contentHash) :
    Lost codec readsFail world index publisher.record := by
  refine ⟨?_, publisher, located, rfl, .inl stage⟩
  rcases inv.stored with absent | ⟨contentHash, record, holds, valid, content⟩
  · rw [absent] at isStored
    cases isStored
  · rw [isStored, Option.some.injEq] at holds
    rw [holds, codec.decode_encode, Option.some.injEq] at decoded
    refine ⟨stored.contentHash, ⟨record, by rw [← holds]; exact isStored, valid, by rw [decoded]⟩, different⟩

end Ravel.Commit
