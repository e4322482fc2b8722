import Ravel.Construction.Commit.IdentityHashes
import Ravel.Library.FailingRuns
import Ravel.Library.FramedCodes
import Ravel.Proof.Logs.CanonicalRoundTrip

namespace Ravel.Commit

open List Library Logs Promql

section Words

theorem leBytes_delimits {width : Nat} (short : width ≤ 8) : Delimits (· < 2 ^ (8 * width)) (leBytes width) := by
  apply Delimits.of_length width
  · intro count
    rw [leBytes, toLeBytes, length_take, length_map, length_range, min_eq_left short]
  · intro left right leftFits rightFits same
    have read (count : Nat) (fits : count < 2 ^ (8 * width)) : (littleEndian64 (leBytes width count)).toNat = count := by
      rw [leBytes, toLeBytes, ← map_take, take_range, min_eq_left short, toNat_littleEndian width short, UInt64.toNat_ofNat',
        Nat.mod_mod_of_dvd _ (Nat.pow_dvd_pow 2 (by omega)), Nat.mod_eq_of_lt fits]
    rw [← read left leftFits, same, read right rightFits]

theorem u64_delimits : Delimits (fun _ => True) toLeBytes :=
  .of_length 8 (fun _ => by rw [toLeBytes, length_map, length_range]) fun _ _ _ _ same =>
    Function.LeftInverse.injective littleEndian64_toLeBytes same

/-- A text whose length a prefix of some bytes holds. -/
def TextFits (width : Nat) (text : String) : Prop := (utf8Bytes text).length < 2 ^ (8 * width)

theorem text_delimits {width : Nat} (short : width ≤ 8) : Delimits (TextFits width) (lenPrefixed width) :=
  (leBytes_delimits short).framed fun _ _ => utf8Bytes_injective

end Words

section Series

def labelCode (label : String × String) : List UInt8 := lenPrefixed 2 label.1 ++ lenPrefixed 2 label.2

/-- The parts of a series that are hashed, one after another. -/
def seriesCode (parts : String × String × List (String × String)) : List UInt8 :=
  lenPrefixed 2 parts.1 ++ (lenPrefixed 2 parts.2.1 ++ (leBytes 2 parts.2.2.length ++ parts.2.2.flatMap labelCode))

def SeriesFits (parts : String × String × List (String × String)) : Prop :=
  TextFits 2 parts.1 ∧ TextFits 2 parts.2.1 ∧ parts.2.2.length < 2 ^ 16 ∧
    ∀ label ∈ parts.2.2, TextFits 2 label.1 ∧ TextFits 2 label.2

theorem series_delimits : Delimits SeriesFits seriesCode :=
  have text := text_delimits (by decide : 2 ≤ 8)
  text.pair (text.pair ((leBytes_delimits (by decide : 2 ≤ 8)).counted (text.pair text)))

theorem pushLenPrefixed_eq_ok {buf out : List UInt8} {text : String} (pushed : pushLenPrefixed buf text = .ok out) :
    TextFits 2 text ∧ out = buf ++ lenPrefixed 2 text := by
  unfold pushLenPrefixed at pushed
  split at pushed
  · cases pushed
  · rename_i fits
    cases pushed
    exact ⟨Nat.lt_of_not_le fits, rfl⟩

theorem pushLabels_eq_ok {labels : List (String × String)} : ∀ {buf out : List UInt8},
    labels.foldlM (fun buf label => do
      let buf ← pushLenPrefixed buf label.1
      pushLenPrefixed buf label.2) buf = Except.ok out →
    (∀ label ∈ labels, TextFits 2 label.1 ∧ TextFits 2 label.2) ∧ out = buf ++ labels.flatMap labelCode := by
  induction labels with
  | nil =>
    intro buf out pushed
    cases pushed
    simp
  | cons label labels ih =>
    intro buf out pushed
    rw [foldlM_cons] at pushed
    obtain ⟨next, first, rest⟩ := ok_of_bind pushed
    obtain ⟨named, name, value⟩ := ok_of_bind first
    obtain ⟨nameFits, rfl⟩ := pushLenPrefixed_eq_ok name
    obtain ⟨valueFits, rfl⟩ := pushLenPrefixed_eq_ok value
    obtain ⟨others, rfl⟩ := ih rest
    refine ⟨forall_mem_cons.mpr ⟨⟨nameFits, valueFits⟩, others⟩, ?_⟩
    simp only [flatMap_cons, labelCode, append_assoc]

/-- A series with the bytes that are hashed for it. -/
structure HashedSeries where
  tenant : String
  metricName : String
  labels : LabelSet
  bytes : List UInt8
  hashed : seriesPreimage tenant metricName labels = .ok bytes

/-- The labels other than the name. -/
def HashedSeries.others (series : HashedSeries) : List (String × String) :=
  series.labels.labels.filter fun label => label.1 ≠ metricNameLabel

theorem HashedSeries.bytes_eq (series : HashedSeries) :
    SeriesFits (series.tenant, series.metricName, series.others) ∧
      series.bytes = utf8Bytes "ravel-series-v1\x00" ++ seriesCode (series.tenant, series.metricName, series.others) := by
  obtain ⟨first, tenant, pushed⟩ := ok_of_bind series.hashed
  obtain ⟨second, name, pushed⟩ := ok_of_bind pushed
  dsimp only at pushed
  split at pushed
  · cases pushed
  · rename_i counted
    obtain ⟨tenantFits, rfl⟩ := pushLenPrefixed_eq_ok tenant
    obtain ⟨nameFits, rfl⟩ := pushLenPrefixed_eq_ok name
    obtain ⟨labelsFit, bytes⟩ := pushLabels_eq_ok pushed
    refine ⟨⟨tenantFits, nameFits, Nat.lt_of_not_le counted, labelsFit⟩, ?_⟩
    rw [bytes, seriesCode]
    simp only [append_assoc]
    rfl

end Series

section InputSets

def TextsFit (texts : List String) : Prop := texts.length < 2 ^ 64 ∧ ∀ text ∈ texts, TextFits 8 text

def InputsFit (inputs : List CompactionInputIdentity) : Prop :=
  inputs.length < 2 ^ 64 ∧ ∀ input ∈ inputs, TextFits 8 input.writerId

theorem input_delimits : Delimits (fun input => TextFits 8 input.writerId) updateInput := by
  have parts : Function.Injective fun input : CompactionInputIdentity => (input.writerId, input.writerEpoch, input.writerSeq) := by
    rintro ⟨_, _, _⟩ ⟨_, _, _⟩ same
    cases same
    rfl
  have fields := ((text_delimits (le_refl 8)).pair (u64_delimits.pair u64_delimits)).comap parts
  exact fields.mono fun _ fits => ⟨fits, trivial, trivial⟩

theorem inputs_delimit : Delimits InputsFit updateInputs :=
  (leBytes_delimits (le_refl 8)).counted input_delimits

theorem texts_delimit : Delimits TextsFit updateTexts :=
  (leBytes_delimits (le_refl 8)).counted (text_delimits (le_refl 8))

/-- The arguments of the three input-set hashes. -/
inductive InputSet where
  | compaction (inputs : List CompactionInputIdentity)
  | superseding (inputs : List CompactionInputIdentity) (supersededRecordKey : String)
  | rewrite (inputs : List CompactionInputIdentity) (supersededRecordKey : Option String) (appliedRequestIds : List String)

def InputSet.preimage : InputSet → Option (List UInt8)
  | .compaction inputs => some (compactionPreimage inputs)
  | .superseding inputs key => some (supersedingPreimage inputs key)
  | .rewrite inputs key applied => rewritePreimage inputs key applied

/-- Every length in memory is a 64-bit number. -/
def InputSet.Fits : InputSet → Prop
  | .compaction inputs => InputsFit inputs
  | .superseding inputs key => InputsFit inputs ∧ TextFits 8 key
  | .rewrite inputs key applied => InputsFit inputs ∧ (∀ text ∈ key, TextFits 8 text) ∧ TextsFit applied

/-- An empty key of a rewrite is no key. -/
def InputSet.normal : InputSet → InputSet
  | .rewrite inputs key applied => .rewrite inputs (key.filter (· ≠ "")) applied
  | other => other

/-- What the preimage of each kind opens with. -/
def openingBytes : Fin 4 → List UInt8 :=
  [utf8Bytes "ravel-compaction-input-set-v1\x00", utf8Bytes "ravel-compaction-input-set-v2-superseding\x00",
    utf8Bytes "ravel-rewrite-input-set-v1\x00" ++ [0], utf8Bytes "ravel-rewrite-input-set-v1\x00" ++ [1]].get

theorem openings_delimit : Delimits (fun _ => True) openingBytes := by
  apply Delimits.of_prefixFree
  decide

/-- The bytes of a set whose key is not empty. -/
inductive Spells : InputSet → List UInt8 → Prop where
  | compaction {inputs : List CompactionInputIdentity} (fit : InputsFit inputs) :
    Spells (.compaction inputs) (openingBytes 0 ++ updateInputs inputs)
  | superseding (parts : List CompactionInputIdentity × String) (fit : InputsFit parts.1 ∧ TextFits 8 parts.2) :
    Spells (.superseding parts.1 parts.2) (openingBytes 1 ++ (updateInputs parts.1 ++ lenPrefixed 8 parts.2))
  | rewriteInputs (parts : List CompactionInputIdentity × List String) (fit : InputsFit parts.1 ∧ TextsFit parts.2) :
    Spells (.rewrite parts.1 none parts.2) (openingBytes 2 ++ (updateInputs parts.1 ++ updateTexts parts.2))
  | rewriteKey (parts : String × List String) (fit : TextFits 8 parts.1 ∧ TextsFit parts.2) :
    Spells (.rewrite [] (some parts.1) parts.2) (openingBytes 3 ++ (lenPrefixed 8 parts.1 ++ updateTexts parts.2))

/-- The openings tell the kinds apart, and the parts behind them delimit themselves. -/
theorem Spells.unique {left right : InputSet} {leftBytes rightBytes : List UInt8} (leftSpells : Spells left leftBytes)
    (rightSpells : Spells right rightBytes) (same : leftBytes = rightBytes) : left = right := by
  have text := text_delimits (le_refl 8)
  cases leftSpells <;> cases rightSpells <;> obtain ⟨opening, rest⟩ := openings_delimit _ _ _ _ trivial trivial same <;>
    first | exact absurd opening (by decide) | rename_i leftFit _ rightFit
  · rw [inputs_delimit.inj leftFit rightFit rest]
  · rw [(inputs_delimit.pair text).inj leftFit rightFit rest]
  · rw [(inputs_delimit.pair texts_delimit).inj leftFit rightFit rest]
  · rw [(text.pair texts_delimit).inj leftFit rightFit rest]

/-- An input set with the bytes that are hashed for it. -/
structure HashedInputSet where
  set : InputSet
  bytes : List UInt8
  hashed : set.preimage = some bytes
  addressed : set.Fits

theorem HashedInputSet.spells (hashed : HashedInputSet) : Spells hashed.set.normal hashed.bytes := by
  obtain ⟨set, bytes, hashed, addressed⟩ := hashed
  cases set with
  | compaction inputs =>
    cases hashed
    exact .compaction addressed
  | superseding inputs key =>
    cases hashed
    exact .superseding (inputs, key) addressed
  | rewrite inputs key applied =>
    obtain ⟨inputsFit, keyFits, appliedFit⟩ := addressed
    simp only [InputSet.preimage, rewritePreimage] at hashed
    dsimp only [InputSet.normal]
    split at hashed
    · rename_i absent
      cases hashed
      rw [absent]
      exact .rewriteInputs (_, applied) ⟨inputsFit, appliedFit⟩
    · rename_i text present
      cases hashed
      rw [present]
      exact .rewriteKey (text, applied) ⟨keyFits text (Option.filter_eq_some_iff.mp present).1, appliedFit⟩
    · cases hashed

theorem InputSet.preimage_normal (set : InputSet) : set.normal.preimage = set.preimage := by
  cases set <;> simp [normal, preimage, rewritePreimage, Option.filter_filter]

end InputSets

/-- The bytes hashed for a series determine its tenant, its name and its other labels. Those hashed for an input set determine
its kind, its inputs, its superseded key and its applied requests. -/
theorem identity_preimages_injective :
    (∀ left right : HashedSeries, left.bytes = right.bytes ↔
      left.tenant = right.tenant ∧ left.metricName = right.metricName ∧ left.others = right.others) ∧
    ∀ left right : HashedInputSet, left.bytes = right.bytes ↔ left.set.normal = right.set.normal := by
  constructor
  · intro left right
    obtain ⟨leftFits, leftBytes⟩ := left.bytes_eq
    obtain ⟨rightFits, rightBytes⟩ := right.bytes_eq
    rw [leftBytes, rightBytes, append_cancel_left_eq]
    constructor
    · intro same
      have parts := series_delimits.inj leftFits rightFits same
      rw [Prod.mk.injEq, Prod.mk.injEq] at parts
      exact parts
    · rintro ⟨tenants, names, others⟩
      rw [tenants, names, others]
  · intro left right
    constructor
    · intro same
      exact left.spells.unique right.spells same
    · intro same
      apply Option.some.inj
      rw [← left.hashed, ← right.hashed, ← left.set.preimage_normal, same, right.set.preimage_normal]

example : ∃ series : HashedSeries, series.others = [("le", "1")] :=
  ⟨⟨"tenant", "up", .single "le" "1", _, rfl⟩, by decide⟩

end Ravel.Commit
