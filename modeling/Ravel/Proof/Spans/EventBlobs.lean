import Ravel.Construction.Spans.Events
import Ravel.Library.FailingRuns
import Ravel.Proof.Codec.SingleVarints
import Ravel.Proof.Logs.CanonicalRoundTrip

namespace Ravel.Spans

open List Codec Library Logs

/-- One of the digits that the writer never puts. -/
def UppercaseDigit (digit : UInt8) : Prop :=
  0x41 ≤ digit ∧ digit ≤ 0x46

instance (digit : UInt8) : Decidable (UppercaseDigit digit) :=
  inferInstanceAs (Decidable (_ ∧ _))

theorem utf8Bytes_ofList (chars : List Char) : utf8Bytes (String.ofList chars) = chars.flatMap String.utf8EncodeChar := by
  rw [utf8Bytes, String.toByteArray_ofList, List.utf8Encode, data_toByteArray]

/-- The digits that the writer puts for a byte. -/
def digitPair (byte : UInt8) : Bytes :=
  String.utf8EncodeChar (hexDigit (byte.toNat / 16)) ++ String.utf8EncodeChar (hexDigit (byte.toNat % 16))

theorem utf8Bytes_hexEncode (bytes : Bytes) : utf8Bytes (hexEncode bytes) = bytes.flatMap digitPair := by
  rw [hexEncode, hexLower, utf8Bytes_ofList, flatMap_assoc]
  apply flatMap_congr
  intro byte _
  rw [digitPair, flatMap_cons, flatMap_singleton]

theorem lowercaseDigits :
    "0123456789abcdef".toList = ['0', '1', '2', '3', '4', '5', '6', '7', '8', '9', 'a', 'b', 'c', 'd', 'e', 'f'] := by
  decide

/-- What is put for the value of a digit is one byte, and the digit itself unless that is in upper case. -/
theorem hexDigit_nibble {digit value : UInt8} (read : nibble digit = some value) :
    value.toNat < 16 ∧ (String.utf8EncodeChar (hexDigit value.toNat)).length = 1 ∧
      (String.utf8EncodeChar (hexDigit value.toNat) = [digit] ↔ ¬UppercaseDigit digit) := by
  have checkedAll : ∀ index : Fin 256, (nibble (UInt8.ofNat index)).all fun value =>
      decide (value.toNat < 16 ∧ (String.utf8EncodeChar (hexDigit value.toNat)).length = 1 ∧
        (String.utf8EncodeChar (hexDigit value.toNat) = [UInt8.ofNat index] ↔ ¬UppercaseDigit (UInt8.ofNat index))) := by
    simp only [hexDigit, lowercaseDigits]
    decide +kernel
  have checked := checkedAll ⟨digit.toNat, digit.toNat_lt⟩
  rw [UInt8.ofNat_toNat, read] at checked
  exact of_decide_eq_true checked

theorem toNat_joinNibbles {upper lower : UInt8} (small : upper.toNat < 16) (smaller : lower.toNat < 16) :
    (upper <<< 4 ||| lower).toNat = 2 ^ 4 * upper.toNat + lower.toNat := by
  have shifted : (upper <<< 4).toNat = 2 ^ 4 * upper.toNat := by
    rw [UInt8.toNat_shiftLeft, show (4 : UInt8).toNat % 8 = 4 by rfl, Nat.shiftLeft_eq, Nat.mul_comm]
    omega
  rw [UInt8.toNat_or, shifted, ← Nat.two_pow_add_eq_or_of_lt smaller]

/-- The digits of decoded bytes are the decoded digits exactly when none of those is in upper case. -/
theorem digits_hexPairs {text bytes : Bytes} (even : text.length % 2 = 0) (read : hexPairs text = some bytes) :
    bytes.flatMap digitPair = text ↔ ∀ digit ∈ text, ¬UppercaseDigit digit := by
  induction text using hexPairs.induct generalizing bytes with
  | case1 high low rest ih =>
    simp only [hexPairs, Option.bind_eq_bind, Option.bind_eq_some_iff, Option.pure_def, Option.some.injEq] at read
    obtain ⟨upper, readUpper, lower, readLower, decoded, readRest, rfl⟩ := read
    obtain ⟨small, oneUpper, sameUpper⟩ := hexDigit_nibble readUpper
    obtain ⟨smaller, oneLower, sameLower⟩ := hexDigit_nibble readLower
    rw [length_cons, length_cons] at even
    have tail := ih (by omega) readRest
    obtain ⟨first, isFirst⟩ := length_eq_one_iff.mp oneUpper
    obtain ⟨second, isSecond⟩ := length_eq_one_iff.mp oneLower
    have joined := toNat_joinNibbles small smaller
    have pair : digitPair (upper <<< 4 ||| lower) = [first, second] := by
      rw [digitPair, joined, show (2 ^ 4 * upper.toNat + lower.toNat) / 16 = upper.toNat by omega,
        show (2 ^ 4 * upper.toNat + lower.toNat) % 16 = lower.toNat by omega, isFirst, isSecond]
      rfl
    rw [isFirst, singleton_inj] at sameUpper
    rw [isSecond, singleton_inj] at sameLower
    rw [flatMap_cons, pair, cons_append, cons_append, nil_append, cons.injEq, cons.injEq,
      sameUpper, sameLower, tail, forall_mem_cons, forall_mem_cons]
  | case2 text short =>
    have empty : text = [] := by
      match text, even with
      | [], _ => rfl
      | first :: second :: rest, _ => exact absurd rfl (short first second rest)
    subst empty
    cases read
    simp

theorem parseChunks_spelled {steps : Nat} {rest : Bytes} {events : List SpanEvent} (parsed : parseChunks steps rest = some events) :
    events.flatMap (fun event => lengthPrefixed event.attrsBlob) = rest := by
  induction steps generalizing rest events with
  | zero =>
    rw [parseChunks] at parsed
    split at parsed
    · rename_i empty
      cases parsed
      exact (List.isEmpty_iff.mp empty).symm
    · cases parsed
  | succ steps ih =>
    rw [parseChunks] at parsed
    split at parsed
    · rename_i empty
      cases parsed
      exact (List.isEmpty_iff.mp empty).symm
    · simp only [Option.bind_eq_bind, Option.bind_eq_some_iff, Option.pure_def, Option.some.injEq] at parsed
      obtain ⟨⟨length, later⟩, header, ⟨chunk, last⟩, taken, others, deeper, rfl⟩ := parsed
      have started := getUvarint_eq_ok.mp (ok_of_toOption header)
      rw [takeExactly] at taken
      split at taken
      · rename_i whole
        cases taken
        have sized : (later.take length.toNat).length = length.toNat := length_take_of_le whole
        rw [flatMap_cons, ih deeper, started]
        show lengthPrefixed (later.take length.toNat) ++ later.drop length.toNat = _
        rw [lengthPrefixed, sized, UInt64.ofNat_toNat, append_assoc, take_append_drop]
      · cases taken

/-- The value of an attribute that is promoted to events is rebuilt exactly when none of its digits is in upper case. -/
theorem rebuilt_events_iff {value : String} {events : List SpanEvent} (parsed : parseEvents value = some events) :
    reconstructEventsRaw events = value ↔ ∀ digit ∈ utf8Bytes value, ¬(0x41 ≤ digit ∧ digit ≤ 0x46) := by
  simp only [parseEvents, Option.bind_eq_bind, Option.bind_eq_some_iff] at parsed
  obtain ⟨bytes, decoded, parsed⟩ := parsed
  rw [hexDecode] at decoded
  split at decoded
  · cases decoded
  · rename_i even
    split at parsed
    · cases parsed
    · obtain ⟨found, chunks, checked⟩ := Option.bind_eq_some_iff.mp parsed
      split at checked
      · cases checked
      · cases checked
        rw [reconstructEventsRaw, parseChunks_spelled chunks, ← utf8Bytes_inj, utf8Bytes_hexEncode]
        exact digits_hexPairs (not_not.mp even) decoded

/-- A blob of one event in lower case. -/
theorem rebuilt_events_iff_lowercase :
    parseEvents "020a0b" = some [⟨0, "", [10, 11]⟩] ∧ reconstructEventsRaw [⟨0, "", [10, 11]⟩] = "020a0b" :=
  have parsed : parseEvents "020a0b" = some [⟨0, "", [10, 11]⟩] := by decide +kernel
  ⟨parsed, (rebuilt_events_iff parsed).mpr (by decide +kernel)⟩

/-- The same blob in upper case is promoted to events and rebuilt as another value. -/
theorem uppercase_events_altered :
    parseEvents "020A0B" = some [⟨0, "", [10, 11]⟩] ∧ reconstructEventsRaw [⟨0, "", [10, 11]⟩] ≠ "020A0B" := by
  decide +kernel

end Ravel.Spans
