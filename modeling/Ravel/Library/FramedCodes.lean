/-
This file develops codes whose words show where they end, so that a text that opens with a word determines the coded value.
-/

import Mathlib.Data.List.Basic

namespace Ravel.Library

open List

variable {Value Other Letter : Type} {valid : Value → Prop} {bound : Nat → Prop} {code : Value → List Letter}
  {size : Nat → List Letter}

/-- What a text opens with determines the valid value and the rest. -/
def Delimits (valid : Value → Prop) (code : Value → List Letter) : Prop :=
  ∀ left right leftRest rightRest, valid left → valid right → code left ++ leftRest = code right ++ rightRest →
    left = right ∧ leftRest = rightRest

namespace Delimits

/-- Words of one length. -/
theorem of_length (width : Nat) (uniform : ∀ value, (code value).length = width)
    (injective : ∀ left right, valid left → valid right → code left = code right → left = right) : Delimits valid code := by
  intro left right leftRest rightRest leftValid rightValid same
  obtain ⟨words, rests⟩ := append_inj same ((uniform left).trans (uniform right).symm)
  exact ⟨injective left right leftValid rightValid words, rests⟩

/-- No word opens another. -/
theorem of_prefixFree (free : ∀ left right, code left <+: code right → left = right) : Delimits valid code := by
  intro left right leftRest rightRest _ _ same
  have opens : code left <+: code right ++ rightRest := ⟨leftRest, same⟩
  have equal : left = right := by
    rcases prefix_or_prefix_of_prefix opens ( prefix_append _ _) with shorter | longer
    · exact free left right shorter
    · exact (free right left longer).symm
  subst equal
  exact ⟨rfl, append_cancel_left same⟩

theorem inj (delimits : Delimits valid code) {left right : Value} (leftValid : valid left) (rightValid : valid right)
    (same : code left = code right) : left = right :=
  (delimits left right [] [] leftValid rightValid (congrArg (· ++ []) same)).1

theorem mono {narrower : Value → Prop} (delimits : Delimits valid code) (implied : ∀ value, narrower value → valid value) :
    Delimits narrower code :=
  fun left right _ _ leftValid rightValid same =>
    delimits left right _ _ (implied left leftValid) (implied right rightValid) same

/-- One value after another. -/
theorem pair {otherValid : Other → Prop} {otherCode : Other → List Letter} (first : Delimits valid code)
    (second : Delimits otherValid otherCode) :
    Delimits (fun both : Value × Other => valid both.1 ∧ otherValid both.2) fun both => code both.1 ++ otherCode both.2 := by
  intro left right leftRest rightRest leftValid rightValid same
  rw [append_assoc, append_assoc] at same
  obtain ⟨firsts, same⟩ := first _ _ _ _ leftValid.1 rightValid.1 same
  obtain ⟨seconds, rests⟩ := second _ _ _ _ leftValid.2 rightValid.2 same
  exact ⟨Prod.ext firsts seconds, rests⟩

/-- The code of a part that determines the whole. -/
theorem comap (delimits : Delimits valid code) {part : Other → Value} (injective : part.Injective) :
    Delimits (fun whole => valid (part whole)) fun whole => code (part whole) := by
  intro left right leftRest rightRest leftValid rightValid same
  obtain ⟨parts, rests⟩ := delimits _ _ _ _ leftValid rightValid same
  exact ⟨injective parts, rests⟩

/-- A word behind its own length. -/
theorem framed (sizes : Delimits bound size) (injective : code.Injective) :
    Delimits (fun value => bound (code value).length) fun value => size (code value).length ++ code value := by
  intro left right leftRest rightRest leftValid rightValid same
  rw [append_assoc, append_assoc] at same
  obtain ⟨lengths, same⟩ := sizes _ _ _ _ leftValid rightValid same
  obtain ⟨words, rests⟩ := append_inj same lengths
  exact ⟨injective words, rests⟩

/-- As many values as a count says. -/
theorem repeated (delimits : Delimits valid code) (left right : List Value) (leftRest rightRest : List Letter)
    (lengths : left.length = right.length) (leftValid : ∀ value ∈ left, valid value) (rightValid : ∀ value ∈ right, valid value)
    (same : left.flatMap code ++ leftRest = right.flatMap code ++ rightRest) : left = right ∧ leftRest = rightRest := by
  induction left generalizing right with
  | nil =>
    obtain rfl := length_eq_zero_iff.mp lengths.symm
    exact ⟨rfl, same⟩
  | cons first left ih =>
    obtain ⟨second, right, rfl⟩ := exists_cons_of_length_eq_add_one lengths.symm
    rw [flatMap_cons, flatMap_cons, append_assoc, append_assoc] at same
    rw [forall_mem_cons] at leftValid rightValid
    obtain ⟨firsts, same⟩ := delimits _ _ _ _ leftValid.1 rightValid.1 same
    obtain ⟨others, rests⟩ := ih right (Nat.succ.inj lengths) leftValid.2 rightValid.2 same
    exact ⟨congrArg₂ cons firsts others, rests⟩

/-- Values behind their count. -/
theorem counted (sizes : Delimits bound size) (delimits : Delimits valid code) :
    Delimits (fun values : List Value => bound values.length ∧ ∀ value ∈ values, valid value) fun values =>
      size values.length ++ values.flatMap code := by
  intro left right leftRest rightRest leftValid rightValid same
  rw [append_assoc, append_assoc] at same
  obtain ⟨lengths, same⟩ := sizes _ _ _ _ leftValid.1 rightValid.1 same
  exact delimits.repeated left right leftRest rightRest lengths leftValid.2 rightValid.2 same

end Delimits

end Ravel.Library
