/-
This file develops runs over lists whose steps may fail.
-/

import Mathlib.Data.List.Perm.Basic

namespace Ravel.Library

open List

section FailingRuns

variable {Failure Input Output State : Type}

variable {input : Input} {first : Except Failure Input} {next : Input → Except Failure Output} {output : Output}
  {step : Input → Except Failure Output} {inputs : List Input} {outputs : List Output}

theorem ok_of_toOption {outcome : Except Failure Input} (present : outcome.toOption = some input) :
    outcome = .ok input := by
  cases outcome with
  | error failure => cases present
  | ok found =>
    cases present
    rfl

@[simp] theorem ok_bind : ((.ok input : Except Failure Input) >>= next) = next input := rfl

/-- A successful bind has a successful first part. -/
theorem ok_of_bind (returned : (first >>= next) = .ok output) : ∃ input, first = .ok input ∧ next input = .ok output := by
  cases first with
  | error failure => cases returned
  | ok input => exact ⟨input, rfl, returned⟩

theorem bind_eq_ok : (first >>= next) = .ok output ↔ ∃ input, first = .ok input ∧ next input = .ok output := by
  refine ⟨ok_of_bind, ?_⟩
  rintro ⟨input, rfl, returned⟩
  exact returned

/-- A run that returned passed its guard. -/
theorem ok_of_guard {guarded : Prop} [Decidable guarded] {failure : Failure} {rest : Except Failure Output}
    (returned : (if guarded then .error failure else rest) = .ok output) : ¬guarded ∧ rest = .ok output := by
  split at returned
  · cases returned
  · rename_i passed
    exact ⟨passed, returned⟩

/-- Two binds with one first part are equal when they agree on its result. -/
theorem bind_congr_ok {other : Input → Except Failure Output}
    (same : ∀ input, first = .ok input → next input = other input) : (first >>= next) = (first >>= other) := by
  cases first with
  | error failure => rfl
  | ok input => exact same input rfl

/-- A bind succeeds when both parts do. -/
theorem exists_bind (firstOk : ∃ input, first = .ok input) (nextOk : ∀ input, ∃ output, next input = .ok output) :
    ∃ output, (first >>= next) = .ok output := by
  obtain ⟨input, read⟩ := firstOk
  obtain ⟨output, returned⟩ := nextOk input
  exact ⟨output, bind_eq_ok.mpr ⟨input, read, returned⟩⟩

/-- A map succeeds exactly when every step does. -/
theorem mapM_eq_ok :
    inputs.mapM step = .ok outputs ↔ Forall₂ (fun input output => step input = .ok output) inputs outputs := by
  induction inputs generalizing outputs with
  | nil =>
    rw [mapM_nil, forall₂_nil_left_iff]
    exact ⟨fun same => (Except.ok.inj same).symm, fun same => by rw [same]; rfl⟩
  | cons input inputs ih =>
    rw [mapM_cons, bind_eq_ok, forall₂_cons_left_iff]
    constructor
    · rintro ⟨output, stepped, rest⟩
      obtain ⟨others, later, returned⟩ := ok_of_bind rest
      exact ⟨output, others, stepped, ih.mp later, (Except.ok.inj returned).symm⟩
    · rintro ⟨output, others, stepped, later, rfl⟩
      exact ⟨output, stepped, bind_eq_ok.mpr ⟨others, ih.mpr later, rfl⟩⟩

/-- A map of total steps is a plain map. -/
theorem mapM_eq_map {value : Input → Output} (total : ∀ input ∈ inputs, step input = .ok (value input)) :
    inputs.mapM step = .ok (inputs.map value) := by
  rw [mapM_eq_ok, forall₂_map_right_iff, forall₂_same]
  exact total

/-- A map whose steps all succeed succeeds. -/
theorem exists_mapM (total : ∀ input ∈ inputs, ∃ output, step input = .ok output) :
    ∃ outputs, inputs.mapM step = .ok outputs := by
  induction inputs with
  | nil => exact ⟨[], rfl⟩
  | cons input inputs ih =>
    obtain ⟨output, stepped⟩ := total input mem_cons_self
    obtain ⟨outputs, later⟩ := ih fun other member => total other (mem_cons_of_mem input member)
    exact ⟨output :: outputs, mapM_eq_ok.mpr (.cons stepped (mapM_eq_ok.mp later))⟩

/-- Every output of a map comes from an input. -/
theorem mem_of_mapM (mapped : inputs.mapM step = .ok outputs) (member : output ∈ outputs) :
    ∃ input ∈ inputs, step input = .ok output := by
  have aligned := mapM_eq_ok.mp mapped
  clear mapped
  induction aligned with
  | nil => cases member
  | @cons input _ _ _ stepped _ ih =>
    rcases mem_cons.mp member with rfl | later
    · exact ⟨input, mem_cons_self, stepped⟩
    · obtain ⟨other, otherIn, otherStep⟩ := ih later
      exact ⟨other, mem_cons_of_mem input otherIn, otherStep⟩

/-- Every input of a map has its output. -/
theorem exists_of_mapM (mapped : inputs.mapM step = .ok outputs) (member : input ∈ inputs) :
    ∃ output ∈ outputs, step input = .ok output := by
  have aligned := mapM_eq_ok.mp mapped
  clear mapped
  induction aligned with
  | nil => cases member
  | @cons _ output _ _ stepped _ ih =>
    rcases mem_cons.mp member with rfl | later
    · exact ⟨output, mem_cons_self, stepped⟩
    · obtain ⟨other, otherIn, otherStep⟩ := ih later
      exact ⟨other, mem_cons_of_mem output otherIn, otherStep⟩

/-- A run of checks passes exactly when every check does. -/
theorem forM_eq_ok {check : Input → Except Failure Unit} :
    inputs.forM check = .ok () ↔ ∀ input ∈ inputs, check input = .ok () := by
  induction inputs with
  | nil =>
    simp only [not_mem_nil, false_imp_iff, implies_true, iff_true]
    rfl
  | cons input inputs ih =>
    show (check input >>= fun _ => inputs.forM check) = _ ↔ _
    rw [bind_eq_ok, forall_mem_cons, ← ih]
    constructor
    · rintro ⟨⟨⟩, passed, later⟩
      exact ⟨passed, later⟩
    · rintro ⟨passed, later⟩
      exact ⟨(), passed, later⟩

/-- A property of the state and of the inputs read so far that every step keeps holds at the end of a run. -/
theorem foldlM_invariant {step : State → Input → Except Failure State} (holds : State → List Input → Prop)
    (keeps : ∀ state read input next, holds state read → step state input = .ok next → holds next (read ++ [input]))
    (inputs : List Input) : ∀ (state final : State) (read : List Input), holds state read →
      inputs.foldlM step state = .ok final → holds final (read ++ inputs) := by
  induction inputs with
  | nil =>
    intro state final read start run
    cases run
    rwa [append_nil]
  | cons input inputs ih =>
    intro state final read start run
    rw [foldlM_cons] at run
    obtain ⟨next, stepped, rest⟩ := ok_of_bind run
    have later := ih next final (read ++ [input]) (keeps state read input next start stepped) rest
    rwa [append_assoc, singleton_append] at later

/-- A fold whose steps each add a part gathers the parts. -/
theorem foldlM_gathers {step : State → Input → Except Failure State} (view : State → List Output)
    (part : Input → List Output)
    (adds : ∀ input ∈ inputs, ∀ state next, step state input = .ok next → (view next).Perm (view state ++ part input)) :
    ∀ {state final : State}, inputs.foldlM step state = .ok final →
      (view final).Perm (view state ++ inputs.flatMap part) := by
  induction inputs with
  | nil =>
    intro state final run
    cases run
    simp
  | cons input inputs ih =>
    intro state final run
    rw [foldlM_cons] at run
    obtain ⟨next, stepped, rest⟩ := ok_of_bind run
    have added := adds input mem_cons_self state next stepped
    have gathered := ih (fun later member => adds later (mem_cons_of_mem _ member)) rest
    rw [flatMap_cons, ← append_assoc]
    exact gathered.trans (added.append_right _)

/-- A fold whose steps each append one value maps the inputs. -/
theorem foldlM_appends {step : List Output → Input → Except Failure (List Output)} (value : Input → Output)
    (appends : ∀ collected input next, step collected input = .ok next → next = collected ++ [value input]) :
    ∀ {collected final : List Output}, inputs.foldlM step collected = .ok final →
      final = collected ++ inputs.map value := by
  induction inputs with
  | nil =>
    intro collected final run
    cases run
    simp
  | cons input inputs ih =>
    intro collected final run
    rw [foldlM_cons] at run
    obtain ⟨next, stepped, rest⟩ := ok_of_bind run
    obtain rfl := appends collected input next stepped
    rw [ih rest, map_cons, append_assoc, singleton_append]

end FailingRuns

end Ravel.Library
