import Ravel.Construction.Promql.LogSeries
import Ravel.Proof.Logs.CanonicalRoundTrip

namespace Ravel.Promql

open List Logs

section LabelSets

theorem LabelSet.get_eq_some {set : LabelSet} {name value : String} :
    set.get name = some value ↔ (name, value) ∈ set.labels := by
  obtain ⟨labels, ascending⟩ := set
  unfold LabelSet.get
  simp only
  induction labels with
  | nil => simp
  | cons label rest ih =>
    obtain ⟨below, ascending⟩ := pairwise_cons.mp ascending
    rw [find?_cons]
    by_cases same : label.1 = name
    · simp only [same, decide_true, Option.map_some, Option.some.injEq, mem_cons]
      constructor
      · rintro rfl
        exact .inl (Prod.ext same.symm rfl)
      · rintro (rfl | later)
        · rfl
        · exact absurd (below _ later) (by rw [same]; exact lt_irrefl name)
    · simp only [same, decide_false, mem_cons]
      rw [ih ascending]
      constructor
      · exact .inr
      · rintro (rfl | later)
        · exact absurd rfl same
        · exact later

theorem LabelSet.get_eq_none {set : LabelSet} {name : String} :
    set.get name = none ↔ name ∉ set.labels.map Prod.fst := by
  rw [Option.eq_none_iff_forall_not_mem]
  simp only [Option.mem_def, LabelSet.get_eq_some, mem_map, not_exists, not_and]
  constructor
  · rintro absent ⟨_, value⟩ member rfl
    exact absent value member
  · intro absent value member
    exact absent _ member rfl

theorem LabelSet.new_of_nodup {labels : List (String × String)} (distinct : (labels.map Prod.fst).Nodup) :
    ∃ set, LabelSet.new labels = some set ∧ set.labels.Perm labels := by
  have order := perm_insertionSort (fun first second : String × String => first.1 ≤ second.1) labels
  have sorted := pairwise_insertionSort (fun first second : String × String => first.1 ≤ second.1) labels
  have names := pairwise_map.mp ((order.map Prod.fst).nodup_iff.mpr distinct)
  have ascending := sorted.imp₂ (fun _ _ below distinct => lt_of_le_of_ne below distinct) names
  exact ⟨⟨_, ascending⟩, by rw [LabelSet.new]; exact dif_pos ascending, order⟩

end LabelSets

section StreamLabels

variable {platform : Platform}

/-- The labels of a stream under construction: distinct names, none of them the severity. -/
def StreamNames (labels : List (String × String)) : Prop :=
  (labels.map Prod.fst).Nodup ∧ severityLabel ∉ labels.map Prod.fst

theorem StreamNames.push {labels : List (String × String)} (names : StreamNames labels) (label : String × String) :
    StreamNames (pushFirstWriterWins labels label) := by
  unfold pushFirstWriterWins
  split
  · exact names
  · rename_i allowed
    split
    · exact names
    · rename_i new
      simp only [Bool.or_eq_true, decide_eq_true_eq, not_or] at allowed
      simp only [any_eq_true, decide_eq_true_eq, not_exists, not_and] at new
      constructor
      · rw [map_append, nodup_append]
        refine ⟨names.1, by simp, ?_⟩
        intro known member other single
        obtain rfl := mem_singleton.mp single
        obtain ⟨entry, entryIn, rfl⟩ := mem_map.mp member
        exact new entry entryIn
      · rw [map_append, mem_append, not_or]
        refine ⟨names.2, ?_⟩
        intro single
        exact allowed.2 (mem_singleton.mp single).symm

theorem streamNames_fold (candidates : List (String × String)) : ∀ {labels : List (String × String)},
    StreamNames labels → StreamNames (candidates.foldl pushFirstWriterWins labels) := by
  induction candidates with
  | nil =>
    intro labels names
    exact names
  | cons label rest ih =>
    intro labels names
    exact ih (names.push label)

theorem streamLabelSet_severity (metric : LogMetric) (stream : StreamAttrs) :
    (streamLabelSet platform metric stream).get severityLabel = none := by
  have start : StreamNames [(metricNameLabel, metric.name)] := ⟨by simp, by simp [severityLabel, metricNameLabel]⟩
  have names := streamNames_fold (streamLabelCandidates platform stream) start
  obtain ⟨set, made, order⟩ := LabelSet.new_of_nodup names.1
  rw [LabelSet.get_eq_none, streamLabelSet, made, Option.getD_some, (order.map Prod.fst).mem_iff]
  exact names.2

end StreamLabels

section SeriesLabels

variable {streamLabels : LabelSet} {severityText : String}

theorem seriesLabelSet_labels (plain : streamLabels.get severityLabel = none) (present : severityText.isEmpty = false) :
    (seriesLabelSet streamLabels severityText).labels.Perm (streamLabels.labels ++ [(severityLabel, severityText)]) := by
  have names : ((streamLabels.labels ++ [(severityLabel, severityText)]).map Prod.fst).Nodup := by
    rw [map_append, nodup_append]
    refine ⟨?_, by simp, ?_⟩
    · exact pairwise_map.mpr (streamLabels.ascending.imp fun below => ne_of_lt below)
    · rintro name member other single rfl
      obtain rfl := mem_singleton.mp single
      exact LabelSet.get_eq_none.mp plain member
  obtain ⟨set, made, order⟩ := LabelSet.new_of_nodup names
  rw [seriesLabelSet, if_neg (by simp [present]), made]
  exact order

/-- The severity is one more label. The others stay. -/
theorem seriesLabelSet_get (plain : streamLabels.get severityLabel = none) (name : String) :
    (seriesLabelSet streamLabels severityText).get name =
      if name = severityLabel then if severityText.isEmpty then none else some severityText else streamLabels.get name := by
  cases present : severityText.isEmpty with
  | true =>
    rw [seriesLabelSet, present, if_pos rfl, if_pos rfl]
    split
    · rename_i same
      rw [same, plain]
    · rfl
  | false =>
    have order := seriesLabelSet_labels plain present
    rw [if_neg Bool.false_ne_true]
    apply Option.ext
    intro value
    rw [LabelSet.get_eq_some, order.mem_iff, mem_append, mem_singleton]
    split
    · rename_i same
      subst same
      have absent := LabelSet.get_eq_none.mp plain
      simp only [Prod.mk.injEq, true_and, Option.some.injEq]
      constructor
      · rintro (member | rfl)
        · exact absurd (mem_map_of_mem (f := Prod.fst) member) absent
        · rfl
      · rintro rfl
        exact .inr rfl
    · rename_i other
      rw [LabelSet.get_eq_some]
      simp [other]

/-- The matchers of the series split into those of its stream and those of the severity. -/
theorem matchesSeries_seriesLabelSet (regex : RegexMatch) (plain : streamLabels.get severityLabel = none)
    (matchers : List LabelMatcher) :
    matchesSeries regex (matchers.filter fun matcher =>
        matcher.name ≠ metricNameLabel && matcher.name ≠ bodyMatcherLabel) (seriesLabelSet streamLabels severityText) =
      (matchesSeries regex (streamMatchers matchers) streamLabels &&
        (matchers.filter fun matcher => matcher.name = severityLabel).all fun matcher =>
          matcher.matchesStr regex severityText) := by
  have severity : ((seriesLabelSet streamLabels severityText).get severityLabel).getD "" = severityText := by
    rw [seriesLabelSet_get plain, if_pos rfl]
    split
    · rename_i empty
      rw [Option.getD_none, eq_comm]
      exact String.isEmpty_iff.mp empty
    · rfl
  have other {name : String} (differs : name ≠ severityLabel) :
      (seriesLabelSet streamLabels severityText).get name = streamLabels.get name := by
    rw [seriesLabelSet_get plain, if_neg differs]
  rw [Bool.eq_iff_iff, Bool.and_eq_true]
  unfold matchesSeries streamMatchers
  simp only [all_eq_true, mem_filter, Bool.and_eq_true, decide_eq_true_eq, LabelMatcher.isMatch]
  constructor
  · intro all
    refine ⟨?_, ?_⟩
    · rintro matcher ⟨member, ⟨notName, notSeverity⟩, notBody⟩
      rw [← other notSeverity]
      exact all matcher ⟨member, notName, notBody⟩
    · rintro matcher ⟨member, isSeverity⟩
      have taken := all matcher ⟨member, by rw [isSeverity]; decide, by rw [isSeverity]; decide⟩
      rw [isSeverity, severity] at taken
      exact taken
  · rintro ⟨streams, severities⟩ matcher ⟨member, notName, notBody⟩
    by_cases isSeverity : matcher.name = severityLabel
    · rw [isSeverity, severity]
      exact severities matcher ⟨member, isSeverity⟩
    · rw [other isSeverity]
      exact streams matcher ⟨member, ⟨notName, isSeverity⟩, notBody⟩

end SeriesLabels

end Ravel.Promql
