import Ravel.Construction.Promql.LogSeries
import Ravel.Library.RepeatedPatterns
import Ravel.Proof.Logs.CanonicalRoundTrip

namespace Ravel.Promql

open List Library Logs

/-- The Unicode tables agree with ASCII on ASCII. -/
def AsciiTables (platform : Platform) : Prop :=
  ∀ char : Char, char.toNat < 128 →
    platform.isAlphanumeric char = char.isAlphanum ∧ platform.toLowercase char = [char.toLower]

section Words

variable {platform : Platform}

/-- No token reaches over the place between two texts. -/
def TokenBoundary (platform : Platform) (front back : List Char) : Prop :=
  (∀ char, front.getLast? = some char → platform.isAlphanumeric char = false) ∨
    ∀ char, back.head? = some char → platform.isAlphanumeric char = false

theorem unicodeTokens_boundary {front back : List Char} (boundary : TokenBoundary platform front back) :
    ∀ buffer : TokenBuffer, (front = [] → buffer = .empty ∨ ∀ char, back.head? = some char →
        platform.isAlphanumeric char = false) →
      unicodeTokens platform buffer (front ++ back) =
        unicodeTokens platform buffer front ++ unicodeTokens platform .empty back := by
  induction front with
  | nil =>
    intro buffer start
    rcases start rfl with rfl | separated
    · rw [nil_append, unicodeTokens]
      rfl
    · cases back with
      | nil =>
        rw [nil_append, unicodeTokens, unicodeTokens]
        simp [TokenBuffer.flush, TokenBuffer.empty]
      | cons char rest =>
        rw [nil_append, unicodeTokens, unicodeTokens, unicodeTokens, if_neg (by simp [separated char rfl]),
          if_neg (by simp [separated char rfl])]
        rfl
  | cons char front ih =>
    intro buffer _
    have later : TokenBoundary platform front back := by
      rcases boundary with closes | opens
      · cases front with
        | nil =>
          refine .inl ?_
          intro other absent
          cases absent
        | cons _ _ => exact .inl fun other isLast => closes other (by rw [getLast?_cons_cons]; exact isLast)
      · exact .inr opens
    rw [cons_append, unicodeTokens, unicodeTokens]
    split
    · rename_i alphanumeric
      apply ih later
      rintro rfl
      rcases boundary with closes | opens
      · exact absurd (closes char rfl) (by simp [alphanumeric])
      · exact .inr opens
    · rw [ih later .empty fun _ => .inl rfl, append_assoc]

theorem length_utf8Bytes_ascii {char : Char} (isAscii : char.toNat < 128) : (utf8Bytes char.toString).length = 1 := by
  have size : char.utf8Size = 1 :=
    Char.utf8Size_eq_one_iff.mpr (UInt32.le_iff_toNat_le.mpr (Nat.le_of_lt_succ isAscii))
  simp [utf8Bytes, Char.toString, utf8Encode_singleton, size]

theorem toLower_ascii : ∀ code : Fin 128, (Char.ofNat code.val).isAlphanum = true →
    (Char.ofNat code.val).toLower.toNat < 128 ∧ (Char.ofNat code.val).toLower.isAlphanum = true := by
  decide +kernel

theorem appendLowercase_ascii {char : Char} (alphanumeric : platform.isAlphanumeric char = true)
    (isAscii : char.toNat < 128) (buffer : TokenBuffer) :
    appendLowercase platform buffer [char] =
      if buffer.bytes.length < tokenMaxBytes then { buffer with bytes := buffer.bytes ++ utf8Bytes char.toString }
      else { buffer with truncated := true } := by
  have length := length_utf8Bytes_ascii isAscii
  simp only [appendLowercase, alphanumeric, if_true, length]
  by_cases room : buffer.bytes.length < tokenMaxBytes
  · rw [if_pos room, if_neg (by omega)]
  · rw [if_neg room, if_pos (by omega)]

/-- The ASCII scanner is the general one on ASCII. -/
theorem asciiTokens_eq (ascii : AsciiTables platform) {text : List Char} :
    ∀ {buffer : TokenBuffer}, (∀ char ∈ text, char.toNat < 128) →
      (buffer.truncated = true → tokenMaxBytes ≤ buffer.bytes.length) →
      asciiTokens buffer.bytes text = unicodeTokens platform buffer text := by
  induction text with
  | nil =>
    intro buffer _ _
    rfl
  | cons char text ih =>
    intro buffer inside full
    obtain ⟨isAscii, inside⟩ := forall_mem_cons.mp inside
    obtain ⟨table, lower⟩ := ascii char isAscii
    rw [asciiTokens, unicodeTokens, table]
    split
    · rename_i alphanumeric
      obtain ⟨lowerAscii, lowerAlphanumeric⟩ : char.toLower.toNat < 128 ∧ char.toLower.isAlphanum = true := by
        have facts := toLower_ascii ⟨char.toNat, isAscii⟩
        rw [Char.ofNat_toNat] at facts
        exact facts alphanumeric
      have known : platform.isAlphanumeric char.toLower = true := by
        rw [(ascii _ lowerAscii).1]
        exact lowerAlphanumeric
      rw [lower, appendLowercase_ascii known lowerAscii]
      cases truncated : buffer.truncated with
      | true =>
        rw [if_neg (by have := full truncated; omega), if_pos rfl]
        exact ih inside full
      | false =>
        rw [if_neg Bool.false_ne_true]
        by_cases room : buffer.bytes.length < tokenMaxBytes
        · rw [if_pos room, if_pos room]
          exact @ih ⟨_, false⟩ inside (by simp)
        · rw [if_neg room, if_neg room]
          exact @ih { buffer with truncated := true } inside fun _ => Nat.le_of_not_lt room
    · rw [← @ih .empty inside (by simp [TokenBuffer.empty])]
      rfl

/-- The words of a text as the general scanner finds them. -/
theorem tokens_eq (ascii : AsciiTables platform) (text : String) :
    tokens platform text = unicodeTokens platform .empty text.toList := by
  unfold tokens
  split
  · rename_i isAscii
    exact @asciiTokens_eq _ ascii _ .empty (by simpa using isAscii) (by simp [TokenBuffer.empty])
  · rfl

/-- A part of a text between two token boundaries is a phrase of the text. -/
theorem phraseMatch_of_bounded (ascii : AsciiTables platform) {text : String} {front core back : List Char}
    (whole : text.toList = front ++ (core ++ back)) (left : TokenBoundary platform front (core ++ back))
    (right : TokenBoundary platform core back) : phraseMatch platform (utf8Bytes text) (String.ofList core) = true := by
  unfold phraseMatch
  simp only [fromUTF8_utf8Bytes, tokens_eq ascii, String.toList_ofList, whole]
  split
  · rfl
  · rw [unicodeTokens_boundary left .empty fun _ => .inl rfl, unicodeTokens_boundary right .empty fun _ => .inl rfl]
    rw [any_eq_true]
    refine ⟨unicodeTokens platform .empty core ++ unicodeTokens platform .empty back, ?_, ?_⟩
    · rw [mem_tails]
      exact suffix_append _ _
    · rw [List.isPrefixOf_iff_prefix]
      exact prefix_append _ _

end Words

section Runs

/-- The item of one character of a pattern. -/
def patternItem (char : Char) (repeats : Repeats) : PatternItem Char :=
  ⟨fun other => if char = '.' then other ≠ '\n' else other = char, repeats⟩

def quantifierRepeats (char : Char) : Repeats := if char = '*' then .anyTimes else .optional

/-- The items of a pattern of plain characters, wildcards and single quantifiers. -/
def patternItems : List Char → Option (List (PatternItem Char))
  | [] => some []
  | [char] => if isQuantifier char then none else some [patternItem char .once]
  | char :: next :: rest =>
    if isQuantifier char then none
    else if isQuantifier next then
      if rest.head?.any isQuantifier then none
      else (patternItems rest).map fun later => patternItem char (quantifierRepeats next) :: later
    else (patternItems (next :: rest)).map fun later => patternItem char .once :: later

theorem patternItem_literal {char : Char} (plain : char ≠ '.') : patternItem char .once = literalItem char := by
  unfold patternItem literalItem
  simp [plain]

/-- A run is a literal between two parts of the pattern. -/
def RunOf (items : List (PatternItem Char)) (run : LiteralRun) : Prop :=
  ∃ before after, items = before ++ (run.text.map literalItem ++ after) ∧ (run.atStart = true → before = []) ∧
    (run.atEnd = true → after = [])

/-- The items before a position: what is closed, then the open run. -/
structure OpenAt (items closed : List (PatternItem Char)) (run : OpenRun) (first : Bool) : Prop where
  split : items = closed ++ ((run.map Prod.fst).getD []).map literalItem
  fresh : first = true → items = []
  started : ∀ text atStart, run = some (text, atStart) → atStart = true → closed = []

theorem OpenAt.close {items closed : List (PatternItem Char)} {run : OpenRun} {first : Bool}
    (opened : OpenAt items closed run first) (later : List (PatternItem Char)) {atEnd : Bool}
    (ends : atEnd = true → later = []) : ∀ closing ∈ run.close atEnd, RunOf (items ++ later) closing := by
  cases run with
  | none =>
    intro closing member
    cases member
  | some entry =>
    obtain ⟨text, atStart⟩ := entry
    intro closing member
    obtain rfl := mem_singleton.mp member
    refine ⟨closed, later, ?_, opened.started text atStart rfl, ends⟩
    rw [opened.split, append_assoc]
    rfl

theorem OpenAt.extend {items closed : List (PatternItem Char)} {run : OpenRun} {first : Bool}
    (opened : OpenAt items closed run first) (char : Char) :
    ∃ nowClosed, OpenAt (items ++ [literalItem char]) nowClosed (run.extend char first) false := by
  cases run with
  | none =>
    refine ⟨items, ⟨rfl, by simp, ?_⟩⟩
    intro text atStart same isStart
    cases same
    exact opened.fresh isStart
  | some entry =>
    obtain ⟨text, atStart⟩ := entry
    refine ⟨closed, ⟨?_, by simp, ?_⟩⟩
    · rw [opened.split]
      simp [OpenRun.extend]
    · intro longer isStart same isStart'
      cases same
      exact opened.started text atStart rfl isStart'

theorem OpenAt.restart (items : List (PatternItem Char)) (item : PatternItem Char) :
    OpenAt (items ++ [item]) (items ++ [item]) none false :=
  ⟨by simp, by simp, fun text atStart same => by cases same⟩

/-- The loop finds literals of the pattern only. -/
theorem literalRuns_runOf (chars : List Char) (first : Bool) (run : OpenRun) :
    ∀ {items closed : List (PatternItem Char)} {runs : List LiteralRun}, OpenAt items closed run first →
      literalRuns chars first run = some runs →
      ∃ later, patternItems chars = some later ∧ ∀ found ∈ runs, RunOf (items ++ later) found := by
  fun_induction literalRuns chars first run with
  | case1 first run =>
    intro items closed runs opened ran
    cases ran
    exact ⟨[], rfl, opened.close [] fun _ => rfl⟩
  | case2 char first run quantifier =>
    intro items closed runs opened ran
    cases ran
  | case3 first run plain =>
    intro items closed runs opened ran
    cases ran
    refine ⟨[patternItem '.' .once], ?_, opened.close _ (by simp)⟩
    rw [patternItems, if_neg plain]
  | case4 char first run plain literal =>
    intro items closed runs opened ran
    cases ran
    obtain ⟨_, opened⟩ := opened.extend char
    refine ⟨[patternItem char .once], ?_, ?_⟩
    · rw [patternItems, if_neg plain]
    · intro found member
      have isRun := opened.close [] (fun _ => rfl) found member
      rw [append_nil] at isRun
      rw [patternItem_literal literal]
      exact isRun
  | case5 char next rest first run quantifier =>
    intro items closed runs opened ran
    cases ran
  | case6 char next rest first run plain repeated twice =>
    intro items closed runs opened ran
    cases ran
  | case7 char next rest first run plain repeated single ih =>
    intro items closed runs opened ran
    obtain ⟨runs, laterRan, rfl⟩ := Option.map_eq_some_iff.mp ran
    obtain ⟨later, read, found⟩ :=
      ih (OpenAt.restart items (patternItem char (quantifierRepeats next))) laterRan
    refine ⟨patternItem char (quantifierRepeats next) :: later, ?_, ?_⟩
    · rw [patternItems, if_neg plain, if_pos repeated, if_neg single, read]
      rfl
    · intro run member
      rcases mem_append.mp member with member | member
      · exact opened.close _ (by simp) run member
      · rw [append_cons]
        exact found run member
  | case8 next rest first run single plain ih =>
    intro items closed runs opened ran
    obtain ⟨runs, laterRan, rfl⟩ := Option.map_eq_some_iff.mp ran
    obtain ⟨later, read, found⟩ := ih (OpenAt.restart items (patternItem '.' .once)) laterRan
    refine ⟨patternItem '.' .once :: later, ?_, ?_⟩
    · rw [patternItems, if_neg plain, if_neg single, read]
      rfl
    · intro run member
      rcases mem_append.mp member with member | member
      · exact opened.close _ (by simp) run member
      · rw [append_cons]
        exact found run member
  | case9 char next rest first run plain single literal ih =>
    intro items closed runs opened ran
    obtain ⟨_, opened⟩ := opened.extend char
    obtain ⟨later, read, found⟩ := ih opened ran
    refine ⟨patternItem char .once :: later, ?_, ?_⟩
    · rw [patternItems, if_neg plain, if_neg single, read]
      rfl
    · intro run member
      rw [append_cons, patternItem_literal literal]
      exact found run member

end Runs

section Cores

variable {platform : Platform}

/-- An edge is either whole and safe, or cut behind a character that no token holds. -/
theorem edgeCut_spec {safe : Bool} {text : List Char} {cut : Nat} (found : edgeCut platform safe text = some cut) :
    safe = true ∧ cut = 0 ∨ ∃ char, (text.take cut).getLast? = some char ∧ platform.isAlphanumeric char = false := by
  unfold edgeCut at found
  split at found
  · rename_i isSafe
    cases found
    exact .inl ⟨isSafe, rfl⟩
  split at found
  · cases found
  · rename_i separated
    cases found
    right
    have split := takeWhile_append_dropWhile (p := platform.isAlphanumeric) (l := text)
    have first := head?_dropWhile_not platform.isAlphanumeric text
    cases rest : text.dropWhile platform.isAlphanumeric with
    | nil =>
      rw [rest, append_nil] at split
      rw [← split] at separated
      exact absurd all_takeWhile separated
    | cons char later =>
      rw [rest] at split first
      refine ⟨char, ?_, by simpa using first⟩
      have shorter : text = (text.takeWhile platform.isAlphanumeric ++ [char]) ++ later := by
        rw [append_assoc]
        exact split.symm
      have taken (front : List Char) : (front ++ [char] ++ later).take (front.length + 1) = front ++ [char] :=
        take_left' (by simp)
      have whole := taken (text.takeWhile platform.isAlphanumeric)
      rw [← shorter] at whole
      rw [whole, getLast?_concat]

/-- The core of a run stands between two token boundaries in every text that holds the run at its place. -/
theorem trimRun_bounded {run : LiteralRun} {core before after : List Char} (trimmed : trimRun platform run = some core)
    (starts : run.atStart = true → before = []) (ends : run.atEnd = true → after = []) :
    ∃ front back, before ++ (run.text ++ after) = front ++ (core ++ back) ∧
      TokenBoundary platform front (core ++ back) ∧ TokenBoundary platform core back := by
  unfold trimRun at trimmed
  split at trimmed
  · rename_i left right leftCut rightCut
    split at trimmed
    · rename_i fits
      cases trimmed
      have parts : run.text = run.text.take left ++
          ((run.text.take (run.text.length - right)).drop left ++ run.text.drop (run.text.length - right)) := by
        have inner := take_append_drop left (run.text.take (run.text.length - right))
        rw [take_take, Nat.min_eq_left (by omega)] at inner
        rw [← append_assoc, inner, take_append_drop]
      have nonempty : 0 < ((run.text.take (run.text.length - right)).drop left).length := by
        rw [length_drop, length_take]
        omega
      refine ⟨before ++ run.text.take left, run.text.drop (run.text.length - right) ++ after, ?_, ?_, ?_⟩
      · conv_lhs => rw [parts]
        simp only [append_assoc]
      · rcases edgeCut_spec leftCut with ⟨safe, rfl⟩ | ⟨char, isLast, separates⟩
        · rcases (Bool.or_eq_true _ _).mp safe with atStart | separates
          · refine .inl ?_
            intro other same
            rw [starts atStart] at same
            cases same
          · refine .inr ?_
            intro other same
            rw [drop_zero] at nonempty same
            rw [head?_append_of_ne_nil _ (length_pos_iff.mp nonempty), head?_take] at same
            split at same
            · cases same
            · simpa [same] using separates
        · refine .inl ?_
          intro other same
          rw [getLast?_append, isLast] at same
          cases same
          exact separates
      · rcases edgeCut_spec rightCut with ⟨safe, rfl⟩ | ⟨char, isFirst, separates⟩
        · rcases (Bool.or_eq_true _ _).mp safe with atEnd | separates
          · refine .inr ?_
            intro other same
            rw [ends atEnd, Nat.sub_zero, drop_length] at same
            cases same
          · refine .inl ?_
            intro other same
            rw [Nat.sub_zero, take_length] at nonempty same
            rw [getLast?_drop, if_neg (by rw [length_drop] at nonempty; omega)] at same
            simpa [same] using separates
        · refine .inr ?_
          intro other same
          rw [take_reverse, getLast?_reverse] at isFirst
          rw [head?_append, isFirst] at same
          cases same
          exact separates
    · cases trimmed
  · cases trimmed

/-- The chosen core comes from one of the runs. -/
theorem exists_run_of_pickCore {runs : List LiteralRun} {core : List Char} :
    ∀ {best : Option (List Char)}, runs.foldl (pickCore platform) best = some core →
      best = some core ∨ ∃ run ∈ runs, trimRun platform run = some core := by
  induction runs with
  | nil =>
    intro best picked
    exact .inl picked
  | cons run runs ih =>
    intro best picked
    rcases ih picked with stepped | ⟨found, member, trimmed⟩
    · unfold pickCore at stepped
      split at stepped
      · exact .inl stepped
      · rename_i candidate trimmed
        -- Every branch keeps the best core or takes the core of this run.
        have either : best = some core ∨ some candidate = some core := by
          split at stepped
          · exact .inl stepped
          · cases best with
            | none => exact .inr stepped
            | some known =>
              simp only at stepped
              split at stepped
              · exact .inr stepped
              · exact .inl stepped
        rcases either with kept | taken
        · exact .inl kept
        · exact .inr ⟨run, mem_cons_self, trimmed.trans taken⟩
    · exact .inr ⟨found, mem_cons_of_mem _ member, trimmed⟩

end Cores

/-- The text that the parser compiles for a pattern. -/
def anchored (pattern : String) : String := "^(?:" ++ pattern ++ ")$"

/-- The compiled pattern of a regex matcher is its anchored value. -/
def LabelMatcher.Compiled (matcher : LabelMatcher) : Prop :=
  ∀ pattern, matcher.op = .re pattern ∨ matcher.op = .nre pattern → pattern = anchored matcher.value

/-- The regex engine on patterns of plain characters, wildcards and single quantifiers. -/
def PlainPatterns (regex : RegexMatch) : Prop :=
  ∀ pattern stripped items, stripAnchors pattern.toList = some stripped →
    stripped.any rejectedMetachars.contains = false → patternItems stripped = some items →
    ∀ subject : String, regex (anchored pattern) subject = matchesItems items subject.toList

section Words

variable {platform : Platform} {regex : RegexMatch}

theorem regexPruneLiteral_phrase (ascii : AsciiTables platform) (plain : PlainPatterns regex) {pattern literal : String}
    (found : regexPruneLiteral platform pattern = some literal) {body : String}
    (taken : regex (anchored pattern) body = true) : phraseMatch platform (utf8Bytes body) literal = true := by
  unfold regexPruneLiteral at found
  split at found
  · cases found
  · rename_i stripped anchors
    split at found
    · cases found
    · rename_i allowed
      split at found
      · cases found
      · rename_i runs ran
        obtain ⟨core, picked, rfl⟩ := Option.map_eq_some_iff.mp found
        rcases exists_run_of_pickCore picked with none | ⟨run, member, trimmed⟩
        · cases none
        · have empty : OpenAt [] [] none true := ⟨rfl, fun _ => rfl, fun _ _ same => by cases same⟩
          obtain ⟨items, read, isRun⟩ := literalRuns_runOf stripped true none empty ran
          rw [plain pattern stripped items anchors (by simpa using allowed) read] at taken
          obtain ⟨before, after, whole, starts, ends⟩ := isRun run member
          rw [nil_append] at whole
          rw [whole] at taken
          obtain ⟨front, back, split, nothingBefore, nothingAfter⟩ := exists_literal_of_matchesItems taken
          obtain ⟨left, right, bounded, leftBoundary, rightBoundary⟩ :=
            trimRun_bounded trimmed (fun atStart => nothingBefore (starts atStart)) fun atEnd => nothingAfter (ends atEnd)
          exact phraseMatch_of_bounded ascii (split.trans bounded) leftBoundary rightBoundary

/-- The word pushed for a matcher is a phrase of every body that the matcher takes. -/
theorem bodyPruneLiteral_phrase (ascii : AsciiTables platform) (plain : PlainPatterns regex) {matcher : LabelMatcher}
    (compiled : matcher.Compiled) {literal : String} (found : bodyPruneLiteral platform matcher = some literal)
    {body : String} (taken : matcher.matchesStr regex body = true) :
    phraseMatch platform (utf8Bytes body) literal = true := by
  unfold bodyPruneLiteral at found
  obtain ⟨found, _⟩ := Option.filter_eq_some_iff.mp found
  unfold LabelMatcher.matchesStr at taken
  cases op : matcher.op with
  | eq =>
    simp only [op, Option.some.injEq, beq_iff_eq] at found taken
    subst found taken
    have whole : matcher.value.toList = [] ++ (matcher.value.toList ++ []) := by simp
    have phrase := phraseMatch_of_bounded ascii whole (.inl (by simp)) (.inr (by simp))
    rw [String.ofList_toList] at phrase
    exact phrase
  | ne =>
    rw [op] at found
    cases found
  | re pattern =>
    simp only [op] at found taken
    rw [compiled pattern (.inl op)] at taken
    exact regexPruneLiteral_phrase ascii plain found taken
  | nre pattern =>
    rw [op] at found
    cases found

end Words

end Ravel.Promql
