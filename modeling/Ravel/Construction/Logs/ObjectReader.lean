/-
This file models the RLOG reader: record reconstruction, exact evaluation and block pruning.
-/

import Ravel.Construction.Logs.ObjectIndexes

namespace Ravel.Logs

/-- `get_attr_value`: the value of a row in a dynamic column. -/
def getAttrValue (row : ResolvedRow) (column : Column) : Option AttrValue :=
  match column.ty, cellOf row.columns column.columnId with
  | .str, some (.str bytes) => (String.fromUTF8? bytes.toByteArray).map .str
  | .bytes, some (.bytes bytes) => some (.bytes bytes)
  | .i64, some (.i64 value) => some (.i64 value)
  | .f64, some (.f64 bits) => some (.f64 bits)
  | .bool, some (.bool value) => some (.bool value)
  | _, _ => none

/-- The overflow attributes of a row. -/
def overflowAttrs (row : ResolvedRow) : Except LogSegError (List (String × AttrValue)) :=
  match row.attrsRaw with
  | some raw => decodeCanonicalAttrs raw
  | none => .ok []

/-- The text of an attribute value in the `attrs` map. -/
def attrValueToString (platform : Platform) : AttrValue → String
  | .str text => text
  | .i64 value => toString value.toInt
  | .f64 bits => platform.f64ToString bits
  | .bool value => toString value
  | .bytes bytes => hexLower bytes
  | .list items => hexLower (canonicalValueBytes (.list items))
  | .map entries => hexLower (canonicalValueBytes (.map entries))

namespace RlogObject

/-- The rebuilt record: its columns in directory order, then its overflow. -/
def rebuildRecord (object : RlogObject) (row : ResolvedRow) : Except LogSegError RlogRecord := do
  match object.streamDir[row.streamRef]? with
  | none => throw (.corrupted "stream_ref out of range")
  | some stream =>
    let columnar := object.fieldDir.filterMap fun column =>
      (getAttrValue row column).map fun value => (column.name, value)
    let overflow ← overflowAttrs row
    return {
      streamAttrs := stream.2
      tsNs := row.tsNs
      attrs := columnar ++ overflow
      streamId := stream.1
      observedTsNs := row.observedTsNs
      severityNum := row.severityNum
      severityText := row.severityText
      body := row.body
      traceId := row.traceId
      spanId := row.spanId
      flags := row.flags }

def rows (object : RlogObject) : List ResolvedRow := object.blocks.flatten

/-- Every row of the object, rebuilt. -/
def readRecords (object : RlogObject) : Except LogSegError (List RlogRecord) :=
  object.rows.mapM object.rebuildRecord

/-- The directory entry of a `(name, type)` pair. -/
def column (object : RlogObject) (name : String) (ty : FieldType) : Option Column :=
  object.fieldDir.find? fun column => column.name = name && column.ty = ty

end RlogObject

/-- The field of a predicate arm. -/
inductive FieldSel where
  | body
  | severityText
  | attr (name : String)
  deriving DecidableEq, Repr

/-- A content predicate. The prune-only numeric arms are not content. -/
inductive Predicate where
  | and (arms : List Predicate)
  | tsRange (minNs maxNs : Int)
  | streamIn (ids : List LogStreamId)
  | hasWord (field : FieldSel) (word : String)
  | equals (field : FieldSel) (value : AttrValue)
  | contains (key needle : String) (negated : Bool)

/-- Float equality by value: no NaN equals anything and the zeros are equal. -/
def f64Eq (left right : UInt64) : Bool :=
  !f64IsNan left && !f64IsNan right &&
    (left == right || (left &&& 0x7fffffffffffffff == 0 && right &&& 0x7fffffffffffffff == 0))

/- The derived equality of attribute values. -/
mutual

def attrValuePartialEq : AttrValue → AttrValue → Bool
  | .str left, .str right => left == right
  | .i64 left, .i64 right => left == right
  | .f64 left, .f64 right => f64Eq left right
  | .bool left, .bool right => left == right
  | .bytes left, .bytes right => left == right
  | .list left, .list right => attrItemsPartialEq left right
  | .map left, .map right => attrEntriesPartialEq left right
  | _, _ => false

def attrItemsPartialEq : List AttrValue → List AttrValue → Bool
  | [], [] => true
  | left :: lefts, right :: rights => attrValuePartialEq left right && attrItemsPartialEq lefts rights
  | _, _ => false

def attrEntriesPartialEq : List (String × AttrValue) → List (String × AttrValue) → Bool
  | [], [] => true
  | (leftKey, left) :: lefts, (rightKey, right) :: rights =>
    leftKey == rightKey && attrValuePartialEq left right && attrEntriesPartialEq lefts rights
  | _, _ => false

end

/-- Equality of a stored value and a query value: floats by bits, lists and maps by canonical bytes. -/
def attrValueEq (stored query : AttrValue) : Bool :=
  match stored, query with
  | .f64 left, .f64 right => left == right
  | .bytes left, .list items => left == canonicalValueBytes (.list items)
  | .bytes left, .map entries => left == canonicalValueBytes (.map entries)
  | .list items, .bytes right => canonicalValueBytes (.list items) == right
  | .map entries, .bytes right => canonicalValueBytes (.map entries) == right
  | left, right => attrValuePartialEq left right

/-- The query tokens occur in order and without a gap. -/
def phraseMatch (platform : Platform) (value : List UInt8) (word : String) : Bool :=
  let query := tokens platform word
  if query.isEmpty then true
  else
    match String.fromUTF8? value.toByteArray with
    | none => false
    | some text => (tokens platform text).tails.any fun tail => query.isPrefixOf tail

/-- The needle occurs as a contiguous run of bytes. -/
def containsBytes (hay needle : List UInt8) : Bool :=
  hay.tails.any fun tail => needle.isPrefixOf tail

/-- The string cell of a row. -/
def strAt (row : ResolvedRow) (columnId : Nat) : Option (List UInt8) :=
  match cellOf row.columns columnId with
  | some (.str bytes) => some bytes
  | some (.bytes bytes) => some bytes
  | _ => none

def overflowAttr (row : ResolvedRow) (name : String) : Except LogSegError (Option AttrValue) := do
  return ((← overflowAttrs row).find? fun attr => attr.1 = name).map Prod.snd

namespace RlogObject

/-- The verdict of a `Contains` arm on the value of a stream. -/
def streamContains (object : RlogObject) (streamRef : Nat) (key : String) (negated : Bool)
    (test : List UInt8 → Bool) : Except LogSegError Bool := do
  match object.streamDir[streamRef]? with
  | none => throw (.corrupted "stream_ref out of range")
  | some stream =>
    let pairs ← streamAttrPairs stream.2
    match (pairs.filter fun pair => !isNested pair.2).find? fun pair => pair.1 = key with
    | some (_, .str value) => return test (utf8Bytes value) != negated
    | _ => return false

/-- The text of a field of a row. -/
def fieldText (object : RlogObject) (field : FieldSel) (row : ResolvedRow) :
    Except LogSegError (Option (List UInt8)) :=
  match field with
  | .body => .ok (some (utf8Bytes row.body))
  | .severityText => .ok (some (utf8Bytes row.severityText))
  | .attr name =>
    match object.column name .str with
    | some column => .ok (strAt row column.columnId)
    | none => do
      match ← overflowAttr row name with
      | some (.str value) => return some (utf8Bytes value)
      | _ => return none

def attrEquals (row : ResolvedRow) (column : Column) (value : AttrValue) : Bool :=
  match getAttrValue row column with
  | some stored => attrValueEq stored value
  | none => false

def equals (object : RlogObject) (field : FieldSel) (value : AttrValue) (row : ResolvedRow) :
    Except LogSegError Bool :=
  match field with
  | .body =>
    match value with
    | .str text => .ok (utf8Bytes text == utf8Bytes row.body)
    | _ => .ok false
  | .severityText =>
    match value with
    | .str text => .ok (utf8Bytes text == utf8Bytes row.severityText)
    | _ => .ok false
  | .attr name =>
    match object.column name (resolveValue value).1 with
    | some column => .ok (attrEquals row column value)
    | none => do
      match ← overflowAttr row name with
      | some stored => return attrValueEq stored value
      | none => return false

/-- The row carries the key in a column of another type. -/
def otherTyped (object : RlogObject) (key : String) (row : ResolvedRow) : Bool :=
  object.fieldDir.any fun column =>
    column.name = key && column.ty ≠ .str && (getAttrValue row column).isSome

/-- The valid text cell of a row for a key. -/
def textCell (object : RlogObject) (key : String) (row : ResolvedRow) : Option (List UInt8) :=
  ((object.column key .str).bind fun column => strAt row column.columnId).filter fun bytes =>
    (String.fromUTF8? bytes.toByteArray).isSome

def evalContains (object : RlogObject) (key needle : String) (negated : Bool) (row : ResolvedRow) :
    Except LogSegError Bool := do
  let stream ← object.streamContains row.streamRef key negated fun value => containsBytes value (utf8Bytes needle)
  let pass := match object.textCell key row with
    | some cell => containsBytes cell (utf8Bytes needle) != negated
    | none => stream
  if pass || object.otherTyped key row then return true
  else return (← overflowAttr row key).isSome

/- The exact filter on one row. -/
mutual

def eval (platform : Platform) (object : RlogObject) (row : ResolvedRow) : Predicate → Except LogSegError Bool
  | .and arms => evalAll platform object row arms
  | .tsRange minNs maxNs => .ok (minNs ≤ row.tsNs && row.tsNs ≤ maxNs)
  | .streamIn ids =>
    match object.streamDir[row.streamRef]? with
    | some stream => .ok (ids.contains stream.1)
    | none => .ok false
  | .hasWord field word => do
    match ← object.fieldText field row with
    | some bytes => return phraseMatch platform bytes word
    | none => return false
  | .equals field value => object.equals field value row
  | .contains key needle negated => object.evalContains key needle negated row

def evalAll (platform : Platform) (object : RlogObject) (row : ResolvedRow) : List Predicate → Except LogSegError Bool
  | [] => .ok true
  | arm :: arms => do if ← eval platform object row arm then evalAll platform object row arms else return false

end

end RlogObject

/- The arms of a predicate without its conjunctions. -/
mutual

def Predicate.flatten : Predicate → List Predicate
  | .and arms => flattenAll arms
  | arm => [arm]

def flattenAll : List Predicate → List Predicate
  | [] => []
  | arm :: arms => arm.flatten ++ flattenAll arms

end

/-- A timestamp window. Nothing is the full range of `i64`. -/
abbrev TsWindow := Option (Int × Int)

def TsWindow.meet (window : TsWindow) (minNs maxNs : Int) : TsWindow :=
  match window with
  | none => some (minNs, maxNs)
  | some (low, high) => some (max low minNs, min high maxNs)

def TsWindow.isEmpty (window : TsWindow) : Bool :=
  match window with
  | none => false
  | some (low, high) => high < low

def TsWindow.misses (window : TsWindow) (bounds : SkipBounds) : Bool :=
  match window with
  | none => false
  | some (low, high) => bounds.maxTs < low || high < bounds.minTs

/-- The intersection of the timestamp arms. -/
def tsWindow (arms : List Predicate) : TsWindow :=
  arms.foldl (fun window arm =>
    match arm with
    | .tsRange minNs maxNs => window.meet minNs maxNs
    | _ => window) none

def refsMiss (refs : Option (List Nat)) (bounds : SkipBounds) : Bool :=
  match refs with
  | none => false
  | some refs => !refs.any fun streamRef => bounds.minStreamRef ≤ streamRef && streamRef ≤ bounds.maxStreamRef

/-- The blocks whose bounds do not rule out the window and the streams, group by group. -/
def SkipIndex.candidateBlocks (skip : SkipIndex) (window : TsWindow) (refs : Option (List Nat)) : List Nat :=
  skip.l1.zipIdx.flatMap fun group =>
    if window.misses group.1 || refsMiss refs group.1 then []
    else
      (((skip.l0.drop (group.2 * skipFanout)).take skipFanout).zipIdx).filterMap fun entry =>
        if window.misses entry.1.bounds || refsMiss refs entry.1.bounds then none
        else some (group.2 * skipFanout + entry.2)

namespace RlogObject

/-- The stream refs of ids. An id without a stream has none. -/
def streamRefs (object : RlogObject) (ids : List LogStreamId) : List Nat :=
  ids.filterMap fun id => object.streamDir.findIdx? fun stream => stream.1 = id

/-- The intersection of the stream arms. -/
def streamFilter (object : RlogObject) (arms : List Predicate) : Option (List Nat) :=
  arms.foldl (fun refs arm =>
    match arm with
    | .streamIn ids =>
      match refs with
      | none => some (object.streamRefs ids)
      | some previous => some (previous.filter (object.streamRefs ids).contains)
    | _ => refs) none

def postingsArms (object : RlogObject) (arms : List Predicate) : List (Nat × List UInt8) :=
  arms.filterMap fun arm =>
    match arm with
    | .equals (.attr name) value =>
      (object.column name (resolveValue value).1).map fun column =>
        (column.columnId, termKey (resolveValue value).2)
    | _ => none

def nameHasNonStrColumn (object : RlogObject) (name : String) : Bool :=
  object.fieldDir.any fun column => column.name = name && column.ty ≠ .str

/-- A string literal on a name with a column of another type is declined. -/
def prunePostingsArms (object : RlogObject) (arms : List Predicate) : List (Nat × List UInt8) :=
  arms.filterMap fun arm =>
    match arm with
    | .equals (.attr name) value =>
      if (resolveValue value).1 = .str && object.nameHasNonStrColumn name then none
      else
        (object.column name (resolveValue value).1).map fun column =>
          (column.columnId, termKey (resolveValue value).2)
    | _ => none

def wordColumn (object : RlogObject) : FieldSel → Option Nat
  | .body => some colBody
  | .severityText => some colSeverityText
  | .attr name => (object.column name .str).map Column.columnId

def bloomArms (platform : Platform) (object : RlogObject) (arms : List Predicate) : List (Nat × List (List UInt8)) :=
  let covered (field : FieldSel) := (object.wordColumn field).filter object.bloomCovered.contains
  arms.filterMap fun arm =>
    match arm with
    | .hasWord field word =>
      (covered field).bind fun columnId =>
        if (tokens platform word).isEmpty then none else some (columnId, tokens platform word)
    | .equals field (.str text) =>
      if (utf8Bytes text).length ≤ 64 then (covered field).map fun columnId => (columnId, [utf8Bytes text])
      else none
    | _ => none

def blockPrunedByBloom (platform : Platform) (object : RlogObject) (block : Nat)
    (arms : List (Nat × List (List UInt8))) : Bool :=
  match object.bloom[block]? with
  | none => false
  | some filter => arms.any fun arm => !arm.2.all fun token => filter.mayContain platform arm.1 token

/-- The blocks that survive the posting lists of the arms. -/
def retainPosted (object : RlogObject) (candidates : List Nat) (arms : List (Nat × List UInt8)) : List Nat :=
  arms.foldl (fun candidates arm =>
    match probePostings object.postings arm.1 arm.2 with
    | some blocks => candidates.filter blocks.contains
    | none => candidates) candidates

/-- `scan_blocks`: the surviving blocks of a content predicate and a prune channel. -/
def scanBlocks (platform : Platform) (object : RlogObject) (content : Predicate) (prune : List Predicate) : List Nat :=
  let arms := content.flatten
  let pruneArms := flattenAll prune
  let window := tsWindow arms
  let refs := object.streamFilter arms
  if window.isEmpty || refs.any List.isEmpty then []
  else
    let candidates := object.skip.candidateBlocks window refs
    let posted := object.retainPosted candidates (object.postingsArms arms ++ object.prunePostingsArms pruneArms)
    let bloom := object.bloomArms platform arms
    posted.filter fun block => !object.blockPrunedByBloom platform block bloom

end RlogObject

/-- One arm of the content predicate, resolved against the directories. -/
inductive Arm where
  | ts (minNs maxNs : Int)
  | stream (refs : List Nat)
  | textEq (field : FieldSel) (target : List UInt8)
  | columnEq (column : Column) (value : AttrValue)
  | word (field : FieldSel) (word : String)
  | containsArm (key needle : String) (negated : Bool)
  | never
  | overflow (arm : Predicate)

namespace RlogObject

/-- `compile_arms` on one flattened arm. -/
def compileArm (object : RlogObject) : Predicate → Option Arm
  | .and _ => none
  | .tsRange minNs maxNs => some (.ts minNs maxNs)
  | .streamIn ids => some (.stream (object.streamRefs ids))
  | .hasWord (.attr name) word =>
    match object.column name .str with
    | some _ => some (.word (.attr name) word)
    | none => some (.overflow (.hasWord (.attr name) word))
  | .hasWord field word => some (.word field word)
  | .equals (.attr name) value =>
    match object.column name (resolveValue value).1 with
    | some column => some (.columnEq column value)
    | none => some (.overflow (.equals (.attr name) value))
  | .equals field (.str text) => some (.textEq field (utf8Bytes text))
  | .equals _ _ => some .never
  | .contains key needle negated => some (.containsArm key needle negated)

/-- The kernel of an equality arm compares the stored value in its storage form. -/
def columnEqRow (column : Column) (value : AttrValue) (row : ResolvedRow) : Bool :=
  cellOf row.columns column.columnId == some (resolveValue value).2

/-- The kernel of an arm on one row. -/
def armKeeps (platform : Platform) (object : RlogObject) (row : ResolvedRow) : Arm → Except LogSegError Bool
  | .ts minNs maxNs => .ok (minNs ≤ row.tsNs && row.tsNs ≤ maxNs)
  | .stream refs => .ok (refs.contains row.streamRef)
  | .textEq field target => do return (← object.fieldText field row) == some target
  | .columnEq column value => .ok (columnEqRow column value row)
  | .word field word => do
    match ← object.fieldText field row with
    | some bytes => return phraseMatch platform bytes word
    | none => return false
  | .containsArm key needle negated => object.evalContains key needle negated row
  | .never => .ok false
  | .overflow arm => object.eval platform row arm

/-- The bounds of a block prove the arm for every row. -/
def holdsForBlock (arm : Arm) (bounds : SkipBounds) : Bool :=
  match arm with
  | .ts minNs maxNs => bounds.minTs ≤ bounds.maxTs && minNs ≤ bounds.minTs && bounds.maxTs ≤ maxNs
  | .stream refs =>
    bounds.minStreamRef ≤ bounds.maxStreamRef &&
      (refs.dedup.filter fun streamRef =>
        bounds.minStreamRef ≤ streamRef && streamRef ≤ bounds.maxStreamRef).length =
        bounds.maxStreamRef - bounds.minStreamRef + 1
  | _ => false

def Arm.isOverflow : Arm → Bool
  | .overflow _ => true
  | _ => false

end RlogObject

/-- The rows that a test keeps. The first error ends the walk. -/
def retainRows (keep : ResolvedRow → Except LogSegError Bool) : List ResolvedRow → Except LogSegError (List ResolvedRow)
  | [] => .ok []
  | row :: rest => do
    let kept ← keep row
    let later ← retainRows keep rest
    return if kept then row :: later else later

namespace RlogObject

/-- `block_survivors`: the column arms that the bounds leave open, then the overflow arms. -/
def blockSurvivors (platform : Platform) (object : RlogObject) (arms : List Arm) (bounds : SkipBounds)
    (rows : List ResolvedRow) : Except LogSegError (List ResolvedRow) :=
  let live := arms.filter fun arm => !holdsForBlock arm bounds
  let ordered := live.filter (fun arm => !Arm.isOverflow arm) ++ live.filter Arm.isOverflow
  ordered.foldlM (fun rows arm => retainRows (fun row => object.armKeeps platform row arm) rows) rows

/-- The records of one surviving block. -/
def scanBlock (platform : Platform) (object : RlogObject) (content : Predicate) (block : Nat) :
    Except LogSegError (List RlogRecord) := do
  match object.skip.l0[block]?, object.blocks[block]? with
  | some entry, some rows =>
    let arms := content.flatten.filterMap object.compileArm
    let survivors ← object.blockSurvivors platform arms entry.bounds rows
    survivors.mapM object.rebuildRecord
  | _, _ => throw (.corrupted "skip block index out of range")

/-- `scan_pruned`: the records of the surviving blocks, in stored order. -/
def scanPruned (platform : Platform) (object : RlogObject) (content : Predicate) (prune : List Predicate) :
    Except LogSegError (List RlogRecord) := do
  return (← (object.scanBlocks platform content prune).mapM (object.scanBlock platform content)).flatten

def scan (platform : Platform) (object : RlogObject) (content : Predicate) : Except LogSegError (List RlogRecord) :=
  object.scanPruned platform content []

/-- The row-by-row oracle: the records of the rows on which the content predicate holds. -/
def scanExact (platform : Platform) (object : RlogObject) (content : Predicate) :
    Except LogSegError (List RlogRecord) := do
  (← retainRows (fun row => object.eval platform row content) object.rows).mapM object.rebuildRecord

end RlogObject

end Ravel.Logs
