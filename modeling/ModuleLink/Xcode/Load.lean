import ModuleLink.Plist.Scan
import ModuleLink.Fault
import ModuleLink.Xcode.Graph

/-!
Reading a project text into a graph: the table, the span of every object and the sections.
-/

namespace ModuleLink
namespace Xcode

open Plist

/-- The key of the object table. -/
def tableKey : String := "objects"

namespace Reason

def message : Plist.Reason → String
  | .unterminatedComment => "unterminated comment"
  | .unterminatedList => "unterminated list"
  | .unterminatedDictionary => "unterminated dictionary"
  | .expectedValue => "expected a value"
  | .expectedSeparator => "expected ',' or ')'"
  | .expected c => "expected '" ++ String.singleton c ++ "'"
  | .trailingContent => "unexpected content after the root dictionary"
  | .noObjects => "no objects table"

end Reason

/-! ## Spans -/

/-- The text before `left` on its line, where `left` is the end of `text`. -/
def lineBefore (text left : List Char) : List Char :=
  ((text.take (text.length - left.length)).reverse.takeWhile (· != '\n')).reverse

/-- The span of an entry of the table: whole lines if only blank characters share them. -/
def spanOf (text : List Char) (m : Member) : Span :=
  let start := text.length - m.opened.length
  let stop := text.length - m.closed.length
  let indent := lineBefore text m.opened
  let tail := m.closed.takeWhile (· != '\n')
  if Text.isBlankText indent && Text.isBlankText tail then
    let lineEnd := stop + tail.length
    ⟨start - indent.length, if lineEnd < text.length then lineEnd + 1 else lineEnd, indent, true, m.inline⟩
  else ⟨start, stop, [], false, m.inline⟩

/-- The spans of all tables; of two entries with one key the later counts. -/
def spansOf (text : List Char) (tables : List ObjectTable) : List (String × Span) :=
  (tables.flatMap ObjectTable.members).foldl (fun done m => Dict.assign m.key.value (spanOf text m) done) []

/-! ## Sections -/

/-- A line that opens or closes a section, with its place. -/
structure Marker where
  opens : Bool
  isa : String
  start : Nat
  stop : Nat

/-- The kind named by a marker line. -/
def markerOf? (line : List Char) : Option (Bool × String) :=
  let named (opens : Bool) (rest : List Char) : Option (Bool × String) :=
    let isa := rest.takeWhile Text.isWord
    if !isa.isEmpty && Text.startsWith " section */".toList (rest.dropWhile Text.isWord) then
      some (opens, String.ofList isa)
    else none
  match Text.after? "/* Begin ".toList line with
  | some rest => named true rest
  | none => (Text.after? "/* End ".toList line).bind (named false)

/-- The lines of a text, each with its place. -/
def linesFrom (offset : Nat) (cs : List Char) : List (Nat × List Char) :=
  match _h : cs with
  | [] => []
  | _ :: _ =>
    let line := cs.takeWhile (· != '\n')
    (offset, line) :: linesFrom (offset + line.length + 1) (cs.drop (line.length + 1))
termination_by cs.length
decreasing_by subst _h; simp only [List.length_drop, List.length_cons]; omega

def markers (text : List Char) : List Marker :=
  (linesFrom 0 text).filterMap fun (start, line) =>
    (markerOf? line).map fun (opens, isa) => ⟨opens, isa, start, min (start + line.length + 1) text.length⟩

/-- Pairs every closing marker with the last marker that opens its kind. -/
def pairMarkers : List Marker → (openMarkers : List (String × Marker)) → List (String × Section) →
    List (String × Section)
  | [], _, done => done
  | m :: rest, openMarkers, done =>
    if m.opens then pairMarkers rest ((m.isa, m) :: openMarkers) done
    else
      match openMarkers.lookup m.isa with
      | some b =>
        pairMarkers rest (openMarkers.filter fun e => e.1 ≠ m.isa)
          (Dict.assign m.isa ⟨m.isa, b.start, b.stop, m.start, m.stop, []⟩ done)
      | none => pairMarkers rest openMarkers done

/-- The object lies between the markers. -/
def Section.encloses (s : Section) (span : Span) : Bool :=
  s.beginStop ≤ span.start && span.stop ≤ s.endStart

def sectionsOf (text : List Char) (tableEnd : Nat) (objects : List Object) (spans : List (String × Span)) :
    List Section :=
  let isaOf (id : String) : Option String := (objects.find? (·.id == id)).map Object.isa
  (pairMarkers (markers (text.take tableEnd)) [] []).map fun (_, s) =>
    { s with members := (spans.filter fun (id, span) => isaOf id == some s.isa && s.encloses span).map (·.1) }

/-! ## The graph -/

/-- The table as objects; every entry has to be a dictionary. -/
def objectsOf (source : String) (table : Dict Value) : Except Fault (List Object) :=
  table.entries.mapM fun (id, v) =>
    match v with
    | .dict fields => .ok ⟨id, fields, (table.spelling id).comment⟩
    | _ => .error (.badProject source ("object " ++ id ++ " is not a dictionary") none)

namespace Graph

def load (source : String) (text : List Char) : Except Fault Graph := do
  match document tableKey text with
  | .error stop =>
    let line := Text.newlines text - Text.newlines stop.left + 1
    .error (.badProject source (Reason.message stop.reason) (some line))
  | .ok (root, tables) =>
    let last := tables.getLastD ⟨[], []⟩
    let objects ← Xcode.objectsOf source (Dict.ofMembers last.members)
    let spans := spansOf text tables
    match spans.find? fun (id, _) => !objects.any (·.id == id) with
    | some (id, _) => .error (.unlisted id)
    | none =>
      let tableEnd := text.length - last.close.length
      .ok {
        source := source
        text := text
        root := root
        tableEnd := tableEnd
        objects := objects
        index := objects.foldl (fun ix o => indexInsert o.isa o.id ix) []
        spans := spans
        sections := sectionsOf text tableEnd objects spans }

end Graph

end Xcode
end ModuleLink
