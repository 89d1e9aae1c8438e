import ModuleLink.Plist.Render
import ModuleLink.Text.Search
import ModuleLink.Text.Splice
import ModuleLink.Xcode.Load
import ModuleLink.Xcode.Edit

/-!
Writing a graph back as edits of the text it was read from.  Objects that were not changed keep their bytes.
-/

namespace ModuleLink
namespace Xcode

open Plist Text

/-- Kinds whose objects are written on one line. -/
def isInlineKind (isa : String) : Bool := isa == "PBXBuildFile" || isa == "PBXFileReference"

/-- An object with its key, as it stands in the table. -/
def renderObject (o : Object) (indent : List Char) (inline wholeLine : Bool) : List Char :=
  let body := if inline then renderInline (.dict o.fields) else renderBlock indent (.dict o.fields)
  indent ++ renderScalar ⟨o.id, o.comment⟩ ++ " = ".toList ++ body ++ ";".toList ++
    if wholeLine then ['\n'] else []

/-- The indent of a new object. -/
def tableIndent : List Char := ['\t', '\t']

namespace Graph

/-- New objects that are still there, by kind. -/
def addedObjects (g : Graph) : List (String × List Object) :=
  (g.added.filterMap g.get?).foldl
    (fun done o => Dict.assign o.isa (((done.lookup o.isa).getD []) ++ [o]) done) []

/-- A section that had objects, has lost them all and gets none. -/
def isDropped (g : Graph) (s : Section) : Bool :=
  !s.members.isEmpty && s.members.all g.removed.contains && (g.addedObjects.lookup s.isa).isNone

/-- Takes out a section with one of the blank lines around it. -/
def dropSection (g : Graph) (s : Section) : Edit :=
  if startsWith ['\n'] (g.text.drop s.endStop) then ⟨s.beginStart, s.endStop + 1, []⟩
  else if 2 ≤ s.beginStart && startsWith ['\n', '\n'] (g.text.drop (s.beginStart - 2)) then
    ⟨s.beginStart - 1, s.endStop, []⟩
  else ⟨s.beginStart, s.endStop, []⟩

def removalEdits (g : Graph) : List Edit :=
  let swallowed := (g.sections.filter g.isDropped).flatMap Section.members
  g.removed.filterMap fun id =>
    match g.spans.lookup id with
    | some span => if swallowed.contains id then none else some ⟨span.start, span.stop, []⟩
    | none => none

def changeEdits (g : Graph) : List Edit :=
  g.touched.filterMap fun id =>
    match g.spans.lookup id, g.get? id with
    | some span, some o =>
      if g.removed.contains id then none
      else some ⟨span.start, span.stop, renderObject o span.indent span.inline span.wholeLine⟩
    | _, _ => none

/-- The first of the sections that sort after a kind, by place. -/
def sectionAfter (g : Graph) (isa : String) : Option Section :=
  ((g.sections.filter fun s => isa < s.isa && !g.isDropped s).mergeSort fun a b =>
    decide (a.beginStart ≤ b.beginStart)).head?

/-- The start of the line on which the table ends. -/
def lastLineStart (g : Graph) : Nat :=
  g.tableEnd - ((g.text.take g.tableEnd).reverse.takeWhile (· != '\n')).length

/-- The new objects of a kind go into its section, each before the first member that sorts after it, or into a new
section. -/
def insertionEdits (g : Graph) (isa : String) (objects : List Object) : List Edit :=
  let sorted := objects.mergeSort fun a b => decide (a.id ≤ b.id)
  let render (o : Object) : List Char := renderObject o tableIndent (isInlineKind isa) true
  match (g.sections.filter fun s => s.isa == isa).head? with
  | some s =>
    sorted.map fun o =>
      let place := match ((s.members.filter fun m => o.id < m).head?).bind fun m => g.spans.lookup m with
        | some span => span.start
        | none => s.endStart
      ⟨place, place, render o⟩
  | none =>
    let body := "/* Begin ".toList ++ isa.toList ++ " section */\n".toList ++ sorted.flatMap render ++
      "/* End ".toList ++ isa.toList ++ " section */\n".toList
    match g.sectionAfter isa with
    | some s => [⟨s.beginStart, s.beginStart, body ++ ['\n']⟩]
    | none => [⟨g.lastLineStart, g.lastLineStart, '\n' :: body⟩]

def edits (g : Graph) : List Edit :=
  (g.sections.filter g.isDropped).map g.dropSection ++ g.removalEdits ++ g.changeEdits ++
    (g.addedObjects.mergeSort fun a b => decide (a.1 ≤ b.1)).flatMap fun (isa, os) => g.insertionEdits isa os

/-- The text of the graph. -/
def serialise (g : Graph) : Except Fault (List Char) :=
  if !g.isModified then .ok g.text
  else
    match applyEdits g.text g.edits with
    | .ok text => .ok text
    | .error e => .error (.overlappingEdits e.start g.source)

/-- The graph read again from its text, if anything was changed. -/
def reloaded (g : Graph) : Except Fault (Option Graph) := do
  if !g.isModified then .ok none
  else
    let text ← g.serialise
    let fresh ← Graph.load g.source text
    .ok (some fresh)

end Graph
end Xcode
end ModuleLink
