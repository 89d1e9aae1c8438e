import ModuleLink.Markup.Document
import ModuleLink.Overrides
import ModuleLink.Patch.Anchor
import ModuleLink.Tree.Walk

/-!
Where the parts of an Android project are: the source folder, the manifest, and the names written in it and in the
build script.
-/

namespace ModuleLink
namespace Android

/-! ## Folders -/

/-- The source folder below a folder: nested, flat, or not there. -/
def appFolder? (t : Tree) (folder : Path) : Except Fault (Option String) := do
  let android := folder.child "android"
  if !(← t.isFolder android) then return none
  else if ← t.isFolder (android.child "app") then return some "android/app"
  else return some "android"

/-- The source folder, and whether the layout is flat. -/
def sourceDir? (t : Tree) (folder : Path) (settings : Table) : Except Fault (Option (Path × Bool)) := do
  match ← Overrides.path? settings "sourceDir" folder with
  | some dir =>
    if ← t.isFolder dir then return some (dir, dir.name != "app") else return none
  | none =>
    match ← appFolder? t folder with
    | some name => return some (folder / name, name == "android")
    | none => return none

/-- Folders that hold nothing but products and other packages. -/
def skipped : List String := ["build", "debug", "node_modules"]

/-! ## The manifest -/

def manifestName : String := "AndroidManifest.xml"

/-- The manifest in the standard place, or the first one on a walk. -/
def findManifest (t : Tree) (sourceDir : Path) : Except Fault (Option Path) := do
  let standard := ((sourceDir.child "src").child "main").child manifestName
  if ← t.isFile standard then return some standard
  else
    let visits := t.walk sourceDir fun name => !skipped.contains name
    return (visits.find? fun v => v.fileNames.contains manifestName).map fun v =>
      (v.at_.foldl Path.child sourceDir).child manifestName

/-- The manifest that the settings name, which has to be there, or the one that is found. -/
def manifest? (t : Tree) (sourceDir : Path) (settings : Table) : Except Fault (Option Path) := do
  match ← Overrides.path? settings "manifestPath" sourceDir with
  | none => findManifest t sourceDir
  | some path => if ← t.isFile path then return some path else throw (.noManifest path.toString)

/-- The package that a manifest names, if it names one. -/
def manifestPackage (t : Tree) (manifest : Path) : Except Fault (Option String) := do
  match Markup.read (← t.read manifest) with
  | .malformed => throw .malformedMarkup
  | .unknownEncoding => throw .unknownEncoding
  | .root tag => return (tag.attribute? "package").filter (!·.isEmpty)

/-! ## The build script -/

def scriptNames : List String := ["build.gradle", "build.gradle.kts"]

def isNamespaceChar (c : Char) : Bool := Text.isWord c || c == '.'

/-- A name between quotes of either kind. -/
def quotedNamespace? (cs : List Char) : Option String := do
  let cs ← Patch.quoteMark? cs
  let name := cs.takeWhile isNamespaceChar
  let _ ← Patch.quoteMark? (cs.dropWhile isNamespaceChar)
  if name.isEmpty then none else return String.ofList name

/-- The namespace that is set at the front, blanks aside. -/
def namespaceAt? (cs : List Char) : Option String := do
  let cs ← Text.after? "namespace".toList (cs.dropWhile Text.isBlank)
  let cs := Patch.optional '=' (cs.dropWhile Text.isBlank)
  quotedNamespace? (cs.dropWhile Text.isBlank)

/-- What is found first at the starts of the lines of a text. -/
def firstOnLine? {α : Type} (at? : List Char → Option α) (fresh : Bool) : List Char → Option α
  | [] => if fresh then at? [] else none
  | c :: cs =>
    match if fresh then at? (c :: cs) else none with
    | some a => some a
    | none => firstOnLine? at? (c == '\n') cs

def namespaceIn? (script : List Char) : Option String := firstOnLine? namespaceAt? true script

/-- The namespace in the build scripts of a source folder. -/
def gradleNamespace (t : Tree) (sourceDir : Path) : Except Fault (Option String) :=
  scriptNames.foldlM (fun found name => do
    match found with
    | some n => return some n
    | none =>
      let script := sourceDir.child name
      if ← t.isFile script then return namespaceIn? (← t.readLossy script).toList else return none) none

end Android
end ModuleLink
