import ModuleLink.Android.Config
import ModuleLink.Android.Naming
import ModuleLink.Android.StringResources
import ModuleLink.Patch.Basic

/-!
The texts that make a library part of an Android app.
-/

namespace ModuleLink
namespace Android

open Patch

/-! ## Placeholders -/

/-- A placeholder at the front: the name in it, and what follows. -/
def placeholder? (cs : List Char) : Option (List Char × List Char) :=
  match cs with
  | '$' :: '\x7b' :: rest =>
    let name := rest.takeWhile Text.isWord
    match rest.dropWhile Text.isWord with
    | '\x7d' :: after => if name.isEmpty then none else some (name, after)
    | _ => none
  | _ => none

theorem placeholder?_length {cs name after : List Char} (h : placeholder? cs = some (name, after)) :
    after.length < cs.length := by
  unfold placeholder? at h
  split at h
  · rename_i rest
    simp only at h
    split at h
    · rename_i after' heq
      have := (List.dropWhile_suffix (l := rest) Text.isWord).length_le
      split at h
      · contradiction
      · simp only [Option.some.injEq, Prod.mk.injEq] at h
        obtain ⟨-, rfl⟩ := h
        rw [heq] at this
        simp only [List.length_cons] at *; omega
    · contradiction
  · contradiction

/-- How a param is looked up, or nothing if it has no value. -/
def lookup (params : Answers) (stem : String) (name : List Char) : List Char :=
  match params.lookup (String.ofList name) with
  | some value =>
    if value.isEmpty then "null".toList
    else "getResources().getString(R.string.".toList ++ stem.toList ++ ['_'] ++ name ++ [')']
  | none => "null".toList

/-- The text with every placeholder replaced. -/
def fillChars (params : Answers) (stem : String) (cs : List Char) : List Char :=
  match _h : cs with
  | [] => []
  | c :: rest =>
    match _hp : placeholder? (c :: rest) with
    | some (name, after) => lookup params stem name ++ fillChars params stem after
    | none => c :: fillChars params stem rest
termination_by cs.length
decreasing_by
  · subst _h; exact placeholder?_length _hp
  · subst _h; simp

def fill (text : String) (params : Answers) (stem : String) : String :=
  String.ofList (fillChars params stem text.toList)

/-! ## Insertions -/

/-- The name of a library as an included project. -/
def includeInsertion (name : String) (sourceDir settings here : Path) (app : String) : Insertion :=
  let project := projectName name
  let dir := (Path.relative here sourceDir settings.parent).toString
  { name := "settings.gradle"
    anchor := some (.includeLine app)
    text := "include ':" ++ project ++ "'\nproject(':" ++ project ++
      "').projectDir = new File(rootProject.projectDir, '" ++ dir ++ "')\n" }

def buildInsertion (name : String) : Insertion :=
  { name := "build.gradle"
    anchor := some .dependenciesLine
    text := "    implementation project(':" ++ projectName name ++ "')\n" }

def stringsInsertion (params : Answers) (stem : String) : Insertion :=
  { name := "strings.xml"
    anchor := some .resourcesTag
    text := String.ofList (entryLines stem params) }

def packageInsertion (instance_ : String) (params : Answers) (stem : String) : Insertion :=
  { name := "package"
    anchor := some (.literal "new MainReactPackage()")
    text := ",\n            " ++ fill instance_ params stem }

def importInsertion (importPath : String) : Insertion :=
  { name := "import"
    anchor := some (.literal "import com.facebook.react.ReactApplication;")
    text := "\n" ++ importPath }

/-- The insertions for a library with the files they go into, in the order they are made. -/
def insertions (here : Path) (name : String) (library : Library) (params : Answers) (app : App) :
    Except Fault (List (Path × Insertion)) := do
  let stem := camelCase name
  let appName ← match app.appName with
    | .text s => .ok s
    | other => .error (.appNameKind other.kind)
  let instance_ ← match library.instance_ with
    | .text s => .ok s
    | other => .error (.instanceKind other.kind)
  .ok [
    (app.settingsGradle, includeInsertion name library.sourceDir app.settingsGradle here appName),
    (app.buildGradle, buildInsertion name),
    (app.strings, stringsInsertion params stem),
    (app.mainFile, packageInsertion instance_ params stem),
    (app.mainFile, importInsertion library.importPath.asText)]

/-! ## Recognising an installed library -/

/-- A dependency on the project, after the name of a configuration. -/
def projectDependency (project : String) (cs : List Char) : Bool :=
  match Text.after? "project(".toList (cs.dropWhile (· == '(')) with
  | some rest =>
    match quoted? (':' :: project.toList) rest with
    | some (')' :: _) => true
    | _ => false
  | none => false

/-- Some number of the word characters at the front, then blanks, then the dependency. -/
def configurationTail (project : String) : List Char → Bool
  | [] => projectDependency project []
  | c :: cs =>
    projectDependency project ((c :: cs).dropWhile Text.isBlank) ||
      (Text.isWord c && configurationTail project cs)

/-- The configurations that a library can be part of. -/
def configurations : List (List Char) := ["implementation".toList, "api".toList, "compile".toList]

/-- A dependency on the project stands at the front. -/
def isDependencyAt (project : String) (cs : List Char) : Bool :=
  configurations.any fun word =>
    match Text.after? word cs with
    | some rest => configurationTail project rest
    | none => false

def hasDependencyChars (project : String) : List Char → Bool
  | [] => false
  | c :: cs => isDependencyAt project (c :: cs) || hasDependencyChars project cs

/-- The build file depends on the library. -/
def hasDependency (name : String) (content : List Char) : Bool := hasDependencyChars (projectName name) content

end Android
end ModuleLink
