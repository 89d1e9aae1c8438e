import ModuleLink.Proofs.Android.Registration
import ModuleLink.Proofs.Patch.Stack

/-!
Libraries that an app can be linked with at the same time, and the parts that each of them has in the files of the app.
-/

namespace ModuleLink
namespace Android

open Patch Insertion Text

/-! ## Selections -/

/-- A library with what it is linked with.  Its package class is created without arguments. -/
structure Dependency where
  name : String
  library : Library
  params : Answers
  className : String
  packagePath : String

def isNameChar (c : Char) : Bool := isLetter c || isDecimal c || "@/._~-".toList.contains c

namespace Dependency

def instanceText (d : Dependency) : String := "new " ++ d.className ++ "()"

/-- The package class with the package that it is in. -/
def qualifiedName (d : Dependency) : String := d.packagePath ++ "." ++ d.className

def importText (d : Dependency) : String := "import " ++ d.qualifiedName ++ ";"

/-- The library is named, and its package class called up, in the plain way. -/
structure IsPlain (d : Dependency) : Prop where
  name : ∀ c ∈ d.name.toList, isNameChar c = true
  params : WellNamed d.params
  instance_ : d.library.instance_ = .text d.instanceText
  importPath : d.library.importPath = .text d.importText
  className : ∀ c ∈ d.className.toList, isWord c = true
  packagePath : ∀ c ∈ d.packagePath.toList, isWord c = true ∨ c = '.'
  notMain : d.className ≠ "MainReactPackage"
  notApplication : d.qualifiedName ≠ "com.facebook.react.ReactApplication"

end Dependency

/-- Libraries for one app that can be told apart, and none of which is taken for the app. -/
structure Selection (ι : Type) where
  app : App
  appName : String
  here : Path
  get : ι → Dependency
  app_name : app.appName = .text appName
  appName_line : '\n' ∉ appName.toList
  plain : ∀ i, (get i).IsPlain
  sources_line : ∀ i, '\n' ∉ (Path.relative here (get i).library.sourceDir app.settingsGradle.parent).toString.toList
  project_ne : ∀ i, projectName (get i).name ≠ appName
  project_injective : Function.Injective fun i => projectName (get i).name
  stem_injective : Function.Injective fun i => camelCase (get i).name
  class_injective : Function.Injective fun i => (get i).className

/-- What a library puts into the files of an app. -/
inductive Part where
  | settings
  | build
  | strings
  | package
  | imports
deriving DecidableEq

/-- The files of an app that libraries are put into. -/
inductive AppFile where
  | settings
  | build
  | strings
  | main
deriving DecidableEq

def AppFile.path (app : App) : AppFile → Path
  | settings => app.settingsGradle
  | build => app.buildGradle
  | strings => app.strings
  | main => app.mainFile

namespace Part

/-- All parts, in the order in which they are put there. -/
def all : List Part := [settings, build, strings, package, imports]

/-- The file that the part goes into. -/
def file : Part → AppFile
  | settings => .settings
  | build => .build
  | strings => .strings
  | package => .main
  | imports => .main

def anchor (appName : String) : Part → Anchor
  | settings => .includeLine appName
  | build => .dependenciesLine
  | strings => .resourcesTag
  | package => .literal "new MainReactPackage()"
  | imports => .literal "import com.facebook.react.ReactApplication;"

end Part

namespace Selection

variable {ι : Type} (s : Selection ι) (i k : ι)

def project : List Char := (projectName (s.get i).name).toList

def stem : String := camelCase (s.get i).name

/-- The way from the settings to the sources of a library. -/
def way : List Char := (Path.relative s.here (s.get i).library.sourceDir s.app.settingsGradle.parent).toString.toList

def insertion (part : Part) (i : ι) : Insertion :=
  match part with
  | .settings => includeInsertion (s.get i).name (s.get i).library.sourceDir s.app.settingsGradle s.here s.appName
  | .build => buildInsertion (s.get i).name
  | .strings => stringsInsertion (s.get i).params (s.stem i)
  | .package => packageInsertion (s.get i).instanceText (s.get i).params (s.stem i)
  | .imports => importInsertion (s.get i).importText

/-- The text of a library in a part. -/
def block (part : Part) (i : ι) : List Char := (s.insertion part i).chars

theorem isBehind (part : Part) : (s.insertion part i).IsBehind (part.anchor s.appName) := by
  cases part <;> exact ⟨rfl, rfl⟩

/-! ## Names -/

theorem isNameChar_of_mem_project : ∀ c ∈ s.project i, isNameChar c = true := by
  intro c hc
  rw [project, projectName, String.toList_ofList] at hc
  obtain ⟨d, hd, rfl⟩ := List.mem_map.mp hc
  split
  · decide
  · exact (s.plain i).name d hd

theorem notMem_project {c : Char} (hc : isNameChar c = false) : c ∉ s.project i := by
  intro hmem
  rw [s.isNameChar_of_mem_project i c hmem] at hc
  contradiction

theorem eq_of_project_eq {i k : ι} (h : s.project i = s.project k) : i = k :=
  s.project_injective (String.toList_inj.mp h)

end Selection
end Android
end ModuleLink
