import ModuleLink.Android.Config
import ModuleLink.Android.PackageClass

/-!
The Android side of an app or a library, from its folder and its settings.
-/

namespace ModuleLink
namespace Android

/-- A source folder with its manifest. -/
structure Site where
  sourceDir : Path
  isFlat : Bool
  manifest : Path

def site? (t : Tree) (folder : Path) (settings : Table) : Except Fault (Option Site) := do
  match ← sourceDir? t folder settings with
  | none => return none
  | some (sourceDir, isFlat) =>
    return (← manifest? t sourceDir settings).map fun manifest => ⟨sourceDir, isFlat, manifest⟩

/-- A manifest that is no use, rather than something wrong with the program. -/
def spoilsManifest : Fault → Bool
  | .malformedMarkup | .inaccessible _ _ => true
  | _ => false

/-- A package name with a folder for every part. -/
def foldersOf (packageName : String) : String :=
  String.ofList (packageName.toList.map fun c => if c = '.' then '/' else c)

/-- The folder of the main package. -/
def packageFolder (settings : Table) (packageName : Setting) : Except Fault String :=
  match settings.given? "packageFolder" with
  | some (.text s) => .ok s
  | some _ => .error .settingKind
  | none =>
    match packageName with
    | .text s => .ok (foldersOf s)
    | .moment _ => .error .settingKind
    | _ => .error .settingOperation

/-- The name that an app module has unless another one is set. -/
def standardAppName : String := "app"

/-- The package name of an app, which has to have one. -/
def appPackage (t : Tree) (site : Site) (settings : Table) : Except Fault Setting := do
  match settings.given? "packageName" with
  | some name => return name
  | none =>
    match manifestPackage t site.manifest with
    | .ok (some name) => return .text name
    | .ok none =>
      match ← gradleNamespace t site.sourceDir with
      | some name => return .text name
      | none => throw (.noPackageName site.manifest.toString)
    | .error f =>
      if spoilsManifest f then throw (.badManifest site.manifest.toString f.message) else throw f

/-- The Android project of the app in a folder, if it has one. -/
def app? (t : Tree) (folder : Path) (settings : Table) : Except Fault (Option App) := do
  match ← site? t folder settings with
  | none => return none
  | some site =>
    let packageName ← appPackage t site settings
    let packageFolder ← packageFolder settings packageName
    let main := (site.sourceDir.child "src").child "main"
    let mainFile ← Overrides.path? settings "mainFilePath" site.sourceDir
    let strings ← Overrides.path? settings "stringsPath" site.sourceDir
    let settingsGradle ← Overrides.path? settings "settingsGradlePath" folder
    let buildGradle ← Overrides.path? settings "buildGradlePath" site.sourceDir
    return some {
      sourceDir := site.sourceDir
      folder := folder
      isFlat := site.isFlat
      manifest := site.manifest
      packageName := packageName
      packageFolder := packageFolder
      mainFile := mainFile.getD ((main.child "java" / packageFolder).child "MainApplication.java")
      strings := strings.getD (main / "res/values/strings.xml")
      settingsGradle := settingsGradle.getD (folder / "android/settings.gradle")
      buildGradle := buildGradle.getD (site.sourceDir.child "build.gradle")
      appName := (settings.get? "appName").getD (.text standardAppName) }

/-- The package name of a library, if it has one.  A manifest that is no use makes a notice. -/
def libraryPackage (t : Tree) (site : Site) (settings : Table) : Survey (Option Setting) := do
  match settings.given? "packageName" with
  | some name => return some name
  | none =>
    match manifestPackage t site.manifest with
    | .ok (some name) => return some (.text name)
    | .ok none => return (← Attempt.ofExcept (gradleNamespace t site.sourceDir)).map .text
    | .error f =>
      if spoilsManifest f then
        Survey.warn (Overrides.unreadable site.manifest f.message)
        return none
      else throw f

/-- The Android library in a folder, if there is one. -/
def library? (t : Tree) (folder : Path) (settings : Table) (java : Java.Outline.Parser := Java.Outline.ofSource) :
    Survey (Option Library) := do
  match ← Attempt.ofExcept (site? t folder settings) with
  | none => return none
  | some site =>
    match ← libraryPackage t site settings with
    | none => return none
    | some packageName =>
      let found ← Attempt.ofExcept (findPackageClass t site.sourceDir java)
      match found.className with
      | none => return none
      | some className =>
        let package := found.package.getD packageName.asText
        return some {
          sourceDir := site.sourceDir
          folder := folder
          manifest := site.manifest
          packageName := packageName
          packageClass := className
          importPath :=
            (settings.given? "packageImportPath").getD (.text ("import " ++ package ++ "." ++ className ++ ";"))
          instance_ := (settings.given? "packageInstance").getD (.text ("new " ++ className ++ "()")) }

end Android
end ModuleLink
