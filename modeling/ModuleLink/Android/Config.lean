import ModuleLink.Path
import ModuleLink.Setting.Basic

/-!
Where the Android side of an app and of a library is.
-/

namespace ModuleLink
namespace Android

/-- The Android project of an app. -/
structure App where
  sourceDir : Path
  folder : Path
  isFlat : Bool
  manifest : Path
  packageName : Setting
  packageFolder : String
  mainFile : Path
  strings : Path
  settingsGradle : Path
  buildGradle : Path
  appName : Setting

/-- The Android library that a package ships. -/
structure Library where
  sourceDir : Path
  folder : Path
  manifest : Path
  packageName : Setting
  packageClass : String
  importPath : Setting
  instance_ : Setting

end Android
end ModuleLink
