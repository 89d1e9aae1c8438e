import ModuleLink.Library.Manifest
import ModuleLink.Notice
import ModuleLink.Platform
import ModuleLink.Setting.Toml

/-!
What the user sets for an app or a library: in a settings file of its own or in a table of the package manifest.
-/

namespace ModuleLink
namespace Overrides

def fileName : String := ".nativelink.toml"

/-- The table of the manifest that holds settings. -/
def manifestKey : String := "rnpm"

def unreadable (p : Path) (cause : String) : String := "Could not parse " ++ p.toString ++ ": " ++ cause

/-- The settings in a file of their own.  A file that cannot be used sets nothing. -/
def ofFile (t : Tree) (p : Path) : Survey Table := do
  match t.read p with
  | .error f =>
    Survey.warn (unreadable p f.message)
    return []
  | .ok bytes =>
    match Text.decode bytes with
    | .error u => throw (.undecodable u)
    | .ok text =>
      match Toml.read text with
      | .ok settings => return settings
      | .error (.hugeNumber digits) => throw (.hugeNumber digits)
      | .error .malformed =>
        Survey.warn (unreadable p "<toml error>")
        return []

/-- The settings in a manifest.  A manifest that cannot be used sets nothing. -/
def ofManifest (t : Tree) (p : Path) : Survey Table := do
  match t.readText p with
  | .error f =>
    Survey.warn (unreadable p f.message)
    return []
  | .ok text =>
    match Json.read text with
    | none =>
      Survey.warn (unreadable p "<json error>")
      return []
    | some (.table manifest) =>
      match manifest.lookup manifestKey with
      | some (.table settings) => return settings
      | _ => return []
    | some _ => return []

/-- The settings for what is in a folder.  The settings file goes before the manifest. -/
def read (t : Tree) (folder : Path) : Survey Table := do
  let file := folder.child fileName
  let manifest := folder.child Library.manifestName
  if ← Attempt.ofExcept (t.isThere file) then ofFile t file
  else if ← Attempt.ofExcept (t.isThere manifest) then ofManifest t manifest
  else return []

/-- The settings for a platform, or nothing if the platform is ruled out. -/
def forPlatform (settings : Table) (p : Platform) : Survey (Option Table) := do
  match settings.get? p.name with
  | none => return some []
  | some .null => return none
  | some (.bool false) => return none
  | some (.table section_) => return some section_
  | some other =>
    Survey.warn ("Ignoring '" ++ p.name ++ "' settings: expected a table, got " ++ other.display)
    return some []

/-- The path that a setting names, seen from `base`, if it is given. -/
def path? (settings : Table) (key : String) (base : Path) : Except Fault (Option Path) :=
  match settings.given? key with
  | none => .ok none
  | some (.text s) => .ok (some (base / s))
  | some _ => .error .settingKind

end Overrides
end ModuleLink
