import ModuleLink.Android.Registration
import ModuleLink.Android.Resolution
import ModuleLink.Ios.Registration
import ModuleLink.Ios.Resolution
import ModuleLink.Linking.Capability

/-!
The two platforms: what an app and a library have for each, how that is found, and how libraries are linked there.
-/

namespace ModuleLink
namespace Linking

open Workspace

/-- What an app has for a platform. -/
def AppSide : Platform → Type
  | .ios => Ios.App
  | .android => Android.App

/-- What a library has for a platform. -/
def LibrarySide : Platform → Type
  | .ios => Ios.Library
  | .android => Android.Library

/-- The side of the app in a folder, under the settings for the platform. -/
def appSide (t : Tree) (folder : Path) : (p : Platform) → Table → Survey (Option (AppSide p))
  | .ios, settings => Attempt.ofExcept (Ios.app? t folder settings)
  | .android, settings => Attempt.ofExcept (Android.app? t folder settings)

/-- The side of the library in a folder, under the settings for the platform. -/
def librarySide (java : Java.Outline.Parser) (t : Tree) (folder : Path) :
    (p : Platform) → Table → Survey (Option (LibrarySide p))
  | .ios, settings => Attempt.ofExcept (Ios.library? t folder settings)
  | .android, settings => Android.library? t folder settings java

/-- Podfiles and project files are written in one step, so a library is there as a whole or not at all. -/
def iosCapability : Capability Workspace AppSide LibrarySide .ios where
  isInstalled app _ library := Ios.isInstalled app library
  hasRegistration app _ library := Ios.isInstalled app library
  register name library _ app := Ios.register name library app
  unregister name library app others := Ios.unregister name library app (others.filterMap fun o => o.side? .ios)

def androidCapability : Capability Workspace AppSide LibrarySide .android where
  isInstalled app name _ := look fun t => Android.isInstalled t app name
  hasRegistration app name library := look fun t => Android.hasRegistration t app name library
  register name library params app := Android.register name library params app
  unregister name library app _ := Android.unregister name library app

def capability : (p : Platform) → Capability Workspace AppSide LibrarySide p
  | .ios => iosCapability
  | .android => androidCapability

end Linking
end ModuleLink
