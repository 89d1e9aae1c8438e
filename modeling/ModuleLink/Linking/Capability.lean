import ModuleLink.Param
import ModuleLink.Path
import ModuleLink.Platform

/-!
What takes part in a run: libraries with their platform sides, and the ways each platform links them.  Nothing here knows
what a side is.
-/

namespace ModuleLink
namespace Linking

/-- A library that the app depends on, with what it has for each platform and the values it wants from the user. -/
structure Dependency (Lib : Platform → Type) where
  name : String
  folder : Path
  side? : (p : Platform) → Option (Lib p)
  params : List Param

/-- The ways of a platform to link libraries into an app, as steps over a state. -/
structure Capability (σ : Type) (App Lib : Platform → Type) (p : Platform) where
  /-- The library is part of the app. -/
  isInstalled : App p → String → Lib p → Attempt σ Bool
  /-- Something of the library is in the app. -/
  hasRegistration : App p → String → Lib p → Attempt σ Bool
  /-- Makes the library part of the app, and tells what is left to do by hand. -/
  register : String → Lib p → Answers → App p → Attempt σ (List String)
  /-- Takes the library out of the app but leaves what other libraries need. -/
  unregister : String → Lib p → App p → List (Dependency Lib) → Attempt σ (List String)

/-- The app of a run, on the platforms to process in their order.  A platform is asked for its capability whenever it is
needed, and may have none. -/
structure Host (σ : Type) (App Lib : Platform → Type) where
  platforms : List Platform
  app? : (p : Platform) → Option (App p)
  capability? : (p : Platform) → StateM σ (Option (Capability σ App Lib p))

namespace Host

variable {σ α : Type} {App Lib : Platform → Type}

/-- A step for a library on a platform, if both ends have a side there and the platform can link. -/
def stepFor? (h : Host σ App Lib) (d : Dependency Lib)
    (step : (p : Platform) → Capability σ App Lib p → App p → Lib p → α) (p : Platform) : StateM σ (Option α) :=
  match h.app? p, d.side? p with
  | some app, some library => do
    let capability? ← h.capability? p
    return capability?.map fun capability => step p capability app library
  | _, _ => return none

end Host
end Linking
end ModuleLink
