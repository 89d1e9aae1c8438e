import ModuleLink.Linking.Capability
import ModuleLink.Linking.Result
import ModuleLink.Notice

/-!
Linking and unlinking libraries one after another, each on its platforms in order.  A failure ends the work on its
library and is a result like others.
-/

namespace ModuleLink
namespace Linking

open Notice

variable {σ τ : Type} {App Lib : Platform → Type}

/-! ## One library -/

def failure (action name : String) (p : Platform) (cause : String) : String :=
  "Failed to " ++ action ++ " '" ++ name ++ "' on " ++ p.name ++ ": " ++ cause

/-- The results for one library: one for every platform, up to the first that fails. -/
def resultsOn [HasNotices τ] (action name : String)
    (step? : Platform → StateM τ (Option (Attempt τ (Status × String)))) : List Platform → StateM τ (List Result)
  | [] => return []
  | p :: rest => do
    match ← step? p with
    | none =>
      let later ← resultsOn action name step? rest
      return ⟨name, some p, .notApplicable, ""⟩ :: later
    | some step =>
      match ← step.run with
      | .ok (status, detail) =>
        let later ← resultsOn action name step? rest
        return ⟨name, some p, status, detail⟩ :: later
      | .error f =>
        tell .error (failure action name p f.message)
        return [⟨name, some p, .failed, f.message⟩]

/-! ## Linking -/

/-- Something done while the known values are left alone. -/
def asideAnswers {α : Type} (x : StateM σ α) : StateM (Answers × σ) α := fun (known, s) =>
  let (a, s) := x.run s
  (a, known, s)

/-- A step that leaves the known values alone. -/
def besideAnswers {α : Type} (x : Attempt σ α) : Attempt (Answers × σ) α :=
  Attempt.zoom (·.2) (fun s t => (t.1, s)) x

/-- Links a library on one platform unless it is linked already. -/
def linkStep [HasNotices σ] (ask : Param → Attempt σ String) (d : Dependency Lib) (p : Platform)
    (capability : Capability σ App Lib p) (app : App p) (library : Lib p) :
    Attempt (Answers × σ) (Status × String) := do
  let values ← Answers.resolve ask d.params
  if ← besideAnswers (capability.isInstalled app d.name library) then
    tell .info (d.name ++ " is already linked on " ++ p.label)
    return (.alreadyLinked, "")
  else
    tell .info ("Linking " ++ d.name ++ " (" ++ p.label ++ ")")
    let left ← besideAnswers (capability.register d.name library values app)
    if left.isEmpty then return (.linked, "")
    else
      for instruction in left do
        tell .warning (d.name ++ " (" ++ p.label ++ ") needs manual linking: " ++ instruction)
      return (.needsManual, String.intercalate "\n" left)

/-- Links libraries in their order.  Values that the user gave are kept for the libraries to come. -/
def link [HasNotices σ] (host : Host σ App Lib) (ask : Param → Attempt σ String) (ds : List (Dependency Lib)) :
    StateM (Answers × σ) (List Result) := do
  let segments ← ds.mapM fun d =>
    resultsOn "link" d.name (fun p => asideAnswers (host.stepFor? d (linkStep ask d) p)) host.platforms
  return segments.flatten

/-! ## Unlinking -/

/-- Unlinks a library on one platform if anything of it is there. -/
def unlinkStep [HasNotices σ] (others : List (Dependency Lib)) (d : Dependency Lib) (p : Platform)
    (capability : Capability σ App Lib p) (app : App p) (library : Lib p) : Attempt σ (Status × String) := do
  if ← capability.hasRegistration app d.name library then
    tell .info ("Unlinking " ++ d.name ++ " (" ++ p.label ++ ")")
    let left ← capability.unregister d.name library app (others.filter fun o => o.name != d.name)
    for instruction in left do
      tell .warning (d.name ++ " (" ++ p.label ++ ") needs manual unlinking: " ++ instruction)
    return (.unlinked, String.intercalate "\n" left)
  else
    tell .info (d.name ++ " is not linked on " ++ p.label)
    return (.notLinked, "")

/-- Unlinks libraries in their order.  What the `others` need stays. -/
def unlink [HasNotices σ] (host : Host σ App Lib) (others : List (Dependency Lib)) (ds : List (Dependency Lib)) :
    StateM σ (List Result) := do
  let segments ← ds.mapM fun d => resultsOn "unlink" d.name (host.stepFor? d (unlinkStep others d)) host.platforms
  return segments.flatten

end Linking
end ModuleLink
