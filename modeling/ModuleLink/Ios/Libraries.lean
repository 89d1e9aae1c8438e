import ModuleLink.Xcode.Editing

/-!
Static libraries and system libraries in the phases that link the applications of a project.
-/

namespace ModuleLink
namespace Ios

open Plist Xcode Editing

def frameworksPhase (g : Graph) (target : Object) : Option Object := g.buildPhase target "PBXFrameworksBuildPhase"

/-- The reference to a built product of that file name. -/
def productReference (product : String) : Editing (Option Object) := ask fun g => do
  let refs ← g.objectsOf "PBXFileReference"
  .ok (refs.find? fun r => r.text? "path" == some product && r.text? "sourceTree" == some "BUILT_PRODUCTS_DIR")

/-! ## Static libraries -/

/-- A product is for the television by its name. -/
def isTvProduct (product : String) : Bool := product.endsWith "-tvOS.a"

def productSeed (library product : String) : String := library ++ ":product:" ++ product

def buildSeed (library product target : String) : String := library ++ ":build:" ++ product ++ ":" ++ target

/-- Lists a file in a build phase through a new build file. -/
def addBuildFile (phase file name seed : String) : Editing Unit := do
  let entry := name ++ " in Frameworks"
  let buildFile ← add "PBXBuildFile" [("fileRef", .written ⟨file, some name⟩)] (some entry) seed
  let _ ← append phase "files" buildFile.id (some entry)

/-- Links one product into a target, or tells what is left to do by hand. -/
def addProduct (library : String) (target : Object) (phase : Option Object) (product : String) :
    Editing (List String) := do
  match phase with
  | none =>
    return ["add " ++ product ++ " to the 'Link Binary With Libraries' phase of target " ++
      (target.text? "name").getD "None"]
  | some phase =>
    let file ← match ← productReference product with
      | some file => pure file
      | none =>
        add "PBXFileReference"
          [("explicitFileType", .text "archive.ar"), ("includeInIndex", .text "0"), ("path", .text product),
            ("sourceTree", .text "BUILT_PRODUCTS_DIR")]
          (some product) (productSeed library product)
    let seed := buildSeed library product target.id
    if !(← get).contains (Digest.stableId seed) then
      addBuildFile phase.id file.id product seed
    return []

/-- Links every product into the applications of its kind of device. -/
def addStaticLibraries (library : String) (products : List String) : Editing (List String) := do
  let targets ← ask Graph.applicationTargets
  let left ← targets.mapM fun target => do
    let g ← get
    let tv := g.isTv target
    let phase := frameworksPhase g target
    let left ← (products.filter fun p => isTvProduct p == tv).mapM (addProduct library target phase)
    return left.flatten
  return left.flatten

/-- Takes a product out of the applications.  A reference that was there before the library was linked stays. -/
def removeStaticLibrary (library product : String) : Editing Unit := do
  for target in ← ask Graph.applicationTargets do
    let id := Digest.stableId (buildSeed library product target.id)
    if (← get).contains id then
      match frameworksPhase (← get) target with
      | some phase => let _ ← detach phase.id "files" id
      | none => pure ()
      let _ ← remove id
  let file := Digest.stableId (productSeed library product)
  if (← get).contains file then
    let users ← ask fun g => g.referrers "PBXBuildFile" "fileRef" file
    if users.isEmpty then
      let _ ← remove file

/-! ## System libraries -/

def systemLibraryFields (library : String) : List (String × String) :=
  if library.endsWith ".framework" then
    [("lastKnownFileType", "wrapper.framework"), ("name", library), ("path", "System/Library/Frameworks/" ++ library),
      ("sourceTree", "SDKROOT")]
  else
    [("lastKnownFileType", "sourcecode.text-based-dylib-definition"), ("name", library), ("path", "usr/lib/" ++ library),
      ("sourceTree", "SDKROOT")]

/-- What follows the last slash. -/
def lastComponent (path : String) : String :=
  String.ofList (path.toList.reverse.takeWhile (· != '/')).reverse

/-- The name of a file reference, or the end of its path. -/
def fileName (ref : Object) : String :=
  let fromPath := lastComponent ((ref.text? "path").getD "")
  match ref.text? "name" with
  | some name => if name.isEmpty then fromPath else name
  | none => fromPath

def hasFileNamed (library : String) : Editing Bool := ask fun g => do
  let refs ← g.objectsOf "PBXFileReference"
  .ok (refs.any fun r => fileName r == library)

def frameworksGroup : GroupName := GroupName.of "Frameworks"

def systemSeed (library : String) : String := "shared:" ++ library

/-- Links system libraries that the project does not have into its first application. -/
def addSystemLibraries (libraries : List String) : Editing Unit := do
  match ← ask Graph.applicationTargets with
  | [] => return
  | target :: _ =>
    let phase := frameworksPhase (← get) target
    for library in libraries do
      if !(← hasFileNamed library) then
        let group ← ensureGroup frameworksGroup
        let file ← add "PBXFileReference" ((systemLibraryFields library).map fun f => (f.1, .text f.2)) (some library)
          (systemSeed library)
        match group with
        | some group => let _ ← append group.id "children" file.id (some library)
        | none => pure ()
        match phase with
        | some phase => addBuildFile phase.id file.id library (systemSeed library ++ ":build")
        | none => pure ()

/-- Removes the build files of a file, and their entries in the phases. -/
def removeBuildFiles (file : String) : Editing Unit := do
  for buildFile in ← ask fun g => g.referrers "PBXBuildFile" "fileRef" file do
    for isa in ["PBXFrameworksBuildPhase", "PBXSourcesBuildPhase", "PBXResourcesBuildPhase", "PBXHeadersBuildPhase"] do
      for phase in ← ask fun g => g.objectsOf isa do
        let _ ← detach phase.id "files" buildFile.id
    let _ ← remove buildFile.id

/-- Removes system libraries that were linked for a library, and the group made for them. -/
def removeSystemLibraries (libraries : List String) : Editing Unit := do
  let group ← findGroup frameworksGroup
  for library in libraries do
    let file := Digest.stableId (systemSeed library)
    if (← get).contains file then
      removeBuildFiles file
      match group with
      | some group => let _ ← detach group.id "children" file
      | none => pure ()
      let _ ← remove file
  dropGroup (← findGroup frameworksGroup) frameworksGroup

end Ios
end ModuleLink
