import ModuleLink.Attempt
import ModuleLink.Xcode.Graph

/-!
Questions to a project graph.
-/

namespace ModuleLink
namespace Xcode

open Plist

/-- The product type of an application. -/
def applicationType : String := "com.apple.product-type.application"

/-- The product type of a static library. -/
def staticLibraryType : String := "com.apple.product-type.library.static"

namespace Object

/-- The name of a group, or its path where it has none. -/
def label? (o : Object) : Option String :=
  match o.text? "name" with
  | some name => if name.isEmpty then o.text? "path" else some name
  | none => o.text? "path"

/-- The settings of a build configuration. -/
def buildSettings (o : Object) : Dict Value :=
  match o.field? "buildSettings" with
  | some (.dict d) => d
  | _ => {}

end Object

namespace Graph

/-- The objects of a kind, in the order of the index. -/
def objectsOf (g : Graph) (isa : String) : Except Fault (List Object) :=
  ((g.index.lookup isa).getD []).mapM fun id =>
    match g.get? id with
    | some o => .ok o
    | none => .error (.unlisted id)

/-- The object that the root names. -/
def project (g : Graph) : Except Fault Object :=
  let found := match g.root.get? "rootObject" with
    | some (.scalar s) => g.get? s.value
    | _ => none
  match found with
  | some o => .ok o
  | none => .error (.badProject g.source "rootObject does not resolve" none)

def mainGroup (g : Graph) : Except Fault (Option Object) := do
  let project ← g.project
  .ok ((project.text? "mainGroup").bind g.get?)

/-- Native targets, in the order the project lists them. -/
def targets (g : Graph) : Except Fault (List Object) := do
  let project ← g.project
  .ok (((project.refs "targets").filterMap g.get?).filter fun t => t.isa == "PBXNativeTarget")

def applicationTargets (g : Graph) : Except Fault (List Object) := do
  let targets ← g.targets
  .ok (targets.filter fun t => t.text? "productType" == some applicationType)

def buildConfigurations (g : Graph) (target : Object) : List Object :=
  match (target.text? "buildConfigurationList").bind g.get? with
  | some list => (list.refs "buildConfigurations").filterMap g.get?
  | none => []

/-- The build configurations of all applications. -/
def headerConfigurations (g : Graph) : Except Fault (List Object) := do
  let targets ← g.applicationTargets
  .ok (targets.flatMap g.buildConfigurations)

/-- Some configuration builds the target for the television. -/
def isTv (g : Graph) (target : Object) : Bool :=
  (g.buildConfigurations target).any fun c =>
    match c.buildSettings.get? "SDKROOT" with
    | some v => v.isText "appletvos"
    | none => false

/-- File names of what the native targets of a product type build. -/
def products (g : Graph) (productType : String) : Except Fault (List String) := do
  let targets ← g.objectsOf "PBXNativeTarget"
  .ok (targets.filterMap fun t =>
    if t.text? "productType" == some productType then
      ((t.text? "productReference").bind g.get?).bind fun ref =>
        let name := match ref.text? "path" with
          | some path => if path.isEmpty then ref.text? "name" else some path
          | none => ref.text? "name"
        name.filter (!·.isEmpty)
    else none)

def buildPhase (g : Graph) (target : Object) (isa : String) : Option Object :=
  ((target.refs "buildPhases").filterMap g.get?).find? fun p => p.isa == isa

/-- The first group among the children of `parent` with a fitting label. -/
def groupIn (g : Graph) (parent : Object) (fits : Option String → Bool) : Option Object :=
  ((parent.refs "children").filterMap g.get?).find? fun c => c.isa == "PBXGroup" && fits c.label?

/-- The first group in the main group with a fitting label. -/
def findGroup (g : Graph) (fits : Option String → Bool) : Except Fault (Option Object) := do
  let main ← g.mainGroup
  .ok (main.bind fun m => g.groupIn m fits)

/-- Objects of a kind with a scalar field that names `id`. -/
def referrers (g : Graph) (isa key id : String) : Except Fault (List Object) := do
  let found ← g.objectsOf isa
  .ok (found.filter fun o => o.text? key == some id)

end Graph
end Xcode
end ModuleLink
