import ModuleLink.Fault
import ModuleLink.Text.Search

/-!
Paths as texts name them.  A path is never resolved: parent steps stay where they are until a path is normalised.
-/

namespace ModuleLink

/-- The root, empty for a relative path, and the names from there on. -/
structure Path where
  root : String := ""
  parts : List String := []
deriving DecidableEq, BEq, Inhabited

namespace Path

def components (cs : List Char) : List String :=
  ((Text.splitBy (· == '/') cs).map String.ofList).filter fun s => s != "" && s != "."

/-- Two slashes, and no more, make a root of their own. -/
def rootOf (cs : List Char) : String :=
  match cs with
  | '/' :: '/' :: '/' :: _ => "/"
  | '/' :: '/' :: _ => "//"
  | '/' :: _ => "/"
  | _ => ""

def ofString (s : String) : Path := ⟨rootOf s.toList, components s.toList⟩

def isAbsolute (p : Path) : Bool := p.root != ""

def toString (p : Path) : String :=
  if p.root == "" && p.parts.isEmpty then "." else p.root ++ String.intercalate "/" p.parts

instance : ToString Path := ⟨toString⟩

/-- A path seen from another one; an absolute path stays as it is. -/
def join (p q : Path) : Path := if q.isAbsolute then q else ⟨p.root, p.parts ++ q.parts⟩

def child (p : Path) (name : String) : Path := ⟨p.root, p.parts ++ [name]⟩

instance : HDiv Path String Path := ⟨fun p s => p.join (ofString s)⟩

def parent (p : Path) : Path := ⟨p.root, p.parts.dropLast⟩

def name (p : Path) : String := p.parts.getLastD ""

/-- The place of the dot that starts the suffix of a name: the last one, with something on both sides. -/
def suffixStart? (name : List Char) : Option Nat :=
  let tail := name.reverse.takeWhile (· != '.')
  if tail.isEmpty || name.length ≤ tail.length + 1 then none else some (name.length - tail.length - 1)

def suffix (p : Path) : String :=
  let name := p.name.toList
  match suffixStart? name with
  | some i => String.ofList (name.drop i)
  | none => ""

def stem (p : Path) : String :=
  let name := p.name.toList
  match suffixStart? name with
  | some i => String.ofList (name.take i)
  | none => p.name

/-- Chains of names in the order of their first different names; a chain comes before its extensions. -/
def namesLe : List String → List String → Bool
  | [], _ => true
  | _ :: _, [] => false
  | a :: as, b :: bs => if a = b then namesLe as bs else decide (a < b)

/-! ## Normal paths -/

/-- The names of an absolute path without parent steps; at the root a parent step leads nowhere. -/
def collapse (done : List String) : List String → List String
  | [] => done.reverse
  | part :: rest => if part = ".." then collapse (done.drop 1) rest else collapse (part :: done) rest

/-- The normal form of a path that starts at `base` if it is relative. -/
def normal (base p : Path) : Path :=
  let full := base.join p
  ⟨full.root, collapse [] full.parts⟩

/-- What is left of two lists when their common front is gone. -/
def diverge : List String → List String → List String × List String
  | a :: as, b :: bs => if a = b then diverge as bs else (a :: as, b :: bs)
  | as, bs => (as, bs)

/-- The way from one folder to a path, up and then down.  Relative paths start at `base`. -/
def relative (base p start : Path) : Path :=
  let (down, up) := diverge (normal base p).parts (normal base start).parts
  ⟨"", up.map (fun _ => "..") ++ down⟩

/-- The names that all the lists start with. -/
def commonFront : List String → List String → List String
  | a :: as, b :: bs => if a = b then a :: commonFront as bs else []
  | _, _ => []

/-- The longest path above all the paths, by their names alone. -/
def common : List Path → Except Fault Path
  | [] => .error .noPaths
  | p :: rest =>
    if rest.any fun q => q.isAbsolute != p.isAbsolute then .error .mixedPaths
    else .ok ⟨if p.isAbsolute then "/" else "", rest.foldl (fun front q => commonFront front q.parts) p.parts⟩

end Path
end ModuleLink
