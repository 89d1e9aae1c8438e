import ModuleLink.Path
import ModuleLink.Text.Encoding

/-!
A file system as a value: folders with their entries, and files with their bytes.
-/

namespace ModuleLink

/-- A file or a folder with its entries in the order they are listed. -/
inductive Node where
  | file (bytes : ByteArray)
  | folder (entries : List (String × Node))

instance : Inhabited Node := ⟨.folder []⟩

namespace Node

def isFolder : Node → Bool
  | folder _ => true
  | file _ => false

def entry? (n : Node) (name : String) : Option Node :=
  match n with
  | folder entries => entries.lookup name
  | file _ => none

/-- The node at the end of a chain of names. -/
def get? (n : Node) : List String → Option Node
  | [] => some n
  | name :: rest => (n.entry? name).bind fun c => c.get? rest

def assign (name : String) (v : Node) : List (String × Node) → List (String × Node)
  | [] => [(name, v)]
  | (k, w) :: rest => if k = name then (k, v) :: rest else (k, w) :: assign name v rest

/-- The node with another one at the end of a chain of names; folders on the way are made. -/
def put (v : Node) : List String → Node → Node
  | [], _ => v
  | name :: rest, folder entries => folder (assign name (put v rest ((entries.lookup name).getD default)) entries)
  | name :: rest, file _ => folder [(name, put v rest default)]

def remove : List String → Node → Node
  | [], n => n
  | [name], folder entries => folder (entries.filter fun e => e.1 ≠ name)
  | name :: rest, folder entries =>
    folder (entries.map fun (k, c) => if k = name then (k, remove rest c) else (k, c))
  | _, n => n

end Node

/-- The node at the root of all absolute paths, and the folder that relative paths start from. -/
structure Tree where
  root : Node
  here : Path

namespace Tree

/-- Names longer than this many bytes are refused. -/
def nameLimit : Nat := 255

/-- Follows names down from a node.  `above` holds the nodes on the way, with their names, nearest first; the answer is
the chain of names that leads to the node found. -/
def follow (above : List (String × Node)) (root : Node) : List String → Except Obstacle (List String)
  | [] => .ok (above.map (·.1)).reverse
  | ".." :: rest =>
    match (above.head?.map (·.2)).getD root with
    | .folder _ => follow (above.drop 1) root rest
    | .file _ => .error .notFolder
  | name :: rest =>
    match (above.head?.map (·.2)).getD root with
    | .folder entries =>
      if nameLimit < name.utf8ByteSize then .error .nameTooLong
      else
        match entries.lookup name with
        | some c => follow ((name, c) :: above) root rest
        | none => .error .missing
    | .file _ => .error .notFolder

def hasNul (p : Path) : Bool := p.parts.any fun s => s.toList.contains '\x00'

/-- Where a path leads, without parent steps. -/
def locate (t : Tree) (p : Path) : Except Fault (List String) :=
  if hasNul p then .error .nulInPath
  else
    match follow [] t.root (t.here.join p).parts with
    | .ok names => .ok names
    | .error o => .error (.inaccessible o p.toString)

/-- What a path leads to, if there is anything.  A name that is too long is a fault. -/
def find? (t : Tree) (p : Path) : Except Fault (Option Node) :=
  match t.locate p with
  | .ok names => .ok (t.root.get? names)
  | .error (.inaccessible .nameTooLong q) => .error (.inaccessible .nameTooLong q)
  | .error _ => .ok none

def isThere (t : Tree) (p : Path) : Except Fault Bool := (t.find? p).map Option.isSome

def isFolder (t : Tree) (p : Path) : Except Fault Bool :=
  (t.find? p).map fun n => match n with
    | some (.folder _) => true
    | _ => false

def isFile (t : Tree) (p : Path) : Except Fault Bool :=
  (t.find? p).map fun n => match n with
    | some (.file _) => true
    | _ => false

/-- The bytes of a file. -/
def read (t : Tree) (p : Path) : Except Fault ByteArray := do
  let names ← t.locate p
  match t.root.get? names with
  | some (.file bytes) => .ok bytes
  | some (.folder _) => .error (.inaccessible .isFolder p.toString)
  | none => .error (.inaccessible .missing p.toString)

/-- The text of a file, with its line ends as they are. -/
def readText (t : Tree) (p : Path) : Except Fault String := do
  let bytes ← t.read p
  match Text.decode bytes with
  | .ok s => .ok s
  | .error u => .error (.undecodable u)

/-- The text of a file with every line end folded and every fault replaced. -/
def readLossy (t : Tree) (p : Path) : Except Fault String := do
  let bytes ← t.read p
  .ok (String.ofList (Text.foldNewlines (Text.decodeLossy bytes).toList))

/-- Gives a file that is there another text. -/
def write (t : Tree) (p : Path) (text : String) : Except Fault Tree := do
  let names ← t.locate p
  .ok { t with root := Node.put (.file text.toUTF8) names t.root }

/-- The node at a path that is a folder. -/
def folder? (t : Tree) (p : Path) : Option Node :=
  match t.find? p with
  | .ok (some (.folder entries)) => some (.folder entries)
  | _ => none

end Tree
end ModuleLink
