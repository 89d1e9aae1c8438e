import ModuleLink.Text.Display

/-!
What can go wrong, as causes, and the message for each.
-/

namespace ModuleLink

/-- Why a path cannot be used. -/
inductive Obstacle where
  | missing
  | notFolder
  | isFolder
  | nameTooLong
deriving DecidableEq

namespace Obstacle

def number : Obstacle → Nat
  | missing => 2
  | notFolder => 20
  | isFolder => 21
  | nameTooLong => 36

def wording : Obstacle → String
  | missing => "No such file or directory"
  | notFolder => "Not a directory"
  | isFolder => "Is a directory"
  | nameTooLong => "File name too long"

end Obstacle

/-- Why bytes are not UTF-8 text. -/
inductive Malformation where
  | badStart
  | badContinuation
  | endOfData
deriving DecidableEq

/-- The first bytes that cannot be decoded: the value of the first, and their places. -/
structure Undecodable where
  byte : UInt8
  first : Nat
  last : Nat
  reason : Malformation
deriving DecidableEq

namespace Undecodable

def wording : Malformation → String
  | .badStart => "invalid start byte"
  | .badContinuation => "invalid continuation byte"
  | .endOfData => "unexpected end of data"

def message (u : Undecodable) : String :=
  let place :=
    if u.first = u.last then
      "byte 0x" ++ String.ofList (Text.hex 2 u.byte.toNat) ++ " in position " ++ toString u.first
    else "bytes in position " ++ toString u.first ++ "-" ++ toString u.last
  "'utf-8' codec can't decode " ++ place ++ ": " ++ wording u.reason

end Undecodable

/-- A text that was to be inserted at an anchor. -/
structure Placement where
  path : String
  patch : String
  anchor : String
  text : String
deriving DecidableEq

/-- The edit that is left to be made by hand. -/
def Placement.instruction (p : Placement) : String :=
  "add the following to " ++ p.path ++ ":\n" ++ String.ofList (Text.trim p.text.toList)

inductive Fault where
  /-- A platform of that name is not known. -/
  | unknownPlatform (name : String)
  /-- The manifest that the settings name is not there. -/
  | noManifest (path : String)
  /-- A manifest that is there cannot be used. -/
  | badManifest (path cause : String)
  | noPackageName (manifest : String)
  /-- The folder of a library cannot be looked at. -/
  | unresolvable (library cause : String)
  /-- A project file cannot be read. -/
  | badProject (source reason : String) (line : Option Nat)
  | unknownLibrary (name folder : String)
  | anchorMissing (p : Placement)
  | anchorAmbiguous (p : Placement) (count : Nat)
  | undecodable (u : Undecodable)
  | inaccessible (o : Obstacle) (path : String)
  | nulInPath
  | malformedMarkup
  /-- A document is in an encoding that is not known. -/
  | unknownEncoding
  /-- A source ends inside its package or its imports. -/
  | sourceCutOff
  /-- A source ends behind an expression. -/
  | sourceOpenEnded
  | overlappingEdits (offset : Nat) (source : String)
  /-- The index by kind does not list the object where it looks for it. -/
  | notIndexed
  /-- An object is listed that is not in the table. -/
  | unlisted (id : String)
  | noAnchor (patch : String)
  | noPaths
  | mixedPaths
  | unsupportedValue (shown : String)
  /-- The name of the app module is a setting of another kind than text. -/
  | appNameKind (kind : String)
  /-- The package instance is a setting of another kind than text. -/
  | instanceKind (kind : String)
  /-- A setting of a kind that has no use where it stands. -/
  | settingKind
  /-- A setting of a kind that lacks the operation it is put to. -/
  | settingOperation
  | unnamedParam
  /-- A whole number has too many digits. -/
  | hugeNumber (digits : Nat)
deriving DecidableEq

namespace Fault

def placementMessage (p : Placement) (ending : String) : String :=
  "Anchor " ++ Text.display p.anchor ++ " for patch '" ++ p.patch ++ "' " ++ ending

def message : Fault → String
  | unknownPlatform name => "Unknown platform '" ++ name ++ "' (expected one of: ios, android)"
  | noManifest path => "manifestPath " ++ path ++ " does not exist"
  | badManifest path cause => "Could not parse " ++ path ++ ": " ++ cause
  | noPackageName manifest => "No package name in " ++ manifest ++ " or the Gradle namespace"
  | unresolvable library cause => "Could not resolve '" ++ library ++ "': " ++ cause
  | badProject source reason line =>
    let place := match line with
      | some n => source ++ ":" ++ toString n
      | none => source
    "Could not parse " ++ place ++ ": " ++ reason
  | unknownLibrary name folder =>
    "Unknown dependency '" ++ name ++ "'. Make sure it is installed in node_modules and listed in package.json (" ++
      folder ++ " not found)"
  | anchorMissing p => placementMessage p ("not found in " ++ p.path)
  | anchorAmbiguous p n => placementMessage p ("matches " ++ toString n ++ " times in " ++ p.path)
  | undecodable u => u.message
  | inaccessible o path => "[Errno " ++ toString o.number ++ "] " ++ o.wording ++ ": " ++ Text.display path
  | nulInPath => "embedded null byte"
  | malformedMarkup => "<xml error>"
  | unknownEncoding => "unknown encoding"
  | sourceCutOff => ""
  | sourceOpenEnded => "a source that ends behind an expression"
  | overlappingEdits offset source => "overlapping edits at offset " ++ toString offset ++ " in " ++ source
  | notIndexed => "list.remove(x): x not in list"
  | unlisted id => Text.display id
  | noAnchor patch => "patch '" ++ patch ++ "' has no anchor"
  | noPaths => "commonpath() arg is an empty sequence"
  | mixedPaths => "Can't mix absolute and relative paths"
  | unsupportedValue shown => "unsupported plist value: " ++ shown
  | appNameKind kind => "decoding to str: need a bytes-like object, " ++ kind ++ " found"
  | instanceKind kind => "expected string or bytes-like object, got '" ++ kind ++ "'"
  | settingKind => "a setting of the wrong kind"
  | settingOperation => "a setting without the operation"
  | unnamedParam => "'name'"
  | hugeNumber digits =>
    "Exceeds the limit (4300 digits) for integer string conversion: value has " ++ toString digits ++
      " digits; use sys.set_int_max_str_digits() to increase the limit"

/-- The edit that a failed insertion leaves to be made by hand. -/
def instruction? : Fault → Option String
  | anchorMissing p | anchorAmbiguous p _ => some p.instruction
  | _ => none

/-- The project as a whole cannot be used. -/
def stopsProject : Fault → Bool
  | unknownPlatform _ | noManifest _ | badManifest _ _ | noPackageName _ | unresolvable _ _ | badProject _ _ _ => true
  | _ => false

/-- The fault as one of a library that cannot be used, while others can.  There is none for a fault that ends the
run. -/
def ofLibrary? (library : String) : Fault → Option Fault
  | inaccessible o path => some (unresolvable library (inaccessible o path).message)
  | unknownLibrary name folder => some (unknownLibrary name folder)
  | f => if f.stopsProject || f.instruction?.isSome then some f else none

end Fault
end ModuleLink
