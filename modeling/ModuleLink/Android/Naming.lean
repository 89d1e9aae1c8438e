import ModuleLink.Text.Classes

/-!
Names derived from the name of a library.
-/

namespace ModuleLink
namespace Android

/-- A Gradle project name has no slashes. -/
def projectName (name : String) : String :=
  String.ofList (name.toList.map fun c => if c = '/' then '_' else c)

def isLower (c : Char) : Bool := 'a' ≤ c && c ≤ 'z'

def isUpper (c : Char) : Bool := 'A' ≤ c && c ≤ 'Z'

/-- Capitals that no small letter follows. -/
def capitals (cs : List Char) : List Char :=
  let run := cs.takeWhile isUpper
  match cs.dropWhile isUpper with
  | c :: _ => if isLower c then run.dropLast else run
  | [] => run

/-- The word at the front, which may be empty: small letters after at most one capital, or capitals, or digits. -/
def wordAt (cs : List Char) : List Char :=
  let small := cs.takeWhile isLower
  if !small.isEmpty then small
  else
    match cs with
    | c :: rest =>
      if isUpper c then
        let tail := rest.takeWhile isLower
        if tail.isEmpty then capitals cs else c :: tail
      else cs.takeWhile Text.isDecimal
    | [] => []

/-- The words of a name; other characters stand between them. -/
def words (cs : List Char) : List (List Char) :=
  match _h : cs with
  | [] => []
  | c :: rest =>
    match _hw : wordAt (c :: rest) with
    | [] => words rest
    | w :: ws => (w :: ws) :: words ((c :: rest).drop (ws.length + 1))
termination_by cs.length
decreasing_by
  · subst _h; simp
  · subst _h; simp only [List.length_drop, List.length_cons]; omega

def capitalise : List Char → List Char
  | [] => []
  | c :: cs => c.toUpper :: cs

def camelChars (cs : List Char) : List Char :=
  match (words cs).map fun w => w.map Char.toLower with
  | [] => []
  | w :: ws => w ++ ws.flatMap capitalise

/-- The words of a name run together, each but the first with a capital. -/
def camelCase (name : String) : String := String.ofList (camelChars name.toList)

example : camelCase "@scope/react-native-foo" = "scopeReactNativeFoo" := by cbv

end Android
end ModuleLink
