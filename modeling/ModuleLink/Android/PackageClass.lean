import ModuleLink.Java.Outline
import ModuleLink.Android.Layout

/-!
The class of a library that hands its modules to the app.  A Java source is read by its outline, and where that fails,
like a Kotlin source, by the words on its lines.  How outlines are read is up to the caller.
-/

namespace ModuleLink
namespace Android

/-- A package and a class in it, each if it was found. -/
structure Finding where
  package : Option String := none
  className : Option String := none

/-- The interface of a class that hands out modules. -/
def packageInterface : String := "ReactPackage"

/-- The classes that have the interface already. -/
def packageBases : List String := ["TurboReactPackage", "BaseReactPackage"]

/-! ## Outlines -/

def handsOut (c : Java.Grammar.ClassHead) : Bool :=
  c.interfaces.contains packageInterface || c.base.any packageBases.contains

def findingIn (o : Java.Outline) : Finding := ⟨o.package, (o.classes.find? handsOut).map (·.name)⟩

/-! ## Words -/

/-- One of the words stands at the front and ends there. -/
def wordEnds (words : List String) (cs : List Char) : Bool :=
  words.any fun w =>
    match Text.after? w.toList cs with
    | some rest => !rest.head?.any Text.isWord
    | none => false

/-- One of the words stands as a whole word behind characters that `passes` admits; `inWord` says that a word character
comes before. -/
def listHas (words : List String) (passes : Char → Bool) : (inWord : Bool) → List Char → Bool
  | _, [] => false
  | inWord, c :: cs =>
    (!inWord && wordEnds words (c :: cs)) || (passes c && listHas words passes (Text.isWord c) cs)

/-- A character in a list of types. -/
def isTypeListChar (c : Char) : Bool :=
  Text.isWord c || c == '.' || c == ',' || Text.isBlank c || c == '<' || c == '>'

/-- A character in a list of types that may be called. -/
def isCallListChar (c : Char) : Bool := isTypeListChar c || c == '(' || c == ')'

/-- One of the words stands behind one of the dots of a qualifier. -/
def behindDot (words : List String) : List Char → Bool
  | [] => false
  | c :: cs =>
    if c == '.' then wordEnds words cs || behindDot words cs else Text.isWord c && behindDot words cs

/-- One of the words stands at the front, behind a qualifier or nothing. -/
def qualifiedEnds (words : List String) (cs : List Char) : Bool :=
  wordEnds words cs ||
    match cs with
    | c :: rest => isNamespaceChar c && behindDot words rest
    | [] => false

/-- A clause that makes a class hand out modules stands at the front. -/
def clauseAt (cs : List Char) : Bool :=
  match cs with
  | ':' :: rest => listHas (packageInterface :: packageBases) isCallListChar false rest
  | _ =>
    match (Text.after? "implements".toList cs).bind Text.blank? with
    | some rest => listHas [packageInterface] isTypeListChar false rest
    | none =>
      match (Text.after? "extends".toList cs).bind Text.blanks? with
      | some rest => qualifiedEnds packageBases rest
      | none => false

/-- Such a clause stands somewhere before the next opening brace. -/
def clauseAhead : List Char → Bool
  | [] => false
  | c :: cs => clauseAt (c :: cs) || (c != '\x7b' && clauseAhead cs)

/-- The longest name at the front of a word with such a clause behind it, which may start inside the word.  The first
argument is the part of the word that is passed, last character first. -/
def nameBefore (name word after : List Char) : Option (List Char) :=
  match word with
  | [] => if !name.isEmpty && clauseAhead after then some name.reverse else none
  | c :: cs =>
    match nameBefore (c :: name) cs after with
    | some found => some found
    | none => if !name.isEmpty && clauseAt (c :: cs ++ after) then some name.reverse else none

/-- A class that hands out modules is declared at the front. -/
def classAt? (cs : List Char) : Option (List Char) := do
  let cs ← Text.blanks? (← Text.after? "class".toList cs)
  nameBefore [] (cs.takeWhile Text.isWord) (cs.dropWhile Text.isWord)

def classIn? : List Char → Option (List Char)
  | [] => none
  | c :: cs =>
    match classAt? (c :: cs) with
    | some name => some name
    | none => classIn? cs

/-- The package that a line names. -/
def packageAt? (cs : List Char) : Option String := do
  let cs ← Text.after? "package".toList (cs.dropWhile Text.isBlank)
  let cs ← Text.blanks? cs
  let name := cs.takeWhile isNamespaceChar
  if name.isEmpty then none else return String.ofList name

/-- What the words of a source say. -/
def findingByWords (source : String) : Finding :=
  let cs := source.toList
  ⟨firstOnLine? packageAt? true cs, (classIn? cs).map String.ofList⟩

/-! ## Sources -/

def findingInJava (java : Java.Outline.Parser) (source : String) : Except Fault Finding :=
  match java source with
  | .outline o => .ok (findingIn o)
  | .rejected => .ok (findingByWords source)
  | .cutOff => .error .sourceCutOff
  | .openEnded => .error .sourceOpenEnded

/-- The sources below a folder, by the names that lead to them. -/
def sourcesIn (n : Node) : List (List String × Node) :=
  let isSource (names : List String) : Bool :=
    [".java", ".kt"].contains (Path.mk "" names).suffix && !names.any skipped.contains
  (n.descendants.filter fun d => isSource d.1).mergeSort fun a b => Path.namesLe a.1 b.1

/-- What one source says, if it is a file that mentions the interface. -/
def findingInSource (java : Java.Outline.Parser) (names : List String) (n : Node) : Except Fault Finding :=
  match n with
  | .folder _ => .ok {}
  | .file bytes =>
    let source := String.ofList (Text.foldNewlines (Text.decodeLossy bytes).toList)
    if !Text.occursIn packageInterface.toList source.toList then .ok {}
    else if (Path.mk "" names).suffix == ".kt" then .ok (findingByWords source)
    else findingInJava java source

/-- The first class below a source folder that hands out modules, with its package. -/
def findPackageClass (t : Tree) (sourceDir : Path) (java : Java.Outline.Parser := Java.Outline.ofSource) :
    Except Fault Finding := do
  match t.folder? sourceDir with
  | none => return {}
  | some n =>
    (sourcesIn n).foldlM (fun found (names, source) => do
      if found.className.isSome then return found
      else
        let here ← findingInSource java names source
        return if here.className.isSome then here else {}) {}

end Android
end ModuleLink
