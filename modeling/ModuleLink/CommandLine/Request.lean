import ModuleLink.CommandLine.Word

/-!
What a command line asks for.
-/

namespace ModuleLink
namespace CommandLine

inductive Command where
  | link
  | unlink
deriving DecidableEq

namespace Command

def ofName? : String → Option Command
  | "link" => some link
  | "unlink" => some unlink
  | _ => none

/-- The options that the command knows. -/
def switches : Command → List Switch
  | link => [.help, .noInput, .root, .platforms, .verbose]
  | unlink => [.help, .root, .platforms, .verbose]

end Command

/-- A command with its options. -/
structure Request where
  command : Command
  names : List String := []
  root : String := "."
  platforms : Option String := none
  asksUser : Bool := true
  verbose : Bool := false
deriving DecidableEq

namespace Request

/-- The request with an option that takes no value. -/
def withSwitch (r : Request) : Switch → Request
  | .noInput => { r with asksUser := false }
  | .verbose => { r with verbose := true }
  | _ => r

/-- The request with the value of an option. -/
def withValue (r : Request) (text : String) : Switch → Request
  | .root => { r with root := text }
  | .platforms => { r with platforms := some text }
  | _ => r

end Request

/-- What a command line comes to. -/
inductive Parsed where
  | run (r : Request)
  | help
  /-- It breaks the rules. -/
  | misuse
deriving DecidableEq

namespace Parsed

/-- The outcome where a word was left over: nothing is run. -/
def leavingOver : Parsed → Parsed
  | help => help
  | _ => misuse

end Parsed

/-- Where a reader is with respect to the names, which all stand together. -/
inductive Names where
  | ahead
  | among
  | behind
deriving DecidableEq

namespace Names

/-- Behind an option. -/
def afterSwitch : Names → Names
  | ahead => ahead
  | _ => behind

end Names

/-- Reads the words behind a command. -/
def readWords (r : Request) (names : Names) : List Word → Parsed
  | [] => .run r
  | .value text :: rest =>
    if names = .behind then (readWords r names rest).leavingOver
    else readWords { r with names := r.names ++ [text] } .among rest
  | .divider :: rest => if names = .behind then (readWords r names rest).leavingOver else readWords r .among rest
  | .long s attached :: rest =>
    if s.takesValue then
      match attached, rest with
      | some text, rest => readWords (r.withValue text s) names.afterSwitch rest
      | none, .value text :: rest => readWords (r.withValue text s) names.afterSwitch rest
      | none, _ => .misuse
    else if attached.isSome then .misuse
    else if s = .help then .help
    else readWords (r.withSwitch s) names.afterSwitch rest
  | .short letters leftOver :: rest =>
    if letters.contains .help then .help
    else
      let parsed := readWords (letters.foldl Request.withSwitch r) names.afterSwitch rest
      if leftOver then parsed.leavingOver else parsed
  | .garbled :: _ => .misuse
  | .unknown :: rest => (readWords r names.afterSwitch rest).leavingOver

/-- Reads what follows a command. -/
def Command.parse (c : Command) (texts : List String) : Parsed :=
  match Word.all? c.switches texts with
  | some words => readWords { command := c } .ahead words
  | none => .misuse

/-- Reads a command line.  Before the command there is only the option for help. -/
def parse : List String → Parsed
  | [] => .misuse
  | text :: rest =>
    match Word.of? [.help] text with
    | some (.value name) =>
      match Command.ofName? name with
      | some c => c.parse rest
      | none => .misuse
    | some (.long _ none) => .help
    | some (.short _ _) => .help
    | some .unknown => (parse rest).leavingOver
    | _ => .misuse

end CommandLine
end ModuleLink
