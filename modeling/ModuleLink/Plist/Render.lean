import ModuleLink.Plist.Value

/-!
Writing values, on one line or as a block.
-/

namespace ModuleLink
namespace Plist

def renderScalar (s : Scalar) : List Char :=
  match s.comment with
  | some c => s.text.toList ++ " /* ".toList ++ c.toList ++ " */".toList
  | none => s.text.toList

mutual

/-- A value over several lines: one item or entry a line, a tab deeper than the line it starts on. -/
def renderBlock (indent : List Char) : Value → List Char
  | .scalar s => renderScalar s
  | .list items => "(\n".toList ++ renderLines (indent ++ ['\t']) items ++ indent ++ [')']
  | .dict ⟨entries, spellings⟩ =>
    "\x7b\n".toList ++ renderEntries (indent ++ ['\t']) spellings entries ++ indent ++ ['\x7d']

def renderLines (indent : List Char) : List Value → List Char
  | [] => []
  | v :: rest => indent ++ renderBlock indent v ++ ",\n".toList ++ renderLines indent rest

def renderEntries (indent : List Char) (spellings : List (String × Scalar)) : List (String × Value) → List Char
  | [] => []
  | (key, v) :: rest =>
    indent ++ renderScalar ((spellings.lookup key).getD (Scalar.of key)) ++ " = ".toList ++
      renderBlock indent v ++ ";\n".toList ++ renderEntries indent spellings rest

end

mutual

/-- A value on one line. -/
def renderInline : Value → List Char
  | .scalar s => renderScalar s
  | .list items => '(' :: renderInlineItems items ++ [')']
  | .dict ⟨entries, spellings⟩ => '\x7b' :: renderInlineEntries spellings entries ++ ['\x7d']

def renderInlineItems : List Value → List Char
  | [] => []
  | v :: rest => renderInline v ++ ", ".toList ++ renderInlineItems rest

def renderInlineEntries (spellings : List (String × Scalar)) : List (String × Value) → List Char
  | [] => []
  | (key, v) :: rest =>
    renderScalar ((spellings.lookup key).getD (Scalar.of key)) ++ " = ".toList ++ renderInline v ++
      "; ".toList ++ renderInlineEntries spellings rest

end

end Plist
end ModuleLink
