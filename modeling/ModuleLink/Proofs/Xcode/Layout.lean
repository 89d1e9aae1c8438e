import ModuleLink.Proofs.Plist.Table
import ModuleLink.Proofs.Text.Cells
import ModuleLink.Xcode.Load
import ModuleLink.Xcode.Serialise

/-!
Project texts in the layout that Xcode writes: every object on lines of its own, inside the section of its kind.
-/

namespace ModuleLink
namespace Xcode

open Plist

/-! ## Lines of the object table -/

/-- Whole lines. -/
def IsLines (cs : List Char) : Prop := ∃ u, cs = u ++ ['\n']

/-- Blank characters that stay on their line. -/
structure IsIndent (cs : List Char) : Prop where
  blank : Text.isBlankText cs = true
  line : '\n' ∉ cs

/-- Lines between objects: an empty line, or lines of blank characters and comments without an empty one at either
end. -/
structure Filler where
  text : List Char
  gap : Gap text
  lines : IsLines text
  single : text = ['\n'] ∨ (text.head? ≠ some '\n' ∧ ¬ ['\n', '\n'] <:+ text)
  unmarked : markers text = []

/-- An object alone on its lines: its entry from the id to the semicolon, and blank characters around it. -/
structure ObjectLines where
  indent : List Char
  entry : List Char
  tail : List Char
  key : Scalar
  fields : Dict Value
  indent_isIndent : IsIndent indent
  tail_isIndent : IsIndent tail
  reads : ∃ body, Reads (.members [⟨key, .dict fields, entry ++ ['\x7d'], body, ['\x7d']⟩]) (entry ++ ['\x7d']) []
  unquoted : key.text.toList.head? ≠ some '"'
  unmarked : markers (indent ++ entry ++ tail ++ ['\n']) = []

inductive Part where
  | filler (f : Filler)
  | object (o : ObjectLines)

/-- A line of a marker, or what stands between two of them. -/
inductive Cell where
  | part (p : Part)
  | marker (opens : Bool) (isa : String)

namespace ObjectLines

def text (o : ObjectLines) : List Char := o.indent ++ o.entry ++ o.tail ++ ['\n']

def id (o : ObjectLines) : String := o.key.value

/-- What the entry says. -/
def object (o : ObjectLines) : Object := ⟨o.key.value, o.fields, o.key.comment⟩

def pair (o : ObjectLines) : Scalar × Value := (o.key, .dict o.fields)

end ObjectLines

/-- The objects of a kind between the two lines that mark its section. -/
structure Kind where
  isa : String
  parts : List Part
  isa_ne : isa.toList ≠ []
  isa_word : ∀ c ∈ isa.toList, Text.isWord c = true
  own : ∀ o, .object o ∈ parts → o.object.isa = isa

inductive Block where
  | filler (f : Filler)
  | kind (k : Kind)

def markerLine (opens : Bool) (isa : String) : List Char :=
  (if opens then "/* Begin ".toList else "/* End ".toList) ++ isa.toList ++ " section */\n".toList

namespace Part

def text : Part → List Char
  | .filler f => f.text
  | .object o => o.text

def object? : Part → Option ObjectLines
  | .filler _ => none
  | .object o => some o

end Part

namespace Cell

def text : Cell → List Char
  | .part p => p.text
  | .marker opens isa => markerLine opens isa

def object? : Cell → Option ObjectLines
  | .part p => p.object?
  | .marker _ _ => none

end Cell

namespace Kind

def cells (k : Kind) : List Cell := .marker true k.isa :: (k.parts.map .part ++ [.marker false k.isa])

def objects (k : Kind) : List ObjectLines := k.parts.filterMap Part.object?

end Kind

namespace Block

def cells : Block → List Cell
  | .filler f => [.part (.filler f)]
  | .kind k => k.cells

def kind? : Block → Option Kind
  | .filler _ => none
  | .kind k => some k

end Block

/-- The text of cells. -/
def textOf (cs : List Cell) : List Char := (cs.map Cell.text).flatten

/-- The objects in cells, in order. -/
def objectsIn (cs : List Cell) : List ObjectLines := cs.filterMap Cell.object?

def cellsOf (bs : List Block) : List Cell := bs.flatMap Block.cells

def kindsIn (bs : List Block) : List Kind := bs.filterMap Block.kind?

/-- A project text.  The lines of the table stand between its front, which goes up to the line the table starts on, and
its end, which starts with the line of the closing brace.  Without these lines the text is a project with one empty
table. -/
structure Layout where
  head : List Char
  blocks : List Block
  indent : List Char
  foot : List Char
  root : Dict Value
  head_lines : IsLines head
  head_single : ¬ ['\n', '\n'] <:+ head
  head_unmarked : markers head = []
  indent_isIndent : IsIndent indent
  emptied : document tableKey (head ++ '\x7d' :: foot) = .ok (root, [⟨[], '\x7d' :: foot⟩])
  isas_nodup : ((kindsIn blocks).map Kind.isa).Nodup
  ids_nodup : ((objectsIn (cellsOf blocks)).map ObjectLines.id).Nodup

namespace Layout

def cells (L : Layout) : List Cell := cellsOf L.blocks

def objects (L : Layout) : List ObjectLines := objectsIn L.cells

/-- The line of the closing brace and what follows it. -/
def closing (L : Layout) : List Char := L.indent ++ '\x7d' :: L.foot

def text (L : Layout) : List Char := L.head ++ textOf L.cells ++ L.closing

end Layout

/-! ## Cells -/

@[simp] theorem textOf_nil : textOf [] = [] := rfl

@[simp] theorem textOf_cons (c : Cell) (cs : List Cell) : textOf (c :: cs) = c.text ++ textOf cs := by simp [textOf]

@[simp] theorem textOf_append (as bs : List Cell) : textOf (as ++ bs) = textOf as ++ textOf bs := by simp [textOf]

@[simp] theorem cellsOf_append (as bs : List Block) : cellsOf (as ++ bs) = cellsOf as ++ cellsOf bs := by simp [cellsOf]

@[simp] theorem cellsOf_cons (b : Block) (bs : List Block) : cellsOf (b :: bs) = b.cells ++ cellsOf bs := by
  simp [cellsOf]

@[simp] theorem objectsIn_append (as bs : List Cell) : objectsIn (as ++ bs) = objectsIn as ++ objectsIn bs := by
  simp [objectsIn]

theorem objectsIn_object (o : ObjectLines) (cs : List Cell) :
    objectsIn (.part (.object o) :: cs) = o :: objectsIn cs := rfl

theorem markerLine_eq (opens : Bool) (isa : String) :
    markerLine opens isa = '/' :: '*' :: ((if opens then " Begin ".toList else " End ".toList) ++ isa.toList ++
      " section ".toList ++ '*' :: '/' :: ['\n']) := by
  have hend : " section */\n".toList = " section ".toList ++ '*' :: '/' :: ['\n'] := rfl
  rw [markerLine, hend, ← List.append_assoc]
  cases opens <;> rfl

theorem isWord_ne_star {c : Char} (h : Text.isWord c = true) : c ≠ '*' := by
  rintro rfl
  exact absurd h (by decide)

theorem staysOpen_of_no_star {cs : List Char} (h : ∀ c ∈ cs, c ≠ '*') : StaysOpen cs := by
  rintro ⟨a, b, rfl⟩
  exact h '*' (by simp) rfl

/-- The line of a marker is a comment. -/
theorem gap_markerLine {isa : String} (h : ∀ c ∈ isa.toList, Text.isWord c = true) (opens : Bool) :
    Gap (markerLine opens isa) := by
  rw [markerLine_eq]
  refine .comment (StaysOpen.closeComment? (staysOpen_of_no_star fun c hc => ?_) []) gap_newline
  simp only [List.mem_append] at hc
  rcases hc with (hc | hc) | hc
  · rintro rfl
    revert hc
    cases opens <;> decide
  · exact isWord_ne_star (h c hc)
  · rintro rfl
    revert hc
    decide

theorem markerLine_isLines (opens : Bool) (isa : String) : IsLines (markerLine opens isa) := by
  rw [markerLine_eq]
  exact ⟨'/' :: '*' :: ((if opens then " Begin ".toList else " End ".toList) ++ isa.toList ++
      " section ".toList ++ ['*', '/']), by simp only [List.cons_append, List.append_assoc, List.nil_append]⟩

theorem Part.text_isLines (p : Part) : IsLines p.text := by
  cases p with
  | filler f => exact f.lines
  | object o => exact ⟨o.indent ++ o.entry ++ o.tail, rfl⟩

theorem Cell.text_isLines (c : Cell) : IsLines c.text := by
  cases c with
  | part p => exact p.text_isLines
  | marker opens isa => exact markerLine_isLines opens isa

theorem Cell.text_ne_nil (c : Cell) : c.text ≠ [] := by
  obtain ⟨u, hu⟩ := c.text_isLines
  rw [hu]
  simp

theorem Cell.text_length_pos (c : Cell) : 0 < c.text.length := List.length_pos_iff.mpr c.text_ne_nil

/-- Lines behind lines are lines. -/
theorem IsLines.append_textOf {cs : List Char} (h : IsLines cs) (as : List Cell) : IsLines (cs ++ textOf as) := by
  induction as using List.reverseRecOn with
  | nil => simpa using h
  | append_singleton as a _ =>
    obtain ⟨u, hu⟩ := a.text_isLines
    exact ⟨cs ++ textOf as ++ u, by simp [hu]⟩

theorem isBlankText_iff {cs : List Char} : Text.isBlankText cs = true ↔ ∀ c ∈ cs, Text.isBlank c = true :=
  List.all_eq_true

theorem IsIndent.gap {cs : List Char} (h : IsIndent cs) : Gap cs := gap_of_blank (isBlankText_iff.mp h.blank)

namespace ObjectLines

variable (o : ObjectLines)

theorem isEntry : IsEntry o.entry o.key (.dict o.fields) := by
  obtain ⟨body, h⟩ := o.reads
  exact isEntry_of_reads h

theorem entry_startsSolid : StartsSolid (o.entry ++ ['\x7d']) := by
  obtain ⟨body, h⟩ := o.reads
  cases h with
  | member hskip hne => exact startsSolid_of_skip hskip hne

/-- An entry does not start with a blank character. -/
theorem entry_ne_nil : ∃ d s, o.entry = d :: s ∧ Text.isBlank d = false := by
  obtain ⟨d, s, hs, hblank, -⟩ := o.entry_startsSolid
  cases he : o.entry with
  | nil =>
    obtain ⟨body, h⟩ := o.reads
    rw [he] at h
    cases h with
    | member _ _ hbrace => exact absurd rfl hbrace
  | cons x entry =>
    rw [he] at hs
    obtain ⟨rfl, -⟩ := List.cons.inj hs
    exact ⟨x, entry, rfl, hblank⟩

theorem entry_getLast? : o.entry.getLast? = some ';' := by
  obtain ⟨body, h⟩ := o.reads
  cases h with
  | member hskip _ _ hkey hequals hvalue hend _ =>
    obtain ⟨start, hstart⟩ := (expect_suffix hend).trans (hvalue.suffix.trans (body_suffix hskip hkey hequals))
    have hsplit : (start ++ [';']) ++ ['\x7d'] = o.entry ++ ['\x7d'] := by rw [← hstart]; simp
    rw [← List.append_cancel_right hsplit]
    simp

theorem key_isWritten : o.key.IsWritten ∧ (Value.dict o.fields).Writable := by
  obtain ⟨body, h⟩ := o.reads
  exact h.writable _ (List.mem_singleton_self _)

theorem key_text : o.key.text = o.id := (Scalar.value_of_head o.unquoted).symm

/-- The text of an object does not start with a line feed. -/
theorem text_head?_ne : o.text.head? ≠ some '\n' := by
  obtain ⟨d, s, he, hblank⟩ := o.entry_ne_nil
  rw [text, he]
  cases hi : o.indent with
  | nil =>
    rw [List.nil_append, List.cons_append, List.cons_append, List.head?_cons, Ne, Option.some.injEq]
    rintro rfl
    exact absurd hblank (by decide)
  | cons x indent =>
    have hx := o.indent_isIndent.line
    rw [hi] at hx
    rw [List.cons_append, List.cons_append, List.cons_append, List.head?_cons, Ne, Option.some.injEq]
    rintro rfl
    exact hx List.mem_cons_self

/-- The text of an object does not end with an empty line. -/
theorem text_not_suffix : ¬ ['\n', '\n'] <:+ o.text := by
  rintro ⟨u, hu⟩
  have hline : u ++ ['\n'] = o.indent ++ o.entry ++ o.tail := by
    have hsplit : (u ++ ['\n']) ++ ['\n'] = (o.indent ++ o.entry ++ o.tail) ++ ['\n'] := by
      rw [← text, ← hu]
      simp
    exact List.append_cancel_right hsplit
  have hlast := congrArg List.getLast? hline
  rw [List.getLast?_concat] at hlast
  cases ht : o.tail using List.reverseRecOn with
  | nil =>
    rw [ht, List.append_nil, List.getLast?_append, o.entry_getLast?] at hlast
    exact absurd hlast (by simp)
  | append_singleton tail x =>
    rw [ht, ← List.append_assoc, List.getLast?_concat] at hlast
    have hx := o.tail_isIndent.line
    rw [ht] at hx
    exact hx (by simp [← Option.some.inj hlast])

end ObjectLines

/-! ## Places -/

namespace Layout

variable {L : Layout}

/-- A cell stands at a place of the text. -/
def At (L : Layout) (n : Nat) (c : Cell) : Prop :=
  ∃ as bs, L.cells = as ++ c :: bs ∧ n = L.head.length + (textOf as).length

theorem exists_between {as bs as' bs' : List Cell} (h : as ++ bs = as' ++ bs')
    (hle : (textOf as).length ≤ (textOf as').length) : ∃ m, as' = as ++ m ∧ bs = m ++ bs' := by
  rcases List.append_eq_append_iff.mp h with ⟨m, ha, hb⟩ | ⟨m, ha, hb⟩
  · exact ⟨m, ha, hb⟩
  · have hm : m = [] := by
      by_contra hne
      obtain ⟨c, rest, rfl⟩ := List.exists_cons_of_ne_nil hne
      have hpos := c.text_length_pos
      rw [ha] at hle
      simp only [textOf_append, textOf_cons, List.length_append] at hle
      omega
    subst hm
    exact ⟨[], by simpa using ha.symm, by simpa using hb.symm⟩

/-- What stands inside the text of consecutive cells is one of them. -/
theorem At.mem_of_between {as cs bs : List Cell} {n : Nat} {c : Cell} (hcells : L.cells = as ++ (cs ++ bs))
    (hn : L.At n c) (hle : L.head.length + (textOf as).length ≤ n)
    (hlt : n < L.head.length + (textOf as).length + (textOf cs).length) : c ∈ cs := by
  obtain ⟨as', bs', hcells', rfl⟩ := hn
  obtain ⟨m, rfl, hm⟩ := exists_between (hcells.symm.trans hcells') (by omega)
  simp only [textOf_append, List.length_append] at hlt
  -- The cell stands before the end of `cs`.
  obtain ⟨m', hcs, hm'⟩ := exists_between hm.symm (by omega)
  cases m' with
  | nil =>
    rw [hcs, List.append_nil] at hlt
    omega
  | cons d m' =>
    obtain ⟨rfl, -⟩ := List.cons.inj hm'
    simp [hcs]

/-- At every place there is one cell. -/
theorem At.unique {n m : Nat} {c d : Cell} (hc : L.At n c) (hd : L.At m d) (hle : n ≤ m)
    (hlt : m < n + c.text.length) : m = n ∧ d = c := by
  obtain ⟨as, bs, hcells, rfl⟩ := hc
  have hmem := hd.mem_of_between (show L.cells = as ++ ([c] ++ bs) by simpa using hcells) hle (by simpa using hlt)
  obtain rfl := List.mem_singleton.mp hmem
  obtain ⟨as', bs', hcells', rfl⟩ := hd
  obtain ⟨m, rfl, hm⟩ := exists_between (hcells.symm.trans hcells') (by omega)
  cases m with
  | nil => exact ⟨by simp, rfl⟩
  | cons e m =>
    obtain ⟨rfl, -⟩ := List.cons.inj hm
    simp only [textOf_append, textOf_cons, List.length_append] at hlt
    omega

theorem mem_objects {o : ObjectLines} : o ∈ L.objects ↔ .part (.object o) ∈ L.cells := by
  simp only [objects, objectsIn, List.mem_filterMap]
  constructor
  · rintro ⟨c, hc, ho⟩
    cases c with
    | marker => contradiction
    | part p =>
      cases p with
      | filler => contradiction
      | object o' =>
        obtain rfl := Option.some.inj ho
        exact hc
  · exact fun h => ⟨_, h, rfl⟩

/-- An object is known by its id. -/
theorem eq_of_id_eq {o o' : ObjectLines} (ho : o ∈ L.objects) (ho' : o' ∈ L.objects) (h : o.id = o'.id) : o = o' :=
  List.inj_on_of_nodup_map L.ids_nodup ho ho' h

end Layout

end Xcode
end ModuleLink
