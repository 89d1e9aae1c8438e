import ModuleLink.Proofs.Plist.Dict
import ModuleLink.Proofs.Plist.Quoting

/-!
A value that a text can hold is read back from what is written for it, on one line or over several.
-/

namespace ModuleLink
namespace Plist

/-! ## Values that a text can hold -/

namespace Dict

/-- The keys that a dictionary has and those that it remembers. -/
def names (d : Dict Value) : List String := d.keys ++ d.spellings.map (·.1)

theorem mem_names_of_mem {d : Dict Value} {e : String × Value} (h : e ∈ d.entries) : e.1 ∈ d.names :=
  List.mem_append_left _ (List.mem_map_of_mem h)

end Dict

namespace Value

/-- Every scalar can be written, and every dictionary has its keys once and writes each as something that stands for
it. -/
inductive Writable : Value → Prop
  | scalar {s : Scalar} : s.IsWritten → Writable (.scalar s)
  | list {items : List Value} : (∀ v ∈ items, Writable v) → Writable (.list items)
  | dict {d : Dict Value} : d.keys.Nodup → (∀ k ∈ d.names, (d.spelling k).IsWritten ∧ (d.spelling k).value = k) →
      (∀ e ∈ d.entries, Writable e.2) → Writable (.dict d)

/-- The same, where nothing is said about the written forms of keys that are not there. -/
inductive Readable : Value → Prop
  | scalar {s : Scalar} : s.IsWritten → Readable (.scalar s)
  | list {items : List Value} : (∀ v ∈ items, Readable v) → Readable (.list items)
  | dict {d : Dict Value} : d.keys.Nodup → (∀ k ∈ d.keys, (d.spelling k).IsWritten ∧ (d.spelling k).value = k) →
      (∀ e ∈ d.entries, Readable e.2) → Readable (.dict d)

theorem Writable.readable {v : Value} (hv : v.Writable) : v.Readable := by
  induction hv with
  | scalar hs => exact .scalar hs
  | list _ ih => exact .list ih
  | dict hkeys hspelled _ ih => exact .dict hkeys (fun k hk => hspelled k (List.mem_append_left _ hk)) ih

mutual

/-- The value without the written forms of keys that are not there. -/
def tidy : Value → Value
  | .scalar s => .scalar s
  | .list items => .list (tidyItems items)
  | .dict ⟨entries, spellings⟩ =>
    .dict ⟨tidyEntries entries, entries.map fun e => (e.1, (spellings.lookup e.1).getD (Scalar.of e.1))⟩

def tidyItems : List Value → List Value
  | [] => []
  | v :: rest => tidy v :: tidyItems rest

def tidyEntries : List (String × Value) → List (String × Value)
  | [] => []
  | (key, v) :: rest => (key, tidy v) :: tidyEntries rest

end

theorem tidyItems_eq (items : List Value) : tidyItems items = items.map tidy := by
  induction items with
  | nil => rfl
  | cons v rest ih => rw [tidyItems, ih, List.map_cons]

theorem tidyEntries_eq (entries : List (String × Value)) :
    tidyEntries entries = entries.map fun e => (e.1, e.2.tidy) := by
  induction entries with
  | nil => rfl
  | cons e rest ih => rw [tidyEntries, ih, List.map_cons]

end Value

namespace Dict

/-- The dictionary with tidy values and the written forms of the keys it has. -/
def tidy (d : Dict Value) : Dict Value :=
  ⟨d.entries.map fun e => (e.1, e.2.tidy), d.entries.map fun e => (e.1, d.spelling e.1)⟩

end Dict

section Tidy

variable {d : Dict Value} {k : String}

/-! What is asked of a dictionary is the same after it was tidied, as long as it is about keys that are there. -/

theorem Dict.get?_tidy (d : Dict Value) (k : String) : d.tidy.get? k = (d.get? k).map Value.tidy := by
  rw [Dict.get?, Dict.get?, Dict.tidy]
  generalize d.entries = es
  induction es with
  | nil => rfl
  | cons e es ih =>
    obtain ⟨l, v⟩ := e
    rw [List.map_cons]
    by_cases hk : k = l
    · rw [hk, Entries.lookup_cons_self, Entries.lookup_cons_self]
      rfl
    · rw [Entries.lookup_cons_of_ne hk, Entries.lookup_cons_of_ne hk, ih]

theorem lookup_map_pair {β : Type} (f : String → β) {keys : List String} {k : String} (hk : k ∈ keys) :
    (keys.map fun k => (k, f k)).lookup k = some (f k) := by
  induction keys with
  | nil => exact absurd hk List.not_mem_nil
  | cons l keys ih =>
    rw [List.map_cons]
    by_cases hkl : k = l
    · rw [hkl, Entries.lookup_cons_self]
    · rw [Entries.lookup_cons_of_ne hkl]
      exact ih ((List.mem_cons.mp hk).resolve_left hkl)

theorem Dict.spelling_tidy {d : Dict Value} {k : String} (hk : k ∈ d.keys) : d.tidy.spelling k = d.spelling k := by
  have hlookup := lookup_map_pair d.spelling hk
  rw [Dict.keys, List.map_map] at hlookup
  have hfound : d.tidy.spellings.lookup k = some (d.spelling k) := hlookup
  rw [Dict.spelling, hfound, Option.getD_some]

end Tidy

theorem Value.tidy_scalar (s : Scalar) : (Value.scalar s).tidy = .scalar s := by rw [Value.tidy]

theorem Value.tidy_list (items : List Value) : (Value.list items).tidy = .list (items.map Value.tidy) := by
  rw [Value.tidy, Value.tidyItems_eq]

theorem Value.tidy_dict (d : Dict Value) : (Value.dict d).tidy = .dict d.tidy := by
  rw [Value.tidy, Value.tidyEntries_eq]
  rfl

/-! ## Reading piece by piece -/

section Pieces

variable {f : Found} {g cs rest : List Char} {v : Value}

/-- What is passed over first does not matter. -/
theorem Reads.of_skip_eq {cs' : List Char} (h : Reads f cs rest) (hskip : skip cs' = skip cs) : Reads f cs' rest := by
  cases h with
  | dict h hms => exact .dict (hskip.trans h) hms
  | list h hvs => exact .list (hskip.trans h) hvs
  | scalar h hbrace hparen hs => exact .scalar (hskip.trans h) hbrace hparen hs
  | noItem h => exact .noItem (hskip.trans h)
  | lastItem h hne hparen hv hend => exact .lastItem (hskip.trans h) hne hparen hv hend
  | item h hne hparen hv hcomma hvs => exact .item (hskip.trans h) hne hparen hv hcomma hvs
  | noMember h => exact .noMember (hskip.trans h)
  | member h hne hbrace hkey hequals hv hend hms => exact .member (hskip.trans h) hne hbrace hkey hequals hv hend hms

theorem Reads.append_gap (h : Reads f cs rest) (hg : Gap g) : Reads f (g ++ cs) rest :=
  h.of_skip_eq (hg.skip_append cs)

theorem Reads.of_append_gap (h : Reads f (g ++ cs) rest) (hg : Gap g) : Reads f cs rest :=
  h.of_skip_eq (hg.skip_append cs).symm

theorem skip_skip {start : List Char} (h : skip cs = .ok start) (hne : start ≠ []) : skip start = .ok start :=
  skip_of_startsSolid (startsSolid_of_skip h hne)

/-- A value starts with something that ends no list. -/
theorem Reads.exists_start (h : Reads (.value v) cs rest) :
    ∃ start, skip cs = .ok start ∧ start ≠ [] ∧ start.head? ≠ some ')' ∧ Reads (.value v) start rest := by
  cases h with
  | dict hskip hms => exact ⟨_, hskip, by simp, by simp, .dict (skip_skip hskip (by simp)) hms⟩
  | list hskip hvs => exact ⟨_, hskip, by simp, by simp, .list (skip_skip hskip (by simp)) hvs⟩
  | @scalar _ start _ s hskip hbrace hparen hs =>
    obtain ⟨start', text, left, hskip', htoken, -, -⟩ := scalar_eq_ok hs
    obtain ⟨hstart', hne'⟩ := token?_suffix htoken
    have hne : start ≠ [] := by
      rintro rfl
      have hsuffix := skip_suffix hskip'
      rw [hstart', List.suffix_nil] at hsuffix
      exact hne' (List.append_eq_nil_iff.mp hsuffix).1
    have hsame : start = start' := Except.ok.inj ((skip_skip hskip hne).symm.trans hskip')
    refine ⟨start, hskip, hne, ?_, .scalar (skip_skip hskip hne) hbrace hparen hs⟩
    rw [hsame, hstart']
    exact (isToken_of_token? htoken).head?_ne (by decide) left

/-- An item of a list, a comma, and the items behind it. -/
theorem Reads.cons_item {left after : List Char} {vs : List Value} (h : Reads (.value v) cs left)
    (hcomma : skip left = .ok (',' :: after)) (hvs : Reads (.items vs) after rest) :
    Reads (.items (v :: vs)) cs rest := by
  obtain ⟨start, hskip, hne, hparen, hv⟩ := h.exists_start
  exact .item hskip hne hparen hv hcomma hvs

/-- A key is read up to its equals sign. -/
theorem Scalar.IsWritten.reads_key {key : Scalar} (hkey : key.IsWritten) (body : List Char) :
    Plist.scalar (renderScalar key ++ " =".toList ++ body) = .ok (key, ' ' :: '=' :: body) ∧
      expect '=' (' ' :: '=' :: body) = .ok body := by
  have hspace : renderScalar key ++ " =".toList ++ body = renderScalar key ++ ' ' :: '=' :: body := by simp
  have hspaced : (' ' :: '=' :: body).head?.all isEnd = true := rfl
  rw [hspace]
  refine ⟨hkey.scalar_render hspaced (by simp) (trailingComment_space (by decide) body), expect_of_skip ?_⟩
  rw [skip_cons_of_blank (by decide), skip_of_startsSolid (startsSolid_mark (by decide) body)]

/-- A key, its value, and the members behind them. -/
theorem Reads.cons_member {key : Scalar} {body after closed : List Char} {ms : List Member} (hkey : key.IsWritten)
    (hv : Reads (.value v) body after) (hend : expect ';' after = .ok closed) (hms : Reads (.members ms) closed rest) :
    Reads (.members (⟨key, v, renderScalar key ++ " =".toList ++ body, body, closed⟩ :: ms))
      (renderScalar key ++ " =".toList ++ body) rest := by
  obtain ⟨hscalar, hequals⟩ := hkey.reads_key body
  have hspace : renderScalar key ++ " =".toList ++ body = renderScalar key ++ ' ' :: '=' :: body := by simp
  rw [hspace] at hscalar ⊢
  exact .member (skip_of_startsSolid (hkey.startsSolid isEnd_space _)) (by simp)
    (hkey.head?_ne isEnd_space (by decide) _) hscalar hequals hv hend hms

end Pieces

/-! ## Reading what was written -/

section Written

variable {before after g : List Char} {render : Value → List Char}

/-- Items that are written alike and read back one by one are read back together. -/
theorem reads_items {items : List Value} (hbefore : Gap before) (hafter : Gap after) (hg : Gap g)
    (h : ∀ v ∈ items, ∀ t, Reads (.value v.tidy) (render v ++ ',' :: t) (',' :: t)) (t : List Char) :
    Reads (.items (items.map Value.tidy))
      ((items.flatMap fun v => before ++ render v ++ ',' :: after) ++ g ++ ')' :: t) t := by
  induction items with
  | nil =>
    refine .noItem ?_
    rw [List.flatMap_nil, List.nil_append, hg.skip_append]
    exact skip_of_startsSolid (startsSolid_mark (by decide) t)
  | cons v items ih =>
    have hrest := (ih fun w hw => h w (by simp [hw])).append_gap hafter
    generalize hu : after ++ ((items.flatMap fun v => before ++ render v ++ ',' :: after) ++ g ++ ')' :: t) = u at hrest
    have hv : Reads (.value v.tidy) (before ++ (render v ++ ',' :: u)) (',' :: u) := (h v (by simp) u).append_gap hbefore
    have hcons := hv.cons_item (skip_of_startsSolid (startsSolid_mark (by decide) u)) hrest
    rw [← hu] at hcons
    simpa only [List.flatMap_cons, List.map_cons, List.append_assoc, List.cons_append] using hcons

/-- Entries that are written alike and read back one by one are read back together. -/
theorem reads_members (spelled : String → Scalar) {entries : List (String × Value)} (hbefore : Gap before)
    (hafter : Gap after) (hg : Gap g) (hspelled : ∀ e ∈ entries, (spelled e.1).IsWritten)
    (h : ∀ e ∈ entries, ∀ t, Reads (.value e.2.tidy) (render e.2 ++ ';' :: t) (';' :: t)) (t : List Char) :
    ∃ ms, ms.map (fun m => (m.key, m.value)) = entries.map (fun e => (spelled e.1, e.2.tidy)) ∧
      Reads (.members ms)
        ((entries.flatMap fun e => before ++ renderScalar (spelled e.1) ++ " = ".toList ++ render e.2 ++ ';' :: after) ++
          g ++ '\x7d' :: t) t := by
  induction entries with
  | nil =>
    refine ⟨[], rfl, .noMember ?_⟩
    rw [List.flatMap_nil, List.nil_append, hg.skip_append]
    exact skip_of_startsSolid (startsSolid_mark (by decide) t)
  | cons e entries ih =>
    obtain ⟨ms, hms, hreads⟩ := ih (fun x hx => hspelled x (by simp [hx])) fun x hx => h x (by simp [hx])
    have hrest := hreads.append_gap hafter
    generalize hu : after ++ ((entries.flatMap fun e => before ++ renderScalar (spelled e.1) ++ " = ".toList ++
      render e.2 ++ ';' :: after) ++ g ++ '\x7d' :: t) = u at hrest
    have hv : Reads (.value e.2.tidy) (' ' :: (render e.2 ++ ';' :: u)) (';' :: u) :=
      (h e (by simp) u).append_gap gap_space
    have hend : expect ';' (';' :: u) = .ok u :=
      expect_of_skip (skip_of_startsSolid (startsSolid_mark (by decide) u))
    have hcons := (Reads.cons_member (hspelled e (by simp)) hv hend hrest).append_gap hbefore
    have htext : before ++ (renderScalar (spelled e.1) ++ " =".toList ++ ' ' :: (render e.2 ++ ';' :: u)) =
        (((e :: entries).flatMap fun e => before ++ renderScalar (spelled e.1) ++ " = ".toList ++ render e.2 ++
          ';' :: after) ++ g ++ '\x7d' :: t) := by
      simp [← hu]
    rw [htext] at hcons
    refine ⟨_, ?_, hcons⟩
    simp only [List.map_cons, hms]

end Written

theorem renderLines_eq (indent : List Char) (items : List Value) :
    renderLines indent items = items.flatMap fun v => indent ++ renderBlock indent v ++ ',' :: ['\n'] := by
  induction items with
  | nil => rw [renderLines, List.flatMap_nil]
  | cons v rest ih =>
    rw [renderLines, ih, List.flatMap_cons]
    rfl

theorem renderEntries_eq (indent : List Char) (spellings : List (String × Scalar)) (entries : List (String × Value)) :
    renderEntries indent spellings entries = entries.flatMap fun e =>
      indent ++ renderScalar ((spellings.lookup e.1).getD (Scalar.of e.1)) ++ " = ".toList ++ renderBlock indent e.2 ++
        ';' :: ['\n'] := by
  induction entries with
  | nil => rw [renderEntries, List.flatMap_nil]
  | cons e rest ih =>
    rw [renderEntries, ih, List.flatMap_cons]
    rfl

theorem renderInlineItems_eq (items : List Value) :
    renderInlineItems items = items.flatMap fun v => [] ++ renderInline v ++ ',' :: [' '] := by
  induction items with
  | nil => rw [renderInlineItems, List.flatMap_nil]
  | cons v rest ih =>
    rw [renderInlineItems, ih, List.flatMap_cons]
    rfl

theorem renderInlineEntries_eq (spellings : List (String × Scalar)) (entries : List (String × Value)) :
    renderInlineEntries spellings entries = entries.flatMap fun e =>
      [] ++ renderScalar ((spellings.lookup e.1).getD (Scalar.of e.1)) ++ " = ".toList ++ renderInline e.2 ++
        ';' :: [' '] := by
  induction entries with
  | nil => rw [renderInlineEntries, List.flatMap_nil]
  | cons e rest ih =>
    rw [renderInlineEntries, ih, List.flatMap_cons]
    rfl

/-- Tidying a value does not change how it is written. -/
theorem Value.Readable.render_tidy {v : Value} (hv : v.Readable) :
    (∀ indent, renderBlock indent v.tidy = renderBlock indent v) ∧ renderInline v.tidy = renderInline v := by
  induction hv with
  | scalar => exact ⟨fun _ => by rw [Value.tidy_scalar], by rw [Value.tidy_scalar]⟩
  | @list items _ ih =>
    rw [Value.tidy_list]
    constructor
    · intro indent
      rw [renderBlock, renderBlock, renderLines_eq, renderLines_eq, List.flatMap_map]
      rw [List.flatMap_congr fun v hv => by rw [(ih v hv).1]]
    · rw [renderInline, renderInline, renderInlineItems_eq, renderInlineItems_eq, List.flatMap_map]
      rw [List.flatMap_congr fun v hv => by rw [(ih v hv).2]]
  | @dict d _ _ _ ih =>
    have hspelling (e : String × Value) (he : e ∈ d.entries) :
        (d.tidy.spellings.lookup e.1).getD (Scalar.of e.1) = (d.spellings.lookup e.1).getD (Scalar.of e.1) :=
      Dict.spelling_tidy (d := d) (List.mem_map_of_mem he)
    have hentries : d.tidy.entries = d.entries.map fun e => (e.1, e.2.tidy) := rfl
    rw [Value.tidy_dict]
    constructor
    · intro indent
      rw [renderBlock, renderBlock, renderEntries_eq, renderEntries_eq, hentries, List.flatMap_map]
      rw [List.flatMap_congr fun e he => by rw [hspelling e he, (ih e he).1]]
    · rw [renderInline, renderInline, renderInlineEntries_eq, renderInlineEntries_eq, hentries, List.flatMap_map]
      rw [List.flatMap_congr fun e he => by rw [hspelling e he, (ih e he).2]]

theorem reads_scalar {s : Scalar} (hs : s.IsWritten) {e : Char} (he : isMark e = true) (t : List Char) :
    Reads (.value (.scalar s)) (renderScalar s ++ e :: t) (e :: t) := by
  have hend := isEnd_mark he
  exact .scalar (skip_of_startsSolid (hs.startsSolid hend t)) (hs.head?_ne hend (by decide) t)
    (hs.head?_ne hend (by decide) t) (hs.scalar_render (by simpa using hend) (by simp) (trailingComment_mark he t))

/-- The members that the entries of a dictionary are written as make up the tidy dictionary. -/
theorem ofMembers_tidy {d : Dict Value} {ms : List Member} (hkeys : d.keys.Nodup)
    (hspelled : ∀ k ∈ d.keys, (d.spelling k).value = k)
    (h : ms.map (fun m => (m.key, m.value)) = d.entries.map fun e => (d.spelling e.1, e.2.tidy)) :
    Dict.ofMembers ms = d.tidy := by
  have hvalues : d.entries.map (fun e => (d.spelling e.1).value) = d.keys :=
    List.map_congr_left fun e he => hspelled e.1 (List.mem_map_of_mem he)
  have hnames : ms.map (·.key.value) = d.keys := by
    rw [← hvalues]
    simpa only [List.map_map, Function.comp_def] using congrArg (List.map fun p => p.1.value) h
  rw [Dict.ofMembers_of_nodup (hnames ▸ hkeys), Dict.tidy]
  have hentries := congrArg (List.map fun p => (p.1.value, p.2)) h
  have hspellings := congrArg (List.map fun p => (p.1.value, p.1)) h
  simp only [List.map_map, Function.comp_def] at hentries hspellings
  rw [hentries, hspellings]
  congr 1
  · exact List.map_congr_left fun e he => by rw [hspelled e.1 (List.mem_map_of_mem he)]
  · exact List.map_congr_left fun e he => by rw [hspelled e.1 (List.mem_map_of_mem he)]

/-- A value written over several lines is read back. -/
theorem reads_renderBlock {v : Value} (hv : v.Readable) {indent : List Char} (hindent : ∀ c ∈ indent, Text.isBlank c = true)
    {e : Char} (he : isMark e = true) (t : List Char) :
    Reads (.value v.tidy) (renderBlock indent v ++ e :: t) (e :: t) := by
  induction hv generalizing indent e t with
  | scalar hs =>
    rw [renderBlock, Value.tidy_scalar]
    exact reads_scalar hs he t
  | @list items _ ih =>
    have hdeeper : ∀ c ∈ indent ++ ['\t'], Text.isBlank c = true := by
      simp only [List.mem_append, List.mem_singleton]
      rintro c (hc | rfl)
      · exact hindent c hc
      · decide
    have hitems := (reads_items (gap_of_blank hdeeper) gap_newline (gap_of_blank hindent)
      (fun v hv t => ih v hv hdeeper (by decide) t) (e :: t)).append_gap gap_newline
    rw [renderBlock, renderLines_eq, Value.tidy_list]
    refine .list ?_ (show Reads _ ('\n' :: _) _ by simpa only [List.append_assoc, List.singleton_append] using hitems)
    simpa using skip_of_startsSolid (startsSolid_mark (e := '(') (by decide) _)
  | @dict d hkeys hspelled _ ih =>
    have hdeeper : ∀ c ∈ indent ++ ['\t'], Text.isBlank c = true := by
      simp only [List.mem_append, List.mem_singleton]
      rintro c (hc | rfl)
      · exact hindent c hc
      · decide
    obtain ⟨ms, hms, hreads⟩ := reads_members d.spelling (gap_of_blank hdeeper) gap_newline
      (gap_of_blank hindent) (fun x hx => (hspelled x.1 (List.mem_map_of_mem hx)).1)
      (fun x hx t => ih x hx hdeeper (by decide) t) (e :: t)
    have hmembers := hreads.append_gap gap_newline
    rw [Value.tidy_dict, ← ofMembers_tidy hkeys (fun k hk => (hspelled k hk).2) hms]
    rw [show Value.dict d = .dict ⟨d.entries, d.spellings⟩ from rfl, renderBlock, renderEntries_eq]
    refine .dict ?_ (show Reads _ ('\n' :: _) _ by simpa only [List.append_assoc, List.singleton_append] using hmembers)
    simpa [Dict.spelling] using skip_of_startsSolid (startsSolid_mark (e := '\x7b') (by decide) _)

/-- A value written on one line is read back. -/
theorem reads_renderInline {v : Value} (hv : v.Readable) {e : Char} (he : isMark e = true) (t : List Char) :
    Reads (.value v.tidy) (renderInline v ++ e :: t) (e :: t) := by
  induction hv generalizing e t with
  | scalar hs =>
    rw [renderInline, Value.tidy_scalar]
    exact reads_scalar hs he t
  | @list items _ ih =>
    have hitems := reads_items .nil gap_space .nil
      (fun v hv t => ih v hv (by decide) t) (e :: t)
    rw [renderInline, renderInlineItems_eq, Value.tidy_list]
    refine .list ?_ hitems
    simpa using skip_of_startsSolid (startsSolid_mark (e := '(') (by decide) _)
  | @dict d hkeys hspelled _ ih =>
    obtain ⟨ms, hms, hreads⟩ := reads_members d.spelling .nil gap_space .nil
      (fun x hx => (hspelled x.1 (List.mem_map_of_mem hx)).1) (fun x hx t => ih x hx (by decide) t) (e :: t)
    rw [Value.tidy_dict, ← ofMembers_tidy hkeys (fun k hk => (hspelled k hk).2) hms]
    rw [show Value.dict d = .dict ⟨d.entries, d.spellings⟩ from rfl, renderInline, renderInlineEntries_eq]
    refine .dict ?_ hreads
    simpa [Dict.spelling] using skip_of_startsSolid (startsSolid_mark (e := '\x7b') (by decide) _)

/-- Whatever is written for a value, over several lines or on one, and ends an entry is read back as that value and
nothing more.  Only the written forms of keys that are not there get lost. -/
theorem value_render {v : Value} (hv : v.Readable) (tabs : Nat) (rest : List Char) {text : List Char}
    (htext : text = renderBlock (List.replicate tabs '\t') v ∨ text = renderInline v) {n : Nat}
    (hn : depthBound (text ++ ';' :: rest) ≤ n) : value n (text ++ ';' :: rest) = .ok (v.tidy, ';' :: rest) := by
  have hindent : ∀ c ∈ List.replicate tabs '\t', Text.isBlank c = true := by
    intro c hc
    rw [List.eq_of_mem_replicate hc]
    decide
  have hreads : Reads (.value v.tidy) (text ++ ';' :: rest) (';' :: rest) := by
    rcases htext with rfl | rfl
    · exact reads_renderBlock hv hindent (by decide) rest
    · exact reads_renderInline hv (by decide) rest
  refine hreads.isReadBy n ?_
  rw [depthBound] at hn
  rw [Found.bound]
  omega

theorem value_render_nested :
    let key : Scalar := ⟨"\"a b\"", some "of*"⟩
    let v := Value.dict ⟨[("a b", .list [.scalar ⟨"x/", some ""⟩, .dict ⟨[], []⟩])], [("a b", key)]⟩
    value 200 (renderBlock ['\t'] v ++ [';', '\n']) = .ok (v.tidy, [';', '\n']) ∧
      value 200 (renderInline v ++ [';', '\n']) = .ok (v.tidy, [';', '\n']) := by
  intro key v
  have hcomment {c : String} (htrimmed : Text.trim c.toList = c.toList) (hopen : ¬ ['*', '/'] <:+: c.toList) :
      ∀ d, some c = some d → IsComment d := by
    rintro d hd
    obtain rfl := Option.some.inj hd
    exact ⟨htrimmed, hopen⟩
  have hkey : key.IsWritten := ⟨by decide, hcomment (by decide) (by decide)⟩
  have hv : v.Readable := by
    refine .dict (by decide) (fun k hk => ?_) fun e he => ?_
    · obtain rfl := List.mem_singleton.mp hk
      exact ⟨hkey, by decide⟩
    · obtain rfl := List.mem_singleton.mp he
      refine .list fun w hw => ?_
      rcases List.mem_cons.mp hw with rfl | hw
      · exact .scalar ⟨by decide, hcomment (by decide) (by decide)⟩
      · obtain rfl := List.mem_singleton.mp hw
        exact .dict (by decide) (by simp [Dict.keys]) (by simp)
  exact ⟨value_render hv 1 ['\n'] (.inl rfl) (by decide), value_render hv 1 ['\n'] (.inr rfl) (by decide)⟩

/-! ## What is read can be written -/

theorem Dict.mem_names_ofMembers {ms : List Member} {k : String} :
    k ∈ (Dict.ofMembers ms).names ↔ ∃ m ∈ ms, m.key.value = k := by
  rw [Dict.names, Dict.map_fst_spellings, List.mem_append, or_self, Dict.mem_keys_ofMembers]

/-- Every value found has a property, and every key can be written. -/
def Found.All (P : Value → Prop) : Found → Prop
  | .value v => P v
  | .items vs => ∀ v ∈ vs, P v
  | .members ms => ∀ m ∈ ms, m.key.IsWritten ∧ P m.value

/-- What holds of scalars, and of lists and dictionaries of what it holds of, holds of everything that is read. -/
theorem Reads.all {P : Value → Prop} (hscalar : ∀ s : Scalar, s.IsWritten → P (.scalar s))
    (hlist : ∀ vs : List Value, (∀ v ∈ vs, P v) → P (.list vs))
    (hdict : ∀ ms : List Member, (∀ m ∈ ms, m.key.IsWritten ∧ P m.value) → P (.dict (Dict.ofMembers ms)))
    {f : Found} {cs rest : List Char} (h : Reads f cs rest) : f.All P := by
  induction h with
  | dict _ _ ih => exact hdict _ ih
  | list _ _ ih => exact hlist _ ih
  | scalar _ _ _ hs => exact hscalar _ (isWritten_of_scalar hs)
  | noItem => exact fun v hv => absurd hv (by simp)
  | lastItem _ _ _ _ _ ihv =>
    intro w hw
    obtain rfl := List.mem_singleton.mp hw
    exact ihv
  | item _ _ _ _ _ _ ihv ih =>
    intro w hw
    rcases List.mem_cons.mp hw with rfl | hw
    · exact ihv
    · exact ih w hw
  | noMember => exact fun m hm => absurd hm (by simp)
  | member _ _ _ hkey _ _ _ _ ihv ih =>
    intro m hm
    rcases List.mem_cons.mp hm with rfl | hm
    · exact ⟨isWritten_of_scalar hkey, ihv⟩
    · exact ih m hm

theorem writable_ofMembers {ms : List Member} (h : ∀ m ∈ ms, m.key.IsWritten ∧ m.value.Writable) :
    (Value.dict (Dict.ofMembers ms)).Writable := by
  refine .dict (Dict.keys_ofMembers_nodup ms) (fun k hk => ?_) fun e he => ?_
  · obtain ⟨m, hm, hkey, hspelling⟩ := Dict.spelling_ofMembers (Dict.mem_names_ofMembers.mp hk)
    rw [hspelling]
    exact ⟨(h m hm).1, hkey⟩
  · obtain ⟨m, hm, -, hvalue⟩ := Dict.mem_ofMembers (k := e.1) (v := e.2) he
    rw [← hvalue]
    exact (h m hm).2

theorem Reads.writable {f : Found} {cs rest : List Char} (h : Reads f cs rest) : f.All Value.Writable :=
  h.all (fun _ => .scalar) (fun _ => .list) fun _ => writable_ofMembers

theorem tidy_ofMembers {ms : List Member} (h : ∀ m ∈ ms, m.value.tidy = m.value) :
    (Dict.ofMembers ms).tidy = Dict.ofMembers ms := by
  have hvalues : ∀ e ∈ (Dict.ofMembers ms).entries, (e.1, e.2.tidy) = id e := by
    intro e he
    obtain ⟨m, hm, -, hvalue⟩ := Dict.mem_ofMembers (k := e.1) (v := e.2) he
    rw [← hvalue, h m hm, hvalue]
    rfl
  have hkeys := Dict.map_fst_spellings ms
  have hnodup : ((Dict.ofMembers ms).spellings.map (·.1)).Nodup := hkeys ▸ Dict.keys_ofMembers_nodup ms
  have hspelled : ∀ e ∈ (Dict.ofMembers ms).spellings, (e.1, (Dict.ofMembers ms).spelling e.1) = id e := by
    intro e he
    rw [Dict.spelling, Dict.lookup_of_mem hnodup he]
    rfl
  have hmap := congrArg (List.map fun k => (k, (Dict.ofMembers ms).spelling k)) hkeys
  rw [Dict.keys, List.map_map, List.map_map] at hmap
  rw [Dict.tidy, List.map_congr_left hvalues, List.map_id]
  exact congrArg _ (hmap.symm.trans ((List.map_congr_left hspelled).trans (List.map_id _)))

/-- What is read is tidy. -/
theorem Reads.tidy {f : Found} {cs rest : List Char} (h : Reads f cs rest) : f.All fun v => v.tidy = v := by
  refine h.all (fun s _ => Value.tidy_scalar s) (fun vs hvs => ?_) fun ms hms => ?_
  · rw [Value.tidy_list, List.map_congr_left hvs, List.map_id']
  · rw [Value.tidy_dict, tidy_ofMembers fun m hm => (hms m hm).2]

end Plist
end ModuleLink
