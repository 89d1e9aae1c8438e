import Mathlib.Data.List.Basic
import ModuleLink.Proofs.Entries
import ModuleLink.Tree.Basic

/-!
Files that are written over.  Writing a file that is there changes the bytes of this file and nothing else, and writing
its old bytes gives the old tree back.
-/

namespace ModuleLink

/-! ## Bytes -/

namespace Text

theorem decode_toUTF8 (s : String) : decode s.toUTF8 = .ok s := by
  have hv : s.toUTF8.IsValidUTF8 := s.isValidUTF8
  rw [decode, String.fromUTF8?, dif_pos hv]
  rfl

theorem toUTF8_of_decode {bytes : ByteArray} {s : String} (h : decode bytes = .ok s) : s.toUTF8 = bytes := by
  rw [decode, String.fromUTF8?] at h
  split at h
  · next t ht =>
    split at ht
    · simp only [Option.some.injEq] at ht
      simp only [Except.ok.injEq] at h
      subst ht h
      rfl
    · contradiction
  · contradiction

end Text

/-! ## Nodes -/

namespace Node

theorem lookup_assign (name k : String) (v : Node) (entries : List (String × Node)) :
    (assign name v entries).lookup k = if k = name then some v else entries.lookup k := by
  induction entries with
  | nil =>
    by_cases h : k = name
    · subst h
      rw [assign, Entries.lookup_cons_self, if_pos rfl]
    · rw [assign, Entries.lookup_cons_of_ne h, if_neg h]
  | cons e rest ih =>
    obtain ⟨l, w⟩ := e
    by_cases hl : l = name
    · subst hl
      rw [assign, if_pos rfl]
      by_cases h : k = l
      · subst h
        rw [Entries.lookup_cons_self, if_pos rfl]
      · rw [Entries.lookup_cons_of_ne h, Entries.lookup_cons_of_ne h, if_neg h]
    · rw [assign, if_neg hl]
      by_cases h : k = l
      · subst h
        rw [Entries.lookup_cons_self, Entries.lookup_cons_self, if_neg hl]
      · rw [Entries.lookup_cons_of_ne h, Entries.lookup_cons_of_ne h, ih]

theorem assign_assign (name : String) (v w : Node) (entries : List (String × Node)) :
    assign name v (assign name w entries) = assign name v entries := by
  induction entries with
  | nil => simp [assign]
  | cons e rest ih =>
    obtain ⟨k, u⟩ := e
    by_cases h : k = name <;> simp [assign, h, ih]

theorem assign_lookup {name : String} {v : Node} {entries : List (String × Node)}
    (h : entries.lookup name = some v) : assign name v entries = entries := by
  induction entries with
  | nil => contradiction
  | cons e rest ih =>
    obtain ⟨k, u⟩ := e
    by_cases hk : k = name
    · subst hk
      rw [Entries.lookup_cons_self, Option.some.injEq] at h
      rw [assign, if_pos rfl, h]
    · rw [Entries.lookup_cons_of_ne (Ne.symm hk)] at h
      rw [assign, if_neg hk, ih h]

theorem get?_cons_eq_some {n v : Node} {name : String} {rest : List String}
    (h : n.get? (name :: rest) = some v) :
    ∃ entries c, n = folder entries ∧ entries.lookup name = some c ∧ c.get? rest = some v := by
  obtain ⟨c, hc, hv⟩ := Option.bind_eq_some_iff.mp h
  cases n with
  | file bytes => contradiction
  | folder entries => exact ⟨entries, c, rfl, hc, hv⟩

theorem put_of_lookup {entries : List (String × Node)} {name : String} {c v : Node} {rest : List String}
    (h : entries.lookup name = some c) :
    put v (name :: rest) (folder entries) = folder (assign name (put v rest c) entries) := by
  rw [put, h]
  rfl

theorem get?_put_self {n u v : Node} {names : List String} (h : n.get? names = some u) :
    (put v names n).get? names = some v := by
  induction names generalizing n with
  | nil => rfl
  | cons name rest ih =>
    obtain ⟨entries, c, rfl, hc, hu⟩ := get?_cons_eq_some h
    rw [put_of_lookup hc, get?, entry?, lookup_assign, if_pos rfl]
    exact ih hu

/-- The last of two writes counts. -/
theorem put_put {n u v w : Node} {names : List String} (h : n.get? names = some u) :
    put v names (put w names n) = put v names n := by
  induction names generalizing n with
  | nil => rfl
  | cons name rest ih =>
    obtain ⟨entries, c, rfl, hc, hu⟩ := get?_cons_eq_some h
    have hc' : (assign name (put w rest c) entries).lookup name = some (put w rest c) := by
      rw [lookup_assign, if_pos rfl]
    rw [put_of_lookup hc, put_of_lookup hc', put_of_lookup hc, assign_assign, ih hu]

/-- Writing what is there changes nothing. -/
theorem put_get? {n v : Node} {names : List String} (h : n.get? names = some v) : put v names n = n := by
  induction names generalizing n with
  | nil => simpa [get?, put] using h.symm
  | cons name rest ih =>
    obtain ⟨entries, c, rfl, hc, hv⟩ := get?_cons_eq_some h
    rw [put_of_lookup hc, ih hv, assign_lookup hc]

/-- A write over a file leaves every other node of the tree a file or a folder as it was, and every other file with its
bytes. -/
theorem get?_put_file {n : Node} {old : ByteArray} {names : List String} (h : n.get? names = some (file old))
    (new : ByteArray) (chain : List String) :
    ((put (file new) names n).get? chain).map isFolder = (n.get? chain).map isFolder ∧
      (chain ≠ names → ∀ bytes, (put (file new) names n).get? chain = some (file bytes) ↔
        n.get? chain = some (file bytes)) := by
  induction names generalizing n chain with
  | nil =>
    obtain rfl : n = file old := by simpa [get?] using h
    cases chain with
    | nil => exact ⟨rfl, fun hne => absurd rfl hne⟩
    | cons k ks => exact ⟨rfl, fun _ _ => Iff.rfl⟩
  | cons name rest ih =>
    obtain ⟨entries, c, rfl, hc, hold⟩ := get?_cons_eq_some h
    rw [put_of_lookup hc]
    cases chain with
    | nil => exact ⟨rfl, fun _ bytes => by simp [get?]⟩
    | cons k ks =>
      rw [get?, get?, entry?, entry?, lookup_assign]
      by_cases hk : k = name
      · subst hk
        rw [if_pos rfl, hc]
        obtain ⟨hkind, hbytes⟩ := ih hold ks
        exact ⟨hkind, fun hne => hbytes fun e => hne (by rw [e])⟩
      · rw [if_neg hk]
        exact ⟨rfl, fun _ _ => Iff.rfl⟩

end Node

/-! ## Following a path -/

namespace Tree

/-- The nodes on the way are those that the root has at their names. -/
def OnTheWay (root : Node) : List (String × Node) → Prop
  | [] => True
  | (name, n) :: above => root.get? ((name :: above.map (·.1)).reverse) = some n ∧ OnTheWay root above

theorem get?_append (n : Node) (as bs : List String) : n.get? (as ++ bs) = (n.get? as).bind (·.get? bs) := by
  induction as generalizing n with
  | nil => rfl
  | cons a as ih =>
    rw [List.cons_append, Node.get?, Node.get?]
    cases n.entry? a with
    | none => rfl
    | some c => exact ih c

theorem current_of_onTheWay {root : Node} {above : List (String × Node)} (h : OnTheWay root above) :
    root.get? (above.map (·.1)).reverse = some ((above.head?.map (·.2)).getD root) := by
  cases above with
  | nil => rfl
  | cons e above => exact h.1

theorem isSome_of_map_isFolder {m n : Option Node} (h : m.map Node.isFolder = n.map Node.isFolder) :
    m.isSome = n.isSome := by
  simpa using congrArg Option.isSome h

theorem onTheWay_cons {root c : Node} {name : String} {entries : List (String × Node)}
    {above : List (String × Node)} (h : OnTheWay root above)
    (hcur : (above.head?.map (·.2)).getD root = .folder entries) (hc : entries.lookup name = some c) :
    OnTheWay root ((name, c) :: above) := by
  refine ⟨?_, h⟩
  rw [List.reverse_cons, get?_append, current_of_onTheWay h, hcur]
  show (Node.folder entries).get? [name] = some c
  rw [Node.get?, Node.entry?, hc]
  rfl

theorem onTheWay_drop {root : Node} {above : List (String × Node)} (h : OnTheWay root above) :
    OnTheWay root (above.drop 1) := by
  cases above with
  | nil => trivial
  | cons e above => exact h.2

/-- Where names lead depends only on which nodes are folders. -/
theorem follow_congr {root root' : Node}
    (h : ∀ chain, (root.get? chain).map Node.isFolder = (root'.get? chain).map Node.isFolder)
    (names : List String) {above above' : List (String × Node)} (ha : OnTheWay root above)
    (ha' : OnTheWay root' above') (hsame : above.map (·.1) = above'.map (·.1)) :
    follow above root names = follow above' root' names := by
  induction names generalizing above above' with
  | nil => rw [follow, follow, hsame]
  | cons name rest ih =>
    have hcur := current_of_onTheWay ha
    have hcur' := current_of_onTheWay ha'
    have hkind := h (above.map (·.1)).reverse
    rw [hcur, hsame, hcur'] at hkind
    have hnext := h ((name :: above.map (·.1)).reverse)
    rw [List.reverse_cons, get?_append, get?_append, hcur, hsame, hcur'] at hnext
    cases hn : (above.head?.map (·.2)).getD root with
    | file bytes =>
      cases hn' : (above'.head?.map (·.2)).getD root' with
      | folder entries' => simp [hn, hn', Node.isFolder] at hkind
      | file bytes' =>
        by_cases hup : name = ".."
        · subst hup
          rw [follow, follow, hn, hn']
        · rw [follow.eq_3 _ _ _ _ hup, follow.eq_3 _ _ _ _ hup, hn, hn']
    | folder entries =>
      cases hn' : (above'.head?.map (·.2)).getD root' with
      | file bytes' => simp [hn, hn', Node.isFolder] at hkind
      | folder entries' =>
        by_cases hup : name = ".."
        · subst hup
          rw [follow, follow, hn, hn']
          exact ih (onTheWay_drop ha) (onTheWay_drop ha') (by rw [List.map_drop, hsame, List.map_drop])
        · rw [follow.eq_3 _ _ _ _ hup, follow.eq_3 _ _ _ _ hup, hn, hn']
          rw [hn, hn'] at hnext
          have hthere := isSome_of_map_isFolder hnext
          simp only [Option.bind_some, Node.get?, Node.entry?] at hthere
          by_cases hlong : nameLimit < name.utf8ByteSize
          · simp only [if_pos hlong]
          · simp only [if_neg hlong]
            cases hc : entries.lookup name with
            | none =>
              cases hc' : entries'.lookup name with
              | none => rfl
              | some c' => simp [hc, hc'] at hthere
            | some c =>
              cases hc' : entries'.lookup name with
              | none => simp [hc, hc'] at hthere
              | some c' => exact ih (onTheWay_cons ha hn hc) (onTheWay_cons ha' hn' hc') (by simp [hsame])

/-! ## Reading and writing files -/

/-- The file at a path, with the names that lead to it. -/
structure HasFile (t : Tree) (p : Path) (names : List String) (bytes : ByteArray) : Prop where
  located : t.locate p = .ok names
  node : t.root.get? names = some (.file bytes)

/-- Two paths do not lead to the same place. -/
def Apart (t : Tree) (p q : Path) : Prop := ∀ names, t.locate p = .ok names → t.locate q ≠ .ok names

instance (t : Tree) (p q : Path) : Decidable (t.Apart p q) :=
  match h : t.locate p with
  | .ok names => decidable_of_iff (t.locate q ≠ .ok names) (by simp [Apart, h])
  | .error f => isTrue fun names hp => by simp [h] at hp

theorem Apart.symm {t : Tree} {p q : Path} (h : t.Apart p q) : t.Apart q p := fun names hq hp => h names hp hq

theorem Apart.congr {t u : Tree} {p q : Path} (h : t.Apart p q) (hloc : u.locate = t.locate) : u.Apart p q := by
  rw [Apart, hloc]
  exact h

/-- The tree with other bytes in the file at the end of a chain of names. -/
def overwrite (t : Tree) (names : List String) (bytes : ByteArray) : Tree :=
  { t with root := Node.put (.file bytes) names t.root }

section Overwrite

variable {t : Tree} {p q : Path} {names : List String} {old new : ByteArray}

theorem locate_overwrite (h : t.root.get? names = some (.file old)) (q : Path) :
    (t.overwrite names new).locate q = t.locate q := by
  have hfollow : follow [] (t.overwrite names new).root (t.here.join q).parts =
      follow [] t.root (t.here.join q).parts :=
    follow_congr (fun chain => (Node.get?_put_file h new chain).1) _ trivial trivial rfl
  rw [locate, locate]
  simp only [show (t.overwrite names new).here = t.here from rfl, hfollow]

theorem HasFile.write (h : t.HasFile p names old) (text : String) :
    t.write p text = .ok (t.overwrite names text.toUTF8) := by
  rw [Tree.write, h.located]
  rfl

theorem HasFile.overwrite (h : t.HasFile p names old) (new : ByteArray) :
    (t.overwrite names new).HasFile p names new :=
  ⟨by rw [locate_overwrite h.node, h.located], Node.get?_put_self h.node⟩

theorem overwrite_overwrite (h : t.root.get? names = some (.file old)) (b c : ByteArray) :
    (t.overwrite names b).overwrite names c = t.overwrite names c := by
  simp only [Tree.overwrite, Node.put_put h]

theorem overwrite_same (h : t.root.get? names = some (.file old)) : t.overwrite names old = t := by
  simp only [Tree.overwrite, Node.put_get? h]

/-- What reading a node gives. -/
def contentOf (p : Path) : Option Node → Except Fault ByteArray
  | some (.file bytes) => .ok bytes
  | some (.folder _) => .error (.inaccessible .isFolder p.toString)
  | none => .error (.inaccessible .missing p.toString)

theorem read_eq (t : Tree) (p : Path) :
    t.read p = (t.locate p).bind fun names => contentOf p (t.root.get? names) := by
  rw [read]
  cases t.locate p with
  | error f => rfl
  | ok names =>
    show (match t.root.get? names with | some (.file bytes) => _ | some (.folder _) => _ | none => _) =
      contentOf p (t.root.get? names)
    rcases t.root.get? names with _ | bytes | entries <;> rfl

theorem read_of_hasFile (h : t.HasFile p names old) : t.read p = .ok old := by
  rw [read_eq, h.located]
  show contentOf p (t.root.get? names) = _
  rw [h.node]
  rfl

/-- A node that is a file, a folder or nothing as before, and holds the same bytes, reads as before. -/
theorem contentOf_congr (p : Path) {m n : Option Node} (hkind : m.map Node.isFolder = n.map Node.isFolder)
    (hbytes : ∀ bytes, m = some (.file bytes) ↔ n = some (.file bytes)) : contentOf p m = contentOf p n := by
  rcases n with _ | bytes | entries
  · rw [Option.map_eq_none_iff.mp hkind]
  · rw [(hbytes bytes).mpr rfl]
  · obtain ⟨m, rfl, hm⟩ := Option.map_eq_some_iff.mp hkind
    cases m with
    | file bytes => simp [Node.isFolder] at hm
    | folder entries' => rfl

/-- Another file is read as before. -/
theorem read_overwrite_of_ne (h : t.HasFile p names old) (hq : t.locate q ≠ .ok names) :
    (t.overwrite names new).read q = t.read q := by
  rw [read_eq, read_eq, locate_overwrite h.node]
  cases hl : t.locate q with
  | error f => rfl
  | ok chain =>
    obtain ⟨hkind, hbytes⟩ := Node.get?_put_file h.node new chain
    exact contentOf_congr q hkind (hbytes fun e => hq (by rw [hl, e]))

/-- The text that bytes stand for. -/
def textOf (bytes : ByteArray) : Except Fault String :=
  match Text.decode bytes with
  | .ok s => .ok s
  | .error u => .error (.undecodable u)

theorem readText_eq (t : Tree) (p : Path) : t.readText p = (t.read p).bind textOf := by
  rw [readText]
  cases t.read p <;> rfl

theorem textOf_eq_ok {bytes : ByteArray} {s : String} (h : textOf bytes = .ok s) : s.toUTF8 = bytes := by
  rw [textOf] at h
  cases hd : Text.decode bytes with
  | error u => rw [hd] at h; contradiction
  | ok s' =>
    rw [hd] at h
    obtain rfl : s' = s := by simpa using h
    exact Text.toUTF8_of_decode hd

theorem readText_overwrite_of_ne (h : t.HasFile p names old) (hq : t.locate q ≠ .ok names) :
    (t.overwrite names new).readText q = t.readText q := by
  rw [readText_eq, readText_eq, read_overwrite_of_ne h hq]

theorem readText_of_hasFile {s : String} (h : t.HasFile p names s.toUTF8) : t.readText p = .ok s := by
  rw [readText_eq, read_of_hasFile h]
  show textOf s.toUTF8 = _
  rw [textOf, Text.decode_toUTF8]

/-- A text that can be read is in a file. -/
theorem hasFile_of_readText {s : String} (h : t.readText p = .ok s) : ∃ names, t.HasFile p names s.toUTF8 := by
  rw [readText_eq, read_eq] at h
  cases hl : t.locate p with
  | error f => rw [hl] at h; contradiction
  | ok names =>
    rw [hl] at h
    change (contentOf p (t.root.get? names)).bind textOf = .ok s at h
    rcases hn : t.root.get? names with _ | bytes | entries
    · rw [hn] at h; contradiction
    · rw [hn] at h
      exact ⟨names, hl, by rw [hn, textOf_eq_ok (s := s) h]⟩
    · rw [hn] at h; contradiction

theorem isFile_of_readText {s : String} (h : t.readText p = .ok s) : t.isFile p = .ok true := by
  obtain ⟨names, hfile⟩ := hasFile_of_readText h
  rw [isFile, find?, hfile.located]
  simp only [hfile.node]
  rfl

/-- Nothing is at a path that a missing file was to be read from. -/
theorem isFile_of_missing {r : String} (h : t.readText p = .error (.inaccessible .missing r)) :
    t.isFile p = .ok false := by
  rw [readText_eq, read_eq] at h
  rw [isFile, find?]
  cases hl : t.locate p with
  | error f =>
    rw [hl] at h
    obtain rfl : f = .inaccessible .missing r := by simpa [Except.bind] using h
    rfl
  | ok names =>
    rw [hl] at h
    change (contentOf p (t.root.get? names)).bind textOf = _ at h
    rcases hn : t.root.get? names with _ | bytes | entries
    · simp only [hn]
      rfl
    · rw [hn] at h
      change textOf bytes = _ at h
      rw [textOf] at h
      split at h <;> simp at h
    · simp only [hn]
      rfl

end Overwrite

/-- A path leads to a file with a text in it, or to nothing. -/
def IsTextOrMissing (t : Tree) (p : Path) : Prop :=
  (∃ content, t.readText p = .ok content) ∨ ∃ q, t.readText p = .error (.inaccessible .missing q)

/-- Where a text is written over another one, every path still leads to a text or to nothing if it did before. -/
theorem isTextOrMissing_overwrite_iff {t : Tree} {p q : Path} {names : List String} {old : String}
    (h : t.HasFile p names old.toUTF8) (text : String) :
    (t.overwrite names text.toUTF8).IsTextOrMissing q ↔ t.IsTextOrMissing q := by
  by_cases hsame : t.locate q = .ok names
  · have hnew : (t.overwrite names text.toUTF8).readText q = .ok text :=
      readText_of_hasFile (HasFile.overwrite ⟨hsame, h.node⟩ _)
    have hold : t.readText q = .ok old := readText_of_hasFile ⟨hsame, h.node⟩
    exact ⟨fun _ => Or.inl ⟨old, hold⟩, fun _ => Or.inl ⟨text, hnew⟩⟩
  · rw [IsTextOrMissing, IsTextOrMissing, readText_overwrite_of_ne h hsame]

end Tree
end ModuleLink
