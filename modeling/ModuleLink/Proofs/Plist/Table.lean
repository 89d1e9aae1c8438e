import ModuleLink.Proofs.Plist.Rendering

/-!
The object table inside a document.  What the table holds can be exchanged for anything that reads as members, and the
rest of the document stays what it was.
-/

namespace ModuleLink
namespace Plist

/-! ## Entries -/

/-- The text is one entry with this key and value, wherever it stands. -/
def IsEntry (t : List Char) (key : Scalar) (v : Value) : Prop :=
  ∀ ⦃ms : List Member⦄ ⦃rest left : List Char⦄, Reads (.members ms) rest left →
    ∃ body, Reads (.members (⟨key, v, t ++ rest, body, rest⟩ :: ms)) (t ++ rest) left

/-- An entry is one wherever it stands if it is one somewhere. -/
theorem isEntry_of_reads {t body after left₀ : List Char} {key : Scalar} {v : Value} {ms₀ : List Member}
    (h : Reads (.members (⟨key, v, t ++ after, body, after⟩ :: ms₀)) (t ++ after) left₀) : IsEntry t key v := by
  intro ms rest left hms
  cases h with
  | member hskip _ hbrace hkey hequals hvalue hend _ =>
    have he : isMark ';' = true := by decide
    obtain ⟨afterValue, rfl⟩ := exists_append_of_suffix (r := []) (expect_suffix hend)
    obtain ⟨body, rfl⟩ := exists_append_of_suffix hvalue.suffix
    obtain ⟨afterKey, rfl⟩ := exists_append_of_suffix (r := '=' :: body) (expect_suffix hequals)
    obtain ⟨start, hstart⟩ := exists_append_of_suffix (scalar_suffix hkey)
    have ht : t = start ++ [';'] := by
      have hsplit : t ++ after = (start ++ [';']) ++ after := by rw [hstart]; simp
      exact List.append_cancel_right hsplit
    subst ht
    have htext (u : List Char) : start ++ [';'] ++ u = start ++ ';' :: u := by simp
    rw [htext] at hskip hbrace hkey
    rw [htext]
    obtain ⟨f, hsame, hreads⟩ := hvalue.congr he rfl rfl rest
    rw [hsame.eq_value] at hreads
    rw [head?_append_mark start _ rest] at hbrace
    exact ⟨_, .member (skip_congr he hskip rest) (by simp) hbrace (scalar_congr he hkey rest)
      (expect_congr he hequals rest) hreads (expect_mark_congr he hend rest) hms⟩

/-- What is written for an entry is one. -/
theorem isEntry_render {key : Scalar} {w : Value} {body : List Char} (hkey : key.IsWritten)
    (h : ∀ t, Reads (.value w) (body ++ ';' :: t) (';' :: t)) :
    IsEntry (renderScalar key ++ " = ".toList ++ body ++ ";".toList) key w := by
  intro ms rest left hms
  have hv : Reads (.value w) (' ' :: (body ++ ';' :: rest)) (';' :: rest) :=
    (h rest).append_gap gap_space
  have hend : expect ';' (';' :: rest) = .ok rest :=
    expect_of_skip (skip_of_startsSolid (startsSolid_mark (by decide) rest))
  have hcons := Reads.cons_member hkey hv hend hms
  have htext : renderScalar key ++ " =".toList ++ ' ' :: (body ++ ';' :: rest) =
      renderScalar key ++ " = ".toList ++ body ++ ";".toList ++ rest := by simp
  rw [htext] at hcons
  exact ⟨_, hcons⟩

/-! ## Where an entry is read -/

/-- The entry is read from its key on, and its value from behind the equals sign. -/
def Member.IsReadFromKey (m : Member) : Prop :=
  ∃ left, Plist.scalar m.opened = .ok (m.key, left) ∧ expect '=' left = .ok m.body

theorem Reads.isReadFromKey {f : Found} {cs rest : List Char} (h : Reads f cs rest) {ms : List Member}
    (hf : f = .members ms) : ∀ m ∈ ms, m.IsReadFromKey := by
  induction h generalizing ms with
  | dict | list | scalar | noItem | lastItem | item => contradiction
  | noMember =>
    obtain rfl := Found.members.inj hf
    simp
  | member _ _ _ hkey hequals _ _ _ _ ih =>
    obtain rfl := Found.members.inj hf
    intro m hm
    rcases List.mem_cons.mp hm with rfl | hm
    · exact ⟨_, hkey, hequals⟩
    · exact ih rfl m hm

/-! ## What a piece of a table holds -/

/-- A member without its place. -/
def Member.pair (m : Member) : Scalar × Value := (m.key, m.value)

/-- The text adds these members to those that follow it. -/
def Carries (t : List Char) (ks : List (Scalar × Value)) : Prop :=
  ∀ ⦃ms : List Member⦄ ⦃rest left : List Char⦄, Reads (.members ms) rest left →
    ∃ ms', ms'.map Member.pair = ks ∧ Reads (.members (ms' ++ ms)) (t ++ rest) left

section Carries

variable {t u : List Char} {ks ls : List (Scalar × Value)}

theorem carries_gap (h : Gap t) : Carries t [] := fun _ _ _ hms => ⟨[], rfl, hms.append_gap h⟩

theorem IsEntry.carries {key : Scalar} {v : Value} (h : IsEntry t key v) : Carries t [(key, v)] := by
  intro ms rest left hms
  obtain ⟨body, hreads⟩ := h hms
  exact ⟨[_], rfl, hreads⟩

theorem Carries.append (ht : Carries t ks) (hu : Carries u ls) : Carries (t ++ u) (ks ++ ls) := by
  intro ms rest left hms
  obtain ⟨us, hus, hreads⟩ := hu hms
  obtain ⟨ts, hts, hreads'⟩ := ht hreads
  refine ⟨ts ++ us, by rw [List.map_append, hts, hus], ?_⟩
  rw [List.append_assoc, List.append_assoc]
  exact hreads'

/-- Pieces that each hold members hold them together. -/
theorem carries_flatten {pieces : List (List Char)} (h : ∀ p ∈ pieces, ∃ ks, Carries p ks) :
    ∃ ks, Carries pieces.flatten ks ∧
      (∀ k ∈ ks, ∃ p ∈ pieces, ∃ ls, Carries p ls ∧ k ∈ ls) ∧ ∀ p ∈ pieces, ∃ ls, Carries p ls ∧ ∀ k ∈ ls, k ∈ ks := by
  induction pieces with
  | nil => exact ⟨[], carries_gap .nil, by simp, by simp⟩
  | cons p pieces ih =>
    obtain ⟨ls, hls⟩ := h p (by simp)
    obtain ⟨ks, hks, hfrom, hto⟩ := ih fun q hq => h q (by simp [hq])
    refine ⟨ls ++ ks, hls.append hks, ?_, ?_⟩
    · intro k hk
      rcases List.mem_append.mp hk with hk | hk
      · exact ⟨p, by simp, ls, hls, hk⟩
      · obtain ⟨q, hq, hk⟩ := hfrom k hk
        exact ⟨q, by simp [hq], hk⟩
    · intro q hq
      rcases List.mem_cons.mp hq with rfl | hq
      · exact ⟨ls, hls, fun k hk => List.mem_append_left _ hk⟩
      · obtain ⟨ls', hls', hin⟩ := hto q hq
        exact ⟨ls', hls', fun k hk => List.mem_append_right _ (hin k hk)⟩

/-- A text holds the same members every time. -/
theorem Carries.unique (ht : Carries t ks) (ht' : Carries t ls) : ks = ls := by
  have hend : Reads (.members []) ['\x7d'] [] :=
    .noMember (skip_of_startsSolid (startsSolid_mark (by decide) []))
  obtain ⟨ms, hms, hreads⟩ := ht hend
  obtain ⟨ms', hms', hreads'⟩ := ht' hend
  have hread : members _ _ = .ok (ms ++ [], []) := reads_iff.mp hreads
  have hread' : members _ _ = .ok (ms' ++ [], []) := reads_iff.mp hreads'
  have hsame := (Prod.mk.inj (Except.ok.inj (hread.symm.trans hread'))).1
  rw [List.append_nil, List.append_nil] at hsame
  rw [← hms, ← hms', hsame]

end Carries

/-! ## The outermost dictionary -/

/-- What is found in the outermost dictionary, which is open already, and what is left behind it. -/
inductive ReadsRoot (tableKey : String) : List Member → List ObjectTable → List Char → List Char → Prop
  | close {cs rest : List Char} : skip cs = .ok ('\x7d' :: rest) → ReadsRoot tableKey [] [] cs rest
  | table {cs start left body opened after closed rest : List Char} {key : Scalar} {inner ms : List Member}
      {tables : List ObjectTable} :
      skip cs = .ok start → start ≠ [] → start.head? ≠ some '\x7d' → Plist.scalar start = .ok (key, left) →
      expect '=' left = .ok body → key.value = tableKey → expect '\x7b' body = .ok opened →
      Reads (.members inner) opened after → expect ';' after = .ok closed → ReadsRoot tableKey ms tables closed rest →
      ReadsRoot tableKey (⟨key, .dict (Dict.ofMembers inner), start, body, closed⟩ :: ms)
        (⟨inner, '\x7d' :: after⟩ :: tables) cs rest
  | member {cs start left body after closed rest : List Char} {key : Scalar} {v : Value} {ms : List Member}
      {tables : List ObjectTable} :
      skip cs = .ok start → start ≠ [] → start.head? ≠ some '\x7d' → Plist.scalar start = .ok (key, left) →
      expect '=' left = .ok body → key.value ≠ tableKey → Reads (.value v) body after →
      expect ';' after = .ok closed → ReadsRoot tableKey ms tables closed rest →
      ReadsRoot tableKey (⟨key, v, start, body, closed⟩ :: ms) tables cs rest

section Root

variable {tableKey : String} {ms : List Member} {tables : List ObjectTable} {cs rest : List Char}

theorem ReadsRoot.isReadBy (h : ReadsRoot tableKey ms tables cs rest) :
    ∀ n, 2 * cs.length + 2 ≤ n → rootMembers tableKey n cs = .ok ((ms, tables), rest) := by
  induction h with
  | close hskip =>
    intro n hn
    obtain ⟨n, rfl⟩ : ∃ m, n = m + 1 := ⟨n - 1, by omega⟩
    rw [rootMembers, bind_of_ok hskip]
    rfl
  | table hskip hne hbrace hkey hequals hname hopen hinner hend _ ih =>
    intro n hn
    have hstart := (skip_suffix hskip).length_le
    have hleft := (scalar_suffix hkey).length_le
    have hbody := length_lt_of_suffix (expect_suffix hequals)
    have hopened := length_lt_of_suffix (expect_suffix hopen)
    have hafter := hinner.suffix.length_le
    have hclosed := length_lt_of_suffix (expect_suffix hend)
    obtain ⟨n, rfl⟩ : ∃ m, n = m + 1 := ⟨n - 1, by omega⟩
    have hms : members n _ = .ok (_, _) := hinner.isReadBy n (by simp only [Found.bound]; omega)
    rw [rootMembers, bind_of_ok hskip]
    split
    · exact absurd rfl hne
    · exact absurd rfl hbrace
    · rw [bind_of_ok hkey]
      simp only
      rw [bind_of_ok hequals, if_pos hname, bind_of_ok hopen, bind_of_ok hms]
      simp only
      rw [bind_of_ok hend, bind_of_ok (ih n (by omega))]
  | member hskip hne hbrace hkey hequals hname hvalue hend _ ih =>
    intro n hn
    have hstart := (skip_suffix hskip).length_le
    have hleft := (scalar_suffix hkey).length_le
    have hbody := length_lt_of_suffix (expect_suffix hequals)
    have hafter := hvalue.suffix.length_le
    have hclosed := length_lt_of_suffix (expect_suffix hend)
    obtain ⟨n, rfl⟩ : ∃ m, n = m + 1 := ⟨n - 1, by omega⟩
    have hv : value n _ = .ok (_, _) := hvalue.isReadBy n (by simp only [Found.bound]; omega)
    rw [rootMembers, bind_of_ok hskip]
    split
    · exact absurd rfl hne
    · exact absurd rfl hbrace
    · rw [bind_of_ok hkey]
      simp only
      rw [bind_of_ok hequals, if_neg hname, bind_of_ok hv]
      simp only
      rw [bind_of_ok hend, bind_of_ok (ih n (by omega))]

theorem readsRoot_of_rootMembers {n : Nat} (h : rootMembers tableKey n cs = .ok ((ms, tables), rest)) :
    ReadsRoot tableKey ms tables cs rest := by
  induction n generalizing cs ms tables with
  | zero => contradiction
  | succ n ih =>
    rw [rootMembers] at h
    obtain ⟨start, hskip, h⟩ := ok_of_bind h
    split at h
    · contradiction
    · obtain ⟨hpair, rfl⟩ := Prod.mk.inj (Except.ok.inj h)
      obtain ⟨rfl, rfl⟩ := Prod.mk.inj hpair
      exact .close hskip
    next hne hbrace =>
      have hbrace' : start.head? ≠ some '\x7d' := fun e => by
        obtain ⟨t, ht⟩ := List.head?_eq_some_iff.mp e
        exact hbrace t ht
      obtain ⟨⟨key, left⟩, hkey, h⟩ := ok_of_bind h
      obtain ⟨body, hequals, h⟩ := ok_of_bind h
      split at h
      next hname =>
        obtain ⟨opened, hopen, h⟩ := ok_of_bind h
        obtain ⟨⟨inner, after⟩, hinner, h⟩ := ok_of_bind h
        obtain ⟨closed, hend, h⟩ := ok_of_bind h
        obtain ⟨⟨⟨ms', tables'⟩, rest'⟩, hms, h⟩ := ok_of_bind h
        obtain ⟨hpair, rfl⟩ := Prod.mk.inj (Except.ok.inj h)
        obtain ⟨rfl, rfl⟩ := Prod.mk.inj hpair
        exact .table hskip hne hbrace' hkey hequals hname hopen
          (reads_of_isReadBy n (.members inner) opened after hinner) hend (ih hms)
      next hname =>
        obtain ⟨⟨v, after⟩, hv, h⟩ := ok_of_bind h
        obtain ⟨closed, hend, h⟩ := ok_of_bind h
        obtain ⟨⟨⟨ms', tables'⟩, rest'⟩, hms, h⟩ := ok_of_bind h
        obtain ⟨hpair, rfl⟩ := Prod.mk.inj (Except.ok.inj h)
        obtain ⟨rfl, rfl⟩ := Prod.mk.inj hpair
        exact .member hskip hne hbrace' hkey hequals hname (reads_of_isReadBy n (.value v) body after hv) hend (ih hms)

/-- The brace that closes a dictionary stands right before what is left. -/
theorem Reads.close_suffix {f : Found} (h : Reads f cs rest) : (∃ ms, f = .members ms) → '\x7d' :: rest <:+ cs := by
  induction h with
  | dict | list | scalar | noItem | lastItem | item => rintro ⟨ms, hms⟩; contradiction
  | noMember hskip => exact fun _ => skip_suffix hskip
  | member hskip _ _ hkey hequals hvalue hend _ _ ih =>
    have hclosed := (rest_suffix_of_expect hend).trans (hvalue.suffix.trans (body_suffix hskip hkey hequals))
    exact fun _ => (ih ⟨_, rfl⟩).trans hclosed

theorem ReadsRoot.close_suffix (h : ReadsRoot tableKey ms tables cs rest) : ∀ t ∈ tables, t.close <:+ cs := by
  induction h with
  | close => simp
  | table hskip _ _ hkey hequals _ hopen hinner hend _ ih =>
    have hopened := (rest_suffix_of_expect hopen).trans (body_suffix hskip hkey hequals)
    intro t ht
    rcases List.mem_cons.mp ht with rfl | ht
    · exact (hinner.close_suffix ⟨_, rfl⟩).trans hopened
    · exact (((ih t ht).trans (rest_suffix_of_expect hend)).trans hinner.suffix).trans hopened
  | member hskip _ _ hkey hequals _ hvalue hend _ ih =>
    intro t ht
    exact (((ih t ht).trans (rest_suffix_of_expect hend)).trans hvalue.suffix).trans (body_suffix hskip hkey hequals)

/-- Without a table no member has its key. -/
theorem ReadsRoot.key_ne_of_nil (h : ReadsRoot tableKey ms tables cs rest) (htables : tables = []) :
    ∀ m ∈ ms, m.key.value ≠ tableKey := by
  induction h with
  | close => simp
  | table => contradiction
  | member _ _ _ _ _ hname _ _ _ ih =>
    intro m hm
    rcases List.mem_cons.mp hm with rfl | hm
    · exact hname
    · exact ih htables m hm

/-- What is found when the members of the one table are exchanged. -/
def Member.exchanged (tableKey : String) (inner : List Member) (m : Member) : Scalar × Value :=
  (m.key, if m.key.value = tableKey then .dict (Dict.ofMembers inner) else m.value)

/-- The members of an empty table are exchanged for others; everything around them is found as before. -/
theorem ReadsRoot.exchange {head foot new : List Char} {inner : List Member} (h : ReadsRoot tableKey ms tables cs rest)
    (hcs : cs = head ++ '\x7d' :: foot) (htables : tables = [⟨[], '\x7d' :: foot⟩])
    (hnew : Reads (.members inner) (new ++ '\x7d' :: foot) foot) :
    ∃ ms', ms'.map Member.pair = ms.map (Member.exchanged tableKey inner) ∧
      ReadsRoot tableKey ms' [⟨inner, '\x7d' :: foot⟩] (head ++ new ++ '\x7d' :: foot) rest := by
  induction h generalizing head with
  | close => contradiction
  | @table cs start left body opened after closed rest key inner' ms tables hskip hne hbrace hkey hequals hname hopen
      hinner hend hms _ =>
    have he : isMark '\x7b' = true := by decide
    obtain ⟨htable, hnil⟩ := List.cons.inj htables
    obtain ⟨rfl, hclose⟩ := ObjectTable.mk.inj htable
    obtain rfl := (List.cons.inj hclose).2
    subst hnil
    -- Between the braces of an empty table there is a gap.
    obtain ⟨g, hg, rfl⟩ : ∃ g, Gap g ∧ opened = g ++ '\x7d' :: after := by
      cases hinner with
      | noMember hskip' => exact exists_gap_of_skip hskip' (by simp)
    obtain ⟨body, rfl⟩ := exists_append_of_suffix (r := []) (expect_suffix hopen)
    obtain ⟨left, rfl⟩ := exists_append_of_suffix (r := '=' :: body) (expect_suffix hequals)
    obtain ⟨start, rfl⟩ := exists_append_of_suffix (scalar_suffix hkey)
    obtain ⟨front, hfront⟩ := exists_append_of_suffix (skip_suffix hskip)
    have hhead : head = front ++ '\x7b' :: g := by
      have hsplit : head ++ '\x7d' :: after = (front ++ '\x7b' :: g) ++ '\x7d' :: after := by
        rw [← hcs, hfront]
        simp
      exact List.append_cancel_right hsplit
    obtain ⟨u, hu⟩ : ∃ u, u = g ++ (new ++ '\x7d' :: after) := ⟨_, rfl⟩
    rw [hfront] at hskip
    rw [head?_append_mark start _ u] at hbrace
    have htext : head ++ new ++ '\x7d' :: after = front ++ '\x7b' :: u := by
      rw [hhead, hu]
      simp
    rw [htext]
    refine ⟨_ :: ms, ?_, .table (skip_congr he hskip u) (by simp) hbrace (scalar_congr he hkey u)
      (expect_congr he hequals u) hname (expect_mark_congr he hopen u) (hu ▸ hnew.append_gap hg) hend hms⟩
    have hrest : ms.map (Member.exchanged tableKey inner) = ms.map Member.pair := by
      refine List.map_congr_left fun m hm => ?_
      rw [Member.exchanged, Member.pair, if_neg (hms.key_ne_of_nil rfl m hm)]
    rw [List.map_cons, List.map_cons, hrest, Member.exchanged, Member.pair, if_pos hname]
  | @member cs start left body after closed rest key v ms tables hskip hne hbrace hkey hequals hname hvalue hend hms ih =>
    have he : isMark ';' = true := by decide
    obtain ⟨front', hclosed⟩ := hms.close_suffix _ (htables ▸ List.mem_singleton_self _)
    obtain ⟨ms', hms', hreads⟩ := ih hclosed.symm htables
    obtain ⟨after, rfl⟩ := exists_append_of_suffix (r := []) (expect_suffix hend)
    obtain ⟨body, rfl⟩ := exists_append_of_suffix hvalue.suffix
    obtain ⟨left, rfl⟩ := exists_append_of_suffix (r := '=' :: body) (expect_suffix hequals)
    obtain ⟨start, rfl⟩ := exists_append_of_suffix (scalar_suffix hkey)
    obtain ⟨front, hfront⟩ := exists_append_of_suffix (skip_suffix hskip)
    have hhead : head = front ++ ';' :: front' := by
      have hsplit : head ++ '\x7d' :: foot = (front ++ ';' :: front') ++ '\x7d' :: foot := by
        rw [← hcs, hfront, ← hclosed]
        simp
      exact List.append_cancel_right hsplit
    obtain ⟨u, hu⟩ : ∃ u, u = front' ++ new ++ '\x7d' :: foot := ⟨_, rfl⟩
    rw [hfront] at hskip
    rw [head?_append_mark start _ u] at hbrace
    have htext : head ++ new ++ '\x7d' :: foot = front ++ ';' :: u := by
      rw [hhead, hu]
      simp
    obtain ⟨f, hsame, hv⟩ := hvalue.congr he rfl rfl u
    rw [hsame.eq_value] at hv
    rw [htext]
    refine ⟨_ :: ms', ?_, .member (skip_congr he hskip u) (by simp) hbrace (scalar_congr he hkey u)
      (expect_congr he hequals u) hname hv (expect_mark_congr he hend u) (hu ▸ hreads)⟩
    rw [List.map_cons, List.map_cons, hms', Member.exchanged, Member.pair, if_neg hname]

end Root

/-! ## Documents -/

/-- Exchanging the values of some entries before they make up a dictionary is exchanging them afterwards. -/
theorem ofMembers_exchanged {tableKey : String} {ms ms' inner : List Member}
    (h : ms'.map Member.pair = ms.map (Member.exchanged tableKey inner)) :
    (Dict.ofMembers ms').spellings = (Dict.ofMembers ms).spellings ∧
      (Dict.ofMembers ms').entries = (Dict.ofMembers ms).entries.map fun e =>
        (e.1, if e.1 = tableKey then .dict (Dict.ofMembers inner) else e.2) := by
  induction ms using List.reverseRecOn generalizing ms' with
  | nil =>
    obtain rfl := List.map_eq_nil_iff.mp h
    exact ⟨rfl, rfl⟩
  | append_singleton ms m ih =>
    rw [List.map_append, List.map_singleton] at h
    obtain ⟨as, bs, rfl, has, hbs⟩ := List.map_eq_append_iff.mp h
    obtain ⟨b, rfl, hb⟩ := List.map_eq_singleton_iff.mp hbs
    obtain ⟨hspellings, hentries⟩ := ih has
    obtain ⟨hkey, hvalue⟩ := Prod.mk.inj hb
    rw [Dict.ofMembers_append_singleton, Dict.ofMembers_append_singleton, Dict.read, Dict.read, hkey, hspellings,
      hentries, hvalue]
    exact ⟨rfl, (Dict.map_assign (fun k v => if k = tableKey then Value.dict (Dict.ofMembers inner) else v) ..).symm⟩

/-- A document with one empty table takes any members between the braces of the table. -/
theorem document_exchange {tableKey : String} {head foot new : List Char} {root : Dict Value} {inner : List Member}
    (h : document tableKey (head ++ '\x7d' :: foot) = .ok (root, [⟨[], '\x7d' :: foot⟩]))
    (hnew : Reads (.members inner) (new ++ '\x7d' :: foot) foot) :
    ∃ root', document tableKey (head ++ new ++ '\x7d' :: foot) = .ok (root', [⟨inner, '\x7d' :: foot⟩]) ∧
      root'.spellings = root.spellings ∧ root'.entries = root.entries.map fun e =>
        (e.1, if e.1 = tableKey then .dict (Dict.ofMembers inner) else e.2) := by
  rw [document] at h
  obtain ⟨opened, hopen, h⟩ := ok_of_bind h
  obtain ⟨⟨⟨ms, tables⟩, rest⟩, hroot, h⟩ := ok_of_bind h
  obtain ⟨left, hleft, h⟩ := ok_of_bind h
  split at h
  · contradiction
  split at h
  · contradiction
  next hend hsome =>
    obtain ⟨rfl, rfl⟩ := Prod.mk.inj (Except.ok.inj h)
    have hreads := readsRoot_of_rootMembers hroot
    obtain ⟨front, hfront⟩ := hreads.close_suffix _ (List.mem_singleton_self _)
    obtain ⟨ms', hms', hreads'⟩ := hreads.exchange hfront.symm rfl hnew
    obtain ⟨before, hbefore⟩ := exists_append_of_suffix (r := []) (expect_suffix hopen)
    have hhead : head = before ++ '\x7b' :: front := by
      have hsplit : head ++ '\x7d' :: foot = (before ++ '\x7b' :: front) ++ '\x7d' :: foot := by
        rw [hbefore, ← hfront]
        simp
      exact List.append_cancel_right hsplit
    have htext : head ++ new ++ '\x7d' :: foot = before ++ '\x7b' :: (front ++ new ++ '\x7d' :: foot) := by
      rw [hhead]
      simp
    rw [hbefore] at hopen
    have hopen' := expect_mark_congr (by decide) hopen (front ++ new ++ '\x7d' :: foot)
    have hbound : 2 * (front ++ new ++ '\x7d' :: foot).length + 2 ≤ depthBound (head ++ new ++ '\x7d' :: foot) := by
      rw [htext, depthBound]
      generalize front ++ new ++ '\x7d' :: foot = inside
      rw [List.length_append, List.length_cons]
      omega
    obtain ⟨hspellings, hentries⟩ := ofMembers_exchanged hms'
    refine ⟨Dict.ofMembers ms', ?_, hspellings, hentries⟩
    rw [document, htext, bind_of_ok hopen', ← htext, bind_of_ok (hreads'.isReadBy _ hbound)]
    simp only
    rw [bind_of_ok hleft, if_neg hend]
    rfl

end Plist
end ModuleLink
