import ModuleLink.Proofs.Plist.Table

/-!
The last object table of a document, which is the one that counts.  Its members can be exchanged for any others: the
document is still read, and the tables in front of it hold what they held.
-/

namespace ModuleLink
namespace Plist

/-- What a table holds, wherever it stands. -/
def ObjectTable.pairs (t : ObjectTable) : List (Scalar × Value) := t.members.map Member.pair

section Last

variable {tableKey : String} {ms : List Member} {tables : List ObjectTable} {last : ObjectTable} {cs rest : List Char}

/-- What stands in front of the members of the last table is read in the same way before any other members. -/
theorem ReadsRoot.exchange_last (h : ReadsRoot tableKey ms tables cs rest) (hlast : tables.getLast? = some last) :
    ∃ front opened foot, cs = front ++ '\x7b' :: opened ∧ last.close = '\x7d' :: foot ∧
      Reads (.members last.members) opened foot ∧
      ∀ ⦃inner : List Member⦄ ⦃new : List Char⦄, Reads (.members inner) new foot →
        ∃ ms' tables', ReadsRoot tableKey ms' (tables' ++ [⟨inner, last.close⟩]) (front ++ '\x7b' :: new) rest ∧
          tables'.map ObjectTable.pairs = tables.dropLast.map ObjectTable.pairs := by
  induction h with
  | close => contradiction
  | @table cs start left body opened after closed rest key inner ms tables hskip hne hbrace hkey hequals hname hopen
      hinner hend hms ih =>
    cases htables : tables with
    | nil =>
      -- This is the last table, and everything in front of its brace is read up to the brace.
      rw [htables] at hlast hms
      obtain rfl := Option.some.inj hlast
      have he : isMark '\x7b' = true := by decide
      obtain ⟨body, rfl⟩ := exists_append_of_suffix (r := []) (expect_suffix hopen)
      obtain ⟨left, rfl⟩ := exists_append_of_suffix (r := '=' :: body) (expect_suffix hequals)
      obtain ⟨start, rfl⟩ := exists_append_of_suffix (scalar_suffix hkey)
      obtain ⟨front, rfl⟩ := exists_append_of_suffix (skip_suffix hskip)
      refine ⟨front, opened, after, rfl, rfl, hinner, fun inner' new hnew => ?_⟩
      rw [head?_append_mark start opened new] at hbrace
      exact ⟨_, [], .table (skip_congr he hskip new) (by simp) hbrace (scalar_congr he hkey new)
        (expect_congr he hequals new) hname (expect_mark_congr he hopen new) hnew hend hms, rfl⟩
    | cons t ts =>
      have hlast' : tables.getLast? = some last := by
        rw [htables] at hlast ⊢
        rwa [List.getLast?_cons_cons] at hlast
      have he : isMark ';' = true := by decide
      obtain ⟨front', opened', foot, rfl, hclose, hreads, hexchange⟩ := ih hlast'
      obtain ⟨after, rfl⟩ := exists_append_of_suffix (r := []) (expect_suffix hend)
      obtain ⟨opened, rfl⟩ := exists_append_of_suffix hinner.suffix
      obtain ⟨body, rfl⟩ := exists_append_of_suffix (r := '\x7b' :: opened) (expect_suffix hopen)
      obtain ⟨left, rfl⟩ := exists_append_of_suffix (r := '=' :: body) (expect_suffix hequals)
      obtain ⟨start, rfl⟩ := exists_append_of_suffix (scalar_suffix hkey)
      obtain ⟨front, rfl⟩ := exists_append_of_suffix (skip_suffix hskip)
      refine ⟨front ++ ';' :: front', opened', foot, by simp, hclose, hreads, fun inner' new hnew => ?_⟩
      obtain ⟨ms', tables', hroot, hpairs⟩ := hexchange hnew
      generalize hu : front' ++ '\x7b' :: new = u at hroot
      obtain ⟨f, hsame, hinner'⟩ := hinner.congr he rfl rfl u
      obtain ⟨inner'', rfl, hinner''⟩ := hsame.eq_members
      rw [head?_append_mark start _ u] at hbrace
      rw [List.append_assoc, List.cons_append, hu]
      refine ⟨_, ⟨inner'', '\x7d' :: (after ++ ';' :: u)⟩ :: tables', .table (skip_congr he hskip u) (by simp) hbrace
        (scalar_congr he hkey u) (expect_congr he hequals u) hname (expect_congr he hopen u) hinner'
        (expect_mark_congr he hend u) hroot, ?_⟩
      rw [List.dropLast_cons_of_ne_nil (by simp), List.map_cons, List.map_cons, hpairs, htables]
      exact congrArg (· :: _) hinner''.symm
  | @member cs start left body after closed rest key v ms tables hskip hne hbrace hkey hequals hname hvalue hend hms ih =>
    have he : isMark ';' = true := by decide
    obtain ⟨front', opened', foot, rfl, hclose, hreads, hexchange⟩ := ih hlast
    obtain ⟨after, rfl⟩ := exists_append_of_suffix (r := []) (expect_suffix hend)
    obtain ⟨body, rfl⟩ := exists_append_of_suffix hvalue.suffix
    obtain ⟨left, rfl⟩ := exists_append_of_suffix (r := '=' :: body) (expect_suffix hequals)
    obtain ⟨start, rfl⟩ := exists_append_of_suffix (scalar_suffix hkey)
    obtain ⟨front, rfl⟩ := exists_append_of_suffix (skip_suffix hskip)
    refine ⟨front ++ ';' :: front', opened', foot, by simp, hclose, hreads, fun inner' new hnew => ?_⟩
    obtain ⟨ms', tables', hroot, hpairs⟩ := hexchange hnew
    generalize hu : front' ++ '\x7b' :: new = u at hroot
    obtain ⟨f, hsame, hvalue'⟩ := hvalue.congr he rfl rfl u
    rw [hsame.eq_value] at hvalue'
    rw [head?_append_mark start _ u] at hbrace
    rw [List.append_assoc, List.cons_append, hu]
    exact ⟨_, tables', .member (skip_congr he hskip u) (by simp) hbrace (scalar_congr he hkey u)
      (expect_congr he hequals u) hname hvalue' (expect_mark_congr he hend u) hroot, hpairs⟩

/-- A document takes any members in the place of those of its last table. -/
theorem document_exchange_last {text : List Char} {root : Dict Value}
    (h : document tableKey text = .ok (root, tables)) (hlast : tables.getLast? = some last) :
    ∃ front opened foot, text = front ++ '\x7b' :: opened ∧ last.close = '\x7d' :: foot ∧
      Reads (.members last.members) opened foot ∧
      ∀ ⦃inner : List Member⦄ ⦃new : List Char⦄, Reads (.members inner) new foot →
        ∃ root' tables', document tableKey (front ++ '\x7b' :: new) = .ok (root', tables' ++ [⟨inner, last.close⟩]) ∧
          tables'.map ObjectTable.pairs = tables.dropLast.map ObjectTable.pairs := by
  rw [document] at h
  obtain ⟨inside, hopen, h⟩ := ok_of_bind h
  obtain ⟨⟨⟨ms, tables'⟩, left⟩, hroot, h⟩ := ok_of_bind h
  obtain ⟨rest, hleft, h⟩ := ok_of_bind h
  split at h
  · contradiction
  split at h
  · contradiction
  next hend hsome =>
    obtain ⟨rfl, rfl⟩ := Prod.mk.inj (Except.ok.inj h)
    obtain ⟨front, opened, foot, rfl, hclose, hreads, hexchange⟩ :=
      (readsRoot_of_rootMembers hroot).exchange_last hlast
    obtain ⟨before, rfl⟩ := exists_append_of_suffix (r := []) (expect_suffix hopen)
    refine ⟨before ++ '\x7b' :: front, opened, foot, by simp, hclose, hreads, fun inner new hnew => ?_⟩
    obtain ⟨ms', tables', hroot', hpairs⟩ := hexchange hnew
    have hopen' := expect_mark_congr (by decide) hopen (front ++ '\x7b' :: new)
    have hbound : 2 * (front ++ '\x7b' :: new).length + 2 ≤
        depthBound (before ++ '\x7b' :: (front ++ '\x7b' :: new)) := by
      rw [depthBound]
      generalize front ++ '\x7b' :: new = inside
      rw [List.length_append, List.length_cons]
      omega
    refine ⟨Dict.ofMembers ms', tables', ?_, hpairs⟩
    rw [List.append_assoc, List.cons_append, document, bind_of_ok hopen', bind_of_ok (hroot'.isReadBy _ hbound)]
    simp only
    rw [bind_of_ok hleft, if_neg hend]
    simp

end Last

end Plist
end ModuleLink
