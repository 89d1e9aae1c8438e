import Mathlib.Data.List.Basic
import ModuleLink.Proofs.Path
import ModuleLink.Tree.Walk

/-!
What a walk meets.  The order in which folders list their entries decides when a folder is met, and never whether.
-/

namespace ModuleLink
namespace Node

/-- What holds of a folder if it holds of all its entries holds of every node. -/
@[elab_as_elim]
theorem entriesInduction {motive : Node → Prop} (file : ∀ bytes, motive (.file bytes))
    (folder : ∀ entries : List (String × Node), (∀ e ∈ entries, motive e.2) → motive (.folder entries)) :
    ∀ n, motive n
  | .file bytes => file bytes
  | .folder entries => folder entries fun e he =>
    have : sizeOf e.2 < sizeOf entries := by
      have := List.sizeOf_lt_of_mem he
      obtain ⟨name, c⟩ := e
      simp only [Prod.mk.sizeOf_spec] at this ⊢
      omega
    entriesInduction file folder e.2

/-! ## Chains of names -/

/-- The names lead from one node down to another one. -/
inductive Leads : Node → List String → Node → Prop
  | here (n : Node) : Leads n [] n
  | into {entries : List (String × Node)} {name : String} {c m : Node} {rest : List String}
    (entry : (name, c) ∈ entries) (below : Leads c rest m) : Leads (.folder entries) (name :: rest) m

/-- All names in the node are names that a file system gives. -/
def Named (n : Node) : Prop := ∀ names m, n.Leads names m → ∀ s ∈ names, Path.IsName s

variable {n c m : Node} {names rest : List String} {name : String} {entries : List (String × Node)}

theorem Leads.trans (h : n.Leads names c) (hrest : c.Leads rest m) : n.Leads (names ++ rest) m := by
  induction h with
  | here n => exact hrest
  | into entry _ ih => exact .into entry (ih hrest)

theorem leads_append_iff : n.Leads (names ++ rest) m ↔ ∃ c, n.Leads names c ∧ c.Leads rest m := by
  refine ⟨fun h => ?_, fun ⟨c, hc, hm⟩ => hc.trans hm⟩
  induction names generalizing n with
  | nil => exact ⟨n, .here n, h⟩
  | cons name names ih =>
    cases h with
    | into entry below =>
      obtain ⟨c, hc, hm⟩ := ih below
      exact ⟨c, .into entry hc, hm⟩

theorem leads_singleton_iff : (folder entries).Leads [name] m ↔ (name, m) ∈ entries := by
  refine ⟨fun h => ?_, fun h => .into h (.here m)⟩
  cases h with
  | into entry below =>
    cases below with
    | here => exact entry

theorem leads_of_get? (h : n.get? names = some m) : n.Leads names m := by
  induction names generalizing n with
  | nil =>
    cases h
    exact .here _
  | cons name names ih =>
    obtain ⟨c, hc, hm⟩ := Option.bind_eq_some_iff.mp h
    cases n with
    | file bytes => cases hc
    | folder entries =>
      obtain ⟨front, back, rfl, -⟩ := List.lookup_eq_some_iff.mp hc
      exact .into (List.mem_append_right _ (List.mem_cons_self ..)) (ih hm)

theorem Named.below (hn : n.Named) (h : n.Leads names m) : m.Named := fun rest c hc s hs =>
  hn (names ++ rest) c (h.trans hc) s (List.mem_append_right _ hs)

theorem named_file (bytes : ByteArray) : (file bytes).Named := by
  intro names m h s hs
  cases h
  cases hs

/-- The names in a folder are those of its entries and those in the entries. -/
theorem named_folder_iff : (folder entries).Named ↔ ∀ e ∈ entries, Path.IsName e.1 ∧ e.2.Named := by
  constructor
  · intro h e he
    have hlead : (folder entries).Leads [e.1] e.2 := leads_singleton_iff.mpr he
    exact ⟨h _ _ hlead _ (List.mem_singleton_self _), h.below hlead⟩
  · intro h names m hlead s hs
    cases hlead with
    | here => cases hs
    | into entry below =>
      rcases List.mem_cons.mp hs with rfl | hs
      · exact (h _ entry).1
      · exact (h _ entry).2 _ _ below s hs

/-! ## Walks -/

section

variable {enter : String → Bool} {at_ : List String}

theorem mem_inOrder {α : Type} {walks : List (String × List α)} {x : α} :
    x ∈ inOrder walks ↔ ∃ w ∈ walks, x ∈ w.2 := by
  simp only [inOrder, List.mem_flatMap, List.mem_mergeSort]

theorem mem_walkEntries {w : String × List Visit} : w ∈ walkEntries enter at_ entries ↔
    ∃ e ∈ entries, enter e.1 = true ∧ w = (e.1, walk enter (at_ ++ [e.1]) e.2) := by
  induction entries with
  | nil => simp [walkEntries]
  | cons e rest ih =>
    obtain ⟨name, c⟩ := e
    rw [walkEntries, List.exists_mem_cons_iff]
    split
    next h => rw [List.mem_cons, ih, h]; simp
    next h => rw [ih]; simp [h]

/-- A walk meets the folders that are reached through names it enters, and no others. -/
theorem mem_walk {v : Visit} : v ∈ n.walk enter at_ ↔
    ∃ names, v.at_ = at_ ++ names ∧ n.Leads names (.folder v.entries) ∧ ∀ s ∈ names, enter s = true := by
  induction n using entriesInduction generalizing at_ with
  | file bytes =>
    rw [walk]
    refine ⟨nofun, fun ⟨names, _, hlead, _⟩ => ?_⟩
    cases hlead
  | folder entries ih =>
    rw [walk, List.mem_cons, mem_inOrder]
    constructor
    · rintro (rfl | ⟨w, hw, hv⟩)
      · exact ⟨[], (List.append_nil _).symm, .here _, nofun⟩
      · obtain ⟨e, he, henter, rfl⟩ := mem_walkEntries.mp hw
        obtain ⟨names, hat, hlead, hnames⟩ := (ih e he).mp hv
        exact ⟨e.1 :: names, by rw [hat, List.append_assoc]; rfl, .into he hlead,
          List.forall_mem_cons.mpr ⟨henter, hnames⟩⟩
    · rintro ⟨names, hat, hlead, hnames⟩
      cases hlead with
      | here => exact .inl (by rw [← List.append_nil at_, ← hat])
      | into entry below =>
        rw [List.forall_mem_cons] at hnames
        refine .inr ⟨_, mem_walkEntries.mpr ⟨_, entry, hnames.1, rfl⟩, (ih _ entry).mpr ⟨_, ?_, below, hnames.2⟩⟩
        rw [hat, List.append_assoc]
        rfl

end

/-! ## Other listings -/

/-- The same node with its folders listed in another order, at any depth. -/
inductive Relisted : Node → Node → Prop
  | same (n : Node) : Relisted n n
  | permuted {entries others : List (String × Node)} (h : entries.Perm others) :
    Relisted (.folder entries) (.folder others)
  | inside {c d : Node} (front back : List (String × Node)) (name : String) (h : Relisted c d) :
    Relisted (.folder (front ++ (name, c) :: back)) (.folder (front ++ (name, d) :: back))
  | trans {n c m : Node} (h : Relisted n c) (h' : Relisted c m) : Relisted n m

theorem Relisted.symm (h : n.Relisted m) : m.Relisted n := by
  induction h with
  | same n => exact .same n
  | permuted h => exact .permuted h.symm
  | inside front back name _ ih => exact .inside front back name ih
  | trans _ _ ih ih' => exact .trans ih' ih

theorem Relisted.isFolder_eq (h : n.Relisted m) : m.isFolder = n.isFolder := by
  induction h with
  | same n => rfl
  | permuted h => rfl
  | inside front back name _ ih => rfl
  | trans _ _ ih ih' => exact ih'.trans ih

/-- Listing folders in another order leaves all chains of names in place. -/
theorem Relisted.exists_leads (h : n.Relisted m) (hlead : n.Leads names c) :
    ∃ d, m.Leads names d ∧ c.Relisted d := by
  induction h generalizing names c with
  | same n => exact ⟨c, hlead, .same c⟩
  | permuted h =>
    cases hlead with
    | here => exact ⟨_, .here _, .permuted h⟩
    | into entry below => exact ⟨c, .into (h.mem_iff.mp entry) below, .same c⟩
  | inside front back name h ih =>
    cases hlead with
    | here => exact ⟨_, .here _, .inside front back name h⟩
    | into entry below =>
      rcases List.mem_append.mp entry with hfront | hback
      · exact ⟨c, .into (List.mem_append_left _ hfront) below, .same c⟩
      · rcases List.mem_cons.mp hback with heq | hback
        · cases heq
          obtain ⟨d, hd, hcd⟩ := ih below
          exact ⟨d, .into (List.mem_append_right _ (List.mem_cons_self ..)) hd, hcd⟩
        · exact ⟨c, .into (List.mem_append_right _ (List.mem_cons_of_mem _ hback)) below, .same c⟩
  | trans _ _ ih ih' =>
    obtain ⟨d, hd, hcd⟩ := ih hlead
    obtain ⟨e, he, hde⟩ := ih' hd
    exact ⟨e, he, hcd.trans hde⟩

theorem Relisted.named (h : n.Relisted m) (hn : n.Named) : m.Named := fun names _ hlead =>
  have ⟨d, hd, _⟩ := h.symm.exists_leads hlead
  hn names d hd

end Node

namespace Tree

/-- A folder that is found somewhere in the tree has the names of the tree. -/
theorem named_of_folder? {t : Tree} {p : Path} {n : Node} (ht : t.root.Named) (h : t.folder? p = some n) : n.Named := by
  have hfind : t.find? p = .ok (some n) := by
    rw [folder?] at h
    split at h
    · next entries hentries => rw [hentries, h]
    · cases h
  rw [find?] at hfind
  split at hfind
  · next names _ => exact ht.below (Node.leads_of_get? (Except.ok.inj hfind))
  · cases hfind
  · cases hfind

end Tree
end ModuleLink
