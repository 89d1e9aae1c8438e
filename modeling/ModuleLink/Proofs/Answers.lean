import Mathlib
import ModuleLink.Param
import ModuleLink.Proofs.Attempt
import ModuleLink.Proofs.Entries
import ModuleLink.Proofs.Plist.Dict

/-!
Values that are asked for once in a run.  However params are spread over calls, the effect is that of asking for each
name once, with the first param of that name, and every call gives the values that came of it.
-/

namespace ModuleLink
namespace Answers

/-! ## Recording -/

section Record

variable {name value k : String} {known : Answers} {params : Answers}

/-- Recording a value is assigning it. -/
theorem record_eq_assign (name value : String) (known : Answers) :
    record name value known = Plist.Dict.assign name value known := by
  induction known with
  | nil => rfl
  | cons e known ih =>
    obtain ⟨k, v⟩ := e
    rw [record, Plist.Dict.assign, ih]

theorem record_append (h : name ∉ known.map (·.1)) (value : String) :
    record name value known = known ++ [(name, value)] := by
  rw [record_eq_assign, Plist.Dict.assign_of_notMem h]

theorem foldl_record (done : Answers) (h : ((done ++ params).map (·.1)).Nodup) :
    params.foldl (fun done e => record e.1 e.2 done) done = done ++ params := by
  induction params generalizing done with
  | nil => rw [List.foldl_nil, List.append_nil]
  | cons p params ih =>
    have hsplit : done ++ p :: params = done ++ [p] ++ params := by simp
    have hnew : p.1 ∉ done.map (·.1) := by
      rw [List.map_append, List.nodup_append] at h
      exact fun hmem => h.2.2 _ hmem _ (by simp) rfl
    rw [List.foldl_cons, record_append hnew, hsplit]
    rw [hsplit] at h
    exact ih _ h

theorem mem_foldl_record {es : List (String × String)} {done : Answers} {p : String × String}
    (h : p ∈ es.foldl (fun done e => record e.1 e.2 done) done) : p ∈ es ∨ p ∈ done := by
  simp only [record_eq_assign] at h
  exact Plist.Dict.mem_foldl_assign h

theorem isSome_lookup_record (name value : String) (known : Answers) (k : String) :
    ((record name value known).lookup k).isSome = (k == name || (known.lookup k).isSome) := by
  rw [record_eq_assign]
  by_cases hk : k = name
  · rw [hk, Plist.Dict.lookup_assign_self, beq_self_eq_true]
    rfl
  · rw [Plist.Dict.lookup_assign_of_ne hk, beq_false_of_ne hk, Bool.false_or]

/-- A value once known stays when others become known behind it. -/
theorem lookup_append_of_eq_some (h : known.lookup k = some value) (more : Answers) :
    (known ++ more).lookup k = some value := by
  rw [List.lookup_append, h]
  rfl

theorem lookup_append_of_notMem (h : k ∉ known.map (·.1)) (more : Answers) :
    (known ++ more).lookup k = more.lookup k := by
  rw [List.lookup_append, Plist.Dict.lookup_eq_none_iff.mpr h]
  rfl

theorem exists_lookup_of_mem (h : k ∈ known.map (·.1)) : ∃ value, known.lookup k = some value :=
  Option.ne_none_iff_exists'.mp fun hnone => Plist.Dict.lookup_eq_none_iff.mp hnone h

end Record

/-! ## Names that are new -/

section Unseen

variable {seen : List String} {ps : List Param}

/-- The params of names that are not among those seen, the first one of each name. -/
def unseen : (seen : List String) → List Param → List Param
  | _, [] => []
  | seen, p :: ps => if p.name ∈ seen then unseen seen ps else p :: unseen (seen ++ [p.name]) ps

theorem map_name_unseen (seen : List String) (ps : List Param) :
    (unseen seen ps).map Param.name = ((ps.map Param.name).filter fun name => name ∉ seen).eraseDups := by
  induction ps generalizing seen with
  | nil => rfl
  | cons p ps ih =>
    rw [unseen, List.map_cons]
    by_cases hp : p.name ∈ seen
    · rw [if_pos hp, List.filter_cons_of_neg (by simpa using hp), ih]
    · rw [if_neg hp, List.filter_cons_of_pos (by simpa using hp), List.eraseDups_cons, List.map_cons, ih,
        List.filter_filter]
      refine congrArg (fun names => p.name :: List.eraseDups names) (List.filter_congr fun name _ => ?_)
      rw [Bool.eq_iff_iff]
      simp [and_comm]

/-- Each of them is the first of its name. -/
theorem find?_of_mem_unseen {p : Param} (h : p ∈ unseen seen ps) :
    p.name ∉ seen ∧ ps.find? (·.name == p.name) = some p := by
  induction ps generalizing seen with
  | nil => contradiction
  | cons q ps ih =>
    rw [unseen] at h
    rw [List.find?_cons]
    by_cases hq : q.name ∈ seen
    · rw [if_pos hq] at h
      obtain ⟨hp, hfind⟩ := ih h
      have hne : q.name ≠ p.name := fun e => hp (e ▸ hq)
      rw [beq_false_of_ne hne]
      exact ⟨hp, hfind⟩
    · rw [if_neg hq] at h
      rcases List.mem_cons.mp h with rfl | h
      · rw [beq_self_eq_true]
        exact ⟨hq, rfl⟩
      · obtain ⟨hp, hfind⟩ := ih h
        rw [List.mem_append, List.mem_singleton, not_or] at hp
        rw [beq_false_of_ne (Ne.symm hp.2)]
        exact ⟨hp.1, hfind⟩

theorem unseen_append (seen : List String) (ps qs : List Param) :
    unseen seen (ps ++ qs) = unseen seen ps ++ unseen (seen ++ (unseen seen ps).map Param.name) qs := by
  induction ps generalizing seen with
  | nil => rw [unseen, List.map_nil, List.append_nil, List.nil_append, List.nil_append]
  | cons p ps ih =>
    rw [List.cons_append, unseen, unseen]
    by_cases hp : p.name ∈ seen
    · rw [if_pos hp, if_pos hp, ih]
    · rw [if_neg hp, if_neg hp, ih, List.map_cons, List.cons_append, List.append_assoc, List.singleton_append]

end Unseen

/-! ## Asking -/

section Asking

variable {σ α β : Type} {ask : Param → Attempt σ String} {known : Answers} {new new' ps : List Param} {p : Param}
  {x : Attempt (Answers × σ) α} {f : α → Attempt (Answers × σ) β} {P : Answers → α → Prop} {Q : Answers → β → Prop}
  {s : σ} {value : String} {out : Answers}

/-- The answers to params, asked one after another. -/
def askEach (ask : Param → Attempt σ String) (ps : List Param) : Attempt σ Answers :=
  ps.mapM fun p => do return (p.name, ← ask p)

theorem askEach_append (ask : Param → Attempt σ String) (ps qs : List Param) :
    askEach ask (ps ++ qs) = do return (← askEach ask ps) ++ (← askEach ask qs) := List.mapM_append

theorem askEach_cons (ask : Param → Attempt σ String) (p : Param) (ps : List Param) :
    askEach ask (p :: ps) = do return (p.name, ← ask p) :: (← askEach ask ps) := by
  rw [askEach, List.mapM_cons, bind_assoc]
  simp only [pure_bind]
  rfl

theorem run_askEach_nil (ask : Param → Attempt σ String) (s : σ) : (askEach ask []).run s = (.ok [], s) := rfl

theorem map_fst_of_askEach {given : Answers} {s' : σ} (h : (askEach ask ps).run s = (.ok given, s')) :
    given.map (·.1) = ps.map Param.name := by
  induction ps generalizing given s s' with
  | nil =>
    obtain ⟨rfl, -⟩ := Attempt.run_pure_eq_ok ((run_askEach_nil ask s).symm.trans h)
    rfl
  | cons p ps ih =>
    rw [askEach_cons] at h
    obtain ⟨value, s₁, -, h⟩ := Attempt.run_bind_eq_ok h
    obtain ⟨rest, s₂, hrest, h⟩ := Attempt.run_bind_eq_ok h
    obtain ⟨rfl, -⟩ := Attempt.run_pure_eq_ok h
    rw [List.map_cons, List.map_cons, ih hrest]

/-- The step asks for the params in order and for nothing else, and keeps the answers behind what is known.  The answers
and the value of the step have the property. -/
structure Asks (ask : Param → Attempt σ String) (known : Answers) (new : List Param) (x : Attempt (Answers × σ) α)
    (P : Answers → α → Prop) : Prop where
  answered : ∀ {s given s'}, (askEach ask new).run s = (.ok given, s') →
    ∃ a, x.run (known, s) = (.ok a, known ++ given, s') ∧ P given a
  failed : ∀ {s e s'}, (askEach ask new).run s = (.error e, s') → ∃ known', x.run (known, s) = (.error e, known', s')

theorem asks_nothing {a : α} (hx : ∀ s, x.run (known, s) = (.ok a, known, s)) (h : P [] a) : Asks ask known [] x P where
  answered {s given s'} hgiven := by
    obtain ⟨rfl, rfl⟩ := Attempt.run_pure_eq_ok ((run_askEach_nil ask s).symm.trans hgiven)
    rw [List.append_nil]
    exact ⟨a, hx s, h⟩
  failed hgiven := absurd hgiven Attempt.run_pure_ne_error

theorem Asks.mono {P' : Answers → α → Prop} (h : Asks ask known new x P) (hP : ∀ given a, P given a → P' given a) :
    Asks ask known new x P' where
  answered hgiven := by
    obtain ⟨a, hrun, ha⟩ := h.answered hgiven
    exact ⟨a, hrun, hP _ a ha⟩
  failed := h.failed

/-- What follows a step asks for what it asks for itself, behind what the step asks for. -/
theorem Asks.bind (hx : Asks ask known new x P)
    (hf : ∀ given a, given.map (·.1) = new.map Param.name → P given a →
      Asks ask (known ++ given) new' (f a) fun given' b => Q (given ++ given') b) :
    Asks ask known (new ++ new') (x >>= f) Q where
  answered hgiven := by
    rw [askEach_append] at hgiven
    obtain ⟨given, s₁, hnew, hgiven⟩ := Attempt.run_bind_eq_ok hgiven
    obtain ⟨given', s₂, hnew', hgiven⟩ := Attempt.run_bind_eq_ok hgiven
    obtain ⟨rfl, rfl⟩ := Attempt.run_pure_eq_ok hgiven
    obtain ⟨a, hrun, ha⟩ := hx.answered hnew
    obtain ⟨b, hrun', hb⟩ := (hf given a (map_fst_of_askEach hnew) ha).answered hnew'
    rw [Attempt.run_bind_ok hrun, ← List.append_assoc]
    exact ⟨b, hrun', hb⟩
  failed {s e s'} hgiven := by
    rw [askEach_append] at hgiven
    rcases hnew : (askEach ask new).run s with ⟨e' | given, s₁⟩
    · rw [Attempt.run_bind_error hnew] at hgiven
      obtain ⟨known', hrun⟩ := hx.failed (hnew.trans hgiven)
      exact ⟨known', Attempt.run_bind_error hrun⟩
    · obtain ⟨a, hrun, ha⟩ := hx.answered hnew
      rw [Attempt.run_bind_ok hnew] at hgiven
      rw [Attempt.run_bind_ok hrun]
      refine (hf given a (map_fst_of_askEach hnew) ha).failed ?_
      rcases hnew' : (askEach ask new').run s₁ with ⟨e' | given', s₂⟩
      · rwa [Attempt.run_bind_error hnew'] at hgiven
      · rw [Attempt.run_bind_ok hnew'] at hgiven
        exact absurd hgiven Attempt.run_pure_ne_error

/-- A value that is worked out of what a step gives. -/
theorem Asks.map {g : α → β} (hx : Asks ask known new x fun given a => Q given (g a)) :
    Asks ask known new (do return g (← x)) Q := by
  rw [← List.append_nil new]
  exact hx.bind fun given a _ ha => asks_nothing (fun _ => rfl) (by rwa [List.append_nil])

theorem run_resolveOne_known (h : known.lookup p.name = some value) :
    (resolveOne ask p).run (known, s) = (.ok value, known, s) := by
  rw [resolveOne, Attempt.run_bind_ok (Attempt.run_get _)]
  simp only [h]
  rfl

theorem run_resolveOne_unknown (h : known.lookup p.name = none) :
    (resolveOne ask p).run (known, s) = match (ask p).run s with
      | (.ok value, s') => (.ok value, record p.name value known, s')
      | (.error e, s') => (.error e, known, s') := by
  have hzoom : (Attempt.zoom (·.2) (fun s t => (t.1, s)) (ask p)).run (known, s) =
      (((ask p).run s).1, known, ((ask p).run s).2) := rfl
  rw [resolveOne, Attempt.run_bind_ok (Attempt.run_get _)]
  simp only [h]
  rw [Attempt.run_bind, hzoom]
  rcases (ask p).run s with ⟨e | value, s'⟩ <;> rfl

/-- A param is asked for if its name is new. -/
theorem asks_resolveOne (ask : Param → Attempt σ String) (known : Answers) (p : Param) :
    Asks ask known (unseen (known.map (·.1)) [p]) (resolveOne ask p) fun given value =>
      (known ++ given).lookup p.name = some value := by
  rw [unseen]
  by_cases hp : p.name ∈ known.map (·.1)
  · obtain ⟨value, hvalue⟩ := exists_lookup_of_mem hp
    rw [if_pos hp]
    exact asks_nothing (fun s => run_resolveOne_known hvalue) (by rwa [List.append_nil])
  · have hnone : known.lookup p.name = none := Plist.Dict.lookup_eq_none_iff.mpr hp
    rw [if_neg hp, unseen]
    constructor
    · intro s given s' hgiven
      rw [askEach_cons] at hgiven
      obtain ⟨value, s₁, hvalue, hgiven⟩ := Attempt.run_bind_eq_ok hgiven
      obtain ⟨rfl, rfl⟩ := Attempt.run_pure_eq_ok (a := [(p.name, value)]) hgiven
      refine ⟨value, ?_, ?_⟩
      · rw [run_resolveOne_unknown hnone, hvalue, ← record_append hp]
      · rw [lookup_append_of_notMem hp, Entries.lookup_cons_self]
    · intro s e s' hgiven
      rw [askEach_cons] at hgiven
      rw [run_resolveOne_unknown hnone]
      rcases hvalue : (ask p).run s with ⟨e' | value, s₁⟩
      · rw [Attempt.run_bind_error hvalue] at hgiven
        obtain ⟨he, rfl⟩ := Prod.mk.inj hgiven
        obtain rfl := Except.error.inj he
        exact ⟨known, rfl⟩
      · rw [Attempt.run_bind_ok hvalue] at hgiven
        exact absurd hgiven Attempt.run_pure_ne_error

/-! ## Calls -/

/-- What a call gives: the names of its params, each once and in the order of their first appearance, with the values
known for them. -/
structure Returns (known : Answers) (ps : List Param) (out : Answers) : Prop where
  names : out.map (·.1) = (ps.map Param.name).eraseDups
  values : ∀ e ∈ out, known.lookup e.1 = some e.2

theorem Returns.append (h : Returns known ps out) (more : Answers) : Returns (known ++ more) ps out :=
  ⟨h.names, fun e he => lookup_append_of_eq_some (h.values e he) more⟩

theorem Returns.record (h : Returns known ps out) (hvalue : known.lookup p.name = some value) :
    Returns known (ps ++ [p]) (record p.name value out) where
  names := by
    rw [record_eq_assign, Plist.Dict.map_fst_assign, h.names, List.map_append, List.map_singleton, List.eraseDups_append]
    by_cases hp : p.name ∈ ps.map Param.name
    · have hgone : [p.name].removeAll (ps.map Param.name) = [] := by
        rw [List.removeAll, List.filter_cons_of_neg (by simpa using hp), List.filter_nil]
      rw [if_pos (List.mem_eraseDups.mpr hp), hgone, List.eraseDups_nil, List.append_nil]
    · have hkept : [p.name].removeAll (ps.map Param.name) = [p.name] := by
        rw [List.removeAll, List.filter_cons_of_pos (by simpa using hp), List.filter_nil]
      rw [if_neg fun hin => hp (List.mem_eraseDups.mp hin), hkept, List.eraseDups_cons, List.filter_nil,
        List.eraseDups_nil]
  values e he := by
    rw [record_eq_assign] at he
    rcases Plist.Dict.mem_assign he with rfl | he
    · exact hvalue
    · exact h.values e he

theorem unseen_cons (seen : List String) (p : Param) (ps : List Param) :
    unseen seen (p :: ps) = unseen seen [p] ++ unseen (seen ++ (unseen seen [p]).map Param.name) ps :=
  unseen_append seen [p] ps

/-- A call asks for the params of new names. -/
theorem asks_resolve (ask : Param → Attempt σ String) (known : Answers) (ps : List Param) :
    Asks ask known (unseen (known.map (·.1)) ps) (resolve ask ps) fun given out => Returns (known ++ given) ps out := by
  -- The values so far are those of the params that are done.
  have hloop (done : List Param) (out : Answers) (hout : Returns known done out) :
      Asks ask known (unseen (known.map (·.1)) ps) (ps.foldlM (fun resolved p => do
        let value ← resolveOne ask p
        return Answers.record p.name value resolved) out) fun given out =>
          Returns (known ++ given) (done ++ ps) out := by
    induction ps generalizing known done out with
    | nil => exact asks_nothing (fun _ => rfl) (by rwa [List.append_nil, List.append_nil])
    | cons p ps ih =>
      rw [List.foldlM_cons, bind_assoc, unseen_cons]
      refine (asks_resolveOne ask known p).bind fun given value hnames hvalue => ?_
      rw [pure_bind, ← hnames, ← List.map_append]
      have hrest := ih (known ++ given) (done ++ [p]) _ ((hout.append given).record hvalue)
      refine hrest.mono fun given' out' hout' => ?_
      rwa [List.append_assoc, List.append_assoc, List.singleton_append] at hout'
  exact hloop [] [] ⟨rfl, by simp⟩

/-- Calls ask for the params of new names, whichever call they stand in. -/
theorem asks_calls (ask : Param → Attempt σ String) (known : Answers) (calls : List (List Param)) :
    Asks ask known (unseen (known.map (·.1)) calls.flatten) (calls.mapM (resolve ask)) fun given outs =>
      List.Forall₂ (Returns (known ++ given)) calls outs := by
  induction calls generalizing known with
  | nil => exact asks_nothing (fun _ => rfl) .nil
  | cons ps calls ih =>
    rw [List.mapM_cons, List.flatten_cons, unseen_append]
    refine (asks_resolve ask known ps).bind fun given out hnames hout => ?_
    rw [← hnames, ← List.map_append]
    refine ((ih (known ++ given)).mono fun given' outs houts => ?_).map
    rw [List.append_assoc] at houts
    refine .cons ?_ houts
    rw [← List.append_assoc]
    exact hout.append given'

/-! ## Calls of the asker -/

/-- The asker with a record of the params that it is called with. -/
def noting (ask : Param → Attempt σ String) (p : Param) : Attempt (List Param × σ) String := do
  modify fun (asked, s) => (asked ++ [p], s)
  Attempt.zoom (·.2) (fun s t => (t.1, s)) (ask p)

theorem run_noting (asked : List Param) (s : σ) :
    (noting ask p).run (asked, s) = (((ask p).run s).1, asked ++ [p], ((ask p).run s).2) := rfl

theorem run_askEach_noting {given : Answers} {s' : σ} (asked : List Param)
    (h : (askEach ask ps).run s = (.ok given, s')) :
    (askEach (noting ask) ps).run (asked, s) = (.ok given, asked ++ ps, s') := by
  induction ps generalizing asked given s with
  | nil =>
    obtain ⟨rfl, rfl⟩ := Attempt.run_pure_eq_ok ((run_askEach_nil ask s).symm.trans h)
    rw [run_askEach_nil, List.append_nil]
  | cons p ps ih =>
    rw [askEach_cons] at h ⊢
    obtain ⟨value, s₁, hvalue, h⟩ := Attempt.run_bind_eq_ok h
    obtain ⟨rest, s₂, hrest, h⟩ := Attempt.run_bind_eq_ok h
    obtain ⟨rfl, rfl⟩ := Attempt.run_pure_eq_ok h
    have hnoted : (noting ask p).run (asked, s) = (.ok value, asked ++ [p], s₁) := by rw [run_noting, hvalue]
    rw [Attempt.run_bind_ok hnoted, Attempt.run_bind_ok (ih _ hrest), List.append_assoc]
    rfl

/-- An asker that fails is not called again. -/
theorem run_askEach_noting_error {e : Fault} {s' : σ} (asked : List Param)
    (h : (askEach ask ps).run s = (.error e, s')) :
    ∃ made, made <+: ps ∧ (askEach (noting ask) ps).run (asked, s) = (.error e, asked ++ made, s') := by
  induction ps generalizing asked s with
  | nil => exact absurd h Attempt.run_pure_ne_error
  | cons p ps ih =>
    rw [askEach_cons] at h ⊢
    rcases hvalue : (ask p).run s with ⟨e' | value, s₁⟩
    · have hnoted : (noting ask p).run (asked, s) = (.error e', asked ++ [p], s₁) := by rw [run_noting, hvalue]
      rw [Attempt.run_bind_error hvalue] at h
      obtain ⟨he, rfl⟩ := Prod.mk.inj h
      obtain rfl := Except.error.inj he
      exact ⟨[p], ⟨ps, rfl⟩, Attempt.run_bind_error hnoted⟩
    · have hnoted : (noting ask p).run (asked, s) = (.ok value, asked ++ [p], s₁) := by rw [run_noting, hvalue]
      rw [Attempt.run_bind_ok hvalue] at h
      rcases hrest : (askEach ask ps).run s₁ with ⟨e' | rest, s₂⟩
      · rw [Attempt.run_bind_error hrest] at h
        obtain ⟨made, hmade, hrun⟩ := ih (asked ++ [p]) (hrest.trans h)
        refine ⟨p :: made, List.cons_prefix_cons.mpr ⟨rfl, hmade⟩, ?_⟩
        rw [Attempt.run_bind_ok hnoted, Attempt.run_bind_error hrun, List.append_assoc, List.singleton_append]
      · rw [Attempt.run_bind_ok hrest] at h
        exact absurd h Attempt.run_pure_ne_error

theorem run_askEach_askNobody (ps : List Param) (s : σ) :
    (askEach askNobody ps).run s = (.ok (ps.map fun p => (p.name, p.fallback)), s) := by
  induction ps with
  | nil => exact run_askEach_nil _ s
  | cons p ps ih =>
    have hnobody : (askNobody p : Attempt σ String).run s = (.ok p.fallback, s) := rfl
    rw [askEach_cons, Attempt.run_bind_ok hnobody, Attempt.run_bind_ok ih]
    rfl

/-- Params are asked for once in a run.  For calls in a row there is the list of the first params of all their names,
in the order of first appearance.  If the asker answers these one after another, then it is called for just these in the
calls, and every call gives its names with the answers; if it fails at one of them, then so do the calls, and it is not
called again.  Where nobody is asked, every call gives its names with the fallbacks of these params, and nothing else
happens. -/
theorem run_resolve_calls (ask : Param → Attempt σ String) (calls : List (List Param)) (s : σ) :
    ∃ firsts, firsts.map Param.name = (calls.flatten.map Param.name).eraseDups ∧
      (∀ p ∈ firsts, calls.flatten.find? (·.name == p.name) = some p) ∧
      (match (askEach ask firsts).run s with
        | (.ok given, s') => ∃ outs, List.Forall₂ (Returns given) calls outs ∧
            (calls.mapM (resolve (noting ask))).run ([], [], s) = (.ok outs, given, firsts, s')
        | (.error e, s') => ∃ known made, made <+: firsts ∧
            (calls.mapM (resolve (noting ask))).run ([], [], s) = (.error e, known, made, s')) ∧
      ∃ outs, List.Forall₂ (Returns (firsts.map fun p => (p.name, p.fallback))) calls outs ∧
        (calls.mapM (resolve askNobody)).run ([], s) = (.ok outs, firsts.map fun p => (p.name, p.fallback), s) := by
  refine ⟨unseen [] calls.flatten, ?_, fun p hp => (find?_of_mem_unseen hp).2, ?_, ?_⟩
  · rw [map_name_unseen, List.filter_eq_self.mpr (by simp)]
  · have hnoting := asks_calls (noting ask) [] calls
    rcases hgiven : (askEach ask (unseen [] calls.flatten)).run s with ⟨e | given, s'⟩
    · obtain ⟨made, hmade, hrun⟩ := run_askEach_noting_error [] hgiven
      obtain ⟨known, hcalls⟩ := hnoting.failed hrun
      exact ⟨known, made, hmade, hcalls⟩
    · obtain ⟨outs, hcalls, houts⟩ := hnoting.answered (run_askEach_noting [] hgiven)
      exact ⟨outs, houts, hcalls⟩
  · obtain ⟨outs, hcalls, houts⟩ := (asks_calls askNobody [] calls).answered (run_askEach_askNobody _ s)
    exact ⟨outs, houts, hcalls⟩

/-- A default that comes later does not change a value. -/
example : ([[⟨"key", "", some "a"⟩], [⟨"id", "", none⟩, ⟨"key", "", some "b"⟩]].mapM (resolve askNobody)).run ([], ()) =
    (.ok [[("key", "a")], [("id", ""), ("key", "a")]], [("key", "a"), ("id", "")], ()) := by
  rfl

end Asking

end Answers
end ModuleLink
