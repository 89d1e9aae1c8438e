import Mathlib
import ModuleLink.Linking.Run
import ModuleLink.Proofs.Attempt

/-!
Runs turn by turn.  A run takes the platforms of one library after another in turns, one result a turn, and goes on to the
next library when a turn fails.
-/

namespace ModuleLink
namespace Linking

open Notice

variable {σ τ α β : Type} {App Lib : Platform → Type}

/-! ## Turns -/

/-- One turn of a run: its result and the states around it. -/
structure Turn (τ : Type) where
  before : τ
  result : Result
  after : τ

/-- Turns that lead from one state to another, each starting where the one before it ended. -/
def Leads : τ → List (Turn τ) → τ → Prop
  | t, [], t' => t = t'
  | t, u :: us, t' => u.before = t ∧ Leads u.after us t'

theorem Leads.append {t t₁ t' : τ} {us vs : List (Turn τ)} (h : Leads t us t₁) (h' : Leads t₁ vs t') :
    Leads t (us ++ vs) t' := by
  induction us generalizing t with
  | nil =>
    obtain rfl : t = t₁ := h
    exact h'
  | cons u us ih => exact ⟨h.1, ih h.2⟩

/-- What every turn does to a state, and what takes no turn and two turns, the whole run does. -/
theorem Leads.relates {R : τ → τ → Prop} (hrefl : ∀ t, R t t) (htrans : ∀ {a b c}, R a b → R b c → R a c) {t t' : τ}
    {us : List (Turn τ)} (h : Leads t us t') (hus : ∀ u ∈ us, R u.before u.after) : R t t' := by
  induction us generalizing t with
  | nil =>
    obtain rfl : t = t' := h
    exact hrefl t
  | cons u us ih =>
    rw [List.forall_mem_cons] at hus
    obtain ⟨rfl, hrest⟩ := h
    exact htrans hus.1 (ih hrest hus.2)

/-- What the results for a library are: one for each of the first platforms in their order, of which the last alone may be
a failure, and is one if there are more platforms. -/
structure IsSegment (name : String) (platforms : List Platform) (rs : List Result) : Prop where
  dependency : ∀ r ∈ rs, r.dependency = name
  inOrder : rs.map (·.platform) <+: platforms.map some
  failed : ∀ r ∈ rs.dropLast, r.status ≠ .failed
  ended : rs.length < platforms.length → ∃ r, rs.getLast? = some r ∧ r.status = .failed

section

variable {name : String} {p : Platform} {ps : List Platform} {r : Result} {rs : List Result}

theorem isSegment_nil (name : String) : IsSegment name [] [] := ⟨by simp, by simp, by simp, by simp⟩

theorem isSegment_failed (ps : List Platform) (hname : r.dependency = name) (hp : r.platform = some p)
    (hr : r.status = .failed) : IsSegment name (p :: ps) [r] where
  dependency := by simp [hname]
  inOrder := by simp [hp]
  failed := by simp
  ended _ := ⟨r, rfl, hr⟩

theorem IsSegment.cons (h : IsSegment name ps rs) (hname : r.dependency = name) (hp : r.platform = some p)
    (hr : r.status ≠ .failed) : IsSegment name (p :: ps) (r :: rs) where
  dependency := List.forall_mem_cons.mpr ⟨hname, h.dependency⟩
  inOrder := by
    rw [List.map_cons, List.map_cons, hp]
    exact List.cons_prefix_cons.mpr ⟨rfl, h.inOrder⟩
  failed := by
    cases rs with
    | nil => simp
    | cons r' rs => exact List.forall_mem_cons.mpr ⟨hr, h.failed⟩
  ended hlength := by
    obtain ⟨r', hlast, hfailed⟩ := h.ended (by simpa using hlength)
    exact ⟨r', by rw [List.getLast?_cons, hlast]; rfl, hfailed⟩

end

/-! ## One library -/

theorem run_bind_state (x : StateM τ α) (f : α → StateM τ β) (t : τ) :
    (x >>= f).run t = (f (x.run t).1).run (x.run t).2 := rfl

theorem run_asideAnswers (x : StateM σ α) (known : Answers) (s : σ) :
    (asideAnswers x).run (known, s) = ((x.run s).1, known, (x.run s).2) := rfl

/-- The turn of a platform. -/
def turnOn [HasNotices τ] (action name : String) (step? : Platform → StateM τ (Option (Attempt τ (Status × String))))
    (p : Platform) : StateM τ Result := do
  match ← step? p with
  | none => return ⟨name, some p, .notApplicable, ""⟩
  | some step =>
    match ← step.run with
    | .ok (status, detail) => return ⟨name, some p, status, detail⟩
    | .error f =>
      tell .error (failure action name p f.message)
      return ⟨name, some p, .failed, f.message⟩

/-- Turns up to the first that fails. -/
def walk (turn : Platform → StateM τ Result) : List Platform → StateM τ (List Result)
  | [] => return []
  | p :: rest => do
    let r ← turn p
    if r.status = .failed then return [r]
    else
      let later ← walk turn rest
      return r :: later

section

variable [HasNotices τ] {action name : String} {step? : Platform → StateM τ (Option (Attempt τ (Status × String)))}

/-- Steps that never end in the status of a failure. -/
def Succeeding (step? : Platform → StateM τ (Option (Attempt τ (Status × String)))) : Prop :=
  ∀ p t step, ((step? p).run t).1 = some step →
    Attempt.Gives (fun _ => True) (fun r : Status × String => r.1 ≠ .failed) step

theorem turnOn_of_none {p : Platform} {t t₁ : τ} (h : (step? p).run t = (none, t₁)) :
    (turnOn action name step? p).run t = (⟨name, some p, .notApplicable, ""⟩, t₁) := by
  rw [turnOn, run_bind_state, h]
  rfl

theorem turnOn_of_ok {p : Platform} {t t₁ t₂ : τ} {step : Attempt τ (Status × String)} {status : Status}
    {detail : String} (h : (step? p).run t = (some step, t₁)) (hstep : step.run t₁ = (.ok (status, detail), t₂)) :
    (turnOn action name step? p).run t = (⟨name, some p, status, detail⟩, t₂) := by
  have hrun : StateT.run step.run t₁ = (.ok (status, detail), t₂) := hstep
  rw [turnOn, run_bind_state, h]
  simp only [run_bind_state, hrun]
  rfl

theorem turnOn_of_error {p : Platform} {t t₁ t₂ : τ} {step : Attempt τ (Status × String)} {f : Fault}
    (h : (step? p).run t = (some step, t₁)) (hstep : step.run t₁ = (.error f, t₂)) :
    (turnOn action name step? p).run t =
      (⟨name, some p, .failed, f.message⟩, HasNotices.note ⟨.error, failure action name p f.message⟩ t₂) := by
  have hrun : StateT.run step.run t₁ = (.error f, t₂) := hstep
  rw [turnOn, run_bind_state, h]
  simp only [run_bind_state, hrun]
  rfl

theorem resultsOn_eq_walk (h : Succeeding step?) (ps : List Platform) :
    resultsOn action name step? ps = walk (turnOn action name step?) ps := by
  induction ps with
  | nil => rfl
  | cons p ps ih =>
    funext t
    show (resultsOn action name step? (p :: ps)).run t = (walk (turnOn action name step?) (p :: ps)).run t
    rw [resultsOn, walk, run_bind_state, run_bind_state, ih]
    rcases hstep : (step? p).run t with ⟨_ | step, t₁⟩
    · rw [turnOn_of_none hstep]
      rfl
    · rcases hrun : step.run t₁ with ⟨f | ⟨status, detail⟩, t₂⟩
      · have hrun' : StateT.run step.run t₁ = (.error f, t₂) := hrun
        rw [turnOn_of_error hstep hrun]
        simp only [run_bind_state, hrun']
        rfl
      · have hrun' : StateT.run step.run t₁ = (.ok (status, detail), t₂) := hrun
        have hstatus : status ≠ .failed := (h p t step (by rw [hstep]) t₁ trivial).2 (status, detail) (by rw [hrun])
        rw [turnOn_of_ok hstep hrun]
        simp only [run_bind_state, hrun', if_neg hstatus]

theorem turnOn_result (action name : String) (step? : Platform → StateM τ (Option (Attempt τ (Status × String))))
    (p : Platform) (t : τ) :
    ((turnOn action name step? p).run t).1.dependency = name ∧
      ((turnOn action name step? p).run t).1.platform = some p := by
  rcases hstep : (step? p).run t with ⟨_ | step, t₁⟩
  · rw [turnOn_of_none hstep]
    exact ⟨rfl, rfl⟩
  · rcases hrun : step.run t₁ with ⟨f | ⟨status, detail⟩, t₂⟩
    · rw [turnOn_of_error hstep hrun]
      exact ⟨rfl, rfl⟩
    · rw [turnOn_of_ok hstep hrun]
      exact ⟨rfl, rfl⟩

end

section

variable {name : String}

/-- The turns for one library. -/
theorem exists_turns_walk {turn : Platform → StateM τ Result}
    (hturn : ∀ p t, ((turn p).run t).1.dependency = name ∧ ((turn p).run t).1.platform = some p) (ps : List Platform)
    (t : τ) : ∃ us t', (walk turn ps).run t = (us.map (·.result), t') ∧ Leads t us t' ∧
      IsSegment name ps (us.map (·.result)) ∧
      ∀ u ∈ us, ∃ p ∈ ps, u.result.platform = some p ∧ (turn p).run u.before = (u.result, u.after) := by
  induction ps generalizing t with
  | nil => exact ⟨[], t, rfl, rfl, isSegment_nil name, by simp⟩
  | cons p ps ih =>
    obtain ⟨r, t₁, hrun⟩ : ∃ r t₁, (turn p).run t = (r, t₁) := ⟨_, _, rfl⟩
    obtain ⟨hname, hp⟩ : r.dependency = name ∧ r.platform = some p := by simpa only [hrun] using hturn p t
    by_cases hr : r.status = .failed
    · refine ⟨[⟨t, r, t₁⟩], t₁, ?_, ⟨rfl, rfl⟩, isSegment_failed ps hname hp hr, ?_⟩
      · rw [walk, run_bind_state, hrun]
        simp only [if_pos hr]
        rfl
      · exact List.forall_mem_singleton.mpr ⟨p, by simp, hp, hrun⟩
    · obtain ⟨us, t', hwalk, hleads, hsegment, hus⟩ := ih t₁
      refine ⟨⟨t, r, t₁⟩ :: us, t', ?_, ⟨rfl, hleads⟩, hsegment.cons hname hp hr, ?_⟩
      · rw [walk, run_bind_state, hrun]
        simp only [if_neg hr]
        rw [run_bind_state, hwalk]
        rfl
      · refine List.forall_mem_cons.mpr ⟨⟨p, by simp, hp, hrun⟩, fun u hmem => ?_⟩
        obtain ⟨q, hq, hrest⟩ := hus u hmem
        exact ⟨q, by simp [hq], hrest⟩

end

/-! ## All libraries -/

/-- A run that is written down turn by turn, one segment for each library in their order.  Every turn is a run of its own on
one library and one platform. -/
structure IsRecord (turn : Dependency Lib → Platform → StateM τ (List Result)) (platforms : List Platform)
    (ds : List (Dependency Lib)) (t : τ) (segments : List (List (Turn τ))) (t' : τ) : Prop where
  leads : Leads t segments.flatten t'
  segments : List.Forall₂ (fun d us => IsSegment d.name platforms (us.map (·.result)) ∧ ∀ u ∈ us,
    ∃ p ∈ platforms, u.result.platform = some p ∧ (turn d p).run u.before = ([u.result], u.after)) ds segments

theorem walk_singleton (turn : Platform → StateM τ Result) (p : Platform) (t : τ) :
    (walk turn [p]).run t = ([((turn p).run t).1], ((turn p).run t).2) := by
  rw [walk, run_bind_state]
  split <;> rfl

theorem exists_turns_walks {turn : Dependency Lib → Platform → StateM τ Result}
    (hturn : ∀ d p t, ((turn d p).run t).1.dependency = d.name ∧ ((turn d p).run t).1.platform = some p)
    (ps : List Platform) (ds : List (Dependency Lib)) (t : τ) :
    ∃ segments t', (ds.mapM fun d => walk (turn d) ps).run t = (segments.map (·.map (·.result)), t') ∧
      IsRecord (fun d p => walk (turn d) [p]) ps ds t segments t' := by
  induction ds generalizing t with
  | nil => exact ⟨[], t, rfl, rfl, .nil⟩
  | cons d ds ih =>
    obtain ⟨us, t₁, hwalk, hleads, hsegment, hus⟩ := exists_turns_walk (hturn d) ps t
    obtain ⟨segments, t', hrun, hrest⟩ := ih t₁
    refine ⟨us :: segments, t', ?_, hleads.append hrest.leads, .cons ⟨hsegment, fun u hu => ?_⟩ hrest.segments⟩
    · rw [List.mapM_cons, run_bind_state, hwalk, run_bind_state, hrun]
      rfl
    · obtain ⟨p, hp, hplatform, hturn⟩ := hus u hu
      exact ⟨p, hp, hplatform, by rw [walk_singleton, hturn]⟩

/-! ## Linking and unlinking -/

namespace Host

/-- The host with one platform only. -/
def only (host : Host σ App Lib) (p : Platform) : Host σ App Lib := { host with platforms := [p] }

theorem stepFor?_eq_some {host : Host σ App Lib} {d : Dependency Lib}
    {step : (p : Platform) → Capability σ App Lib p → App p → Lib p → α} {p : Platform} {s : σ} {x : α}
    (h : ((host.stepFor? d step p).run s).1 = some x) : ∃ capability app library, x = step p capability app library := by
  rw [stepFor?] at h
  split at h
  next app library _ _ =>
    rw [run_bind_state] at h
    obtain ⟨capability, -, rfl⟩ := Option.map_eq_some_iff.mp h
    exact ⟨capability, app, library, rfl⟩
  · contradiction

end Host

section

variable [HasNotices σ] {ask : Param → Attempt σ String} {others : List (Dependency Lib)} {d : Dependency Lib}
  {p : Platform} (capability : Capability σ App Lib p) (app : App p) (library : Lib p)

theorem gives_linkStep :
    Attempt.Gives (fun _ => True) (fun r => r.1 ≠ .failed) (linkStep ask d p capability app library) := by
  refine (Attempt.gives_anything _).bind fun values _ => (Attempt.gives_anything _).bind fun installed _ => ?_
  split
  · exact (Attempt.gives_anything _).bind fun _ _ => Attempt.gives_pure (by simp)
  · refine (Attempt.gives_anything _).bind fun _ _ => (Attempt.gives_anything _).bind fun left _ => ?_
    split
    · exact Attempt.gives_pure (by simp)
    · exact (Attempt.gives_anything _).bind fun _ _ => Attempt.gives_pure (by simp)

theorem gives_unlinkStep :
    Attempt.Gives (fun _ => True) (fun r => r.1 ≠ .failed) (unlinkStep others d p capability app library) := by
  refine (Attempt.gives_anything _).bind fun registered _ => ?_
  split
  · exact (Attempt.gives_anything _).bind fun _ _ => (Attempt.gives_anything _).bind fun left _ =>
      (Attempt.gives_anything _).bind fun _ _ => Attempt.gives_pure (by simp)
  · exact (Attempt.gives_anything _).bind fun _ _ => Attempt.gives_pure (by simp)

end

variable [HasNotices σ]

/-- The turn of linking a library on a platform. -/
def linkTurn (host : Host σ App Lib) (ask : Param → Attempt σ String) (d : Dependency Lib) :
    Platform → StateM (Answers × σ) Result :=
  turnOn "link" d.name fun p => asideAnswers (host.stepFor? d (linkStep ask d) p)

/-- The turn of unlinking a library on a platform. -/
def unlinkTurn (host : Host σ App Lib) (others : List (Dependency Lib)) (d : Dependency Lib) :
    Platform → StateM σ Result :=
  turnOn "unlink" d.name (host.stepFor? d (unlinkStep others d))

theorem link_eq_walks (host : Host σ App Lib) (ask : Param → Attempt σ String) (ds : List (Dependency Lib)) :
    link host ask ds = List.flatten <$> ds.mapM fun d => walk (linkTurn host ask d) host.platforms := by
  have hsegment (d : Dependency Lib) :
      resultsOn "link" d.name (fun p => asideAnswers (host.stepFor? d (linkStep ask d) p)) host.platforms =
        walk (linkTurn host ask d) host.platforms := by
    refine resultsOn_eq_walk (fun p t step hstep => ?_) _
    have hstep' : ((host.stepFor? d (linkStep ask d) p).run t.2).1 = some step := hstep
    obtain ⟨capability, app, library, rfl⟩ := Host.stepFor?_eq_some hstep'
    exact gives_linkStep capability app library
  simp only [link, hsegment]
  rfl

theorem unlink_eq_walks (host : Host σ App Lib) (others ds : List (Dependency Lib)) :
    unlink host others ds = List.flatten <$> ds.mapM fun d => walk (unlinkTurn host others d) host.platforms := by
  have hsegment (d : Dependency Lib) :
      resultsOn "unlink" d.name (host.stepFor? d (unlinkStep others d)) host.platforms =
        walk (unlinkTurn host others d) host.platforms := by
    refine resultsOn_eq_walk (fun p t step hstep => ?_) _
    obtain ⟨capability, app, library, rfl⟩ := Host.stepFor?_eq_some hstep
    exact gives_unlinkStep capability app library
  simp only [unlink, hsegment]
  rfl

theorem walks_singleton (turn : Dependency Lib → Platform → StateM τ Result) (ps : List Platform) (d : Dependency Lib) :
    (List.flatten <$> [d].mapM fun d => walk (turn d) ps) = walk (turn d) ps := by
  simp

/-- A turn of linking is a run on one library and one platform. -/
theorem link_only (host : Host σ App Lib) (ask : Param → Attempt σ String) (d : Dependency Lib) (p : Platform) :
    link (host.only p) ask [d] = walk (linkTurn host ask d) [p] := by
  rw [link_eq_walks, walks_singleton]
  rfl

theorem unlink_only (host : Host σ App Lib) (others : List (Dependency Lib)) (d : Dependency Lib) (p : Platform) :
    unlink (host.only p) others [d] = walk (unlinkTurn host others d) [p] := by
  rw [unlink_eq_walks, walks_singleton]
  rfl

/-- Linking written down turn by turn. -/
theorem exists_record_link (host : Host σ App Lib) (ask : Param → Attempt σ String) (ds : List (Dependency Lib))
    (t : Answers × σ) : ∃ segments t', (link host ask ds).run t = (segments.flatten.map (·.result), t') ∧
      IsRecord (fun d p => link (host.only p) ask [d]) host.platforms ds t segments t' := by
  have hturn (d : Dependency Lib) (p : Platform) (t : Answers × σ) :
      ((linkTurn host ask d p).run t).1.dependency = d.name ∧ ((linkTurn host ask d p).run t).1.platform = some p :=
    turnOn_result "link" d.name _ p t
  obtain ⟨segments, t', hrun, hrecord⟩ := exists_turns_walks hturn host.platforms ds t
  refine ⟨segments, t', ?_, ?_⟩
  · rw [link_eq_walks, StateT.run_map, hrun, List.map_flatten]
    rfl
  · simpa only [link_only] using hrecord

/-- Unlinking written down turn by turn. -/
theorem exists_record_unlink (host : Host σ App Lib) (others ds : List (Dependency Lib)) (s : σ) :
    ∃ segments s', (unlink host others ds).run s = (segments.flatten.map (·.result), s') ∧
      IsRecord (fun d p => unlink (host.only p) others [d]) host.platforms ds s segments s' := by
  have hturn (d : Dependency Lib) (p : Platform) (s : σ) :
      ((unlinkTurn host others d p).run s).1.dependency = d.name ∧
        ((unlinkTurn host others d p).run s).1.platform = some p :=
    turnOn_result "unlink" d.name _ p s
  obtain ⟨segments, s', hrun, hrecord⟩ := exists_turns_walks hturn host.platforms ds s
  refine ⟨segments, s', ?_, ?_⟩
  · rw [unlink_eq_walks, StateT.run_map, hrun, List.map_flatten]
    rfl
  · simpa only [unlink_only] using hrecord

end Linking
end ModuleLink
