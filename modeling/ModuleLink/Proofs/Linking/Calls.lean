import Mathlib
import ModuleLink.Proofs.Answers
import ModuleLink.Proofs.Entries
import ModuleLink.Proofs.Linking.Segments
import ModuleLink.Proofs.Outcome

/-!
The calls of a run.  Every call to a platform and every question to the user is written down with what came back, and
writing it down changes nothing.
-/

namespace ModuleLink
namespace Linking

open Notice

variable {σ τ τ' α β : Type} {App Lib : Platform → Type}

/-! ## Watching -/

/-- A call with what came back, which is nothing if the call failed. -/
inductive Call where
  | capability (p : Platform) (found : Bool)
  | ask (param : Param) (answer? : Option String)
  | isInstalled (p : Platform) (name : String) (answer? : Option Bool)
  | hasRegistration (p : Platform) (name : String) (answer? : Option Bool)
  | register (p : Platform) (name : String) (values : Answers) (left? : Option (List String))
  | unregister (p : Platform) (name : String) (left? : Option (List String))

/-- A state with the calls so far. -/
abbrev Watched (σ : Type) := List Call × σ

/-- A step that is written down. -/
def watch (call : Option α → Call) (x : Attempt σ α) : Attempt (Watched σ) α :=
  ExceptT.mk fun (calls, s) =>
    let (r, s) := x.run s
    (r, calls ++ [call r.toOption], s)

def watchAsk (ask : Param → Attempt σ String) (q : Param) : Attempt (Watched σ) String := watch (.ask q) (ask q)

def Capability.watched {p : Platform} (c : Capability σ App Lib p) : Capability (Watched σ) App Lib p where
  isInstalled app name library := watch (.isInstalled p name) (c.isInstalled app name library)
  hasRegistration app name library := watch (.hasRegistration p name) (c.hasRegistration app name library)
  register name library values app := watch (.register p name values) (c.register name library values app)
  unregister name library app others := watch (.unregister p name) (c.unregister name library app others)

def Host.watched (host : Host σ App Lib) : Host (Watched σ) App Lib where
  platforms := host.platforms
  app? := host.app?
  capability? p := fun (calls, s) =>
    let (capability?, s) := (host.capability? p).run s
    (capability?.map Capability.watched, calls ++ [.capability p capability?.isSome], s)

/-! ## The calls of a turn -/

/-- All the calls are questions about the params, and all were answered. -/
def AreAnswered (ps : List Param) (calls : List Call) : Prop :=
  ∀ c ∈ calls, ∃ q ∈ ps, ∃ answer, c = .ask q (some answer)

/-- Every param has a value. -/
def Resolves (ps : List Param) (values : Answers) : Prop := ∀ q ∈ ps, ∃ value, values.lookup q.name = some value

/-- Both the app and the library have a side for the platform. -/
structure HasSides (host : Host σ App Lib) (d : Dependency Lib) (p : Platform) : Prop where
  app : (host.app? p).isSome
  library : (d.side? p).isSome

/-- The calls of a turn of linking, in their order, with the status that it ends in. -/
inductive LinkCalls (host : Host σ App Lib) (d : Dependency Lib) (p : Platform) : List Call → Status → Prop
  | noSide (h : ¬ HasSides host d p) : LinkCalls host d p [] .notApplicable
  | noCapability (h : HasSides host d p) : LinkCalls host d p [.capability p false] .notApplicable
  | unanswered (h : HasSides host d p) {asked : List Call} {q : Param} (hasked : AreAnswered d.params asked)
      (hq : q ∈ d.params) : LinkCalls host d p (.capability p true :: (asked ++ [.ask q none])) .failed
  | unknown (h : HasSides host d p) {asked : List Call} (hasked : AreAnswered d.params asked) :
      LinkCalls host d p (.capability p true :: (asked ++ [.isInstalled p d.name none])) .failed
  | alreadyLinked (h : HasSides host d p) {asked : List Call} (hasked : AreAnswered d.params asked) :
      LinkCalls host d p (.capability p true :: (asked ++ [.isInstalled p d.name (some true)])) .alreadyLinked
  | registered (h : HasSides host d p) {asked : List Call} {values : Answers} (hasked : AreAnswered d.params asked)
      (hvalues : Resolves d.params values) (left? : Option (List String)) :
      LinkCalls host d p
        (.capability p true ::
          (asked ++ [.isInstalled p d.name (some false), .register p d.name values left?]))
        (match left? with
          | none => .failed
          | some left => if left.isEmpty then .linked else .needsManual)

/-- The calls of a turn of unlinking, in their order, with the status that it ends in. -/
inductive UnlinkCalls (host : Host σ App Lib) (d : Dependency Lib) (p : Platform) : List Call → Status → Prop
  | noSide (h : ¬ HasSides host d p) : UnlinkCalls host d p [] .notApplicable
  | noCapability (h : HasSides host d p) : UnlinkCalls host d p [.capability p false] .notApplicable
  | unknown (h : HasSides host d p) :
      UnlinkCalls host d p [.capability p true, .hasRegistration p d.name none] .failed
  | notLinked (h : HasSides host d p) :
      UnlinkCalls host d p [.capability p true, .hasRegistration p d.name (some false)] .notLinked
  | unregistered (h : HasSides host d p) (left? : Option (List String)) :
      UnlinkCalls host d p
        [.capability p true, .hasRegistration p d.name (some true), .unregister p d.name left?]
        (if left?.isSome then .unlinked else .failed)

/-! ## What watching shows -/

/-- A state that holds the calls so far, and the state that it is without them. -/
structure View (τ' τ : Type) [HasNotices τ'] [HasNotices τ] where
  calls : τ' → List Call
  plain : τ' → τ
  calls_note (n : Notice) (t : τ') : calls (HasNotices.note n t) = calls t
  plain_note (n : Notice) (t : τ') : plain (HasNotices.note n t) = HasNotices.note n (plain t)

def plainView [HasNotices σ] : View (Watched σ) σ where
  calls := Prod.fst
  plain := Prod.snd
  calls_note _ _ := rfl
  plain_note _ _ := rfl

def answersView [HasNotices σ] : View (Answers × Watched σ) (Answers × σ) where
  calls t := t.2.1
  plain t := (t.1, t.2.2)
  calls_note _ _ := rfl
  plain_note _ _ := rfl

section

variable [HasNotices τ'] [HasNotices τ] {v : View τ' τ}

/-- The watched step does what the plain one does, and adds calls to those so far that go with its outcome. -/
def Traces (v : View τ' τ) (x' : StateM τ' α) (x : StateM τ α) (P : List Call → α → Prop) : Prop :=
  ∀ t, ∃ calls, v.calls (x'.run t).2 = v.calls t ++ calls ∧
    x.run (v.plain t) = ((x'.run t).1, v.plain (x'.run t).2) ∧ P calls (x'.run t).1

variable {x' : StateM τ' α} {x : StateM τ α} {f' : α → StateM τ' β} {f : α → StateM τ β} {y' : Attempt τ' α}
  {y : Attempt τ α} {g' : α → Attempt τ' β} {g : α → Attempt τ β}

theorem Traces.mono {P Q : List Call → α → Prop} (h : Traces v x' x P) (hPQ : ∀ c a, P c a → Q c a) : Traces v x' x Q := by
  intro t
  obtain ⟨calls, hcalls, hplain, hP⟩ := h t
  exact ⟨calls, hcalls, hplain, hPQ _ _ hP⟩

theorem traces_pure {P : List Call → α → Prop} {a : α} (h : P [] a) : Traces v (pure a) (pure a) P :=
  fun _ => ⟨[], (List.append_nil _).symm, rfl, h⟩

theorem Traces.bind {P : List Call → β → Prop} {Q : List Call → α → Prop} (hx : Traces v x' x Q)
    (hf : ∀ c a, Q c a → Traces v (f' a) (f a) fun c' b => P (c ++ c') b) : Traces v (x' >>= f') (x >>= f) P := by
  intro t
  obtain ⟨c, hc, hplain, hQ⟩ := hx t
  obtain ⟨c', hc', hplain', hP⟩ := hf c _ hQ (x'.run t).2
  refine ⟨c ++ c', ?_, ?_, hP⟩
  · rw [run_bind_state, hc', hc, List.append_assoc]
  · rw [run_bind_state, run_bind_state, hplain, hplain']

/-- Steps after a step that may fail. -/
theorem Traces.bindAttempt {P : List Call → Except Fault β → Prop} {Q : List Call → Except Fault α → Prop}
    (hx : Traces v y'.run y.run Q) (herror : ∀ c e, Q c (.error e) → P c (.error e))
    (hf : ∀ c a, Q c (.ok a) → Traces v (g' a).run (g a).run fun c' b => P (c ++ c') b) :
    Traces v (y' >>= g').run (y >>= g).run P := by
  show Traces v (y'.run >>= ExceptT.bindCont g') (y.run >>= ExceptT.bindCont g) P
  refine Traces.bind hx fun c r hQ => ?_
  cases r with
  | error e => exact traces_pure (by rw [List.append_nil]; exact herror c e hQ)
  | ok a => exact hf c a hQ

theorem traces_tell (level : Level) (text : String) :
    Traces v (tell level text : Attempt τ' Unit).run (tell level text : Attempt τ Unit).run
      fun c r => c = [] ∧ r = .ok () := fun t =>
  ⟨[], (v.calls_note _ t).trans (List.append_nil _).symm, Prod.ext rfl (v.plain_note _ t).symm, rfl, rfl⟩

theorem traces_tellAll (level : Level) (text : String → String) (left : List String) :
    Traces v (forIn left PUnit.unit fun instruction _ => (do
        tell level (text instruction)
        return ForInStep.yield PUnit.unit : Attempt τ' (ForInStep PUnit))).run
      (forIn left PUnit.unit fun instruction _ => (do
        tell level (text instruction)
        return ForInStep.yield PUnit.unit : Attempt τ (ForInStep PUnit))).run
      fun c r => c = [] ∧ r = .ok () := by
  induction left with
  | nil => exact traces_pure ⟨rfl, rfl⟩
  | cons instruction left ih =>
    rw [List.forIn_cons, List.forIn_cons, bind_assoc, bind_assoc]
    refine (traces_tell level _).bindAttempt (by simp) fun c _ hc => ?_
    obtain rfl := hc.1
    exact ih

end

section

variable [HasNotices σ]

theorem traces_watch (call : Option α → Call) (x : Attempt σ α) :
    Traces plainView (watch call x).run x.run fun c r => c = [call r.toOption] :=
  fun _ => ⟨_, rfl, rfl, rfl⟩

theorem Traces.besideAnswers {x' : Attempt (Watched σ) α} {x : Attempt σ α} {P : List Call → Except Fault α → Prop}
    (h : Traces plainView x'.run x.run P) :
    Traces answersView (besideAnswers x').run (besideAnswers x).run P := by
  rintro ⟨known, t⟩
  obtain ⟨calls, hcalls, hplain, hP⟩ := h t
  refine ⟨calls, hcalls, ?_, hP⟩
  have hrun : (Linking.besideAnswers x).run (known, t.2) =
      ((StateT.run x.run t.2).1, known, (StateT.run x.run t.2).2) := rfl
  exact hrun.trans (by rw [show t.2 = plainView.plain t from rfl, hplain]; rfl)

end

/-! ## Params -/

section

variable {ask : Param → Attempt σ String} {q : Param} {known : Answers} {s : σ}

/-- Asks for a param and keeps the answer. -/
def askOnce (ask : Param → Attempt σ String) (q : Param) : Attempt (Answers × σ) String := do
  let value ← besideAnswers (ask q)
  modify fun (known, s) => (Answers.record q.name value known, s)
  return value

theorem run_resolveOne_eq_askOnce (h : known.lookup q.name = none) :
    (Answers.resolveOne ask q).run (known, s) = (askOnce ask q).run (known, s) := by
  rw [Answers.resolveOne, Attempt.run_bind_ok (Attempt.run_get _)]
  simp only [h]
  rfl

variable [HasNotices σ]

/-- A param that is known is not asked for. -/
theorem traces_resolveOne (ask : Param → Attempt σ String) (q : Param) :
    Traces answersView (Answers.resolveOne (watchAsk ask) q).run (Answers.resolveOne ask q).run fun c r =>
      match r with
      | .ok _ => AreAnswered [q] c
      | .error _ => c = [.ask q none] := by
  have hask : Traces answersView (askOnce (watchAsk ask) q).run (askOnce ask q).run fun c r =>
      c = [.ask q r.toOption] := by
    refine (traces_watch (.ask q) (ask q)).besideAnswers.bindAttempt (fun _ _ hc => hc) fun c value hc => ?_
    exact fun t => ⟨[], (List.append_nil _).symm, rfl, by rw [hc]; rfl⟩
  rintro ⟨known, t⟩
  cases hknown : known.lookup q.name with
  | some value =>
    have hrun : StateT.run (Answers.resolveOne (watchAsk ask) q).run (known, t) = (.ok value, known, t) :=
      Answers.run_resolveOne_known hknown
    have hplain : StateT.run (Answers.resolveOne ask q).run (known, t.2) = (.ok value, known, t.2) :=
      Answers.run_resolveOne_known hknown
    rw [hrun]
    exact ⟨[], (List.append_nil _).symm, hplain, by simp [AreAnswered]⟩
  | none =>
    have hrun : StateT.run (Answers.resolveOne (watchAsk ask) q).run (known, t) =
        StateT.run (askOnce (watchAsk ask) q).run (known, t) := run_resolveOne_eq_askOnce hknown
    have hplain : StateT.run (Answers.resolveOne ask q).run (known, t.2) =
        StateT.run (askOnce ask q).run (known, t.2) := run_resolveOne_eq_askOnce hknown
    obtain ⟨c, hcalls, hask, hc⟩ := hask (known, t)
    rw [hrun]
    refine ⟨c, hcalls, hplain.trans hask, ?_⟩
    rw [hc]
    cases (StateT.run (askOnce (watchAsk ask) q).run (known, t)).1 with
    | error e => rfl
    | ok value => simp [AreAnswered, Except.toOption]

/-- All params have values, or there is one that got no answer. -/
theorem traces_resolve (ask : Param → Attempt σ String) (ps : List Param) :
    Traces answersView (Answers.resolve (watchAsk ask) ps).run (Answers.resolve ask ps).run fun c r =>
      match r with
      | .ok values => AreAnswered ps c ∧ Resolves ps values
      | .error _ => ∃ asked, AreAnswered ps asked ∧ ∃ q ∈ ps, c = asked ++ [.ask q none] := by
  have hfold (done : Answers) : Traces answersView
      (ps.foldlM (fun resolved q => do
        let value ← Answers.resolveOne (watchAsk ask) q
        return Answers.record q.name value resolved) done).run
      (ps.foldlM (fun resolved q => do
        let value ← Answers.resolveOne ask q
        return Answers.record q.name value resolved) done).run fun c r =>
      match r with
      | .ok values => AreAnswered ps c ∧ Resolves ps values ∧
          ∀ k, (done.lookup k).isSome = true → (values.lookup k).isSome = true
      | .error _ => ∃ asked, AreAnswered ps asked ∧ ∃ q ∈ ps, c = asked ++ [.ask q none] := by
    induction ps generalizing done with
    | nil => exact traces_pure ⟨by simp [AreAnswered], by simp [Resolves], fun _ h => h⟩
    | cons q ps ih =>
      rw [List.foldlM_cons, List.foldlM_cons, bind_assoc, bind_assoc]
      refine (traces_resolveOne ask q).bindAttempt (fun c e hc => ?_) fun c value hc => ?_
      · exact ⟨[], by simp [AreAnswered], q, by simp, hc⟩
      · have hasked {asked : List Call} (h : AreAnswered ps asked) : AreAnswered (q :: ps) (c ++ asked) := by
          intro call hcall
          rcases List.mem_append.mp hcall with hcall | hcall
          · obtain ⟨q', hq', hanswer⟩ := hc call hcall
            exact ⟨q', by simp [List.mem_singleton.mp hq'], hanswer⟩
          · obtain ⟨q', hq', hanswer⟩ := h call hcall
            exact ⟨q', by simp [hq'], hanswer⟩
        rw [pure_bind, pure_bind]
        refine (ih (Answers.record q.name value done)).mono fun c' r hr => ?_
        cases r with
        | error e =>
          obtain ⟨asked, hasked', q', hq', rfl⟩ := hr
          exact ⟨c ++ asked, hasked hasked', q', by simp [hq'], (List.append_assoc _ _ _).symm⟩
        | ok values =>
          obtain ⟨hasked', hvalues, hkept⟩ := hr
          refine ⟨hasked hasked', List.forall_mem_cons.mpr ⟨?_, hvalues⟩, fun k hk => hkept k ?_⟩
          · refine Option.isSome_iff_exists.mp (hkept q.name ?_)
            rw [Answers.isSome_lookup_record, beq_self_eq_true, Bool.true_or]
          · rw [Answers.isSome_lookup_record, hk, Bool.or_true]
  refine (hfold []).mono fun c r hr => ?_
  cases r with
  | error e => exact hr
  | ok values => exact ⟨hr.1, hr.2.1⟩

end

/-! ## Steps -/

section

variable [HasNotices σ] {d : Dependency Lib} {p : Platform} (capability : Capability σ App Lib p) (app : App p)
  (library : Lib p)

/-- The status of a turn that a step ended in. -/
def statusOf : Except Fault (Status × String) → Status
  | .ok (status, _) => status
  | .error _ => .failed

theorem traces_linkStep (host : Host σ App Lib) (hsides : HasSides host d p) (ask : Param → Attempt σ String) :
    Traces answersView (linkStep (watchAsk ask) d p capability.watched app library).run
      (linkStep ask d p capability app library).run
      fun c r => LinkCalls host d p (.capability p true :: c) (statusOf r) := by
  refine (traces_resolve ask d.params).bindAttempt (fun c e hc => ?_) fun asked values ⟨hasked, hvalues⟩ => ?_
  · obtain ⟨asked, hasked, q, hq, rfl⟩ := hc
    exact .unanswered hsides hasked hq
  refine (traces_watch _ _).besideAnswers.bindAttempt (fun c e hc => ?_) fun c installed hc => ?_
  · rw [hc]
    exact .unknown hsides hasked
  cases installed with
  | true =>
    refine (traces_tell _ _).bindAttempt (by simp) fun c' _ hc' => traces_pure ?_
    rw [hc, hc'.1]
    exact .alreadyLinked hsides hasked
  | false =>
    refine (traces_tell _ _).bindAttempt (by simp) fun c' _ hc' => ?_
    obtain rfl := hc'.1
    have hregistered := LinkCalls.registered hsides hasked hvalues
    refine (traces_watch _ _).besideAnswers.bindAttempt (fun c' e hc' => ?_) fun c' left hc' => ?_
    · rw [hc, hc']
      exact hregistered none
    have hleft := hregistered (some left)
    cases hempty : left.isEmpty with
    | true =>
      simp only [hempty, if_true] at hleft ⊢
      exact traces_pure (by rw [hc, hc']; exact hleft)
    | false =>
      simp only [hempty, Bool.false_eq_true, if_false] at hleft ⊢
      refine (traces_tellAll _ _ left).bindAttempt (by simp) fun c'' _ hc'' => traces_pure ?_
      rw [hc, hc', hc''.1]
      exact hleft

theorem traces_unlinkStep (host : Host σ App Lib) (hsides : HasSides host d p) (others : List (Dependency Lib)) :
    Traces plainView (unlinkStep others d p capability.watched app library).run
      (unlinkStep others d p capability app library).run
      fun c r => UnlinkCalls host d p (.capability p true :: c) (statusOf r) := by
  refine (traces_watch _ _).bindAttempt (fun c e hc => ?_) fun c registered hc => ?_
  · rw [hc]
    exact .unknown hsides
  have hunregistered := UnlinkCalls.unregistered hsides
  cases registered with
  | true =>
    refine (traces_tell _ _).bindAttempt (by simp) fun c' _ hc' => ?_
    obtain rfl := hc'.1
    refine (traces_watch _ _).bindAttempt (fun c' e hc' => ?_) fun c' left hc' => ?_
    · rw [hc, hc']
      exact hunregistered none
    refine (traces_tellAll _ _ left).bindAttempt (by simp) fun c'' _ hc'' => traces_pure ?_
    rw [hc, hc', hc''.1]
    exact hunregistered (some left)
  | false =>
    refine (traces_tell _ _).bindAttempt (by simp) fun c' _ hc' => traces_pure ?_
    rw [hc, hc'.1]
    exact .notLinked hsides

end

/-! ## Turns -/

section

variable [HasNotices τ'] [HasNotices τ] {v : View τ' τ} {action name : String} {p : Platform}
  {step?' : Platform → StateM τ' (Option (Attempt τ' (Status × String)))}
  {step? : Platform → StateM τ (Option (Attempt τ (Status × String)))}

/-- The steps, if there are any, show their calls behind calls that were made to find them. -/
inductive TracesStep (v : View τ' τ) (Q : List Call → Status → Prop) (c : List Call) :
    Option (Attempt τ' (Status × String)) → Option (Attempt τ (Status × String)) → Prop
  | none (h : Q c .notApplicable) : TracesStep v Q c none none
  | some {x' : Attempt τ' (Status × String)} {x : Attempt τ (Status × String)}
      (h : Traces v x'.run x.run fun c' r => Q (c ++ c') (statusOf r)) : TracesStep v Q c (some x') (some x)

theorem traces_turnOn {Q : List Call → Status → Prop}
    (h : ∀ t, ∃ c, v.calls ((step?' p).run t).2 = v.calls t ++ c ∧
      ((step? p).run (v.plain t)).2 = v.plain ((step?' p).run t).2 ∧
      TracesStep v Q c ((step?' p).run t).1 ((step? p).run (v.plain t)).1) :
    Traces v (turnOn action name step?' p) (turnOn action name step? p) fun c r => Q c r.status := by
  intro t
  obtain ⟨c, hcalls, hstate, htraces⟩ := h t
  rcases hstep' : (step?' p).run t with ⟨found', t₁⟩
  rcases hstep : (step? p).run (v.plain t) with ⟨found, s₁⟩
  rw [hstep', hstep] at htraces
  rw [hstep'] at hcalls
  rw [hstep', hstep] at hstate
  obtain rfl : s₁ = v.plain t₁ := hstate
  cases htraces with
  | none hQ =>
    rw [turnOn_of_none hstep', turnOn_of_none hstep]
    exact ⟨c, hcalls, rfl, hQ⟩
  | @some x' x hx =>
    obtain ⟨c', hcalls', hplain, hQ⟩ := hx t₁
    obtain ⟨r, t₂, hrun'⟩ : ∃ r t₂, StateT.run x'.run t₁ = (r, t₂) := ⟨_, _, rfl⟩
    rw [hrun'] at hcalls' hplain hQ
    have hlog : v.calls t₂ = v.calls t ++ (c ++ c') := by
      rw [← List.append_assoc, ← hcalls]
      exact hcalls'
    cases r with
    | error e =>
      rw [turnOn_of_error hstep' hrun', turnOn_of_error hstep hplain]
      exact ⟨c ++ c', (v.calls_note _ _).trans hlog, Prod.ext rfl (v.plain_note _ _).symm, hQ⟩
    | ok r =>
      rw [turnOn_of_ok hstep' hrun', turnOn_of_ok hstep hplain]
      exact ⟨c ++ c', hlog, rfl, hQ⟩

theorem traces_walk {turn' : Platform → StateM τ' Result} {turn : Platform → StateM τ Result}
    (h : ∀ p, Traces v (turn' p) (turn p) fun _ _ => True) (ps : List Platform) :
    Traces v (walk turn' ps) (walk turn ps) fun _ _ => True := by
  induction ps with
  | nil => exact traces_pure trivial
  | cons p ps ih =>
    refine (h p).bind fun _ r _ => ?_
    split
    · exact traces_pure trivial
    · exact ih.bind fun _ _ _ => traces_pure trivial

theorem traces_mapM {x' : β → StateM τ' α} {x : β → StateM τ α} (h : ∀ b, Traces v (x' b) (x b) fun _ _ => True)
    (bs : List β) : Traces v (bs.mapM x') (bs.mapM x) fun _ _ => True := by
  induction bs with
  | nil => exact traces_pure trivial
  | cons b bs ih =>
    rw [List.mapM_cons, List.mapM_cons]
    exact (h b).bind fun _ _ _ => ih.bind fun _ _ _ => traces_pure trivial

end

section

variable (host : Host σ App Lib) (d : Dependency Lib) (p : Platform)

/-- Finding the step of a watched host. -/
theorem run_stepFor?_watched (step' : (p : Platform) → Capability (Watched σ) App Lib p → App p → Lib p → α)
    (step : (p : Platform) → Capability σ App Lib p → App p → Lib p → β) (t : Watched σ) :
    (¬ HasSides host d p ∧ (host.watched.stepFor? d step' p).run t = (none, t) ∧
        (host.stepFor? d step p).run t.2 = (none, t.2)) ∨
      HasSides host d p ∧ ∃ s',
        ((host.watched.stepFor? d step' p).run t = (none, t.1 ++ [.capability p false], s') ∧
          (host.stepFor? d step p).run t.2 = (none, s')) ∨
        ∃ capability app library,
          (host.watched.stepFor? d step' p).run t =
              (some (step' p (Capability.watched capability) app library), t.1 ++ [.capability p true], s') ∧
            (host.stepFor? d step p).run t.2 = (some (step p capability app library), s') := by
  rw [Host.stepFor?, Host.stepFor?, show host.watched.app? p = host.app? p from rfl]
  rcases happ : host.app? p with _ | app
  · exact .inl ⟨fun h => by simpa [happ] using h.app, rfl, rfl⟩
  rcases hlibrary : d.side? p with _ | library
  · exact .inl ⟨fun h => by simpa [hlibrary] using h.library, rfl, rfl⟩
  refine .inr ⟨⟨by rw [happ]; rfl, by rw [hlibrary]; rfl⟩, ?_⟩
  rcases hcapability : (host.capability? p).run t.2 with ⟨capability?, s'⟩
  refine ⟨s', ?_⟩
  have hwatched : (host.watched.capability? p).run t =
      (capability?.map Capability.watched, t.1 ++ [.capability p capability?.isSome], s') := by
    show (((host.capability? p).run t.2).1.map Capability.watched,
      t.1 ++ [Call.capability p ((host.capability? p).run t.2).1.isSome], ((host.capability? p).run t.2).2) = _
    rw [hcapability]
  simp only [run_bind_state, hwatched, hcapability]
  cases capability? with
  | none => exact .inl ⟨rfl, rfl⟩
  | some capability => exact .inr ⟨capability, app, library, rfl, rfl⟩

variable [HasNotices σ]

theorem traces_linkTurn (ask : Param → Attempt σ String) :
    Traces answersView (linkTurn host.watched (watchAsk ask) d p) (linkTurn host ask d p)
      fun c r => LinkCalls host d p c r.status := by
  refine traces_turnOn fun ⟨known, t⟩ => ?_
  rw [run_asideAnswers, show answersView.plain (known, t) = (known, t.2) from rfl, run_asideAnswers]
  rcases run_stepFor?_watched host d p (linkStep (watchAsk ask) d) (linkStep ask d) t with
    ⟨hsides, hrun', hrun⟩ | ⟨hsides, s', ⟨hrun', hrun⟩ | ⟨capability, app, library, hrun', hrun⟩⟩ <;>
  rw [hrun', hrun]
  · exact ⟨[], (List.append_nil _).symm, rfl, .none (.noSide hsides)⟩
  · exact ⟨[.capability p false], rfl, rfl, .none (.noCapability hsides)⟩
  · exact ⟨[.capability p true], rfl, rfl, .some (traces_linkStep capability app library host hsides ask)⟩

theorem traces_unlinkTurn (others : List (Dependency Lib)) :
    Traces plainView (unlinkTurn host.watched others d p) (unlinkTurn host others d p)
      fun c r => UnlinkCalls host d p c r.status := by
  refine traces_turnOn fun t => ?_
  rw [show plainView.plain t = t.2 from rfl]
  rcases run_stepFor?_watched host d p (unlinkStep others d) (unlinkStep others d) t with
    ⟨hsides, hrun', hrun⟩ | ⟨hsides, s', ⟨hrun', hrun⟩ | ⟨capability, app, library, hrun', hrun⟩⟩ <;>
  rw [hrun', hrun]
  · exact ⟨[], (List.append_nil _).symm, rfl, .none (.noSide hsides)⟩
  · exact ⟨[.capability p false], rfl, rfl, .none (.noCapability hsides)⟩
  · exact ⟨[.capability p true], rfl, rfl, .some (traces_unlinkStep capability app library host hsides others)⟩

end

/-! ## Runs -/

/-- What a turn adds to the calls and to the results of a run. -/
structure Entry where
  calls : List Call
  result : Result

section

variable [HasNotices τ'] [HasNotices τ] {v : View τ' τ} {platforms : List Platform} {ds : List (Dependency Lib)}
  {turn' : Dependency Lib → Platform → StateM τ' Result} {turn : Dependency Lib → Platform → StateM τ Result}
  {P : Dependency Lib → Platform → List Call → Status → Prop}

/-- The calls between the states around a turn. -/
def Turn.entry (v : View τ' τ) (u : Turn τ') : Entry :=
  ⟨(v.calls u.after).drop (v.calls u.before).length, u.result⟩

theorem Leads.calls {t t' : τ'} {us : List (Turn τ')} (h : Leads t us t')
    (hus : ∀ u ∈ us, ∃ c, v.calls u.after = v.calls u.before ++ c) :
    v.calls t' = v.calls t ++ (us.map (Turn.entry v)).flatMap (·.calls) := by
  induction us generalizing t with
  | nil =>
    obtain rfl : t = t' := h
    exact (List.append_nil _).symm
  | cons u us ih =>
    obtain ⟨rfl, hrest⟩ := h
    rw [List.forall_mem_cons] at hus
    obtain ⟨c, hc⟩ := hus.1
    rw [ih hrest hus.2, List.map_cons, List.flatMap_cons, Turn.entry, hc, List.drop_left, List.append_assoc]

/-- The turns of a watched run, with their calls. -/
theorem IsRecord.entries {t t' : τ'} {segments : List (List (Turn τ'))}
    (h : IsRecord (fun d p => walk (turn' d) [p]) platforms ds t segments t')
    (hturn : ∀ d p, Traces v (turn' d p) (turn d p) fun c r => P d p c r.status) :
    v.calls t' = v.calls t ++ (segments.map (·.map (Turn.entry v))).flatten.flatMap (·.calls) ∧
      List.Forall₂ (fun d es => IsSegment d.name platforms (es.map (·.result)) ∧ ∀ e ∈ es,
        ∃ p, e.result.platform = some p ∧ P d p e.calls e.result.status) ds (segments.map (·.map (Turn.entry v))) := by
  have hcalls (d : Dependency Lib) (u : Turn τ') (p : Platform)
      (hu : (walk (turn' d) [p]).run u.before = ([u.result], u.after)) :
      (∃ c, v.calls u.after = v.calls u.before ++ c) ∧ P d p (u.entry v).calls u.result.status := by
    rw [walk_singleton] at hu
    obtain ⟨hresult, hafter⟩ := Prod.mk.inj hu
    obtain ⟨c, hc, -, hP⟩ := hturn d p u.before
    rw [hafter] at hc
    rw [List.head_eq_of_cons_eq hresult] at hP
    exact ⟨⟨c, hc⟩, by rw [Turn.entry, hc, List.drop_left]; exact hP⟩
  constructor
  · rw [← List.map_flatten]
    refine h.leads.calls fun u hu => ?_
    obtain ⟨us, hus, hu⟩ := List.mem_flatten.mp hu
    obtain ⟨d, -, -, hturns⟩ := exists_of_forall₂ h.segments us hus
    obtain ⟨p, -, -, hrun⟩ := hturns u hu
    exact (hcalls d u p hrun).1
  · rw [List.forall₂_map_right_iff]
    refine h.segments.imp fun d us ⟨hsegment, hturns⟩ => ⟨by rwa [List.map_map], List.forall_mem_map.mpr fun u hu => ?_⟩
    obtain ⟨p, -, hp, hrun⟩ := hturns u hu
    exact ⟨p, hp, (hcalls d u p hrun).2⟩

end

section

variable [HasNotices σ] (host : Host σ App Lib) (ask : Param → Attempt σ String) (others ds : List (Dependency Lib))

theorem traces_link : Traces answersView (link host.watched (watchAsk ask) ds) (link host ask ds) fun _ _ => True := by
  rw [link_eq_walks, link_eq_walks, map_eq_pure_bind, map_eq_pure_bind]
  refine (traces_mapM (fun d => traces_walk (fun p => ?_) host.platforms) ds).bind fun _ _ _ => traces_pure trivial
  exact (traces_linkTurn host d p ask).mono fun _ _ _ => trivial

theorem traces_unlink : Traces plainView (unlink host.watched others ds) (unlink host others ds) fun _ _ => True := by
  rw [unlink_eq_walks, unlink_eq_walks, map_eq_pure_bind, map_eq_pure_bind]
  refine (traces_mapM (fun d => traces_walk (fun p => ?_) host.platforms) ds).bind fun _ _ _ => traces_pure trivial
  exact (traces_unlinkTurn host d p others).mono fun _ _ _ => trivial

/-- The results of linking and of unlinking come turn by turn, in one segment for each library.  The calls of a turn are
fixed but for what comes back: a library is registered once at most, after the platform told that it is not installed and
with values for all its params, and unregistered once at most, after the platform told that something of it is there. -/
theorem link_unlink_entries (known : Answers) (s : σ) :
    (∃ segments : List (List Entry), ∃ known' s',
      (link host ask ds).run (known, s) = (segments.flatten.map (·.result), known', s') ∧
      (link host.watched (watchAsk ask) ds).run (known, [], s) =
        (segments.flatten.map (·.result), known', segments.flatten.flatMap (·.calls), s') ∧
      List.Forall₂ (fun d es => IsSegment d.name host.platforms (es.map (·.result)) ∧ ∀ e ∈ es,
        ∃ p, e.result.platform = some p ∧ LinkCalls host d p e.calls e.result.status) ds segments) ∧
    ∃ segments : List (List Entry), ∃ s',
      (unlink host others ds).run s = (segments.flatten.map (·.result), s') ∧
      (unlink host.watched others ds).run ([], s) =
        (segments.flatten.map (·.result), segments.flatten.flatMap (·.calls), s') ∧
      List.Forall₂ (fun d es => IsSegment d.name host.platforms (es.map (·.result)) ∧ ∀ e ∈ es,
        ∃ p, e.result.platform = some p ∧ UnlinkCalls host d p e.calls e.result.status) ds segments := by
  have hresults {τ' τ : Type} [HasNotices τ'] [HasNotices τ] (v : View τ' τ) (segments : List (List (Turn τ'))) :
      (segments.map (·.map (Turn.entry v))).flatten.map (·.result) = segments.flatten.map (·.result) := by
    rw [← List.map_flatten, List.map_map]
    rfl
  constructor
  · obtain ⟨segments, ⟨known', calls, s'⟩, hrun, hrecord⟩ :=
      exists_record_link host.watched (watchAsk ask) ds (known, [], s)
    simp only [link_only] at hrecord
    obtain ⟨hcalls, hsegments⟩ := hrecord.entries fun d p => traces_linkTurn host d p ask
    obtain ⟨-, -, hplain, -⟩ := traces_link host ask ds (known, [], s)
    rw [hrun] at hplain
    refine ⟨_, known', s', ?_, ?_, hsegments⟩
    · rw [hresults]
      exact hplain
    · rw [hresults, hrun]
      exact Prod.ext rfl (Prod.ext rfl (Prod.ext hcalls rfl))
  · obtain ⟨segments, ⟨calls, s'⟩, hrun, hrecord⟩ := exists_record_unlink host.watched others ds ([], s)
    simp only [unlink_only] at hrecord
    obtain ⟨hcalls, hsegments⟩ := hrecord.entries fun d p => traces_unlinkTurn host d p others
    obtain ⟨-, -, hplain, -⟩ := traces_unlink host others ds ([], s)
    rw [hrun] at hplain
    refine ⟨_, s', ?_, ?_, hsegments⟩
    · rw [hresults]
      exact hplain
    · rw [hresults, hrun]
      exact Prod.ext rfl (Prod.ext hcalls rfl)

end

end Linking
end ModuleLink
