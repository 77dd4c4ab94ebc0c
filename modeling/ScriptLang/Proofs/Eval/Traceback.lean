import Mathlib
import ScriptLang.Proofs.Eval.Invariant

/-!
# Depth of calls and traces of exceptions

Never are more calls active than the limit allows, and a call for which there is no
room is refused before its body begins. Each time an exception is thrown, its trace
becomes the calls that are active then. These calls are those that were active before
the evaluation, with newer ones on top; so the trace of an exception that leaves an
evaluation ends with the calls that the evaluation was begun under, however often it
was caught and thrown again on the way.
-/

namespace ScriptLang

/-! ## Traces -/

/-- The trace can be that of an exception thrown under these calls: it has newer calls first and
then exactly these, and is within the limit. -/
structure CallStack.Underlies (c : CallStack) (trace : List Frame) : Prop where
  suffix : c.frames <:+ trace
  length_le : trace.length ≤ c.limit

theorem CallStack.push?_eq_some {c c' : CallStack} {frame : Frame} (h : c.push? frame = some c') :
    c.depth < c.limit ∧ c' = { c with frames := frame :: c.frames } := by
  unfold CallStack.push? at h
  split at h
  · cases h
  · rename_i hlt
    cases h
    exact ⟨Nat.lt_of_not_le hlt, rfl⟩

/-- What has happened under a call has happened under the calls below it. -/
theorem CallStack.Underlies.of_push {c c' : CallStack} {frame : Frame} {trace : List Frame}
    (hpush : c.push? frame = some c') (h : c'.Underlies trace) : c.Underlies trace := by
  obtain ⟨-, rfl⟩ := CallStack.push?_eq_some hpush
  exact ⟨(List.suffix_cons frame c.frames).trans h.suffix, h.length_le⟩

namespace Store

variable {t : Store}

theorem trace_eq_of_traces_eq {t' : Store} (h : t'.traces = t.traces) (x : Exception) :
    t'.trace x = t.trace x := by
  rw [trace, h, trace]

theorem trace_setTrace_self {x : Exception} (hx : x.id < t.traces.size) (frames : List Frame) :
    (t.setTrace x frames).trace x = frames := by
  simp [trace, setTrace, Array.getElem?_setIfInBounds_self_of_lt hx]

theorem trace_setTrace (t : Store) (x y : Exception) (frames : List Frame) :
    (t.setTrace x frames).trace y = t.trace y ∨ (t.setTrace x frames).trace y = frames := by
  by_cases hid : x.id = y.id
  · by_cases hx : x.id < t.traces.size
    · right
      simp [trace, setTrace, ← hid, Array.getElem?_setIfInBounds_self_of_lt hx]
    · left
      simp [trace, setTrace, Array.setIfInBounds, hx]
  · left
    simp [trace, setTrace, Array.getElem?_setIfInBounds_ne hid]

/-- A new exception has no trace, like one that was never made. -/
theorem trace_newException (t : Store) (kind message : String) (y : Exception) :
    (t.newException kind message).2.trace y = t.trace y := by
  by_cases hy : y.id = t.traces.size
  · simp [trace, newException, hy]
  · simp [trace, newException, Array.getElem?_push, hy]

end Store

/-! ## What evaluation does to traces -/

/-- The same calls are active, and every exception has kept its trace or has been thrown again
under these calls. -/
structure Session.Retraces (s s' : Session) : Prop where
  callStack : s'.callStack = s.callStack
  trace : ∀ x, s'.store.trace x = s.store.trace x ∨ s.callStack.Underlies (s'.store.trace x)

namespace Session.Retraces

variable {s s' s'' : Session}

theorem of_eq (hcalls : s'.callStack = s.callStack) (htraces : s'.store.traces = s.store.traces) :
    s.Retraces s' :=
  ⟨hcalls, fun x => .inl (Store.trace_eq_of_traces_eq htraces x)⟩

theorem trans (h : s.Retraces s') (h' : s'.Retraces s'') : s.Retraces s'' := by
  refine ⟨h'.callStack.trans h.callStack, fun x => ?_⟩
  rcases h'.trace x with hsame | hthrown
  · rw [hsame]
    exact h.trace x
  · rw [h.callStack] at hthrown
    exact .inr hthrown

/-- An exception that was thrown under the calls is still one after more has happened. -/
theorem underlies {x : Exception} (h : s.Retraces s') (h' : s'.Retraces s'')
    (hx : s.callStack.Underlies (s'.store.trace x)) : s.callStack.Underlies (s''.store.trace x) := by
  rcases h'.trace x with hsame | hthrown
  · rw [hsame]
    exact hx
  · rw [h.callStack] at hthrown
    exact hthrown

end Session.Retraces

namespace Discipline

/-- The discipline of calls under a limit. -/
def traced (limit : Nat) : Discipline where
  Pre _ s := s.callStack.limit = limit ∧ s.callStack.depth ≤ limit
  Rel _ s s' := s.Retraces s'
  Thrown s s' x := s.callStack.Underlies (s'.store.trace x)

variable {limit : Nat} {o o' : Option ScopeId} {s s' s₁ : Session}

theorem traced_step (hs : (traced limit).Pre o s) (h : s.Retraces s') :
    (traced limit).Step o' s s' := by
  refine ⟨h, ?_⟩
  change s'.callStack.limit = limit ∧ s'.callStack.depth ≤ limit
  rw [h.callStack]
  exact hs

/-- The calls that are active make up a trace within the limit. -/
theorem traced_underlies (hs : (traced limit).Pre o s) : s.callStack.Underlies s.callStack.frames :=
  ⟨List.suffix_rfl, hs.2.trans_eq hs.1.symm⟩

/-- Throwing an exception gives it the active calls and leaves the others as they are. -/
theorem traced_raise {x : Exception} (hs : (traced limit).Pre none s)
    (hx : x.id < s.store.traces.size) :
    let s' := { s with store := s.callStack.attach x s.store }
    (traced limit).Step none s s' ∧ (traced limit).Thrown s s' x := by
  constructor
  · refine traced_step hs ⟨rfl, fun y => ?_⟩
    rcases s.store.trace_setTrace x y s.callStack.frames with hsame | hframes
    · exact .inl hsame
    · right
      change s.callStack.Underlies ((s.store.setTrace x s.callStack.frames).trace y)
      rw [hframes]
      exact traced_underlies hs
  · change s.callStack.Underlies ((s.store.setTrace x s.callStack.frames).trace x)
    rw [Store.trace_setTrace_self hx]
    exact traced_underlies hs

/-- A part that runs under the same calls, in a session made from this one by steps that have
nothing to do with exceptions. -/
theorem traced_brackets {close : Session → Session} (hs : (traced limit).Pre none s)
    (hopen : s.Retraces s₁) (hclose : ∀ s' : Session, s'.Retraces (close s'))
    (htraces : ∀ s', (close s').store.traces = s'.store.traces) :
    (traced limit).Brackets s o s₁ close := by
  refine ⟨(traced_step hs hopen).2, fun s' hstep => ⟨?_, fun x hx => ?_⟩⟩
  · exact traced_step hs (hopen.trans (hstep.1.trans (hclose s')))
  · change s.callStack.Underlies ((close s').store.trace x)
    rw [Store.trace_eq_of_traces_eq (htraces s') x, ← hopen.callStack]
    exact hx

theorem traced_lawful (limit : Nat) (names : Set String) : (traced limit).Lawful names where
  refl _ := .of_eq rfl rfl
  trans := .trans
  narrow hs := hs
  widen _ hstep := hstep
  thrown_trans {o s s' s'' x} hrel hx := by
    change s'.callStack.Underlies (s''.store.trace x) at hx
    rw [hrel.callStack] at hx
    exact hx
  thrown_kept hrel hx hrel' := hrel.underlies hrel' hx
  apart hs hapart := traced_step hs (.of_eq hapart.callStack hapart.traces)
  set _ _ hs := traced_step hs (.of_eq rfl rfl)
  raise hs hx := by
    rw [Value.Valid] at hx
    exact traced_raise hs hx
  report {s} fault hs := by
    -- a new exception is made and then thrown
    have hnew : s.Retraces { s with store := (s.store.newException fault.kind fault.message).2 } :=
      ⟨rfl, fun x => .inl (s.store.trace_newException fault.kind fault.message x)⟩
    have hid : s.store.traces.size <
        (s.store.newException fault.kind fault.message).2.traces.size := by
      simp [Store.newException]
    obtain ⟨hstep, hthrown⟩ := traced_raise (x := (s.store.newException _ _).1)
      (traced_step hs hnew).2 hid
    exact ⟨traced_step hs (hnew.trans hstep.1), hthrown⟩
  scope _ hs := traced_brackets hs (.of_eq rfl rfl) (fun _ => .of_eq rfl rfl) fun _ => rfl
  call {s callStack frame} hs _ hpush := by
    obtain ⟨hlt, hpushed⟩ := CallStack.push?_eq_some hpush
    refine ⟨?_, fun s' hstep => ?_⟩
    · change callStack.limit = limit ∧ callStack.depth ≤ limit
      rw [hpushed]
      exact ⟨hs.1, hlt.trans_eq hs.1⟩
    · have hcalls : s'.callStack.pop = s.callStack := by
        rw [hstep.1.callStack]
        exact CallStack.pop_of_push? hpush
      refine ⟨traced_step hs ⟨hcalls, fun x => ?_⟩, fun x hx => .of_push hpush hx⟩
      rcases hstep.1.trace x with hsame | hthrown
      · exact .inl hsame
      · exact .inr (.of_push hpush hthrown)
  module {s name path} hs _ _ _ _ := by
    have hopen : s.Retraces (s.entered name path) := .of_eq rfl rfl
    refine ⟨traced_brackets hs hopen (fun _ => .of_eq rfl rfl) fun _ => rfl, fun s' hstep => ?_⟩
    exact traced_step hs (hopen.trans (hstep.1.trans (.of_eq rfl rfl)))

end Discipline

/-! ## Calls for which there is no room -/

namespace Eval

variable {α : Type} {run : Runner} {scope : ScopeId} {s s' : Session}

/-- The outcome of a call that is refused in a session: a new recursion error whose trace is all
active calls. Nothing but that exception is new, so no statement has been run. -/
def Overruns (s : Session) (p : Except Halt α × Session) : Prop :=
  ∃ x, p.1 = .error (.thrown x) ∧ x.kind = "RecursionError" ∧
    p.2 = { s with store := { s.store with traces := s.store.traces.push s.callStack.frames } } ∧
    p.2.store.trace x = s.callStack.frames

theorem overruns_fail (s : Session) : Overruns s (outcome (fail .recursionLimit : Eval α) s) := by
  rw [outcome_fail_eq]
  refine ⟨_, rfl, rfl, ?_, ?_⟩
  -- the trace takes the place of the empty one that the exception was made with
  · have htraces : (s.store.traces.push []).setIfInBounds s.store.traces.size s.callStack.frames =
        s.store.traces.push s.callStack.frames := by
      simp [Array.setIfInBounds, Array.set_push]
    simp only [CallStack.report, CallStack.attach, Store.newException, Store.setTrace, htraces]
  · exact Store.trace_setTrace_self (by simp) _

theorem Overruns.of_eq_fail {p : Except Halt α × Session}
    (h : p = outcome (fail .recursionLimit) s) : Overruns s p :=
  h ▸ overruns_fail s

theorem outcome_inCall_full (hfull : s.callStack.limit ≤ s.callStack.depth) (function : String)
    (line : Nat) (x : Eval α) :
    outcome (inCall function line x) s = outcome (fail .recursionLimit) s := by
  rw [outcome_inCall, CallStack.push?, if_pos hfull]

/-- The class of a name, seen from a scope. -/
def classOf? (t : Store) (scope : ScopeId) (name : String) : Option Class :=
  match t.lookup? scope name with
  | some (.classObj c) => some c
  | _ => none

theorem outcome_lookupClass (scope : ScopeId) (name : String) (s : Session) :
    outcome (lookupClass scope name) s = (.ok (classOf? s.store scope name), s) := by
  rw [lookupClass, outcome_bind, outcome_lookup, classOf?]
  rcases s.store.lookup? scope name with _ | v
  · rfl
  · cases v <;> rfl

/-- The evaluation of an expression comes, in some session, to a call of the body of a function,
method or constructor: what stands before the call is done, and the body is there. -/
inductive ComesToCall (run : Runner) (scope : ScopeId) (s : Session) : Expr → Session → Prop where
  | function {p : Place} {callee : String} {args : List Expr} {f : Closure} {vs : List Value}
      {s' : Session} :
    Builtin.ofName? callee = none → s.store.lookup? scope callee = some (.function f) →
    outcome (exprs run scope args) s = (.ok vs, s') →
    ComesToCall run scope s (.call p callee args) s'
  | exported {p : Place} {receiver : Expr} {method : String} {args : List Expr} {m : Module}
      {f : Closure} {vs : List Value} {s₁ s' : Session} :
    outcome (expr run scope receiver) s = (.ok (.module m), s₁) →
    outcome (exprs run scope args) s₁ = (.ok vs, s') →
    s'.store.lookup? m.exports method = some (.function f) →
    ComesToCall run scope s (.methodCall p receiver method args) s'
  | method {p : Place} {receiver : Expr} {method : String} {args : List Expr} {o : Instance}
      {c : Class} {d : FunctionDecl} {vs : List Value} {s₁ s' : Session} :
    outcome (expr run scope receiver) s = (.ok (.object o), s₁) →
    outcome (exprs run scope args) s₁ = (.ok vs, s') →
    (classOf? s'.store scope o.className).or (classOf? s'.store Session.globals o.className) =
      some c →
    c.method? method = some d →
    ComesToCall run scope s (.methodCall p receiver method args) s'
  | constructor {p : Place} {className : String} {args : List Expr} {c : Class} {d : FunctionDecl}
      {vs : List Value} {s' : Session} :
    classOf? s.store scope className = some c → c.method? constructorName = some d →
    outcome (exprs run scope args) s = (.ok vs, s') →
    ComesToCall run scope s (.create p className args)
      { s' with store := (s'.store.newObject c.name c.parent c.fields).2 }
  | super {p : Place} {method : String} {args : List Expr} {o : Instance} {parent : String}
      {c : Class} {d : FunctionDecl} {vs : List Value} {s' : Session} :
    s.store.lookup? scope receiverName = some (.object o) → o.parent = some parent →
    classOf? s.store Session.globals parent = some c → c.method? method = some d →
    outcome (exprs run scope args) s = (.ok vs, s') →
    ComesToCall run scope s (.superCall p method args) s'

/-- Whatever runs bodies, it is not asked to: the call throws as soon as it is come to. -/
theorem ComesToCall.outcome_full {e : Expr} (h : ComesToCall run scope s e s')
    (hfull : s'.callStack.limit ≤ s'.callStack.depth) :
    outcome (expr run scope e) s = outcome (fail .recursionLimit) s' := by
  have hcall (f : Closure) (vs : List Value) (line : Nat) :
      outcome (callFunction run f vs line) s' = outcome (fail .recursionLimit) s' :=
    outcome_inCall_full hfull _ _ _
  have hmethod (receiver : Value) (d : FunctionDecl) (vs : List Value) (line : Nat) :
      outcome (callMethod run receiver d vs line scope) s' = outcome (fail .recursionLimit) s' :=
    outcome_inCall_full hfull _ _ _
  cases h with
  | function hbuiltin hf hargs =>
      simp only [expr, callNamed, hbuiltin, outcome_bind, outcome_lookup, hf, hargs, hcall]
  | exported hreceiver hargs hf =>
      simp only [expr, callOn, outcome_bind, hreceiver, hargs, outcome_lookup, hf, hcall]
  | @method p receiver method args o c d vs s₁ s' hreceiver hargs hc hd =>
      have hfound : (some c).bind (·.method? method) = some d := hd
      simp only [expr, callOn, outcome_bind, hreceiver, hargs, outcome_lookupClass]
      -- the class is the one that the caller sees or else a global one
      cases hnear : classOf? s'.store scope o.className with
      | some near =>
          rw [hnear, Option.some_or] at hc
          simp only [hc, outcome_bind, outcome_pure, hfound, hmethod]
      | none =>
          rw [hnear, Option.none_or] at hc
          simp only [hc, outcome_bind, outcome_lookupClass, hfound, hmethod]
  | constructor hc hd hargs =>
      simp only [expr, create, outcome_bind, outcome_lookupClass, hc, hargs]
      -- the instance is made before its constructor is called
      simp only [← outcome_bind, outcome_make_bind, hd, outcome_discard_bind]
      rw [outcome_bind, hmethod]
      rfl
  | @super p method args o parent c d vs s' ho hparent hc hd hargs =>
      have hfound : (some c).bind (·.method? method) = some d := hd
      simp only [expr, callSuper, outcome_bind, outcome_lookup, ho, hparent, outcome_lookupClass, hc,
        hfound, hargs, hmethod]

/-! ## Whole evaluations -/

/-- Between programs and calls from outside no call is active, and the limit is that of the
settings. -/
theorem turns_callStack {settings : Settings} {files : Files} {output : Output}
    (h : Relation.ReflTransGen (Session.Turn Set.univ) (.ofSettings settings files output) s) :
    s.Sound ∧ s.callStack = { limit := settings.maxStackDepth } := by
  have hlawful := Discipline.traced_lawful settings.maxStackDepth Set.univ
  have hpre : (Discipline.traced settings.maxStackDepth).Pre (some Session.globals)
      (.ofSettings settings files output) := ⟨rfl, Nat.zero_le _⟩
  obtain ⟨hready, hrel⟩ := hlawful.turns
    (fun _ _ _ hs => Discipline.traced_step hs (.of_eq rfl rfl))
    ⟨.ofSettings settings files output, Session.knows_univ _, hpre⟩ h
  exact ⟨hready.sound, hrel.callStack⟩

/-- In every session that is sound and within its limit, and so in all that new sessions lead to:
an evaluation is within the limit wherever a body begins, leaves the active calls as they were,
and gives an exception that it throws a trace of newer calls behind which exactly these calls
stand, no longer than the limit. A call of a function, method or constructor that is come to when
the limit is reached throws a recursion error with all active calls as its trace, whatever would
run its body. -/
theorem calls_bounded_and_traced :
    (∀ settings files output s,
      Relation.ReflTransGen (Session.Turn Set.univ) (.ofSettings settings files output) s →
      s.Sound ∧ s.callStack = { limit := settings.maxStackDepth }) ∧
    ∀ s : Session, s.Sound → s.callStack.depth ≤ s.callStack.limit →
      (∀ {α : Type} {o : Option ScopeId} {c : Runner → Eval α}, Evaluation Set.univ s o c →
        ∀ fuel : Nat,
        Throughout (fun _ _ s' => s'.Sound ∧ s'.callStack.limit = s.callStack.limit ∧
          s'.callStack.depth ≤ s.callStack.limit) fuel c s ∧
        (outcome (c (runBlock fuel)) s).2.callStack = s.callStack ∧
        ∀ x s', outcome (c (runBlock fuel)) s = (.error (.thrown x), s') →
          (∃ newer, s'.store.trace x = newer ++ s.callStack.frames) ∧
            (s'.store.trace x).length ≤ s.callStack.limit) ∧
      (s.callStack.depth = s.callStack.limit → ∀ run : Runner,
        (∀ f args line, Overruns s (outcome (callFunction run f args line) s)) ∧
        ∀ receiver d args line scope,
          Overruns s (outcome (callMethod run receiver d args line scope) s)) ∧
      ∀ run scope e s', ComesToCall run scope s e s' →
        s'.callStack.depth = s'.callStack.limit → Overruns s' (outcome (expr run scope e) s) := by
  refine ⟨fun _ _ _ _ h => turns_callStack h, fun s hs hdepth => ⟨?_, ?_, ?_⟩⟩
  · intro α o c hc fuel
    have hlawful := Discipline.traced_lawful s.callStack.limit Set.univ
    obtain ⟨⟨Q, hend⟩, hthroughout⟩ := hlawful.evaluation
      (fun _ _ s' => s'.Sound ∧ s'.callStack.limit = s.callStack.limit ∧
        s'.callStack.depth ≤ s.callStack.limit)
      (fun _ _ _ hready _ => ⟨hready.sound, hready.pre⟩)
      ⟨hs, s.knows_univ, rfl, hdepth⟩ hc fuel
    refine ⟨hthroughout, hend.rel.callStack, fun x s' hout => ?_⟩
    have hthrown := hend.result
    rw [hout] at hthrown
    obtain ⟨newer, htrace⟩ := hthrown.2.suffix
    exact ⟨⟨newer, htrace.symm⟩, hthrown.2.length_le⟩
  · intro hfull run
    constructor
    · exact fun f args line => .of_eq_fail (outcome_inCall_full hfull.ge _ _ _)
    · exact fun receiver d args line scope => .of_eq_fail (outcome_inCall_full hfull.ge _ _ _)
  · exact fun run scope e s' h hfull => .of_eq_fail (h.outcome_full hfull.ge)

/-- A function that calls itself until it is refused. Each call catches what comes and throws it
again, through a last part that throws and catches something else. -/
def rethrowing : Program :=
  ⟨[.define default ⟨"f", [],
    [.attempt default [.expr default (.call default "f" [])]
      (some ⟨none, some "e", [.raise default (.name default "e")]⟩)
      (some [.attempt default [.raise default (.text default "other")]
        (some ⟨none, none, []⟩) none])], 1⟩]⟩

/-- The exception that an evaluation ends with. -/
def thrown? : Except Halt α → Option Exception
  | .error (.thrown x) => some x
  | _ => none

theorem eq_of_thrown? {r : Except Halt α} {x : Exception} (h : thrown? r = some x) :
    r = .error (.thrown x) := by
  rcases r with (y | _) | a
  · cases h
    rfl
  · cases h
  · cases h

theorem rethrowing_traced :
    let frame (name : String) (line : Nat) : Frame := ⟨name, "<input>", line⟩
    let s : Session :=
      { ((rethrowing.run 9).run (.ofSettings {} (fun _ => .error .missing) {})).2 with
        callStack := ⟨3, [frame "outer" 7]⟩ }
    let full : Session := { s with callStack := ⟨1, [frame "outer" 7]⟩ }
    let call (run : Runner) := stmt run 9 Session.globals (.expr default (.call default "f" []))
    (∀ run, Overruns full (outcome (expr run Session.globals (.call default "f" [])) full)) ∧
    ∃ x s', outcome (call (runBlock 9)) s = (.error (.thrown x), s') ∧ x.kind = "RecursionError" ∧
      s'.store.trace x = [frame "f" 0] ++ [frame "outer" 7] ∧
      (s'.store.trace x).length ≤ 3 ∧ s'.callStack.frames = [frame "outer" 7] := by
  intro frame s full call
  have hsound : s.Sound := by
    have hreached : (Session.Reachable _) := .run rethrowing 9 (.new {} (fun _ => .error .missing) {})
    exact ⟨hreached.sound.store, hreached.sound.globals, hreached.sound.modules⟩
  have hcall : Evaluation Set.univ s (some Session.globals) call :=
    .stmt 9 (.expr default (.call default "f" [])) hsound.globals (by decide)
  have hthrown : (thrown? (outcome (call (runBlock 9)) s).1).map
      (fun x => (x.kind, (outcome (call (runBlock 9)) s).2.store.trace x)) =
      some ("RecursionError", [frame "f" 0, frame "outer" 7]) := by decide +kernel
  have hfull (run : Runner) : ComesToCall run Session.globals full (.call default "f" []) full :=
    .function (by decide) rfl rfl
  obtain ⟨-, h⟩ := calls_bounded_and_traced
  obtain ⟨heval, -⟩ := h s hsound (by decide)
  obtain ⟨-, -, hrefused⟩ := h full ⟨hsound.store, hsound.globals, hsound.modules⟩ (by decide)
  obtain ⟨-, hcalls, hlength⟩ := heval hcall 9
  refine ⟨fun run => hrefused run _ _ full (hfull run) (by decide), ?_⟩
  generalize outcome (call (runBlock 9)) s = p at hthrown hcalls hlength ⊢
  rcases p with ⟨r, s'⟩
  obtain ⟨x, hx, htrace⟩ := Option.map_eq_some_iff.mp hthrown
  obtain rfl := eq_of_thrown? hx
  obtain ⟨hkind, htrace⟩ := Prod.ext_iff.mp htrace
  exact ⟨x, s', rfl, hkind, htrace, (hlength x s' rfl).2, congrArg CallStack.frames hcalls⟩

end Eval

end ScriptLang
