import Mathlib
import ScriptLang.Proofs.Eval.Invariant
import ScriptLang.Proofs.Eval.Rebinding
import ScriptLang.Proofs.Eval.Traceback

/-!
# The class that a method call goes by

An instance does not hold its class. It has the name that the class was defined under, and a
call on it looks for a class of that name: from the scope of the call, or else among the
globals. So an instance has the methods of its class wherever and for as long as that name
means the class, and what names mean changes only where they are bound. Where the name means
no class, every call on the instance is null, though its class has the method; this comes
about when a class is defined in a function and its instance leaves the function.
-/

namespace ScriptLang

/-- The session after a call. -/
def Session.returned (s : Session) : Session := { s with callStack := s.callStack.pop }

namespace Eval

variable {run : Runner} {scope : ScopeId} {s s₁ s₂ : Session}

/-! ## The body of a method -/

/-- Parameters are bound in the scope of the call, and names that are no parameters stay. -/
theorem outcome_bindParams (i : ScopeId) : ∀ (ps : List String) (vs : List Value) (s : Session),
    ∃ t, outcome (bindParams i ps vs) s = (.ok (), { s with store := t }) ∧
      t.parent? i = s.store.parent? i ∧ ∀ x ∉ ps, s.store.KeepsName i x t := by
  have hstep (p : String) (ps : List String) (v : Value) (vs : List Value) (s : Session)
      (ih : ∀ s : Session, ∃ t, outcome (bindParams i ps vs) s = (.ok (), { s with store := t }) ∧
        t.parent? i = s.store.parent? i ∧ ∀ x ∉ ps, s.store.KeepsName i x t) :
      ∃ t, outcome (bindName i p v >>= fun _ => bindParams i ps vs) s =
          (.ok (), { s with store := t }) ∧
        t.parent? i = s.store.parent? i ∧ ∀ x ∉ p :: ps, s.store.KeepsName i x t := by
    obtain ⟨t, hout, hp, hkept⟩ := ih { s with store := s.store.set i p v }
    refine ⟨t, hout, hp.trans (Store.parent?_set _ i i p v), fun x hx => ?_⟩
    obtain ⟨hne, hrest⟩ := not_or.mp (mt List.mem_cons.mpr hx)
    exact .trans (.set hne v s.store) (hkept x hrest)
  intro ps
  induction ps with
  | nil => exact fun vs s => ⟨s.store, rfl, rfl, fun _ _ hi => ⟨hi, rfl⟩⟩
  | cons p ps ih =>
      intro vs s
      cases vs with
      | nil => exact hstep p ps .null [] s (ih [])
      | cons v vs => exact hstep p ps v vs s (ih vs)

/-- The body of a method is begun: in a new scope inside the caller's, with the instance as the
receiver and under a frame of its own. -/
structure EntersMethod (s : Session) (caller : ScopeId) (o : Instance) (d : FunctionDecl)
    (line : Nat) (i : ScopeId) (s' : Session) : Prop where
  fresh : i.index = s.store.scopes.size
  around : s'.store.parent? i = some caller
  receiver : s'.store.lookup? i receiverName = some (.object o)
  frames : s'.callStack.frames = ⟨d.name, s.file, line⟩ :: s.callStack.frames

/-- While the limit is not reached, a method is called by running its body. -/
theorem outcome_callMethod (hroom : s.callStack.depth < s.callStack.limit) {d : FunctionDecl}
    (hd : receiverName ∉ d.params) (o : Instance) (vs : List Value) (line : Nat) :
    ∃ i s', EntersMethod s scope o d line i s' ∧
      outcome (callMethod run (.object o) d vs line scope) s =
        (outcome (body run i d.body) s').map id Session.returned := by
  let i := (s.store.newScope (some scope)).1
  let t := (s.store.newScope (some scope)).2.set i receiverName (.object o)
  let frames := ⟨d.name, s.file, line⟩ :: s.callStack.frames
  have hpush : s.callStack.push? ⟨d.name, s.file, line⟩ = some { s.callStack with frames } :=
    if_neg (Nat.not_le.mpr hroom)
  have hi : t.HasScope i := by
    rw [Store.HasScope, Store.size_scopes_set]
    exact s.store.hasScope_newScope _
  have hthis : t.local? i receiverName = some (.object o) := by
    rw [Store.local?, Store.bindings_set_self (s.store.hasScope_newScope _),
      Bindings.get?_set_self]
  obtain ⟨t', hparams, hparent, hkept⟩ :=
    outcome_bindParams i d.params vs { s with store := t, callStack.frames := frames }
  -- the parameters are bound after the receiver, and none of them has its name
  refine ⟨i, { s with store := t', callStack.frames := frames }, ⟨rfl, ?_, ?_, rfl⟩, ?_⟩
  · rw [hparent, Store.parent?_set, Store.parent?_newScope]
    exact if_pos rfl
  · rw [Store.lookup?, Store.lookupWithin, (hkept receiverName hd hi).2, hthis]
  · have hbody : outcome (bindParams i d.params vs >>= fun _ => body run i d.body)
        { s with store := t, callStack.frames := frames } =
          outcome (body run i d.body) { s with store := t', callStack.frames := frames } := by
      rw [outcome_bind, hparams]
    rw [callMethod, outcome_inCall, hpush]
    exact congrArg (Prod.map id Session.returned) hbody

/-! ## The method that is called -/

/-- The class that calls on instances with this class name go by: the one that the caller sees
under the name, or else a global one. -/
def classNamed? (t : Store) (scope : ScopeId) (name : String) : Option Class :=
  (classOf? t scope name).or (classOf? t Session.globals name)

/-- A call on an instance finds the method of the class that the name means by then. -/
theorem outcome_methodCall {p : Place} {receiver : Expr} {method : String} {args : List Expr}
    {o : Instance} {vs : List Value}
    (hreceiver : outcome (expr run scope receiver) s = (.ok (.object o), s₁))
    (hargs : outcome (exprs run scope args) s₁ = (.ok vs, s₂)) :
    outcome (expr run scope (.methodCall p receiver method args)) s =
      ((classNamed? s₂.store scope o.className).bind (·.method? method)).elim (.ok .null, s₂)
        fun d => outcome (callMethod run (.object o) d vs p.line scope) s₂ := by
  simp only [expr, callOn, outcome_bind, hreceiver, hargs, outcome_lookupClass, classNamed?]
  -- the class is the one that the caller sees or else a global one
  cases hnear : classOf? s₂.store scope o.className with
  | some near =>
      simp only [outcome_bind, outcome_pure, Option.some_or, Option.bind_some]
      cases near.method? method <;> rfl
  | none =>
      simp only [outcome_bind, outcome_lookupClass, Option.none_or]
      cases (classOf? s₂.store Session.globals o.className).bind (·.method? method) <;> rfl

/-- What `new` gives is null, or an instance with the own name of the class. -/
theorem create_ok {p : Place} {name : String} {args : List Expr} {v : Value}
    (h : outcome (expr run scope (.create p name args)) s = (.ok v, s₁)) :
    (classOf? s.store scope name).elim (v = .null)
      fun c => ∃ o : Instance, v = .object o ∧ o.className = c.name := by
  rw [expr, create, outcome_bind, outcome_lookupClass] at h
  cases hc : classOf? s.store scope name with
  | none =>
      rw [hc] at h
      cases h
      rfl
  | some c =>
      rw [hc] at h
      obtain ⟨vs, s₂, -, hmade⟩ := bind_ok h
      rw [outcome_make_bind] at hmade
      cases hd : c.method? constructorName with
      | none =>
          rw [hd] at hmade
          cases hmade
          exact ⟨_, rfl, rfl⟩
      | some d =>
          rw [hd] at hmade
          -- what the constructor gives back is dropped
          obtain ⟨_, s₃, -, hvalue⟩ := bind_ok hmade
          cases hvalue
          exact ⟨_, rfl, rfl⟩

/-- Calls on instances with this class name go by the class that they went by, from every scope
that there was. A global class is what they go by from new scopes too, unless these see another
class under the name. -/
structure SameClass (name : String) (t t' : Store) : Prop where
  seen : ∀ i, t.HasScope i → classNamed? t' i name = classNamed? t i name
  throughout : ∀ c, classOf? t Session.globals name = some c →
    ∀ i, (∀ c' ∈ classOf? t' i name, c' = c) → classNamed? t' i name = some c

theorem SameClass.of_sameMeaning {name : String} {t t' : Store} (h : t.SameMeaning name t')
    (hglobals : t.HasScope Session.globals) : SameClass name t t' := by
  have hclass (i : ScopeId) (hi : t.HasScope i) : classOf? t' i name = classOf? t i name := by
    rw [classOf?, (h i hi).2, classOf?]
  refine ⟨fun i hi => ?_, fun c hc i hi => ?_⟩
  · rw [classNamed?, hclass i hi, hclass _ hglobals, classNamed?]
  · rw [classNamed?, hclass _ hglobals, hc]
    cases hnear : classOf? t' i name with
    | none => rfl
    | some near => rw [hi near hnear, Option.some_or]

/-- An instance has the name of its class, and calls on it go by that name: by the class that the
name means, by then and from the scope of the call or else among the globals, they invoke the
method with the instance as the receiver, and without a method they are null. Expressions and calls
leave it to mean what it means all along, and statements and programs do so at their end if they do
not bind the name. -/
theorem instances_go_by_class_name :
    (∀ (run : Runner) (scope : ScopeId) (s s' : Session) (p : Place) (name : String)
        (args : List Expr) (v : Value),
      outcome (expr run scope (.create p name args)) s = (.ok v, s') →
      (classOf? s.store scope name).elim (v = .null)
        fun c => ∃ o : Instance, v = .object o ∧ o.className = c.name) ∧
    (∀ (run : Runner) (scope : ScopeId) (s s₁ s₂ : Session) (p : Place) (receiver : Expr)
        (method : String) (args : List Expr) (o : Instance) (vs : List Value),
      outcome (expr run scope receiver) s = (.ok (.object o), s₁) →
      outcome (exprs run scope args) s₁ = (.ok vs, s₂) →
      let found := (classNamed? s₂.store scope o.className).bind (·.method? method)
      let call := outcome (expr run scope (.methodCall p receiver method args)) s
      (found = none → call = (.ok .null, s₂)) ∧
      ∀ d, found = some d → s₂.callStack.depth < s₂.callStack.limit → receiverName ∉ d.params →
        ∃ i s₃, EntersMethod s₂ scope o d p.line i s₃ ∧
          call = (outcome (body run i d.body) s₃).map id Session.returned) ∧
    ∀ s : Session, s.Sound →
      (∀ {α : Type} {c : Runner → Eval α}, Evaluation Set.univ s none c → ∀ fuel,
        Throughout (fun _ _ s' => ∀ name, SameClass name s.store s'.store) fuel c s ∧
        ∀ name, SameClass name s.store (outcome (c (runBlock fuel)) s).2.store) ∧
      (∀ (scope : ScopeId) (st : Stmt) (name : String), s.store.HasScope scope →
        name ∉ st.bound → ∀ rounds fuel,
        SameClass name s.store (outcome (stmt (runBlock fuel) rounds scope st) s).2.store) ∧
      ∀ (name : String) (s' : Session), Relation.ReflTransGen (Session.SparingTurn name) s s' →
        SameClass name s.store s'.store := by
  refine ⟨fun _ _ _ _ _ _ _ _ => create_ok, ?_, fun s hs => ⟨?_, ?_, ?_⟩⟩
  · intro run scope s s₁ s₂ p receiver method args o vs hreceiver hargs found call
    have hcall : call = found.elim (.ok .null, s₂)
        fun d => outcome (callMethod run (.object o) d vs p.line scope) s₂ :=
      outcome_methodCall hreceiver hargs
    refine ⟨fun hnone => ?_, fun d hfound hroom hd => ?_⟩
    · rw [hcall, hnone, Option.elim_none]
    · rw [hcall, hfound, Option.elim_some]
      exact outcome_callMethod hroom hd o vs p.line
  · intro α c hc fuel
    exact meaning_expr hs (fun s' => ∀ name, SameClass name s.store s'.store)
      (fun _ _ hmeaning name => .of_sameMeaning (hmeaning name) hs.globals) hc fuel
  · intro scope st name hi hnot rounds fuel
    exact .of_sameMeaning (meaning_stmt hs hi hnot rounds fuel) hs.globals
  · intro name s' hturns
    exact .of_sameMeaning (meaning_turns hs hturns).2 hs.globals

/-- A class with a method that gives a text. -/
def speaking : ClassDecl :=
  ⟨"C", none, [], [⟨"m", [], [.giveBack default (some (.text default "spoken"))], 1⟩]⟩

/-- The class is global, and so is an instance of it. -/
def speaker : Program :=
  ⟨[.defineClass default speaking, .bind default "i" (.create default "C" [])]⟩

/-- A later program with other definitions. -/
def asking : Program :=
  ⟨[.define default ⟨"ask", ["x"],
    [.giveBack default (some (.methodCall default (.name default "x") "m" []))], 1⟩]⟩

def speak : Expr := .methodCall default (.name default "i") "m" []

/-- The global instance `i`, with its class by name and the method of that. -/
def speakerOf? (s : Session) : Option (Instance × Class × FunctionDecl) := do
  let .object o ← s.store.lookup? Session.globals "i" | none
  let c ← classNamed? s.store Session.globals o.className
  let d ← c.method? "m"
  return (o, c, d)

theorem eq_of_speakerOf? {s : Session} {o : Instance} {c : Class} {d : FunctionDecl}
    (h : speakerOf? s = some (o, c, d)) :
    s.store.lookup? Session.globals "i" = some (.object o) ∧
      classNamed? s.store Session.globals o.className = some c ∧ c.method? "m" = some d := by
  rw [speakerOf?] at h
  obtain ⟨v, hv, h⟩ := Option.bind_eq_some_iff.mp h
  cases v with
  | object o' =>
      obtain ⟨c', hc, h⟩ := Option.bind_eq_some_iff.mp h
      obtain ⟨d', hd, h⟩ := Option.bind_eq_some_iff.mp h
      cases h
      exact ⟨hv, hc, hd⟩
  | _ => cases h

theorem speaker_keeps_methods :
    let s := ((speaker.run 9).run (.ofSettings {} (fun _ => .error .missing) {})).2
    let later := ((asking.run 9).run s).2
    let assign := stmt (runBlock 9) 9 Session.globals (.assign default "x" speak)
    (∃ o s', outcome (expr (runBlock 9) Session.globals (.create default "C" [])) s =
      (.ok (.object o), s') ∧ o.className = "C") ∧
    SameClass "C" s.store later.store ∧
    SameClass "C" s.store (outcome (expr (runBlock 9) Session.globals speak) s).2.store ∧
    SameClass "C" s.store (outcome assign s).2.store ∧
    ∃ o c d i s₃, later.store.lookup? Session.globals "i" = some (.object o) ∧
      classNamed? later.store Session.globals o.className = some c ∧ c.method? "m" = some d ∧
      EntersMethod later Session.globals o d 0 i s₃ ∧
      outcome (expr (runBlock 9) Session.globals speak) later =
        (outcome (body (runBlock 9) i d.body) s₃).map id Session.returned := by
  intro s later assign
  have hs : s.Sound := by
    have hreached : (Session.Reachable _) := .run speaker 9 (.new {} (fun _ => .error .missing) {})
    exact hreached.sound
  obtain ⟨hcreate, hcall, hkept⟩ := instances_go_by_class_name
  obtain ⟨hexpr, hstmt, hturns⟩ := hkept s hs
  have hclass : (classOf? s.store Session.globals "C").map (·.name) = some "C" := by
    decide +kernel
  have hmade : (outcome (expr (runBlock 9) Session.globals (.create default "C" [])) s).1.isOk =
      true := by decide +kernel
  have hfound : (speakerOf? later).map (·.2.2.params) = some [] := by decide +kernel
  have hroom : later.callStack.depth < later.callStack.limit := by decide +kernel
  have hlater : s.SparingTurn "C" later := .run asking 9 (by decide)
  refine ⟨?_, hturns "C" later (.single hlater), (hexpr (.expr speak hs.globals) 9).2 "C",
    hstmt Session.globals (.assign default "x" speak) "C" hs.globals (by decide) 9 9, ?_⟩
  · obtain ⟨c, hc, hname⟩ := Option.map_eq_some_iff.mp hclass
    rcases hout : outcome (expr (runBlock 9) Session.globals (.create default "C" [])) s with
      ⟨_ | v, s'⟩
    · rw [hout] at hmade
      cases hmade
    · have hvalue := hcreate (runBlock 9) Session.globals s s' default "C" [] v hout
      rw [hc, Option.elim_some] at hvalue
      obtain ⟨o, rfl, ho⟩ := hvalue
      exact ⟨o, s', rfl, ho.trans hname⟩
  · obtain ⟨⟨o, c, d⟩, hspeaker, hparams⟩ := Option.map_eq_some_iff.mp hfound
    obtain ⟨ho, hc, hd⟩ := eq_of_speakerOf? hspeaker
    obtain ⟨-, hinvoked⟩ := hcall (runBlock 9) Session.globals later later later default
      (.name default "i") "m" [] o [] (by rw [expr, outcome_bind, outcome_lookup, ho]; rfl) rfl
    obtain ⟨i, s₃, henters, hout⟩ := hinvoked d (by rw [hc]; exact hd) hroom
      (by rw [show d.params = [] from hparams]; exact List.not_mem_nil)
    exact ⟨o, c, d, i, s₃, ho, hc, hd, henters, hout⟩

/-- A function has the class, and gives an instance that becomes global. -/
def leavingSpeaker : Program :=
  ⟨[.define default ⟨"make", [],
      [.defineClass default speaking, .giveBack default (some (.create default "C" []))], 1⟩,
    .bind default "i" (.call default "make" [])]⟩

/-- The instance leaves the function, and its class stays behind: from the scope of the call that
made it the class has the method and is found, and from the global scope the call on the instance
is null. -/
theorem leaving_instance_loses_methods :
    let s := ((leavingSpeaker.run 9).run (.ofSettings {} (fun _ => .error .missing) {})).2
    let call (scope : ScopeId) := (outcome (expr (runBlock 9) scope speak) s).1.toOption
    ((classOf? s.store ⟨1⟩ "C").bind (·.method? "m")).isSome ∧
      (call ⟨1⟩).map Value.text? = some (some "spoken") ∧
      (call Session.globals).map Value.isNull = some true := by
  decide +kernel

end Eval

end ScriptLang
