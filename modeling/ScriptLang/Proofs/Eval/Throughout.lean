import Mathlib
import ScriptLang.Proofs.Eval.Discipline

/-!
# What holds all along an evaluation

The session of an evaluation is looked at wherever the body of a function, method,
constructor or module is begun: calls and imports are all that changes the active calls
and the modules in progress, and each begins a body at once. To say that a property
holds there, evaluation is given an alarm that goes off where a body is begun without
it. The property holds throughout if no alarm, whatever it does, makes a difference.
A lawful discipline is also kept from one program or call to the next.
-/

namespace ScriptLang

namespace Eval

variable {α ι : Type}

open Classical in
/-- Runs a body if the session has a property, and the alarm otherwise. -/
noncomputable def guarded (ok : ScopeId → List Stmt → Session → Prop) (alarm run : Runner) :
    Runner :=
  fun scope stmts => do
    if ok scope stmts (← get) then run scope stmts else alarm scope stmts

/-- Runs statements as `runBlock` does, with a guard where a body is begun, at any depth. -/
noncomputable def alarmed (ok : ScopeId → List Stmt → Session → Prop) (alarm : Runner) :
    Nat → Runner
  | 0 => guarded ok alarm fun _ _ => throw .exhausted
  | fuel + 1 =>
    guarded ok alarm fun scope stmts => block (alarmed ok alarm fuel) fuel scope .null stmts

/-- All bodies that an evaluation begins, in it and in what it calls and imports, are begun in a
session with the property. -/
def Throughout (ok : ScopeId → List Stmt → Session → Prop) (fuel : Nat) (c : Runner → Eval α)
    (s : Session) : Prop :=
  ∀ alarm, outcome (c (alarmed ok alarm fuel)) s = outcome (c (runBlock fuel)) s

theorem outcome_guarded {ok : ScopeId → List Stmt → Session → Prop} {alarm run : Runner}
    {scope : ScopeId} {ss : List Stmt} {s : Session} (h : ok scope ss s) :
    outcome (guarded ok alarm run scope ss) s = outcome (run scope ss) s := by
  unfold guarded
  rw [outcome_get_bind, if_pos h]

theorem outcome_alarmed_zero {ok : ScopeId → List Stmt → Session → Prop} {alarm : Runner}
    {scope : ScopeId} {ss : List Stmt} {s : Session} (h : ok scope ss s) :
    outcome (alarmed ok alarm 0 scope ss) s = (.error .exhausted, s) :=
  (outcome_guarded h).trans rfl

theorem outcome_alarmed_succ {ok : ScopeId → List Stmt → Session → Prop} {alarm : Runner}
    {fuel : Nat} {scope : ScopeId} {ss : List Stmt} {s : Session} (h : ok scope ss s) :
    outcome (alarmed ok alarm (fuel + 1) scope ss) s =
      outcome (block (alarmed ok alarm fuel) fuel scope .null ss) s :=
  outcome_guarded h

/-- An alarm that goes off is heard: the property holds where the first body is begun. -/
theorem Throughout.holds {ok : ScopeId → List Stmt → Session → Prop} {fuel : Nat} {scope : ScopeId}
    {ss : List Stmt} {s : Session} (h : Throughout ok fuel (fun run => run scope ss) s) :
    ok scope ss s := by
  by_contra hnot
  have halarm (alarm : Runner) :
      outcome (alarmed ok alarm fuel scope ss) s = outcome (alarm scope ss) s := by
    cases fuel with
    | zero => rw [alarmed, guarded, outcome_get_bind, if_neg hnot]
    | succ fuel => rw [alarmed, guarded, outcome_get_bind, if_neg hnot]
  -- two alarms that do different things would both do what the body does
  have hstops := (halarm _).symm.trans (h fun _ _ => throw .exhausted)
  have hgoes := (halarm _).symm.trans (h fun _ _ => return .next .null)
  cases hstops.trans hgoes.symm

/-! ## Evaluations -/

/-- The evaluations that can be begun in a session, with the scope that they bind names in:
expressions, statements, programs, and calls from outside. Their code imports none but known
modules. -/
inductive Evaluation (names : Set String) (s : Session) :
    Option ScopeId → ∀ {α : Type}, (Runner → Eval α) → Prop where
  | expr {scope : ScopeId} (e : Expr) : s.store.HasScope scope →
    Evaluation names s none fun run => Eval.expr run scope e
  | stmt (rounds : Nat) {scope : ScopeId} (st : Stmt) : s.store.HasScope scope →
    (∀ n ∈ st.imports, n ∈ names) →
    Evaluation names s (some scope) fun run => Eval.stmt run rounds scope st
  | program (p : Program) : ImportsOnly names p.stmts →
    Evaluation names s (some Session.globals) fun run => body run Session.globals p.stmts
  | call (f : Closure) (args : List Value) (line : Nat) : (Value.function f).Known names s.store →
    (∀ v ∈ args, v.Known names s.store) →
    Evaluation names s none fun run => callFunction run f args line

theorem ValueRules.evaluation {names : Set String}
    {Good : Option ScopeId → Store → ∀ {α : Type}, (Store → α → Prop) → (ι → Eval α) → Prop}
    (h : ValueRules names Good) {run : ι → Runner}
    (hrun : ∀ t i ss, t.HasScope i → ImportsOnly names ss →
      Good (some i) t (Completion.Known names) fun j => run j i ss)
    {s : Session} (hs : s.Sound) {o : Option ScopeId} {c : Runner → Eval α}
    (hc : Evaluation names s o c) : ∃ Q, Good o s.store Q fun j => c (run j) := by
  cases hc with
  | expr e hi => exact ⟨_, h.expr hrun hi e⟩
  | stmt rounds st hi hst => exact ⟨_, h.stmt hrun rounds hi st hst⟩
  | program p hp => exact ⟨_, h.body hrun hs.globals hp⟩
  | call f args line hf hargs => exact ⟨_, h.callFunction hrun hf hargs line⟩

/-- The two ways to run bodies that are compared. -/
noncomputable def runs (ok : ScopeId → List Stmt → Session → Prop) (alarm : Runner) (fuel : Nat) :
    Bool → Runner
  | true => runBlock fuel
  | false => alarmed ok alarm fuel

end Eval

namespace Discipline.Lawful

open Eval

variable {D : Discipline} {names : Set String} (h : D.Lawful names)
  (ok : ScopeId → List Stmt → Session → Prop)
  (hok : ∀ i ss s, D.Ready names (some i) s → ImportsOnly names ss → ok i ss s)

include h hok

/-- If the property follows from the discipline, the alarm makes no difference to a body. -/
theorem runs (alarm : Runner) : ∀ (fuel : Nat) (t : Store) (i : ScopeId) (ss : List Stmt),
    t.HasScope i → ImportsOnly names ss →
    D.Keeps names (some i) t (Completion.Known names) fun j => Eval.runs ok alarm fuel j i ss := by
  intro fuel
  induction fuel with
  | zero =>
      intro t i ss _ hss s hs _
      refine ⟨(.error .exhausted, s), ⟨hs, .refl _, h.refl hs.pre, trivial⟩, ?_⟩
      rintro (_ | _)
      · exact outcome_alarmed_zero (hok i ss s hs hss)
      · rfl
  | succ fuel ih =>
      intro t i ss hi hss s hs ht
      obtain ⟨p, hp, hall⟩ := h.rules.block ih fuel hi Value.known_null ss hss s hs ht
      refine ⟨p, hp, ?_⟩
      rintro (_ | _)
      · exact (outcome_alarmed_succ (hok i ss s hs hss)).trans (hall false)
      · exact hall true

/-- Every evaluation follows the discipline to its end, and all bodies that it begins are begun
with the property. -/
theorem evaluation {α : Type} {s : Session} {o : Option ScopeId} (hs : D.Ready names o s)
    {c : Runner → Eval α} (hc : Evaluation names s o c) (fuel : Nat) :
    (∃ Q, D.Ends names o Q s (outcome (c (runBlock fuel)) s)) ∧ Throughout ok fuel c s := by
  have hkeeps (alarm : Runner) := h.rules.evaluation (h.runs ok hok alarm fuel) hs.sound hc
  constructor
  · obtain ⟨Q, hQ⟩ := hkeeps (runBlock fuel)
    obtain ⟨p, hp, hall⟩ := hQ s hs (.refl _)
    exact ⟨Q, (hall true).symm ▸ hp⟩
  · intro alarm
    obtain ⟨Q, hQ⟩ := hkeeps alarm
    obtain ⟨p, -, hall⟩ := hQ s hs (.refl _)
    exact (hall false).trans (hall true).symm

end Discipline.Lawful

/-! ## From evaluation to evaluation -/

/-- What can happen to a session from outside: a program runs, a function is called with values
of the session, or the running file gets another name and the files change. No code and no file
imports any but known modules. -/
inductive Session.Turn (names : Set String) (s : Session) : Session → Prop where
  | run (p : Program) (fuel : Nat) : ImportsOnly names p.stmts →
    Turn names s ((p.run fuel).run s).2
  | call (f : Closure) (args : List Value) (line fuel : Nat) :
    (Value.function f).Known names s.store → (∀ v ∈ args, v.Known names s.store) →
    Turn names s ((f.call args line fuel).run s).2
  | outside (file : String) (files : Files) : files.Know names →
    Turn names s { s with file, files }

namespace Discipline.Lawful

open Eval

variable {D : Discipline} {names : Set String} {s s' : Session}

theorem ends (h : D.Lawful names) {α : Type} {o : Option ScopeId} (hs : D.Ready names o s)
    {c : Runner → Eval α} (hc : Evaluation names s o c) (fuel : Nat) :
    ∃ Q, D.Ends names o Q s (outcome (c (runBlock fuel)) s) :=
  (h.evaluation (fun _ _ _ => True) (fun _ _ _ _ _ => trivial) hs hc fuel).1

/-- A body that is begun ends well. -/
theorem body_ends (h : D.Lawful names) {i : ScopeId} {ss : List Stmt}
    (hs : D.Ready names (some i) s) (hi : s.store.HasScope i) (hss : ImportsOnly names ss)
    (fuel : Nat) :
    D.Ends names (some i) (Completion.Known names) s (outcome (runBlock fuel i ss) s) := by
  obtain ⟨p, hp, hall⟩ := h.runs (fun _ _ _ => True) (fun _ _ _ _ _ => trivial) (runBlock fuel) fuel
    s.store i ss hi hss s hs (.refl _)
  exact hall true ▸ hp

section Turns

variable (h : D.Lawful names)
  (outside : ∀ (s : Session) (file : String) (files : Files), D.Pre (some Session.globals) s →
    D.Step (some Session.globals) s { s with file, files })

include h outside

theorem turn (hs : D.Ready names (some Session.globals) s) (ht : s.Turn names s') :
    D.Ready names (some Session.globals) s' ∧ D.Rel (some Session.globals) s s' := by
  cases ht with
  | run p fuel hp =>
      obtain ⟨Q, hend⟩ := h.ends hs (.program p hp) fuel
      exact ⟨hend.ready, hend.rel⟩
  | call f args line fuel hf hargs =>
      obtain ⟨Q, hend⟩ := h.ends ⟨hs.sound, hs.knows, h.narrow hs.pre⟩ (.call f args line hf hargs)
        fuel
      -- a call binds no global name, and may as well be something that does
      obtain ⟨hrel, hpre⟩ := h.widen hs.pre ⟨hend.rel, hend.ready.pre⟩
      exact ⟨⟨hend.ready.sound, hend.ready.knows, hpre⟩, hrel⟩
  | outside file files hfiles =>
      obtain ⟨hrel, hpre⟩ := outside s file files hs.pre
      exact ⟨⟨⟨hs.sound.store, hs.sound.globals, hs.sound.modules⟩, ⟨hs.knows.store, hfiles⟩, hpre⟩,
        hrel⟩

theorem turns (hs : D.Ready names (some Session.globals) s)
    (ht : Relation.ReflTransGen (Session.Turn names) s s') :
    D.Ready names (some Session.globals) s' ∧ D.Rel (some Session.globals) s s' := by
  induction ht with
  | refl => exact ⟨hs, h.refl hs.pre⟩
  | tail _ hturn ih =>
      obtain ⟨hready, hrel⟩ := h.turn outside ih.1 hturn
      exact ⟨hready, h.trans ih.2 hrel⟩

end Turns

end Discipline.Lawful

end ScriptLang
