import Mathlib
import ScriptLang.Proofs.Eval.Bookkeeping
import ScriptLang.Proofs.Eval.Outcome
import ScriptLang.Proofs.Eval.ValueRules

/-!
# What evaluation keeps

A session is sound if its store is and the global scope and those of all loaded
modules are in the store. Evaluation keeps it so. A discipline says what else is to
hold of sessions while evaluation goes on, how an evaluation may change them, and what
is known of an exception that it throws. It is lawful if the few steps that evaluation
is made of follow it; then every evaluation does (`Discipline.Lawful.rules`).
-/

namespace ScriptLang

structure Session.Sound (s : Session) : Prop where
  store : s.store.Sound
  globals : s.store.HasScope Session.globals
  modules : ∀ e ∈ s.loader.modules, s.store.HasScope e.2.exports

namespace Session.Sound

variable {s : Session}

/-- What a store operation leaves is sound if the store is. -/
theorem withStore (hs : s.Sound) {t : Store} (ht : t.Sound) (hg : s.store.Grows t) :
    ({ s with store := t } : Session).Sound :=
  ⟨ht, hs.globals.mono hg, fun e he => (hs.modules e he).mono hg⟩

theorem ofSettings (settings : Settings) (files : Files) (output : Output) :
    (Session.ofSettings settings files output).Sound := by
  refine ⟨?_, ?_, ?_⟩
  · refine Store.Sound.newScope .empty ?_
    intro p hp
    cases hp
  · exact Nat.zero_lt_one
  · intro e he
    cases he

end Session.Sound

/-- All code in the store and in the files imports none but these modules. -/
structure Session.Knows (names : Set String) (s : Session) : Prop where
  store : s.store.Knows names
  files : s.files.Know names

theorem Session.knows_univ (s : Session) : s.Knows Set.univ :=
  ⟨s.store.knows_univ, fun _ _ _ _ _ _ _ => Set.mem_univ _⟩

/-- The sessions differ at most in what was printed, in warnings, and in instances and the
number of functions and classes. -/
structure Session.Apart (s s' : Session) : Prop where
  callStack : s'.callStack = s.callStack
  file : s'.file = s.file
  loader : s'.loader = s.loader
  files : s'.files = s.files
  scopes : s'.store.scopes = s.store.scopes
  traces : s'.store.traces = s.store.traces

/-! ## Imports -/

/-- A session in which the top level of a module is about to run. -/
def Session.entered (s : Session) (name path : String) : Session :=
  { s with
    loader := { s.loader with loading := s.loader.loading ++ [name] }
    store := (s.store.newScope none).2
    file := path }

/-- The session behind the top level of a module, for the file that imports it. -/
def Session.left (s : Session) (name file : String) : Session :=
  { s with file, loader := s.loader.leave name }

/-- The session in which the module is kept. -/
def Session.kept (s : Session) (name : String) (exports : ScopeId) : Session :=
  { s with loader := (s.loader.finish name exports).2 }

/-- What an import comes to, from what the top level of the module came to. -/
def Session.imported (s : Session) (name : String) :
    Except Halt Completion × Session → Except Halt Module × Session
  | (.ok _, s') =>
    (.ok ⟨name, (s.store.newScope none).1⟩,
      (s'.left name s.file).kept name (s.store.newScope none).1)
  | (.error h, s') => (.error h, s'.left name s.file)

namespace Eval

variable {s : Session} {name : String} (run : Runner)

theorem outcome_loadModule_kept {m : Module} (hm : s.loader.modules.get? name = some m) :
    outcome (loadModule run name) s = (.ok m, s) := by
  rw [loadModule, outcome_get_bind, hm]
  rfl

theorem outcome_loadModule_refused {e : LoadError} (hm : s.loader.modules.get? name = none)
    (henter : s.loader.enter s.files name s.baseDir = .error e) :
    outcome (loadModule run name) s = outcome (fail (.importFailed e.message)) s := by
  rw [loadModule, outcome_get_bind, hm]
  dsimp only
  rw [henter]

/-- The top level of a module runs in a scope of its own, while the module is noted as in
progress. -/
theorem outcome_loadModule_entered {source : ModuleSource} {loader : Loader}
    (hm : s.loader.modules.get? name = none)
    (henter : s.loader.enter s.files name s.baseDir = .ok (source, loader)) :
    outcome (loadModule run name) s = s.imported name
      (outcome (run (s.store.newScope none).1 source.program.stmts)
        (s.entered name source.path)) := by
  obtain ⟨-, rfl⟩ := Loader.enter_ok henter
  rw [loadModule, outcome_get_bind, hm]
  dsimp only
  rw [henter]
  dsimp only
  rw [outcome_modify_bind, outcome_make_bind, outcome_discard_bind, outcome_after, outcome_inFile]
  change _ = s.imported name (outcome (run _ _) { s with loader := _, store := _, file := _ })
  rcases outcome (run _ _) _ with ⟨_ | _, s'⟩ <;> rfl

end Eval

/-! ## Disciplines -/

/-- What a session is to be like while names are bound in one scope at most, how an evaluation
that binds names there may change it, and what is known of an exception that is thrown on the
way. -/
structure Discipline where
  Pre : Option ScopeId → Session → Prop
  Rel : Option ScopeId → Session → Session → Prop
  Thrown : Session → Session → Exception → Prop

namespace Discipline

/-- A change that is allowed, to a session as it should be. -/
def Step (D : Discipline) (o : Option ScopeId) (s s' : Session) : Prop := D.Rel o s s' ∧ D.Pre o s'

/-- A part of an evaluation that runs in a session made for it, which is undone by `close`. -/
def Brackets (D : Discipline) (s : Session) (o : Option ScopeId) (s₁ : Session)
    (close : Session → Session) : Prop :=
  D.Pre o s₁ ∧ ∀ s', D.Step o s₁ s' →
    D.Step none s (close s') ∧ ∀ x, D.Thrown s₁ s' x → D.Thrown s (close s') x

/-- The steps of evaluation follow the discipline. -/
structure Lawful (D : Discipline) (names : Set String) : Prop where
  refl {o : Option ScopeId} {s : Session} : D.Pre o s → D.Rel o s s
  trans {o : Option ScopeId} {s s' s'' : Session} : D.Rel o s s' → D.Rel o s' s'' → D.Rel o s s''
  narrow {i : ScopeId} {s : Session} : D.Pre (some i) s → D.Pre none s
  widen {i : ScopeId} {s s' : Session} :
    D.Pre (some i) s → D.Step none s s' → D.Step (some i) s s'
  thrown_trans {o : Option ScopeId} {s s' s'' : Session} {x : Exception} :
    D.Rel o s s' → D.Thrown s' s'' x → D.Thrown s s'' x
  thrown_kept {o : Option ScopeId} {s s' s'' : Session} {x : Exception} :
    D.Rel o s s' → D.Thrown s s' x → D.Rel o s' s'' → D.Thrown s s'' x
  apart {s s' : Session} : D.Pre none s → s.Apart s' → D.Step none s s'
  set {i : ScopeId} {s : Session} (name : String) (v : Value) :
    D.Pre (some i) s → D.Step (some i) s { s with store := s.store.set i name v }
  raise {s : Session} {x : Exception} :
    D.Pre none s → (Value.exception x).Valid s.store →
    let s' := { s with store := s.callStack.attach x s.store }
    D.Step none s s' ∧ D.Thrown s s' x
  report {s : Session} (fault : Fault) :
    D.Pre none s →
    let s' := { s with store := (s.callStack.report fault s.store).2 }
    D.Step none s s' ∧ D.Thrown s s' (s.callStack.report fault s.store).1
  scope {s : Session} (parent : Option ScopeId) :
    D.Pre none s →
    D.Brackets s (some (s.store.newScope parent).1)
      { s with store := (s.store.newScope parent).2 } id
  call {s : Session} {callStack : CallStack} {frame : Frame} :
    D.Pre none s → frame.file = s.file → s.callStack.push? frame = some callStack →
    D.Brackets s none { s with callStack } fun s' => { s' with callStack := s'.callStack.pop }
  module {s : Session} {name path : String} :
    D.Pre none s → name ∈ names → s.loader.modules.get? name = none → name ∉ s.loader.loading →
    s.loader.resolve s.files name s.baseDir = .ok path →
    let i := (s.store.newScope none).1
    D.Brackets s (some i) (s.entered name path) (fun s' => s'.left name s.file) ∧
      ∀ s', D.Step (some i) (s.entered name path) s' →
        D.Step none s ((s'.left name s.file).kept name i)

variable (D : Discipline) (names : Set String) {ι α β : Type}

/-- A session in which evaluation may go on. -/
structure Ready (o : Option ScopeId) (s : Session) : Prop where
  sound : s.Sound
  knows : s.Knows names
  pre : D.Pre o s

/-- What is known of an outcome: a result has a property in the store that is left, and an
exception is one of that store. -/
def Result (Q : Store → α → Prop) (s : Session) : Except Halt α × Session → Prop
  | (.ok a, s') => Q s'.store a
  | (.error (.thrown x), s') => (Value.exception x).Valid s'.store ∧ D.Thrown s s' x
  | (.error .exhausted, _) => True

/-- An evaluation from a session on has ended well. -/
structure Ends (o : Option ScopeId) (Q : Store → α → Prop) (s : Session)
    (p : Except Halt α × Session) : Prop where
  ready : D.Ready names o p.2
  grows : s.store.Grows p.2.store
  rel : D.Rel o s p.2
  result : D.Result Q s p

/-- In every session that is ready and whose store has grown from `t`, all versions of the
computation come to one outcome, and that is well. -/
def Keeps (o : Option ScopeId) (t : Store) {α : Type} (Q : Store → α → Prop) (x : ι → Eval α) :
    Prop :=
  ∀ s, D.Ready names o s → t.Grows s.store →
    ∃ p, D.Ends names o Q s p ∧ ∀ j, Eval.outcome (x j) s = p

variable {D names} {o : Option ScopeId} {t : Store} {Q : Store → α → Prop} {R : Store → β → Prop}
  {s s' : Session}

theorem Ready.withStore {t' : Store} (hs : D.Ready names o s) (hsound : t'.Sound)
    (hknows : t'.Knows names) (hg : s.store.Grows t') (hpre : D.Pre o { s with store := t' }) :
    D.Ready names o { s with store := t' } :=
  ⟨hs.sound.withStore hsound hg, ⟨hknows, hs.knows.files⟩, hpre⟩

theorem Result.imp {p : Except Halt α × Session} (h : D.Result Q s p)
    (hthrown : ∀ x, D.Thrown s p.2 x → D.Thrown s' p.2 x) : D.Result Q s' p := by
  rcases p with ⟨(x | _) | a, s''⟩
  · exact ⟨h.1, hthrown x h.2⟩
  · trivial
  · exact h

/-- A computation in one version. -/
theorem Keeps.single {x : Eval α}
    (h : ∀ s, D.Ready names o s → t.Grows s.store → D.Ends names o Q s (Eval.outcome x s)) :
    D.Keeps names o t Q fun _ : ι => x :=
  fun s hs ht => ⟨_, h s hs ht, fun _ => rfl⟩

namespace Lawful

variable (h : D.Lawful names)

include h

theorem after {p : Except Halt α × Session} (hg : s.store.Grows s'.store) (hr : D.Rel o s s')
    (hp : D.Ends names o Q s' p) : D.Ends names o Q s p :=
  ⟨hp.ready, hg.trans hp.grows, h.trans hr hp.rel, hp.result.imp fun _ => h.thrown_trans hr⟩

/-! ## Ways to go on -/

theorem bind {x : ι → Eval α} {k : ι → α → Eval β} (hx : D.Keeps names o t Q x)
    (hk : ∀ t' a, t.Grows t' → Q t' a → D.Keeps names o t' R fun j => k j a) :
    D.Keeps names o t R fun j => x j >>= k j := by
  intro s hs ht
  obtain ⟨p, hp, hall⟩ := hx s hs ht
  simp only [Eval.outcome_bind, hall]
  rcases p with ⟨(e | _) | a, s'⟩
  · exact ⟨(.error (.thrown e), s'), ⟨hp.ready, hp.grows, hp.rel, hp.result⟩, fun _ => rfl⟩
  · exact ⟨(.error .exhausted, s'), ⟨hp.ready, hp.grows, hp.rel, trivial⟩, fun _ => rfl⟩
  · obtain ⟨p', hp', hall'⟩ := hk s'.store a (ht.trans hp.grows) hp.result s' hp.ready (.refl _)
    exact ⟨p', h.after hp.grows hp.rel hp', hall'⟩

theorem widened {i : ScopeId} {x : ι → Eval α} (hx : D.Keeps names none t Q x) :
    D.Keeps names (some i) t Q x := by
  intro s hs ht
  obtain ⟨p, hp, hall⟩ := hx s ⟨hs.sound, hs.knows, h.narrow hs.pre⟩ ht
  obtain ⟨hrel, hpre⟩ := h.widen hs.pre ⟨hp.rel, hp.ready.pre⟩
  exact ⟨p, ⟨⟨hp.ready.sound, hp.ready.knows, hpre⟩, hp.grows, hrel, hp.result⟩, hall⟩

theorem recover {x : ι → Eval α} {handle : ι → Exception → Eval α} (hx : D.Keeps names o t Q x)
    (hh : ∀ t' e, t.Grows t' → (Value.exception e).Valid t' →
      (∀ j, handle j e = throw (.thrown e)) ∨ D.Keeps names o t' Q fun j => handle j e) :
    D.Keeps names o t Q fun j => Eval.catchThrown (x j) (handle j) := by
  intro s hs ht
  obtain ⟨p, hp, hall⟩ := hx s hs ht
  simp only [Eval.outcome_catchThrown, hall]
  rcases p with ⟨(e | _) | a, s'⟩
  · rcases hh s'.store e (ht.trans hp.grows) hp.result.1 with hgo | hgood
    -- the exception goes on as it came
    · refine ⟨_, hp, fun j => ?_⟩
      dsimp only
      rw [hgo j]
      rfl
    · obtain ⟨p', hp', hall'⟩ := hgood s' hp.ready (.refl _)
      exact ⟨p', h.after hp.grows hp.rel hp', hall'⟩
  · exact ⟨_, hp, fun _ => rfl⟩
  · exact ⟨_, hp, fun _ => rfl⟩

/-- What was known of the outcome before the last part of a `try` is still so after it. -/
theorem lastly {r : Except Halt Completion} {p : Except Halt Completion × Session}
    (hr : D.Result (Completion.Known names) s (r, s')) (hg : s.store.Grows s'.store)
    (hrel : D.Rel o s s') (hp : D.Ends names o (Completion.Known names) s' p) :
    D.Ends names o (Completion.Known names) s (Eval.lastly r p) := by
  have hend := h.after hg hrel hp
  refine ⟨?_, ?_, ?_, ?_⟩
  · rw [Eval.lastly_snd]
    exact hend.ready
  · rw [Eval.lastly_snd]
    exact hend.grows
  · rw [Eval.lastly_snd]
    exact hend.rel
  · rcases p with ⟨(x | _) | (v | v), s''⟩
    · exact hend.result
    · trivial
    · rcases r with (x | _) | c
      · exact ⟨Value.Valid.mono hp.grows hr.1, h.thrown_kept hrel hr.2 hp.rel⟩
      · trivial
      · exact Value.Known.mono hp.grows hr
    · exact hend.result

theorem finishing {x last : ι → Eval Completion}
    (hx : D.Keeps names o t (Completion.Known names) x)
    (hl : D.Keeps names o t (Completion.Known names) last) :
    D.Keeps names o t (Completion.Known names) fun j => Eval.finishing (x j) (last j) := by
  intro s hs ht
  obtain ⟨⟨r, s'⟩, hp, hall⟩ := hx s hs ht
  obtain ⟨p', hp', hall'⟩ := hl s' hp.ready (ht.trans hp.grows)
  simp only [Eval.outcome_finishing, hall]
  rcases r with (e | _) | c
  · exact ⟨_, h.lastly hp.result hp.grows hp.rel hp', fun j => by dsimp only; rw [hall']⟩
  · exact ⟨_, hp, fun _ => rfl⟩
  · exact ⟨_, h.lastly hp.result hp.grows hp.rel hp', fun j => by dsimp only; rw [hall']⟩

/-! ## Steps -/

/-- A step that changes neither scopes nor traces nor what is noted. -/
theorem apartStep {x : Eval α} (hx : ∀ s, D.Ready names none s → t.Grows s.store →
      ∃ a s', Eval.outcome x s = (.ok a, s') ∧ s.Apart s' ∧ s.store.Grows s'.store ∧
        s'.store.Sound ∧ s'.store.Knows names ∧ Q s'.store a) :
    D.Keeps names none t Q fun _ : ι => x := by
  refine .single fun s hs ht => ?_
  obtain ⟨a, s', hout, hapart, hg, hsound, hknows, hQ⟩ := hx s hs ht
  obtain ⟨hrel, hpre⟩ := h.apart hs.pre hapart
  rw [hout]
  refine ⟨⟨⟨hsound, hs.sound.globals.mono hg, ?_⟩, ⟨hknows, ?_⟩, hpre⟩, hg, hrel, hQ⟩
  · rw [hapart.loader]
    exact fun e he => (hs.sound.modules e he).mono hg
  · rw [hapart.files]
    exact hs.knows.files

theorem read (f : Session → α)
    (hQ : ∀ s : Session, t.Grows s.store → s.store.Sound → s.store.Knows names → Q s.store (f s)) :
    D.Keeps names none t Q fun _ : ι => do return f (← get) :=
  .single fun s hs ht =>
    ⟨hs, .refl _, h.refl hs.pre, hQ s ht hs.sound.store hs.knows.store⟩

theorem bindName {i : ScopeId} (name : String) {v : Value} (hv : v.Known names t) :
    D.Keeps names (some i) t (fun _ _ => True) fun _ : ι => Eval.bindName i name v := by
  refine .single fun s hs ht => ?_
  have hg := s.store.grows_set i name v
  obtain ⟨hrel, hpre⟩ := h.set name v hs.pre
  have hsound := hs.sound.store.set i name (hv.1.mono ht)
  have hknows := hs.knows.store.set i name hv.2
  exact ⟨hs.withStore hsound hknows hg hpre, hg, hrel, trivial⟩

theorem newObject (className : String) (parent : Option String) (fields : List String) :
    D.Keeps names none t (fun t' o => (Value.object o).Known names t')
      fun _ : ι => Eval.make (·.newObject className parent fields) := by
  refine h.apartStep fun s hs _ => ⟨_, _, rfl, ⟨rfl, rfl, rfl, rfl, rfl, rfl⟩,
    s.store.grows_newObject className parent fields, ?_, ?_, ?_⟩
  · exact hs.sound.store.newObject className parent fields
  · exact hs.knows.store.newObject className parent fields
  · rw [Value.known_object]
    simp

theorem fresh : D.Keeps names none t (fun _ _ => True) fun _ : ι => Eval.make Store.fresh := by
  have hg (t' : Store) : t'.Grows t'.fresh.2 := ⟨le_rfl, le_rfl, le_rfl⟩
  refine h.apartStep fun s hs _ =>
    ⟨_, _, rfl, ⟨rfl, rfl, rfl, rfl, rfl, rfl⟩, hg _, ?_, ?_, trivial⟩
  · exact hs.sound.store.of_eq (hg _) rfl rfl
  · exact hs.knows.store.of_eq rfl rfl

theorem raised {x : Exception} (hx : (Value.exception x).Valid t) :
    D.Keeps names none t Q fun _ : ι => Eval.raise x := by
  refine .single fun s hs ht => ?_
  have hg := s.store.grows_setTrace x s.callStack.frames
  have hvalid := Value.Valid.mono ht hx
  obtain ⟨⟨hrel, hpre⟩, hthrown⟩ := h.raise hs.pre hvalid
  have hsound := hs.sound.store.setTrace x s.callStack.frames
  have hknows : (s.store.setTrace x s.callStack.frames).Knows names :=
    hs.knows.store.of_eq rfl rfl
  exact ⟨hs.withStore hsound hknows hg hpre, hg, hrel, hvalid.mono hg, hthrown⟩

theorem fail (fault : Fault) : D.Keeps names none t Q fun _ : ι => (Eval.fail fault : Eval α) := by
  refine .single fun s hs _ => ?_
  have hnew := s.store.grows_newException fault.kind fault.message
  have hg : s.store.Grows (s.callStack.report fault s.store).2 :=
    hnew.trans (Store.grows_setTrace _ _ _)
  have hsound : (s.callStack.report fault s.store).2.Sound :=
    (hs.sound.store.newException fault.kind fault.message).setTrace _ _
  have hknows : (s.callStack.report fault s.store).2.Knows names :=
    hs.knows.store.of_eq rfl rfl
  have hvalid : (Value.exception (s.callStack.report fault s.store).1).Valid
      (s.callStack.report fault s.store).2 := by
    rw [Value.Valid]
    simp [CallStack.report, CallStack.attach, Store.newException, Store.setTrace]
  obtain ⟨⟨hrel, hpre⟩, hthrown⟩ := h.report fault hs.pre
  rw [Eval.outcome_fail_eq]
  exact ⟨hs.withStore hsound hknows hg hpre, hg, hrel, hvalid, hthrown⟩

theorem print (values : List Value) :
    D.Keeps names none t (fun _ _ => True) fun _ : ι => Eval.print values := by
  refine h.bind (Q := fun _ _ => True) ?_ fun t' written _ _ => ?_
  · exact h.apartStep fun s hs _ => ⟨_, _, rfl, ⟨rfl, rfl, rfl, rfl, rfl, rfl⟩, .refl _,
      hs.sound.store, hs.knows.store, trivial⟩
  · cases written with
    | true =>
        exact h.apartStep fun s hs _ => ⟨_, s, rfl, ⟨rfl, rfl, rfl, rfl, rfl, rfl⟩, .refl _,
          hs.sound.store, hs.knows.store, trivial⟩
    | false => exact h.fail _

theorem assignField (target : Value) (field : String) {v : Value} (hv : v.Known names t) :
    D.Keeps names none t (fun _ _ => True) fun _ : ι => Eval.assignField target field v := by
  refine h.apartStep fun s hs ht => ?_
  have hsame : s.Apart s ∧ s.store.Grows s.store ∧ s.store.Sound ∧ s.store.Knows names ∧ True :=
    ⟨⟨rfl, rfl, rfl, rfl, rfl, rfl⟩, .refl _, hs.sound.store, hs.knows.store, trivial⟩
  unfold Eval.assignField
  split
  · rename_i o
    rw [Eval.outcome_modify]
    cases hset : s.store.setField? o field v with
    | none => exact ⟨_, _, rfl, hsame⟩
    | some t' =>
        have hsound := hs.sound.store.setField (hv.1.mono ht) hset
        have hknows := hs.knows.store.setField hv.2 hset
        refine ⟨_, _, rfl, ⟨rfl, rfl, rfl, rfl, ?_, ?_⟩, Store.grows_setField hset, hsound, hknows,
          trivial⟩
        · obtain ⟨i, -, rfl⟩ := Store.setField?_eq_some hset
          rfl
        · obtain ⟨i, -, rfl⟩ := Store.setField?_eq_some hset
          rfl
  · exact ⟨_, _, rfl, hsame⟩

/-! ## Parts that run in a session of their own -/

theorem inScope {parent : Option ScopeId} {k : ι → ScopeId → Eval α}
    (hparent : ∀ p ∈ parent, t.HasScope p)
    (hk : ∀ t' i, t.Grows t' → t'.HasScope i → D.Keeps names (some i) t' Q fun j => k j i) :
    D.Keeps names none t Q fun j => Eval.make (·.newScope parent) >>= k j := by
  intro s hs ht
  have hg := s.store.grows_newScope parent
  obtain ⟨hpre, hclose⟩ := h.scope parent hs.pre
  have hscope := s.store.hasScope_newScope parent
  have hsound := hs.sound.store.newScope fun p hp => (hparent p hp).mono ht
  obtain ⟨p, hp, hall⟩ := hk _ _ (ht.trans hg) hscope _
    ⟨hs.sound.withStore hsound hg, ⟨hs.knows.store.newScope parent, hs.knows.files⟩, hpre⟩ (.refl _)
  obtain ⟨⟨hrel, hpre'⟩, hthrown⟩ := hclose p.2 ⟨hp.rel, hp.ready.pre⟩
  refine ⟨p, ⟨⟨hp.ready.sound, hp.ready.knows, hpre'⟩, hg.trans hp.grows, hrel, ?_⟩, hall⟩
  exact hp.result.imp hthrown

theorem inCall (function : String) (line : Nat) {x : ι → Eval α}
    (hx : D.Keeps names none t Q x) :
    D.Keeps names none t Q fun j => Eval.inCall function line (x j) := by
  intro s hs ht
  simp only [Eval.outcome_inCall]
  cases hpush : s.callStack.push? ⟨function, s.file, line⟩ with
  | none => exact h.fail .recursionLimit s hs ht
  | some callStack =>
      obtain ⟨hpre, hclose⟩ := h.call hs.pre rfl hpush
      obtain ⟨⟨r, s'⟩, hp, hall⟩ := hx { s with callStack }
        ⟨⟨hs.sound.store, hs.sound.globals, hs.sound.modules⟩,
          ⟨hs.knows.store, hs.knows.files⟩, hpre⟩ ht
      obtain ⟨⟨hrel, hpre'⟩, hthrown⟩ := hclose s' ⟨hp.rel, hp.ready.pre⟩
      refine ⟨(r, { s' with callStack := s'.callStack.pop }), ⟨?_, hp.grows, hrel, ?_⟩, ?_⟩
      · exact ⟨⟨hp.ready.sound.store, hp.ready.sound.globals, hp.ready.sound.modules⟩,
          ⟨hp.ready.knows.store, hp.ready.knows.files⟩, hpre'⟩
      · rcases r with (y | _) | a
        · exact ⟨hp.result.1, hthrown y hp.result.2⟩
        · trivial
        · exact hp.result
      · intro j
        dsimp only
        rw [hall j]

/-- A session in which the top level of a module is about to run is ready for it. -/
theorem entered {name : String} {source : ModuleSource} {loader : Loader}
    (hs : D.Ready names none s) (hname : name ∈ names) (hm : s.loader.modules.get? name = none)
    (henter : s.loader.enter s.files name s.baseDir = .ok (source, loader)) :
    D.Ready names (some (s.store.newScope none).1) (s.entered name source.path) ∧
      ImportsOnly names source.program.stmts := by
  obtain ⟨hnot, -⟩ := Loader.enter_ok henter
  obtain ⟨text, htext, hprogram⟩ := Loader.enter_program henter
  obtain ⟨⟨hpre, -⟩, -⟩ := h.module hs.pre hname hm hnot (Loader.enter_resolve henter)
  have hstart :=
    hs.sound.withStore (hs.sound.store.newScope (by simp)) (s.store.grows_newScope none)
  have hknows := hs.knows.store.newScope none
  refine ⟨⟨⟨hstart.store, hstart.globals, hstart.modules⟩, ⟨hknows, hs.knows.files⟩, hpre⟩, ?_⟩
  exact hs.knows.files _ _ _ htext hprogram

/-- The scope of a module is made before its top level runs, and is there when the module is
kept. -/
theorem loadModule {run : ι → Eval.Runner} {name : String} (hname : name ∈ names)
    (hrun : ∀ t i ss, t.HasScope i → ImportsOnly names ss →
      D.Keeps names (some i) t (Completion.Known names) fun j => run j i ss) :
    D.Keeps names none t (fun t' m => (Value.module m).Known names t')
      fun j => Eval.loadModule (run j) name := by
  intro s hs ht
  -- the module is there already, or it is refused, or its top level runs
  cases hm : s.loader.modules.get? name with
  | some m =>
      have hexports := hs.sound.modules _ (Bindings.mem_of_get? hm)
      refine ⟨(.ok m, s), ⟨hs, .refl _, h.refl hs.pre, ?_⟩, ?_⟩
      · exact Value.known_module.mpr hexports
      · exact fun j => Eval.outcome_loadModule_kept (run j) hm
  | none =>
      cases henter : s.loader.enter s.files name s.baseDir with
      | error e =>
          obtain ⟨p, hp, hall⟩ := h.fail (ι := ι) (.importFailed e.message) s hs ht
          exact ⟨p, hp, fun j => (Eval.outcome_loadModule_refused (run j) hm henter).trans (hall j)⟩
      | ok entry =>
          obtain ⟨source, loader⟩ := entry
          obtain ⟨hnot, -⟩ := Loader.enter_ok henter
          obtain ⟨⟨-, hleft⟩, hkept⟩ :=
            h.module hs.pre hname hm hnot (Loader.enter_resolve henter)
          obtain ⟨hready, himports⟩ := h.entered hs hname hm henter
          have hg := s.store.grows_newScope none
          have hscope := s.store.hasScope_newScope none
          obtain ⟨p, hp, hall⟩ := hrun _ _ source.program.stmts hscope himports _ hready (.refl _)
          refine ⟨s.imported name p, ?_, fun j => ?_⟩
          · have hgrown := hg.trans hp.grows
            have hexports := hscope.mono hp.grows
            obtain ⟨⟨hrel, hpre'⟩, hthrown⟩ := hleft p.2 ⟨hp.rel, hp.ready.pre⟩
            obtain ⟨hrel', hpre''⟩ := hkept p.2 ⟨hp.rel, hp.ready.pre⟩
            have hsound := hp.ready.sound
            have hknows := hp.ready.knows
            have hleft : D.Ready names none (p.2.left name s.file) :=
              ⟨⟨hsound.store, hsound.globals, hsound.modules⟩, ⟨hknows.store, hknows.files⟩, hpre'⟩
            -- only a top level that comes to its end leaves a module behind
            rcases p with ⟨(x | _) | c, s'⟩
            · exact ⟨hleft, hgrown, hrel, hp.result.1, hthrown x hp.result.2⟩
            · exact ⟨hleft, hgrown, hrel, trivial⟩
            · refine ⟨⟨⟨hsound.store, hsound.globals, ?_⟩, ⟨hknows.store, hknows.files⟩, hpre''⟩,
                hgrown, hrel', Value.known_module.mpr hexports⟩
              intro e he
              rcases Bindings.eq_or_mem_of_mem_set he with he | he
              · rw [he]
                exact hexports
              · exact hsound.modules e he
          · rw [Eval.outcome_loadModule_entered (run j) hm henter, hall j]

/-! ## The whole evaluator -/

/-- Every evaluation follows a lawful discipline. -/
theorem rules : Eval.ValueRules names (@Keeps D names ι) where
  pure hQ := .single fun s hs ht => ⟨hs, .refl _, h.refl hs.pre, hQ s.store ht⟩
  bind := h.bind
  widen := h.widened
  exhausted := .single fun _ hs _ => ⟨hs, .refl _, h.refl hs.pre, trivial⟩
  recover := h.recover
  finishing := h.finishing
  read := h.read
  bindName name _ _ hv := h.bindName name hv
  inScope := h.inScope
  newObject := h.newObject
  fresh := h.fresh
  raise := h.raised
  fail := h.fail
  warn _ := h.apartStep fun _ hs _ => ⟨_, _, rfl, ⟨rfl, rfl, rfl, rfl, rfl, rfl⟩, .refl _,
    hs.sound.store, hs.knows.store, trivial⟩
  print := h.print
  assignField := h.assignField
  inCall := h.inCall
  loadModule := h.loadModule

end Lawful

end Discipline

end ScriptLang
