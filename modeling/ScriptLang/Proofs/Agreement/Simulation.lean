import Mathlib
import ScriptLang.Proofs.Agreement.Operators
import ScriptLang.Proofs.Bindings
import ScriptLang.Proofs.Bytecode.Code
import ScriptLang.Proofs.Bytecode.HiddenName
import ScriptLang.Proofs.Eval.Outcome

/-!
# The machine and the evaluator side by side

A machine and a session are in the same state when they have printed the same and
the globals of the session are those of the machine without the hidden ones. A run
of the machine agrees with an outcome of the evaluator if success, and every fault
that both know, finds the two in the same state.

Agreement of a whole run is proved backwards along the code: a step of the machine
keeps the outcome that the rest of the evaluator's work comes to, or does a part
of that work. The rest of that work is a continuation, and the evaluator's side of
every statement below is a computation followed by one.
-/

namespace ScriptLang

open Eval (outcome)

/-- The globals that a program can name. -/
def visible (g : Bindings Value) : Bindings Value := g.restrict fun x => !Compiler.isHidden x

/-- The machine and the session have printed the same and show the same globals. -/
structure Same (m : Machine) (s : Session) : Prop where
  output : s.output = m.output
  unbounded : m.output.limit = none
  scope : 0 < s.store.scopes.size
  globals : s.store.bindings Session.globals = visible m.globals
  plain : ∀ e ∈ m.globals, e.2.isPlain = true

namespace Same

variable {m m' : Machine} {s s' : Session} {x : String} {v : Value}

theorem of_machine (h : Same m s) (hg : m'.globals = m.globals) (ho : m'.output = m.output) :
    Same m' s :=
  ⟨by rw [ho]; exact h.output, by rw [ho]; exact h.unbounded, h.scope,
    by rw [hg]; exact h.globals, by rw [hg]; exact h.plain⟩

theorem of_session (h : Same m s) (ho : s'.output = s.output)
    (hs : s'.store.scopes = s.store.scopes) : Same m s' := by
  refine ⟨by rw [ho]; exact h.output, h.unbounded, by rw [hs]; exact h.scope, ?_, h.plain⟩
  rw [← h.globals, Store.bindings, Store.bindings, hs]

theorem isPlain_of_get? (h : Same m s) (hx : m.globals.get? x = some v) : v.isPlain = true :=
  h.plain (x, v) (Bindings.mem_of_get? hx)

theorem lookup? (h : Same m s) (hx : Compiler.isHidden x = false) :
    s.store.lookup? Session.globals x = m.globals.get? x := by
  rw [Eval.lookup?_globals, h.globals, visible, Bindings.get?_restrict]
  rw [hx]
  rfl

theorem plain_set (h : Same m s) (hv : v.isPlain = true) :
    ∀ e ∈ m.globals.set x v, e.2.isPlain = true := by
  intro e he
  rcases Bindings.eq_or_mem_of_mem_set he with hev | he
  · rw [hev]
    exact hv
  · exact h.plain e he

/-- A variable of the program is set on both sides. -/
theorem set (h : Same m s) (hx : Compiler.isHidden x = false) (hv : v.isPlain = true)
    (hg : m'.globals = m.globals.set x v) (ho : m'.output = m.output) :
    Same m' { s with store := s.store.set Session.globals x v } where
  output := by rw [ho]; exact h.output
  unbounded := by rw [ho]; exact h.unbounded
  scope := by
    rw [Store.set, Array.size_modify]
    exact h.scope
  globals := by
    rw [Eval.bindings_set_globals h.scope, h.globals, hg, visible, visible,
      Bindings.restrict_set_of_pos]
    rw [hx]
    rfl
  plain := by rw [hg]; exact h.plain_set hv

/-- A hidden global is set by the machine alone. -/
theorem set_hidden (h : Same m s) (hx : Compiler.isHidden x = true) (hv : v.isPlain = true)
    (hg : m'.globals = m.globals.set x v) (ho : m'.output = m.output) : Same m' s where
  output := by rw [ho]; exact h.output
  unbounded := by rw [ho]; exact h.unbounded
  scope := h.scope
  globals := by
    rw [h.globals, hg, visible, visible, Bindings.restrict_set_of_neg]
    rw [hx]
    rfl
  plain := by rw [hg]; exact h.plain_set hv

end Same

/-! ## Agreement -/

/-- Success and the faults of the program find both sides in the same state, and a fault is
thrown as the exception that reports it. -/
def Agree {α : Type} (out : Except MachineError Unit × Machine) (fin : Except Halt α × Session) :
    Prop :=
  match out with
  | (.ok (), m) => ∃ a s, fin = (.ok a, s) ∧ Same m s
  | (.error e, m) => e.isFault = true →
    ∃ x s fault, fin = (.error (.thrown x), s) ∧ e.Reports fault ∧ x.kind = fault.kind ∧
      x.message = fault.message ∧ Same m s

/-- Whether the instruction at an offset finds operands that both sides treat alike. -/
def Chunk.isSharedAt (chunk : Chunk) (c : Nat × Machine) : Bool :=
  match chunk.code[c.1]? with
  | some i => i.isShared c.2.stack
  | none => true

/-- A run from an offset agrees with an outcome, provided that it only comes to instructions
that both sides treat alike. -/
def Agrees {α : Type} (chunk : Chunk) (remaining offset : Nat) (m : Machine)
    (fin : Except Halt α × Session) : Prop :=
  (∀ c ∈ Machine.visited chunk remaining offset m, chunk.isSharedAt c = true) →
    Agree (Machine.runFrom chunk remaining offset m) fin

/-- What a step leads to agrees with an outcome. -/
def StepAgrees {α : Type} (chunk : Chunk) (remaining : Nat) (x : Machine.Step)
    (fin : Except Halt α × Session) : Prop :=
  match x with
  | .next o m => ∀ r < remaining, Agrees chunk r o m fin
  | .halt m => Agree (.ok (), m) fin
  | .stop e m => Agree (.error e, m) fin

section Rules

variable {α : Type} {chunk : Chunk} {r o : Nat} {m : Machine} {fin : Except Halt α × Session}
  {i : Instr} {e : MachineError} {v : Value} {rest : List Value} {next : Nat}

/-- A run that has no steps left has no outcome to agree with. -/
theorem Agrees.zero : Agrees chunk 0 o m fin := fun _ hfault => nomatch hfault

/-- Agreement is shown one step at a time. -/
theorem Agrees.step (hi : chunk.code[o]? = some i)
    (h : i.isShared m.stack = true →
      StepAgrees chunk r (Machine.execute chunk i (o + 1) m.ticked) fin) :
    Agrees chunk r o m fin := by
  cases r with
  | zero => exact .zero
  | succ r =>
      intro hshared
      -- the instruction at hand is the first one that the run comes to
      have hi' : i.isShared m.stack = true := by
        have hc := hshared (o, m) Machine.mem_visited_self
        rwa [Chunk.isSharedAt, hi] at hc
      have hx := h hi'
      rw [Machine.runFrom_succ, Machine.step_of_getElem? hi]
      rw [Machine.visited, Machine.step_of_getElem? hi] at hshared
      cases hex : Machine.execute chunk i (o + 1) m.ticked with
      | next o' m' =>
          rw [hex] at hx hshared
          exact hx r (Nat.lt_succ_self r) fun c hc => hshared c (List.mem_cons_of_mem _ hc)
      | halt m' =>
          rw [hex] at hx
          exact hx
      | stop e m' =>
          rw [hex] at hx
          exact hx

theorem StepAgrees.apart (he : e.isFault = false) : StepAgrees chunk r (.stop e m) fin := by
  intro hfault
  rw [he] at hfault
  cases hfault

theorem StepAgrees.push (h : ∀ r' < r, Agrees chunk r' next { m with stack := v :: m.stack } fin) :
    StepAgrees chunk r (m.push v next) fin := by
  unfold Machine.push
  split
  · exact .apart rfl
  · exact h

theorem StepAgrees.jump {t : Nat} (h : ∀ r' < r, Agrees chunk r' t m fin) :
    StepAgrees chunk r (m.jump chunk (t : Nat)) fin := by
  unfold Machine.jump Machine.target?
  split
  · rename_i offset ht
    split at ht
    · cases ht
    · cases ht
      exact h
  · rename_i e he
    split at he
    · cases he
      exact .apart rfl
    · cases he

/-- A fault that the machine stops with is thrown by the evaluator. -/
theorem StepAgrees.fault {fault : Fault} {s : Session} {β : Type} {k : β → Eval α}
    (he : e.Reports fault) (hs : Same m s) :
    StepAgrees chunk r (.stop e m) (outcome (Eval.fail fault >>= k) s) := by
  intro _
  obtain ⟨x, s', hx, hkind, hmessage, ho, hscopes⟩ := Eval.outcome_fail (α := β) fault s
  refine ⟨x, s', fault, ?_, he, hkind, hmessage, hs.of_session ho hscopes⟩
  rw [Eval.outcome_bind, hx]

/-- An operation that both sides carry out. -/
theorem StepAgrees.performs {result : Except Fault Value} {m' : Machine} {x : Machine.Step}
    {s : Session} {k : Value → Eval α} (hx : x.Performs result m' next) (hs : Same m' s)
    (hk : ∀ v, result = .ok v → v.isPlain = true → ∀ r' < r,
      Agrees chunk r' next { m' with stack := v :: m'.stack } (outcome (k v) s)) :
    StepAgrees chunk r x (outcome (Eval.ofExcept result >>= k) s) := by
  cases hx with
  | value h hv =>
      rw [h]
      exact .push (hk _ h hv)
  | fault h he =>
      rw [h]
      exact .fault he hs
  | apart he => exact .apart he

end Rules

end ScriptLang
