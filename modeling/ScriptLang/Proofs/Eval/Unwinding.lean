import Mathlib
import ScriptLang.Proofs.Eval.Outcome

/-!
# The way out of nested `try` statements

The last part of a `try` runs once, after the body and after the body of the handler if
that is run, however these end. So what leaves a nest of `try` statements before its end,
a value that is given back or an exception that no handler takes, passes their last parts
on its way out, the innermost first. A last part that itself gives back or throws puts its
own outcome in the place of the one that passes.

Between one `try` and the next there may be branches and loops, which have been run for
some rounds already. `Reaches` says how an evaluation comes to the innermost body, and
`Carried` what happens from the point where that body is left.
-/

namespace ScriptLang

/-- The handler is for exceptions of any kind, or for those of the kind of this one. -/
def Handler.Takes (h : Handler) (x : Exception) : Prop := h.kind = none ∨ h.kind = some x.kind

theorem Handler.takes_iff {h : Handler} {x : Exception} :
    h.Takes x ↔ h.kind.all (· == x.kind) = true := by
  unfold Handler.Takes
  cases h.kind with
  | none => simp
  | some kind => simp

namespace Eval

variable {run : Runner} {rounds : Nat} {scope : ScopeId} {s s₁ s₂ s' : Session}

/-! ## One `try` -/

/-- The session in which the body of a handler is begun: the exception has its name, if the handler
gives it one, in a new scope. -/
def handling (scope : ScopeId) (h : Handler) (x : Exception) (s : Session) : Session :=
  let (i, t) := s.store.newScope (some scope)
  { s with store := h.binder.elim t fun name => t.set i name (.exception x) }

theorem outcome_handle_takes {h : Handler} {x : Exception} (hx : h.Takes x) (s : Session) :
    outcome (handle run rounds scope (some h) x) s =
      outcome (block run rounds (s.store.newScope (some scope)).1 .null h.body)
        (handling scope h x s) := by
  rcases h with ⟨kind, binder, body⟩
  rw [handle, if_pos (Handler.takes_iff.mp hx), outcome_make_bind]
  cases binder with
  | none => rfl
  | some name => rfl

theorem outcome_handle_declines {handler : Option Handler} {x : Exception}
    (hx : ∀ h ∈ handler, ¬h.Takes x) (s : Session) :
    outcome (handle run rounds scope handler x) s = (.error (.thrown x), s) := by
  cases handler with
  | none =>
      rw [handle]
      rfl
  | some h =>
      rcases h with ⟨kind, binder, body⟩
      have hnot := mt Handler.takes_iff.mpr (hx _ rfl)
      rw [handle, if_neg hnot]
      rfl

/-- How the parts of a `try` before its last part end: the body alone, or the body of the handler,
which is run exactly if the body threw an exception that the handler takes. -/
inductive Leaves (run : Runner) (rounds : Nat) (scope : ScopeId) (body : List Stmt)
    (handler : Option Handler) (s : Session) : Except Halt Completion → Session → Prop where
  | completed {c : Completion} {s₁ : Session} :
    outcome (block run rounds scope .null body) s = (.ok c, s₁) →
    Leaves run rounds scope body handler s (.ok c) s₁
  | unhandled {x : Exception} {s₁ : Session} :
    outcome (block run rounds scope .null body) s = (.error (.thrown x), s₁) →
    (∀ h ∈ handler, ¬h.Takes x) →
    Leaves run rounds scope body handler s (.error (.thrown x)) s₁
  | handled {x : Exception} {h : Handler} {r : Except Halt Completion} {s₁ s₂ : Session} :
    outcome (block run rounds scope .null body) s = (.error (.thrown x), s₁) →
    handler = some h → h.Takes x →
    outcome (block run rounds (s₁.store.newScope (some scope)).1 .null h.body)
      (handling scope h x s₁) = (r, s₂) →
    Leaves run rounds scope body handler s r s₂

section Attempt

variable {p : Place} {body last : List Stmt} {handler : Option Handler}
  {r : Except Halt Completion}

/-- Body and handler of a `try` as one computation. -/
theorem Leaves.outcome_eq (h : Leaves run rounds scope body handler s r s₁) :
    outcome (catchThrown (block run rounds scope .null body)
      (handle run rounds scope handler)) s = (r, s₁) := by
  rw [outcome_catchThrown]
  cases h with
  | completed hbody => rw [hbody]
  | unhandled hbody hnone =>
      rw [hbody]
      exact outcome_handle_declines hnone _
  | handled hbody hhandler htakes hrun =>
      rw [hbody, hhandler]
      exact (outcome_handle_takes htakes _).trans hrun

/-- After the parts before it, the last part is run once and settles the outcome. -/
theorem outcome_attempt (h : Leaves run rounds scope body handler s r s₁)
    (hr : r ≠ .error .exhausted) (p : Place) (last : List Stmt) :
    outcome (stmt run rounds scope (.attempt p body handler (some last))) s =
      lastly r (outcome (block run rounds scope .null last) s₁) := by
  rw [stmt, outcome_finishing, h.outcome_eq, optionalBlock]
  rcases r with (_ | _) | c
  · rfl
  · exact absurd rfl hr
  · rfl

/-- A `try` that comes to an end has left its body and, if that was run, the body of its handler. -/
theorem exists_leaves
    (h : (outcome (stmt run rounds scope (.attempt p body handler (some last))) s).1 ≠
      .error .exhausted) :
    ∃ r s₁, Leaves run rounds scope body handler s r s₁ ∧ r ≠ .error .exhausted := by
  rw [stmt, outcome_finishing, outcome_catchThrown] at h
  rcases hbody : outcome (block run rounds scope .null body) s with ⟨(x | _) | c, s₁⟩
  · by_cases htakes : ∃ hd, handler = some hd ∧ hd.Takes x
    · rcases htakes with ⟨hd, rfl, htakes⟩
      rcases hrun : outcome (block run rounds (s₁.store.newScope (some scope)).1 .null hd.body)
        (handling scope hd x s₁) with ⟨r, s₂⟩
      refine ⟨r, s₂, .handled hbody rfl htakes hrun, ?_⟩
      rintro rfl
      rw [hbody] at h
      dsimp only at h
      rw [outcome_handle_takes htakes, hrun] at h
      exact h rfl
    · refine ⟨_, _, .unhandled hbody ?_, by rintro ⟨⟩⟩
      rintro hd hmem hd_takes
      exact htakes ⟨hd, hmem, hd_takes⟩
  · rw [hbody] at h
    exact absurd rfl h
  · exact ⟨_, _, .completed hbody, by rintro ⟨⟩⟩

end Attempt

/-! ## Coming to the innermost body -/

/-- What is under way in a scope: statements after a first value, the items that are left to a loop,
or the rounds that are left to a loop on a condition. -/
inductive Work where
  | block (last : Value) (stmts : List Stmt)
  | each (item : String) (body : List Stmt) (items : List Value)
  | loop (condition : Expr) (body : List Stmt) (left : Nat)

def Work.toEval (run : Runner) (rounds : Nat) (scope : ScopeId) : Work → Eval Completion
  | block last stmts => Eval.block run rounds scope last stmts
  | each item body items => forEach scope item (Eval.block run rounds scope .null body) items
  | loop condition body left =>
    Eval.loop (expr run scope condition) (Eval.block run rounds scope .null body) left

/-- A `try` whose last part is still to come, with its handler while the body is being run. -/
structure Pending where
  scope : ScopeId
  handler : Option Handler
  last : List Stmt

/-- Doing a piece of work comes to doing another one in it, in some scope and session, while some
`try` statements are pending, the innermost first. What stands before has come to its end. -/
inductive Reaches (run : Runner) (rounds : Nat) :
    ScopeId → Work → Session → List Pending → ScopeId → Work → Session → Prop where
  | here {scope : ScopeId} {work : Work} {s : Session} :
    Reaches run rounds scope work s [] scope work s
  | after {scope i : ScopeId} {last v : Value} {st : Stmt} {rest : List Stmt} {s s₁ s' : Session}
      {ps : List Pending} {work : Work} :
    outcome (stmt run rounds scope st) s = (.ok (.next v), s₁) →
    Reaches run rounds scope (.block v rest) s₁ ps i work s' →
    Reaches run rounds scope (.block last (st :: rest)) s ps i work s'
  | yes {scope i : ScopeId} {last v : Value} {p : Place} {condition : Expr} {yes : List Stmt}
      {no : Option (List Stmt)} {rest : List Stmt} {s s₁ s' : Session} {ps : List Pending}
      {work : Work} :
    outcome (expr run scope condition) s = (.ok v, s₁) → v.isTruthy = true →
    Reaches run rounds scope (.block .null yes) s₁ ps i work s' →
    Reaches run rounds scope (.block last (.choose p condition yes no :: rest)) s ps i work s'
  | no {scope i : ScopeId} {last v : Value} {p : Place} {condition : Expr} {yes no : List Stmt}
      {rest : List Stmt} {s s₁ s' : Session} {ps : List Pending} {work : Work} :
    outcome (expr run scope condition) s = (.ok v, s₁) → v.isTruthy = false →
    Reaches run rounds scope (.block .null no) s₁ ps i work s' →
    Reaches run rounds scope (.block last (.choose p condition yes (some no) :: rest)) s ps i
      work s'
  | forEach {scope i : ScopeId} {last : Value} {p : Place} {item : String} {source : Expr}
      {body : List Stmt} {parallel : Bool} {items : Array Value} {rest : List Stmt}
      {s s₁ s' : Session} {ps : List Pending} {work : Work} :
    outcome (expr run scope source) s = (.ok (.array items), s₁) →
    Reaches run rounds scope (.each item body items.toList) s₁ ps i work s' →
    Reaches run rounds scope (.block last (.forEach p item source body parallel :: rest)) s ps i
      work s'
  | eachNext {scope i : ScopeId} {item : String} {body : List Stmt} {v w : Value}
      {vs : List Value} {s s₁ s' : Session} {ps : List Pending} {work : Work} :
    outcome (block run rounds scope .null body) { s with store := s.store.set scope item v } =
      (.ok (.next w), s₁) →
    Reaches run rounds scope (.each item body vs) s₁ ps i work s' →
    Reaches run rounds scope (.each item body (v :: vs)) s ps i work s'
  | eachBody {scope i : ScopeId} {item : String} {body : List Stmt} {v : Value} {vs : List Value}
      {s s' : Session} {ps : List Pending} {work : Work} :
    Reaches run rounds scope (.block .null body) { s with store := s.store.set scope item v } ps i
      work s' →
    Reaches run rounds scope (.each item body (v :: vs)) s ps i work s'
  | loop {scope i : ScopeId} {last : Value} {p : Place} {condition : Expr} {body rest : List Stmt}
      {s s' : Session} {ps : List Pending} {work : Work} :
    Reaches run rounds scope (.loop condition body rounds) s ps i work s' →
    Reaches run rounds scope (.block last (.loop p condition body :: rest)) s ps i work s'
  | loopNext {scope i : ScopeId} {condition : Expr} {body : List Stmt} {left : Nat} {v w : Value}
      {s s₁ s₂ s' : Session} {ps : List Pending} {work : Work} :
    outcome (expr run scope condition) s = (.ok v, s₁) → v.isTruthy = true →
    outcome (block run rounds scope .null body) s₁ = (.ok (.next w), s₂) →
    Reaches run rounds scope (.loop condition body left) s₂ ps i work s' →
    Reaches run rounds scope (.loop condition body (left + 1)) s ps i work s'
  | loopBody {scope i : ScopeId} {condition : Expr} {body : List Stmt} {left : Nat} {v : Value}
      {s s₁ s' : Session} {ps : List Pending} {work : Work} :
    outcome (expr run scope condition) s = (.ok v, s₁) → v.isTruthy = true →
    Reaches run rounds scope (.block .null body) s₁ ps i work s' →
    Reaches run rounds scope (.loop condition body (left + 1)) s ps i work s'
  | body {scope i : ScopeId} {before : Value} {p : Place} {body last rest : List Stmt}
      {handler : Option Handler} {s s' : Session} {ps : List Pending} {work : Work} :
    Reaches run rounds scope (.block .null body) s ps i work s' →
    Reaches run rounds scope (.block before (.attempt p body handler (some last) :: rest)) s
      (ps ++ [⟨scope, handler, last⟩]) i work s'
  | handler {scope i : ScopeId} {before : Value} {p : Place} {body last rest : List Stmt}
      {h : Handler} {x : Exception} {s s₁ s' : Session} {ps : List Pending} {work : Work} :
    outcome (block run rounds scope .null body) s = (.error (.thrown x), s₁) → h.Takes x →
    Reaches run rounds (s₁.store.newScope (some scope)).1 (.block .null h.body)
      (handling scope h x s₁) ps i work s' →
    Reaches run rounds scope (.block before (.attempt p body (some h) (some last) :: rest)) s
      (ps ++ [⟨scope, none, last⟩]) i work s'

/-! ## The way out -/

/-- What leaves a body before its end: a value that the function around gives back, or an
exception. -/
inductive Exit where
  | returned (v : Value)
  | thrown (x : Exception)

def Exit.outcome : Exit → Except Halt Completion
  | returned v => .ok (.returned v)
  | thrown x => .error (.thrown x)

/-- The handler of the `try` does not take what leaves it. -/
def Pending.Declines (p : Pending) : Exit → Prop
  | .returned _ => True
  | .thrown x => ∀ h ∈ p.handler, ¬h.Takes x

/-- The last parts are run one after another, each once, and come to their ends. -/
inductive Finished (run : Runner) (rounds : Nat) : List Pending → Session → Session → Prop where
  | nil {s : Session} : Finished run rounds [] s s
  | cons {p : Pending} {ps : List Pending} {v : Value} {s s₁ s₂ : Session} :
    outcome (block run rounds p.scope .null p.last) s = (.ok (.next v), s₁) →
    Finished run rounds ps s₁ s₂ → Finished run rounds (p :: ps) s s₂

/-- The last parts are run one after another, each once. What leaves is carried on by a last part
that comes to its end, and else it is what leaves that last part. -/
inductive Carried (run : Runner) (rounds : Nat) :
    List Pending → Exit → Session → Exit → Session → Prop where
  | nil {e : Exit} {s : Session} : Carried run rounds [] e s e s
  | kept {p : Pending} {ps : List Pending} {e e' : Exit} {v : Value} {s s₁ s₂ : Session} :
    p.Declines e → outcome (block run rounds p.scope .null p.last) s = (.ok (.next v), s₁) →
    Carried run rounds ps e s₁ e' s₂ → Carried run rounds (p :: ps) e s e' s₂
  | replaced {p : Pending} {ps : List Pending} {e e₁ e' : Exit} {s s₁ s₂ : Session} :
    p.Declines e → outcome (block run rounds p.scope .null p.last) s = (e₁.outcome, s₁) →
    Carried run rounds ps e₁ s₁ e' s₂ → Carried run rounds (p :: ps) e s e' s₂

section Exits

variable {e e₁ e' : Exit} {ps : List Pending}

theorem Finished.carried (h : Finished run rounds ps s s') (hps : ∀ p ∈ ps, p.Declines e) :
    Carried run rounds ps e s e s' := by
  induction h with
  | nil => exact .nil
  | cons hlast _ ih =>
      rcases List.forall_mem_cons.mp hps with ⟨hp, hps⟩
      exact .kept hp hlast (ih hps)

theorem Finished.append {qs : List Pending} (h : Finished run rounds ps s s₁)
    (hps : ∀ p ∈ ps, p.Declines e) (h' : Carried run rounds qs e s₁ e' s') :
    Carried run rounds (ps ++ qs) e s e' s' := by
  induction h with
  | nil => exact h'
  | cons hlast _ ih =>
      rcases List.forall_mem_cons.mp hps with ⟨hp, hps⟩
      exact .kept hp hlast (ih hps h')

/-- The outer ones are passed after the inner ones. -/
theorem Carried.split {qs : List Pending} (h : Carried run rounds (ps ++ qs) e s e' s') :
    ∃ e₁ s₁, Carried run rounds ps e s e₁ s₁ ∧ Carried run rounds qs e₁ s₁ e' s' := by
  induction ps generalizing e s with
  | nil => exact ⟨e, s, .nil, h⟩
  | cons p ps ih =>
      cases h with
      | kept hp hlast hrest =>
          rcases ih hrest with ⟨e₁, s₁, hinner, houter⟩
          exact ⟨e₁, s₁, .kept hp hlast hinner, houter⟩
      | replaced hp hlast hrest =>
          rcases ih hrest with ⟨e₁, s₁, hinner, houter⟩
          exact ⟨e₁, s₁, .replaced hp hlast hinner, houter⟩

/-- What leaves a statement leaves the statements around it. -/
theorem outcome_andThen_exit {x : Eval Completion} {k : Value → Eval Completion}
    (h : outcome x s = (e.outcome, s')) : outcome (andThen x k) s = (e.outcome, s') := by
  rw [andThen, outcome_bind, h]
  cases e <;> rfl

theorem outcome_block_exit {last : Value} {st : Stmt} {rest : List Stmt}
    (h : outcome (stmt run rounds scope st) s = (e.outcome, s')) :
    outcome (Work.toEval run rounds scope (.block last (st :: rest))) s = (e.outcome, s') := by
  rw [Work.toEval, block]
  exact outcome_andThen_exit h

/-- What comes to its end lets the next go on. -/
theorem outcome_andThen_next {x : Eval Completion} {k : Value → Eval Completion} {v : Value}
    (h : outcome x s = (.ok (.next v), s')) : outcome (andThen x k) s = outcome (k v) s' := by
  rw [andThen, outcome_bind, h]

/-- What leaves the parts of a `try` before its last part is carried past that part. -/
theorem outcome_attempt_carried {p : Place} {body last : List Stmt} {handler left : Option Handler}
    (h : Leaves run rounds scope body handler s e.outcome s₁)
    (hlast : Carried run rounds [⟨scope, left, last⟩] e s₁ e' s') :
    outcome (stmt run rounds scope (.attempt p body handler (some last))) s =
      (e'.outcome, s') := by
  rw [outcome_attempt h (by cases e <;> rintro ⟨⟩)]
  cases hlast with
  | kept _ hrun hrest =>
      cases hrest
      rw [hrun]
      rfl
  | @replaced _ _ _ e₂ _ _ s₂ _ _ hrun hrest =>
      cases hrest
      rw [hrun]
      cases e' <;> rfl

theorem Leaves.of_declines {body last : List Stmt} {handler : Option Handler}
    (h : outcome (block run rounds scope .null body) s = (e.outcome, s₁))
    (he : (⟨scope, handler, last⟩ : Pending).Declines e) :
    Leaves run rounds scope body handler s e.outcome s₁ := by
  cases e with
  | returned v => exact .completed h
  | thrown x => exact .unhandled h he

theorem Carried.declines {p : Pending} (h : Carried run rounds (p :: ps) e s e' s') :
    p.Declines e := by
  cases h with
  | kept hp _ _ => exact hp
  | replaced hp _ _ => exact hp

end Exits

/-- What leaves the innermost work before its end passes the pending last parts and then leaves the
whole. -/
theorem Reaches.outcome_carried {i : ScopeId} {work inner : Work} {ps : List Pending}
    (h : Reaches run rounds scope work s ps i inner s') :
    ∀ {e e' : Exit} {s₁ s₂ : Session}, outcome (inner.toEval run rounds i) s' = (e.outcome, s₁) →
      Carried run rounds ps e s₁ e' s₂ →
      outcome (work.toEval run rounds scope) s = (e'.outcome, s₂) := by
  -- along the way inwards: a `try` has the outermost pending part, all else lets the exit through
  induction h with
  | here =>
      intro e e' s₁ s₂ hexit hcarried
      cases hcarried
      exact hexit
  | after hst _ ih =>
      intro e e' s₁ s₂ hexit hcarried
      rw [Work.toEval, block, outcome_andThen_next hst]
      exact ih hexit hcarried
  | yes hcondition htruthy _ ih =>
      intro e e' s₁ s₂ hexit hcarried
      refine outcome_block_exit ?_
      rw [stmt, outcome_bind, hcondition]
      dsimp only
      rw [if_pos htruthy]
      exact ih hexit hcarried
  | no hcondition htruthy _ ih =>
      intro e e' s₁ s₂ hexit hcarried
      refine outcome_block_exit ?_
      rw [stmt, outcome_bind, hcondition]
      dsimp only
      rw [if_neg (by rw [htruthy]; exact Bool.false_ne_true), optionalBlock]
      exact ih hexit hcarried
  | forEach hsource _ ih =>
      intro e e' s₁ s₂ hexit hcarried
      refine outcome_block_exit ?_
      rw [stmt, outcome_bind, hsource]
      exact ih hexit hcarried
  | eachNext hround _ ih =>
      intro e e' s₁ s₂ hexit hcarried
      rw [Work.toEval, Eval.forEach, bindName, outcome_modify_bind, outcome_andThen_next hround]
      exact ih hexit hcarried
  | eachBody _ ih =>
      intro e e' s₁ s₂ hexit hcarried
      rw [Work.toEval, Eval.forEach, bindName, outcome_modify_bind]
      exact outcome_andThen_exit (ih hexit hcarried)
  | loop _ ih =>
      intro e e' s₁ s₂ hexit hcarried
      refine outcome_block_exit ?_
      rw [stmt]
      exact ih hexit hcarried
  | loopNext hcondition htruthy hround _ ih =>
      intro e e' s₁ s₂ hexit hcarried
      rw [Work.toEval, Eval.loop, outcome_bind, hcondition]
      dsimp only
      rw [if_pos htruthy, outcome_andThen_next hround]
      exact ih hexit hcarried
  | loopBody hcondition htruthy _ ih =>
      intro e e' s₁ s₂ hexit hcarried
      rw [Work.toEval, Eval.loop, outcome_bind, hcondition]
      dsimp only
      rw [if_pos htruthy]
      exact outcome_andThen_exit (ih hexit hcarried)
  | body _ ih =>
      intro e e' s₁ s₂ hexit hcarried
      rcases hcarried.split with ⟨e₁, s₃, hinner, houter⟩
      refine outcome_block_exit (outcome_attempt_carried ?_ houter)
      exact Leaves.of_declines (ih hexit hinner) houter.declines
  | handler hbody htakes _ ih =>
      intro e e' s₁ s₂ hexit hcarried
      rcases hcarried.split with ⟨e₁, s₃, hinner, houter⟩
      refine outcome_block_exit (outcome_attempt_carried ?_ houter)
      exact .handled hbody rfl htakes (ih hexit hinner)

/-- The last part of a `try` is run once, after the body and after the body of its handler if that
is run, however these ended; it settles the outcome if it gives back or throws. What leaves the
innermost body of a nest of `try` statements, with branches and loops between them, passes all their
last parts from the innermost to the outermost, each once, and leaves the nest. Where a last part
gives back or throws, that is what passes those further out. -/
theorem last_parts_run_once (run : Runner) (rounds : Nat) :
    (∀ (scope : ScopeId) (p : Place) (body : List Stmt) (handler : Option Handler)
        (last : List Stmt) (s : Session),
      let attempt := outcome (stmt run rounds scope (.attempt p body handler (some last))) s
      (∀ r s₁, Leaves run rounds scope body handler s r s₁ → r ≠ .error .exhausted →
        attempt = lastly r (outcome (block run rounds scope .null last) s₁)) ∧
      (attempt.1 ≠ .error .exhausted →
        ∃ r s₁, Leaves run rounds scope body handler s r s₁ ∧ r ≠ .error .exhausted)) ∧
    ∀ (scope i : ScopeId) (stmts body : List Stmt) (s s' s₁ : Session) (ps : List Pending)
        (e : Exit),
      Reaches run rounds scope (.block .null stmts) s ps i (.block .null body) s' →
      outcome (block run rounds i .null body) s' = (e.outcome, s₁) →
      (∀ s₂, Finished run rounds ps s₁ s₂ → (∀ p ∈ ps, p.Declines e) →
        outcome (block run rounds scope .null stmts) s = (e.outcome, s₂)) ∧
      ∀ inner p outer s₂ e₁ s₃ e' s₄, ps = inner ++ p :: outer →
        Finished run rounds inner s₁ s₂ → (∀ q ∈ inner, q.Declines e) → p.Declines e →
        outcome (block run rounds p.scope .null p.last) s₂ = (e₁.outcome, s₃) →
        Carried run rounds outer e₁ s₃ e' s₄ →
        outcome (block run rounds scope .null stmts) s = (e'.outcome, s₄) := by
  constructor
  · intro scope p body handler last s attempt
    exact ⟨fun r s₁ hleaves hr => outcome_attempt hleaves hr p last, exists_leaves⟩
  · intro scope i stmts body s s' s₁ ps e hreaches hexit
    constructor
    · intro s₂ hfinished hps
      exact hreaches.outcome_carried hexit (hfinished.carried hps)
    · rintro inner p outer s₂ e₁ s₃ e' s₄ rfl hfinished hinner hp hlast houter
      exact hreaches.outcome_carried hexit (hfinished.append hinner (.replaced hp hlast houter))

/-- A last part that binds a name. -/
def noting (name : String) : List Stmt := [.bind default name (.bool default true)]

/-- The second round of a loop gives back from two `try` statements. -/
def returningNest : List Stmt :=
  [.attempt default
    [.forEach default "x" (.array default [.bool default false, .bool default true])
      [.choose default (.name default "x")
        [.attempt default [.giveBack default (some (.text default "v"))] none (some (noting "f1"))]
        none] false]
    none (some (noting "f2"))]

/-- The middle one of three last parts gives back while an exception passes. -/
def overridingNest : List Stmt :=
  [.attempt default
    [.loop default (.bool default true)
      [.attempt default
        [.attempt default [.raise default (.text default "lost")] (some ⟨some "KeyError", none, []⟩)
          (some (noting "f1"))]
        none (some [.giveBack default (some (.text default "v"))])]]
    none (some (noting "f3"))]

theorem nests_run_last_parts_once :
    let s : Session := .ofSettings {} (fun _ => .error .missing) {}
    (∃ s', outcome (block (runBlock 9) 9 Session.globals .null returningNest) s =
      (.ok (.returned (.text "v")), s') ∧
      (s'.store.bindings Session.globals).names = ["x", "f1", "f2"]) ∧
    ∃ s', outcome (block (runBlock 9) 9 Session.globals .null overridingNest) s =
      (.ok (.returned (.text "v")), s') ∧
      (s'.store.bindings Session.globals).names = ["f1", "f3"] := by
  intro s
  obtain ⟨-, hnest⟩ := last_parts_run_once (runBlock 9) 9
  constructor
  · have hreaches : Reaches (runBlock 9) 9 Session.globals (.block .null returningNest) s _ _
        (.block .null [.giveBack default (some (.text default "v"))]) _ :=
      .body (.forEach rfl (.eachNext rfl (.eachBody (.yes rfl rfl (.body .here)))))
    obtain ⟨hkept, -⟩ := hnest _ _ _ _ s _ _ _ (.returned (.text "v")) hreaches rfl
    exact ⟨_, hkept _ (.cons rfl (.cons rfl .nil)) (by intro p _; trivial), by decide +kernel⟩
  · have hreaches : Reaches (runBlock 9) 9 Session.globals (.block .null overridingNest) s _ _
        (.block .null [.raise default (.text default "lost")]) _ :=
      .body (.loop (.loopBody rfl rfl (.body (.body .here))))
    obtain ⟨-, hreplaced⟩ :=
      hnest _ _ _ _ s _ _ _ (.thrown ⟨0, "RuntimeError", "lost"⟩) hreaches rfl
    have hnot : ¬Handler.Takes ⟨some "KeyError", none, []⟩ ⟨0, "RuntimeError", "lost"⟩ := by
      rw [Handler.takes_iff]
      decide
    refine ⟨_, hreplaced [_] _ [_] _ (.returned (.text "v")) _ _ _ rfl (.cons rfl .nil) ?_ ?_ rfl
      (.kept trivial rfl .nil), by decide +kernel⟩
    · rintro q hq h hh
      cases List.mem_singleton.mp hq
      cases hh
      exact hnot
    · rintro h hh
      cases hh

end Eval

end ScriptLang
