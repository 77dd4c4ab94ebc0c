import Mathlib
import ScriptLang.Eval.Stmt

/-!
# What a computation comes to

A computation of the evaluator takes a session to an outcome and the session after
it. The outcome of each way to put computations together is read off here once, so
that later proofs need not open the monad.
-/

namespace ScriptLang

namespace Eval

variable {α β : Type} {s : Session}

/-- How a computation ends in a session, and the session after it. -/
def outcome (x : Eval α) (s : Session) : Except Halt α × Session := x.run s

theorem outcome_bind (x : Eval α) (k : α → Eval β) :
    outcome (x >>= k) s =
      match outcome x s with
      | (.ok a, s') => outcome (k a) s'
      | (.error h, s') => (.error h, s') := by
  change (match x.run s with | (r, s') => ExceptT.bindCont k r s') = _
  rw [outcome]
  rcases x.run s with ⟨_ | _, _⟩ <;> rfl

/-- A computation gives a value only if its parts do. -/
theorem bind_ok {s' : Session} {x : Eval α} {k : α → Eval β} {b : β}
    (h : outcome (x >>= k) s = (.ok b, s')) :
    ∃ a s₁, outcome x s = (.ok a, s₁) ∧ outcome (k a) s₁ = (.ok b, s') := by
  rw [outcome_bind] at h
  rcases hx : outcome x s with ⟨_ | a, s₁⟩
  · rw [hx] at h
    cases h
  · rw [hx] at h
    exact ⟨a, s₁, rfl, h⟩

theorem outcome_pure (a : α) : outcome (pure a) s = (.ok a, s) := rfl

theorem outcome_lookup (scope : ScopeId) (name : String) :
    outcome (lookup scope name) s = (.ok (s.store.lookup? scope name), s) := rfl

@[simp] theorem outcome_get_bind (k : Session → Eval β) :
    outcome (get >>= k) s = outcome (k s) s := rfl

theorem outcome_modify (f : Session → Session) : outcome (modify f) s = (.ok (), f s) := rfl

@[simp] theorem outcome_modify_bind (f : Session → Session) (k : Unit → Eval β) :
    outcome (modify f >>= k) s = outcome (k ()) (f s) := rfl

@[simp] theorem outcome_modifyGet_bind (f : Session → α × Session) (k : α → Eval β) :
    outcome (modifyGet f >>= k) s = outcome (k (f s).1) (f s).2 := rfl

theorem outcome_make_bind (f : Store → α × Store) (k : α → Eval β) :
    outcome (make f >>= k) s = outcome (k (f s.store).1) { s with store := (f s.store).2 } := rfl

theorem outcome_discard_bind (x : Eval α) (k : Unit → Eval β) :
    outcome (Functor.discard x >>= k) s =
      match outcome x s with
      | (.ok _, s') => outcome (k ()) s'
      | (.error h, s') => (.error h, s') := by
  rw [Functor.discard, map_const, Function.comp_apply, bind_map_left]
  exact outcome_bind x fun _ => k ()

/-! ## Exceptions -/

/-- A fault is thrown as a new exception, with the active calls as its trace. -/
theorem outcome_fail_eq (fault : Fault) (s : Session) :
    outcome (fail fault : Eval α) s =
      (.error (.thrown (s.callStack.report fault s.store).1),
        { s with store := (s.callStack.report fault s.store).2 }) := rfl

/-- A fault is thrown as a new exception. Scopes and output stay as they are. -/
theorem outcome_fail (fault : Fault) (s : Session) :
    ∃ x s', outcome (fail fault : Eval α) s = (.error (.thrown x), s') ∧
      x.kind = fault.kind ∧ x.message = fault.message ∧ s'.output = s.output ∧
      s'.store.scopes = s.store.scopes :=
  ⟨_, _, rfl, rfl, rfl, rfl, rfl⟩

/-- A computation that looks at the outcome of another. -/
theorem outcome_mk_bind (x : Eval α) (k : Except Halt α → StateM Session (Except Halt β)) :
    outcome (ExceptT.mk (x.run >>= k)) s = k (outcome x s).1 (outcome x s).2 := rfl

/-- A handler goes on where an exception was thrown. -/
theorem outcome_catchThrown (x : Eval α) (handle : Exception → Eval α) :
    outcome (catchThrown x handle) s =
      match outcome x s with
      | (.error (.thrown e), s') => outcome (handle e) s'
      | other => other := by
  simp only [catchThrown, tryCatch, tryCatchThe, MonadExceptOf.tryCatch]
  unfold ExceptT.tryCatch
  refine (outcome_mk_bind x _).trans ?_
  rcases outcome x s with ⟨(_ | _) | _, _⟩ <;> rfl

/-- The outcome of a `try`, from the one before its last part and the one of that part. -/
def lastly (r : Except Halt Completion) :
    Except Halt Completion × Session → Except Halt Completion × Session
  | (.ok (.next _), s) => (r, s)
  | other => other

theorem lastly_snd (r : Except Halt Completion) (p : Except Halt Completion × Session) :
    (lastly r p).2 = p.2 := by
  rcases p with ⟨_ | (_ | _), s'⟩ <;> rfl

theorem outcome_mk_lastly (r : Except Halt Completion) (last : Eval Completion) :
    outcome (ExceptT.mk (last.run >>= fun
      | .ok (.next _) => pure r
      | other => pure other)) s = lastly r (outcome last s) := by
  refine (outcome_mk_bind last _).trans ?_
  rcases outcome last s with ⟨_ | (_ | _), _⟩ <;> rfl

/-- The last part of a `try` runs in the session that the parts before it left, unless those
ran out of fuel. -/
theorem outcome_finishing (x last : Eval Completion) :
    outcome (finishing x last) s =
      match outcome x s with
      | (.error .exhausted, s') => (.error .exhausted, s')
      | (r, s') => lastly r (outcome last s') := by
  refine (outcome_mk_bind x _).trans ?_
  rcases outcome x s with ⟨(_ | _) | _, s'⟩
  · exact outcome_mk_lastly _ last
  · rfl
  · exact outcome_mk_lastly _ last

/-! ## What is put back -/

theorem outcome_after (x : Eval α) (f : Session → Session) :
    outcome (x.after f) s = ((outcome x s).1, f (outcome x s).2) := rfl

/-- A call runs with a frame more, which is taken off however it ends. -/
theorem outcome_inCall (function : String) (line : Nat) (x : Eval α) :
    outcome (inCall function line x) s =
      match s.callStack.push? ⟨function, s.file, line⟩ with
      | none => outcome (fail .recursionLimit) s
      | some callStack =>
        let (r, s') := outcome x { s with callStack }
        (r, { s' with callStack := s'.callStack.pop }) := by
  rw [inCall, outcome_get_bind]
  cases s.callStack.push? ⟨function, s.file, line⟩ <;> rfl

theorem outcome_inFile (file : String) (x : Eval α) :
    outcome (inFile file x) s =
      let (r, s') := outcome x { s with file }
      (r, { s' with file := s.file }) := rfl

/-! ## Changes of the session -/

/-- However the computation ends, the session after it is related to the one before. -/
def Leads (R : Session → Session → Prop) (x : Eval α) : Prop :=
  ∀ s : Session, R s (outcome x s).2

section Leads

variable {R : Session → Session → Prop} (trans : ∀ {s s' s''}, R s s' → R s' s'' → R s s'')

include trans

theorem Leads.bind {x : Eval α} {k : α → Eval β} (hx : Leads R x) (hk : ∀ a, Leads R (k a)) :
    Leads R (x >>= k) := by
  intro s
  have hs := hx s
  rw [outcome_bind]
  generalize outcome x s = after at hs
  rcases after with ⟨_ | a, s'⟩
  · exact hs
  · exact trans hs (hk a s')

theorem Leads.recover {x : Eval α} {handle : Exception → Eval α} (hx : Leads R x)
    (hh : ∀ e, Leads R (handle e)) : Leads R (catchThrown x handle) := by
  intro s
  have hs := hx s
  rw [outcome_catchThrown]
  generalize outcome x s = after at hs
  rcases after with ⟨(e | _) | a, s'⟩
  · exact trans hs (hh e s')
  · exact hs
  · exact hs

theorem Leads.finishing {x last : Eval Completion} (hx : Leads R x) (hl : Leads R last) :
    Leads R (Eval.finishing x last) := by
  intro s
  have hs := hx s
  have hlast (s' : Session) (r : Except Halt Completion) :
      R s' (lastly r (outcome last s')).2 := by
    rw [lastly_snd]
    exact hl s'
  rw [outcome_finishing]
  generalize outcome x s = after at hs
  rcases after with ⟨(_ | _) | _, s'⟩
  · exact trans hs (hlast s' _)
  · exact hs
  · exact trans hs (hlast s' _)

end Leads

/-! ## Operands -/

section Operands

variable {run : Runner} {scope : ScopeId} {s₁ s₂ : Session} {left right : Expr} {a b : Value}
  (hleft : outcome (expr run scope left) s = (.ok a, s₁))
  (hright : outcome (expr run scope right) s₁ = (.ok b, s₂))

include hleft hright

/-- An operator is applied when both operands have their values. -/
theorem outcome_binary (p : Place) (op : BinaryOp) :
    outcome (expr run scope (.binary p left op right)) s =
      outcome (unlessCrash (Value.binary op a b) >>= ofExcept) s₂ := by
  simp only [expr, outcome_bind, hleft, hright]

theorem outcome_index (p : Place) :
    outcome (expr run scope (.index p left right)) s =
      outcome (ofExcept (Value.index a b)) s₂ := by
  simp only [expr, outcome_bind, hleft, hright]

end Operands

/-! ## The global scope -/

theorem lookup?_globals (t : Store) (x : String) :
    t.lookup? Session.globals x = (t.bindings Session.globals).get? x := by
  rw [Store.lookup?, Session.globals, Store.lookupWithin, Store.local?]
  cases Bindings.get? (t.bindings ⟨0⟩) x with
  | some v => rfl
  | none =>
      dsimp only
      split <;> rfl

theorem bindings_set_globals {t : Store} (ht : 0 < t.scopes.size) (x : String) (v : Value) :
    (t.set Session.globals x v).bindings Session.globals =
      (t.bindings Session.globals).set x v := by
  simp only [Store.set, Store.bindings, Session.globals, Array.getElem?_modify, if_true,
    Array.getElem?_eq_getElem ht, Option.map_some]

end Eval

end ScriptLang
