import Mathlib
import ScriptLang.Proofs.Agreement.Simulation

/-!
# Agreement on expressions

The code of an expression pushes the value that the evaluator gives it, prints what
the evaluator prints and leaves the globals alone (`ExprCode.agrees`). What both
sides go on to do with the value is a continuation.

First come the rules for single instructions, in the form in which the code of
expressions and statements uses them.
-/

namespace ScriptLang

open Eval (outcome)

/-- The other machine has the given stack and the globals of this one. -/
structure Machine.Restacked (m : Machine) (stack : List Value) (m' : Machine) : Prop where
  stack : m'.stack = stack
  globals : m'.globals = m.globals

theorem Machine.Restacked.trans {m m' m'' : Machine} {l l' : List Value} (h : m.Restacked l m')
    (h' : m'.Restacked l' m'') : m.Restacked l' m'' :=
  ⟨h'.stack, h'.globals.trans h.globals⟩

/-! ## Instructions -/

section Instructions

variable {α : Type} {chunk : Chunk} {r o : Nat} {m : Machine} {s : Session}
  {fin : Except Halt α × Session} {i : Instr} {v : Value} {rest : List Value} {n : Int} {x : String}

theorem Agrees.push (hi : chunk.code[o]? = some i)
    (hx : Machine.execute chunk i (o + 1) m.ticked =
      Machine.push { m.ticked with stack := rest } v (o + 1)) (hs : Same m s)
    (h : ∀ r' < r, ∀ m', m.Restacked (v :: rest) m' → Same m' s →
      Agrees chunk r' (o + 1) m' fin) : Agrees chunk r o m fin := by
  apply Agrees.step hi
  intro _
  rw [hx]
  exact .push fun r' hr => h r' hr _ ⟨rfl, rfl⟩ (hs.of_machine rfl rfl)

theorem Agrees.loadConst (hi : chunk.code[o]? = some ⟨.loadConst, n⟩)
    (hn : chunk.constant? n = some v) (hs : Same m s)
    (h : ∀ r' < r, ∀ m', m.Restacked (v :: m.stack) m' → Same m' s →
      Agrees chunk r' (o + 1) m' fin) : Agrees chunk r o m fin :=
  .push hi (by simp only [Machine.execute, hn]; rfl) hs h

/-- A name without a value stops the machine for a reason that the evaluator does not know. -/
theorem Agrees.loadVar (hi : chunk.code[o]? = some ⟨.loadVar, n⟩)
    (hn : chunk.constant? n = some (.text x)) (hs : Same m s)
    (h : ∀ v, m.globals.get? x = some v → ∀ r' < r, ∀ m', m.Restacked (v :: m.stack) m' →
      Same m' s → Agrees chunk r' (o + 1) m' fin) : Agrees chunk r o m fin := by
  cases hx : m.globals.get? x with
  | some v =>
      refine .push hi ?_ hs (h v hx)
      simp only [Machine.execute, Machine.variableName?, hn, Machine.ticked_globals, hx]
      rfl
  | none =>
      apply Agrees.step hi
      intro _
      simp only [Machine.execute, Machine.variableName?, hn, Machine.ticked_globals, hx]
      exact .apart rfl

theorem Agrees.storeVar (hi : chunk.code[o]? = some ⟨.storeVar, n⟩)
    (hn : chunk.constant? n = some (.text x)) (hv : m.stack = v :: rest)
    (h : ∀ r' < r, ∀ m', m'.stack = m.stack → m'.globals = m.globals.set x v →
      m'.output = m.output → Agrees chunk r' (o + 1) m' fin) : Agrees chunk r o m fin := by
  apply Agrees.step hi
  intro _
  simp only [Machine.execute, Machine.variableName?, hn, Machine.ticked_stack, hv]
  exact fun r' hr => h r' hr _ hv.symm rfl rfl

theorem Agrees.pop (hi : chunk.code[o]? = some ⟨.pop, n⟩) (hv : m.stack = v :: rest)
    (hs : Same m s)
    (h : ∀ r' < r, ∀ m', m.Restacked rest m' → Same m' s → Agrees chunk r' (o + 1) m' fin) :
    Agrees chunk r o m fin := by
  apply Agrees.step hi
  intro _
  simp only [Machine.execute, Machine.pop, Machine.ticked_stack, hv]
  exact fun r' hr => h r' hr _ ⟨rfl, rfl⟩ (hs.of_machine rfl rfl)

theorem Agrees.jump {t : Nat} (hi : chunk.code[o]? = some ⟨.jump, (t : Nat)⟩) (hs : Same m s)
    (h : ∀ r' < r, ∀ m', m.Restacked m.stack m' → Same m' s → Agrees chunk r' t m' fin) :
    Agrees chunk r o m fin :=
  .step hi fun _ => .jump fun r' hr => h r' hr _ ⟨rfl, rfl⟩ (hs.of_machine rfl rfl)

theorem Agrees.jumpIfFalse {t : Nat} (hi : chunk.code[o]? = some ⟨.jumpIfFalse, (t : Nat)⟩)
    (hv : m.stack = v :: rest) (hs : Same m s)
    (h : ∀ r' < r, ∀ m', m.Restacked rest m' → Same m' s →
      Agrees chunk r' (if v.isTruthy then o + 1 else t) m' fin) : Agrees chunk r o m fin := by
  apply Agrees.step hi
  intro _
  simp only [Machine.execute, Machine.pop, Machine.ticked_stack, hv]
  by_cases ht : v.isTruthy = true
  · simp only [ht, if_true] at h ⊢
    exact fun r' hr => h r' hr _ ⟨rfl, rfl⟩ (hs.of_machine rfl rfl)
  · rw [if_neg ht]
    apply StepAgrees.jump
    intro r' hr
    have hr' := h r' hr { m.ticked with stack := rest } ⟨rfl, rfl⟩ (hs.of_machine rfl rfl)
    rwa [if_neg ht] at hr'

theorem Agrees.performs {result : Except Fault Value} {k : Value → Eval α}
    (hi : chunk.code[o]? = some i) (hs : Same m s)
    (hx : i.isShared m.stack = true → (Machine.execute chunk i (o + 1) m.ticked).Performs result
      { m.ticked with stack := rest } (o + 1))
    (hk : ∀ v, result = .ok v → v.isPlain = true → ∀ r' < r, ∀ m', m.Restacked (v :: rest) m' →
      Same m' s → Agrees chunk r' (o + 1) m' (outcome (k v) s)) :
    Agrees chunk r o m (outcome (Eval.ofExcept result >>= k) s) := by
  apply Agrees.step hi
  intro hshared
  apply StepAgrees.performs (hx hshared) (hs.of_machine rfl rfl)
  exact fun v hv hplain r' hr => hk v hv hplain r' hr _ ⟨rfl, rfl⟩ (hs.of_machine rfl rfl)

end Instructions

/-! ## Values in a row -/

section Rows

variable {α : Type} {chunk : Chunk} {r o : Nat} {m : Machine} {s : Session} {vs rest : List Value}

theorem popMany_eq {op : Opcode} {k : List Value → Machine → Machine.Step}
    (hs : m.stack = vs.reverse ++ rest) :
    m.popMany op vs.length k = k vs { m with stack := rest } := by
  have hlen : vs.reverse.length = vs.length := List.length_reverse
  have hle :
      ¬ (((vs.length : Nat) : Int) < 0 ∨ m.stack.length < ((vs.length : Nat) : Int).toNat) := by
    rw [hs, List.length_append]
    omega
  rw [Machine.popMany, if_neg hle, hs, Int.toNat_natCast, ← hlen, List.take_left, List.drop_left,
    List.reverse_reverse]

theorem Agrees.buildArray {fin : Except Halt α × Session}
    (hi : chunk.code[o]? = some ⟨.buildArray, (vs.length : Nat)⟩)
    (hv : m.stack = vs.reverse ++ rest) (hs : Same m s)
    (h : ∀ r' < r, ∀ m', m.Restacked (.array vs.toArray :: rest) m' → Same m' s →
      Agrees chunk r' (o + 1) m' fin) : Agrees chunk r o m fin := by
  apply Agrees.step hi
  intro _
  simp only [Machine.execute]
  rw [popMany_eq (m := m.ticked) hv]
  exact .push fun r' hr => h r' hr _ ⟨rfl, rfl⟩ (hs.of_machine rfl rfl)

theorem writeLine_of_unbounded {out : Output} (h : out.limit = none) (line : String) :
    ∃ out', out.writeLine line = (true, out') ∧ out'.limit = none := by
  have hwrite (o : Output) (ho : o.limit = none) (t : String) :
      ∃ o', o.write? t = some o' ∧ o'.limit = none := by
    unfold Output.write? Output.isFull
    rw [ho]
    split
    · exact ⟨o, rfl, ho⟩
    · exact ⟨_, rfl, rfl⟩
  obtain ⟨o₁, h₁, hl₁⟩ := hwrite out h line
  obtain ⟨o₂, h₂, hl₂⟩ := hwrite o₁ hl₁ "\n"
  exact ⟨o₂, by simp only [Output.writeLine, h₁, h₂], hl₂⟩

/-- Both sides print the same line for plain values. -/
theorem Agrees.print {k : Unit → Eval α}
    (hi : chunk.code[o]? = some ⟨.print, (vs.length : Nat)⟩) (hv : m.stack = vs.reverse ++ rest)
    (hplain : ∀ v ∈ vs, v.isPlain = true) (hs : Same m s)
    (h : ∀ r' < r, ∀ m' s', m.Restacked rest m' → Same m' s' →
      Agrees chunk r' (o + 1) m' (outcome (k ()) s')) :
    Agrees chunk r o m (outcome (Eval.print vs >>= k) s) := by
  have hline : vs.map s.store.render = vs.map (Value.render fun _ => []) :=
    List.map_congr_left fun v hv => Value.render_eq_of_isPlain _ _ (hplain v hv)
  obtain ⟨out, hout, hlimit⟩ := writeLine_of_unbounded hs.unbounded (Machine.joined vs)
  have hprint : outcome (Eval.print vs >>= k) s = outcome (k ()) { s with output := out } := by
    rw [Machine.joined, ← hline, ← hs.output] at hout
    rw [Eval.print, bind_assoc, Eval.outcome_modifyGet_bind]
    simp only [hout, if_true, pure_bind]
  apply Agrees.step hi
  intro _
  simp only [Machine.execute]
  rw [popMany_eq (m := m.ticked) hv]
  simp only [Machine.ticked_output, hout, hprint]
  intro r' hr
  exact h r' hr _ _ ⟨rfl, rfl⟩ ⟨rfl, hlimit, hs.scope, hs.globals, hs.plain⟩

end Rows

/-! ## Expressions -/

/-- Printing is the one call that has bytecode. -/
theorem expr_print {run : Eval.Runner} {scope : ScopeId} {p : Place} {args : List Expr} :
    Eval.expr run scope (.call p "print" args) =
      Eval.exprs run scope args >>= fun vs => Eval.print vs >>= fun _ => pure .null := by
  rw [Eval.expr]
  rfl

variable {chunk : Chunk} {run : Eval.Runner}

mutual

theorem ExprCode.agrees : ∀ {pool base : Nat} {e : Expr} {f : Fragment}, ExprCode pool e f →
    chunk.Holds base pool f → (∀ x ∈ e.variables, Compiler.isHidden x = false) →
    ∀ {α : Type} {k : Value → Eval α} {r : Nat} {m : Machine} {s : Session}, Same m s →
    (∀ r' < r, ∀ v m' s', v.isPlain = true → m.Restacked (v :: m.stack) m' → Same m' s' →
      Agrees chunk r' (base + f.code.size) m' (outcome (k v) s')) →
    Agrees chunk r base m (outcome (Eval.expr run Session.globals e >>= k) s)
  | _, _, _, _, .number, hf, _, _, _, _, _, _, hs, hk => by
      rw [Eval.expr, pure_bind]
      exact .loadConst hf.withConstant.1 hf.withConstant.2 hs
        fun r' hr m' hm hs' => hk r' hr _ m' _ rfl hm hs'
  | _, _, _, _, .text, hf, _, _, _, _, _, _, hs, hk => by
      rw [Eval.expr, pure_bind]
      exact .loadConst hf.withConstant.1 hf.withConstant.2 hs
        fun r' hr m' hm hs' => hk r' hr _ m' _ rfl hm hs'
  | _, _, .bool _ b, _, .bool, hf, _, _, _, _, _, _, hs, hk => by
      rw [Eval.expr, pure_bind]
      refine .push hf.emit ?_ hs fun r' hr m' hm hs' => hk r' hr _ m' _ rfl hm hs'
      cases b <;> rfl
  | _, _, .name _ x, _, .name, hf, hvars, _, _, _, _, _, hs, hk => by
      have hx := hvars x (List.mem_singleton_self x)
      rw [Eval.expr, Eval.lookup]
      simp only [bind_assoc, pure_bind, Eval.outcome_get_bind, hs.lookup? hx]
      apply Agrees.loadVar hf.withConstant.1 hf.withConstant.2 hs
      intro v hv r' hr m' hm hs'
      rw [hv]
      exact hk r' hr v m' _ (hs.isPlain_of_get? hv) hm hs'
  | _, _, .binary _ l op r, _, .binary hop hl hr, hf, hvars, _, k, _, _, _, hs, hk => by
      simp only [Fragment.append_assoc] at hf
      simp only [Expr.variables, List.forall_mem_append] at hvars
      simp only [Eval.expr, bind_assoc]
      apply hl.agrees hf.left hvars.1 hs
      intro r₁ hr₁ a m₁ s₁ ha hm₁ hs₁
      apply hr.agrees hf.right.left hvars.2 hs₁
      intro r₂ hr₂ b m₂ s₂ hb hm₂ hs₂
      rw [hm₁.stack] at hm₂
      obtain ⟨result, hresult⟩ := Machine.exists_binary_eq_ok hop a b
      rw [hresult]
      apply Agrees.performs hf.right.right.emit hs₂
      · exact Machine.binary_performs (m := m₂.ticked) hop hm₂.stack hresult
      · intro v _ hv r₃ hr₃ m₃ hm₃ hs₃
        have hm := hm₁.trans (hm₂.trans hm₃)
        simpa [Nat.add_assoc] using hk r₃ (by omega) v m₃ s₂ hv hm hs₃
  | _, _, .unary _ op _, _, .unary he, hf, hvars, _, k, _, _, _, hs, hk => by
      rw [Expr.variables] at hvars
      simp only [Eval.expr, bind_assoc, pure_bind]
      apply he.agrees hf.left hvars hs
      intro r₁ hr₁ a m₁ s₁ ha hm₁ hs₁
      -- no unary operation fails in the evaluator, so its result is wrapped to fit the rule
      change Agrees chunk r₁ _ m₁ (outcome (Eval.ofExcept (.ok (Value.unary op a)) >>= k) s₁)
      apply Agrees.performs hf.right.emit hs₁
      · exact Machine.unary_performs (m := m₁.ticked) hm₁.stack
      · intro v _ hv r₂ hr₂ m₂ hm₂ hs₂
        simpa [Nat.add_assoc] using hk r₂ (by omega) v m₂ s₁ hv (hm₁.trans hm₂) hs₂
  | _, _, _, _, .print ha, hf, hvars, _, k, _, _, _, hs, hk => by
      simp only [Fragment.append_assoc] at hf
      rw [Expr.variables] at hvars
      rw [expr_print]
      simp only [bind_assoc, pure_bind]
      apply ha.agrees hf.left hvars hs
      intro r₁ hr₁ vs m₁ s₁ hlen hplain hm₁ hs₁
      rw [← hlen] at hf
      apply Agrees.print hf.right.left.emit hm₁.stack hplain hs₁
      intro r₂ hr₂ m₂ s₂ hm₂ hs₂
      apply Agrees.push hf.right.right.emit rfl hs₂
      intro r₃ hr₃ m₃ hm₃ hs₃
      rw [hm₂.stack] at hm₃
      have hm := hm₁.trans (hm₂.trans hm₃)
      simpa [Nat.add_assoc] using hk r₃ (by omega) .null m₃ s₂ rfl hm hs₃
  | _, _, _, _, .array ha, hf, hvars, _, k, _, _, _, hs, hk => by
      rw [Expr.variables] at hvars
      simp only [Eval.expr, bind_assoc, pure_bind]
      apply ha.agrees hf.left hvars hs
      intro r₁ hr₁ vs m₁ s₁ hlen hplain hm₁ hs₁
      rw [← hlen] at hf
      apply Agrees.buildArray hf.right.emit hm₁.stack hs₁
      intro r₂ hr₂ m₂ hm₂ hs₂
      have hv : (Value.array vs.toArray).isPlain = true := Value.allPlain_iff.mpr hplain
      simpa [Nat.add_assoc] using hk r₂ (by omega) _ m₂ s₁ hv (hm₁.trans hm₂) hs₂
  | _, _, _, _, .index ht hi, hf, hvars, _, k, _, _, _, hs, hk => by
      simp only [Fragment.append_assoc] at hf
      simp only [Expr.variables, List.forall_mem_append] at hvars
      simp only [Eval.expr, bind_assoc]
      apply ht.agrees hf.left hvars.1 hs
      intro r₁ hr₁ a m₁ s₁ ha hm₁ hs₁
      apply hi.agrees hf.right.left hvars.2 hs₁
      intro r₂ hr₂ b m₂ s₂ hb hm₂ hs₂
      rw [hm₁.stack] at hm₂
      apply Agrees.performs hf.right.right.emit hs₂
      · exact Machine.index_performs (m := m₂.ticked) hm₂.stack ha
      · intro v _ hv r₃ hr₃ m₃ hm₃ hs₃
        have hm := hm₁.trans (hm₂.trans hm₃)
        simpa [Nat.add_assoc] using hk r₃ (by omega) v m₃ s₂ hv hm hs₃

/-- Expressions one behind another push their values in order. -/
theorem ExprsCode.agrees : ∀ {pool base : Nat} {es : List Expr} {f : Fragment},
    ExprsCode pool es f → chunk.Holds base pool f →
    (∀ x ∈ Expr.listVariables es, Compiler.isHidden x = false) →
    ∀ {α : Type} {k : List Value → Eval α} {r : Nat} {m : Machine} {s : Session}, Same m s →
    (∀ r' ≤ r, ∀ vs m' s', vs.length = es.length → (∀ v ∈ vs, v.isPlain = true) →
      m.Restacked (vs.reverse ++ m.stack) m' → Same m' s' →
      Agrees chunk r' (base + f.code.size) m' (outcome (k vs) s')) →
    Agrees chunk r base m (outcome (Eval.exprs run Session.globals es >>= k) s)
  | _, _, _, _, .nil, _, _, _, _, _, m, _, hs, hk => by
      rw [Eval.exprs, pure_bind]
      exact hk _ le_rfl [] m _ rfl nofun ⟨rfl, rfl⟩ hs
  | _, _, _, _, .cons he hes, hf, hvars, _, k, _, _, _, hs, hk => by
      simp only [Expr.listVariables, List.forall_mem_append] at hvars
      simp only [Eval.exprs, bind_assoc, pure_bind]
      apply he.agrees hf.left hvars.1 hs
      intro r₁ hr₁ v m₁ s₁ hv hm₁ hs₁
      apply hes.agrees hf.right hvars.2 hs₁
      intro r₂ hr₂ vs m₂ s₂ hlen hvs hm₂ hs₂
      have hm := hm₁.trans hm₂
      -- the last value is on top, so the row lies on the stack in reverse
      rw [hm₁.stack, ← List.singleton_append, ← List.append_assoc, ← List.reverse_cons] at hm
      have hall : ∀ w ∈ v :: vs, w.isPlain = true := List.forall_mem_cons.mpr ⟨hv, hvs⟩
      simpa [Nat.add_assoc] using
        hk r₂ (by omega) (v :: vs) m₂ s₂ (congrArg (· + 1) hlen) hall hm hs₂

end

end ScriptLang
