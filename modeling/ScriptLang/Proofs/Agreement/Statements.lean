import Mathlib
import ScriptLang.Proofs.Agreement.Expressions
import ScriptLang.Proofs.Number.Whole

/-!
# Agreement on statements

The code of a statement does to the globals and the output what the evaluator does
(`StmtCode.agrees`). It leaves the stack as it was, and of the hidden globals it sets
only those of loops as deep as itself or deeper. That keeps the array and the
counter of a loop alive while its body runs. The counter counts exactly because the
array is not too long.

Every round of a loop takes a step of the machine, so the evaluator needs no more
rounds than the machine has steps.
-/

namespace ScriptLang

open Eval (outcome)
open Compiler (hiddenName isHidden depthIn)

/-- The other machine has the same stack, and the hidden globals of loops around this depth
have the same value in both. -/
structure Machine.Keeps (m : Machine) (depth : Nat) (m' : Machine) : Prop where
  stack : m'.stack = m.stack
  hidden : ∀ x, isHidden x = true → depthIn x < depth → m'.globals.get? x = m.globals.get? x

namespace Machine.Keeps

variable {depth : Nat} {m m' m'' : Machine} {x : String} {v : Value}

theorem of_restacked (h : m.Restacked m.stack m') : m.Keeps depth m' :=
  ⟨h.stack, fun x _ _ => by rw [h.globals]⟩

theorem trans (h : m.Keeps depth m') (h' : m'.Keeps depth m'') : m.Keeps depth m'' :=
  ⟨h'.stack.trans h.stack, fun x hx hd => (h'.hidden x hx hd).trans (h.hidden x hx hd)⟩

theorem mono (h : m.Keeps (depth + 1) m') : m.Keeps depth m' :=
  ⟨h.stack, fun x hx hd => h.hidden x hx (Nat.lt_succ_of_lt hd)⟩

/-- Setting a name that is not hidden, or hidden for a loop inside, keeps them. -/
theorem of_set (hs : m'.stack = m.stack) (hg : m'.globals = m.globals.set x v)
    (hx : isHidden x = true → depth ≤ depthIn x) : m.Keeps depth m' := by
  refine ⟨hs, fun y hy hd => ?_⟩
  rw [hg, Bindings.get?_set_ne]
  rintro rfl
  exact absurd (hx hy) (Nat.not_le.mpr hd)

end Machine.Keeps

/-! ## More rules -/

section Rules

variable {α : Type} {chunk : Chunk} {r o pool : Nat} {m : Machine} {s : Session}
  {fin : Except Halt α × Session} {v : Value} {rest : List Value} {n n' : Int} {x : String}

/-- Storing under a name and dropping the value. -/
theorem Agrees.store (hstore : chunk.code[o]? = some ⟨.storeVar, n⟩)
    (hn : chunk.constant? n = some (.text x)) (hpop : chunk.code[o + 1]? = some ⟨.pop, n'⟩)
    (hv : m.stack = v :: rest)
    (hs : ∀ m', m'.globals = m.globals.set x v → m'.output = m.output → Same m' s)
    (h : ∀ r' < r, ∀ m', m'.stack = rest → m'.globals = m.globals.set x v → Same m' s →
      Agrees chunk r' (o + 2) m' fin) : Agrees chunk r o m fin := by
  apply Agrees.storeVar hstore hn hv
  intro r₁ hr₁ m₁ hstack hglobals hout
  apply Agrees.pop hpop (hstack.trans hv) (hs m₁ hglobals hout)
  intro r₂ hr₂ m₂ hm₂ hs₂
  exact h r₂ (by omega) m₂ hm₂.stack (hm₂.globals.trans hglobals) hs₂

/-- The length of an array, which has been found to be short enough. Other values stop the
machine. -/
theorem Agrees.arrayLength (hi : chunk.code[o]? = some ⟨.arrayLength, n⟩)
    (hv : m.stack = v :: rest) (hs : Same m s)
    (h : ∀ items, v = .array items → items.size < 2 ^ 53 → ∀ r' < r, ∀ m',
      m.Restacked (.ofNat items.size :: rest) m' → Same m' s → Agrees chunk r' (o + 1) m' fin) :
    Agrees chunk r o m fin := by
  apply Agrees.step hi
  intro hshared
  rw [hv] at hshared
  simp only [Machine.execute, Machine.pop, Machine.ticked_stack, hv]
  cases v with
  | array items =>
      have hsize : items.size < 2 ^ 53 := by
        simpa [Instr.isShared, Value.isText, Value.isHuge] using hshared
      exact .push fun r' hr => h items rfl hsize r' hr _ ⟨rfl, rfl⟩ (hs.of_machine rfl rfl)
  | text t => cases hshared
  | _ => exact .apart rfl

/-! Three operators on operands that are known. -/

theorem Agrees.less {a b : Float} (hi : chunk.code[o]? = some ⟨.less, n⟩)
    (hv : m.stack = .number b :: .number a :: rest) (hs : Same m s)
    (h : ∀ r' < r, ∀ m', m.Restacked (.ofBool (decide (a < b)) :: rest) m' → Same m' s →
      Agrees chunk r' (o + 1) m' fin) : Agrees chunk r o m fin := by
  refine .push hi ?_ hs h
  simp only [Machine.execute, Machine.compare, Machine.arithmetic]
  exact Machine.popPair_eq (m := m.ticked) hv

theorem Agrees.add {a b : Float} (hi : chunk.code[o]? = some ⟨.add, n⟩)
    (hv : m.stack = .number b :: .number a :: rest) (hs : Same m s)
    (h : ∀ r' < r, ∀ m', m.Restacked (.number (a + b) :: rest) m' → Same m' s →
      Agrees chunk r' (o + 1) m' fin) : Agrees chunk r o m fin := by
  refine .push hi ?_ hs h
  simp only [Machine.execute]
  exact Machine.popPair_eq (m := m.ticked) hv

theorem Agrees.index {target key : Value} (hi : chunk.code[o]? = some ⟨.index, n⟩)
    (hv : m.stack = key :: target :: rest) (hat : Machine.itemAt target key = .ok v)
    (hs : Same m s)
    (h : ∀ r' < r, ∀ m', m.Restacked (v :: rest) m' → Same m' s →
      Agrees chunk r' (o + 1) m' fin) : Agrees chunk r o m fin := by
  refine .push hi ?_ hs h
  simp only [Machine.execute, Machine.popPair_eq (m := m.ticked) hv, hat]

end Rules

theorem Value.isTruthy_ofBool (b : Bool) : (Value.ofBool b).isTruthy = b := by
  cases b <;> rfl

/-! ## Code that does what a computation does -/

/-- The code from `base` to `stop` does what the computation of a statement does, whatever
follows on both sides. The machine has at most `rounds` steps left. -/
def Simulates (chunk : Chunk) (depth rounds base stop : Nat) (x : Eval Completion) : Prop :=
  ∀ ⦃α : Type⦄ ⦃k : Completion → Eval α⦄ ⦃r : Nat⦄ ⦃m : Machine⦄ ⦃s : Session⦄,
    r ≤ rounds → Same m s →
    (∀ r' ≤ r, ∀ v m' s', m.Keeps depth m' → Same m' s' →
      Agrees chunk r' stop m' (outcome (k (.next v)) s')) →
    Agrees chunk r base m (outcome (x >>= k) s)

namespace Simulates

variable {chunk : Chunk} {depth rounds base mid stop : Nat} {x : Eval Completion}

theorem next (v : Value) : Simulates chunk depth rounds base base (pure (.next v)) := by
  intro α k r m s _ hs hk
  rw [pure_bind]
  exact hk r le_rfl v m s (.of_restacked ⟨rfl, rfl⟩) hs

theorem andThen {k : Value → Eval Completion} (hx : Simulates chunk depth rounds base mid x)
    (hk : ∀ v, Simulates chunk depth rounds mid stop (k v)) :
    Simulates chunk depth rounds base stop (Eval.andThen x k) := by
  intro α k' r m s hr hs hk'
  rw [Eval.andThen, bind_assoc]
  apply hx hr hs
  intro r₁ hr₁ v m₁ s₁ hm₁ hs₁
  apply hk v (by omega) hs₁
  intro r₂ hr₂ w m₂ s₂ hm₂ hs₂
  exact hk' r₂ (by omega) w m₂ s₂ (hm₁.trans hm₂) hs₂

end Simulates

/-! ## Loops on a condition -/

section Loops

variable {α : Type} {chunk : Chunk} {run : Eval.Runner} {depth rounds base pool back stop : Nat}
  {body : Eval Completion} {e : Expr} {a : Fragment}

/-- By induction on the rounds that are left. A round takes at least the step that tests the
condition, so there are never fewer rounds than steps. -/
theorem loop_agrees (he : ExprCode pool e a) (ha : chunk.Holds base pool a)
    (hvars : ∀ x ∈ e.variables, isHidden x = false)
    (htest : chunk.code[base + a.code.size]? = some ⟨.jumpIfFalse, (stop : Nat)⟩)
    (hbody : Simulates chunk depth rounds (base + a.code.size + 1) back body)
    (hback : chunk.code[back]? = some ⟨.jump, (base : Nat)⟩) {k : Completion → Eval α} :
    ∀ (n : Nat) {r : Nat} {m : Machine} {s : Session}, r ≤ n → r ≤ rounds → Same m s →
    (∀ r' ≤ r, ∀ v m' s', m.Keeps depth m' → Same m' s' →
      Agrees chunk r' stop m' (outcome (k (.next v)) s')) →
    Agrees chunk r base m
      (outcome (Eval.loop (Eval.expr run Session.globals e) body n >>= k) s)
  | 0, r, m, s, hn, _, _, _ => by
      obtain rfl : r = 0 := by omega
      exact .zero
  | n + 1, r, m, s, hn, hr, hs, hk => by
      rw [Eval.loop, bind_assoc]
      apply he.agrees ha hvars hs
      intro r₁ hr₁ v m₁ s₁ hv hm₁ hs₁
      apply Agrees.jumpIfFalse htest hm₁.stack hs₁
      intro r₂ hr₂ m₂ hm₂ hs₂
      have hkeep : m.Keeps depth m₂ := .of_restacked (hm₁.trans hm₂)
      by_cases ht : v.isTruthy = true
      · simp only [if_pos ht]
        rw [Eval.andThen, bind_assoc]
        apply hbody (by omega) hs₂
        intro r₃ hr₃ w m₃ s₃ hm₃ hs₃
        apply Agrees.jump hback hs₃
        intro r₄ hr₄ m₄ hm₄ hs₄
        have hkeep₄ : m.Keeps depth m₄ := hkeep.trans (hm₃.trans (.of_restacked hm₄))
        -- the machine has made at least two steps, so a round less is enough
        apply loop_agrees he ha hvars htest hbody hback n (by omega) (by omega) hs₄
        intro r₅ hr₅ w' m₅ s₅ hm₅ hs₅
        exact hk r₅ (by omega) w' m₅ s₅ (hkeep₄.trans hm₅) hs₅
      · simp only [if_neg ht, pure_bind]
        exact hk r₂ (by omega) .null m₂ s₁ hkeep hs₂

end Loops

/-! ## Loops over an array -/

section Arrays

variable {α : Type} {chunk : Chunk} {depth rounds base pool stop i : Nat} {item : String}
  {r : Nat} {m : Machine} {s : Session} {fin : Except Halt α × Session} {v : Value}
  {items : Array Value}

/-- The array is kept and the counter starts at zero. -/
theorem loopInit_agrees {rest : List Value}
    (hf : chunk.Holds base pool (Compiler.loopEntry depth pool stop item)) (hs : Same m s)
    (hv : m.stack = v :: rest) (hplain : v.isPlain = true)
    (h : ∀ r' < r, ∀ m', m'.stack = rest →
      m'.globals = (m.globals.set (hiddenName "array" depth) v).set (hiddenName "idx" depth)
        (.ofNat 0) → Same m' s → Agrees chunk r' (base + 5) m' fin) :
    Agrees chunk r base m fin := by
  apply Agrees.store (hf.code 0 _ rfl) (hf.constant? (j := 0) rfl) (hf.code 1 _ rfl) hv
  · exact fun m' hg ho => hs.set_hidden (Compiler.isHidden_array depth) hplain hg ho
  intro r₁ hr₁ m₁ hstack₁ hglobals₁ hs₁
  apply Agrees.loadConst (v := .number 0.0) (hf.code 2 _ rfl) (hf.constant? (j := 1) rfl) hs₁
  intro r₂ hr₂ m₂ hm₂ hs₂
  rw [← Number.ofNat_zero] at hm₂
  apply Agrees.store (hf.code 3 _ rfl) (hf.constant? (j := 2) rfl) (hf.code 4 _ rfl) hm₂.stack
  · exact fun m' hg ho => hs₂.set_hidden (Compiler.isHidden_idx depth) rfl hg ho
  intro r₃ hr₃ m₃ hstack₃ hglobals₃ hs₃
  rw [hm₂.globals, hglobals₁] at hglobals₃
  exact h r₃ (by omega) m₃ (hstack₃.trans hstack₁) hglobals₃ hs₃

/-- The test goes on with the body while the counter is below the length. -/
theorem loopTest_agrees (hf : chunk.Holds base pool (Compiler.loopEntry depth pool stop item))
    (hs : Same m s) (hv : m.globals.get? (hiddenName "array" depth) = some v)
    (hi : m.globals.get? (hiddenName "idx" depth) = some (.ofNat i))
    (hle : ∀ items, v = .array items → i ≤ items.size)
    (h : ∀ items, v = .array items → items.size < 2 ^ 53 → ∀ r' < r, ∀ m',
      m.Restacked m.stack m' → Same m' s →
      Agrees chunk r' (if i < items.size then base + 10 else stop) m' fin) :
    Agrees chunk r (base + 5) m fin := by
  apply Agrees.loadVar (hf.code 5 _ rfl) (hf.constant? (j := 3) rfl) hs
  intro w hw r₁ hr₁ m₁ hm₁ hs₁
  obtain rfl : Value.ofNat i = w := Option.some.inj (hi.symm.trans hw)
  apply Agrees.loadVar (hf.code 6 _ rfl) (hf.constant? (j := 4) rfl) hs₁
  intro w hw r₂ hr₂ m₂ hm₂ hs₂
  rw [hm₁.globals] at hw
  obtain rfl : v = w := Option.some.inj (hv.symm.trans hw)
  apply Agrees.arrayLength (hf.code 7 _ rfl) hm₂.stack hs₂
  rintro items rfl hsize r₃ hr₃ m₃ hm₃ hs₃
  rw [hm₁.stack] at hm₃
  -- the machine compares floats, which are exact at this size
  have hless : decide (Float.ofNat i < Float.ofNat items.size) = decide (i < items.size) := by
    have hle' := hle items rfl
    exact decide_eq_decide.mpr (Number.ofNat_lt_ofNat (by omega) hsize)
  apply Agrees.less (hf.code 8 _ rfl) hm₃.stack hs₃
  intro r₄ hr₄ m₄ hm₄ hs₄
  rw [hless] at hm₄
  apply Agrees.jumpIfFalse (hf.code 9 _ rfl) hm₄.stack hs₄
  intro r₅ hr₅ m₅ hm₅ hs₅
  have hm := hm₁.trans (hm₂.trans (hm₃.trans (hm₄.trans hm₅)))
  simpa only [Value.isTruthy_ofBool, decide_eq_true_eq] using
    h items rfl hsize r₅ (by omega) m₅ hm hs₅

/-- The next item is bound to its name. -/
theorem loopFetch_agrees (hf : chunk.Holds base pool (Compiler.loopEntry depth pool stop item))
    (hs : Same m s) (hitem : isHidden item = false)
    (ha : m.globals.get? (hiddenName "array" depth) = some (.array items))
    (hi : m.globals.get? (hiddenName "idx" depth) = some (.ofNat i)) (hsize : items.size < 2 ^ 53)
    (hv : items[i]? = some v)
    (h : ∀ r' < r, ∀ m', m'.stack = m.stack → m'.globals = m.globals.set item v →
      Same m' { s with store := s.store.set Session.globals item v } →
      Agrees chunk r' (base + 15) m' fin) : Agrees chunk r (base + 10) m fin := by
  apply Agrees.loadVar (hf.code 10 _ rfl) (hf.constant? (j := 5) rfl) hs
  intro w hw r₁ hr₁ m₁ hm₁ hs₁
  obtain rfl : Value.array items = w := Option.some.inj (ha.symm.trans hw)
  apply Agrees.loadVar (hf.code 11 _ rfl) (hf.constant? (j := 6) rfl) hs₁
  intro w hw r₂ hr₂ m₂ hm₂ hs₂
  rw [hm₁.globals] at hw
  obtain rfl : Value.ofNat i = w := Option.some.inj (hi.symm.trans hw)
  rw [hm₁.stack] at hm₂
  have hlt : i < items.size := (Array.getElem?_eq_some_iff.mp hv).1
  -- the counter is below `2 ^ 53`, so that it is the index exactly
  have hat : Machine.itemAt (.array items) (.ofNat i) = .ok v := by
    simp only [Machine.itemAt, Value.ofNat, Number.toIndex_ofNat (hlt.trans hsize)]
    rw [if_neg (by omega), Int.toNat_natCast, hv]
  apply Agrees.index (hf.code 12 _ rfl) hm₂.stack hat hs₂
  intro r₃ hr₃ m₃ hm₃ hs₃
  have hm := hm₁.trans (hm₂.trans hm₃)
  have hplain : v.isPlain = true := Machine.isPlain_of_getElem? (hs.isPlain_of_get? ha) hv
  apply Agrees.store (hf.code 13 _ rfl) (hf.constant? (j := 7) rfl) (hf.code 14 _ rfl) hm₃.stack
  · exact fun m' hg ho => hs₃.set hitem hplain hg ho
  · intro r₄ hr₄ m₄ hstack hglobals hs₄
    rw [hm.globals] at hglobals
    exact h r₄ (by omega) m₄ hstack hglobals hs₄

/-- The counter goes up by one and control returns to the test. -/
theorem loopCount_agrees {start : Nat}
    (hf : chunk.Holds base pool (Compiler.loopExit depth pool start)) (hs : Same m s)
    (hi : m.globals.get? (hiddenName "idx" depth) = some (.ofNat i)) (hsize : i + 1 < 2 ^ 53)
    (h : ∀ r' < r, ∀ m', m'.stack = m.stack →
      m'.globals = m.globals.set (hiddenName "idx" depth) (.ofNat (i + 1)) → Same m' s →
      Agrees chunk r' start m' fin) : Agrees chunk r base m fin := by
  apply Agrees.loadVar (hf.code 0 _ rfl) (hf.constant? (j := 0) rfl) hs
  intro w hw r₁ hr₁ m₁ hm₁ hs₁
  obtain rfl : Value.ofNat i = w := Option.some.inj (hi.symm.trans hw)
  apply Agrees.loadConst (v := .number 1.0) (hf.code 1 _ rfl) (hf.constant? (j := 1) rfl) hs₁
  intro r₂ hr₂ m₂ hm₂ hs₂
  rw [hm₁.stack] at hm₂
  apply Agrees.add (hf.code 2 _ rfl) hm₂.stack hs₂
  intro r₃ hr₃ m₃ hm₃ hs₃
  rw [Number.ofNat_add_one hsize] at hm₃
  have hm := hm₁.trans (hm₂.trans hm₃)
  apply Agrees.store (hf.code 3 _ rfl) (hf.constant? (j := 2) rfl) (hf.code 4 _ rfl) hm₃.stack
  · exact fun m' hg ho => hs₃.set_hidden (Compiler.isHidden_idx depth) rfl hg ho
  · intro r₄ hr₄ m₄ hstack hglobals hs₄
    rw [hm.globals] at hglobals
    apply Agrees.jump (hf.code 5 _ rfl) hs₄
    intro r₅ hr₅ m₅ hm₅ hs₅
    exact h r₅ (by omega) m₅ (hm₅.stack.trans hstack) (hm₅.globals.trans hglobals) hs₅

variable {body : Eval Completion} {exitAt exitPool : Nat}

/-- By induction on the items that are left. The body sets no hidden global of this loop, so
the array and the counter are found again after it. -/
theorem forEach_agrees
    (hentry : chunk.Holds base pool (Compiler.loopEntry depth pool stop item))
    (hexit : chunk.Holds exitAt exitPool (Compiler.loopExit depth exitPool (base + 5)))
    (hitem : isHidden item = false)
    (hbody : Simulates chunk (depth + 1) rounds (base + 15) exitAt body)
    {k : Completion → Eval α} :
    ∀ (vs : List Value) {i r : Nat} {m : Machine} {s : Session},
    items.toList.drop i = vs → i ≤ items.size → r ≤ rounds → Same m s →
    m.globals.get? (hiddenName "array" depth) = some (.array items) →
    m.globals.get? (hiddenName "idx" depth) = some (.ofNat i) →
    (∀ r' ≤ r, ∀ v m' s', m.Keeps depth m' → Same m' s' →
      Agrees chunk r' stop m' (outcome (k (.next v)) s')) →
    Agrees chunk r (base + 5) m
      (outcome (Eval.forEach Session.globals item body vs >>= k) s)
  | [], i, r, m, s, hvs, hle, hr, hs, ha, hi, hk => by
      have hend : ¬ i < items.size := by
        have hlen := congrArg List.length hvs
        rw [List.length_drop, Array.length_toList, List.length_nil] at hlen
        omega
      apply loopTest_agrees hentry hs ha hi (by rintro _ ⟨⟩; exact hle)
      rintro _ ⟨⟩ hsize r₁ hr₁ m₁ hm₁ hs₁
      rw [if_neg hend, Eval.forEach, pure_bind]
      exact hk r₁ (by omega) .null m₁ s (.of_restacked hm₁) hs₁
  | v :: vs, i, r, m, s, hvs, hle, hr, hs, ha, hi, hk => by
      have hv : items[i]? = some v := by
        rw [← Array.getElem?_toList, ← List.head?_drop, hvs]
        rfl
      have hlt : i < items.size := (Array.getElem?_eq_some_iff.mp hv).1
      have hvs' : items.toList.drop (i + 1) = vs := by
        rw [← List.tail_drop, hvs]
        rfl
      apply loopTest_agrees hentry hs ha hi (by rintro _ ⟨⟩; exact hle)
      rintro _ ⟨⟩ hsize r₁ hr₁ m₁ hm₁ hs₁
      rw [if_pos hlt]
      rw [← hm₁.globals] at ha hi
      apply loopFetch_agrees hentry hs₁ hitem ha hi hsize hv
      intro r₂ hr₂ m₂ hstack₂ hglobals₂ hs₂
      have hm₂ : m₁.Keeps (depth + 1) m₂ := .of_set hstack₂ hglobals₂ (by rw [hitem]; nofun)
      rw [Eval.forEach, Eval.bindName, bind_assoc, Eval.outcome_modify_bind, Eval.andThen,
        bind_assoc]
      apply hbody (by omega) hs₂
      intro r₃ hr₃ w m₃ s₃ hm₃ hs₃
      -- the body may hold loops of its own, whose hidden names are deeper than these two
      have hkept := hm₂.trans hm₃
      have ha₃ := (hkept.hidden _ (Compiler.isHidden_array depth)
        (by rw [Compiler.depthIn_array]; omega)).trans ha
      have hi₃ := (hkept.hidden _ (Compiler.isHidden_idx depth)
        (by rw [Compiler.depthIn_idx]; omega)).trans hi
      apply loopCount_agrees hexit hs₃ hi₃ (by omega)
      intro r₄ hr₄ m₄ hstack₄ hglobals₄ hs₄
      have hm₄ : m₃.Keeps depth m₄ :=
        .of_set hstack₄ hglobals₄ fun _ => (Compiler.depthIn_idx depth).ge
      have hkeep : m.Keeps depth m₄ :=
        (Machine.Keeps.of_restacked hm₁).trans (hkept.mono.trans hm₄)
      apply forEach_agrees hentry hexit hitem hbody vs hvs' hlt (by omega) hs₄
      · rw [hglobals₄, Bindings.get?_set_ne (Compiler.hiddenName_array_ne_idx depth depth)]
        exact ha₃
      · rw [hglobals₄, Bindings.get?_set_self]
      · intro r₅ hr₅ w' m₅ s₅ hm₅ hs₅
        exact hk r₅ (by omega) w' m₅ s₅ (hkeep.trans hm₅) hs₅

end Arrays

/-! ## Statements -/

theorem optionalBlock_eq {run : Eval.Runner} {rounds : Nat} {scope : ScopeId}
    (no : Option (List Stmt)) :
    Eval.optionalBlock run rounds scope no =
      Eval.block run rounds scope .null (no.getD []) := by
  cases no <;> rw [Eval.optionalBlock] <;> rfl

theorem optionVariables_eq (no : Option (List Stmt)) :
    Stmt.optionVariables no = Stmt.listVariables (no.getD []) := by
  cases no <;> rfl

variable {chunk : Chunk} {run : Eval.Runner} {rounds : Nat}

/-- A value stored under a name of the program, on both sides. -/
theorem assign_agrees {depth base pool : Nat} {x : String} {e : Expr} {a : Fragment}
    {c : Value → Completion} (he : ExprCode pool e a)
    (hf : chunk.Holds base pool (a ++ .store x (pool + a.constants.size)))
    (hx : isHidden x = false) (hvars : ∀ y ∈ e.variables, isHidden y = false)
    (hc : ∀ v, ∃ w, c v = .next w) :
    Simulates chunk depth rounds base (base + (a.code.size + 2)) (do
      let v ← Eval.expr run Session.globals e
      Eval.bindName Session.globals x v
      return c v) := by
  intro α k r m s hr hs hk
  simp only [bind_assoc, pure_bind]
  apply he.agrees hf.left hvars hs
  intro r₁ hr₁ v m₁ s₁ hv hm₁ hs₁
  obtain ⟨w, hw⟩ := hc v
  rw [Eval.bindName, Eval.outcome_modify_bind, hw]
  apply Agrees.store hf.right.left.withConstant.1 hf.right.left.withConstant.2 hf.right.right.emit
    hm₁.stack
  · exact fun m' hg ho => hs₁.set hx hv hg ho
  · intro r₂ hr₂ m₂ hstack hglobals hs₂
    rw [hm₁.globals] at hglobals
    exact hk r₂ (by omega) w m₂ _ (.of_set hstack hglobals (by rw [hx]; nofun)) hs₂

mutual

theorem StmtCode.agrees : ∀ {depth base pool : Nat} {st : Stmt} {f : Fragment},
    StmtCode depth base pool st f → chunk.Holds base pool f →
    (∀ x ∈ st.variables, isHidden x = false) →
    Simulates chunk depth rounds base (base + f.code.size)
      (Eval.stmt run rounds Session.globals st)
  | depth, _, _, _, _, .expr he, hf, hvars => by
      rw [Stmt.variables] at hvars
      intro α k r m s hr hs hk
      simp only [Eval.stmt, bind_assoc, pure_bind]
      apply he.agrees hf.left hvars hs
      intro r₁ hr₁ v m₁ s₁ hv hm₁ hs₁
      apply Agrees.pop hf.right.emit hm₁.stack hs₁
      intro r₂ hr₂ m₂ hm₂ hs₂
      have hkeep : m.Keeps depth m₂ := .of_restacked (hm₁.trans hm₂)
      simpa [Nat.add_assoc] using hk r₂ (by omega) v m₂ s₁ hkeep hs₂
  | _, _, _, _, _, .bind he, hf, hvars => by
      simp only [Stmt.variables, List.forall_mem_cons] at hvars
      rw [Eval.stmt, Fragment.code_append, Array.size_append]
      exact assign_agrees he hf hvars.1 hvars.2 fun _ => ⟨_, rfl⟩
  | _, _, _, _, _, .assign he, hf, hvars => by
      simp only [Stmt.variables, List.forall_mem_cons] at hvars
      rw [Eval.stmt, Fragment.code_append, Array.size_append]
      exact assign_agrees he hf hvars.1 hvars.2 fun _ => ⟨_, rfl⟩
  | depth, _, _, _, _, .choose he hy hn, hf, hvars => by
      simp only [Fragment.append_assoc] at hf
      simp only [Stmt.variables, optionVariables_eq, List.forall_mem_append] at hvars
      simp only [Fragment.append_assoc, Fragment.code_append, Array.size_append, ← Nat.add_assoc]
      intro α k r m s hr hs hk
      simp only [Eval.stmt, bind_assoc]
      apply he.agrees hf.left hvars.1.1 hs
      intro r₁ hr₁ v m₁ s₁ hv hm₁ hs₁
      apply Agrees.jumpIfFalse hf.right.left.emit hm₁.stack hs₁
      intro r₂ hr₂ m₂ hm₂ hs₂
      have hkeep : m.Keeps depth m₂ := .of_restacked (hm₁.trans hm₂)
      by_cases ht : v.isTruthy = true
      · simp only [if_pos ht]
        apply hy.agrees hf.right.right.left hvars.1.2 .null (by omega) hs₂
        intro r₃ hr₃ w m₃ s₃ hm₃ hs₃
        apply Agrees.jump hf.right.right.right.left.emit hs₃
        intro r₄ hr₄ m₄ hm₄ hs₄
        exact hk r₄ (by omega) w m₄ s₃ (hkeep.trans (hm₃.trans (.of_restacked hm₄))) hs₄
      · simp only [if_neg ht, optionalBlock_eq]
        apply hn.agrees hf.right.right.right.right hvars.2 .null (by omega) hs₂
        intro r₃ hr₃ w m₃ s₃ hm₃ hs₃
        exact hk r₃ (by omega) w m₃ s₃ (hkeep.trans hm₃) hs₃
  | _, _, _, _, _, .loop he hb, hf, hvars => by
      simp only [Fragment.append_assoc] at hf
      simp only [Stmt.variables, List.forall_mem_append] at hvars
      simp only [Fragment.append_assoc, Fragment.code_append, Array.size_append, ← Nat.add_assoc]
      intro α k r m s hr hs hk
      rw [Eval.stmt]
      exact loop_agrees he hf.left hvars.1 hf.right.left.emit
        (hb.agrees hf.right.right.left hvars.2 .null) hf.right.right.right.emit rounds hr hr hs hk
  | depth, _, _, _, _, .forEach he hb, hf, hvars => by
      simp only [Fragment.append_assoc] at hf
      simp only [Stmt.variables, List.cons_append, List.forall_mem_cons,
        List.forall_mem_append] at hvars
      simp only [Fragment.append_assoc, Fragment.code_append, Array.size_append, ← Nat.add_assoc]
      intro α k r m s hr hs hk
      simp only [Eval.stmt, bind_assoc]
      apply he.agrees hf.left hvars.2.1 hs
      intro r₁ hr₁ v m₁ s₁ hv hm₁ hs₁
      apply loopInit_agrees hf.right.left hs₁ hm₁.stack hv
      intro r₂ hr₂ m₂ hstack hglobals hs₂
      rw [hm₁.globals] at hglobals
      have ha : m₂.globals.get? (hiddenName "array" depth) = some v := by
        rw [hglobals, Bindings.get?_set_ne (Compiler.hiddenName_array_ne_idx depth depth),
          Bindings.get?_set_self]
      have hi : m₂.globals.get? (hiddenName "idx" depth) = some (.ofNat 0) := by
        rw [hglobals, Bindings.get?_set_self]
      have hkeep : m.Keeps depth m₂ := by
        refine ⟨hstack, fun x hx hd => ?_⟩
        rw [hglobals, Bindings.get?_set_ne, Bindings.get?_set_ne]
        · rintro rfl
          rw [Compiler.depthIn_array] at hd
          omega
        · rintro rfl
          rw [Compiler.depthIn_idx] at hd
          omega
      cases v with
      | array items =>
          apply forEach_agrees hf.right.left hf.right.right.right hvars.1
            (hb.agrees hf.right.right.left hvars.2.2 .null) items.toList (i := 0) rfl
            (Nat.zero_le _) (by omega) hs₂ ha hi
          intro r₃ hr₃ w m₃ s₃ hm₃ hs₃
          exact hk r₃ (by omega) w m₃ s₃ (hkeep.trans hm₃) hs₃
      -- a text is left out by the condition on operands, and nothing else has a length
      | _ => exact loopTest_agrees hf.right.left hs₂ ha hi nofun nofun

theorem BlockCode.agrees : ∀ {depth base pool : Nat} {ss : List Stmt} {f : Fragment},
    BlockCode depth base pool ss f → chunk.Holds base pool f →
    (∀ x ∈ Stmt.listVariables ss, isHidden x = false) → ∀ last : Value,
    Simulates chunk depth rounds base (base + f.code.size)
      (Eval.block run rounds Session.globals last ss)
  | _, _, _, _, _, .nil, _, _, last => by
      rw [Eval.block]
      exact .next last
  | _, _, _, _, _, .cons hs hss, hf, hvars, _ => by
      simp only [Stmt.listVariables, List.forall_mem_append] at hvars
      rw [Eval.block, Fragment.code_append, Array.size_append, ← Nat.add_assoc]
      exact (hs.agrees hf.left hvars.1).andThen (hss.agrees hf.right hvars.2)

end

end ScriptLang
