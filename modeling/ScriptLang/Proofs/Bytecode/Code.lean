import Mathlib
import ScriptLang.Proofs.Bytecode.Fragment

/-!
# The code of each construct

What the compiler makes of an expression or a statement, said once as a relation
between the construct and its fragment with one rule for each construct that has
bytecode. Facts about compiled code are proved by induction on that relation, so
the constructs that the compiler refuses never come up in them.
-/

namespace ScriptLang

/-! ## Results of the compiler -/

theorem Except.bind_eq_ok {ε α β : Type} {x : Except ε α} {k : α → Except ε β} {b : β} :
    (x >>= k) = .ok b ↔ ∃ a, x = .ok a ∧ k a = .ok b := by
  cases x with
  | error e => exact ⟨nofun, by rintro ⟨a, ha, -⟩; cases ha⟩
  | ok a => exact ⟨fun h => ⟨a, rfl, h⟩, by rintro ⟨a', ha, h⟩; cases ha; exact h⟩

theorem Except.pure_eq_ok {ε α : Type} {a b : α} :
    (pure a : Except ε α) = .ok b ↔ b = a :=
  ⟨fun h => by cases h; rfl, fun h => by rw [h]; rfl⟩

namespace Compiler

open Fragment

variable {pool base depth : Nat} {f : Fragment}

-- one set of equations for all lemmas below
attribute [local simp] expr exprs stmt block

/-! ## Expressions -/

theorem expr_binary_ok {p : Place} {l r : Expr} {op : BinaryOp}
    (h : expr pool (.binary p l op r) = .ok f) :
    ∃ code a b, Opcode.ofBinary? op = some code ∧ expr pool l = .ok a ∧
      expr (pool + a.constants.size) r = .ok b ∧ f = a ++ b ++ emit code := by
  rw [expr] at h
  cases hop : Opcode.ofBinary? op with
  | none => rw [hop] at h; cases h
  | some code =>
      rw [hop] at h
      simp only [Except.bind_eq_ok, Except.pure_eq_ok] at h
      obtain ⟨a, ha, b, hb, rfl⟩ := h
      exact ⟨code, a, b, rfl, ha, hb, rfl⟩

theorem expr_unary_ok {p : Place} {op : UnaryOp} {e : Expr}
    (h : expr pool (.unary p op e) = .ok f) :
    ∃ a, expr pool e = .ok a ∧ f = a ++ emit (Opcode.ofUnary op) := by
  rw [expr] at h
  simpa only [Except.bind_eq_ok, Except.pure_eq_ok] using h

theorem expr_call_ok {p : Place} {callee : String} {args : List Expr}
    (h : expr pool (.call p callee args) = .ok f) :
    callee = "print" ∧ ∃ a, exprs pool {} args = .ok a ∧
      f = a ++ emit .print args.length ++ emit .loadNull := by
  rw [expr] at h
  by_cases hc : callee = "print"
  · rw [if_pos hc] at h
    exact ⟨hc, by simpa only [Except.bind_eq_ok, Except.pure_eq_ok] using h⟩
  · rw [if_neg hc] at h
    cases h

theorem expr_array_ok {p : Place} {items : List Expr}
    (h : expr pool (.array p items) = .ok f) :
    ∃ a, exprs pool {} items = .ok a ∧ f = a ++ emit .buildArray items.length := by
  rw [expr] at h
  simpa only [Except.bind_eq_ok, Except.pure_eq_ok] using h

theorem expr_index_ok {p : Place} {target key : Expr}
    (h : expr pool (.index p target key) = .ok f) :
    ∃ a b, expr pool target = .ok a ∧ expr (pool + a.constants.size) key = .ok b ∧
      f = a ++ b ++ emit .index := by
  rw [expr] at h
  simpa only [Except.bind_eq_ok, Except.pure_eq_ok, exists_and_left] using h

/-- What is done already only stands in front. -/
theorem exprs_eq (pool : Nat) (done : Fragment) (es : List Expr) :
    exprs pool done es = (exprs (pool + done.constants.size) {} es).map (done ++ ·) := by
  induction es generalizing pool done with
  | nil => simp [Except.map]
  | cons e es ih =>
      rw [exprs, exprs]
      cases he : expr (pool + done.constants.size) e with
      | error u => simp [bind, Except.bind, Except.map]
      | ok a =>
          have h1 := ih pool (done ++ a)
          have h2 := ih (pool + done.constants.size) a
          simp only [constants_append, Array.size_append, ← Nat.add_assoc] at h1
          simp only [bind, Except.bind, empty_append, h1, h2]
          cases exprs (pool + done.constants.size + a.constants.size) {} es with
          | error u => rfl
          | ok b => exact congrArg Except.ok (append_assoc done a b)

theorem exprs_cons_ok {e : Expr} {es : List Expr} (h : exprs pool {} (e :: es) = .ok f) :
    ∃ a b, expr pool e = .ok a ∧ exprs (pool + a.constants.size) {} es = .ok b ∧ f = a ++ b := by
  rw [exprs] at h
  obtain ⟨a, ha, h⟩ := Except.bind_eq_ok.mp h
  rw [empty_append, exprs_eq] at h
  cases hb : exprs (pool + a.constants.size) {} es with
  | error u => rw [hb] at h; cases h
  | ok b =>
      rw [hb] at h
      cases h
      exact ⟨a, b, ha, hb, rfl⟩

/-! ## Statements -/

theorem stmt_expr_ok {p : Place} {e : Expr} (h : stmt depth base pool (.expr p e) = .ok f) :
    ∃ a, expr pool e = .ok a ∧ f = a ++ emit .pop := by
  rw [stmt] at h
  simpa only [Except.bind_eq_ok, Except.pure_eq_ok] using h

theorem stmt_bind_ok {p : Place} {x : String} {e : Expr}
    (h : stmt depth base pool (.bind p x e) = .ok f) :
    ∃ a, expr pool e = .ok a ∧ f = a ++ store x (pool + a.constants.size) := by
  rw [stmt] at h
  simpa only [Except.bind_eq_ok, Except.pure_eq_ok] using h

theorem stmt_assign_ok {p : Place} {x : String} {e : Expr}
    (h : stmt depth base pool (.assign p x e) = .ok f) :
    ∃ a, expr pool e = .ok a ∧ f = a ++ store x (pool + a.constants.size) := by
  rw [stmt] at h
  simpa only [Except.bind_eq_ok, Except.pure_eq_ok] using h

theorem stmt_choose_ok {p : Place} {e : Expr} {yes : List Stmt} {no : Option (List Stmt)}
    (h : stmt depth base pool (.choose p e yes no) = .ok f) :
    ∃ a y n, expr pool e = .ok a ∧
      block depth (base + a.code.size + 1) (pool + a.constants.size) {} yes = .ok y ∧
      optionalBlock depth (base + a.code.size + 1 + y.code.size + 1)
        (pool + a.constants.size + y.constants.size) no = .ok n ∧
      f = a ++ emit .jumpIfFalse ((base + a.code.size + 1 + y.code.size + 1 : Nat) : Int) ++ y
        ++ emit .jump ((base + a.code.size + 1 + y.code.size + 1 + n.code.size : Nat) : Int)
        ++ n := by
  rw [stmt] at h
  simpa only [Except.bind_eq_ok, Except.pure_eq_ok, exists_and_left] using h

theorem stmt_loop_ok {p : Place} {e : Expr} {body : List Stmt}
    (h : stmt depth base pool (.loop p e body) = .ok f) :
    ∃ a b, expr pool e = .ok a ∧
      block depth (base + a.code.size + 1) (pool + a.constants.size) {} body = .ok b ∧
      f = a ++ emit .jumpIfFalse ((base + a.code.size + 1 + b.code.size + 1 : Nat) : Int) ++ b
        ++ emit .jump (base : Int) := by
  rw [stmt] at h
  simpa only [Except.bind_eq_ok, Except.pure_eq_ok, exists_and_left] using h

/-- The code of a loop over an array from the end of the array's code to the start of
the body. It keeps the array and a counter, and fetches the next item or leaves. -/
def loopEntry (depth pool stop : Nat) (item : String) : Fragment :=
  let items := hiddenName "array" depth
  let counter := hiddenName "idx" depth
  ⟨#[⟨.storeVar, pool⟩, ⟨.pop, 0⟩, ⟨.loadConst, (pool + 1 : Nat)⟩, ⟨.storeVar, (pool + 2 : Nat)⟩,
      ⟨.pop, 0⟩,
      ⟨.loadVar, (pool + 3 : Nat)⟩, ⟨.loadVar, (pool + 4 : Nat)⟩, ⟨.arrayLength, 0⟩, ⟨.less, 0⟩,
      ⟨.jumpIfFalse, stop⟩,
      ⟨.loadVar, (pool + 5 : Nat)⟩, ⟨.loadVar, (pool + 6 : Nat)⟩, ⟨.index, 0⟩,
      ⟨.storeVar, (pool + 7 : Nat)⟩, ⟨.pop, 0⟩],
    #[.text items, .number 0.0, .text counter, .text counter, .text items, .text items,
      .text counter, .text item]⟩

/-- The code behind the body, which counts and goes back to the test at `start`. -/
def loopExit (depth pool start : Nat) : Fragment :=
  let counter := hiddenName "idx" depth
  ⟨#[⟨.loadVar, pool⟩, ⟨.loadConst, (pool + 1 : Nat)⟩, ⟨.add, 0⟩, ⟨.storeVar, (pool + 2 : Nat)⟩,
      ⟨.pop, 0⟩, ⟨.jump, start⟩],
    #[.text counter, .number 1.0, .text counter]⟩

/-! The four straight pieces of such a loop, written out. -/

theorem sequence_init (k : Nat) (items counter : String) :
    sequence k [store items, withConstant .loadConst (.number 0.0), store counter] =
      ⟨#[⟨.storeVar, k⟩, ⟨.pop, 0⟩, ⟨.loadConst, (k + 1 : Nat)⟩, ⟨.storeVar, (k + 2 : Nat)⟩,
          ⟨.pop, 0⟩],
        #[.text items, .number 0.0, .text counter]⟩ := rfl

theorem sequence_test (k : Nat) (items counter : String) :
    sequence k [load counter, load items, fun _ => emit .arrayLength, fun _ => emit .less] =
      ⟨#[⟨.loadVar, k⟩, ⟨.loadVar, (k + 1 : Nat)⟩, ⟨.arrayLength, 0⟩, ⟨.less, 0⟩],
        #[.text counter, .text items]⟩ := rfl

theorem sequence_fetch (k : Nat) (items counter item : String) :
    sequence k [load items, load counter, fun _ => emit .index, store item] =
      ⟨#[⟨.loadVar, k⟩, ⟨.loadVar, (k + 1 : Nat)⟩, ⟨.index, 0⟩, ⟨.storeVar, (k + 2 : Nat)⟩,
          ⟨.pop, 0⟩],
        #[.text items, .text counter, .text item]⟩ := rfl

theorem sequence_count (k : Nat) (counter : String) :
    sequence k [load counter, withConstant .loadConst (.number 1.0), fun _ => emit .add,
        store counter] =
      ⟨#[⟨.loadVar, k⟩, ⟨.loadConst, (k + 1 : Nat)⟩, ⟨.add, 0⟩, ⟨.storeVar, (k + 2 : Nat)⟩,
          ⟨.pop, 0⟩],
        #[.text counter, .number 1.0, .text counter]⟩ := rfl

theorem stmt_forEach_ok {p : Place} {item : String} {e : Expr} {body : List Stmt} {parallel : Bool}
    (h : stmt depth base pool (.forEach p item e body parallel) = .ok f) :
    ∃ a b, expr pool e = .ok a ∧
      block (depth + 1) (base + a.code.size + 15) (pool + a.constants.size + 8) {} body = .ok b ∧
      f = a ++ loopEntry depth (pool + a.constants.size)
          (base + a.code.size + 15 + b.code.size + 6) item
        ++ b ++ loopExit depth (pool + a.constants.size + 8 + b.constants.size)
          (base + a.code.size + 5) := by
  rw [stmt] at h
  obtain ⟨a, ha, h⟩ := Except.bind_eq_ok.mp h
  simp only [sequence_init, sequence_test, sequence_fetch, sequence_count, code_append,
    constants_append, Array.size_append, List.size_toArray, List.length_cons, List.length_nil,
    Nat.zero_add, Nat.reduceAdd, ← Nat.add_assoc] at h
  simp only [Nat.add_assoc, Nat.reduceAdd] at h
  obtain ⟨b, hb, h⟩ := Except.bind_eq_ok.mp h
  cases h
  refine ⟨a, b, ha, ?_, ?_⟩
  · simpa only [Nat.add_assoc, Nat.reduceAdd] using hb
  · apply Fragment.eq_of_parts
    · simp [loopEntry, loopExit, Nat.add_assoc]
    · simp [loopEntry, loopExit]

theorem block_eq (depth base pool : Nat) (done : Fragment) (ss : List Stmt) :
    block depth base pool done ss =
      (block depth (base + done.code.size) (pool + done.constants.size) {} ss).map (done ++ ·) := by
  induction ss generalizing base pool done with
  | nil => simp [Except.map]
  | cons s ss ih =>
      rw [block, block]
      cases hs : stmt depth (base + done.code.size) (pool + done.constants.size) s with
      | error u => simp [bind, Except.bind, Except.map]
      | ok a =>
          have h1 := ih base pool (done ++ a)
          have h2 := ih (base + done.code.size) (pool + done.constants.size) a
          simp only [code_append, constants_append, Array.size_append, ← Nat.add_assoc] at h1
          simp only [bind, Except.bind, empty_append, h1, h2]
          cases block depth (base + done.code.size + a.code.size)
              (pool + done.constants.size + a.constants.size) {} ss with
          | error u => rfl
          | ok b => exact congrArg Except.ok (append_assoc done a b)

theorem block_cons_ok {s : Stmt} {ss : List Stmt}
    (h : block depth base pool {} (s :: ss) = .ok f) :
    ∃ a b, stmt depth base pool s = .ok a ∧
      block depth (base + a.code.size) (pool + a.constants.size) {} ss = .ok b ∧ f = a ++ b := by
  rw [block] at h
  obtain ⟨a, ha, h⟩ := Except.bind_eq_ok.mp h
  rw [empty_append, block_eq] at h
  cases hb : block depth (base + a.code.size) (pool + a.constants.size) {} ss with
  | error u => rw [hb] at h; cases h
  | ok b =>
      rw [hb] at h
      cases h
      exact ⟨a, b, ha, hb, rfl⟩

end Compiler

/-! ## The relation -/

mutual

/-- The fragment is the code of the expression behind a pool of some size. -/
inductive ExprCode : Nat → Expr → Fragment → Prop
  | number {pool p n} :
      ExprCode pool (.number p n) (.withConstant .loadConst (.number n) pool)
  | text {pool p s} : ExprCode pool (.text p s) (.withConstant .loadConst (.text s) pool)
  | bool {pool p b} :
      ExprCode pool (.bool p b) (.emit (if b then .loadTrue else .loadFalse))
  | name {pool p x} : ExprCode pool (.name p x) (.withConstant .loadVar (.text x) pool)
  | binary {pool p l op r code a b} (hop : Opcode.ofBinary? op = some code)
      (hl : ExprCode pool l a) (hr : ExprCode (pool + a.constants.size) r b) :
      ExprCode pool (.binary p l op r) (a ++ b ++ .emit code)
  | unary {pool p op e a} (he : ExprCode pool e a) :
      ExprCode pool (.unary p op e) (a ++ .emit (Opcode.ofUnary op))
  | print {pool p args a} (ha : ExprsCode pool args a) :
      ExprCode pool (.call p "print" args) (a ++ .emit .print args.length ++ .emit .loadNull)
  | array {pool p items a} (ha : ExprsCode pool items a) :
      ExprCode pool (.array p items) (a ++ .emit .buildArray items.length)
  | index {pool p target key a b} (ht : ExprCode pool target a)
      (hk : ExprCode (pool + a.constants.size) key b) :
      ExprCode pool (.index p target key) (a ++ b ++ .emit .index)

/-- The code of expressions, one behind another. -/
inductive ExprsCode : Nat → List Expr → Fragment → Prop
  | nil {pool} : ExprsCode pool [] {}
  | cons {pool e es a b} (he : ExprCode pool e a) (hes : ExprsCode (pool + a.constants.size) es b) :
      ExprsCode pool (e :: es) (a ++ b)

end

mutual

/-- The fragment is the code of the statement inside so many loops over arrays, at an offset
and behind a pool of some size. -/
inductive StmtCode : Nat → Nat → Nat → Stmt → Fragment → Prop
  | expr {depth base pool p e a} (he : ExprCode pool e a) :
      StmtCode depth base pool (.expr p e) (a ++ .emit .pop)
  | bind {depth base pool p x e a} (he : ExprCode pool e a) :
      StmtCode depth base pool (.bind p x e) (a ++ .store x (pool + a.constants.size))
  | assign {depth base pool p x e a} (he : ExprCode pool e a) :
      StmtCode depth base pool (.assign p x e) (a ++ .store x (pool + a.constants.size))
  | choose {depth base pool p e yes no a y n} (he : ExprCode pool e a)
      (hy : BlockCode depth (base + a.code.size + 1) (pool + a.constants.size) yes y)
      (hn : BlockCode depth (base + a.code.size + 1 + y.code.size + 1)
        (pool + a.constants.size + y.constants.size) (no.getD []) n) :
      StmtCode depth base pool (.choose p e yes no)
        (a ++ .emit .jumpIfFalse (base + a.code.size + 1 + y.code.size + 1 : Nat) ++ y
          ++ .emit .jump (base + a.code.size + 1 + y.code.size + 1 + n.code.size : Nat) ++ n)
  | loop {depth base pool p e body a b} (he : ExprCode pool e a)
      (hb : BlockCode depth (base + a.code.size + 1) (pool + a.constants.size) body b) :
      StmtCode depth base pool (.loop p e body)
        (a ++ .emit .jumpIfFalse (base + a.code.size + 1 + b.code.size + 1 : Nat) ++ b
          ++ .emit .jump (base : Nat))
  | forEach {depth base pool p item e body parallel a b} (he : ExprCode pool e a)
      (hb : BlockCode (depth + 1) (base + a.code.size + 15) (pool + a.constants.size + 8) body b) :
      StmtCode depth base pool (.forEach p item e body parallel)
        (a ++ Compiler.loopEntry depth (pool + a.constants.size)
            (base + a.code.size + 15 + b.code.size + 6) item
          ++ b ++ Compiler.loopExit depth (pool + a.constants.size + 8 + b.constants.size)
            (base + a.code.size + 5))

/-- The code of statements, one behind another. -/
inductive BlockCode : Nat → Nat → Nat → List Stmt → Fragment → Prop
  | nil {depth base pool} : BlockCode depth base pool [] {}
  | cons {depth base pool s ss a b} (hs : StmtCode depth base pool s a)
      (hss : BlockCode depth (base + a.code.size) (pool + a.constants.size) ss b) :
      BlockCode depth base pool (s :: ss) (a ++ b)

end

/-! ## The compiler makes such code -/

mutual

theorem Compiler.exprCode : ∀ {pool : Nat} {e : Expr} {f : Fragment},
    expr pool e = .ok f → ExprCode pool e f
  | _, .number .., _, h => by cases h; exact .number
  | _, .text .., _, h => by cases h; exact .text
  | _, .bool .., _, h => by cases h; exact .bool
  | _, .name .., _, h => by cases h; exact .name
  | _, .binary .., _, h => by
      obtain ⟨code, a, b, hop, ha, hb, rfl⟩ := expr_binary_ok h
      exact .binary hop (exprCode ha) (exprCode hb)
  | _, .unary .., _, h => by
      obtain ⟨a, ha, rfl⟩ := expr_unary_ok h
      exact .unary (exprCode ha)
  | _, .call .., _, h => by
      obtain ⟨rfl, a, ha, rfl⟩ := expr_call_ok h
      exact .print (exprsCode ha)
  | _, .array .., _, h => by
      obtain ⟨a, ha, rfl⟩ := expr_array_ok h
      exact .array (exprsCode ha)
  | _, .index .., _, h => by
      obtain ⟨a, b, ha, hb, rfl⟩ := expr_index_ok h
      exact .index (exprCode ha) (exprCode hb)
  | _, .self .., _, h | _, .dict .., _, h | _, .matrix .., _, h | _, .field .., _, h
  | _, .methodCall .., _, h | _, .create .., _, h | _, .superCall .., _, h => by cases h

theorem Compiler.exprsCode : ∀ {pool : Nat} {es : List Expr} {f : Fragment},
    exprs pool {} es = .ok f → ExprsCode pool es f
  | _, [], _, h => by cases h; exact .nil
  | _, _ :: _, _, h => by
      obtain ⟨a, b, ha, hb, rfl⟩ := exprs_cons_ok h
      exact .cons (exprCode ha) (exprsCode hb)

end

mutual

theorem Compiler.stmtCode : ∀ {depth base pool : Nat} {s : Stmt} {f : Fragment},
    stmt depth base pool s = .ok f → StmtCode depth base pool s f
  | _, _, _, .expr .., _, h => by
      obtain ⟨a, ha, rfl⟩ := stmt_expr_ok h
      exact .expr (exprCode ha)
  | _, _, _, .bind .., _, h => by
      obtain ⟨a, ha, rfl⟩ := stmt_bind_ok h
      exact .bind (exprCode ha)
  | _, _, _, .assign .., _, h => by
      obtain ⟨a, ha, rfl⟩ := stmt_assign_ok h
      exact .assign (exprCode ha)
  | _, _, _, .choose _ _ _ none, _, h => by
      obtain ⟨a, y, n, ha, hy, hn, rfl⟩ := stmt_choose_ok h
      cases hn
      exact .choose (exprCode ha) (blockCode hy) .nil
  | _, _, _, .choose _ _ _ (some _), _, h => by
      obtain ⟨a, y, n, ha, hy, hn, rfl⟩ := stmt_choose_ok h
      exact .choose (exprCode ha) (blockCode hy) (blockCode hn)
  | _, _, _, .loop .., _, h => by
      obtain ⟨a, b, ha, hb, rfl⟩ := stmt_loop_ok h
      exact .loop (exprCode ha) (blockCode hb)
  | _, _, _, .forEach .., _, h => by
      obtain ⟨a, b, ha, hb, rfl⟩ := stmt_forEach_ok h
      exact .forEach (exprCode ha) (blockCode hb)
  | _, _, _, .define .., _, h | _, _, _, .defineClass .., _, h | _, _, _, .assignField .., _, h
  | _, _, _, .giveBack .., _, h | _, _, _, .attempt .., _, h | _, _, _, .raise .., _, h
  | _, _, _, .check .., _, h | _, _, _, .importModule .., _, h | _, _, _, .importNames .., _, h
  | _, _, _, .share .., _, h => by cases h

theorem Compiler.blockCode : ∀ {depth base pool : Nat} {ss : List Stmt} {f : Fragment},
    block depth base pool {} ss = .ok f → BlockCode depth base pool ss f
  | _, _, _, [], _, h => by cases h; exact .nil
  | _, _, _, _ :: _, _, h => by
      obtain ⟨a, b, ha, hb, rfl⟩ := block_cons_ok h
      exact .cons (stmtCode ha) (blockCode hb)

end

/-- A compiled program holds the code of its statements and then a halt. -/
theorem Program.compile_ok {p : Program} {c : Chunk} (h : p.compile = .ok c) :
    ∃ f, Compiler.block 0 0 0 {} p.stmts = .ok f ∧ c.Holds 0 0 f ∧
      c.code = f.code.push ⟨.halt, 0⟩ := by
  rw [Program.compile] at h
  obtain ⟨f, hf, h⟩ := Except.bind_eq_ok.mp h
  obtain rfl := Except.pure_eq_ok.mp h
  refine ⟨f, hf, ⟨fun j i hj => ?_, fun j v hj => ?_⟩, rfl⟩
  · have hlt : j < f.code.size := (Array.getElem?_eq_some_iff.mp hj).1
    rw [Nat.zero_add, Array.getElem?_push_lt hlt, ← Array.getElem?_eq_getElem hlt]
    exact hj
  · rw [Nat.zero_add]
    exact hj

/-- The bytecode of a program that has some. -/
def Program.chunk (p : Program) : Chunk := p.compile.toOption.getD {}

theorem Program.compile_eq_chunk {p : Program} (h : p.compile.isOk = true) :
    p.compile = .ok p.chunk := by
  unfold Program.chunk
  cases hc : p.compile with
  | error u => rw [hc] at h; cases h
  | ok c => rfl

end ScriptLang
