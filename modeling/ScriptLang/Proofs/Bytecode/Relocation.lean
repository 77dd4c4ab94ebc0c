import Mathlib
import ScriptLang.Proofs.Bytecode.Code

/-!
# Code at another place

The code of a statement depends on where it stands only through its jumps and the
places of its constants. Compiled further on, and behind a larger pool, it is the same
code with both moved (`Compiler.block_moved`). So the code of one program followed by
another is the code of the first, without its halt, and behind it that of the second,
moved (`Program.compile_relocated`).
-/

namespace ScriptLang

/-- How much the operand of an instruction grows when its code stands `offset` further on and
its constants `shift`. -/
def Opcode.drift (offset shift : Nat) : Opcode → Nat
  | .jump | .jumpIfFalse => offset
  | .loadConst | .loadVar | .storeVar => shift
  | _ => 0

def Instr.moved (offset shift : Nat) (i : Instr) : Instr :=
  { i with operand := i.operand + i.op.drift offset shift }

theorem Instr.moved_zero (i : Instr) : i.moved 0 0 = i := by
  obtain ⟨op, n⟩ := i
  have hn : n + (op.drift 0 0 : Nat) = n := by cases op <;> exact Int.add_zero n
  rw [moved, hn]

namespace Fragment

def moved (offset shift : Nat) (f : Fragment) : Fragment :=
  ⟨f.code.map (·.moved offset shift), f.constants⟩

variable {offset shift : Nat}

@[simp] theorem size_code_moved (f : Fragment) :
    (f.moved offset shift).code.size = f.code.size :=
  Array.size_map

@[simp] theorem constants_moved (f : Fragment) :
    (f.moved offset shift).constants = f.constants := rfl

@[simp] theorem moved_empty : ({} : Fragment).moved offset shift = {} :=
  Fragment.eq_of_parts Array.map_empty rfl

@[simp] theorem moved_append (f g : Fragment) :
    (f ++ g).moved offset shift = f.moved offset shift ++ g.moved offset shift :=
  Fragment.eq_of_parts Array.map_append rfl

theorem moved_emit (op : Opcode) (n : Int) :
    (emit op n).moved offset shift = emit op (n + op.drift offset shift) :=
  Fragment.eq_of_parts (by simp [moved, Instr.moved]) rfl

/-- An instruction whose operand is a count, or means nothing, is the same everywhere. -/
theorem moved_emit_of_drift {op : Opcode} (n : Int) (h : op.drift offset shift = 0) :
    (emit op n).moved offset shift = emit op n := by
  rw [moved_emit, h, Nat.cast_zero, Int.add_zero]

theorem moved_jump (t : Nat) :
    (emit .jump (t : Nat)).moved offset shift = emit .jump ((t + offset : Nat) : Int) :=
  moved_emit _ _

theorem moved_jumpIfFalse (t : Nat) :
    (emit .jumpIfFalse (t : Nat)).moved offset shift =
      emit .jumpIfFalse ((t + offset : Nat) : Int) :=
  moved_emit _ _

theorem moved_withConstant {op : Opcode} (v : Value) (pool : Nat)
    (h : op.drift offset shift = shift) :
    (withConstant op v pool).moved offset shift = withConstant op v (pool + shift) :=
  Fragment.eq_of_parts (by simp [moved, Instr.moved, h]) rfl

theorem moved_store (x : String) (pool : Nat) :
    (store x pool).moved offset shift = store x (pool + shift) := by
  rw [store, moved_append, moved_withConstant _ _ rfl, moved_emit_of_drift _ rfl, store]

theorem moved_binary {op : BinaryOp} {code : Opcode} (h : Opcode.ofBinary? op = some code) :
    (emit code).moved offset shift = emit code := by
  refine moved_emit_of_drift _ ?_
  cases op <;> cases h <;> rfl

theorem moved_unary (op : UnaryOp) :
    (emit (Opcode.ofUnary op)).moved offset shift = emit (Opcode.ofUnary op) := by
  refine moved_emit_of_drift _ ?_
  cases op <;> rfl

end Fragment

namespace Compiler

open Fragment

variable {offset shift : Nat}

/-! ## Expressions -/

mutual

theorem expr_moved (offset shift : Nat) : ∀ {pool : Nat} {e : Expr} {f : Fragment},
    expr pool e = .ok f → expr (pool + shift) e = .ok (f.moved offset shift)
  | _, .number .., _, h => by
      cases h
      rw [expr, moved_withConstant _ _ rfl]
  | _, .text .., _, h => by
      cases h
      rw [expr, moved_withConstant _ _ rfl]
  | _, .bool _ b, _, h => by
      cases h
      rw [expr, moved_emit_of_drift]
      cases b <;> rfl
  | _, .name .., _, h => by
      cases h
      rw [expr, load, load, moved_withConstant _ _ rfl]
  | pool, .binary .., _, h => by
      obtain ⟨code, a, b, hop, ha, hb, rfl⟩ := expr_binary_ok h
      -- the pool of the right operand begins behind the constants of the left one
      have hb' := expr_moved offset shift hb
      rw [Nat.add_right_comm] at hb'
      rw [expr, hop]
      simp only [Except.bind_eq_ok, Except.pure_eq_ok]
      exact ⟨_, expr_moved offset shift ha, _, hb', by
        rw [moved_append, moved_append, moved_binary hop]⟩
  | _, .unary .., _, h => by
      obtain ⟨a, ha, rfl⟩ := expr_unary_ok h
      rw [expr]
      simp only [Except.bind_eq_ok, Except.pure_eq_ok]
      exact ⟨_, expr_moved offset shift ha, by rw [moved_append, moved_unary]⟩
  | _, .call .., _, h => by
      obtain ⟨rfl, a, ha, rfl⟩ := expr_call_ok h
      rw [expr, if_pos rfl]
      simp only [Except.bind_eq_ok, Except.pure_eq_ok]
      exact ⟨_, exprs_moved offset shift ha, by
        rw [moved_append, moved_append, moved_emit_of_drift _ rfl, moved_emit_of_drift _ rfl]⟩
  | _, .array .., _, h => by
      obtain ⟨a, ha, rfl⟩ := expr_array_ok h
      rw [expr]
      simp only [Except.bind_eq_ok, Except.pure_eq_ok]
      exact ⟨_, exprs_moved offset shift ha, by rw [moved_append, moved_emit_of_drift _ rfl]⟩
  | pool, .index .., _, h => by
      obtain ⟨a, b, ha, hb, rfl⟩ := expr_index_ok h
      have hb' := expr_moved offset shift hb
      rw [Nat.add_right_comm] at hb'
      rw [expr]
      simp only [Except.bind_eq_ok, Except.pure_eq_ok]
      exact ⟨_, expr_moved offset shift ha, _, hb', by
        rw [moved_append, moved_append, moved_emit_of_drift _ rfl]⟩
  | _, .self .., _, h | _, .dict .., _, h | _, .matrix .., _, h | _, .field .., _, h
  | _, .methodCall .., _, h | _, .create .., _, h | _, .superCall .., _, h => by cases h

theorem exprs_moved (offset shift : Nat) : ∀ {pool : Nat} {es : List Expr} {f : Fragment},
    exprs pool {} es = .ok f → exprs (pool + shift) {} es = .ok (f.moved offset shift)
  | _, [], _, h => by
      cases h
      rw [exprs, moved_empty]
  | pool, _ :: es, _, h => by
      obtain ⟨a, b, ha, hb, rfl⟩ := exprs_cons_ok h
      have hb' := exprs_moved offset shift hb
      rw [Nat.add_right_comm] at hb'
      rw [exprs]
      refine Except.bind_eq_ok.mpr ⟨_, expr_moved offset shift ha, ?_⟩
      rw [empty_append, exprs_eq, constants_moved, hb', moved_append]
      rfl

end

/-! ## Statements -/

/-- A constant of a loop is counted from the size of the pool, and moves with it. -/
theorem cast_pool_add (pool c d : Nat) :
    ((pool + c : Nat) : Int) + (d : Int) = ((pool + d + c : Nat) : Int) := by
  push_cast
  ring

theorem loopEntry_moved (depth pool stop : Nat) (item : String) :
    (loopEntry depth pool stop item).moved offset shift =
      loopEntry depth (pool + shift) (stop + offset) item := by
  simp only [loopEntry, moved, List.map_toArray, List.map_cons, List.map_nil, Instr.moved,
    cast_pool_add]
  rfl

theorem loopExit_moved (depth pool start : Nat) :
    (loopExit depth pool start).moved offset shift =
      loopExit depth (pool + shift) (start + offset) := by
  simp only [loopExit, moved, List.map_toArray, List.map_cons, List.map_nil, Instr.moved,
    cast_pool_add]
  rfl

/-- Where the parts of a loop over an array compile, so does the loop. -/
theorem stmt_forEach_of {depth base pool : Nat} {p : Place} {item : String} {e : Expr}
    {body : List Stmt} {parallel : Bool} {a b : Fragment} (ha : expr pool e = .ok a)
    (hb : block (depth + 1) (base + a.code.size + 15) (pool + a.constants.size + 8) {} body =
      .ok b) :
    stmt depth base pool (.forEach p item e body parallel) =
      .ok (a ++ loopEntry depth (pool + a.constants.size)
          (base + a.code.size + 15 + b.code.size + 6) item
        ++ b ++ loopExit depth (pool + a.constants.size + 8 + b.constants.size)
          (base + a.code.size + 5)) := by
  rw [stmt]
  refine Except.bind_eq_ok.mpr ⟨a, ha, ?_⟩
  simp only [sequence_init, sequence_test, sequence_fetch, sequence_count, code_append,
    constants_append, Array.size_append, List.size_toArray, List.length_cons, List.length_nil,
    Nat.zero_add, Nat.reduceAdd, ← Nat.add_assoc]
  simp only [Nat.add_assoc, Nat.reduceAdd] at hb ⊢
  refine Except.bind_eq_ok.mpr ⟨b, hb, Except.pure_eq_ok.mpr ?_⟩
  apply Fragment.eq_of_parts
  · simp [loopEntry, loopExit, Nat.add_assoc]
  · simp [loopEntry, loopExit]

mutual

theorem stmt_moved (offset shift : Nat) : ∀ {depth base pool : Nat} {s : Stmt} {f : Fragment},
    stmt depth base pool s = .ok f →
      stmt depth (base + offset) (pool + shift) s = .ok (f.moved offset shift)
  | _, _, _, .expr .., _, h => by
      obtain ⟨a, ha, rfl⟩ := stmt_expr_ok h
      rw [stmt]
      simp only [Except.bind_eq_ok, Except.pure_eq_ok]
      exact ⟨_, expr_moved offset shift ha, by rw [moved_append, moved_emit_of_drift _ rfl]⟩
  | _, _, pool, .bind .., _, h => by
      obtain ⟨a, ha, rfl⟩ := stmt_bind_ok h
      rw [stmt]
      simp only [Except.bind_eq_ok, Except.pure_eq_ok]
      exact ⟨_, expr_moved offset shift ha, by
        rw [moved_append, moved_store, constants_moved, Nat.add_right_comm]⟩
  | _, _, pool, .assign .., _, h => by
      obtain ⟨a, ha, rfl⟩ := stmt_assign_ok h
      rw [stmt]
      simp only [Except.bind_eq_ok, Except.pure_eq_ok]
      exact ⟨_, expr_moved offset shift ha, by
        rw [moved_append, moved_store, constants_moved, Nat.add_right_comm]⟩
  | _, base, pool, .choose .., _, h => by
      obtain ⟨a, y, n, ha, hy, hn, rfl⟩ := stmt_choose_ok h
      have hy' := block_moved offset shift hy
      have hn' := optionalBlock_moved offset shift hn
      rw [stmt]
      simp only [Except.bind_eq_ok, Except.pure_eq_ok]
      -- where a block begins is a sum with the offset inside, which is carried to its end
      refine ⟨_, expr_moved offset shift ha, y.moved offset shift, ?_, n.moved offset shift, ?_, ?_⟩
      · simpa only [size_code_moved, constants_moved, Nat.add_right_comm _ offset,
          Nat.add_right_comm _ shift] using hy'
      · simpa only [size_code_moved, constants_moved, Nat.add_right_comm _ offset,
          Nat.add_right_comm _ shift] using hn'
      · simp only [moved_append, moved_jump, moved_jumpIfFalse, size_code_moved,
          Nat.add_right_comm _ offset]
  | _, base, pool, .loop .., _, h => by
      obtain ⟨a, b, ha, hb, rfl⟩ := stmt_loop_ok h
      have hb' := block_moved offset shift hb
      rw [stmt]
      simp only [Except.bind_eq_ok, Except.pure_eq_ok]
      refine ⟨_, expr_moved offset shift ha, b.moved offset shift, ?_, ?_⟩
      · simpa only [size_code_moved, constants_moved, Nat.add_right_comm _ offset,
          Nat.add_right_comm _ shift] using hb'
      · simp only [moved_append, moved_jump, moved_jumpIfFalse, size_code_moved,
          Nat.add_right_comm _ offset]
  | _, base, pool, .forEach .., _, h => by
      obtain ⟨a, b, ha, hb, rfl⟩ := stmt_forEach_ok h
      have hb' := block_moved offset shift hb
      rw [stmt_forEach_of (b := b.moved offset shift) (expr_moved offset shift ha)]
      · simp only [moved_append, loopEntry_moved, loopExit_moved, size_code_moved, constants_moved,
          Nat.add_right_comm _ offset, Nat.add_right_comm _ shift]
      · simpa only [size_code_moved, constants_moved, Nat.add_right_comm _ offset,
          Nat.add_right_comm _ shift] using hb'
  | _, _, _, .define .., _, h | _, _, _, .defineClass .., _, h | _, _, _, .assignField .., _, h
  | _, _, _, .giveBack .., _, h | _, _, _, .attempt .., _, h | _, _, _, .raise .., _, h
  | _, _, _, .check .., _, h | _, _, _, .importModule .., _, h | _, _, _, .importNames .., _, h
  | _, _, _, .share .., _, h => by cases h

theorem block_moved (offset shift : Nat) :
    ∀ {depth base pool : Nat} {ss : List Stmt} {f : Fragment},
      block depth base pool {} ss = .ok f →
        block depth (base + offset) (pool + shift) {} ss = .ok (f.moved offset shift)
  | _, _, _, [], _, h => by
      cases h
      rw [block, moved_empty]
  | _, base, pool, _ :: ss, _, h => by
      obtain ⟨a, b, ha, hb, rfl⟩ := block_cons_ok h
      have hb' := block_moved offset shift hb
      rw [block]
      refine Except.bind_eq_ok.mpr ⟨_, stmt_moved offset shift ha, ?_⟩
      rw [empty_append, block_eq, size_code_moved, constants_moved, Nat.add_right_comm base,
        Nat.add_right_comm pool, hb', moved_append]
      rfl

theorem optionalBlock_moved (offset shift : Nat) :
    ∀ {depth base pool : Nat} {ss : Option (List Stmt)} {f : Fragment},
      optionalBlock depth base pool ss = .ok f →
        optionalBlock depth (base + offset) (pool + shift) ss = .ok (f.moved offset shift)
  | _, _, _, none, _, h => by
      cases h
      rw [optionalBlock, moved_empty]
  | _, _, _, some _, _, h => block_moved offset shift h

end

theorem block_append {depth base pool : Nat} {ss ss' : List Stmt} : ∀ {done : Fragment},
    block depth base pool done (ss ++ ss') =
      (block depth base pool done ss).bind fun f => block depth base pool f ss' := by
  induction ss with
  | nil => intro done; rfl
  | cons s ss ih =>
      intro done
      rw [List.cons_append, block, block]
      cases stmt depth (base + done.code.size) (pool + done.constants.size) s with
      | error u => rfl
      | ok f => exact ih

end Compiler

/-- The chunk of a fragment with a halt behind it. -/
def Fragment.closed (f : Fragment) : Chunk := ⟨f.code.push ⟨.halt, 0⟩, f.constants⟩

theorem Program.compile_eq_ok {p : Program} {c : Chunk} :
    p.compile = .ok c ↔ ∃ f, Compiler.block 0 0 0 {} p.stmts = .ok f ∧ c = f.closed := by
  rw [Program.compile]
  simp only [Except.bind_eq_ok, Except.pure_eq_ok, Fragment.closed]

/-- The program of the statements of one and then those of another. -/
def Program.andThen (p q : Program) : Program := ⟨p.stmts ++ q.stmts⟩

/-- The code of a program followed by another: that of the first, and behind it that of the
second, moved, before the only halt. -/
theorem Program.compile_andThen {p q : Program} {f g : Fragment}
    (hp : Compiler.block 0 0 0 {} p.stmts = .ok f) (hq : Compiler.block 0 0 0 {} q.stmts = .ok g) :
    (p.andThen q).compile = .ok (f ++ g.moved f.code.size f.constants.size).closed := by
  have hmoved := Compiler.block_moved f.code.size f.constants.size hq
  refine compile_eq_ok.mpr ⟨_, ?_, rfl⟩
  rw [andThen, Compiler.block_append, hp]
  change Compiler.block 0 0 0 f q.stmts = _
  rw [Compiler.block_eq, hmoved]
  rfl

namespace Fragment

variable {f g : Fragment} {offset shift o : Nat} {i : Instr}

theorem code_closed_moved (f g : Fragment) (offset shift : Nat) :
    (f ++ g.moved offset shift).closed.code =
      f.code ++ g.closed.code.map (·.moved offset shift) := by
  simp [closed, moved, Instr.moved, Opcode.drift]

/-- Before its halt the code of the first part is found as it was. -/
theorem getElem?_closed_front (hi : f.closed.code[o]? = some i) (ho : o ≠ f.code.size) :
    (f ++ g).closed.code[o]? = some i := by
  have hlt : o < f.closed.code.size := (Array.getElem?_eq_some_iff.mp hi).1
  rw [closed, Array.size_push] at hlt
  have hlt' : o < f.code.size := by omega
  rw [closed, Array.getElem?_push_lt hlt', ← Array.getElem?_eq_getElem hlt'] at hi
  rw [closed, code_append, ← Array.append_push, Array.getElem?_append_left hlt']
  exact hi

/-- The code of the second part is found behind, halt and all. -/
theorem getElem?_closed_back (hi : g.closed.code[o]? = some i) :
    (f ++ g.moved offset shift).closed.code[o + f.code.size]? = some (i.moved offset shift) := by
  rw [code_closed_moved, Array.getElem?_append_right (Nat.le_add_left _ _), Nat.add_sub_cancel,
    Array.getElem?_map, hi]
  rfl

theorem constant?_closed_front {n : Int} {v : Value} (h : f.closed.constant? n = some v) :
    (f ++ g).closed.constant? n = some v := by
  unfold Chunk.constant? at h ⊢
  split at h
  · cases h
  · rw [if_neg ‹_›]
    have hlt := (Array.getElem?_eq_some_iff.mp h).1
    exact (Array.getElem?_append_left hlt).trans h

theorem constant?_closed_back {n : Int} {v : Value} (h : g.closed.constant? n = some v) :
    (f ++ g.moved offset shift).closed.constant? (n + f.constants.size) = some v := by
  unfold Chunk.constant? at h ⊢
  split at h
  · cases h
  · rw [if_neg (by omega), show (n + f.constants.size).toNat = f.constants.size + n.toNat by omega]
    refine (Array.getElem?_append_right (Nat.le_add_right _ _)).trans ?_
    rw [Nat.add_sub_cancel_left]
    exact h

end Fragment

/-! ## Two programs in a row -/

/-- The code of a program followed by another: that of the first without the halt at its end, and
behind it that of the second, where jumps lead as much further as the first is long and constants
are found behind those of the first. -/
theorem Program.compile_relocated {p q : Program} {c d : Chunk} (hp : p.compile = .ok c)
    (hq : q.compile = .ok d) :
    c.code.back? = some ⟨.halt, 0⟩ ∧
    ∃ cd, (p.andThen q).compile = .ok cd ∧
      cd.constants = c.constants ++ d.constants ∧
      cd.code = c.code.pop ++ d.code.map fun i =>
        { i with operand := i.operand + i.op.drift (c.code.size - 1) c.constants.size } := by
  obtain ⟨f, hf, rfl⟩ := Program.compile_eq_ok.mp hp
  obtain ⟨g, hg, rfl⟩ := Program.compile_eq_ok.mp hq
  have hsize : f.closed.code.size - 1 = f.code.size := by
    rw [Fragment.closed, Array.size_push, Nat.add_sub_cancel]
  have hpop : f.closed.code.pop = f.code := Array.pop_push
  refine ⟨Array.back?_push, _, Program.compile_andThen hf hg, rfl, ?_⟩
  rw [hsize, hpop]
  exact Fragment.code_closed_moved f g _ _

/-- A loop with a condition in it. -/
def dwindle : Program :=
  ⟨[.loop default (.name default "x")
    [.choose default (.name default "y") [.assign default "x" (.number default 0.0)] (some [])]]⟩

theorem dwindle_relocated : ∃ cd, (dwindle.andThen dwindle).compile = .ok cd ∧
    cd.constants.size = 8 ∧
    cd.code = #[⟨.loadVar, 0⟩, ⟨.jumpIfFalse, 9⟩, ⟨.loadVar, 1⟩, ⟨.jumpIfFalse, 8⟩,
      ⟨.loadConst, 2⟩, ⟨.storeVar, 3⟩, ⟨.pop, 0⟩, ⟨.jump, 8⟩, ⟨.jump, 0⟩,
      ⟨.loadVar, 4⟩, ⟨.jumpIfFalse, 18⟩, ⟨.loadVar, 5⟩, ⟨.jumpIfFalse, 17⟩,
      ⟨.loadConst, 6⟩, ⟨.storeVar, 7⟩, ⟨.pop, 0⟩, ⟨.jump, 17⟩, ⟨.jump, 9⟩, ⟨.halt, 0⟩] := by
  have hc : dwindle.compile = .ok dwindle.chunk := Program.compile_eq_chunk (by decide +kernel)
  obtain ⟨-, cd, hcd, hconstants, hcode⟩ := Program.compile_relocated hc hc
  refine ⟨cd, hcd, ?_, ?_⟩
  · rw [hconstants, Array.size_append]
    decide +kernel
  · rw [hcode]
    decide +kernel

end ScriptLang
