import Mathlib
import ScriptLang.Bytecode.Emitter
import ScriptLang.Proofs.Bytecode.Code

/-!
# One pass gives the same code

Writing a program front to back and patching its jumps gives the chunk that the
fragments of its parts give, whose jumps know their targets from the sizes of
the fragments. A program that one of the two refuses, the other refuses with the
same message.

The writer at any moment stands behind some code; what it writes next depends on
that code only through its size and the size of the pool. A patch reaches back
behind the code that the statement itself has written, never further.
-/

namespace ScriptLang

open Fragment

/-! ## Fragments in a row -/

/-- What stands in front already moves the rest along. -/
theorem Fragment.foldl_parts (pool : Nat) (done : Fragment) (parts : List (Nat → Fragment)) :
    parts.foldl (fun done part => done ++ part (pool + done.constants.size)) done =
      done ++ Fragment.sequence (pool + done.constants.size) parts := by
  induction parts generalizing pool done with
  | nil => simp [Fragment.sequence]
  | cons part parts ih =>
      have hrest := ih (pool + done.constants.size) (part (pool + done.constants.size))
      have hseq : Fragment.sequence (pool + done.constants.size) (part :: parts) =
          part (pool + done.constants.size) ++ Fragment.sequence
            (pool + done.constants.size + (part (pool + done.constants.size)).constants.size)
            parts := by
        simpa [Fragment.sequence] using hrest
      rw [List.foldl_cons, ih, hseq]
      simp only [constants_append, Array.size_append, append_assoc, Nat.add_assoc]

theorem Fragment.sequence_cons (pool : Nat) (part : Nat → Fragment)
    (parts : List (Nat → Fragment)) :
    Fragment.sequence pool (part :: parts) =
      part pool ++ Fragment.sequence (pool + (part pool).constants.size) parts := by
  have h := foldl_parts pool (part pool) parts
  simpa [Fragment.sequence] using h

namespace Emitter

/-- The writer after a fragment more. -/
def append (e : Emitter) (f : Fragment) : Emitter :=
  { e with chunk := ⟨e.chunk.code ++ f.code, e.chunk.constants ++ f.constants⟩ }

/-- The offset of the next instruction. -/
def base (e : Emitter) : Nat := e.chunk.code.size

/-- The index of the next constant. -/
def pool (e : Emitter) : Nat := e.chunk.constants.size

variable (e : Emitter) (f g : Fragment)

@[simp] theorem depth_append : (e.append f).depth = e.depth := rfl

@[simp] theorem base_append : (e.append f).base = e.base + f.code.size :=
  Array.size_append

@[simp] theorem pool_append : (e.append f).pool = e.pool + f.constants.size :=
  Array.size_append

@[simp] theorem append_append : (e.append f).append g = e.append (f ++ g) := by
  simp [append]

@[simp] theorem append_empty : e.append {} = e := by
  simp [append]

theorem modify_size_append {α : Type} (xs ys : Array α) (x : α) (h : α → α) :
    (xs ++ #[x] ++ ys).modify xs.size h = xs ++ #[h x] ++ ys := by
  apply Array.ext_getElem?
  intro j
  rw [Array.getElem?_modify]
  grind

/-- A patch of an instruction that was written changes its operand there and nothing else. -/
theorem patch_append (a b : Fragment) (op : Opcode) (n target : Int) :
    (e.append (a ++ emit op n ++ b)).chunk.patch (e.base + a.code.size) target =
      (e.append (a ++ emit op target ++ b)).chunk := by
  have hcode := modify_size_append (e.chunk.code ++ a.code) b.code ⟨op, n⟩
    fun i => { i with operand := target }
  rw [Array.size_append] at hcode
  simp only [Array.append_assoc] at hcode
  simp only [append, base, Chunk.patch, code_append, code_emit, constants_append, constants_emit,
    Array.append_assoc, hcode]

end Emitter

namespace Emit

variable {e : Emitter} {done done' : Fragment} {m n : Emit Unit}
  {r : Except Unsupported Fragment}

/-! ## Straight code -/

theorem write_run (e : Emitter) (op : Opcode) (k : Int) :
    write op k e = .ok ((), e.append (emit op k)) := by
  simp [write, modify, modifyGet, MonadStateOf.modifyGet, StateT.modifyGet, Emitter.append, pure,
    Except.pure]

theorem writeConstant_run (e : Emitter) (op : Opcode) (v : Value) :
    writeConstant op v e = .ok ((), e.append (withConstant op v e.pool)) := by
  simp [writeConstant, constant, write, modify, modifyGet, MonadStateOf.modifyGet, StateT.modifyGet,
    Emitter.append, Emitter.pool, bind, StateT.bind, Except.bind, pure, Except.pure]

theorem load_run (e : Emitter) (x : String) : load x e = .ok ((), e.append (.load x e.pool)) :=
  writeConstant_run e _ _

theorem store_run (e : Emitter) (x : String) :
    store x e = .ok ((), e.append (.store x e.pool)) := by
  have h := writeConstant_run e .storeVar (.text x)
  simp only [store, bind, StateT.bind, h, Except.bind, write_run, Emitter.append_append]
  rfl

/-! ## Code behind code -/

/-- With `done` written behind `e`, the writer goes on until `r` in all is written, or refuses
as `r` does. -/
def Writes (m : Emit Unit) (e : Emitter) (done : Fragment) (r : Except Unsupported Fragment) :
    Prop :=
  m (e.append done) = r.map fun f => ((), e.append f)

namespace Writes

theorem run (h : Writes m e {} r) : m e = r.map fun f => ((), e.append f) := by
  rw [Writes, Emitter.append_empty] at h
  exact h

theorem write (op : Opcode) (k : Int) :
    Writes (Emit.write op k) e done (.ok (done ++ emit op k)) := by
  rw [Writes, write_run, Emitter.append_append]
  rfl

theorem store (x : String) :
    Writes (Emit.store x) e done (.ok (done ++ .store x (e.pool + done.constants.size))) := by
  rw [Writes, store_run, Emitter.append_append, Emitter.pool_append]
  rfl

/-- A part that is never refused. -/
theorem straight {k : Unit → Emit Unit} (hm : Writes m e done (.ok done'))
    (hk : Writes (k ()) e done' r) : Writes (m >>= k) e done r := by
  have hm' : m (e.append done) = .ok ((), e.append done') := hm
  simp only [Writes, bind, StateT.bind, hm', Except.bind]
  exact hk

theorem part {k : Unit → Emit Unit} {next : Fragment → Except Unsupported Fragment}
    (hm : m (e.append done) = r.map fun f => ((), (e.append done).append f))
    (hk : ∀ f, Writes (k ()) e (done ++ f) (next f)) :
    Writes (m >>= k) e done (r >>= next) := by
  simp only [Writes, bind, StateT.bind, hm]
  cases r with
  | error u => rfl
  | ok f =>
      simp only [Except.map, Except.bind, Emitter.append_append]
      exact hk f

theorem last (hm : m (e.append done) = r.map fun f => ((), (e.append done).append f)) :
    Writes m e done (r.map (done ++ ·)) := by
  rw [Writes, hm]
  cases r with
  | error u => rfl
  | ok f => simp only [Except.map, Emitter.append_append]

/-- The first part has nothing before it. -/
theorem first {k : Unit → Emit Unit} {next : Fragment → Except Unsupported Fragment}
    (hm : m e = r.map fun f => ((), e.append f)) (hk : ∀ f, Writes (k ()) e f (next f)) :
    Writes (m >>= k) e {} (r >>= next) := by
  apply part
  · rw [Emitter.append_empty]
    exact hm
  · intro f
    rw [empty_append]
    exact hk f

theorem here {k : Nat → Emit Unit} (hk : Writes (k (e.base + done.code.size)) e done r) :
    Writes (Emit.here >>= k) e done r := by
  rw [← Emitter.base_append] at hk
  exact hk

theorem state {k : Emitter → Emit Unit} (hk : Writes (k (e.append done)) e done r) :
    Writes (get >>= k) e done r := hk

theorem jumpAhead {op : Opcode} {k : Nat → Emit Unit}
    (hk : Writes (k (e.base + done.code.size)) e (done ++ emit op) r) :
    Writes (Emit.jumpAhead op >>= k) e done r := by
  have hw := write_run (e.append done) op 0
  rw [← Emitter.base_append] at hk
  rw [Emitter.append_append] at hw
  simp only [Writes, Emit.jumpAhead, Emit.here, bind, StateT.bind, get, getThe, MonadStateOf.get,
    StateT.get, pure, StateT.pure, Except.pure, Except.bind, hw]
  exact hk

/-- The jump gets the next offset as its target. -/
theorem arrive {a b : Fragment} {op : Opcode} {k : Int} {offset : Nat}
    (hoffset : offset = e.base + a.code.size) (hdone : done = a ++ emit op k ++ b)
    (hdone' : done' =
      a ++ emit op ((e.base + a.code.size + 1 + b.code.size : Nat) : Int) ++ b) :
    Writes (Emit.arrive offset) e done (.ok done') := by
  subst hoffset hdone hdone'
  have hhere : (e.append (a ++ emit op k ++ b)).chunk.code.size =
      e.base + a.code.size + 1 + b.code.size := by
    have h := e.base_append (a ++ emit op k ++ b)
    simp only [code_append, code_emit, Array.size_append, ← Nat.add_assoc] at h
    exact h
  have hpatch := e.patch_append a b op k
  simp only [Writes, Emit.arrive, Emit.here, bind, StateT.bind, get, getThe, MonadStateOf.get,
    StateT.get, pure, StateT.pure, Except.pure, Except.bind, modify, modifyGet,
    MonadStateOf.modifyGet, StateT.modifyGet, hhere, hpatch]
  rfl

end Writes

/-! ## Expressions -/

mutual

theorem expr_run : ∀ (x : Expr) (e : Emitter),
    expr x e = (Compiler.expr e.pool x).map fun f => ((), e.append f)
  | .number .., e => writeConstant_run e _ _
  | .text .., e => writeConstant_run e _ _
  | .bool .., e => write_run e _ _
  | .name .., e => load_run e _
  | .binary p l op r, e => by
      rw [expr, Compiler.expr]
      cases Opcode.ofBinary? op with
      | none => rfl
      | some code =>
          refine (Writes.first (expr_run l e) fun a => .part ?_ fun b => .write code 0).run
          rw [expr_run r, Emitter.pool_append]
  | .unary _ op x, e =>
      (Writes.first (expr_run x e) fun _ => .write (Opcode.ofUnary op) 0).run
  | .call p callee args, e => by
      rw [expr, Compiler.expr]
      by_cases hc : callee = "print"
      · rw [if_pos hc, if_pos hc]
        exact (Writes.first (exprs_run args e) fun _ =>
          .straight (.write .print args.length) (.write .loadNull 0)).run
      · rw [if_neg hc, if_neg hc]
        rfl
  | .array _ items, e =>
      (Writes.first (exprs_run items e) fun _ => .write .buildArray items.length).run
  | .index _ target key, e => by
      refine (Writes.first (expr_run target e) fun a => .part ?_ fun b => .write .index 0).run
      rw [expr_run key, Emitter.pool_append]
  | .dict .., _ | .matrix .., _ | .self .., _ | .field .., _ | .methodCall .., _ | .create .., _
  | .superCall .., _ => rfl

theorem exprs_run : ∀ (xs : List Expr) (e : Emitter),
    exprs xs e = (Compiler.exprs e.pool {} xs).map fun f => ((), e.append f)
  | [], e => congrArg (fun e' => Except.ok ((), e')) e.append_empty.symm
  | x :: xs, e => by
      rw [Compiler.exprs]
      refine (Writes.first (expr_run x e) fun a => ?_).run
      rw [empty_append, Compiler.exprs_eq, ← Emitter.pool_append]
      exact .last (exprs_run xs _)

end

/-! ## Statements -/

/-- The writer writes what the compiler gives for the depth, the offset and the pool that it is
at, or refuses as the compiler does. -/
def Follows (m : Emit Unit) (code : Nat → Nat → Nat → Except Unsupported Fragment) : Prop :=
  ∀ e : Emitter, m e = (code e.depth e.base e.pool).map fun f => ((), e.append f)

section

variable {p : Place} {body yes : List Stmt} {no : Option (List Stmt)}

theorem choose_follows {condition : Expr}
    (hyes : Follows (block yes) (Compiler.block · · · {} yes))
    (hno : Follows (optionalBlock no) (Compiler.optionalBlock · · · no)) :
    Follows (stmt (.choose p condition yes no))
      (Compiler.stmt · · · (.choose p condition yes no)) := by
  intro e
  refine Writes.run (.first (expr_run condition e) fun a =>
    .jumpAhead (.part ?_ fun y => .jumpAhead ?_))
  · rw [hyes]
    simp [Nat.add_assoc]
  have harrive : Writes (arrive (e.base + a.code.size)) e
      (a ++ emit .jumpIfFalse ++ y ++ emit .jump)
      (.ok (a ++ emit .jumpIfFalse ((e.base + a.code.size + 1 + y.code.size + 1 : Nat) : Int) ++ y
        ++ emit .jump)) := by
    apply Writes.arrive rfl (append_assoc _ _ _)
    simp [append_assoc, Nat.add_assoc]
  refine .straight harrive (.part ?_ fun b => .arrive ?_ rfl ?_)
  · rw [hno]
    simp [Nat.add_assoc]
  · simp
  · simp [Nat.add_assoc]

theorem loop_follows {condition : Expr}
    (hbody : Follows (block body) (Compiler.block · · · {} body)) :
    Follows (stmt (.loop p condition body)) (Compiler.stmt · · · (.loop p condition body)) := by
  intro e
  refine Writes.run (.here (.first (expr_run condition e) fun a => .jumpAhead (.part ?_ fun b =>
    .straight (.write _ _) (.arrive rfl (append_assoc _ _ _) ?_))))
  · rw [hbody]
    simp [Nat.add_assoc]
  · simp [append_assoc, Nat.add_assoc]

theorem Follows.deeper {code : Nat → Nat → Nat → Except Unsupported Fragment} (h : Follows m code)
    (e : Emitter) :
    deeper m e = (code (e.depth + 1) e.base e.pool).map fun f => ((), e.append f) := by
  have hm : m { e with depth := e.depth + 1 } = (code (e.depth + 1) e.base e.pool).map fun f =>
      ((), { e.append f with depth := e.depth + 1 }) := h { e with depth := e.depth + 1 }
  simp only [Emit.deeper, bind, StateT.bind, modify, modifyGet, MonadStateOf.modifyGet,
    StateT.modifyGet, pure, Except.pure, Except.bind, hm]
  cases code (e.depth + 1) e.base e.pool with
  | error u => rfl
  | ok f => rfl

/-- Straight code appends a piece that depends on the size of the pool alone. -/
def Appends (m : Emit Unit) (piece : Nat → Fragment) : Prop :=
  ∀ e : Emitter, m e = .ok ((), e.append (piece e.pool))

theorem Appends.writes {piece : Nat → Fragment} {f : Fragment} (h : Appends m piece)
    (hf : f = piece (e.pool + done.constants.size)) : Writes m e done (.ok (done ++ f)) := by
  rw [Writes, h, Emitter.append_append, Emitter.pool_append, hf]
  rfl

theorem Appends.single {piece : Nat → Fragment} (h : Appends m piece) :
    Appends m fun k => Fragment.sequence k [piece] := by
  intro e
  simp [h e, Fragment.sequence]

theorem Appends.cons {piece : Nat → Fragment} {pieces : List (Nat → Fragment)}
    (hm : Appends m piece) (hn : Appends n fun k => Fragment.sequence k pieces) :
    Appends (do m; n) fun k => Fragment.sequence k (piece :: pieces) := by
  intro e
  simp only [bind, StateT.bind, hm e, Except.bind, hn _, Emitter.append_append,
    Emitter.pool_append, Fragment.sequence_cons]

theorem startCount_appends (items counter : String) :
    Appends (startCount items counter) fun k => Fragment.sequence k
      [.store items, .withConstant .loadConst (.number 0.0), .store counter] :=
  .cons (store_run · _) (.cons (writeConstant_run · _ _) (.single (store_run · _)))

theorem testCount_appends (items counter : String) :
    Appends (testCount items counter) fun k => Fragment.sequence k
      [.load counter, .load items, fun _ => emit .arrayLength, fun _ => emit .less] :=
  .cons (load_run · _) (.cons (load_run · _) (.cons (write_run · _ _) (.single (write_run · _ _))))

theorem fetchItem_appends (items counter item : String) :
    Appends (fetchItem items counter item) fun k => Fragment.sequence k
      [.load items, .load counter, fun _ => emit .index, .store item] :=
  .cons (load_run · _) (.cons (load_run · _) (.cons (write_run · _ _) (.single (store_run · _))))

theorem stepCount_appends (counter : String) :
    Appends (stepCount counter) fun k => Fragment.sequence k
      [.load counter, .withConstant .loadConst (.number 1.0), fun _ => emit .add,
        .store counter] :=
  .cons (load_run · _) (.cons (writeConstant_run · _ _)
    (.cons (write_run · _ _) (.single (store_run · _))))

theorem forEach_follows {item : String} {source : Expr} {parallel : Bool}
    (hbody : Follows (block body) (Compiler.block · · · {} body)) :
    Follows (stmt (.forEach p item source body parallel))
      (Compiler.stmt · · · (.forEach p item source body parallel)) := by
  intro e
  refine Writes.run (.state (.first (expr_run source e) fun a => ?_))
  have hstart := startCount_appends (Compiler.hiddenName "array" e.depth)
    (Compiler.hiddenName "idx" e.depth)
  have htest := testCount_appends (Compiler.hiddenName "array" e.depth)
    (Compiler.hiddenName "idx" e.depth)
  have hfetch := fetchItem_appends (Compiler.hiddenName "array" e.depth)
    (Compiler.hiddenName "idx" e.depth) item
  have hstep := stepCount_appends (Compiler.hiddenName "idx" e.depth)
  extract_lets init head start test fetchPool fetch bodyAt bodyPool
  have hhead : Writes (startCount _ _) e a (.ok head) := hstart.writes rfl
  refine .straight hhead (.here (.straight (htest.writes (f := test) rfl) (.jumpAhead
    (.straight (hfetch.writes (f := fetch) ?_) (.part ?_ fun b => ?_)))))
  · simp [fetch, fetchPool, Nat.add_assoc]
  · have hat : (e.append (head ++ test ++ emit .jumpIfFalse ++ fetch)).base = bodyAt := by
      simp [bodyAt, start, Nat.add_assoc]
    have hpool : (e.append (head ++ test ++ emit .jumpIfFalse ++ fetch)).pool = bodyPool := by
      simp [bodyPool, fetchPool, Nat.add_assoc]
    rw [hbody.deeper, hat, hpool, Emitter.depth_append]
  extract_lets step stop
  have hdone : head ++ test ++ emit .jumpIfFalse ++ fetch ++ b ++ step ++ emit .jump start =
      head ++ test ++ emit .jumpIfFalse ++ (fetch ++ b ++ step ++ emit .jump start) := by
    simp only [append_assoc]
  refine .straight (hstep.writes (f := step) ?_) (.straight (.write _ _) (.arrive rfl hdone ?_))
  · simp [step, bodyPool, fetchPool, Nat.add_assoc]
  · simp [append_assoc, stop, bodyAt, start, Nat.add_assoc]

end

mutual

theorem stmt_follows : ∀ s : Stmt, Follows (stmt s) (Compiler.stmt · · · s)
  | .expr _ x => fun e => (Writes.first (expr_run x e) fun _ => .write .pop 0).run
  | .bind _ name x => fun e => (Writes.first (expr_run x e) fun _ => .store name).run
  | .assign _ name x => fun e => (Writes.first (expr_run x e) fun _ => .store name).run
  | .choose _ _ yes no => choose_follows (block_follows yes) (optionalBlock_follows no)
  | .loop _ _ body => loop_follows (block_follows body)
  | .forEach _ _ _ body _ => forEach_follows (block_follows body)
  | .define .. | .defineClass .. | .assignField .. | .giveBack .. | .attempt .. | .raise ..
  | .check .. | .importModule .. | .importNames .. | .share .. => fun _ => rfl

theorem block_follows : ∀ ss : List Stmt, Follows (block ss) (Compiler.block · · · {} ss)
  | [] => fun e => congrArg (fun e' => Except.ok ((), e')) e.append_empty.symm
  | s :: ss => by
      intro e
      simp only [Compiler.block]
      refine (Writes.first (stmt_follows s e) fun a => ?_).run
      have hrest := block_follows ss (e.append a)
      rw [Emitter.depth_append, Emitter.base_append, Emitter.pool_append] at hrest
      rw [empty_append, Compiler.block_eq]
      exact .last hrest

theorem optionalBlock_follows : ∀ no : Option (List Stmt),
    Follows (optionalBlock no) (Compiler.optionalBlock · · · no)
  | none => fun e => congrArg (fun e' => Except.ok ((), e')) e.append_empty.symm
  | some ss => block_follows ss

end

end Emit

/-- A program written in one pass, with its jumps patched, has the bytecode of its fragments,
and the two ways refuse the same programs. -/
theorem Program.emit_eq_compile (p : Program) : p.emit = p.compile := by
  have hwritten : (do Emit.block p.stmts; Emit.write .halt : Emit Unit).run {} =
      (do
        let f ← Compiler.block 0 0 0 {} p.stmts
        return f ++ Fragment.emit .halt).map fun f => ((), ({} : Emitter).append f) :=
    (Emit.Writes.first (Emit.block_follows p.stmts {}) fun _ => .write .halt 0).run
  rw [Program.emit, Program.compile, hwritten]
  cases Compiler.block 0 0 0 {} p.stmts with
  | error u => rfl
  | ok f =>
      have hchunk : (({} : Emitter).append (f ++ Fragment.emit .halt)).chunk =
          ⟨f.code.push ⟨.halt, 0⟩, f.constants⟩ := by
        simp [Emitter.append]
      exact congrArg Except.ok hchunk

end ScriptLang
