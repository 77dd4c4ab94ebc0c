import Mathlib
import ScriptLang.Proofs.Bytecode.Relocation
import ScriptLang.Proofs.Bytecode.StackNeed

/-!
# The shape of compiled code

What can be read off the code of a program without running it. There is one halt, at the
end. The constants are referred to in the order of the pool, each of them once. Jumps lead
ahead or, at the end of a loop, back to where its turns begin.

No jump leads into an expression. Code that is jumped to stands at the beginning or behind
an instruction that ends something (`Opcode.closes`), and an expression has no such
instruction in its code.
-/

namespace ScriptLang

/-! ## Where expressions start -/

mutual

/-- An expression that stands at `base` and those inside it, each with the offset of its first
instruction. -/
def Expr.offsets (base : Nat) : Expr → List (Nat × Expr)
  | .binary p left op right =>
    (base, .binary p left op right)
      :: (left.offsets base ++ right.offsets (base + (left.depths 0).length))
  | .unary p op operand => (base, .unary p op operand) :: operand.offsets base
  | .call p callee args => (base, .call p callee args) :: Expr.listOffsets base args
  | .array p items => (base, .array p items) :: Expr.listOffsets base items
  | .index p target key =>
    (base, .index p target key)
      :: (target.offsets base ++ key.offsets (base + (target.depths 0).length))
  | e => [(base, e)]

def Expr.listOffsets (base : Nat) : List Expr → List (Nat × Expr)
  | [] => []
  | e :: es => e.offsets base ++ Expr.listOffsets (base + (e.depths 0).length) es

end

/-- The expression that a statement evaluates first, where its code begins. -/
def Stmt.leading? : Stmt → Option Expr
  | .expr _ e | .bind _ _ e | .assign _ _ e | .choose _ e _ _ | .loop _ e _
  | .forEach _ _ e _ _ => some e
  | _ => none

/-- The expressions of a program at any depth, each with the offset where its code starts. -/
def Program.exprOffsets (p : Program) : List (Nat × Expr) :=
  p.offsets.flatMap fun q => q.2.leading?.elim [] (Expr.offsets q.1)

mutual

theorem Expr.offsets_start {c : Chunk} : ∀ {e : Expr} {pool base : Nat} {f : Fragment},
    Compiler.expr pool e = .ok f → c.Holds base pool f →
    ∀ q ∈ e.offsets base, ∃ pool f, Compiler.expr pool q.2 = .ok f ∧ c.Holds q.1 pool f
  | .binary .., _, _, _, h, hf, q, hq => by
      obtain ⟨code, a, b, hop, ha, hb, rfl⟩ := Compiler.expr_binary_ok h
      rw [Expr.offsets, (Compiler.exprCode ha).length_depths 0, List.mem_cons,
        List.mem_append] at hq
      rcases hq with rfl | hq | hq
      · exact ⟨_, _, h, hf⟩
      · exact offsets_start ha hf.left.left q hq
      · exact offsets_start hb hf.left.right q hq
  | .unary .., _, _, _, h, hf, q, hq => by
      obtain ⟨a, ha, rfl⟩ := Compiler.expr_unary_ok h
      rw [Expr.offsets, List.mem_cons] at hq
      rcases hq with rfl | hq
      · exact ⟨_, _, h, hf⟩
      · exact offsets_start ha hf.left q hq
  | .call .., _, _, _, h, hf, q, hq => by
      obtain ⟨rfl, a, ha, rfl⟩ := Compiler.expr_call_ok h
      rw [Expr.offsets, List.mem_cons] at hq
      rcases hq with rfl | hq
      · exact ⟨_, _, h, hf⟩
      · exact listOffsets_start ha hf.left.left q hq
  | .array .., _, _, _, h, hf, q, hq => by
      obtain ⟨a, ha, rfl⟩ := Compiler.expr_array_ok h
      rw [Expr.offsets, List.mem_cons] at hq
      rcases hq with rfl | hq
      · exact ⟨_, _, h, hf⟩
      · exact listOffsets_start ha hf.left q hq
  | .index .., _, _, _, h, hf, q, hq => by
      obtain ⟨a, b, ha, hb, rfl⟩ := Compiler.expr_index_ok h
      rw [Expr.offsets, (Compiler.exprCode ha).length_depths 0, List.mem_cons,
        List.mem_append] at hq
      rcases hq with rfl | hq | hq
      · exact ⟨_, _, h, hf⟩
      · exact offsets_start ha hf.left.left q hq
      · exact offsets_start hb hf.left.right q hq
  | .number .., _, _, _, h, hf, q, hq | .text .., _, _, _, h, hf, q, hq
  | .bool .., _, _, _, h, hf, q, hq | .name .., _, _, _, h, hf, q, hq
  | .self .., _, _, _, h, hf, q, hq | .dict .., _, _, _, h, hf, q, hq
  | .matrix .., _, _, _, h, hf, q, hq | .field .., _, _, _, h, hf, q, hq
  | .methodCall .., _, _, _, h, hf, q, hq | .create .., _, _, _, h, hf, q, hq
  | .superCall .., _, _, _, h, hf, q, hq => by
      obtain rfl := List.mem_singleton.mp hq
      exact ⟨_, _, h, hf⟩

theorem Expr.listOffsets_start {c : Chunk} : ∀ {es : List Expr} {pool base : Nat} {f : Fragment},
    Compiler.exprs pool {} es = .ok f → c.Holds base pool f →
    ∀ q ∈ Expr.listOffsets base es, ∃ pool f, Compiler.expr pool q.2 = .ok f ∧ c.Holds q.1 pool f
  | [], _, _, _, _, _, q, hq => by cases hq
  | _ :: _, _, _, _, h, hf, q, hq => by
      obtain ⟨a, b, ha, hb, rfl⟩ := Compiler.exprs_cons_ok h
      rw [Expr.listOffsets, (Compiler.exprCode ha).length_depths 0, List.mem_append] at hq
      rcases hq with hq | hq
      · exact offsets_start ha hf.left q hq
      · exact listOffsets_start hb hf.right q hq

end

/-- The code of a statement begins with that of its leading expression. -/
theorem Stmt.leading_start {c : Chunk} {s : Stmt} {e : Expr} {depth base pool : Nat} {f : Fragment}
    (h : Compiler.stmt depth base pool s = .ok f) (hf : c.Holds base pool f)
    (hs : s.leading? = some e) : ∃ a, Compiler.expr pool e = .ok a ∧ c.Holds base pool a := by
  cases s <;> cases hs
  case expr =>
    obtain ⟨a, ha, rfl⟩ := Compiler.stmt_expr_ok h
    exact ⟨a, ha, hf.left⟩
  case bind =>
    obtain ⟨a, ha, rfl⟩ := Compiler.stmt_bind_ok h
    exact ⟨a, ha, hf.left⟩
  case assign =>
    obtain ⟨a, ha, rfl⟩ := Compiler.stmt_assign_ok h
    exact ⟨a, ha, hf.left⟩
  case choose =>
    obtain ⟨a, y, n, ha, -, -, rfl⟩ := Compiler.stmt_choose_ok h
    exact ⟨a, ha, hf.left.left.left.left⟩
  case loop =>
    obtain ⟨a, b, ha, -, rfl⟩ := Compiler.stmt_loop_ok h
    exact ⟨a, ha, hf.left.left.left⟩
  case forEach =>
    obtain ⟨a, b, ha, -, rfl⟩ := Compiler.stmt_forEach_ok h
    exact ⟨a, ha, hf.left.left.left⟩

namespace Program

variable {p : Program} {c : Chunk}

/-- The code of every statement stands where the program has it. -/
theorem offsets_start (h : p.compile = .ok c) {q : Nat × Stmt} (hq : q ∈ p.offsets) :
    ∃ depth pool f, Compiler.stmt depth q.1 pool q.2 = .ok f ∧ c.Holds q.1 pool f := by
  obtain ⟨f, hb, hc, -⟩ := compile_ok h
  exact (Stmt.listOffsets_start hb hc p.standsAt_layout q hq).2

/-- And so does that of every expression. -/
theorem exprOffsets_start (h : p.compile = .ok c) {q : Nat × Expr} (hq : q ∈ p.exprOffsets) :
    ∃ pool f, Compiler.expr pool q.2 = .ok f ∧ c.Holds q.1 pool f := by
  obtain ⟨⟨base, s⟩, hs, hq⟩ := List.mem_flatMap.mp hq
  obtain ⟨depth, pool, f, hf, hc⟩ := offsets_start h hs
  dsimp only at hq
  cases he : s.leading? with
  | none =>
      rw [he] at hq
      cases hq
  | some e =>
      rw [he] at hq
      obtain ⟨a, ha, hca⟩ := Stmt.leading_start hf hc he
      exact Expr.offsets_start ha hca q hq

end Program

/-! ## References to constants -/

/-- The operands of the instructions that refer to constants, in the order of the code. -/
def references (code : List Instr) : List Int :=
  (code.filter (·.op.usesConstant)).map (·.operand)

/-- Whether an instruction ends a statement, a test or a turn of a loop. -/
def Opcode.closes : Opcode → Bool
  | .pop | .jump | .jumpIfFalse => true
  | _ => false

theorem Opcode.ofBinary_plain {op : BinaryOp} {code : Opcode} (h : ofBinary? op = some code) :
    code.usesConstant = false ∧ code.closes = false := by
  cases op <;> cases h <;> exact ⟨rfl, rfl⟩

theorem Opcode.ofUnary_plain (op : UnaryOp) :
    (ofUnary op).usesConstant = false ∧ (ofUnary op).closes = false := by
  cases op <;> exact ⟨rfl, rfl⟩

/-- Behind a pool of that size, the code refers to the constants of the fragment one after
another, to each of them once. -/
def Fragment.Ordered (pool : Nat) (f : Fragment) : Prop :=
  references f.code.toList = (List.range' pool f.constants.size).map fun k : Nat => (k : Int)

/-- Such code in which nothing ends. -/
structure Fragment.Plain (pool : Nat) (f : Fragment) : Prop where
  ordered : f.Ordered pool
  goesOn : ∀ i ∈ f.code, i.op.closes = false

namespace Fragment

variable {f g : Fragment} {pool k : Nat} {op : Opcode} {n : Int} {v : Value}

theorem Ordered.empty : ({} : Fragment).Ordered pool := rfl

theorem Ordered.append (hf : f.Ordered pool) (hg : g.Ordered k)
    (hk : pool + f.constants.size = k) : (f ++ g).Ordered pool := by
  subst hk
  unfold Ordered references at *
  rw [code_append, Array.toList_append, List.filter_append, List.map_append, hf, hg,
    ← List.map_append, List.range'_append_1, constants_append, Array.size_append]

theorem Ordered.emit (h : op.usesConstant = false) : (emit op n).Ordered pool := by
  simp [Ordered, references, h]

theorem Ordered.withConstant (h : op.usesConstant = true) :
    (withConstant op v pool).Ordered pool := by
  simp [Ordered, references, h]

theorem Ordered.store {x : String} : (store x pool).Ordered pool :=
  .append (.withConstant rfl) (.emit rfl) rfl

theorem Plain.empty : ({} : Fragment).Plain pool :=
  ⟨.empty, fun i hi => absurd hi (Array.not_mem_empty i)⟩

theorem Plain.append (hf : f.Plain pool) (hg : g.Plain (pool + f.constants.size)) :
    (f ++ g).Plain pool := by
  refine ⟨hf.ordered.append hg.ordered rfl, fun i hi => ?_⟩
  rcases Array.mem_append.mp hi with hi | hi
  · exact hf.goesOn i hi
  · exact hg.goesOn i hi

theorem Plain.emit (h : op.usesConstant = false ∧ op.closes = false) : (emit op n).Plain pool := by
  refine ⟨.emit h.1, fun i hi => ?_⟩
  obtain rfl := Array.mem_singleton.mp hi
  exact h.2

theorem Plain.withConstant (h : op.usesConstant = true ∧ op.closes = false) :
    (withConstant op v pool).Plain pool := by
  refine ⟨.withConstant h.1, fun i hi => ?_⟩
  obtain rfl := Array.mem_singleton.mp hi
  exact h.2

end Fragment

mutual

theorem ExprCode.plain : ∀ {pool : Nat} {e : Expr} {f : Fragment}, ExprCode pool e f → f.Plain pool
  | _, _, _, .number | _, _, _, .text | _, _, _, .name => .withConstant ⟨rfl, rfl⟩
  | _, _, _, .bool (b := b) => .emit (by cases b <;> exact ⟨rfl, rfl⟩)
  | _, _, _, .binary hop hl hr =>
      (hl.plain.append hr.plain).append (.emit (Opcode.ofBinary_plain hop))
  | _, _, _, .unary he => he.plain.append (.emit (Opcode.ofUnary_plain _))
  | _, _, _, .print ha => (ha.plain.append (.emit ⟨rfl, rfl⟩)).append (.emit ⟨rfl, rfl⟩)
  | _, _, _, .array ha => ha.plain.append (.emit ⟨rfl, rfl⟩)
  | _, _, _, .index ht hk => (ht.plain.append hk.plain).append (.emit ⟨rfl, rfl⟩)

theorem ExprsCode.plain : ∀ {pool : Nat} {es : List Expr} {f : Fragment},
    ExprsCode pool es f → f.Plain pool
  | _, _, _, .nil => .empty
  | _, _, _, .cons he hes => he.plain.append hes.plain

end

mutual

theorem StmtCode.ordered : ∀ {depth base pool : Nat} {s : Stmt} {f : Fragment},
    StmtCode depth base pool s f → f.Ordered pool
  | _, _, _, _, _, .expr he => he.plain.ordered.append (.emit rfl) rfl
  | _, _, _, _, _, .bind he | _, _, _, _, _, .assign he => he.plain.ordered.append .store rfl
  | _, _, _, _, _, .choose he hy hn =>
      (((he.plain.ordered.append (.emit rfl) rfl).append hy.ordered (by simp)).append
        (.emit rfl) rfl).append hn.ordered (by simp; omega)
  | _, _, _, _, _, .loop he hb =>
      ((he.plain.ordered.append (.emit rfl) rfl).append hb.ordered (by simp)).append (.emit rfl) rfl
  | _, _, _, _, _, .forEach he hb =>
      ((he.plain.ordered.append (g := Compiler.loopEntry ..) rfl rfl).append hb.ordered
        (by simp [Compiler.loopEntry]; omega)).append (g := Compiler.loopExit ..) rfl
        (by simp [Compiler.loopEntry]; omega)

theorem BlockCode.ordered : ∀ {depth base pool : Nat} {ss : List Stmt} {f : Fragment},
    BlockCode depth base pool ss f → f.Ordered pool
  | _, _, _, _, _, .nil => .empty
  | _, _, _, _, _, .cons hs hss => hs.ordered.append hss.ordered rfl

end

/-! ## Jumps -/

theorem Stmt.optionOffsets_eq (base : Nat) (no : Option (List Stmt)) :
    Stmt.optionOffsets base no = Stmt.listOffsets base (no.getD []) := by
  cases no <;> rfl

/-- The instruction in front of the offset, if there is one, ends something. -/
def Chunk.Opens (c : Chunk) (t : Nat) : Prop :=
  ∀ o i, o + 1 = t → c.code[o]? = some i → i.op.closes = true

namespace Chunk.Opens

variable {c : Chunk} {o t : Nat} {i : Instr}

theorem zero : c.Opens 0 := fun _ _ ho _ => absurd ho (Nat.succ_ne_zero _)

theorem behind (hi : c.code[o]? = some i) (h : i.op.closes = true) : c.Opens (o + 1) := by
  intro o' i' ho hi'
  obtain rfl := Nat.succ.inj ho
  cases hi.symm.trans hi'
  exact h

/-- Code in which nothing ends is open at its beginning only. -/
theorem not_inside (h : c.Opens t) {base pool : Nat} {f : Fragment} (hc : c.Holds base pool f)
    (hf : f.Plain pool) : ¬(base < t ∧ t < base + f.code.size) := by
  rintro ⟨hlo, hhi⟩
  obtain ⟨j, rfl⟩ : ∃ j, t = base + j + 1 := ⟨t - base - 1, by omega⟩
  have hj : j < f.code.size := by omega
  have hcode := hc.code j _ (Array.getElem?_eq_getElem hj)
  have hcloses := h (base + j) _ rfl hcode
  rw [hf.goesOn _ (Array.getElem_mem hj)] at hcloses
  cases hcloses

end Chunk.Opens

/-- The offset at which the turns of a loop begin that stands at `base`. -/
def Stmt.turnsAt? (base : Nat) : Stmt → Option Nat
  | .loop .. => some base
  | .forEach _ _ source _ _ => some (base + (source.depths 0).length + 5)
  | _ => none

/-- The offset `o` lies in a loop among the statements, and `t` is where its turns begin. -/
def Encloses (stmts : List (Nat × Stmt)) (o t : Nat) : Prop :=
  ∃ q ∈ stmts, q.2.turnsAt? q.1 = some t ∧ t ≤ o ∧ o < q.1 + q.2.depths.length

/-- The instruction at `o` is no jump, or leads ahead inside the code, or back to where the turns
of a loop around it begin; a conditional jump only ahead. -/
def Chunk.Leads (c : Chunk) (stmts : List (Nat × Stmt)) (o : Nat) (i : Instr) : Prop :=
  i.isStraight = true ∨ ∃ t : Nat, i.operand = t ∧ c.Opens t ∧
    (o < t ∧ t < c.code.size ∨ i.op = .jump ∧ Encloses stmts o t)

/-- What holds of each instruction with its offset, from `base` on. -/
def EachAt (P : Nat → Instr → Prop) (base : Nat) : List Instr → Prop
  | [] => True
  | i :: is => P base i ∧ EachAt P (base + 1) is

section EachAt

variable {P : Nat → Instr → Prop} {base : Nat} {is js : List Instr} {i : Instr}

theorem eachAt_append :
    EachAt P base (is ++ js) ↔ EachAt P base is ∧ EachAt P (base + is.length) js := by
  induction is generalizing base with
  | nil => simp [EachAt]
  | cons i is ih =>
      rw [List.cons_append, EachAt, EachAt, ih, and_assoc, List.length_cons, Nat.add_assoc base 1,
        Nat.add_comm 1]

theorem EachAt.getElem? (h : EachAt P base is) {j : Nat} (hj : is[j]? = some i) :
    P (base + j) i := by
  induction is generalizing base j with
  | nil => cases hj
  | cons i' is ih =>
      cases j with
      | zero =>
          cases hj
          exact h.1
      | succ j =>
          rw [Nat.add_comm j, ← Nat.add_assoc]
          exact ih h.2 hj

theorem eachAt_of_forall (h : ∀ i ∈ is, ∀ o, P o i) : EachAt P base is := by
  induction is generalizing base with
  | nil => trivial
  | cons i is ih =>
      obtain ⟨hi, his⟩ := List.forall_mem_cons.mp h
      exact ⟨hi base, ih his⟩

end EachAt

namespace Fragment

variable {P : Nat → Instr → Prop} {base : Nat} {f g : Fragment}

/-- What holds of each instruction of a fragment that stands at `base`. -/
structure Each (P : Nat → Instr → Prop) (base : Nat) (f : Fragment) : Prop where
  eachAt : EachAt P base f.code.toList

theorem Each.append (hf : f.Each P base) (hg : g.Each P (base + f.code.size)) :
    (f ++ g).Each P base := by
  constructor
  rw [code_append, Array.toList_append, eachAt_append]
  exact ⟨hf.eachAt, hg.eachAt⟩

theorem Each.emit {op : Opcode} {n : Int} (h : P base ⟨op, n⟩) : (emit op n).Each P base :=
  ⟨h, trivial⟩

theorem Each.empty : ({} : Fragment).Each P base := ⟨trivial⟩

end Fragment

theorem Compiler.size_loopEntry (depth pool stop : Nat) (item : String) :
    (loopEntry depth pool stop item).code.size = 15 := rfl

theorem Compiler.size_loopExit (depth pool start : Nat) :
    (loopExit depth pool start).code.size = 6 := rfl

section Leads

variable {c : Chunk} {stmts : List (Nat × Stmt)} {base : Nat} {f : Fragment}

theorem ExprCode.each_leads {pool : Nat} {e : Expr} (h : ExprCode pool e f) :
    f.Each (c.Leads stmts) base :=
  .mk <| eachAt_of_forall fun i hi _ => .inl (h.isStraight i (Array.mem_toList_iff.mp hi))

theorem store_leads {x : String} {pool : Nat} :
    (Fragment.store x pool).Each (c.Leads stmts) base :=
  ⟨.inl rfl, .inl rfl, trivial⟩

/-- Only the jump out of the loop matters. -/
theorem loopEntry_leads {depth pool stop : Nat} {item : String}
    (h : c.Leads stmts (base + 9) ⟨.jumpIfFalse, stop⟩) :
    (Compiler.loopEntry depth pool stop item).Each (c.Leads stmts) base :=
  ⟨.inl rfl, .inl rfl, .inl rfl, .inl rfl, .inl rfl, .inl rfl, .inl rfl, .inl rfl, .inl rfl, h,
    .inl rfl, .inl rfl, .inl rfl, .inl rfl, .inl rfl, trivial⟩

theorem loopExit_leads {depth pool start : Nat}
    (h : c.Leads stmts (base + 5) ⟨.jump, start⟩) :
    (Compiler.loopExit depth pool start).Each (c.Leads stmts) base :=
  ⟨.inl rfl, .inl rfl, .inl rfl, .inl rfl, .inl rfl, h, trivial⟩

end Leads

mutual

/-- From an open offset the code of a statement leads to open offsets only, and the one behind it
is open too. -/
theorem StmtCode.leads {c : Chunk} {stmts : List (Nat × Stmt)} :
    ∀ {depth base pool : Nat} {s : Stmt} {f : Fragment}, StmtCode depth base pool s f →
      c.Holds base pool f → base + f.code.size < c.code.size → c.Opens base →
      (base, s) :: s.innerOffsets base ⊆ stmts →
      c.Opens (base + f.code.size) ∧ f.Each (c.Leads stmts) base
  | _, _, _, _, _, .expr he, hf, _, _, _ => by
      simp only [Fragment.code_append, Array.size_append, ← Nat.add_assoc]
      exact ⟨.behind hf.right.emit rfl, he.each_leads.append (.emit (.inl rfl))⟩
  | _, _, _, _, _, .bind he, hf, _, _, _ | _, _, _, _, _, .assign he, hf, _, _, _ => by
      simp only [Fragment.code_append, Array.size_append, ← Nat.add_assoc]
      exact ⟨.behind (hf.right.code 1 _ rfl) rfl, he.each_leads.append store_leads⟩
  | _, base, _, _, _, .choose (e := e) (a := a) (y := y) (n := n) he hy hn, hf, hlt, _, hsub => by
      simp only [Fragment.append_assoc] at hf
      simp only [Stmt.innerOffsets, Stmt.optionOffsets_eq, he.length_depths 0, hy.length_depths,
        List.cons_subset, List.append_subset] at hsub
      simp only [Fragment.code_append, Array.size_append, Fragment.code_emit, List.size_toArray,
        List.length_singleton, ← Nat.add_assoc] at hlt ⊢
      obtain ⟨hyOpen, hyLeads⟩ := hy.leads hf.right.right.left (by omega)
        (.behind hf.right.left.emit rfl) hsub.2.1
      have hnoOpen : c.Opens (base + a.code.size + 1 + y.code.size + 1) :=
        .behind hf.right.right.right.left.emit rfl
      obtain ⟨hnOpen, hnLeads⟩ := hn.leads hf.right.right.right.right (by omega) hnoOpen hsub.2.2
      -- the test leads to the second block, the end of the first behind it
      have hjif : c.Leads stmts (base + a.code.size)
          ⟨.jumpIfFalse, (base + a.code.size + 1 + y.code.size + 1 : Nat)⟩ :=
        .inr ⟨_, rfl, hnoOpen, .inl ⟨by omega, by omega⟩⟩
      have hjump : c.Leads stmts (base + a.code.size + 1 + y.code.size)
          ⟨.jump, (base + a.code.size + 1 + y.code.size + 1 + n.code.size : Nat)⟩ :=
        .inr ⟨_, rfl, hnOpen, .inl ⟨by omega, by omega⟩⟩
      refine ⟨hnOpen, ?_⟩
      simp only [Fragment.append_assoc]
      exact he.each_leads.append (.append (.emit hjif) (hyLeads.append (.append (.emit hjump)
        hnLeads)))
  | _, base, _, _, _, .loop (p := p) (a := a) (b := b) he hb, hf, hlt, hopen, hsub => by
      have hsize := (StmtCode.loop (p := p) he hb).length_depths
      simp only [Fragment.append_assoc] at hf
      simp only [Stmt.innerOffsets, he.length_depths 0, List.cons_subset] at hsub
      simp only [Fragment.code_append, Array.size_append, Fragment.code_emit, List.size_toArray,
        List.length_singleton, ← Nat.add_assoc] at hlt hsize ⊢
      obtain ⟨-, hbLeads⟩ := hb.leads hf.right.right.left (by omega)
        (.behind hf.right.left.emit rfl) hsub.2
      have hstop : c.Opens (base + a.code.size + 1 + b.code.size + 1) :=
        .behind hf.right.right.right.emit rfl
      have hjif : c.Leads stmts (base + a.code.size)
          ⟨.jumpIfFalse, (base + a.code.size + 1 + b.code.size + 1 : Nat)⟩ :=
        .inr ⟨_, rfl, hstop, .inl ⟨by omega, by omega⟩⟩
      have hback : c.Leads stmts (base + a.code.size + 1 + b.code.size) ⟨.jump, (base : Nat)⟩ :=
        .inr ⟨_, rfl, hopen, .inr ⟨rfl, _, hsub.1, rfl, by omega, by dsimp only; omega⟩⟩
      refine ⟨hstop, ?_⟩
      simp only [Fragment.append_assoc]
      exact he.each_leads.append (.append (.emit hjif) (hbLeads.append (.emit hback)))
  | depth, base, pool, _, _, @StmtCode.forEach _ _ _ p item e body parallel a b he hb, hf, hlt, _,
      hsub => by
      have hsize := (@StmtCode.forEach _ _ _ p item e body parallel _ _ he hb).length_depths
      simp only [Fragment.append_assoc] at hf
      simp only [Stmt.innerOffsets, he.length_depths 0, List.cons_subset] at hsub
      simp only [Fragment.code_append, Array.size_append, Compiler.size_loopEntry,
        Compiler.size_loopExit, ← Nat.add_assoc] at hlt hsize ⊢
      -- the test stands behind the counter that is set to zero, the body behind the item
      have hstart : c.Opens (base + a.code.size + 5) := .behind (hf.right.left.code 4 _ rfl) rfl
      have hbody : c.Opens (base + a.code.size + 15) := .behind (hf.right.left.code 14 _ rfl) rfl
      have hstop : c.Opens (base + a.code.size + 15 + b.code.size + 6) :=
        .behind (hf.right.right.right.code 5 _ rfl) rfl
      obtain ⟨-, hbLeads⟩ := hb.leads hf.right.right.left (by omega) hbody hsub.2
      have hjif : c.Leads stmts (base + a.code.size + 9)
          ⟨.jumpIfFalse, (base + a.code.size + 15 + b.code.size + 6 : Nat)⟩ :=
        .inr ⟨_, rfl, hstop, .inl ⟨by omega, by omega⟩⟩
      have hback : c.Leads stmts (base + a.code.size + 15 + b.code.size + 5)
          ⟨.jump, (base + a.code.size + 5 : Nat)⟩ := by
        refine .inr ⟨_, rfl, hstart, .inr ⟨rfl, _, hsub.1, ?_, by omega, by dsimp only; omega⟩⟩
        rw [Stmt.turnsAt?, he.length_depths 0]
      refine ⟨hstop, ?_⟩
      simp only [Fragment.append_assoc]
      exact he.each_leads.append (.append (loopEntry_leads hjif) (hbLeads.append
        (loopExit_leads hback)))

theorem BlockCode.leads {c : Chunk} {stmts : List (Nat × Stmt)} :
    ∀ {depth base pool : Nat} {ss : List Stmt} {f : Fragment}, BlockCode depth base pool ss f →
      c.Holds base pool f → base + f.code.size < c.code.size → c.Opens base →
      Stmt.listOffsets base ss ⊆ stmts →
      c.Opens (base + f.code.size) ∧ f.Each (c.Leads stmts) base
  | _, _, _, _, _, .nil, _, _, hopen, _ => ⟨hopen, .empty⟩
  | _, base, _, _, _, .cons (a := a) (b := b) hs hss, hf, hlt, hopen, hsub => by
      simp only [Stmt.listOffsets, hs.length_depths, List.append_subset] at hsub
      simp only [Fragment.code_append, Array.size_append, ← Nat.add_assoc] at hlt ⊢
      obtain ⟨hsOpen, hsLeads⟩ := hs.leads hf.left (by omega) hopen hsub.1
      obtain ⟨hssOpen, hssLeads⟩ := hss.leads hf.right hlt hsOpen hsub.2
      exact ⟨hssOpen, hsLeads.append hssLeads⟩

end

/-! ## Programs -/

namespace Program

variable {p : Program} {c : Chunk} {o : Nat} {i : Instr}

/-- The offset lies in the code of a loop of the program, whose turns begin at `t`. -/
def LoopsBack (p : Program) (c : Chunk) (o : Nat) (t : Int) : Prop :=
  ∃ q ∈ p.offsets, ∃ start : Nat, q.2.turnsAt? q.1 = some start ∧ t = start ∧ start ≤ o ∧
    ∃ depth pool f, Compiler.stmt depth q.1 pool q.2 = .ok f ∧ c.Holds q.1 pool f ∧
      o < q.1 + f.code.size

theorem loopsBack_of_encloses (h : p.compile = .ok c) {t : Nat} (ht : Encloses p.offsets o t) :
    p.LoopsBack c o t := by
  obtain ⟨q, hq, hstart, hle, hlt⟩ := ht
  obtain ⟨depth, pool, f, hf, hc⟩ := offsets_start h hq
  rw [(Compiler.stmtCode hf).length_depths] at hlt
  exact ⟨q, hq, t, hstart, rfl, hle, depth, pool, f, hf, hc, hlt⟩

/-- The only halt is the last instruction. -/
theorem halt_last (h : p.compile = .ok c) (hi : c.code[o]? = some i) (hop : i.op = .halt) :
    o + 1 = c.code.size := by
  have hlt : o < c.code.size := (Array.getElem?_eq_some_iff.mp hi).1
  obtain ⟨-, hsettled, -⟩ := settled h
  obtain ⟨i', d, hi', -, -, -, -, hhalt⟩ := hsettled o (Nat.zero_le o) (by omega)
  cases hi.symm.trans hi'
  exact (hhalt hop).2

theorem operandFits (h : p.compile = .ok c) (hi : i ∈ c.code) : i.OperandFits c := by
  obtain ⟨o, hlt, rfl⟩ := Array.mem_iff_getElem.mp hi
  obtain ⟨-, hsettled, -⟩ := settled h
  obtain ⟨i', d, hi', -, hfits, -⟩ := hsettled o (Nat.zero_le o) (by omega)
  rw [Array.getElem?_eq_getElem hlt] at hi'
  cases hi'
  exact hfits

/-- Every instruction but the halt leads on, ahead, or back to a loop around it. -/
theorem leads (h : p.compile = .ok c) (hi : c.code[o]? = some i) (hop : i.op ≠ .halt) :
    c.Leads p.offsets o i := by
  obtain ⟨f, hb, hc, hcode⟩ := compile_ok h
  have hsize : c.code.size = f.code.size + 1 := by rw [hcode, Array.size_push]
  obtain ⟨-, hleads⟩ := (Compiler.blockCode hb).leads hc (by omega) .zero (List.Subset.refl _)
  have hlt : o < f.code.size := by
    have hle : o < c.code.size := (Array.getElem?_eq_some_iff.mp hi).1
    by_contra hge
    obtain rfl : o = f.code.size := by omega
    rw [hcode, Array.getElem?_push_size] at hi
    cases hi
    exact hop rfl
  rw [hcode, Array.getElem?_push_lt hlt] at hi
  have hmem : f.code.toList[o]? = some i := by
    rw [Array.getElem?_toList, Array.getElem?_eq_getElem hlt]
    exact hi
  have hlead := hleads.eachAt.getElem? hmem
  rwa [Nat.zero_add] at hlead

/-- A jump leads to an open offset, and a conditional one ahead. -/
theorem jump_leads (h : p.compile = .ok c) (hi : c.code[o]? = some i)
    (hjump : i.op = .jump ∨ i.op = .jumpIfFalse) :
    ∃ t : Nat, i.operand = t ∧ c.Opens t ∧
      (o < t ∧ t < c.code.size ∨ i.op = .jump ∧ Encloses p.offsets o t) := by
  have hop : i.op ≠ .halt := by rcases hjump with h | h <;> rw [h] <;> decide
  have hbends : i.isStraight ≠ true := by
    rcases hjump with h | h <;> rw [Instr.isStraight, h] <;> decide
  exact (leads h hi hop).resolve_left hbends

/-- The code of a program ends with its only halt. It refers to the constants in the order of the
pool, to each of them once, and names of globals are texts. A conditional jump leads ahead and
stays in the code, and so does a jump unless it leads back to where the turns of a loop around it
begin. No jump leads into the code of an expression behind its beginning. -/
theorem compile_shape (h : p.compile = .ok c) :
    (∃ front : Array Instr, c.code = front.push ⟨.halt, 0⟩ ∧ ∀ i ∈ front, i.op ≠ .halt) ∧
    references c.code.toList = (List.range c.constants.size).map (fun k : Nat => (k : Int)) ∧
    (∀ i ∈ c.code, i.op = .loadVar ∨ i.op = .storeVar →
      ∃ x, c.constant? i.operand = some (.text x)) ∧
    (∀ (o : Nat) (t : Int), c.code[o]? = some ⟨.jumpIfFalse, t⟩ → o < t ∧ t < c.code.size) ∧
    (∀ (o : Nat) (t : Int), c.code[o]? = some ⟨.jump, t⟩ →
      (o < t ∧ t < c.code.size) ∨ p.LoopsBack c o t) ∧
    ∀ q ∈ p.exprOffsets, ∃ pool f, Compiler.expr pool q.2 = .ok f ∧ c.Holds q.1 pool f ∧
      ∀ (o : Nat) (i : Instr), c.code[o]? = some i → i.op = .jump ∨ i.op = .jumpIfFalse →
        ¬((q.1 : Int) < i.operand ∧ i.operand < (q.1 + f.code.size : Nat)) := by
  obtain ⟨f, hb, rfl⟩ := compile_eq_ok.mp h
  refine ⟨⟨f.code, rfl, fun i hi hop => ?_⟩, ?_, fun i hi hop => ?_, fun o t hi => ?_,
    fun o t hi => ?_, fun q hq => ?_⟩
  · obtain ⟨o, hlt, rfl⟩ := Array.mem_iff_getElem.mp hi
    have hlast := halt_last h (o := o) (Array.getElem?_push_lt hlt) hop
    rw [Fragment.closed, Array.size_push] at hlast
    omega
  · rw [List.range_eq_range']
    exact (Compiler.blockCode hb).ordered.append (g := .emit .halt) (.emit rfl) rfl
  · have hfits := operandFits h hi
    rw [Instr.OperandFits] at hfits
    rcases hop with hop | hop <;> rw [hop] at hfits <;> exact hfits
  · obtain ⟨t', rfl, -, hahead | ⟨hop, -⟩⟩ := jump_leads h hi (.inr rfl)
    · exact ⟨by omega, by omega⟩
    · cases hop
  · obtain ⟨t', rfl, -, hahead | ⟨-, hback⟩⟩ := jump_leads h hi (.inl rfl)
    · exact .inl ⟨by omega, by omega⟩
    · exact .inr (loopsBack_of_encloses h hback)
  · obtain ⟨pool, g, hg, hc⟩ := exprOffsets_start h hq
    refine ⟨pool, g, hg, hc, fun o i hi hjump => ?_⟩
    -- a jump leads to an open offset, and the code of an expression is open at its beginning only
    obtain ⟨t, ht, hopens, -⟩ := jump_leads h hi hjump
    have hinside := hopens.not_inside hc (Compiler.exprCode hg).plain
    rw [ht]
    omega

end Program

/-- A loop around a condition with an empty block and, in the other one, a loop over an array with
an empty body. -/
def hollow : Program :=
  ⟨[.loop default (.name default "a")
    [.choose default (.name default "b") []
      (some [.forEach default "x" (.array default [.call default "print" []]) [] false])]]⟩

theorem hollow_shape :
    hollow.compile = .ok hollow.chunk ∧ hollow.exprOffsets.map (·.1) = [0, 2, 5, 5] ∧
      references hollow.chunk.code.toList =
        (List.range hollow.chunk.constants.size).map (fun k : Nat => (k : Int)) ∧
      hollow.chunk.code[1]? = some ⟨.jumpIfFalse, 30⟩ ∧ (30 : Int) < hollow.chunk.code.size ∧
      hollow.chunk.code[28]? = some ⟨.jump, 13⟩ ∧ hollow.LoopsBack hollow.chunk 28 13 ∧
      hollow.chunk.code[29]? = some ⟨.jump, 0⟩ ∧ hollow.LoopsBack hollow.chunk 29 0 := by
  have hc : hollow.compile = .ok hollow.chunk := Program.compile_eq_chunk (by decide +kernel)
  have htest : hollow.chunk.code[1]? = some ⟨.jumpIfFalse, 30⟩ := by decide +kernel
  have hinner : hollow.chunk.code[28]? = some ⟨.jump, 13⟩ := by decide +kernel
  have houter : hollow.chunk.code[29]? = some ⟨.jump, 0⟩ := by decide +kernel
  obtain ⟨-, hrefs, -, htests, hjumps, -⟩ := Program.compile_shape hc
  exact ⟨hc, by decide +kernel, hrefs, htest, (htests 1 30 htest).2, hinner,
    (hjumps 28 13 hinner).resolve_left (by omega), houter,
    (hjumps 29 0 houter).resolve_left (by omega)⟩

end ScriptLang
