import Mathlib
import ScriptLang.Bytecode.Compiler
import ScriptLang.Proofs.Program.Nodes

/-!
# What the compiler refuses

Whether a node can have bytecode is a matter of the node alone. A program is compiled if
all its nodes can, however deep they stand and whether or not control ever comes to them.
Otherwise the compiler names the first node that cannot, in the order in which each node
comes before its children (`compile_refuses_first`).
-/

namespace ScriptLang

/-- The construct that keeps the node from having bytecode, if there is one. -/
def Node.unsupported? : Node → Option Construct
  | .stmt s =>
    match s with
    | .expr .. | .bind .. | .assign .. | .choose .. | .loop .. | .forEach .. => none
    | .define .. => some .functionDefinition
    | .defineClass .. => some .classDefinition
    | .assignField .. => some .fieldAssignment
    | .giveBack .. => some .giveBack
    | .attempt .. => some .attempt
    | .raise .. => some .raise
    | .check .. => some .check
    | .importModule .. | .importNames .. => some .importing
    | .share .. => some .sharing
  | .expr e =>
    match e with
    | .number .. | .text .. | .bool .. | .name .. | .unary .. | .array .. | .index .. => none
    | .binary _ _ op _ => if op = .matMul then some .matrixProduct else none
    | .call _ callee _ => if callee = "print" then none else some (.call callee)
    | .dict .. => some .dictLiteral
    | .matrix .. => some .matrixLiteral
    | .self .. => some .self
    | .field .. => some .fieldAccess
    | .methodCall _ _ method _ => some (.methodCall method)
    | .create _ className _ => some (.create className)
    | .superCall .. => some .superCall

namespace Node

/-- How the compiler refuses the node, be its children what they may. -/
def refusal? (n : Node) : Option Unsupported :=
  n.unsupported?.map fun construct => ⟨construct, n.place.line⟩

theorem refusal?_eq_none_iff {n : Node} : n.refusal? = none ↔ n.unsupported? = none :=
  Option.map_eq_none_iff

theorem refusal?_eq_some_iff {n : Node} {u : Unsupported} :
    n.refusal? = some u ↔ n.unsupported? = some u.construct ∧ n.place.line = u.line := by
  rw [refusal?, Option.map_eq_some_iff]
  constructor
  · rintro ⟨construct, h, rfl⟩
    exact ⟨h, rfl⟩
  · rintro ⟨h, hline⟩
    exact ⟨u.construct, h, by rw [hline]⟩

/-- The refusal of the first node that has one, among the node and those inside it. -/
def firstRefusal? (n : Node) : Option Unsupported := n.preorder.findSome? refusal?

/-- The same for nodes one behind another. -/
def firstAmong? (ns : List Node) : Option Unsupported := (ns.flatMap preorder).findSome? refusal?

theorem firstAmong?_cons (n : Node) (ns : List Node) :
    firstAmong? (n :: ns) = n.firstRefusal?.or (firstAmong? ns) := by
  rw [firstAmong?, List.flatMap_cons, List.findSome?_append]
  rfl

theorem firstAmong?_append (ns ms : List Node) :
    firstAmong? (ns ++ ms) = (firstAmong? ns).or (firstAmong? ms) := by
  rw [firstAmong?, List.flatMap_append, List.findSome?_append]
  rfl

theorem firstAmong?_single (n : Node) : firstAmong? [n] = n.firstRefusal? := by
  rw [firstAmong?_cons]
  exact Option.or_none

/-- A node that can have bytecode itself is refused for its children. -/
theorem firstRefusal?_of_none {n : Node} (h : n.unsupported? = none) :
    n.firstRefusal? = firstAmong? n.children := by
  rw [firstRefusal?, preorder_eq, List.findSome?_cons, refusal?, h]
  rfl

theorem firstRefusal?_of_some {n : Node} {construct : Construct}
    (h : n.unsupported? = some construct) : n.firstRefusal? = some ⟨construct, n.place.line⟩ := by
  rw [firstRefusal?, preorder_eq, List.findSome?_cons, refusal?, h]
  rfl

end Node

namespace Compiler

open Node

variable {α β : Type}

def refused? : Except Unsupported α → Option Unsupported
  | .ok _ => none
  | .error u => some u

theorem refused?_eq_none_iff {x : Except Unsupported α} :
    refused? x = none ↔ ∃ a, x = .ok a := by
  cases x with
  | ok a => simp [refused?]
  | error u => simp [refused?]

theorem refused?_eq_some_iff {x : Except Unsupported α} {u : Unsupported} :
    refused? x = some u ↔ x = .error u := by
  cases x with
  | ok a => simp [refused?]
  | error u' => simp [refused?]

theorem refused?_bind {x : Except Unsupported α} {k : α → Except Unsupported β}
    {o o' : Option Unsupported} (hx : refused? x = o) (hk : ∀ a, refused? (k a) = o') :
    refused? (x >>= k) = o.or o' := by
  cases x with
  | error u =>
      obtain rfl := hx
      rfl
  | ok a =>
      obtain rfl := hx
      exact hk a

theorem refused?_bind_pure {x : Except Unsupported α} {o : Option Unsupported}
    (hx : refused? x = o) (f : α → β) : refused? (x >>= fun a => pure (f a)) = o := by
  have hpure (a : α) : refused? (pure (f a) : Except Unsupported β) = none := rfl
  exact (refused?_bind hx hpure).trans Option.or_none

theorem ofBinary?_eq_none_iff {op : BinaryOp} : Opcode.ofBinary? op = none ↔ op = .matMul := by
  cases op <;> decide

/-! ## Expressions -/

mutual

theorem refused?_expr : ∀ (e : Expr) (pool : Nat),
    refused? (expr pool e) = (Node.expr e).firstRefusal?
  | .number .., _ | .text .., _ | .bool .., _ | .name .., _ => by
      rw [firstRefusal?_of_none rfl, expr]
      rfl
  | .binary p left op right, pool => by
      rw [expr]
      -- the operator is refused before the operands are looked at
      cases hop : Opcode.ofBinary? op with
      | none =>
          obtain rfl := ofBinary?_eq_none_iff.mp hop
          rw [firstRefusal?_of_some rfl]
          rfl
      | some code =>
          have hne : op ≠ .matMul := fun h => by
            rw [ofBinary?_eq_none_iff.mpr h] at hop
            cases hop
          have hself : (Node.expr (.binary p left op right)).unsupported? = none := if_neg hne
          rw [firstRefusal?_of_none hself]
          refine (refused?_bind (refused?_expr left pool) fun l =>
            refused?_bind_pure (refused?_expr right _) _).trans ?_
          rw [← firstAmong?_single (.expr right), ← firstAmong?_cons]
          rfl
  | .unary p op operand, pool => by
      rw [expr, firstRefusal?_of_none rfl]
      exact (refused?_bind_pure (refused?_expr operand pool) _).trans (firstAmong?_single _).symm
  | .call p callee args, pool => by
      rw [expr]
      by_cases hprint : callee = "print"
      · have hself : (Node.expr (.call p callee args)).unsupported? = none := if_pos hprint
        rw [if_pos hprint, firstRefusal?_of_none hself]
        exact refused?_bind_pure (refused?_exprs args pool {}) _
      · have hself : (Node.expr (.call p callee args)).unsupported? = some (.call callee) :=
          if_neg hprint
        rw [if_neg hprint, firstRefusal?_of_some hself]
        rfl
  | .array p items, pool => by
      rw [expr, firstRefusal?_of_none rfl]
      exact refused?_bind_pure (refused?_exprs items pool {}) _
  | .index p target key, pool => by
      rw [expr, firstRefusal?_of_none rfl]
      refine (refused?_bind (refused?_expr target pool) fun t =>
        refused?_bind_pure (refused?_expr key _) _).trans ?_
      rw [← firstAmong?_single (.expr key), ← firstAmong?_cons]
      rfl
  | .dict .., _ | .matrix .., _ | .self .., _ | .field .., _ | .methodCall .., _ | .create .., _
  | .superCall .., _ => by
      rw [expr, firstRefusal?_of_some rfl]
      rfl

theorem refused?_exprs : ∀ (es : List Expr) (pool : Nat) (done : Fragment),
    refused? (exprs pool done es) = firstAmong? (ofExprs es)
  | [], _, _ => rfl
  | e :: es, pool, done => by
      rw [exprs, refused?_bind (refused?_expr e _) fun f => refused?_exprs es pool (done ++ f)]
      exact (firstAmong?_cons (.expr e) (ofExprs es)).symm

end

/-! ## Statements -/

mutual

theorem refused?_stmt : ∀ (s : Stmt) (depth base pool : Nat),
    refused? (stmt depth base pool s) = (Node.stmt s).firstRefusal?
  | .expr _ e, _, _, pool | .bind _ _ e, _, _, pool | .assign _ _ e, _, _, pool => by
      rw [stmt, firstRefusal?_of_none rfl]
      exact (refused?_bind_pure (refused?_expr e pool) _).trans (firstAmong?_single _).symm
  | .choose _ condition yes no, depth, base, pool => by
      rw [stmt, firstRefusal?_of_none rfl]
      refine (refused?_bind (refused?_expr condition pool) fun test =>
        refused?_bind (refused?_block yes ..) fun onYes =>
          refused?_bind_pure (refused?_optionalBlock no ..) _).trans ?_
      rw [← firstAmong?_append, ← firstAmong?_cons]
      rfl
  | .loop _ condition body, depth, base, pool => by
      rw [stmt, firstRefusal?_of_none rfl]
      refine (refused?_bind (refused?_expr condition pool) fun test =>
        refused?_bind_pure (refused?_block body ..) _).trans ?_
      rw [← firstAmong?_cons]
      rfl
  | .forEach _ item source body _, depth, base, pool => by
      rw [stmt, firstRefusal?_of_none rfl]
      refine (refused?_bind (refused?_expr source pool) fun value =>
        refused?_bind_pure (refused?_block body ..) _).trans ?_
      rw [← firstAmong?_cons]
      rfl
  | .define .., _, _, _ | .defineClass .., _, _, _ | .assignField .., _, _, _
  | .giveBack .., _, _, _ | .attempt .., _, _, _ | .raise .., _, _, _ | .check .., _, _, _
  | .importModule .., _, _, _ | .importNames .., _, _, _ | .share .., _, _, _ => by
      rw [stmt, firstRefusal?_of_some rfl]
      rfl

theorem refused?_block : ∀ (ss : List Stmt) (depth base pool : Nat) (done : Fragment),
    refused? (block depth base pool done ss) = firstAmong? (ofBlock ss)
  | [], _, _, _, _ => rfl
  | s :: ss, depth, base, pool, done => by
      rw [block, refused?_bind (refused?_stmt s ..) fun f => refused?_block ss ..]
      exact (firstAmong?_cons (.stmt s) (ofBlock ss)).symm

theorem refused?_optionalBlock : ∀ (no : Option (List Stmt)) (depth base pool : Nat),
    refused? (optionalBlock depth base pool no) = firstAmong? (ofBlock (no.getD []))
  | none, _, _, _ => rfl
  | some ss, depth, base, pool => refused?_block ss depth base pool {}

end

end Compiler

/-! ## Programs -/

theorem Program.refused?_compile (p : Program) :
    Compiler.refused? p.compile = p.nodes.findSome? Node.refusal? :=
  Compiler.refused?_bind_pure (Compiler.refused?_block p.stmts 0 0 0 {}) _

/-- A program is compiled exactly if each of its nodes, at any depth, can have bytecode. If one
cannot, the compiler names the construct and the line of the first that cannot, where a node comes
before its children. -/
theorem Program.compile_refuses_first (p : Program) :
    ((∃ chunk, p.compile = .ok chunk) ↔ ∀ n ∈ p.nodes, n.unsupported? = none) ∧
    ∀ u, p.compile = .error u ↔
      ∃ before n after, p.nodes = before ++ n :: after ∧
        (∀ n' ∈ before, n'.unsupported? = none) ∧
        n.unsupported? = some u.construct ∧ n.place.line = u.line := by
  constructor
  · rw [← Compiler.refused?_eq_none_iff, p.refused?_compile, List.findSome?_eq_none_iff]
    simp only [Node.refusal?_eq_none_iff]
  · intro u
    rw [← Compiler.refused?_eq_some_iff, p.refused?_compile, List.findSome?_eq_some_iff]
    simp only [Node.refusal?_eq_none_iff, Node.refusal?_eq_some_iff]
    constructor
    · rintro ⟨before, n, after, heq, hn, hbefore⟩
      exact ⟨before, n, after, heq, hbefore, hn⟩
    · rintro ⟨before, n, after, heq, hbefore, hn⟩
      exact ⟨before, n, after, heq, hn, hbefore⟩

/-- A matrix product among the arguments of a print that is never reached, with one operand that
has no bytecode either, and a return behind it. -/
def buried : Program :=
  ⟨[.forEach ⟨⟨0, 52⟩, 1⟩ "x" (.array ⟨⟨9, 12⟩, 1⟩ [.number ⟨⟨10, 11⟩, 1⟩ 1.0])
      [.choose ⟨⟨15, 50⟩, 2⟩ (.bool ⟨⟨18, 23⟩, 2⟩ false)
        [.expr ⟨⟨26, 48⟩, 3⟩ (.call ⟨⟨26, 48⟩, 3⟩ "print" [.name ⟨⟨32, 33⟩, 3⟩ "x",
          .binary ⟨⟨35, 47⟩, 4⟩ (.name ⟨⟨35, 36⟩, 4⟩ "x") .matMul (.self ⟨⟨43, 47⟩, 5⟩)])]
        none] false,
    .giveBack ⟨⟨53, 59⟩, 6⟩ none]⟩

theorem Program.buried_refused : buried.nodes.length = 12 ∧
    buried.compile = .error ⟨.matrixProduct, 4⟩ ∧
    ∃ before n after, buried.nodes = before ++ n :: after ∧
      (∀ n' ∈ before, n'.unsupported? = none) ∧
      n.unsupported? = some .matrixProduct ∧ n.place.line = 4 := by
  have hrefused : buried.compile = .error ⟨.matrixProduct, 4⟩ := rfl
  have hlength : buried.nodes.length = 12 := by
    simp [buried, nodes, Node.ofBlock, Node.preorder_eq, Node.children, Stmt.children,
      Expr.children, Node.ofExprs]
  exact ⟨hlength, hrefused, (buried.compile_refuses_first.2 _).1 hrefused⟩

end ScriptLang
