import Mathlib
import ScriptLang.Program

/-!
# The nodes of a program

Statements and expressions are the nodes of a program, and each has the nodes directly
inside it as its children, in the order in which they stand in the text. A function or a
class is no node of its own: the statements in its bodies are children of the statement
that defines it. `nodes` lists all nodes of a program, each before its children.
-/

namespace ScriptLang

inductive Node where
  | stmt (s : Stmt)
  | expr (e : Expr)

def Expr.children : Expr → List Expr
  | .number .. | .text .. | .bool .. | .name .. | .self .. => []
  | .array _ items => items
  | .dict _ entries => entries.map (·.2)
  | .matrix _ _ _ cells => cells
  | .binary _ left _ right => [left, right]
  | .unary _ _ operand => [operand]
  | .call _ _ args => args
  | .index _ target key => [target, key]
  | .field _ target _ => [target]
  | .methodCall _ receiver _ args => receiver :: args
  | .create _ _ args => args
  | .superCall _ _ args => args

namespace Node

def ofBlock (ss : List Stmt) : List Node := ss.map .stmt

def ofExprs (es : List Expr) : List Node := es.map .expr

def ofFunction (f : FunctionDecl) : List Node := ofBlock f.body

end Node

open Node in
def Stmt.children : Stmt → List Node
  | .expr _ e => [.expr e]
  | .bind _ _ value => [.expr value]
  | .assign _ _ value => [.expr value]
  | .assignField _ target _ value => [.expr target, .expr value]
  | .define _ function => ofFunction function
  | .defineClass _ decl => decl.methods.flatMap ofFunction
  | .choose _ condition yes no => .expr condition :: (ofBlock yes ++ ofBlock (no.getD []))
  | .forEach _ _ source body _ => .expr source :: ofBlock body
  | .loop _ condition body => .expr condition :: ofBlock body
  | .giveBack _ value => ofExprs value.toList
  | .attempt _ body handler finish =>
    ofBlock body ++ (handler.elim [] (fun h => ofBlock h.body) ++ ofBlock (finish.getD []))
  | .raise _ value => [.expr value]
  | .check _ condition message => .expr condition :: ofExprs message.toList
  | .importModule .. | .importNames .. => []
  | .share _ inner => [.stmt inner]

namespace Node

def place : Node → Place
  | stmt s => s.place
  | expr e => e.place

def span (n : Node) : Span := n.place.span

def children : Node → List Node
  | stmt s => s.children
  | expr e => ofExprs e.children

/-! ## Children are smaller -/

@[grind →]
theorem sizeOf_lt_of_mem_ofBlock {n : Node} {ss : List Stmt} (h : n ∈ ofBlock ss) :
    sizeOf n < 1 + sizeOf ss := by
  obtain ⟨s, hs, rfl⟩ := List.mem_map.mp h
  have hlt := List.sizeOf_lt_of_mem hs
  rw [stmt.sizeOf_spec]
  omega

@[grind →]
theorem sizeOf_lt_of_mem_ofExprs {n : Node} {es : List Expr} (h : n ∈ ofExprs es) :
    sizeOf n < 1 + sizeOf es := by
  obtain ⟨e, he, rfl⟩ := List.mem_map.mp h
  have hlt := List.sizeOf_lt_of_mem he
  rw [expr.sizeOf_spec]
  omega

@[grind →]
theorem sizeOf_lt_of_mem_ofFunction {n : Node} {f : FunctionDecl} (h : n ∈ ofFunction f) :
    sizeOf n < sizeOf f := by
  obtain ⟨name, params, body, line⟩ := f
  have hlt := sizeOf_lt_of_mem_ofBlock h
  simp only [FunctionDecl.mk.sizeOf_spec] at hlt ⊢
  omega

end Node

theorem Expr.sizeOf_children {e c : Expr} (h : c ∈ e.children) : sizeOf c < sizeOf e := by
  cases e with
  | dict _ entries =>
      obtain ⟨⟨key, e⟩, hentry, rfl⟩ := List.mem_map.mp h
      have hlt := List.sizeOf_lt_of_mem hentry
      simp only [Prod.mk.sizeOf_spec, dict.sizeOf_spec] at hlt ⊢
      omega
  | _ => grind [children, → List.sizeOf_lt_of_mem]

theorem Stmt.sizeOf_children {s : Stmt} {c : Node} (h : c ∈ s.children) :
    sizeOf c < 1 + sizeOf s := by
  cases s with
  | defineClass _ decl =>
      obtain ⟨name, parent, fields, methods⟩ := decl
      obtain ⟨f, hf, hc⟩ := List.mem_flatMap.mp h
      have hmem : sizeOf f < sizeOf methods := List.sizeOf_lt_of_mem hf
      grind
  | choose _ _ _ no => cases no <;> grind [children]
  | giveBack _ value => cases value <;> grind [children]
  | attempt _ _ handler finish =>
      rcases handler with _ | ⟨kind, binder, inner⟩ <;> cases finish <;> grind [children]
  | check _ _ message => cases message <;> grind [children]
  | _ => grind [children]

namespace Node

theorem sizeOf_children {n c : Node} (h : c ∈ n.children) : sizeOf c < sizeOf n := by
  cases n with
  | stmt s =>
      rw [stmt.sizeOf_spec]
      exact Stmt.sizeOf_children h
  | expr e =>
      obtain ⟨c, hc, rfl⟩ := List.mem_map.mp h
      have hlt := Expr.sizeOf_children hc
      simp only [expr.sizeOf_spec]
      omega

/-- The node and all nodes inside it, each before its children. -/
def preorder (n : Node) : List Node :=
  n :: n.children.attach.flatMap fun c => c.1.preorder
termination_by sizeOf n
decreasing_by exact sizeOf_children c.2

theorem preorder_eq (n : Node) : n.preorder = n :: n.children.flatMap preorder := by
  rw [preorder, List.flatMap_subtype (g := preorder) (by simp), List.unattach_attach]

end Node

/-- All nodes of a program, each before its children. -/
def Program.nodes (p : Program) : List Node := (Node.ofBlock p.stmts).flatMap Node.preorder

end ScriptLang
