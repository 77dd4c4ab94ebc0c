import Mathlib
import ScriptLang.Program.Cursor
import ScriptLang.Proofs.Program.Nodes
import ScriptLang.Proofs.Program.Printer

/-!
# What a cursor leaves behind

A cursor on its way passes tokens (`Passes`). What it has passed between two points makes
up a node (`Spans`) or several nodes, one behind another (`Holds`), and the place of each
node follows from the cursors it was read between. What is read this way can be printed.
-/

namespace ScriptLang

/-! ## Moving over tokens -/

namespace Cursor

variable {c d e : Cursor} {j k : Nat} {t : Token}

/-- Where the next token stands. -/
def place (c : Cursor) : Place := ⟨c.span, c.line⟩

theorem exists_rest_of_token? (h : c.token? = some t) :
    ∃ l rest, c.rest = l :: rest ∧ l.token = t := by
  obtain ⟨rest, last, final⟩ := c
  cases rest with
  | nil => cases h
  | cons l rest => exact ⟨l, rest, rfl, Option.some.inj h⟩

theorem rest_of_token? (h : c.token? = none) : c.rest = [] := by
  simpa [token?] using h

theorem token?_of_rest (h : c.rest = []) : c.token? = none := by
  rw [token?, h]
  rfl

/-- The second cursor is the first one moved over `least` or more of the tokens left. -/
def Passes (least : Nat) (c d : Cursor) : Prop :=
  ∃ k, least ≤ k ∧ k ≤ c.rest.length ∧ d = next^[k] c

theorem rest_next (c : Cursor) : c.next.rest = c.rest.tail := by
  obtain ⟨rest, last, final⟩ := c
  cases rest <;> rfl

theorem final_next (c : Cursor) : c.next.final = c.final := by
  obtain ⟨rest, last, final⟩ := c
  cases rest <;> rfl

theorem rest_iterate_next (k : Nat) (c : Cursor) : (next^[k] c).rest = c.rest.drop k := by
  induction k generalizing c with
  | zero => rfl
  | succ k ih => rw [Function.iterate_succ_apply, ih, rest_next, List.drop_tail]

namespace Passes

theorem refl (c : Cursor) : Passes 0 c c := ⟨0, le_rfl, Nat.zero_le _, rfl⟩

theorem trans (h : Passes j c d) (h' : Passes k d e) : Passes (j + k) c e := by
  obtain ⟨m, hjm, hm, rfl⟩ := h
  obtain ⟨m', hkm, hm', rfl⟩ := h'
  rw [rest_iterate_next, List.length_drop] at hm'
  refine ⟨m' + m, by omega, by omega, ?_⟩
  rw [Function.iterate_add_apply]

theorem weaken (h : Passes k c d) (hle : j ≤ k) : Passes j c d := by
  obtain ⟨m, hkm, hm, rfl⟩ := h
  exact ⟨m, hle.trans hkm, hm, rfl⟩

theorem zero (h : Passes k c d) : Passes 0 c d := h.weaken (Nat.zero_le k)

theorem length_add_le (h : Passes k c d) : d.rest.length + k ≤ c.rest.length := by
  obtain ⟨m, hkm, hm, rfl⟩ := h
  rw [rest_iterate_next, List.length_drop]
  omega

theorem final_eq (h : Passes k c d) : d.final = c.final := by
  obtain ⟨m, -, -, rfl⟩ := h
  induction m generalizing c with
  | zero => rfl
  | succ m ih => rw [Function.iterate_succ_apply, ih, final_next]

theorem exists_token (h : Passes 1 c d) : ∃ t, c.token? = some t := by
  have hlength := h.length_add_le
  cases ht : c.token? with
  | some t => exact ⟨t, rfl⟩
  | none =>
      rw [rest_of_token? ht] at hlength
      cases hlength

theorem next (h : c.token? = some t) : Passes 1 c c.next := by
  obtain ⟨l, rest, hrest, -⟩ := exists_rest_of_token? h
  exact ⟨1, le_rfl, by rw [hrest]; exact Nat.succ_pos _, rfl⟩

theorem skipSemis (c : Cursor) : Passes 0 c c.skipSemis := by
  obtain ⟨rest, last, final⟩ := c
  induction rest generalizing last with
  | nil => exact refl _
  | cons l rest ih =>
      by_cases hsemi : l.token = .symbol .semi
      · have hnext : Passes 1 ⟨l :: rest, last, final⟩ ⟨rest, l.span, final⟩ :=
          next (t := l.token) rfl
        have hskip : Cursor.skipSemis ⟨l :: rest, last, final⟩ =
            Cursor.skipSemis ⟨rest, l.span, final⟩ := by
          simp only [Cursor.skipSemis, overSemis, if_pos hsemi]
        rw [hskip]
        exact (hnext.trans (ih l.span)).zero
      · have hskip : Cursor.skipSemis ⟨l :: rest, last, final⟩ = ⟨l :: rest, last, final⟩ := by
          simp only [Cursor.skipSemis, overSemis, if_neg hsemi]
        rw [hskip]
        exact refl _

end Passes

end Cursor

/-- The error is one that is raised at the cursor: it names the token there and its span. That
rounds run out is no such error. -/
def SyntaxError.RaisedAt (e : SyntaxError) (c : Cursor) : Prop :=
  e.span = c.span ∧
    match e.cause with
    | .expected _ found => found = c.token?
    | .reserved => c.token? = some (.keyword .structKw)
    | .assignmentTarget => c.token? = some (.symbol .eq)
    | .tooDeep => False

/-! ## What can be printed

A node can be printed if its children can, apart from what is asked of the node itself. -/

namespace Expr

theorem allPrintable_iff {es : List Expr} : AllPrintable es ↔ ∀ e ∈ es, e.Printable := by
  induction es with
  | nil => simp [AllPrintable]
  | cons e es ih => rw [AllPrintable, ih, List.forall_mem_cons]

theorem entriesPrintable_iff {entries : List (String × Expr)} :
    EntriesPrintable entries ↔ ∀ x ∈ entries, x.2.Printable := by
  induction entries with
  | nil => simp [EntriesPrintable]
  | cons x entries ih =>
      obtain ⟨key, e⟩ := x
      rw [EntriesPrintable, ih, List.forall_mem_cons]

/-- What a printable expression is like, whatever its children are. -/
def Shaped : Expr → Prop
  | .array _ items => ¬UniformRows items
  | .matrix _ rows cols cells =>
    rows ≠ 0 ∧ cols ≠ 0 ∧ cells.length = rows * cols ∧
      ∀ row ∈ rowsOf cols rows cells, ¬UniformRows row
  | _ => True

theorem printable_of_children {e : Expr} (hshaped : e.Shaped)
    (h : ∀ child ∈ e.children, child.Printable) : e.Printable := by
  cases e with
  | array _ items => exact ⟨hshaped, allPrintable_iff.mpr h⟩
  | dict _ entries => exact entriesPrintable_iff.mpr (List.forall_mem_map.mp h)
  | matrix _ rows cols cells =>
      obtain ⟨hrows, hcols, hlength, huniform⟩ := hshaped
      exact ⟨hrows, hcols, hlength, huniform, allPrintable_iff.mpr h⟩
  | call _ _ args | create _ _ args | superCall _ _ args => exact allPrintable_iff.mpr h
  | methodCall _ receiver _ args =>
      obtain ⟨hreceiver, hargs⟩ := List.forall_mem_cons.mp h
      exact ⟨hreceiver, allPrintable_iff.mpr hargs⟩
  | binary _ left _ right | index _ left right =>
      exact ⟨h left (by simp [children]), h right (by simp [children])⟩
  | unary _ _ inner | field _ inner _ => exact h inner (by simp [children])
  | _ => trivial

end Expr

namespace Node

def Printable : Node → Prop
  | stmt s => s.Printable
  | expr e => e.Printable

theorem forall_mem_ofBlock {ss : List Stmt} :
    (∀ n ∈ ofBlock ss, n.Printable) ↔ Stmt.AllPrintable ss := by
  induction ss with
  | nil => simp [ofBlock, Stmt.AllPrintable]
  | cons s ss ih =>
      rw [ofBlock, List.map_cons, List.forall_mem_cons, Stmt.AllPrintable, ← ih]
      rfl

theorem forall_mem_ofExprs {es : List Expr} :
    (∀ n ∈ ofExprs es, n.Printable) ↔ ∀ e ∈ es, e.Printable :=
  List.forall_mem_map

end Node

namespace Stmt

open ScriptLang.Node

/-- What a printable statement is like, whatever its children are. -/
def Shaped : Stmt → Prop
  | .attempt _ _ handler finish =>
    (handler.isSome ∨ finish.isSome) ∧ ∀ h ∈ handler, h.kind.isSome → h.binder.isSome
  | .importNames _ _ names => names ≠ []
  | .share _ inner => inner.IsShareable
  | _ => True

theorem functionPrintable_iff {f : FunctionDecl} :
    FunctionPrintable f ↔ ∀ n ∈ ofFunction f, n.Printable := by
  obtain ⟨name, params, body, line⟩ := f
  exact forall_mem_ofBlock.symm

theorem methodsPrintable_of {fs : List FunctionDecl}
    (h : ∀ n ∈ fs.flatMap ofFunction, n.Printable) : MethodsPrintable fs := by
  induction fs with
  | nil => trivial
  | cons f fs ih =>
      rw [List.flatMap_cons, List.forall_mem_append] at h
      exact ⟨functionPrintable_iff.mpr h.1, ih h.2⟩

theorem optionPrintable_of {body : Option (List Stmt)}
    (h : ∀ n ∈ ofBlock (body.getD []), n.Printable) : OptionPrintable body := by
  cases body with
  | none => trivial
  | some body => exact forall_mem_ofBlock.mp h

theorem printable_of_children {s : Stmt} (hshaped : s.Shaped)
    (h : ∀ child ∈ s.children, child.Printable) : s.Printable := by
  cases s with
  | expr _ e | bind _ _ e | assign _ _ e | raise _ e => exact (List.forall_mem_cons.mp h).1
  | assignField _ target _ value =>
      obtain ⟨htarget, hvalue⟩ := List.forall_mem_cons.mp h
      exact ⟨htarget, (List.forall_mem_cons.mp hvalue).1⟩
  | define _ decl => exact functionPrintable_iff.mpr h
  | defineClass _ decl =>
      obtain ⟨name, parent, fields, methods⟩ := decl
      exact methodsPrintable_of h
  | choose _ condition yes no =>
      obtain ⟨hcondition, hblocks⟩ := List.forall_mem_cons.mp h
      obtain ⟨hyes, hno⟩ := List.forall_mem_append.mp hblocks
      exact ⟨hcondition, forall_mem_ofBlock.mp hyes, optionPrintable_of hno⟩
  | forEach _ _ e body _ | loop _ e body =>
      obtain ⟨he, hbody⟩ := List.forall_mem_cons.mp h
      exact ⟨he, forall_mem_ofBlock.mp hbody⟩
  | giveBack _ value => exact fun e he => forall_mem_ofExprs.mp h e (Option.mem_toList.mpr he)
  | attempt _ body handler finish =>
      obtain ⟨hbody, hclauses⟩ := List.forall_mem_append.mp h
      obtain ⟨hhandler, hfinish⟩ := List.forall_mem_append.mp hclauses
      refine ⟨hshaped.1, forall_mem_ofBlock.mp hbody, ?_, optionPrintable_of hfinish⟩
      rcases handler with _ | ⟨kind, binder, body⟩
      · trivial
      · exact ⟨hshaped.2 _ rfl, forall_mem_ofBlock.mp hhandler⟩
  | check _ condition message =>
      obtain ⟨hcondition, hmessage⟩ := List.forall_mem_cons.mp h
      exact ⟨hcondition, fun e he =>
        forall_mem_ofExprs.mp hmessage e (Option.mem_toList.mpr he)⟩
  | importModule => trivial
  | importNames => exact hshaped
  | share _ inner => exact ⟨hshaped, (List.forall_mem_cons.mp h).1⟩

end Stmt

namespace Node

def Shaped : Node → Prop
  | stmt s => s.Shaped
  | expr e => e.Shaped

theorem printable_of_children {n : Node} (hshaped : n.Shaped)
    (h : ∀ child ∈ n.children, child.Printable) : n.Printable := by
  cases n with
  | stmt s => exact Stmt.printable_of_children hshaped h
  | expr e => exact Expr.printable_of_children hshaped (forall_mem_ofExprs.mp h)

end Node

/-! ## Nodes between two cursors -/

namespace Cursor

open ScriptLang.Node

variable {c d e : Cursor} {n : Node} {ns ms : List Node}

mutual

/-- What was passed from the one cursor to the other makes up the node. -/
inductive Spans : Cursor → Node → Cursor → Prop
  /-- The node stands where its first token stands and goes on up to the token read last. -/
  | since {c d : Cursor} {n : Node} (passes : c.Passes 1 d) (inside : Holds c n.children d)
      (shaped : n.Shaped) (place : n.place = ⟨c.span.merge d.last, c.line⟩) : Spans c n d
  /-- An operand comes first, and the line is that of the token behind it. -/
  | behind {c d e : Cursor} {left whole : Expr} {more : List Node}
      (first : Spans c (.expr left) d) (passes : d.Passes 1 e) (rest : Holds d more e)
      (children : ofExprs whole.children = .expr left :: more) (shaped : whole.Shaped)
      (place : whole.place = ⟨c.span.merge e.last, d.line⟩) : Spans c (.expr whole) e
  /-- Two operands with an operator between them stand where they both stand. -/
  | binary {c d d' e : Cursor} {left right : Expr} {op : BinaryOp}
      (first : Spans c (.expr left) d) (passes : d.Passes 1 d')
      (second : Spans d' (.expr right) e) :
      Spans c (.expr (.binary ⟨left.place.span.merge right.place.span, left.place.line⟩ left op
        right)) e

/-- The nodes are made up of what was passed, one behind another, perhaps with more between
them. -/
inductive Holds : Cursor → List Node → Cursor → Prop
  | nil {c d : Cursor} (passes : c.Passes 0 d) : Holds c [] d
  | cons {c c' d e : Cursor} {n : Node} {ns : List Node} (passes : c.Passes 0 c')
      (first : Spans c' n d) (rest : Holds d ns e) : Holds c (n :: ns) e

end

theorem sizeOf_lt_of_children {e : Expr} (h : ofExprs e.children = ns) :
    ∀ child ∈ ns, sizeOf child < sizeOf (Node.expr e) := by
  subst h
  exact fun child hchild => sizeOf_children (n := .expr e) hchild

theorem Spans.passes {c d : Cursor} {n : Node} (h : c.Spans n d) : c.Passes 1 d := by
  cases h with
  | since passes => exact passes
  | behind first passes _ hchildren => exact (first.passes.trans passes).weaken (by decide)
  | binary first passes second =>
      exact ((first.passes.trans passes).trans second.passes).weaken (by decide)
termination_by sizeOf n
decreasing_by
  · exact sizeOf_lt_of_children hchildren _ (by simp)
  all_goals exact sizeOf_lt_of_children rfl _ (by simp [ofExprs, Expr.children])

namespace Holds

theorem passes (h : c.Holds ns d) : c.Passes 0 d := by
  induction ns generalizing c with
  | nil =>
      cases h with
      | nil hpasses => exact hpasses
  | cons n ns ih =>
      cases h with
      | cons hpasses first rest => exact ((hpasses.trans first.passes).trans (ih rest)).zero

theorem before (h : d.Holds ns e) (hpasses : c.Passes 0 d) : c.Holds ns e := by
  cases h with
  | nil hd => exact .nil (hpasses.trans hd)
  | cons hd first rest => exact .cons (hpasses.trans hd) first rest

theorem append (h : c.Holds ns d) (h' : d.Holds ms e) : c.Holds (ns ++ ms) e := by
  induction ns generalizing c with
  | nil => exact h'.before h.passes
  | cons n ns ih =>
      cases h with
      | cons hpasses first rest => exact .cons hpasses first (ih rest)

theorem beyond (h : c.Holds ns d) (hpasses : d.Passes 0 e) : c.Holds ns e := by
  have hnone := h.append (.nil hpasses)
  rwa [List.append_nil] at hnone

end Holds

namespace Spans

theorem single (h : c.Spans n d) : c.Holds [n] d := .cons (.refl c) h (.nil (.refl d))

/-- Without the node itself, its children were read there. -/
theorem inside (h : c.Spans n d) : c.Holds n.children d := by
  cases h with
  | since _ inside => exact inside
  | behind first _ rest hchildren =>
      rw [children, hchildren]
      exact .cons (.refl c) first rest
  | binary first passes second => exact .cons (.refl c) first (second.single.before passes.zero)

theorem shaped (h : c.Spans n d) : n.Shaped := by
  cases h with
  | since _ _ shaped => exact shaped
  | behind _ _ _ _ shaped => exact shaped
  | binary => trivial

end Spans

theorem Holds.exists_spans (h : c.Holds ns d) : ∀ n ∈ ns, ∃ c' d', Spans c' n d' := by
  induction ns generalizing c with
  | nil => exact List.forall_mem_nil _
  | cons n ns ih =>
      cases h with
      | cons _ first rest => exact List.forall_mem_cons.mpr ⟨⟨_, _, first⟩, ih rest⟩

theorem Spans.printable {c d : Cursor} {n : Node} (h : c.Spans n d) : n.Printable := by
  refine printable_of_children h.shaped fun child hchild => ?_
  obtain ⟨_, _, hspans⟩ := h.inside.exists_spans child hchild
  exact hspans.printable
termination_by sizeOf n
decreasing_by exact sizeOf_children hchild

theorem Holds.printable (h : c.Holds ns d) : ∀ n ∈ ns, n.Printable := by
  intro n hn
  obtain ⟨_, _, hspans⟩ := h.exists_spans n hn
  exact hspans.printable

/-- The nodes were read between the cursors, and a token at least. -/
structure Reads (c : Cursor) (ns : List Node) (d : Cursor) : Prop where
  passes : c.Passes 1 d
  holds : c.Holds ns d

theorem Passes.reads (h : c.Passes 1 d) : c.Reads [] d := ⟨h, .nil h.zero⟩

theorem Spans.reads (h : c.Spans n d) : c.Reads [n] d := ⟨h.passes, h.single⟩

theorem Spans.reads_inside (h : c.Spans n d) : c.Reads n.children d := ⟨h.passes, h.inside⟩

namespace Reads

theorem append (h : c.Reads ns d) (h' : d.Holds ms e) : c.Reads (ns ++ ms) e :=
  ⟨h.passes.trans h'.passes, h.holds.append h'⟩

theorem beyond (h : c.Reads ns d) (h' : d.Passes 0 e) : c.Reads ns e :=
  ⟨h.passes.trans h', h.holds.beyond h'⟩

/-- All that was read makes up a node with the nodes in it as its children. -/
theorem node (h : c.Reads n.children d) (hshaped : n.Shaped)
    (hplace : n.place = ⟨c.span.merge d.last, c.line⟩) : c.Spans n d :=
  .since h.passes h.holds hshaped hplace

end Reads

end Cursor

end ScriptLang
