import Mathlib
import ScriptLang.Program
import ScriptLang.Token

/-!
# Writing programs as tokens

The tokens of a program by the grammar that programs are read by. An operand is put in
parentheses where it binds less than its place asks for, and a semicolon ends every
statement. A dictionary's keys and the names of modules are written as texts.

Not every tree of nodes is what some text says: an array of rows of one length is a
matrix, for instance. `Printable` tells which are, and `bare` takes away where the nodes
were read from.
-/

namespace ScriptLang

/-! ## Operators -/

namespace BinaryOp

def symbol : BinaryOp → Symbol
  | add => .plus
  | sub => .minus
  | mul => .star
  | div => .slash
  | mod => .percent
  | floorDiv => .slashSlash
  | matMul => .atSign
  | eq => .eqEq
  | ne => .notEq
  | lt => .lt
  | gt => .gt
  | le => .ltEq
  | ge => .gtEq

/-- Comparisons bind least, then sums, then products. -/
def level : BinaryOp → Nat
  | eq | ne | lt | gt | le | ge => 0
  | add | sub | matMul => 1
  | mul | div | mod | floorDiv => 2

theorem level_lt (op : BinaryOp) : op.level < 3 := by
  cases op <;> decide

end BinaryOp

def UnaryOp.symbol : UnaryOp → Symbol
  | neg => .minus
  | not => .bang

/-! ## Lists of tokens -/

/-- Parts with commas between them. -/
def commas : List (List Token) → List Token
  | [] => []
  | [part] => part
  | part :: next :: parts => part ++ .symbol .comma :: commas (next :: parts)

/-- Tokens between an opening and a closing symbol. -/
def enclosed (opening closing : Symbol) (ts : List Token) : List Token :=
  .symbol opening :: (ts ++ [.symbol closing])

def parenthesized (ts : List Token) : List Token := enclosed .lparen .rparen ts

def bracketed (ts : List Token) : List Token := enclosed .lbracket .rbracket ts

def braced (ts : List Token) : List Token := enclosed .lbrace .rbrace ts

/-- The first `rows` rows of `cols` elements each. -/
def rowsOf {α : Type} (cols : Nat) : Nat → List α → List (List α)
  | 0, _ => []
  | rows + 1, xs => xs.take cols :: rowsOf cols rows (xs.drop cols)

theorem length_le_commas {part : List Token} {parts : List (List Token)} (h : part ∈ parts) :
    part.length ≤ (commas parts).length := by
  induction parts with
  | nil => cases h
  | cons first parts ih =>
      cases parts with
      | nil =>
          rw [List.mem_singleton.mp h]
          exact Nat.le_refl _
      | cons next parts =>
          simp only [commas, List.length_append, List.length_cons]
          rcases List.mem_cons.mp h with rfl | hrest
          · omega
          · have hle := ih hrest
            omega

/-- There are no more commas than tokens. -/
theorem length_parts_le (parts : List (List Token)) :
    parts.length ≤ (commas parts).length + 1 := by
  induction parts with
  | nil => exact Nat.zero_le _
  | cons first parts ih =>
      cases parts with
      | nil => exact Nat.le_add_left 1 _
      | cons next parts =>
          simp only [commas, List.length_append, List.length_cons] at ih ⊢
          omega

/-! ## Expressions -/

namespace Expr

/-- How strongly an expression holds together. The three levels of binary operators come first,
then signs, then what stands behind an operand, and last what needs no operand in front. -/
def level : Expr → Nat
  | .binary _ _ op _ => op.level
  | .unary .. => 3
  | .index .. | .field .. | .methodCall .. => 4
  | _ => 5

/-- The tokens of an operand where operands of at least the level `n` stand. -/
def operand (n : Nat) (e : Expr) (ts : List Token) : List Token :=
  if e.level < n then parenthesized ts else ts

mutual

def tokens : Expr → List Token
  | .number _ n => [.number n]
  | .text _ s => [.text s]
  | .bool _ b => [.keyword (if b then .trueKw else .falseKw)]
  | .name _ x => [.name x]
  | .self _ => [.keyword .thisKw]
  | .array _ items => bracketed (commas (tokensAll items))
  | .dict _ entries => braced (commas (tokensEntries entries))
  | .matrix _ rows cols cells =>
    bracketed (commas ((rowsOf cols rows (tokensAll cells)).map fun row => bracketed (commas row)))
  | .binary _ left op right =>
    left.operand op.level left.tokens ++
      .symbol op.symbol :: right.operand (op.level + 1) right.tokens
  | .unary _ op operand => .symbol op.symbol :: operand.operand 3 operand.tokens
  | .call _ callee args => .name callee :: parenthesized (commas (tokensAll args))
  | .index _ target key => target.operand 4 target.tokens ++ bracketed key.tokens
  | .field _ target label => target.operand 4 target.tokens ++ [.symbol .dot, .name label]
  | .methodCall _ receiver method args =>
    receiver.operand 4 receiver.tokens ++
      .symbol .dot :: .name method :: parenthesized (commas (tokensAll args))
  | .create _ className args =>
    .keyword .newKw :: .name className :: parenthesized (commas (tokensAll args))
  | .superCall _ method args =>
    .keyword .superKw :: .symbol .dot :: .name method :: parenthesized (commas (tokensAll args))

def tokensAll : List Expr → List (List Token)
  | [] => []
  | e :: es => e.tokens :: tokensAll es

def tokensEntries : List (String × Expr) → List (List Token)
  | [] => []
  | (key, e) :: entries => (.text key :: .symbol .colon :: e.tokens) :: tokensEntries entries

end

/-- Rows that make a matrix when they stand in an array: arrays of one length, which is not
zero. -/
def UniformRows (items : List Expr) : Prop :=
  items ≠ [] ∧ ∃ cols ≠ 0, ∀ e ∈ items, ∃ place row, e = .array place row ∧ row.length = cols

mutual

/-- No array is a matrix in disguise, nor is a row of a matrix. -/
def Printable : Expr → Prop
  | .number .. | .text .. | .bool .. | .name .. | .self .. => True
  | .array _ items => ¬UniformRows items ∧ AllPrintable items
  | .dict _ entries => EntriesPrintable entries
  | .matrix _ rows cols cells =>
    rows ≠ 0 ∧ cols ≠ 0 ∧ cells.length = rows * cols ∧
      (∀ row ∈ rowsOf cols rows cells, ¬UniformRows row) ∧ AllPrintable cells
  | .binary _ left _ right => left.Printable ∧ right.Printable
  | .unary _ _ operand => operand.Printable
  | .call _ _ args => AllPrintable args
  | .index _ target key => target.Printable ∧ key.Printable
  | .field _ target _ => target.Printable
  | .methodCall _ receiver _ args => receiver.Printable ∧ AllPrintable args
  | .create _ _ args => AllPrintable args
  | .superCall _ _ args => AllPrintable args

def AllPrintable : List Expr → Prop
  | [] => True
  | e :: es => e.Printable ∧ AllPrintable es

def EntriesPrintable : List (String × Expr) → Prop
  | [] => True
  | (_, e) :: entries => e.Printable ∧ EntriesPrintable entries

end

mutual

/-- The expression without places. -/
def bare : Expr → Expr
  | .number _ n => .number default n
  | .text _ s => .text default s
  | .bool _ b => .bool default b
  | .name _ x => .name default x
  | .self _ => .self default
  | .array _ items => .array default (bareAll items)
  | .dict _ entries => .dict default (bareEntries entries)
  | .matrix _ rows cols cells => .matrix default rows cols (bareAll cells)
  | .binary _ left op right => .binary default left.bare op right.bare
  | .unary _ op operand => .unary default op operand.bare
  | .call _ callee args => .call default callee (bareAll args)
  | .index _ target key => .index default target.bare key.bare
  | .field _ target label => .field default target.bare label
  | .methodCall _ receiver method args => .methodCall default receiver.bare method (bareAll args)
  | .create _ className args => .create default className (bareAll args)
  | .superCall _ method args => .superCall default method (bareAll args)

def bareAll : List Expr → List Expr
  | [] => []
  | e :: es => e.bare :: bareAll es

def bareEntries : List (String × Expr) → List (String × Expr)
  | [] => []
  | (key, e) :: entries => (key, e.bare) :: bareEntries entries

end

theorem level_le (e : Expr) : e.level ≤ 5 := by
  cases e with
  | binary _ _ op _ => exact Nat.le_trans (Nat.le_of_lt op.level_lt) (by decide)
  | _ => simp [level]

theorem tokensAll_eq (es : List Expr) : tokensAll es = es.map tokens := by
  induction es with
  | nil => rfl
  | cons e es ih => rw [tokensAll, ih, List.map_cons]

theorem tokensEntries_eq (entries : List (String × Expr)) :
    tokensEntries entries =
      entries.map fun x => .text x.1 :: .symbol .colon :: x.2.tokens := by
  induction entries with
  | nil => rfl
  | cons x entries ih =>
      obtain ⟨key, e⟩ := x
      rw [tokensEntries, ih, List.map_cons]

theorem bareAll_eq (es : List Expr) : bareAll es = es.map bare := by
  induction es with
  | nil => rfl
  | cons e es ih => rw [bareAll, ih, List.map_cons]

theorem bareEntries_eq (entries : List (String × Expr)) :
    bareEntries entries = entries.map fun x => (x.1, x.2.bare) := by
  induction entries with
  | nil => rfl
  | cons x entries ih =>
      obtain ⟨key, e⟩ := x
      rw [bareEntries, ih, List.map_cons]

end Expr

/-! ## Statements -/

namespace Stmt

mutual

def tokens : Stmt → List Token
  | .expr _ e => e.tokens
  | .bind _ x value => .keyword .letKw :: .name x :: .symbol .eq :: value.tokens
  | .assign _ x value => .name x :: .symbol .eq :: value.tokens
  | .assignField _ target field value =>
    target.operand 4 target.tokens ++
      .symbol .dot :: .name field :: .symbol .eq :: value.tokens
  | .define _ decl => tokensFunction decl
  | .defineClass _ decl => tokensClass decl
  | .choose _ condition yes no =>
    .keyword .ifKw :: (condition.tokens ++ (braced (tokensAll yes) ++
      tokensOption .elseKw no))
  | .forEach _ item source body parallel =>
    (if parallel then [.keyword .parallelKw] else []) ++
      .keyword .forKw :: .name item :: .keyword .inKw ::
        (source.tokens ++ braced (tokensAll body))
  | .loop _ condition body =>
    .keyword .whileKw :: (condition.tokens ++ braced (tokensAll body))
  | .giveBack _ value => .keyword .returnKw :: (value.elim [] Expr.tokens)
  | .attempt _ body handler finish =>
    .keyword .tryKw :: (braced (tokensAll body) ++ (tokensHandler handler ++
      tokensOption .finallyKw finish))
  | .raise _ value => .keyword .throwKw :: value.tokens
  | .check _ condition message =>
    .keyword .assertKw :: (condition.tokens ++
      message.elim [] (fun e => .symbol .comma :: e.tokens))
  | .importModule _ module rename =>
    .keyword .importKw :: .text module :: rename.elim [] (fun x => [.keyword .asKw, .name x])
  | .importNames _ module names =>
    .keyword .fromKw :: .text module :: .keyword .importKw ::
      commas (names.map fun x => [.name x])
  | .share _ inner => .keyword .exportKw :: inner.tokens

/-- Every statement with its semicolon. -/
def tokensAll : List Stmt → List Token
  | [] => []
  | s :: ss => s.tokens ++ .symbol .semi :: tokensAll ss

/-- A block behind its keyword, if there is one. -/
def tokensOption (k : Keyword) : Option (List Stmt) → List Token
  | none => []
  | some body => .keyword k :: braced (tokensAll body)

def tokensFunction : FunctionDecl → List Token
  | ⟨name, params, body, _⟩ =>
    .keyword .fnKw :: .name name :: (parenthesized (commas (params.map fun x => [.name x])) ++
      braced (tokensAll body))

def tokensMethods : List FunctionDecl → List Token
  | [] => []
  | f :: fs => tokensFunction f ++ tokensMethods fs

/-- The fields come before the methods. -/
def tokensClass : ClassDecl → List Token
  | ⟨name, parent, fields, methods⟩ =>
    .keyword .classKw :: .name name ::
      (parent.elim [] (fun x => [.keyword .extendsKw, .name x]) ++
        braced (fields.flatMap (fun x => [.keyword .letKw, .name x]) ++ tokensMethods methods))

def tokensHandler : Option Handler → List Token
  | none => []
  | some ⟨kind, binder, body⟩ =>
    .keyword .catchKw :: (kind.elim [] (fun x => [.name x, .keyword .asKw]) ++
      (binder.elim [] (fun x => [.name x]) ++ braced (tokensAll body)))

end

/-- What may be exported. -/
def IsShareable : Stmt → Prop
  | .define .. | .bind .. | .defineClass .. => True
  | _ => False

mutual

/-- The statement stands for some tokens: its expressions do, a handler for one kind has a name
to bind, what is attempted has a handler or a last block, names are imported, and what is
exported is a function, a binding or a class. -/
def Printable : Stmt → Prop
  | .expr _ e => e.Printable
  | .bind _ _ value => value.Printable
  | .assign _ _ value => value.Printable
  | .assignField _ target _ value => target.Printable ∧ value.Printable
  | .define _ decl => FunctionPrintable decl
  | .defineClass _ decl => ClassPrintable decl
  | .choose _ condition yes no =>
    condition.Printable ∧ AllPrintable yes ∧ OptionPrintable no
  | .forEach _ _ source body _ => source.Printable ∧ AllPrintable body
  | .loop _ condition body => condition.Printable ∧ AllPrintable body
  | .giveBack _ value => ∀ e ∈ value, e.Printable
  | .attempt _ body handler finish =>
    (handler.isSome ∨ finish.isSome) ∧ AllPrintable body ∧ HandlerPrintable handler ∧
      OptionPrintable finish
  | .raise _ value => value.Printable
  | .check _ condition message => condition.Printable ∧ ∀ e ∈ message, e.Printable
  | .importModule .. => True
  | .importNames _ _ names => names ≠ []
  | .share _ inner => inner.IsShareable ∧ inner.Printable

def AllPrintable : List Stmt → Prop
  | [] => True
  | s :: ss => s.Printable ∧ AllPrintable ss

def OptionPrintable : Option (List Stmt) → Prop
  | none => True
  | some body => AllPrintable body

def FunctionPrintable : FunctionDecl → Prop
  | ⟨_, _, body, _⟩ => AllPrintable body

def MethodsPrintable : List FunctionDecl → Prop
  | [] => True
  | f :: fs => FunctionPrintable f ∧ MethodsPrintable fs

def ClassPrintable : ClassDecl → Prop
  | ⟨_, _, _, methods⟩ => MethodsPrintable methods

def HandlerPrintable : Option Handler → Prop
  | none => True
  | some ⟨kind, binder, body⟩ => (kind.isSome → binder.isSome) ∧ AllPrintable body

end

mutual

/-- The statement without places and lines. -/
def bare : Stmt → Stmt
  | .expr _ e => .expr default e.bare
  | .bind _ x value => .bind default x value.bare
  | .assign _ x value => .assign default x value.bare
  | .assignField _ target field value => .assignField default target.bare field value.bare
  | .define _ decl => .define default (bareFunction decl)
  | .defineClass _ decl => .defineClass default (bareClass decl)
  | .choose _ condition yes no =>
    .choose default condition.bare (bareAll yes) (bareOption no)
  | .forEach _ item source body parallel =>
    .forEach default item source.bare (bareAll body) parallel
  | .loop _ condition body => .loop default condition.bare (bareAll body)
  | .giveBack _ value => .giveBack default (value.map Expr.bare)
  | .attempt _ body handler finish =>
    .attempt default (bareAll body) (bareHandler handler) (bareOption finish)
  | .raise _ value => .raise default value.bare
  | .check _ condition message => .check default condition.bare (message.map Expr.bare)
  | .importModule _ module rename => .importModule default module rename
  | .importNames _ module names => .importNames default module names
  | .share _ inner => .share default inner.bare

def bareAll : List Stmt → List Stmt
  | [] => []
  | s :: ss => s.bare :: bareAll ss

def bareOption : Option (List Stmt) → Option (List Stmt)
  | none => none
  | some body => some (bareAll body)

def bareFunction : FunctionDecl → FunctionDecl
  | ⟨name, params, body, _⟩ => ⟨name, params, bareAll body, 0⟩

def bareMethods : List FunctionDecl → List FunctionDecl
  | [] => []
  | f :: fs => bareFunction f :: bareMethods fs

def bareClass : ClassDecl → ClassDecl
  | ⟨name, parent, fields, methods⟩ => ⟨name, parent, fields, bareMethods methods⟩

def bareHandler : Option Handler → Option Handler
  | none => none
  | some ⟨kind, binder, body⟩ => some ⟨kind, binder, bareAll body⟩

end

theorem bareAll_eq (ss : List Stmt) : bareAll ss = ss.map bare := by
  induction ss with
  | nil => rfl
  | cons s ss ih => rw [bareAll, ih, List.map_cons]

theorem bareMethods_eq (fs : List FunctionDecl) : bareMethods fs = fs.map bareFunction := by
  induction fs with
  | nil => rfl
  | cons f fs ih => rw [bareMethods, ih, List.map_cons]

end Stmt

namespace Program

def tokens (p : Program) : List Token := Stmt.tokensAll p.stmts

def Printable (p : Program) : Prop := Stmt.AllPrintable p.stmts

def bare (p : Program) : Program := ⟨Stmt.bareAll p.stmts⟩

end Program

end ScriptLang
