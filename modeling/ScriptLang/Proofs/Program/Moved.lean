import Mathlib
import ScriptLang.Proofs.Program.ReadExpr
import ScriptLang.Proofs.Token.LineBreak

/-!
# Programs further down in a text

If something is put in front of a text, the nodes of its program stand at other bytes
and on other lines, and nothing else about them changes.
-/

namespace ScriptLang

/-- What stands in front of a text: so many bytes with so many line breaks in them. -/
structure Shift where
  bytes : Nat
  lines : Nat

def Place.moved (σ : Shift) (p : Place) : Place := ⟨p.span.moved σ.bytes, p.line + σ.lines⟩

theorem Span.moved_merge (n : Nat) (s t : Span) :
    (s.merge t).moved n = (s.moved n).merge (t.moved n) := by
  simp only [Span.merge, Span.moved, Nat.add_min_add_right, Nat.add_max_add_right]

@[simp] theorem Place.span_moved (σ : Shift) (p : Place) :
    (p.moved σ).span = p.span.moved σ.bytes := rfl

namespace Expr

mutual

/-- The expression in a text that has more in front. -/
def moved (σ : Shift) : Expr → Expr
  | .number p n => .number (p.moved σ) n
  | .text p s => .text (p.moved σ) s
  | .bool p b => .bool (p.moved σ) b
  | .name p x => .name (p.moved σ) x
  | .self p => .self (p.moved σ)
  | .array p items => .array (p.moved σ) (movedAll σ items)
  | .dict p entries => .dict (p.moved σ) (movedEntries σ entries)
  | .matrix p rows cols cells => .matrix (p.moved σ) rows cols (movedAll σ cells)
  | .binary p left op right => .binary (p.moved σ) (left.moved σ) op (right.moved σ)
  | .unary p op operand => .unary (p.moved σ) op (operand.moved σ)
  | .call p callee args => .call (p.moved σ) callee (movedAll σ args)
  | .index p target key => .index (p.moved σ) (target.moved σ) (key.moved σ)
  | .field p target label => .field (p.moved σ) (target.moved σ) label
  | .methodCall p receiver method args =>
    .methodCall (p.moved σ) (receiver.moved σ) method (movedAll σ args)
  | .create p className args => .create (p.moved σ) className (movedAll σ args)
  | .superCall p method args => .superCall (p.moved σ) method (movedAll σ args)

def movedAll (σ : Shift) : List Expr → List Expr
  | [] => []
  | e :: es => e.moved σ :: movedAll σ es

def movedEntries (σ : Shift) : List (String × Expr) → List (String × Expr)
  | [] => []
  | (key, e) :: entries => (key, e.moved σ) :: movedEntries σ entries

end

variable {σ : Shift}

theorem movedAll_eq (es : List Expr) : movedAll σ es = es.map (moved σ) := by
  induction es with
  | nil => rfl
  | cons e es ih => rw [movedAll, ih, List.map_cons]

theorem movedEntries_eq (entries : List (String × Expr)) :
    movedEntries σ entries = entries.map fun x => (x.1, x.2.moved σ) := by
  induction entries with
  | nil => rfl
  | cons x entries ih =>
      obtain ⟨key, e⟩ := x
      rw [movedEntries, ih, List.map_cons]

theorem place_moved (e : Expr) : (e.moved σ).place = e.place.moved σ := by
  cases e <;> rfl

theorem moved_movedTo (e : Expr) (p : Place) :
    (e.movedTo p).moved σ = (e.moved σ).movedTo (p.moved σ) := by
  cases e <;> rfl

end Expr

namespace Stmt

mutual

/-- The statement in a text that has more in front. -/
def moved (σ : Shift) : Stmt → Stmt
  | .expr p e => .expr (p.moved σ) (e.moved σ)
  | .bind p x value => .bind (p.moved σ) x (value.moved σ)
  | .assign p x value => .assign (p.moved σ) x (value.moved σ)
  | .assignField p target field value =>
    .assignField (p.moved σ) (target.moved σ) field (value.moved σ)
  | .define p decl => .define (p.moved σ) (movedFunction σ decl)
  | .defineClass p decl => .defineClass (p.moved σ) (movedClass σ decl)
  | .choose p condition yes no =>
    .choose (p.moved σ) (condition.moved σ) (movedAll σ yes) (movedOption σ no)
  | .forEach p item source body parallel =>
    .forEach (p.moved σ) item (source.moved σ) (movedAll σ body) parallel
  | .loop p condition body => .loop (p.moved σ) (condition.moved σ) (movedAll σ body)
  | .giveBack p value => .giveBack (p.moved σ) (value.map (Expr.moved σ))
  | .attempt p body handler finish =>
    .attempt (p.moved σ) (movedAll σ body) (movedHandler σ handler) (movedOption σ finish)
  | .raise p value => .raise (p.moved σ) (value.moved σ)
  | .check p condition message =>
    .check (p.moved σ) (condition.moved σ) (message.map (Expr.moved σ))
  | .importModule p module rename => .importModule (p.moved σ) module rename
  | .importNames p module names => .importNames (p.moved σ) module names
  | .share p inner => .share (p.moved σ) (inner.moved σ)

def movedAll (σ : Shift) : List Stmt → List Stmt
  | [] => []
  | s :: ss => s.moved σ :: movedAll σ ss

def movedOption (σ : Shift) : Option (List Stmt) → Option (List Stmt)
  | none => none
  | some body => some (movedAll σ body)

def movedFunction (σ : Shift) : FunctionDecl → FunctionDecl
  | ⟨name, params, body, line⟩ => ⟨name, params, movedAll σ body, line + σ.lines⟩

def movedMethods (σ : Shift) : List FunctionDecl → List FunctionDecl
  | [] => []
  | f :: fs => movedFunction σ f :: movedMethods σ fs

def movedClass (σ : Shift) : ClassDecl → ClassDecl
  | ⟨name, parent, fields, methods⟩ => ⟨name, parent, fields, movedMethods σ methods⟩

def movedHandler (σ : Shift) : Option Handler → Option Handler
  | none => none
  | some ⟨kind, binder, body⟩ => some ⟨kind, binder, movedAll σ body⟩

end

variable {σ : Shift}

theorem movedAll_eq (ss : List Stmt) : movedAll σ ss = ss.map (moved σ) := by
  induction ss with
  | nil => rfl
  | cons s ss ih => rw [movedAll, ih, List.map_cons]

theorem movedMethods_eq (fs : List FunctionDecl) :
    movedMethods σ fs = fs.map (movedFunction σ) := by
  induction fs with
  | nil => rfl
  | cons f fs ih => rw [movedMethods, ih, List.map_cons]

end Stmt

def Program.moved (σ : Shift) (p : Program) : Program := ⟨Stmt.movedAll σ p.stmts⟩

/-! ## Nothing in front -/

/-- Nothing stands in front. -/
def Shift.none : Shift := ⟨0, 0⟩

namespace Expr

mutual

theorem moved_none : ∀ e : Expr, e.moved .none = e
  | .number .. | .text .. | .bool .. | .name .. | .self .. => rfl
  | .array _ items => by rw [moved, movedAll_none items]; rfl
  | .dict _ entries => by rw [moved, movedEntries_none entries]; rfl
  | .matrix _ _ _ cells => by rw [moved, movedAll_none cells]; rfl
  | .binary _ left _ right => by rw [moved, moved_none left, moved_none right]; rfl
  | .unary _ _ operand => by rw [moved, moved_none operand]; rfl
  | .call _ _ args => by rw [moved, movedAll_none args]; rfl
  | .index _ target key => by rw [moved, moved_none target, moved_none key]; rfl
  | .field _ target _ => by rw [moved, moved_none target]; rfl
  | .methodCall _ receiver _ args => by rw [moved, moved_none receiver, movedAll_none args]; rfl
  | .create _ _ args => by rw [moved, movedAll_none args]; rfl
  | .superCall _ _ args => by rw [moved, movedAll_none args]; rfl

theorem movedAll_none : ∀ es : List Expr, movedAll .none es = es
  | [] => rfl
  | e :: es => by rw [movedAll, moved_none e, movedAll_none es]

theorem movedEntries_none : ∀ entries : List (String × Expr), movedEntries .none entries = entries
  | [] => rfl
  | (_, e) :: entries => by rw [movedEntries, moved_none e, movedEntries_none entries]

end

theorem map_moved_none (value : Option Expr) : value.map (moved .none) = value := by
  cases value with
  | none => rfl
  | some e => rw [Option.map_some, moved_none]

end Expr

namespace Stmt

mutual

theorem moved_none : ∀ s : Stmt, s.moved .none = s
  | .expr _ e | .bind _ _ e | .assign _ _ e | .raise _ e => by rw [moved, Expr.moved_none]; rfl
  | .assignField _ target _ value => by rw [moved, Expr.moved_none, Expr.moved_none]; rfl
  | .define _ decl => by rw [moved, movedFunction_none decl]; rfl
  | .defineClass _ decl => by rw [moved, movedClass_none decl]; rfl
  | .choose _ condition yes no => by
      rw [moved, Expr.moved_none, movedAll_none yes, movedOption_none no]
      rfl
  | .forEach _ _ source body _ => by rw [moved, Expr.moved_none, movedAll_none body]; rfl
  | .loop _ condition body => by rw [moved, Expr.moved_none, movedAll_none body]; rfl
  | .giveBack _ value => by rw [moved, Expr.map_moved_none]; rfl
  | .attempt _ body handler finish => by
      rw [moved, movedAll_none body, movedHandler_none handler, movedOption_none finish]
      rfl
  | .check _ condition message => by rw [moved, Expr.moved_none, Expr.map_moved_none]; rfl
  | .importModule .. | .importNames .. => rfl
  | .share _ inner => by rw [moved, moved_none inner]; rfl

theorem movedAll_none : ∀ ss : List Stmt, movedAll .none ss = ss
  | [] => rfl
  | s :: ss => by rw [movedAll, moved_none s, movedAll_none ss]

theorem movedOption_none : ∀ body : Option (List Stmt), movedOption .none body = body
  | none => rfl
  | some body => by rw [movedOption, movedAll_none body]

theorem movedFunction_none : ∀ f : FunctionDecl, movedFunction .none f = f
  | ⟨_, _, body, _⟩ => by rw [movedFunction, movedAll_none body]; rfl

theorem movedMethods_none : ∀ fs : List FunctionDecl, movedMethods .none fs = fs
  | [] => rfl
  | f :: fs => by rw [movedMethods, movedFunction_none f, movedMethods_none fs]

theorem movedClass_none : ∀ decl : ClassDecl, movedClass .none decl = decl
  | ⟨_, _, _, methods⟩ => by rw [movedClass, movedMethods_none methods]

theorem movedHandler_none : ∀ handler : Option Handler, movedHandler .none handler = handler
  | none => rfl
  | some ⟨_, _, body⟩ => by rw [movedHandler, movedAll_none body]

end

end Stmt

/-! ## Rows of a matrix -/

namespace Grammar

variable {σ : Shift}

theorem rowOf?_moved (e : Expr) :
    rowOf? (e.moved σ) = (rowOf? e).map (List.map (Expr.moved σ)) := by
  cases e with
  | array p items =>
      rw [Expr.moved, Expr.movedAll_eq]
      cases items <;> rfl
  | _ => rfl

theorem mapM_rowOf?_moved (items : List Expr) :
    (items.map (Expr.moved σ)).mapM rowOf? =
      (items.mapM rowOf?).map (List.map (List.map (Expr.moved σ))) := by
  induction items with
  | nil => rfl
  | cons e items ih =>
      rw [List.map_cons, List.mapM_cons, List.mapM_cons, rowOf?_moved, ih]
      cases rowOf? e with
      | none => rfl
      | some row => cases items.mapM rowOf? <;> rfl

theorem matrixOf?_moved (items : List Expr) :
    matrixOf? (items.map (Expr.moved σ)) =
      (matrixOf? items).map fun x => (x.1, x.2.map (Expr.moved σ)) := by
  rw [matrixOf?, matrixOf?, mapM_rowOf?_moved]
  cases items.mapM rowOf? with
  | none => rfl
  | some rows =>
      cases rows with
      | nil => rfl
      | cons r rs =>
          simp only [Option.map_some, Option.bind_eq_bind, Option.bind_some, List.map_cons,
            List.length_map, List.all_map, Function.comp_def]
          split
          · simp [List.map_flatten]
          · rfl

end Grammar

end ScriptLang
