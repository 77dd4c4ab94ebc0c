import ScriptLang.Eval.Call

/-!
# Evaluation of expressions

By recursion on the expression. A name without a value is null, and so is
whatever an expression asks of a value that does not have it.
-/

namespace ScriptLang

namespace Eval

mutual

def expr (run : Runner) (scope : ScopeId) : Expr → Eval Value
  | .number _ n => return .number n
  | .text _ s => return .text s
  | .bool _ b => return .bool b
  | .name _ x => return (← lookup scope x).getD .null
  | .self _ => return (← lookup scope receiverName).getD .null
  | .array _ items => return .array (← exprs run scope items).toArray
  | .dict _ entries => return .dict (Bindings.ofPairs (← exprEntries run scope entries))
  | .matrix _ rows cols cells => do
    let data := (← exprs run scope cells).map fun v => v.number?.getD 0.0
    return .matrix (← unlessCrash (Matrix.ofLiteral rows cols data.toArray))
  | .binary _ left op right => do
    let a ← expr run scope left
    let b ← expr run scope right
    ofExcept (← unlessCrash (Value.binary op a b))
  | .unary _ op operand => return Value.unary op (← expr run scope operand)
  | .call p callee args => callNamed run scope callee (exprs run scope args) p.line
  | .index _ target key => do
    let t ← expr run scope target
    let k ← expr run scope key
    ofExcept (Value.index t k)
  | .field _ target label => do
    member (← expr run scope target) label
  | .methodCall p receiver method args => do
    let r ← expr run scope receiver
    let vs ← exprs run scope args
    callOn run scope r method vs p.line
  | .create p className args => create run scope className (exprs run scope args) p.line
  | .superCall p method args => callSuper run scope method (exprs run scope args) p.line

/-- Evaluates from left to right. -/
def exprs (run : Runner) (scope : ScopeId) : List Expr → Eval (List Value)
  | [] => return []
  | e :: es => do
    let v ← expr run scope e
    return v :: (← exprs run scope es)

def exprEntries (run : Runner) (scope : ScopeId) :
    List (String × Expr) → Eval (List (String × Value))
  | [] => return []
  | (k, e) :: es => do
    let v ← expr run scope e
    return (k, v) :: (← exprEntries run scope es)

end

end Eval

end ScriptLang
