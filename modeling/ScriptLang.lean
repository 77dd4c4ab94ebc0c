import ScriptLang.Bindings
import ScriptLang.Bytecode.Chunk
import ScriptLang.Bytecode.Compiler
import ScriptLang.Bytecode.Emitter
import ScriptLang.Bytecode.Machine
import ScriptLang.CommandLine.Request
import ScriptLang.CommandLine.Run
import ScriptLang.Document
import ScriptLang.Eval.Call
import ScriptLang.Eval.Expr
import ScriptLang.Eval.Stmt
import ScriptLang.File.Path
import ScriptLang.File.Tree
import ScriptLang.Interactive
import ScriptLang.Main
import ScriptLang.Matrix
import ScriptLang.Module.Imports
import ScriptLang.Module.Loader
import ScriptLang.Number.Decimal
import ScriptLang.Number.Dyadic
import ScriptLang.Number.Text
import ScriptLang.Output
import ScriptLang.Program
import ScriptLang.Program.Cursor
import ScriptLang.Program.Outline
import ScriptLang.Program.Parser
import ScriptLang.Proofs.Bindings
import ScriptLang.Proofs.Bytecode.Code
import ScriptLang.Proofs.Bytecode.Fragment
import ScriptLang.Proofs.Bytecode.HiddenName
import ScriptLang.Proofs.Bytecode.Run
import ScriptLang.Proofs.Bytecode.StackEffect
import ScriptLang.Proofs.Number.Whole
import ScriptLang.Session
import ScriptLang.Settings
import ScriptLang.Span
import ScriptLang.Store
import ScriptLang.Text.CaseTable
import ScriptLang.Text.Quoted
import ScriptLang.Text.Unicode
import ScriptLang.Token
import ScriptLang.Token.Scanner
import ScriptLang.Toml.Document
import ScriptLang.Toml.Reader
import ScriptLang.Toml.Table
import ScriptLang.Value
import ScriptLang.Value.Arithmetic
import ScriptLang.Value.Builtin
import ScriptLang.Value.Fault
import ScriptLang.Proofs.Bytecode.Balance
import ScriptLang.Proofs.Bytecode.Change
import ScriptLang.Proofs.Bytecode.Lockstep
import ScriptLang.Proofs.Bytecode.Ceiling
import ScriptLang.Proofs.Bytecode.Relocation
import ScriptLang.Proofs.Bytecode.Sequence
import ScriptLang.Proofs.Agreement.Operators
import ScriptLang.Proofs.Agreement.Simulation
import ScriptLang.Proofs.Agreement.Expressions
import ScriptLang.Proofs.Agreement.Statements
import ScriptLang.Proofs.Agreement.Programs
import ScriptLang.Proofs.Eval.Bookkeeping
import ScriptLang.Proofs.Store
import ScriptLang.Proofs.Eval.Locality
import ScriptLang.Proofs.Value.Closed
import ScriptLang.Proofs.Value.Valid
import ScriptLang.Proofs.Store.Sound
import ScriptLang.Proofs.Store.Known
import ScriptLang.Proofs.Eval.Discipline
import ScriptLang.Proofs.Eval.Throughout
import ScriptLang.Proofs.Eval.Invariant
import ScriptLang.Proofs.Eval.Traceback
import ScriptLang.Proofs.Eval.ModuleCache
import ScriptLang.Proofs.Token.Lexeme
import ScriptLang.Proofs.Token.LongestMatch
import ScriptLang.Proofs.Token.Lossless
import ScriptLang.Proofs.Program.Printer
import ScriptLang.Proofs.Program.Reading
import ScriptLang.Proofs.Program.ReadExpr
import ScriptLang.Proofs.Program.ReadStmt
import ScriptLang.Proofs.Program.RoundTrip
import ScriptLang.Proofs.Bytecode.Resources
import ScriptLang.Proofs.Eval.Attribution
import ScriptLang.Proofs.Eval.Dispatch
import ScriptLang.Proofs.Number.Difference
import ScriptLang.Proofs.Value.Range
import ScriptLang.Proofs.Bytecode.Refusal
import ScriptLang.Proofs.Bytecode.StackNeed
import ScriptLang.Proofs.Lines
import ScriptLang.Proofs.Program.Moved
import ScriptLang.Proofs.Program.Joined
import ScriptLang.Proofs.Program.Sheet
import ScriptLang.Proofs.Program.Placed
import ScriptLang.Proofs.Eval.Lineage
import ScriptLang.Proofs.Eval.Unwinding
import ScriptLang.Proofs.Matrix.Product
import ScriptLang.Proofs.Number.Display
import ScriptLang.Proofs.Store.ScopeTree
import ScriptLang.Proofs.Token.Shown
import ScriptLang.Proofs.Bytecode.Listing
import ScriptLang.Proofs.Value.Repetition
import ScriptLang.Proofs.Value.Dict
import ScriptLang.Proofs.Bytecode.Shape
import ScriptLang.Proofs.Bytecode.Emitter
import ScriptLang.Proofs.Program.Progress
import ScriptLang.Proofs.Lines.Bytes
