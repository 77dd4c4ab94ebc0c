import Mathlib
import ScriptLang.Proofs.Agreement.Statements

/-!
# Agreement on programs

A program that has bytecode and names no hidden global can be run by a new machine or
in a new session. If the machine succeeds, so does the evaluator, and both have
printed the same and hold the same globals. If the machine stops with a division by
zero, an index out of bounds or a text that is too large, the evaluator throws the
exception for it in the same state. Both hold as long as the machine comes to no
operation that the two treat differently.
-/

namespace ScriptLang

open Eval (outcome)

instance (p : Program) : Decidable p.AvoidsHidden :=
  inferInstanceAs (Decidable (∀ x ∈ Stmt.listVariables p.stmts, Compiler.isHidden x = false))

/-- A new machine and a new session have printed nothing and hold nothing. -/
theorem same_ofSettings (settings settings' : Settings) (files : Files) :
    Same { Machine.ofSettings settings {} with stack := [], executed := 0 }
      (Session.ofSettings settings' files {}) where
  output := rfl
  unbounded := rfl
  scope := Nat.one_pos
  globals := rfl
  plain := nofun

/-- The run of a compiled program agrees with what the evaluator does, given enough fuel: more
rounds than the machine takes instructions. -/
theorem Program.agree {p : Program} {c : Chunk} (hc : p.compile = .ok c) (hp : p.AvoidsHidden)
    (settings settings' : Settings) (files : Files)
    (hshared : ∀ x ∈ (Machine.ofSettings settings {}).trail c, c.isSharedAt x = true)
    {fuel : Nat} (hfuel : settings.maxInstructions < fuel) :
    Agree ((Machine.ofSettings settings {}).run c)
      (outcome (p.run fuel) (Session.ofSettings settings' files {})) := by
  obtain ⟨f, hb, hf, hcode⟩ := Program.compile_ok hc
  obtain ⟨rounds, rfl⟩ : ∃ rounds, fuel = rounds + 1 := ⟨fuel - 1, by omega⟩
  have hhalt : c.code[0 + f.code.size]? = some ⟨.halt, 0⟩ := by
    rw [hcode, Nat.zero_add, Array.getElem?_push_size]
  have hblock : Simulates c 0 rounds 0 (0 + f.code.size)
      (Eval.block (Eval.runBlock rounds) rounds Session.globals .null p.stmts) :=
    (Compiler.blockCode hb).agrees hf hp .null
  -- behind the statements there is only the halt, where the two sides are compared
  exact hblock (Nat.le_of_lt_succ hfuel) (same_ofSettings settings settings' files)
    (fun r' _ v m' s' _ hs => .step hhalt fun _ => ⟨v, s', rfl, hs.of_machine rfl rfl⟩) hshared

theorem Agree.of_ok {α : Type} {out : Except MachineError Unit × Machine}
    {fin : Except Halt α × Session} (h : Agree out fin) (hok : out.1 = .ok ()) :
    ∃ a s, fin = (.ok a, s) ∧ Same out.2 s := by
  obtain ⟨r, m⟩ := out
  obtain rfl : r = .ok () := hok
  exact h

theorem Agree.of_fault {α : Type} {out : Except MachineError Unit × Machine}
    {fin : Except Halt α × Session} {e : MachineError} (h : Agree out fin) (he : out.1 = .error e)
    (hfault : e.isFault = true) :
    ∃ x s fault, fin = (.error (.thrown x), s) ∧ e.Reports fault ∧ x.kind = fault.kind ∧
      x.message = fault.message ∧ Same out.2 s := by
  obtain ⟨r, m⟩ := out
  obtain rfl : r = .error e := he
  exact h hfault

/-- If a new machine succeeds with a compiled program, a new session succeeds with it too. It
prints the same text, and its globals are those of the machine in the same order, but for the
hidden ones. -/
theorem Program.evaluator_succeeds_alike {p : Program} {c : Chunk} (hc : p.compile = .ok c)
    (hp : p.AvoidsHidden) (settings settings' : Settings) (files : Files)
    (hshared : ∀ x ∈ (Machine.ofSettings settings {}).trail c, c.isSharedAt x = true)
    (hok : ((Machine.ofSettings settings {}).run c).1 = .ok ())
    (fuel : Nat) (hfuel : settings.maxInstructions < fuel) :
    ∃ v s, (p.run fuel).run (Session.ofSettings settings' files {}) = (.ok v, s) ∧
      s.output.text = ((Machine.ofSettings settings {}).run c).2.output.text ∧
      s.store.bindings Session.globals =
        visible ((Machine.ofSettings settings {}).run c).2.globals := by
  obtain ⟨v, s, hfin, hsame⟩ := (agree hc hp settings settings' files hshared hfuel).of_ok hok
  exact ⟨v, s, hfin, congrArg Output.text hsame.output, hsame.globals⟩

/-- Two loops, one inside the other, that add up numbers. -/
def nestedSum : Program :=
  ⟨[.bind default "total" (.number default 0.0),
    .forEach default "x" (.array default [.number default 2.0])
      [.forEach default "y" (.array default [.name default "x"])
        [.assign default "total" (.binary default (.name default "total") .add (.name default "y"))]
        false]
      false,
    .expr default (.call default "print" [.name default "total"])]⟩

theorem Program.nestedSum_succeeds_alike :
    ((Machine.ofSettings {} {}).run nestedSum.chunk).1 = .ok () ∧
    ((Machine.ofSettings {} {}).run nestedSum.chunk).2.globals.names =
      ["total", "__tmp_array__", "__tmp_idx__", "x", "__tmp_array_1__", "__tmp_idx_1__", "y"] ∧
    ∃ v s, (nestedSum.run 10001).run (Session.ofSettings {} (fun _ => .error .missing) {}) =
        (.ok v, s) ∧
      s.output.text = "2\n" ∧
      (s.store.bindings Session.globals).names = ["total", "x", "y"] := by
  have hc : nestedSum.compile = .ok nestedSum.chunk := compile_eq_chunk (by decide +kernel)
  have hok : ((Machine.ofSettings {} {}).run nestedSum.chunk).1 = .ok () := by decide +kernel
  have hshared : ∀ x ∈ (Machine.ofSettings {} {}).trail nestedSum.chunk,
      nestedSum.chunk.isSharedAt x = true := by decide +kernel
  obtain ⟨v, s, hfin, hout, hglobals⟩ := evaluator_succeeds_alike hc (by decide +kernel) {} {}
    (fun _ => .error .missing) hshared hok 10001 (by decide)
  refine ⟨hok, by decide +kernel, v, s, hfin, ?_, ?_⟩
  · rw [hout]
    decide +kernel
  · rw [hglobals]
    decide +kernel

/-- The exception that tells of the same mistake as an error of the machine. -/
def MachineError.Describes : MachineError → Exception → Prop
  | .zeroDivision d, x => x.kind = "ZeroDivisionError" ∧ x.message = (zeroDivision d).message
  | .indexOutOfBounds i _, x =>
    x.kind = "IndexError" ∧ x.message = "list index out of range: " ++ toString i
  | .tooLarge _ _, x => x.kind = "MemoryError"
  | _, _ => False

theorem MachineError.Reports.describes {e : MachineError} {fault : Fault} {x : Exception}
    (h : e.Reports fault) (hkind : x.kind = fault.kind) (hmessage : x.message = fault.message) :
    e.Describes x := by
  cases h with
  | zeroDivision d => exact ⟨hkind, hmessage⟩
  | outOfBounds i n => exact ⟨hkind, hmessage⟩
  | tooLarge op limit bytes count => exact hkind

/-- If a new machine stops with a division by zero, an index out of bounds or a text that is
too large, a new session throws the exception for it. Both have printed the same text by then
and hold the same globals, but for the hidden ones. -/
theorem Program.evaluator_throws_alike {p : Program} {c : Chunk} (hc : p.compile = .ok c)
    (hp : p.AvoidsHidden) (settings settings' : Settings) (files : Files)
    (hshared : ∀ x ∈ (Machine.ofSettings settings {}).trail c, c.isSharedAt x = true)
    (e : MachineError) (herror : ((Machine.ofSettings settings {}).run c).1 = .error e)
    (hfault : (∃ d, e = .zeroDivision d) ∨ (∃ i n, e = .indexOutOfBounds i n) ∨
      ∃ op limit, e = .tooLarge op limit)
    (fuel : Nat) (hfuel : settings.maxInstructions < fuel) :
    ∃ x s, (p.run fuel).run (Session.ofSettings settings' files {}) = (.error (.thrown x), s) ∧
      e.Describes x ∧
      s.output.text = ((Machine.ofSettings settings {}).run c).2.output.text ∧
      s.store.bindings Session.globals =
        visible ((Machine.ofSettings settings {}).run c).2.globals := by
  have hknown : e.isFault = true := by
    rcases hfault with ⟨d, rfl⟩ | ⟨i, n, rfl⟩ | ⟨op, limit, rfl⟩ <;> rfl
  obtain ⟨x, s, fault, hfin, hreports, hkind, hmessage, hsame⟩ :=
    (agree hc hp settings settings' files hshared hfuel).of_fault herror hknown
  exact ⟨x, s, hfin, hreports.describes hkind hmessage, congrArg Output.text hsame.output,
    hsame.globals⟩

/-- A loop that prints and divides, until an item is zero. -/
def divisions : Program :=
  ⟨[.forEach default "x" (.array default [.number default 2.0, .number default 0.0])
    [.expr default (.call default "print" [.name default "x"]),
      .assign default "y" (.binary default (.number default 6.0) .mod (.name default "x"))]
    false]⟩

theorem Program.divisions_throws_alike :
    ((Machine.ofSettings {} {}).run divisions.chunk).1 = .error (.zeroDivision .remainder) ∧
    ∃ x s, (divisions.run 10001).run (Session.ofSettings {} (fun _ => .error .missing) {}) =
        (.error (.thrown x), s) ∧
      x.kind = "ZeroDivisionError" ∧ x.message = "modulo by zero" ∧
      s.output.text = "2\n0\n" ∧
      (s.store.bindings Session.globals).names = ["x", "y"] := by
  have hc : divisions.compile = .ok divisions.chunk := compile_eq_chunk (by decide +kernel)
  have herror : ((Machine.ofSettings {} {}).run divisions.chunk).1 =
      .error (.zeroDivision .remainder) := by decide +kernel
  have hshared : ∀ x ∈ (Machine.ofSettings {} {}).trail divisions.chunk,
      divisions.chunk.isSharedAt x = true := by decide +kernel
  obtain ⟨x, s, hfin, hdescribes, hout, hglobals⟩ := evaluator_throws_alike hc (by decide +kernel)
    {} {} (fun _ => .error .missing) hshared _ herror (.inl ⟨_, rfl⟩) 10001 (by decide)
  refine ⟨herror, x, s, hfin, hdescribes.1, hdescribes.2, ?_, ?_⟩
  · rw [hout]
    decide +kernel
  · rw [hglobals]
    decide +kernel

end ScriptLang
