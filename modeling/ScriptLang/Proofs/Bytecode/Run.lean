import Mathlib
import ScriptLang.Bytecode.Machine

/-!
# Runs step by step

A run takes one step after another from the offset it has come to; to be off the
code is a step that stops. The trail of a run is the list of offsets it comes to,
each with the machine as it is there. What holds at the start and is kept by every
step holds along the whole trail and decides how the run can end
(`run_induction`).
-/

namespace ScriptLang

/-- Whether the error tells of values that an instruction can do nothing with. -/
def MachineError.isOfValues : MachineError → Bool
  | .badOperand _ _ | .indexOutOfBounds _ _ | .notIndexable _ => true
  | _ => false

namespace Machine

theorem itemAt_error {target key : Value} {e : MachineError} (h : itemAt target key = .error e) :
    e.isOfValues = true := by
  unfold itemAt at h
  split at h
  · dsimp only at h
    split at h
    · split at h <;> cases h
      rfl
    · split at h <;> cases h
      rfl
    · cases h
      rfl
  · cases h
    rfl

theorem lengthOf_error {v : Value} {e : MachineError} (h : lengthOf v = .error e) :
    e.isOfValues = true := by
  unfold lengthOf at h
  split at h <;> cases h
  rfl

/-- The machine with one more instruction counted. -/
def ticked (m : Machine) : Machine := { m with executed := m.executed + 1 }

@[simp] theorem ticked_stack (m : Machine) : m.ticked.stack = m.stack := rfl

@[simp] theorem ticked_globals (m : Machine) : m.ticked.globals = m.globals := rfl

@[simp] theorem ticked_output (m : Machine) : m.ticked.output = m.output := rfl

/-- What the machine does at an offset. -/
def step (chunk : Chunk) (offset : Nat) (m : Machine) : Step :=
  match chunk.code[offset]? with
  | none => .stop (.offsetOutOfBounds offset chunk.code.size) m
  | some i => execute chunk i (offset + 1) m.ticked

/-- The offsets that a run comes to, with the machine before its step there. -/
def visited (chunk : Chunk) : Nat → Nat → Machine → List (Nat × Machine)
  | 0, offset, m => [(offset, m)]
  | remaining + 1, offset, m =>
    (offset, m) ::
      match step chunk offset m with
      | .next offset m => visited chunk remaining offset m
      | .halt _ => []
      | .stop _ _ => []

/-- The way that the run of a whole chunk takes. -/
def trail (m : Machine) (chunk : Chunk) : List (Nat × Machine) :=
  visited chunk m.maxInstructions 0 { m with stack := [], executed := 0 }

variable {chunk : Chunk} {i : Instr} {remaining offset : Nat} {m : Machine}

theorem step_of_getElem? (hi : chunk.code[offset]? = some i) :
    step chunk offset m = execute chunk i (offset + 1) m.ticked := by
  rw [step, hi]

theorem runFrom_succ :
    runFrom chunk (remaining + 1) offset m =
      match step chunk offset m with
      | .next offset m => runFrom chunk remaining offset m
      | .halt m => (.ok (), m)
      | .stop e m => (.error e, m) := by
  rw [runFrom, step]
  cases chunk.code[offset]? <;> rfl

theorem mem_visited_self : (offset, m) ∈ visited chunk remaining offset m := by
  cases remaining with
  | zero => exact List.mem_singleton_self _
  | succ n => exact List.mem_cons_self

/-- A step comes to an offset and a machine with `P`, or ends the run with `Q`. -/
def Step.Leads (P : Nat → Machine → Prop) (Q : Except MachineError Unit → Machine → Prop) :
    Step → Prop
  | .next o m => P o m
  | .halt m => Q (.ok ()) m
  | .stop e m => Q (.error e) m

/-- Induction along a run. `P` is kept by every step; `Q` follows from it for the end of
the run. -/
theorem run_induction {P : Nat → Machine → Prop} {Q : Except MachineError Unit → Machine → Prop}
    (hlimit : ∀ o m, P o m → Q (.error (.instructionLimit m.maxInstructions)) m)
    (hstep : ∀ o m, P o m → (step chunk o m).Leads P Q) :
    ∀ remaining offset m, P offset m →
      Q (runFrom chunk remaining offset m).1 (runFrom chunk remaining offset m).2 ∧
        ∀ c ∈ visited chunk remaining offset m, P c.1 c.2
  | 0, offset, m, h => ⟨hlimit offset m h, List.forall_mem_singleton.mpr h⟩
  | remaining + 1, offset, m, h => by
      have hs := hstep offset m h
      -- a run that ends with this step has been here only
      have hhere : ∀ c ∈ [(offset, m)], P c.1 c.2 := List.forall_mem_singleton.mpr h
      rw [runFrom_succ, visited]
      cases hx : step chunk offset m with
      | next o' m' =>
          rw [hx] at hs
          obtain ⟨hq, hv⟩ := run_induction hlimit hstep remaining o' m' hs
          exact ⟨hq, List.forall_mem_cons.mpr ⟨h, hv⟩⟩
      | halt m' =>
          rw [hx] at hs
          exact ⟨hs, hhere⟩
      | stop e m' =>
          rw [hx] at hs
          exact ⟨hs, hhere⟩

end Machine

end ScriptLang
