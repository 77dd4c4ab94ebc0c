import Mathlib
import ScriptLang.Proofs.Bytecode.Run

/-!
# What an instruction changes

Whatever its operand and whatever is on the stack, an instruction changes little:
it leaves another stack, which is within the capacity unless the one before was not,
or binds a global name, or prints a line (`execute_changes`). If it stops the run, it
has done no more than take values off the stack, unless the output did not take a line.
It never touches the counters of the machine and never stops the run for having taken
too many steps. Facts about single steps follow from these cases.
-/

namespace ScriptLang

/-- The run was cut off by the limit on instructions. -/
def MachineError.isLimit : MachineError → Bool
  | .instructionLimit _ => true
  | _ => false

theorem MachineError.isLimit_of_values {e : MachineError} (h : e.isOfValues = true) :
    e.isLimit = false := by
  cases e <;> cases h <;> rfl

theorem Output.write?_text {o o' : Output} {s : String} (h : o.write? s = some o') :
    o'.text = o.text ++ s := by
  unfold Output.write? at h
  split at h
  · rename_i hempty
    cases h
    rw [String.isEmpty_iff.mp hempty, String.append_empty]
  · split at h
    · cases h
    · cases h
      rfl

/-- Whether a line is taken whole, in part or not at all, the output only grows. -/
theorem Output.writeLine_text (o : Output) (s : String) :
    ∃ more, (o.writeLine s).2.text = o.text ++ more := by
  unfold Output.writeLine
  cases hs : o.write? s with
  | none => exact ⟨"", (String.append_empty).symm⟩
  | some o' =>
      have ho' := Output.write?_text hs
      dsimp only
      cases hline : o'.write? "\n" with
      | none => exact ⟨s, ho'⟩
      | some o'' => exact ⟨s ++ "\n", by rw [Output.write?_text hline, ho', String.append_assoc]⟩

namespace Machine

/-- What one instruction can do to a machine. -/
inductive Change (m : Machine) : Machine → Prop
  | stack (values : List Value) (h : values.length ≤ max m.capacity m.stack.length) :
      Change m { m with stack := values }
  | bind (name : String) (v : Value) : Change m { m with globals := m.globals.set name v }
  | print (values : List Value) (line : String) (h : values.length ≤ m.stack.length) :
      Change m { m with stack := values, output := (m.output.writeLine line).2 }

/-- The stack is cut down to some of its values. -/
def Below (m m' : Machine) : Prop :=
  ∃ values : List Value, values.length ≤ m.stack.length ∧ m' = { m with stack := values }

/-- How one instruction can stop the run: values were taken off the stack and no more was done, or
the output did not take a line. It is never for the limit. -/
inductive Stops (m : Machine) : MachineError → Machine → Prop
  | cut {e : MachineError} {m' : Machine} (h : m.Below m') (he : e.isLimit = false) : Stops m e m'
  | refused (values : List Value) (line : String) (h : values.length ≤ m.stack.length) :
      Stops m (.output Output.refusal)
        { m with stack := values, output := (m.output.writeLine line).2 }

/-- A step leads from `m` to a machine that one instruction can make of it, or stops the run as one
instruction can. -/
def Step.Leaves (m : Machine) : Step → Prop
  | .next _ m' => m.Change m'
  | .halt m' => m.Change m'
  | .stop e m' => m.Stops e m'

variable {m m' : Machine} {op : Opcode} {next : Nat}

theorem Below.refl (m : Machine) : m.Below m := ⟨m.stack, le_rfl, rfl⟩

theorem Below.change (h : m.Below m') : m.Change m' := by
  obtain ⟨values, hlen, rfl⟩ := h
  exact .stack values (hlen.trans (le_max_right _ _))

theorem Stops.change {e : MachineError} (h : m.Stops e m') : m.Change m' := by
  cases h with
  | cut h _ => exact h.change
  | refused values line h => exact .print values line h

theorem Stops.isLimit {e : MachineError} (h : m.Stops e m') : e.isLimit = false := by
  cases h with
  | cut _ he => exact he
  | refused values line _ => rfl

theorem stop_leaves {e : MachineError} (h : m.Below m') (he : e.isLimit = false) :
    (Step.stop e m').Leaves m :=
  .cut h he

theorem push_leaves (h : m.Below m') (v : Value) : (m'.push v next).Leaves m := by
  obtain ⟨values, hlen, rfl⟩ := h
  unfold push
  split
  · exact stop_leaves ⟨values, hlen, rfl⟩ rfl
  · rename_i hroom
    -- there is room for one more
    have hcap : (v :: values).length ≤ m.capacity := Nat.lt_of_not_le hroom
    exact .stack (v :: values) (hcap.trans (le_max_left _ _))

theorem pop_leaves {k : Value → Machine → Step} (h : m.Below m')
    (hk : ∀ v m'', m.Below m'' → (k v m'').Leaves m) :
    (m'.pop op k).Leaves m := by
  unfold pop
  split
  · exact stop_leaves h rfl
  · rename_i v rest hstack
    obtain ⟨values, hlen, rfl⟩ := h
    obtain rfl : values = v :: rest := hstack
    exact hk v _ ⟨rest, (Nat.le_succ _).trans hlen, rfl⟩

theorem popPair_leaves {k : Value → Value → Machine → Step}
    (hk : ∀ a b m', m.Below m' → (k a b m').Leaves m) :
    (m.popPair op k).Leaves m :=
  pop_leaves (.refl m) fun b _ h => pop_leaves h fun a m'' h' => hk a b m'' h'

theorem popMany_leaves {k : List Value → Machine → Step} {n : Int}
    (hk : ∀ vs m', m.Below m' → (k vs m').Leaves m) :
    (m.popMany op n k).Leaves m := by
  unfold popMany
  split
  · exact stop_leaves (.refl m) rfl
  · refine hk _ _ ⟨_, ?_, rfl⟩
    rw [List.length_drop]
    exact Nat.sub_le _ _

theorem arithmetic_leaves {f : Float → Float → Except MachineError Value}
    (hf : ∀ a b e, f a b = .error e → e.isLimit = false) :
    (m.arithmetic op next f).Leaves m := by
  refine popPair_leaves fun a b m' h => ?_
  split
  · split
    · exact push_leaves h _
    · exact stop_leaves h (hf _ _ _ ‹_›)
  · exact stop_leaves h rfl

theorem divide_leaves {d : Division} : (m.divide op next d).Leaves m := by
  refine arithmetic_leaves fun a b e he => ?_
  split at he
  · cases he
  · cases he
    rfl

theorem compare_leaves {f : Float → Float → Bool} : (m.compare op next f).Leaves m :=
  arithmetic_leaves fun _ _ _ he => by cases he

theorem repeat_leaves (h : m.Below m') (s : String) (n : Float) :
    (match Text.repeat? s n with
      | some t => m'.push (.text t) next
      | none => .stop (.tooLarge op sequenceLimit) m').Leaves m := by
  cases Text.repeat? s n with
  | some t => exact push_leaves h _
  | none => exact stop_leaves h rfl

theorem jump_leaves {chunk : Chunk} (h : m.Below m') (n : Int) :
    (m'.jump chunk n).Leaves m := by
  unfold jump target?
  by_cases hn : n < 0 ∨ chunk.code.size ≤ n.toNat
  · rw [if_pos hn]
    exact stop_leaves h rfl
  · rw [if_neg hn]
    exact h.change

theorem variableName?_error {chunk : Chunk} {n : Int} {e : MachineError}
    (h : variableName? chunk n = .error e) : e.isLimit = false := by
  unfold variableName? at h
  split at h <;> cases h <;> rfl

/-- An instruction of any chunk, well formed or not. -/
theorem execute_changes (chunk : Chunk) (i : Instr) (next : Nat) (m : Machine) :
    (execute chunk i next m).Leaves m := by
  obtain ⟨op, n⟩ := i
  have hself := Below.refl m
  -- nothing is known of the operand and of the stack, so every failure is a case
  cases op <;> simp only [execute]
  case loadConst =>
    split
    · exact push_leaves hself _
    · exact stop_leaves hself rfl
  case loadTrue => exact push_leaves hself _
  case loadFalse => exact push_leaves hself _
  case loadNull => exact push_leaves hself _
  case loadVar =>
    split
    · exact stop_leaves hself (variableName?_error ‹_›)
    · split
      · exact push_leaves hself _
      · exact stop_leaves hself rfl
  case storeVar =>
    split
    · exact stop_leaves hself (variableName?_error ‹_›)
    · split
      · exact stop_leaves hself rfl
      · exact .bind _ _
  case add =>
    refine popPair_leaves fun a b m' h => ?_
    split
    · exact push_leaves h _
    · exact push_leaves h _
    · exact stop_leaves h rfl
  case subtract => exact arithmetic_leaves fun _ _ _ he => by cases he
  case multiply =>
    refine popPair_leaves fun a b m' h => ?_
    split
    · exact push_leaves h _
    · exact repeat_leaves h _ _
    · exact repeat_leaves h _ _
    · exact stop_leaves h rfl
  case divide => exact divide_leaves
  case modulo => exact divide_leaves
  case floorDiv => exact divide_leaves
  case negate =>
    refine pop_leaves hself fun v m' h => ?_
    split
    · exact push_leaves h _
    · exact stop_leaves h rfl
  case equal => exact popPair_leaves fun a b m' h => push_leaves h _
  case notEqual => exact popPair_leaves fun a b m' h => push_leaves h _
  case less => exact compare_leaves
  case lessEqual => exact compare_leaves
  case greater => exact compare_leaves
  case greaterEqual => exact compare_leaves
  case not =>
    refine pop_leaves hself fun v m' h => ?_
    split <;> exact push_leaves h _
  case buildArray => exact popMany_leaves fun vs m' h => push_leaves h _
  case index =>
    refine popPair_leaves fun a b m' h => ?_
    split
    · exact push_leaves h _
    · exact stop_leaves h (MachineError.isLimit_of_values (itemAt_error ‹_›))
  case arrayLength =>
    refine pop_leaves hself fun v m' h => ?_
    split
    · exact push_leaves h _
    · exact stop_leaves h (MachineError.isLimit_of_values (lengthOf_error ‹_›))
  case jump => exact jump_leaves hself n
  case jumpIfFalse =>
    refine pop_leaves hself fun v m' h => ?_
    split
    · exact h.change
    · exact jump_leaves h n
  case print =>
    refine popMany_leaves fun vs m' h => ?_
    -- the output is another one even if it has refused the line
    obtain ⟨values, hlen, rfl⟩ := h
    split
    · rename_i output hwrite
      have hprint := Change.print (m := m) values (joined vs) hlen
      rw [hwrite] at hprint
      exact hprint
    · rename_i output hwrite
      have hrefused := Stops.refused (m := m) values (joined vs) hlen
      rw [hwrite] at hrefused
      exact hrefused
  case pop => exact pop_leaves hself fun v m' h => h.change
  case dup =>
    split
    · exact stop_leaves hself rfl
    · exact push_leaves hself _
  case halt => exact hself.change

/-! ## Counters and output -/

/-- No counter has changed, and nothing that was printed is lost. -/
structure Extends (m m' : Machine) : Prop where
  executed : m'.executed = m.executed
  maxInstructions : m'.maxInstructions = m.maxInstructions
  output : ∃ more, m'.output.text = m.output.text ++ more

theorem Change.extends (h : m.Change m') : m.Extends m' := by
  cases h with
  | stack values => exact ⟨rfl, rfl, "", (String.append_empty).symm⟩
  | bind name v => exact ⟨rfl, rfl, "", (String.append_empty).symm⟩
  | print values line => exact ⟨rfl, rfl, m.output.writeLine_text line⟩

end Machine

end ScriptLang
