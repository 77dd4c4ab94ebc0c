import Mathlib
import ScriptLang.Proofs.Bytecode.Change

/-!
# Machines in step

An instruction does not look at the counters of the machine, and of its operand it
uses only what that stands for in the chunk. So where two instructions mean the same,
each in its own chunk, two machines that differ in nothing but their counters take
the same step (`execute_alike`). Where that is so all along a run, the second machine
ends as the first does, whatever their ceilings are, as long as neither cuts the run
off (`runFrom_lockstep`).
-/

namespace ScriptLang

/-- Two instructions mean the same, each in its own chunk, when the offsets of the first chunk
are taken to those of the second by `place`. -/
def Instr.Alike (chunk chunk' : Chunk) (place : Nat → Nat) (i i' : Instr) : Prop :=
  i'.op = i.op ∧
    match i.op with
    | .loadConst =>
      chunk'.constant? i'.operand = chunk.constant? i.operand ∧
        (chunk.constant? i.operand = none → i'.operand = i.operand)
    | .loadVar | .storeVar =>
      Machine.variableName? chunk' i'.operand = Machine.variableName? chunk i.operand
    | .jump | .jumpIfFalse =>
      Machine.target? chunk' i'.operand = (Machine.target? chunk i.operand).map place
    | _ => i'.operand = i.operand

/-- Every instruction means what it means, in a malformed chunk as well. -/
theorem Instr.Alike.refl (chunk : Chunk) (i : Instr) : i.Alike chunk chunk id i := by
  have hid (n : Int) : Machine.target? chunk n = (Machine.target? chunk n).map id := by
    cases Machine.target? chunk n <;> rfl
  obtain ⟨op, n⟩ := i
  refine ⟨rfl, ?_⟩
  cases op
  case loadConst => exact ⟨rfl, fun _ => rfl⟩
  case jump => exact hid n
  case jumpIfFalse => exact hid n
  all_goals exact rfl

namespace Machine

/-- The machine under another ceiling, with some more instructions counted. -/
def recount (limit extra : Nat) (m : Machine) : Machine :=
  { m with maxInstructions := limit, executed := m.executed + extra }

@[simp] theorem recount_capacity (limit extra : Nat) (m : Machine) :
    (m.recount limit extra).capacity = m.capacity := rfl

@[simp] theorem recount_stack (limit extra : Nat) (m : Machine) :
    (m.recount limit extra).stack = m.stack := rfl

@[simp] theorem recount_globals (limit extra : Nat) (m : Machine) :
    (m.recount limit extra).globals = m.globals := rfl

@[simp] theorem recount_output (limit extra : Nat) (m : Machine) :
    (m.recount limit extra).output = m.output := rfl

/-- The same step elsewhere, by another machine. -/
def Step.map (place : Nat → Nat) (f : Machine → Machine) : Step → Step
  | .next o m => .next (place o) (f m)
  | .halt m => .halt (f m)
  | .stop e m => .stop e (f m)

section Alike

variable {limit extra next : Nat} {place : Nat → Nat} {op : Opcode} {m : Machine}

theorem push_alike (v : Value) :
    (m.recount limit extra).push v (place next) =
      (m.push v next).map place (recount limit extra) := by
  rw [push, push, recount_capacity, recount_stack]
  split <;> rfl

theorem pop_alike {k k' : Value → Machine → Step}
    (hk : ∀ v m, k' v (recount limit extra m) = (k v m).map place (recount limit extra)) :
    (m.recount limit extra).pop op k' = (m.pop op k).map place (recount limit extra) := by
  unfold pop
  rw [recount_stack]
  cases m.stack with
  | nil => rfl
  | cons v rest => exact hk v { m with stack := rest }

theorem popPair_alike {k k' : Value → Value → Machine → Step}
    (hk : ∀ a b m, k' a b (recount limit extra m) = (k a b m).map place (recount limit extra)) :
    (m.recount limit extra).popPair op k' = (m.popPair op k).map place (recount limit extra) :=
  pop_alike fun b _ => pop_alike fun a _ => hk a b _

theorem popMany_alike {k k' : List Value → Machine → Step} {n : Int}
    (hk : ∀ vs m, k' vs (recount limit extra m) = (k vs m).map place (recount limit extra)) :
    (m.recount limit extra).popMany op n k' =
      (m.popMany op n k).map place (recount limit extra) := by
  unfold popMany
  rw [recount_stack]
  split
  · rfl
  · exact hk _ { m with stack := m.stack.drop n.toNat }

theorem arithmetic_alike {f : Float → Float → Except MachineError Value} :
    (m.recount limit extra).arithmetic op (place next) f =
      (m.arithmetic op next f).map place (recount limit extra) := by
  refine popPair_alike fun a b m => ?_
  split
  · split
    · exact push_alike _
    · rfl
  · rfl

theorem repeat_alike (s : String) (n : Float) :
    (match Text.repeat? s n with
      | some t => (m.recount limit extra).push (.text t) (place next)
      | none => .stop (.tooLarge op sequenceLimit) (m.recount limit extra)) =
      (match Text.repeat? s n with
        | some t => m.push (.text t) next
        | none => Step.stop (.tooLarge op sequenceLimit) m).map place (recount limit extra) := by
  cases Text.repeat? s n with
  | some t => exact push_alike _
  | none => rfl

theorem jump_alike {chunk chunk' : Chunk} {n n' : Int}
    (h : target? chunk' n' = (target? chunk n).map place) :
    (m.recount limit extra).jump chunk' n' =
      (m.jump chunk n).map place (recount limit extra) := by
  unfold jump
  rw [h]
  cases target? chunk n <;> rfl

/-- Instructions that mean the same take the same step. -/
theorem execute_alike {chunk chunk' : Chunk} {i i' : Instr} (h : i.Alike chunk chunk' place i')
    (next : Nat) (m : Machine) :
    execute chunk' i' (place next) (m.recount limit extra) =
      (execute chunk i next m).map place (recount limit extra) := by
  obtain ⟨op, n⟩ := i
  obtain ⟨op', n'⟩ := i'
  obtain ⟨hop, h⟩ := h
  obtain rfl : op' = op := hop
  -- only the operands of constants, names and jumps may differ, and no instruction reads a counter
  cases op' <;> simp only [execute] at h ⊢
  case loadConst =>
    rw [h.1]
    cases hv : chunk.constant? n with
    | some v => exact push_alike v
    | none =>
        rw [h.2 hv]
        rfl
  case loadTrue => exact push_alike _
  case loadFalse => exact push_alike _
  case loadNull => exact push_alike _
  case loadVar =>
    rw [h]
    cases variableName? chunk n with
    | error e => rfl
    | ok name =>
        dsimp only
        rw [recount_globals]
        cases m.globals.get? name with
        | some v => exact push_alike v
        | none => rfl
  case storeVar =>
    rw [h]
    cases variableName? chunk n with
    | error e => rfl
    | ok name =>
        dsimp only
        rw [recount_stack]
        cases m.stack <;> rfl
  case add =>
    refine popPair_alike fun a b m => ?_
    split
    · exact push_alike _
    · exact push_alike _
    · rfl
  case subtract => exact arithmetic_alike
  case multiply =>
    refine popPair_alike fun a b m => ?_
    split
    · exact push_alike _
    · exact repeat_alike _ _
    · exact repeat_alike _ _
    · rfl
  case divide => exact arithmetic_alike
  case modulo => exact arithmetic_alike
  case floorDiv => exact arithmetic_alike
  case negate =>
    refine pop_alike fun v m => ?_
    split
    · exact push_alike _
    · rfl
  case equal => exact popPair_alike fun a b m => push_alike _
  case notEqual => exact popPair_alike fun a b m => push_alike _
  case less => exact arithmetic_alike
  case lessEqual => exact arithmetic_alike
  case greater => exact arithmetic_alike
  case greaterEqual => exact arithmetic_alike
  case not =>
    refine pop_alike fun v m => ?_
    split <;> exact push_alike _
  case buildArray =>
    rw [h]
    exact popMany_alike fun vs m => push_alike _
  case index =>
    refine popPair_alike fun a b m => ?_
    split
    · exact push_alike _
    · rfl
  case arrayLength =>
    refine pop_alike fun v m => ?_
    split
    · exact push_alike _
    · rfl
  case jump => exact jump_alike h
  case jumpIfFalse =>
    refine pop_alike fun v m => ?_
    split
    · rfl
    · exact jump_alike h
  case print =>
    rw [h]
    refine popMany_alike fun vs m => ?_
    rw [recount_output]
    split <;> rfl
  case pop => exact pop_alike fun v m => rfl
  case dup =>
    rw [recount_stack]
    cases m.stack with
    | nil => rfl
    | cons v rest => exact push_alike _
  case halt => rfl

theorem ticked_recount (limit extra : Nat) (m : Machine) :
    (m.recount limit extra).ticked = m.ticked.recount limit extra := by
  rw [ticked, recount, recount, ticked, Nat.add_right_comm]

theorem step_alike (place : Nat → Nat) {chunk chunk' : Chunk} {o : Nat} {i i' : Instr}
    (hi : chunk.code[o]? = some i)
    (hi' : chunk'.code[place o]? = some i') (h : i.Alike chunk chunk' place i')
    (hplace : place (o + 1) = place o + 1) (m : Machine) :
    step chunk' (place o) (m.recount limit extra) =
      (step chunk o m).map place (recount limit extra) := by
  rw [step_of_getElem? hi, step_of_getElem? hi', ticked_recount, ← hplace]
  exact execute_alike h (o + 1) m.ticked

/-- Other counters make no difference to a step. -/
theorem step_recount (chunk : Chunk) (o : Nat) (m : Machine) :
    step chunk o (m.recount limit extra) = (step chunk o m).map id (recount limit extra) := by
  cases hi : chunk.code[o]? with
  | none =>
      rw [step, step, hi]
      rfl
  | some i => exact step_alike id hi hi (.refl chunk i) rfl m

end Alike

/-! ## Runs -/

/-- How a run ends that its ceiling has cut off. -/
def Interrupted (r : Except MachineError Unit) : Prop :=
  ∃ limit, r = .error (.instructionLimit limit)

variable {chunk chunk' : Chunk} {m : Machine}

/-- Apart from one instruction more that is counted, a step leaves the counters. A step off the
code is not counted. -/
def Step.Counts (m : Machine) : Step → Prop
  | .next _ m' => m.ticked.Extends m'
  | .halt m' => m.ticked.Extends m'
  | .stop e m' => e.isLimit = false ∧ (m' = m ∨ m.ticked.Extends m')

theorem step_counts (chunk : Chunk) (o : Nat) (m : Machine) : (step chunk o m).Counts m := by
  cases hi : chunk.code[o]? with
  | none =>
      rw [step, hi]
      exact ⟨rfl, Or.inl rfl⟩
  | some i =>
      have hchange := execute_changes chunk i (o + 1) m.ticked
      rw [step_of_getElem? hi]
      cases hs : execute chunk i (o + 1) m.ticked with
      | next o' m' =>
          rw [hs] at hchange
          exact Change.extends hchange
      | halt m' =>
          rw [hs] at hchange
          exact Change.extends hchange
      | stop e m' =>
          rw [hs] at hchange
          exact ⟨hchange.isLimit, Or.inr hchange.change.extends⟩

/-- What a run counts and prints: no more steps than it may take, and just as many if it is cut
off. -/
structure Spends (n : Nat) (m : Machine) (r : Except MachineError Unit) (m' : Machine) : Prop where
  le : m.executed ≤ m'.executed
  bound : m'.executed ≤ m.executed + n
  limit : ∀ k, r = .error (.instructionLimit k) →
    k = m.maxInstructions ∧ m'.executed = m.executed + n
  output : ∃ more, m'.output.text = m.output.text ++ more

theorem Spends.step {n : Nat} {m₁ m₂ : Machine} {r : Except MachineError Unit}
    (h : m.ticked.Extends m₁) (h' : Spends n m₁ r m₂) : Spends (n + 1) m r m₂ := by
  have hexecuted : m₁.executed = m.executed + 1 := h.executed
  have hlimit : m₁.maxInstructions = m.maxInstructions := h.maxInstructions
  have hle := h'.le
  have hbound := h'.bound
  refine ⟨by omega, by omega, ?_, ?_⟩
  · intro k hk
    obtain ⟨rfl, hspent⟩ := h'.limit k hk
    exact ⟨hlimit, by omega⟩
  · obtain ⟨more, hmore⟩ := h.output
    obtain ⟨more', hmore'⟩ := h'.output
    exact ⟨more ++ more', by rw [hmore', hmore, String.append_assoc]; rfl⟩

theorem runFrom_spends (chunk : Chunk) : ∀ n o (m : Machine),
    Spends n m (runFrom chunk n o m).1 (runFrom chunk n o m).2 := by
  intro n
  induction n with
  | zero =>
      intro o m
      refine ⟨le_rfl, le_rfl, ?_, "", (String.append_empty).symm⟩
      intro k hk
      cases hk
      exact ⟨rfl, rfl⟩
  | succ n ih =>
      intro o m
      -- a run that ends with this step may count it or not
      have hlast {r : Except MachineError Unit} {m' : Machine} (hr : ¬Interrupted r)
          (h : m' = m ∨ m.ticked.Extends m') : Spends (n + 1) m r m' := by
        have hno (k : Nat) (hk : r = .error (.instructionLimit k)) : False := hr ⟨k, hk⟩
        rcases h with rfl | h
        · exact ⟨le_rfl, by omega, fun k hk => (hno k hk).elim, "", (String.append_empty).symm⟩
        · have hexecuted : m'.executed = m.executed + 1 := h.executed
          exact ⟨by omega, by omega, fun k hk => (hno k hk).elim, h.output⟩
      have hcounts := step_counts chunk o m
      rw [runFrom_succ]
      cases hs : step chunk o m with
      | next o' m' =>
          rw [hs] at hcounts
          exact .step hcounts (ih o' m')
      | halt m' =>
          rw [hs] at hcounts
          refine hlast ?_ (Or.inr hcounts)
          rintro ⟨k, hk⟩
          cases hk
      | stop e m' =>
          rw [hs] at hcounts
          obtain ⟨he, hm'⟩ := hcounts
          refine hlast ?_ hm'
          rintro ⟨k, hk⟩
          cases hk
          cases he

/-- Two machines that are in step wherever the first comes to (`P`) end alike. The second may be
given more steps, or fewer as long as they are more than the first one takes. -/
theorem runFrom_lockstep (place : Nat → Nat) (limit extra : Nat) {P : Nat → Machine → Prop}
    (halike : ∀ o m, P o m → step chunk' (place o) (m.recount limit extra) =
      (step chunk o m).map place (recount limit extra))
    (hkeep : ∀ o m, P o m → ∀ o' m', step chunk o m = .next o' m' → P o' m') :
    ∀ n o m, P o m → ¬Interrupted (runFrom chunk n o m).1 →
      ∀ n', (n ≤ n' ∨ (runFrom chunk n o m).2.executed < m.executed + n') →
        runFrom chunk' n' (place o) (m.recount limit extra) =
          ((runFrom chunk n o m).1, (runFrom chunk n o m).2.recount limit extra) := by
  intro n
  induction n with
  | zero =>
      intro o m _ hr
      exact absurd ⟨_, rfl⟩ hr
  | succ n ih =>
      intro o m hP hr n' hn'
      have hle := (runFrom_spends chunk (n + 1) o m).le
      have hcounts := step_counts chunk o m
      -- under either condition the second machine may take this step too
      obtain ⟨k, rfl⟩ : ∃ k, n' = k + 1 := ⟨n' - 1, by omega⟩
      rw [runFrom_succ, halike o m hP]
      rw [runFrom_succ] at hr hn' ⊢
      cases hs : step chunk o m with
      | halt m' => rfl
      | stop e m' => rfl
      | next o' m' =>
          rw [hs] at hr hn' hcounts
          have hexecuted : m'.executed = m.executed + 1 := hcounts.executed
          exact ih o' m' (hkeep o m hP o' m' hs) hr k (by dsimp only at hn'; omega)

end Machine

end ScriptLang
