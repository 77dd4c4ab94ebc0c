import Mathlib
import ScriptLang.Proofs.Bytecode.Run

/-!
# What an instruction does to the depth of the stack

Every instruction takes a number of values off the stack and puts a number on it,
which can be told from the instruction alone. If the stack is deep enough and the
operand means something in the chunk, the instruction either does just that and
goes on where its operand says, or halts, or stops for a reason that lies in the
values and limits and not in the code (`execute_sound`). The stack overflows only if
there is no room for what the instruction would leave.
-/

namespace ScriptLang

/-- The errors that only malformed code raises. -/
def MachineError.isStructural : MachineError → Bool
  | .stackUnderflow _ | .badConstant _ | .badVariableName _ | .offsetOutOfBounds _ _ => true
  | _ => false

/-- The code is not to blame for the error, and a stack that overflows has no room for the
depth. -/
def MachineError.Excused (capacity depth : Nat) : MachineError → Prop
  | .stackUnderflow _ | .badConstant _ | .badVariableName _ | .offsetOutOfBounds _ _ => False
  | .stackOverflow limit => limit = capacity ∧ capacity < depth
  | _ => True

theorem MachineError.Excused.not_structural {capacity depth : Nat} {e : MachineError}
    (h : e.Excused capacity depth) : e.isStructural = false := by
  cases e <;> first | rfl | exact h.elim

theorem MachineError.excused_of_values {capacity depth : Nat} {e : MachineError}
    (h : e.isOfValues = true) : e.Excused capacity depth := by
  cases e <;> cases h <;> trivial

namespace Instr

/-- How many values on the stack the instruction needs. -/
def takes (i : Instr) : Nat :=
  match i.op with
  | .loadConst | .loadTrue | .loadFalse | .loadNull | .loadVar | .jump | .halt => 0
  | .storeVar | .negate | .not | .arrayLength | .jumpIfFalse | .pop | .dup => 1
  | .add | .subtract | .multiply | .divide | .modulo | .floorDiv | .equal | .notEqual | .less
  | .lessEqual | .greater | .greaterEqual | .index => 2
  | .buildArray | .print => i.operand.toNat

/-- How many values it leaves in their place. -/
def gives (i : Instr) : Nat :=
  match i.op with
  | .jump | .jumpIfFalse | .print | .pop | .halt => 0
  | .dup => 2
  | _ => 1

/-- The offsets that it can lead to; `next` is the one behind it. -/
def successors (i : Instr) (next : Nat) : List Nat :=
  match i.op with
  | .jump => [i.operand.toNat]
  | .jumpIfFalse => [next, i.operand.toNat]
  | .halt => []
  | _ => [next]

theorem op_eq_halt {i : Instr} {next : Nat} (h : i.successors next = []) : i.op = .halt := by
  obtain ⟨op, n⟩ := i
  cases op <;> first | rfl | cases h

/-- Whether the operand means something in the chunk. -/
def OperandFits (chunk : Chunk) (i : Instr) : Prop :=
  match i.op with
  | .loadConst => ∃ v, chunk.constant? i.operand = some v
  | .loadVar | .storeVar => ∃ x, chunk.constant? i.operand = some (.text x)
  | .buildArray | .print => 0 ≤ i.operand
  | .jump | .jumpIfFalse => 0 ≤ i.operand ∧ i.operand.toNat < chunk.code.size
  | _ => True

end Instr

namespace Machine

/-- A step to one of some offsets with a stack of some depth, or an end that the code is
not to blame for. -/
def Step.Sound (depth : Nat) (targets : List Nat) : Step → Prop
  | .next o m => o ∈ targets ∧ m.stack.length = depth
  | .halt m => targets = [] ∧ m.stack.length = depth
  | .stop e m => e.Excused m.capacity depth

variable {m : Machine} {op : Opcode} {capacity depth next : Nat} {targets : List Nat}

theorem push_sound {v : Value} (hn : next ∈ targets) (hd : m.stack.length + 1 = depth) :
    (m.push v next).Sound depth targets := by
  unfold push
  split
  · rename_i hfull
    exact ⟨rfl, hd ▸ Nat.lt_succ_of_le hfull⟩
  · exact ⟨hn, hd⟩

theorem repeat_sound {s : String} {n : Float} (hn : next ∈ targets)
    (hd : m.stack.length + 1 = depth) :
    (match Text.repeat? s n with
      | some t => m.push (.text t) next
      | none => .stop (.tooLarge op sequenceLimit) m).Sound depth targets := by
  cases Text.repeat? s n with
  | some t => exact push_sound hn hd
  | none => trivial

theorem pop_sound {k : Value → Machine → Step} (h : 1 ≤ m.stack.length)
    (hk : ∀ v rest, m.stack = v :: rest → (k v { m with stack := rest }).Sound depth targets) :
    (m.pop op k).Sound depth targets := by
  unfold pop
  cases hs : m.stack with
  | nil => rw [hs] at h; exact absurd h (by decide)
  | cons v rest => exact hk v rest hs

theorem popPair_sound {k : Value → Value → Machine → Step} (h : 2 ≤ m.stack.length)
    (hk : ∀ b a rest, m.stack = b :: a :: rest →
      (k a b { m with stack := rest }).Sound depth targets) :
    (m.popPair op k).Sound depth targets := by
  unfold popPair
  apply pop_sound (by omega)
  intro b rest hs
  apply pop_sound (by rw [hs] at h; simpa using h)
  intro a rest' hs'
  exact hk b a rest' (by rw [hs, ← hs'])

theorem popMany_sound {k : List Value → Machine → Step} {n : Int} (h0 : 0 ≤ n)
    (h : n.toNat ≤ m.stack.length)
    (hk : ∀ vs rest, rest.length = m.stack.length - n.toNat →
      (k vs { m with stack := rest }).Sound depth targets) :
    (m.popMany op n k).Sound depth targets := by
  unfold popMany
  rw [if_neg (by omega)]
  exact hk _ _ (by rw [List.length_drop])

theorem arithmetic_sound {f : Float → Float → Except MachineError Value}
    (hf : ∀ a b e, f a b = .error e → e.Excused m.capacity depth) (hn : next ∈ targets)
    (h : 2 ≤ m.stack.length) (hd : m.stack.length = depth + 1) :
    (m.arithmetic op next f).Sound depth targets := by
  unfold arithmetic
  apply popPair_sound h
  intro b a rest hs
  have hlen : rest.length + 1 = depth := by rw [hs] at hd; simpa using hd
  split
  · split
    · exact push_sound hn hlen
    · exact hf _ _ _ ‹_›
  · trivial

theorem divide_sound {d : Division} (hn : next ∈ targets) (h : 2 ≤ m.stack.length)
    (hd : m.stack.length = depth + 1) : (m.divide op next d).Sound depth targets := by
  apply arithmetic_sound _ hn h hd
  intro a b e he
  split at he
  · cases he
  · cases he
    trivial

theorem compare_sound {f : Float → Float → Bool} (hn : next ∈ targets) (h : 2 ≤ m.stack.length)
    (hd : m.stack.length = depth + 1) : (m.compare op next f).Sound depth targets :=
  arithmetic_sound (fun _ _ _ he => by cases he) hn h hd

theorem jump_sound {chunk : Chunk} {n : Int} (h0 : 0 ≤ n) (hlt : n.toNat < chunk.code.size)
    (hn : n.toNat ∈ targets) (hd : m.stack.length = depth) :
    (m.jump chunk n).Sound depth targets := by
  unfold jump target?
  rw [if_neg (by omega)]
  exact ⟨hn, hd⟩

/-- An instruction whose operand fits, on a stack that is deep enough, changes the depth as
it should and leads where it should, or ends the run without blame for the code. -/
theorem execute_sound {chunk : Chunk} {i : Instr} (hop : i.OperandFits chunk)
    (hd : i.takes ≤ m.stack.length) :
    (execute chunk i next m).Sound (m.stack.length - i.takes + i.gives) (i.successors next) := by
  obtain ⟨op, n⟩ := i
  have hself : next ∈ [next] := List.mem_singleton_self next
  -- `hd` rules out an underflow and `hop` a bad operand; the code is not to blame for other errors
  cases op <;>
    simp only [Instr.takes, Instr.gives, Instr.successors, Instr.OperandFits, execute] at hop hd ⊢
  case loadConst =>
    obtain ⟨v, hv⟩ := hop
    rw [hv]
    exact push_sound hself rfl
  case loadTrue => exact push_sound hself rfl
  case loadFalse => exact push_sound hself rfl
  case loadNull => exact push_sound hself rfl
  case loadVar =>
    obtain ⟨x, hx⟩ := hop
    simp only [variableName?, hx]
    split
    · exact push_sound hself rfl
    · trivial
  case storeVar =>
    obtain ⟨x, hx⟩ := hop
    simp only [variableName?, hx]
    split
    · rw [‹m.stack = _›] at hd
      exact absurd hd (by decide)
    · exact ⟨hself, by dsimp only; omega⟩
  case add =>
    apply popPair_sound hd
    intro b a rest hs
    have hlen : rest.length + 1 = m.stack.length - 2 + 1 := by rw [hs]; rfl
    split
    · exact push_sound hself hlen
    · exact push_sound hself hlen
    · trivial
  case multiply =>
    apply popPair_sound hd
    intro b a rest hs
    have hlen : rest.length + 1 = m.stack.length - 2 + 1 := by rw [hs]; rfl
    split
    · exact push_sound hself hlen
    · exact repeat_sound hself hlen
    · exact repeat_sound hself hlen
    · trivial
  case subtract =>
    exact arithmetic_sound (fun _ _ _ he => by cases he) hself hd (by omega)
  case divide => exact divide_sound hself hd (by omega)
  case modulo => exact divide_sound hself hd (by omega)
  case floorDiv => exact divide_sound hself hd (by omega)
  case less => exact compare_sound hself hd (by omega)
  case lessEqual => exact compare_sound hself hd (by omega)
  case greater => exact compare_sound hself hd (by omega)
  case greaterEqual => exact compare_sound hself hd (by omega)
  case equal =>
    apply popPair_sound hd
    intro b a rest hs
    exact push_sound hself (by rw [hs]; rfl)
  case notEqual =>
    apply popPair_sound hd
    intro b a rest hs
    exact push_sound hself (by rw [hs]; rfl)
  case negate =>
    apply pop_sound hd
    intro v rest hs
    split
    · exact push_sound hself (by rw [hs]; rfl)
    · trivial
  case not =>
    apply pop_sound hd
    intro v rest hs
    split <;> exact push_sound hself (by rw [hs]; rfl)
  case buildArray =>
    apply popMany_sound hop hd
    intro vs rest hr
    exact push_sound hself (by rw [hr])
  case index =>
    apply popPair_sound hd
    intro b a rest hs
    split
    · exact push_sound hself (by rw [hs]; rfl)
    · exact MachineError.excused_of_values (itemAt_error ‹_›)
  case arrayLength =>
    apply pop_sound hd
    intro v rest hs
    split
    · exact push_sound hself (by rw [hs]; rfl)
    · exact MachineError.excused_of_values (lengthOf_error ‹_›)
  case jump => exact jump_sound hop.1 hop.2 (List.mem_singleton_self _) rfl
  case jumpIfFalse =>
    apply pop_sound hd
    intro v rest hs
    have hlen : rest.length = m.stack.length - 1 + 0 := by rw [hs]; rfl
    split
    · exact ⟨List.mem_cons_self, hlen⟩
    · exact jump_sound hop.1 hop.2 (List.mem_cons_of_mem _ (List.mem_singleton_self _)) hlen
  case print =>
    apply popMany_sound hop hd
    intro vs rest hr
    split
    · exact ⟨hself, hr⟩
    · trivial
  case pop =>
    apply pop_sound hd
    intro v rest hs
    exact ⟨hself, by rw [hs]; rfl⟩
  case dup =>
    split
    · rw [‹m.stack = _›] at hd
      exact absurd hd (by decide)
    · exact push_sound hself (by omega)
  case halt => exact ⟨rfl, rfl⟩

end Machine

end ScriptLang
