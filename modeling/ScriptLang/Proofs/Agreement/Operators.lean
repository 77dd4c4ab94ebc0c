import Mathlib
import ScriptLang.Proofs.Bytecode.Run
import ScriptLang.Bytecode.Compiler

/-!
# Operators of the machine and of the evaluator

An operator of the language is carried out twice: by an instruction of the machine
and by a function on values. The two agree wherever the machine goes on or stops
with a fault of the program (`binary_performs`, `unary_performs`,
`index_performs`), but for a few operand kinds that they treat differently; these
are left out by `Instr.isShared`.
-/

namespace ScriptLang

/-! ## Plain values -/

mutual

/-- Values that bytecode can make: they have no identity and nothing in the store. -/
def Value.isPlain : Value → Bool
  | .null | .number _ | .text _ | .bool _ => true
  | .array ⟨items⟩ => Value.allPlain items
  | _ => false

def Value.allPlain : List Value → Bool
  | [] => true
  | v :: vs => v.isPlain && Value.allPlain vs

end

theorem Value.allPlain_iff : ∀ {vs : List Value},
    Value.allPlain vs = true ↔ ∀ v ∈ vs, v.isPlain = true
  | [] => by simp [allPlain]
  | v :: vs => by
      rw [allPlain, Bool.and_eq_true, allPlain_iff, List.forall_mem_cons]

mutual

/-- The text of a plain value does not depend on the traces of exceptions. -/
theorem Value.render_eq_of_isPlain (t t' : Exception → List Frame) : ∀ {v : Value},
    v.isPlain = true → v.render t = v.render t'
  | .null, _ | .number _, _ | .text _, _ | .bool _, _ => rfl
  | .array ⟨items⟩, h => by
      rw [isPlain] at h
      rw [render, render, renderAll_eq_of_allPlain t t' h]

theorem Value.renderAll_eq_of_allPlain (t t' : Exception → List Frame) : ∀ {vs : List Value},
    Value.allPlain vs = true → renderAll t vs = renderAll t' vs
  | [], _ => rfl
  | v :: vs, h => by
      rw [allPlain, Bool.and_eq_true] at h
      rw [renderAll, renderAll, render_eq_of_isPlain t t' h.1, renderAll_eq_of_allPlain t t' h.2]

end

/-! ## Where the two ways to run a program agree -/

/-- Pairs of numbers, of texts or of truth values. -/
def Value.alike : Value → Value → Bool
  | .number _, .number _ | .text _, .text _ | .bool _, .bool _ => true
  | _, _ => false

def Value.isNumber : Value → Bool
  | .number _ => true
  | _ => false

def Value.isText : Value → Bool
  | .text _ => true
  | _ => false

/-- Whether a value has too many items for a number to count them one by one. -/
def Value.isHuge : Value → Bool
  | .array items => 2 ^ 53 ≤ items.size
  | _ => false

/-- Whether an instruction finds operands that the evaluator treats alike: it negates
numbers, compares numbers, texts or truth values for equality, and takes items and lengths
of anything but a text. Arrays have fewer items than numbers count exactly. -/
def Instr.isShared (i : Instr) (stack : List Value) : Bool :=
  match i.op, stack with
  | .not, v :: _ => v.isNumber
  | .equal, b :: a :: _ => a.alike b
  | .notEqual, b :: a :: _ => a.alike b
  | .index, _ :: target :: _ => !target.isText
  | .arrayLength, v :: _ => !v.isText && !v.isHuge
  | _, _ => true

namespace MachineError

/-- The errors that the evaluator has an exception for. -/
def isFault : MachineError → Bool
  | .zeroDivision _ | .indexOutOfBounds _ _ | .tooLarge _ _ => true
  | _ => false

/-- The error and the fault are one mistake of the program. -/
inductive Reports : MachineError → Fault → Prop
  | zeroDivision (d : Division) : Reports (.zeroDivision d) (.divisionByZero d)
  | outOfBounds (i : Int) (length : Nat) :
      Reports (.indexOutOfBounds i length) (.indexOutOfRange i)
  | tooLarge (op : Opcode) (limit bytes : Nat) (count : Float) :
      Reports (.tooLarge op limit) (.repetitionTooLarge bytes count)

end MachineError

namespace Machine

/-- The step carries out an operation: it pushes the result on a machine whose operands are
gone, or stops with the error for the fault, or with one that the evaluator does not know. -/
inductive Step.Performs (result : Except Fault Value) (rest : Machine) (next : Nat) : Step → Prop
  | value {v : Value} (h : result = .ok v) (hv : v.isPlain = true) :
      Performs result rest next (rest.push v next)
  | fault {fault : Fault} {e : MachineError} (h : result = .error fault) (he : e.Reports fault) :
      Performs result rest next (.stop e rest)
  | apart {e : MachineError} {m : Machine} (he : e.isFault = false) :
      Performs result rest next (.stop e m)

variable {chunk : Chunk} {m : Machine} {a b v : Value} {rest : List Value} {next : Nat}
  {result : Except Fault Value}

theorem popPair_eq {op : Opcode} {k : Value → Value → Machine → Step}
    (hs : m.stack = b :: a :: rest) : m.popPair op k = k a b { m with stack := rest } := by
  rw [popPair, pop, hs]
  rfl

/-! ## Binary operators -/

/-- What an instruction does to two numbers is what the operator does. -/
def Matches (r : Except MachineError Value) (result : Except Fault Value) : Prop :=
  match r with
  | .ok v => result = .ok v ∧ v.isPlain = true
  | .error e => ∃ fault, result = .error fault ∧ e.Reports fault

theorem arithmetic_performs {code : Opcode} {op : BinaryOp}
    {f : Float → Float → Except MachineError Value} (hs : m.stack = b :: a :: rest)
    (hf : ∀ x y, Matches (f x y) (Value.numeric op x y)) (hr : Value.binary op a b = .ok result) :
    (m.arithmetic code next f).Performs result { m with stack := rest } next := by
  rw [arithmetic, popPair_eq hs]
  split
  · rename_i x y
    obtain rfl : Value.numeric op x y = result := Except.ok.inj hr
    have hxy := hf x y
    split
    · rename_i v hv
      rw [hv] at hxy
      exact .value hxy.1 hxy.2
    · rename_i e he
      rw [he] at hxy
      obtain ⟨fault, hfault, hr⟩ := hxy
      exact .fault hfault hr
  · exact .apart rfl

theorem divide_error {d : Division} {x y : Float} {fault : Fault}
    (h : Number.divide d x y = .error fault) : fault = .divisionByZero d := by
  unfold Number.divide at h
  split at h
  · cases h
    rfl
  · split at h <;> cases h

theorem divide_performs {code : Opcode} {op : BinaryOp} {d : Division}
    (hs : m.stack = b :: a :: rest)
    (hop : ∀ x y, Value.numeric op x y = (Number.divide d x y).map .number)
    (hr : Value.binary op a b = .ok result) :
    (m.divide code next d).Performs result { m with stack := rest } next := by
  refine arithmetic_performs hs ?_ hr
  intro x y
  rw [hop]
  cases hr : Number.divide d x y with
  | ok z => exact ⟨rfl, rfl⟩
  | error fault =>
      obtain rfl := divide_error hr
      exact ⟨_, rfl, .zeroDivision d⟩

theorem repeat_performs {s : String} {n : Float} {op : Opcode} :
    (match Text.repeat? s n with
      | some t => m.push (.text t) next
      | none => .stop (.tooLarge op sequenceLimit) m).Performs (Value.repeated s n) m next := by
  cases hr : Text.repeat? s n with
  | some t => exact .value (by rw [Value.repeated, hr]) rfl
  | none => exact .fault (by rw [Value.repeated, hr]) (.tooLarge ..)

/-- On operands that are alike, equality of the machine is that of the evaluator. -/
theorem binary_eq_of_alike (h : a.alike b = true) :
    Value.binary .eq a b = .ok (.ok (.ofBool (plainEqual a b))) ∧
      Value.binary .ne a b = .ok (.ok (.ofBool (!plainEqual a b))) := by
  unfold Value.alike at h
  split at h
  · exact ⟨rfl, rfl⟩
  · exact ⟨rfl, rfl⟩
  · exact ⟨rfl, rfl⟩
  · cases h

/-- No operator that the machine has breaks off. -/
theorem exists_binary_eq_ok {op : BinaryOp} {code : Opcode}
    (hop : Opcode.ofBinary? op = some code) (a b : Value) :
    ∃ result, Value.binary op a b = .ok result := by
  unfold Value.binary
  split
  · cases op with
    | matMul => cases hop
    | _ => exact ⟨_, rfl⟩
  · exact ⟨_, rfl⟩

theorem binary_performs {op : BinaryOp} {code : Opcode} {n : Int}
    (hop : Opcode.ofBinary? op = some code) (hs : m.stack = b :: a :: rest)
    (hr : Value.binary op a b = .ok result)
    (hshared : (Instr.mk code n).isShared m.stack = true) :
    (execute chunk ⟨code, n⟩ next m).Performs result { m with stack := rest } next := by
  rw [hs] at hshared
  cases op <;> cases hop <;> simp only [execute]
  case add =>
    rw [popPair_eq hs]
    split
    · exact .value (Except.ok.inj hr).symm rfl
    · exact .value (Except.ok.inj hr).symm rfl
    · exact .apart rfl
  case sub => exact arithmetic_performs hs (fun _ _ => ⟨rfl, rfl⟩) hr
  case mul =>
    rw [popPair_eq hs]
    split
    · exact .value (Except.ok.inj hr).symm rfl
    · exact Except.ok.inj hr ▸ repeat_performs
    · exact Except.ok.inj hr ▸ repeat_performs
    · exact .apart rfl
  case div => exact divide_performs hs (fun _ _ => rfl) hr
  case mod => exact divide_performs hs (fun _ _ => rfl) hr
  case floorDiv => exact divide_performs hs (fun _ _ => rfl) hr
  -- `hshared` leaves only values that both sides compare in the same way
  case eq =>
    rw [popPair_eq hs]
    exact .value (Except.ok.inj (hr.symm.trans (binary_eq_of_alike hshared).1)) rfl
  case ne =>
    rw [popPair_eq hs]
    exact .value (Except.ok.inj (hr.symm.trans (binary_eq_of_alike hshared).2)) rfl
  case lt => exact arithmetic_performs hs (fun _ _ => ⟨rfl, rfl⟩) hr
  case le => exact arithmetic_performs hs (fun _ _ => ⟨rfl, rfl⟩) hr
  case gt => exact arithmetic_performs hs (fun _ _ => ⟨rfl, rfl⟩) hr
  case ge => exact arithmetic_performs hs (fun _ _ => ⟨rfl, rfl⟩) hr

/-! ## Unary operators and items -/

theorem unary_performs {op : UnaryOp} {n : Int} (hs : m.stack = v :: rest)
    (hshared : (Instr.mk (Opcode.ofUnary op) n).isShared m.stack = true) :
    (execute chunk ⟨Opcode.ofUnary op, n⟩ next m).Performs (.ok (Value.unary op v))
      { m with stack := rest } next := by
  rw [hs] at hshared
  cases op <;> simp only [execute, Opcode.ofUnary, pop, hs]
  case neg =>
    split
    · exact .value rfl rfl
    · exact .apart rfl
  case not =>
    -- the machine also negates truth values, which the condition leaves out
    cases v with
    | number x => exact .value rfl rfl
    | _ => cases hshared

theorem isPlain_of_getElem? {items : Array Value} {i : Nat} (h : (Value.array items).isPlain = true)
    (hi : items[i]? = some v) : v.isPlain = true := by
  rw [Value.isPlain] at h
  exact Value.allPlain_iff.mp h v (Array.mem_toList_iff.mpr (Array.mem_of_getElem? hi))

theorem index_performs {n : Int} (hs : m.stack = b :: a :: rest) (ha : a.isPlain = true)
    (hshared : (Instr.mk .index n).isShared m.stack = true) :
    (execute chunk ⟨.index, n⟩ next m).Performs (Value.index a b) { m with stack := rest }
      next := by
  rw [hs] at hshared
  simp only [execute, popPair_eq hs]
  cases b with
  | number x =>
      cases a with
      | array items =>
          simp only [itemAt, Value.index]
          by_cases hneg : Number.toIndex x < 0
          · simp only [if_pos hneg]
            exact .fault rfl (.outOfBounds ..)
          · simp only [if_neg hneg]
            cases hi : items[(Number.toIndex x).toNat]? with
            | some v => exact .value rfl (isPlain_of_getElem? ha hi)
            | none => exact .fault rfl (.outOfBounds ..)
      | text s => cases hshared
      | _ => exact .apart rfl
  | _ => exact .apart rfl

end Machine

end ScriptLang
