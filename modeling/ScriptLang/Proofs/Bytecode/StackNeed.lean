import Mathlib
import ScriptLang.Proofs.Bytecode.Balance
import ScriptLang.Proofs.Bytecode.Resources

/-!
# How much stack a program needs

The stack that a construct needs can be read off its syntax. It is the greatest depth
in the layout of the construct, so no run of a compiled program goes deeper, and a
machine with that much room never runs out of it. A machine with less room cannot take
a single expression to its end: the code of an expression has no jumps, so the run
comes to the first instruction that leaves too much, unless something else has ended it
before (`Machine.run_within_need`).
-/

namespace ScriptLang

/-! ## The need of each construct -/

mutual

/-- How many values the code of an expression has on the stack at most, beyond those that
were there before. -/
def Expr.need : Expr → Nat
  | .unary _ _ operand => operand.need
  | .binary _ left _ right => max left.need (1 + right.need)
  | .index _ target key => max target.need (1 + key.need)
  | .call _ _ args => max 1 (Expr.listNeed 0 args)
  | .array _ items => max 1 (Expr.listNeed 0 items)
  | _ => 1

/-- The same for expressions whose values stay, behind `i` others. -/
def Expr.listNeed (i : Nat) : List Expr → Nat
  | [] => 0
  | e :: es => max (i + e.need) (Expr.listNeed (i + 1) es)

end

mutual

def Stmt.need : Stmt → Nat
  | .expr _ e => e.need
  | .bind _ _ value => value.need
  | .assign _ _ value => value.need
  | .choose _ condition yes no =>
    max condition.need (max (Stmt.listNeed yes) (Stmt.optionNeed no))
  | .loop _ condition body => max condition.need (Stmt.listNeed body)
  | .forEach _ _ source body _ => max 2 (max source.need (Stmt.listNeed body))
  | _ => 0

def Stmt.listNeed : List Stmt → Nat
  | [] => 0
  | s :: ss => max s.need (Stmt.listNeed ss)

def Stmt.optionNeed : Option (List Stmt) → Nat
  | none => 0
  | some ss => Stmt.listNeed ss

end

theorem Stmt.optionNeed_eq (no : Option (List Stmt)) :
    Stmt.optionNeed no = Stmt.listNeed (no.getD []) := by
  cases no <;> rfl

def Program.need (p : Program) : Nat := Stmt.listNeed p.stmts

/-! ## The need is the peak of the layout -/

/-- The greatest of some depths. -/
def peak (l : List Nat) : Nat := l.foldr max 0

@[simp] theorem peak_nil : peak [] = 0 := rfl

@[simp] theorem peak_cons (d : Nat) (l : List Nat) : peak (d :: l) = max d (peak l) := rfl

@[simp] theorem peak_append (l r : List Nat) : peak (l ++ r) = max (peak l) (peak r) := by
  induction l with
  | nil => simp
  | cons d l ih => simp [ih, max_assoc]

theorem le_peak {l : List Nat} {d : Nat} (h : d ∈ l) : d ≤ peak l := by
  induction l with
  | nil => cases h
  | cons x l ih =>
      rcases List.mem_cons.mp h with rfl | h
      · exact le_max_left _ _
      · exact (ih h).trans (le_max_right _ _)

/-- Depths that peak above a bound pass it somewhere for the first time. -/
theorem exists_first_above {n : Nat} : ∀ {l : List Nat}, n < peak l →
    ∃ (j d : Nat), l[j]? = some d ∧ n < d ∧ ∀ i < j, ∀ d', l[i]? = some d' → d' ≤ n
  | [], h => absurd h (Nat.not_lt_zero n)
  | d :: l, h => by
      by_cases hd : n < d
      · exact ⟨0, d, rfl, hd, fun i hi => absurd hi (Nat.not_lt_zero i)⟩
      · rw [peak_cons] at h
        have hl : n < peak l := by omega
        obtain ⟨j, d', hj, hd', hbelow⟩ := exists_first_above hl
        refine ⟨j + 1, d', hj, hd', fun i hi x hx => ?_⟩
        cases i with
        | zero =>
            cases hx
            exact Nat.le_of_not_lt hd
        | succ i => exact hbelow i (Nat.lt_of_succ_lt_succ hi) x hx

mutual

/-- The depth behind an expression counts as well: that is where its value is. -/
theorem ExprCode.peak_depths : ∀ {pool : Nat} {e : Expr} {f : Fragment}, ExprCode pool e f →
    ∀ d, max (peak (e.depths d)) (d + 1) = d + e.need
  | _, _, _, .number, d | _, _, _, .text, d | _, _, _, .bool, d | _, _, _, .name, d => by
      simp [Expr.depths, Expr.need]
  | _, _, _, .binary _ hl hr, d => by
      -- the right operand is evaluated one place higher, on the value of the left one
      have hleft := hl.peak_depths d
      have hright := hr.peak_depths (d + 1)
      simp only [Expr.depths, Expr.need, peak_append, peak_cons, peak_nil]
      omega
  | _, _, _, .unary he, d => by
      have hoperand := he.peak_depths d
      simp only [Expr.depths, Expr.need, peak_append, peak_cons, peak_nil]
      omega
  | _, _, _, .print ha, d => by
      have hargs := ha.peak_depths d 0
      rw [Nat.add_zero] at hargs
      simp only [Expr.depths, Expr.need, peak_append, peak_cons, peak_nil]
      omega
  | _, _, _, .array ha, d => by
      have hitems := ha.peak_depths d 0
      rw [Nat.add_zero] at hitems
      simp only [Expr.depths, Expr.need, peak_append, peak_cons, peak_nil]
      omega
  | _, _, _, .index ht hk, d => by
      have htarget := ht.peak_depths d
      have hkey := hk.peak_depths (d + 1)
      simp only [Expr.depths, Expr.need, peak_append, peak_cons, peak_nil]
      omega

theorem ExprsCode.peak_depths : ∀ {pool : Nat} {es : List Expr} {f : Fragment},
    ExprsCode pool es f → ∀ d i, max (peak (Expr.listDepths (d + i) es)) (d + i + es.length) =
      max (d + i) (d + Expr.listNeed i es)
  | _, _, _, .nil, d, i => by simp [Expr.listDepths, Expr.listNeed]
  | _, _, _, .cons he hes, d, i => by
      have hhead := he.peak_depths (d + i)
      have hrest := hes.peak_depths d (i + 1)
      simp only [Expr.listDepths, Expr.listNeed, peak_append, List.length_cons,
        Nat.add_assoc] at hhead hrest ⊢
      omega

end

mutual

theorem StmtCode.peak_depths : ∀ {depth base pool : Nat} {s : Stmt} {f : Fragment},
    StmtCode depth base pool s f → peak s.depths = s.need
  | _, _, _, _, _, .expr he | _, _, _, _, _, .bind he | _, _, _, _, _, .assign he => by
      have hvalue := he.peak_depths 0
      simp only [Stmt.depths, Stmt.need, peak_append, peak_cons, peak_nil]
      omega
  | _, _, _, _, _, .choose he hy hn => by
      have hcondition := he.peak_depths 0
      simp only [Stmt.depths, Stmt.need, Stmt.optionDepths_eq, Stmt.optionNeed_eq, peak_append,
        peak_cons, peak_nil, hy.peak_depths, hn.peak_depths]
      omega
  | _, _, _, _, _, .loop he hb => by
      have hcondition := he.peak_depths 0
      simp only [Stmt.depths, Stmt.need, peak_append, peak_cons, peak_nil, hb.peak_depths]
      omega
  | _, _, _, _, _, .forEach he hb => by
      have hsource := he.peak_depths 0
      -- the code of the loop itself never has more than two values there
      have hfront : peak [1, 1, 0, 1, 1, 0, 1, 2, 2, 1, 0, 1, 2, 1, 1] = 2 := rfl
      have hback : peak [0, 1, 2, 1, 1, 0] = 2 := rfl
      simp only [Stmt.depths, Stmt.need, peak_append, hfront, hback, hb.peak_depths]
      omega

theorem BlockCode.peak_depths : ∀ {depth base pool : Nat} {ss : List Stmt} {f : Fragment},
    BlockCode depth base pool ss f → peak (Stmt.listDepths ss) = Stmt.listNeed ss
  | _, _, _, _, _, .nil => rfl
  | _, _, _, _, _, .cons hs hss => by
      simp only [Stmt.listDepths, Stmt.listNeed, peak_append, hs.peak_depths, hss.peak_depths]

end

theorem Program.peak_layout {p : Program} {c : Chunk} (h : p.compile = .ok c) :
    peak p.layout = p.need := by
  obtain ⟨f, hb, -, -⟩ := compile_ok h
  simp only [Program.layout, Program.need, peak_append, (Compiler.blockCode hb).peak_depths,
    peak_cons, peak_nil, Nat.max_zero]

/-! ## Runs stay within the need -/

theorem MachineError.Excused.mono {capacity depth depth' : Nat} {e : MachineError}
    (h : e.Excused capacity depth) (hd : depth ≤ depth') : e.Excused capacity depth' := by
  cases e with
  | stackOverflow limit => exact ⟨h.1, h.2.trans_le hd⟩
  | _ => exact h

theorem Program.FollowsLayout.le_need {p : Program} {c : Chunk} {o : Nat} {m : Machine}
    (ho : p.FollowsLayout o m) (h : p.compile = .ok c) : m.stack.length ≤ p.need := by
  rw [← Program.peak_layout h]
  exact le_peak (List.mem_of_getElem? ho)

namespace Machine

variable {p : Program} {c : Chunk} {m m' : Machine} {o : Nat} {i : Instr}

/-- The instruction at an offset that a run comes to, with what it finds and leaves. -/
theorem exists_instr (h : p.compile = .ok c) (ho : p.FollowsLayout o m) :
    ∃ i, c.code[o]? = some i ∧ i.OperandFits c ∧ i.takes ≤ m.stack.length ∧
      (∀ o' ∈ i.successors (o + 1),
        p.layout[o']? = some (m.stack.length - i.takes + i.gives)) ∧
      m.stack.length - i.takes + i.gives ≤ p.need := by
  obtain ⟨hlen, hset, -⟩ := Program.settled h
  have hlt : o < c.code.size := hlen ▸ (List.getElem?_eq_some_iff.mp ho).1
  obtain ⟨i, d, hi, hd, hop, htakes, hleads, hhalts⟩ := hset o (Nat.zero_le o) (by omega)
  obtain rfl : m.stack.length = d := Option.some.inj (ho.symm.trans hd)
  refine ⟨i, hi, hop, htakes, hleads, ?_⟩
  cases hs : i.successors (o + 1) with
  | nil =>
      have hhalt := Instr.op_eq_halt hs
      have hgives : i.gives = 0 := by rw [Instr.gives, hhalt]
      rw [(hhalts hhalt).1, hgives, Nat.zero_sub]
      exact Nat.zero_le _
  | cons o' os =>
      rw [← Program.peak_layout h]
      exact le_peak (List.mem_of_getElem? (hleads o' (hs ▸ List.mem_cons_self)))

/-- A stop that the code is not to blame for takes values off the stack at most. -/
theorem step_stop (h : p.compile = .ok c) (ho : p.FollowsLayout o m) {e : MachineError}
    (hx : step c o m = .stop e m') :
    e.Excused m'.capacity p.need ∧ m'.stack.length ≤ m.stack.length := by
  obtain ⟨i, hi, hop, htakes, -, hneed⟩ := exists_instr h ho
  rw [step_of_getElem? hi] at hx
  have hsound : (execute c i (o + 1) m.ticked).Sound _ _ := execute_sound hop htakes
  have hleaves := execute_changes c i (o + 1) m.ticked
  rw [hx] at hsound hleaves
  refine ⟨hsound.mono hneed, ?_⟩
  cases hleaves with
  | cut hbelow _ =>
      obtain ⟨values, hle, rfl⟩ := hbelow
      exact hle
  | refused values line hle => exact hle

/-- An instruction leaves the limits of the machine as they are. -/
def SameLimits (m m' : Machine) : Prop :=
  m'.capacity = m.capacity ∧ m'.maxInstructions = m.maxInstructions

theorem step_sameLimits (c : Chunk) (o : Nat) (m : Machine) :
    (step c o m).Leads (fun _ => m.SameLimits) (fun _ => m.SameLimits) := by
  refine step_leads c o ⟨rfl, rfl⟩ fun m' hm' => ?_
  cases hm' with
  | stack | bind | print => exact ⟨rfl, rfl⟩

/-- An end within the need, and with an overflow only if there is no room for the need. -/
def EndsWithin (p : Program) (capacity : Nat) (r : Except MachineError Unit) (m : Machine) :
    Prop :=
  m.stack.length ≤ p.need ∧ ∀ limit, r = .error (.stackOverflow limit) → capacity < p.need

theorem step_within_need (h : p.compile = .ok c) {capacity : Nat}
    (hm : p.FollowsLayout o m ∧ m.capacity = capacity) :
    (step c o m).Leads (fun o' m' => p.FollowsLayout o' m' ∧ m'.capacity = capacity)
      (EndsWithin p capacity) := by
  obtain ⟨ho, rfl⟩ := hm
  have hfollows := step_follows_layout h ho
  have hlimits := step_sameLimits c o m
  cases hx : step c o m with
  | next o' m' =>
      rw [hx] at hfollows hlimits
      exact ⟨hfollows, hlimits.1⟩
  | halt m' =>
      rw [hx] at hfollows
      refine ⟨?_, fun limit he => by cases he⟩
      rw [hfollows.2 rfl]
      exact Nat.zero_le _
  | stop e m' =>
      rw [hx] at hlimits
      obtain ⟨hexcused, hstack⟩ := step_stop h ho hx
      refine ⟨hstack.trans (ho.le_need h), fun limit he => ?_⟩
      cases he
      rw [← hlimits.1]
      exact hexcused.2

/-! ## Runs that have too little room -/

/-- Where there is room for what an instruction finds but not for what it leaves, it overflows,
unless it loads a name that is not there. -/
theorem execute_overflows (next : Nat) (hop : i.OperandFits c)
    (htakes : i.takes ≤ m.stack.length) (hroom : m.stack.length ≤ m.capacity)
    (hfull : m.capacity < m.stack.length - i.takes + i.gives) :
    (∃ m', execute c i next m = .stop (.stackOverflow m.capacity) m') ∨
      ∃ x, i.op = .loadVar ∧ c.constant? i.operand = some (.text x) ∧
        m.globals.get? x = none ∧ execute c i next m = .stop (.undefinedVariable x) m := by
  have hpush {m' : Machine} (v : Value) (hm' : m'.capacity = m.capacity)
      (hlen : m.capacity ≤ m'.stack.length) :
      ∃ m'', m'.push v next = .stop (.stackOverflow m.capacity) m'' :=
    ⟨m', by rw [push, if_pos (hm' ▸ hlen), hm']⟩
  obtain ⟨op, n⟩ := i
  -- the others leave no more than they take
  cases op <;> simp only [Instr.takes, Instr.gives, Instr.OperandFits, execute] at hop htakes hfull ⊢
    <;> try omega
  case loadConst =>
    obtain ⟨v, hv⟩ := hop
    rw [hv]
    exact .inl (hpush v rfl (by omega))
  case loadTrue => exact .inl (hpush _ rfl (by omega))
  case loadFalse => exact .inl (hpush _ rfl (by omega))
  case loadNull => exact .inl (hpush _ rfl (by omega))
  case loadVar =>
    obtain ⟨x, hx⟩ := hop
    simp only [variableName?, hx]
    cases hg : m.globals.get? x with
    | some v => exact .inl (hpush v rfl (by omega))
    | none => exact .inr ⟨x, trivial, rfl, hg, rfl⟩
  case buildArray =>
    left
    rw [popMany, if_neg (by omega)]
    refine hpush _ rfl ?_
    rw [List.length_drop]
    omega
  case dup =>
    left
    cases hs : m.stack with
    | nil =>
        rw [hs] at htakes
        exact absurd htakes (by decide)
    | cons v rest => exact hpush v rfl (by omega)

/-- How a run can end, at the offset `o` with the machine `m`, that has no room for what the
instruction at `k` would leave. -/
inductive FallsShort (c : Chunk) (capacity limit k : Nat) :
    Nat → Machine → Except MachineError Unit × Machine → Prop
  /-- As many instructions as are allowed have been taken before. -/
  | cut {m : Machine} (h : limit ≤ k) :
      FallsShort c capacity limit k limit m (.error (.instructionLimit limit), m)
  /-- An earlier instruction has failed. -/
  | earlier {o : Nat} {m m' : Machine} {e : MachineError} (h : o < k)
      (hstep : step c o m = .stop e m') (he : ∀ n, e ≠ .stackOverflow n) :
      FallsShort c capacity limit k o m (.error e, m')
  /-- The instruction at `k` overflows the stack. -/
  | overflow {m m' : Machine} (hstep : step c k m = .stop (.stackOverflow capacity) m') :
      FallsShort c capacity limit k k m (.error (.stackOverflow capacity), m')
  /-- The instruction at `k` loads a name that is not there, which it finds out first. -/
  | undefined {m m' : Machine} {n : Int} {x : String} (hi : c.code[k]? = some ⟨.loadVar, n⟩)
      (hn : c.constant? n = some (.text x)) (hx : m.globals.get? x = none)
      (hstep : step c k m = .stop (.undefinedVariable x) m') :
      FallsShort c capacity limit k k m (.error (.undefinedVariable x), m')

/-- Up to `k` the depths of a layout are within the capacity, and the next one is not. -/
def Exceeds (layout : List Nat) (capacity k : Nat) : Prop :=
  (∀ j ≤ k, ∀ d, layout[j]? = some d → d ≤ capacity) ∧
    ∃ d, layout[k + 1]? = some d ∧ capacity < d

/-- Straight code goes on to the next instruction up to `k` or falls short. -/
theorem step_fallsShort (h : p.compile = .ok c) (limit : Nat) {k : Nat}
    (hstraight : ∀ i, c.code[o]? = some i → i.isStraight = true)
    (hk : Exceeds p.layout m.capacity k) (hok : o ≤ k) (ho : p.FollowsLayout o m) :
    (o < k ∧ ∃ m', step c o m = .next (o + 1) m') ∨
      ∃ e m', step c o m = .stop e m' ∧
        FallsShort c m.capacity limit k o m (.error e, m') := by
  obtain ⟨i, hi, hop, htakes, hleads, -⟩ := exists_instr h ho
  have hsucc := Instr.successors_of_isStraight (hstraight i hi) (o + 1)
  have hnext := hleads (o + 1) (hsucc ▸ List.mem_singleton_self _)
  have hstep : step c o m = execute c i (o + 1) m.ticked := step_of_getElem? hi
  rcases Nat.lt_or_eq_of_le hok with hlt | rfl
  · have hsound : (execute c i (o + 1) m.ticked).Sound _ _ := execute_sound hop htakes
    rw [← hstep, hsucc] at hsound
    have hlimits := step_sameLimits c o m
    cases hx : step c o m with
    | next o' m' =>
        rw [hx] at hsound
        obtain rfl := List.mem_singleton.mp hsound.1
        exact .inl ⟨hlt, m', rfl⟩
    | halt m' =>
        rw [hx] at hsound
        cases hsound.1
    | stop e m' =>
        rw [hx] at hsound hlimits
        refine .inr ⟨e, m', rfl, .earlier hlt hx ?_⟩
        rintro n rfl
        -- what the instruction leaves is within the capacity
        have hle := hk.1 (o + 1) hlt _ hnext
        have hover : m'.capacity < _ := hsound.2
        rw [hlimits.1] at hover
        exact absurd hle (Nat.not_le_of_lt hover)
  · obtain ⟨d, hd, hover⟩ := hk.2
    obtain rfl := Option.some.inj (hnext.symm.trans hd)
    have hroom := hk.1 o le_rfl _ ho
    rcases execute_overflows (m := m.ticked) (o + 1) hop htakes hroom hover with
      ⟨m', hx⟩ | ⟨x, hload, hn, hg, hx⟩
    · exact .inr ⟨_, m', hstep.trans hx, .overflow (hstep.trans hx)⟩
    · obtain ⟨op, n⟩ := i
      cases hload
      exact .inr ⟨_, _, hstep.trans hx, .undefined hi hn hg (hstep.trans hx)⟩

theorem runFrom_fallsShort (h : p.compile = .ok c) {capacity limit k : Nat}
    (hstraight : ∀ o ≤ k, ∀ i, c.code[o]? = some i → i.isStraight = true)
    (hk : Exceeds p.layout capacity k) : ∀ remaining o m, p.FollowsLayout o m →
    m.capacity = capacity → m.maxInstructions = limit → o + remaining = limit → o ≤ k →
    ∃ o' m', (visited c remaining o m).getLast? = some (o', m') ∧
      FallsShort c capacity limit k o' m' (runFrom c remaining o m)
  | 0, o, m, _, _, hlimit, hcount, hok => by
      obtain rfl : o = limit := hcount
      refine ⟨o, m, rfl, ?_⟩
      rw [runFrom, hlimit]
      exact .cut hok
  | remaining + 1, o, m, ho, hcap, hlimit, hcount, hok => by
      -- without a jump up to `k` the offset counts the steps that were taken
      subst hcap
      have hlimits := step_sameLimits c o m
      have hfollows := step_follows_layout h ho
      rcases step_fallsShort h limit (hstraight o hok) hk hok ho with
        ⟨hlt, m', hx⟩ | ⟨e, m', hx, hshort⟩
      · rw [hx] at hlimits hfollows
        obtain ⟨o', m'', hlast, hshort⟩ := runFrom_fallsShort h hstraight hk remaining (o + 1) m'
          hfollows hlimits.1 (hlimits.2.trans hlimit) (by omega) hlt
        refine ⟨o', m'', ?_, ?_⟩
        · rw [visited, hx, List.getLast?_cons, hlast]
          rfl
        · rw [runFrom_succ, hx]
          exact hshort
      · refine ⟨o, m, ?_, ?_⟩
        · rw [visited, hx]
          rfl
        · rw [runFrom_succ, hx]
          exact hshort

end Machine

/-! ## One expression -/

mutual

theorem ExprCode.isStraight : ∀ {pool : Nat} {e : Expr} {f : Fragment}, ExprCode pool e f →
    ∀ i ∈ f.code, i.isStraight = true
  | _, _, _, .number, i, hi | _, _, _, .text, i, hi | _, _, _, .name, i, hi => by
      obtain rfl := Array.mem_singleton.mp hi
      rfl
  | _, _, _, .bool (b := b), i, hi => by
      obtain rfl := Array.mem_singleton.mp hi
      cases b <;> rfl
  | _, _, _, .binary hop hl hr, i, hi => by
      simp only [Fragment.code_append, Array.mem_append] at hi
      rcases hi with (hi | hi) | hi
      · exact hl.isStraight i hi
      · exact hr.isStraight i hi
      · obtain rfl := Array.mem_singleton.mp hi
        exact (Instr.ofBinary_effect {} hop 0).2.2.1
  | _, _, _, .unary he, i, hi => by
      simp only [Fragment.code_append, Array.mem_append] at hi
      rcases hi with hi | hi
      · exact he.isStraight i hi
      · obtain rfl := Array.mem_singleton.mp hi
        exact (Instr.ofUnary_effect {} _ 0).2.2.1
  | _, _, _, .print ha, i, hi => by
      simp only [Fragment.code_append, Array.mem_append] at hi
      rcases hi with (hi | hi) | hi
      · exact ha.isStraight i hi
      · obtain rfl := Array.mem_singleton.mp hi
        rfl
      · obtain rfl := Array.mem_singleton.mp hi
        rfl
  | _, _, _, .array ha, i, hi => by
      simp only [Fragment.code_append, Array.mem_append] at hi
      rcases hi with hi | hi
      · exact ha.isStraight i hi
      · obtain rfl := Array.mem_singleton.mp hi
        rfl
  | _, _, _, .index ht hk, i, hi => by
      simp only [Fragment.code_append, Array.mem_append] at hi
      rcases hi with (hi | hi) | hi
      · exact ht.isStraight i hi
      · exact hk.isStraight i hi
      · obtain rfl := Array.mem_singleton.mp hi
        rfl

theorem ExprsCode.isStraight : ∀ {pool : Nat} {es : List Expr} {f : Fragment},
    ExprsCode pool es f → ∀ i ∈ f.code, i.isStraight = true
  | _, _, _, .nil, i, hi => absurd hi (Array.not_mem_empty i)
  | _, _, _, .cons he hes, i, hi => by
      simp only [Fragment.code_append, Array.mem_append] at hi
      rcases hi with hi | hi
      · exact he.isStraight i hi
      · exact hes.isStraight i hi

end

namespace Program

variable {p : Program} {c : Chunk} {place : Place} {e : Expr}

/-- Only the halt of a single expression is not straight. -/
theorem isStraight_single (h : p.compile = .ok c) (hp : p.stmts = [.expr place e]) {o : Nat}
    {i : Instr} (hi : c.code[o]? = some i) (ho : o + 1 < c.code.size) : i.isStraight = true := by
  obtain ⟨f, hb, -, hcode⟩ := compile_ok h
  rw [hp] at hb
  obtain ⟨a, b, ha, hnil, rfl⟩ := Compiler.block_cons_ok hb
  obtain ⟨a', ha', rfl⟩ := Compiler.stmt_expr_ok ha
  cases hnil
  rw [hcode, Array.size_push] at ho
  have hlt : o < (a' ++ Fragment.emit .pop ++ {}).code.size := Nat.lt_of_succ_lt_succ ho
  rw [hcode, Array.getElem?_push_lt hlt, ← Array.getElem?_eq_getElem hlt] at hi
  have hmem := Array.mem_of_getElem? hi
  simp only [Fragment.code_append, Array.mem_append] at hmem
  rcases hmem with (hmem | hmem) | hmem
  · exact (Compiler.exprCode ha').isStraight i hmem
  · obtain rfl := Array.mem_singleton.mp hmem
    rfl
  · exact absurd hmem (Array.not_mem_empty i)

/-- A capacity below the need is exceeded somewhere, and not behind the halt. -/
theorem exists_exceeds (h : p.compile = .ok c) {capacity : Nat} (hneed : capacity < p.need) :
    ∃ k, Machine.Exceeds p.layout capacity k ∧ k + 2 < c.code.size := by
  rw [← peak_layout h] at hneed
  obtain ⟨j, d, hj, hd, hbelow⟩ := exists_first_above hneed
  obtain ⟨hlen, -, hlast⟩ := settled h
  have hstart : p.layout[0]? = some 0 :=
    followsLayout_start h (m := { capacity := 0, maxInstructions := 0 }) rfl
  cases j with
  | zero =>
      cases hj.symm.trans hstart
      exact absurd hd (Nat.not_lt_zero _)
  | succ k =>
      refine ⟨k, ⟨fun j hjk => hbelow j (by omega), d, hj, hd⟩, ?_⟩
      have hlt : k + 1 < c.code.size := hlen ▸ (List.getElem?_eq_some_iff.mp hj).1
      by_contra hge
      cases hj.symm.trans (hlast (k + 1) (by omega))
      exact absurd hd (Nat.not_lt_zero _)

end Program

/-- In the run of a compiled program, on a machine in any state, the stack is never deeper than
the program needs, so with room for that much it never overflows. If there is less room and
the program is a single expression, the run always fails, at the latest with the first
instruction that leaves more than there is room for: this one overflows the stack, or
loads a name that is not there. -/
theorem Machine.run_within_need {p : Program} {c : Chunk} (h : p.compile = .ok c) (m : Machine) :
    (∀ x ∈ m.trail c, x.2.stack.length ≤ p.need) ∧ (m.run c).2.stack.length ≤ p.need ∧
      (p.need ≤ m.capacity → ∀ limit, (m.run c).1 ≠ .error (.stackOverflow limit)) ∧
      ∀ place e, p.stmts = [.expr place e] → m.capacity < p.need →
        ∃ k, Exceeds p.layout m.capacity k ∧
          ∃ o m', (m.trail c).getLast? = some (o, m') ∧
            FallsShort c m.capacity m.maxInstructions k o m' (m.run c) := by
  have hstart : p.FollowsLayout 0 { m with stack := [], executed := 0 } :=
    Program.followsLayout_start h rfl
  have hlimit (o : Nat) (m' : Machine) (hm' : p.FollowsLayout o m' ∧ m'.capacity = m.capacity) :
      EndsWithin p m.capacity (.error (.instructionLimit m'.maxInstructions)) m' :=
    ⟨hm'.1.le_need h, fun limit he => by cases he⟩
  obtain ⟨⟨hend, hover⟩, htrail⟩ :=
    run_induction hlimit (fun _ _ => step_within_need h) m.maxInstructions 0 _ ⟨hstart, rfl⟩
  refine ⟨fun x hx => (htrail x hx).1.le_need h, hend, ?_, ?_⟩
  · intro hroom limit he
    exact absurd (hover limit he) (Nat.not_lt_of_le hroom)
  · intro place e hp hneed
    obtain ⟨k, hk, hlast⟩ := Program.exists_exceeds h hneed
    refine ⟨k, hk, runFrom_fallsShort h ?_ hk m.maxInstructions 0 _ hstart rfl rfl
      (Nat.zero_add _) (Nat.zero_le k)⟩
    intro o ho i hi
    exact Program.isStraight_single h hp hi (by omega)

/-- A sum whose right operand is a sum. -/
def rightSum : Program :=
  ⟨[.expr default (.binary default (.number default 1.0) .add
    (.binary default (.number default 2.0) .add (.number default 3.0)))]⟩

theorem Machine.rightSum_within_need :
    let wide : Machine := { capacity := 3, maxInstructions := 100 }
    let narrow : Machine := { capacity := 2, maxInstructions := 100 }
    rightSum.compile = .ok rightSum.chunk ∧ rightSum.need = 3 ∧
      (∀ x ∈ wide.trail rightSum.chunk, x.2.stack.length ≤ 3) ∧
      (∀ limit, (wide.run rightSum.chunk).1 ≠ .error (.stackOverflow limit)) ∧
      ∃ k, Exceeds rightSum.layout 2 k ∧
        ∃ o m', (narrow.trail rightSum.chunk).getLast? = some (o, m') ∧
          FallsShort rightSum.chunk 2 100 k o m' (narrow.run rightSum.chunk) := by
  intro wide narrow
  have hc : rightSum.compile = .ok rightSum.chunk := Program.compile_eq_chunk (by decide +kernel)
  have hneed : rightSum.need = 3 := by decide +kernel
  obtain ⟨hdepth, -, hroom, -⟩ := Machine.run_within_need hc wide
  obtain ⟨-, -, -, hshort⟩ := Machine.run_within_need hc narrow
  exact ⟨hc, hneed, hneed ▸ hdepth, hroom (by decide +kernel),
    hshort _ _ rfl (by decide +kernel)⟩

/-- A number and a name in an array. -/
def pairWithName : Program :=
  ⟨[.expr default (.array default [.number default 1.0, .name default "x"])]⟩

/-- With room for one value the first instruction that would overflow is the load of the name;
nothing fails before it, but it fails for the name and not for the room. -/
theorem Machine.pairWithName_undefined :
    let m : Machine := { capacity := 1, maxInstructions := 100 }
    pairWithName.compile = .ok pairWithName.chunk ∧ pairWithName.need = 2 ∧
      pairWithName.layout = [0, 1, 2, 1, 0] ∧
      (m.trail pairWithName.chunk).map (·.1) = [0, 1] ∧
      (m.run pairWithName.chunk).1 = .error (.undefinedVariable "x") := by
  exact ⟨Program.compile_eq_chunk (by decide +kernel), by decide +kernel, by decide +kernel,
    by decide +kernel, by decide +kernel⟩

end ScriptLang
