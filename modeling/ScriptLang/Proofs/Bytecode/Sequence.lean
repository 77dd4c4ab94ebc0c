import Mathlib
import ScriptLang.Proofs.Bytecode.Balance
import ScriptLang.Proofs.Bytecode.Ceiling
import ScriptLang.Proofs.Bytecode.Relocation

/-!
# One program after another

To run the code of a program and then, on the same machine, that of another is to run
the code of the two in a row: the machine goes through the first part as it would alone,
only that it does not halt there, and through the second as if it stood at the start
(`Machine.run_andThen`). The one halt that it does not meet is the one instruction less
that it counts.
-/

namespace ScriptLang

/-- An operand that means something in a chunk means the same in a larger one, moved along. -/
theorem Instr.OperandFits.alike {chunk chunk' : Chunk} {offset shift : Nat} {i : Instr}
    (h : i.OperandFits chunk) (hsize : chunk.code.size + offset ≤ chunk'.code.size)
    (hconst : ∀ n v, chunk.constant? n = some v → chunk'.constant? (n + shift) = some v) :
    i.Alike chunk chunk' (· + offset) (i.moved offset shift) := by
  have htarget {n : Int} (h : 0 ≤ n ∧ n.toNat < chunk.code.size) :
      Machine.target? chunk' (n + offset) = (Machine.target? chunk n).map (· + offset) := by
    have hn : (n + offset).toNat = n.toNat + offset := by omega
    rw [Machine.target?, Machine.target?, if_neg (by omega), if_neg (by omega), hn]
    rfl
  have hname {n : Int} {x : String} (h : chunk.constant? n = some (.text x)) :
      Machine.variableName? chunk' (n + shift) = Machine.variableName? chunk n := by
    rw [Machine.variableName?, Machine.variableName?, h, hconst n _ h]
  obtain ⟨op, n⟩ := i
  refine ⟨rfl, ?_⟩
  cases op
  case loadConst =>
    obtain ⟨v, hv⟩ := h
    have hv' : chunk.constant? n = some v := hv
    exact ⟨(hconst n v hv').trans hv'.symm, fun hnone => by cases hv.symm.trans hnone⟩
  case loadVar =>
    obtain ⟨x, hx⟩ := h
    exact hname hx
  case storeVar =>
    obtain ⟨x, hx⟩ := h
    exact hname hx
  case jump => exact htarget h
  case jumpIfFalse => exact htarget h
  -- the other operands mean the same in every chunk and do not move
  all_goals exact Int.add_zero n

namespace Machine

variable {p : Program} {f g : Fragment}

/-! ## The two parts -/

theorem step_moved {c c' : Chunk} {offset shift limit extra o : Nat} {m : Machine}
    (hc : p.compile = .ok c) (hsize : c.code.size + offset ≤ c'.code.size)
    (hconst : ∀ n v, c.constant? n = some v → c'.constant? (n + shift) = some v)
    (hcode : ∀ i, c.code[o]? = some i → c'.code[o + offset]? = some (i.moved offset shift))
    (ho : p.FollowsLayout o m) :
    step c' (o + offset) (m.recount limit extra) =
      (step c o m).map (· + offset) (recount limit extra) := by
  obtain ⟨hlen, hset, -⟩ := Program.settled hc
  have hlt : o < c.code.size := hlen ▸ (List.getElem?_eq_some_iff.mp ho).1
  obtain ⟨i, d, hi, -, hop, -⟩ := hset o (Nat.zero_le o) (by omega)
  exact step_alike (· + offset) hi (hcode i hi) (hop.alike hsize hconst)
    (Nat.add_right_comm o 1 offset) m

theorem followsLayout_next {c : Chunk} (hc : p.compile = .ok c) {o o' : Nat} {m m' : Machine}
    (ho : p.FollowsLayout o m) (hs : step c o m = .next o' m') : p.FollowsLayout o' m' := by
  have h := step_follows_layout hc ho
  rw [hs] at h
  exact h

/-- The code of a program halts where it ends. -/
theorem step_halt (hc : p.compile = .ok f.closed) {o : Nat} {m m' : Machine}
    (ho : p.FollowsLayout o m) (hs : step f.closed o m = .halt m') : o = f.code.size := by
  obtain ⟨hlen, hset, -⟩ := Program.settled hc
  have hlt : o < f.closed.code.size := hlen ▸ (List.getElem?_eq_some_iff.mp ho).1
  obtain ⟨i, d, hi, hd, hop, htakes, -, hhalts⟩ := hset o (Nat.zero_le o) (by omega)
  obtain rfl : m.stack.length = d := Option.some.inj (ho.symm.trans hd)
  have hsound : (execute f.closed i (o + 1) m.ticked).Sound _ _ := execute_sound hop htakes
  rw [step_of_getElem? hi] at hs
  rw [hs] at hsound
  have hlast := (hhalts (Instr.op_eq_halt hsound.1)).2
  rw [Fragment.closed, Array.size_push] at hlast
  omega

theorem step_closed (f : Fragment) (m : Machine) :
    step f.closed f.code.size m = .halt m.ticked := by
  have hi : f.closed.code[f.code.size]? = some ⟨.halt, 0⟩ := Array.getElem?_push_size
  rw [step_of_getElem? hi]
  rfl

/-- Up to its halt the first part goes as it does alone. -/
theorem step_front (hp : p.compile = .ok f.closed) (g : Fragment) (limit : Nat) {o : Nat}
    {m : Machine} (ho : p.FollowsLayout o m) (hne : o ≠ f.code.size) :
    step (f ++ g).closed o (m.recount limit 0) =
      (step f.closed o m).map id (recount limit 0) := by
  have hsize : f.closed.code.size + 0 ≤ (f ++ g).closed.code.size := by
    simp [Fragment.closed]
  have hconst (n : Int) (v : Value) (hv : f.closed.constant? n = some v) :
      (f ++ g).closed.constant? (n + (0 : Nat)) = some v := by
    rw [Nat.cast_zero, Int.add_zero]
    exact Fragment.constant?_closed_front hv
  have hcode (i : Instr) (hi : f.closed.code[o]? = some i) :
      (f ++ g).closed.code[o + 0]? = some (i.moved 0 0) := by
    rw [Instr.moved_zero]
    exact Fragment.getElem?_closed_front hi hne
  exact step_moved hp hsize hconst hcode ho

/-- The second part goes as it does alone, further on. -/
theorem step_back {q : Program} (hq : q.compile = .ok g.closed) (f : Fragment)
    (limit extra : Nat) {o : Nat} {m : Machine} (ho : q.FollowsLayout o m) :
    step (f ++ g.moved f.code.size f.constants.size).closed (o + f.code.size)
        (m.recount limit extra) =
      (step g.closed o m).map (· + f.code.size) (recount limit extra) := by
  have hsize : g.closed.code.size + f.code.size ≤
      (f ++ g.moved f.code.size f.constants.size).closed.code.size := by
    rw [Fragment.code_closed_moved, Array.size_append, Array.size_map, Nat.add_comm]
  exact step_moved hq hsize (fun n v => Fragment.constant?_closed_back)
    (fun i => Fragment.getElem?_closed_back) ho

/-- A run that fails in the first part alone fails so in the whole. -/
theorem runFrom_front_error (hp : p.compile = .ok f.closed) (g : Fragment) (limit : Nat)
    {n : Nat} {m m₁ : Machine} {e : MachineError} (hm : p.FollowsLayout 0 m)
    (hrun : runFrom f.closed n 0 m = (.error e, m₁)) (he : ¬Interrupted (.error e)) :
    ∀ n', n ≤ n' →
      runFrom (f ++ g).closed n' 0 (m.recount limit 0) = (.error e, m₁.recount limit 0) := by
  -- such a run never comes to the halt
  let P (o : Nat) (m : Machine) : Prop :=
    p.FollowsLayout o m ∧ ∃ n, runFrom f.closed n o m = (.error e, m₁)
  have halike (o : Nat) (m : Machine) (hP : P o m) :
      step (f ++ g).closed (id o) (m.recount limit 0) =
        (step f.closed o m).map id (recount limit 0) := by
    obtain ⟨ho, n, hn⟩ := hP
    refine step_front hp g limit ho ?_
    rintro rfl
    cases n with
    | zero =>
        cases hn
        exact he ⟨_, rfl⟩
    | succ n =>
        rw [runFrom_succ, step_closed] at hn
        cases hn
  have hkeep (o : Nat) (m : Machine) (hP : P o m) (o' : Nat) (m' : Machine)
      (hs : step f.closed o m = .next o' m') : P o' m' := by
    obtain ⟨ho, n, hn⟩ := hP
    refine ⟨followsLayout_next hp ho hs, ?_⟩
    cases n with
    | zero =>
        cases hn
        exact absurd ⟨_, rfl⟩ he
    | succ n =>
        rw [runFrom_succ, hs] at hn
        exact ⟨n, hn⟩
  intro n' hn'
  have hends := runFrom_lockstep id limit 0 halike hkeep n 0 m ⟨hm, n, hrun⟩ (by rwa [hrun]) n'
    (Or.inl hn')
  rw [hrun] at hends
  exact hends

/-- A run that succeeds in the first part alone comes to its end in the whole, with one
instruction less counted. -/
theorem runFrom_front_ok (hp : p.compile = .ok f.closed) (g : Fragment) (limit : Nat) :
    ∀ {n o : Nat} {m m₁ : Machine}, p.FollowsLayout o m →
      runFrom f.closed n o m = (.ok (), m₁) →
      ∃ m₀ : Machine, m₁ = m₀.ticked ∧ p.FollowsLayout f.code.size m₀ ∧
        m.executed ≤ m₀.executed ∧
        ∀ k, runFrom (f ++ g).closed (k + (m₀.executed - m.executed)) o (m.recount limit 0) =
          runFrom (f ++ g).closed k f.code.size (m₀.recount limit 0) := by
  intro n
  induction n with
  | zero =>
      intro o m m₁ _ hrun
      cases hrun
  | succ n ih =>
      intro o m m₁ ho hrun
      rw [runFrom_succ] at hrun
      -- at the halt of the first part the whole goes on with the second; before it the steps agree
      by_cases hend : o = f.code.size
      · subst hend
        rw [step_closed] at hrun
        cases hrun
        refine ⟨m, rfl, ho, le_rfl, fun k => ?_⟩
        rw [Nat.sub_self, Nat.add_zero]
      · have hfront := step_front hp g limit ho hend
        have hcounts := step_counts f.closed o m
        cases hs : step f.closed o m with
        | halt m' => exact absurd (step_halt hp ho hs) hend
        | stop e m' =>
            rw [hs] at hrun
            cases hrun
        | next o' m' =>
            rw [hs] at hrun hfront hcounts
            have hexecuted : m'.executed = m.executed + 1 := hcounts.executed
            obtain ⟨m₀, hm₁, hm₀, hle, hgo⟩ := ih (followsLayout_next hp ho hs) hrun
            refine ⟨m₀, hm₁, hm₀, by omega, fun k => ?_⟩
            have hspent : k + (m₀.executed - m.executed) = k + (m₀.executed - m'.executed) + 1 := by
              omega
            rw [hspent, runFrom_succ, hfront]
            exact hgo k

/-- At the end of the first part a run in the whole goes on as the second part does. -/
theorem runFrom_back {q : Program} (hq : q.compile = .ok g.closed) (f : Fragment)
    (limit extra : Nat) {n : Nat} {m m₂ : Machine} {r : Except MachineError Unit}
    (hm : q.FollowsLayout 0 m) (hrun : runFrom g.closed n 0 m = (r, m₂)) (hr : ¬Interrupted r) :
    ∀ n', m₂.executed < m.executed + n' →
      runFrom (f ++ g.moved f.code.size f.constants.size).closed n' f.code.size
        (m.recount limit extra) = (r, m₂.recount limit extra) := by
  intro n' hn'
  have hends := runFrom_lockstep (· + f.code.size) limit extra
    (fun o m ho => step_back hq f limit extra ho)
    (fun o m ho o' m' hs => followsLayout_next hq ho hs) n 0 m hm (by rwa [hrun]) n'
    (Or.inr (by rwa [hrun]))
  rw [hrun, Nat.zero_add] at hends
  exact hends

theorem stack_of_followsLayout (hp : p.compile = .ok f.closed) {m : Machine}
    (hm : p.FollowsLayout f.code.size m) : m.stack = [] := by
  obtain ⟨-, -, hlast⟩ := Program.settled hp
  have hzero := hlast f.code.size (Array.size_push _).symm
  exact List.length_eq_zero_iff.mp (Option.some.inj (hm.symm.trans hzero))

/-! ## The whole -/

/-- Let a machine run the code of one program and then that of another. If the first run
succeeds and the ceiling does not cut off the second, the code of both programs in a row ends as
the second run does, under every ceiling that is no lower than the instructions of both: with its
result, output, globals and stack, and one instruction less than both have taken. If the first
run fails of itself, the code of both ends as that does. -/
theorem run_andThen {p q : Program} {c d : Chunk} (hp : p.compile = .ok c)
    (hq : q.compile = .ok d) :
    ∃ cd, (p.andThen q).compile = .ok cd ∧ ∀ m : Machine,
      (∀ m₁ r m₂, m.run c = (.ok (), m₁) → m₁.run d = (r, m₂) → ¬Interrupted r →
        1 ≤ m₁.executed ∧ ∀ limit, m₁.executed + m₂.executed ≤ limit →
          (m.limited limit).run cd =
            (r, { m₂ with
              maxInstructions := limit
              executed := m₁.executed - 1 + m₂.executed })) ∧
      ∀ e m₁, m.run c = (.error e, m₁) → ¬Interrupted (.error e) →
        ∀ limit, m.maxInstructions ≤ limit →
          (m.limited limit).run cd = (.error e, m₁.limited limit) := by
  obtain ⟨f, hf, rfl⟩ := Program.compile_eq_ok.mp hp
  obtain ⟨g, hg, rfl⟩ := Program.compile_eq_ok.mp hq
  refine ⟨_, Program.compile_andThen hf hg, fun m => ⟨?_, ?_⟩⟩
  · intro m₁ r m₂ hrun₁ hrun₂ hr
    refine ⟨?_, fun limit hlimit => ?_⟩
    · obtain ⟨m₀, rfl, -⟩ := runFrom_front_ok hp {} 0 (Program.followsLayout_start hp rfl) hrun₁
      exact Nat.le_add_left 1 _
    · obtain ⟨m₀, rfl, hm₀, -, hgo⟩ := runFrom_front_ok hp
        (g.moved f.code.size f.constants.size) limit (Program.followsLayout_start hp rfl) hrun₁
      have hcount : m₀.ticked.executed = m₀.executed + 1 := rfl
      -- the second run starts with an empty stack, and the first has left none
      have hmeet : m₀.recount limit 0 =
          recount limit m₀.executed { m₀.ticked with stack := [], executed := 0 } := by
        rw [recount, recount, Nat.zero_add, stack_of_followsLayout hp hm₀]
        rfl
      have hback := runFrom_back hq f limit m₀.executed (Program.followsLayout_start hq rfl) hrun₂ hr
        (limit - m₀.executed) (by dsimp only; omega)
      rw [← hmeet, ← hgo] at hback
      have htotal : limit - m₀.executed + (m₀.executed - 0) = limit := by omega
      calc (m.limited limit).run _
          = runFrom _ (limit - m₀.executed + (m₀.executed - 0)) 0
              (recount limit 0 { m with stack := [], executed := 0 }) := by rw [htotal]; rfl
        _ = (r, m₂.recount limit m₀.executed) := hback
        _ = _ := by rw [recount, Nat.add_comm]; rfl
  · intro e m₁ hrun he limit hlimit
    exact runFrom_front_error hp _ limit (Program.followsLayout_start hp rfl) hrun he limit hlimit

/-- A loop over an array, with a condition around the printing of its item. -/
def printEach : Program :=
  ⟨[.forEach default "x" (.array default [.number default 1.0, .number default 2.0])
    [.choose default (.name default "x")
      [.expr default (.call default "print" [.name default "x"])] none]
    false]⟩

/-- A loop that ends with a division by zero. -/
def divideDown : Program :=
  ⟨[.loop default (.bool default true)
    [.bind default "x" (.binary default (.name default "x") .sub (.number default 1.0)),
      .expr default (.call default "print"
        [.binary default (.number default 1.0) .div (.name default "x")])]]⟩

/-- The second of two programs fails, and in the other order the first. -/
theorem printEach_andThen_divideDown :
    let m : Machine := { capacity := 4, maxInstructions := 100, stack := [.null] }
    let m₁ := (m.run printEach.chunk).2
    let m₂ := (m₁.run divideDown.chunk).2
    (∃ cd, (printEach.andThen divideDown).compile = .ok cd ∧
      (m.limited 90).run cd =
        (.error (.zeroDivision .quotient), { m₂ with
          maxInstructions := 90
          executed := m₁.executed - 1 + m₂.executed })) ∧
      m₂.output.text = "1\n2\n1\n" ∧
      ∃ dc, (divideDown.andThen printEach).compile = .ok dc ∧
        (m.limited 100).run dc =
          (.error (.undefinedVariable "x"), (m.run divideDown.chunk).2.limited 100) := by
  intro m m₁ m₂
  have hp : printEach.compile = .ok printEach.chunk :=
    Program.compile_eq_chunk (by decide +kernel)
  have hq : divideDown.compile = .ok divideDown.chunk :=
    Program.compile_eq_chunk (by decide +kernel)
  have hpair {m : Machine} {c : Chunk} {r : Except MachineError Unit} (h : (m.run c).1 = r) :
      m.run c = (r, (m.run c).2) := h ▸ rfl
  have hrun₁ : (m.run printEach.chunk).1 = .ok () := by decide +kernel
  have hrun₂ : (m₁.run divideDown.chunk).1 = .error (.zeroDivision .quotient) := by
    decide +kernel
  have hrun₃ : (m.run divideDown.chunk).1 = .error (.undefinedVariable "x") := by decide +kernel
  have hnot {e : MachineError} (he : e.isLimit = false) : ¬Interrupted (.error e) := by
    rintro ⟨k, hk⟩
    cases hk
    cases he
  obtain ⟨cd, hcd, hboth⟩ := run_andThen hp hq
  obtain ⟨dc, hdc, hfirst⟩ := run_andThen hq hp
  refine ⟨⟨cd, hcd, ?_⟩, by decide +kernel, dc, hdc, ?_⟩
  · exact ((hboth m).1 m₁ _ m₂ (hpair hrun₁) (hpair hrun₂) (hnot rfl)).2 90 (by decide +kernel)
  · exact (hfirst m).2 _ _ (hpair hrun₃) (hnot rfl) 100 le_rfl

end Machine

end ScriptLang
