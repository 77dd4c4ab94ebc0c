import Mathlib
import ScriptLang.Proofs.Bindings
import ScriptLang.Proofs.Bytecode.Change

/-!
# What a machine holds, whatever it runs

Chunks are run one after another on one machine. Nothing is asked of them: operands may
be negative, constants missing and jumps wild. At every point the stack is within its
capacity, the global names are distinct, and names that were global before stand in
front of those that came later (`run_within_resources`). A run that stops with an error
has done nothing to the globals and the output in its last instruction, unless it was
the output that failed.
-/

namespace ScriptLang

/-- The output did not take a line. -/
def MachineError.isOutput : MachineError → Bool
  | .output _ => true
  | _ => false

namespace Machine

variable {chunk : Chunk} {m m' m'' : Machine}

/-! ## One step -/

/-- The stack is within the capacity, and the global names are distinct. -/
structure Within (capacity : Nat) (m : Machine) : Prop where
  capacity_eq : m.capacity = capacity
  stack_le : m.stack.length ≤ m.capacity
  nodup_globals : m.globals.names.Nodup

/-- The global names of the one machine come first among those of the other, in their order. -/
def NamesGrow (m m' : Machine) : Prop := m.globals.names <+: m'.globals.names

theorem NamesGrow.refl (m : Machine) : m.NamesGrow m := List.prefix_rfl

theorem NamesGrow.trans (h : m.NamesGrow m') (h' : m'.NamesGrow m'') : m.NamesGrow m'' :=
  List.IsPrefix.trans h h'

theorem Change.stack_le (h : m.Change m') (hm : m.stack.length ≤ m.capacity) :
    m'.stack.length ≤ m'.capacity := by
  cases h with
  | stack values hlen => exact hlen.trans (max_le le_rfl hm)
  | bind name v => exact hm
  | print values line hlen => exact hlen.trans hm

theorem Change.within {capacity : Nat} (h : m.Change m') (hm : m.Within capacity) :
    m'.Within capacity := by
  obtain ⟨hcap, hstack, hnames⟩ := hm
  have hle := h.stack_le hstack
  cases h with
  | stack values _ => exact ⟨hcap, hle, hnames⟩
  | bind name v => exact ⟨hcap, hle, Bindings.nodup_names_set hnames name v⟩
  | print values line _ => exact ⟨hcap, hle, hnames⟩

theorem Change.namesGrow (h : m.Change m') : m.NamesGrow m' := by
  cases h with
  | stack values _ => exact .refl m
  | bind name v => exact Bindings.names_prefix_set name v m.globals
  | print values line _ => exact .refl m

/-- An error that is not one of the output comes before anything is bound or printed. -/
theorem Stops.untouched {e : MachineError} (h : m.Stops e m') (he : e.isOutput = false) :
    m'.globals = m.globals ∧ m'.output = m.output := by
  cases h with
  | cut h _ =>
      obtain ⟨values, -, rfl⟩ := h
      exact ⟨rfl, rfl⟩
  | refused values line _ => cases he

/-- What a step off the code or of an instruction does, apart from the count. -/
theorem step_changes (chunk : Chunk) (offset : Nat) (m : Machine) :
    step chunk offset m = .stop (.offsetOutOfBounds offset chunk.code.size) m ∨
      (step chunk offset m).Leaves m.ticked := by
  cases hi : chunk.code[offset]? with
  | none =>
      left
      rw [step, hi]
  | some i =>
      right
      rw [step_of_getElem? hi]
      exact execute_changes chunk i (offset + 1) m.ticked

/-- Every machine that a step leads to or leaves behind is one that an instruction can make. -/
theorem step_leads (chunk : Chunk) (offset : Nat) {R : Machine → Prop} (hself : R m)
    (hchange : ∀ m', m.ticked.Change m' → R m') :
    (step chunk offset m).Leads (fun _ => R) (fun _ => R) := by
  rcases step_changes chunk offset m with hoff | hleaves
  · rw [hoff]
    exact hself
  · cases hs : step chunk offset m with
    | next o' m' =>
        rw [hs] at hleaves
        exact hchange m' hleaves
    | halt m' =>
        rw [hs] at hleaves
        exact hchange m' hleaves
    | stop e m' =>
        rw [hs] at hleaves
        exact hchange m' hleaves.change

theorem Within.step_leads {capacity : Nat} (h : m.Within capacity) (chunk : Chunk)
    (offset : Nat) :
    (step chunk offset m).Leads (fun _ => Within capacity) (fun _ => Within capacity) := by
  have hticked : m.ticked.Within capacity := ⟨h.capacity_eq, h.stack_le, h.nodup_globals⟩
  exact Machine.step_leads chunk offset h fun m' hm' => hm'.within hticked

theorem namesGrow_step_leads (chunk : Chunk) (offset : Nat) (m : Machine) :
    (step chunk offset m).Leads (fun _ => m.NamesGrow) (fun _ => m.NamesGrow) :=
  step_leads chunk offset (.refl m) fun _ hm' => hm'.namesGrow

/-! ## One run -/

/-- The machines that a run passes through: before each of its steps, and behind the last one. -/
def passes (chunk : Chunk) (remaining offset : Nat) (m : Machine) : List Machine :=
  (visited chunk remaining offset m).map (·.2) ++ [(runFrom chunk remaining offset m).2]

theorem passes_succ (chunk : Chunk) (remaining offset : Nat) (m : Machine) :
    passes chunk (remaining + 1) offset m =
      m :: match step chunk offset m with
        | .next offset m => passes chunk remaining offset m
        | .halt m => [m]
        | .stop _ m => [m] := by
  rw [passes, visited, runFrom_succ]
  cases step chunk offset m <;> rfl

theorem passes_namesGrow (chunk : Chunk) : ∀ remaining offset (m : Machine),
    (∀ m' ∈ passes chunk remaining offset m, m.NamesGrow m') ∧
      (passes chunk remaining offset m).Pairwise NamesGrow := by
  intro remaining
  induction remaining with
  | zero =>
      intro offset m
      -- a run without steps passes through one machine, which it also leaves
      have hpasses : passes chunk 0 offset m = [m, m] := rfl
      rw [hpasses]
      simp [NamesGrow.refl]
  | succ remaining ih =>
      intro offset m
      have hstep := namesGrow_step_leads chunk offset m
      rw [passes_succ]
      cases hs : step chunk offset m with
      | next o' m' =>
          rw [hs] at hstep
          obtain ⟨hall, hpairs⟩ := ih o' m'
          have hlater : ∀ m'' ∈ passes chunk remaining o' m', m.NamesGrow m'' :=
            fun m'' hm'' => NamesGrow.trans hstep (hall m'' hm'')
          exact ⟨List.forall_mem_cons.mpr ⟨.refl m, hlater⟩,
            List.pairwise_cons.mpr ⟨hlater, hpairs⟩⟩
      | halt m' =>
          rw [hs] at hstep
          have hend : m.NamesGrow m' := hstep
          simp [NamesGrow.refl, hend]
      | stop e m' =>
          rw [hs] at hstep
          have hend : m.NamesGrow m' := hstep
          simp [NamesGrow.refl, hend]

theorem passes_within {capacity : Nat} (chunk : Chunk) (remaining offset : Nat)
    (hm : m.Within capacity) : ∀ m' ∈ passes chunk remaining offset m, m'.Within capacity := by
  obtain ⟨hend, hvisited⟩ := @run_induction chunk (fun _ => Within capacity)
    (fun _ => Within capacity) (fun _ _ h => h) (fun o _ h => h.step_leads chunk o)
    remaining offset m hm
  intro m' hm'
  rcases List.mem_append.mp hm' with hm' | hm'
  · obtain ⟨c, hc, rfl⟩ := List.mem_map.mp hm'
    exact hvisited c hc
  · rw [List.mem_singleton.mp hm']
    exact hend

/-- A run that ends with an error, but not one of the output, has the globals and the output that
it had before its last step. -/
theorem runFrom_error_untouched (chunk : Chunk) : ∀ remaining offset (m : Machine) e m',
    runFrom chunk remaining offset m = (.error e, m') → e.isOutput = false →
    ∃ c, (visited chunk remaining offset m).getLast? = some c ∧
      m'.globals = c.2.globals ∧ m'.output = c.2.output := by
  intro remaining
  induction remaining with
  | zero =>
      intro offset m e m' hrun _
      cases hrun
      exact ⟨(offset, m), rfl, rfl, rfl⟩
  | succ remaining ih =>
      intro offset m e m' hrun he
      rw [runFrom_succ] at hrun
      rw [visited]
      cases hs : step chunk offset m with
      | next o' m₁ =>
          rw [hs] at hrun
          obtain ⟨c, hc, hkept⟩ := ih o' m₁ e m' hrun he
          refine ⟨c, ?_, hkept⟩
          dsimp only
          rw [List.getLast?_cons, hc]
          rfl
      | halt m₁ =>
          rw [hs] at hrun
          cases hrun
      | stop e₁ m₁ =>
          rw [hs] at hrun
          cases hrun
          refine ⟨(offset, m), rfl, ?_⟩
          -- a stop touches the output only if that is what has failed
          rcases step_changes chunk offset m with hoff | hleaves
          · rw [hs] at hoff
            cases hoff
            exact ⟨rfl, rfl⟩
          · rw [hs] at hleaves
            have hstops : m.ticked.Stops e m' := hleaves
            exact hstops.untouched he

/-! ## Runs one after another -/

/-- The points of a sequence of runs on one machine: before each run, at each of its steps, and
when all are done. -/
def points (m : Machine) : List Chunk → List Machine
  | [] => [m]
  | chunk :: chunks => m :: ((m.trail chunk).map (·.2) ++ points (m.run chunk).2 chunks)

/-- A run begins with an empty stack, and what it passes through are the machines of its trail and
the one that it leaves. -/
theorem mem_passes_of_mem_trail {c : Nat × Machine} (h : c ∈ m.trail chunk) :
    c.2 ∈ passes chunk m.maxInstructions 0 { m with stack := [], executed := 0 } :=
  List.mem_append_left _ (List.mem_map_of_mem h)

theorem within_run {capacity : Nat} (hm : m.Within capacity) (chunk : Chunk) :
    (∀ c ∈ m.trail chunk, c.2.Within capacity) ∧ (m.run chunk).2.Within capacity := by
  have hstart : ({ m with stack := [], executed := 0 } : Machine).Within capacity :=
    ⟨hm.capacity_eq, Nat.zero_le _, hm.nodup_globals⟩
  have hall := passes_within chunk m.maxInstructions 0 hstart
  exact ⟨fun c hc => hall c.2 (mem_passes_of_mem_trail hc),
    hall _ (List.mem_append_right _ (List.mem_singleton_self _))⟩

/-- Whatever a machine runs, its stack never outgrows the capacity. -/
theorem stack_le_of_mem_trail {c : Nat × Machine} (hc : c ∈ m.trail chunk) :
    c.2.stack.length ≤ c.2.capacity := by
  let R (m : Machine) : Prop := m.stack.length ≤ m.capacity
  have hstep (o : Nat) (m : Machine) (hm : R m) :
      (step chunk o m).Leads (fun _ => R) (fun _ => R) :=
    step_leads chunk o hm fun m' hm' => hm'.stack_le hm
  exact (@run_induction chunk (fun _ => R) (fun _ => R) (fun _ _ h => h) hstep _ 0 _
    (Nat.zero_le _)).2 c hc

theorem points_within {capacity : Nat} : ∀ (chunks : List Chunk) {m : Machine},
    m.Within capacity → ∀ m' ∈ m.points chunks, m'.Within capacity
  | [], m, hm, m', hm' => by
      rw [List.mem_singleton.mp hm']
      exact hm
  | chunk :: chunks, m, hm, m', hm' => by
      obtain ⟨htrail, hend⟩ := within_run hm chunk
      rw [points, List.mem_cons, List.mem_append, List.mem_map] at hm'
      rcases hm' with rfl | ⟨c, hc, rfl⟩ | hm'
      · exact hm
      · exact htrail c hc
      · exact points_within chunks hend m' hm'

/-- Names that are global at one point come first among those of every later point, over the ends
of runs too. -/
theorem points_namesGrow : ∀ (chunks : List Chunk) (m : Machine),
    (∀ m' ∈ m.points chunks, m.NamesGrow m') ∧ (m.points chunks).Pairwise NamesGrow
  | [], m => by simp [points, NamesGrow.refl]
  | chunk :: chunks, m => by
      obtain ⟨hpassed, hpairs⟩ := passes_namesGrow chunk m.maxInstructions 0
        { m with stack := [], executed := 0 }
      obtain ⟨hlater, hlaterPairs⟩ := points_namesGrow chunks (m.run chunk).2
      obtain ⟨htrailPairs, -, htoEnd⟩ := List.pairwise_append.mp hpairs
      have hend : m.NamesGrow (m.run chunk).2 :=
        hpassed _ (List.mem_append_right _ (List.mem_singleton_self _))
      have hall : ∀ m' ∈ (m.trail chunk).map (·.2) ++ (m.run chunk).2.points chunks,
          m.NamesGrow m' := by
        intro m' hm'
        rcases List.mem_append.mp hm' with hm' | hm'
        · exact hpassed m' (List.mem_append_left _ hm')
        · exact hend.trans (hlater m' hm')
      refine ⟨List.forall_mem_cons.mpr ⟨.refl m, hall⟩, List.pairwise_cons.mpr ⟨hall, ?_⟩⟩
      refine List.pairwise_append.mpr ⟨htrailPairs, hlaterPairs, fun a ha b hb => ?_⟩
      have hrest : a.NamesGrow (m.run chunk).2 := htoEnd a ha _ (List.mem_singleton_self _)
      exact hrest.trans (hlater b hb)

/-- Whatever chunks a new machine runs, at every point the stack is within the capacity, the
global names are distinct, and those of earlier points come first, in their order. A run of any
machine that stops with an error, but not one of the output, leaves the globals and the output
that there were before its last instruction. -/
theorem run_within_resources (settings : Settings) (output : Output) (chunks : List Chunk) :
    (∀ m ∈ (ofSettings settings output).points chunks,
      m.stack.length ≤ settings.stackCapacity ∧ m.globals.names.Nodup) ∧
    ((ofSettings settings output).points chunks).Pairwise
      (fun m m' => m.globals.names <+: m'.globals.names) ∧
    ∀ (m : Machine) chunk e m', m.run chunk = (.error e, m') → e.isOutput = false →
      ∃ c, (m.trail chunk).getLast? = some c ∧
        m'.globals = c.2.globals ∧ m'.output = c.2.output := by
  refine ⟨?_, (points_namesGrow chunks _).2, ?_⟩
  · intro m hm
    have hstart : (ofSettings settings output).Within settings.stackCapacity :=
      ⟨rfl, Nat.zero_le _, List.nodup_nil⟩
    have hwithin := points_within chunks hstart m hm
    exact ⟨hwithin.stack_le.trans_eq hwithin.capacity_eq, hwithin.nodup_globals⟩
  · intro m chunk e m' hrun he
    exact runFrom_error_untouched chunk m.maxInstructions 0 _ e m' hrun he

/-- Binds a name and then puts one value too many on a stack with room for one. -/
def overfull : Chunk :=
  { code := #[⟨.loadTrue, 0⟩, ⟨.storeVar, 0⟩, ⟨.dup, 0⟩], constants := #[.text "x"] }

/-- Binds the name again and another one, and then asks for a negative number of items. -/
def negativeCount : Chunk :=
  { code := #[⟨.loadNull, 0⟩, ⟨.storeVar, 1⟩, ⟨.storeVar, 0⟩, ⟨.buildArray, -1⟩],
    constants := #[.text "y", .text "x"] }

theorem overfull_within_resources :
    let m := ofSettings { stackCapacity := 1 } {}
    let r := m.run overfull
    let r' := r.2.run negativeCount
    r.1 = .error (.stackOverflow 1) ∧ r'.1 = .error (.stackUnderflow .buildArray) ∧
      (m.points [overfull, negativeCount]).length = 10 ∧
      (∀ m' ∈ m.points [overfull, negativeCount], m'.stack.length ≤ 1 ∧ m'.globals.names.Nodup) ∧
      r'.2.globals.names = ["x", "y"] ∧ r.2.globals.names <+: r'.2.globals.names ∧
      ∃ c, (r.2.trail negativeCount).getLast? = some c ∧
        r'.2.globals = c.2.globals ∧ r'.2.output = c.2.output := by
  intro m r r'
  have hr : r.1 = .error (.stackOverflow 1) := by decide +kernel
  have hr' : r'.1 = .error (.stackUnderflow .buildArray) := by decide +kernel
  obtain ⟨hwithin, hgrow, herror⟩ :=
    run_within_resources { stackCapacity := 1 } {} [overfull, negativeCount]
  obtain ⟨-, hlater⟩ := List.pairwise_append.mp (List.pairwise_cons.mp hgrow).2
  refine ⟨hr, hr', by decide +kernel, hwithin, by decide +kernel, ?_, ?_⟩
  · -- the machine between the runs is a point, and so is the one behind both
    exact (List.pairwise_cons.mp hlater.1).1 r'.2 (List.mem_append_right _ List.mem_cons_self)
  · exact herror r.2 negativeCount _ r'.2 (Prod.ext hr' rfl) rfl

end Machine

end ScriptLang
