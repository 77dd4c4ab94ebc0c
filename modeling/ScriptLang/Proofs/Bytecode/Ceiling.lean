import Mathlib
import ScriptLang.Proofs.Bytecode.Lockstep

/-!
# The ceiling on instructions

A run may take so many instructions and no more. Under a higher ceiling a run that
has ended of itself ends just the same, and under one that is lower than what it has
taken it is cut off there, having printed a part of what it would have printed. This
is so for every chunk, be it compiled or not.
-/

namespace ScriptLang

namespace Machine

/-- The machine under another ceiling. -/
def limited (limit : Nat) (m : Machine) : Machine := { m with maxInstructions := limit }

/-- A run that has more steps to take than it may is cut off when it has taken those. -/
theorem runFrom_cut (chunk : Chunk) (limit : Nat) : ∀ n n' o (m : Machine),
    m.executed + n' < (runFrom chunk n o m).2.executed →
      (runFrom chunk n' o (m.recount limit 0)).1 = .error (.instructionLimit limit) ∧
      (runFrom chunk n' o (m.recount limit 0)).2.executed = m.executed + n' ∧
      ∃ more, (runFrom chunk n o m).2.output.text =
        (runFrom chunk n' o (m.recount limit 0)).2.output.text ++ more
  | n, 0, o, m, _ => ⟨rfl, rfl, (runFrom_spends chunk n o m).output⟩
  | 0, n' + 1, o, m, h => by
      exact absurd h (Nat.not_lt.mpr (Nat.le_add_right _ _))
  | n + 1, n' + 1, o, m, h => by
      have hcounts := step_counts chunk o m
      rw [runFrom_succ, step_recount]
      rw [runFrom_succ] at h ⊢
      cases hs : step chunk o m with
      | next o' m' =>
          rw [hs] at h hcounts
          have hexecuted : m'.executed = m.executed + 1 := hcounts.executed
          obtain ⟨hr, hspent, hprinted⟩ := runFrom_cut chunk limit n n' o' m' (by
            dsimp only at h
            omega)
          exact ⟨hr, hspent.trans (by omega), hprinted⟩
      -- a run that ends here has not taken another step
      | halt m' =>
          rw [hs] at h hcounts
          have hexecuted : m'.executed = m.executed + 1 := hcounts.executed
          exact absurd h (by dsimp only; omega)
      | stop e m' =>
          rw [hs] at h hcounts
          rcases hcounts.2 with rfl | hext
          · exact absurd h (by dsimp only; omega)
          · have hexecuted : m'.executed = m.executed + 1 := hext.executed
            exact absurd h (by dsimp only; omega)

/-- A run takes no more instructions than its ceiling allows and just as many if it is cut off.
If it ends of itself, it ends so under every higher ceiling: with the same result, count, output,
globals and stack. Under a ceiling below its count it is cut off there, and what it has printed is
a part of what it prints in full. -/
theorem ceiling_exact (m : Machine) (chunk : Chunk) (n : Nat) :
    let r := (m.limited n).run chunk
    r.2.executed ≤ n ∧
      (∀ k, r.1 = .error (.instructionLimit k) → k = n ∧ r.2.executed = n) ∧
      (¬Interrupted r.1 →
        (∀ n', n ≤ n' → (m.limited n').run chunk = (r.1, r.2.limited n')) ∧
        ∀ n' < r.2.executed,
          ((m.limited n').run chunk).1 = .error (.instructionLimit n') ∧
          ((m.limited n').run chunk).2.executed = n' ∧
          ∃ more, r.2.output.text = ((m.limited n').run chunk).2.output.text ++ more) := by
  intro r
  let start : Machine := { m with maxInstructions := n, stack := [], executed := 0 }
  have hspends : Spends n start r.1 r.2 := runFrom_spends chunk n 0 start
  have hexecuted : start.executed = 0 := rfl
  refine ⟨?_, ?_, ?_⟩
  · have hbound := hspends.bound
    omega
  · intro k hk
    obtain ⟨rfl, hspent⟩ := hspends.limit k hk
    exact ⟨rfl, by omega⟩
  · intro hr
    constructor
    · intro n' hn'
      -- with another limit the same code is in step everywhere, so nothing is asked of the machine
      exact runFrom_lockstep id n' 0 (P := fun _ _ => True) (fun o m _ => step_recount chunk o m)
        (fun _ _ _ _ _ _ => trivial) n 0 start trivial hr n' (Or.inl hn')
    · intro n' hn'
      have hfewer : start.executed + n' < (runFrom chunk n 0 start).2.executed :=
        (Nat.zero_add n').symm ▸ hn'
      obtain ⟨hcut, hspent, hprinted⟩ := runFrom_cut chunk n' n n' 0 start hfewer
      exact ⟨hcut, hspent.trans (Nat.zero_add n'), hprinted⟩

/-- Code that runs off its end behind a line that it prints. -/
def unended : Chunk := { code := #[⟨.loadTrue, 0⟩, ⟨.print, 1⟩, ⟨.loadNull, 0⟩] }

/-- Three instructions are taken before the code has run out, which a ceiling of three does not
tell from a limit. -/
theorem unended_ceiling :
    let m : Machine := { capacity := 4, maxInstructions := 0 }
    let r := (m.limited 4).run unended
    r.1 = .error (.offsetOutOfBounds 3 3) ∧ r.2.executed = 3 ∧ r.2.output.text = "true\n" ∧
      ((m.limited 3).run unended).1 = .error (.instructionLimit 3) ∧
      (m.limited 900).run unended = (r.1, r.2.limited 900) ∧
      ((m.limited 1).run unended).1 = .error (.instructionLimit 1) ∧
      ∃ more, r.2.output.text = ((m.limited 1).run unended).2.output.text ++ more := by
  intro m r
  have hr : r.1 = .error (.offsetOutOfBounds 3 3) := by decide +kernel
  have hspent : r.2.executed = 3 := by decide +kernel
  obtain ⟨-, -, hends⟩ := ceiling_exact m unended 4
  obtain ⟨hmore, hless⟩ := hends (by
    rintro ⟨k, hk⟩
    rw [hr] at hk
    cases hk)
  obtain ⟨hcut, -, hprinted⟩ := hless 1 (by rw [hspent]; decide)
  exact ⟨hr, hspent, by decide +kernel, by decide +kernel, hmore 900 (by decide), hcut, hprinted⟩

end Machine

end ScriptLang
