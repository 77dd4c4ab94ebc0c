import Mathlib
import ScriptLang.Proofs.Eval.Throughout
import ScriptLang.Proofs.Matrix.Product

/-!
# The invariant of sessions

A new session is sound, and every program and every call with valid arguments leaves a
sound session behind, however it ends. So no look-up runs in circles, and no place that
an instance or a matrix is read or written at lies outside of it.
-/

namespace ScriptLang

/-- The discipline that asks for nothing. -/
def Discipline.free : Discipline := ⟨fun _ _ => True, fun _ _ _ => True, fun _ _ _ => True⟩

theorem Discipline.free_lawful (names : Set String) : free.Lawful names where
  refl _ := trivial
  trans _ _ := trivial
  narrow _ := trivial
  widen _ _ := ⟨trivial, trivial⟩
  thrown_trans _ _ := trivial
  thrown_kept _ _ _ := trivial
  apart _ _ := ⟨trivial, trivial⟩
  set _ _ _ := ⟨trivial, trivial⟩
  raise _ _ := ⟨⟨trivial, trivial⟩, trivial⟩
  report _ _ := ⟨⟨trivial, trivial⟩, trivial⟩
  scope _ _ := ⟨trivial, fun _ _ => ⟨⟨trivial, trivial⟩, fun _ _ => trivial⟩⟩
  call _ _ _ := ⟨trivial, fun _ _ => ⟨⟨trivial, trivial⟩, fun _ _ => trivial⟩⟩
  module _ _ _ _ _ := ⟨⟨trivial, fun _ _ => ⟨⟨trivial, trivial⟩, fun _ _ => trivial⟩⟩,
    fun _ _ => ⟨trivial, trivial⟩⟩

/-- However it ends, an evaluation leaves a sound session. -/
theorem Eval.Evaluation.sound {s : Session} (hs : s.Sound) {α : Type} {o : Option ScopeId}
    {c : Eval.Runner → Eval α} (hc : Eval.Evaluation Set.univ s o c) (fuel : Nat) :
    (Eval.outcome (c (Eval.runBlock fuel)) s).2.Sound := by
  have hready : Discipline.free.Ready Set.univ o s := ⟨hs, s.knows_univ, trivial⟩
  obtain ⟨Q, hend⟩ := (Discipline.free_lawful Set.univ).ends hready hc fuel
  exact hend.ready.sound

/-! ## Sessions that can be reached -/

/-- The sessions that programs and calls from outside lead to. Between them the running file may
be given another name, and the files may change. -/
inductive Session.Reachable : Session → Prop where
  | new (settings : Settings) (files : Files) (output : Output) :
    Reachable (Session.ofSettings settings files output)
  | run {s : Session} (p : Program) (fuel : Nat) : Reachable s → Reachable ((p.run fuel).run s).2
  | call {s : Session} (f : Closure) (args : List Value) (line fuel : Nat) : Reachable s →
    (Value.function f).Valid s.store → (∀ v ∈ args, v.Valid s.store) →
    Reachable ((f.call args line fuel).run s).2
  | outside {s : Session} (file : String) (files : Files) : Reachable s →
    Reachable { s with file, files }

namespace Session.Reachable

variable {s : Session}

theorem sound (h : s.Reachable) : s.Sound := by
  induction h with
  | new settings files output => exact .ofSettings settings files output
  | @run s p fuel _ ih => exact (Eval.Evaluation.program p fun _ _ => Set.mem_univ _).sound ih fuel
  | @call s f args line fuel _ hf hargs ih =>
      have hargs' : ∀ v ∈ args, v.Known Set.univ s.store := fun v hv =>
        Value.known_univ (hargs v hv)
      exact (Eval.Evaluation.call f args line (Value.known_univ hf) hargs').sound ih fuel
  | outside file files _ ih => exact ⟨ih.store, ih.globals, ih.modules⟩

end Session.Reachable

end ScriptLang
