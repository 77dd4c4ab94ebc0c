import Mathlib
import ScriptLang.Proofs.Eval.Outcome
import ScriptLang.Proofs.Eval.Rules

/-!
# Evaluation puts its bookkeeping back

A session notes the active calls, the file that is running and the modules whose top
level is running. Calls, changes of file and imports note something and take it back.
However an evaluation ends, with a value, by leaving a function, by an exception or
for want of fuel, the notes are then what they were before it.
-/

namespace ScriptLang

/-- Both sessions note the same calls, the same file and the same modules in progress. -/
structure Session.SameNotes (s s' : Session) : Prop where
  callStack : s'.callStack = s.callStack
  file : s'.file = s.file
  loading : s'.loader.loading = s.loader.loading

namespace Session.SameNotes

variable {s s' s'' : Session}

theorem refl (s : Session) : s.SameNotes s := ⟨rfl, rfl, rfl⟩

theorem trans (h : s.SameNotes s') (h' : s'.SameNotes s'') : s.SameNotes s'' :=
  ⟨h'.callStack.trans h.callStack, h'.file.trans h.file, h'.loading.trans h.loading⟩

end Session.SameNotes

theorem CallStack.pop_of_push? {c c' : CallStack} {f : Frame} (h : c.push? f = some c') :
    c'.pop = c := by
  unfold CallStack.push? at h
  split at h
  · cases h
  · cases h
    rfl

/-- A module is entered only if it is not in progress, and is noted behind the others. Its file
was found from the directory that relative imports start from, and holds its program. -/
theorem Loader.enter_eq_ok {l l' : Loader} {files : Files} {name : String} {base : Option String}
    {source : ModuleSource} (h : l.enter files name base = .ok (source, l')) :
    name ∉ l.loading ∧ l' = { l with loading := l.loading ++ [name] } ∧
      l.resolve files name base = .ok source.path ∧
      ∃ text, files source.path = .ok text ∧ Program.ofText text = .ok source.program := by
  unfold Loader.enter at h
  split at h
  · cases h
  · rename_i hnot
    split at h
    · cases h
    · rename_i path hpath
      split at h
      · cases h
      · rename_i text htext
        split at h
        · cases h
        · rename_i program hprogram
          cases h
          exact ⟨by simpa using hnot, rfl, hpath, text, htext, hprogram⟩

theorem Loader.enter_ok {l l' : Loader} {files : Files} {name : String} {base : Option String}
    {source : ModuleSource} (h : l.enter files name base = .ok (source, l')) :
    name ∉ l.loading ∧ l' = { l with loading := l.loading ++ [name] } :=
  ⟨(enter_eq_ok h).1, (enter_eq_ok h).2.1⟩

theorem Loader.enter_resolve {l l' : Loader} {files : Files} {name : String} {base : Option String}
    {source : ModuleSource} (h : l.enter files name base = .ok (source, l')) :
    l.resolve files name base = .ok source.path :=
  (enter_eq_ok h).2.2.1

/-- The program of a module that is entered is the one that its file holds. -/
theorem Loader.enter_program {l l' : Loader} {files : Files} {name : String} {base : Option String}
    {source : ModuleSource} (h : l.enter files name base = .ok (source, l')) :
    ∃ text, files source.path = .ok text ∧ Program.ofText text = .ok source.program :=
  (enter_eq_ok h).2.2.2

/-- Leaving a module that is not in progress changes nothing. -/
theorem Loader.leave_loading {l : Loader} {name : String} (hnot : name ∉ l.loading) :
    (l.leave name).loading = l.loading := by
  apply List.filter_eq_self.mpr
  intro other hother
  exact bne_iff_ne.mpr fun h => hnot (h ▸ hother)

/-- Leaving a module takes back what entering it noted. -/
theorem Loader.leave_loading_entered {l l' : Loader} {name : String} (hnot : name ∉ l.loading)
    (h : l'.loading = l.loading ++ [name]) : (l'.leave name).loading = l.loading := by
  have hrest : l.loading.filter (· != name) = l.loading := Loader.leave_loading hnot
  rw [Loader.leave, h, List.filter_append, hrest, List.filter_singleton, bne_self_eq_false]
  exact List.append_nil l.loading

namespace Eval

/-- However the computation ends, the notes are what they were. -/
def Restores (_ : Option ScopeId) {α : Type} (x : Eval α) : Prop :=
  ∀ s : Session, s.SameNotes (outcome x s).2

variable {o : Option ScopeId} {α β : Type}

theorem Restores.bind {x : Eval α} {k : α → Eval β} (hx : Restores o x)
    (hk : ∀ a, Restores o (k a)) : Restores o (x >>= k) :=
  Leads.bind (R := Session.SameNotes) .trans hx hk

theorem Restores.recover {x : Eval α} {handle : Exception → Eval α} (hx : Restores o x)
    (hh : ∀ e, Restores o (handle e)) : Restores o (catchThrown x handle) :=
  Leads.recover (R := Session.SameNotes) .trans hx hh

theorem Restores.finishing {x last : Eval Completion} (hx : Restores o x)
    (hl : Restores o last) : Restores o (Eval.finishing x last) :=
  Leads.finishing (R := Session.SameNotes) .trans hx hl

/-- The frame of a call is taken off again, be there a limit in the way or not. -/
theorem Restores.inCall (function : String) (line : Nat) {x : Eval α} (hx : Restores none x) :
    Restores none (Eval.inCall function line x) := by
  intro s
  rw [outcome_inCall]
  split
  · exact ⟨rfl, rfl, rfl⟩
  · rename_i callStack hpush
    -- the computation leaves its own frame on top, which is the one that is popped
    have hs := hx { s with callStack }
    refine ⟨?_, hs.file, hs.loading⟩
    change (outcome x { s with callStack }).2.callStack.pop = s.callStack
    rw [hs.callStack]
    exact CallStack.pop_of_push? hpush

/-- The top level of a module runs as code of its own file and while the module is in progress.
Both notes are taken back before anything else looks at them, also where the top level throws. -/
theorem Restores.loadModule {run : Runner} (name : String)
    (hrun : ∀ i ss, Restores (some i) (run i ss)) : Restores none (Eval.loadModule run name) := by
  intro s
  rw [Eval.loadModule, outcome_get_bind]
  split
  · exact .refl s
  · split
    · exact ⟨rfl, rfl, rfl⟩
    · rename_i source loader henter
      obtain ⟨hnot, hentered⟩ := Loader.enter_ok henter
      have hloading : loader.loading = s.loader.loading ++ [name] := by rw [hentered]
      rw [outcome_modify_bind, outcome_make_bind, outcome_discard_bind, outcome_after,
        outcome_inFile]
      have htop := hrun (s.store.newScope none).1 source.program.stmts
        { s with loader, store := (s.store.newScope none).2, file := source.path }
      have hleft := Loader.leave_loading_entered hnot (htop.loading.trans hloading)
      have hcalls := htop.callStack
      dsimp only at hleft hcalls ⊢
      generalize outcome (run _ _) _ = after at hleft hcalls ⊢
      rcases after with ⟨_ | _, s'⟩
      · exact ⟨hcalls, rfl, hleft⟩
      · -- keeping the module leaves it once more
        refine ⟨hcalls, rfl, ?_⟩
        exact (Loader.leave_loading (hleft ▸ hnot)).trans hleft

theorem Restores.print (values : List Value) : Restores none (Eval.print values) := by
  refine .bind (fun s => ⟨rfl, rfl, rfl⟩) fun written => ?_
  split
  · exact .refl
  · exact fun s => ⟨rfl, rfl, rfl⟩

theorem Restores.assignField (target : Value) (field : String) (v : Value) :
    Restores none (Eval.assignField target field v) := by
  unfold Eval.assignField
  split
  · intro s
    rw [outcome_modify]
    dsimp only
    split <;> exact ⟨rfl, rfl, rfl⟩
  · exact .refl

/-! ## The whole evaluator -/

theorem restores_rules : Rules Restores where
  pure _ := .refl
  bind := .bind
  widen hx := hx
  throw _ := .refl
  recover := .recover
  finishing := .finishing
  get := .refl
  bindName _ _ _ _ := ⟨rfl, rfl, rfl⟩
  inScope _ _ hk := .bind (fun _ => ⟨rfl, rfl, rfl⟩) hk
  newObject _ _ _ _ := ⟨rfl, rfl, rfl⟩
  fresh _ := ⟨rfl, rfl, rfl⟩
  raise _ _ := ⟨rfl, rfl, rfl⟩
  fail _ _ := ⟨rfl, rfl, rfl⟩
  warn _ _ := ⟨rfl, rfl, rfl⟩
  print := .print
  assignField := .assignField
  inCall := .inCall
  loadModule := .loadModule

/-- Statements, expressions, programs and calls from outside leave the active calls, the running
file and the modules in progress as they were, in every session and however they end. -/
theorem evaluation_restores_notes (s : Session) (fuel rounds : Nat) :
    (∀ scope st, s.SameNotes ((Eval.stmt (Eval.runBlock fuel) rounds scope st).run s).2) ∧
      (∀ scope e, s.SameNotes ((Eval.expr (Eval.runBlock fuel) scope e).run s).2) ∧
      (∀ p : Program, s.SameNotes ((p.run fuel).run s).2) ∧
      ∀ (f : Closure) (args : List Value) (line : Nat),
        s.SameNotes ((f.call args line fuel).run s).2 := by
  have hrun (scope : ScopeId) (ss : List Stmt) : Restores (some scope) (runBlock fuel scope ss) :=
    restores_rules.runBlock fuel scope ss
  refine ⟨?_, ?_, ?_, ?_⟩
  · intro scope st
    exact restores_rules.stmt hrun rounds scope st s
  · intro scope e
    exact restores_rules.expr hrun e s
  · intro p
    exact restores_rules.program p fuel s
  · intro f args line
    exact restores_rules.call f args line fuel s

end Eval

end ScriptLang
