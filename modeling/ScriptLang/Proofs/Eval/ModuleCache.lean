import Mathlib
import ScriptLang.Proofs.Eval.Locality
import ScriptLang.Proofs.Eval.Throughout

/-!
# Modules are loaded once

A session keeps the modules that are done and notes those whose top level is running.
The modules in progress have names of their own, and none of them is kept yet. A
module that is kept stays, and its exports stay as they are: they are the bindings of
a scope that no code that is running binds names in. An import of a kept module runs
nothing; any other import starts afresh, keeps the module if its top level ends, and
otherwise leaves no trace in the loader.
-/

namespace ScriptLang

/-! ## Kept modules -/

namespace Session

/-- Every module that is kept in the one session is kept in the other, with the same exports. -/
structure KeepsModules (s s' : Session) : Prop where
  kept : ∀ name m, s.loader.modules.get? name = some m → s'.loader.modules.get? name = some m
  exports : ∀ name m, s.loader.modules.get? name = some m →
    s'.store.bindings m.exports = s.store.bindings m.exports

theorem KeepsModules.refl (s : Session) : s.KeepsModules s :=
  ⟨fun _ _ hm => hm, fun _ _ _ => rfl⟩

theorem KeepsModules.trans {s s' s'' : Session} (h : s.KeepsModules s')
    (h' : s'.KeepsModules s'') : s.KeepsModules s'' where
  kept name m hm := h'.kept name m (h.kept name m hm)
  exports name m hm := (h'.exports name m (h.kept name m hm)).trans (h.exports name m hm)

/-- The modules are in order while names are bound in one scope at most: those in progress are
known, have names of their own and are not kept, and the scope is not one that holds the exports
of a kept module. -/
structure Orderly (names : Set String) (own : Option ScopeId) (s : Session) : Prop where
  nodup : s.loader.loading.Nodup
  known : ∀ n ∈ s.loader.loading, n ∈ names
  apart : ∀ n ∈ s.loader.loading, s.loader.modules.get? n = none
  exports : ∀ e ∈ s.loader.modules, s.store.HasScope e.2.exports
  hasScope : ∀ i ∈ own, s.store.HasScope i
  frozen : ∀ i ∈ own, ∀ e ∈ s.loader.modules, e.2.exports ≠ i

/-- What evaluation does to the modules while names are bound in one scope at most: the modules in
progress are as before, and those that it adds have scopes that are new. -/
structure Loads (own : Option ScopeId) (s s' : Session) : Prop where
  scopes : s.store.KeepsScopes own s'.store
  loading : s'.loader.loading = s.loader.loading
  modules : ∃ new, s'.loader.modules = s.loader.modules ++ new ∧
    ∀ e ∈ new, s.store.scopes.size ≤ e.2.exports.index

variable {names : Set String} {own : Option ScopeId} {i : ScopeId} {s s' s'' : Session}

namespace Orderly

theorem narrow (h : s.Orderly names own) : s.Orderly names none :=
  ⟨h.nodup, h.known, h.apart, h.exports, fun _ hi => (Option.not_mem_none _ hi).elim,
    fun _ hi => (Option.not_mem_none _ hi).elim⟩

/-- The loader is as it was, and there may be more scopes. -/
theorem of_loader_eq {own' : Option ScopeId} (h : s.Orderly names own)
    (hloader : s'.loader = s.loader) (hsize : s.store.scopes.size ≤ s'.store.scopes.size)
    (hown : ∀ i ∈ own', s'.store.HasScope i)
    (hfrozen : ∀ i ∈ own', ∀ e ∈ s.loader.modules, e.2.exports ≠ i) : s'.Orderly names own' := by
  rw [← hloader] at hfrozen
  refine ⟨?_, ?_, ?_, ?_, hown, hfrozen⟩
  all_goals rw [hloader]
  · exact h.nodup
  · exact h.known
  · exact h.apart
  · exact fun e he => (h.exports e he).trans_le hsize

/-- A new scope holds no exports. -/
theorem newScope (h : s.Orderly names none) (parent : Option ScopeId) :
    ({ s with store := (s.store.newScope parent).2 } : Session).Orderly names
      (some (s.store.newScope parent).1) := by
  have hsize := s.store.size_scopes_newScope parent
  refine h.of_loader_eq rfl (by rw [hsize]; omega) ?_ ?_
  · rintro _ ⟨⟩
    exact s.store.hasScope_newScope parent
  · rintro _ ⟨⟩ e he hexports
    have hlt := h.exports e he
    rw [hexports] at hlt
    exact Nat.lt_irrefl _ hlt

/-- A module that is neither kept nor in progress may be entered. -/
theorem enter {name : String} (h : s.Orderly names own) (hname : name ∈ names)
    (hm : s.loader.modules.get? name = none) (hnot : name ∉ s.loader.loading) :
    ({ s with loader := { s.loader with loading := s.loader.loading ++ [name] } } :
      Session).Orderly names own := by
  refine ⟨?_, ?_, ?_, h.exports, h.hasScope, h.frozen⟩
  · exact List.nodup_append'.mpr ⟨h.nodup, List.nodup_singleton name, by simpa using hnot⟩
  · intro n hn
    rcases List.mem_append.mp hn with hn | hn
    · exact h.known n hn
    · rw [List.mem_singleton.mp hn]
      exact hname
  · intro n hn
    rcases List.mem_append.mp hn with hn | hn
    · exact h.apart n hn
    · rw [List.mem_singleton.mp hn]
      exact hm

theorem leave (h : s.Orderly names own) (name file : String) :
    (s.left name file).Orderly names own := by
  refine ⟨h.nodup.filter _, ?_, ?_, h.exports, h.hasScope, h.frozen⟩
  · exact fun n hn => h.known n (List.mem_of_mem_filter hn)
  · exact fun n hn => h.apart n (List.mem_of_mem_filter hn)

theorem keep (h : s.Orderly names none) (name : String) (hi : s.store.HasScope i) :
    (s.kept name i).Orderly names none := by
  refine ⟨h.nodup.filter _, ?_, ?_, ?_, ?_, ?_⟩
  · exact fun n hn => h.known n (List.mem_of_mem_filter hn)
  · intro n hn
    have hne : n ≠ name := by simpa using (List.mem_filter.mp hn).2
    exact (Bindings.get?_set_ne hne _ _).trans (h.apart n (List.mem_of_mem_filter hn))
  · intro e he
    rcases Bindings.eq_or_mem_of_mem_set he with he | he
    · rw [he]
      exact hi
    · exact h.exports e he
  · rintro _ ⟨⟩
  · rintro _ ⟨⟩

/-- No more modules are in progress than there are names. -/
theorem length_loading_le (h : s.Orderly names own) :
    (s.loader.loading.length : ℕ∞) ≤ names.encard := by
  have hsubset : (s.loader.loading.toFinset : Set String) ⊆ names := by
    intro n hn
    exact h.known n (List.mem_toFinset.mp hn)
  calc (s.loader.loading.length : ℕ∞)
      = (s.loader.loading.toFinset.card : ℕ∞) := by rw [List.toFinset_card_of_nodup h.nodup]
    _ = (s.loader.loading.toFinset : Set String).encard := (Set.encard_coe_eq_coe_finsetCard _).symm
    _ ≤ names.encard := Set.encard_le_encard hsubset

end Orderly

namespace Loads

/-- A change that leaves the loader alone. -/
theorem of_loader_eq (hloader : s'.loader = s.loader)
    (hscopes : s.store.KeepsScopes own s'.store) : s.Loads own s' := by
  refine ⟨hscopes, by rw [hloader], [], ?_, ?_⟩
  · rw [hloader]
    exact (List.append_nil _).symm
  · intro e he
    cases he

theorem trans (h : s.Loads own s') (h' : s'.Loads own s'') : s.Loads own s'' := by
  obtain ⟨new, hnew, hfresh⟩ := h.modules
  obtain ⟨new', hnew', hfresh'⟩ := h'.modules
  refine ⟨h.scopes.trans h'.scopes, h'.loading.trans h.loading, new ++ new', ?_, ?_⟩
  · rw [hnew', hnew, List.append_assoc]
  · intro e he
    rcases List.mem_append.mp he with he | he
    · exact hfresh e he
    · exact h.scopes.size_le.trans (hfresh' e he)

/-- The modules that were kept hold their exports in scopes that nothing was bound in. -/
theorem keepsModules (h : s.Loads own s') (hs : s.Orderly names own) : s.KeepsModules s' := by
  obtain ⟨new, hnew, -⟩ := h.modules
  constructor
  · intro name m hm
    rw [hnew]
    exact Bindings.get?_append_of_some hm new
  · intro name m hm
    have hmem := Bindings.mem_of_get? hm
    refine h.scopes.others m.exports (hs.exports _ hmem) fun hown => ?_
    exact hs.frozen m.exports hown _ hmem rfl

/-- Code that was interrupted by something that binds no name of its scope can go on: the modules
that were added meanwhile have newer scopes. -/
theorem orderly_widen (h : s.Loads none s') (hs : s.Orderly names (some i))
    (hs' : s'.Orderly names none) : s'.Orderly names (some i) := by
  obtain ⟨new, hnew, hfresh⟩ := h.modules
  have hi := hs.hasScope i rfl
  refine ⟨hs'.nodup, hs'.known, hs'.apart, hs'.exports, ?_, ?_⟩
  · rintro _ ⟨⟩
    exact hi.trans_le h.scopes.size_le
  · rintro _ ⟨⟩ e he
    rw [hnew] at he
    rcases List.mem_append.mp he with he | he
    · exact hs.frozen i rfl e he
    · rintro rfl
      exact Nat.not_lt_of_le (hfresh e he) hi

end Loads

end Session

/-! ## The discipline of modules -/

namespace Discipline

/-- The discipline of modules, from a first session on. -/
def modular (names : Set String) (first : Session) : Discipline where
  Pre own s := s.Orderly names own ∧ first.KeepsModules s
  Rel own s s' := s.Loads own s'
  Thrown _ _ _ := True

variable {names : Set String} {first s s' : Session} {own : Option ScopeId} {i : ScopeId}

theorem modular_step (hs : (modular names first).Pre own s) (h : s.Loads own s')
    (hs' : s'.Orderly names own) : (modular names first).Step own s s' :=
  ⟨h, hs', hs.2.trans (h.keepsModules hs.1)⟩

/-- Nothing happens to modules where the loader is left alone. -/
theorem modular_same (hs : (modular names first).Pre own s) (hloader : s'.loader = s.loader)
    (hscopes : s.store.KeepsScopes own s'.store) : (modular names first).Step own s s' := by
  have hsize := hscopes.size_le
  refine modular_step hs (.of_loader_eq hloader hscopes) ?_
  exact hs.1.of_loader_eq hloader hsize (fun i hi => (hs.1.hasScope i hi).trans_le hsize) hs.1.frozen

/-- A change of the store that leaves the scopes as they are. -/
theorem modular_scopes_eq {t : Store} (hs : (modular names first).Pre own s)
    (h : t.scopes = s.store.scopes) : (modular names first).Step own s { s with store := t } :=
  modular_same hs rfl (.of_scopes_eq h)

theorem modular_newScope (parent : Option ScopeId) (hs : (modular names first).Pre none s) :
    (modular names first).Brackets s (some (s.store.newScope parent).1)
      { s with store := (s.store.newScope parent).2 } id := by
  have hopen : s.store.KeepsScopes none (s.store.newScope parent).2 :=
    .newScope (.of_scopes_eq rfl)
  have hmade : (modular names first).Step none s
      { s with store := (s.store.newScope parent).2 } := modular_same hs rfl hopen
  refine ⟨⟨hs.1.newScope parent, hmade.2.2⟩, fun s' hstep => ⟨?_, fun _ _ => trivial⟩⟩
  obtain ⟨new, hnew, hfresh⟩ := hstep.1.modules
  refine modular_step hs ⟨.newScope hstep.1.scopes, hstep.1.loading, new, hnew, fun e he => ?_⟩
    hstep.2.1.narrow
  exact hopen.size_le.trans (hfresh e he)

section Module

variable {name : String}

/-- While the top level of a module runs, the module is in progress, and its scope is new. -/
theorem modular_entered (path : String) (hs : (modular names first).Pre none s)
    (hname : name ∈ names) (hm : s.loader.modules.get? name = none)
    (hnot : name ∉ s.loader.loading) :
    (modular names first).Pre (some (s.store.newScope none).1) (s.entered name path) := by
  have horder := (hs.1.newScope none).enter hname hm hnot
  refine ⟨⟨horder.nodup, horder.known, horder.apart, horder.exports, horder.hasScope,
    horder.frozen⟩, ?_⟩
  obtain ⟨hkept, hexports⟩ := hs.2
  refine ⟨hkept, fun n m hn => ?_⟩
  exact (s.store.bindings_newScope none m.exports).trans (hexports n m hn)

variable (hnot : name ∉ s.loader.loading) (path : String)
  (h : (s.entered name path).Loads (some (s.store.newScope none).1) s')

include h in
theorem modular_loaded : ∃ new, s'.loader.modules = s.loader.modules ++ new ∧
    ∀ e ∈ new, s.store.scopes.size ≤ e.2.exports.index := by
  obtain ⟨new, hnew, hfresh⟩ := h.modules
  have hsize := s.store.size_scopes_newScope none
  refine ⟨new, hnew, fun e he => ?_⟩
  have hle : (s.store.newScope none).2.scopes.size ≤ e.2.exports.index := hfresh e he
  omega

include hnot h in
/-- However the top level of a module ends, the module is then not in progress. -/
theorem modular_left (file : String) : s.Loads none (s'.left name file) := by
  obtain ⟨new, hnew, hfresh⟩ := modular_loaded path h
  exact ⟨.newScope h.scopes, Loader.leave_loading_entered hnot h.loading, new, hnew, hfresh⟩

include hnot h in
/-- A module that is kept was not kept before, so it comes behind those that were. -/
theorem modular_kept (hs' : s'.Orderly names (some (s.store.newScope none).1)) (file : String) :
    s.Loads none ((s'.left name file).kept name (s.store.newScope none).1) := by
  have hleft := modular_left hnot path h file
  obtain ⟨new, hnew, hfresh⟩ := modular_loaded path h
  have hm : s'.loader.modules.get? name = none := by
    refine hs'.apart name ?_
    rw [h.loading]
    exact List.mem_append_right _ (List.mem_singleton_self name)
  refine ⟨hleft.scopes, ?_, new ++ [(name, ⟨name, (s.store.newScope none).1⟩)], ?_, ?_⟩
  · exact (Loader.leave_loading (hleft.loading ▸ hnot)).trans hleft.loading
  · rw [← List.append_assoc, ← hnew]
    exact Bindings.set_of_get?_none _ hm
  · intro e he
    rcases List.mem_append.mp he with he | he
    · exact hfresh e he
    · rw [List.mem_singleton.mp he]
      exact le_rfl

end Module

theorem modular_lawful (names : Set String) (first : Session) :
    (modular names first).Lawful names where
  refl _ := .of_loader_eq rfl (.of_scopes_eq rfl)
  trans := .trans
  narrow hs := ⟨hs.1.narrow, hs.2⟩
  widen hs hstep := ⟨⟨hstep.1.scopes.widen, hstep.1.loading, hstep.1.modules⟩,
    hstep.1.orderly_widen hs.1 hstep.2.1, hstep.2.2⟩
  thrown_trans _ _ := trivial
  thrown_kept _ _ _ := trivial
  apart hs hapart := modular_same hs hapart.loader (.of_scopes_eq hapart.scopes)
  set name v hs := modular_same hs rfl (.set _ _ name v)
  raise hs _ := ⟨modular_scopes_eq hs rfl, trivial⟩
  report _ hs := ⟨modular_scopes_eq hs rfl, trivial⟩
  scope parent hs := modular_newScope parent hs
  call {s callStack frame} hs _ _ := by
    have hpushed : (modular names first).Step none s { s with callStack } :=
      modular_same hs rfl (.of_scopes_eq rfl)
    refine ⟨hpushed.2, fun s' hstep => ⟨?_, fun _ _ => trivial⟩⟩
    have hloads := hstep.1
    have horder := hstep.2.1
    exact modular_step hs ⟨hloads.scopes, hloads.loading, hloads.modules⟩
      (horder.of_loader_eq rfl le_rfl horder.hasScope horder.frozen)
  module {s name path} hs hname hm hnot _ := by
    refine ⟨⟨modular_entered path hs hname hm hnot, fun s' hstep => ⟨?_, fun _ _ => trivial⟩⟩,
      fun s' hstep => ?_⟩
    -- a module whose top level throws is left, and one whose top level ends is kept
    · exact modular_step hs (modular_left hnot path hstep.1 s.file)
        (hstep.2.1.narrow.leave name s.file)
    · have hscope := hstep.2.1.hasScope _ rfl
      exact modular_step hs (modular_kept hnot path hstep.1 hstep.2.1 s.file)
        ((hstep.2.1.narrow.leave name s.file).keep name hscope)

end Discipline

/-! ## Imports -/

theorem Loader.enter_circular {l : Loader} {name : String} (h : name ∈ l.loading) (files : Files)
    (base : Option String) : l.enter files name base = .error (.circular name) := by
  unfold Loader.enter
  rw [if_pos (by simpa using h)]

namespace Session

open Eval

variable {names : Set String} {own : Option ScopeId} {s : Session} {name : String}

/-- What the loader is like after an import has ended: the module is kept, as the import gives
it, or the import has failed and the module is not kept. The modules in progress are as before. -/
def Settled (s : Session) (name : String) : Except Halt Module × Session → Prop
  | (.ok m, s') =>
    s'.loader.modules.get? name = some m ∧ s'.loader.loading = s.loader.loading
  | (.error _, s') =>
    s'.loader.modules.get? name = none ∧ s'.loader.loading = s.loader.loading

/-- How an import of a module goes in a session. A kept module is given back as it is, and nothing
runs. A module in progress is refused. Any other is looked for among the files, and if it can be
read its top level runs from the start. -/
structure ImportsOnce (s : Session) (name : String) : Prop where
  kept : ∀ m, s.loader.modules.get? name = some m →
    ∀ run, outcome (loadModule run name) s = (.ok m, s)
  circular : name ∈ s.loader.loading →
    ∀ run, outcome (loadModule run name) s =
      outcome (fail (.importFailed (LoadError.circular name).message)) s
  refused : s.loader.modules.get? name = none →
    ∀ e, s.loader.enter s.files name s.baseDir = .error e →
    ∀ run, outcome (loadModule run name) s = outcome (fail (.importFailed e.message)) s
  entered : s.loader.modules.get? name = none →
    ∀ source loader, s.loader.enter s.files name s.baseDir = .ok (source, loader) →
    ∀ run, outcome (loadModule run name) s = s.imported name
      (outcome (run (s.store.newScope none).1 source.program.stmts) (s.entered name source.path))
  settled : ∀ fuel, s.Settled name (outcome (loadModule (runBlock fuel) name) s)

/-- A session in which an evaluation that binds names in one scope at most may go on: it is sound,
its code imports known modules only, and its modules are in order. -/
structure Loadable (names : Set String) (own : Option ScopeId) (s : Session) : Prop where
  sound : s.Sound
  knows : s.Knows names
  orderly : s.Orderly names own

namespace Loadable

theorem ready (hs : s.Loadable names own) : (Discipline.modular names s).Ready names own s :=
  ⟨hs.sound, hs.knows, hs.orderly, .refl s⟩

theorem of_ready {first : Session} (hs : (Discipline.modular names first).Ready names own s) :
    s.Loadable names own ∧ first.KeepsModules s :=
  ⟨⟨hs.sound, hs.knows, hs.pre.1⟩, hs.pre.2⟩

theorem narrow (hs : s.Loadable names own) : s.Loadable names none :=
  ⟨hs.sound, hs.knows, hs.orderly.narrow⟩

theorem ofSettings (settings : Settings) {files : Files} (output : Output)
    (hfiles : files.Know names) :
    (Session.ofSettings settings files output).Loadable names (some Session.globals) := by
  refine ⟨.ofSettings settings files output, ⟨Store.Knows.empty.newScope none, hfiles⟩, ?_⟩
  refine ⟨List.nodup_nil, ?_, ?_, ?_, ?_, ?_⟩
  · intro n hn
    cases hn
  · intro n hn
    cases hn
  · intro e he
    cases he
  · rintro _ ⟨⟩
    exact Nat.zero_lt_one
  · intro i _ e he
    cases he

/-- What programs and calls from outside lead to is in order, and every module stays. -/
theorem turns {s' : Session} (hs : s.Loadable names (some Session.globals))
    (h : Relation.ReflTransGen (Session.Turn names) s s') :
    s'.Loadable names (some Session.globals) ∧ s.KeepsModules s' ∧
      s'.loader.loading = s.loader.loading := by
  obtain ⟨hready, hrel⟩ := (Discipline.modular_lawful names s).turns
    (fun _ _ _ hs => Discipline.modular_same hs rfl (.of_scopes_eq rfl)) hs.ready h
  obtain ⟨hs', hkeeps⟩ := of_ready hready
  exact ⟨hs', hkeeps, hrel.loading⟩

theorem settled (hs : s.Loadable names none) (hname : name ∈ names) (fuel : Nat) :
    s.Settled name (outcome (loadModule (runBlock fuel) name) s) := by
  have hlawful := Discipline.modular_lawful names s
  cases hm : s.loader.modules.get? name with
  | some m =>
      rw [outcome_loadModule_kept _ hm]
      exact ⟨hm, rfl⟩
  | none =>
      cases henter : s.loader.enter s.files name s.baseDir with
      | error e =>
          rw [outcome_loadModule_refused _ hm henter, outcome_fail_eq]
          exact ⟨hm, rfl⟩
      | ok entry =>
          obtain ⟨source, loader⟩ := entry
          obtain ⟨hnot, -⟩ := Loader.enter_ok henter
          obtain ⟨hready, himports⟩ := hlawful.entered hs.ready hname hm henter
          have hend := hlawful.body_ends hready (s.store.hasScope_newScope none) himports fuel
          rw [outcome_loadModule_entered _ hm henter]
          generalize outcome (runBlock fuel _ _) _ = p at hend
          have horder := hend.ready.pre.1
          rcases p with ⟨h | c, s'⟩
          · -- where its top level was left, the module is still noted as in progress
            refine ⟨horder.apart name ?_, ?_⟩
            · rw [hend.rel.loading]
              exact List.mem_append_right _ (List.mem_singleton_self name)
            · exact (Discipline.modular_left hnot source.path hend.rel s.file).loading
          · refine ⟨Bindings.get?_set_self _ _ _, ?_⟩
            exact (Discipline.modular_kept hnot source.path hend.rel horder s.file).loading

theorem importsOnce (hs : s.Loadable names none) (hname : name ∈ names) : s.ImportsOnce name where
  kept _ hm run := outcome_loadModule_kept run hm
  circular hloading run := outcome_loadModule_refused run (hs.orderly.apart name hloading)
    (Loader.enter_circular hloading s.files s.baseDir)
  refused hm _ henter run := outcome_loadModule_refused run hm henter
  entered hm _ _ henter run := outcome_loadModule_entered run hm henter
  settled := hs.settled hname

end Loadable

end Session

/-! ## Whole evaluations -/

namespace Eval

/-- Modules are loaded once, whatever programs run and whatever the files hold. The sessions that
a new session leads to have their modules in order and none in progress, and a module that is kept
in one of them is kept in all later ones, with the same exports. In any session with modules in
order, no more of them are in progress than there are names that the code and the files import; an
evaluation keeps the modules in order wherever a body begins and to its end, leaves those that are
kept and their exports alone, and has the same modules in progress afterwards; and an import runs a
module that is not kept from the start, and keeps it just if it succeeds. -/
theorem modules_load_once (names : Set String) :
    (∀ settings files output s, files.Know names →
      Relation.ReflTransGen (Session.Turn names) (.ofSettings settings files output) s →
      s.Loadable names (some Session.globals) ∧ s.loader.loading = [] ∧
        ∀ s', Relation.ReflTransGen (Session.Turn names) s s' → s.KeepsModules s') ∧
    ∀ own s, s.Loadable names own →
      (s.loader.loading.length : ℕ∞) ≤ names.encard ∧
      (∀ {α : Type} {c : Runner → Eval α}, Evaluation names s own c → ∀ fuel : Nat,
        Throughout (fun i _ s' => s'.Loadable names (some i) ∧ s.KeepsModules s') fuel c s ∧
        let s' := (outcome (c (runBlock fuel)) s).2
        s'.Loadable names own ∧ s.KeepsModules s' ∧ s'.loader.loading = s.loader.loading) ∧
      ∀ name ∈ names, s.ImportsOnce name := by
  constructor
  · intro settings files output s hfiles hturns
    obtain ⟨hs, -, hloading⟩ := (Session.Loadable.ofSettings settings output hfiles).turns hturns
    exact ⟨hs, hloading, fun s' hturns' => (hs.turns hturns').2.1⟩
  · intro own s hs
    refine ⟨hs.orderly.length_loading_le, ?_, fun name hname => hs.narrow.importsOnce hname⟩
    intro α c hc fuel
    obtain ⟨⟨Q, hend⟩, hthroughout⟩ := (Discipline.modular_lawful names s).evaluation
      (fun i _ s' => s'.Loadable names (some i) ∧ s.KeepsModules s')
      (fun _ _ _ hready _ => Session.Loadable.of_ready hready) hs.ready hc fuel
    obtain ⟨hs', hkeeps⟩ := Session.Loadable.of_ready hend.ready
    exact ⟨hthroughout, hs', hkeeps, hend.rel.loading⟩

/-- Two modules, of which one imports the other. That one is there or not. -/
def twoModules (found : Bool) : Files
  | "a.fine" => .ok "import b\nx = 1"
  | "b.fine" => if found then .ok "y = 2" else .error .missing
  | _ => .error .missing

theorem know_twoModules (found : Bool) : (twoModules found).Know {"a", "b"} := by
  have ha : (Program.ofText "import b\nx = 1").toOption.map Program.imports = some ["b"] := by
    decide +kernel
  have hb : (Program.ofText "y = 2").toOption.map Program.imports = some [] := by decide +kernel
  intro path text p htext hp n hn
  unfold twoModules at htext
  split at htext
  · cases htext
    rw [hp] at ha
    have himports : blockImports p.stmts = ["b"] := Option.some.inj ha
    rw [himports, List.mem_singleton] at hn
    exact .inr hn
  · cases found with
    | false => cases htext
    | true =>
        cases htext
        rw [hp] at hb
        have himports : blockImports p.stmts = [] := Option.some.inj hb
        rw [himports] at hn
        cases hn
  · cases htext

/-- The import fails at first, for want of the inner module, and succeeds later. -/
theorem twoModules_load_once :
    let importing : Program := ⟨[.importModule default "a" none]⟩
    let s₁ := ((importing.run 9).run (.ofSettings {} (twoModules false) {})).2
    let s₂ := ((importing.run 9).run { s₁ with file := s₁.file, files := twoModules true }).2
    s₁.loader.modules.names = [] ∧ s₁.loader.loading = [] ∧
      s₂.loader.modules.names = ["b", "a"] ∧ s₂.loader.loading = [] ∧
      ∃ m, (∀ run, outcome (loadModule run "a") s₂ = (.ok m, s₂)) ∧
        ∀ s', s₂.Turn {"a", "b"} s' → s'.loader.modules.get? "a" = some m ∧
          s'.store.bindings m.exports = s₂.store.bindings m.exports := by
  intro importing s₁ s₂
  obtain ⟨hturns, horderly⟩ := modules_load_once {"a", "b"}
  have hp : ImportsOnly {"a", "b"} importing.stmts := by
    intro n hn
    exact .inl (List.mem_singleton.mp hn)
  have hs₁ : Relation.ReflTransGen (Session.Turn {"a", "b"})
      (.ofSettings {} (twoModules false) {}) s₁ := .single (.run importing 9 hp)
  have hs₂ : Relation.ReflTransGen (Session.Turn {"a", "b"})
      (.ofSettings {} (twoModules false) {}) s₂ :=
    (hs₁.tail (.outside s₁.file (twoModules true) (know_twoModules true))).tail (.run importing 9 hp)
  obtain ⟨-, hloading₁, -⟩ := hturns {} _ {} s₁ (know_twoModules false) hs₁
  obtain ⟨hloadable, hloading₂, hkeeps⟩ := hturns {} _ {} s₂ (know_twoModules false) hs₂
  obtain ⟨-, -, honce⟩ := horderly _ s₂ hloadable
  have hkept : (s₂.loader.modules.get? "a").isSome := by decide +kernel
  obtain ⟨m, hm⟩ := Option.isSome_iff_exists.mp hkept
  refine ⟨by decide +kernel, hloading₁, by decide +kernel, hloading₂, m, ?_, ?_⟩
  · exact (honce "a" (.inl rfl)).kept m hm
  · intro s' hturn
    exact ⟨(hkeeps s' (.single hturn)).kept "a" m hm, (hkeeps s' (.single hturn)).exports "a" m hm⟩

end Eval

end ScriptLang
