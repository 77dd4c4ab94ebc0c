import Mathlib
import ScriptLang.Proofs.Eval.Traceback

/-!
# The file that calls and imports go by

A session notes one file as running: that of the innermost module whose top level is
running, or else the one that the session was given. Frames of calls name this file, and
relative imports start from its directory. A call does not change it. So the body of a
function or method goes by the file that is running where it is called, also if it stands
in another file whose top level has long ended.
-/

namespace ScriptLang

/-! ## Activities -/

/-- What can go on while code runs: a call, or the top level of a module. -/
inductive Activity where
  | call (frame : Frame)
  | module (name path : String)

namespace Activity

def frame? : Activity → Option Frame
  | call frame => some frame
  | module _ _ => none

def name? : Activity → Option String
  | call _ => none
  | module name _ => some name

end Activity

/-- The files that a name may mean depend on the loader by the library only. -/
theorem Loader.resolve_congr {l l' : Loader} (h : l.libraryDir = l'.libraryDir) (files : Files)
    (name : String) (base : Option String) :
    l.resolve files name base = l'.resolve files name base := by
  unfold resolve candidates
  rw [h]

namespace Session

/-- The file that is running under activities, of which the newest comes first. -/
def fileUnder (s : Session) : List Activity → String
  | [] => s.file
  | .call _ :: older => s.fileUnder older
  | .module _ path :: _ => path

/-- Each call names the file that was running when it was made, and each module was found from
the directory of the file that was running when it was imported. -/
inductive Attributed (s : Session) : List Activity → Prop where
  | nil : Attributed s []
  | call {older : List Activity} {frame : Frame} : Attributed s older →
    frame.file = s.fileUnder older → Attributed s (.call frame :: older)
  | module {older : List Activity} {name path : String} : Attributed s older →
    s.loader.resolve s.files name ({ s with file := s.fileUnder older } : Session).baseDir =
      .ok path →
    Attributed s (.module name path :: older)

/-- A session is under way from another one, with these activities on top of those there. -/
structure Under (s : Session) (activities : List Activity) (s' : Session) : Prop where
  attributed : s.Attributed activities
  frames : s'.callStack.frames = activities.filterMap Activity.frame? ++ s.callStack.frames
  loading : s'.loader.loading = s.loader.loading ++ (activities.filterMap Activity.name?).reverse
  file : s'.file = s.fileUnder activities
  files : s'.files = s.files
  libraryDir : s'.loader.libraryDir = s.loader.libraryDir

/-- The frames are those of calls that name the file running when they were made, on top of the
calls of the session. -/
def AttributedTrace (s : Session) (trace : List Frame) : Prop :=
  ∃ activities, s.Attributed activities ∧
    trace = activities.filterMap Activity.frame? ++ s.callStack.frames

variable {s s₁ s₂ : Session} {activities : List Activity}

theorem Under.refl (s : Session) : s.Under [] s :=
  ⟨.nil, rfl, (List.append_nil _).symm, rfl, rfl, rfl⟩

theorem Under.attributedTrace (h : s.Under activities s₁) :
    s.AttributedTrace s₁.callStack.frames :=
  ⟨activities, h.attributed, h.frames⟩

/-- Both sessions note the same, and look for modules in the same places. -/
structure SamePlace (s s' : Session) : Prop where
  notes : s.SameNotes s'
  files : s'.files = s.files
  libraryDir : s'.loader.libraryDir = s.loader.libraryDir

theorem SamePlace.refl (s : Session) : s.SamePlace s := ⟨.refl s, rfl, rfl⟩

theorem SamePlace.withStore (s : Session) (t : Store) : s.SamePlace { s with store := t } :=
  ⟨⟨rfl, rfl, rfl⟩, rfl, rfl⟩

theorem SamePlace.trans (h : s.SamePlace s₁) (h' : s₁.SamePlace s₂) : s.SamePlace s₂ :=
  ⟨h.notes.trans h'.notes, h'.files.trans h.files, h'.libraryDir.trans h.libraryDir⟩

theorem Under.samePlace (h : s.Under activities s₁) (h' : s₁.SamePlace s₂) :
    s.Under activities s₂ where
  attributed := h.attributed
  frames := by rw [h'.notes.callStack, h.frames]
  loading := by rw [h'.notes.loading, h.loading]
  file := by rw [h'.notes.file, h.file]
  files := by rw [h'.files, h.files]
  libraryDir := by rw [h'.libraryDir, h.libraryDir]

/-- A call names the running file, and leaves it running. -/
theorem Under.call (h : s.Under activities s₁) {frame : Frame} {callStack : CallStack}
    (hfile : frame.file = s₁.file) (hpush : s₁.callStack.push? frame = some callStack) :
    s.Under (.call frame :: activities) { s₁ with callStack } := by
  obtain ⟨-, rfl⟩ := CallStack.push?_eq_some hpush
  refine ⟨.call h.attributed (hfile.trans h.file), ?_, h.loading, h.file, h.files, h.libraryDir⟩
  change frame :: s₁.callStack.frames = _
  rw [h.frames]
  rfl

/-- A module is found from the running file, and then is the running file. -/
theorem Under.module (h : s.Under activities s₁) {name path : String}
    (hpath : s₁.loader.resolve s₁.files name s₁.baseDir = .ok path) :
    s.Under (.module name path :: activities) (s₁.entered name path) where
  attributed := by
    refine .module h.attributed ?_
    have hbase : ({ s with file := s.fileUnder activities } : Session).baseDir = s₁.baseDir := by
      rw [baseDir, baseDir, h.file]
    rw [hbase, ← h.files, Loader.resolve_congr h.libraryDir.symm, hpath]
  frames := h.frames
  loading := by
    change s₁.loader.loading ++ [name] = _
    rw [h.loading, List.append_assoc]
    simp [Activity.name?]
  file := rfl
  files := h.files
  libraryDir := h.libraryDir

/-- While no module has been begun, the same file is running and all newer calls name it,
wherever the functions stand that were called. -/
theorem Attributed.of_no_module (h : s.Attributed activities)
    (hnone : activities.filterMap Activity.name? = []) :
    s.fileUnder activities = s.file ∧
      ∀ frame ∈ activities.filterMap Activity.frame?, frame.file = s.file := by
  induction h with
  | nil => exact ⟨rfl, fun frame hframe => absurd hframe List.not_mem_nil⟩
  | @call older newest _ hfile ih =>
      obtain ⟨hrunning, hframes⟩ := ih hnone
      refine ⟨hrunning, fun frame hframe => ?_⟩
      rcases List.mem_cons.mp hframe with rfl | hframe
      · exact hfile.trans hrunning
      · exact hframes frame hframe
  | module => cases hnone

/-- How a session goes on from another one: under calls and modules that go by the running file.
If no module has been begun, this is the file of the first session. -/
structure GoesOn (s s' : Session) : Prop where
  under : ∃ activities, s.Under activities s'
  calls : s'.loader.loading = s.loader.loading → s'.file = s.file ∧
    ∃ newer, s'.callStack.frames = newer ++ s.callStack.frames ∧
      ∀ frame ∈ newer, frame.file = s.file

theorem Under.goesOn (h : s.Under activities s₁) : s.GoesOn s₁ := by
  refine ⟨⟨activities, h⟩, fun hloading => ?_⟩
  have hnone : activities.filterMap Activity.name? = [] := by
    rw [h.loading] at hloading
    exact List.reverse_eq_nil_iff.mp (List.append_right_eq_self.mp hloading)
  obtain ⟨hfile, hframes⟩ := h.attributed.of_no_module hnone
  exact ⟨h.file.trans hfile, _, h.frames, hframes⟩

/-- What is noted stays, and every exception has kept its trace or has been thrown again under
calls that go by the running file. -/
structure Remains (first s s' : Session) : Prop where
  place : s.SamePlace s'
  trace : ∀ x, s'.store.trace x = s.store.trace x ∨ first.AttributedTrace (s'.store.trace x)

variable {first : Session}

theorem Remains.of_eq (hplace : s.SamePlace s₁) (htraces : s₁.store.traces = s.store.traces) :
    first.Remains s s₁ :=
  ⟨hplace, fun x => .inl (Store.trace_eq_of_traces_eq htraces x)⟩

theorem Remains.attributedTrace {x : Exception} (h : first.Remains s s₁)
    (hx : first.AttributedTrace (s.store.trace x)) : first.AttributedTrace (s₁.store.trace x) := by
  rcases h.trace x with hsame | hthrown
  · rw [hsame]
    exact hx
  · exact hthrown

theorem Remains.trans (h : first.Remains s s₁) (h' : first.Remains s₁ s₂) :
    first.Remains s s₂ := by
  refine ⟨h.place.trans h'.place, fun x => ?_⟩
  rcases h.trace x with hsame | hthrown
  · rw [← hsame]
    exact h'.trace x
  · exact .inr (h'.attributedTrace hthrown)

end Session

/-! ## The discipline of files -/

namespace Discipline

/-- What goes on since a first session goes by the running file. -/
def attributed (first : Session) : Discipline where
  Pre _ s := ∃ activities, first.Under activities s
  Rel _ s s' := first.Remains s s'
  Thrown _ s' x := first.AttributedTrace (s'.store.trace x)

variable {first s s' : Session} {o o' : Option ScopeId}

theorem attributed_step (hs : (attributed first).Pre o s) (h : first.Remains s s') :
    (attributed first).Step o' s s' := by
  obtain ⟨activities, hunder⟩ := hs
  exact ⟨h, activities, hunder.samePlace h.place⟩

/-- Throwing an exception gives it the active calls and leaves the others as they are. -/
theorem attributed_raise {x : Exception} (hs : (attributed first).Pre none s)
    (hx : x.id < s.store.traces.size) :
    let s' := { s with store := s.callStack.attach x s.store }
    (attributed first).Step none s s' ∧ (attributed first).Thrown s s' x := by
  have htrace : first.AttributedTrace s.callStack.frames := by
    obtain ⟨activities, hunder⟩ := hs
    exact hunder.attributedTrace
  constructor
  · refine attributed_step hs ⟨.withStore s _, fun y => ?_⟩
    rcases s.store.trace_setTrace x y s.callStack.frames with hsame | hframes
    · exact .inl hsame
    · exact .inr (hframes ▸ htrace)
  · change first.AttributedTrace ((s.store.setTrace x s.callStack.frames).trace x)
    rw [Store.trace_setTrace_self hx]
    exact htrace

theorem attributed_lawful (first : Session) (names : Set String) :
    (attributed first).Lawful names where
  refl _ := .of_eq (.refl _) rfl
  trans := .trans
  narrow hs := hs
  widen _ hstep := hstep
  thrown_trans _ hx := hx
  thrown_kept _ hx hrel := hrel.attributedTrace hx
  apart hs hapart := by
    have hloader := hapart.loader
    refine attributed_step hs (.of_eq ⟨⟨hapart.callStack, hapart.file, ?_⟩, hapart.files, ?_⟩
      hapart.traces)
    · rw [hloader]
    · rw [hloader]
  set _ _ hs := attributed_step hs (.of_eq (.withStore ..) rfl)
  raise hs hx := by
    rw [Value.Valid] at hx
    exact attributed_raise hs hx
  report {s} fault hs := by
    -- a new exception is made and then thrown
    have hnew : first.Remains s
        { s with store := (s.store.newException fault.kind fault.message).2 } :=
      ⟨.withStore s _, fun x => .inl (s.store.trace_newException fault.kind fault.message x)⟩
    have hid : s.store.traces.size <
        (s.store.newException fault.kind fault.message).2.traces.size := by
      simp [Store.newException]
    obtain ⟨hstep, hthrown⟩ := attributed_raise (x := (s.store.newException _ _).1)
      (attributed_step hs hnew).2 hid
    exact ⟨attributed_step hs (hnew.trans hstep.1), hthrown⟩
  scope {s} parent hs := by
    have hopen : first.Remains s { s with store := (s.store.newScope parent).2 } :=
      .of_eq (.withStore s _) rfl
    refine ⟨(attributed_step hs hopen).2, fun s' hstep => ⟨?_, fun _ hx => hx⟩⟩
    exact attributed_step hs (hopen.trans hstep.1)
  call {s callStack frame} hs hfile hpush := by
    refine ⟨?_, fun s' hstep => ⟨?_, fun _ hx => hx⟩⟩
    · obtain ⟨activities, hunder⟩ := hs
      exact ⟨_, hunder.call hfile hpush⟩
    · obtain ⟨⟨hnotes, hfiles, hlibrary⟩, htrace⟩ := hstep.1
      have hcalls : s'.callStack.pop = s.callStack := by
        rw [hnotes.callStack]
        exact CallStack.pop_of_push? hpush
      exact attributed_step hs ⟨⟨⟨hcalls, hnotes.file, hnotes.loading⟩, hfiles, hlibrary⟩, htrace⟩
  module {s name path} hs _ _ hnot hpath := by
    -- the file and the modules in progress are put back when the top level has ended
    have hleft {o : Option ScopeId} {s' : Session}
        (hstep : (attributed first).Step o (s.entered name path) s') :
        first.Remains s (s'.left name s.file) := by
      obtain ⟨⟨hnotes, hfiles, hlibrary⟩, htrace⟩ := hstep.1
      have hloading := Loader.leave_loading_entered hnot hnotes.loading
      exact ⟨⟨⟨hnotes.callStack, rfl, hloading⟩, hfiles, hlibrary⟩, htrace⟩
    refine ⟨⟨?_, fun s' hstep => ⟨attributed_step hs (hleft hstep), fun _ hx => hx⟩⟩,
      fun s' hstep => ?_⟩
    · obtain ⟨activities, hunder⟩ := hs
      exact ⟨_, hunder.module hpath⟩
    · obtain ⟨⟨hnotes, hfiles, hlibrary⟩, htrace⟩ := hleft hstep
      have hloading := (Loader.leave_loading (hnotes.loading ▸ hnot)).trans hnotes.loading
      exact attributed_step hs ⟨⟨⟨hnotes.callStack, rfl, hloading⟩, hfiles, hlibrary⟩, htrace⟩

end Discipline

/-! ## Whole evaluations -/

namespace Eval

/-- In every sound session, be it between programs or within the top level of a module: wherever a
body begins in an evaluation, each call that was made since names the file that was running then,
and each module whose top level has been begun since was found from the directory of that file;
the running file is that of the innermost of these modules, or the one of the session if there is
none, whatever functions and methods have been called. The trace of an exception that is thrown is
made of such calls, and afterwards the same file is running. The top level of a module runs as
code of the file that holds it. -/
theorem evaluation_goes_by_running_file (s : Session) (hs : s.Sound) :
    (∀ {α : Type} {o : Option ScopeId} {c : Runner → Eval α}, Evaluation Set.univ s o c →
      ∀ fuel : Nat,
      Throughout (fun _ _ s' => s.GoesOn s') fuel c s ∧
      s.SamePlace (outcome (c (runBlock fuel)) s).2 ∧
      ∀ x s', outcome (c (runBlock fuel)) s = (.error (.thrown x), s') →
        s.AttributedTrace (s'.store.trace x)) ∧
    ∀ name source loader, s.loader.modules.get? name = none →
      s.loader.enter s.files name s.baseDir = .ok (source, loader) →
      s.loader.resolve s.files name s.baseDir = .ok source.path ∧
      (∃ text, s.files source.path = .ok text ∧ Program.ofText text = .ok source.program) ∧
      ∀ run : Runner, outcome (loadModule run name) s = s.imported name
        (outcome (run (s.store.newScope none).1 source.program.stmts)
          (s.entered name source.path)) := by
  constructor
  · intro α o c hc fuel
    obtain ⟨⟨Q, hend⟩, hthroughout⟩ := (Discipline.attributed_lawful s Set.univ).evaluation
      (fun _ _ s' => s.GoesOn s') (fun _ _ _ hready _ => hready.pre.elim fun _ h => h.goesOn)
      ⟨hs, s.knows_univ, [], .refl s⟩ hc fuel
    refine ⟨hthroughout, hend.rel.place, fun x s' hout => ?_⟩
    have hthrown := hend.result
    rw [hout] at hthrown
    exact hthrown.2
  · intro name source loader hm henter
    exact ⟨Loader.enter_resolve henter, Loader.enter_program henter,
      fun run => outcome_loadModule_entered run hm henter⟩

/-- A module that throws at its top level, and one whose functions throw and import. -/
def library : Files
  | "./lib/top.fine" => .ok "fn g() \x7b throw \"x\" \x7d\ng()"
  | "./lib/m.fine" =>
    .ok "fn g() \x7b throw \"x\" \x7d\nfn f() \x7b\n  g()\n\x7d\nfn h() \x7b import \"./n\" \x7d"
  | "./lib/n.fine" => .ok "y = 2"
  | _ => .error .missing

/-- A session whose programs are the text of a file beside the library. -/
def beside : Session := { Session.ofSettings {} library {} with file := "main.fine" }

/-- The kind and the trace of the exception that a text of `main.fine` throws. -/
def throws (text : String) : Option (String × List Frame) :=
  (Program.ofText text).toOption.bind fun p =>
    let (r, s) := outcome (body (runBlock 9) Session.globals p.stmts) beside
    (thrown? r).map fun x => (x.kind, s.store.trace x)

/-- A text of `main.fine` whose function imports a module that throws. -/
def importingTop : String := "fn k() \x7b import \"./lib/top\" \x7d\nk()"

theorem top_level_goes_by_its_file :
    ∃ p x s', Program.ofText importingTop = .ok p ∧
      outcome (body (runBlock 9) Session.globals p.stmts) beside = (.error (.thrown x), s') ∧
      s'.store.trace x = [⟨"g", "./lib/top.fine", 2⟩, ⟨"k", "main.fine", 2⟩] ∧
      beside.AttributedTrace (s'.store.trace x) ∧ s'.file = "main.fine" := by
  have hthrows : throws importingTop =
      some ("RuntimeError", [⟨"g", "./lib/top.fine", 2⟩, ⟨"k", "main.fine", 2⟩]) := by
    decide +kernel
  have hsound : beside.Sound := by
    have h := Session.Sound.ofSettings {} library {}
    exact ⟨h.store, h.globals, h.modules⟩
  obtain ⟨p, hp, hthrown⟩ := Option.bind_eq_some_iff.mp hthrows
  have hparsed : Program.ofText importingTop = .ok p := by
    cases h : Program.ofText importingTop with
    | error e =>
        rw [h] at hp
        cases hp
    | ok q =>
        rw [h] at hp
        cases hp
        rfl
  obtain ⟨-, hplace, htrace⟩ := (evaluation_goes_by_running_file beside hsound).1
    (.program p fun _ _ => Set.mem_univ _) 9
  generalize hout : outcome (body (runBlock 9) Session.globals p.stmts) beside = out
    at hthrown hplace htrace
  rcases out with ⟨r, s'⟩
  obtain ⟨x, hx, heq⟩ := Option.map_eq_some_iff.mp hthrown
  obtain rfl := eq_of_thrown? hx
  obtain ⟨-, hframes⟩ := Prod.ext_iff.mp heq
  exact ⟨p, x, s', hparsed, hout, hframes, htrace x s' rfl, hplace.notes.file⟩

/-- The calls that stand as statements of their own in a program and its functions, with their
lines. -/
def statementCalls (p : Program) : List (String × Nat) :=
  let calls := List.filterMap fun
    | .expr _ (.call place callee _) => some (callee, place.line)
    | _ => none
  calls p.stmts ++ p.stmts.flatMap fun
    | .define _ d => calls d.body
    | _ => []

/-- The call of `g` stands in a function of the module and not in `main.fine`, and still its frame
names `main.fine`. The import of `./n` stands in a function of the module too, and does not find the
file beside it. -/
theorem function_of_module_goes_by_main_file :
    let calls (text : String) := (Program.ofText text).toOption.map statementCalls
    (library "./lib/m.fine").toOption.bind calls = some [("g", 3)] ∧
      calls "import \"./lib/m\"\nm.f()" = some [] ∧
      throws "import \"./lib/m\"\nm.f()" =
        some ("RuntimeError", [⟨"g", "main.fine", 3⟩, ⟨"f", "main.fine", 2⟩]) ∧
      library.isFile "./lib/n.fine" ∧
      throws "import \"./lib/m\"\nm.h()" = some ("ImportError", [⟨"h", "main.fine", 2⟩]) := by
  decide +kernel

end Eval

end ScriptLang
