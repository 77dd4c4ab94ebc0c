import Mathlib
import ScriptLang.Eval.Stmt
import ScriptLang.Proofs.Store.Known

/-!
# Properties of all computations on known values

The rules of `Rules` speak of a computation whatever values it meets. Here a
computation is known to start in a sound store that has grown from a given one, to
be given values that are valid there and whose code imports known modules only, and
to end with a result of that kind in the store it leaves. A property with these rules
holds of every expression, statement, program and call that is evaluated in a scope of
the store.

The given store is where the values at hand are known to be valid. Behind a step it
is replaced by the store which that step has left.

The rules are about computations that come in several versions, which differ in the
way they run bodies and in nothing else. So the versions can be compared.
-/

namespace ScriptLang

def Completion.Known (names : Set String) (t : Store) (c : Completion) : Prop :=
  c.value.Known names t

namespace Eval

/-- What a property of computations needs in order to hold of the whole evaluator on known
values. The property takes the scope that names are bound in, if any, a store, which the one at
the start has grown from, and what is known of a result and the store at the end. -/
structure ValueRules (names : Set String) {ι : Type}
    (Good : Option ScopeId → Store → ∀ {α : Type}, (Store → α → Prop) → (ι → Eval α) → Prop) :
    Prop where
  pure {t : Store} {α : Type} {Q : Store → α → Prop} {a : α} :
    (∀ t', t.Grows t' → Q t' a) → Good none t Q fun _ => Pure.pure a
  bind {o : Option ScopeId} {t : Store} {α β : Type} {Q : Store → α → Prop} {R : Store → β → Prop}
    {x : ι → Eval α} {k : ι → α → Eval β} :
    Good o t Q x → (∀ t' a, t.Grows t' → Q t' a → Good o t' R fun j => k j a) →
    Good o t R fun j => x j >>= k j
  widen {i : ScopeId} {t : Store} {α : Type} {Q : Store → α → Prop} {x : ι → Eval α} :
    Good none t Q x → Good (some i) t Q x
  exhausted {t : Store} {α : Type} {Q : Store → α → Prop} :
    Good none t Q fun _ => (throw .exhausted : Eval α)
  /-- A handler lets the exception go on, or is a computation of its own. -/
  recover {o : Option ScopeId} {t : Store} {α : Type} {Q : Store → α → Prop} {x : ι → Eval α}
    {handle : ι → Exception → Eval α} :
    Good o t Q x →
    (∀ t' e, t.Grows t' → (Value.exception e).Valid t' →
      (∀ j, handle j e = throw (.thrown e)) ∨ Good o t' Q fun j => handle j e) →
    Good o t Q fun j => catchThrown (x j) (handle j)
  finishing {o : Option ScopeId} {t : Store} {x last : ι → Eval Completion} :
    Good o t (Completion.Known names) x → Good o t (Completion.Known names) last →
    Good o t (Completion.Known names) fun j => Eval.finishing (x j) (last j)
  read {t : Store} {α : Type} {Q : Store → α → Prop} (f : Session → α) :
    (∀ s : Session, t.Grows s.store → s.store.Sound → s.store.Knows names → Q s.store (f s)) →
    Good none t Q fun _ => do return f (← get)
  bindName {t : Store} {i : ScopeId} (name : String) {v : Value} :
    t.HasScope i → v.Known names t →
    Good (some i) t (fun _ _ => True) fun _ => Eval.bindName i name v
  inScope {t : Store} {α : Type} {Q : Store → α → Prop} {parent : Option ScopeId}
    {k : ι → ScopeId → Eval α} :
    (∀ p ∈ parent, t.HasScope p) →
    (∀ t' i, t.Grows t' → t'.HasScope i → Good (some i) t' Q fun j => k j i) →
    Good none t Q fun j => make (·.newScope parent) >>= k j
  newObject {t : Store} (className : String) (parent : Option String) (fields : List String) :
    Good none t (fun t' o => (Value.object o).Known names t')
      fun _ => make (·.newObject className parent fields)
  fresh {t : Store} : Good none t (fun _ _ => True) fun _ => make Store.fresh
  raise {t : Store} {α : Type} {Q : Store → α → Prop} {x : Exception} :
    (Value.exception x).Valid t → Good none t Q fun _ => Eval.raise x
  fail {t : Store} {α : Type} {Q : Store → α → Prop} (fault : Fault) :
    Good none t Q fun _ => (Eval.fail fault : Eval α)
  warn {t : Store} (w : Warning) : Good none t (fun _ _ => True) fun _ => Eval.warn w
  print {t : Store} (values : List Value) :
    Good none t (fun _ _ => True) fun _ => Eval.print values
  assignField {t : Store} (target : Value) (field : String) {v : Value} :
    v.Known names t → Good none t (fun _ _ => True) fun _ => Eval.assignField target field v
  inCall {t : Store} {α : Type} {Q : Store → α → Prop} (function : String) (line : Nat)
    {x : ι → Eval α} : Good none t Q x → Good none t Q fun j => Eval.inCall function line (x j)
  loadModule {t : Store} {run : ι → Runner} {name : String} :
    name ∈ names →
    (∀ t i ss, t.HasScope i → ImportsOnly names ss →
      Good (some i) t (Completion.Known names) fun j => run j i ss) →
    Good none t (fun t' m => (Value.module m).Known names t') fun j => Eval.loadModule (run j) name

/-- All built-in functions but those that print or call a function do no more than compute. -/
theorem callBuiltin_eq_applyPure {run : Runner} {f : Builtin} {args : List Value} {line : Nat}
    (hprint : f ≠ .print)
    (hmap : ¬(f = .map ∧ ∃ g items rest, args = .function g :: .array items :: rest))
    (hfilter : ¬(f = .filter ∧ ∃ g items rest, args = .function g :: .array items :: rest))
    (hreduce : ¬(f = .reduce ∧
      ∃ g items first rest, args = .function g :: .array items :: first :: rest)) :
    Eval.callBuiltin run f args line =
      match f.applyPure args with
      | some r => Eval.ofExcept r
      | none => return .null := by
  unfold Eval.callBuiltin
  split
  · exact absurd rfl hprint
  · exact absurd ⟨rfl, _, _, _, rfl⟩ hmap
  · exact absurd ⟨rfl, _, _, _, rfl⟩ hfilter
  · exact absurd ⟨rfl, _, _, _, _, rfl⟩ hreduce
  · rfl

namespace ValueRules

variable {names : Set String} {ι : Type}
  {Good : Option ScopeId → Store → ∀ {α : Type}, (Store → α → Prop) → (ι → Eval α) → Prop}
  (h : ValueRules names Good) {o : Option ScopeId} {t : Store} {α β : Type} {scope : ScopeId}

include h

/-! ## Steps and ways that follow -/

theorem lift {Q : Store → α → Prop} {x : ι → Eval α} (hx : Good none t Q x) : Good o t Q x := by
  cases o with
  | none => exact hx
  | some i => exact h.widen hx

theorem value {v : Value} (hv : v.Known names t) :
    Good o t (Value.Known names) fun _ => Pure.pure v :=
  h.lift (h.pure fun _ ht => hv.mono ht)

theorem null : Good o t (Value.Known names) fun _ => Pure.pure .null :=
  h.value Value.known_null

theorem next {v : Value} (hv : v.Known names t) :
    Good o t (Completion.Known names) fun _ => Pure.pure (.next v) :=
  h.lift (h.pure fun _ ht => hv.mono ht)

theorem nextNull : Good o t (Completion.Known names) fun _ => Pure.pure (.next .null) :=
  h.next Value.known_null

theorem returned {v : Value} (hv : v.Known names t) :
    Good o t (Completion.Known names) fun _ => Pure.pure (.returned v) :=
  h.lift (h.pure fun _ ht => hv.mono ht)

theorem lookup (scope : ScopeId) (name : String) :
    Good none t (fun t' r => ∀ v ∈ r, v.Known names t') fun _ => Eval.lookup scope name :=
  h.read (fun s => s.store.lookup? scope name) fun _ _ hs hk _ hv =>
    ⟨hs.valid_of_lookup? hv, hk.knows_of_lookup? hv⟩

theorem lookupClass (scope : ScopeId) (name : String) :
    Good none t (fun t' r => ∀ c ∈ r, (Value.classObj c).Known names t')
      fun _ => Eval.lookupClass scope name := by
  refine h.bind (h.lookup scope name) fun t' found _ hfound => ?_
  split
  · refine h.pure fun _ ht c hc => ?_
    cases hc
    exact (hfound _ rfl).mono ht
  · exact h.pure fun _ _ c hc => by cases hc

/-- A value that is looked up; null if there is none. -/
theorem lookupOrNull (scope : ScopeId) (name : String) :
    Good none t (Value.Known names)
      fun _ => do return (← Eval.lookup scope name).getD .null := by
  refine h.bind (h.lookup scope name) fun t' found _ hfound => ?_
  cases found with
  | none => exact h.null
  | some v => exact h.value (hfound v rfl)

theorem ofExcept {r : Except Fault α} {Q : Store → α → Prop}
    (hr : ∀ a, r = .ok a → ∀ t', t.Grows t' → Q t' a) :
    Good none t Q fun _ => Eval.ofExcept r := by
  cases r with
  | ok a => exact h.pure (hr a rfl)
  | error fault => exact h.fail fault

theorem unlessCrash {r : Except Crash α} {Q : Store → α → Prop}
    (hr : ∀ a, r = .ok a → ∀ t', t.Grows t' → Q t' a) :
    Good none t Q fun _ => Eval.unlessCrash r := by
  cases r with
  | ok a => exact h.pure (hr a rfl)
  | error e => exact h.exhausted

theorem bindParams : ∀ {t : Store} (ps : List String) {vs : List Value},
    t.HasScope scope → (∀ v ∈ vs, v.Known names t) →
    Good (some scope) t (fun _ _ => True) fun _ => Eval.bindParams scope ps vs
  | t, [], _, _, _ => by
      simp only [Eval.bindParams]
      exact h.lift (h.pure fun _ _ => trivial)
  | t, p :: ps, [], hi, hvs => by
      simp only [Eval.bindParams]
      refine h.bind (h.bindName p hi Value.known_null) fun t' _ ht _ => ?_
      exact bindParams ps (hi.mono ht) (List.forall_mem_nil _)
  | t, p :: ps, v :: vs, hi, hvs => by
      rw [List.forall_mem_cons] at hvs
      simp only [Eval.bindParams]
      refine h.bind (h.bindName p hi hvs.1) fun t' _ ht _ => ?_
      exact bindParams ps (hi.mono ht) fun w hw => (hvs.2 w hw).mono ht

/-- A method that is not found gives null. -/
theorem methodOrNull {found : Option Class} (hfound : ∀ c ∈ found, (Value.classObj c).Known names t)
    (method : String) {k : ι → FunctionDecl → Eval Value}
    (hk : ∀ d, ImportsOnly names d.body → Good none t (Value.Known names) fun j => k j d) :
    Good none t (Value.Known names) fun j => match found.bind (·.method? method) with
      | some d => k j d
      | none => Pure.pure .null := by
  cases hd : found.bind (·.method? method) with
  | none => exact h.null
  | some d =>
      obtain ⟨c, hc, hm⟩ := Option.bind_eq_some_iff.mp hd
      exact hk d ((Value.known_classObj.mp (hfound c hc)).2 d (List.mem_of_find?_eq_some hm))

theorem andThen {x : ι → Eval Completion} {k : ι → Value → Eval Completion}
    (hx : Good o t (Completion.Known names) x)
    (hk : ∀ t' v, t.Grows t' → v.Known names t' →
      Good o t' (Completion.Known names) fun j => k j v) :
    Good o t (Completion.Known names) fun j => Eval.andThen (x j) (k j) := by
  refine h.bind hx fun t' c ht hc => ?_
  cases c with
  | next v => exact hk t' v ht hc
  | returned v => exact h.returned hc

/-! Loops over arrays in the evaluator itself. What is known of the accumulated result goes on
holding while the store grows. -/

theorem listFoldlM {Q : Store → β → Prop}
    (hmono : ∀ {t t' : Store} {b}, t.Grows t' → Q t b → Q t' b) {f : ι → β → α → Eval β} :
    ∀ {t : Store} {as : List α},
    (∀ t' b, ∀ a ∈ as, t.Grows t' → Q t' b → Good o t' Q fun j => f j b a) →
    ∀ {b : β}, Q t b → Good o t Q fun j => as.foldlM (f j) b
  | t, [], _, b, hb => h.lift (h.pure fun _ ht => hmono ht hb)
  | t, a :: as, hf, b, hb => by
      simp only [List.foldlM_cons]
      refine h.bind (hf t b a List.mem_cons_self (.refl t) hb) fun t' b' ht hb' => ?_
      refine listFoldlM (Q := Q) hmono ?_ hb'
      intro t'' b'' a' ha' ht' hb''
      exact hf t'' b'' a' (List.mem_cons_of_mem a ha') (ht.trans ht') hb''

theorem foldlM {Q : Store → β → Prop}
    (hmono : ∀ {t t' : Store} {b}, t.Grows t' → Q t b → Q t' b) {f : ι → β → α → Eval β}
    {as : Array α} (hf : ∀ t' b, ∀ a ∈ as, t.Grows t' → Q t' b → Good o t' Q fun j => f j b a)
    {b : β} (hb : Q t b) : Good o t Q fun j => as.foldlM (f j) b := by
  simp only [← Array.foldlM_toList]
  refine h.listFoldlM (Q := Q) hmono ?_ hb
  intro t' b' a ha
  exact hf t' b' a (Array.mem_toList_iff.mp ha)

theorem mapM {f : ι → Value → Eval Value} {as : Array Value}
    (has : (Value.array as).Known names t)
    (hf : ∀ t' a, t.Grows t' → a.Known names t' → Good o t' (Value.Known names) fun j => f j a) :
    Good o t (fun t' bs => (Value.array bs).Known names t') fun j => as.mapM (f j) := by
  rw [Value.known_array] at has
  simp only [Array.mapM_eq_foldlM]
  refine h.foldlM (fun ht hb => hb.mono ht) ?_ (Value.known_array.mpr (by simp))
  intro t' bs a ha ht hbs
  refine h.bind (hf t' a ht ((has a ha).mono ht)) fun t'' b ht' hb => ?_
  refine h.lift (h.pure fun t₃ ht₃ => ?_)
  rw [Value.known_array] at hbs ⊢
  intro v hv
  rcases Array.mem_push.mp hv with hv | rfl
  · exact (hbs v hv).mono (ht'.trans ht₃)
  · exact hb.mono ht₃

theorem filterM {f : ι → Value → Eval Bool} {as : Array Value}
    (has : (Value.array as).Known names t)
    (hf : ∀ t' a, t.Grows t' → a.Known names t' → Good o t' (fun _ _ => True) fun j => f j a) :
    Good o t (fun t' bs => (Value.array bs).Known names t') fun j => as.filterM (f j) := by
  rw [Value.known_array] at has
  refine h.foldlM (fun ht hb => hb.mono ht) ?_ (Value.known_array.mpr (by simp))
  intro t' bs a ha ht hbs
  refine h.bind (hf t' a ht ((has a ha).mono ht)) fun t'' keep ht' _ => ?_
  cases keep with
  | true =>
      refine h.lift (h.pure fun t₃ ht₃ => ?_)
      rw [Value.known_array] at hbs ⊢
      intro v hv
      rcases Array.mem_push.mp hv with hv | rfl
      · exact (hbs v hv).mono (ht'.trans ht₃)
      · exact (has v ha).mono (ht.trans (ht'.trans ht₃))
  | false => exact h.lift (h.pure fun t₃ ht₃ => hbs.mono (ht'.trans ht₃))

/-! ## Calls -/

section Calls

variable {run : ι → Runner} (hrun : ∀ t i ss, t.HasScope i → ImportsOnly names ss →
  Good (some i) t (Completion.Known names) fun j => run j i ss)

include hrun

theorem body (hi : t.HasScope scope) {ss : List Stmt} (hss : ImportsOnly names ss) :
    Good (some scope) t (Value.Known names) fun j => Eval.body (run j) scope ss :=
  h.bind (hrun t scope ss hi hss) fun _ _ _ hc => h.value hc

theorem callFunction {f : Closure} (hf : (Value.function f).Known names t) {args : List Value}
    (hargs : ∀ v ∈ args, v.Known names t) (line : Nat) :
    Good none t (Value.Known names) fun j => Eval.callFunction (run j) f args line := by
  obtain ⟨hscope, hbody⟩ := Value.known_function.mp hf
  have hparent : ∀ p ∈ some f.scope, t.HasScope p := by
    rintro p hp
    cases hp
    exact hscope
  refine h.inCall _ _ (h.inScope hparent fun t' i ht hi => ?_)
  have hargs' : ∀ v ∈ args, v.Known names t' := fun v hv => (hargs v hv).mono ht
  refine h.bind (h.bindParams f.decl.params hi hargs') fun t'' _ ht' _ => ?_
  exact h.body hrun (hi.mono ht') hbody

theorem callMethod {receiver : Value} (hr : receiver.Known names t) {method : FunctionDecl}
    (hm : ImportsOnly names method.body) {args : List Value} (hargs : ∀ v ∈ args, v.Known names t)
    (line : Nat) {caller : ScopeId} (hcaller : t.HasScope caller) :
    Good none t (Value.Known names)
      fun j => Eval.callMethod (run j) receiver method args line caller := by
  have hparent : ∀ p ∈ some caller, t.HasScope p := by
    rintro p hp
    cases hp
    exact hcaller
  refine h.inCall _ _ (h.inScope hparent fun t' i ht hi => ?_)
  refine h.bind (h.bindName receiverName hi (hr.mono ht)) fun t'' _ ht' _ => ?_
  have hargs' : ∀ v ∈ args, v.Known names t'' := fun v hv => (hargs v hv).mono (ht.trans ht')
  refine h.bind (h.bindParams method.params (hi.mono ht') hargs') fun t₃ _ ht₃ _ => ?_
  exact h.body hrun (hi.mono (ht'.trans ht₃)) hm

/-- A function stays known from one call to the next, and so does each item. -/
theorem callOnItem {g : Closure} (hg : (Value.function g).Known names t) (line : Nat) :
    ∀ t' a, t.Grows t' → a.Known names t' →
      Good none t' (Value.Known names) fun j => Eval.callFunction (run j) g [a] line := by
  intro t' a ht ha
  exact h.callFunction hrun (hg.mono ht) (by simpa using ha) line

theorem callBuiltin (f : Builtin) {args : List Value} (hargs : ∀ v ∈ args, v.Known names t)
    (line : Nat) :
    Good none t (Value.Known names) fun j => Eval.callBuiltin (run j) f args line := by
  by_cases hprint : f = .print
  · subst hprint
    exact h.bind (h.print args) fun _ _ _ _ => h.null
  by_cases hmap : f = .map ∧ ∃ g items rest, args = .function g :: .array items :: rest
  · obtain ⟨rfl, g, items, rest, rfl⟩ := hmap
    simp only [List.forall_mem_cons] at hargs
    obtain ⟨hg, hitems, -⟩ := hargs
    exact h.bind (h.mapM hitems (h.callOnItem hrun hg line)) fun _ _ _ hbs => h.value hbs
  by_cases hfilter : f = .filter ∧ ∃ g items rest, args = .function g :: .array items :: rest
  · obtain ⟨rfl, g, items, rest, rfl⟩ := hfilter
    simp only [List.forall_mem_cons] at hargs
    obtain ⟨hg, hitems, -⟩ := hargs
    refine h.bind (h.filterM hitems fun t' a ht ha => ?_) fun _ _ _ hbs => h.value hbs
    exact h.bind (h.callOnItem hrun hg line t' a ht ha) fun _ _ _ _ => h.pure fun _ _ => trivial
  by_cases hreduce : f = .reduce ∧
      ∃ g items first rest, args = .function g :: .array items :: first :: rest
  · obtain ⟨rfl, g, items, first, rest, rfl⟩ := hreduce
    simp only [List.forall_mem_cons] at hargs
    obtain ⟨hg, hitems, hfirst, -⟩ := hargs
    refine h.foldlM (Q := Value.Known names) (fun ht hb => hb.mono ht) ?_ hfirst
    intro t' acc a ha ht hacc
    have ha' := (Value.known_array.mp hitems a ha).mono ht
    exact h.callFunction hrun (hg.mono ht) (by simp [hacc, ha']) line
  simp only [callBuiltin_eq_applyPure hprint hmap hfilter hreduce]
  cases hr : f.applyPure args with
  | none => exact h.null
  | some r =>
      refine h.ofExcept fun v hv t' ht => ?_
      rw [hv] at hr
      exact ((Value.closed_known names t).applyPure hargs hr).mono ht

/-- What is known of arguments that are computed. -/
theorem callNamed (hi : t.HasScope scope) {args : ι → Eval (List Value)}
    (hargs : ∀ t', t'.HasScope scope → Good none t' (fun t' vs => ∀ v ∈ vs, v.Known names t') args)
    (callee : String) (line : Nat) :
    Good none t (Value.Known names)
      fun j => Eval.callNamed (run j) scope callee (args j) line := by
  unfold Eval.callNamed
  cases Builtin.ofName? callee with
  | some f => exact h.bind (hargs t hi) fun t' vs _ hvs => h.callBuiltin hrun f hvs line
  | none =>
      refine h.bind (h.lookup scope callee) fun t' found ht hfound => ?_
      rcases found with _ | v
      · exact h.null
      · cases v with
        | function f =>
            refine h.bind (hargs t' (hi.mono ht)) fun t'' vs ht' hvs => ?_
            exact h.callFunction hrun ((hfound _ rfl).mono ht') hvs line
        | _ => exact h.null

theorem callOn (hi : t.HasScope scope) {receiver : Value} (hr : receiver.Known names t)
    (method : String) {args : List Value} (hargs : ∀ v ∈ args, v.Known names t) (line : Nat) :
    Good none t (Value.Known names)
      fun j => Eval.callOn (run j) scope receiver method args line := by
  cases receiver with
  | module m =>
      refine h.bind (h.lookup _ method) fun t' found ht hfound => ?_
      rcases found with _ | v
      · exact h.bind (h.warn _) fun _ _ _ _ => h.null
      · cases v with
        | function f =>
            exact h.callFunction hrun (hfound _ rfl) (fun v hv => (hargs v hv).mono ht) line
        | _ => exact h.bind (h.warn _) fun _ _ _ _ => h.null
  | object o =>
      have hcall (t' : Store) (found : Option Class) (ht : t.Grows t')
          (hfound : ∀ c ∈ found, (Value.classObj c).Known names t') :=
        h.methodOrNull hfound method fun d hd =>
          h.callMethod hrun (hr.mono ht) hd (fun v hv => (hargs v hv).mono ht) line (hi.mono ht)
      refine h.bind (h.lookupClass scope _) fun t' near ht hnear => ?_
      cases near with
      | some c =>
          exact h.bind (h.pure fun _ ht' c hc => (hnear c hc).mono ht') fun t'' found ht' hf =>
            hcall t'' found (ht.trans ht') hf
      | none =>
          exact h.bind (h.lookupClass _ _) fun t'' found ht' hf =>
            hcall t'' found (ht.trans ht') hf
  | _ => exact h.value ((Value.closed_known names t).method method hr hargs)

theorem create (hi : t.HasScope scope) {args : ι → Eval (List Value)}
    (hargs : ∀ t', t'.HasScope scope → Good none t' (fun t' vs => ∀ v ∈ vs, v.Known names t') args)
    (className : String) (line : Nat) :
    Good none t (Value.Known names)
      fun j => Eval.create (run j) scope className (args j) line := by
  refine h.bind (h.lookupClass scope className) fun t' found ht hfound => ?_
  cases found with
  | none => exact h.null
  | some c =>
      refine h.bind (hargs t' (hi.mono ht)) fun t'' vs ht' hvs => ?_
      refine h.bind (h.newObject _ _ _) fun t₃ o ht₃ ho => ?_
      cases hd : c.method? constructorName with
      | none => exact h.value ho
      | some d =>
          have hvs' : ∀ v ∈ vs, v.Known names t₃ := fun v hv => (hvs v hv).mono ht₃
          have hi' : t₃.HasScope scope := hi.mono (ht.trans (ht'.trans ht₃))
          have hd' : ImportsOnly names d.body :=
            (Value.known_classObj.mp (hfound c rfl)).2 d (List.mem_of_find?_eq_some hd)
          simp only [Functor.discard, map_const, Function.comp_apply, bind_map_left]
          exact h.bind (h.callMethod hrun ho hd' hvs' line hi') fun _ _ ht₄ _ =>
            h.value (ho.mono ht₄)

theorem callSuper (hi : t.HasScope scope) {args : ι → Eval (List Value)}
    (hargs : ∀ t', t'.HasScope scope → Good none t' (fun t' vs => ∀ v ∈ vs, v.Known names t') args)
    (method : String) (line : Nat) :
    Good none t (Value.Known names)
      fun j => Eval.callSuper (run j) scope method (args j) line := by
  refine h.bind (h.lookup scope _) fun t' found ht hfound => ?_
  rcases found with _ | v
  · exact h.null
  · cases v with
    | object o =>
        have ho : (Value.object o).Known names t' := hfound _ rfl
        have hcall (t'' : Store) (parent : Option Class) (ht' : t'.Grows t'')
            (hparent : ∀ c ∈ parent, (Value.classObj c).Known names t'') :=
          h.methodOrNull hparent method fun d hd =>
            h.bind (hargs t'' (hi.mono (ht.trans ht'))) fun t₃ vs ht₃ hvs =>
              h.callMethod hrun (ho.mono (ht'.trans ht₃)) hd hvs line
                (hi.mono (ht.trans (ht'.trans ht₃)))
        dsimp only
        cases o.parent with
        | some name => exact h.bind (h.lookupClass _ _) hcall
        | none => exact h.bind (h.pure fun _ _ c hc => by cases hc) hcall
    | _ => exact h.null

end Calls

theorem member (target : Value) (label : String) :
    Good none t (Value.Known names) fun _ => Eval.member target label := by
  unfold Eval.member
  split
  · refine h.bind (h.lookup _ label) fun t' found _ hfound => ?_
    split
    · exact h.value (hfound _ rfl)
    · exact h.bind (h.warn _) fun _ _ _ _ => h.null
  · rename_i o
    refine h.read (fun s => (s.store.field? o label).getD .null) fun s _ hs hk => ?_
    cases hv : s.store.field? o label with
    | none => exact Value.known_null
    | some v => exact ⟨hs.valid_of_field? hv, hk.knows_of_field? hv⟩
  · exact h.null

/-! ## Expressions -/

mutual

theorem expr {run : ι → Runner} (hrun : ∀ t i ss, t.HasScope i → ImportsOnly names ss →
      Good (some i) t (Completion.Known names) fun j => run j i ss) :
    ∀ {t : Store}, t.HasScope scope → ∀ e : Expr,
    Good none t (Value.Known names) fun j => Eval.expr (run j) scope e
  | t, _, .number _ n => by
      simp only [Eval.expr]
      exact h.value ((Value.closed_known names t).number n)
  | t, _, .text _ s => by
      simp only [Eval.expr]
      exact h.value ((Value.closed_known names t).text s)
  | t, _, .bool _ b => by
      simp only [Eval.expr]
      exact h.value ((Value.closed_known names t).bool b)
  | t, _, .name .. | t, _, .self .. => by
      simp only [Eval.expr]
      exact h.lookupOrNull scope _
  | t, hi, .array _ items => by
      simp only [Eval.expr]
      refine h.bind (exprs hrun hi items) fun t' vs _ hvs => h.value ?_
      rw [Value.known_array]
      simpa only [List.mem_toArray] using hvs
  | t, hi, .dict _ entries => by
      simp only [Eval.expr]
      exact h.bind (exprEntries hrun hi entries) fun t' _ _ hes =>
        h.value ((Value.closed_known names t').ofPairs hes)
  | t, hi, .matrix _ _ _ cells => by
      simp only [Eval.expr]
      refine h.bind (exprs hrun hi cells) fun t' _ _ _ => ?_
      refine h.bind (h.unlessCrash (Q := fun _ _ => True) fun _ _ _ _ => trivial)
        fun t'' m _ _ => ?_
      exact h.value ((Value.closed_known names t'').matrix m)
  | t, hi, .binary _ left op right => by
      simp only [Eval.expr]
      refine h.bind (expr hrun hi left) fun t' a ht _ => ?_
      refine h.bind (expr hrun (hi.mono ht) right) fun t'' b _ _ => ?_
      have hresult := h.unlessCrash (t := t'') (r := Value.binary op a b)
        (Q := fun t₃ r => ∀ v, r = .ok v → v.Known names t₃) fun r hr t₃ _ v hv =>
          (Value.closed_known names t₃).binary (hr.trans (congrArg Except.ok hv))
      refine h.bind hresult fun t₃ r _ hr => ?_
      exact h.ofExcept fun v hv t₄ ht₄ => (hr v hv).mono ht₄
  | t, hi, .unary _ _ operand => by
      simp only [Eval.expr]
      exact h.bind (expr hrun hi operand) fun t' _ _ _ =>
        h.value ((Value.closed_known names t').unary _ _)
  | t, hi, .call _ _ args => by
      simp only [Eval.expr]
      exact h.callNamed hrun hi (fun _ hi' => exprs hrun hi' args) _ _
  | t, hi, .index _ target key => by
      simp only [Eval.expr]
      refine h.bind (expr hrun hi target) fun t' a ht ha => ?_
      refine h.bind (expr hrun (hi.mono ht) key) fun t'' b ht' _ => ?_
      exact h.ofExcept fun v hv _ ht'' =>
        ((Value.closed_known names t'').index (ha.mono ht') hv).mono ht''
  | t, hi, .field _ target _ => by
      simp only [Eval.expr]
      exact h.bind (expr hrun hi target) fun _ _ _ _ => h.member _ _
  | t, hi, .methodCall _ receiver _ args => by
      simp only [Eval.expr]
      refine h.bind (expr hrun hi receiver) fun t' r ht hr => ?_
      refine h.bind (exprs hrun (hi.mono ht) args) fun t'' vs ht' hvs => ?_
      exact h.callOn hrun (hi.mono (ht.trans ht')) (hr.mono ht') _ hvs _
  | t, hi, .create _ _ args => by
      simp only [Eval.expr]
      exact h.create hrun hi (fun _ hi' => exprs hrun hi' args) _ _
  | t, hi, .superCall _ _ args => by
      simp only [Eval.expr]
      exact h.callSuper hrun hi (fun _ hi' => exprs hrun hi' args) _ _

theorem exprs {run : ι → Runner} (hrun : ∀ t i ss, t.HasScope i → ImportsOnly names ss →
      Good (some i) t (Completion.Known names) fun j => run j i ss) :
    ∀ {t : Store}, t.HasScope scope → ∀ es : List Expr,
    Good none t (fun t' vs => ∀ v ∈ vs, v.Known names t') fun j => Eval.exprs (run j) scope es
  | t, _, [] => by
      simp only [Eval.exprs]
      exact h.pure fun _ _ => List.forall_mem_nil _
  | t, hi, e :: es => by
      simp only [Eval.exprs]
      refine h.bind (expr hrun hi e) fun t' v ht hv => ?_
      refine h.bind (exprs hrun (hi.mono ht) es) fun t'' vs ht' hvs => h.pure fun t₃ ht₃ => ?_
      rw [List.forall_mem_cons]
      exact ⟨hv.mono (ht'.trans ht₃), fun w hw => (hvs w hw).mono ht₃⟩

theorem exprEntries {run : ι → Runner} (hrun : ∀ t i ss, t.HasScope i → ImportsOnly names ss →
      Good (some i) t (Completion.Known names) fun j => run j i ss) :
    ∀ {t : Store}, t.HasScope scope → ∀ es : List (String × Expr),
    Good none t (fun t' es => ∀ e ∈ es, e.2.Known names t')
      fun j => Eval.exprEntries (run j) scope es
  | t, _, [] => by
      simp only [Eval.exprEntries]
      exact h.pure fun _ _ => List.forall_mem_nil _
  | t, hi, (_, e) :: es => by
      simp only [Eval.exprEntries]
      refine h.bind (expr hrun hi e) fun t' v ht hv => ?_
      refine h.bind (exprEntries hrun (hi.mono ht) es) fun t'' vs ht' hvs => h.pure fun t₃ ht₃ => ?_
      rw [List.forall_mem_cons]
      exact ⟨hv.mono (ht'.trans ht₃), fun w hw => (hvs w hw).mono ht₃⟩

end

/-! ## Statements -/

theorem forEach (item : String) {x : ι → Eval Completion}
    (hx : ∀ t', t'.HasScope scope → Good (some scope) t' (Completion.Known names) x) :
    ∀ {t : Store}, t.HasScope scope → ∀ {vs : List Value}, (∀ v ∈ vs, v.Known names t) →
      Good (some scope) t (Completion.Known names) fun j => Eval.forEach scope item (x j) vs
  | t, _, [], _ => by
      simp only [Eval.forEach]
      exact h.nextNull
  | t, hi, v :: vs, hvs => by
      rw [List.forall_mem_cons] at hvs
      simp only [Eval.forEach]
      refine h.bind (h.bindName item hi hvs.1) fun t' _ ht _ => ?_
      refine h.andThen (hx t' (hi.mono ht)) fun t'' _ ht' _ => ?_
      exact forEach item hx (hi.mono (ht.trans ht')) fun w hw => (hvs.2 w hw).mono (ht.trans ht')

theorem loop {condition : ι → Eval Value} {x : ι → Eval Completion}
    (hc : ∀ t', t'.HasScope scope → Good o t' (Value.Known names) condition)
    (hx : ∀ t', t'.HasScope scope → Good o t' (Completion.Known names) x) :
    ∀ {t : Store}, t.HasScope scope → ∀ rounds : Nat,
      Good o t (Completion.Known names) fun j => Eval.loop (condition j) (x j) rounds
  | t, _, 0 => by
      simp only [Eval.loop]
      exact h.lift h.exhausted
  | t, hi, rounds + 1 => by
      simp only [Eval.loop]
      refine h.bind (hc t hi) fun t' v ht _ => ?_
      cases v.isTruthy with
      | true =>
          refine h.andThen (hx t' (hi.mono ht)) fun t'' _ ht' _ => ?_
          exact loop hc hx (hi.mono (ht.trans ht')) rounds
      | false => exact h.nextNull

theorem importNames (m : Module) (written : String) :
    ∀ {t : Store}, t.HasScope scope → ∀ ns : List String,
      Good (some scope) t (fun _ _ => True) fun _ => Eval.importNames scope m written ns
  | t, _, [] => by
      simp only [Eval.importNames]
      exact h.lift (h.pure fun _ _ => trivial)
  | t, hi, name :: ns => by
      simp only [Eval.importNames]
      refine h.bind (h.lift (h.lookup m.exports name)) fun t' found ht hfound => ?_
      cases found with
      | some v =>
          refine h.bind (h.bindName name (hi.mono ht) (hfound v rfl)) fun t'' _ ht' _ => ?_
          exact importNames m written (hi.mono (ht.trans ht')) ns
      | none =>
          refine h.bind (h.lift (h.warn _)) fun t'' _ ht' _ => ?_
          exact importNames m written (hi.mono (ht.trans ht')) ns

theorem raiseValue {Q : Store → Completion → Prop} {v : Value} (hv : v.Valid t) :
    Good none t Q fun _ => Eval.raiseValue v := by
  unfold Eval.raiseValue
  split
  · exact h.raise hv
  · exact h.fail _
  · exact h.fail _

theorem define (hi : t.HasScope scope) {d : FunctionDecl} (hd : ImportsOnly names d.body) :
    Good (some scope) t (fun _ _ => True) fun _ => Eval.define scope d := by
  refine h.bind (h.lift h.fresh) fun t' id ht _ => h.bindName d.name (hi.mono ht) ?_
  exact Value.known_function.mpr ⟨hi.mono ht, hd⟩

theorem defineClass (hi : t.HasScope scope) {d : ClassDecl}
    (hd : ∀ m ∈ d.methods, ImportsOnly names m.body) :
    Good (some scope) t (fun _ _ => True) fun _ => Eval.defineClass scope d := by
  have hbind (t' : Store) (parent : Option Class) (ht : t.Grows t')
      (hp : ∀ c ∈ parent, (Value.classObj c).Known names t') :
      Good (some scope) t' (fun _ _ => True) fun _ => make Store.fresh >>= fun id =>
        Eval.bindName scope d.name (.classObj (.ofDecl id parent d)) := by
    refine h.bind (h.lift h.fresh) fun t'' id ht' _ => ?_
    refine h.bindName d.name (hi.mono (ht.trans ht')) (Value.known_classObj.mpr ⟨?_, ?_⟩)
    · exact Class.distinct_ofDecl id (fun c hc => (Value.known_classObj.mp (hp c hc)).1) d
    · intro m hm
      rcases Class.mem_methods_ofDecl hm with hm | ⟨c, hc, hm⟩
      · exact hd m hm
      · exact (Value.known_classObj.mp (hp c hc)).2 m hm
  unfold Eval.defineClass
  split
  · exact h.bind (h.lift (h.lookupClass scope _)) hbind
  · exact h.bind (h.lift (h.pure fun _ _ c hc => by cases hc)) hbind

theorem assertionMessage {run : ι → Runner}
    (hrun : ∀ t i ss, t.HasScope i → ImportsOnly names ss →
      Good (some i) t (Completion.Known names) fun j => run j i ss)
    (hi : t.HasScope scope) (message : Option Expr) :
    Good none t (fun _ _ => True) fun j => Eval.assertionMessage (run j) scope message := by
  cases message with
  | none => exact h.pure fun _ _ => trivial
  | some e =>
      refine h.bind (h.expr hrun hi e) fun _ v _ _ => ?_
      exact h.read (fun s => s.store.render v) fun _ _ _ _ => trivial

mutual

theorem stmt {run : ι → Runner} (hrun : ∀ t i ss, t.HasScope i → ImportsOnly names ss →
      Good (some i) t (Completion.Known names) fun j => run j i ss) (rounds : Nat) :
    ∀ {t : Store} {scope : ScopeId}, t.HasScope scope → ∀ s : Stmt, (∀ n ∈ s.imports, n ∈ names) →
    Good (some scope) t (Completion.Known names) fun j => Eval.stmt (run j) rounds scope s
  | t, scope, hi, .expr _ e, _ => by
      simp only [Eval.stmt]
      exact h.bind (h.lift (h.expr hrun hi e)) fun _ _ _ hv => h.next hv
  | t, scope, hi, .bind _ name value, _ => by
      simp only [Eval.stmt]
      refine h.bind (h.lift (h.expr hrun hi value)) fun t' v ht hv => ?_
      exact h.bind (h.bindName name (hi.mono ht) hv) fun _ _ _ _ => h.nextNull
  | t, scope, hi, .assign _ name value, _ => by
      simp only [Eval.stmt]
      refine h.bind (h.lift (h.expr hrun hi value)) fun t' v ht hv => ?_
      exact h.bind (h.bindName name (hi.mono ht) hv) fun _ _ ht' _ => h.next (hv.mono ht')
  | t, scope, hi, .assignField _ target field value, _ => by
      simp only [Eval.stmt]
      refine h.bind (h.lift (h.expr hrun hi target)) fun t' _ ht _ => ?_
      refine h.bind (h.lift (h.expr hrun (hi.mono ht) value)) fun t'' v _ hv => ?_
      exact h.bind (h.lift (h.assignField _ field hv)) fun _ _ ht' _ => h.next (hv.mono ht')
  | t, scope, hi, .define _ ⟨_, _, body, _⟩, hs => by
      simp only [Eval.stmt]
      rw [Stmt.imports] at hs
      exact h.bind (h.define hi hs) fun _ _ _ _ => h.nextNull
  | t, scope, hi, .defineClass _ ⟨_, _, _, methods⟩, hs => by
      simp only [Eval.stmt]
      rw [Stmt.imports] at hs
      refine h.bind (h.defineClass hi ?_) fun _ _ _ _ => h.nextNull
      intro m hm n hn
      exact hs n (mem_methodImports.mpr ⟨m, hm, hn⟩)
  | t, scope, hi, .choose _ condition yes no, hs => by
      simp only [Stmt.imports, List.mem_append] at hs
      simp only [Eval.stmt]
      refine h.bind (h.lift (h.expr hrun hi condition)) fun t' v ht _ => ?_
      cases v.isTruthy with
      | true =>
          exact block hrun rounds (hi.mono ht) Value.known_null yes fun n hn => hs n (Or.inl hn)
      | false => exact optionalBlock hrun rounds (hi.mono ht) no fun n hn => hs n (Or.inr hn)
  | t, scope, hi, .forEach _ item source body _, hs => by
      rw [Stmt.imports] at hs
      simp only [Eval.stmt]
      refine h.bind (h.lift (h.expr hrun hi source)) fun t' v ht hv => ?_
      cases v with
      | array items =>
          refine h.forEach item (fun t'' hi' => block hrun rounds hi' Value.known_null body hs)
            (hi.mono ht) ?_
          intro w hw
          exact Value.known_array.mp hv w (Array.mem_toList_iff.mp hw)
      | _ => exact h.nextNull
  | t, scope, hi, .loop _ condition body, hs => by
      rw [Stmt.imports] at hs
      simp only [Eval.stmt]
      exact h.loop (fun _ hi' => h.lift (h.expr hrun hi' condition))
        (fun _ hi' => block hrun rounds hi' Value.known_null body hs) hi rounds
  | t, scope, hi, .giveBack _ none, _ => by
      simp only [Eval.stmt]
      exact h.returned Value.known_null
  | t, scope, hi, .giveBack _ (some value), _ => by
      simp only [Eval.stmt]
      exact h.bind (h.lift (h.expr hrun hi value)) fun _ _ _ hv => h.returned hv
  | t, scope, hi, .attempt _ body handler finish, hs => by
      simp only [Stmt.imports, List.mem_append] at hs
      simp only [Eval.stmt]
      refine h.finishing (h.recover (block hrun rounds hi Value.known_null body ?_) ?_)
        (optionalBlock hrun rounds hi finish fun n hn => hs n (Or.inr hn))
      · intro n hn
        exact hs n (Or.inl (Or.inl hn))
      · intro t' x ht hx
        have hhandler (n : String) (hn : n ∈ handlerImports handler) : n ∈ names :=
          hs n (Or.inl (Or.inr hn))
        rcases handle hrun rounds (hi.mono ht) handler hhandler hx with hgo | hgood
        · exact Or.inl hgo
        · exact Or.inr (h.lift hgood)
  | t, scope, hi, .raise _ value, _ => by
      simp only [Eval.stmt]
      exact h.lift (h.bind (h.expr hrun hi value) fun _ _ _ hv => h.raiseValue hv.1)
  | t, scope, hi, .check _ condition message, _ => by
      simp only [Eval.stmt]
      refine h.bind (h.lift (h.expr hrun hi condition)) fun t' v ht _ => ?_
      cases v.isTruthy with
      | true => exact h.nextNull
      | false =>
          exact h.lift (h.bind (h.assertionMessage hrun (hi.mono ht) message)
            fun _ _ _ _ => h.fail _)
  | t, scope, hi, .importModule _ name _, hs => by
      rw [Stmt.imports, List.forall_mem_singleton] at hs
      simp only [Eval.stmt]
      refine h.bind (h.lift (h.loadModule hs hrun)) fun t' m ht hm => ?_
      exact h.bind (h.bindName _ (hi.mono ht) hm) fun _ _ _ _ => h.nextNull
  | t, scope, hi, .importNames _ name ns, hs => by
      rw [Stmt.imports, List.forall_mem_singleton] at hs
      simp only [Eval.stmt]
      refine h.bind (h.lift (h.loadModule hs hrun)) fun t' m ht _ => ?_
      exact h.bind (h.importNames m name (hi.mono ht) ns) fun _ _ _ _ => h.nextNull
  | t, scope, hi, .share _ inner, hs => by
      rw [Stmt.imports] at hs
      simp only [Eval.stmt]
      exact h.andThen (stmt hrun rounds hi inner hs) fun _ _ _ _ => h.nextNull

theorem block {run : ι → Runner} (hrun : ∀ t i ss, t.HasScope i → ImportsOnly names ss →
      Good (some i) t (Completion.Known names) fun j => run j i ss) (rounds : Nat) :
    ∀ {t : Store} {scope : ScopeId}, t.HasScope scope → ∀ {last : Value}, last.Known names t →
      ∀ ss : List Stmt, ImportsOnly names ss →
      Good (some scope) t (Completion.Known names) fun j => Eval.block (run j) rounds scope last ss
  | t, scope, hi, last, hl, [], _ => by
      simp only [Eval.block]
      exact h.next hl
  | t, scope, hi, last, hl, s :: ss, hss => by
      simp only [ImportsOnly, blockImports, List.mem_append] at hss
      simp only [Eval.block]
      refine h.andThen (stmt hrun rounds hi s fun n hn => hss n (Or.inl hn)) fun t' v ht hv => ?_
      exact block hrun rounds (hi.mono ht) hv ss fun n hn => hss n (Or.inr hn)

theorem optionalBlock {run : ι → Runner} (hrun : ∀ t i ss, t.HasScope i → ImportsOnly names ss →
      Good (some i) t (Completion.Known names) fun j => run j i ss) (rounds : Nat) :
    ∀ {t : Store} {scope : ScopeId}, t.HasScope scope → ∀ ss : Option (List Stmt),
      (∀ n ∈ optionalImports ss, n ∈ names) →
      Good (some scope) t (Completion.Known names)
        fun j => Eval.optionalBlock (run j) rounds scope ss
  | t, scope, hi, none, _ => by
      simp only [Eval.optionalBlock]
      exact h.nextNull
  | t, scope, hi, some ss, hss => by
      rw [optionalImports] at hss
      simp only [Eval.optionalBlock]
      exact block hrun rounds hi Value.known_null ss hss

/-- A handler lets the exception go on, or binds names only in the scope that it makes. -/
theorem handle {run : ι → Runner} (hrun : ∀ t i ss, t.HasScope i → ImportsOnly names ss →
      Good (some i) t (Completion.Known names) fun j => run j i ss) (rounds : Nat) :
    ∀ {t : Store} {scope : ScopeId}, t.HasScope scope → ∀ handler : Option Handler,
      (∀ n ∈ handlerImports handler, n ∈ names) → ∀ {x : Exception}, (Value.exception x).Valid t →
      (∀ j, Eval.handle (run j) rounds scope handler x = throw (.thrown x)) ∨
        Good none t (Completion.Known names) fun j => Eval.handle (run j) rounds scope handler x
  | t, scope, hi, none, _, x, hx => by
      left
      intro j
      rw [Eval.handle]
  | t, scope, hi, some ⟨kind, binder, body⟩, hs, x, hx => by
      rw [handlerImports] at hs
      have hparent : ∀ p ∈ some scope, t.HasScope p := by
        rintro p hp
        cases hp
        exact hi
      simp only [Eval.handle]
      by_cases hkind : kind.all (· == x.kind) = true
      · right
        simp only [if_pos hkind]
        refine h.inScope hparent fun t' i ht hi' => ?_
        cases binder with
        | none => exact block hrun rounds hi' Value.known_null body hs
        | some name =>
            have hx' : (Value.exception x).Known names t' :=
              Value.known_exception.mpr (Value.Valid.mono ht hx)
            refine h.bind (h.bindName name hi' hx') fun t'' _ ht' _ => ?_
            exact block hrun rounds (hi'.mono ht') Value.known_null body hs
      · left
        intro j
        rw [if_neg hkind]

end

end ValueRules

end Eval

end ScriptLang
