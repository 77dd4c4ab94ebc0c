import Mathlib
import ScriptLang.Proofs.Program.Reading
import ScriptLang.Proofs.Program.Within

/-!
# What a parser does, step by step

One judgement says all that is asked of a parser at a cursor, together with a second
parser that stands at the same cursor of a longer text (`Follows`). A result has a
property, and the second parser gives it too, moved, and has read the same tokens. An
error is raised at a token that was come to, unless more tokens were left than the parser
was made for; and the second parser raises the same if nothing stands around the text.

There is a rule for each basic parser, and two for sequences. The rules for what comes
behind a token that was read (`pass`, `read`) collect the nodes that were read so far.
-/

namespace ScriptLang

namespace Parser

open Cursor (Near near_within)

variable {α β : Type} {w : Around} {n : Nat} {o o' c c' d : Cursor} {t : Token}
variable {p q : Parser α} {f f' : α → Parser β} {m : α → α} {m' : β → β}
variable {P : α → Cursor → Prop} {Q : β → Cursor → Prop}

/-- What the parser `p` does at `c` and the parser `q` at `c'`, where `o` is the cursor at which
both began and `n` is above the number of tokens they are made for. -/
def Follows (w : Around) (o : Cursor) (n : Nat) (p q : Parser α) (m : α → α) (c c' : Cursor)
    (Q : α → Cursor → Prop) : Prop :=
  match p c with
  | .ok (a, d) => q c' = .ok (m a, d.within w) ∧ Q a d
  | .error e => o.rest.length < n →
      (∃ d, o.Passes 0 d ∧ e.RaisedAt d) ∧ (w = .none o.final → q c' = .error e)

/-- What both parsers do wherever they begin, and whatever was read before. -/
def Starts (w : Around) (n : Nat) (p q : Parser α) (m : α → α)
    (Q : Cursor → α → Cursor → Prop) : Prop :=
  ∀ c c', Near w c c' → Follows w c n p q m c c' (Q c)

namespace Follows

theorem ok {a : α} (h : Follows w o n p q m c c' P) (heq : p c = .ok (a, d)) :
    q c' = .ok (m a, d.within w) ∧ P a d := by
  rwa [Follows, heq] at h

theorem error {e : SyntaxError} (h : Follows w o n p q m c c' P) (heq : p c = .error e)
    (hn : o.rest.length < n) :
    (∃ d, o.Passes 0 d ∧ e.RaisedAt d) ∧ (w = .none o.final → q c' = .error e) := by
  rw [Follows, heq] at h
  exact h hn

theorem imp {P' : α → Cursor → Prop} (h : Follows w o n p q m c c' P)
    (himp : ∀ a d, P a d → P' a d) : Follows w o n p q m c c' P' := by
  unfold Follows at h ⊢
  split at h
  · exact ⟨h.1, himp _ _ h.2⟩
  · exact h

/-- What begins behind `k` tokens is made for so many fewer. -/
theorem behind {k : Nat} (h : Follows w d (n - k) p q m c c' P) (hd : o.Passes k d) :
    Follows w o n p q m c c' P := by
  unfold Follows at h ⊢
  split at h
  · exact h
  · intro hn
    have hlength := hd.length_add_le
    obtain ⟨⟨e, he, hraised⟩, hsame⟩ := h (by omega)
    rw [hd.final_eq] at hsame
    exact ⟨⟨e, (hd.trans he).zero, hraised⟩, hsame⟩

/-! ## Sequences -/

theorem bind (hp : Follows w o n p q m c c' P)
    (hf : ∀ a d, P a d → Follows w o n (f a) (f' (m a)) m' d (d.within w) Q) :
    Follows w o n (p >>= f) (q >>= f') m' c c' Q := by
  unfold Follows at hp
  rw [Follows, bind_apply, bind_apply]
  split at hp
  case h_1 a d hpc =>
    rw [hpc, hp.1]
    exact hf a d hp.2
  case h_2 e hpc =>
    rw [hpc]
    intro hn
    obtain ⟨hraised, hsame⟩ := hp hn
    refine ⟨hraised, fun hw => ?_⟩
    rw [hsame hw]
    rfl

theorem pure {a a' : α} (ha : m a = a') (h : P a c) :
    Follows w o n (Pure.pure a) (Pure.pure a') m c (c.within w) P :=
  ⟨by rw [ha]; rfl, h⟩

theorem map {g g' : α → β} (hp : Follows w o n p q m c c' P) (hg : ∀ a, m' (g a) = g' (m a))
    (h : ∀ a d, P a d → Q (g a) d) : Follows w o n (g <$> p) (g' <$> q) m' c c' Q := by
  rw [map_eq_pure_bind, map_eq_pure_bind]
  exact hp.bind fun a d ha => .pure (hg a) (h a d ha)

/-! ## Errors -/

theorem fail {what : Expected} (hc : Near w c c') (ho : o.Passes 0 c) :
    Follows w o n (Parser.fail what) (Parser.fail what) m c c' P := by
  intro _
  refine ⟨⟨c, ho, rfl, rfl⟩, fun hw => ?_⟩
  rw [hw, ← ho.final_eq] at hc
  obtain ⟨hrest, hfinal⟩ := hc.of_none
  simp only [Parser.fail, Cursor.token?, Cursor.span, hrest, hfinal]

/-- Where something stands behind the text the second parser may do what it wants. -/
theorem fail_of_more {what : Expected} (hw : w.more ≠ []) (ho : o.Passes 0 c) :
    Follows w o n (Parser.fail what) q m c c' P := by
  intro _
  refine ⟨⟨c, ho, rfl, rfl⟩, fun hnone => absurd ?_ hw⟩
  rw [hnone]
  rfl

theorem tooDeep (hn : n ≤ o.rest.length) : Follows w o n Parser.tooDeep q m c c' P :=
  fun hlt => absurd hlt (Nat.not_lt.mpr hn)

theorem throw {e e' : SyntaxError} (ho : o.Passes 0 d) (he : e.RaisedAt d)
    (hsame : w = .none o.final → e' = e) :
    Follows w o n (MonadExcept.throw e) (MonadExcept.throw e') m c c' P := by
  intro _
  refine ⟨⟨d, ho, he⟩, fun hw => ?_⟩
  rw [hsame hw]
  rfl

/-! ## Basic parsers -/

theorem here {f f' : Place → Parser β} (h : Follows w o n (f c.place) (f' c'.place) m' c c' Q) :
    Follows w o n (Parser.here >>= f) (Parser.here >>= f') m' c c' Q :=
  h

/-- At the end of the text a semicolon may follow. -/
theorem peek {f f' : Option Token → Parser β} (hc : Near w c c')
    (hsome : ∀ t, c.token? = some t → Follows w o n (f (some t)) (f' (some t)) m' c c' Q)
    (hnone : c.token? = none → Follows w o n (f none) (f' none) m' c c' Q)
    (hsemi : c.token? = none → w.more ≠ [] →
      Follows w o n (f none) (f' (some (.symbol .semi))) m' c c' Q) :
    Follows w o n (Parser.peek >>= f) (Parser.peek >>= f') m' c c' Q := by
  show Follows w o n (f c.token?) (f' c'.token?) m' c c' Q
  cases ht : c.token? with
  | some t =>
      rw [hc.token?_of_some ht]
      exact hsome t ht
  | none =>
      rcases hc.token?_of_none ht with hend | ⟨hmore, hend⟩ <;> rw [hend]
      · exact hnone ht
      · exact hsemi ht hmore

theorem peek_end {f : Option Token → Parser β} {q : Parser β} (hc : c.rest = [])
    (h : Follows w o n (f none) q m' c c' Q) : Follows w o n (Parser.peek >>= f) q m' c c' Q := by
  rw [Follows, bind_apply, Parser.peek, Cursor.token?_of_rest hc]
  exact h

theorem advance {f f' : Unit → Parser β} (hc : Near w c c') (ht : c.token? = some t)
    (h : ∀ d, c.Reads [] d → Follows w o n (f ()) (f' ()) m' d (d.within w) Q) :
    Follows w o n (Parser.advance >>= f) (Parser.advance >>= f') m' c c' Q := by
  have hstep : ∀ {e : Cursor}, e.token? = some t → Parser.advance e = .ok ((), e.next) := by
    intro e he
    obtain ⟨l, rest, hrest, -⟩ := Cursor.exists_rest_of_token? he
    rw [Parser.advance, hrest]
    rfl
  rw [Follows, bind_apply, bind_apply, hstep ht, hstep (hc.token?_of_some ht), hc.next_eq ht]
  exact h c.next (Cursor.Passes.next ht).reads

theorem sees {f f' : Bool → Parser β} (hc : Near w c c') (hsemi : t ≠ .symbol .semi)
    (h : ∀ seen, Follows w o n (f seen) (f' seen) m' c c' Q) :
    Follows w o n (Parser.sees t >>= f) (Parser.sees t >>= f') m' c c' Q := by
  rw [Follows, bind_apply, bind_apply, Parser.sees, Parser.sees,
    decide_eq_decide.mpr (hc.token?_eq_iff hsemi)]
  exact h _

theorem eat {f f' : Bool → Parser β} (hc : Near w c c') (hsemi : t ≠ .symbol .semi)
    (htrue : ∀ d, c.token? = some t → c.Reads [] d →
      Follows w o n (f true) (f' true) m' d (d.within w) Q)
    (hfalse : Follows w o n (f false) (f' false) m' c c' Q) :
    Follows w o n (Parser.eat t >>= f) (Parser.eat t >>= f') m' c c' Q := by
  rw [Follows, bind_apply, bind_apply, Parser.eat, Parser.eat]
  by_cases ht : c.token? = some t
  · rw [if_pos ht, if_pos (hc.token?_of_some ht), hc.next_eq ht]
    exact htrue c.next ht (Cursor.Passes.next ht).reads
  · rw [if_neg ht, if_neg (mt (hc.token?_eq_iff hsemi).mp ht)]
    exact hfalse

/-- Semicolons are skipped alike. Where they go on behind the text, what follows has to fail. -/
theorem skipSemis {f f' : Unit → Parser β}
    (h : ∀ d, c.Passes 0 d → Follows w o n (f ()) (f' ()) m' d (d.within w) Q)
    (hend : ∀ d, c.Passes 0 d → d.rest = [] → w.more ≠ [] →
      ∀ q c', Follows w o n (f ()) q m' d c' Q) :
    Follows w o n (Parser.skipSemis >>= f) (Parser.skipSemis >>= f') m' c (c.within w) Q := by
  have hskip := Cursor.Passes.skipSemis c
  show Follows w o n (fun _ => f () c.skipSemis) (fun _ => f' () (c.within w).skipSemis) m' c
    (c.within w) Q
  by_cases halike : c.skipSemis.rest ≠ [] ∨ w.more = []
  · rw [Cursor.skipSemis_within halike]
    exact h _ hskip
  · obtain ⟨hnil, hmore⟩ := not_or.mp halike
    exact hend _ hskip (not_not.mp hnil) hmore (fun _ => f' () (c.within w).skipSemis) (c.within w)

/-- A place begins where a token was read, so that it is the same, moved. -/
theorem since {start start' : Place} {f f' : Place → Parser β}
    (hstart : start' = start.moved w.toShift)
    (h : ∀ place : Place, place = ⟨start.span.merge c.last, start.line⟩ →
      Follows w o n (f place) (f' (place.moved w.toShift)) m' c (c.within w) Q) :
    Follows w o n (Parser.since start >>= f) (Parser.since start' >>= f') m' c (c.within w) Q := by
  subst hstart
  have hplace : (⟨(start.moved w.toShift).span.merge (c.last.moved w.bytes),
      (start.moved w.toShift).line⟩ : Place) =
      (⟨start.span.merge c.last, start.line⟩ : Place).moved w.toShift := by
    rw [Place.moved, Place.moved, Span.moved_merge]
  have hgoes := h _ rfl
  rw [← hplace] at hgoes
  exact hgoes

/-- The result has the place of all that was read. -/
theorem give {g g' : Place → β} (hc : Near w o o') (hd : o.Passes 1 d)
    (hg : ∀ place : Place, m' (g place) = g' (place.moved w.toShift))
    (h : Q (g ⟨o.span.merge d.last, o.line⟩) d) :
    Follows w o n (do return g (← Parser.since o.place)) (do return g' (← Parser.since o'.place)) m'
      d (d.within w) Q :=
  .since (hc.place_eq hd) fun place hplace => .pure (hg place) (by rwa [hplace])

end Follows

namespace Starts

variable {P P' : Cursor → α → Cursor → Prop}

theorem mono {k : Nat} (h : Starts w n p q m P) (hle : k ≤ n) : Starts w k p q m P := by
  intro c c' hc
  have hp := h c c' hc
  unfold Follows at hp ⊢
  split at hp
  · exact hp
  · exact fun hk => hp (hk.trans_le hle)

theorem imp (h : Starts w n p q m P) (himp : ∀ c a d, P c a d → P' c a d) :
    Starts w n p q m P' :=
  fun c c' hc => (h c c' hc).imp (himp c)

theorem bind {Q : Cursor → β → Cursor → Prop} (hp : Starts w n p q m P)
    (hf : ∀ c a d, P c a d → Follows w c n (f a) (f' (m a)) m' d (d.within w) (Q c)) :
    Starts w n (p >>= f) (q >>= f') m' Q :=
  fun c c' hc => (hp c c' hc).bind (hf c)

theorem map {Q : Cursor → β → Cursor → Prop} {g g' : α → β} (hp : Starts w n p q m P)
    (hg : ∀ a, m' (g a) = g' (m a)) (h : ∀ c a d, P c a d → Q c (g a) d) :
    Starts w n (g <$> p) (g' <$> q) m' Q :=
  fun c c' hc => (hp c c' hc).map hg (h c)

end Starts

/-! ## Behind tokens that were read -/

namespace Follows

variable {ns : List Node} {nodes : α → List Node} {P : Cursor → α → Cursor → Prop}

/-- A parser begins behind a token. -/
theorem next (ho : o.Passes 1 c) (hp : Starts w (n - 1) p q m P)
    (hf : ∀ a d, P c a d → Follows w o n (f a) (f' (m a)) m' d (d.within w) Q) :
    Follows w o n (p >>= f) (q >>= f') m' c (c.within w) Q :=
  ((hp c _ (near_within w c)).behind ho).bind hf

/-- Tokens are read behind nodes. -/
theorem pass (ho : o.Reads ns c) (hp : Starts w (n - 1) p q m fun c _ d => c.Reads [] d)
    (hf : ∀ a d, o.Reads ns d → Follows w o n (f a) (f' (m a)) m' d (d.within w) Q) :
    Follows w o n (p >>= f) (q >>= f') m' c (c.within w) Q :=
  .next ho.passes hp fun a d hd => hf a d (ho.beyond hd.passes.zero)

/-- More nodes are read behind nodes. -/
theorem read (ho : o.Reads ns c) (hp : Starts w (n - 1) p q m fun c a d => c.Reads (nodes a) d)
    (hf : ∀ a d, o.Reads (ns ++ nodes a) d → Follows w o n (f a) (f' (m a)) m' d (d.within w) Q) :
    Follows w o n (p >>= f) (q >>= f') m' c (c.within w) Q :=
  .next ho.passes hp fun a d hd => hf a d (ho.append hd.holds)

/-- A token may be read behind nodes. -/
theorem option {f f' : Bool → Parser β} (ho : o.Reads ns c) (hsemi : t ≠ .symbol .semi)
    (htrue : ∀ d, o.Reads ns d → Follows w o n (f true) (f' true) m' d (d.within w) Q)
    (hfalse : Follows w o n (f false) (f' false) m' c (c.within w) Q) :
    Follows w o n (Parser.eat t >>= f) (Parser.eat t >>= f') m' c (c.within w) Q :=
  .eat (near_within w c) hsemi (fun d _ hd => htrue d (ho.beyond hd.passes.zero)) hfalse

/-- The same where it does not matter whether it is. -/
theorem either {f f' : Bool → Parser β} (ho : o.Reads ns c) (hsemi : t ≠ .symbol .semi)
    (h : ∀ eaten d, o.Reads ns d → Follows w o n (f eaten) (f' eaten) m' d (d.within w) Q) :
    Follows w o n (Parser.eat t >>= f) (Parser.eat t >>= f') m' c (c.within w) Q :=
  .option ho hsemi (h true) (h false c ho)

end Follows

/-! ## Tokens and lists -/

namespace Starts

theorem expect (hsemi : t ≠ .symbol .semi) :
    Starts w n (Parser.expect t) (Parser.expect t) (fun x => x) fun c _ d => c.Reads [] d := by
  intro c c' hc
  rw [Parser.expect]
  exact .eat hc hsemi (fun d _ hd => .pure rfl hd) (.fail hc (.refl c))

theorem identifier :
    Starts w n Parser.identifier Parser.identifier (fun x => x) fun c _ d => c.Reads [] d := by
  intro c c' hc
  have ho := Cursor.Passes.refl c
  rw [Parser.identifier]
  refine .peek hc (fun t ht => ?_) (fun _ => .fail hc ho) fun _ hw => .fail_of_more hw ho
  split
  · exact .advance hc ht fun d hd => .pure rfl hd
  · exact .fail hc ho

variable {nodes : α → List Node} {rounds rounds' : Nat}

theorem commaList (hitem : Starts w n p q m fun c a d => c.Reads (nodes a) d) (hn : n ≤ rounds)
    (hrounds : rounds ≤ rounds') (done : List α) :
    Starts w n (Parser.commaList p rounds done) (Parser.commaList q rounds' (done.map m))
      (List.map m) fun c as d =>
        ∃ bs, as = done.reverse ++ bs ∧ bs ≠ [] ∧ c.Reads (bs.flatMap nodes) d := by
  induction rounds generalizing n rounds' done with
  | zero => exact fun c c' _ => .tooDeep (by omega)
  | succ rounds ih =>
      obtain ⟨rounds', rfl⟩ := Nat.exists_eq_add_of_le' (Nat.one_le_of_lt hrounds)
      rw [Parser.commaList, Parser.commaList]
      refine hitem.bind fun c a d hd => .eat (near_within w d) (by decide) (fun e _ he => ?_) ?_
      · have hless := hitem.mono (Nat.sub_le n 1)
        have hpasses := hd.beyond he.passes.zero
        refine ((ih hless (by omega) (by omega) (a :: done) e _ (near_within w e)).behind
          hpasses.passes).imp ?_
        rintro as d' ⟨bs, rfl, -, hbs⟩
        exact ⟨a :: bs, by simp, List.cons_ne_nil a bs, hpasses.append hbs.holds⟩
      · refine .pure (by simp) ⟨[a], by simp, List.cons_ne_nil a [], ?_⟩
        rwa [List.flatMap_singleton]

theorem listUntil {close : Symbol} (hclose : close ≠ .semi)
    (hitem : Starts w n p q m fun c a d => c.Reads (nodes a) d) (hn : n ≤ rounds)
    (hrounds : rounds ≤ rounds') :
    Starts w n (Parser.listUntil close p rounds) (Parser.listUntil close q rounds') (List.map m)
      fun c as d => c.Reads (as.flatMap nodes) d := by
  have hsemi : Token.symbol close ≠ .symbol .semi := fun h => hclose (Token.symbol.inj h)
  intro c c' hc
  rw [Parser.listUntil, Parser.listUntil]
  refine .eat hc hsemi (fun d _ hd => .pure rfl hd) ?_
  refine (hitem.commaList hn hrounds [] c c' hc).bind ?_
  rintro _ d ⟨items, rfl, -, hitems⟩
  exact .pass hitems (.expect hsemi) fun _ e he => .pure rfl he

end Starts

end Parser

end ScriptLang
