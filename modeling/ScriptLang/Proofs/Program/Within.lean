import Mathlib
import ScriptLang.Proofs.Program.Moved
import ScriptLang.Proofs.Program.Trace

/-!
# A cursor in a longer text

A text is put into a longer one, behind some bytes and in front of nothing or of a
semicolon. Each cursor of the text has its counterpart in the longer one, and moves along
with it over the same tokens.
-/

namespace ScriptLang

/-- Where a text stands in a longer one: what is in front of it, and the lexemes behind it. -/
structure Around extends Shift where
  more : List Lexeme
  final : Span
  ends : ∀ l ∈ more.head?, l.token = .symbol .semi

def Lexeme.moved (σ : Shift) (l : Lexeme) : Lexeme :=
  ⟨l.token, l.span.moved σ.bytes, l.line + σ.lines⟩

@[simp] theorem Lexeme.token_moved (σ : Shift) (l : Lexeme) : (l.moved σ).token = l.token := rfl

/-- The same cursor in the longer text. -/
def Cursor.within (w : Around) (c : Cursor) : Cursor :=
  ⟨c.rest.map (Lexeme.moved w.toShift) ++ w.more, c.last.moved w.bytes, w.final⟩

/-- The same cursor in the longer text, whatever was read last. -/
def Cursor.Near (w : Around) (c c' : Cursor) : Prop :=
  c'.rest = (c.within w).rest ∧ c'.final = w.final

/-- Nothing stands around the text. -/
def Around.none (final : Span) : Around := ⟨.none, [], final, fun _ hl => by cases hl⟩

namespace Cursor

variable {w : Around} {c c' d : Cursor} {t : Token}

theorem near_within (w : Around) (c : Cursor) : Near w c (c.within w) := ⟨rfl, rfl⟩

theorem within_none (c : Cursor) : c.within (.none c.final) = c := by
  obtain ⟨rest, last, final⟩ := c
  rw [within]
  exact congrArg (fun rest => (⟨rest, last, final⟩ : Cursor))
    ((List.append_nil _).trans (List.map_id _))

/-- If nothing stands around the text, only what was read last may differ. -/
theorem Near.of_none (h : Near (.none c.final) c c') : c'.rest = c.rest ∧ c'.final = c.final := by
  rwa [Near, within_none] at h

theorem Near.rest_cons (h : Near w c c') {l : Lexeme} {rest : List Lexeme}
    (hc : c.rest = l :: rest) :
    c'.rest = l.moved w.toShift :: (rest.map (Lexeme.moved w.toShift) ++ w.more) := by
  rw [h.1, within, hc]
  rfl

theorem Near.token?_of_some (h : Near w c c') (ht : c.token? = some t) : c'.token? = some t := by
  obtain ⟨l, rest, hc, rfl⟩ := exists_rest_of_token? ht
  rw [token?, h.rest_cons hc]
  rfl

/-- At the end of the text nothing follows in the longer one, or a semicolon. -/
theorem Near.token?_of_none (h : Near w c c') (hc : c.token? = none) :
    c'.token? = none ∨ w.more ≠ [] ∧ c'.token? = some (.symbol .semi) := by
  rw [token?, h.1, within, rest_of_token? hc]
  cases hmore : w.more with
  | nil => exact .inl rfl
  | cons l more =>
      have hends := w.ends l (by rw [hmore]; rfl)
      exact .inr ⟨List.cons_ne_nil l more, congrArg some hends⟩

/-- Once a token is read, it is known what was read last. -/
theorem Near.next_eq (h : Near w c c') (ht : c.token? = some t) :
    c'.next = c.next.within w := by
  obtain ⟨l, rest, hc, -⟩ := exists_rest_of_token? ht
  rw [next, next, h.rest_cons hc, hc, within, h.2]
  rfl

/-- Where a token is left, it stands at the same place, moved. -/
theorem Near.place_eq (h : Near w c c') (hpasses : c.Passes 1 d) :
    c'.place = c.place.moved w.toShift := by
  obtain ⟨t, ht⟩ := hpasses.exists_token
  obtain ⟨l, rest, hc, -⟩ := exists_rest_of_token? ht
  rw [place, place, span, line, span, line, h.rest_cons hc, hc]
  rfl

/-- Whether the next token is some other than a semicolon is known at the end as well. -/
theorem Near.token?_eq_iff (h : Near w c c') (hsemi : t ≠ .symbol .semi) :
    c'.token? = some t ↔ c.token? = some t := by
  constructor
  · intro ht'
    cases ht : c.token? with
    | some u =>
        rw [h.token?_of_some ht] at ht'
        exact ht'
    | none =>
        rcases h.token?_of_none ht with hend | ⟨-, hend⟩ <;> rw [hend] at ht'
        · cases ht'
        · exact absurd (Option.some.inj ht').symm hsemi
  · exact h.token?_of_some

theorem overSemis_fst (last : Span) (rest : List Lexeme) :
    (overSemis last rest).1 = rest.dropWhile (·.token = .symbol .semi) := by
  induction rest generalizing last with
  | nil => rfl
  | cons l rest ih =>
      by_cases hsemi : l.token = .symbol .semi
      · rw [overSemis, if_pos hsemi, ih, List.dropWhile_cons_of_pos (by simpa using hsemi)]
      · rw [overSemis, if_neg hsemi, List.dropWhile_cons_of_neg (by simpa using hsemi)]

theorem skipSemis_rest (c : Cursor) :
    c.skipSemis.rest = c.rest.dropWhile (·.token = .symbol .semi) :=
  overSemis_fst c.last c.rest

theorem overSemis_moved (w : Around) {last : Span} {rest : List Lexeme}
    (h : (overSemis last rest).1 ≠ [] ∨ w.more = []) :
    overSemis (last.moved w.bytes) (rest.map (Lexeme.moved w.toShift) ++ w.more) =
      ((overSemis last rest).1.map (Lexeme.moved w.toShift) ++ w.more,
        (overSemis last rest).2.moved w.bytes) := by
  induction rest generalizing last with
  | nil =>
      have hmore : w.more = [] := h.resolve_left fun hne => hne rfl
      rw [hmore]
      rfl
  | cons l rest ih =>
      rw [List.map_cons, List.cons_append, overSemis, overSemis, Lexeme.token_moved]
      by_cases hsemi : l.token = .symbol .semi
      · rw [overSemis, if_pos hsemi] at h
        rw [if_pos hsemi, if_pos hsemi]
        exact ih h
      · rw [if_neg hsemi, if_neg hsemi]
        rfl

/-- Semicolons are skipped alike, unless they go on behind the text. -/
theorem skipSemis_within {c : Cursor} (h : c.skipSemis.rest ≠ [] ∨ w.more = []) :
    (c.within w).skipSemis = c.skipSemis.within w := by
  rw [skipSemis, within, overSemis_moved w h]
  rfl

theorem Near.skipSemis (h : Near w c c') (hne : c.skipSemis.rest ≠ []) :
    Near w c.skipSemis c'.skipSemis := by
  refine ⟨?_, h.2⟩
  rw [skipSemis_rest, h.1, ← skipSemis_rest, skipSemis_within (.inl hne)]

theorem exists_overSemis_append {semis : List Lexeme} (more : List Lexeme)
    (h : ∀ l ∈ semis, l.token = .symbol .semi) (last : Span) :
    ∃ last', overSemis last (semis ++ more) = overSemis last' more := by
  induction semis generalizing last with
  | nil => exact ⟨last, rfl⟩
  | cons l semis ih =>
      obtain ⟨hsemi, hrest⟩ := List.forall_mem_cons.mp h
      rw [List.cons_append, overSemis, if_pos hsemi]
      exact ih hrest l.span

/-- Where only semicolons are left of the text, those behind it are skipped as well. -/
theorem Near.skipSemis_end (h : Near w c c') (hnil : c.skipSemis.rest = []) :
    ∃ e : Cursor, e.rest = w.more ∧ e.final = w.final ∧ c'.skipSemis = e.skipSemis := by
  rw [skipSemis_rest, List.dropWhile_eq_nil_iff] at hnil
  have hsemis : ∀ l ∈ c.rest.map (Lexeme.moved w.toShift), l.token = .symbol .semi := by
    intro l hl
    obtain ⟨l', hl', rfl⟩ := List.mem_map.mp hl
    simpa using hnil l' hl'
  obtain ⟨last, hlast⟩ := exists_overSemis_append w.more hsemis c'.last
  refine ⟨⟨w.more, last, w.final⟩, rfl, rfl, ?_⟩
  rw [Cursor.skipSemis, h.1, within, hlast, h.2]
  rfl

end Cursor

end ScriptLang
