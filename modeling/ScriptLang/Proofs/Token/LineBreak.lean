import Mathlib
import ScriptLang.Proofs.Token.Lossless

/-!
# Scanning across a line break

No token goes on over a blank that stands behind it, and every comment ends at a line
break. So a text with tokens, a line break and another text are scanned one after
the other, the second with its offsets moved by what stands in front of it.
-/

namespace ScriptLang

/-- The same bytes in a text that has `n` bytes more in front. -/
def Span.moved (n : Nat) (s : Span) : Span := ⟨s.start + n, s.stop + n⟩

/-- The same failure in a text that has `n` bytes more in front. -/
def LexError.moved (n : Nat) (e : LexError) : LexError := ⟨e.cause, e.span.moved n⟩

namespace Token

variable {c : Char} {as bs : List Char}

/-! ## One token -/

theorem takeWhile_stop {p : Char → Bool} {b : Char} (hp : p b = false) (as bs : List Char) :
    (as ++ b :: bs).takeWhile p = as.takeWhile p := by
  induction as with
  | nil => simp [hp]
  | cons c as ih =>
      rw [List.cons_append, List.takeWhile_cons, List.takeWhile_cons, ih]

theorem dropWhile_stop {p : Char → Bool} {b : Char} (hp : p b = false) (as bs : List Char) :
    (as ++ b :: bs).dropWhile p = as.dropWhile p ++ b :: bs := by
  induction as with
  | nil => simp [hp]
  | cons c as ih =>
      rw [List.cons_append, List.dropWhile_cons, List.dropWhile_cons, ih]
      split <;> rfl

theorem textTail_append {q : Char} {read : List Char} (hq : q ≠ '\\')
    (h : textTail q as = (read, true)) (bs : List Char) :
    textTail q (as ++ bs) = (read, true) := by
  have hpre : read <+: as := by simpa only [h] using textTail_isPrefix q as
  obtain ⟨body, rfl, hbody⟩ := body_of_textTail h
  obtain ⟨more, rfl⟩ := hpre
  rw [List.append_assoc, List.append_assoc]
  exact textTail_of_body hq hbody (more ++ bs)

section Blank

variable {b : Char} (hb : isSpace b = true)
include hb

theorem isDigit_blank : b.isDigit = false := by
  rcases isSpace_iff.mp hb with rfl | rfl | rfl | rfl <;> rfl

theorem isNamePart_blank : isNamePart b = false := by
  rcases isSpace_iff.mp hb with rfl | rfl | rfl | rfl <;> rfl

theorem numberTail_blank (as bs : List Char) : numberTail (as ++ b :: bs) = numberTail as := by
  have hpoint : b ≠ '.' := by
    rintro rfl
    cases hb
  unfold numberTail
  rw [takeWhile_stop (isDigit_blank hb), dropWhile_stop (isDigit_blank hb)]
  cases as.dropWhile Char.isDigit with
  | nil =>
      rw [List.nil_append]
      split
      · rename_i heq
        exact absurd (List.cons.inj heq).1 hpoint
      · rfl
  | cons d ds =>
      by_cases hd : d = '.'
      · subst hd
        simp [takeWhile_stop (isDigit_blank hb)]
      · rw [List.cons_append]
        split
        · rename_i heq
          exact absurd (List.cons.inj heq).1 hd
        · split
          · rename_i heq
            exact absurd (List.cons.inj heq).1 hd
          · rfl

theorem pairSymbol?_blank (c : Char) : pairSymbol? c b = none := by
  refine List.find?_eq_none.mpr fun s _ htext => ?_
  have hblank : s.text.toList.all (fun c => !isSpace c) = true := by cases s <;> rfl
  rw [eq_of_beq htext] at hblank
  simp [hb] at hblank

theorem symbolAt?_blank (c : Char) (as bs : List Char) :
    symbolAt? c (as ++ b :: bs) = symbolAt? c as := by
  cases as with
  | nil => simp [symbolAt?, pairSymbol?_blank hb]
  | cons d as => rfl

/-- A token is read alike if a blank follows. -/
theorem tokenAt_blank {found : Token × List Char} (h : tokenAt c as = .ok found)
    (bs : List Char) : tokenAt c (as ++ b :: bs) = .ok found := by
  by_cases hdigit : c.isDigit = true
  · rw [tokenAt_of_isDigit hdigit] at h ⊢
    rwa [numberTail_blank hb]
  by_cases hstart : isNameStart c = true
  · rw [tokenAt_of_isNameStart hdigit hstart] at h ⊢
    rwa [takeWhile_stop (isNamePart_blank hb)]
  by_cases hquote : (c = '"' || c = '\'') = true
  · have hne : c ≠ '\\' := by
      rintro rfl
      cases hquote
    obtain ⟨read, closed, hread⟩ : ∃ read closed, textTail c as = (read, closed) := ⟨_, _, rfl⟩
    rw [tokenAt_of_quote hdigit hstart hquote hread] at h
    cases closed with
    | false => cases h
    | true => rwa [tokenAt_of_quote hdigit hstart hquote (textTail_append hne hread _)]
  rw [tokenAt, if_neg hdigit, if_neg hstart, if_neg hquote] at h ⊢
  rwa [symbolAt?_blank hb]

end Blank

/-! ## Whole texts -/

/-- Behind a text with tokens and a line break, scanning begins anew. -/
theorem scanFrom_break {offset : Nat} {tokens : List (Token × Span)}
    (h : scanFrom offset as = .ok tokens) (bs : List Char) :
    scanFrom offset (as ++ '\n' :: bs) =
      (scanFrom (offset + byteLength as + 1) bs).map (tokens ++ ·) := by
  fun_induction scanFrom offset as generalizing tokens with
  | case1 offset =>
      obtain rfl := Except.ok.inj h
      rw [List.nil_append, scanFrom_blank rfl]
      show scanFrom (offset + 1) bs = (scanFrom (offset + 1) bs).map ([] ++ ·)
      cases scanFrom (offset + 1) bs <;> rfl
  | case2 offset c rest hspace ih =>
      rw [List.cons_append, scanFrom_blank hspace, ih h, byteLength_cons, ← Nat.add_assoc]
  | case3 offset rest hspace ih =>
      have hsplit := congrArg byteLength
        (List.takeWhile_append_dropWhile (p := fun c => decide (c ≠ '\n')) (l := rest))
      rw [byteLength_append] at hsplit
      rw [List.cons_append, scanFrom, if_neg hspace, if_pos rfl, takeWhile_stop rfl,
        dropWhile_stop rfl, ih h, byteLength_cons, ← hsplit]
      simp only [Nat.add_assoc]
  | case4 | case5 => cases h
  | case6 offset c rest hspace hhash t tail htoken stop tokens' hrest =>
      rename_i ih
      obtain rfl := Except.ok.inj h
      -- a token that ends before the break does not get longer by it
      obtain ⟨after, rfl⟩ := (tokenAt_ok htoken).isPrefix
      rw [List.drop_left] at hrest ih
      have hlength : offset + byteLength (c :: (tail ++ after)) + 1 =
          stop + byteLength after + 1 := by
        simp only [stop, byteLength_cons, byteLength_append]
        omega
      rw [hlength, List.cons_append, scanFrom, if_neg hspace, if_neg hhash,
        tokenAt_blank rfl htoken bs]
      dsimp only
      rw [List.append_assoc, List.drop_left, ih hrest]
      cases scanFrom (stop + byteLength after + 1) bs <;> rfl

/-- The tokens of a text behind `n` bytes. -/
def movedAll (n : Nat) (tokens : List (Token × Span)) : List (Token × Span) :=
  tokens.map fun x => (x.1, x.2.moved n)

/-- What stands in front of a text moves its spans and changes nothing else, in a failure too. -/
theorem scanFrom_moved (offset n : Nat) (as : List Char) :
    scanFrom (offset + n) as =
      ((scanFrom offset as).map (movedAll n)).mapError (LexError.moved n) := by
  fun_induction scanFrom offset as with
  | case1 offset =>
      rw [scanFrom]
      rfl
  | case2 offset c rest hspace ih => rw [scanFrom_blank hspace, Nat.add_right_comm, ih]
  | case3 offset rest hspace ih =>
      rw [scanFrom, if_neg hspace, if_pos rfl, ← ih]
      congr 1
      omega
  | case4 offset c rest hspace hhash cause read hread =>
      have hstop : offset + n + c.utf8Size + byteLength read =
          offset + c.utf8Size + byteLength read + n := by omega
      rw [scanFrom, if_neg hspace, if_neg hhash, hread]
      dsimp only
      rw [hstop]
      rfl
  | case5 offset c rest hspace hhash t tail htoken stop e hrest
  | case6 offset c rest hspace hhash t tail htoken stop tokens hrest =>
      rename_i ih
      have hstop : offset + n + c.utf8Size + byteLength tail = stop + n := by
        simp only [stop]
        omega
      rw [scanFrom, if_neg hspace, if_neg hhash, htoken]
      dsimp only
      rw [hstop, ih, hrest]
      rfl

theorem scanFrom_add {offset : Nat} {tokens : List (Token × Span)}
    (h : scanFrom offset as = .ok tokens) (n : Nat) :
    scanFrom (offset + n) as = .ok (movedAll n tokens) := by
  rw [scanFrom_moved, h]
  rfl

/-- Behind a text with tokens and a line break, another text is scanned as it is alone. -/
theorem scan_break {a : String} {tokens : List (Token × Span)} (h : scan a = .ok tokens)
    (b : String) :
    scan (a ++ "\n" ++ b) =
      ((scan b).map fun more => tokens ++ movedAll (a.utf8ByteSize + 1) more).mapError
        (LexError.moved (a.utf8ByteSize + 1)) := by
  have hlist : (a ++ "\n" ++ b).toList = a.toList ++ '\n' :: b.toList := by
    rw [String.toList_append, String.toList_append, List.append_assoc]
    rfl
  rw [scan, hlist, scanFrom_break h, ← utf8ByteSize_eq, Nat.add_assoc, scanFrom_moved, scan]
  cases scanFrom 0 b.toList <;> rfl

/-- **Scanning is compositional at line breaks.** Behind a text that has tokens and a line break
come the tokens of the other text with their spans moved, or its failure with the same message
and its span moved. -/
theorem scan_compositional {a : String} {tokens : List (Token × Span)} (h : scan a = .ok tokens)
    (b : String) :
    (∀ more, scan b = .ok more →
      scan (a ++ "\n" ++ b) = .ok (tokens ++ movedAll (a.utf8ByteSize + 1) more)) ∧
    ∀ e, scan b = .error e →
      ∃ e', scan (a ++ "\n" ++ b) = .error e' ∧ e'.message = e.message ∧
        e'.span = e.span.moved (a.utf8ByteSize + 1) := by
  rw [scan_break h]
  constructor
  · intro more hb
    rw [hb]
    rfl
  · intro e hb
    rw [hb]
    exact ⟨_, rfl, rfl, rfl⟩

/-- The first text ends in a comment with a quote in it. The second has a line break inside
quotes; the third leaves a quote open. -/
theorem scan_behind_comment :
    (scan "x<# it's é" = .ok [(.name "x", ⟨0, 1⟩), (.symbol .lt, ⟨1, 2⟩)] ∧
      scan "='\n'" = .ok [(.symbol .eq, ⟨0, 1⟩), (.text "\n", ⟨1, 4⟩)] ∧
      scan "1 'é" = .error ⟨.unterminatedText, ⟨2, 5⟩⟩) ∧
    scan ("x<# it's é" ++ "\n" ++ "='\n'") =
      .ok [(.name "x", ⟨0, 1⟩), (.symbol .lt, ⟨1, 2⟩), (.symbol .eq, ⟨12, 13⟩),
        (.text "\n", ⟨13, 16⟩)] ∧
    ∃ e, scan ("x<# it's é" ++ "\n" ++ "1 'é") = .error e ∧
      e.message = "unterminated string literal" ∧ e.span = ⟨14, 17⟩ := by
  have hfirst : scan "x<# it's é" = .ok [(.name "x", ⟨0, 1⟩), (.symbol .lt, ⟨1, 2⟩)] := by
    decide +kernel
  have hquoted : scan "='\n'" = .ok [(.symbol .eq, ⟨0, 1⟩), (.text "\n", ⟨1, 4⟩)] := by
    decide +kernel
  have hopen : scan "1 'é" = .error ⟨.unterminatedText, ⟨2, 5⟩⟩ := by decide +kernel
  exact ⟨⟨hfirst, hquoted, hopen⟩, (scan_compositional hfirst _).1 _ hquoted,
    (scan_compositional hfirst _).2 _ hopen⟩

end Token

end ScriptLang
