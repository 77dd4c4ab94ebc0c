import Mathlib
import ScriptLang.Proofs.Token.Spelling

/-!
# Literals of texts

One pass finds where a quoted text ends, and another finds what it says. Both go by the
same pieces: a character that stands for itself, or a backslash with the character behind
it. So a text is read back from any way to write each of its characters as such a piece
(`spelled_pieces`). To put a backslash before each backslash and each quote is one such
way, and every text has a literal (`scan_literal`).
-/

namespace ScriptLang.Token

/-! ## Pieces -/

/-- What stands for a character between quotes `q`. -/
inductive Piece (q c : Char) : List Char → Prop where
  | plain : c ≠ q → c ≠ '\\' → Piece q c [c]
  | escape {d : Char} : unescape ['\\', d] = [c] → Piece q c ['\\', d]

theorem unescape_plain {c : Char} (h : c ≠ '\\') (cs : List Char) :
    unescape (c :: cs) = c :: unescape cs := by
  cases cs with
  | nil => rfl
  | cons d cs => exact if_neg h

/-- A backslash takes the next character with it, and nothing behind that. -/
theorem unescape_escape (d : Char) (cs : List Char) :
    unescape ('\\' :: d :: cs) = unescape ['\\', d] ++ unescape cs := by
  simp only [unescape, if_true]
  split <;> rfl

section Pieces

variable {q : Char} {write : Char → List Char} {cs : List Char}

theorem quotedBody_pieces (h : ∀ c ∈ cs, Piece q c (write c)) :
    QuotedBody q (cs.flatMap write) := by
  induction cs with
  | nil => exact .nil
  | cons c cs ih =>
      rw [List.forall_mem_cons] at h
      rcases h with ⟨hc, hcs⟩
      rw [List.flatMap_cons]
      generalize write c = w at hc
      cases hc with
      | plain hq hb => exact .plain hq hb (ih hcs)
      | @escape d hd =>
          have hbreak : d ≠ '\n' := by
            rintro rfl
            cases hd
          exact .escape hbreak (ih hcs)

theorem unescape_pieces (h : ∀ c ∈ cs, Piece q c (write c)) :
    unescape (cs.flatMap write) = cs := by
  induction cs with
  | nil => rfl
  | cons c cs ih =>
      rw [List.forall_mem_cons] at h
      rcases h with ⟨hc, hcs⟩
      rw [List.flatMap_cons]
      generalize write c = w at hc
      cases hc with
      | plain hq hb => rw [List.singleton_append, unescape_plain hb, ih hcs]
      | @escape d hd =>
          show unescape ('\\' :: d :: cs.flatMap write) = _
          rw [unescape_escape, hd, ih hcs]
          rfl

/-- A text is read back from its pieces. -/
theorem spelled_pieces (hq : q = '"' ∨ q = '\'') (h : ∀ c ∈ cs, Piece q c (write c)) :
    Spelled (q :: cs.flatMap write ++ [q]) (text (String.ofList cs)) := by
  have hquoted : q :: cs.flatMap write ++ [q] ∈ quotedBy q :=
    mem_quotedBy.mpr ⟨_, rfl, quotedBody_pieces h⟩
  constructor
  · rcases hq with rfl | rfl
    · exact ⟨.doubleQuoted, by simp, hquoted⟩
    · exact ⟨.singleQuoted, by simp, hquoted⟩
  · show _ = String.ofList (unescape (cs.flatMap write ++ [q]).dropLast)
    rw [List.dropLast_concat, unescape_pieces h]

end Pieces

/-! ## Literals -/

/-- A character between quotes `q`, with a backslash before a backslash or a quote. -/
def escaped (q c : Char) : List Char := if c = '\\' ∨ c = q then ['\\', c] else [c]

/-- The literal of a text between quotes `q`. -/
def literal (q : Char) (s : String) : String :=
  String.ofList (q :: s.toList.flatMap (escaped q) ++ [q])

theorem piece_escaped {q : Char} (hq : q = '"' ∨ q = '\'') (c : Char) :
    Piece q c (escaped q c) := by
  unfold escaped
  split_ifs with h
  · refine .escape ?_
    rcases h with rfl | rfl
    · rfl
    · rcases hq with rfl | rfl <;> rfl
  · rw [not_or] at h
    exact .plain h.2 h.1

theorem scan_literal_alone {q : Char} (hq : q = '"' ∨ q = '\'') (s : String) :
    scan (literal q s) = .ok [(.text s, ⟨0, (literal q s).utf8ByteSize⟩)] := by
  have hspelled := spelled_pieces hq fun c (_ : c ∈ s.toList) => piece_escaped hq c
  rw [String.ofList_toList] at hspelled
  have hscan := scanFrom_alone hspelled 0
  rw [Nat.zero_add] at hscan
  rw [literal, scan, String.toList_ofList, utf8ByteSize_ofList]
  exact hscan

/-- **Every text has a literal.** Between quotes of either kind, with a backslash before each
backslash and each such quote, a text is scanned as one token, which is the text and takes the
whole source. Behind a source that has tokens and a line break, the literal adds just this token. -/
theorem scan_literal {q : Char} (hq : q = '"' ∨ q = '\'') (s : String) :
    scan (literal q s) = .ok [(.text s, ⟨0, (literal q s).utf8ByteSize⟩)] ∧
    ∀ a tokens, scan a = .ok tokens →
      scan (a ++ "\n" ++ literal q s) =
        .ok (tokens ++
          [(.text s, Span.moved (a.utf8ByteSize + 1) ⟨0, (literal q s).utf8ByteSize⟩)]) := by
  have halone := scan_literal_alone hq s
  refine ⟨halone, ?_⟩
  intro a tokens ha
  rw [scan_break ha, halone]
  rfl

/-- A text of backslashes, quotes of both kinds and a line break, alone and behind a comment that
has an open quote. -/
theorem scan_literal_backslashes :
    literal '\'' "\\'\\\\\n\"é" = "'\\\\\\'\\\\\\\\\n\"é'" ∧
      scan "'\\\\\\'\\\\\\\\\n\"é'" = .ok [(.text "\\'\\\\\n\"é", ⟨0, 14⟩)] ∧
      scan "x # '" = .ok [(.name "x", ⟨0, 1⟩)] ∧
      scan ("x # '" ++ "\n" ++ "'\\\\\\'\\\\\\\\\n\"é'") =
        .ok [(.name "x", ⟨0, 1⟩), (.text "\\'\\\\\n\"é", ⟨6, 20⟩)] := by
  have hliteral : literal '\'' "\\'\\\\\n\"é" = "'\\\\\\'\\\\\\\\\n\"é'" := by decide +kernel
  have hfirst : scan "x # '" = .ok [(.name "x", ⟨0, 1⟩)] := by decide +kernel
  have hscan := scan_literal (Or.inr rfl) "\\'\\\\\n\"é"
  rw [hliteral] at hscan
  exact ⟨hliteral, hscan.1, hfirst, hscan.2 _ _ hfirst⟩

end ScriptLang.Token
