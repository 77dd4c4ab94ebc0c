import Mathlib
import ScriptLang.Proofs.Token.LineBreak

/-!
# Words that spell tokens

A word that spells a token spells no other one (`ofWordAt?_of_spelled`), and it is scanned as
this token if it stands alone or a blank follows it (`scanFrom_spelled`). So words with blanks
between them are scanned one by one (`scanFrom_words`).
-/

namespace ScriptLang.Token

section OneWord

variable {c : Char} {w rest : List Char} {t : Token}

theorem ofWordAt?_of_name (h : c :: w ∈ TokenRule.name.language) :
    ofWordAt? c w = some (ofWord (c :: w)) := by
  obtain ⟨hdigit, hstart⟩ := first_of_name h
  rw [ofWordAt?, if_neg hdigit, if_pos hstart]

theorem ofWord_text (k : Keyword) : ofWord k.text.toList = keyword k := by
  cases k <;> rfl

theorem find?_text (s : Symbol) :
    Symbol.all.find? (fun s' => s'.text.toList == s.text.toList) = some s := by
  cases s <;> rfl

/-- A word spells one token at most. -/
theorem ofWordAt?_of_spelled (h : Spelled (c :: w) t) : ofWordAt? c w = some t := by
  cases t with
  | keyword k =>
      have hword : c :: w = k.text.toList := h
      rw [ofWordAt?_of_name (hword ▸ k.isName_text), hword, ofWord_text]
  | symbol s =>
      have hword : c :: w = s.text.toList := h
      obtain ⟨hdigit, hstart, hquote⟩ := s.first_of_text hword.symm
      simp only [ofWordAt?, hdigit, hstart, hquote, Bool.false_eq_true, if_false, hword, find?_text,
        Option.map_some]
  | number n =>
      obtain ⟨hword, rfl⟩ := h
      rw [ofWordAt?, if_pos (first_of_number hword)]
  | text s =>
      obtain ⟨⟨rule, hrule, hword⟩, rfl⟩ := h
      simp only [List.mem_cons, List.not_mem_nil, or_false] at hrule
      rcases hrule with rfl | rfl
      all_goals
        obtain rfl := first_of_quoted hword
        rfl
  | name s =>
      obtain ⟨hword, rfl, hkeyword⟩ := h
      rw [ofWordAt?_of_name hword, ofWord]
      have hnone : Keyword.ofText? (String.ofList (c :: w)) = none := by
        refine List.find?_eq_none.mpr fun k _ htext => ?_
        refine hkeyword k ?_
        show c :: w = k.text.toList
        rw [eq_of_beq htext, String.toList_ofList]
      rw [hnone]

/-- A word that spells a token is scanned as the token. -/
theorem tokenAt_of_spelled (h : Spelled (c :: w) t) : tokenAt c w = .ok (t, w) := by
  cases hread : tokenAt c w with
  | error e => exact absurd (List.prefix_refl w) ((tokenAt_error hread).2 w h.wordAt)
  | ok found =>
      obtain ⟨t', tail⟩ := found
      have hlong := tokenAt_ok hread
      have hge := hlong.longest w h.wordAt (List.prefix_refl w)
      obtain rfl : tail = w := hlong.isPrefix.eq_of_length_le hge
      rw [Option.some.inj (hlong.token.symm.trans (ofWordAt?_of_spelled h))]

/-- No word begins as what stands between tokens does. -/
theorem first_of_wordAt (h : WordAt c w) : ¬isSpace c = true ∧ c ≠ '#' := by
  by_contra hskip
  have hcases : c = ' ' ∨ c = '\t' ∨ c = '\n' ∨ c = '\r' ∨ c = '#' := by
    rw [not_and_or, not_not, not_not, isSpace_iff] at hskip
    tauto
  obtain ⟨s, hs⟩ : ∃ s : Symbol, s.text.toList = c :: w := by
    refine (wordAt_of_other ?_ ?_ ?_).mp h
    all_goals rcases hcases with rfl | rfl | rfl | rfl | rfl <;> decide
  have hfirst : s.text.toList.head?.all (fun c => !isSpace c && c ≠ '#') = true := by
    cases s <;> rfl
  rw [hs] at hfirst
  rcases hcases with rfl | rfl | rfl | rfl | rfl <;> cases hfirst

/-- One word: what follows it is scanned on its own. -/
theorem scanFrom_spelled (h : Spelled w t) (hrest : ∀ b ∈ rest.head?, isSpace b = true)
    {offset : Nat} {tokens : List (Token × Span)}
    (hscan : scanFrom (offset + byteLength w) rest = .ok tokens) :
    scanFrom offset (w ++ rest) = .ok ((t, ⟨offset, offset + byteLength w⟩) :: tokens) := by
  obtain ⟨rule, hrule⟩ := h.exists_rule
  rcases w with _ | ⟨c, w⟩
  · exact absurd hrule rule.nil_not_mem
  obtain ⟨hspace, hhash⟩ := first_of_wordAt h.wordAt
  have htoken : tokenAt c (w ++ rest) = .ok (t, w) := by
    rcases rest with _ | ⟨b, rest⟩
    · rw [List.append_nil, tokenAt_of_spelled h]
    · exact tokenAt_blank (hrest b rfl) (tokenAt_of_spelled h) rest
  rw [byteLength_cons, ← Nat.add_assoc] at hscan ⊢
  exact scanFrom_token hspace hhash htoken hscan

theorem scanFrom_alone (h : Spelled w t) (offset : Nat) :
    scanFrom offset w = .ok [(t, ⟨offset, offset + byteLength w⟩)] := by
  have hend : scanFrom (offset + byteLength w) [] = .ok [] := by rw [scanFrom]
  have hscan := scanFrom_spelled h (by rintro b ⟨⟩) hend
  rwa [List.append_nil] at hscan

end OneWord

/-- Words with blanks between them are scanned one by one. -/
theorem scanFrom_words {word : Token → List Char} {ts : List Token}
    (h : ∀ t ∈ ts, Spelled (word t) t) (offset : Nat) :
    ∃ tokens, scanFrom offset ([' '].intercalate (ts.map word)) = .ok tokens ∧
      tokens.map Prod.fst = ts := by
  induction ts generalizing offset with
  | nil => exact ⟨[], by rw [List.map_nil, List.intercalate_nil, scanFrom], rfl⟩
  | cons t ts ih =>
      rw [List.forall_mem_cons] at h
      rcases h with ⟨ht, hts⟩
      rcases ts with _ | ⟨t', ts⟩
      · rw [List.map_singleton, List.intercalate_singleton]
        exact ⟨_, scanFrom_alone ht offset, rfl⟩
      · obtain ⟨tokens, hscan, hmap⟩ := ih hts (offset + byteLength (word t) + ' '.utf8Size)
        rw [← scanFrom_blank rfl] at hscan
        have hword := scanFrom_spelled ht (by rintro b ⟨⟩; rfl) hscan
        rw [List.map_cons, List.map_cons, List.intercalate_cons_cons, List.append_assoc]
        exact ⟨_, hword, congrArg (t :: ·) hmap⟩

end ScriptLang.Token
