import Mathlib
import ScriptLang.Proofs.Lines

/-!
# Lines and line feed bytes

Only a line break has a line feed among the bytes of its UTF-8 form, and it has no other
byte. So the line of an offset is one more than the number of line feeds before that
offset, wherever it points: into a character, or past the end of the text
(`Lines.line_counts_breaks`). Lines begin at different offsets, so it does not matter
which way the search for an offset goes.
-/

namespace ScriptLang

/-- The byte that ends a line. -/
def lineFeed : UInt8 := 10

/-! ## Bytes of characters -/

theorem utf8EncodeChar_break : String.utf8EncodeChar '\n' = [lineFeed] := by decide

theorem lineFeed_notMem_utf8EncodeChar {c : Char} (h : c ≠ '\n') :
    lineFeed ∉ String.utf8EncodeChar c := by
  have hval : c.val.toNat ≠ 10 := fun hten => h (Char.ext (UInt32.toNat_inj.mp hten))
  -- a byte below 256 is a line feed only if it is 10, and those of longer forms are above 127
  have hbyte (n : Nat) (hn : n < 256) (hten : n ≠ 10) : lineFeed ≠ UInt8.ofNat n := by
    intro heq
    have hnat := congrArg UInt8.toNat heq
    rw [UInt8.toNat_ofNat_of_lt' hn] at hnat
    exact hten hnat.symm
  unfold String.utf8EncodeChar
  dsimp only
  split
  · simpa using hbyte _ (by omega) hval
  split
  · simp only [List.mem_cons, List.not_mem_nil, or_false, not_or]
    exact ⟨hbyte _ (by omega) (by omega), hbyte _ (by omega) (by omega)⟩
  split
  · simp only [List.mem_cons, List.not_mem_nil, or_false, not_or]
    exact ⟨hbyte _ (by omega) (by omega), hbyte _ (by omega) (by omega),
      hbyte _ (by omega) (by omega)⟩
  · simp only [List.mem_cons, List.not_mem_nil, or_false, not_or]
    exact ⟨hbyte _ (by omega) (by omega), hbyte _ (by omega) (by omega),
      hbyte _ (by omega) (by omega), hbyte _ (by omega) (by omega)⟩

theorem bytes_eq (source : String) :
    source.toUTF8.data.toList = source.toList.flatMap String.utf8EncodeChar := by
  conv_lhs => rw [← String.ofList_toList (s := source)]
  rw [String.toUTF8_eq_toByteArray, String.toByteArray_ofList, List.utf8Encode,
    List.data_toByteArray]

namespace Lines

/-! ## Counting -/

/-- The lines of a text that begins at `start` and the line feeds in it, both up to `offset`. -/
theorem countP_breaksFrom (offset start : Nat) (cs : List Char) :
    (breaksFrom start cs).countP (· ≤ offset) =
      ((cs.flatMap String.utf8EncodeChar).take (offset - start)).count lineFeed := by
  induction cs generalizing start with
  | nil => simp [breaksFrom]
  | cons c cs ih =>
      have hrest : offset - start - (String.utf8EncodeChar c).length =
          offset - (start + c.utf8Size) := by
        rw [String.length_utf8EncodeChar, Nat.sub_sub]
      rw [breaksFrom, List.flatMap_cons, List.take_append, List.count_append, hrest, ← ih]
      split
      case isTrue hbreak =>
        subst hbreak
        have hsize : '\n'.utf8Size = 1 := by decide
        rw [List.countP_cons, utf8EncodeChar_break, hsize, Nat.add_comm]
        congr 1
        by_cases hle : start + 1 ≤ offset
        · rw [List.take_of_length_le (by simp; omega)]
          simp [hle]
        · rw [Nat.sub_eq_zero_of_le (by omega)]
          simp [hle]
      case isFalse hother =>
        have hnone : lineFeed ∉ (String.utf8EncodeChar c).take (offset - start) :=
          fun hmem => lineFeed_notMem_utf8EncodeChar hother (List.mem_of_mem_take hmem)
        rw [List.count_eq_zero_of_not_mem hnone, Nat.zero_add]

theorem line_eq_count (source : String) (offset : Nat) :
    (ofText source).line offset = 1 + (source.toUTF8.data.toList.take offset).count lineFeed := by
  rw [line_ofText, countP_breaksFrom, bytes_eq, Nat.sub_zero]

/-! ## Searching -/

theorem pairwise_starts (source : String) : (ofText source).starts.toList.Pairwise (· < ·) :=
  .cons (fun _ hb => (lt_of_mem_breaksFrom hb).1) (pairwise_breaksFrom 0 source.toList)

theorem line_eq_countP (source : String) (offset : Nat) :
    (ofText source).line offset = (ofText source).starts.toList.countP (· ≤ offset) := by
  rw [line_ofText, Nat.add_comm]
  exact (List.countP_cons_of_pos (by simp)).symm

theorem countP_le_of_mem {starts : List Nat} {offset : Nat} (hsorted : starts.Pairwise (· < ·))
    (hmem : offset ∈ starts) : starts.countP (· ≤ offset) = starts.idxOf offset + 1 := by
  induction hsorted with
  | nil => cases hmem
  | @cons start rest hlt _ ih =>
      by_cases hhit : start = offset
      · have hnone : rest.countP (· ≤ offset) = 0 :=
          List.countP_eq_zero.mpr fun b hb => by have := hlt b hb; simp; omega
        rw [List.countP_cons_of_pos (by simp [hhit]), hnone, hhit, List.idxOf_cons_self]
      · have hrest : offset ∈ rest := List.mem_of_ne_of_mem (Ne.symm hhit) hmem
        have hbefore : start ≤ offset := Nat.le_of_lt (hlt offset hrest)
        rw [List.countP_cons_of_pos (by simpa using hbefore), ih hrest, List.idxOf_cons_ne _ hhit]

/-- At the beginning of a line the search gives the index of that beginning, and elsewhere the
number of lines that begin before the offset. Lines are counted from one. -/
theorem line_eq_search (source : String) (offset : Nat) :
    (ofText source).line offset =
      if offset ∈ (ofText source).starts.toList then
        (ofText source).starts.toList.idxOf offset + 1
      else (ofText source).starts.toList.countP (· < offset) := by
  rw [line_eq_countP]
  split
  case isTrue hhit => exact countP_le_of_mem (pairwise_starts source) hhit
  case isFalse hmiss =>
    refine List.countP_congr fun start hstart => ?_
    have hne : start ≠ offset := fun heq => hmiss (heq ▸ hstart)
    rw [decide_eq_true_eq, decide_eq_true_eq]
    exact ⟨fun hle => Nat.lt_of_le_of_ne hle hne, Nat.le_of_lt⟩

/-- The line of an offset is one more than the number of line feeds at the bytes before it, for
offsets inside a character and past the end as well. It grows with the offset and is never zero,
and it is what a search among the beginnings of lines gives, whether or not it hits one. -/
theorem line_counts_breaks (source : String) :
    (∀ offset, (ofText source).line offset =
      1 + (source.toUTF8.data.toList.take offset).count lineFeed) ∧
    Monotone (ofText source).line ∧
    (∀ offset, (ofText source).line offset ≠ 0) ∧
    ∀ offset, (ofText source).line offset =
      if offset ∈ (ofText source).starts.toList then
        (ofText source).starts.toList.idxOf offset + 1
      else (ofText source).starts.toList.countP (· < offset) := by
  refine ⟨line_eq_count source, fun _ _ h => line_mono source h, fun offset => ?_,
    line_eq_search source⟩
  rw [line_eq_count]
  omega

/-- A character of two bytes, an empty line and offsets behind the end. -/
example : [0, 1, 2, 3, 4, 5, 9].map (ofText "é\n\nx").line = [1, 1, 1, 2, 3, 3, 3] := by decide

end Lines

end ScriptLang
