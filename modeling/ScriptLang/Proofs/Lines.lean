import Mathlib
import ScriptLang.Proofs.Token.Lossless

/-!
# The line of an offset

The search for the line of an offset counts the line breaks up to it. So lines grow
with offsets, a text put behind another leaves the lines of the other alone, and its
own lines move by the number of line breaks in front of it.
-/

namespace ScriptLang.Lines

/-! ## The search -/

/-- Every line below `lo` begins at or before `offset`, and every line from `hi` on behind it. -/
def Splits (starts : Array Nat) (offset lo hi : Nat) : Prop :=
  (∀ i < lo, starts.getD i 0 ≤ offset) ∧
    ∀ i, hi ≤ i → i < starts.size → offset < starts.getD i 0

theorem firstBehind_splits {starts : Array Nat} {offset : Nat}
    (hsorted : ∀ i j, i ≤ j → j < starts.size → starts.getD i 0 ≤ starts.getD j 0) :
    ∀ {rounds lo hi : Nat}, lo ≤ hi → hi ≤ starts.size → hi - lo ≤ rounds →
      Splits starts offset lo hi →
      firstBehind starts offset rounds lo hi ≤ starts.size ∧
        Splits starts offset (firstBehind starts offset rounds lo hi)
          (firstBehind starts offset rounds lo hi)
  | 0, lo, hi, hle, hsize, hrounds, h => by
      obtain rfl : lo = hi := by omega
      exact ⟨hsize, h⟩
  | rounds + 1, lo, hi, hle, hsize, hrounds, h => by
      rw [firstBehind]
      split
      case isFalse hge =>
        obtain rfl : lo = hi := by omega
        exact ⟨hsize, h⟩
      case isTrue hlt =>
        dsimp only
        split
        case isTrue hmid =>
          refine firstBehind_splits hsorted (by omega) hsize (by omega) ⟨fun i hi => ?_, h.2⟩
          exact (hsorted i _ (by omega) (by omega)).trans hmid
        case isFalse hmid =>
          refine firstBehind_splits hsorted (by omega) (by omega) (by omega)
            ⟨h.1, fun i hi hs => ?_⟩
          exact (Nat.lt_of_not_le hmid).trans_le (hsorted _ i hi hs)

theorem getD_toArray {starts : List Nat} {i : Nat} (hi : i < starts.length) :
    starts.toArray.getD i 0 = starts[i] := by
  simp [Array.getD, hi]

theorem countP_of_splits {starts : List Nat} {offset n : Nat} (hn : n ≤ starts.length)
    (h : Splits starts.toArray offset n n) : starts.countP (· ≤ offset) = n := by
  have hfront : (starts.take n).countP (· ≤ offset) = n := by
    rw [List.countP_eq_length.mpr, List.length_take, Nat.min_eq_left hn]
    intro x hx
    obtain ⟨i, hi, rfl⟩ := List.mem_take_iff_getElem.mp hx
    have hle := h.1 i (by omega)
    rw [getD_toArray (by omega)] at hle
    simpa using hle
  have hback : (starts.drop n).countP (· ≤ offset) = 0 := by
    rw [List.countP_eq_zero]
    intro x hx
    obtain ⟨i, hi, rfl⟩ := List.mem_drop_iff_getElem.mp hx
    have hlt := h.2 (n + i) (by omega) (by simpa [Nat.add_comm] using hi)
    rw [getD_toArray (by omega)] at hlt
    simpa using hlt
  rw [← List.take_append_drop n starts, List.countP_append, hfront, hback, Nat.add_zero]

/-! ## Line breaks -/

theorem lt_of_mem_breaksFrom {offset b : Nat} {cs : List Char} (h : b ∈ breaksFrom offset cs) :
    offset < b ∧ b ≤ offset + byteLength cs := by
  induction cs generalizing offset with
  | nil => cases h
  | cons c cs ih =>
      have hpos := c.utf8Size_pos
      rw [breaksFrom] at h
      rw [byteLength_cons]
      split at h
      · rcases List.mem_cons.mp h with rfl | h
        · omega
        · have := ih h
          omega
      · have := ih h
        omega

theorem pairwise_breaksFrom (offset : Nat) (cs : List Char) :
    (breaksFrom offset cs).Pairwise (· < ·) := by
  induction cs generalizing offset with
  | nil => exact .nil
  | cons c cs ih =>
      rw [breaksFrom]
      split
      · exact .cons (fun b hb => (lt_of_mem_breaksFrom hb).1) (ih _)
      · exact ih _

theorem breaksFrom_append (offset : Nat) (as bs : List Char) :
    breaksFrom offset (as ++ bs) =
      breaksFrom offset as ++ breaksFrom (offset + byteLength as) bs := by
  induction as generalizing offset with
  | nil => rfl
  | cons c as ih =>
      rw [List.cons_append, breaksFrom, breaksFrom, byteLength_cons, ← Nat.add_assoc]
      split
      · rw [ih, List.cons_append]
      · rw [ih]

theorem breaksFrom_add (n offset : Nat) (cs : List Char) :
    breaksFrom (offset + n) cs = (breaksFrom offset cs).map (· + n) := by
  induction cs generalizing offset with
  | nil => rfl
  | cons c cs ih =>
      have hnext : offset + n + c.utf8Size = offset + c.utf8Size + n := by omega
      rw [breaksFrom, breaksFrom, hnext]
      split
      · rw [ih, List.map_cons]
      · rw [ih]

theorem length_breaksFrom (offset : Nat) (cs : List Char) :
    (breaksFrom offset cs).length = cs.count '\n' := by
  induction cs generalizing offset with
  | nil => rfl
  | cons c cs ih =>
      rw [breaksFrom]
      split
      · rename_i hbreak
        rw [List.length_cons, ih, hbreak, List.count_cons_self]
      · rename_i hother
        rw [ih, List.count_cons_of_ne hother]

/-! ## Lines -/

/-- The line of an offset is one more than the number of line breaks up to it. -/
theorem line_ofText (source : String) (offset : Nat) :
    (ofText source).line offset = 1 + (breaksFrom 0 source.toList).countP (· ≤ offset) := by
  have hsorted : (0 :: breaksFrom 0 source.toList).Pairwise (· ≤ ·) :=
    .cons (fun b _ => Nat.zero_le b) ((pairwise_breaksFrom 0 source.toList).imp Nat.le_of_lt)
  have hstarts : ∀ i j, i ≤ j → j < (ofText source).starts.size →
      (ofText source).starts.getD i 0 ≤ (ofText source).starts.getD j 0 := by
    intro i j hij hj
    have hj' : j < (0 :: breaksFrom 0 source.toList).length := hj
    have hi' : i < (0 :: breaksFrom 0 source.toList).length := hij.trans_lt hj'
    rw [ofText, getD_toArray hi', getD_toArray hj']
    exact hsorted.rel_get_of_le (a := ⟨i, hi'⟩) (b := ⟨j, hj'⟩) hij
  have hall : Splits (ofText source).starts offset 0 (ofText source).starts.size :=
    ⟨fun i hi => absurd hi (Nat.not_lt_zero i), fun i hi hs => absurd hs (Nat.not_lt_of_le hi)⟩
  obtain ⟨hle, hsplits⟩ :=
    firstBehind_splits hstarts (Nat.zero_le _) le_rfl (Nat.sub_le _ _) hall
  have hcount := countP_of_splits hle hsplits
  rw [line, ← hcount]
  exact (List.countP_cons_of_pos (by simp)).trans (Nat.add_comm _ _)

theorem line_mono (source : String) {o o' : Nat} (h : o ≤ o') :
    (ofText source).line o ≤ (ofText source).line o' := by
  rw [line_ofText, line_ofText]
  refine Nat.add_le_add_left (List.countP_mono_left fun b _ hb => ?_) 1
  rw [decide_eq_true_eq] at hb ⊢
  exact hb.trans h

/-- What stands behind a text has no bearing on its lines. -/
theorem line_append_left (a b : String) {o : Nat} (h : o ≤ a.utf8ByteSize) :
    (ofText (a ++ b)).line o = (ofText a).line o := by
  have hback : (breaksFrom (0 + byteLength a.toList) b.toList).countP (· ≤ o) = 0 := by
    rw [List.countP_eq_zero]
    intro x hx
    have hlt := (lt_of_mem_breaksFrom hx).1
    rw [utf8ByteSize_eq] at h
    rw [decide_eq_true_eq]
    omega
  rw [line_ofText, line_ofText, String.toList_append, breaksFrom_append, List.countP_append, hback,
    Nat.add_zero]

/-- The lines of a text move by the number of line breaks in front of it. -/
theorem line_append_right (a b : String) (o : Nat) :
    (ofText (a ++ b)).line (o + a.utf8ByteSize) = (ofText b).line o + a.toList.count '\n' := by
  have hfront : (breaksFrom 0 a.toList).countP (· ≤ o + a.utf8ByteSize) = a.toList.count '\n' := by
    rw [List.countP_eq_length.mpr, length_breaksFrom]
    intro x hx
    have hle := (lt_of_mem_breaksFrom hx).2
    rw [utf8ByteSize_eq, decide_eq_true_eq]
    omega
  have hback : (breaksFrom (0 + byteLength a.toList) b.toList).countP (· ≤ o + a.utf8ByteSize) =
      (breaksFrom 0 b.toList).countP (· ≤ o) := by
    rw [breaksFrom_add, List.countP_map, utf8ByteSize_eq]
    refine List.countP_congr fun x _ => ?_
    simp
  rw [line_ofText, line_ofText, String.toList_append, breaksFrom_append, List.countP_append, hfront,
    hback]
  omega

end ScriptLang.Lines
