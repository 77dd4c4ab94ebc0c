import Mathlib
import ScriptLang.Proofs.Matrix

/-!
# Products cell by cell

A product is made in place: a matrix of zeros is filled row by row, each row from left to
right, and every cell is the sum over a row of the left and a column of the right matrix.
No two cells share a place, so a cell that is written stays as it is while the others are
filled. No place that is read or written on the way lies outside.

The matrix of zeros may be too large, and then the product breaks off. Where the size wraps
around instead, the array is too short and a cell is written outside of it, so that the
product breaks off as well; in all other cases wrapping around makes no difference.
-/

namespace ScriptLang

namespace Matrix

variable {m p a b : Matrix} {row col : Nat}

/-! ## Filling in place -/

section Fill

variable {σ : Type} {s : σ} {cell : Nat → Nat → Except Crash Float}
  {write : σ → Nat → Nat → Float → Except Crash σ} {rows cols : Nat}

/-- A loop whose steps go on, each from where the one before has led to. -/
theorem foldlM_range_eq_ok {f : σ → Nat → Except Crash σ} {I : Nat → σ → Prop} {n : Nat}
    (h : I 0 s) (hstep : ∀ k < n, ∀ s, I k s → ∃ s', f s k = .ok s' ∧ I (k + 1) s') :
    ∃ s', (List.range n).foldlM f s = .ok s' ∧ I n s' := by
  induction n with
  | zero => exact ⟨s, rfl, h⟩
  | succ n ih =>
      obtain ⟨s₁, hrun, hs₁⟩ := ih fun k hk => hstep k (Nat.lt_succ_of_lt hk)
      obtain ⟨s₂, hlast, hs₂⟩ := hstep n n.lt_succ_self s₁ hs₁
      refine ⟨s₂, ?_, hs₂⟩
      rw [List.range_succ, List.foldlM_append, hrun]
      show f s₁ n >>= pure = .ok s₂
      rw [bind_pure]
      exact hlast

/-- What every step of a loop keeps, the loop keeps. -/
theorem foldlM_keeps {α : Type} {f : σ → α → Except Crash σ} {I : σ → Prop} {xs : List α} {s' : σ}
    (hkeep : ∀ s x s', I s → f s x = .ok s' → I s') (h : I s)
    (hok : xs.foldlM f s = .ok s') : I s' := by
  induction xs generalizing s with
  | nil =>
      cases hok
      exact h
  | cons x xs ih =>
      rw [List.foldlM_cons] at hok
      cases hx : f s x with
      | error e =>
          rw [hx] at hok
          cases hok
      | ok s₁ =>
          rw [hx] at hok
          exact ih (hkeep s x s₁ h hx) hok

/-- A loop with a step that breaks off wherever it starts. -/
theorem foldlM_eq_error {α : Type} {f : σ → α → Except Crash σ} {I : σ → Prop} {xs : List α}
    {x : α} (hx : x ∈ xs) (hkeep : ∀ s y s', I s → f s y = .ok s' → I s')
    (hfail : ∀ s, I s → ∃ e, f s x = .error e) (h : I s) :
    ∃ e, xs.foldlM f s = .error e := by
  induction xs generalizing s with
  | nil => cases hx
  | cons y ys ih =>
      rw [List.foldlM_cons]
      cases hy : f s y with
      | error e => exact ⟨e, rfl⟩
      | ok s' =>
          rcases List.mem_cons.mp hx with rfl | hmem
          · obtain ⟨e, he⟩ := hfail s h
            cases he.symm.trans hy
          · exact ih hmem (hkeep s y s' h hy)

/-- What holds before a cell, and holds behind it if it is written, holds in the end. The end of a
row is the beginning of the next. -/
theorem fill_eq_ok {I : Nat → Nat → σ → Prop}
    (hstep : ∀ row < rows, ∀ col < cols, ∀ s, I row col s →
      ∃ x s', cell row col = .ok x ∧ write s row col x = .ok s' ∧ I row (col + 1) s')
    (hnext : ∀ row s, I row cols s → I (row + 1) 0 s) (h : I 0 0 s) :
    ∃ s', fill cell write rows cols s = .ok s' ∧ I rows 0 s' := by
  refine foldlM_range_eq_ok (I := fun row => I row 0) h ?_
  intro row hr s hs
  have hrow : ∃ s', (List.range cols).foldlM
      (fun s col => do write s row col (← cell row col)) s = .ok s' ∧ I row cols s' := by
    refine foldlM_range_eq_ok (I := I row) hs ?_
    intro col hc s hs
    obtain ⟨x, s', hcell, hwrite, hs'⟩ := hstep row hr col hc s hs
    rw [hcell]
    exact ⟨s', hwrite, hs'⟩
  obtain ⟨s', hrun, hs'⟩ := hrow
  exact ⟨s', hrun, hnext row s' hs'⟩

/-- If one cell cannot be written, filling breaks off. -/
theorem fill_eq_error {I : σ → Prop} (hr : row < rows) (hc : col < cols)
    (hkeep : ∀ s row col x s', I s → write s row col x = .ok s' → I s')
    (hfail : ∀ s x, I s → ∃ e, write s row col x = .error e) (h : I s) :
    ∃ e, fill cell write rows cols s = .error e := by
  have hcell : ∀ row s col s', I s →
      (do write s row col (← cell row col) : Except Crash σ) = .ok s' → I s' := by
    intro row s col s' hs hok
    cases hx : cell row col with
    | error e =>
        rw [hx] at hok
        cases hok
    | ok x =>
        rw [hx] at hok
        exact hkeep s row col x s' hs hok
  refine foldlM_eq_error (List.mem_range.mpr hr) ?_ ?_ h
  · intro s row s' hs hok
    exact foldlM_keeps (hcell row) hs hok
  · intro s hs
    refine foldlM_eq_error (List.mem_range.mpr hc) (hcell row) ?_ hs
    intro s hs
    cases hx : cell row col with
    | error e => exact ⟨e, rfl⟩
    | ok x => exact hfail s x hs

end Fill

/-! ## Zeros and sums -/

theorem zeros_of_lt {rows cols : UInt64} (h : rows.toNat * cols.toNat < cellLimit) :
    ∃ m, zeros rows cols = .ok m ∧ m.rows = rows ∧ m.cols = cols ∧
      m.data = Array.replicate (rows.toNat * cols.toNat) 0.0 := by
  rw [zeros, if_pos (h.trans cellLimit_lt_size), dif_pos h]
  exact ⟨_, rfl, rfl, rfl, rfl⟩

/-- Which limit is exceeded tells how zeros break off. -/
theorem zeros_of_le {rows cols : UInt64} (h : cellLimit ≤ rows.toNat * cols.toNat) :
    zeros rows cols = .error
      (if rows.toNat * cols.toNat < UInt64.size then .capacityOverflow else .sizeOverflow) := by
  rw [zeros, dif_neg (Nat.not_lt.mpr h)]
  split <;> rfl

/-- The cell of a product. -/
def entry (a b : Matrix) (row col : Nat) : Float :=
  Number.sum ((List.range a.cols.toNat).map fun k => a.get row k * b.get k col)

theorem entry_eq_foldl (a b : Matrix) (row col : Nat) :
    entry a b row col = (List.range a.cols.toNat).foldl
      (fun total k => total + a.get row k * b.get k col) (-0.0) := by
  rw [entry, Number.sum, List.foldl_map]

/-- If cells inside are read as they are, the sums are those of the cells. -/
theorem dot_eq {read : Matrix → Nat → Nat → Except Crash Float}
    (hread : ∀ m : Matrix, ∀ row < m.rows.toNat, ∀ col < m.cols.toNat,
      read m row col = .ok (m.get row col))
    (hinner : a.cols = b.rows) (hr : row < a.rows.toNat) (hc : col < b.cols.toNat) :
    dot read a b row col = .ok (entry a b row col) := by
  have hterms : (List.range a.cols.toNat).mapM
      (fun k => do return (← read a row k) * (← read b k col)) =
        .ok ((List.range a.cols.toNat).map fun k => a.get row k * b.get k col) := by
    refine mapM_eq_ok_map ?_
    intro k hk
    have hk := List.mem_range.mp hk
    rw [hread a row hr k hk, hread b k (hinner ▸ hk) col hc]
    rfl
  rw [dot, hterms]
  rfl

/-! ## The product -/

/-- The matrix has this size, and its cells before a row and a column are those of the product. -/
structure FilledTo (a b : Matrix) (row col : Nat) (m : Matrix) : Prop where
  rows_eq : m.rows = a.rows
  cols_eq : m.cols = b.cols
  written : ∀ r < a.rows.toNat, ∀ c < b.cols.toNat, r < row ∨ r = row ∧ c < col →
    m.get r c = entry a b r c

namespace FilledTo

theorem zero (hrows : m.rows = a.rows) (hcols : m.cols = b.cols) : FilledTo a b 0 0 m := by
  refine ⟨hrows, hcols, ?_⟩
  rintro r - c - (hlt | ⟨-, hlt⟩)
  · exact absurd hlt (Nat.not_lt_zero r)
  · exact absurd hlt (Nat.not_lt_zero c)

/-- One cell more is written, and those before it stay. -/
theorem set (h : FilledTo a b row col m) (hr : row < a.rows.toNat) (hc : col < b.cols.toNat) :
    FilledTo a b row (col + 1) (m.set row col (entry a b row col)) := by
  refine ⟨h.rows_eq, h.cols_eq, ?_⟩
  intro r hr' c hc' hbefore
  by_cases hsame : r = row ∧ c = col
  · rcases hsame with ⟨rfl, rfl⟩
    exact get_set_self (h.rows_eq ▸ hr) (h.cols_eq ▸ hc) _
  · rw [get_set_ne (h.cols_eq ▸ hc') (h.cols_eq ▸ hc) hsame]
    refine h.written r hr' c hc' ?_
    rcases hbefore with hlt | ⟨rfl, hle⟩
    · exact Or.inl hlt
    · exact Or.inr ⟨rfl, lt_of_le_of_ne (Nat.le_of_lt_succ hle) fun heq => hsame ⟨rfl, heq⟩⟩

/-- The end of a row is the beginning of the next. -/
theorem next (h : FilledTo a b row b.cols.toNat m) : FilledTo a b (row + 1) 0 m := by
  refine ⟨h.rows_eq, h.cols_eq, ?_⟩
  rintro r hr c hc (hlt | ⟨-, hzero⟩)
  · refine h.written r hr c hc ?_
    rcases Nat.lt_or_eq_of_le (Nat.le_of_lt_succ hlt) with hbefore | heq
    · exact Or.inl hbefore
    · exact Or.inr ⟨heq, hc⟩
  · exact absurd hzero (Nat.not_lt_zero c)

theorem get_eq (h : FilledTo a b a.rows.toNat 0 m) (hr : row < a.rows.toNat)
    (hc : col < b.cols.toNat) : m.get row col = entry a b row col :=
  h.written row hr col hc (Or.inl hr)

/-- Only one matrix is filled to the end. -/
theorem unique {m' : Matrix} (h : FilledTo a b a.rows.toNat 0 m)
    (h' : FilledTo a b a.rows.toNat 0 m') : m = m' := by
  refine eq_of_get (h.rows_eq.trans h'.rows_eq.symm) (h.cols_eq.trans h'.cols_eq.symm) ?_
  intro row hr col hc
  rw [h.rows_eq] at hr
  rw [h.cols_eq] at hc
  rw [h.get_eq hr hc, h'.get_eq hr hc]

end FilledTo

theorem mul_of_ne (h : a.cols ≠ b.rows) : a.mul b = .ok none := if_neg h

/-- A product that is not too large is there, with the sums in its cells. -/
theorem mul_of_lt (hinner : a.cols = b.rows) (hsize : a.rows.toNat * b.cols.toNat < cellLimit) :
    ∃ p, a.mul b = .ok (some p) ∧ FilledTo a b a.rows.toNat 0 p := by
  obtain ⟨z, hz, hrows, hcols, -⟩ := zeros_of_lt hsize
  obtain ⟨p, hfill, hp⟩ : ∃ p, fill (dot read a b) write a.rows.toNat b.cols.toNat z = .ok p ∧
      FilledTo a b a.rows.toNat 0 p := by
    refine fill_eq_ok ?_ (fun _ _ => FilledTo.next) (.zero hrows hcols)
    intro row hr col hc m hm
    refine ⟨_, _, dot_eq (fun m row hr col hc => read_eq hr hc) hinner hr hc, ?_, hm.set hr hc⟩
    exact write_eq (hm.rows_eq ▸ hr) (hm.cols_eq ▸ hc) _
  refine ⟨p, ?_, hp⟩
  rw [mul, if_pos hinner, hz]
  show some <$> fill (dot read a b) write a.rows.toNat b.cols.toNat z = .ok (some p)
  rw [hfill]
  rfl

theorem mul_of_le (hinner : a.cols = b.rows) (hsize : cellLimit ≤ a.rows.toNat * b.cols.toNat) :
    a.mul b = .error (if a.rows.toNat * b.cols.toNat < UInt64.size then .capacityOverflow
      else .sizeOverflow) := by
  rw [mul, if_pos hinner, zeros_of_le hsize]
  rfl

/-! ## Sizes that wrap around -/

/-- Reads a cell whose place wraps around at 64 bits. -/
def readWrapping (m : Matrix) (row col : Nat) : Except Crash Float :=
  match m.data[(row * m.cols.toNat + col) % UInt64.size]? with
  | some x => .ok x
  | none => .error .outOfBounds

/-- Writes a cell whose place wraps around at 64 bits. -/
def writeWrapping (cols : Nat) (data : Array Float) (row col : Nat) (x : Float) :
    Except Crash (Array Float) :=
  let k := (row * cols + col) % UInt64.size
  if k < data.size then .ok (data.setIfInBounds k x) else .error .outOfBounds

/-- The cells of a product whose size and places wrap around at 64 bits. -/
def mulWrapping (a b : Matrix) : Except Crash (Option (Array Float)) :=
  if a.cols = b.rows then
    if (a.rows * b.cols).toNat < cellLimit then
      some <$> fill (dot readWrapping a b) (writeWrapping b.cols.toNat) a.rows.toNat b.cols.toNat
        (Array.replicate (a.rows * b.cols).toNat 0.0)
    else .error .capacityOverflow
  else .ok none

theorem readWrapping_eq (hr : row < m.rows.toNat) (hc : col < m.cols.toNat) :
    m.readWrapping row col = .ok (m.get row col) := by
  rw [readWrapping, Nat.mod_eq_of_lt (lt_size_of_lt (place_lt hr hc)), getElem?_place hr hc]

theorem writeWrapping_eq (hr : row < m.rows.toNat) (hc : col < m.cols.toNat) (x : Float) :
    writeWrapping m.cols.toNat m.data row col x = .ok (m.set row col x).data := by
  have hinside := place_lt hr hc
  rw [writeWrapping, Nat.mod_eq_of_lt (lt_size_of_lt hinside), if_pos hinside]
  rfl

theorem size_writeWrapping {cols : Nat} {data data' : Array Float} {x : Float}
    (h : writeWrapping cols data row col x = .ok data') : data'.size = data.size := by
  unfold writeWrapping at h
  dsimp only at h
  split at h
  · cases h
    exact Array.size_setIfInBounds
  · cases h

/-- Nothing wraps around in a product that is not too large. -/
theorem mulWrapping_of_lt (hinner : a.cols = b.rows)
    (hsize : a.rows.toNat * b.cols.toNat < cellLimit) (hp : FilledTo a b a.rows.toNat 0 p) :
    mulWrapping a b = .ok (some p.data) := by
  have harea : (a.rows * b.cols).toNat = a.rows.toNat * b.cols.toNat := by
    rw [UInt64.toNat_mul]
    exact Nat.mod_eq_of_lt (hsize.trans cellLimit_lt_size)
  obtain ⟨z, -, hrows, hcols, hdata⟩ := zeros_of_lt hsize
  obtain ⟨data, hfill, m, rfl, hm⟩ : ∃ data,
      fill (dot readWrapping a b) (writeWrapping b.cols.toNat) a.rows.toNat b.cols.toNat
        (Array.replicate (a.rows.toNat * b.cols.toNat) 0.0) = .ok data ∧
      ∃ m : Matrix, data = m.data ∧ FilledTo a b a.rows.toNat 0 m := by
    refine fill_eq_ok
      (I := fun row col data => ∃ m : Matrix, data = m.data ∧ FilledTo a b row col m)
      ?_ ?_ ⟨z, hdata.symm, .zero hrows hcols⟩
    · rintro row hr col hc _ ⟨m, rfl, hm⟩
      refine ⟨_, _, dot_eq (fun m row hr col hc => readWrapping_eq hr hc) hinner hr hc, ?_,
        _, rfl, hm.set hr hc⟩
      rw [← hm.cols_eq]
      exact writeWrapping_eq (hm.rows_eq ▸ hr) (hm.cols_eq ▸ hc) _
    · rintro row _ ⟨m, rfl, hm⟩
      exact ⟨m, rfl, hm.next⟩
  rw [mulWrapping, if_pos hinner, harea, if_pos hsize, hfill, hm.unique hp]
  rfl

/-- A product that is too large breaks off where sizes wrap around, too. The array has as many cells
as are left over, so the first cell that has no room in it is written outside. -/
theorem mulWrapping_of_le (hinner : a.cols = b.rows)
    (hsize : cellLimit ≤ a.rows.toNat * b.cols.toNat) : ∃ e, mulWrapping a b = .error e := by
  rw [mulWrapping, if_pos hinner]
  by_cases hroom : (a.rows * b.cols).toNat < cellLimit
  · rw [if_pos hroom]
    set size := (a.rows * b.cols).toNat with hdef
    have hlt : size < a.rows.toNat * b.cols.toNat := hroom.trans_le hsize
    have hcols : 0 < b.cols.toNat := Nat.pos_of_mul_pos_left (Nat.zero_lt_of_lt hlt)
    have hrow : size / b.cols.toNat < a.rows.toNat := (Nat.div_lt_iff_lt_mul hcols).mpr hlt
    have hplace : size / b.cols.toNat * b.cols.toNat + size % b.cols.toNat = size := by
      rw [Nat.mul_comm]
      exact Nat.div_add_mod size b.cols.toNat
    have hfail (data : Array Float) (x : Float) (hdata : data.size = size) :
        ∃ e, writeWrapping b.cols.toNat data (size / b.cols.toNat) (size % b.cols.toNat) x =
          .error e := by
      refine ⟨.outOfBounds, ?_⟩
      rw [writeWrapping, hplace, Nat.mod_eq_of_lt (hroom.trans cellLimit_lt_size)]
      exact if_neg (Nat.not_lt.mpr hdata.le)
    obtain ⟨e, he⟩ : ∃ e, fill (dot readWrapping a b) (writeWrapping b.cols.toNat) a.rows.toNat
        b.cols.toNat (Array.replicate size 0.0) = .error e :=
      fill_eq_error hrow (Nat.mod_lt size hcols)
        (fun _ _ _ _ _ hdata hok => (size_writeWrapping hok).trans hdata) hfail
        Array.size_replicate
    rw [he]
    exact ⟨e, rfl⟩
  · rw [if_neg hroom]
    exact ⟨_, rfl⟩

/-! ## All places that are used -/

/-- The product breaks off exactly if the matrices fit and it is too large, whether its size is
checked or wraps around. Otherwise it is there exactly if they fit, and each of its cells is the sum
from left to right over a row and a column; nothing wraps around on the way, and all places that are
read or written lie inside. -/
theorem product_entrywise (a b : Matrix) :
    (a.mul b = .ok none ↔ a.cols ≠ b.rows) ∧
    ((∃ e, a.mul b = .error e) ↔
      a.cols = b.rows ∧ 2 ^ 60 ≤ a.rows.toNat * b.cols.toNat) ∧
    ((∃ e, mulWrapping a b = .error e) ↔ ∃ e, a.mul b = .error e) ∧
    ∀ p, a.mul b = .ok (some p) →
      p.rows = a.rows ∧ p.cols = b.cols ∧
      (∀ i < a.rows.toNat, ∀ j < b.cols.toNat, p.read i j = .ok ((List.range a.cols.toNat).foldl
        (fun total k => total + a.get i k * b.get k j) (-0.0))) ∧
      (∀ i < a.rows.toNat, p.row? i = some ((List.range b.cols.toNat).map (p.get i))) ∧
      mulWrapping a b = .ok (some p.data) ∧
      ∀ i < a.rows.toNat, (i + 1) * b.cols.toNat ≤ p.data.size ∧
        ∀ j < b.cols.toNat, i * b.cols.toNat + j < p.data.size ∧
          ∀ k < a.cols.toNat, i * a.cols.toNat + k < a.data.size ∧
            k * b.cols.toNat + j < b.data.size := by
  rw [← cellLimit_eq]
  by_cases hinner : a.cols = b.rows
  case neg =>
    have hwrapping : mulWrapping a b = .ok none := if_neg hinner
    rw [mul_of_ne hinner, hwrapping]
    simp [hinner]
  by_cases hsize : a.rows.toNat * b.cols.toNat < cellLimit
  case neg =>
    have hle := Nat.not_lt.mp hsize
    have hwrapping := mulWrapping_of_le hinner hle
    rw [mul_of_le hinner hle]
    refine ⟨by simp [hinner], by simpa [hinner] using hle, by simpa using hwrapping, ?_⟩
    intro p hp
    cases hp
  obtain ⟨p, hp, hfilled⟩ := mul_of_lt hinner hsize
  have hwrapping := mulWrapping_of_lt hinner hsize hfilled
  rw [hp, hwrapping]
  refine ⟨by simp [hinner], by simpa [hinner] using hsize, by simp, ?_⟩
  rintro _ ⟨⟩
  have hrows := hfilled.rows_eq
  have hcols := hfilled.cols_eq
  refine ⟨hrows, hcols, ?_, ?_, rfl, ?_⟩
  · intro i hi j hj
    rw [read_eq (hrows ▸ hi) (hcols ▸ hj), hfilled.get_eq hi hj, entry_eq_foldl]
  · intro i hi
    rw [row?_eq (hrows ▸ hi), hcols]
  · intro i hi
    refine ⟨?_, fun j hj => ⟨?_, fun k hk => ⟨place_lt hi hk, place_lt (hinner ▸ hk) hj⟩⟩⟩
    · rw [← hcols]
      exact row_le (hrows ▸ hi)
    · rw [← hcols]
      exact place_lt (hrows ▸ hi) (hcols ▸ hj)

/-- Two rows of three cells. -/
def oblong : Matrix := ⟨2, 3, #[1.0, 2.0, 3.0, 4.0, 5.0, 6.0], rfl, by decide⟩

/-- Three rows of two cells. -/
def upright : Matrix := ⟨3, 2, #[0.5, 1.0, -1.0, 0.0, 2.0, 4.0], rfl, by decide⟩

theorem oblong_upright_entrywise :
    oblong.mul oblong = .ok none ∧
    ∃ p, oblong.mul upright = .ok (some p) ∧ p.rows = 2 ∧ p.cols = 2 ∧
      p.read 1 0 = .ok (-0.0 + 4.0 * 0.5 + 5.0 * -1.0 + 6.0 * 2.0) ∧
      p.row? 1 = some [p.get 1 0, p.get 1 1] ∧ mulWrapping oblong upright = .ok (some p.data) ∧
      3 < p.data.size := by
  obtain ⟨hnone, -⟩ := product_entrywise oblong oblong
  refine ⟨hnone.mpr (by decide), ?_⟩
  obtain ⟨hfits, hlarge, -, hproduct⟩ := product_entrywise oblong upright
  cases h : oblong.mul upright with
  | error e => exact absurd (hlarge.mp ⟨e, h⟩).2 (by decide)
  | ok product =>
      cases product with
      | none => exact absurd (hfits.mp h) (by decide)
      | some p =>
          obtain ⟨hrows, hcols, hcell, hrow, hwrapping, hinside⟩ := hproduct p h
          refine ⟨p, rfl, hrows, hcols, hcell 1 (by decide) 0 (by decide), hrow 1 (by decide),
            hwrapping, ?_⟩
          exact ((hinside 1 (by decide)).2 1 (by decide)).1

/-- As many rows as 32 bits can count and one more, without a column. -/
def tall : Matrix := ⟨4294967296, 0, #[], rfl, by decide⟩

/-- As many columns, without a row. -/
def wide : Matrix := ⟨0, 4294967296, #[], rfl, by decide⟩

/-- Matrices that fit, with no cell between them, whose product is too large. -/
theorem tall_wide_breaks_off :
    tall.cols = wide.rows ∧ tall.mul wide = .error .sizeOverflow ∧
      ∃ e, mulWrapping tall wide = .error e :=
  ⟨rfl, mul_of_le rfl (by decide), mulWrapping_of_le rfl (by decide)⟩

end Matrix

end ScriptLang
