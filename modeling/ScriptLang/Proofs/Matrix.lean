import Mathlib
import ScriptLang.Matrix

/-!
# The cells of a matrix

A matrix has fewer cells than 64 bits can count, so the place of a cell in a row and a
column that it has is counted without overflow and lies inside. Reading such a cell
never breaks off, and the cells of a row and those that are shown are such cells.
-/

namespace ScriptLang

theorem cellLimit_eq : cellLimit = 2 ^ 60 := rfl

theorem cellLimit_lt_size : cellLimit < UInt64.size := by decide

namespace Matrix

variable {m m' : Matrix} {row col r c : Nat}

/-! ## Places -/

/-- The place of a cell lies inside. -/
theorem place_lt (hr : row < m.rows.toNat) (hc : col < m.cols.toNat) :
    row * m.cols.toNat + col < m.data.size := by
  have hrow : (row + 1) * m.cols.toNat ≤ m.rows.toNat * m.cols.toNat := Nat.mul_le_mul_right _ hr
  rw [Nat.succ_mul] at hrow
  rw [m.size_data]
  omega

/-- What lies inside is counted in 64 bits. -/
theorem lt_size_of_lt {k : Nat} (h : k < m.data.size) : k < UInt64.size :=
  h.trans (m.size_lt.trans cellLimit_lt_size)

theorem place_eq (hr : row < m.rows.toNat) (hc : col < m.cols.toNat) :
    m.place row col = .ok (row * m.cols.toNat + col) := by
  have hinside := place_lt hr hc
  have hword := lt_size_of_lt hinside
  rw [place, if_neg (Nat.not_le.mpr hword), if_neg (Nat.not_le.mpr hinside)]

/-- The row and the column of a place. -/
theorem row_of_place {cols : Nat} (hc : col < cols) : (row * cols + col) / cols = row := by
  rw [Nat.mul_comm, Nat.mul_add_div (Nat.zero_lt_of_lt hc), Nat.div_eq_of_lt hc, Nat.add_zero]

theorem col_of_place {cols : Nat} (hc : col < cols) : (row * cols + col) % cols = col := by
  rw [Nat.mul_comm, Nat.mul_add_mod, Nat.mod_eq_of_lt hc]

/-- Places of different cells differ. -/
theorem place_inj {cols : Nat} (hc : c < cols) (hcol : col < cols)
    (h : r * cols + c = row * cols + col) : r = row ∧ c = col := by
  constructor
  · calc
      r = (r * cols + c) / cols := (row_of_place hc).symm
      _ = (row * cols + col) / cols := by rw [h]
      _ = row := row_of_place hcol
  · calc
      c = (r * cols + c) % cols := (col_of_place hc).symm
      _ = (row * cols + col) % cols := by rw [h]
      _ = col := col_of_place hcol

/-! ## Single cells -/

theorem getElem?_place (hr : row < m.rows.toNat) (hc : col < m.cols.toNat) :
    m.data[row * m.cols.toNat + col]? = some (m.get row col) := by
  have h := place_lt hr hc
  rw [get, Array.getD_eq_getD_getElem?, Array.getElem?_eq_getElem h, Option.getD_some]

theorem read_eq (hr : row < m.rows.toNat) (hc : col < m.cols.toNat) :
    m.read row col = .ok (m.get row col) := by
  rw [read, place_eq hr hc]
  rfl

theorem write_eq (hr : row < m.rows.toNat) (hc : col < m.cols.toNat) (x : Float) :
    m.write row col x = .ok (m.set row col x) := by
  rw [write, place_eq hr hc]
  rfl

theorem get_set_self (hr : row < m.rows.toNat) (hc : col < m.cols.toNat) (x : Float) :
    (m.set row col x).get row col = x := by
  have h := place_lt hr hc
  rw [get, set, Array.getD_eq_getD_getElem?, Array.getElem?_setIfInBounds_self_of_lt h,
    Option.getD_some]

/-- A cell that is written leaves all others. -/
theorem get_set_ne (hc : c < m.cols.toNat) (hcol : col < m.cols.toNat)
    (hne : ¬(r = row ∧ c = col)) (x : Float) : (m.set row col x).get r c = m.get r c := by
  have hplace : row * m.cols.toNat + col ≠ r * m.cols.toNat + c := by
    intro h
    exact hne (place_inj hc hcol h.symm)
  rw [get, get, set, Array.getD_eq_getD_getElem?, Array.getD_eq_getD_getElem?,
    Array.getElem?_setIfInBounds_ne hplace]

/-- Matrices of one size with the same cells are the same. -/
theorem eq_of_get (hrows : m.rows = m'.rows) (hcols : m.cols = m'.cols)
    (h : ∀ row < m.rows.toNat, ∀ col < m.cols.toNat, m.get row col = m'.get row col) :
    m = m' := by
  have hsize : m.data.size = m'.data.size := by
    rw [m.size_data, m'.size_data, hrows, hcols]
  have hdata : m.data = m'.data := by
    refine Array.ext hsize ?_
    intro k hk hk'
    -- the place of a cell gives its row and its column
    have hlt : k < m.cols.toNat * m.rows.toNat := by
      rw [Nat.mul_comm, ← m.size_data]
      exact hk
    have hcol : k % m.cols.toNat < m.cols.toNat :=
      Nat.mod_lt _ (Nat.pos_of_mul_pos_right (Nat.zero_lt_of_lt hlt))
    have hplace : k / m.cols.toNat * m.cols.toNat + k % m.cols.toNat = k := by
      rw [Nat.mul_comm]
      exact Nat.div_add_mod k m.cols.toNat
    have hcell := h (k / m.cols.toNat) (Nat.div_lt_of_lt_mul hlt) (k % m.cols.toNat) hcol
    rw [get, get, ← hcols, hplace, Array.getD_eq_getD_getElem?, Array.getD_eq_getD_getElem?,
      Array.getElem?_eq_getElem hk, Array.getElem?_eq_getElem hk'] at hcell
    exact hcell
  cases m
  cases m'
  cases hrows
  cases hcols
  cases hdata
  rfl

/-! ## Rows -/

theorem mapM_eq_ok_map {α β : Type} {f : α → Except Crash β} {g : α → β} {xs : List α}
    (h : ∀ x ∈ xs, f x = .ok (g x)) : xs.mapM f = .ok (xs.map g) := by
  induction xs with
  | nil => rfl
  | cons x xs ih =>
      rw [List.forall_mem_cons] at h
      rw [List.mapM_cons, h.1, ih h.2]
      rfl

/-- The cells of a row lie inside. -/
theorem row_le (hr : row < m.rows.toNat) : (row + 1) * m.cols.toNat ≤ m.data.size := by
  rw [m.size_data]
  exact Nat.mul_le_mul_right _ hr

theorem row?_eq (hr : row < m.rows.toNat) :
    m.row? row = some ((List.range m.cols.toNat).map (m.get row)) := by
  rw [row?, if_pos hr]
  refine congrArg some (List.ext_getElem ?_ ?_)
  · rw [Array.length_toList, Array.size_extract, Nat.min_eq_left (row_le hr), Nat.succ_mul,
      Nat.add_sub_cancel_left, List.length_map, List.length_range]
  · intro col h₁ h₂
    have hc : col < m.cols.toNat := by simpa using h₂
    have hcell := getElem?_place hr hc
    rw [Array.getElem?_eq_getElem (place_lt hr hc), Option.some.injEq] at hcell
    rw [Array.getElem_toList, Array.getElem_extract, hcell, List.getElem_map, List.getElem_range]

/-- The text of a matrix whose cells are given row by row. -/
def shown (rows cols : Nat) (cells : List (List Float)) : String :=
  let lines := cells.map fun row =>
    "  [" ++ String.intercalate ", " (row.map Number.general) ++ "]"
  let body := if lines.isEmpty then "" else String.intercalate ",\n" lines ++ "\n"
  "Matrix(" ++ toString rows ++ "x" ++ toString cols ++ ")[\n" ++ body ++ "]"

end Matrix

end ScriptLang
