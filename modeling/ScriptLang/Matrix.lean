import ScriptLang.Number.Text

/-!
# Matrices of doubles

Cells are kept row by row; there are as many as rows times columns. Sizes and places
are counted in 64 bits, and an array has no room for more than a limit of doubles. An
operation that goes beyond that breaks off, and so does one that reads or writes a
cell outside.
-/

namespace ScriptLang

/-- Why an operation breaks off. No program is told about it. -/
inductive Crash where
  /-- A size or a place is more than 64 bits can count. -/
  | sizeOverflow
  /-- More cells are asked for than an array has room for. -/
  | capacityOverflow
  /-- A cell outside of a matrix is read or written. -/
  | outOfBounds
deriving DecidableEq, Repr

/-- An array of doubles has fewer cells: its bytes are counted in 63 bits. -/
def cellLimit : Nat := Nat.pow 2 60

structure Matrix where
  rows : UInt64
  cols : UInt64
  data : Array Float
  size_data : data.size = rows.toNat * cols.toNat
  size_lt : data.size < cellLimit

namespace Matrix

/-- The matrix with these cells, if they are as many as it needs. -/
def ofData (rows cols : UInt64) (data : Array Float) : Except Crash (Option Matrix) :=
  if rows.toNat * cols.toNat < UInt64.size then
    if h : data.size = rows.toNat * cols.toNat ∧ data.size < cellLimit then
      .ok (some ⟨rows, cols, data, h.1, h.2⟩)
    else .ok none
  else .error .sizeOverflow

def zeros (rows cols : UInt64) : Except Crash Matrix :=
  if rows.toNat * cols.toNat < UInt64.size then
    if h : rows.toNat * cols.toNat < cellLimit then
      .ok ⟨rows, cols, Array.replicate (rows.toNat * cols.toNat) 0.0, by simp, by simpa using h⟩
    else .error .capacityOverflow
  else .error .sizeOverflow

/-- The matrix of a literal: zeros if the cells are not as many as it needs. -/
def ofLiteral (rows cols : Nat) (data : Array Float) : Except Crash Matrix :=
  if rows < UInt64.size ∧ cols < UInt64.size then do
    match ← ofData (.ofNat rows) (.ofNat cols) data with
    | some m => return m
    | none => zeros (.ofNat rows) (.ofNat cols)
  else .error .sizeOverflow

/-! ## Cells -/

/-- The place of a cell, if it lies inside. -/
def place (m : Matrix) (row col : Nat) : Except Crash Nat :=
  let k := row * m.cols.toNat + col
  if UInt64.size ≤ k then .error .sizeOverflow
  else if m.data.size ≤ k then .error .outOfBounds
  else .ok k

/-- The cell at a row and a column; zero outside. -/
def get (m : Matrix) (row col : Nat) : Float :=
  m.data.getD (row * m.cols.toNat + col) 0.0

/-- Puts a number into a cell; outside there is none. -/
def set (m : Matrix) (row col : Nat) (x : Float) : Matrix :=
  { m with
    data := m.data.setIfInBounds (row * m.cols.toNat + col) x,
    size_data := by simp [m.size_data],
    size_lt := by simp [m.size_lt] }

/-- Reads a cell, which must lie inside. -/
def read (m : Matrix) (row col : Nat) : Except Crash Float :=
  (m.place row col).map fun _ => m.get row col

/-- Writes a cell, which must lie inside. -/
def write (m : Matrix) (row col : Nat) (x : Float) : Except Crash Matrix :=
  (m.place row col).map fun _ => m.set row col x

/-- The cells of a row. -/
def row? (m : Matrix) (row : Nat) : Option (List Float) :=
  if row < m.rows.toNat then
    some ((m.data.extract (row * m.cols.toNat) ((row + 1) * m.cols.toNat)).toList)
  else none

/-! ## Operations -/

/-- The size as messages show it. -/
def shape (m : Matrix) : String :=
  "(" ++ toString m.rows.toNat ++ "x" ++ toString m.cols.toNat ++ ")"

/-- Combines the cells of two matrices of one size. -/
def zipWith? (f : Float → Float → Float) (a b : Matrix) : Option Matrix :=
  if h : a.rows = b.rows ∧ a.cols = b.cols then
    have hsize : (a.data.zipWith f b.data).size = a.data.size := by
      simp [a.size_data, b.size_data, h.1, h.2]
    some { a with
      data := a.data.zipWith f b.data,
      size_data := hsize.trans a.size_data,
      size_lt := hsize ▸ a.size_lt }
  else none

def scale (m : Matrix) (factor : Float) : Matrix :=
  { m with
    data := m.data.map (· * factor),
    size_data := by simp [m.size_data],
    size_lt := by simp [m.size_lt] }

/-- Fills something with cells: row by row, and each row from left to right. -/
def fill {σ : Type} (cell : Nat → Nat → Except Crash Float)
    (write : σ → Nat → Nat → Float → Except Crash σ) (rows cols : Nat) (s : σ) :
    Except Crash σ :=
  (List.range rows).foldlM (fun s row =>
    (List.range cols).foldlM (fun s col => do write s row col (← cell row col)) s) s

/-- The sum over a row of the left and a column of the right matrix, from left to right. -/
def dot (read : Matrix → Nat → Nat → Except Crash Float) (a b : Matrix) (row col : Nat) :
    Except Crash Float := do
  let terms ← (List.range a.cols.toNat).mapM fun k => do return (← read a row k) * (← read b k col)
  return Number.sum terms

/-- The product: zeros are filled with the sums over rows and columns. -/
def mul (a b : Matrix) : Except Crash (Option Matrix) :=
  if a.cols = b.rows then do
    let out ← zeros a.rows b.cols
    some <$> fill (dot read a b) write a.rows.toNat b.cols.toNat out
  else .ok none

/-- Equal sizes and equal cells. A NaN equals nothing. -/
def same (a b : Matrix) : Bool :=
  a.rows == b.rows && a.cols == b.cols && a.data.toList == b.data.toList

/-- One row per line. -/
def render (m : Matrix) : String :=
  let row (r : Nat) : String :=
    "  [" ++ String.intercalate ", "
      ((List.range m.cols.toNat).map fun c => Number.general (m.get r c)) ++ "]"
  let rows := (List.range m.rows.toNat).map row
  let body := if rows.isEmpty then "" else String.intercalate ",\n" rows ++ "\n"
  "Matrix(" ++ toString m.rows.toNat ++ "x" ++ toString m.cols.toNat ++ ")[\n" ++ body ++ "]"

end Matrix

end ScriptLang
