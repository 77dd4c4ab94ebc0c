import Mathlib
import ScriptLang.Bytecode.Chunk

/-!
# What a listing tells

A listing is meant for people, but it can be read back: the lines are told apart by their
breaks, the name of an opcode is the first word behind the offset, and its operand the
first word behind the column of names. What is shown of a constant comes last in its line,
so it can look like anything as long as it has no line break. Chunks with the same listing
therefore have the same code, up to operands that mean nothing
(`Chunk.listing_determines_code`).
-/

namespace ScriptLang

/-- The opcode, and the operand if the opcode takes one. -/
def Instr.told (i : Instr) : Opcode × Option Int :=
  (i.op, if i.op.hasOperand then some i.operand else none)

theorem Instr.told_eq_iff {i j : Instr} :
    i.told = j.told ↔ i.op = j.op ∧ (i.op.hasOperand = true → i.operand = j.operand) := by
  rw [told, told, Prod.mk.injEq]
  refine and_congr_right fun hop => ?_
  rw [← hop]
  cases i.op.hasOperand <;> simp

/-! ## Ends of texts -/

namespace Text

theorem trimEndChars_of_getLast? {cs : List Char} {c : Char} (h : cs.getLast? = some c)
    (hc : isBlank c = false) : trimEndChars cs = cs := by
  obtain ⟨front, rfl⟩ := List.getLast?_eq_some_iff.mp h
  rw [trimEndChars, List.reverse_append, List.reverse_singleton, List.singleton_append,
    List.dropWhile_cons_of_neg (by simp [hc]), List.reverse_cons, List.reverse_reverse]

theorem trimEndChars_append_blanks (cs : List Char) {blanks : List Char}
    (h : ∀ c ∈ blanks, isBlank c = true) : trimEndChars (cs ++ blanks) = trimEndChars cs := by
  have hall : ∀ c ∈ blanks.reverse, isBlank c = true := fun c hc => h c (List.mem_reverse.mp hc)
  rw [trimEndChars, List.reverse_append, List.dropWhile_append_of_pos hall, trimEndChars]

theorem digit_ne {c : Char} (h : c.isDigit = true) :
    c ≠ ' ' ∧ c ≠ '\n' ∧ isBlank c = false := by
  have hrange : 48 ≤ c.toNat ∧ c.toNat ≤ 57 := by
    simpa [Char.isDigit, UInt32.le_iff_toNat_le] using h
  refine ⟨?_, ?_, ?_⟩
  · rintro rfl
    exact absurd h (by decide)
  · rintro rfl
    exact absurd h (by decide)
  · simp only [isBlank, Bool.or_eq_false_iff, Bool.and_eq_false_iff, decide_eq_false_iff_not,
      beq_eq_false_iff_ne]
    omega

/-- The digits of an integer, with its sign. -/
theorem mem_repr {z : Int} {c : Char} (h : c ∈ z.repr.toList) :
    c = '-' ∨ c.isDigit = true := by
  have hdigit {n : Nat} (h : c ∈ n.repr.toList) : c.isDigit = true := by
    rw [Nat.toList_repr] at h
    exact Nat.isDigit_of_mem_toDigits (by decide) (by decide) h
  rw [Int.repr_eq_if] at h
  split at h
  · exact Or.inr (hdigit h)
  · rw [String.toList_append, List.mem_append] at h
    exact h.imp (by simp) hdigit

theorem repr_ne_nil (z : Int) : z.repr.toList ≠ [] := by
  rw [Int.repr_eq_if]
  split
  · rw [Nat.toList_repr]
    exact Nat.toDigits_ne_nil
  · simp

end Text

/-! ## Opcodes by name -/

namespace Opcode

theorem ofMnemonic?_mnemonic (op : Opcode) : ofMnemonic? op.mnemonic = some op := by
  cases op <;> decide +kernel

theorem mem_mnemonic {op : Opcode} {c : Char} (h : c ∈ op.mnemonic.toList) :
    c ≠ ' ' ∧ c ≠ '\n' := by
  have hall : op.mnemonic.toList.all (fun c => c != ' ' && c != '\n') = true := by
    cases op <;> decide +kernel
  simpa using List.all_eq_true.mp hall c h

/-- Names fit into their column. -/
theorem length_mnemonic_le (op : Opcode) : op.mnemonic.length ≤ 20 := by
  cases op <;> decide +kernel

theorem getLast?_mnemonic (op : Opcode) :
    ∃ c, op.mnemonic.toList.getLast? = some c ∧ Text.isBlank c = false := by
  cases op <;> exact ⟨_, rfl, by decide +kernel⟩

end Opcode

namespace Chunk

variable {c : Chunk} {i : Instr} {offset : Nat}

/-! ## One line -/

theorem mem_offsetText {x : Char} (h : x ∈ (offsetText offset).toList) : x.isDigit = true := by
  rw [offsetText, String.toList_ofList, List.mem_append] at h
  rcases h with h | h
  · rw [List.eq_of_mem_replicate h]
    rfl
  · exact Nat.isDigit_of_mem_toDigits (by decide) (by decide) h

/-- The text behind the name of the opcode, and what is put behind it for a constant. -/
theorem toList_operandText (h : i.op.hasOperand = true) :
    ∃ shown : List Char,
      (c.operandText i).toList = ' ' :: (i.operand.repr.toList ++ shown) ∧
      (shown = [] ∨ ∃ v, i.op.usesConstant = true ∧ c.constant? i.operand = some v ∧
        shown = ' ' :: '(' :: ((v.render fun _ => []).toList ++ [')'])) := by
  rw [operandText, if_pos h]
  cases hu : i.op.usesConstant with
  | false => exact ⟨[], by simp, Or.inl rfl⟩
  | true =>
      cases hv : c.constant? i.operand with
      | none => exact ⟨[], by simp, Or.inl rfl⟩
      | some v => exact ⟨_, by simp, Or.inr ⟨v, rfl, rfl, rfl⟩⟩

theorem getLast?_operandText (h : i.op.hasOperand = true) :
    ∃ x, (c.operandText i).toList.getLast? = some x ∧ Text.isBlank x = false := by
  obtain ⟨shown, htext, rfl | ⟨v, -, -, rfl⟩⟩ := toList_operandText (c := c) h
  · have hne := Text.repr_ne_nil i.operand
    refine ⟨_, by rw [htext, List.append_nil, List.getLast?_cons_of_ne_nil hne,
      List.getLast?_eq_getLast_of_ne_nil hne], ?_⟩
    rcases Text.mem_repr (List.getLast_mem hne) with hx | hx
    · rw [hx]
      rfl
    · exact (Text.digit_ne hx).2.2
  · exact ⟨')', by simp [htext, List.getLast?_append, List.getLast?_cons], rfl⟩

theorem toList_column (op : Opcode) :
    (column op.mnemonic).toList =
      op.mnemonic.toList ++ List.replicate (20 - op.mnemonic.length) ' ' := by
  rw [column, String.toList_append, String.toList_ofList]

/-- What a line has behind the offset. -/
def entry (c : Chunk) (i : Instr) : List Char :=
  if i.op.hasOperand then (column i.op.mnemonic).toList ++ (c.operandText i).toList
  else i.op.mnemonic.toList

/-- Nothing is cut off behind an operand, and all the blanks of the column if there is none. -/
theorem toList_listingLine (c : Chunk) (offset : Nat) (i : Instr) :
    (c.listingLine offset i).toList = (offsetText offset).toList ++ ' ' :: ' ' :: c.entry i := by
  have htext : (c.listingLine offset i).toList = Text.trimEndChars
      ((offsetText offset).toList ++ ' ' :: ' ' :: ((column i.op.mnemonic).toList ++
        (c.operandText i).toList)) := by
    simp [listingLine, Text.trimEnd]
  rw [htext, entry]
  cases h : i.op.hasOperand with
  | true =>
      obtain ⟨x, hx, hblank⟩ := getLast?_operandText (c := c) h
      refine Text.trimEndChars_of_getLast? (c := x) ?_ hblank
      simp [List.getLast?_append, List.getLast?_cons, hx]
  | false =>
      obtain ⟨x, hx, hblank⟩ := i.op.getLast?_mnemonic
      have hblanks : ∀ y ∈ List.replicate (20 - i.op.mnemonic.length) ' ',
          Text.isBlank y = true := by
        intro y hy
        rw [List.eq_of_mem_replicate hy]
        rfl
      have hnone : (c.operandText i).toList = [] := by simp [operandText, h]
      rw [hnone, List.append_nil, toList_column, ← List.cons_append, ← List.cons_append,
        ← List.append_assoc,
        Text.trimEndChars_append_blanks _ hblanks]
      refine Text.trimEndChars_of_getLast? (c := x) ?_ hblank
      simp [List.getLast?_append, List.getLast?_cons, hx]

theorem length_column (op : Opcode) : (column op.mnemonic).toList.length = 20 := by
  have hle := op.length_mnemonic_le
  rw [toList_column, List.length_append, List.length_replicate, String.length_toList]
  omega

/-- Reads what a line has behind the offset. -/
def readEntry? (text : List Char) : Option (Opcode × Option Int) := do
  let op ← Opcode.ofMnemonic? (String.ofList (text.takeWhile (· ≠ ' ')))
  let operand := String.ofList ((text.drop 21).takeWhile (· ≠ ' '))
  return (op, if op.hasOperand then operand.toInt? else none)

/-- Reads the line of the instruction at an offset. -/
def readLine? (offset : Nat) (line : List Char) : Option (Opcode × Option Int) :=
  readEntry? (line.drop ((offsetText offset).length + 2))

theorem takeWhile_word {word rest : List Char} (hword : ∀ x ∈ word, x ≠ ' ')
    (hrest : ∀ x ∈ rest.head?, x = ' ') :
    (word ++ rest).takeWhile (fun x => decide (x ≠ ' ')) = word := by
  rw [List.takeWhile_append_of_pos (by simpa using hword)]
  cases rest with
  | nil => simp
  | cons x rest =>
      rw [List.takeWhile_cons_of_neg (by simpa using hrest x rfl), List.append_nil]

/-- The first word of an entry is the name of its opcode. -/
theorem takeWhile_entry (c : Chunk) (i : Instr) :
    (c.entry i).takeWhile (fun x => decide (x ≠ ' ')) = i.op.mnemonic.toList := by
  have hname : ∀ x ∈ i.op.mnemonic.toList, x ≠ ' ' := fun x hx => (Opcode.mem_mnemonic hx).1
  cases h : i.op.hasOperand with
  | false =>
      rw [entry, h, if_neg Bool.false_ne_true]
      exact List.takeWhile_eq_self_iff.mpr (by simpa using hname)
  | true =>
      obtain ⟨shown, htext, -⟩ := toList_operandText (c := c) h
      rw [entry, if_pos h, toList_column, List.append_assoc]
      refine takeWhile_word hname ?_
      rw [htext]
      cases 20 - i.op.mnemonic.length <;> simp [List.replicate_succ]

/-- The first word behind the column of names is the operand. -/
theorem takeWhile_drop_entry (c : Chunk) (h : i.op.hasOperand = true) :
    ((c.entry i).drop 21).takeWhile (fun x => decide (x ≠ ' ')) = i.operand.repr.toList := by
  obtain ⟨shown, htext, hshown⟩ := toList_operandText (c := c) h
  have hdrop : (c.entry i).drop 21 = i.operand.repr.toList ++ shown := by
    rw [entry, if_pos h, htext, List.append_cons]
    exact List.drop_left' (by rw [List.length_append, length_column, List.length_singleton])
  rw [hdrop]
  refine takeWhile_word ?_ ?_
  · intro x hx
    rcases Text.mem_repr hx with rfl | hx
    · decide
    · exact (Text.digit_ne hx).1
  · rcases hshown with rfl | ⟨v, -, -, rfl⟩ <;> simp

theorem readLine?_listingLine (c : Chunk) (offset : Nat) (i : Instr) :
    readLine? offset (c.listingLine offset i).toList = some i.told := by
  have hdrop : (c.listingLine offset i).toList.drop ((offsetText offset).length + 2) =
      c.entry i := by
    rw [toList_listingLine, List.append_cons, List.append_cons]
    exact List.drop_left' (by simp [String.length_toList])
  rw [readLine?, hdrop, readEntry?, takeWhile_entry, String.ofList_toList,
    Opcode.ofMnemonic?_mnemonic, Instr.told]
  cases h : i.op.hasOperand with
  | false => simp [h]
  | true =>
      rw [takeWhile_drop_entry c h, String.ofList_toList]
      simp [h]

/-! ## The lines -/

/-- No constant that the code refers to is shown with a line break. -/
def Unbroken (c : Chunk) : Prop :=
  ∀ i ∈ c.code, i.op.usesConstant = true → ∀ v, c.constant? i.operand = some v →
    '\n' ∉ (v.render fun _ => []).toList

theorem not_mem_listingLine (h : c.Unbroken) (hi : i ∈ c.code) (offset : Nat) :
    '\n' ∉ (c.listingLine offset i).toList := by
  have hdigits {z : Int} : '\n' ∉ z.repr.toList := fun hmem => by
    rcases Text.mem_repr hmem with heq | hdigit
    · exact absurd heq (by decide)
    · exact (Text.digit_ne hdigit).2.1 rfl
  have hname : '\n' ∉ i.op.mnemonic.toList := fun hmem => (Opcode.mem_mnemonic hmem).2 rfl
  have hentry : '\n' ∉ c.entry i := by
    rw [entry]
    split
    · rename_i hop
      obtain ⟨shown, htext, hshown⟩ := toList_operandText (c := c) hop
      have hshown : '\n' ∉ shown := by
        rcases hshown with rfl | ⟨v, hu, hv, rfl⟩
        · simp
        · simp [h i hi hu v hv]
      simp [toList_column, htext, hname, hdigits, hshown]
    · exact hname
  have hoffset : '\n' ∉ (offsetText offset).toList := fun hmem =>
    (Text.digit_ne (mem_offsetText hmem)).2.1 rfl
  simp [toList_listingLine, hoffset, hentry]

/-- The lines of a listing, one for each instruction. -/
def lines (c : Chunk) : List String :=
  c.code.toList.zipIdx.map fun (i, offset) => c.listingLine offset i

def heading (name : String) : String := "== " ++ name ++ " ==\n"

theorem listing_eq (c : Chunk) (name : String) :
    c.listing name = heading name ++ String.join (c.lines.map (· ++ "\n")) ++ "\n" := by
  rw [lines, List.map_map]
  rfl

/-- Lines with a break behind each, and nothing behind the last but one break. -/
theorem flatMap_append_eq_intercalate (ls : List (List Char)) :
    ls.flatMap (· ++ ['\n']) ++ ['\n'] = ['\n'].intercalate (ls ++ [[], []]) := by
  induction ls with
  | nil => rfl
  | cons l ls ih =>
      obtain ⟨l', rest, hrest⟩ : ∃ l' rest, ls ++ [[], []] = l' :: rest :=
        List.exists_cons_of_ne_nil (by simp)
      rw [hrest] at ih
      rw [List.cons_append, hrest, List.intercalate_cons_cons, ← ih, List.flatMap_cons]
      simp

theorem toList_listing (c : Chunk) (name : String) :
    (c.listing name).toList =
      (heading name).toList ++ ['\n'].intercalate (c.lines.map String.toList ++ [[], []]) := by
  rw [listing_eq, ← flatMap_append_eq_intercalate]
  simp [String.toList_join, List.flatMap_map]

/-- Reads a listing whose name is known. -/
def readListing (name text : String) : List (Option (Opcode × Option Int)) :=
  -- there is nothing behind the last break, and nothing before it
  let lines := ((text.toList.drop (heading name).length).splitOn '\n').dropLast.dropLast
  lines.mapIdx readLine?

theorem not_mem_lines (h : c.Unbroken) : ∀ line ∈ c.lines, '\n' ∉ line.toList := by
  intro line hline
  obtain ⟨⟨i, offset⟩, hi, rfl⟩ := List.mem_map.mp hline
  exact not_mem_listingLine h (Array.mem_toList_iff.mp (List.fst_mem_of_mem_zipIdx hi)) offset

theorem readListing_listing (h : c.Unbroken) (name : String) :
    readListing name (c.listing name) = (c.code.toList.map Instr.told).map some := by
  have hsplit : (['\n'].intercalate (c.lines.map String.toList ++ [[], []])).splitOn '\n' =
      c.lines.map String.toList ++ [[], []] := by
    refine List.splitOn_intercalate '\n' ?_ (by simp)
    intro l hl
    rw [List.mem_append, List.mem_map] at hl
    rcases hl with ⟨line, hline, rfl⟩ | hl
    · exact not_mem_lines h line hline
    · rw [show l = [] by simpa using hl]
      exact List.not_mem_nil
  have hlines : c.lines.map String.toList =
      c.code.toList.mapIdx fun offset i => (c.listingLine offset i).toList := by
    rw [lines, List.map_map, List.mapIdx_eq_zipIdx_map]
    rfl
  rw [readListing, toList_listing, ← String.length_toList, List.drop_left, hsplit,
    List.append_cons, List.dropLast_concat, List.dropLast_concat, hlines, List.mapIdx_mapIdx]
  refine List.ext_getElem? fun k => ?_
  rw [List.getElem?_mapIdx, List.map_map, List.getElem?_map]
  simp only [Function.comp_def, readLine?_listingLine]

/-! ## Listings -/

theorem getElem?_lines {k : Nat} (hi : c.code[k]? = some i) :
    c.lines[k]? = some (c.listingLine k i) := by
  rw [lines, List.getElem?_map, List.getElem?_zipIdx, Array.getElem?_toList, hi, Nat.zero_add]
  rfl

/-- A listing has a heading, a line without a break for each instruction, which tells its opcode
and the operand if there is one, and an empty line. So chunks with the same listing have the same
instructions, up to operands that mean nothing. -/
theorem listing_determines_code (name : String) {c d : Chunk} (hc : c.Unbroken)
    (hd : d.Unbroken) :
    (∃ lines : List String,
      c.listing name =
        "== " ++ name ++ " ==\n" ++ String.join (lines.map (· ++ "\n")) ++ "\n" ∧
      lines.length = c.code.size ∧ (∀ line ∈ lines, '\n' ∉ line.toList) ∧
      ∀ (k : Nat) (i : Instr), c.code[k]? = some i →
        ∃ line, lines[k]? = some line ∧ readLine? k line.toList = some i.told) ∧
    (c.listing name = d.listing name →
      c.code.size = d.code.size ∧
      ∀ (k : Nat) (i j : Instr), c.code[k]? = some i → d.code[k]? = some j →
        i.op = j.op ∧ (i.op.hasOperand = true → i.operand = j.operand)) := by
  constructor
  · refine ⟨c.lines, listing_eq c name, by simp [lines], not_mem_lines hc, fun k i hi => ?_⟩
    exact ⟨_, getElem?_lines hi, readLine?_listingLine c k i⟩
  · intro hsame
    have hread : c.code.toList.map Instr.told = d.code.toList.map Instr.told := by
      have h := congrArg (readListing name) hsame
      rw [readListing_listing hc, readListing_listing hd] at h
      exact List.map_injective_iff.mpr (Option.some_injective _) h
    refine ⟨by simpa using congrArg List.length hread, fun k i j hi hj => ?_⟩
    have htold := congrArg (·[k]?) hread
    simp only [List.getElem?_map, Array.getElem?_toList, hi, hj, Option.map_some,
      Option.some.injEq] at htold
    exact Instr.told_eq_iff.mp htold

/-- A constant that looks like a line of its own, a jump to nowhere and a constant that is not
there. -/
def misleading (unused : Int) (constants : Array Value) : Chunk :=
  ⟨#[⟨.loadConst, 0⟩, ⟨.jump, -3⟩, ⟨.loadVar, 7⟩, ⟨.pop, unused⟩],
    #[.text "0001  HALT"] ++ constants⟩

theorem misleading_determined :
    (misleading 0 #[]).listing "main" = (misleading 5 #[.null]).listing "main" ∧
    (∃ lines : List String, lines.length = 4 ∧ (∀ line ∈ lines, '\n' ∉ line.toList) ∧
      ∃ line, lines[1]? = some line ∧ readLine? 1 line.toList = some (.jump, some (-3))) ∧
    (misleading 0 #[]).code.size = (misleading 5 #[.null]).code.size := by
  have hunbroken (unused : Int) (constants : Array Value) (hfew : constants.size ≤ 1) :
      (misleading unused constants).Unbroken := by
    intro i hi hu v hv
    simp only [misleading, List.mem_toArray, List.mem_cons, List.not_mem_nil, or_false] at hi
    rcases hi with rfl | rfl | rfl | rfl
    · obtain rfl : Value.text "0001  HALT" = v := by simpa [constant?, misleading] using hv
      decide +kernel
    · cases hu
    · have hlt : 7 < (#[Value.text "0001  HALT"] ++ constants).size :=
        (Array.getElem?_eq_some_iff.mp hv).1
      rw [Array.size_append, List.size_toArray, List.length_singleton] at hlt
      omega
    · cases hu
  have hsame : (misleading 0 #[]).listing "main" = (misleading 5 #[.null]).listing "main" := by
    decide +kernel
  obtain ⟨⟨lines, -, hlength, hbreaks, htold⟩, hcode⟩ :=
    listing_determines_code "main" (hunbroken 0 #[] (Nat.zero_le 1))
      (hunbroken 5 #[.null] le_rfl)
  exact ⟨hsame, ⟨lines, hlength, hbreaks, htold 1 _ rfl⟩, (hcode hsame).1⟩

end Chunk

end ScriptLang
