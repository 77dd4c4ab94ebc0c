import Mathlib
import ScriptLang.Proofs.Bytecode.Code
import ScriptLang.Proofs.Bytecode.StackEffect

/-!
# Compiled code keeps the stack balanced

How deep the stack is before an instruction depends only on where the instruction
stands. The layout of a program lists these depths: a statement starts and ends
at depth zero, and an expression leaves one value more than it found. Every
instruction of a compiled program agrees with the layout, whichever way control
goes from it, so along every run the stack is as deep as the layout says. No
compiled program therefore takes from an empty stack, jumps out of its code or
refers to a constant that is not there.
-/

namespace ScriptLang

/-! ## The layout of a program -/

mutual

/-- The depths before the instructions of an expression that starts at depth `d`. -/
def Expr.depths (d : Nat) : Expr → List Nat
  | .number _ _ | .text _ _ | .bool _ _ | .name _ _ => [d]
  | .binary _ left _ right => left.depths d ++ right.depths (d + 1) ++ [d + 2]
  | .unary _ _ operand => operand.depths d ++ [d + 1]
  | .call _ _ args => Expr.listDepths d args ++ [d + args.length, d]
  | .array _ items => Expr.listDepths d items ++ [d + items.length]
  | .index _ target key => target.depths d ++ key.depths (d + 1) ++ [d + 2]
  | _ => []

def Expr.listDepths (d : Nat) : List Expr → List Nat
  | [] => []
  | e :: es => e.depths d ++ Expr.listDepths (d + 1) es

end

mutual

/-- The depths before the instructions of a statement, which starts at depth zero. -/
def Stmt.depths : Stmt → List Nat
  | .expr _ e => e.depths 0 ++ [1]
  | .bind _ _ value => value.depths 0 ++ [1, 1]
  | .assign _ _ value => value.depths 0 ++ [1, 1]
  | .choose _ condition yes no =>
    condition.depths 0 ++ [1] ++ Stmt.listDepths yes ++ [0] ++ Stmt.optionDepths no
  | .loop _ condition body => condition.depths 0 ++ [1] ++ Stmt.listDepths body ++ [0]
  | .forEach _ _ source body _ =>
    source.depths 0 ++ [1, 1, 0, 1, 1, 0, 1, 2, 2, 1, 0, 1, 2, 1, 1] ++ Stmt.listDepths body
      ++ [0, 1, 2, 1, 1, 0]
  | _ => []

def Stmt.listDepths : List Stmt → List Nat
  | [] => []
  | s :: ss => s.depths ++ Stmt.listDepths ss

def Stmt.optionDepths : Option (List Stmt) → List Nat
  | none => []
  | some ss => Stmt.listDepths ss

end

theorem Stmt.optionDepths_eq (no : Option (List Stmt)) :
    Stmt.optionDepths no = Stmt.listDepths (no.getD []) := by
  cases no <;> rfl

/-- The depths before all instructions, the halt at the end among them. -/
def Program.layout (p : Program) : List Nat := Stmt.listDepths p.stmts ++ [0]

/-! A construct has as many depths as instructions. -/

mutual

theorem ExprCode.length_depths : ∀ {pool : Nat} {e : Expr} {f : Fragment},
    ExprCode pool e f → ∀ d, (e.depths d).length = f.code.size
  | _, _, _, .number, _ | _, _, _, .text, _ | _, _, _, .bool, _ | _, _, _, .name, _ => rfl
  | _, _, _, .binary _ hl hr, d => by
      simp [Expr.depths, hl.length_depths d, hr.length_depths (d + 1)]
  | _, _, _, .unary he, d => by simp [Expr.depths, he.length_depths d]
  | _, _, _, .print ha, d => by simp [Expr.depths, ha.length_depths d]
  | _, _, _, .array ha, d => by simp [Expr.depths, ha.length_depths d]
  | _, _, _, .index ht hk, d => by
      simp [Expr.depths, ht.length_depths d, hk.length_depths (d + 1)]

theorem ExprsCode.length_depths : ∀ {pool : Nat} {es : List Expr} {f : Fragment},
    ExprsCode pool es f → ∀ d, (Expr.listDepths d es).length = f.code.size
  | _, _, _, .nil, _ => rfl
  | _, _, _, .cons he hes, d => by
      simp [Expr.listDepths, he.length_depths d, hes.length_depths (d + 1)]

end

mutual

theorem StmtCode.length_depths : ∀ {depth base pool : Nat} {s : Stmt} {f : Fragment},
    StmtCode depth base pool s f → s.depths.length = f.code.size
  | _, _, _, _, _, .expr he => by simp [Stmt.depths, he.length_depths 0]
  | _, _, _, _, _, .bind he => by simp [Stmt.depths, Fragment.store, he.length_depths 0]
  | _, _, _, _, _, .assign he => by simp [Stmt.depths, Fragment.store, he.length_depths 0]
  | _, _, _, _, _, .choose he hy hn => by
      simp [Stmt.depths, Stmt.optionDepths_eq, he.length_depths 0, hy.length_depths,
        hn.length_depths]
      omega
  | _, _, _, _, _, .loop he hb => by
      simp [Stmt.depths, he.length_depths 0, hb.length_depths]
      omega
  | _, _, _, _, _, .forEach he hb => by
      simp [Stmt.depths, Compiler.loopEntry, Compiler.loopExit, he.length_depths 0,
        hb.length_depths]
      omega

theorem BlockCode.length_depths : ∀ {depth base pool : Nat} {ss : List Stmt} {f : Fragment},
    BlockCode depth base pool ss f → (Stmt.listDepths ss).length = f.code.size
  | _, _, _, _, _, .nil => rfl
  | _, _, _, _, _, .cons hs hss => by
      simp [Stmt.listDepths, hs.length_depths, hss.length_depths]

end

/-! An expression starts at the depth it is given, a statement at depth zero. -/

mutual

theorem ExprCode.depths_eq_cons : ∀ {pool : Nat} {e : Expr} {f : Fragment},
    ExprCode pool e f → ∀ d, ∃ ds, e.depths d = d :: ds
  | _, _, _, .number, _ | _, _, _, .text, _ | _, _, _, .bool, _ | _, _, _, .name, _ => ⟨[], rfl⟩
  | _, _, _, .binary _ hl _, d => by
      obtain ⟨ds, hds⟩ := hl.depths_eq_cons d
      exact ⟨_, by rw [Expr.depths, hds]; rfl⟩
  | _, _, _, .unary he, d => by
      obtain ⟨ds, hds⟩ := he.depths_eq_cons d
      exact ⟨_, by rw [Expr.depths, hds]; rfl⟩
  | _, _, _, .print ha, d => by
      obtain ⟨ds, hds⟩ := ha.depths_eq_cons d
      exact ⟨ds ++ [d], by rw [Expr.depths, ← List.cons_append, ← hds, List.append_assoc]; rfl⟩
  | _, _, _, .array ha, d => by
      obtain ⟨ds, hds⟩ := ha.depths_eq_cons d
      exact ⟨ds, by rw [Expr.depths, hds]⟩
  | _, _, _, .index ht _, d => by
      obtain ⟨ds, hds⟩ := ht.depths_eq_cons d
      exact ⟨_, by rw [Expr.depths, hds]; rfl⟩

/-- With the depth behind the last one added, since there may be no expression at all. -/
theorem ExprsCode.depths_eq_cons : ∀ {pool : Nat} {es : List Expr} {f : Fragment},
    ExprsCode pool es f → ∀ d, ∃ ds, Expr.listDepths d es ++ [d + es.length] = d :: ds
  | _, _, _, .nil, _ => ⟨[], rfl⟩
  | _, _, _, .cons he _, d => by
      obtain ⟨ds, hds⟩ := he.depths_eq_cons d
      exact ⟨_, by rw [Expr.listDepths, hds]; rfl⟩

end

theorem StmtCode.depths_eq_cons {depth base pool : Nat} {s : Stmt} {f : Fragment}
    (h : StmtCode depth base pool s f) : ∃ ds, s.depths = 0 :: ds := by
  cases h with
  | expr he | bind he | assign he | choose he | loop he | forEach he =>
      obtain ⟨ds, hds⟩ := he.depths_eq_cons 0
      exact ⟨_, by rw [Stmt.depths, hds]; rfl⟩

theorem BlockCode.depths_eq_cons {depth base pool : Nat} {ss : List Stmt} {f : Fragment}
    (h : BlockCode depth base pool ss f) (rest : List Nat) :
    ∃ ds, Stmt.listDepths ss ++ 0 :: rest = 0 :: ds := by
  cases h with
  | nil => exact ⟨rest, rfl⟩
  | cons hs _ =>
      obtain ⟨ds, hds⟩ := hs.depths_eq_cons
      exact ⟨_, by rw [Stmt.listDepths, hds]; rfl⟩

/-! ## Code that agrees with a layout -/

/-- The items of one list stand in another from an offset on. -/
def StandsAt {α : Type} (whole : List α) (base : Nat) (part : List α) : Prop :=
  ∀ j x, part[j]? = some x → whole[base + j]? = some x

namespace StandsAt

variable {α : Type} {whole part l r : List α} {base n : Nat} {x : α}

theorem head (h : StandsAt whole base (x :: part)) : whole[base]? = some x := h 0 x rfl

theorem tail (h : StandsAt whole base (x :: part)) : StandsAt whole (base + 1) part := by
  intro j y hj
  rw [Nat.add_assoc, Nat.add_comm 1 j]
  exact h (j + 1) y hj

theorem take (h : StandsAt whole base part) (n : Nat) : StandsAt whole base (part.take n) := by
  intro j y hj
  rw [List.getElem?_take] at hj
  split at hj
  · exact h j y hj
  · cases hj

theorem drop (h : StandsAt whole base part) (n : Nat) :
    StandsAt whole (base + n) (part.drop n) := by
  intro j y hj
  rw [List.getElem?_drop] at hj
  rw [Nat.add_assoc]
  exact h (n + j) y hj

/-- A part in two stands as two parts; the first may keep the head of the second. -/
theorem split (h : StandsAt whole base (l ++ r)) (hn : l.length = n) (hx : ∃ xs, r = x :: xs) :
    StandsAt whole base (l ++ [x]) ∧ StandsAt whole (base + n) r := by
  obtain ⟨xs, rfl⟩ := hx
  subst hn
  constructor
  · intro j y hj
    apply h
    rw [← List.singleton_append, ← List.append_assoc, List.getElem?_append_left]
    · exact hj
    · exact (List.getElem?_eq_some_iff.mp hj).1
  · intro j y hj
    rw [Nat.add_assoc]
    apply h
    rw [List.getElem?_append_right (Nat.le_add_right _ _), Nat.add_sub_cancel_left]
    exact hj

end StandsAt

/-- Whether an instruction only leads to the one behind it. -/
def Instr.isStraight (i : Instr) : Bool :=
  match i.op with
  | .jump | .jumpIfFalse | .halt => false
  | _ => true

theorem Instr.successors_of_isStraight {i : Instr} (h : i.isStraight = true) (next : Nat) :
    i.successors next = [next] := by
  obtain ⟨op, n⟩ := i
  cases op <;> first | rfl | cases h

/-- The `n` instructions from `base` on agree with the layout: each finds the values that it
takes, and leads to offsets where the layout has the depth that it leaves. Only the last
instruction of all may be a halt. -/
def Settled (chunk : Chunk) (layout : List Nat) (base n : Nat) : Prop :=
  ∀ o, base ≤ o → o < base + n → ∃ i d, chunk.code[o]? = some i ∧ layout[o]? = some d ∧
    i.OperandFits chunk ∧ i.takes ≤ d ∧
    (∀ o' ∈ i.successors (o + 1), layout[o']? = some (d - i.takes + i.gives)) ∧
    (i.op = .halt → d = 0 ∧ o + 1 = chunk.code.size)

namespace Settled

variable {chunk : Chunk} {layout : List Nat} {base n k d t : Nat} {i : Instr}

theorem empty : Settled chunk layout base 0 := fun o h h' => absurd h' (by omega)

theorem append (h : Settled chunk layout base n) (h' : Settled chunk layout (base + n) k) :
    Settled chunk layout base (n + k) := by
  intro o hlo hhi
  by_cases hn : o < base + n
  · exact h o hlo hn
  · exact h' o (by omega) (by omega)

theorem single (hi : chunk.code[base]? = some i) (hd : layout[base]? = some d)
    (hop : i.OperandFits chunk) (ht : i.takes ≤ d)
    (hs : ∀ o' ∈ i.successors (base + 1), layout[o']? = some (d - i.takes + i.gives))
    (hh : i.op = .halt → d = 0 ∧ base + 1 = chunk.code.size) : Settled chunk layout base 1 := by
  intro o hlo hhi
  obtain rfl : o = base := by omega
  exact ⟨i, d, hi, hd, hop, ht, hs, hh⟩

theorem straight (hi : chunk.code[base]? = some i) (hop : i.OperandFits chunk)
    (hs : i.isStraight = true) (hL : StandsAt layout base [d + i.takes, d + i.gives]) :
    Settled chunk layout base 1 := by
  refine single hi hL.head hop (Nat.le_add_left _ _) ?_ ?_
  · intro o' ho'
    rw [Instr.successors_of_isStraight hs, List.mem_singleton] at ho'
    subst ho'
    rw [Nat.add_sub_cancel]
    exact hL.tail.head
  · intro hh
    rw [Instr.isStraight, hh] at hs
    cases hs

theorem jump (hlen : layout.length = chunk.code.size)
    (hi : chunk.code[base]? = some ⟨.jump, (t : Nat)⟩) (hd : layout[base]? = some d)
    (ht : layout[t]? = some d) : Settled chunk layout base 1 := by
  have hlt : t < chunk.code.size := hlen ▸ (List.getElem?_eq_some_iff.mp ht).1
  refine single hi hd ⟨Int.natCast_nonneg t, hlt⟩ (Nat.zero_le d) ?_ nofun
  intro o' ho'
  obtain rfl : o' = t := List.mem_singleton.mp ho'
  exact ht

theorem jumpIfFalse (hlen : layout.length = chunk.code.size)
    (hi : chunk.code[base]? = some ⟨.jumpIfFalse, (t : Nat)⟩)
    (hL : StandsAt layout base [d + 1, d]) (ht : layout[t]? = some d) :
    Settled chunk layout base 1 := by
  have hlt : t < chunk.code.size := hlen ▸ (List.getElem?_eq_some_iff.mp ht).1
  refine single hi hL.head ⟨Int.natCast_nonneg t, hlt⟩ (Nat.le_add_left 1 d) ?_ nofun
  intro o' ho'
  rcases List.mem_cons.mp ho' with rfl | ho'
  · exact hL.tail.head
  · obtain rfl : o' = t := List.mem_singleton.mp ho'
    exact ht

end Settled

/-- The depths along straight code, with the one behind it, if the stack is never too low. -/
def flow (d : Nat) : List Instr → Option (List Nat)
  | [] => some [d]
  | i :: is =>
    if i.isStraight ∧ i.takes ≤ d then (flow (d - i.takes + i.gives) is).map (d :: ·) else none

theorem flow_eq_cons {d : Nat} {is : List Instr} {ds : List Nat} (h : flow d is = some ds) :
    ∃ ds', ds = d :: ds' := by
  cases is with
  | nil => exact ⟨[], by cases h; rfl⟩
  | cons i is =>
      rw [flow] at h
      split at h
      · obtain ⟨ds', -, rfl⟩ := Option.map_eq_some_iff.mp h
        exact ⟨ds', rfl⟩
      · cases h

theorem settled_of_flow {chunk : Chunk} {layout : List Nat} : ∀ {is : List Instr} {base d : Nat}
    {ds : List Nat}, flow d is = some ds → StandsAt chunk.code.toList base is →
    (∀ i ∈ is, i.OperandFits chunk) → StandsAt layout base ds →
    Settled chunk layout base is.length
  | [], _, _, _, _, _, _, _ => Settled.empty
  | i :: is, base, d, ds, h, hcode, hops, hL => by
      rw [flow] at h
      split at h
      case isFalse => cases h
      case isTrue hi =>
        obtain ⟨ds', hds, rfl⟩ := Option.map_eq_some_iff.mp h
        obtain ⟨ds'', rfl⟩ := flow_eq_cons hds
        have hone : Settled chunk layout base 1 := by
          apply Settled.straight (i := i) (d := d - i.takes) _ (hops i List.mem_cons_self) hi.1
          · rw [Nat.sub_add_cancel hi.2]
            exact (StandsAt.split (l := [d]) hL rfl ⟨_, rfl⟩).1
          · rw [← Array.getElem?_toList]
            exact hcode.head
        rw [List.length_cons, Nat.add_comm]
        exact hone.append (settled_of_flow hds hcode.tail
          (fun j hj => hops j (List.mem_cons_of_mem i hj)) hL.tail)

/-! ## Compiled code agrees with its layout -/

variable {chunk : Chunk} {layout : List Nat}

theorem Instr.ofBinary_effect (chunk : Chunk) {op : BinaryOp} {code : Opcode}
    (h : Opcode.ofBinary? op = some code) (n : Int) :
    (Instr.mk code n).takes = 2 ∧ (Instr.mk code n).gives = 1 ∧
      (Instr.mk code n).isStraight = true ∧ (Instr.mk code n).OperandFits chunk := by
  cases op <;> cases h <;> exact ⟨rfl, rfl, rfl, trivial⟩

theorem Instr.ofUnary_effect (chunk : Chunk) (op : UnaryOp) (n : Int) :
    (Instr.mk (Opcode.ofUnary op) n).takes = 1 ∧ (Instr.mk (Opcode.ofUnary op) n).gives = 1 ∧
      (Instr.mk (Opcode.ofUnary op) n).isStraight = true ∧
      (Instr.mk (Opcode.ofUnary op) n).OperandFits chunk := by
  cases op <;> exact ⟨rfl, rfl, rfl, trivial⟩

mutual

theorem ExprCode.settled : ∀ {pool base d : Nat} {e : Expr} {f : Fragment}, ExprCode pool e f →
    chunk.Holds base pool f → StandsAt layout base (e.depths d ++ [d + 1]) →
    Settled chunk layout base f.code.size
  | _, _, _, _, _, .number, hf, hL =>
      .straight hf.withConstant.1 ⟨_, hf.withConstant.2⟩ rfl hL
  | _, _, _, _, _, .text, hf, hL =>
      .straight hf.withConstant.1 ⟨_, hf.withConstant.2⟩ rfl hL
  | _, _, _, _, _, .bool (b := true), hf, hL =>
      .straight hf.emit trivial rfl hL
  | _, _, _, _, _, .bool (b := false), hf, hL =>
      .straight hf.emit trivial rfl hL
  | _, _, _, _, _, .name, hf, hL =>
      .straight hf.withConstant.1 ⟨_, hf.withConstant.2⟩ rfl hL
  | _, _, d, _, _, .binary (b := b) hop hl hr, hf, hL => by
      obtain ⟨rs, hrs⟩ := hr.depths_eq_cons (d + 1)
      obtain ⟨ht, hg, hs, hfit⟩ := Instr.ofBinary_effect chunk hop 0
      -- the layout is split where the code of an operand ends; the right one stands on one value
      simp only [Expr.depths, List.append_assoc] at hL
      simp only [Fragment.append_assoc] at hf
      obtain ⟨hL1, hL2⟩ := hL.split (hl.length_depths d) ⟨_, by rw [hrs]; rfl⟩
      obtain ⟨hL2, hL3⟩ := hL2.split (hr.length_depths (d + 1)) ⟨_, rfl⟩
      have hC : Settled chunk layout _ 1 :=
        .straight hf.right.right.emit hfit hs (by rw [ht, hg]; exact hL3)
      simp only [Fragment.append_assoc, Fragment.code_append, Array.size_append]
      exact (hl.settled hf.left hL1).append ((hr.settled hf.right.left hL2).append hC)
  | _, _, d, _, _, .unary he, hf, hL => by
      obtain ⟨ht, hg, hs, hfit⟩ := Instr.ofUnary_effect chunk _ 0
      simp only [Expr.depths, List.append_assoc] at hL
      obtain ⟨hL1, hL2⟩ := hL.split (he.length_depths d) ⟨_, rfl⟩
      have hC : Settled chunk layout _ 1 :=
        .straight hf.right.emit hfit hs (by rw [ht, hg]; exact hL2)
      rw [Fragment.code_append, Array.size_append]
      exact (he.settled hf.left hL1).append hC
  | _, _, d, _, _, .print ha, hf, hL => by
      simp only [Expr.depths, List.append_assoc] at hL
      simp only [Fragment.append_assoc] at hf
      obtain ⟨hL1, hL2⟩ := hL.split (ha.length_depths d) ⟨_, rfl⟩
      obtain ⟨hL2, hL3⟩ := StandsAt.split (l := [_]) hL2 rfl ⟨_, rfl⟩
      have hB : Settled chunk layout _ 1 :=
        .straight (d := d) hf.right.left.emit (Int.natCast_nonneg _) rfl hL2
      have hC : Settled chunk layout _ 1 := .straight (d := d) hf.right.right.emit trivial rfl hL3
      simp only [Fragment.append_assoc, Fragment.code_append, Array.size_append]
      exact (ha.settled hf.left hL1).append (hB.append hC)
  | _, _, d, _, _, .array ha, hf, hL => by
      simp only [Expr.depths, List.append_assoc] at hL
      obtain ⟨hL1, hL2⟩ := hL.split (ha.length_depths d) ⟨_, rfl⟩
      have hC : Settled chunk layout _ 1 :=
        .straight (d := d) hf.right.emit (Int.natCast_nonneg _) rfl hL2
      rw [Fragment.code_append, Array.size_append]
      exact (ha.settled hf.left hL1).append hC
  | _, _, d, _, _, .index ht hk, hf, hL => by
      obtain ⟨ks, hks⟩ := hk.depths_eq_cons (d + 1)
      simp only [Expr.depths, List.append_assoc] at hL
      simp only [Fragment.append_assoc] at hf
      obtain ⟨hL1, hL2⟩ := hL.split (ht.length_depths d) ⟨_, by rw [hks]; rfl⟩
      obtain ⟨hL2, hL3⟩ := hL2.split (hk.length_depths (d + 1)) ⟨_, rfl⟩
      have hC : Settled chunk layout _ 1 :=
        .straight (d := d) hf.right.right.emit trivial rfl hL3
      simp only [Fragment.append_assoc, Fragment.code_append, Array.size_append]
      exact (ht.settled hf.left hL1).append ((hk.settled hf.right.left hL2).append hC)

theorem ExprsCode.settled : ∀ {pool base d : Nat} {es : List Expr} {f : Fragment},
    ExprsCode pool es f → chunk.Holds base pool f →
    StandsAt layout base (Expr.listDepths d es ++ [d + es.length]) →
    Settled chunk layout base f.code.size
  | _, _, _, _, _, .nil, _, _ => Settled.empty
  | _, _, d, _ :: es, _, .cons he hes, hf, hL => by
      have hlast : d + (es.length + 1) = d + 1 + es.length := by omega
      simp only [Expr.listDepths, List.length_cons, List.append_assoc, hlast] at hL
      obtain ⟨hL1, hL2⟩ := hL.split (he.length_depths d) (hes.depths_eq_cons (d + 1))
      rw [Fragment.code_append, Array.size_append]
      exact (he.settled hf.left hL1).append (hes.settled hf.right hL2)

end

theorem Chunk.Holds.standsAt {base pool : Nat} {f : Fragment} (h : chunk.Holds base pool f) :
    StandsAt chunk.code.toList base f.code.toList := by
  intro j i hj
  rw [Array.getElem?_toList] at hj ⊢
  exact h.code j i hj

theorem store_settled {x : String} {base pool : Nat}
    (hf : chunk.Holds base pool (.store x pool)) (hL : StandsAt layout base [1, 1, 0]) :
    Settled chunk layout base (Fragment.store x pool).code.size := by
  apply settled_of_flow (d := 1) rfl hf.standsAt _ hL
  intro i hi
  rcases List.mem_cons.mp hi with rfl | hi
  · exact ⟨x, hf.left.withConstant.2⟩
  · obtain rfl := List.mem_singleton.mp hi
    trivial

theorem loopEntry_settled {depth pool stop base : Nat} {item : String}
    (hlen : layout.length = chunk.code.size)
    (hf : chunk.Holds base pool (Compiler.loopEntry depth pool stop item))
    (hL : StandsAt layout base [1, 1, 0, 1, 1, 0, 1, 2, 2, 1, 0, 1, 2, 1, 1, 0])
    (hstop : layout[stop]? = some 0) : Settled chunk layout base 15 := by
  have hlt : stop < chunk.code.size := hlen ▸ (List.getElem?_eq_some_iff.mp hstop).1
  have hops : ∀ i ∈ (Compiler.loopEntry depth pool stop item).code.toList,
      i.OperandFits chunk := by
    simp only [Compiler.loopEntry, List.forall_mem_cons]
    exact ⟨⟨_, hf.constant? (j := 0) rfl⟩, trivial, ⟨_, hf.constant? (j := 1) rfl⟩,
      ⟨_, hf.constant? (j := 2) rfl⟩, trivial, ⟨_, hf.constant? (j := 3) rfl⟩,
      ⟨_, hf.constant? (j := 4) rfl⟩, trivial, trivial, ⟨Int.natCast_nonneg _, hlt⟩,
      ⟨_, hf.constant? (j := 5) rfl⟩, ⟨_, hf.constant? (j := 6) rfl⟩, trivial,
      ⟨_, hf.constant? (j := 7) rfl⟩, trivial, nofun⟩
  -- the code before the jump, the jump, and the code behind it
  have h1 : Settled chunk layout base 9 :=
    settled_of_flow (d := 1) rfl (hf.standsAt.take 9)
      (fun i hi => hops i (List.mem_of_mem_take hi)) (hL.take 10)
  have h2 : Settled chunk layout (base + 9) 1 :=
    .jumpIfFalse (d := 0) hlen (hf.code 9 _ rfl) ((hL.drop 9).take 2) hstop
  have h3 : Settled chunk layout (base + 10) 5 :=
    settled_of_flow (d := 0) rfl (hf.standsAt.drop 10)
      (fun i hi => hops i (List.mem_of_mem_drop hi)) (hL.drop 10)
  exact (h1.append h2).append h3

theorem loopExit_settled {depth pool start base : Nat}
    (hlen : layout.length = chunk.code.size)
    (hf : chunk.Holds base pool (Compiler.loopExit depth pool start))
    (hL : StandsAt layout base [0, 1, 2, 1, 1, 0]) (hstart : layout[start]? = some 0) :
    Settled chunk layout base 6 := by
  have hlt : start < chunk.code.size := hlen ▸ (List.getElem?_eq_some_iff.mp hstart).1
  have hops : ∀ i ∈ (Compiler.loopExit depth pool start).code.toList, i.OperandFits chunk := by
    simp only [Compiler.loopExit, List.forall_mem_cons]
    exact ⟨⟨_, hf.constant? (j := 0) rfl⟩, ⟨_, hf.constant? (j := 1) rfl⟩, trivial,
      ⟨_, hf.constant? (j := 2) rfl⟩, trivial, ⟨Int.natCast_nonneg _, hlt⟩, nofun⟩
  have h1 : Settled chunk layout base 5 :=
    settled_of_flow (d := 0) rfl (hf.standsAt.take 5)
      (fun i hi => hops i (List.mem_of_mem_take hi)) hL
  have h2 : Settled chunk layout (base + 5) 1 :=
    .jump (d := 0) hlen (hf.code 5 _ rfl) (hL.drop 5).head hstart
  exact h1.append h2

/-! The pieces of the layout of a statement that holds others. -/

section Pieces

variable {depth base pool : Nat} {p : Place} {e : Expr} {a b : Fragment}

theorem choose_layout {yes : List Stmt} {no : Option (List Stmt)} {n : Fragment}
    (he : ExprCode pool e a)
    (hy : BlockCode depth (base + a.code.size + 1) (pool + a.constants.size) yes b)
    (hn : BlockCode depth (base + a.code.size + 1 + b.code.size + 1)
      (pool + a.constants.size + b.constants.size) (no.getD []) n)
    (hL : StandsAt layout base ((Stmt.choose p e yes no).depths ++ [0])) :
    StandsAt layout base (e.depths 0 ++ [1]) ∧
      StandsAt layout (base + a.code.size) [1, 0] ∧
      StandsAt layout (base + a.code.size + 1) (Stmt.listDepths yes ++ [0]) ∧
      StandsAt layout (base + a.code.size + 1 + b.code.size) [0, 0] ∧
      StandsAt layout (base + a.code.size + 1 + b.code.size + 1)
        (Stmt.listDepths (no.getD []) ++ [0]) := by
  simp only [Stmt.depths, Stmt.optionDepths_eq, List.append_assoc] at hL
  obtain ⟨h1, hL⟩ := hL.split (he.length_depths 0) ⟨_, rfl⟩
  obtain ⟨h2, hL⟩ := StandsAt.split (l := [1]) hL rfl (hy.depths_eq_cons _)
  obtain ⟨h3, hL⟩ := hL.split hy.length_depths ⟨_, rfl⟩
  obtain ⟨h4, h5⟩ := StandsAt.split (l := [0]) hL rfl (hn.depths_eq_cons [])
  exact ⟨h1, h2, h3, h4, h5⟩

theorem loop_layout {body : List Stmt} (he : ExprCode pool e a)
    (hb : BlockCode depth (base + a.code.size + 1) (pool + a.constants.size) body b)
    (hL : StandsAt layout base ((Stmt.loop p e body).depths ++ [0])) :
    StandsAt layout base (e.depths 0 ++ [1]) ∧
      StandsAt layout (base + a.code.size) [1, 0] ∧
      StandsAt layout (base + a.code.size + 1) (Stmt.listDepths body ++ [0]) ∧
      StandsAt layout (base + a.code.size + 1 + b.code.size) [0, 0] := by
  simp only [Stmt.depths, List.append_assoc] at hL
  obtain ⟨h1, hL⟩ := hL.split (he.length_depths 0) ⟨_, rfl⟩
  obtain ⟨h2, hL⟩ := StandsAt.split (l := [1]) hL rfl (hb.depths_eq_cons _)
  obtain ⟨h3, h4⟩ := hL.split hb.length_depths ⟨_, rfl⟩
  exact ⟨h1, h2, h3, h4⟩

theorem forEach_layout {item : String} {body : List Stmt} {parallel : Bool}
    (he : ExprCode pool e a)
    (hb : BlockCode (depth + 1) (base + a.code.size + 15) (pool + a.constants.size + 8) body b)
    (hL : StandsAt layout base ((Stmt.forEach p item e body parallel).depths ++ [0])) :
    StandsAt layout base (e.depths 0 ++ [1]) ∧
      StandsAt layout (base + a.code.size) [1, 1, 0, 1, 1, 0, 1, 2, 2, 1, 0, 1, 2, 1, 1, 0] ∧
      StandsAt layout (base + a.code.size + 15) (Stmt.listDepths body ++ [0]) ∧
      StandsAt layout (base + a.code.size + 15 + b.code.size) [0, 1, 2, 1, 1, 0, 0] := by
  simp only [Stmt.depths, List.append_assoc] at hL
  obtain ⟨h1, hL⟩ := hL.split (he.length_depths 0) ⟨_, rfl⟩
  obtain ⟨h2, hL⟩ := hL.split (n := 15) rfl (hb.depths_eq_cons _)
  obtain ⟨h3, h4⟩ := hL.split hb.length_depths ⟨_, rfl⟩
  exact ⟨h1, h2, h3, h4⟩

end Pieces

mutual

theorem StmtCode.settled (hlen : layout.length = chunk.code.size) :
    ∀ {depth base pool : Nat} {s : Stmt} {f : Fragment}, StmtCode depth base pool s f →
    chunk.Holds base pool f → StandsAt layout base (s.depths ++ [0]) →
    Settled chunk layout base f.code.size
  | _, _, _, _, _, .expr he, hf, hL => by
      simp only [Stmt.depths, List.append_assoc] at hL
      obtain ⟨hL1, hL2⟩ := hL.split (he.length_depths 0) ⟨_, rfl⟩
      have hB : Settled chunk layout _ 1 := .straight (d := 0) hf.right.emit trivial rfl hL2
      rw [Fragment.code_append, Array.size_append]
      exact (he.settled hf.left hL1).append hB
  | _, _, _, _, _, .bind he, hf, hL => by
      simp only [Stmt.depths, List.append_assoc] at hL
      obtain ⟨hL1, hL2⟩ := hL.split (he.length_depths 0) ⟨_, rfl⟩
      rw [Fragment.code_append, Array.size_append]
      exact (he.settled hf.left hL1).append (store_settled hf.right hL2)
  | _, _, _, _, _, .assign he, hf, hL => by
      simp only [Stmt.depths, List.append_assoc] at hL
      obtain ⟨hL1, hL2⟩ := hL.split (he.length_depths 0) ⟨_, rfl⟩
      rw [Fragment.code_append, Array.size_append]
      exact (he.settled hf.left hL1).append (store_settled hf.right hL2)
  | _, _, _, _, _, .choose he hy hn, hf, hL => by
      obtain ⟨hL1, hL2, hL3, hL4, hL5⟩ := choose_layout he hy hn hL
      simp only [Fragment.append_assoc] at hf
      -- both jumps lead to where a block starts or ends
      have hstop : layout[_]? = some 0 := (hL5.split hn.length_depths ⟨_, rfl⟩).2.head
      have hB : Settled chunk layout _ 1 :=
        .jumpIfFalse (d := 0) hlen hf.right.left.emit hL2 hL4.tail.head
      have hD : Settled chunk layout _ 1 :=
        .jump hlen hf.right.right.right.left.emit hL4.head hstop
      simp only [Fragment.append_assoc, Fragment.code_append, Array.size_append]
      exact (he.settled hf.left hL1).append (hB.append
        ((hy.settled hlen hf.right.right.left hL3).append
          (hD.append (hn.settled hlen hf.right.right.right.right hL5))))
  | _, _, _, _, _, .loop he hb, hf, hL => by
      obtain ⟨hL1, hL2, hL3, hL4⟩ := loop_layout he hb hL
      simp only [Fragment.append_assoc] at hf
      obtain ⟨es, hes⟩ := he.depths_eq_cons 0
      have hstart : layout[_]? = some 0 := (hes ▸ hL1).head
      have hB : Settled chunk layout _ 1 :=
        .jumpIfFalse (d := 0) hlen hf.right.left.emit hL2 hL4.tail.head
      have hD : Settled chunk layout _ 1 := .jump hlen hf.right.right.right.emit hL4.head hstart
      simp only [Fragment.append_assoc, Fragment.code_append, Array.size_append]
      exact (he.settled hf.left hL1).append (hB.append
        ((hb.settled hlen hf.right.right.left hL3).append hD))
  | _, _, _, _, _, .forEach he hb, hf, hL => by
      obtain ⟨hL1, hL2, hL3, hL4⟩ := forEach_layout he hb hL
      simp only [Fragment.append_assoc] at hf
      have hB := loopEntry_settled hlen hf.right.left hL2 (hL4.drop 6).head
      have hD := loopExit_settled hlen hf.right.right.right (hL4.take 6) (hL2.drop 5).head
      simp only [Fragment.append_assoc, Fragment.code_append, Array.size_append]
      exact (he.settled hf.left hL1).append (hB.append
        ((hb.settled hlen hf.right.right.left hL3).append hD))

theorem BlockCode.settled (hlen : layout.length = chunk.code.size) :
    ∀ {depth base pool : Nat} {ss : List Stmt} {f : Fragment}, BlockCode depth base pool ss f →
    chunk.Holds base pool f → StandsAt layout base (Stmt.listDepths ss ++ [0]) →
    Settled chunk layout base f.code.size
  | _, _, _, _, _, .nil, _, _ => Settled.empty
  | _, _, _, _, _, .cons hs hss, hf, hL => by
      simp only [Stmt.listDepths, List.append_assoc] at hL
      obtain ⟨hL1, hL2⟩ := hL.split hs.length_depths (hss.depths_eq_cons [])
      rw [Fragment.code_append, Array.size_append]
      exact (hs.settled hlen hf.left hL1).append (hss.settled hlen hf.right hL2)

end

/-! ## Where statements start -/

mutual

/-- The statements inside a statement that stands at `base`, each with the offset of its
first instruction. -/
def Stmt.innerOffsets (base : Nat) : Stmt → List (Nat × Stmt)
  | .choose _ condition yes no =>
    Stmt.listOffsets (base + (condition.depths 0).length + 1) yes
      ++ Stmt.optionOffsets
        (base + (condition.depths 0).length + 1 + (Stmt.listDepths yes).length + 1) no
  | .loop _ condition body => Stmt.listOffsets (base + (condition.depths 0).length + 1) body
  | .forEach _ _ source body _ => Stmt.listOffsets (base + (source.depths 0).length + 15) body
  | _ => []

/-- Statements one behind another from `base` on, and those inside them. -/
def Stmt.listOffsets (base : Nat) : List Stmt → List (Nat × Stmt)
  | [] => []
  | s :: ss =>
    (base, s) :: s.innerOffsets base ++ Stmt.listOffsets (base + s.depths.length) ss

def Stmt.optionOffsets (base : Nat) : Option (List Stmt) → List (Nat × Stmt)
  | none => []
  | some ss => Stmt.listOffsets base ss

end

/-- The statements of a program at any depth, each with the offset where its code starts. -/
def Program.offsets (p : Program) : List (Nat × Stmt) := Stmt.listOffsets 0 p.stmts

/-- The code of the statement stands at the offset, where the layout has depth zero. -/
def StartsAt (chunk : Chunk) (layout : List Nat) (q : Nat × Stmt) : Prop :=
  layout[q.1]? = some 0 ∧
    ∃ depth pool f, Compiler.stmt depth q.1 pool q.2 = .ok f ∧ chunk.Holds q.1 pool f

mutual

theorem Stmt.innerOffsets_start : ∀ {s : Stmt} {depth base pool : Nat} {f : Fragment},
    Compiler.stmt depth base pool s = .ok f → chunk.Holds base pool f →
    StandsAt layout base (s.depths ++ [0]) → ∀ q ∈ s.innerOffsets base, StartsAt chunk layout q
  | .choose _ _ _ none, _, _, _, _, h, hf, hL, q, hq => by
      obtain ⟨a, y, n, ha, hy, hn, rfl⟩ := Compiler.stmt_choose_ok h
      have he := Compiler.exprCode ha
      -- a block that is missing is laid out as an empty one
      obtain ⟨-, -, hL3, -, -⟩ := choose_layout he (Compiler.blockCode hy) .nil hL
      simp only [Fragment.append_assoc] at hf
      simp only [innerOffsets, optionOffsets, List.append_nil, he.length_depths 0] at hq
      exact listOffsets_start hy hf.right.right.left hL3 q hq
  | .choose _ _ _ (some no), _, _, _, _, h, hf, hL, q, hq => by
      obtain ⟨a, y, n, ha, hy, hn, rfl⟩ := Compiler.stmt_choose_ok h
      have he := Compiler.exprCode ha
      have hyc := Compiler.blockCode hy
      have hnc : BlockCode _ _ _ ((some no).getD []) n := Compiler.blockCode hn
      obtain ⟨-, -, hL3, -, hL5⟩ := choose_layout he hyc hnc hL
      simp only [Fragment.append_assoc] at hf
      simp only [innerOffsets, optionOffsets, he.length_depths 0, hyc.length_depths] at hq
      rcases List.mem_append.mp hq with hq | hq
      · exact listOffsets_start hy hf.right.right.left hL3 q hq
      · exact listOffsets_start hn hf.right.right.right.right hL5 q hq
  | .loop .., _, _, _, _, h, hf, hL, q, hq => by
      obtain ⟨a, b, ha, hb, rfl⟩ := Compiler.stmt_loop_ok h
      have he := Compiler.exprCode ha
      obtain ⟨-, -, hL3, -⟩ := loop_layout he (Compiler.blockCode hb) hL
      simp only [Fragment.append_assoc] at hf
      rw [innerOffsets, he.length_depths 0] at hq
      exact listOffsets_start hb hf.right.right.left hL3 q hq
  | .forEach .., _, _, _, _, h, hf, hL, q, hq => by
      obtain ⟨a, b, ha, hb, rfl⟩ := Compiler.stmt_forEach_ok h
      have he := Compiler.exprCode ha
      obtain ⟨-, -, hL3, -⟩ := forEach_layout he (Compiler.blockCode hb) hL
      simp only [Fragment.append_assoc] at hf
      rw [innerOffsets, he.length_depths 0] at hq
      exact listOffsets_start hb hf.right.right.left hL3 q hq
  | .expr .., _, _, _, _, _, _, _, _, hq | .bind .., _, _, _, _, _, _, _, _, hq
  | .assign .., _, _, _, _, _, _, _, _, hq | .define .., _, _, _, _, _, _, _, _, hq
  | .defineClass .., _, _, _, _, _, _, _, _, hq | .assignField .., _, _, _, _, _, _, _, _, hq
  | .giveBack .., _, _, _, _, _, _, _, _, hq | .attempt .., _, _, _, _, _, _, _, _, hq
  | .raise .., _, _, _, _, _, _, _, _, hq | .check .., _, _, _, _, _, _, _, _, hq
  | .importModule .., _, _, _, _, _, _, _, _, hq | .importNames .., _, _, _, _, _, _, _, _, hq
  | .share .., _, _, _, _, _, _, _, _, hq => by cases hq

theorem Stmt.listOffsets_start : ∀ {ss : List Stmt} {depth base pool : Nat} {f : Fragment},
    Compiler.block depth base pool {} ss = .ok f → chunk.Holds base pool f →
    StandsAt layout base (Stmt.listDepths ss ++ [0]) →
    ∀ q ∈ Stmt.listOffsets base ss, StartsAt chunk layout q
  | [], _, _, _, _, _, _, _, _, hq => by cases hq
  | s :: ss, depth, base, pool, _, h, hf, hL, q, hq => by
      obtain ⟨a, b, ha, hb, rfl⟩ := Compiler.block_cons_ok h
      have hs := Compiler.stmtCode ha
      simp only [Stmt.listDepths, List.append_assoc] at hL
      obtain ⟨hL1, hL2⟩ := hL.split hs.length_depths ((Compiler.blockCode hb).depths_eq_cons [])
      obtain ⟨ds, hds⟩ := hs.depths_eq_cons
      rw [listOffsets, hs.length_depths] at hq
      rcases List.mem_append.mp hq with hq | hq
      · rcases List.mem_cons.mp hq with rfl | hq
        · exact ⟨(hds ▸ hL1).head, depth, pool, a, ha, hf.left⟩
        · exact innerOffsets_start ha hf.left hL1 q hq
      · exact listOffsets_start hb hf.right hL2 q hq

end

/-! ## Runs of compiled code -/

theorem Program.standsAt_layout (p : Program) :
    StandsAt p.layout 0 (Stmt.listDepths p.stmts ++ [0]) := by
  intro j d hj
  rw [Nat.zero_add]
  exact hj

/-- Every instruction of a compiled program agrees with the layout of the program, which has
depth zero at the final halt. -/
theorem Program.settled {p : Program} {c : Chunk} (h : p.compile = .ok c) :
    p.layout.length = c.code.size ∧ Settled c p.layout 0 c.code.size ∧
      ∀ o, o + 1 = c.code.size → p.layout[o]? = some 0 := by
  obtain ⟨f, hb, hc, hcode⟩ := compile_ok h
  have hf := Compiler.blockCode hb
  have hlen : p.layout.length = c.code.size := by
    rw [Program.layout, List.length_append, hf.length_depths, hcode, Array.size_push]
    rfl
  have hlast : p.layout[0 + f.code.size]? = some 0 :=
    (p.standsAt_layout.split hf.length_depths ⟨[], rfl⟩).2.head
  have hhalt : Settled c p.layout (0 + f.code.size) 1 := by
    have hi : c.code[0 + f.code.size]? = some ⟨.halt, 0⟩ := by
      rw [hcode, Nat.zero_add, Array.getElem?_push_size]
    refine .single hi hlast trivial (Nat.zero_le 0) nofun fun _ => ⟨rfl, ?_⟩
    rw [hcode, Array.size_push, Nat.zero_add]
  refine ⟨hlen, ?_, ?_⟩
  · rw [hcode, Array.size_push]
    exact (hf.settled hlen hc p.standsAt_layout).append hhalt
  · intro o ho
    rw [hcode, Array.size_push] at ho
    obtain rfl : o = 0 + f.code.size := by omega
    exact hlast

/-- The stack is as deep as the layout says. -/
def Program.FollowsLayout (p : Program) (o : Nat) (m : Machine) : Prop :=
  p.layout[o]? = some m.stack.length

/-- An end that the code is not to blame for, with an empty stack if it is a success. -/
def Machine.EndsBalanced (r : Except MachineError Unit) (m : Machine) : Prop :=
  (∀ e, r = .error e → e.isStructural = false) ∧ (r = .ok () → m.stack = [])

theorem Program.followsLayout_start {p : Program} {c : Chunk} (h : p.compile = .ok c)
    {m : Machine} (hm : m.stack = []) : p.FollowsLayout 0 m := by
  obtain ⟨f, hb, -, -⟩ := compile_ok h
  obtain ⟨ds, hds⟩ := (Compiler.blockCode hb).depths_eq_cons []
  rw [FollowsLayout, hm]
  exact (hds ▸ p.standsAt_layout).head

theorem Machine.step_follows_layout {p : Program} {c : Chunk} (h : p.compile = .ok c) {o : Nat}
    {m : Machine} (ho : p.FollowsLayout o m) : (step c o m).Leads p.FollowsLayout EndsBalanced := by
  obtain ⟨hlen, hset, -⟩ := Program.settled h
  have hlt : o < c.code.size := hlen ▸ (List.getElem?_eq_some_iff.mp ho).1
  obtain ⟨i, d, hi, hd, hop, htakes, hleads, hhalts⟩ := hset o (Nat.zero_le o) (by omega)
  obtain rfl : m.stack.length = d := Option.some.inj (ho.symm.trans hd)
  have hsound : (execute c i (o + 1) m.ticked).Sound _ _ := execute_sound hop htakes
  rw [step_of_getElem? hi]
  cases hx : execute c i (o + 1) m.ticked with
  | next o' m' =>
      rw [hx] at hsound
      exact (hleads o' hsound.1).trans (congrArg some hsound.2.symm)
  | halt m' =>
      rw [hx] at hsound
      have hop := Instr.op_eq_halt hsound.1
      refine ⟨fun e he => (by cases he), fun _ => List.length_eq_zero_iff.mp ?_⟩
      have hgives : i.gives = 0 := by rw [Instr.gives, hop]
      rw [hsound.2, ticked_stack, (hhalts hop).1, hgives, Nat.zero_sub]
  | stop e m' =>
      rw [hx] at hsound
      exact ⟨fun e' he => by cases he; exact hsound.not_structural, fun hok => by cases hok⟩

/-- Along the run of a compiled program the stack is as deep as the layout says, so the code
is never to blame for the end of the run. -/
theorem Machine.run_follows_layout {p : Program} {c : Chunk} (h : p.compile = .ok c)
    (m : Machine) :
    (∀ e, (m.run c).1 = .error e → e.isStructural = false) ∧
      ((m.run c).1 = .ok () → (m.run c).2.stack = []) ∧
      ∀ x ∈ m.trail c, p.layout[x.1]? = some x.2.stack.length := by
  have hlimit (o : Nat) (m : Machine) (_ : p.FollowsLayout o m) :
      EndsBalanced (.error (.instructionLimit m.maxInstructions)) m :=
    ⟨fun e he => by cases he; rfl, fun hok => by cases hok⟩
  -- a run drops what an earlier one has left on the stack
  have hstart : p.FollowsLayout 0 { m with stack := [], executed := 0 } :=
    Program.followsLayout_start h rfl
  obtain ⟨⟨herr, hok⟩, htrail⟩ :=
    run_induction hlimit (fun _ _ => step_follows_layout h) m.maxInstructions 0 _ hstart
  exact ⟨herr, hok, htrail⟩

/-- The run of a compiled program, on a machine in any state, never fails through the code:
no value is missing on the stack, no constant or name is bad and no offset lies outside.
Whenever it comes to the code of a statement, at any depth of nesting, or to the final halt,
the stack is empty, and so it is when the run has succeeded. -/
theorem Machine.run_compiled_balanced {p : Program} {c : Chunk} (h : p.compile = .ok c)
    (m : Machine) :
    (∀ e, (m.run c).1 = .error e → e.isStructural = false) ∧
      (∀ q ∈ p.offsets,
        (∃ depth pool f, Compiler.stmt depth q.1 pool q.2 = .ok f ∧ c.Holds q.1 pool f) ∧
        ∀ x ∈ m.trail c, x.1 = q.1 → x.2.stack = []) ∧
      (c.code.back? = some ⟨.halt, 0⟩ ∧
        ∀ x ∈ m.trail c, x.1 + 1 = c.code.size → x.2.stack = []) ∧
      ((m.run c).1 = .ok () → (m.run c).2.stack = []) := by
  obtain ⟨herr, hok, htrail⟩ := run_follows_layout h m
  obtain ⟨-, -, hlast⟩ := Program.settled h
  obtain ⟨f, hb, hc, hcode⟩ := Program.compile_ok h
  have hempty {o : Nat} (ho : p.layout[o]? = some 0) : ∀ x ∈ m.trail c, x.1 = o →
      x.2.stack = [] := by
    rintro x hx rfl
    exact List.length_eq_zero_iff.mp (Option.some.inj ((htrail x hx).symm.trans ho))
  refine ⟨herr, fun q hq => ?_, ⟨?_, fun x hx ho => hempty (hlast x.1 ho) x hx rfl⟩, hok⟩
  · obtain ⟨ho, hcompiled⟩ := Stmt.listOffsets_start hb hc p.standsAt_layout q hq
    exact ⟨hcompiled, hempty ho⟩
  · rw [hcode, Array.back?_push]

/-- A loop over an array with a condition around the printing of its item. -/
def nestedLoop : Program :=
  ⟨[.forEach default "x" (.array default [.number default 7.0])
    [.choose default (.name default "x")
      [.expr default (.call default "print" [.name default "x"])] none]
    false]⟩

theorem Machine.nestedLoop_balanced :
    let m : Machine := { capacity := 4, maxInstructions := 100, stack := [.null] }
    nestedLoop.compile = .ok nestedLoop.chunk ∧ nestedLoop.offsets.map (·.1) = [0, 17, 19] ∧
      (m.run nestedLoop.chunk).1 = .ok () ∧ (m.run nestedLoop.chunk).2.stack = [] ∧
      ∀ x ∈ m.trail nestedLoop.chunk, x.1 ∈ [0, 17, 19] → x.2.stack = [] := by
  intro m
  have hc : nestedLoop.compile = .ok nestedLoop.chunk :=
    Program.compile_eq_chunk (by decide +kernel)
  have hrun : (m.run nestedLoop.chunk).1 = .ok () := by decide +kernel
  have hoffsets : nestedLoop.offsets.map (·.1) = [0, 17, 19] := by decide +kernel
  obtain ⟨-, hstarts, -, hok⟩ := Machine.run_compiled_balanced hc m
  refine ⟨hc, hoffsets, hrun, hok hrun, fun x hx ho => ?_⟩
  obtain ⟨q, hq, hqo⟩ := List.mem_map.mp (hoffsets ▸ ho)
  exact (hstarts q hq).2 x hx hqo.symm

end ScriptLang
