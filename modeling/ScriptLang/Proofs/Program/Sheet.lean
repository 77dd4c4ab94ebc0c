import Mathlib
import ScriptLang.Proofs.Program.Trace

/-!
# A cursor on its way over a text

The lexemes of a text stand one behind another. A cursor that reads them goes from
one to the next, so what was read between two points of its way lies between them,
and the nodes that are made of it lie one behind another, inside those they are part
of (`Laid`, `Row`). So a node that a cursor has read from a point of the text on is well
placed (`readsNode_of_spans`).
-/

namespace ScriptLang

/-- A statement is on the line where it begins, an expression on one of its lines. -/
def Node.OnLine (line : Nat → Nat) : Node → Prop
  | .stmt s => s.place.line = line s.place.span.start
  | .expr e => line e.place.span.start ≤ e.place.line ∧ e.place.line ≤ line e.place.span.stop

/-- The lexemes of a text in their order, with the lines of its offsets. -/
structure Sheet where
  lexemes : List Lexeme
  /-- The empty span at the end. -/
  final : Span
  line : Nat → Nat
  line_mono : ∀ {o o' : Nat}, o ≤ o' → line o ≤ line o'
  span_lt : ∀ l ∈ lexemes, l.span.start < l.span.stop
  stop_le : ∀ l ∈ lexemes, l.span.stop ≤ final.start
  ordered : lexemes.Pairwise fun l l' => l.span.stop ≤ l'.span.start
  line_eq : ∀ l ∈ lexemes, l.line = line l.span.start

namespace Sheet

variable {b : Sheet} {c d e : Cursor}

/-! ## Cursors -/

/-- The span of a lexeme or of the end. -/
def Blames (b : Sheet) (s : Span) : Prop := s = b.final ∨ ∃ l ∈ b.lexemes, s = l.span

/-- The cursor stands somewhere in the text. -/
structure Sits (b : Sheet) (c : Cursor) : Prop where
  suffix : c.rest <:+ b.lexemes
  final : c.final = b.final

/-- The cursor stands somewhere in the text and has read a lexeme of it. -/
structure Has (b : Sheet) (c : Cursor) : Prop extends b.Sits c where
  last : ∃ l ∈ b.lexemes, c.last = l.span
  behind : c.last.stop ≤ c.span.start

/-- Between two points of its way the cursor has read the lexeme at the first and perhaps more. -/
structure Reads (b : Sheet) (c d : Cursor) : Prop where
  has : b.Has d
  start_le : c.span.start ≤ d.last.start
  stop_le : c.span.stop ≤ d.last.stop

/-- Between two points of its way the cursor may have read something. -/
structure Stays (b : Sheet) (c d : Cursor) : Prop where
  has : b.Has d
  start_le : c.last.start ≤ d.last.start
  stop_le : c.last.stop ≤ d.last.stop

theorem Sits.exists_lexeme (hc : b.Sits c) (hne : c.rest ≠ []) :
    ∃ l ∈ b.lexemes, c.span = l.span ∧ c.line = l.line := by
  obtain ⟨l, rest, hrest⟩ := List.exists_cons_of_ne_nil hne
  refine ⟨l, hc.suffix.subset (hrest ▸ List.mem_cons_self), ?_, ?_⟩
  · rw [Cursor.span, hrest]
  · rw [Cursor.line, hrest]

theorem Sits.blames (hc : b.Sits c) : b.Blames c.span := by
  by_cases hnil : c.rest = []
  · left
    rw [Cursor.span, hnil]
    exact hc.final
  · obtain ⟨l, hl, hspan, -⟩ := hc.exists_lexeme hnil
    exact .inr ⟨l, hl, hspan⟩

theorem Has.last_lt (hc : b.Has c) : c.last.start < c.last.stop := by
  obtain ⟨l, hl, hlast⟩ := hc.last
  rw [hlast]
  exact b.span_lt l hl

theorem Reads.lt (h : b.Reads c d) : c.span.start < d.last.stop :=
  h.start_le.trans_lt h.has.last_lt

theorem Stays.refl (hc : b.Has c) : b.Stays c c := ⟨hc, le_rfl, le_rfl⟩

theorem Reads.stays_trans (h : b.Reads c d) (h' : b.Stays d e) : b.Reads c e :=
  ⟨h'.has, h.start_le.trans h'.start_le, h.stop_le.trans h'.stop_le⟩

theorem Reads.stays (hc : b.Has c) (h : b.Reads c d) : b.Stays c d := by
  have hlast := hc.last_lt
  have hbehind := hc.behind
  have hstart := h.start_le
  have hlt := h.lt
  exact ⟨h.has, by omega, by omega⟩

theorem Reads.trans (h : b.Reads c d) (h' : b.Reads d e) : b.Reads c e :=
  h.stays_trans (h'.stays h.has)

/-- Only where a lexeme is left can something be read. -/
theorem Reads.rest_ne_nil (hc : b.Sits c) (h : b.Reads c d) : c.rest ≠ [] := by
  intro hnil
  obtain ⟨l, hl, hlast⟩ := h.has.last
  have hspan : c.span = b.final := by
    rw [Cursor.span, hnil]
    exact hc.final
  have hlt := h.lt
  have hle := b.stop_le l hl
  rw [hspan, hlast] at hlt
  omega

theorem Reads.merge_eq (h : b.Reads c d) :
    c.span.merge d.last = ⟨c.span.start, d.last.stop⟩ := by
  rw [Span.merge, Nat.min_eq_left h.start_le, Nat.max_eq_right h.stop_le]

theorem Sits.next {t : Token} (hc : b.Sits c) (ht : c.token? = some t) : b.Reads c c.next := by
  obtain ⟨rest, last, final⟩ := c
  cases rest with
  | nil => cases ht
  | cons l rest =>
      have hl : l ∈ b.lexemes := hc.suffix.subset List.mem_cons_self
      have hsuffix : rest <:+ b.lexemes := (List.suffix_cons l rest).trans hc.suffix
      have hbehind : ∀ l' ∈ rest, l.span.stop ≤ l'.span.start :=
        (List.pairwise_cons.mp (b.ordered.sublist hc.suffix.sublist)).1
      refine ⟨⟨⟨hsuffix, hc.final⟩, ⟨l, hl, rfl⟩, ?_⟩, le_rfl, le_rfl⟩
      show l.span.stop ≤ (Cursor.span ⟨rest, l.span, final⟩).start
      cases rest with
      | nil =>
          have hfinal : final = b.final := hc.final
          rw [Cursor.span, hfinal]
          exact b.stop_le l hl
      | cons l' rest => exact hbehind l' List.mem_cons_self

/-! ## Nodes -/

/-- The node begins and ends with lexemes and is on a line of its own. -/
structure Marks (b : Sheet) (n : Node) : Prop where
  starts : ∃ l ∈ b.lexemes, n.span.start = l.span.start
  stops : ∃ l ∈ b.lexemes, n.span.stop = l.span.stop
  lt : n.span.start < n.span.stop
  onLine : n.OnLine b.line

mutual

/-- The node and all nodes inside it are well placed, and each has its children inside. -/
inductive Laid (b : Sheet) : Node → Prop
  | intro {n : Node} (marks : b.Marks n) (row : Row b n.span.start n.span.stop n.children) :
      Laid b n

/-- The nodes are well placed and stand one behind another between two offsets. -/
inductive Row (b : Sheet) : Nat → Nat → List Node → Prop
  | nil {lo hi : Nat} (h : lo ≤ hi) : Row b lo hi []
  | cons {lo hi : Nat} {n : Node} {ns : List Node} (h : lo ≤ n.span.start) (laid : Laid b n)
      (rest : Row b n.span.stop hi ns) : Row b lo hi (n :: ns)

end

theorem Laid.marks {n : Node} (h : b.Laid n) : b.Marks n := by
  cases h with
  | intro marks _ => exact marks

theorem Laid.row {n : Node} (h : b.Laid n) : b.Row n.span.start n.span.stop n.children := by
  cases h with
  | intro _ row => exact row

namespace Row

variable {lo mid hi lo' hi' : Nat} {ns ms : List Node} {n : Node}

theorem le (h : b.Row lo hi ns) : lo ≤ hi := by
  induction ns generalizing lo with
  | nil =>
      cases h with
      | nil hle => exact hle
  | cons n ns ih =>
      cases h with
      | cons hle laid rest =>
          have hlt := laid.marks.lt
          have hrest := ih rest
          omega

theorem mono (h : b.Row lo hi ns) (hlo : lo' ≤ lo) (hhi : hi ≤ hi') : b.Row lo' hi' ns := by
  induction ns generalizing lo lo' with
  | nil =>
      cases h with
      | nil hle => exact .nil (by omega)
  | cons n ns ih =>
      cases h with
      | cons hle laid rest => exact .cons (hlo.trans hle) laid (ih rest le_rfl)

theorem append (h : b.Row lo mid ns) (h' : b.Row mid hi ms) : b.Row lo hi (ns ++ ms) := by
  induction ns generalizing lo with
  | nil =>
      cases h with
      | nil hle => exact h'.mono hle le_rfl
  | cons n ns ih =>
      cases h with
      | cons hle laid rest => exact .cons hle laid (ih rest)

theorem single (hlo : lo ≤ n.span.start) (laid : b.Laid n) (hhi : n.span.stop ≤ hi) :
    b.Row lo hi [n] :=
  .cons hlo laid (.nil hhi)

theorem inside (h : b.Row lo hi ns) :
    ∀ m ∈ ns, lo ≤ m.span.start ∧ m.span.stop ≤ hi ∧ b.Laid m := by
  induction ns generalizing lo with
  | nil => exact List.forall_mem_nil _
  | cons n ns ih =>
      cases h with
      | cons hle laid rest =>
          refine List.forall_mem_cons.mpr ⟨⟨hle, rest.le, laid⟩, fun m hm => ?_⟩
          have hlt := laid.marks.lt
          obtain ⟨hstart, hstop, hm⟩ := ih rest m hm
          exact ⟨by omega, hstop, hm⟩

theorem pairwise (h : b.Row lo hi ns) : ns.Pairwise fun n m => n.span.stop ≤ m.span.start := by
  induction ns generalizing lo with
  | nil => exact .nil
  | cons n ns ih =>
      cases h with
      | cons hle laid rest => exact .cons (fun m hm => (rest.inside m hm).1) (ih rest)

end Row

/-- The nodes were read between two points. -/
structure ReadsRow (b : Sheet) (c : Cursor) (ns : List Node) (d : Cursor) : Prop where
  reads : b.Reads c d
  row : b.Row c.span.start d.last.stop ns

/-- What was read between two points makes up the node. -/
structure ReadsNode (b : Sheet) (c : Cursor) (n : Node) (d : Cursor) : Prop where
  reads : b.Reads c d
  laid : b.Laid n
  span_eq : n.span = ⟨c.span.start, d.last.stop⟩

theorem Reads.line_eq (hc : b.Sits c) (h : b.Reads c d) : c.line = b.line c.span.start := by
  obtain ⟨l, hl, hspan, hline⟩ := hc.exists_lexeme (h.rest_ne_nil hc)
  rw [hspan, hline]
  exact b.line_eq l hl

theorem ReadsNode.row {n : Node} (h : b.ReadsNode c n d) : b.ReadsRow c [n] d := by
  refine ⟨h.reads, .single ?_ h.laid ?_⟩ <;> rw [h.span_eq]

namespace ReadsRow

variable {n : Node} {ns ms : List Node}

theorem has (h : b.ReadsRow c ns d) : b.Has d := h.reads.has

theorem sits (h : b.ReadsRow c ns d) : b.Sits d := h.has.toSits

theorem append (h : b.ReadsRow c ns d) (h' : b.ReadsRow d ms e) : b.ReadsRow c (ns ++ ms) e :=
  ⟨h.reads.trans h'.reads, (h.row.mono le_rfl h.has.behind).append h'.row⟩

theorem stays (h : b.ReadsRow c ns d) (h' : b.Stays d e) : b.ReadsRow c ns e :=
  ⟨h.reads.stays_trans h', h.row.mono le_rfl h'.stop_le⟩

theorem reads_trans (h : b.ReadsRow c ns d) (h' : b.Reads d e) : b.ReadsRow c ns e :=
  h.stays (h'.stays h.has)

/-- All that was read makes up a node with the nodes in it as its children. -/
theorem node (hc : b.Sits c) (h : b.ReadsRow c n.children d)
    (hspan : n.span = ⟨c.span.start, d.last.stop⟩) (hline : n.OnLine b.line) :
    b.ReadsNode c n d := by
  obtain ⟨l, hl, hfirst, -⟩ := hc.exists_lexeme (h.reads.rest_ne_nil hc)
  obtain ⟨l', hl', hlast⟩ := h.has.last
  refine ⟨h.reads, .intro ⟨⟨l, hl, ?_⟩, ⟨l', hl', ?_⟩, ?_, hline⟩ ?_, hspan⟩
  · rw [hspan, hfirst]
  · rw [hspan, hlast]
  · rw [hspan]
    exact h.reads.lt
  · rw [hspan]
    exact h.row

/-- The same if the place was taken at the first lexeme and is carried on to the last. -/
theorem node_since (hc : b.Sits c) (h : b.ReadsRow c n.children d)
    (hplace : n.place = ⟨c.span.merge d.last, c.line⟩) : b.ReadsNode c n d := by
  have hline := h.reads.line_eq hc
  rw [h.reads.merge_eq] at hplace
  refine h.node hc (by rw [Node.span, hplace]) ?_
  cases n with
  | stmt s =>
      rw [Node.OnLine, show s.place = _ from hplace]
      exact hline
  | expr e =>
      rw [Node.OnLine, show e.place = _ from hplace]
      exact ⟨hline.ge, hline.le.trans (b.line_mono h.reads.lt.le)⟩

end ReadsRow

/-! ## What was read -/

/-- Once a lexeme was passed, the cursor has read from the one cursor to the other. -/
theorem Sits.passes (hc : b.Sits c) (h : c.Passes 1 d) : b.Reads c d := by
  obtain ⟨k, hpos, hk, rfl⟩ := h
  induction k generalizing c with
  | zero => cases hpos
  | succ k ih =>
      obtain ⟨t, ht⟩ := Cursor.Passes.exists_token ⟨k + 1, hpos, hk, rfl⟩
      have hnext := hc.next ht
      cases k with
      | zero => exact hnext
      | succ k =>
          have hlength := (Cursor.Passes.next ht).length_add_le
          rw [Function.iterate_succ_apply]
          refine hnext.trans (ih hnext.has.toSits (Nat.succ_pos k) ?_)
          rw [Cursor.rest_next, List.length_tail]
          omega

theorem Has.passes (hc : b.Has c) (h : c.Passes 0 d) : b.Stays c d := by
  obtain ⟨k, -, hk, rfl⟩ := h
  cases k with
  | zero => exact .refl hc
  | succ k => exact (hc.toSits.passes ⟨k + 1, Nat.succ_pos k, hk, rfl⟩).stays hc

theorem Sits.stays (hc : b.Sits c) (h : c.Passes 0 d) :
    b.Sits d ∧ c.span.start ≤ d.span.start := by
  obtain ⟨k, -, hk, rfl⟩ := h
  cases k with
  | zero => exact ⟨hc, le_rfl⟩
  | succ k =>
      have hread := hc.passes ⟨k + 1, Nat.succ_pos k, hk, rfl⟩
      exact ⟨hread.has.toSits, hread.lt.le.trans hread.has.behind⟩

/-- A node that begins with another one takes its line from what comes behind that. -/
theorem node_behind {left whole : Expr} {more : List Node} (hc : b.Sits c)
    (hleft : b.ReadsNode c (.expr left) d) (h : b.ReadsRow d more e)
    (hchildren : Node.ofExprs whole.children = .expr left :: more)
    (hplace : whole.place = ⟨c.span.merge e.last, d.line⟩) : b.ReadsNode c (.expr whole) e := by
  have hrow := hleft.row.append h
  rw [hrow.reads.merge_eq] at hplace
  refine ReadsRow.node hc ?_ (congrArg Place.span hplace) ?_
  · rwa [Node.children, hchildren]
  · rw [Node.OnLine, hplace, h.reads.line_eq hleft.row.sits]
    have hstart : c.span.start ≤ d.span.start := hleft.reads.lt.le.trans hleft.reads.has.behind
    exact ⟨b.line_mono hstart, b.line_mono h.reads.lt.le⟩

/-- Two operands make up a node from the first token of the one to the last of the other. -/
theorem node_binary {left right : Expr} {op : BinaryOp} {d' : Cursor} (hc : b.Sits c)
    (hleft : b.ReadsNode c (.expr left) d) (hop : b.Reads d d')
    (hright : b.ReadsNode d' (.expr right) e) :
    b.ReadsNode c (.expr (.binary ⟨left.place.span.merge right.place.span, left.place.line⟩
      left op right)) e := by
  have hrow := (hleft.row.reads_trans hop).append hright.row
  have hleftSpan : left.place.span = ⟨c.span.start, d.last.stop⟩ := hleft.span_eq
  have hrightSpan : right.place.span = ⟨d'.span.start, e.last.stop⟩ := hright.span_eq
  have hstop : d.last.stop ≤ e.last.stop := ((hop.trans hright.reads).stays hleft.reads.has).stop_le
  have hstart : c.span.start ≤ d'.span.start :=
    (hleft.reads.trans hop).lt.le.trans hop.has.behind
  have hspan : left.place.span.merge right.place.span = ⟨c.span.start, e.last.stop⟩ := by
    rw [hleftSpan, hrightSpan, Span.merge, Nat.min_eq_left hstart, Nat.max_eq_right hstop]
  refine ReadsRow.node hc hrow hspan ?_
  obtain ⟨hlo, hhi⟩ : (Node.expr left).OnLine b.line := hleft.laid.marks.onLine
  rw [hleftSpan] at hlo hhi
  rw [hspan]
  exact ⟨hlo, hhi.trans (b.line_mono hstop)⟩

/-- Nodes that were read one behind another stand so, if each of them is well placed. -/
theorem row_of_holds {ns : List Node} {lo : Nat}
    (hnodes : ∀ n ∈ ns, ∀ c d, b.Sits c → c.Spans n d → b.ReadsNode c n d) (h : c.Holds ns d)
    (hc : b.Sits c) (hlo : lo ≤ c.span.start) (hhi : lo ≤ d.last.stop) :
    b.Row lo d.last.stop ns := by
  induction ns generalizing c lo with
  | nil => exact .nil hhi
  | cons n ns ih =>
      cases h with
      | cons hpasses first rest =>
          obtain ⟨hfirst, hrest⟩ := List.forall_mem_cons.mp hnodes
          obtain ⟨hsits, hstart⟩ := hc.stays hpasses
          have hn := hfirst _ _ hsits first
          refine .cons ?_ hn.laid ?_
          · rw [hn.span_eq]
            exact hlo.trans hstart
          · rw [hn.span_eq]
            exact ih hrest rest hn.reads.has.toSits hn.reads.has.behind
              (hn.reads.has.passes rest.passes).stop_le

/-- What makes up a node is well placed, if what makes up its children is. -/
theorem readsNode_of_children {n : Node}
    (hnodes : ∀ child ∈ n.children, ∀ c d, b.Sits c → c.Spans child d → b.ReadsNode c child d)
    (hc : b.Sits c) (h : c.Spans n d) : b.ReadsNode c n d := by
  cases h with
  | since passes inside _ place =>
      have hread := hc.passes passes
      exact ReadsRow.node_since hc ⟨hread, row_of_holds hnodes inside hc le_rfl hread.lt.le⟩ place
  | behind first passes rest hchildren _ place =>
      rw [Node.children, hchildren, List.forall_mem_cons] at hnodes
      have hleft := hnodes.1 _ _ hc first
      have hsits := hleft.reads.has.toSits
      have hread := hsits.passes passes
      have hrow := row_of_holds hnodes.2 rest hsits le_rfl hread.lt.le
      exact node_behind hc hleft ⟨hread, hrow⟩ hchildren place
  | binary first passes second =>
      obtain ⟨hfirst, hsecond⟩ := List.forall_mem_cons.mp hnodes
      have hleft := hfirst _ _ hc first
      have hop := hleft.reads.has.toSits.passes passes
      exact node_binary hc hleft hop
        ((List.forall_mem_cons.mp hsecond).1 _ _ hop.has.toSits second)

/-- What a cursor has passed from its place in the text makes up a well-placed node. -/
theorem readsNode_of_spans {c d : Cursor} {n : Node} (hc : b.Sits c) (h : c.Spans n d) :
    b.ReadsNode c n d :=
  readsNode_of_children (fun _ _ _ _ hc' h' => readsNode_of_spans hc' h') hc h
termination_by sizeOf n
decreasing_by exact Node.sizeOf_children (by assumption)

theorem Sits.row {ns : List Node} {lo : Nat} (hc : b.Sits c) (h : c.Holds ns d)
    (hlo : lo ≤ c.span.start) (hhi : lo ≤ d.last.stop) : b.Row lo d.last.stop ns :=
  row_of_holds (fun _ _ _ _ => readsNode_of_spans) h hc hlo hhi

end Sheet

end ScriptLang
