import Mathlib
import ScriptLang.Proofs.Program.Joined
import ScriptLang.Proofs.Program.Sheet

/-!
# Where the nodes of a program stand

Each node of a program stands on the tokens that it was read from: it begins with one
and ends with one, its children lie inside it in their order, and its line is one of
those it stands on. A text whose tokens form no program is refused at one of them or
at the end.
-/

namespace ScriptLang

namespace Sheet

theorem Laid.of_mem_preorder {b : Sheet} {n m : Node} (h : b.Laid n) (hm : m ∈ n.preorder) :
    b.Laid m := by
  rw [Node.preorder_eq] at hm
  rcases List.mem_cons.mp hm with rfl | hm
  · exact h
  · obtain ⟨child, hchild, hm⟩ := List.mem_flatMap.mp hm
    exact Laid.of_mem_preorder (h.row.inside child hchild).2.2 hm
termination_by sizeOf n
decreasing_by exact Node.sizeOf_children hchild

/-- What the scanner makes of a text. -/
def ofScan {source : String} {tokens : List (Token × Span)} (h : Token.scan source = .ok tokens) :
    Sheet where
  lexemes := Program.lexemes source tokens
  final := ⟨source.utf8ByteSize, source.utf8ByteSize⟩
  line := (Lines.ofText source).line
  line_mono := Lines.line_mono source
  span_lt := List.forall_mem_map.mpr fun _ hx => (Token.span_of_scan h hx).1
  stop_le := List.forall_mem_map.mpr fun _ hx => (Token.span_of_scan h hx).2
  ordered := List.pairwise_map.mpr (Token.tiling_of_scanFrom h [] rfl).ordered.2
  line_eq := List.forall_mem_map.mpr fun _ _ => rfl

end Sheet

/-- The node stands on tokens of the text and its children stand inside it, one behind another. -/
structure Node.WellPlaced (source : String) (tokens : List (Token × Span)) (n : Node) : Prop where
  starts : ∃ x ∈ tokens, n.span.start = x.2.start
  stops : ∃ x ∈ tokens, n.span.stop = x.2.stop
  nonempty : n.span.start < n.span.stop
  stop_le : n.span.stop ≤ source.utf8ByteSize
  inside : ∀ m ∈ n.children, n.span.start ≤ m.span.start ∧ m.span.stop ≤ n.span.stop
  ordered : n.children.Pairwise fun m m' => m.span.stop ≤ m'.span.start
  onLine : n.OnLine (Lines.ofText source).line

theorem Node.wellPlaced_of_laid {source : String} {tokens : List (Token × Span)}
    (h : Token.scan source = .ok tokens) {n : Node} (hn : (Sheet.ofScan h).Laid n) :
    n.WellPlaced source tokens := by
  obtain ⟨l, hl, hstart⟩ := hn.marks.starts
  obtain ⟨l', hl', hstop⟩ := hn.marks.stops
  obtain ⟨x, hx, rfl⟩ := List.mem_map.mp hl
  obtain ⟨x', hx', rfl⟩ := List.mem_map.mp hl'
  refine ⟨⟨x, hx, hstart⟩, ⟨x', hx', hstop⟩, hn.marks.lt, ?_, ?_, hn.row.pairwise, hn.marks.onLine⟩
  · rw [hstop]
    exact (Token.span_of_scan h hx').2
  · intro m hm
    obtain ⟨hlo, hhi, -⟩ := hn.row.inside m hm
    exact ⟨hlo, hhi⟩

namespace Program

open ScriptLang.Node

theorem ofText_error {source : String} {tokens : List (Token × Span)} {x : SourceError}
    (hscan : Token.scan source = .ok tokens) (h : ofText source = .error x) :
    ∃ y, x = .parse y ∧ ofTokens source tokens = .error y := by
  rw [ofText_of_scan hscan] at h
  cases hread : ofTokens source tokens with
  | error y =>
      rw [hread] at h
      exact ⟨y, (Except.error.inj h).symm, rfl⟩
  | ok p =>
      rw [hread] at h
      cases h

/-- What is read from the tokens of a text stands on them, and an error stands at one of them or
at the end. -/
theorem stands_ofScan {source : String} {tokens : List (Token × Span)}
    (h : Token.scan source = .ok tokens) :
    (∀ p, ofTokens source tokens = .ok p → ∃ hi, (Sheet.ofScan h).Row 0 hi (ofBlock p.stmts)) ∧
    (∀ e, ofTokens source tokens = .error e → (Sheet.ofScan h).Blames e.span) := by
  have hstart : (Sheet.ofScan h).Sits (startOf source tokens) := ⟨List.suffix_rfl, rfl⟩
  rcases ofTokens_cases source tokens with ⟨p, d, hok, hholds⟩ | ⟨e, d, herror, hd, hspan, -⟩
  · rw [hok]
    refine ⟨?_, fun _ herror => by cases herror⟩
    rintro _ ⟨⟩
    exact ⟨_, hstart.row hholds (Nat.zero_le _) (Nat.zero_le _)⟩
  · rw [herror]
    refine ⟨(by intro _ hok; cases hok), ?_⟩
    rintro _ ⟨⟩
    rw [hspan]
    exact (hstart.stays hd).1.blames

/-- The nodes of a program stand on the tokens of its text, children inside their parents and one
behind another, on the lines of the text. A text with tokens that is no program is refused at
a token or at its end. -/
theorem ofText_placed (source : String) :
    (∀ p, ofText source = .ok p → ∃ tokens, Token.scan source = .ok tokens ∧
      (∀ n ∈ p.nodes, n.WellPlaced source tokens) ∧
      (ofBlock p.stmts).Pairwise fun n m => n.span.stop ≤ m.span.start) ∧
    (∀ tokens x, Token.scan source = .ok tokens → ofText source = .error x →
      (∃ t ∈ tokens, x.span = t.2) ∨ x.span = ⟨source.utf8ByteSize, source.utf8ByteSize⟩) := by
  constructor
  · intro p hp
    obtain ⟨tokens, hscan, hread⟩ := ofText_ok hp
    obtain ⟨hi, hrow⟩ := (stands_ofScan hscan).1 p hread
    refine ⟨tokens, hscan, fun n hn => ?_, hrow.pairwise⟩
    obtain ⟨top, htop, hn⟩ := List.mem_flatMap.mp hn
    exact wellPlaced_of_laid hscan ((hrow.inside top htop).2.2.of_mem_preorder hn)
  · intro tokens x hscan hx
    obtain ⟨y, rfl, hread⟩ := ofText_error hscan hx
    rcases (stands_ofScan hscan).2 y hread with hend | ⟨l, hl, hspan⟩
    · exact .inr hend
    · obtain ⟨t, ht, rfl⟩ := List.mem_map.mp hl
      exact .inl ⟨t, ht, hspan⟩

/-- A matrix with a method called on it from another line, and an operand in parentheses that
goes on to the next line. -/
def spread : String := "[[1, 2],\n [(3), x]]\n  .size(); y = (a\n[0]) + 1"

def spreadPlaces : List Place :=
  [⟨⟨0, 29⟩, 1⟩, ⟨⟨0, 29⟩, 3⟩, ⟨⟨0, 19⟩, 1⟩, ⟨⟨2, 3⟩, 1⟩, ⟨⟨5, 6⟩, 1⟩, ⟨⟨11, 14⟩, 2⟩,
    ⟨⟨16, 17⟩, 2⟩, ⟨⟨31, 46⟩, 3⟩, ⟨⟨35, 46⟩, 3⟩, ⟨⟨35, 42⟩, 3⟩, ⟨⟨36, 37⟩, 3⟩, ⟨⟨39, 40⟩, 4⟩,
    ⟨⟨45, 46⟩, 4⟩]

/-- A text that ends before its parenthesis is closed. -/
def halfOpen : String := "y = (a +"

theorem spread_placed :
    (∃ p tokens, ofText spread = .ok p ∧ p.nodes.map Node.place = spreadPlaces ∧
      Token.scan spread = .ok tokens ∧ (∀ n ∈ p.nodes, n.WellPlaced spread tokens) ∧
      (ofBlock p.stmts).Pairwise fun n m => n.span.stop ≤ m.span.start) ∧
    ∃ tokens x, Token.scan halfOpen = .ok tokens ∧ ofText halfOpen = .error x ∧
      ((∃ t ∈ tokens, x.span = t.2) ∨
        x.span = ⟨halfOpen.utf8ByteSize, halfOpen.utf8ByteSize⟩) := by
  constructor
  · have hplaces : (ofText spread).toOption.map (·.nodes.map Node.place) = some spreadPlaces := by
      decide +kernel
    obtain ⟨p, hp, hnodes⟩ := Except.exists_of_toOption_map hplaces
    obtain ⟨tokens, hscan, hplaced, hordered⟩ := (ofText_placed spread).1 p hp
    exact ⟨p, tokens, hp, hnodes, hscan, hplaced, hordered⟩
  · have hlength : (Token.scan halfOpen).toOption.map List.length = some 5 := by decide +kernel
    have hnone : (ofText halfOpen).toOption.isNone = true := by decide +kernel
    obtain ⟨tokens, hscan, -⟩ := Except.exists_of_toOption_map hlength
    cases hx : ofText halfOpen with
    | ok p =>
        rw [hx] at hnone
        cases hnone
    | error x => exact ⟨tokens, x, hscan, rfl, (ofText_placed halfOpen).2 tokens x hscan hx⟩

end Program

end ScriptLang
