import LineBasic.Statement

/-!
# Programs

A program is a list of numbered lines in ascending order, each with one statement.

* `Program.get?`, `Program.first?`, `Program.next?`: the line with a number, the first line and
  the first line after a number;
* `Program.insert`: one more line, at its place.
-/

namespace LineBasic

/-- The greatest number a line can have. -/
def maxLineNumber : Nat := 4294967295

/-- A numbered line. Its span reaches from its number to its last token. -/
structure Line where
  number : Nat
  statement : Statement
  span : Span
deriving DecidableEq

/-- Numbered lines in ascending order, so that no number occurs twice. -/
@[ext]
structure Program where
  lines : List Line
  ascending : lines.Pairwise fun a b => a.number < b.number

namespace Program

/-- The program without lines. -/
def empty : Program := ⟨[], .nil⟩

/-- The number of lines. -/
def size (p : Program) : Nat := p.lines.length

/-- Whether a program has no lines. -/
def isEmpty (p : Program) : Bool := p.lines.isEmpty

/-- The line with a number. -/
def get? (p : Program) (n : Nat) : Option Line := p.lines.find? fun l => l.number == n

/-- The number of the first line. -/
def first? (p : Program) : Option Nat := p.lines.head?.map Line.number

/-- The number of the first line after `n`. -/
def next? (p : Program) (n : Nat) : Option Nat :=
  (p.lines.find? fun l => decide (n < l.number)).map Line.number

/-- The names that the program can assign, in order of first appearance. -/
def assigned (p : Program) : List String :=
  (p.lines.flatMap fun l => l.statement.assigned).eraseDups

/-! ### Adding a line -/

/-- A line put before the first line with a greater number. -/
def insertLine (l : Line) : List Line → List Line
  | [] => [l]
  | m :: ms => if l.number < m.number then l :: m :: ms else m :: insertLine l ms

theorem mem_insertLine (l m : Line) (ls : List Line) :
    m ∈ insertLine l ls ↔ m = l ∨ m ∈ ls := by
  induction ls with
  | nil => simp [insertLine]
  | cons k ks ih =>
    rw [insertLine]
    split
    · simp
    · rw [List.mem_cons, ih, List.mem_cons]
      exact or_left_comm

theorem insertLine_ascending {l : Line} {ls : List Line}
    (sorted : ls.Pairwise fun a b => a.number < b.number)
    (fresh : ∀ m ∈ ls, m.number ≠ l.number) :
    (insertLine l ls).Pairwise fun a b => a.number < b.number := by
  induction ls with
  | nil => exact List.pairwise_singleton ..
  | cons k ks ih =>
    obtain ⟨above, sorted⟩ := List.pairwise_cons.1 sorted
    rw [insertLine]
    split
    next before =>
      refine List.pairwise_cons.2 ⟨fun m hm => ?_, List.pairwise_cons.2 ⟨above, sorted⟩⟩
      rcases List.mem_cons.1 hm with rfl | hm
      · exact before
      · exact Nat.lt_trans before (above m hm)
    next notBefore =>
      refine List.pairwise_cons.2
        ⟨fun m hm => ?_, ih sorted fun m hm => fresh m (List.mem_cons_of_mem _ hm)⟩
      rcases (mem_insertLine l m ks).1 hm with rfl | hm
      · exact Nat.lt_of_le_of_ne (Nat.le_of_not_lt notBefore) (fresh k List.mem_cons_self)
      · exact above m hm

/-- The program with one more line, whose number is not taken. -/
def insert (p : Program) (l : Line) (fresh : p.get? l.number = none) : Program where
  lines := insertLine l p.lines
  ascending := insertLine_ascending p.ascending fun m hm => by
    simpa using List.find?_eq_none.1 fresh m hm

end Program

end LineBasic
