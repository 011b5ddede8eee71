import LineBasic.Proofs.Scan.Places
import LineBasic.Proofs.Uses

/-!
# Names and texts in a program

The names of a program and the texts that it has in quotes come from its tokens. The scan ends a
text at a line break, so that no text goes over a line.

* `Program.spelled_of_ofText`: how the names and texts of a program that is read are spelled;
* `Program.inString_of_ofText`: the texts of a program that is read have neither quotes nor line
  breaks.
-/

namespace LineBasic.Program

variable {source : String} {p : Program}

/-- The names and texts of a program that is read from a text are spelled as tokens. -/
lemma spelled_of_ofText (h : ofText source = .ok p) :
    ∀ l ∈ p.lines, ∀ k ∈ l.statement.leaves, ∃ text, Scan.Spelled text (.token k) := by
  obtain ⟨tokens, hscan, hlines⟩ := readFrom_of_ofText h
  intro l hl k hk
  obtain ⟨ts, hts, hread⟩ := hlines l hl
  obtain ⟨-, hst⟩ := hread
  obtain ⟨t, ht, rfl⟩ := hst.exists_leaf _ hk
  exact Scan.spelled_of_mem_scan hscan (hts t (List.mem_cons_of_mem _ ht))

/-- The texts of a program that is read from a text have neither quotes nor line breaks. -/
lemma inString_of_ofText (h : ofText source = .ok p) :
    ∀ l ∈ p.lines, ∀ s, .string s ∈ l.statement.leaves →
      ∀ c ∈ s.toList, Scan.inString c = true := by
  intro l hl s hs
  obtain ⟨text, hspelled⟩ := spelled_of_ofText h l hl _ hs
  exact hspelled.eq_of_string.2

end LineBasic.Program
