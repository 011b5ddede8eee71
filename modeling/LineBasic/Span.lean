/-!
# Places in program text

A `Span` is a half-open range of byte offsets. Spans are joined by taking the smallest span that
covers both, so that a phrase of the language carries the span of its first and last word.

* `Span.merge`: the smallest span that covers two;
* `Span.merge_self`: a span is joined to itself without a change.
-/

namespace LineBasic

/-- The bytes from `start` up to, and without, `stop`. -/
@[ext]
structure Span where
  start : Nat
  stop : Nat
deriving DecidableEq, Inhabited

namespace Span

/-- The empty span at the beginning of a text. -/
def origin : Span := ⟨0, 0⟩

/-- The empty span at an offset. -/
def point (offset : Nat) : Span := ⟨offset, offset⟩

/-- The smallest span that covers both. -/
def merge (a b : Span) : Span := ⟨min a.start b.start, max a.stop b.stop⟩

@[simp]
theorem merge_start (a b : Span) : (a.merge b).start = min a.start b.start := rfl

@[simp]
theorem merge_stop (a b : Span) : (a.merge b).stop = max a.stop b.stop := rfl

theorem merge_self (a : Span) : a.merge a = a := by
  ext <;> simp

end Span

end LineBasic
