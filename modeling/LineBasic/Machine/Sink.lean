import LineBasic.Machine.Fault

/-!
# Output

The bytes a program has written. A sink may refuse bytes, of which it can have taken some by then,
and it may refuse to be flushed. Each time it may do so for another cause.

* `Intake`, `Flushes`: what a sink refuses;
* `Sink.write`, `Sink.flush`: the sink after it was used, and why it refused, if it did.
-/

namespace LineBasic

/-- What becomes of bytes that are not all taken. -/
structure Refusal where
  /-- The number of bytes taken. -/
  taken : Nat
  cause : String

/-- Which bytes a sink refuses. -/
structure Intake where
  /-- The refusal of bytes when `written` has been taken before, if they are refused. -/
  refusal? : (written bytes : ByteArray) → Option Refusal

namespace Intake

/-- All bytes are taken. -/
def all : Intake := ⟨fun _ _ => none⟩

/-- Why bytes beyond a limit are refused. -/
def limitCause : String := "output limit"

/-- At most `n` bytes are taken in total. -/
def upTo (n : Nat) : Intake where
  refusal? written bytes :=
    let room := n - written.size
    if bytes.size ≤ room then none else some ⟨room, limitCause⟩

/-- A limit, if there is one. -/
def ofLimit : Option Nat → Intake
  | none => all
  | some n => upTo n

instance : Coe (Option Nat) Intake := ⟨ofLimit⟩

end Intake

/-- Which flushes a sink refuses. -/
structure Flushes where
  /-- Why a flush to come is refused, if it is. The next one has number 0. -/
  cause? : Nat → Option String

namespace Flushes

/-- All flushes succeed. -/
def granted : Flushes := ⟨fun _ => none⟩

/-- The flushes after the next one. -/
def later (f : Flushes) : Flushes := ⟨fun n => f.cause? (n + 1)⟩

/-- All flushes fail or none. -/
def ofFailing (failing : Bool) : Flushes :=
  ⟨fun _ => if failing then some "flush failed" else none⟩

instance : Coe Bool Flushes := ⟨ofFailing⟩

end Flushes

/-- Where the output of a program goes. -/
structure Sink where
  written : ByteArray
  intake : Intake
  flushes : Flushes

namespace Sink

/-- A sink that refuses nothing and that nothing has been written to. -/
def unlimited : Sink := ⟨.empty, .all, .granted⟩

/-- Writes bytes. -/
def write (s : Sink) (bytes : ByteArray) : Sink × Option String :=
  match s.intake.refusal? s.written bytes with
  | none => ({ s with written := s.written ++ bytes }, none)
  | some r => ({ s with written := s.written ++ bytes.extract 0 r.taken }, some r.cause)

/-- Makes sure that all output has arrived. -/
def flush (s : Sink) : Sink × Option String :=
  ({ s with flushes := s.flushes.later }, s.flushes.cause? 0)

end Sink

end LineBasic
