import LineBasic.Program
import LineBasic.Token
import LineBasic.Number.Whole
import Mathlib.Tactic.Lemma

/-!
# The grammar

What the text of a program looks like, said on lists of tokens and without any order of reading.
A phrase is a list of tokens together with the tree that it writes.

* `Expr.Phrase`: expressions, by levels.  Relations are loosest, then sums, products, signs, and
  names, literals and parentheses; each level of operators joins from the left;
* `Statement.Phrase`: statements, and branches of a conditional, which may be a bare number;
* `Statement.isOpen`: whether an `ELSE` after a statement would belong to a conditional inside it.
  The first branch of a conditional with two branches is never open, which is the rule that every
  `ELSE` belongs to the nearest `IF` before it that has none;
* `Line.Phrase`, `Program.Phrase`: numbered lines, and line breaks around them.
-/

namespace LineBasic

/-- The span of the last of some tokens, or `s` if there are none. -/
def lastSpan (s : Span) : List Token → Span
  | [] => s
  | t :: ts => lastSpan t.span ts

@[simp] lemma lastSpan_nil (s : Span) : lastSpan s [] = s := rfl

@[simp] lemma lastSpan_cons (s : Span) (t : Token) (ts : List Token) :
    lastSpan s (t :: ts) = lastSpan t.span ts := rfl

@[simp] lemma lastSpan_append (s : Span) (ts us : List Token) :
    lastSpan s (ts ++ us) = lastSpan (lastSpan s ts) us := by
  induction ts generalizing s with
  | nil => rfl
  | cons t ts ih => exact ih t.span

lemma lastSpan_eq_getLast {ts : List Token} (h : ts ≠ []) (s : Span) :
    lastSpan s ts = (ts.getLast h).span := by
  induction ts generalizing s with
  | nil => exact absurd rfl h
  | cons t us ih =>
    cases us with
    | nil => rfl
    | cons u us => exact ih (List.cons_ne_nil u us) t.span

/-! ### Expressions -/

/-- The levels of expressions, loosest first. -/
inductive Level where
  | relation
  | sum
  | product
  | sign
  | primary
deriving DecidableEq

/-- The next tighter level. -/
def Level.tighter : Level → Level
  | .relation => .sum
  | .sum => .product
  | .product => .sign
  | .sign => .primary
  | .primary => .primary

/-- The level whose expressions an operator joins. -/
def BinaryOp.level : BinaryOp → Level
  | .rel _ => .relation
  | .arith .add | .arith .sub => .sum
  | .arith .mul | .arith .div => .product

/-- Tokens that write an expression of a level.  A minus sign before a literal negates it, and
before anything else it takes it from zero; parentheses leave no trace in the tree. -/
inductive Expr.Phrase : Level → List Token → Expr → Prop
  | number {x : Number} {s : Span} {l k : Nat} :
      Expr.Phrase .primary [⟨.number x, s, l, k⟩] (.number x s)
  | string {x : String} {s : Span} {l k : Nat} :
      Expr.Phrase .primary [⟨.string x, s, l, k⟩] (.string x s)
  | ident {x : String} {s : Span} {l k : Nat} :
      Expr.Phrase .primary [⟨.ident x, s, l, k⟩] (.ident x s)
  | parens {t u : Token} {ts : List Token} {e : Expr} (ht : t.kind = .leftParen)
      (hu : u.kind = .rightParen) (h : Expr.Phrase .relation ts e) :
      Expr.Phrase .primary (t :: ts ++ [u]) e
  | minusLiteral {t : Token} {ts : List Token} {x : Number} {s : Span}
      (ht : t.kind = .operator (.arith .sub)) (h : Expr.Phrase .sign ts (.number x s)) :
      Expr.Phrase .sign (t :: ts) (.number (-x) (t.span.merge s))
  | minus {t : Token} {ts : List Token} {e : Expr} (ht : t.kind = .operator (.arith .sub))
      (h : Expr.Phrase .sign ts e) (he : e.constant? = none) :
      Expr.Phrase .sign (t :: ts)
        (.binary (.arith .sub) (.number 0 t.span) e (t.span.merge e.span))
  | binary {op : BinaryOp} {t : Token} {ts us : List Token} {a b : Expr}
      (ht : t.kind = .operator op) (ha : Expr.Phrase op.level ts a)
      (hb : Expr.Phrase op.level.tighter us b) :
      Expr.Phrase op.level (ts ++ t :: us) (.binary op a b (a.span.merge b.span))
  | tighter {k : Level} {ts : List Token} {e : Expr} (h : Expr.Phrase k.tighter ts e) :
      Expr.Phrase k ts e

/-! ### Statements -/

/-- Names separated by commas. -/
inductive NamesPhrase : List Token → List String → Prop
  | one {t : Token} {n : String} (ht : t.kind = .ident n) : NamesPhrase [t] [n]
  | more {t u : Token} {n : String} {ts : List Token} {ns : List String}
      (ht : t.kind = .ident n) (hu : u.kind = .comma) (h : NamesPhrase ts ns) :
      NamesPhrase (t :: u :: ts) (n :: ns)

/-- Whether an `ELSE` after a statement would belong to a conditional inside it: the statement is
a conditional without `ELSE`, or the branch after its last `ELSE` is open. -/
def Statement.isOpen : Statement → Bool
  | .ifThen .. => true
  | .ifThenElse _ _ e _ => e.isOpen
  | _ => false

/-- An assignment from its name on. -/
inductive Statement.Assignment : List Token → Statement → Prop
  | intro {t u : Token} {ts : List Token} {n : String} {e : Expr} (ht : t.kind = .ident n)
      (hu : u.kind = .operator (.rel .eq)) (h : Expr.Phrase .relation ts e) :
      Statement.Assignment (t :: u :: ts) (.assign n e (t.span.merge e.span))

/-- Where a statement can stand: on a line of its own, or as a branch of a conditional. -/
inductive Place where
  | line
  | branch
deriving DecidableEq

/-- Tokens that write a statement at a place.  As a branch, a number is a jump to it. -/
inductive Statement.Phrase : Place → List Token → Statement → Prop
  | assign {ts : List Token} {s : Statement} (h : Statement.Assignment ts s) :
      Statement.Phrase .line ts s
  | letAssign {w : Token} {ts : List Token} {s : Statement} (hw : w.kind = .keyword .letKw)
      (h : Statement.Assignment ts s) : Statement.Phrase .line (w :: ts) s
  | printBlank {w : Token} (hw : w.kind = .keyword .print) :
      Statement.Phrase .line [w] (.print none w.span)
  | print {w : Token} {ts : List Token} {e : Expr} (hw : w.kind = .keyword .print)
      (h : Expr.Phrase .relation ts e) :
      Statement.Phrase .line (w :: ts) (.print (some e) (w.span.merge (lastSpan w.span ts)))
  | ifThen {w u : Token} {ts us : List Token} {c : Expr} {b : Statement}
      (hw : w.kind = .keyword .ifKw) (hc : Expr.Phrase .relation ts c)
      (hu : u.kind = .keyword .thenKw) (hb : Statement.Phrase .branch us b) :
      Statement.Phrase .line (w :: ts ++ u :: us)
        (.ifThen c b (w.span.merge (lastSpan u.span us)))
  | ifThenElse {w u v : Token} {ts us vs : List Token} {c : Expr} {a b : Statement}
      (hw : w.kind = .keyword .ifKw) (hc : Expr.Phrase .relation ts c)
      (hu : u.kind = .keyword .thenKw) (ha : Statement.Phrase .branch us a)
      (closed : a.isOpen = false) (hv : v.kind = .keyword .elseKw)
      (hb : Statement.Phrase .branch vs b) :
      Statement.Phrase .line (w :: ts ++ u :: us ++ v :: vs)
        (.ifThenElse c a b (w.span.merge (lastSpan v.span vs)))
  | goto {w : Token} {ts : List Token} {e : Expr} (hw : w.kind = .keyword .goto)
      (h : Expr.Phrase .relation ts e) :
      Statement.Phrase .line (w :: ts) (.goto e (w.span.merge e.span))
  | gosub {w : Token} {ts : List Token} {e : Expr} (hw : w.kind = .keyword .gosub)
      (h : Expr.Phrase .relation ts e) :
      Statement.Phrase .line (w :: ts) (.gosub e (w.span.merge e.span))
  | ret {w : Token} (hw : w.kind = .keyword .returnKw) :
      Statement.Phrase .line [w] (.ret w.span)
  | input {w : Token} {ts : List Token} {ns : List String} (hw : w.kind = .keyword .input)
      (h : NamesPhrase ts ns) :
      Statement.Phrase .line (w :: ts) (.input ns (w.span.merge (lastSpan w.span ts)))
  | halt {w : Token} (hw : w.kind = .keyword .endKw) :
      Statement.Phrase .line [w] (.halt w.span)
  | jump {x : Number} {s : Span} {l k : Nat} :
      Statement.Phrase .branch [⟨.number x, s, l, k⟩] (.goto (.number x s) s)
  | branch {ts : List Token} {s : Statement} (h : Statement.Phrase .line ts s) :
      Statement.Phrase .branch ts s

/-! ### Programs -/

/-- A number that has no fraction and is the number `n` of a line. -/
structure IsLineNumber (x : Number) (n : Nat) : Prop where
  whole : x.isWhole = true
  value : x.wholePart = n
  le_max : n ≤ maxLineNumber

/-- A line without its line break: a number and a statement. -/
inductive Line.Phrase : List Token → Line → Prop
  | intro {x : Number} {s : Span} {l k n : Nat} {ts : List Token} {st : Statement}
      (hx : IsLineNumber x n) (h : Statement.Phrase .line ts st) :
      Line.Phrase (⟨.number x, s, l, k⟩ :: ts) ⟨n, st, s.merge (lastSpan s ts)⟩

/-- Lines with at least one line break between them.  Line breaks may also stand before the first
line and after the last. -/
inductive Program.Phrase : List Token → List Line → Prop
  | nil : Program.Phrase [] []
  | blank {t : Token} {ts : List Token} {ls : List Line} (ht : t.kind = .newline)
      (h : Program.Phrase ts ls) : Program.Phrase (t :: ts) ls
  | last {ts : List Token} {l : Line} (h : Line.Phrase ts l) : Program.Phrase ts [l]
  | cons {t : Token} {ts us : List Token} {l : Line} {ls : List Line} (hl : Line.Phrase ts l)
      (ht : t.kind = .newline) (h : Program.Phrase us ls) :
      Program.Phrase (ts ++ t :: us) (l :: ls)

/-- Whether the number that a token may carry is not below zero. -/
def Kind.nonNegative : Kind → Bool
  | .number x => Number.atMost 0 x
  | _ => true

end LineBasic
