import LineBasic.Proofs.Reading.Program

/-!
# Trees without spans

What a phrase writes depends on the kinds of its tokens only, but for spans.

* `Expr.bare`, `Statement.bare`, `Line.bare`, `Program.bare`: trees in which every span is the
  origin;
* `Expr.Phrase.transport`, `Statement.Phrase.transport`, `Line.ReadFrom.transport`: tokens of the
  same kinds write the same tree, but for spans.
-/

namespace LineBasic

/-! ### Trees -/

/-- An expression without spans. -/
def Expr.bare : Expr → Expr
  | .ident name _ => .ident name .origin
  | .number x _ => .number x .origin
  | .string s _ => .string s .origin
  | .binary op l r _ => .binary op l.bare r.bare .origin

/-- A statement without spans. -/
def Statement.bare : Statement → Statement
  | .assign name e _ => .assign name e.bare .origin
  | .print item _ => .print (item.map Expr.bare) .origin
  | .ifThen c t _ => .ifThen c.bare t.bare .origin
  | .ifThenElse c t e _ => .ifThenElse c.bare t.bare e.bare .origin
  | .goto e _ => .goto e.bare .origin
  | .gosub e _ => .gosub e.bare .origin
  | .ret _ => .ret .origin
  | .input names _ => .input names .origin
  | .halt _ => .halt .origin

/-- A line without spans. -/
def Line.bare (l : Line) : Line := ⟨l.number, l.statement.bare, .origin⟩

/-- A program without spans. -/
def Program.bare (p : Program) : Program where
  lines := p.lines.map Line.bare
  ascending := List.pairwise_map.mpr p.ascending

@[simp]
lemma Expr.constant?_bare (e : Expr) : e.bare.constant? = e.constant? := by
  cases e <;> rfl

@[simp]
lemma Statement.span_bare (s : Statement) : s.bare.span = .origin := by
  cases s <;> rfl

@[simp]
lemma Statement.isOpen_bare (s : Statement) : s.bare.isOpen = s.isOpen := by
  induction s with
  | ifThenElse c t e span iht ihe => exact ihe
  | _ => rfl

@[simp]
lemma Statement.assigned_bare (s : Statement) : s.bare.assigned = s.assigned := by
  induction s with
  | ifThen c t span ih => exact ih
  | ifThenElse c t e span iht ihe => rw [bare, assigned, assigned, iht, ihe]
  | _ => rfl

/-! ### Phrases -/

namespace Expr

lemma eq_number_of_bare {e : Expr} {x : Number} {s : Span} (h : e.bare = .number x s) :
    ∃ s', e = .number x s' := by
  cases e with
  | number y s' =>
    cases h
    exact ⟨s', rfl⟩
  | _ => cases h

/-- Tokens of the same kinds write the same expression, but for spans. -/
theorem Phrase.transport {k : Level} {ts us : List Token} {e : Expr} (h : Expr.Phrase k ts e)
    (hkinds : us.map Token.kind = ts.map Token.kind) :
    ∃ e', Expr.Phrase k us e' ∧ e'.bare = e.bare := by
  have hsingle {t : Token} {us : List Token} (h : us.map Token.kind = [t].map Token.kind) :
      ∃ s l k, us = [⟨t.kind, s, l, k⟩] := by
    obtain ⟨⟨kind, s, l, k⟩, rfl, rfl⟩ := List.map_eq_singleton_iff.mp h
    exact ⟨s, l, k, rfl⟩
  induction h generalizing us with
  | number =>
    obtain ⟨s, l, k, rfl⟩ := hsingle hkinds
    exact ⟨_, .number, rfl⟩
  | string =>
    obtain ⟨s, l, k, rfl⟩ := hsingle hkinds
    exact ⟨_, .string, rfl⟩
  | ident =>
    obtain ⟨s, l, k, rfl⟩ := hsingle hkinds
    exact ⟨_, .ident, rfl⟩
  | parens ht hu h ih =>
    rw [List.map_append] at hkinds
    obtain ⟨front, back, rfl, hfront, hback⟩ := List.map_eq_append_iff.mp hkinds
    obtain ⟨t', ts', rfl, ht', hts'⟩ := List.map_eq_cons_iff.mp hfront
    obtain ⟨s, l, k, rfl⟩ := hsingle hback
    obtain ⟨e', he', hbare⟩ := ih hts'
    exact ⟨e', .parens (ht'.trans ht) hu he', hbare⟩
  | minusLiteral ht h ih =>
    obtain ⟨t', ts', rfl, ht', hts'⟩ := List.map_eq_cons_iff.mp hkinds
    obtain ⟨e', he', hbare⟩ := ih hts'
    obtain ⟨s', rfl⟩ := eq_number_of_bare hbare
    exact ⟨_, .minusLiteral (ht'.trans ht) he', rfl⟩
  | @minus t ts e ht h he ih =>
    obtain ⟨t', ts', rfl, ht', hts'⟩ := List.map_eq_cons_iff.mp hkinds
    obtain ⟨e', he', hbare⟩ := ih hts'
    have hconstant : e'.constant? = none := by
      rw [← constant?_bare, hbare, constant?_bare]
      exact he
    exact ⟨_, .minus (ht'.trans ht) he' hconstant, by simp [bare, hbare]⟩
  | binary ht ha hb iha ihb =>
    rw [List.map_append] at hkinds
    obtain ⟨front, back, rfl, hfront, hback⟩ := List.map_eq_append_iff.mp hkinds
    obtain ⟨t', us', rfl, ht', hus'⟩ := List.map_eq_cons_iff.mp hback
    obtain ⟨a', ha', habare⟩ := iha hfront
    obtain ⟨b', hb', hbbare⟩ := ihb hus'
    exact ⟨_, .binary (ht'.trans ht) ha' hb', by simp [bare, habare, hbbare]⟩
  | tighter h ih =>
    obtain ⟨e', he', hbare⟩ := ih hkinds
    exact ⟨e', .tighter he', hbare⟩

end Expr

lemma NamesPhrase.transport {ts us : List Token} {names : List String} (h : NamesPhrase ts names)
    (hkinds : us.map Token.kind = ts.map Token.kind) : NamesPhrase us names := by
  induction h generalizing us with
  | one ht =>
    obtain ⟨t', rfl, ht'⟩ := List.map_eq_singleton_iff.mp hkinds
    exact .one (ht'.trans ht)
  | more ht hu h ih =>
    obtain ⟨t', us', rfl, ht', hus'⟩ := List.map_eq_cons_iff.mp hkinds
    obtain ⟨u', vs', rfl, hu', hvs'⟩ := List.map_eq_cons_iff.mp hus'
    exact .more (ht'.trans ht) (hu'.trans hu) (ih hvs')

namespace Statement

lemma Assignment.transport {ts us : List Token} {s : Statement} (h : Assignment ts s)
    (hkinds : us.map Token.kind = ts.map Token.kind) :
    ∃ s', Assignment us s' ∧ s'.bare = s.bare := by
  obtain ⟨ht, hu, he⟩ := h
  obtain ⟨t', us', rfl, ht', hus'⟩ := List.map_eq_cons_iff.mp hkinds
  obtain ⟨u', vs', rfl, hu', hvs'⟩ := List.map_eq_cons_iff.mp hus'
  obtain ⟨e', he', hbare⟩ := he.transport hvs'
  exact ⟨_, .intro (ht'.trans ht) (hu'.trans hu) he', by simp [bare, hbare]⟩

/-- Tokens of the same kinds write the same statement, but for spans. -/
theorem Phrase.transport {k : Place} {ts us : List Token} {s : Statement}
    (h : Statement.Phrase k ts s) (hkinds : us.map Token.kind = ts.map Token.kind) :
    ∃ s', Statement.Phrase k us s' ∧ s'.bare = s.bare := by
  induction h generalizing us with
  | assign h =>
    obtain ⟨s', hs', hbare⟩ := h.transport hkinds
    exact ⟨s', .assign hs', hbare⟩
  | letAssign hw h =>
    obtain ⟨w', us', rfl, hw', hus'⟩ := List.map_eq_cons_iff.mp hkinds
    obtain ⟨s', hs', hbare⟩ := h.transport hus'
    exact ⟨s', .letAssign (hw'.trans hw) hs', hbare⟩
  | printBlank hw =>
    obtain ⟨w', rfl, hw'⟩ := List.map_eq_singleton_iff.mp hkinds
    exact ⟨_, .printBlank (hw'.trans hw), rfl⟩
  | print hw he =>
    obtain ⟨w', us', rfl, hw', hus'⟩ := List.map_eq_cons_iff.mp hkinds
    obtain ⟨e', he', hbare⟩ := he.transport hus'
    exact ⟨_, .print (hw'.trans hw) he', by simp [bare, hbare]⟩
  | ifThen hw hc hu hb ih =>
    rw [List.map_append] at hkinds
    obtain ⟨front, back, rfl, hfront, hback⟩ := List.map_eq_append_iff.mp hkinds
    obtain ⟨w', ts', rfl, hw', hts'⟩ := List.map_eq_cons_iff.mp hfront
    obtain ⟨u', us', rfl, hu', hus'⟩ := List.map_eq_cons_iff.mp hback
    obtain ⟨c', hc', hcbare⟩ := hc.transport hts'
    obtain ⟨b', hb', hbbare⟩ := ih hus'
    exact ⟨_, .ifThen (hw'.trans hw) hc' (hu'.trans hu) hb', by simp [bare, hcbare, hbbare]⟩
  | ifThenElse hw hc hu ha closed hv hb iha ihb =>
    rw [List.map_append, List.map_append] at hkinds
    obtain ⟨front, back, rfl, hfront, hback⟩ := List.map_eq_append_iff.mp hkinds
    obtain ⟨front, middle, rfl, hfront, hmiddle⟩ := List.map_eq_append_iff.mp hfront
    obtain ⟨w', ts', rfl, hw', hts'⟩ := List.map_eq_cons_iff.mp hfront
    obtain ⟨u', us', rfl, hu', hus'⟩ := List.map_eq_cons_iff.mp hmiddle
    obtain ⟨v', vs', rfl, hv', hvs'⟩ := List.map_eq_cons_iff.mp hback
    obtain ⟨c', hc', hcbare⟩ := hc.transport hts'
    obtain ⟨a', ha', habare⟩ := iha hus'
    obtain ⟨b', hb', hbbare⟩ := ihb hvs'
    have hclosed : a'.isOpen = false := by
      rw [← isOpen_bare, habare, isOpen_bare]
      exact closed
    exact ⟨_, .ifThenElse (hw'.trans hw) hc' (hu'.trans hu) ha' hclosed (hv'.trans hv) hb',
      by simp [bare, hcbare, habare, hbbare]⟩
  | goto hw he =>
    obtain ⟨w', us', rfl, hw', hus'⟩ := List.map_eq_cons_iff.mp hkinds
    obtain ⟨e', he', hbare⟩ := he.transport hus'
    exact ⟨_, .goto (hw'.trans hw) he', by simp [bare, hbare]⟩
  | gosub hw he =>
    obtain ⟨w', us', rfl, hw', hus'⟩ := List.map_eq_cons_iff.mp hkinds
    obtain ⟨e', he', hbare⟩ := he.transport hus'
    exact ⟨_, .gosub (hw'.trans hw) he', by simp [bare, hbare]⟩
  | ret hw =>
    obtain ⟨w', rfl, hw'⟩ := List.map_eq_singleton_iff.mp hkinds
    exact ⟨_, .ret (hw'.trans hw), rfl⟩
  | input hw h =>
    obtain ⟨w', us', rfl, hw', hus'⟩ := List.map_eq_cons_iff.mp hkinds
    exact ⟨_, .input (hw'.trans hw) (h.transport hus'), rfl⟩
  | halt hw =>
    obtain ⟨w', rfl, hw'⟩ := List.map_eq_singleton_iff.mp hkinds
    exact ⟨_, .halt (hw'.trans hw), rfl⟩
  | jump =>
    obtain ⟨⟨kind, s, l, k⟩, rfl, rfl⟩ := List.map_eq_singleton_iff.mp hkinds
    exact ⟨_, .jump, rfl⟩
  | branch h ih =>
    obtain ⟨s', hs', hbare⟩ := ih hkinds
    exact ⟨s', .branch hs', hbare⟩

end Statement

/-- Tokens of the same kinds write the same line, but for spans. -/
theorem Line.ReadFrom.transport {ts us : List Token} {l : Line} (h : Line.ReadFrom ts l)
    (hkinds : us.map Token.kind = ts.map Token.kind) :
    ∃ l', Line.ReadFrom us l' ∧ l'.bare = l.bare := by
  obtain ⟨hx, hst⟩ := h
  obtain ⟨⟨kind, s, l, k⟩, us', rfl, rfl, hus'⟩ := List.map_eq_cons_iff.mp hkinds
  obtain ⟨st', hst', hbare⟩ := hst.transport hus'
  exact ⟨_, .intro hx hst', by simp [bare, hbare]⟩

end LineBasic
