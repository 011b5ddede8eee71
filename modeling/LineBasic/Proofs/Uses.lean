import LineBasic.Proofs.Reading.Source

/-!
# Uses of names

Where a program reads and writes its names, in the order of its text. A conditional counts as its
condition, its branch and its alternative, one after the other.

* `Expr.uses`, `Statement.uses`, `Line.uses`: all uses, in order;
* `Use.firstUnknown`: the first name that is read and neither known nor written before;
* `Use.firstUnknown_append`: what is written first is known after it;
* `Use.firstUnknown_eq_find?`: if all that is written is known, it is the first name read that is
  not known;
* `Expr.literals`, `Statement.literals`: the numbers of a statement;
* `Statement.parts`: a statement and all statements in it;
* `Expr.leaves`, `Statement.leaves`, `Statement.Phrase.exists_leaf`: the names and texts of a
  statement are in its tokens;
* `Statement.Phrase.exists_ident`: every name that a statement uses is the name of a token.
-/

namespace LineBasic

/-- A use of a name: it is read, at a place, or written. -/
inductive Use where
  | read (name : String) (span : Span)
  | write (name : String)
deriving DecidableEq

namespace Use

/-- The name that is read or written. -/
def name : Use → String
  | .read name _ => name
  | .write name => name

/-- The name that a use reads, with its place. -/
def read? : Use → Option (String × Span)
  | .read name span => some (name, span)
  | .write _ => none

/-- The name that a use writes. -/
def written? : Use → Option String
  | .read .. => none
  | .write name => some name

/-- The first name that is read and neither known nor written before. -/
def firstUnknown (known : List String) : List Use → Option (String × Span)
  | [] => none
  | .read name span :: us => if name ∈ known then firstUnknown known us else some (name, span)
  | .write name :: us => firstUnknown (known ++ [name]) us

/-- What is written first is known after it. -/
lemma firstUnknown_append (known : List String) (us vs : List Use) :
    firstUnknown known (us ++ vs) =
      (firstUnknown known us).or (firstUnknown (known ++ us.filterMap written?) vs) := by
  induction us generalizing known with
  | nil => simp [firstUnknown]
  | cons u us ih =>
    cases u with
    | read name span =>
      rw [List.cons_append, firstUnknown, firstUnknown]
      split
      · exact ih known
      · rfl
    | write name =>
      rw [List.cons_append, firstUnknown, firstUnknown, ih]
      simp [written?]

/-- Only the names that are read matter. -/
lemma firstUnknown_congr {known known' : List String} {us : List Use}
    (h : ∀ name span, .read name span ∈ us → (name ∈ known ↔ name ∈ known')) :
    firstUnknown known us = firstUnknown known' us := by
  induction us generalizing known known' with
  | nil => rfl
  | cons u us ih =>
    have hlater : ∀ name span, .read name span ∈ us → (name ∈ known ↔ name ∈ known') :=
      fun name span hread => h name span (List.mem_cons_of_mem _ hread)
    cases u with
    | read name span =>
      rw [firstUnknown, firstUnknown, ih hlater]
      simp only [h name span List.mem_cons_self]
    | write name =>
      refine ih fun other span hread => ?_
      rw [List.mem_append, List.mem_append, hlater other span hread]

/-- If all that is written is known, the first unknown name is the first one read that is not
known. -/
lemma firstUnknown_eq_find? {known : List String} {us : List Use}
    (h : ∀ name, .write name ∈ us → name ∈ known) :
    firstUnknown known us = (us.filterMap read?).find? fun x => decide (x.1 ∉ known) := by
  induction us with
  | nil => rfl
  | cons u us ih =>
    have hlater := ih fun name hwrite => h name (List.mem_cons_of_mem _ hwrite)
    cases u with
    | read name span =>
      have hread : (Use.read name span).read? = some (name, span) := rfl
      rw [firstUnknown, hlater, List.filterMap_cons_some hread, List.find?_cons]
      by_cases hname : name ∈ known
      · simp [hname]
      · simp [hname]
    | write name =>
      have hname : name ∈ known := h name List.mem_cons_self
      rw [firstUnknown, List.filterMap_cons_none (by rfl), ← hlater]
      refine firstUnknown_congr fun other span _ => ?_
      rw [List.mem_append, List.mem_singleton, or_iff_left_of_imp]
      rintro rfl
      exact hname

/-- Nothing is unknown if all that is read is known. -/
lemma firstUnknown_eq_none {known : List String} {us : List Use}
    (h : ∀ name span, .read name span ∈ us → name ∈ known) : firstUnknown known us = none := by
  induction us generalizing known with
  | nil => rfl
  | cons u us ih =>
    cases u with
    | read name span =>
      rw [firstUnknown, if_pos (h name span List.mem_cons_self)]
      exact ih fun other span' hread => h other span' (List.mem_cons_of_mem _ hread)
    | write name =>
      refine ih fun other span hread => ?_
      exact List.mem_append_left _ (h other span (List.mem_cons_of_mem _ hread))

end Use

/-! ### Expressions and statements -/

/-- The uses in an expression, which are the names that it reads. -/
def Expr.uses (e : Expr) : List Use := e.reads.map fun x => .read x.1 x.2

namespace Expr

lemma uses_binary (op : BinaryOp) (l r : Expr) (span : Span) :
    (Expr.binary op l r span).uses = l.uses ++ r.uses := by
  simp [uses, reads]

@[simp]
lemma filterMap_read?_uses (e : Expr) : e.uses.filterMap Use.read? = e.reads := by
  simp [uses, Function.comp_def, Use.read?]

@[simp]
lemma filterMap_written?_uses (e : Expr) : e.uses.filterMap Use.written? = [] := by
  simp [uses, Function.comp_def, Use.written?]

lemma mem_uses {e : Expr} {name : String} {span : Span} :
    .read name span ∈ e.uses ↔ (name, span) ∈ e.reads := by
  simp [uses]

end Expr

/-- The uses in a statement, in the order of its text. An assignment writes its name after it has
read its value. -/
def Statement.uses : Statement → List Use
  | .assign name e _ => e.uses ++ [.write name]
  | .print item _ => item.toList.flatMap Expr.uses
  | .ifThen c t _ => c.uses ++ t.uses
  | .ifThenElse c t e _ => c.uses ++ t.uses ++ e.uses
  | .goto e _ => e.uses
  | .gosub e _ => e.uses
  | .ret _ => []
  | .input names _ => names.map .write
  | .halt _ => []

/-- What a statement writes is what it assigns. -/
lemma Statement.filterMap_written?_uses (s : Statement) :
    s.uses.filterMap Use.written? = s.assigned := by
  induction s with
  | assign name e span => simp [uses, assigned, Use.written?]
  | print item span => cases item <;> simp [uses, assigned]
  | ifThen c t span ih => simp [uses, assigned, ih]
  | ifThenElse c t e span iht ihe => simp [uses, assigned, iht, ihe]
  | goto e span => simp [uses, assigned]
  | gosub e span => simp [uses, assigned]
  | ret span => rfl
  | input names span => simp [uses, assigned, Function.comp_def, Use.written?]
  | halt span => rfl

lemma Statement.mem_assigned_of_write {s : Statement} {name : String}
    (h : .write name ∈ s.uses) : name ∈ s.assigned := by
  rw [← s.filterMap_written?_uses]
  exact List.mem_filterMap.mpr ⟨_, h, rfl⟩

/-! ### What a text writes -/

/-- The names and texts of an expression, as kinds of tokens. -/
def Expr.leaves : Expr → List Kind
  | .ident name _ => [.ident name]
  | .number .. => []
  | .string s _ => [.string s]
  | .binary _ l r _ => l.leaves ++ r.leaves

/-- The names and texts of a statement, as kinds of tokens. -/
def Statement.leaves : Statement → List Kind
  | .assign name e _ => .ident name :: e.leaves
  | .print item _ => item.toList.flatMap Expr.leaves
  | .ifThen c t _ => c.leaves ++ t.leaves
  | .ifThenElse c t e _ => c.leaves ++ t.leaves ++ e.leaves
  | .goto e _ => e.leaves
  | .gosub e _ => e.leaves
  | .ret _ => []
  | .input names _ => names.map .ident
  | .halt _ => []

/-- The numbers written in an expression. -/
def Expr.literals : Expr → List Number
  | .ident .. => []
  | .number x _ => [x]
  | .string .. => []
  | .binary _ l r _ => l.literals ++ r.literals

/-- The numbers written in a statement. -/
def Statement.literals : Statement → List Number
  | .assign _ e _ => e.literals
  | .print item _ => item.toList.flatMap Expr.literals
  | .ifThen c s _ => c.literals ++ s.literals
  | .ifThenElse c s e _ => c.literals ++ s.literals ++ e.literals
  | .goto e _ => e.literals
  | .gosub e _ => e.literals
  | .ret _ => []
  | .input .. => []
  | .halt _ => []

/-- A statement and all statements in it. -/
def Statement.parts : Statement → List Statement
  | .ifThen c t span => .ifThen c t span :: t.parts
  | .ifThenElse c t e span => .ifThenElse c t e span :: t.parts ++ e.parts
  | s => [s]

/-- The names and texts of an expression are in its tokens. -/
lemma Expr.Phrase.exists_leaf {k : Level} {ts : List Token} {e : Expr} (h : Expr.Phrase k ts e) :
    ∀ x ∈ e.leaves, ∃ t ∈ ts, t.kind = x := by
  induction h with
  | number => simp [Expr.leaves]
  | string => simp [Expr.leaves]
  | ident => simp [Expr.leaves]
  | parens ht hu h ih =>
    intro x hx
    obtain ⟨t, ht, hkind⟩ := ih x hx
    exact ⟨t, by simp [ht], hkind⟩
  | minusLiteral ht h ih => simp [Expr.leaves]
  | minus ht h he ih =>
    intro x hx
    obtain ⟨t, ht, hkind⟩ := ih x hx
    exact ⟨t, by simp [ht], hkind⟩
  | binary ht ha hb iha ihb =>
    intro x hx
    rcases List.mem_append.mp hx with hleft | hright
    · obtain ⟨t, ht, hkind⟩ := iha x hleft
      exact ⟨t, by simp [ht], hkind⟩
    · obtain ⟨t, ht, hkind⟩ := ihb x hright
      exact ⟨t, by simp [ht], hkind⟩
  | tighter h ih => exact ih

lemma NamesPhrase.exists_ident {ts : List Token} {names : List String} (h : NamesPhrase ts names) :
    ∀ name ∈ names, ∃ t ∈ ts, t.kind = .ident name := by
  induction h with
  | one ht =>
    intro name hname
    rw [List.mem_singleton.mp hname]
    exact ⟨_, List.mem_cons_self, ht⟩
  | more ht hu _ ih =>
    intro name hname
    rcases List.mem_cons.mp hname with rfl | hlater
    · exact ⟨_, List.mem_cons_self, ht⟩
    · obtain ⟨t, ht, hkind⟩ := ih name hlater
      exact ⟨t, by simp [ht], hkind⟩

namespace Statement

lemma Assignment.exists_leaf {ts : List Token} {s : Statement} (h : Assignment ts s) :
    ∀ x ∈ s.leaves, ∃ t ∈ ts, t.kind = x := by
  obtain ⟨ht, hu, he⟩ := h
  intro x hx
  rcases List.mem_cons.mp hx with rfl | hx
  · exact ⟨_, List.mem_cons_self, ht⟩
  · obtain ⟨t, ht, hkind⟩ := he.exists_leaf x hx
    exact ⟨t, by simp [ht], hkind⟩

/-- The names and texts of a statement are in its tokens. -/
lemma Phrase.exists_leaf {k : Place} {ts : List Token} {s : Statement} (h : Phrase k ts s) :
    ∀ x ∈ s.leaves, ∃ t ∈ ts, t.kind = x := by
  have hexpr {us vs : List Token} {e : Expr} (he : Expr.Phrase .relation us e)
      (hus : ∀ t ∈ us, t ∈ vs) {x : Kind} (hx : x ∈ e.leaves) : ∃ t ∈ vs, t.kind = x := by
    obtain ⟨t, ht, hkind⟩ := he.exists_leaf x hx
    exact ⟨t, hus t ht, hkind⟩
  induction h with
  | assign h => exact h.exists_leaf
  | letAssign hw h =>
    intro x hx
    obtain ⟨t, ht, hkind⟩ := h.exists_leaf x hx
    exact ⟨t, List.mem_cons_of_mem _ ht, hkind⟩
  | printBlank hw => simp [leaves]
  | print hw he =>
    intro x hx
    exact hexpr he (fun t ht => by simp [ht]) (by simpa [leaves] using hx)
  | ifThen hw hc hu hb ih =>
    intro x hx
    rcases List.mem_append.mp hx with hcondition | hbranch
    · exact hexpr hc (fun t ht => by simp [ht]) hcondition
    · obtain ⟨t, ht, hkind⟩ := ih x hbranch
      exact ⟨t, by simp [ht], hkind⟩
  | ifThenElse hw hc hu ha closed hv hb iha ihb =>
    intro x hx
    rcases List.mem_append.mp hx with hx | hno
    · rcases List.mem_append.mp hx with hcondition | hyes
      · exact hexpr hc (fun t ht => by simp [ht]) hcondition
      · obtain ⟨t, ht, hkind⟩ := iha x hyes
        exact ⟨t, by simp [ht], hkind⟩
    · obtain ⟨t, ht, hkind⟩ := ihb x hno
      exact ⟨t, by simp [ht], hkind⟩
  | goto hw he => exact fun x hx => hexpr he (fun t ht => by simp [ht]) hx
  | gosub hw he => exact fun x hx => hexpr he (fun t ht => by simp [ht]) hx
  | ret hw => simp [leaves]
  | input hw h =>
    intro x hx
    obtain ⟨name, hname, rfl⟩ := List.mem_map.mp hx
    obtain ⟨t, ht, hkind⟩ := h.exists_ident name hname
    exact ⟨t, List.mem_cons_of_mem _ ht, hkind⟩
  | halt hw => simp [leaves]
  | jump => simp [leaves, Expr.leaves]
  | branch h ih => exact ih

end Statement

lemma Expr.ident_mem_leaves {e : Expr} {x : Use} (h : x ∈ e.uses) : .ident x.name ∈ e.leaves := by
  induction e with
  | ident name span =>
    rw [List.mem_singleton.mp h]
    exact List.mem_cons_self
  | number y span => cases h
  | string s span => cases h
  | binary op l r span ihl ihr =>
    rw [uses_binary] at h
    rcases List.mem_append.mp h with hleft | hright
    · exact List.mem_append_left _ (ihl hleft)
    · exact List.mem_append_right _ (ihr hright)

/-- The names that a statement uses are among its names. -/
lemma Statement.ident_mem_leaves {s : Statement} {x : Use} (h : x ∈ s.uses) :
    .ident x.name ∈ s.leaves := by
  induction s with
  | assign name e span =>
    rcases List.mem_append.mp h with hread | hwrite
    · exact List.mem_cons_of_mem _ (Expr.ident_mem_leaves hread)
    · rw [List.mem_singleton.mp hwrite]
      exact List.mem_cons_self
  | print item span =>
    obtain ⟨e, he, hread⟩ := List.mem_flatMap.mp h
    exact List.mem_flatMap.mpr ⟨e, he, Expr.ident_mem_leaves hread⟩
  | ifThen c t span ih =>
    rcases List.mem_append.mp h with hcondition | hbranch
    · exact List.mem_append_left _ (Expr.ident_mem_leaves hcondition)
    · exact List.mem_append_right _ (ih hbranch)
  | ifThenElse c t e span iht ihe =>
    rcases List.mem_append.mp h with h | hno
    · rcases List.mem_append.mp h with hcondition | hyes
      · exact List.mem_append_left _ (List.mem_append_left _ (Expr.ident_mem_leaves hcondition))
      · exact List.mem_append_left _ (List.mem_append_right _ (iht hyes))
    · exact List.mem_append_right _ (ihe hno)
  | goto e span => exact Expr.ident_mem_leaves h
  | gosub e span => exact Expr.ident_mem_leaves h
  | ret span => cases h
  | input names span =>
    obtain ⟨name, hname, rfl⟩ := List.mem_map.mp h
    exact List.mem_map_of_mem hname
  | halt span => cases h

/-- The names that a statement uses are names of tokens. -/
lemma Statement.Phrase.exists_ident {k : Place} {ts : List Token} {s : Statement}
    (h : Statement.Phrase k ts s) : ∀ x ∈ s.uses, ∃ t ∈ ts, t.kind = .ident x.name :=
  fun _ hx => h.exists_leaf _ (ident_mem_leaves hx)

lemma Statement.Written.isName {s : Statement} (h : s.Written) {name : String} {span : Span}
    (hread : .read name span ∈ s.uses) : IsName name := by
  obtain ⟨ts, hts, hphrase⟩ := h
  obtain ⟨t, ht, hkind⟩ := hphrase.exists_ident _ hread
  exact hts t ht name hkind

/-! ### Lines -/

/-- The uses in lines, one line after another. -/
def Line.uses (ls : List Line) : List Use := ls.flatMap fun x => x.statement.uses

end LineBasic
