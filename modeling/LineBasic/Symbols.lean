import LineBasic.Value

/-!
# Symbol tables

A table of variables with their values. Names are distinct and stay in the order in which they
were first declared, so a table can be listed.

* `Symbols.names_declare`, `Symbols.names_set`: a new name goes to the end, a known one stays;
* `Symbols.get?_set`: a set variable holds its value and the others keep theirs.
-/

namespace LineBasic

/-- Variables and their values, in order of declaration. -/
structure Symbols where
  entries : List (String × Value)
  distinct : (entries.map Prod.fst).Nodup

namespace Symbols

/-- The table without variables. -/
def empty : Symbols := ⟨[], List.nodup_nil⟩

instance : Inhabited Symbols := ⟨empty⟩

/-- The declared names, in order. -/
def names (s : Symbols) : List String := s.entries.map Prod.fst

/-- The number of variables. -/
def size (s : Symbols) : Nat := s.entries.length

/-- Whether no variable is declared. -/
def isEmpty (s : Symbols) : Bool := s.entries.isEmpty

/-- Whether a name is declared. -/
def contains (s : Symbols) (name : String) : Bool := s.names.contains name

/-- The value of a variable, if it is declared. -/
def get? (s : Symbols) (name : String) : Option Value :=
  (s.entries.find? fun e => e.1 == name).map Prod.snd

/-- The table with one more variable at its end. -/
def append (s : Symbols) (name : String) (value : Value) (fresh : name ∉ s.names) : Symbols where
  entries := s.entries ++ [(name, value)]
  distinct := by
    rw [List.map_append, List.nodup_append]
    refine ⟨s.distinct, by simp, fun a ha b hb hab => fresh ?_⟩
    have hb : b = name := by simpa using hb
    exact hb ▸ hab ▸ ha

/-- An entry with a new value if it is the entry of `name`. -/
def updateEntry (name : String) (value : Value) (e : String × Value) : String × Value :=
  (e.1, if e.1 = name then value else e.2)

theorem map_fst_updateEntry (name : String) (value : Value) (es : List (String × Value)) :
    (es.map (updateEntry name value)).map Prod.fst = es.map Prod.fst := by
  simp [updateEntry, Function.comp_def]

/-- The table with a new value for a declared variable. -/
def update (s : Symbols) (name : String) (value : Value) : Symbols where
  entries := s.entries.map (updateEntry name value)
  distinct := by rw [map_fst_updateEntry]; exact s.distinct

/-- The table with a variable declared. A known variable keeps its place and value. -/
def declare (s : Symbols) (name : String) : Symbols :=
  if h : name ∈ s.names then s else s.append name .unset h

/-- The table with a variable set. An unknown variable is added at the end. -/
def set (s : Symbols) (name : String) (value : Value) : Symbols :=
  if h : name ∈ s.names then s.update name value else s.append name value h

/-- The table in which the names are declared, without values. -/
def ofNames (names : List String) : Symbols := names.foldl declare empty

/-! ### Names -/

theorem contains_iff (s : Symbols) (name : String) : s.contains name = true ↔ name ∈ s.names := by
  simp [contains]

@[simp]
theorem names_update (s : Symbols) (name : String) (value : Value) :
    (s.update name value).names = s.names :=
  map_fst_updateEntry ..

@[simp]
theorem names_append (s : Symbols) (name : String) (value : Value) (h : name ∉ s.names) :
    (s.append name value h).names = s.names ++ [name] := by
  simp [names, append]

theorem names_declare (s : Symbols) (name : String) :
    (s.declare name).names = if name ∈ s.names then s.names else s.names ++ [name] := by
  unfold declare
  split <;> simp

theorem names_set (s : Symbols) (name : String) (value : Value) :
    (s.set name value).names = if name ∈ s.names then s.names else s.names ++ [name] := by
  unfold set
  split <;> simp

/-! ### Values -/

theorem find?_updateEntry (name other : String) (value : Value) (es : List (String × Value)) :
    ((es.map (updateEntry name value)).find? fun e => e.1 == other).map Prod.snd =
      ((es.find? fun e => e.1 == other).map Prod.snd).map fun old =>
        if other = name then value else old := by
  induction es with
  | nil => rfl
  | cons e es ih =>
    rw [List.map_cons, List.find?_cons, List.find?_cons]
    by_cases h : e.1 = other
    · simp [updateEntry, h]
    · have h' : (e.1 == other) = false := by simpa using h
      simp only [updateEntry, h']
      exact ih

theorem get?_eq_none_iff (s : Symbols) (name : String) : s.get? name = none ↔ name ∉ s.names := by
  simp only [get?, Option.map_eq_none_iff, List.find?_eq_none, names, List.mem_map, beq_iff_eq]
  constructor
  · rintro h ⟨e, he, rfl⟩
    exact h e he rfl
  · rintro h e he rfl
    exact h ⟨e, he, rfl⟩

/-- Setting a variable changes its value and no other. -/
theorem get?_set (s : Symbols) (name other : String) (value : Value) :
    (s.set name value).get? other = if other = name then some value else s.get? other := by
  unfold set
  split
  next h =>
    unfold get? update
    rw [find?_updateEntry]
    split
    next heq =>
      subst heq
      have : s.get? other ≠ none := fun hn => (s.get?_eq_none_iff other).1 hn h
      obtain ⟨v, hv⟩ := Option.ne_none_iff_exists'.1 this
      rw [show (s.entries.find? fun e => e.1 == other).map Prod.snd = some v from hv]
      rfl
    next hne => simp [Function.comp_def]
  next h =>
    have hnone := (s.get?_eq_none_iff name).2 h
    unfold get? at hnone ⊢
    rw [append, List.find?_append]
    split
    next heq =>
      subst heq
      rw [Option.map_eq_none_iff] at hnone
      simp [hnone]
    next hne =>
      have : (name == other) = false := by simpa using fun e : name = other => hne e.symm
      simp [this]

end Symbols

end LineBasic
