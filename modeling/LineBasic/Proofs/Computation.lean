import Mathlib.Tactic.Lemma

/-!
# Computations with a state

Both the execution of statements and lowering are computations that change a state and may end in
an error.

* `bind_eq`: a computation after another goes on from its result, or ends with its error;
* `bind_of_ok`: the case in which the first one has a result;
* `ok_of_bind`: if both together have a result, the first one has.
-/

namespace LineBasic

variable {ε σ α β : Type}

lemma pure_eq (a : α) (s : σ) : (pure a : EStateM ε σ α) s = .ok a s := rfl

/-- A computation after another goes on from its result, or ends with its error. -/
lemma bind_eq (x : EStateM ε σ α) (f : α → EStateM ε σ β) (s : σ) :
    (x >>= f) s =
      match x s with
      | .ok a s' => f a s'
      | .error e s' => .error e s' := by
  show EStateM.bind x f s = _
  rw [EStateM.bind]
  cases x s <;> rfl

lemma bind_of_ok {x : EStateM ε σ α} {s s' : σ} {a : α} (h : x s = .ok a s')
    (f : α → EStateM ε σ β) : (x >>= f) s = f a s' := by
  rw [bind_eq, h]

lemma ok_of_bind {x : EStateM ε σ α} {f : α → EStateM ε σ β} {s s'' : σ} {b : β}
    (h : (x >>= f) s = .ok b s'') : ∃ a s', x s = .ok a s' ∧ f a s' = .ok b s'' := by
  rw [bind_eq] at h
  split at h
  next a s' hx => exact ⟨a, s', hx, h⟩
  next => cases h

end LineBasic
