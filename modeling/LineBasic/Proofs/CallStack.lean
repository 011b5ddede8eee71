import LineBasic.Proofs.Machine.Brackets
import Mathlib.Data.List.Infix

/-!
# Frames in a row

The frames of a call stack can be stored in a row, the outermost first, in which the current frame
is the last one and every frame is known by its place. No operation on a row that starts with the
frame of a main program ever looks for a frame that is not there.

* `CallStack.Operation`, `CallStack.applyAll`: sequences of calls, returns and moves;
* `CallStack.Arena`: frames in a row, with operations that may find a frame missing;
* `CallStack.Linked`: every frame but the first has the number of the frame before it as its parent;
* `CallStack.Linked.after?_arena`: on linked frames the row and the stack do the same;
* `CallStack.Covered`: returns for which there are calls;
* `CallStack.ret_applyAll_call`: what is done between a call and the matching return leaves no
  trace;
* `CallStack.arena_chain`: all of this for every stack that operations lead to.
-/

namespace LineBasic

namespace CallStack

/-! ### Sequences of operations -/

/-- What can be done with a call stack. -/
inductive Operation where
  | call (line : Int)
  | ret
  | goto (line : Int)
deriving DecidableEq

/-- Whether an operation is a call. -/
def Operation.isCall : Operation → Bool
  | .call _ => true
  | _ => false

/-- Whether an operation is a return. -/
def Operation.isRet : Operation → Bool
  | .ret => true
  | _ => false

/-- The stack after an operation. A return from the main program changes nothing. -/
def apply (s : CallStack) : Operation → CallStack
  | .call line => s.call line
  | .ret => s.ret.getD s
  | .goto line => s.goto line

/-- The number of a frame that an operation gives: that of the new frame for a call, and that of the
frame returned to, if there is one, for a return. -/
def answer (s : CallStack) : Operation → Option Nat
  | .call line => some (s.call line).currentId
  | .ret => s.ret.map currentId
  | .goto _ => none

/-- The stack after some operations. -/
def applyAll (s : CallStack) (ops : List Operation) : CallStack := ops.foldl apply s

/-- Nowhere in a sequence of operations are there more returns than calls before, and all in all
there are as many. -/
structure WellBracketed (ops : List Operation) : Prop where
  inits : ∀ us ∈ ops.inits, us.countP Operation.isRet ≤ us.countP Operation.isCall
  total : ops.countP Operation.isRet = ops.countP Operation.isCall

/-! ### Rows of frames -/

/-- Frames in a row, the outermost first. The last one is the current one. -/
structure Arena where
  frames : List Frame
deriving DecidableEq

namespace Arena

/-- The number of the last frame. -/
def currentId? (a : Arena) : Option Nat :=
  if a.frames.isEmpty then none else some (a.frames.length - 1)

/-- The last frame. -/
def current? (a : Arena) : Option Frame := do
  let id ← a.currentId?
  a.frames[id]?

/-- Moves the last frame to a line. -/
def goto? (a : Arena) (line : Int) : Option Arena := do
  let id ← a.currentId?
  let frame ← a.current?
  return ⟨a.frames.set id { frame with line := line }⟩

/-- Adds a frame whose parent is the last one. -/
def call? (a : Arena) (line : Int) : Option (Arena × Nat) := do
  let parent ← a.currentId?
  let child : Arena := ⟨a.frames ++ [⟨line, some parent⟩]⟩
  let id ← child.currentId?
  return (child, id)

/-- Takes the last frame off, if it has a parent. This must be the frame that is the last one
then. -/
def ret? (a : Arena) : Option (Arena × Option Nat) := do
  let frame ← a.current?
  match frame.parent with
  | none => return (a, none)
  | some parent =>
    let caller : Arena := ⟨a.frames.dropLast⟩
    let id ← caller.currentId?
    if id = parent then return (caller, some parent) else none

/-- The row after an operation, with the number of a frame that it gives. There is no row if a
frame is missing or is not the one that it must be. -/
def after? (a : Arena) : Operation → Option (Arena × Option Nat)
  | .call line => (a.call? line).map fun x => (x.1, some x.2)
  | .ret => a.ret?
  | .goto line => (a.goto? line).map fun b => (b, none)

/-- The row after some operations. -/
def afterAll? (a : Arena) (ops : List Operation) : Option Arena :=
  ops.foldlM (fun b op => (b.after? op).map Prod.fst) a

end Arena

/-- The frames of a stack in a row. -/
def arena (s : CallStack) : Arena := ⟨s.frames⟩

/-! ### Frames of a stack -/

lemma frames_call (s : CallStack) (line : Int) :
    (s.call line).frames = s.frames ++ [⟨line, some s.currentId⟩] := by
  simp [frames, call]

lemma frames_eq_append (s : CallStack) : s.frames = s.callers.reverse ++ [s.current] := rfl

lemma frames_goto (s : CallStack) (line : Int) :
    (s.goto line).frames = s.callers.reverse ++ [{ s.current with line := line }] := rfl

lemma frames_of_ret {s t : CallStack} (h : s.ret = some t) :
    s.frames = t.frames ++ [s.current] := by
  obtain ⟨⟨line, parent⟩, callers⟩ := s
  cases parent with
  | none => cases h
  | some parent =>
    cases callers with
    | nil => cases h
    | cons caller callers =>
      cases h
      simp [frames]

lemma frames_ne_nil (s : CallStack) : s.frames ≠ [] := by
  simp [frames]

lemma get?_depth_sub_one (s : CallStack) : s.get? (s.depth - 1) = some s.current := by
  simp [get?, frames, depth]

/-! ### Linked frames -/

/-- The number of the frame before the one with a number. -/
def parentId : Nat → Option Nat
  | 0 => none
  | id + 1 => some id

/-- The first frame of a stack has no parent, and the parent of every other frame is the one before
it. -/
def Linked (s : CallStack) : Prop := s.frames.map Frame.parent = (List.range s.depth).map parentId

lemma linked_start (line : Int) : (start line).Linked := rfl

lemma Linked.parent_current {s : CallStack} (h : s.Linked) :
    s.current.parent = parentId (s.depth - 1) := by
  have hlast := congrArg List.getLast? h
  have hdepth : s.depth = s.depth - 1 + 1 := rfl
  rw [hdepth, List.range_succ] at hlast
  simpa [frames] using hlast

lemma Linked.currentId {s : CallStack} (h : s.Linked) : s.currentId = s.depth - 1 := by
  rw [CallStack.currentId, h.parent_current]
  cases s.depth - 1 <;> rfl

lemma Linked.call {s : CallStack} (h : s.Linked) (line : Int) : (s.call line).Linked := by
  have hid : parentId s.depth = some s.currentId := by
    rw [h.currentId]
    rfl
  rw [Linked, frames_call, depth_call, List.range_succ, List.map_append, List.map_append, h]
  simp [hid]

lemma Linked.goto {s : CallStack} (h : s.Linked) (line : Int) : (s.goto line).Linked := by
  rw [Linked, depth_goto, ← h, frames_goto, frames_eq_append]
  simp

lemma Linked.ret {s t : CallStack} (h : s.Linked) (hret : s.ret = some t) : t.Linked := by
  have hdrop := congrArg List.dropLast h
  rw [frames_of_ret hret, depth_ret hret, List.range_succ] at hdrop
  rw [Linked]
  simpa using hdrop

lemma Linked.apply {s : CallStack} (h : s.Linked) (op : Operation) : (s.apply op).Linked := by
  cases op with
  | call line => exact h.call line
  | goto line => exact h.goto line
  | ret =>
    rw [CallStack.apply]
    cases hret : s.ret with
    | none => exact h
    | some t => exact h.ret hret

lemma Linked.applyAll {s : CallStack} (h : s.Linked) (ops : List Operation) :
    (s.applyAll ops).Linked := by
  induction ops generalizing s with
  | nil => exact h
  | cons op ops ih => exact ih (h.apply op)

/-- The parent of a frame is the one before it. -/
lemma Linked.parent_of_get? {s : CallStack} (h : s.Linked) {id : Nat} {f : Frame}
    (hf : s.get? id = some f) : f.parent = parentId id := by
  have hmap := congrArg (·[id]?) h
  have hlt : id < s.depth := by
    rw [← length_frames]
    exact (List.getElem?_eq_some_iff.mp hf).1
  rw [get?] at hf
  simpa [hf, hlt] using hmap

/-- The frame of the main program is the only one without a parent. -/
lemma Linked.ret_eq_none_iff {s : CallStack} (h : s.Linked) : s.ret = none ↔ s.depth = 1 := by
  refine ⟨fun hret => ?_, ret_of_depth_eq_one⟩
  have hparent := h.parent_current
  obtain ⟨⟨line, parent⟩, callers⟩ := s
  cases callers with
  | nil => rfl
  | cons caller callers =>
    cases parent with
    | none => cases hparent
    | some parent => cases hret

/-! ### Rows and stacks -/

lemma currentId?_arena (s : CallStack) : s.arena.currentId? = some (s.depth - 1) := by
  rw [Arena.currentId?, arena, length_frames, if_neg]
  simpa using s.frames_ne_nil

lemma current?_arena (s : CallStack) : s.arena.current? = some s.current := by
  rw [Arena.current?, currentId?_arena]
  exact s.get?_depth_sub_one

lemma goto?_arena (s : CallStack) (line : Int) :
    s.arena.goto? line = some (s.goto line).arena := by
  have hset : s.frames.set (s.depth - 1) { s.current with line := line } =
      (s.goto line).frames := by
    rw [frames_goto, frames_eq_append]
    simp [depth]
  rw [Arena.goto?, currentId?_arena, current?_arena, arena, arena, ← hset]
  rfl

lemma Linked.call?_arena {s : CallStack} (h : s.Linked) (line : Int) :
    s.arena.call? line = some ((s.call line).arena, (s.call line).currentId) := by
  have hchild : (⟨s.arena.frames ++ [⟨line, some (s.depth - 1)⟩]⟩ : Arena) =
      (s.call line).arena := by
    rw [arena, arena, frames_call, h.currentId]
  rw [Arena.call?, currentId?_arena]
  simp only [Option.bind_eq_bind, Option.bind_some, hchild, currentId?_arena]
  rw [(h.call line).currentId]
  rfl

lemma Linked.ret?_arena {s : CallStack} (h : s.Linked) :
    s.arena.ret? = some ((s.apply .ret).arena, s.ret.map CallStack.currentId) := by
  rw [Arena.ret?, current?_arena, CallStack.apply]
  simp only [Option.bind_eq_bind, Option.bind_some]
  cases hret : s.ret with
  | none =>
    have hparent : s.current.parent = none := by
      rw [h.parent_current, h.ret_eq_none_iff.mp hret]
      rfl
    simp only [hparent]
    rfl
  | some t =>
    -- the frame that is taken off was called by the one that is the last then
    have hdepth : s.depth - 1 = t.depth - 1 + 1 := by
      rw [depth_ret hret]
      rfl
    have hparent : s.current.parent = some (t.depth - 1) := by
      rw [h.parent_current, hdepth]
      rfl
    have hcaller : (⟨s.arena.frames.dropLast⟩ : Arena) = t.arena := by
      rw [arena, arena, frames_of_ret hret, List.dropLast_concat]
    simp only [hparent, hcaller, currentId?_arena, Option.bind_some, if_true, Option.map_some,
      Option.getD_some, (h.ret hret).currentId]
    rfl

/-- On linked frames the row and the stack do the same. -/
theorem Linked.after?_arena {s : CallStack} (h : s.Linked) (op : Operation) :
    s.arena.after? op = some ((s.apply op).arena, s.answer op) := by
  cases op with
  | call line => rw [Arena.after?, h.call?_arena]; rfl
  | ret => exact h.ret?_arena
  | goto line => rw [Arena.after?, goto?_arena]; rfl

theorem Linked.afterAll?_arena {s : CallStack} (h : s.Linked) (ops : List Operation) :
    s.arena.afterAll? ops = some (s.applyAll ops).arena := by
  induction ops generalizing s with
  | nil => rfl
  | cons op ops ih =>
    have hrest := ih (h.apply op)
    rw [Arena.afterAll?] at hrest ⊢
    rw [List.foldlM_cons, h.after?_arena]
    exact hrest

/-! ### Calls and their returns -/

/-- A stack that nested calls lead to from `s`, one of which has not been returned from and below
which there are `n` more, at any lines. -/
def CalledFrom (s : CallStack) : Nat → CallStack → Prop
  | 0, t => ∃ line, t = s.call line
  | n + 1, t => ∃ u line, CalledFrom s n u ∧ t = u.call line

lemma CalledFrom.goto {s t : CallStack} {n : Nat} (h : CalledFrom s n t) (line : Int) :
    CalledFrom s n (t.goto line) := by
  cases n with
  | zero =>
    obtain ⟨line', rfl⟩ := h
    exact ⟨line, rfl⟩
  | succ n =>
    obtain ⟨u, line', hu, rfl⟩ := h
    exact ⟨u, line, hu, rfl⟩

/-- However many of the first operations are taken, no more of them are returns than calls and `n`
more. -/
def Covered (n : Nat) (ops : List Operation) : Prop :=
  ∀ us ∈ ops.inits, us.countP Operation.isRet ≤ us.countP Operation.isCall + n

namespace Covered

variable {n : Nat} {ops : List Operation}

lemma of_cons {op : Operation} (h : Covered n (op :: ops)) {us : List Operation}
    (hus : us ∈ ops.inits) :
    (op :: us).countP Operation.isRet ≤ (op :: us).countP Operation.isCall + n := by
  refine h _ ?_
  rw [List.mem_inits] at hus ⊢
  exact List.cons_prefix_cons.mpr ⟨rfl, hus⟩

lemma of_call {line : Int} (h : Covered n (.call line :: ops)) : Covered (n + 1) ops := by
  intro us hus
  have hle := h.of_cons hus
  simp only [List.countP_cons, Operation.isCall, Operation.isRet] at hle
  grind

lemma of_goto {line : Int} (h : Covered n (.goto line :: ops)) : Covered n ops :=
  fun _ hus => h.of_cons hus

lemma of_ret (h : Covered n (.ret :: ops)) : ∃ m, n = m + 1 ∧ Covered m ops := by
  have hfirst : 1 ≤ 0 + n := h.of_cons ((List.mem_inits _ _).mpr List.nil_prefix)
  obtain ⟨m, rfl⟩ := Nat.exists_eq_add_one.mpr (show 0 < n by omega)
  refine ⟨m, rfl, fun us hus => ?_⟩
  have hle := h.of_cons hus
  simp only [List.countP_cons, Operation.isCall, Operation.isRet] at hle
  grind

end Covered

/-- Operations that are covered by `n` calls lead from a call above `n` others to one that is as
much deeper as there are more calls than returns. -/
lemma CalledFrom.applyAll {s t : CallStack} {n : Nat} (h : CalledFrom s n t) (ops : List Operation)
    (hops : Covered n ops) :
    ∃ m, CalledFrom s m (t.applyAll ops) ∧
      m + ops.countP Operation.isRet = n + ops.countP Operation.isCall := by
  induction ops generalizing n t with
  | nil => exact ⟨n, h, rfl⟩
  | cons op ops ih =>
    cases op with
    | call line =>
      obtain ⟨m, hm, hcount⟩ := @ih (t.call line) (n + 1) ⟨t, line, h, rfl⟩ hops.of_call
      refine ⟨m, hm, ?_⟩
      rw [List.countP_cons_of_neg Bool.false_ne_true, List.countP_cons_of_pos rfl, hcount,
        Nat.add_right_comm]
      rfl
    | goto line => exact ih (h.goto line) hops.of_goto
    | ret =>
      obtain ⟨n, rfl, hlater⟩ := hops.of_ret
      obtain ⟨u, line, hu, rfl⟩ := h
      obtain ⟨m, hm, hcount⟩ := ih hu hlater
      refine ⟨m, hm, ?_⟩
      rw [List.countP_cons_of_pos rfl, List.countP_cons_of_neg Bool.false_ne_true, ← Nat.add_assoc,
        hcount, Nat.add_right_comm]

/-- What is done between a call and the matching return leaves no trace. -/
theorem ret_applyAll_call (s : CallStack) (line : Int) {ops : List Operation}
    (h : WellBracketed ops) : ((s.call line).applyAll ops).ret = some s := by
  have hcall : CalledFrom s 0 (s.call line) := ⟨line, rfl⟩
  obtain ⟨m, hm, hcount⟩ := hcall.applyAll ops h.inits
  have hzero : m = 0 := by
    have htotal := h.total
    omega
  subst hzero
  obtain ⟨line', hline⟩ := hm
  rw [hline, ret_call]

/-- **The chain of frames.** Any operations on a stack that starts with the frame of a main program
keep its frames linked: there is a frame, the first one has no parent, and the parent of every other
frame is the one before it. The current frame is the last one. The operations can be done on the row
of frames, where none of them ever finds a frame missing or returns to another frame than the
parent, and so can every next one, with the same frames and the same numbers. A return gives no
number exactly if there is one frame, and then it changes nothing. What is done between a call and
the matching return is undone by it. -/
theorem arena_chain (line : Int) (ops : List Operation) :
    let s := (start line).applyAll ops
    (0 < s.depth ∧ s.frames.length = s.depth ∧
      ∀ id < s.depth, ∃ f, s.get? id = some f ∧ f.parent = if id = 0 then none else some (id - 1)) ∧
    (s.currentId = s.depth - 1 ∧ s.get? s.currentId = some s.current) ∧
    ((start line).arena.afterAll? ops = some s.arena ∧ s.arena.currentId? = some s.currentId ∧
      s.arena.current? = some s.current ∧
      ∀ op, s.arena.after? op = some ((s.apply op).arena, s.answer op)) ∧
    (s.answer .ret = none ↔ s.depth = 1) ∧ (s.answer .ret = none → s.apply .ret = s) ∧
    ∀ line' inner, WellBracketed inner → ((s.call line').applyAll inner).ret = some s := by
  intro s
  have hlinked : s.Linked := (linked_start line).applyAll ops
  have hid := hlinked.currentId
  refine ⟨⟨Nat.succ_pos _, s.length_frames, fun id hlt => ?_⟩, ⟨hid, ?_⟩, ⟨?_, ?_, ?_, ?_⟩, ?_, ?_,
    ?_⟩
  · have hframe : id < s.frames.length := s.length_frames ▸ hlt
    have hget : s.get? id = some s.frames[id] := List.getElem?_eq_getElem hframe
    refine ⟨_, hget, ?_⟩
    rw [hlinked.parent_of_get? hget]
    cases id <;> rfl
  · rw [hid]
    exact s.get?_depth_sub_one
  · exact (linked_start line).afterAll?_arena ops
  · rw [hid]
    exact s.currentId?_arena
  · exact s.current?_arena
  · exact hlinked.after?_arena
  · rw [answer, Option.map_eq_none_iff]
    exact hlinked.ret_eq_none_iff
  · intro hnone
    rw [apply, Option.map_eq_none_iff.mp hnone]
    rfl
  · exact fun line' inner hinner => s.ret_applyAll_call line' hinner

/-- In the middle of two subroutines, a subroutine that moves and calls another one is left as it
was entered. -/
theorem nested_arena_chain :
    let s := (start 10).applyAll [.call 100, .goto 110, .ret, .ret, .goto 20, .call 200]
    let inner : List Operation := [.goto 310, .call 400, .goto 410, .ret, .goto 320]
    WellBracketed inner ∧ s.frames = [⟨20, none⟩, ⟨200, some 0⟩] ∧
      ((s.call 300).applyAll inner).frames = [⟨20, none⟩, ⟨200, some 0⟩, ⟨320, some 1⟩] ∧
      ((s.call 300).applyAll inner).ret = some s := by
  intro s inner
  have hinner : WellBracketed inner := ⟨by decide, by decide⟩
  obtain ⟨-, -, -, -, -, hret⟩ :=
    arena_chain 10 [.call 100, .goto 110, .ret, .ret, .goto 20, .call 200]
  exact ⟨hinner, by decide, by decide, hret 300 inner hinner⟩

end CallStack

end LineBasic
