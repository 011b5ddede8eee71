/-!
# Call stacks

A stack of frames, one for each subroutine that has not returned, on top of the frame of the main
program. Frames are numbered from the outermost, which is 0, and each frame names the frame that
called it. The main program's frame is never removed.

* `CallStack.ret_call`: returning from a call restores the stack;
* `CallStack.depth_call`, `CallStack.depth_ret`: a call adds one frame and a return removes one.
-/

namespace LineBasic

/-- A frame: the line it executes and the number of the frame that called it. -/
structure Frame where
  line : Int
  parent : Option Nat
deriving DecidableEq

/-- The frame being executed and the frames below it, innermost first. -/
structure CallStack where
  current : Frame
  callers : List Frame
deriving DecidableEq

namespace CallStack

/-- The stack of a main program that is at `line`. -/
def start (line : Int) : CallStack := ⟨⟨line, none⟩, []⟩

/-- The number of frames. -/
def depth (s : CallStack) : Nat := s.callers.length + 1

/-- The number of the current frame: one more than its parent's, and 0 for the main program. -/
def currentId (s : CallStack) : Nat :=
  match s.current.parent with
  | none => 0
  | some parent => parent + 1

/-- All frames, outermost first. -/
def frames (s : CallStack) : List Frame := s.callers.reverse ++ [s.current]

/-- The frame with a number. -/
def get? (s : CallStack) (id : Nat) : Option Frame := s.frames[id]?

/-- The line of the current frame. -/
def line (s : CallStack) : Int := s.current.line

/-- Moves the current frame to a line. -/
def goto (s : CallStack) (line : Int) : CallStack := { s with current.line := line }

/-- Enters a subroutine at a line. -/
def call (s : CallStack) (line : Int) : CallStack :=
  ⟨⟨line, some s.currentId⟩, s.current :: s.callers⟩

/-- Leaves the current frame for the one that called it, if there is one. -/
def ret (s : CallStack) : Option CallStack :=
  match s.current.parent, s.callers with
  | some _, caller :: callers => some ⟨caller, callers⟩
  | _, _ => none

@[simp]
theorem ret_call (s : CallStack) (line : Int) : (s.call line).ret = some s := rfl

@[simp]
theorem depth_call (s : CallStack) (line : Int) : (s.call line).depth = s.depth + 1 := rfl

@[simp]
theorem depth_goto (s : CallStack) (line : Int) : (s.goto line).depth = s.depth := rfl

theorem depth_ret {s t : CallStack} (h : s.ret = some t) : s.depth = t.depth + 1 := by
  obtain ⟨⟨line, parent⟩, callers⟩ := s
  cases parent <;> cases callers <;> simp_all [ret, depth]
  subst h
  rfl

theorem length_frames (s : CallStack) : s.frames.length = s.depth := by
  simp [frames, depth]

end CallStack

end LineBasic
