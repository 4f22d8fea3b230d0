import Mathlib

/-!
# Programs with one mutex

The mutex of a standard library: it is not reentrant, its guard releases it at the end of a scope, a
panic in that scope poisons it, and locking a poisoned mutex panics. A program over the mutex
returns, panics, or blocks for ever on a lock that its own guard holds.

* `Prog.withLock`: run a body with the guard alive;
* `Prog.bind_returned`, `Prog.bind_panicked`, `Prog.bind_blocked`: how a composed program ends;
* `Prog.Ends`: what a program leaves behind, however it ends.
-/

namespace ChimesUtils.Lib

/-- A mutex: whether a guard is alive, whether it is poisoned, and its data. -/
structure MutexCell (α : Type) where
  locked : Bool
  poisoned : Bool
  data : α

/-- A mutex that can be taken. -/
def MutexCell.free {α : Type} (d : α) : MutexCell α := ⟨false, false, d⟩

/-- How a program ends. -/
inductive Outcome (α β : Type) where
  | returned (b : β) (s : MutexCell α)
  | panicked (s : MutexCell α)
  | blocked (s : MutexCell α)

/-- A program that uses the mutex. -/
def Prog (α β : Type) : Type := MutexCell α → Outcome α β

namespace Prog

variable {α β γ : Type}

def pure (b : β) : Prog α β := fun s => .returned b s

def bind (m : Prog α β) (f : β → Prog α γ) : Prog α γ := fun s =>
  match m s with
  | .returned b s' => f b s'
  | .panicked s' => .panicked s'
  | .blocked s' => .blocked s'

instance : Monad (Prog α) where
  pure := pure
  bind := bind

/-- A value that may be missing; the program panics without it. -/
def expect : Option β → Prog α β
  | some b => pure b
  | none => fun s => .panicked s

/-- Read the data. -/
def read : Prog α α := fun s => .returned s.data s

/-- Change the data. -/
def modify (f : α → α) : Prog α Unit := fun s => .returned () { s with data := f s.data }

/-- Lock the mutex, run the body with the guard alive, and release it. -/
def withLock (body : Prog α β) : Prog α β := fun s =>
  if s.locked then .blocked s
  else if s.poisoned then .panicked s
  else match body { s with locked := true } with
    | .returned b s' => .returned b { s' with locked := false }
    | .panicked s' => .panicked { s' with locked := false, poisoned := true }
    | .blocked s' => .blocked s'

/-- Run a program for every element of a list. -/
def forEach (f : γ → Prog α Unit) : List γ → Prog α Unit
  | [] => pure ()
  | x :: xs => bind (f x) fun _ => forEach f xs

@[simp] theorem read_apply (s : MutexCell α) : read s = .returned s.data s := rfl

theorem bind_returned {m : Prog α β} {f : β → Prog α γ} {s s' : MutexCell α} {b : β}
    (h : m s = .returned b s') : (m >>= f) s = f b s' := by
  change bind m f s = f b s'
  rw [bind, h]

theorem bind_panicked {m : Prog α β} {f : β → Prog α γ} {s s' : MutexCell α}
    (h : m s = .panicked s') : (m >>= f) s = .panicked s' := by
  change bind m f s = .panicked s'
  rw [bind, h]

theorem bind_blocked {m : Prog α β} {f : β → Prog α γ} {s s' : MutexCell α}
    (h : m s = .blocked s') : (m >>= f) s = .blocked s' := by
  change bind m f s = .blocked s'
  rw [bind, h]

/-! ## Locking -/

theorem withLock_poisoned {body : Prog α β} {s : MutexCell α} (h : s.locked = false)
    (hp : s.poisoned = true) : withLock body s = .panicked s := by
  rw [withLock, if_neg (by rw [h]; simp), if_pos hp]

theorem withLock_free {body : Prog α β} (d : α) : withLock body (.free d) =
    match body ⟨true, false, d⟩ with
    | .returned b s' => .returned b { s' with locked := false }
    | .panicked s' => .panicked { s' with locked := false, poisoned := true }
    | .blocked s' => .blocked s' := rfl

/-- The program returns with data `Q`, or ends with the data as they were. -/
def Ends (m : Prog α β) (s : MutexCell α) (Q : β → α → Prop) : Prop :=
  match m s with
  | .returned b s' => Q b s'.data
  | .panicked s' => s'.data = s.data
  | .blocked s' => s'.data = s.data

/-- From a mutex that is not held, a section ends as it does from the free mutex. -/
theorem ends_withLock {body : Prog α β} {s : MutexCell α} {Q : β → α → Prop}
    (hs : s.locked = false) (h : (withLock body).Ends (.free s.data) Q) :
    (withLock body).Ends s Q := by
  obtain ⟨l, q, d⟩ := s
  cases hs
  rcases q
  · exact h
  · rw [Ends, withLock_poisoned rfl rfl]

end Prog

end ChimesUtils.Lib
