import ChimesUtils.Queue.Model

/-!
# A single worker

When each `start` that takes effect comes after the end of all workers, at most the last worker is
live. `current` is its phase, and all steps of workers are its steps (`Alone.worker`).
-/

namespace ChimesUtils

open Lib

namespace QueueState

/-- The phase of the last worker. -/
def current (s : QueueState) : LoopPhase := s.loops.getLast?.getD .left

/-- Every worker but the last has ended in a phase of the given kind. -/
def Alone (E : LoopPhase → Prop) (s : QueueState) : Prop := ∀ ph ∈ s.loops.dropLast, E ph

/-- A `start` of a queue that is shut down comes after the end of every worker. -/
def StartAfter (E : LoopPhase → Prop) (s : QueueState) : QueueLabel → Prop
  | .start => s.started = false → ∀ ph ∈ s.loops, E ph
  | _ => True

instance {E : LoopPhase → Prop} [DecidablePred E] (s : QueueState) :
    ∀ l, Decidable (s.StartAfter E l)
  | .start => inferInstanceAs (Decidable (s.started = false → ∀ ph ∈ s.loops, E ph))
  | .tick _ | .create .. | .add _ | .remove _ | .registerHandler _ | .shutdown | .worker _ =>
    isTrue trivial

section Current

variable {s : QueueState} {i : ℕ}

theorem current_setLoop (hi : i + 1 = s.loops.length) (ph : LoopPhase) :
    (s.setLoop i ph).current = ph := by
  have hlast : (s.loops.set i ph)[s.loops.length - 1]? = some ph := by
    rw [← hi, Nat.add_sub_cancel, List.getElem?_set_self (by omega)]
  rw [current, setLoop, List.getLast?_eq_getElem?, List.length_set, hlast, Option.getD_some]

theorem current_append (s : QueueState) (ph : LoopPhase) :
    { s with loops := s.loops ++ [ph] }.current = ph := by
  rw [current, List.getLast?_concat, Option.getD_some]

end Current

section Alone

variable {E : LoopPhase → Prop} {p : Profile} {s s' : QueueState} {i : ℕ} {l : QueueLabel}

theorem Alone.new (t : ℕ) : (new t).Alone E := List.forall_mem_nil _

theorem Alone.setLoop (h : s.Alone E) (hi : i + 1 = s.loops.length) (ph : LoopPhase) :
    (s.setLoop i ph).Alone E := by
  intro q hq
  rw [QueueState.setLoop, List.dropLast_eq_take, List.length_set, ← hi, Nat.add_sub_cancel,
    List.take_set_of_le le_rfl] at hq
  refine h q ?_
  rwa [List.dropLast_eq_take, ← hi, Nat.add_sub_cancel]

variable (hE : ∀ ph, E ph → ph.ended = true)

include hE in
/-- A worker that has not ended is the last one. -/
theorem Alone.last (h : s.Alone E) {ph : LoopPhase} (hi : s.loops[i]? = some ph)
    (hph : ph.ended = false) : i + 1 = s.loops.length := by
  obtain ⟨hlt, hget⟩ := List.getElem?_eq_some_iff.mp hi
  by_contra hne
  have hmem : ph ∈ s.loops.dropLast := by
    rw [List.dropLast_eq_take, List.mem_take_iff_getElem]
    exact ⟨i, by omega, hget⟩
  have hended := hE ph (h ph hmem)
  rw [hph] at hended
  cases hended

include hE in
/-- A step of a worker is a move of the last one. -/
theorem Alone.worker (h : s.Alone E) (hs : s.step p (.worker i) = some s') :
    ∃ s₁ ph, Move p s s.current s₁ ph ∧ i + 1 = s₁.loops.length ∧ s' = s₁.setLoop i ph := by
  obtain ⟨ph, hi, hph⟩ := Option.bind_eq_some_iff.mp hs
  obtain ⟨s₁, ph', hmove, rfl⟩ := workerStep_cases hph
  have hlast := h.last hE hi hmove.not_ended
  have hcurrent : s.current = ph := by
    rw [current, List.getLast?_eq_getElem?, ← hlast, Nat.add_sub_cancel, hi, Option.getD_some]
  exact ⟨s₁, ph', hcurrent ▸ hmove, hmove.loops ▸ hlast, rfl⟩

include hE in
/-- The worker stays alone. -/
theorem Alone.step (h : s.Alone E) (hstart : StartAfter E s l) (hs : s.step p l = some s') :
    s'.Alone E := by
  cases l with
  | worker i =>
    obtain ⟨s₁, ph, hmove, hi, rfl⟩ := h.worker hE hs
    exact Alone.setLoop (fun q hq => h q (hmove.loops ▸ hq)) hi ph
  | start =>
    cases hs
    by_cases hst : s.started = true
    · rwa [if_pos hst]
    · rw [if_neg hst]
      intro ph hph
      rw [List.dropLast_concat] at hph
      exact hstart (by simpa using hst) ph hph
  | add task =>
    obtain ⟨-, -, rfl⟩ := step_add hs
    exact h
  | remove id =>
    obtain ⟨-, rfl⟩ := step_remove hs
    exact h
  | tick | create | registerHandler | shutdown =>
    cases hs
    exact h

include hE in
theorem Alone.readLocked_eq (h : s.Alone E) : s.readLocked = s.current.reads := by
  have hended : ∀ ph : LoopPhase, ph.ended = true → ph.reads = false := by
    intro ph hph
    cases ph <;> first | rfl | cases hph
  rcases List.eq_nil_or_concat' s.loops with hnil | ⟨init, ph, hcons⟩
  · rw [readLocked, current, hnil]
    rfl
  · have hinit : init.any LoopPhase.reads = false := by
      rw [List.any_eq_false]
      intro q hq
      rw [hended q (hE q (h q (by rwa [hcons, List.dropLast_concat])))]
      exact Bool.false_ne_true
    rw [readLocked, current, hcons, List.any_append, hinit, List.getLast?_concat]
    simp

end Alone

end QueueState

end ChimesUtils
