import ChimesUtils.Queue.Worker

/-!
# Start and shutdown

`started` is both the request to stop and the record that a worker exists: `shutdown` clears it at
once, the worker sees that only at the head of its loop. A `start` in between spawns a second worker,
and sets the flag that the first one is about to test.

`atMostOne_iff` gives the condition under which no two workers process the queue.
-/

namespace ChimesUtils

open Lib

namespace QueueState

/-- Worker `i` will still process the queue: it is in a pass, or its next test of `started` holds. -/
def Processing (s : QueueState) (i : ℕ) : Prop :=
  ∃ ph, s.loops[i]? = some ph ∧ ph.ended = false ∧ (s.started = true ∨ ph.inPass = true)

def AtMostOne (s : QueueState) : Prop := ∀ i j, s.Processing i → s.Processing j → i = j

/-- A `start` of a queue that is shut down comes after the end of every worker. -/
def GoodStart : QueueState → QueueLabel → Prop := StartAfter fun ph => ph.ended = true

theorem Alone.atMostOne {s : QueueState} (h : s.Alone fun ph => ph.ended = true) :
    s.AtMostOne := by
  rintro i j ⟨ph, hi, hph, -⟩ ⟨ph', hj, hph', -⟩
  have hlast := h.last (fun _ => id) hi hph
  have hlast' := h.last (fun _ => id) hj hph'
  omega

/-- A start while a worker has not ended: from then on there are two. -/
theorem not_atMostOne_of_start {p : Profile} {s : QueueState} {l : QueueLabel}
    (hbad : ¬ GoodStart s l) : ∃ s', s.step p l = some s' ∧ ¬ s'.AtMostOne := by
  cases l with
  | start => ?_
  | _ => exact absurd trivial hbad
  simp only [GoodStart, StartAfter, not_forall, Bool.not_eq_true] at hbad
  obtain ⟨hstarted, ph, hmem, hph⟩ := hbad
  refine ⟨_, by rw [step, hstarted, if_neg Bool.false_ne_true], fun hone => ?_⟩
  obtain ⟨i, hlt, hi⟩ := List.mem_iff_getElem.mp hmem
  have hold : Processing { s with started := true, loops := s.loops ++ [.atHead] } i :=
    ⟨ph, (List.getElem?_append_left hlt).trans (List.getElem?_eq_some_iff.mpr ⟨hlt, hi⟩), hph,
      Or.inl rfl⟩
  have hnew : Processing { s with started := true, loops := s.loops ++ [.atHead] } s.loops.length :=
    ⟨.atHead, by simp, rfl, Or.inl rfl⟩
  have := hone _ _ hold hnew
  omega

/-- **One worker.** For every sequence of steps from the new queue, at most one worker that will still
process the queue is live in every state just when every `start` that takes effect comes after the
end of all workers. -/
theorem atMostOne_iff (p : Profile) (t : ℕ) (ls : List QueueLabel) :
    Throughout AtMostOne (step p) ls (new t) ↔ AllSteps GoodStart (step p) ls (new t) :=
  throughout_iff_allSteps (fun _ h => h.atMostOne)
    (fun _ _ _ h hgood hs => h.step (fun _ => id) hgood hs)
    (fun _ _ _ hbad => not_atMostOne_of_start hbad) (Alone.new t)

/-- The worker finishes its pass and waits; the queue is shut down and started again before the
worker wakes up. -/
def restart : List QueueLabel :=
  .start :: List.replicate 6 (.worker 0) ++ [.shutdown, .start, .worker 0, .worker 0, .worker 1]

theorem restart_two : ∃ s, Run (Steps (step .release)) (new 0) restart s ∧
    s.loops = [.entered, .entered] ∧ ¬ s.AtMostOne := by
  have hview : (runAll (step .release) restart (new 0)).map loops = some [.entered, .entered] := rfl
  obtain ⟨s, hs, hloops⟩ := Option.map_eq_some_iff.mp hview
  refine ⟨s, run_of_runAll hs, hloops, fun hone => ?_⟩
  have h0 : s.Processing 0 := ⟨.entered, by rw [hloops]; rfl, rfl, Or.inr rfl⟩
  have h1 : s.Processing 1 := ⟨.entered, by rw [hloops]; rfl, rfl, Or.inr rfl⟩
  have := hone 0 1 h0 h1
  omega

end QueueState

end ChimesUtils
