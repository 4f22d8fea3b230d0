import ChimesUtils.Queue.Model

/-!
# The limit of the queue

Clients ask `task_queue_is_full`, and add a task when the answer is false. Between the two calls of one
client, any other party may act.

* `Clients.step`: the two calls of a client, and all other steps of the queue;
* `withinLimit_iff`: when the queue keeps within its limit, and `answerHolds_of_ordered`: it does when
  nobody adds a task between the answer that a client gets and the addition of that client;
* `length_le`: by how much `n` clients can exceed it.
-/

namespace ChimesUtils

open Lib

/-- `is_queue_full`. -/
def QueueState.isQueueFull (s : QueueState) (maxTasks : ℕ) : Bool := maxTasks ≤ s.queue.length

/-- The queue with its clients. -/
structure Clients where
  queue : QueueState
  /-- The clients that have had the answer false, and not added yet. -/
  cleared : List ℕ

inductive ClientLabel where
  | taskQueueIsFull (client : ℕ)
  | queueAdd (client : ℕ) (task : ProcessTask)
  /-- A step that adds nothing. -/
  | other (l : QueueLabel)

namespace Clients

def new (t : ℕ) : Clients := ⟨.new t, []⟩

def step (p : Profile) (maxTasks : ℕ) (s : Clients) : ClientLabel → Option Clients
  | .taskQueueIsFull c =>
    some { s with cleared :=
      if s.queue.isQueueFull maxTasks then s.cleared.erase c else s.cleared.insert c }
  | .queueAdd c task =>
    if c ∈ s.cleared then
      (s.queue.step p (.add task)).map fun q => { queue := q, cleared := s.cleared.erase c }
    else none
  | .other (.add _) => none
  | .other l => (s.queue.step p l).map fun q => { s with queue := q }

def WithinLimit (maxTasks : ℕ) (s : Clients) : Prop := s.queue.queue.length ≤ maxTasks

/-- When a client adds its task, the answer that it has had would still be false. -/
def AnswerHolds (p : Profile) (maxTasks : ℕ) (s : Clients) (l : ClientLabel) : Prop :=
  ∀ c task, l = .queueAdd c task → (s.step p maxTasks l).isSome → s.queue.isQueueFull maxTasks = false

/-! ## One step -/

section Steps

variable {p : Profile} {q q' : QueueState}

theorem isQueueFull_eq_false {maxTasks : ℕ} :
    q.isQueueFull maxTasks = false ↔ q.queue.length < maxTasks := by
  rw [QueueState.isQueueFull, decide_eq_false_iff_not, not_le]

theorem length_queueRemove_le (queue : List ProcessTask) (id : Text) :
    (queueRemove queue id).length ≤ queue.length :=
  (List.eraseP_sublist).length_le

theorem length_updateTaskLasttime (queue : List ProcessTask) (ct : ProcessTask) (nsec : ℕ) :
    (updateTaskLasttime queue ct nsec).length = queue.length :=
  List.length_map _

theorem length_move {ph ph' : LoopPhase} (h : QueueState.Move p q ph q' ph') :
    q'.queue.length ≤ q.queue.length := by
  cases h with
  | execute => exact (length_updateTaskLasttime _ _ _).le
  | removeDone =>
    rcases QueueState.removeDone_cases q _ with ⟨t, -, -, heq⟩ | ⟨-, heq⟩
    · rw [heq]
      exact length_queueRemove_le _ _
    · rw [heq]
  | _ => exact le_rfl

theorem length_step {l : QueueLabel} (h : q.step p l = some q') (hl : ∀ task, l ≠ .add task) :
    q'.queue.length ≤ q.queue.length := by
  cases l with
  | add task => exact absurd rfl (hl task)
  | worker i =>
    obtain ⟨ph, -, hph⟩ := Option.bind_eq_some_iff.mp h
    obtain ⟨s₁, ph', hmove, rfl⟩ := QueueState.workerStep_cases hph
    show s₁.queue.length ≤ q.queue.length
    exact length_move hmove
  | remove id =>
    obtain ⟨-, rfl⟩ := QueueState.step_remove h
    exact length_queueRemove_le _ _
  | start =>
    cases h
    split_ifs <;> exact le_rfl
  | tick | create | registerHandler | shutdown =>
    cases h
    exact le_rfl

theorem length_add {task : ProcessTask} (h : q.step p (.add task) = some q') :
    q'.queue.length = q.queue.length + 1 := by
  obtain ⟨-, -, rfl⟩ := QueueState.step_add h
  exact List.length_append

variable {maxTasks : ℕ} {s s' : Clients} {l : ClientLabel}

theorem step_other {l : QueueLabel} (hl : ∀ task, l ≠ .add task) :
    s.step p maxTasks (.other l) = (s.queue.step p l).map fun q => { s with queue := q } := by
  cases l with
  | add task => exact absurd rfl (hl task)
  | _ => rfl

/-- What a step does to the length of the queue and to the cleared clients. -/
theorem step_cases (h : s.step p maxTasks l = some s') :
    (∃ c, l = .taskQueueIsFull c ∧ s'.queue = s.queue ∧
      ((maxTasks ≤ s.queue.queue.length ∧ s'.cleared = s.cleared.erase c) ∨
        s.queue.queue.length < maxTasks ∧ s'.cleared = s.cleared.insert c)) ∨
    (∃ c task, l = .queueAdd c task ∧ c ∈ s.cleared ∧ s'.cleared = s.cleared.erase c ∧
      s'.queue.queue.length = s.queue.queue.length + 1) ∨
    s'.cleared = s.cleared ∧ s'.queue.queue.length ≤ s.queue.queue.length := by
  cases l with
  | taskQueueIsFull c =>
    cases h
    refine Or.inl ⟨c, rfl, rfl, ?_⟩
    by_cases hfull : maxTasks ≤ s.queue.queue.length
    · exact Or.inl ⟨hfull, if_pos (decide_eq_true hfull)⟩
    · exact Or.inr ⟨not_le.mp hfull, if_neg (by simpa [QueueState.isQueueFull] using hfull)⟩
  | queueAdd c task =>
    rw [step] at h
    split_ifs at h with hc
    obtain ⟨q, hq, rfl⟩ := Option.map_eq_some_iff.mp h
    exact Or.inr (Or.inl ⟨c, task, rfl, hc, rfl, length_add hq⟩)
  | other l =>
    by_cases hl : ∃ task, l = .add task
    · obtain ⟨task, rfl⟩ := hl
      cases h
    · have hl' : ∀ task, l ≠ .add task := fun task he => hl ⟨task, he⟩
      rw [step_other hl'] at h
      obtain ⟨q, hq, rfl⟩ := Option.map_eq_some_iff.mp h
      exact Or.inr (Or.inr ⟨rfl, length_step hq hl'⟩)

theorem withinLimit_step (h : s.WithinLimit maxTasks) (hgood : s.AnswerHolds p maxTasks l)
    (hs : s.step p maxTasks l = some s') : s'.WithinLimit maxTasks := by
  unfold WithinLimit at h ⊢
  rcases step_cases hs with ⟨c, -, hq, -⟩ | ⟨c, task, rfl, -, -, hlen⟩ | ⟨-, hlen⟩
  · rw [hq]
    exact h
  · have hlt := isQueueFull_eq_false.mp (hgood c task rfl (by rw [hs]; rfl))
    omega
  · omega

theorem not_withinLimit_of_add (hbad : ¬ s.AnswerHolds p maxTasks l) :
    ∃ s', s.step p maxTasks l = some s' ∧ ¬ s'.WithinLimit maxTasks := by
  unfold AnswerHolds at hbad
  push Not at hbad
  obtain ⟨c, task, rfl, hsome, hfull⟩ := hbad
  obtain ⟨s', hs⟩ := Option.isSome_iff_exists.mp hsome
  refine ⟨s', hs, fun hwithin => ?_⟩
  rw [step] at hs
  split_ifs at hs
  obtain ⟨q, hq, rfl⟩ := Option.map_eq_some_iff.mp hs
  have hlen := length_add hq
  unfold WithinLimit at hwithin
  dsimp only at hwithin
  refine hfull (isQueueFull_eq_false.mpr ?_)
  omega

end Steps

/-! ## All runs -/

/-- **The limit.** For every interleaving of clients, workers and removals, the queue never holds more
than `max_tasks` tasks just when, at each addition, `task_queue_is_full` would still answer false. -/
theorem withinLimit_iff (p : Profile) (maxTasks t : ℕ) (ls : List ClientLabel) :
    Throughout (WithinLimit maxTasks) (step p maxTasks) ls (new t) ↔
      AllSteps (AnswerHolds p maxTasks) (step p maxTasks) ls (new t) :=
  throughout_iff_allSteps (fun _ h => h) (fun _ _ _ => withinLimit_step)
    (fun _ _ _ => not_withinLimit_of_add) (Nat.zero_le _)

/-- Every client that adds has asked since the last addition of anybody; `asked` are those who have. -/
def Ordered : List ℕ → List ClientLabel → Prop
  | _, [] => True
  | asked, .taskQueueIsFull c :: ls => Ordered (c :: asked) ls
  | asked, .queueAdd c _ :: ls => c ∈ asked ∧ Ordered [] ls
  | asked, .other _ :: ls => Ordered asked ls

/-- The answer false of a client that has asked since the last addition still holds. -/
structure Recent (maxTasks : ℕ) (asked : List ℕ) (s : Clients) : Prop where
  nodup : s.cleared.Nodup
  room : ∀ c ∈ asked, c ∈ s.cleared → s.queue.queue.length < maxTasks

theorem Recent.asks {p : Profile} {maxTasks c : ℕ} {asked : List ℕ} {s s' : Clients}
    (h : s.Recent maxTasks asked) (hs : s.step p maxTasks (.taskQueueIsFull c) = some s') :
    s'.Recent maxTasks (c :: asked) := by
  cases hs
  by_cases hfull : s.queue.isQueueFull maxTasks = true
  · refine ⟨?_, ?_⟩ <;> simp only [if_pos hfull]
    · exact h.nodup.erase c
    · intro d hd hcleared
      rw [h.nodup.mem_erase_iff] at hcleared
      exact h.room d ((List.mem_cons.mp hd).resolve_left hcleared.1) hcleared.2
  · have hroom := isQueueFull_eq_false.mp (by simpa using hfull)
    refine ⟨?_, fun _ _ _ => hroom⟩
    simp only [if_neg hfull]
    exact h.nodup.insert

/-- **The order of the calls.** If nobody adds between the answer of a client and its own addition, every
answer holds when its client adds. -/
theorem answerHolds_of_ordered {p : Profile} {maxTasks t : ℕ} {ls : List ClientLabel}
    (h : Ordered [] ls) : AllSteps (AnswerHolds p maxTasks) (step p maxTasks) ls (new t) := by
  suffices hall : ∀ asked s, s.Recent maxTasks asked → Ordered asked ls →
      AllSteps (AnswerHolds p maxTasks) (step p maxTasks) ls s from
    hall [] (new t) ⟨List.nodup_nil, List.forall_mem_nil _⟩ h
  clear h
  induction ls with
  | nil => exact fun _ _ _ _ => trivial
  | cons l ls ih =>
    intro asked s hrecent hord
    cases l with
    | taskQueueIsFull c =>
      exact ⟨fun _ _ he => (by cases he), fun s' hs => ih _ s' (hrecent.asks hs) hord⟩
    | queueAdd c task =>
      refine ⟨fun d task' he hsome => ?_, fun s' hs => ?_⟩
      · cases he
        obtain ⟨s', hs⟩ := Option.isSome_iff_exists.mp hsome
        rw [step] at hs
        split_ifs at hs with hc
        exact isQueueFull_eq_false.mpr (hrecent.room c hord.1 hc)
      · obtain ⟨_, he, -⟩ | ⟨d, _, -, -, hcleared, -⟩ | ⟨hcleared, -⟩ := step_cases hs
        · cases he
        · exact ih [] s' ⟨hcleared ▸ hrecent.nodup.erase d, List.forall_mem_nil _⟩ hord.2
        · exact ih [] s' ⟨hcleared ▸ hrecent.nodup, List.forall_mem_nil _⟩ hord.2
    | other l =>
      refine ⟨fun _ _ he => (by cases he), fun s' hs => ih _ s' ?_ hord⟩
      obtain ⟨_, he, -⟩ | ⟨_, _, he, -⟩ | ⟨hcleared, hlen⟩ := step_cases hs
      · cases he
      · cases he
      · exact ⟨hcleared ▸ hrecent.nodup, fun c hc hmem =>
          lt_of_le_of_lt hlen (hrecent.room c hc (hcleared ▸ hmem))⟩

/-- A limit of one task, and two clients that ask before either adds. -/
def bothAsk : List ClientLabel :=
  [.other (.create false 0 [] [] ['a']), .taskQueueIsFull 0, .taskQueueIsFull 1,
    .queueAdd 0 (ProcessTask.new false 0 [] [] ['a'] 0),
    .queueAdd 1 (ProcessTask.new false 0 [] [] ['a'] 0)]

/-- Both add. -/
theorem not_withinLimit_bothAsk :
    ¬ Throughout (WithinLimit 1) (step .release 1) bothAsk (new 0) := by
  intro h
  have hlast := (h.2 _ rfl).2 _ rfl |>.2 _ rfl |>.2 _ rfl |>.2 _ rfl
  exact absurd hlast (show ¬ 2 ≤ 1 by decide)

/-- The clients of a label. -/
def ClientBelow (n : ℕ) : ClientLabel → Prop
  | .taskQueueIsFull c => c < n
  | _ => True

/-- A client is cleared once at most, when there is room. -/
structure ClearedBelow (maxTasks n : ℕ) (s : Clients) : Prop where
  nodup : s.cleared.Nodup
  lt : ∀ c ∈ s.cleared, c < n
  length_le : s.queue.queue.length + s.cleared.length ≤ maxTasks - 1 + n

theorem ClearedBelow.step {p : Profile} {maxTasks n : ℕ} {s s' : Clients} {l : ClientLabel}
    (h : s.ClearedBelow maxTasks n) (hl : ClientBelow n l) (hs : s.step p maxTasks l = some s') :
    s'.ClearedBelow maxTasks n := by
  have hle := h.length_le
  rcases step_cases hs with
    ⟨c, rfl, hq, ⟨-, hc⟩ | ⟨hroom, hc⟩⟩ | ⟨c, task, -, hmem, hc, hlen⟩ | ⟨hc, hlen⟩
  · refine ⟨hc ▸ h.nodup.erase c, fun d hd => h.lt d (List.mem_of_mem_erase (hc ▸ hd)), ?_⟩
    have hshort := (s.cleared.erase_sublist (a := c)).length_le
    rw [hq, hc]
    omega
  · have hnodup : s'.cleared.Nodup := hc ▸ h.nodup.insert
    have hlt : ∀ d ∈ s'.cleared, d < n := by
      intro d hd
      rw [hc, List.mem_insert_iff] at hd
      rcases hd with rfl | hd
      · exact hl
      · exact h.lt d hd
    have hcount : s'.cleared.length ≤ (List.range n).length :=
      (hnodup.subperm fun d hd => List.mem_range.mpr (hlt d hd)).length_le
    refine ⟨hnodup, hlt, ?_⟩
    rw [List.length_range] at hcount
    rw [hq]
    omega
  · refine ⟨hc ▸ h.nodup.erase c, fun d hd => h.lt d (List.mem_of_mem_erase (hc ▸ hd)), ?_⟩
    have hpos := List.length_pos_of_mem hmem
    rw [hc, List.length_erase_of_mem hmem]
    omega
  · refine ⟨hc ▸ h.nodup, hc ▸ h.lt, ?_⟩
    rw [hc]
    omega

/-- `n` clients exceed the limit by less than `n`. -/
theorem length_le {p : Profile} {maxTasks t n : ℕ} {ls : List ClientLabel} {s : Clients}
    (h : Run (Under (fun _ => ClientBelow n) (Steps (step p maxTasks))) (new t) ls s) :
    s.queue.queue.length ≤ maxTasks - 1 + n := by
  have hinv : s.ClearedBelow maxTasks n :=
    h.invariant ⟨List.nodup_nil, List.forall_mem_nil _, Nat.zero_le _⟩
      fun _ _ _ hs hstep => hs.step hstep.1 hstep.2
  exact (Nat.le_add_right _ _).trans hinv.length_le

end Clients

end ChimesUtils
