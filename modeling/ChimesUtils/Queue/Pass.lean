import ChimesUtils.Queue.Worker

/-!
# Passes

A pass visits a copy of the queue, marks the originals by their ids, and removes by id after the read
lock is released. Clients act between any two steps.

* `PassInv`: how the snapshot, the queue and the pending removals fit together;
* `pass_once`: with distinct ids, and where no `start` finds a one-shot task that has been processed, the
  handler of a one-shot task is invoked at most once, and a worker removes only one-shot tasks that its
  pass has found due.
* `not_pass_once_panicRestart`: a pass that panics leaves such a task behind.
-/

namespace ChimesUtils

open Lib

namespace QueueEvent

def isTook : QueueEvent → Bool
  | took .. => true
  | _ => false

/-- The id of the task that is added. -/
def addedId : QueueEvent → Option Text
  | added task => some task.taskId
  | _ => none

/-- The id of the one-shot task that is processed. -/
def oneShotId : QueueEvent → Option Text
  | executed task _ _ _ => if task.cyclicity then none else some task.taskId
  | _ => none

end QueueEvent

def addedIds (log : List QueueEvent) : List Text := log.filterMap QueueEvent.addedId

/-- The ids of the one-shot tasks that have been processed, with or without a handler. -/
def processedIds (log : List QueueEvent) : List Text := log.filterMap QueueEvent.oneShotId

/-- The ids of the one-shot tasks whose handler has been invoked. -/
def invokedIds (log : List QueueEvent) : List Text := processedIds (log.filter QueueEvent.invokes)

/-- The last snapshot, the clock reading it came with, and no task of it has been added since. -/
def InPass (log : List QueueEvent) (cur : ℕ) (snapshot : List ProcessTask) : Prop :=
  ∃ since before, log = since ++ .took cur snapshot :: before ∧ (∀ e ∈ since, e.isTook = false) ∧
    ∀ t ∈ snapshot, t.taskId ∉ addedIds since

/-- A one-shot task that passes the due test. -/
def Finished (p : Profile) (cur : ℕ) (ct : ProcessTask) : Prop :=
  ct.due p cur = some true ∧ ct.cyclicity = false

/-- The task is a finished task of the current pass, as the pass has left it. -/
def RemovalOk (p : Profile) (history : List QueueEvent) (q : ProcessTask) : Prop :=
  ∃ cur snapshot, InPass history cur snapshot ∧
    ∃ ct ∈ snapshot, Finished p cur ct ∧ q = ct.touch cur

/-- Every removal by a worker is one of a finished task of its pass. -/
def Removals (p : Profile) (log : List QueueEvent) : Prop :=
  ∀ newer history q, log = newer ++ .removed q :: history → RemovalOk p history q

section Logs

variable {p : Profile} {log : List QueueEvent} {cur : ℕ} {snapshot : List ProcessTask}
  {e : QueueEvent}

theorem InPass.took (log : List QueueEvent) (cur : ℕ) (snapshot : List ProcessTask) :
    InPass (.took cur snapshot :: log) cur snapshot :=
  ⟨[], log, rfl, List.forall_mem_nil _, fun _ _ => List.not_mem_nil⟩

theorem InPass.cons (h : InPass log cur snapshot) (he : e.isTook = false)
    (hadd : ∀ t ∈ snapshot, e.addedId ≠ some t.taskId) : InPass (e :: log) cur snapshot := by
  obtain ⟨since, before, rfl, htook, hsince⟩ := h
  refine ⟨e :: since, before, rfl, List.forall_mem_cons.mpr ⟨he, htook⟩, fun t ht hmem => ?_⟩
  rw [addedIds, List.mem_filterMap] at hmem
  obtain ⟨e', he', hid⟩ := hmem
  rcases List.mem_cons.mp he' with rfl | he'
  · exact hadd t ht hid
  · exact hsince t ht (List.mem_filterMap.mpr ⟨e', he', hid⟩)

theorem processedIds_executed (ct : ProcessTask) (cur now : ℕ) (invoked : Bool) :
    processedIds (.executed ct cur now invoked :: log) =
      if ct.cyclicity then processedIds log else ct.taskId :: processedIds log := by
  cases hcyc : ct.cyclicity <;> simp [processedIds, QueueEvent.oneShotId, hcyc]

theorem mem_processedIds_executed {ct : ProcessTask} {now : ℕ} {invoked : Bool} {id : Text} :
    id ∈ processedIds (.executed ct cur now invoked :: log) ↔
      ct.cyclicity = false ∧ id = ct.taskId ∨ id ∈ processedIds log := by
  rw [processedIds_executed]
  cases ct.cyclicity <;> simp

theorem Removals.cons (h : Removals p log) (he : ∀ q, e = .removed q → RemovalOk p log q) :
    Removals p (e :: log) := forall_removed_cons h he

end Logs

/-! ## The effect of a visit -/

/-- The original of a task after its visit. -/
def visited (p : Profile) (cur : ℕ) (ct : ProcessTask) : ProcessTask :=
  if ct.due p cur = some true then ct.touch cur else ct

section Visits

variable {p : Profile} {cur : ℕ} {ct : ProcessTask} {xs ys : List ProcessTask}

theorem visited_taskId (p : Profile) (cur : ℕ) (ct : ProcessTask) :
    (visited p cur ct).taskId = ct.taskId := by
  rw [visited]
  split_ifs <;> rfl

theorem map_visited_taskId (p : Profile) (cur : ℕ) (xs : List ProcessTask) :
    (xs.map (visited p cur)).map ProcessTask.taskId = xs.map ProcessTask.taskId := by
  rw [List.map_map]
  exact List.map_congr_left fun ct _ => visited_taskId p cur ct

theorem map_updateTaskLasttime_taskId (queue : List ProcessTask) (ct : ProcessTask) (cur : ℕ) :
    (updateTaskLasttime queue ct cur).map ProcessTask.taskId =
      queue.map ProcessTask.taskId := by
  rw [updateTaskLasttime, List.map_map]
  refine List.map_congr_left fun t _ => ?_
  rw [Function.comp_apply]
  split_ifs <;> rfl

theorem mem_toRemove {remove : List ProcessTask} {r : ProcessTask} :
    r ∈ (if ct.cyclicity then remove else remove ++ [ct]) ↔
      r ∈ remove ∨ ct.cyclicity = false ∧ r = ct := by
  cases ct.cyclicity <;> simp

theorem updateTaskLasttime_of_notMem (h : ct.taskId ∉ xs.map ProcessTask.taskId) (cur : ℕ) :
    updateTaskLasttime xs ct cur = xs := by
  refine (List.map_congr_left fun t ht => if_neg fun hid => h ?_).trans (List.map_id xs)
  exact hid ▸ List.mem_map_of_mem ht

theorem updateTaskLasttime_append (h : ((xs ++ ct :: ys).map ProcessTask.taskId).Nodup) (cur : ℕ) :
    updateTaskLasttime (xs ++ ct :: ys) ct cur = xs ++ ct.touch cur :: ys := by
  rw [List.map_append, List.map_cons, List.nodup_middle, List.nodup_cons, List.mem_append,
    not_or] at h
  obtain ⟨⟨hxs, hys⟩, -⟩ := h
  have hleft := updateTaskLasttime_of_notMem hxs cur
  have hright := updateTaskLasttime_of_notMem hys cur
  rw [updateTaskLasttime] at hleft hright ⊢
  rw [List.map_append, List.map_cons, if_pos rfl, hleft, hright]

theorem taskId_ne_of_mem_queueRemove (h : (xs.map ProcessTask.taskId).Nodup) (id : Text) :
    ∀ t ∈ queueRemove xs id, t.taskId ≠ id := by
  induction xs with
  | nil => exact List.forall_mem_nil _
  | cons x xs ih =>
    rw [List.map_cons, List.nodup_cons] at h
    intro t ht heq
    by_cases hx : id = x.taskId
    · rw [queueRemove, List.eraseP_cons_of_pos (by simpa using hx)] at ht
      exact h.1 (hx ▸ heq ▸ List.mem_map_of_mem ht)
    · rw [queueRemove, List.eraseP_cons_of_neg (by simpa using hx)] at ht
      rcases List.mem_cons.mp ht with rfl | ht
      · exact hx heq.symm
      · exact ih h.2 t ht heq

end Visits

/-! ## The ids of the queue -/

section Ids

variable {queue : List ProcessTask} {log : List QueueEvent} {task : ProcessTask}
  (hadded : ∀ t ∈ queue, t.taskId ∈ addedIds log)

include hadded

theorem nodup_taskId_append (hids : (queue.map ProcessTask.taskId).Nodup)
    (hnew : task.taskId ∉ addedIds log) :
    ((queue ++ [task]).map ProcessTask.taskId).Nodup := by
  rw [List.map_append, List.map_singleton, List.nodup_append_comm, List.singleton_append,
    List.nodup_cons]
  refine ⟨fun hmem => hnew ?_, hids⟩
  obtain ⟨t, ht, hid⟩ := List.mem_map.mp hmem
  exact hid ▸ hadded t ht

theorem taskId_mem_addedIds_append (task : ProcessTask) :
    ∀ t ∈ queue ++ [task], t.taskId ∈ addedIds (.added task :: log) := by
  have hids : addedIds (.added task :: log) = task.taskId :: addedIds log := rfl
  rw [hids, List.forall_mem_append, List.forall_mem_singleton]
  exact ⟨fun t ht => List.mem_cons_of_mem _ (hadded t ht), List.mem_cons_self⟩

theorem taskId_mem_addedIds_update (ct : ProcessTask) (cur : ℕ) :
    ∀ t ∈ updateTaskLasttime queue ct cur, t.taskId ∈ addedIds log := by
  intro t ht
  have hmem : t.taskId ∈ queue.map ProcessTask.taskId :=
    map_updateTaskLasttime_taskId queue ct cur ▸ List.mem_map_of_mem ht
  obtain ⟨t', ht', heq⟩ := List.mem_map.mp hmem
  exact heq ▸ hadded t' ht'

end Ids

/-! ## The invariant -/

/-- A task with this id is about to be removed. -/
def Pending (id : Text) : LoopPhase → Prop
  | .passing _ _ remove => ∃ r ∈ remove, r.taskId = id
  | .removing _ remove => ∃ r ∈ remove, r.taskId = id
  | .panicked => True
  | _ => False

/-- A `start` of a queue that is shut down comes after the end of every worker, and the queue has no
one-shot task that has been processed. -/
def StartsClean (s : QueueState) (l : QueueLabel) : Prop :=
  s.StartAfter (·.ended = true) l ∧
    (l = .start → s.started = false → ∀ t ∈ s.queue, t.taskId ∉ processedIds s.log)

theorem startsClean_start_iff {s : QueueState} :
    StartsClean s .start ↔ (s.started = false → ∀ ph ∈ s.loops, ph.ended = true) ∧
      (s.started = false → ∀ t ∈ s.queue, (processedIds s.log).contains t.taskId = false) := by
  refine and_congr_right fun _ => (forall_prop_of_true rfl).trans ?_
  refine imp_congr_right fun _ => forall₂_congr fun t _ => ?_
  rw [← List.contains_iff_mem, Bool.not_eq_true]

theorem startsClean_of_ne_start {s : QueueState} {l : QueueLabel} (hl : l ≠ .start) :
    StartsClean s l := by
  refine ⟨?_, fun h => absurd h hl⟩
  cases l with
  | start => exact absurd rfl hl
  | _ => trivial

instance (s : QueueState) : ∀ l, Decidable (StartsClean s l)
  | .start => decidable_of_iff _ startsClean_start_iff.symm
  | .tick _ | .create .. | .add _ | .remove _ | .registerHandler _ | .shutdown | .worker _ =>
    isTrue (startsClean_of_ne_start QueueLabel.noConfusion)

/-- In a pass, the queue is the snapshot with the visited part marked; afterwards, what the queue still
has of a task to be removed is the task as the pass has left it. -/
def PhaseOk (p : Profile) (queue : List ProcessTask) (log : List QueueEvent) : LoopPhase → Prop
  | .passing cur todo remove => ∃ done, InPass log cur (done ++ todo) ∧
      queue = done.map (visited p cur) ++ todo ∧ ∀ r ∈ remove, r ∈ done ∧ Finished p cur r
  | .removing cur remove => ∃ snapshot, InPass log cur snapshot ∧
      (∀ t ∈ snapshot, t.taskId ∈ addedIds log) ∧ ∀ r ∈ remove, r ∈ snapshot ∧ Finished p cur r ∧
        ∀ t ∈ queue, t.taskId = r.taskId → t = r.touch cur
  | _ => True

structure PassInv (p : Profile) (queue : List ProcessTask) (log : List QueueEvent)
    (ph : LoopPhase) : Prop where
  ids : (queue.map ProcessTask.taskId).Nodup
  added : ∀ t ∈ queue, t.taskId ∈ addedIds log
  once : (processedIds log).Nodup
  processed : ∀ id ∈ processedIds log, id ∈ addedIds log
  pending : ∀ t ∈ queue, t.taskId ∈ processedIds log → Pending t.taskId ph
  phase : PhaseOk p queue log ph
  removals : Removals p log

section Invariant

variable {p : Profile} {queue : List ProcessTask} {log : List QueueEvent} {ph : LoopPhase}
  {cur : ℕ} {todo remove : List ProcessTask} {ct : ProcessTask} {task : ProcessTask}

theorem PassInv.nil (p : Profile) (ph : LoopPhase) (hph : PhaseOk p [] [] ph) :
    PassInv p [] [] ph where
  ids := List.nodup_nil
  added := List.forall_mem_nil _
  once := List.nodup_nil
  processed := List.forall_mem_nil _
  pending := List.forall_mem_nil _
  phase := hph
  removals newer history q h := by simp at h

theorem PassInv.goto (h : PassInv p queue log ph) {ph' : LoopPhase}
    (hpending : ∀ id, Pending id ph → Pending id ph') (hph : PhaseOk p queue log ph') :
    PassInv p queue log ph' :=
  { h with pending := fun t ht hid => hpending _ (h.pending t ht hid), phase := hph }

theorem PassInv.add (h : PassInv p queue log ph) (hreads : ph.reads = false)
    (hnew : task.taskId ∉ addedIds log) :
    PassInv p (queue ++ [task]) (.added task :: log) ph := by
  have hids : addedIds (.added task :: log) = task.taskId :: addedIds log := rfl
  refine ⟨nodup_taskId_append h.added h.ids hnew, taskId_mem_addedIds_append h.added task, h.once,
    ?_, ?_, ?_, h.removals.cons fun q hq => by cases hq⟩
  · intro id hid
    rw [hids]
    exact List.mem_cons_of_mem _ (h.processed id hid)
  · intro t ht hid
    rcases List.mem_append.mp ht with ht | ht
    · exact h.pending t ht hid
    · rw [List.mem_singleton.mp ht] at hid
      exact absurd (h.processed _ hid) hnew
  · have hphase := h.phase
    cases ph with
    | passing => cases hreads
    | removing cur remove =>
      obtain ⟨snapshot, hpass, hadded, hremove⟩ := hphase
      have hne : ∀ t ∈ snapshot, task.taskId ≠ t.taskId :=
        fun t ht heq => hnew (heq ▸ hadded t ht)
      refine ⟨snapshot, hpass.cons rfl fun t ht heq => hne t ht (Option.some.inj heq),
        fun t ht => List.mem_cons_of_mem _ (hadded t ht), fun r hr => ?_⟩
      obtain ⟨hr, hfin, horig⟩ := hremove r hr
      refine ⟨hr, hfin, fun t ht hid => ?_⟩
      rcases List.mem_append.mp ht with ht | ht
      · exact horig t ht hid
      · rw [List.mem_singleton.mp ht] at hid
        exact absurd hid (hne r hr)
    | _ => trivial

theorem PassInv.shrink (h : PassInv p queue log ph) (hreads : ph.reads = false)
    {queue' : List ProcessTask} (hsub : queue'.Sublist queue) : PassInv p queue' log ph := by
  refine { h with
    ids := h.ids.sublist (hsub.map _)
    added := fun t ht => h.added t (hsub.subset ht)
    pending := fun t ht => h.pending t (hsub.subset ht)
    phase := ?_ }
  have hphase := h.phase
  cases ph with
  | passing => cases hreads
  | removing cur remove =>
    obtain ⟨snapshot, hpass, hadded, hremove⟩ := hphase
    refine ⟨snapshot, hpass, hadded, fun r hr => ?_⟩
    obtain ⟨hr, hfin, horig⟩ := hremove r hr
    exact ⟨hr, hfin, fun t ht => horig t (hsub.subset ht)⟩
  | _ => trivial

theorem PassInv.tested (h : PassInv p queue log (.passing cur todo remove)) :
    PassInv p queue (.tested cur ct :: log) (.passing cur todo remove) := by
  obtain ⟨done, hpass, hqueue, hremove⟩ := h.phase
  exact ⟨h.ids, h.added, h.once, h.processed, h.pending,
    ⟨done, hpass.cons rfl fun _ _ heq => (by cases heq), hqueue, hremove⟩,
    h.removals.cons fun q hq => by cases hq⟩

theorem PassInv.took (h : PassInv p queue log (.locked cur)) :
    PassInv p queue (.took cur queue :: log) (.passing cur queue []) :=
  ⟨h.ids, h.added, h.once, h.processed, fun t ht hid => (h.pending t ht hid).elim,
    ⟨[], InPass.took log cur queue, rfl, List.forall_mem_nil _⟩,
    h.removals.cons fun q hq => by cases hq⟩

theorem PassInv.skip (h : PassInv p queue log (.passing cur (ct :: todo) remove))
    (hdue : ct.due p cur ≠ some true) : PassInv p queue log (.passing cur todo remove) := by
  obtain ⟨done, hpass, hqueue, hremove⟩ := h.phase
  refine h.goto (fun _ hid => hid) ⟨done ++ [ct], ?_, ?_, fun r hr => ?_⟩
  · rwa [List.append_assoc, List.singleton_append]
  · rw [hqueue, List.map_append, List.map_singleton, visited, if_neg hdue, List.append_assoc,
      List.singleton_append]
  · exact ⟨List.mem_append_left _ (hremove r hr).1, (hremove r hr).2⟩

theorem PassInv.not_processed (h : PassInv p queue log (.passing cur (ct :: todo) remove)) :
    ct.taskId ∉ processedIds log := by
  intro hid
  obtain ⟨done, -, hqueue, hremove⟩ := h.phase
  have hmem : ct ∈ queue := hqueue ▸ List.mem_append_right _ List.mem_cons_self
  obtain ⟨r, hr, hrid⟩ := h.pending ct hmem hid
  -- it would be pending, hence in the visited part of the snapshot
  have hids := h.ids
  rw [hqueue, List.map_append, map_visited_taskId, List.map_cons, List.nodup_middle,
    List.nodup_cons] at hids
  exact hids.1 (List.mem_append_left _ (hrid ▸ List.mem_map_of_mem (hremove r hr).1))

theorem PassInv.execute (h : PassInv p queue log (.passing cur (ct :: todo) remove))
    (hdue : ct.due p cur = some true) (now : ℕ) (invoked : Bool) :
    PassInv p (updateTaskLasttime queue ct cur) (.executed ct cur now invoked :: log)
      (.passing cur todo (if ct.cyclicity then remove else remove ++ [ct])) := by
  have hfresh := h.not_processed
  obtain ⟨done, hpass, hqueue, hremove⟩ := h.phase
  have hmem : ct ∈ queue := hqueue ▸ List.mem_append_right _ List.mem_cons_self
  have hupdate : updateTaskLasttime queue ct cur =
      (done ++ [ct]).map (visited p cur) ++ todo := by
    have hids := h.ids
    rw [hqueue] at hids ⊢
    rw [updateTaskLasttime_append hids, List.map_append, List.map_singleton, visited, if_pos hdue,
      List.append_assoc, List.singleton_append]
  have hids := map_updateTaskLasttime_taskId queue ct cur
  have hsame : ∀ t ∈ updateTaskLasttime queue ct cur, ∃ t' ∈ queue, t'.taskId = t.taskId :=
    fun t ht => List.mem_map.mp (hids ▸ List.mem_map_of_mem ht)
  refine ⟨hids ▸ h.ids, taskId_mem_addedIds_update h.added ct cur, ?_, fun id hid => ?_,
    fun t ht hid => ?_, ⟨done ++ [ct], ?_, hupdate, fun r hr => ?_⟩,
    h.removals.cons fun q hq => by cases hq⟩
  · rw [processedIds_executed]
    split_ifs
    · exact h.once
    · exact List.nodup_cons.mpr ⟨hfresh, h.once⟩
  · rcases mem_processedIds_executed.mp hid with ⟨-, rfl⟩ | hid
    · exact h.added ct hmem
    · exact h.processed id hid
  · -- what is pending stays pending, and the task itself is pending now if it is one-shot
    rcases mem_processedIds_executed.mp hid with ⟨hcyc, heq⟩ | hid
    · exact ⟨ct, mem_toRemove.mpr (Or.inr ⟨hcyc, rfl⟩), heq.symm⟩
    · obtain ⟨t', ht', heq⟩ := hsame t ht
      obtain ⟨r, hr, hrid⟩ := h.pending t' ht' (heq ▸ hid)
      exact ⟨r, mem_toRemove.mpr (Or.inl hr), hrid.trans heq⟩
  · rw [List.append_assoc, List.singleton_append]
    exact hpass.cons rfl fun _ _ heq => (by cases heq)
  · rcases mem_toRemove.mp hr with hr | ⟨hcyc, rfl⟩
    · exact ⟨List.mem_append_left _ (hremove r hr).1, (hremove r hr).2⟩
    · exact ⟨List.mem_append_right _ List.mem_cons_self, hdue, hcyc⟩

/-- The pass is over and the read lock is released. -/
theorem PassInv.release (h : PassInv p queue log (.passing cur [] remove)) :
    PassInv p queue log (.removing cur remove) := by
  obtain ⟨done, hpass, hqueue, hremove⟩ := h.phase
  rw [List.append_nil] at hpass hqueue
  have hids : (done.map ProcessTask.taskId).Nodup := by
    rw [← map_visited_taskId p cur, ← hqueue]
    exact h.ids
  refine h.goto (fun _ hid => hid) ⟨done, hpass, fun t ht => ?_, fun r hr => ?_⟩
  · rw [← visited_taskId p cur t]
    exact h.added _ (hqueue ▸ List.mem_map_of_mem ht)
  · obtain ⟨hmem, hfin⟩ := hremove r hr
    refine ⟨hmem, hfin, fun t ht hid => ?_⟩
    obtain ⟨ct, hct, rfl⟩ := List.mem_map.mp (hqueue ▸ ht)
    rw [visited_taskId] at hid
    rw [List.inj_on_of_nodup_map hids hct hmem hid, visited, if_pos hfin.1]

theorem PassInv.removeDone {s : QueueState} {rct : ProcessTask}
    (h : PassInv p s.queue s.log (.removing cur (rct :: remove))) :
    PassInv p (s.removeDone rct).queue (s.removeDone rct).log (.removing cur remove) := by
  obtain ⟨snapshot, hpass, hadded, hremove⟩ := h.phase
  obtain ⟨hmem, hfin, horig⟩ := hremove rct List.mem_cons_self
  -- what the queue has after the removal of the id is not pending under it
  have hnext : ∀ queue', queue'.Sublist s.queue → (∀ t ∈ queue', t.taskId ≠ rct.taskId) →
      PassInv p queue' s.log (.removing cur remove) := by
    intro queue' hsub hne
    refine { h.shrink rfl hsub with pending := fun t ht hid => ?_, phase := ?_ }
    · obtain ⟨r, hr, hrid⟩ := h.pending t (hsub.subset ht) hid
      rcases List.mem_cons.mp hr with rfl | hr
      · exact absurd hrid.symm (hne t ht)
      · exact ⟨r, hr, hrid⟩
    · refine ⟨snapshot, hpass, hadded, fun r hr => ?_⟩
      obtain ⟨hr, hfin, horig⟩ := hremove r (List.mem_cons_of_mem _ hr)
      exact ⟨hr, hfin, fun t ht => horig t (hsub.subset ht)⟩
  rcases QueueState.removeDone_cases s rct with ⟨t, ht, hid, heq⟩ | ⟨hnone, heq⟩
  · have hinv := hnext _ List.eraseP_sublist (taskId_ne_of_mem_queueRemove h.ids _)
    rw [heq]
    refine ⟨hinv.ids, hinv.added, hinv.once, hinv.processed, hinv.pending, ?_,
      hinv.removals.cons fun q hq => ?_⟩
    · obtain ⟨snapshot', hpass', hrest⟩ := hinv.phase
      exact ⟨snapshot', hpass'.cons rfl fun _ _ heq => (by cases heq), hrest⟩
    · cases hq
      exact ⟨cur, snapshot, hpass, rct, hmem, hfin, horig t ht hid.symm⟩
  · rw [heq]
    exact hnext _ (List.Sublist.refl _) fun t ht hid => hnone t ht hid.symm

/-- A move of the worker. -/
theorem PassInv.move {s s₁ : QueueState} {ph' : LoopPhase} (h : PassInv p s.queue s.log ph)
    (hmove : QueueState.Move p s ph s₁ ph') : PassInv p s₁.queue s₁.log ph' := by
  cases hmove with
  | enter => exact h.goto (fun _ hid => hid) trivial
  | leave => exact h.goto (fun _ hid => hid) trivial
  | readClock => exact h.goto (fun _ hid => hid) trivial
  | lock => exact h.goto (fun _ hid => hid) trivial
  | take => exact h.took
  | panic => exact h.tested.goto (fun _ _ => trivial) trivial
  | skip hdue => exact h.tested.skip (by simp [hdue])
  | execute hdue => exact h.tested.execute hdue s.now _
  | release => exact h.release
  | removeDone => exact h.removeDone
  | wait =>
    refine h.goto (fun id hid => ?_) trivial
    obtain ⟨r, hr, -⟩ := hid
    cases hr
  | wake => exact h.goto (fun _ hid => hid) trivial

/-- **One step** of the system, under which the added ids stay distinct. -/
theorem PassInv.step {s s' : QueueState} {l : QueueLabel} (halone : s.Alone (·.ended = true))
    (h : PassInv p s.queue s.log s.current) (hstart : StartsClean s l)
    (hs : s.step p l = some s') (hids : (addedIds s'.log).Nodup) :
    PassInv p s'.queue s'.log s'.current := by
  have hreads := halone.readLocked_eq fun _ => id
  cases l with
  | tick | create | registerHandler | shutdown =>
    cases hs
    exact h
  | add task =>
    obtain ⟨-, hfree, rfl⟩ := QueueState.step_add hs
    exact h.add (hreads ▸ hfree) (List.nodup_cons.mp hids).1
  | remove id =>
    obtain ⟨hfree, rfl⟩ := QueueState.step_remove hs
    exact h.shrink (hreads ▸ hfree) List.eraseP_sublist
  | start =>
    cases hs
    by_cases hst : s.started = true
    · rwa [if_pos hst]
    · rw [if_neg hst]
      have hinv : PassInv p s.queue s.log .atHead :=
        { h with
          pending := fun t ht hid => absurd hid (hstart.2 rfl (by simpa using hst) t ht)
          phase := trivial }
      exact (QueueState.current_append { s with started := true } .atHead).symm ▸ hinv
  | worker i =>
    obtain ⟨s₁, ph, hmove, hi, rfl⟩ := halone.worker (fun _ => id) hs
    have hmoved : PassInv p s₁.queue s₁.log ph := h.move hmove
    exact (QueueState.current_setLoop hi ph).symm ▸ hmoved

end Invariant

/-- The invariant of a run of a single worker. -/
def SingleInv (p : Profile) (s : QueueState) : Prop :=
  s.Alone (·.ended = true) ∧ ((addedIds s.log).Nodup → PassInv p s.queue s.log s.current)

theorem SingleInv.step {p : Profile} {s s' : QueueState} {l : QueueLabel} (h : SingleInv p s)
    (hstart : StartsClean s l) (hs : s.step p l = some s') : SingleInv p s' := by
  obtain ⟨halone, hpass⟩ := h
  refine ⟨halone.step (fun _ => id) hstart.1 hs, fun hids' => ?_⟩
  have hsub : (addedIds s.log).Sublist (addedIds s'.log) :=
    (QueueState.step_log hs).sublist.filterMap _
  exact (hpass (hids'.sublist hsub)).step halone hstart hs hids'

/-- **A single worker.** In every run with at most one live worker, in which the added tasks have
distinct ids and no worker is started while the queue has a one-shot task that has been processed, the
handler of a one-shot task is invoked at most once, and every task that a worker removes is a one-shot
task of the snapshot of its pass that the pass has found due. -/
theorem pass_once (p : Profile) {t : ℕ} {ls : List QueueLabel} {s : QueueState}
    (h : Run (Under StartsClean (Steps (QueueState.step p))) (QueueState.new t) ls s)
    (hids : (addedIds s.log).Nodup) : (invokedIds s.log).Nodup ∧ Removals p s.log := by
  have hnew : SingleInv p (QueueState.new t) :=
    ⟨QueueState.Alone.new t, fun _ => .nil p _ trivial⟩
  have hinv : SingleInv p s := h.invariant hnew fun _ _ _ hi hs => hi.step hs.1 hs.2
  have hpass := hinv.2 hids
  exact ⟨hpass.once.sublist (List.filter_sublist.filterMap _), hpass.removals⟩

/-- A pass over a one-shot task and a cyclic one; a third task comes before the removal. -/
def onePass : List QueueLabel :=
  ([.start, .registerHandler ['h'], .create false 5 [] ['h'] ['a'], .create true 5 [] ['h'] ['b'],
    .create false 5 [] ['h'] ['c'], .add (.new false 5 [] ['h'] ['a'] 0),
    .add (.new true 5 [] ['h'] ['b'] 0), .tick 10] : List QueueLabel) ++
    List.replicate 7 (.worker 0) ++ [.add (.new false 5 [] ['h'] ['c'] 0), .worker 0]

theorem pass_once_onePass : ∃ s,
    Run (Under StartsClean (Steps (QueueState.step .release))) (QueueState.new 0) onePass s ∧
    addedIds s.log = [['c'], ['b'], ['a']] ∧
    s.queue.map ProcessTask.taskId = [['b'], ['c']] ∧ invokedIds s.log = [['a']] ∧
    (invokedIds s.log).Nodup ∧ Removals .release s.log := by
  have hview : (runAll (QueueState.step .release) onePass (QueueState.new 0)).map
      (fun s => (addedIds s.log, s.queue.map ProcessTask.taskId, invokedIds s.log)) =
        some ([['c'], ['b'], ['a']], [['b'], ['c']], [['a']]) := by decide +kernel
  obtain ⟨s, hs, hv⟩ := Option.map_eq_some_iff.mp hview
  simp only [Prod.mk.injEq] at hv
  obtain ⟨hadded, hqueue, hinvoked⟩ := hv
  have hgood : AllSteps StartsClean (QueueState.step .release) onePass (QueueState.new 0) := by
    decide +kernel
  have hrun := run_under_of_runAll hgood hs
  exact ⟨s, hrun, hadded, hqueue, hinvoked, pass_once .release hrun (hadded ▸ by decide)⟩

/-- A task is created after the clock reading of a pass that has another task to process: in a debug
build its due test panics. Then the queue is shut down and started again. -/
def panicRestart : List QueueLabel :=
  ([.start, .registerHandler ['h'], .create false 5 [] ['h'] ['a'], .add (.new false 5 [] ['h'] ['a'] 0),
    .tick 10] : List QueueLabel) ++ List.replicate 2 (.worker 0) ++
    ([.tick 11, .create false 5 [] ['h'] ['b'], .add (.new false 5 [] ['h'] ['b'] 11)] :
      List QueueLabel) ++ List.replicate 4 (.worker 0) ++ ([.shutdown, .start, .tick 30] : List QueueLabel) ++
    List.replicate 5 (.worker 1)

/-- The handler of a one-shot task is invoked twice. -/
theorem not_pass_once_panicRestart : ∃ s,
    Run (Under (QueueState.StartAfter (·.ended = true)) (Steps (QueueState.step .debug)))
      (QueueState.new 0) panicRestart s ∧
    addedIds s.log = [['b'], ['a']] ∧ invokedIds s.log = [['a'], ['a']] ∧
    ¬ ((invokedIds s.log).Nodup ∧ Removals .debug s.log) := by
  have hview : (runAll (QueueState.step .debug) panicRestart (QueueState.new 0)).map
      (fun s => (addedIds s.log, invokedIds s.log)) =
        some ([['b'], ['a']], [['a'], ['a']]) := by decide +kernel
  obtain ⟨s, hs, hv⟩ := Option.map_eq_some_iff.mp hview
  simp only [Prod.mk.injEq] at hv
  obtain ⟨hadded, hinvoked⟩ := hv
  have hgood : AllSteps (QueueState.StartAfter (·.ended = true)) (QueueState.step .debug) panicRestart
      (QueueState.new 0) := by decide +kernel
  refine ⟨s, run_under_of_runAll hgood hs, hadded, hinvoked, fun hclaim => ?_⟩
  rw [hinvoked] at hclaim
  exact absurd hclaim.1 (by decide)

end ChimesUtils
