import ChimesUtils.Rust

/-!
# The custom counters

`CUSTOM_PERFORMANCE_COUNTER` has ten counters. The calls hold its lock for one atomic operation on one of
them, and none of these operations panics; a call with another slot number does nothing.

* `getTaskCount_onSlot`: an operation on a slot changes the counter of this slot only;
* `counts_added`: in every history each counter is the sum of what was added since its last reset.
-/

namespace ChimesUtils

/-- `CustomCounter`. -/
structure CustomCounter where
  task1Count : UInt64
  task2Count : UInt64
  task3Count : UInt64
  task4Count : UInt64
  task5Count : UInt64
  task6Count : UInt64
  task7Count : UInt64
  task8Count : UInt64
  task9Count : UInt64
  task10Count : UInt64

/-- `CustomCounterInfo`. -/
structure CustomCounterInfo where
  task1Count : UInt64
  task2Count : UInt64
  task3Count : UInt64
  task4Count : UInt64
  task5Count : UInt64
  task6Count : UInt64
  task7Count : UInt64
  task8Count : UInt64
  task9Count : UInt64
  task10Count : UInt64

/-- The field `task_i_count`. -/
def CustomCounterInfo.field (self : CustomCounterInfo) (i : ℕ) : Option UInt64 :=
  [self.task1Count, self.task2Count, self.task3Count, self.task4Count, self.task5Count,
    self.task6Count, self.task7Count, self.task8Count, self.task9Count, self.task10Count][i - 1]?

namespace CustomCounter

/-- The `Default` of the derive. -/
def default : CustomCounter := ⟨0, 0, 0, 0, 0, 0, 0, 0, 0, 0⟩

/-- `into_counting`. -/
def intoCounting (self : CustomCounter) : CustomCounterInfo where
  task1Count := self.task1Count
  task2Count := self.task2Count
  task3Count := self.task3Count
  task4Count := self.task4Count
  task5Count := self.task5Count
  task6Count := self.task6Count
  task7Count := self.task7Count
  task8Count := self.task8Count
  task9Count := self.task9Count
  task10Count := self.task10Count

/-- `get_task_count`. -/
def getTaskCount (self : CustomCounter) (t : ℕ) : UInt64 :=
  match t with
  | 1 => self.task1Count
  | 2 => self.task2Count
  | 3 => self.task3Count
  | 4 => self.task4Count
  | 5 => self.task5Count
  | 6 => self.task6Count
  | 7 => self.task7Count
  | 8 => self.task8Count
  | 9 => self.task9Count
  | 10 => self.task10Count
  | _ => 0

/-- The `match` of the three functions that change a counter, with their operation. -/
def onSlot (operation : UInt64 → UInt64) (it : ℤ) (self : CustomCounter) : CustomCounter :=
  match it with
  | 1 => { self with task1Count := operation self.task1Count }
  | 2 => { self with task2Count := operation self.task2Count }
  | 3 => { self with task3Count := operation self.task3Count }
  | 4 => { self with task4Count := operation self.task4Count }
  | 5 => { self with task5Count := operation self.task5Count }
  | 6 => { self with task6Count := operation self.task6Count }
  | 7 => { self with task7Count := operation self.task7Count }
  | 8 => { self with task8Count := operation self.task8Count }
  | 9 => { self with task9Count := operation self.task9Count }
  | 10 => { self with task10Count := operation self.task10Count }
  | _ => self

end CustomCounter

/-- `custom_performance_counter_increase`. -/
def customPerformanceCounterIncrease (it : ℤ) : CustomCounter → CustomCounter :=
  CustomCounter.onSlot (· + 1) it

/-- `custom_performance_counter_add`. -/
def customPerformanceCounterAdd (it : ℤ) (val : UInt64) : CustomCounter → CustomCounter :=
  CustomCounter.onSlot (· + val) it

/-- `custom_performance_counter_reset`. -/
def customPerformanceCounterReset (it : ℤ) : CustomCounter → CustomCounter :=
  CustomCounter.onSlot (fun _ => 0) it

/-- A call of one of the three functions. -/
inductive CounterCall where
  | increase (it : ℤ)
  | add (it : ℤ) (val : UInt64)
  | reset (it : ℤ)

namespace CounterCall

def apply : CounterCall → CustomCounter → CustomCounter
  | increase it => customPerformanceCounterIncrease it
  | add it val => customPerformanceCounterAdd it val
  | reset it => customPerformanceCounterReset it

/-- The slot number of a call. -/
def slot : CounterCall → ℤ
  | increase it => it
  | add it _ => it
  | reset it => it

/-- What a call makes of the sum that its own slot has so far. -/
def account : CounterCall → ℕ → ℕ
  | increase _, sum => sum + 1
  | add _ val, sum => sum + val.toNat
  | reset _, _ => 0

end CounterCall

/-- The counters after a history of calls. -/
def countersAfter (calls : List CounterCall) : CustomCounter :=
  calls.foldl (fun self c => c.apply self) .default

/-- The sum of the amounts that were added to a slot since its last reset. -/
def addedTo (i : ℕ) (calls : List CounterCall) : ℕ :=
  calls.foldl (fun sum c => if c.slot = (i : ℤ) then c.account sum else sum) 0

/-! ## One call -/

/-- The number of a counter. -/
def IsSlot (i : ℕ) : Prop := 1 ≤ i ∧ i ≤ 10

instance (i : ℕ) : Decidable (IsSlot i) := inferInstanceAs (Decidable (1 ≤ i ∧ i ≤ 10))

namespace CustomCounter

variable {i : ℕ}

/-- **One operation** changes the counter of its slot, and no other. -/
theorem getTaskCount_onSlot (hi : IsSlot i) (operation : UInt64 → UInt64) (it : ℤ)
    (self : CustomCounter) : (self.onSlot operation it).getTaskCount i =
      if it = i then operation (self.getTaskCount i) else self.getTaskCount i := by
  obtain ⟨hlow, hhigh⟩ := hi
  by_cases hit : it = i
  · rw [if_pos hit, hit]
    interval_cases i <;> rfl
  · rw [if_neg hit]
    unfold onSlot
    split <;> interval_cases i <;> first | rfl | exact absurd rfl hit

theorem field_intoCounting (hi : IsSlot i) (self : CustomCounter) :
    self.intoCounting.field i = some (self.getTaskCount i) := by
  obtain ⟨hlow, hhigh⟩ := hi
  interval_cases i <;> rfl

end CustomCounter

/-! ## Histories -/

section Histories

variable {i : ℕ}

theorem countersAfter_concat (calls : List CounterCall) (c : CounterCall) :
    countersAfter (calls ++ [c]) = c.apply (countersAfter calls) := by
  unfold countersAfter
  rw [List.foldl_append]
  rfl

theorem addedTo_concat (calls : List CounterCall) (c : CounterCall) : addedTo i (calls ++ [c]) =
    if c.slot = (i : ℤ) then c.account (addedTo i calls) else addedTo i calls := by
  unfold addedTo
  rw [List.foldl_append]
  rfl

theorem getTaskCount_apply_of_ne (hi : IsSlot i) {c : CounterCall} (hc : c.slot ≠ i)
    (self : CustomCounter) : (c.apply self).getTaskCount i = self.getTaskCount i := by
  cases c with
  | increase it | add it | reset it => exact (self.getTaskCount_onSlot hi _ it).trans (if_neg hc)

theorem getTaskCount_apply (hi : IsSlot i) {c : CounterCall} (hc : c.slot = i) {self : CustomCounter}
    {sum : ℕ} (h : (self.getTaskCount i).toNat = sum % 2 ^ 64) :
    ((c.apply self).getTaskCount i).toNat = c.account sum % 2 ^ 64 := by
  cases c with
  | increase it =>
    have hop : (customPerformanceCounterIncrease it self).getTaskCount i = self.getTaskCount i + 1 :=
      (self.getTaskCount_onSlot hi _ it).trans (if_pos hc)
    show ((customPerformanceCounterIncrease it self).getTaskCount i).toNat = (sum + 1) % 2 ^ 64
    rw [hop, UInt64.toNat_add, h, UInt64.toNat_one, Nat.mod_add_mod]
  | add it val =>
    have hop : (customPerformanceCounterAdd it val self).getTaskCount i = self.getTaskCount i + val :=
      (self.getTaskCount_onSlot hi _ it).trans (if_pos hc)
    show ((customPerformanceCounterAdd it val self).getTaskCount i).toNat = (sum + val.toNat) % 2 ^ 64
    rw [hop, UInt64.toNat_add, h, Nat.mod_add_mod]
  | reset it =>
    have hop : (customPerformanceCounterReset it self).getTaskCount i = 0 :=
      (self.getTaskCount_onSlot hi _ it).trans (if_pos hc)
    show ((customPerformanceCounterReset it self).getTaskCount i).toNat = 0 % 2 ^ 64
    rw [hop]
    rfl

theorem toNat_getTaskCount (hi : IsSlot i) (calls : List CounterCall) :
    ((countersAfter calls).getTaskCount i).toNat = addedTo i calls % 2 ^ 64 := by
  induction calls using List.reverseRecOn with
  | nil =>
    obtain ⟨hlow, hhigh⟩ := hi
    interval_cases i <;> rfl
  | append_singleton calls c ih =>
    rw [countersAfter_concat, addedTo_concat]
    by_cases hc : c.slot = i
    · rw [if_pos hc]
      exact getTaskCount_apply hi hc ih
    · rw [if_neg hc, getTaskCount_apply_of_ne hi hc]
      exact ih

/-- **Counters.** For every history and every slot, both ways to read the counter give the sum modulo
`2 ^ 64` of what was added since the last reset, and a call with another slot number changes neither. -/
theorem counts_added (hi : IsSlot i) (calls : List CounterCall) :
    ((countersAfter calls).getTaskCount i).toNat = addedTo i calls % 2 ^ 64 ∧
      ((countersAfter calls).intoCounting.field i).map UInt64.toNat =
        some (addedTo i calls % 2 ^ 64) ∧
      ∀ c : CounterCall, c.slot ≠ i →
        (countersAfter (calls ++ [c])).getTaskCount i = (countersAfter calls).getTaskCount i ∧
          (countersAfter (calls ++ [c])).intoCounting.field i =
            (countersAfter calls).intoCounting.field i := by
  have hcount := toNat_getTaskCount hi calls
  refine ⟨hcount, ?_, fun c hc => ?_⟩
  · rw [CustomCounter.field_intoCounting hi, Option.map_some, hcount]
  · have hsame : (countersAfter (calls ++ [c])).getTaskCount i = (countersAfter calls).getTaskCount i := by
      rw [countersAfter_concat, getTaskCount_apply_of_ne hi hc]
    rw [CustomCounter.field_intoCounting hi, CustomCounter.field_intoCounting hi, hsame]
    exact ⟨rfl, rfl⟩

end Histories

/-- Two slots, an overflow, a reset and a slot number that is none. -/
def someCalls : List CounterCall :=
  [.add 3 18446744073709551615, .increase 3, .increase 3, .add 10 5, .reset 11, .reset 10, .add 10 2]

theorem counts_added_someCalls :
    ((countersAfter someCalls).getTaskCount 3).toNat = addedTo 3 someCalls % 2 ^ 64 ∧
      ((countersAfter someCalls).intoCounting.field 3).map UInt64.toNat =
        some (addedTo 3 someCalls % 2 ^ 64) ∧
      ∀ c : CounterCall, c.slot ≠ (3 : ℕ) →
        (countersAfter (someCalls ++ [c])).getTaskCount 3 = (countersAfter someCalls).getTaskCount 3 ∧
          (countersAfter (someCalls ++ [c])).intoCounting.field 3 =
            (countersAfter someCalls).intoCounting.field 3 :=
  counts_added (by decide) someCalls

end ChimesUtils
