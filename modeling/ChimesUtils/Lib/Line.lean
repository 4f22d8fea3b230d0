import Mathlib

/-!
# A line with one server

Items join a line at its end, with tickets in the order of joining. The server takes one out, from the
end, and delivers it, gives it back at the front, or drops it.

* `Line.InOrder`: what has been delivered came in the order of the tickets, and none of it before an
  item that was still in the line;
* `Line.Inv`: the invariant, kept by the other operations (`Inv.move`, `Inv.giveBack`), and by a
  delivery when the item was the first of all when it was taken out (`Inv.deliver`,
  `not_inOrder_deliver`);
* `Line.Sorted`: without giving back, the line is in the order of the tickets, and only an item that was
  alone is the first (`Sorted.firstHeld_iff`);
* `Line.Ranked`: with giving back, an item is the first just when each item before it in the line has been
  given back more often beside it than it beside that item (`Ranked.firstHeld_iff`).
-/

namespace ChimesUtils.Lib

/-- An item with its ticket. -/
structure Ticket (α : Type) where
  serial : ℕ
  item : α
  deriving DecidableEq

structure Line (α : Type) where
  queue : List (Ticket α)
  /-- How many items have joined. -/
  count : ℕ
  /-- The item that is out, with what it left. -/
  held : Option (Ticket α × List (Ticket α))
  /-- What has been delivered, each item with the line at that time. -/
  out : List (Ticket α × List (Ticket α))
  /-- What has been given back, each item with what it had left. -/
  back : List (Ticket α × List (Ticket α))
  deriving DecidableEq

namespace Line

variable {α : Type}

def empty : Line α := ⟨[], 0, none, [], []⟩

def push (l : Line α) (a : α) : Line α :=
  { l with queue := l.queue ++ [⟨l.count, a⟩], count := l.count + 1 }

/-- The last item is taken out, if there is one. -/
def pop (l : Line α) : Line α :=
  { l with queue := l.queue.dropLast, held := l.queue.getLast?.map fun t => (t, l.queue.dropLast) }

def deliver (l : Line α) : Line α :=
  match l.held with
  | none => l
  | some p => { l with held := none, out := l.out ++ [(p.1, l.queue)] }

/-- The item that is out goes to the front. -/
def giveBack (l : Line α) : Line α :=
  match l.held with
  | none => l
  | some p => { l with held := none, queue := p.1 :: l.queue, back := l.back ++ [p] }

def drop (l : Line α) : Line α := { l with held := none }

/-- The operations that neither deliver nor give back. -/
inductive Move (l : Line α) : Line α → Prop
  | stay : Move l l
  | push (a : α) : Move l (l.push a)
  | pop : Move l l.pop
  | drop : Move l l.drop

/-- The items have been delivered in order, and none before one that was still in the line. -/
def InOrder (l : Line α) : Prop :=
  l.out.Pairwise (fun p q => p.1.serial < q.1.serial) ∧ ∀ p ∈ l.out, ∀ t ∈ p.2, p.1.serial < t.serial

/-- The item that is out was the first of all when it was taken out. -/
def FirstHeld (l : Line α) : Prop := ∀ p ∈ l.held, ∀ t ∈ p.2, p.1.serial < t.serial

/-- The item that is out was alone. -/
def AloneHeld (l : Line α) : Prop := ∀ p ∈ l.held, p.2 = []

/-- How often `a` has been given back after it had left `b`. -/
def returns (l : Line α) (a b : Ticket α) : ℕ :=
  l.back.countP fun p => p.1.serial == a.serial && p.2.any fun t => t.serial == b.serial

/-- Each item that the one that is out has left has been given back more often beside it than it beside
that item. -/
def OutlastedHeld (l : Line α) : Prop :=
  ∀ p ∈ l.held, ∀ t ∈ p.2, l.returns p.1 t < l.returns t p.1

/-! ## The invariant -/

structure Inv (l : Line α) : Prop where
  lt_count : ∀ t ∈ l.queue, t.serial < l.count
  /-- What is in the line now was there when the item was taken out, or has come since. -/
  held : ∀ p ∈ l.held, p.1.serial < l.count ∧
    ∃ later, l.queue = p.2 ++ later ∧ ∀ t ∈ later, p.1.serial < t.serial
  out_lt_count : ∀ p ∈ l.out, p.1.serial < l.count
  out_lt : ∀ p ∈ l.out, (∀ t ∈ l.queue, p.1.serial < t.serial) ∧ ∀ q ∈ l.held, p.1.serial < q.1.serial
  inOrder : l.InOrder

variable {l l' : Line α}

theorem inv_empty : (empty : Line α).Inv where
  lt_count := List.forall_mem_nil _
  held := fun _ h => by cases h
  out_lt_count := List.forall_mem_nil _
  out_lt := List.forall_mem_nil _
  inOrder := ⟨List.Pairwise.nil, List.forall_mem_nil _⟩

theorem forall_mem_push {P : Ticket α → Prop} (a : α) (h : ∀ t ∈ l.queue, P t) (ha : P ⟨l.count, a⟩) :
    ∀ t ∈ (l.push a).queue, P t := by
  intro t ht
  rcases List.mem_append.mp ht with ht | ht
  · exact h t ht
  · rw [List.mem_singleton.mp ht]
    exact ha

theorem Inv.push (h : l.Inv) (a : α) : (l.push a).Inv where
  lt_count := forall_mem_push a (fun t ht => Nat.lt_succ_of_lt (h.lt_count t ht)) (Nat.lt_succ_self _)
  held := fun p hp => by
    obtain ⟨hlt, later, hqueue, hlater⟩ := h.held p hp
    refine ⟨Nat.lt_succ_of_lt hlt, later ++ [⟨l.count, a⟩], ?_, fun t ht => ?_⟩
    · rw [Line.push, hqueue, List.append_assoc]
    · rcases List.mem_append.mp ht with ht | ht
      · exact hlater t ht
      · rw [List.mem_singleton.mp ht]
        exact hlt
  out_lt_count := fun p hp => Nat.lt_succ_of_lt (h.out_lt_count p hp)
  out_lt := fun p hp => ⟨forall_mem_push a (h.out_lt p hp).1 (h.out_lt_count p hp), (h.out_lt p hp).2⟩
  inOrder := h.inOrder

theorem mem_held_pop {p : Ticket α × List (Ticket α)} (h : p ∈ l.pop.held) :
    p.1 ∈ l.queue ∧ p.2 = l.queue.dropLast ∧ l.queue = p.2 ++ [p.1] := by
  obtain ⟨t, ht, rfl⟩ := Option.mem_map.mp h
  exact ⟨List.mem_of_getLast? ht, rfl, (List.dropLast_append_getLast? t ht).symm⟩

theorem Inv.pop (h : l.Inv) : l.pop.Inv where
  lt_count := fun t ht => h.lt_count t (List.mem_of_mem_dropLast ht)
  held := fun p hp => by
    obtain ⟨hmem, hleft, -⟩ := mem_held_pop hp
    exact ⟨h.lt_count _ hmem, [], by rw [List.append_nil, hleft]; rfl, List.forall_mem_nil _⟩
  out_lt_count := h.out_lt_count
  out_lt := fun p hp => ⟨fun t ht => (h.out_lt p hp).1 t (List.mem_of_mem_dropLast ht),
    fun q hq => (h.out_lt p hp).1 _ (mem_held_pop hq).1⟩
  inOrder := h.inOrder

theorem Inv.drop (h : l.Inv) : l.drop.Inv where
  lt_count := h.lt_count
  held := fun _ hp => by cases hp
  out_lt_count := h.out_lt_count
  out_lt := fun p hp => ⟨(h.out_lt p hp).1, fun _ hq => by cases hq⟩
  inOrder := h.inOrder

theorem Inv.move (h : l.Inv) (hm : l.Move l') : l'.Inv := by
  cases hm with
  | stay => exact h
  | push a => exact h.push a
  | pop => exact h.pop
  | drop => exact h.drop

theorem Inv.giveBack (h : l.Inv) : l.giveBack.Inv := by
  unfold Line.giveBack
  cases hheld : l.held with
  | none => exact h
  | some p =>
    have hp : p ∈ l.held := hheld
    exact {
      lt_count := List.forall_mem_cons.mpr ⟨(h.held p hp).1, h.lt_count⟩
      held := fun _ hq => by cases hq
      out_lt_count := h.out_lt_count
      out_lt := fun q hq => ⟨List.forall_mem_cons.mpr ⟨(h.out_lt q hq).2 p hp, (h.out_lt q hq).1⟩,
        fun _ hr => by cases hr⟩
      inOrder := h.inOrder }

/-- **Delivery.** The order is kept when the item was the first when it was taken out. -/
theorem Inv.deliver (h : l.Inv) (hfirst : l.FirstHeld) : l.deliver.Inv := by
  unfold Line.deliver
  cases hheld : l.held with
  | none => exact h
  | some p =>
    have hp : p ∈ l.held := hheld
    obtain ⟨hlt, later, hqueue, hlater⟩ := h.held p hp
    have hnow : ∀ t ∈ l.queue, p.1.serial < t.serial := by
      intro t ht
      rw [hqueue] at ht
      exact (List.mem_append.mp ht).elim (hfirst p hp t) (hlater t)
    have hout : ∀ P : Ticket α × List (Ticket α) → Prop, (∀ q ∈ l.out, P q) → P (p.1, l.queue) →
        ∀ q ∈ l.out ++ [(p.1, l.queue)], P q := by
      intro P hall hnew q hq
      rcases List.mem_append.mp hq with hq | hq
      · exact hall q hq
      · rw [List.mem_singleton.mp hq]
        exact hnew
    exact {
      lt_count := h.lt_count
      held := fun _ hq => by cases hq
      out_lt_count := hout _ h.out_lt_count hlt
      out_lt := hout _ (fun q hq => ⟨(h.out_lt q hq).1, fun _ hr => by cases hr⟩)
        ⟨hnow, fun _ hr => by cases hr⟩
      inOrder := ⟨List.pairwise_append.mpr ⟨h.inOrder.1, List.pairwise_singleton _ _, fun q hq r hr => by
          rw [List.mem_singleton.mp hr]
          exact (h.out_lt q hq).2 p hp⟩,
        hout _ h.inOrder.2 hnow⟩ }

/-- An item that was not the first comes too early. -/
theorem not_inOrder_deliver (h : l.Inv) (hbad : ¬ l.FirstHeld) : ¬ l.deliver.InOrder := by
  intro hin
  refine hbad fun p hp t ht => ?_
  obtain ⟨-, later, hqueue, -⟩ := h.held p hp
  have hheld : l.held = some p := hp
  rw [deliver, hheld] at hin
  refine hin.2 (p.1, l.queue) (List.mem_append_right _ (List.mem_singleton.mpr rfl)) t ?_
  show t ∈ l.queue
  rw [hqueue]
  exact List.mem_append_left _ ht

/-! ## Without giving back -/

structure Sorted (l : Line α) : Prop where
  pairwise : l.queue.Pairwise fun a b => a.serial < b.serial
  lt_count : ∀ t ∈ l.queue, t.serial < l.count
  held_lt : ∀ p ∈ l.held, ∀ t ∈ p.2, t.serial < p.1.serial

theorem sorted_empty : (empty : Line α).Sorted :=
  ⟨List.Pairwise.nil, List.forall_mem_nil _, fun _ h => by cases h⟩

theorem Sorted.push (h : l.Sorted) (a : α) : (l.push a).Sorted where
  pairwise := List.pairwise_append.mpr ⟨h.pairwise, List.pairwise_singleton _ _, fun t ht s hs => by
    rw [List.mem_singleton.mp hs]
    exact h.lt_count t ht⟩
  lt_count := forall_mem_push a (fun t ht => Nat.lt_succ_of_lt (h.lt_count t ht)) (Nat.lt_succ_self _)
  held_lt := h.held_lt

theorem Sorted.pop (h : l.Sorted) : l.pop.Sorted where
  pairwise := h.pairwise.sublist (List.dropLast_sublist _)
  lt_count := fun t ht => h.lt_count t (List.mem_of_mem_dropLast ht)
  held_lt := fun p hp t ht => by
    have hsplit := h.pairwise
    rw [(mem_held_pop hp).2.2] at hsplit
    exact (List.pairwise_append.mp hsplit).2.2 t ht p.1 (List.mem_singleton.mpr rfl)

theorem Sorted.drop (h : l.Sorted) : l.drop.Sorted :=
  ⟨h.pairwise, h.lt_count, fun _ hp => by cases hp⟩

theorem Sorted.move (h : l.Sorted) (hm : l.Move l') : l'.Sorted := by
  cases hm with
  | stay => exact h
  | push a => exact h.push a
  | pop => exact h.pop
  | drop => exact h.drop

theorem Sorted.deliver (h : l.Sorted) : l.deliver.Sorted := by
  unfold Line.deliver
  cases l.held with
  | none => exact h
  | some p => exact ⟨h.pairwise, h.lt_count, fun _ hp => by cases hp⟩

/-- In a sorted line the last item is the first of all just when it is alone. -/
theorem Sorted.firstHeld_iff (h : l.Sorted) : l.FirstHeld ↔ l.AloneHeld := by
  refine forall₂_congr fun p hp => ?_
  constructor
  · intro hfirst
    refine List.eq_nil_iff_forall_not_mem.mpr fun t ht => ?_
    have := hfirst t ht
    have := h.held_lt p hp t ht
    omega
  · intro hnil
    rw [hnil]
    exact List.forall_mem_nil _

/-! ## With giving back -/

/-- `a` stands before `b`. Two items come out by turns, the younger one first. -/
def Before (l : Line α) (a b : Ticket α) : Prop :=
  (a.serial < b.serial ∧ l.returns a b = l.returns b a) ∨
    b.serial < a.serial ∧ l.returns a b = l.returns b a + 1

structure Ranked (l : Line α) : Prop where
  pairwise : l.queue.Pairwise l.Before
  held : ∀ p ∈ l.held, ∃ later, l.queue = p.2 ++ later ∧ (∀ t ∈ p.2, l.Before t p.1) ∧
    ∀ t ∈ later, l.Before p.1 t
  lt_count : ∀ t ∈ l.queue, t.serial < l.count
  held_lt : ∀ p ∈ l.held, p.1.serial < l.count
  back_lt : ∀ p ∈ l.back, p.1.serial < l.count ∧ ∀ t ∈ p.2, t.serial < l.count

variable {a b : Ticket α}

theorem ranked_empty : (empty : Line α).Ranked where
  pairwise := List.Pairwise.nil
  held := fun _ h => by cases h
  lt_count := List.forall_mem_nil _
  held_lt := fun _ h => by cases h
  back_lt := List.forall_mem_nil _

theorem Before.ne (h : l.Before a b) : a.serial ≠ b.serial := by
  rcases h with ⟨hlt, -⟩ | ⟨hlt, -⟩ <;> omega

theorem Ranked.returns_new (h : l.Ranked) (hb : l.count ≤ b.serial) :
    l.returns a b = 0 ∧ l.returns b a = 0 := by
  constructor <;> refine List.countP_eq_zero.mpr fun p hp hcount => ?_ <;>
    rw [Bool.and_eq_true, beq_iff_eq, List.any_eq_true] at hcount
  · obtain ⟨-, t, ht, heq⟩ := hcount
    have := (h.back_lt p hp).2 t ht
    rw [beq_iff_eq] at heq
    omega
  · have := (h.back_lt p hp).1
    omega

theorem Ranked.before_new (h : l.Ranked) (ha : a.serial < l.count) (x : α) :
    l.Before a ⟨l.count, x⟩ := by
  obtain ⟨hab, hba⟩ := h.returns_new (a := a) (b := ⟨l.count, x⟩) le_rfl
  exact Or.inl ⟨ha, hab.trans hba.symm⟩

theorem Ranked.push (h : l.Ranked) (x : α) : (l.push x).Ranked where
  pairwise := List.pairwise_append.mpr ⟨h.pairwise, List.pairwise_singleton _ _, fun t ht s hs => by
    rw [List.mem_singleton.mp hs]
    exact h.before_new (h.lt_count t ht) x⟩
  held := fun p hp => by
    obtain ⟨later, hqueue, hleft, hlater⟩ := h.held p hp
    refine ⟨later ++ [⟨l.count, x⟩], ?_, hleft, fun t ht => ?_⟩
    · rw [Line.push, hqueue, List.append_assoc]
    · rcases List.mem_append.mp ht with ht | ht
      · exact hlater t ht
      · rw [List.mem_singleton.mp ht]
        exact h.before_new (h.held_lt p hp) x
  lt_count := forall_mem_push x (fun t ht => Nat.lt_succ_of_lt (h.lt_count t ht)) (Nat.lt_succ_self _)
  held_lt := fun p hp => Nat.lt_succ_of_lt (h.held_lt p hp)
  back_lt := fun p hp => ⟨Nat.lt_succ_of_lt (h.back_lt p hp).1,
    fun t ht => Nat.lt_succ_of_lt ((h.back_lt p hp).2 t ht)⟩

theorem Ranked.pop (h : l.Ranked) : l.pop.Ranked where
  pairwise := h.pairwise.sublist (List.dropLast_sublist _)
  held := fun p hp => by
    obtain ⟨-, hleft, hqueue⟩ := mem_held_pop hp
    have hsplit := h.pairwise
    rw [hqueue] at hsplit
    refine ⟨[], by rw [List.append_nil, hleft]; rfl, fun t ht => ?_, List.forall_mem_nil _⟩
    exact (List.pairwise_append.mp hsplit).2.2 t ht p.1 (List.mem_singleton.mpr rfl)
  lt_count := fun t ht => h.lt_count t (List.mem_of_mem_dropLast ht)
  held_lt := fun p hp => h.lt_count _ (mem_held_pop hp).1
  back_lt := h.back_lt

theorem Ranked.drop (h : l.Ranked) : l.drop.Ranked where
  pairwise := h.pairwise
  held := fun _ hp => by cases hp
  lt_count := h.lt_count
  held_lt := fun _ hp => by cases hp
  back_lt := h.back_lt

theorem Ranked.move (h : l.Ranked) (hm : l.Move l') : l'.Ranked := by
  cases hm with
  | stay => exact h
  | push a => exact h.push a
  | pop => exact h.pop
  | drop => exact h.drop

theorem Ranked.deliver (h : l.Ranked) : l.deliver.Ranked := by
  unfold Line.deliver
  cases l.held with
  | none => exact h
  | some p =>
    exact {
      pairwise := h.pairwise
      held := fun _ hp => by cases hp
      lt_count := h.lt_count
      held_lt := fun _ hp => by cases hp
      back_lt := h.back_lt }

section GiveBack

variable {p : Ticket α × List (Ticket α)}

theorem giveBack_of_held (hp : l.held = some p) :
    l.giveBack = { l with held := none, queue := p.1 :: l.queue, back := l.back ++ [p] } := by
  rw [giveBack, hp]

theorem returns_giveBack (hp : l.held = some p) (a b : Ticket α) :
    l.giveBack.returns a b = l.returns a b +
      if p.1.serial = a.serial ∧ ∃ t ∈ p.2, t.serial = b.serial then 1 else 0 := by
  rw [giveBack_of_held hp, returns, List.countP_append, List.countP_singleton]
  simp [returns]

/-- Others stay as they are. -/
theorem Before.giveBack (h : l.Before a b) (hp : l.held = some p) (ha : p.1.serial ≠ a.serial)
    (hb : p.1.serial ≠ b.serial) : l.giveBack.Before a b := by
  unfold Before
  rw [returns_giveBack hp, returns_giveBack hp, if_neg (fun h => ha h.1), if_neg (fun h => hb h.1)]
  exact h

theorem Before.giveBack_left (hp : l.held = some p) (ha : a ∈ p.2) (h : l.Before a p.1) :
    l.giveBack.Before p.1 a := by
  unfold Before
  rw [returns_giveBack hp, returns_giveBack hp, if_pos ⟨rfl, a, ha, rfl⟩,
    if_neg fun hne => h.ne hne.1.symm]
  rcases h with ⟨hlt, heq⟩ | ⟨hlt, heq⟩
  · exact Or.inr ⟨hlt, by omega⟩
  · exact Or.inl ⟨hlt, by omega⟩

theorem Before.giveBack_later (hp : l.held = some p) (ha : ∀ t ∈ p.2, t.serial ≠ a.serial)
    (h : l.Before p.1 a) : l.giveBack.Before p.1 a := by
  unfold Before
  rw [returns_giveBack hp, returns_giveBack hp, if_neg fun hmem => ?_, if_neg fun hne => h.ne hne.1]
  · exact h
  · obtain ⟨-, t, ht, heq⟩ := hmem
    exact ha t ht heq

theorem Ranked.giveBack (h : l.Ranked) : l.giveBack.Ranked := by
  cases hheld : l.held with
  | none =>
    rw [Line.giveBack, hheld]
    exact h
  | some p =>
    have hp : p ∈ l.held := hheld
    obtain ⟨later, hqueue, hleft, hlater⟩ := h.held p hp
    have hpair := h.pairwise
    rw [hqueue, List.pairwise_append] at hpair
    have hne : ∀ t ∈ l.queue, p.1.serial ≠ t.serial := by
      intro t ht
      rw [hqueue] at ht
      rcases List.mem_append.mp ht with ht | ht
      · exact fun heq => (hleft t ht).ne heq.symm
      · exact (hlater t ht).ne
    have hfront : ∀ t ∈ l.queue, l.giveBack.Before p.1 t := by
      intro t ht
      rw [hqueue] at ht
      rcases List.mem_append.mp ht with ht | ht
      · exact (hleft t ht).giveBack_left hheld ht
      · exact (hlater t ht).giveBack_later hheld fun s hs => (hpair.2.2 s hs t ht).ne
    have hrest : l.queue.Pairwise l.giveBack.Before :=
      h.pairwise.imp_of_mem fun ha hb hab => hab.giveBack hheld (hne _ ha) (hne _ hb)
    have hpleft : ∀ t ∈ p.2, t.serial < l.count := fun t ht =>
      h.lt_count t (hqueue ▸ List.mem_append_left _ ht)
    have heq := giveBack_of_held hheld
    refine ⟨?_, ?_, ?_, ?_, ?_⟩
    · rw [show l.giveBack.queue = p.1 :: l.queue by rw [heq]]
      exact List.pairwise_cons.mpr ⟨hfront, hrest⟩
    all_goals rw [heq]
    · exact fun _ hq => by cases hq
    · exact List.forall_mem_cons.mpr ⟨h.held_lt p hp, h.lt_count⟩
    · exact fun _ hq => by cases hq
    · intro q hq
      rcases List.mem_append.mp hq with hq | hq
      · exact h.back_lt q hq
      · rw [List.mem_singleton.mp hq]
        exact ⟨h.held_lt p hp, hpleft⟩

end GiveBack

/-- **The first.** The item that is out was the first of all just when each item that it has left has
been given back more often beside it than it beside that item. -/
theorem Ranked.firstHeld_iff (h : l.Ranked) : l.FirstHeld ↔ l.OutlastedHeld := by
  refine forall₂_congr fun p hp => forall₂_congr fun t ht => ?_
  obtain ⟨later, -, hleft, -⟩ := h.held p hp
  rcases hleft t ht with ⟨hlt, heq⟩ | ⟨hlt, heq⟩
  · exact iff_of_false (by omega) (by omega)
  · exact iff_of_true hlt (by omega)

theorem Move.back (h : l.Move l') : l'.back = l.back := by
  cases h <;> rfl

theorem back_deliver (l : Line α) : l.deliver.back = l.back := by
  unfold Line.deliver
  split <;> rfl

theorem outlastedHeld_iff_alone (h : l.back = []) : l.OutlastedHeld ↔ l.AloneHeld := by
  have hreturns : ∀ a b, l.returns a b = 0 := fun a b => by rw [returns, h]; rfl
  refine forall₂_congr fun p _ => ?_
  constructor
  · intro hout
    refine List.eq_nil_iff_forall_not_mem.mpr fun t ht => ?_
    exact absurd (hout t ht) (by rw [hreturns, hreturns]; exact lt_irrefl 0)
  · intro hnil
    rw [hnil]
    exact List.forall_mem_nil _

end Line

end ChimesUtils.Lib
