import ChimesUtils.Lib.Line
import ChimesUtils.Lib.Run

/-!
# Ledgers

What a system takes in, what it holds and what it gives away, as values of a commutative monoid:
multisets of items, or numbers.

* `collect f`: the sum of what the steps of a run bring, `f` of the state before and the label;
* `Balanced.runAll`: what each step balances, a run balances;
* `Line.tickets`: the items of a line, of the one that is out and of what has been delivered, with
  what each operation on the line does to them.
-/

namespace ChimesUtils.Lib

section Collect

variable {σ ℓ M : Type} [AddCommMonoid M]

/-- What the steps of a run bring. A label that leads nowhere ends the run. -/
def collect (f : σ → ℓ → M) (step : σ → ℓ → Option σ) : List ℓ → σ → M
  | [], _ => 0
  | l :: ls, s => ((step s l).map fun s' => f s l + collect f step ls s').getD 0

/-- Each step from the invariant keeps it, and what is held before and comes in is what is held
afterwards or goes out. -/
structure Balanced (Inv : σ → Prop) (held : σ → M) (ins outs : σ → ℓ → M)
    (step : σ → ℓ → Option σ) : Prop where
  keeps : ∀ s l s', Inv s → step s l = some s' → Inv s'
  balance : ∀ s l s', Inv s → step s l = some s' → held s + ins s l = held s' + outs s l

variable {Inv : σ → Prop} {held : σ → M} {ins outs : σ → ℓ → M} {step : σ → ℓ → Option σ}
  {s s' : σ} {l : ℓ} {ls : List ℓ}

theorem map_collect {N : Type} [AddCommMonoid N] (g : M →+ N) (f : σ → ℓ → M) (ls : List ℓ) (s : σ) :
    g (collect f step ls s) = collect (fun s l => g (f s l)) step ls s := by
  induction ls generalizing s with
  | nil => exact map_zero g
  | cons l ls ih =>
    rw [collect, collect]
    cases step s l with
    | none => exact map_zero g
    | some s' => exact (map_add g _ _).trans (congrArg (g (f s l) + ·) (ih s'))

theorem collect_cons (f : σ → ℓ → M) (hs : step s l = some s') :
    collect f step (l :: ls) s = f s l + collect f step ls s' := by
  rw [collect, hs]
  rfl

theorem collect_eq_zero {f : σ → ℓ → M} (h : ∀ l ∈ ls, ∀ s, f s l = 0) (s : σ) :
    collect f step ls s = 0 := by
  induction ls generalizing s with
  | nil => rfl
  | cons l ls ih =>
    rw [List.forall_mem_cons] at h
    rw [collect]
    cases step s l with
    | none => rfl
    | some s' => exact (congrArg₂ (· + ·) (h.1 s) (ih h.2 s')).trans (add_zero 0)

/-- **All runs.** -/
theorem Balanced.runAll (hb : Balanced Inv held ins outs step) (hinv : Inv s)
    (h : runAll step ls s = some s') :
    held s + collect ins step ls s = held s' + collect outs step ls s := by
  induction ls generalizing s with
  | nil =>
    cases h
    rfl
  | cons l ls ih =>
    obtain ⟨s₁, hl, hs'⟩ := Option.bind_eq_some_iff.mp h
    rw [collect_cons ins hl, collect_cons outs hl, ← add_assoc, hb.balance s l s₁ hinv hl,
      add_right_comm, ih (hb.keeps s l s₁ hinv hl) hs', add_right_comm, add_assoc]

end Collect

theorem sum_map_set {α M : Type} [AddCommMonoid M] (f : α → M) {xs : List α} {i : ℕ} {x : α}
    (h : xs[i]? = some x) (y : α) : ((xs.set i y).map f).sum + f x = (xs.map f).sum + f y := by
  induction xs generalizing i with
  | nil => cases h
  | cons z xs ih =>
    cases i with
    | zero =>
      cases h
      simp only [List.set_cons_zero, List.map_cons, List.sum_cons]
      rw [add_right_comm, add_comm (f y), add_right_comm]
    | succ i =>
      simp only [List.set_cons_succ, List.map_cons, List.sum_cons]
      rw [add_assoc, ih h, add_assoc]

/-! ## Lines -/

namespace Line

variable {α : Type} {l : Line α}

/-- The item that is out. -/
def inHand (l : Line α) : Multiset (Ticket α) := ↑(l.held.toList.map Prod.fst)

/-- What has been delivered. -/
def delivered (l : Line α) : Multiset (Ticket α) := ↑(l.out.map Prod.fst)

/-- The items in the line. -/
def waiting (l : Line α) : Multiset (Ticket α) := ↑l.queue

/-- All items. -/
def tickets (l : Line α) : Multiset (Ticket α) := l.delivered + l.inHand + l.waiting

theorem tickets_push (l : Line α) (a : α) : (l.push a).tickets = l.tickets + {⟨l.count, a⟩} := by
  have hwaiting : (l.push a).waiting = l.waiting + {⟨l.count, a⟩} := (Multiset.coe_add _ _).symm
  rw [tickets, hwaiting, ← add_assoc]
  rfl

theorem inHand_of_held_none (h : l.held = none) : l.inHand = 0 := by
  rw [inHand, h]
  rfl

theorem tickets_pop (h : l.held = none) : l.pop.tickets = l.tickets := by
  have hparts : l.pop.inHand + l.pop.waiting = l.waiting := by
    cases hlast : l.queue.getLast? with
    | none =>
      have hnil := List.getLast?_eq_none_iff.mp hlast
      simp [inHand, waiting, pop, hnil]
    | some t =>
      have hsplit := List.dropLast_append_getLast? t hlast
      simp only [inHand, waiting, pop, hlast, Option.map_some, Option.toList_some, List.map_cons,
        List.map_nil]
      rw [Multiset.coe_add, Multiset.coe_eq_coe]
      exact (List.perm_append_comm).trans (List.Perm.of_eq hsplit)
  rw [tickets, tickets, add_assoc, hparts, inHand_of_held_none h, add_zero]
  rfl

theorem tickets_deliver (l : Line α) : l.deliver.tickets = l.tickets := by
  unfold deliver
  cases hheld : l.held with
  | none => rfl
  | some p =>
    simp only [tickets, delivered, inHand, waiting, hheld, List.map_append, List.map_cons,
      List.map_nil, Option.toList_some, Option.toList_none, ← Multiset.coe_add, Multiset.coe_nil,
      add_zero]

theorem held_deliver (l : Line α) : l.deliver.held = none := by
  unfold deliver
  split
  next hnone => exact hnone
  next => rfl

theorem count_deliver (l : Line α) : l.deliver.count = l.count := by
  unfold deliver
  split <;> rfl

theorem tickets_giveBack (l : Line α) : l.giveBack.tickets = l.tickets := by
  unfold giveBack
  cases hheld : l.held with
  | none => rfl
  | some p =>
    simp only [tickets, delivered, inHand, waiting, hheld, List.map_cons, List.map_nil,
      Option.toList_some, Option.toList_none, Multiset.coe_nil, add_zero, ← Multiset.cons_coe,
      ← Multiset.singleton_add, add_assoc]

theorem held_giveBack (l : Line α) : l.giveBack.held = none := by
  unfold giveBack
  split
  next hnone => exact hnone
  next => rfl

theorem count_giveBack (l : Line α) : l.giveBack.count = l.count := by
  unfold giveBack
  split <;> rfl

theorem tickets_drop (l : Line α) : l.drop.tickets + l.inHand = l.tickets := by
  have hnone : l.drop.inHand = 0 := rfl
  rw [tickets, hnone, add_zero, tickets, add_right_comm]
  rfl

end Line

end ChimesUtils.Lib
