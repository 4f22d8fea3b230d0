import Mathlib

/-!
# Text rewriting

Left-to-right editing of texts over an arbitrary alphabet, as the string functions of a standard
library do it.

* `rewrite mt`: the scan that replaces every match of `mt` and goes on after the match; its
  instance `replace p t` replaces the non-overlapping occurrences of `p` by `t`.
* `trimStartMatches`, `trimEndMatches`: drop `p` from an end of the text as long as it stands there.
* `OccursOnce p s`: the text `s` holds `p` at exactly one place.
* `Solid quiet s`: not all letters of `s` are quiet. A text of quiet letters that begins or ends a text
  with `s` in it begins or ends at `s` (`prefix_of_solid`, `suffix_of_solid`, `eq_of_around`).
-/

namespace ChimesUtils.Lib

variable {α : Type} [DecidableEq α]

/-! ## The scan -/

/-- Scan a text of which the first `skip` letters belong to a match already replaced. -/
def rewriteAux (mt : List α → Option (ℕ × List α)) : ℕ → List α → List α
  | _, [] => []
  | skip + 1, _ :: s => rewriteAux mt skip s
  | 0, c :: s =>
    match mt (c :: s) with
    | some (n, t) => t ++ rewriteAux mt (n - 1) s
    | none => c :: rewriteAux mt 0 s

/-- Replace every match `mt s = some (n, t)`, the first `n` letters of `s`, by `t`. -/
def rewrite (mt : List α → Option (ℕ × List α)) (s : List α) : List α := rewriteAux mt 0 s

omit [DecidableEq α] in
@[simp] theorem rewrite_nil (mt : List α → Option (ℕ × List α)) : rewrite mt [] = [] := rfl

omit [DecidableEq α] in
theorem rewriteAux_skip (mt : List α → Option (ℕ × List α)) (x s : List α) :
    rewriteAux mt x.length (x ++ s) = rewrite mt s := by
  induction x with
  | nil => rfl
  | cons c x ih => exact ih

omit [DecidableEq α] in
theorem rewrite_cons_of_none {mt : List α → Option (ℕ × List α)} {c : α} {s : List α}
    (h : mt (c :: s) = none) : rewrite mt (c :: s) = c :: rewrite mt s := by
  simp only [rewrite, rewriteAux, h]

omit [DecidableEq α] in
theorem rewrite_append_of_match {mt : List α → Option (ℕ × List α)} {x s t : List α} (hx : x ≠ [])
    (h : mt (x ++ s) = some (x.length, t)) : rewrite mt (x ++ s) = t ++ rewrite mt s := by
  obtain ⟨c, x, rfl⟩ := List.exists_cons_of_ne_nil hx
  simp only [rewrite, List.cons_append, rewriteAux] at h ⊢
  simp only [h, List.length_cons, Nat.add_sub_cancel]
  rw [rewriteAux_skip, rewrite]

omit [DecidableEq α] in
theorem rewrite_append_of_none {mt : List α → Option (ℕ × List α)} {x s : List α}
    (h : ∀ c ∈ x, ∀ r, mt (c :: r) = none) : rewrite mt (x ++ s) = x ++ rewrite mt s := by
  induction x with
  | nil => rfl
  | cons c x ih =>
    rw [List.cons_append, rewrite_cons_of_none (h c List.mem_cons_self _),
      ih fun d hd => h d (List.mem_cons_of_mem _ hd), List.cons_append]

/-! ## Replacing a pattern -/

/-- The matcher of a fixed pattern. -/
def matchPat (p t : List α) (s : List α) : Option (ℕ × List α) :=
  if p <+: s then some (p.length, t) else none

/-- Replace the non-overlapping occurrences of `p`, found from the left, by `t`. The empty
pattern stands before every letter and at the end. -/
def replace (p t s : List α) : List α :=
  if p = [] then t ++ s.flatMap fun c => c :: t else rewrite (matchPat p t) s

theorem matchPat_none {p t s : List α} (h : ¬ p <+: s) : matchPat p t s = none := if_neg h

theorem matchPat_append (p t s : List α) : matchPat p t (p ++ s) = some (p.length, t) :=
  if_pos (List.prefix_append p s)

theorem replace_nil {p t : List α} (hp : p ≠ []) : replace p t [] = [] := by
  simp [replace, hp]

theorem replace_cons_of_not {p t : List α} {c : α} {s : List α} (hp : p ≠ [])
    (h : ¬ p <+: c :: s) : replace p t (c :: s) = c :: replace p t s := by
  simp only [replace, if_neg hp]
  exact rewrite_cons_of_none (matchPat_none h)

theorem replace_append {p t s : List α} (hp : p ≠ []) : replace p t (p ++ s) = t ++ replace p t s := by
  simp only [replace, if_neg hp]
  exact rewrite_append_of_match hp (matchPat_append p t s)

theorem replace_append_of_notMem {a : α} {p t x s : List α} (h : a ∉ x) :
    replace (a :: p) t (x ++ s) = x ++ replace (a :: p) t s := by
  simp only [replace, if_neg (List.cons_ne_nil a p)]
  refine rewrite_append_of_none fun c hc r => matchPat_none fun hr => h ?_
  rwa [(List.cons_prefix_cons.mp hr).1]

/-- A pattern whose first letter does not come again, after a text without it, is the first to be
replaced. -/
theorem replace_append_of_not_infix {a : α} {p t x : List α} (ha : a ∉ p) (h : ¬ a :: p <:+: x)
    (s : List α) : replace (a :: p) t (x ++ (a :: p ++ s)) = x ++ t ++ replace (a :: p) t s := by
  induction x with
  | nil => exact replace_append (List.cons_ne_nil a p)
  | cons c x ih =>
    have hstart : ¬ a :: p <+: c :: (x ++ (a :: p ++ s)) := by
      intro hprefix
      rw [← List.cons_append] at hprefix
      rcases List.prefix_or_prefix_of_prefix hprefix (List.prefix_append _ _) with hin | ⟨rest, hrest⟩
      · exact h hin.isInfix
      · -- what is left of the pattern starts with its first letter again
        rw [← hrest, List.prefix_append_right_inj] at hprefix
        obtain ⟨hc, hp⟩ := List.cons_eq_cons.mp hrest
        cases rest with
        | nil =>
          rw [List.append_nil] at hrest
          exact h (hrest ▸ List.infix_rfl)
        | cons b rest =>
          have hb : b = a := by
            rw [hrest] at hprefix
            exact (List.cons_prefix_cons.mp hprefix).1
          rw [← hp, hb] at ha
          exact ha (List.mem_append_right x List.mem_cons_self)
    rw [List.cons_append, replace_cons_of_not (List.cons_ne_nil a p) hstart,
      ih fun hx => h (hx.trans (List.suffix_cons c x).isInfix)]
    rfl

theorem replace_of_not_infix {p t s : List α} (hp : p ≠ []) (h : ¬ p <:+: s) : replace p t s = s := by
  induction s with
  | nil => exact replace_nil hp
  | cons c s ih =>
    rw [replace_cons_of_not hp fun hc => h hc.isInfix,
      ih fun hc => h (hc.trans (List.suffix_cons c s).isInfix)]

omit [DecidableEq α] in
/-- **From the left.** A statement about all texts follows when it passes from the text after a pattern
to the text with it, and, where the pattern does not stand at the start, from the text after the first
letter. -/
@[elab_as_elim]
theorem pattern_induction {p : List α} (hp : p ≠ []) {motive : List α → Prop}
    (cut : ∀ s, motive s → motive (p ++ s))
    (step : ∀ s, ¬ p <+: s → (∀ c r, s = c :: r → motive r) → motive s) (s : List α) : motive s := by
  induction hn : s.length using Nat.strong_induction_on generalizing s with
  | _ n ih =>
    by_cases h : p <+: s
    · obtain ⟨r, rfl⟩ := h
      refine cut r (ih r.length ?_ r rfl)
      have hpos := List.length_pos_iff.mpr hp
      rw [← hn, List.length_append]
      omega
    · refine step s h fun c r hr => ih r.length ?_ r rfl
      rw [← hn, hr, List.length_cons]
      omega

theorem mem_of_mem_replace {p t : List α} (hp : p ≠ []) {x : α} {s : List α}
    (h : x ∈ replace p t s) : x ∈ s ∨ x ∈ t := by
  induction s using pattern_induction hp with
  | cut s ih =>
    rw [replace_append hp, List.mem_append] at h
    rcases h with h | h
    · exact Or.inr h
    · exact (ih h).imp_left (List.mem_append_right _)
  | step s hs ih =>
    cases s with
    | nil => simp [replace_nil hp] at h
    | cons c s =>
      rw [replace_cons_of_not hp hs, List.mem_cons] at h
      rcases h with rfl | h
      · exact Or.inl List.mem_cons_self
      · exact (ih c s rfl h).imp_left (List.mem_cons_of_mem _)

/-! ## A pattern at exactly one place -/

/-- `p` stands in `s` at exactly one place. -/
def OccursOnce (p s : List α) : Prop := (s.tails.filter fun r => decide (p <+: r)).length = 1

instance (p s : List α) : Decidable (OccursOnce p s) := by unfold OccursOnce; infer_instance

theorem not_occursOnce_nil {p : List α} (hp : p ≠ []) : ¬ OccursOnce p [] := by
  simp [OccursOnce, List.prefix_nil, hp]

theorem OccursOnce.map {β : Type} [DecidableEq β] {f : α → β} (hf : Function.Injective f)
    {p s : List α} (h : OccursOnce p s) : OccursOnce (p.map f) (s.map f) := by
  rw [OccursOnce, List.map_tails, List.filter_map, List.length_map]
  rw [OccursOnce] at h
  refine Eq.trans (congrArg _ (List.filter_congr fun r _ => ?_)) h
  exact decide_eq_decide.mpr (List.prefix_map_iff_of_injective hf)

theorem filter_tails_eq_nil {p s : List α} :
    (s.tails.filter fun r => decide (p <+: r)) = [] ↔ ¬ p <:+: s := by
  rw [List.filter_eq_nil_iff]
  constructor
  · rintro h ⟨a, b, rfl⟩
    refine h (p ++ b) ?_ (by simp)
    rw [List.mem_tails, List.append_assoc]
    exact List.suffix_append _ _
  · intro h r hr hpr
    rw [List.mem_tails] at hr
    exact h ((of_decide_eq_true hpr).isInfix.trans hr.isInfix)

/-- Around its only place, a pattern of two different letters is replaced and nothing else is. -/
theorem OccursOnce.replace_eq {x y : α} (hxy : x ≠ y) {s : List α} (h : OccursOnce [x, y] s) :
    ∃ a b, s = a ++ [x, y] ++ b ∧ ∀ t, replace [x, y] t s = a ++ t ++ b := by
  induction s with
  | nil => exact absurd h (not_occursOnce_nil (by simp))
  | cons c s ih =>
    by_cases hp : [x, y] <+: c :: s
    · obtain ⟨b, hb⟩ := hp
      have hnone : ¬ [x, y] <:+: b := by
        rw [← filter_tails_eq_nil]
        have h' := h
        rw [OccursOnce, ← hb] at h'
        have hy : ¬ [x, y] <+: y :: b := fun hy => hxy (List.cons_prefix_cons.mp hy).1
        simpa [List.tails, hy] using h'
      refine ⟨[], b, by simpa using hb.symm, fun t => ?_⟩
      rw [← hb, replace_append (by simp), replace_of_not_infix (by simp) hnone, List.nil_append]
    · have h' : OccursOnce [x, y] s := by simpa [OccursOnce, List.tails, hp] using h
      obtain ⟨a, b, hs, hr⟩ := ih h'
      refine ⟨c :: a, b, by rw [hs]; simp, fun t => ?_⟩
      rw [replace_cons_of_not (by simp) hp, hr]
      simp

/-! ## Trimming -/

/-- Drop the prefix `p` at most `n` times. -/
def trimStartAux (p : List α) : ℕ → List α → List α
  | 0, s => s
  | n + 1, s => if p <+: s then trimStartAux p n (s.drop p.length) else s

/-- Drop the prefix `p` as long as the text starts with it. -/
def trimStartMatches (p s : List α) : List α := trimStartAux p s.length s

/-- Drop the suffix `p` as long as the text ends with it. -/
def trimEndMatches (p s : List α) : List α := (trimStartMatches p.reverse s.reverse).reverse

theorem trimStartAux_stable {p : List α} (hp : p ≠ []) : ∀ (n m : ℕ) (s : List α),
    s.length ≤ n → s.length ≤ m → trimStartAux p n s = trimStartAux p m s
  | 0, 0, _, _, _ => rfl
  | 0, m + 1, s, h, _ => by
    rw [List.length_eq_zero_iff.mp (Nat.le_zero.mp h)]
    simp [trimStartAux, List.prefix_nil, hp]
  | n + 1, 0, s, _, h => by
    rw [List.length_eq_zero_iff.mp (Nat.le_zero.mp h)]
    simp [trimStartAux, List.prefix_nil, hp]
  | n + 1, m + 1, s, hn, hm => by
    have hp' := List.length_pos_iff.mpr hp
    rw [trimStartAux, trimStartAux]
    split_ifs
    · exact trimStartAux_stable hp n m _ (by rw [List.length_drop]; omega)
        (by rw [List.length_drop]; omega)
    · rfl

theorem trimStartMatches_of_not {p s : List α} (h : ¬ p <+: s) : trimStartMatches p s = s := by
  cases s with
  | nil => rfl
  | cons c s => rw [trimStartMatches, List.length_cons, trimStartAux, if_neg h]

theorem trimStartMatches_append {p : List α} (hp : p ≠ []) (s : List α) :
    trimStartMatches p (p ++ s) = trimStartMatches p s := by
  have hp' := List.length_pos_iff.mpr hp
  obtain ⟨n, hn⟩ : ∃ n, (p ++ s).length = n + 1 := ⟨p.length + s.length - 1, by
    rw [List.length_append]; omega⟩
  rw [trimStartMatches, hn, trimStartAux, if_pos (List.prefix_append p s), List.drop_left]
  exact trimStartAux_stable hp n s.length s (by rw [List.length_append] at hn; omega) le_rfl

/-- A text several times. -/
def power (p : List α) (k : ℕ) : List α := (List.replicate k p).flatten

omit [DecidableEq α] in
theorem power_zero (p : List α) : power p 0 = [] := rfl

omit [DecidableEq α] in
theorem power_succ (p : List α) (k : ℕ) : power p (k + 1) = p ++ power p k := by
  unfold power
  rw [List.replicate_succ, List.flatten_cons]

omit [DecidableEq α] in
theorem power_add (p : List α) (k m : ℕ) : power p (k + m) = power p k ++ power p m := by
  unfold power
  rw [List.replicate_add, List.flatten_append]

omit [DecidableEq α] in
theorem reverse_power (p : List α) (k : ℕ) : (power p k).reverse = power p.reverse k := by
  unfold power
  rw [List.reverse_flatten, List.map_replicate, List.reverse_replicate]

theorem exists_power_trimStartMatches {p : List α} (hp : p ≠ []) (s : List α) :
    ∃ k, s = power p k ++ trimStartMatches p s := by
  induction s using pattern_induction hp with
  | cut s ih =>
    obtain ⟨k, hk⟩ := ih
    refine ⟨k + 1, ?_⟩
    rw [trimStartMatches_append hp, power_succ, List.append_assoc, ← hk]
  | step s hs ih => exact ⟨0, by rw [trimStartMatches_of_not hs, power_zero, List.nil_append]⟩

theorem not_prefix_trimStartMatches {p : List α} (hp : p ≠ []) (s : List α) :
    ¬ p <+: trimStartMatches p s := by
  induction s using pattern_induction hp with
  | cut s ih =>
    rw [trimStartMatches_append hp]
    exact ih
  | step s hs ih =>
    rw [trimStartMatches_of_not hs]
    exact hs

theorem trimStartMatches_power {p : List α} (hp : p ≠ []) (k : ℕ) (s : List α) :
    trimStartMatches p (power p k ++ s) = trimStartMatches p s := by
  induction k with
  | zero => rw [power_zero, List.nil_append]
  | succ k ih => rw [power_succ, List.append_assoc, trimStartMatches_append hp, ih]

theorem exists_power_trimEndMatches {p : List α} (hp : p ≠ []) (s : List α) :
    ∃ k, s = trimEndMatches p s ++ power p k := by
  obtain ⟨k, hk⟩ := exists_power_trimStartMatches (List.reverse_ne_nil_iff.mpr hp) s.reverse
  refine ⟨k, ?_⟩
  have hrev := congrArg List.reverse hk
  rw [List.reverse_reverse, List.reverse_append, reverse_power, List.reverse_reverse] at hrev
  exact hrev

theorem not_suffix_trimEndMatches {p : List α} (hp : p ≠ []) (s : List α) :
    ¬ p <:+ trimEndMatches p s := by
  rw [← List.reverse_prefix, trimEndMatches, List.reverse_reverse]
  exact not_prefix_trimStartMatches (List.reverse_ne_nil_iff.mpr hp) s.reverse

theorem trimEndMatches_of_not {p s : List α} (h : ¬ p <:+ s) : trimEndMatches p s = s := by
  rw [← List.reverse_prefix] at h
  rw [trimEndMatches, trimStartMatches_of_not h, List.reverse_reverse]

theorem trimEndMatches_power {p : List α} (hp : p ≠ []) (k : ℕ) (s : List α) :
    trimEndMatches p (s ++ power p k) = trimEndMatches p s := by
  unfold trimEndMatches
  rw [List.reverse_append, reverse_power, trimStartMatches_power (List.reverse_ne_nil_iff.mpr hp)]

theorem exists_trimStartMatches_eq (p s : List α) :
    ∃ k, k ++ trimStartMatches p s = s ∧ ∀ c ∈ k, c ∈ p := by
  have h : ∀ (n : ℕ) (s : List α), ∃ k, k ++ trimStartAux p n s = s ∧ ∀ c ∈ k, c ∈ p := by
    intro n
    induction n with
    | zero => exact fun s => ⟨[], rfl, List.forall_mem_nil _⟩
    | succ n ih =>
      intro s
      rw [trimStartAux]
      split_ifs with hp
      · obtain ⟨r, rfl⟩ := hp
        obtain ⟨k, hk, hkp⟩ := ih r
        refine ⟨p ++ k, ?_, List.forall_mem_append.mpr ⟨fun c hc => hc, hkp⟩⟩
        rw [List.drop_left, List.append_assoc, hk]
      · exact ⟨[], rfl, List.forall_mem_nil _⟩
  exact h _ s

theorem exists_trimEndMatches_eq (p s : List α) :
    ∃ k, trimEndMatches p s ++ k = s ∧ ∀ c ∈ k, c ∈ p := by
  obtain ⟨k, hk, hkp⟩ := exists_trimStartMatches_eq p.reverse s.reverse
  refine ⟨k.reverse, ?_, fun c hc => List.mem_reverse.mp (hkp c (List.mem_reverse.mp hc))⟩
  rw [trimEndMatches, ← List.reverse_append, hk, List.reverse_reverse]

theorem trimEndMatches_isPrefix (p s : List α) : trimEndMatches p s <+: s := by
  obtain ⟨k, hk, -⟩ := exists_trimEndMatches_eq p s
  exact ⟨k, hk⟩

/-! ## Cutting a text -/

theorem eq_of_append_cons {a : α} {x y s t : List α} (hx : a ∉ x) (hy : a ∉ y)
    (h : x ++ a :: s = y ++ a :: t) : x = y := by
  have htake : ∀ z u : List α, a ∉ z → (z ++ a :: u).takeWhile (· ≠ a) = z := by
    intro z u hz
    rw [List.takeWhile_append_of_pos fun c hc => by
      have hne : c ≠ a := fun heq => hz (heq ▸ hc)
      simpa using hne]
    simp
  rw [← htake x s hx, h, htake y t hy]

theorem eq_of_cons_isSuffix {a : α} {k l s : List α} (hk : a ∉ k) (hl : a ∉ l)
    (h : a :: k <:+ s ++ a :: l) : k = l := by
  obtain ⟨x, hx⟩ := h
  have hrev := congrArg List.reverse hx
  simp only [List.reverse_append, List.reverse_cons, List.append_assoc, List.singleton_append] at hrev
  exact List.reverse_injective
    (eq_of_append_cons (fun hm => hk (List.mem_reverse.mp hm)) (fun hm => hl (List.mem_reverse.mp hm))
      hrev)

omit [DecidableEq α] in
theorem mem_of_isSuffix_concat {p r : List α} {c : α} (hp : p ≠ []) (h : p <:+ r ++ [c]) : c ∈ p := by
  have hlast : p.getLast hp = c := by rw [h.getLast hp, List.getLast_concat]
  exact hlast ▸ List.getLast_mem hp

omit [DecidableEq α] in
theorem mem_of_isSuffix_append {b k : List α} (hk : k ≠ []) (h : b <:+ b ++ k) : ∀ c ∈ b, c ∈ k := by
  by_cases hlen : b.length ≤ k.length
  · have hbk : b <:+ k := List.suffix_of_suffix_length_le h (List.suffix_append b k) hlen
    exact fun c hc => hbk.subset hc
  · -- `b` itself ends in `k`, and what stands before it comes out again as well
    obtain ⟨b', rfl⟩ := List.suffix_of_suffix_length_le (List.suffix_append b k) h (by omega)
    have hshort : b'.length < (b' ++ k).length := by
      rw [List.length_append]
      have := List.length_pos_iff.mpr hk
      omega
    have hb' : b' <:+ b' ++ k := by
      obtain ⟨x, hx⟩ := h
      rw [← List.append_assoc] at hx
      exact ⟨x, List.append_cancel_right hx⟩
    exact List.forall_mem_append.mpr ⟨mem_of_isSuffix_append hk hb', fun c hc => hc⟩
termination_by b.length

omit [DecidableEq α] in
theorem mem_of_append_eq {b k x y : List α} (hk : k ≠ []) (h : x ++ (b ++ k) = y ++ b) :
    ∀ c ∈ b, c ∈ k := by
  have hb : b <:+ x ++ (b ++ k) := ⟨y, h.symm⟩
  refine mem_of_isSuffix_append hk (List.suffix_of_suffix_length_le hb (List.suffix_append x _) ?_)
  rw [List.length_append]
  omega

/-! ## Around a solid text -/

section Solid

omit [DecidableEq α]

/-- Some letter is not quiet. -/
def Solid (quiet : α → Bool) (s : List α) : Prop := ∃ c ∈ s, quiet c = false

variable {quiet : α → Bool} {p s t u v u' v' : List α}

theorem Solid.mono (hs : Solid quiet s) (h : s ⊆ t) : Solid quiet t := by
  obtain ⟨c, hc, hquiet⟩ := hs
  exact ⟨c, h hc, hquiet⟩

theorem Solid.not_subset (hs : Solid quiet s) (hp : ∀ c ∈ p, quiet c = true) : ¬ s ⊆ p := by
  obtain ⟨c, hc, hquiet⟩ := hs
  intro h
  rw [hp c (h hc)] at hquiet
  cases hquiet

theorem prefix_of_solid (hp : ∀ c ∈ p, quiet c = true) (hs : Solid quiet s) (h : p <+: s ++ t) :
    p <+: s :=
  (List.prefix_or_prefix_of_prefix h (List.prefix_append s t)).resolve_right
    fun hsp => hs.not_subset hp hsp.subset

theorem suffix_of_solid (hp : ∀ c ∈ p, quiet c = true) (hs : Solid quiet s) (h : p <:+ u ++ s) :
    p <:+ s :=
  (List.suffix_or_suffix_of_suffix h (List.suffix_append u s)).resolve_right
    fun hsp => hs.not_subset hp hsp.subset

/-- A solid text between quiet ends stands at one place. -/
theorem eq_of_around (hs : Solid quiet s) (hv : ∀ c ∈ v, quiet c = true)
    (hv' : ∀ c ∈ v', quiet c = true) (h : u ++ s ++ v = u' ++ s ++ v') : u = u' ∧ v = v' := by
  have hsame : ∀ {u v u' v' : List α}, (∀ c ∈ v', quiet c = true) → v <:+ v' →
      u ++ s ++ v = u' ++ s ++ v' → v = v' := by
    rintro u v u' _ hv' ⟨z, rfl⟩ heq
    rw [← List.append_assoc, List.append_cancel_right_eq] at heq
    by_contra hne
    have hz : z ≠ [] := fun hnil => hne (by rw [hnil, List.nil_append])
    refine hs.not_subset (p := z) (fun c hc => hv' c (List.mem_append_left _ hc)) ?_
    rw [List.append_assoc] at heq
    exact mem_of_append_eq hz heq.symm
  have heq : v = v' := by
    have hsuffix : v <:+ u' ++ s ++ v' := h ▸ List.suffix_append _ _
    rcases List.suffix_or_suffix_of_suffix hsuffix (List.suffix_append _ _) with hvv | hvv
    · exact hsame hv' hvv h
    · exact (hsame hv hvv h.symm).symm
  rw [heq, List.append_cancel_right_eq, List.append_cancel_right_eq] at h
  exact ⟨h, heq⟩

end Solid

end ChimesUtils.Lib
