import ChimesUtils.Lib.Renumber

/-!
# Texts with numbered places

A text with places for tokens that are numbered from left to right. The number of the first place is open,
so that one text can be put after others. If the tokens are numerals after a marker, moving all places on
is what the passes of `Lib.Renumber` do (`Places.foldl_replace_text`).
-/

namespace ChimesUtils.Lib

/-- Letters that are not in `bad`, and `count` places in order. A place is not followed by a digit, and
the text does not start with a place or a digit, so that it can follow any other one. -/
structure Places (bad : List Char) where
  count : ℕ
  pieces : Marked Char ℕ
  ordered : marks pieces = List.range count
  clean : ∀ c ∈ letters pieces, c ∉ bad
  separated : Separated Char.isDigit pieces
  starts : ∀ x ∈ pieces.head?, ∃ c, x = .inl c ∧ c.isDigit = false

namespace Places

variable {bad : List Char} (f : ℕ → List Char)

/-- The text whose first place has number `n`, where `f` writes the places. -/
def text (P : Places bad) (n : ℕ) : List Char := render (fun i => f (n + i)) P.pieces

/-- A text without places. -/
def letters (t : List Char) (ht : ∀ c ∈ t, c ∉ bad) (hstart : ∀ c ∈ t.head?, c.isDigit = false) :
    Places bad where
  count := 0
  pieces := plain t
  ordered := by simp
  clean := by simpa using ht
  separated := separated_plain _ t
  starts := by
    intro x hx
    cases t with
    | nil => cases hx
    | cons c t =>
      cases hx
      exact ⟨c, rfl, hstart c rfl⟩

/-- A place after a text. -/
def hole (t : List Char) (hne : t ≠ []) (ht : ∀ c ∈ t, c ∉ bad)
    (hstart : ∀ c ∈ t.head?, c.isDigit = false) : Places bad where
  count := 1
  pieces := plain t ++ [.inr 0]
  ordered := by simp
  clean := by simpa using ht
  separated := (separated_plain _ t).append (List.isChain_singleton _) (Or.inr (by simp))
  starts := by
    intro x hx
    obtain ⟨c, t, rfl⟩ := List.exists_cons_of_ne_nil hne
    cases hx
    exact ⟨c, rfl, hstart c rfl⟩

theorem separated_mapMarks {κ : Type} (g : ℕ → κ) {D : Marked Char ℕ}
    (h : Separated Char.isDigit D) : Separated Char.isDigit (mapMarks g D) := by
  refine (List.isChain_map _).mpr (h.imp fun x y hxy hx c hc => ?_)
  rcases x with _ | i
  · cases hx
  · rcases y with c' | j
    · cases hc
      exact hxy rfl c' rfl
    · cases hc

/-- One text after the other. -/
def append (P Q : Places bad) : Places bad where
  count := P.count + Q.count
  pieces := P.pieces ++ mapMarks (P.count + ·) Q.pieces
  ordered := by
    rw [marks_append, marks_mapMarks, P.ordered, Q.ordered, List.range_add]
  clean := by
    have hletters : Lib.letters (mapMarks (P.count + ·) Q.pieces) = Lib.letters Q.pieces := by
      unfold Lib.letters mapMarks
      rw [List.filterMap_map]
      congr 1
      funext x
      cases x <;> rfl
    rw [letters_append, hletters]
    exact List.forall_mem_append.mpr ⟨P.clean, Q.clean⟩
  separated := by
    refine P.separated.append (separated_mapMarks _ Q.separated) (Or.inr fun c hc => ?_)
    rw [mapMarks, List.head?_map] at hc
    obtain ⟨x, hx, hxc⟩ := Option.map_eq_some_iff.mp hc
    obtain ⟨a, rfl, ha⟩ := Q.starts x hx
    cases hxc
    exact ha
  starts := by
    intro x hx
    cases hP : P.pieces with
    | nil =>
      rw [hP, List.nil_append, mapMarks, List.head?_map] at hx
      obtain ⟨y, hy, rfl⟩ := Option.map_eq_some_iff.mp hx
      obtain ⟨c, rfl, hc⟩ := Q.starts y hy
      exact ⟨c, rfl, hc⟩
    | cons y D =>
      rw [hP] at hx
      exact P.starts x (by rw [hP]; exact hx)

theorem text_letters {t : List Char} (ht : ∀ c ∈ t, c ∉ bad)
    (hstart : ∀ c ∈ t.head?, c.isDigit = false) (n : ℕ) : (letters t ht hstart).text f n = t := by
  rw [text, letters, render_plain]

theorem text_hole {t : List Char} (hne : t ≠ []) (ht : ∀ c ∈ t, c ∉ bad)
    (hstart : ∀ c ∈ t.head?, c.isDigit = false) (n : ℕ) : (hole t hne ht hstart).text f n = t ++ f n := by
  rw [text, hole, render_append, render_plain, render_inr_cons, render_nil, List.append_nil,
    Nat.add_zero]

theorem text_append (P Q : Places bad) (n : ℕ) :
    (P.append Q).text f n = P.text f n ++ Q.text f (n + P.count) := by
  rw [text, append, render_append, render_mapMarks]
  simp only [text, Function.comp_def, Nat.add_assoc]

/-- **Moving all places on.** The passes give the text with numbers that are greater by `k`. -/
theorem foldl_replace_text {m : Marker} (hm : m.first ∈ bad) (P : Places bad) {k : ℕ}
    (hk : k = 0 ∨ NoClash k P.count) :
    (List.range P.count).foldl (fun s i => replace ((Numeral.ofNat (i + 1)).token m)
        ((Numeral.ofNat (i + 1 + k)).token m) s)
      (P.text (fun i => (Numeral.ofNat (i + 1)).token m) 0) =
      P.text (fun i => (Numeral.ofNat (i + 1)).token m) k := by
  have hrender : ∀ n, P.text (fun i => (Numeral.ofNat (i + 1)).token m) n =
      render (Numeral.token m) (mapMarks (fun i => Numeral.ofNat (n + i + 1)) P.pieces) := by
    intro n
    rw [render_mapMarks]
    rfl
  have hscanned : Scanned m (mapMarks (fun i => Numeral.ofNat (0 + i + 1)) P.pieces) := by
    refine ⟨separated_mapMarks _ P.separated, fun d hd hinfix => ?_⟩
    rw [plain_infix_mapMarks] at hinfix
    have hmem : m.first ∈ Lib.letters P.pieces := by
      refine letters_subset_of_infix hinfix ?_
      rw [letters_plain, Marker.text]
      exact List.mem_cons_self
    exact P.clean _ hmem hm
  rw [hrender 0, hrender k, foldl_replace_render m k P.count hscanned, render_mapMarks, render_mapMarks,
    render_mapMarks]
  refine render_congr _ fun i hi => congrArg (Numeral.token m) ?_
  have hbelow : i < P.count := List.mem_range.mp (P.ordered ▸ hi)
  have hpass := (passes_eq_iff k P.count).mpr hk (i + 1) (Nat.succ_pos i) hbelow
  show passes k P.count (Numeral.ofNat (0 + i + 1)) = Numeral.ofNat (k + i + 1)
  have hsum : i + 1 + k = k + i + 1 := by omega
  rw [Nat.zero_add, hpass, hsum]

end Places

end ChimesUtils.Lib
