import ChimesUtils.Numerals
import ChimesUtils.Wechat.Token

/-!
# Expiry of a token

`get` compares the clock with `create_time + expires as u64 - 1000`, where `expires` is signed. The cast
of a negative expiry is a large number.

* `read_eq_give_iff`: without overflow, `get` returns the entry just when the clock is below the limit;
* `servedExactly_iff`: for which tokens and clock values this is the comparison of the integers.
-/

namespace ChimesUtils

theorem asU64_of_nonneg {x : ℤ} (hx : IsI64 x) (h : 0 ≤ x) : (asU64 x : ℤ) = x := by
  unfold IsI64 at hx
  unfold asU64
  omega

theorem asU64_of_neg {x : ℤ} (hx : IsI64 x) (h : x < 0) : (asU64 x : ℤ) = x + 2 ^ 64 := by
  unfold IsI64 at hx
  unfold asU64
  omega

/-- The sum stays in the range of `u64` and so does the difference, and `get` returns the entry just when
`now + 1000 < create_time + expires`. -/
structure TokioToken.ServedExactly (p : Profile) (now : ℕ) (mcx : TokioToken) : Prop where
  sum : mcx.createTime + asU64 mcx.expires < 2 ^ 64
  difference : 1000 ≤ mcx.createTime + asU64 mcx.expires
  served : ∀ (s : TokenSystem) (i : ℕ) (rkey : Text), s.now = now → s.cache rkey = some mcx →
    (s.read p i rkey = s.give i mcx ↔ (now : ℤ) + 1000 < mcx.createTime + mcx.expires)

section Served

variable {p : Profile} {now : ℕ} {mcx : TokioToken}

theorem TokenSystem.setCall_ne_give (s : TokenSystem) (i : ℕ) (ph : CallPhase) (tok : TokioToken) :
    s.setCall i ph ≠ s.give i tok := by
  intro h
  have hlen := congrArg (fun s => s.returned.length) h
  exact absurd hlen (Nat.ne_of_lt (Nat.lt_succ_self s.returned.length))

/-- **Without overflow** the entry is returned just when the clock is below the limit. -/
theorem TokenSystem.read_eq_give_iff (hsum : mcx.createTime + asU64 mcx.expires < 2 ^ 64)
    (hdiff : 1000 ≤ mcx.createTime + asU64 mcx.expires) {s : TokenSystem} (i : ℕ) {rkey : Text}
    (hentry : s.cache rkey = some mcx) :
    s.read p i rkey = s.give i mcx ↔ s.now < mcx.createTime + asU64 mcx.expires - 1000 := by
  have hfresh : mcx.fresh p s.now =
      some (decide (s.now < mcx.createTime + asU64 mcx.expires - 1000)) := by
    rw [TokioToken.fresh, Profile.addU64_of_lt hsum, Option.bind_some, Profile.subU64_of_le hdiff]
    rfl
  unfold TokenSystem.read
  simp only [hentry, hfresh]
  by_cases hlt : s.now < mcx.createTime + asU64 mcx.expires - 1000
  · rw [decide_eq_true hlt]
    exact iff_of_true rfl hlt
  · rw [decide_eq_false hlt]
    exact iff_of_false (s.setCall_ne_give i .missed mcx) hlt

end Served

/-- **Expiry.** For every build profile, every clock value and every cached token: `get` returns it just
when `now + 1000 < create_time + expires` over the integers, and the computation stays in the range of
`u64`, if and only if the expiry is not negative and its sum with the creation time lies between 1000
and `2 ^ 64`, or the sum is negative and the clock is at least its cast less 1000. -/
theorem TokioToken.servedExactly_iff (p : Profile) (now : ℕ) (mcx : TokioToken)
    (hexpires : IsI64 mcx.expires) :
    mcx.ServedExactly p now ↔
      (0 ≤ mcx.expires ∧ 1000 ≤ mcx.createTime + mcx.expires ∧
        mcx.createTime + mcx.expires < 2 ^ 64) ∨
      (mcx.createTime + mcx.expires < 0 ∧ mcx.createTime + mcx.expires + 2 ^ 64 ≤ now + 1000) := by
  have hrange : mcx.ServedExactly p now ↔ mcx.createTime + asU64 mcx.expires < 2 ^ 64 ∧
      1000 ≤ mcx.createTime + asU64 mcx.expires ∧
      (now < mcx.createTime + asU64 mcx.expires - 1000 ↔
        (now : ℤ) + 1000 < mcx.createTime + mcx.expires) := by
    constructor
    · rintro ⟨hsum, hdiff, hserved⟩
      refine ⟨hsum, hdiff, ?_⟩
      -- a cache with the token under every key
      have hone := hserved { TokenSystem.new now with cache := fun _ => some mcx } 0 [] rfl rfl
      rwa [TokenSystem.read_eq_give_iff hsum hdiff 0 rfl] at hone
    · rintro ⟨hsum, hdiff, hiff⟩
      refine ⟨hsum, hdiff, fun s i rkey hnow hentry => ?_⟩
      rw [TokenSystem.read_eq_give_iff hsum hdiff i hentry, hnow, hiff]
  rw [hrange]
  rcases le_or_gt 0 mcx.expires with h | h
  · have hcast := asU64_of_nonneg hexpires h
    omega
  · have hcast := asU64_of_neg hexpires h
    unfold IsI64 at hexpires
    omega

/-- A token of the server. -/
def serverToken : TokioToken := ⟨['x'], 1700000000, 7200, 0⟩

theorem TokioToken.servedExactly_serverToken :
    serverToken.ServedExactly .debug 1700006000 ∧ serverToken.ServedExactly .release 1700006200 :=
  ⟨(servedExactly_iff .debug _ _ (by decide)).mpr (by decide),
    (servedExactly_iff .release _ _ (by decide)).mpr (by decide)⟩

/-- A token that has expired a second before it was created. -/
def expiredToken : TokioToken := ⟨['x'], 0, -1, 0⟩

/-- It is returned. -/
theorem TokioToken.expiredToken_served :
    (∀ s : TokenSystem, ∀ i rkey, s.now = 1700000000 → s.cache rkey = some expiredToken →
      s.read .debug i rkey = s.give i expiredToken) ∧
    ¬ expiredToken.ServedExactly .debug 1700000000 := by
  have hgive : ∀ s : TokenSystem, ∀ i rkey, s.now = 1700000000 → s.cache rkey = some expiredToken →
      s.read .debug i rkey = s.give i expiredToken := by
    intro s i rkey hnow hentry
    refine (TokenSystem.read_eq_give_iff (by decide) (by decide) i hentry).mpr ?_
    rw [hnow]
    decide
  refine ⟨hgive, fun h => ?_⟩
  have hone := h.served { TokenSystem.new 1700000000 with cache := fun _ => some expiredToken } 0 []
    rfl rfl
  exact absurd (hone.mp (hgive _ 0 [] rfl rfl)) (by decide)

end ChimesUtils
