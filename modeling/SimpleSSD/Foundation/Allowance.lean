import Mathlib.Data.Rat.Floor
import Mathlib.Tactic.Linarith
import Mathlib.Tactic.Ring

/-!
# Debts paid from an allowance

A debtor receives a fixed share again and again.  Whole pages of it become credit
as long as there is room below a cap, and what is left stands over as a carry.
Payments take the same amount from the credit and from the debts.  Once credit and
carry come up to the debts they do so for good, and a debt below the cap then waits
for a further share only if another one is paid meanwhile.
-/

namespace SimpleSSD.Foundation

structure Allowance where
  credit : Nat
  carry : ℚ
  owed : Nat
  debts : Nat

namespace Allowance

structure Pays (a b : Allowance) : Prop where
  carry : b.carry = a.carry
  credit : b.credit ≤ a.credit
  owed : b.credit + a.owed = a.credit + b.owed
  debts : b.debts ≤ a.debts
  fewer : b.credit < a.credit → b.debts < a.debts

/-- The share is received `n` times. -/
structure Fills (cap : Nat) (share : ℚ) (n : Nat) (a b : Allowance) : Prop where
  owed : b.owed = a.owed
  debts : b.debts = a.debts
  credit : a.credit ≤ b.credit
  funds : (b.credit : ℚ) + b.carry = a.credit + a.carry + n * share
  filled : 1 ≤ n → ∀ m, m ≤ cap → (m : ℚ) ≤ b.credit + b.carry → m ≤ b.credit

/-- With `n` more shares the credit will come up to the debts. -/
def Funded (share : ℚ) (n : Nat) (a : Allowance) : Prop :=
  (a.owed : ℚ) ≤ a.credit + a.carry + n * share

variable {cap : Nat} {share : ℚ} {a b c : Allowance} {m n : Nat}

theorem Pays.refl (a : Allowance) : Pays a a :=
  ⟨rfl, le_rfl, rfl, le_rfl, fun h => absurd h (lt_irrefl _)⟩

theorem Pays.trans (first : Pays a b) (second : Pays b c) : Pays a c where
  carry := second.carry.trans first.carry
  credit := second.credit.trans first.credit
  owed := by
    have h₁ := first.owed
    have h₂ := second.owed
    omega
  debts := second.debts.trans first.debts
  fewer h := by
    have h₁ := first.debts
    have h₂ := second.debts
    rcases Nat.lt_or_ge b.credit a.credit with less | same
    · exact second.debts.trans_lt (first.fewer less)
    · exact (second.fewer (h.trans_le same)).trans_le first.debts

theorem Pays.pay {pages : Nat} (held : pages ≤ a.credit) (due : a.owed = pages + b.owed)
    (credit : b.credit = a.credit - pages) (carry : b.carry = a.carry)
    (one : a.debts = b.debts + 1) : Pays a b where
  carry := carry
  credit := credit.trans_le (Nat.sub_le _ _)
  owed := by omega
  debts := by omega
  fewer _ := by omega

theorem Fills.refl (a : Allowance) : Fills cap share 0 a a :=
  ⟨rfl, rfl, le_rfl, by simp, fun h => absurd h (by decide)⟩

theorem Fills.trans (first : Fills cap share m a b) (second : Fills cap share n b c) :
    Fills cap share (m + n) a c where
  owed := second.owed.trans first.owed
  debts := second.debts.trans first.debts
  credit := first.credit.trans second.credit
  funds := by
    have h₁ := first.funds
    have h₂ := second.funds
    push_cast
    linarith
  filled received k capped funded := by
    rcases Nat.eq_zero_or_pos n with rfl | more
    · have same := second.funds
      rw [Nat.cast_zero, zero_mul, add_zero] at same
      exact (first.filled received k capped (same ▸ funded)).trans second.credit
    · exact second.filled more k capped funded

theorem Fills.fill {taken : Nat} (take : taken = min ⌊a.carry + share⌋₊ (cap - a.credit))
    (credit : b.credit = a.credit + taken) (left : (taken : ℚ) + b.carry = a.carry + share)
    (owed : b.owed = a.owed) (debts : b.debts = a.debts) : Fills cap share 1 a b where
  owed := owed
  debts := debts
  credit := (Nat.le_add_right _ _).trans_eq credit.symm
  funds := by
    rw [credit]
    push_cast
    linarith
  filled _ m capped funded := by
    rcases le_total m a.credit with held | short
    · exact (held.trans (Nat.le_add_right _ _)).trans_eq credit.symm
    · have whole : m - a.credit ≤ ⌊a.carry + share⌋₊ := by
        refine Nat.le_floor ?_
        rw [credit] at funded
        push_cast [Nat.cast_sub short] at funded ⊢
        linarith
      omega

theorem Funded.mono (funded : Funded share m a) (positive : 0 ≤ share) (le : m ≤ n) :
    Funded share n a := by
  have more : (m : ℚ) ≤ n := by exact_mod_cast le
  have shares := mul_le_mul_of_nonneg_right more positive
  unfold Funded at funded ⊢
  linarith

theorem Pays.funded (pays : Pays a b) (funded : Funded share n a) : Funded share n b := by
  have owed : (b.credit : ℚ) + a.owed = a.credit + b.owed := by exact_mod_cast pays.owed
  have carry := pays.carry
  unfold Funded at funded ⊢
  rw [carry]
  linarith

/-- Shares that have been received need not be waited for. -/
theorem Fills.funded (fills : Fills cap share m a b) (positive : 0 ≤ share)
    (funded : Funded share n a) : Funded share (n - m) b := by
  have funds := fills.funds
  have fewer : (n : ℚ) ≤ m + (n - m : Nat) := by
    have h : n ≤ m + (n - m) := by omega
    exact_mod_cast h
  have shares : (n : ℚ) * share ≤ m * share + (n - m : Nat) * share := by
    rw [← add_mul]
    exact mul_le_mul_of_nonneg_right fewer positive
  unfold Funded at funded ⊢
  rw [fills.owed]
  linarith

theorem Pays.covered (pays : Pays a b) (covered : a.owed ≤ a.credit) : b.owed ≤ b.credit := by
  have owed := pays.owed
  omega

theorem Fills.covered (fills : Fills cap share n a b) (covered : a.owed ≤ a.credit) :
    b.owed ≤ b.credit := by
  rw [fills.owed]
  exact covered.trans fills.credit

/-- A funded debt that is short of credit after a share has seen another one paid. -/
theorem Fills.fewer (fills : Fills cap share n a b) (pays : Pays b c) (received : 1 ≤ n)
    (funded : Funded share n a) {pages : Nat} (capped : pages ≤ cap) (due : pages ≤ c.owed)
    (short : c.credit < pages) : c.debts < a.debts := by
  have funds := fills.funds
  have owed := pays.owed
  have credit := pays.credit
  have enough : (pages : ℚ) ≤ b.credit + b.carry := by
    have all : (pages : ℚ) ≤ a.owed := by
      have h := fills.owed
      exact_mod_cast (by omega : pages ≤ a.owed)
    unfold Funded at funded
    linarith
  have held := fills.filled received pages capped enough
  rw [← fills.debts]
  exact pays.fewer (short.trans_le held)

end Allowance

end SimpleSSD.Foundation
