import Mathlib.Algebra.Order.Archimedean.Basic
import Mathlib.Algebra.Order.Field.Basic
import Mathlib.Logic.Function.Iterate
import Mathlib.Tactic.Linarith

namespace Settling

variable {σ α : Type*} [LinearOrder α] {band : α} {dist : Nat → α}

-- The distance decreases until it is within the band, it gets there, and it stays there.
structure Settles (band : α) (dist : Nat → α) : Prop where
  decreases : ∀ n, band < dist n → dist (n + 1) < dist n
  arrives   : ∃ n, dist n ≤ band
  stays     : ∀ n, dist n ≤ band → dist (n + 1) ≤ band

theorem Settles.eventually (h : Settles band dist) : ∃ n, ∀ k, dist (n + k) ≤ band := by
  have ⟨n, hn⟩ := h.arrives
  refine ⟨n, fun k => ?_⟩
  induction k
  case zero      => exact hn
  case succ k ih => exact h.stays _ ih

theorem iterate_invariant {f : σ → σ} {I : σ → Prop} (hi : ∀ x, I x → I (f x)) (h : I x) (n : Nat) :
    I (f^[n] x) := by
  induction n
  case zero      => exact h
  case succ n ih => exact Function.iterate_succ_apply' f n x ▸ hi _ ih

theorem not_settles_of_outside {f : σ → σ} {I : σ → Prop} {d : σ → α} (hi : ∀ x, I x → I (f x))
    (ho : ∀ x, I x → band < d x) (h : I x) : ¬Settles band fun n => d (f^[n] x) := by
  intro hs
  have ⟨n, hn⟩ := hs.arrives
  exact absurd (ho _ (iterate_invariant hi h n)) (not_lt.mpr hn)

variable [Field α] [IsStrictOrderedRing α] [Archimedean α]
variable {f : σ → σ} {I : σ → Prop} {d p : σ → α} {x : σ} {g b : α}

-- If every step gains on the distance, up to the band, then the distance settles.
theorem settles_of_gains (hg : 0 < g) (hi : ∀ x, I x → I (f x))
    (hs : ∀ x, I x → d (f x) ≤ max band (d x - g)) (h : I x) :
    Settles band fun n => d (f^[n] x) := by
  have hs (n) : d (f^[n + 1] x) ≤ max band (d (f^[n] x) - g) := by
    rw [Function.iterate_succ_apply']
    exact hs _ (iterate_invariant hi h n)
  have hn (n : Nat) : d (f^[n] x) ≤ max band (d x - n * g) := by
    induction n
    case zero      => simp
    case succ n ih =>
      refine (hs n).trans (max_le (le_max_left _ _) ?_)
      cases le_max_iff.mp ih
      case inl ih => exact le_max_of_le_left (by linarith)
      case inr ih =>
        refine le_max_of_le_right ?_
        push_cast
        linarith
  have ⟨n, hb⟩ := exists_nat_ge ((d x - band) / g)
  exact {
    decreases n hl := (hs n).trans_lt (max_lt hl (by linarith))
    arrives        := by
      refine ⟨n, (hn n).trans (max_le le_rfl ?_)⟩
      rw [div_le_iff₀ hg] at hb
      linarith
    stays n hl     := (hs n).trans (max_le le_rfl (by linarith)) }

-- If every step from within the band drives some bounded quantity on, then the distance does not
-- stay in the band.
theorem not_settles_of_drift (hg : 0 < g) (hi : ∀ x, I x → I (f x))
    (hp : ∀ x, I x → d x ≤ band → p x + g ≤ p (f x) ∧ p x ≤ b) (h : I x) :
    ¬Settles band fun n => d (f^[n] x) := by
  intro hs
  have ⟨m, hm⟩ := hs.eventually
  have hp (k) := hp _ (iterate_invariant hi h (m + k)) (hm k)
  have hn (k : Nat) : p (f^[m] x) + k * g ≤ p (f^[m + k] x) := by
    induction k
    case zero      => simp
    case succ k ih =>
      have hk := (hp k).left
      rw [← Function.iterate_succ_apply' f] at hk
      push_cast
      rw [← Nat.add_assoc]
      linarith
  have ⟨k, hk⟩ := exists_nat_gt ((b - p (f^[m] x)) / g)
  rw [div_lt_iff₀ hg] at hk
  have hb := (hn k).trans (hp k).right
  linarith

end Settling
