import Mathlib.Data.List.Basic
import Mathlib.Tactic.Basic

namespace Numbering

variable {α : Type*} {f : Nat → α} {a b c : Nat} {x : α} {xs ys : List α}

-- The numbers behind `a` up to `b`, as `f` represents them.
def between (f : Nat → α) (a b : Nat) : List α :=
  (List.range' (a + 1) (b - a)).map f

@[simp]
theorem between_self : between f a a = [] := by
  simp [between]

@[simp]
theorem between_length : (between f a b).length = b - a := by
  simp [between]

theorem between_eq_nil : between f a b = [] ↔ b ≤ a := by
  rw [← List.length_eq_zero_iff, between_length]
  omega

theorem between_append (h₁ : a ≤ b) (h₂ : b ≤ c) :
    between f a b ++ between f b c = between f a c := by
  have hb : b + 1 = a + 1 + (b - a) := by omega
  have hc : c - a = (b - a) + (c - b) := by omega
  rw [between, between, between, ← List.map_append, hc, ← List.range'_append_1, ← hb]

theorem between_succ : between f a (a + 1) = [f (a + 1)] := by
  simp [between]

theorem between_push (h : a ≤ b) : between f a b ++ [f (b + 1)] = between f a (b + 1) := by
  rw [← between_succ, between_append h (Nat.le_succ b)]

theorem between_pop (h : between f a b = x :: xs) :
    a < b ∧ x = f (a + 1) ∧ between f (a + 1) b = xs := by
  have hl : a < b := by
    by_contra hc
    rw [between_eq_nil.mpr (Nat.le_of_not_lt hc)] at h
    cases h
  rw [← between_append (Nat.le_succ a) hl, between_succ, List.singleton_append] at h
  cases h
  exact ⟨hl, rfl, rfl⟩

theorem between_split (h : between f a c = xs ++ ys) (hl : a ≤ c) :
    ∃ b, a ≤ b ∧ b ≤ c ∧ between f a b = xs ∧ between f b c = ys := by
  induction xs generalizing a
  case nil => exact ⟨a, Nat.le_refl a, hl, between_self, h⟩
  case cons x xs ih =>
    have ⟨hc, hx, hs⟩ := between_pop h
    have ⟨b, hb, hc, hxs, hys⟩ := ih hs hc
    refine ⟨b, Nat.le_of_succ_le hb, hc, ?_, hys⟩
    rw [← between_append (Nat.le_succ a) hb, between_succ, hxs, hx, List.singleton_append]

theorem mem_between : x ∈ between f a b ↔ ∃ i, a < i ∧ i ≤ b ∧ f i = x := by
  simp only [between, List.mem_map, List.mem_range'_1]
  constructor
  case mp =>
    intro h
    have ⟨i, hi, hx⟩ := h
    exact ⟨i, by omega, by omega, hx⟩
  case mpr =>
    intro h
    have ⟨i, ha, hb, hx⟩ := h
    exact ⟨i, by omega, hx⟩

theorem between_pairwise {R : α → α → Prop} (h : ∀ {i j}, i < j → j ≤ b → R (f i) (f j)) :
    (between f a b).Pairwise R := by
  rw [between, List.pairwise_map]
  refine List.Pairwise.imp_of_mem ?_ List.pairwise_lt_range'
  intro i j _ hj hl
  have hj := List.mem_range'_1.mp hj
  exact h hl (by omega)

theorem filter_between [DecidableEq α] (hf : ∀ i ≤ c, ∀ j ≤ c, f i = f j → i = j) (h₁ : a ≤ b)
    (h₂ : b ≤ c) : (between f a c).filter (fun x => x ∉ between f a b) = between f b c := by
  rw [← between_append h₁ h₂, List.filter_append]
  have hl : (between f a b).filter (fun x => x ∉ between f a b) = [] := by
    simp [List.filter_eq_nil_iff]
  have hr : (between f b c).filter (fun x => x ∉ between f a b) = between f b c := by
    rw [List.filter_eq_self]
    intro x hx
    have ⟨i, hb, hc, hi⟩ := mem_between.mp hx
    rw [decide_eq_true_iff, mem_between]
    intro ⟨j, _, hj, he⟩
    have hij := hf i hc j (Nat.le_trans hj h₂) (hi.trans he.symm)
    omega
  rw [hl, hr, List.nil_append]

theorem foldl_between (h : a ≤ b) : (between f a b).foldl (fun _ x => x) (f a) = f b := by
  induction h
  case refl        => simp
  case step hl ih  => rw [← between_push hl, List.foldl_append, List.foldl_cons, List.foldl_nil]

end Numbering
