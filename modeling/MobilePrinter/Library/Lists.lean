import Mathlib.Data.List.Chain
import Mathlib.Data.List.Forall2

namespace List

theorem isSome_foldlM {f : β → α → Option β} {P : α → Prop} {l : List α}
    (h : ∀ b a, (f b a).isSome = true ↔ P a) :
    (l.foldlM f b).isSome = true ↔ ∀ a ∈ l, P a := by
  induction l generalizing b
  case nil => simp
  case cons a l ih =>
    rw [List.foldlM_cons, List.forall_mem_cons, ← h b a]
    cases f b a
    case none   => simp
    case some b => simpa using ih

namespace Forall₂

variable {R S : α → β → Prop} {P : α → Prop} {l : List α} {l' : List β}

theorem iff_forall (h : Forall₂ R l l') (hi : ∀ a ∈ l, ∀ b, R a b → (S a b ↔ P a)) :
    Forall₂ S l l' ↔ ∀ a ∈ l, P a := by
  induction h
  case nil => simp
  case cons a b l l' hr _ ih =>
    rw [List.forall_mem_cons] at hi
    rw [forall₂_cons, List.forall_mem_cons, hi.left b hr, ih hi.right]

theorem isChain {Q : α → α → Prop} {Q' : β → β → Prop}
    (h : Forall₂ R l l') (hi : ∀ a a' b b', R a b → R a' b' → Q a a' → Q' b b')
    (hc : l.IsChain Q) : l'.IsChain Q' := by
  induction h
  case nil => exact .nil
  case cons a b l l' hr h ih =>
    cases h
    case nil => exact .singleton _
    case cons hr' _ =>
      have ⟨hq, hc⟩ := isChain_cons_cons.mp hc
      exact .cons_cons (hi _ _ _ _ hr hr' hq) (ih hc)

theorem exists_of_mem_right (h : Forall₂ R l l') (hb : b ∈ l') : ∃ a ∈ l, R a b := by
  induction h
  case nil => cases hb
  case cons hr _ ih =>
    cases hb
    case head    => exact ⟨_, mem_cons_self, hr⟩
    case tail hb => exact (ih hb).imp fun _ h => h.imp_left (mem_cons_of_mem _)

end Forall₂
end List
