import Mathlib.Order.Basic
import Mathlib.Tactic.Basic

namespace Trace

variable {α : Type*}

-- `Obeys Q h` holds if every event of `h` satisfies `Q` along with the events before it.
def Obeys (Q : α → List α → Prop) : List α → Prop
  | []     => True
  | e :: h => Q e h ∧ Obeys Q h

-- The events behind the last one that satisfies `p`, which are all of them if there is none.
def since (p : α → Bool) (h : List α) : List α :=
  h.takeWhile (!p ·)

variable {Q : α → List α → Prop} {p : α → Bool} {h h' : List α} {e : α}

theorem Obeys.of_suffix (o : Obeys Q h) (hs : h' <:+ h) : Obeys Q h' := by
  induction h
  case nil          => exact List.suffix_nil.mp hs ▸ o
  case cons e h ih  =>
    cases List.suffix_cons_iff.mp hs
    case inl hs => exact hs ▸ o
    case inr hs => exact ih o.right hs

theorem obeys_iff : Obeys Q h ↔ ∀ e older, e :: older <:+ h → Q e older where
  mp o _ _ hs := (o.of_suffix hs).left
  mpr hq := by
    induction h
    case nil          => trivial
    case cons e h ih  =>
      refine ⟨hq e h (List.suffix_refl _), ih fun e' older hs => hq e' older ?_⟩
      exact hs.trans (List.suffix_cons _ _)

@[simp]
theorem since_nil : since p [] = [] :=
  rfl

theorem since_cons_of_pos (hp : p e = true) : since p (e :: h) = [] := by
  simp [since, hp]

theorem since_cons_of_neg (hp : p e = false) : since p (e :: h) = e :: since p h := by
  simp [since, hp]

theorem forall_since_of_pos {P : α → Prop} (hp : p e = true) : ∀ e' ∈ since p (e :: h), P e' := by
  simp [since_cons_of_pos hp]

theorem forall_since_cons {P : α → Prop} (he : P e) (hs : ∀ e' ∈ since p h, P e') :
    ∀ e' ∈ since p (e :: h), P e' := by
  cases hp : p e
  case true  => exact forall_since_of_pos hp
  case false =>
    rw [since_cons_of_neg hp]
    exact List.forall_mem_cons.mpr ⟨he, hs⟩

end Trace
