import Mathlib.Order.MinMax

namespace Relief

variable {ι R : Type*} [DecidableEq ι] [LinearOrder R] {ground height : R} {c : ι}
  {d : ι × R} {ds : List (ι × R)}

-- The top of a column after the deposits, of which the newest is the first.
def top (ground : R) : List (ι × R) → ι → R
  | [], _      => ground
  | d :: ds, c => if c = d.1 then max (top ground ds c) d.2 else top ground ds c

-- The number of deposits that have made their columns higher.
def raises (ground : R) : List (ι × R) → Nat
  | []      => 0
  | d :: ds => if top ground ds d.1 < d.2 then raises ground ds + 1 else raises ground ds

theorem top_cons_self : top ground (d :: ds) d.1 = max (top ground ds d.1) d.2 :=
  if_pos rfl

theorem top_cons_of_ne (h : c ≠ d.1) : top ground (d :: ds) c = top ground ds c :=
  if_neg h

theorem top_lt_iff :
    top ground ds c < height ↔ ground < height ∧ ∀ d ∈ ds, d.1 = c → d.2 < height := by
  induction ds
  case nil => simp [top]
  case cons d ds ih =>
    rw [List.forall_mem_cons]
    by_cases h : c = d.1
    case pos =>
      subst h
      rw [top_cons_self, max_lt_iff, ih]
      constructor
      case mp  => exact fun ⟨⟨hg, hd⟩, ht⟩ => ⟨hg, fun _ => ht, hd⟩
      case mpr => exact fun ⟨hg, ht, hd⟩ => ⟨⟨hg, hd⟩, ht rfl⟩
    case neg =>
      rw [top_cons_of_ne h, ih]
      exact and_congr_right fun _ => ⟨fun hd => ⟨fun he => absurd he.symm h, hd⟩, And.right⟩

end Relief
