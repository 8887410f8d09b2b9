import Mathlib.Order.Basic
import Mathlib.Tactic.Basic

namespace Replay

variable {ε σ : Type*}

-- The state in which a machine is left that starts in `s₀` and reads the whole log. It is `none` if
-- the machine refuses an entry.
def replay (next : ε → σ → Option σ) (s₀ : σ) : List ε → Option σ
  | []       => some s₀
  | e :: log => (replay next s₀ log).bind (next e)

variable {next : ε → σ → Option σ} {s₀ s s' : σ} {e : ε} {log older : List ε}

theorem replay_cons (h : replay next s₀ log = some s) : replay next s₀ (e :: log) = next e s := by
  simp [replay, h]

theorem replay_cons_eq_some :
    replay next s₀ (e :: log) = some s' ↔ ∃ s, replay next s₀ log = some s ∧ next e s = some s' :=
  Option.bind_eq_some_iff

theorem replay_suffix (h : replay next s₀ log = some s) (hs : older <:+ log) :
    ∃ s', replay next s₀ older = some s' := by
  induction log generalizing s
  case nil =>
    rw [List.suffix_nil.mp hs]
    exact ⟨s, h⟩
  case cons e log ih =>
    cases List.suffix_cons_iff.mp hs
    case inl hs =>
      rw [hs]
      exact ⟨s, h⟩
    case inr hs =>
      have ⟨_, h, _⟩ := replay_cons_eq_some.mp h
      exact ih h hs

theorem replay_at (h : replay next s₀ log = some s) (hs : e :: older <:+ log) :
    ∃ s₁ s₂, replay next s₀ older = some s₁ ∧ next e s₁ = some s₂ := by
  have ⟨s₂, h⟩ := replay_suffix h hs
  have ⟨s₁, h, hn⟩ := replay_cons_eq_some.mp h
  exact ⟨s₁, s₂, h, hn⟩

-- The rule of invariants. They may depend on the entries that have been read.
theorem replay_invariant {I : List ε → σ → Prop} (h₀ : I [] s₀)
    (hn : ∀ {log e s s'}, I log s → next e s = some s' → I (e :: log) s')
    (h : replay next s₀ log = some s) : I log s := by
  induction log generalizing s
  case nil =>
    cases h
    exact h₀
  case cons e log ih =>
    have ⟨s₁, h, he⟩ := replay_cons_eq_some.mp h
    exact hn (ih h) he

end Replay
