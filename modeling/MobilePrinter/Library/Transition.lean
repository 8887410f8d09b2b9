import Mathlib.Order.Basic
import Mathlib.Tactic.Basic

namespace Transition

-- `CanReach step P Q s` holds if some finite run from `s`, all of whose steps meet `P`, ends in a
-- state that satisfies `Q`.
inductive CanReach (step : ι → σ → Except ε σ) (P : ι → σ → Prop) (Q : σ → Prop) : σ → Prop
  | here : Q s → CanReach step P Q s
  | step : P i s → step i s = .ok s' → CanReach step P Q s' → CanReach step P Q s

variable {σ ι ε : Type*}

inductive Run (step : ι → σ → Except ε σ) : σ → List ι → σ → Prop
  | refl : Run step s [] s
  | cons : (step i s₁ = .ok s₂) → (Run step s₂ is s₃) → Run step s₁ (i :: is) s₃

-- `Along step P s is` holds if every step that completes on the run from `s` on the inputs `is`
-- meets `P`.
def Along (step : ι → σ → Except ε σ) (P : ι → σ → Prop) : σ → List ι → Prop
  | _, []      => True
  | s, i :: is => ∀ s', step i s = .ok s' → P i s ∧ Along step P s' is

instance decidableForallOk {x : Except ε σ} {P : σ → Prop} [DecidablePred P] :
    Decidable (∀ s, x = .ok s → P s) :=
  match x with
  | .ok s    => decidable_of_iff (P s) (by simp)
  | .error _ => .isTrue nofun

instance Along.decidable {step : ι → σ → Except ε σ} {P : ι → σ → Prop}
    [∀ i s, Decidable (P i s)] (s : σ) (is : List ι) : Decidable (Along step P s is) :=
  match is with
  | []      => .isTrue trivial
  | i :: is =>
    have (s : σ) : Decidable (Along step P s is) := Along.decidable s is
    inferInstanceAs (Decidable (∀ s', step i s = .ok s' → P i s ∧ Along step P s' is))

-- `Always step Q s is` holds if every state that is visited from `s` on the inputs `is`, including
-- `s` itself, satisfies `Q`.
def Always (step : ι → σ → Except ε σ) (Q : σ → Prop) : σ → List ι → Prop
  | s, []      => Q s
  | s, i :: is => Q s ∧ ∀ s', step i s = .ok s' → Always step Q s' is

instance Always.decidable {step : ι → σ → Except ε σ} {Q : σ → Prop} [DecidablePred Q] (s : σ)
    (is : List ι) : Decidable (Always step Q s is) :=
  match is with
  | []      => inferInstanceAs (Decidable (Q s))
  | i :: is =>
    have (s : σ) : Decidable (Always step Q s is) := Always.decidable s is
    inferInstanceAs (Decidable (Q s ∧ ∀ s', step i s = .ok s' → Always step Q s' is))

-- `Throughout step P s is` holds if every step that is attempted on the run from `s` on the inputs
-- `is` meets `P`, whether it completes or not.
def Throughout (step : ι → σ → Except ε σ) (P : ι → σ → Prop) : σ → List ι → Prop
  | _, []      => True
  | s, i :: is => P i s ∧ ∀ s', step i s = .ok s' → Throughout step P s' is

theorem map_eq_ok {x : Except ε σ} {f : σ → τ} : x.map f = .ok t ↔ ∃ s, x = .ok s ∧ t = f s := by
  cases x <;> simp [Except.map, eq_comm]

def exec (step : ι → σ → Except ε σ) : List ι → σ → Except ε σ
  | [], s      => .ok s
  | i :: is, s => (step i s).bind (exec step is)

-- The computation ends in a state that satisfies `Q`.
def Yields (Q : σ → Prop) : Except ε σ → Prop
  | .ok s    => Q s
  | .error _ => False

instance {x : Except ε σ} {Q : σ → Prop} [DecidablePred Q] : Decidable (Yields Q x) :=
  match x with
  | .ok s    => inferInstanceAs (Decidable (Q s))
  | .error _ => .isFalse nofun

-- `Reaches step Q s is` holds if the run from `s` on the inputs `is` ends in a state that satisfies
-- `Q`.
def Reaches (step : ι → σ → Except ε σ) (Q : σ → Prop) (s : σ) (is : List ι) : Prop :=
  Yields Q (exec step is s)

instance {step : ι → σ → Except ε σ} {Q : σ → Prop} [DecidablePred Q] :
    Decidable (Reaches step Q s is) :=
  inferInstanceAs (Decidable (Yields _ _))

-- `Fails step e s is` holds if the system stops with the error `e` on its run from `s` on `is`.
def Fails (step : ι → σ → Except ε σ) (e : ε) (s : σ) (is : List ι) : Prop :=
  match exec step is s with
  | .ok _     => False
  | .error e' => e' = e

instance {step : ι → σ → Except ε σ} [DecidableEq ε] : Decidable (Fails step e s is) :=
  match h : exec step is s with
  | .ok _     => .isFalse (by simp [Fails, h])
  | .error e' => decidable_of_iff (e' = e) (by simp [Fails, h])

variable {step : ι → σ → Except ε σ} {s s₁ s₂ s₃ : σ} {is is₁ is₂ : List ι}

theorem run_iff_exec : Run step s₁ is s₂ ↔ exec step is s₁ = .ok s₂ := by
  induction is generalizing s₁
  case nil =>
    constructor
    case mp  => intro h; cases h; rfl
    case mpr => intro h; cases h; exact .refl
  case cons i is hi =>
    simp only [exec]
    constructor
    case mp =>
      intro h
      cases h
      case cons h e => simpa [h, Except.bind] using hi.mp e
    case mpr =>
      intro h
      cases hs : step i s₁ <;> simp only [hs, Except.bind, reduceCtorEq] at h
      case ok => exact .cons hs (hi.mpr h)

theorem Yields.ok {Q : σ → Prop} {x : Except ε σ} (h : Yields Q x) : ∃ s, x = .ok s ∧ Q s :=
  match x, h with
  | .ok s, h => ⟨s, rfl, h⟩

theorem Reaches.run {Q : σ → Prop} (h : Reaches step Q s is) : ∃ s', Run step s is s' ∧ Q s' :=
  have ⟨s', he, hq⟩ := h.ok
  ⟨s', run_iff_exec.mpr he, hq⟩

theorem Fails.run {e : ε} (h : Fails step e s is) :
    ∃ is₁ i is₂ s', is = is₁ ++ i :: is₂ ∧ Run step s is₁ s' ∧ step i s' = .error e := by
  induction is generalizing s
  case nil => cases h
  case cons i is ih =>
    cases hs : step i s <;> simp only [Fails, exec, hs, Except.bind] at h
    case error => exact ⟨[], i, is, s, rfl, .refl, h ▸ hs⟩
    case ok s₁ =>
      have ⟨is₁, j, is₂, s', hi, hr, he⟩ := ih h
      exact ⟨i :: is₁, j, is₂, s', by rw [hi]; rfl, .cons hs hr, he⟩

namespace Run

-- The rule of invariants: what every step preserves under `P` holds at the end of every run whose
-- steps meet `P`.
theorem invariant_along {P : ι → σ → Prop} {I : σ → Prop}
    (hs : ∀ {i s s'}, I s → P i s → step i s = .ok s' → I s')
    (e : Run step s₁ is s₂) (hi : I s₁) (hp : Along step P s₁ is) : I s₂ := by
  induction e
  case refl        => exact hi
  case cons h _ ih => exact ih (hs hi (hp _ h).left h) (hp _ h).right

theorem invariant {I : σ → Prop} (hs : ∀ {i s s'}, I s → step i s = .ok s' → I s')
    (e : Run step s₁ is s₂) (hi : I s₁) : I s₂ := by
  induction e
  case refl        => exact hi
  case cons h _ ih => exact ih (hs hi h)

theorem trans (e₁ : Run step s₁ is₁ s₂) (e₂ : Run step s₂ is₂ s₃) :
    Run step s₁ (is₁ ++ is₂) s₃ := by
  induction e₁
  case refl        => exact e₂
  case cons h _ ih => exact .cons h (ih e₂)

theorem concat (e : Run step s₁ is s₂) (h : step i s₂ = .ok s₃) : Run step s₁ (is ++ [i]) s₃ :=
  e.trans (.cons h .refl)

theorem foldl {next : σ → ι → σ} (h : ∀ i s, step i s = .ok (next s i)) :
    Run step s is (is.foldl next s) := by
  induction is generalizing s
  case nil         => exact .refl
  case cons i _ ih => exact .cons (h i s) ih

theorem history_append {I : List ι → σ → Prop}
    (hs : ∀ {is i s s'}, Run step s₁ is s → I is s → step i s = .ok s' → I (is ++ [i]) s')
    (e₁ : Run step s₁ is₁ s₂) (hi : I is₁ s₂) (e₂ : Run step s₂ is₂ s₃) : I (is₁ ++ is₂) s₃ := by
  induction e₂ generalizing is₁
  case refl => rwa [List.append_nil]
  case cons h _ ih =>
    rw [List.append_cons]
    exact ih (e₁.concat h) (hs e₁ hi h)

theorem history {I : List ι → σ → Prop}
    (hs : ∀ {is i s s'}, Run step s₁ is s → I is s → step i s = .ok s' → I (is ++ [i]) s')
    (e : Run step s₁ is s₂) (hi : I [] s₁) : I is s₂ :=
  history_append hs .refl hi e

end Run

theorem Along.prefix {P : ι → σ → Prop} (h : Along step P s (is₁ ++ is₂)) : Along step P s is₁ := by
  induction is₁ generalizing s
  case nil         => trivial
  case cons _ _ ih => exact fun s' hs => ⟨(h s' hs).left, ih (h s' hs).right⟩

theorem Always.head {Q : σ → Prop} (h : Always step Q s is) : Q s := by
  cases is
  case nil  => exact h
  case cons => exact h.left

theorem Always.along {P : ι → σ → Prop} {Q : σ → Prop} (h : Always step Q s is)
    (hp : ∀ {i s}, Q s → P i s) : Along step P s is := by
  induction is generalizing s
  case nil         => trivial
  case cons i _ ih => exact fun s' hs => ⟨hp h.left, ih (h.right s' hs)⟩

theorem Along.of_forall {P : ι → σ → Prop} (h : ∀ i s, P i s) : Along step P s is := by
  induction is generalizing s
  case nil         => trivial
  case cons i _ ih => exact fun _ _ => ⟨h i s, ih⟩

theorem Along.mono {P Q : ι → σ → Prop} (h : Along step P s is) (hp : ∀ {i s}, P i s → Q i s) :
    Along step Q s is := by
  induction is generalizing s
  case nil         => trivial
  case cons i _ ih => exact fun s' hs => ⟨hp (h s' hs).left, ih (h s' hs).right⟩

-- If a step from a good state stays good exactly when it meets `P`, then the states of a run are
-- good exactly when all of its steps meet `P`. The steps may be taken to meet `R`.
theorem always_iff_along_of {P R : ι → σ → Prop} {I Q : σ → Prop} (hq : ∀ {s}, I s → Q s)
    (hs : ∀ {i s s'}, I s → R i s → P i s → step i s = .ok s' → I s')
    (hn : ∀ {i s s'}, I s → R i s → Q s' → step i s = .ok s' → P i s)
    (hi : I s) (hr : Along step R s is) : Always step Q s is ↔ Along step P s is where
  mp h := by
    induction is generalizing s
    case nil => trivial
    case cons i is ih =>
      intro s' h'
      have hr := hr s' h'
      have hp := hn hi hr.left (h.right _ h').head h'
      exact ⟨hp, ih (hs hi hr.left hp h') hr.right (h.right _ h')⟩
  mpr h := by
    induction is generalizing s
    case nil => exact hq hi
    case cons i is ih =>
      refine ⟨hq hi, fun s' h' => ?_⟩
      have hr := hr s' h'
      have h := h s' h'
      exact ih (hs hi hr.left h.left h') hr.right h.right

theorem always_iff_along {P : ι → σ → Prop} {I Q : σ → Prop} (hq : ∀ {s}, I s → Q s)
    (hs : ∀ {i s s'}, I s → P i s → step i s = .ok s' → I s')
    (hn : ∀ {i s s'}, I s → Q s' → step i s = .ok s' → P i s)
    (hi : I s) : Always step Q s is ↔ Along step P s is :=
  always_iff_along_of (R := fun _ _ => True) hq (fun h _ => hs h) (fun h _ => hn h) hi
    (.of_forall fun _ _ => trivial)

namespace CanReach

theorem backward {P : ι → σ → Prop} {Q I G : σ → Prop}
    (hi : ∀ {i s s'}, I s → step i s = .ok s' → I s')
    (hs : ∀ {i s s'}, I s → P i s → step i s = .ok s' → G s' → G s) (hq : ∀ {s}, I s → Q s → G s)
    (h : CanReach step P Q s) (h₀ : I s) : G s := by
  induction h
  case here h         => exact hq h₀ h
  case step hp h _ ih => exact hs h₀ hp h (ih (hi h₀ h))

end CanReach

-- Requirements on a step that agree on the states of an invariant agree along every run. Only the
-- steps that meet them need to keep the invariant.
theorem along_iff_along {P Q : ι → σ → Prop} {I : σ → Prop}
    (hpq : ∀ {i s s'}, I s → step i s = .ok s' → (P i s ↔ Q i s))
    (hs : ∀ {i s s'}, I s → Q i s → step i s = .ok s' → I s') (hi : I s) :
    Along step P s is ↔ Along step Q s is := by
  induction is generalizing s
  case nil => exact .rfl
  case cons i is ih =>
    refine forall₂_congr fun s' h => ?_
    rw [hpq hi h]
    exact and_congr_right fun hq => ih (hs hi hq h)

theorem along_congr {P Q : ι → σ → Prop} {I : σ → Prop}
    (hpq : ∀ {i s s'}, I s → step i s = .ok s' → (P i s ↔ Q i s))
    (hs : ∀ {i s s'}, I s → step i s = .ok s' → I s') (hi : I s) :
    Along step P s is ↔ Along step Q s is :=
  along_iff_along hpq (fun h _ => hs h) hi

theorem throughout_congr {P Q : ι → σ → Prop} {I : σ → Prop} (hpq : ∀ {i s}, I s → (P i s ↔ Q i s))
    (hs : ∀ {i s s'}, I s → step i s = .ok s' → I s') (hi : I s) :
    Throughout step P s is ↔ Throughout step Q s is := by
  induction is generalizing s
  case nil          => exact .rfl
  case cons i is ih => exact and_congr (hpq hi) (forall₂_congr fun _ h => ih (hs hi h))

theorem Throughout.of_inputs {P : ι → σ → Prop} {A : ι → Prop} {I : σ → Prop}
    (hp : ∀ {i s}, I s → A i → P i s) (hs : ∀ {i s s'}, I s → step i s = .ok s' → I s')
    (ha : ∀ i ∈ is, A i) (hi : I s) : Throughout step P s is := by
  induction is generalizing s
  case nil => trivial
  case cons i is ih =>
    rw [List.forall_mem_cons] at ha
    exact ⟨hp hi ha.left, fun _ h => ih ha.right (hs hi h)⟩

end Transition
