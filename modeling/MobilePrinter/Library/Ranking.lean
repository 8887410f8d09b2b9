import Mathlib.Tactic.Common
import MobilePrinter.Library.Transition

namespace Transition

variable {σ ι ε : Type*} {step : ι → σ → Except ε σ} {P : ι → σ → Prop} [∀ i s, Decidable (P i s)]
  {s : σ} {is : List ι}

-- The number of steps from `s` on the inputs `is` that meet `P`. Nothing counts behind a step that
-- fails.
def count (step : ι → σ → Except ε σ) (P : ι → σ → Prop) [∀ i s, Decidable (P i s)] :
    σ → List ι → Nat
  | _, []      => 0
  | s, i :: is => (if P i s then 1 else 0) +
    match step i s with
    | .ok s'   => count step P s' is
    | .error _ => 0

end Transition
