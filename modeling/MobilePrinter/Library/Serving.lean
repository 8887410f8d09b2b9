import MobilePrinter.Library.Trace

namespace Serving

open Trace

inductive Mark (α : Type*)
  | accepted (a : α)
  | started (a : α)
  | finished (a : α)

variable {α : Type*}

def Mark.accepted? : Mark α → Option α
  | accepted a => some a
  | _          => none

def Mark.started? : Mark α → Option α
  | started a => some a
  | _         => none

def Mark.finished? : Mark α → Option α
  | finished a => some a
  | _          => none

-- The requests that have been accepted, started and finished, oldest first.
def accepted (h : List (Mark α)) : List α :=
  h.reverse.filterMap Mark.accepted?

def started (h : List (Mark α)) : List α :=
  h.reverse.filterMap Mark.started?

def finished (h : List (Mark α)) : List α :=
  h.reverse.filterMap Mark.finished?

-- A request is started when every request before it has been finished, and it is the next one of
-- those that have been accepted. Only the request that has been started last is finished.
def InTurn : Mark α → List (Mark α) → Prop
  | .accepted _, _ => True
  | .started a, h  => started h = finished h ∧ started h ++ [a] <+: accepted h
  | .finished a, h => started h = finished h ++ [a]

structure Serves (waiting : List α) (active : Option α) (h : List (Mark α)) : Prop where
  inTurn   : Obeys InTurn h
  accepted : accepted h = started h ++ waiting
  started  : started h = finished h ++ active.toList

variable {a : α} {h : List (Mark α)} {waiting : List α} {active : Option α}

section Lists

variable {m : Mark α}

theorem accepted_cons : accepted (m :: h) = accepted h ++ m.accepted?.toList := by
  cases m <;> simp [accepted, Mark.accepted?]

theorem started_cons : started (m :: h) = started h ++ m.started?.toList := by
  cases m <;> simp [started, Mark.started?]

theorem finished_cons : finished (m :: h) = finished h ++ m.finished?.toList := by
  cases m <;> simp [finished, Mark.finished?]

theorem accepted_cons_of_none (hm : m.accepted? = none) : accepted (m :: h) = accepted h := by
  rw [accepted_cons, hm]
  exact List.append_nil _

end Lists

theorem inTurn_prefix (o : Obeys InTurn h) : started h <+: accepted h ∧
    finished h <+: started h ∧ (started h).length ≤ (finished h).length + 1 := by
  induction h
  case nil => exact ⟨List.prefix_refl _, List.prefix_refl _, Nat.zero_le _⟩
  case cons m h ih =>
    have ⟨hs, hf, hl⟩ := ih o.right
    rw [accepted_cons, started_cons, finished_cons]
    cases m
    case accepted a =>
      simp only [Mark.accepted?, Mark.started?, Mark.finished?, Option.toList, List.append_nil]
      exact ⟨hs.trans (List.prefix_append _ _), hf, hl⟩
    case started a =>
      have ⟨he, hp⟩ := o.left
      simp only [Mark.accepted?, Mark.started?, Mark.finished?, Option.toList, List.append_nil]
      refine ⟨hp, ?_, ?_⟩
      case refine_1 => exact he ▸ List.prefix_append _ _
      case refine_2 => rw [List.length_append, he]; exact Nat.le_refl _
    case finished a =>
      have he := o.left
      simp only [Mark.accepted?, Mark.started?, Mark.finished?, Option.toList, List.append_nil]
      simp only [InTurn] at he
      rw [he] at hs ⊢
      exact ⟨hs, List.prefix_refl _, Nat.le_succ _⟩

namespace Serves

theorem nil : Serves [] none ([] : List (Mark α)) where
  inTurn   := trivial
  accepted := rfl
  started  := rfl

theorem accept (s : Serves waiting active h) :
    Serves (waiting ++ [a]) active (.accepted a :: h) where
  inTurn   := ⟨trivial, s.inTurn⟩
  accepted := by
    rw [accepted_cons, started_cons, s.accepted]
    simp [Mark.accepted?, Mark.started?]
  started  := by
    rw [started_cons, finished_cons, s.started]
    simp [Mark.started?, Mark.finished?]

theorem start (s : Serves (a :: waiting) none h) : Serves waiting (some a) (.started a :: h) where
  inTurn   := by
    refine ⟨⟨by simpa using s.started, ?_⟩, s.inTurn⟩
    rw [s.accepted]
    exact List.prefix_append_right_inj _ |>.mpr (List.prefix_append [a] waiting)
  accepted := by
    rw [accepted_cons, started_cons, s.accepted]
    simp [Mark.accepted?, Mark.started?]
  started  := by
    rw [started_cons, finished_cons, s.started]
    simp [Mark.started?, Mark.finished?]

theorem finish (s : Serves waiting (some a) h) : Serves waiting none (.finished a :: h) where
  inTurn   := ⟨s.started, s.inTurn⟩
  accepted := by
    rw [accepted_cons, started_cons, s.accepted]
    simp [Mark.accepted?, Mark.started?]
  started  := by
    rw [started_cons, finished_cons, s.started]
    simp [Mark.started?, Mark.finished?]

end Serves
end Serving
