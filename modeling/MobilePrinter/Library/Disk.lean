import Mathlib.Logic.Function.Basic

structure File (α : Type*) where
  data   : List α
  synced : Bool

structure Disk (P α : Type*) where
  files : Nat → File α
  -- The files from this number on are unused.
  fresh : Nat
  names : P → Option Nat
  -- The names that a cut can bring back, beside the present ones.
  past  : List (P → Option Nat) := []

namespace Disk

variable {P α : Type*} [DecidableEq P]

def read (d : Disk P α) (p : P) : Option (List α) :=
  (d.names p).map fun n => (d.files n).data

def setNames (d : Disk P α) (names : P → Option Nat) : Disk P α :=
  { d with names := names, past := d.names :: d.past }

def setFile (d : Disk P α) (n : Nat) (f : File α) : Disk P α :=
  { d with files := Function.update d.files n f }

-- Opens the file of a name for writing, which empties it. The name gets a new file if it has none.
def create (d : Disk P α) (p : P) : Nat × Disk P α :=
  match d.names p with
  | some n => (n, d.setFile n ⟨[], false⟩)
  | none   =>
    (d.fresh, ({ d with fresh := d.fresh + 1 }.setNames (Function.update d.names p d.fresh)).setFile
      d.fresh ⟨[], false⟩)

def append (d : Disk P α) (n : Nat) (bs : List α) : Disk P α :=
  d.setFile n ⟨(d.files n).data ++ bs, false⟩

def sync (d : Disk P α) (n : Nat) : Disk P α :=
  d.setFile n { d.files n with synced := true }

-- A name that has no file cannot be renamed.
def rename (d : Disk P α) (p q : P) : Disk P α :=
  if (d.names p).isSome
  then d.setNames (Function.update (Function.update d.names q (d.names p)) p none)
  else d

def unlink (d : Disk P α) (p : P) : Disk P α :=
  d.setNames (Function.update d.names p none)

-- The power is cut, which undoes the last `k` changes of the names, and comes back.
def cut (d : Disk P α) (k : Nat) (torn : Nat → List α) : Disk P α where
  files n := if (d.files n).synced then d.files n else ⟨torn n, true⟩
  fresh   := d.fresh
  names   := (d.names :: d.past).getD k d.names

end Disk

-- A cell whose last changes are undone by a cut.
structure Register (V : Type*) where
  value : V
  -- The values that a cut can bring back, beside the present one.
  past  : List V := []
  deriving DecidableEq

inductive Register.Effect (V : Type*)
  | none
  | set (v : V)
  | cut

inductive Register.Step {V : Type*} : Effect V → Register V → Register V → Prop
  | none : Step .none r r
  | set : Step (.set v) r { value := v, past := r.value :: r.past }
  | cut (h : v ∈ r.value :: r.past) : Step .cut r { value := v }

inductive Register.Run {V : Type*} : List (Effect V) → Register V → Register V → Prop
  | refl : Run [] r r
  | cons (h : Step e r₁ r₂) (run : Run es r₂ r₃) : Run (e :: es) r₁ r₃

namespace Disk

variable {P α : Type*} [DecidableEq P] {d : Disk P α} {path tmp p : P}
  {r : Register (Option (List α))} {n : Nat} {ns : P → Option Nat}

-- The names that a cut can leave.
def candidates (d : Disk P α) : List (P → Option Nat) :=
  d.names :: d.past

def content (d : Disk P α) (ns : P → Option Nat) (p : P) : Option (List α) :=
  (ns p).map fun n => (d.files n).data

-- No cut can bring the file to the name.
def Apart (d : Disk P α) (p : P) (n : Nat) : Prop :=
  ∀ ns ∈ d.candidates, ns p ≠ some n

-- The disk holds the register in the file at `path`. Nothing that a cut can bring there is lost by
-- it, or written to at `tmp`.
structure Holds (path tmp : P) (d : Disk P α) (r : Register (Option (List α))) : Prop where
  value   : d.read path = r.value
  past    : ∀ ns ∈ d.past, d.content ns path ∈ r.value :: r.past
  synced  : ∀ ns ∈ d.candidates, ∀ n, ns path = some n →
    n < d.fresh ∧ (d.files n).synced = true
  bound   : ∀ ns ∈ d.candidates, ∀ n, ns tmp = some n → n < d.fresh
  apart   : ∀ ns ∈ d.candidates, ∀ n, ns tmp = some n → ns path ≠ some n
  scratch : ∀ n, d.names tmp = some n → d.Apart path n

omit [DecidableEq P] in
theorem cut_names_mem (d : Disk P α) (k : Nat) (torn : Nat → List α) :
    (d.cut k torn).names ∈ d.candidates := by
  simp only [cut, List.getD_eq_getElem?_getD, candidates]
  cases h : (d.names :: d.past)[k]?
  case none   => exact List.mem_cons_self
  case some _ => exact List.mem_of_getElem? h

namespace Holds

section

omit [DecidableEq P]

theorem content_mem (h : d.Holds path tmp r) (hn : ns ∈ d.candidates) :
    d.content ns path ∈ r.value :: r.past := by
  cases hn
  case head    => exact h.value ▸ List.mem_cons_self
  case tail hn => exact h.past ns hn

theorem setFile {f : File α} (h : d.Holds path tmp r) (ha : d.Apart path n) :
    (d.setFile n f).Holds path tmp r := by
  have hf {ns} (hm : ns ∈ d.candidates) {m} (hp : ns path = some m) :
      (d.setFile n f).files m = d.files m :=
    Function.update_of_ne (fun he : m = n => ha ns hm (he ▸ hp)) _ _
  have hc {ns} (hm : ns ∈ d.candidates) : (d.setFile n f).content ns path = d.content ns path :=
    Option.map_congr fun m hp => congrArg File.data (hf hm hp)
  refine { h with value := ?value, past := ?past, synced := ?synced }
  case value => exact (hc List.mem_cons_self).trans h.value
  case past =>
    intro ns hm
    rw [hc (List.mem_cons_of_mem _ hm)]
    exact h.past ns hm
  case synced =>
    intro ns hm m hp
    rw [hf hm hp]
    exact h.synced ns hm m hp

theorem setNames {v : Option (List α)} (h : d.Holds path tmp r) (hv : d.content ns path = v)
    (hs : ∀ n, ns path = some n → n < d.fresh ∧ (d.files n).synced = true)
    (ht : ∀ n, ns tmp = some n → n < d.fresh ∧ ns path ≠ some n ∧ d.Apart path n) :
    (d.setNames ns).Holds path tmp { value := v, past := r.value :: r.past } where
  value   := hv
  past    := fun _ hm => List.mem_cons_of_mem _ (h.content_mem hm)
  synced  := List.forall_mem_cons.mpr ⟨hs, h.synced⟩
  bound   := List.forall_mem_cons.mpr ⟨fun n hn => (ht n hn).left, h.bound⟩
  apart   := List.forall_mem_cons.mpr ⟨fun n hn => (ht n hn).right.left, h.apart⟩
  scratch := fun n hn => List.forall_mem_cons.mpr (ht n hn).right

-- A register may be taken for one that a cut can bring back to more values.
theorem mono (h : d.Holds path tmp r) (hv : r.value = r'.value)
    (hp : r.value :: r.past ⊆ r'.value :: r'.past) : d.Holds path tmp r' :=
  { h with
    value := h.value.trans hv
    past  := fun ns hm => hp (h.past ns hm) }

theorem cut (h : d.Holds path tmp r) (k : Nat) (torn : Nat → List α) :
    ∃ v ∈ r.value :: r.past, (d.cut k torn).Holds path tmp { value := v } := by
  have hm := d.cut_names_mem k torn
  have hf {n} (hn : (d.cut k torn).names path = some n) : (d.cut k torn).files n = d.files n :=
    if_pos (h.synced _ hm n hn).right
  refine ⟨_, h.content_mem hm, ?_, nofun, ?_, ?_, ?_, ?_⟩
  case refine_1 => exact Option.map_congr fun n hn => congrArg File.data (hf hn)
  all_goals simp only [Apart, candidates, show (d.cut k torn).past = [] from rfl,
    List.forall_mem_singleton]
  case refine_2 =>
    intro n hn
    rw [hf hn]
    exact h.synced _ hm n hn
  case refine_3 => exact h.bound _ hm
  case refine_4 => exact h.apart _ hm
  case refine_5 => exact h.apart _ hm

end

theorem create (h : d.Holds path tmp r) (hne : path ≠ tmp) :
    (d.create tmp).2.Holds path tmp r ∧ (d.create tmp).2.names tmp = some (d.create tmp).1 ∧
      (d.create tmp).2.files (d.create tmp).1 = ⟨[], false⟩ := by
  cases ht : d.names tmp
  case some n =>
    simp only [Disk.create, ht]
    exact ⟨h.setFile (h.scratch n ht), ht, Function.update_self _ _ _⟩
  case none =>
    simp only [Disk.create, ht]
    -- No name can have the new file before.
    have ha : d.Apart path d.fresh := fun ns hm hp =>
      Nat.lt_irrefl _ (h.synced ns hm d.fresh hp).left
    have hn : Function.update d.names tmp (some d.fresh) path = d.names path :=
      Function.update_of_ne hne _ _
    have h' : Holds path tmp { d with fresh := d.fresh + 1 } r := {
      h with
      synced := fun ns hm n hp => (h.synced ns hm n hp).imp_left Nat.lt_succ_of_lt
      bound  := fun ns hm n hp => Nat.lt_succ_of_lt (h.bound ns hm n hp) }
    have hc : Disk.content { d with fresh := d.fresh + 1 }
        (Function.update d.names tmp (some d.fresh)) path = r.value :=
      (congrArg _ hn).trans h.value
    have hs := h'.setNames hc ?synced ?tmp
    case synced =>
      intro n hp
      exact h'.synced d.names List.mem_cons_self n (hn ▸ hp)
    case tmp =>
      intro n hp
      rw [Function.update_self, Option.some.injEq] at hp
      subst hp
      exact ⟨Nat.lt_succ_self _, hn ▸ ha d.names List.mem_cons_self, ha⟩
    have hr : Holds path tmp _ r := hs.mono rfl
      (List.cons_subset.mpr ⟨List.mem_cons_self, List.Subset.refl _⟩)
    refine ⟨hr.setFile ?_, Function.update_self _ _ _, Function.update_self _ _ _⟩
    refine List.forall_mem_cons.mpr ⟨fun hp => ?_, ha⟩
    exact ha d.names List.mem_cons_self (hn.symm.trans hp)

theorem rename (h : d.Holds path tmp r) (hne : path ≠ tmp) (hn : d.names tmp = some n)
    (hs : (d.files n).synced = true) :
    (d.rename tmp path).Holds path tmp
      { value := some (d.files n).data, past := r.value :: r.past } := by
  rw [Disk.rename, if_pos (Option.isSome_iff_exists.mpr ⟨n, hn⟩)]
  have hp :
      Function.update (Function.update d.names path (d.names tmp)) tmp none path = some n := by
    rw [Function.update_of_ne hne, Function.update_self, hn]
  refine h.setNames (by rw [content, hp]; rfl) ?_ ?_
  · intro m hm
    cases hp.symm.trans hm
    exact ⟨h.bound d.names List.mem_cons_self n hn, hs⟩
  · intro m hm
    rw [Function.update_self] at hm
    cases hm

theorem unlink (h : d.Holds path tmp r) (hne : path ≠ tmp) :
    (d.unlink path).Holds path tmp { value := none, past := r.value :: r.past } := by
  have hp : Function.update d.names path none path = none := Function.update_self _ _ _
  refine h.setNames (by rw [content, hp]; rfl) (fun n hn => ?_) (fun n hn => ?_)
  · cases hp.symm.trans hn
  · rw [Function.update_of_ne hne.symm] at hn
    exact ⟨h.bound d.names List.mem_cons_self n hn, by rw [hp]; nofun, h.scratch n hn⟩

end Holds
end Disk
