import MobilePrinter.Firmware.Motion.RosSim
import Mathlib.Logic.Function.Iterate

namespace Firmware

namespace SpinCallback

def stamp : SpinCallback → UInt64
  | .motionResult now       => now
  | .motionStatus _ _ _ now => now
  | .worldComplete _ now    => now

def isStatus : SpinCallback → Bool
  | .motionStatus _ _ _ _ => true
  | _                     => false

variable {past : List SpinCallback} {callback : SpinCallback} {kind : Bool}

-- What the last callback of a kind has stored. The kinds are the status on the one hand and the
-- results and the completions on the other.
def lastStamp (kind : Bool) (past : List SpinCallback) : UInt64 :=
  ((past.reverse.find? (·.isStatus == kind)).map stamp).getD 0

theorem lastStamp_concat : lastStamp kind (past ++ [callback]) =
    if callback.isStatus = kind then callback.stamp else lastStamp kind past := by
  simp only [lastStamp, List.reverse_append, List.reverse_singleton, List.singleton_append,
    List.find?_cons]
  split <;> simp_all

theorem lastStamp_attained : lastStamp kind past = 0 ∨
    ∃ cb ∈ past, cb.isStatus = kind ∧ cb.stamp = lastStamp kind past := by
  simp only [lastStamp]
  cases h : past.reverse.find? (·.isStatus == kind)
  case none    => exact .inl rfl
  case some cb =>
    have hk := List.find?_some h
    exact .inr ⟨cb, List.mem_reverse.mp (List.mem_of_find?_eq_some h), by simpa using hk, rfl⟩

theorem le_lastStamp (h : (past.map stamp).Pairwise (· ≤ ·)) (hc : callback ∈ past) :
    callback.stamp ≤ lastStamp callback.isStatus past := by
  rw [← List.pairwise_reverse, ← List.map_reverse] at h
  rw [← List.mem_reverse] at hc
  simp only [lastStamp]
  generalize past.reverse = recent at h hc
  induction recent
  case nil => cases hc
  case cons cb recent ih =>
    rw [List.map_cons, List.pairwise_cons] at h
    rw [List.find?_cons]
    split
    case h_1 =>
      cases hc
      case head    => exact UInt64.le_refl _
      case tail hc => exact h.left _ (List.mem_map_of_mem hc)
    case h_2 hn =>
      cases hc
      case head    => simp at hn
      case tail hc => exact ih h.right hc

end SpinCallback

theorem le_max (a b : UInt64) : a ≤ max a b ∧ b ≤ max a b := by
  change a ≤ (if a ≤ b then b else a) ∧ b ≤ (if a ≤ b then b else a)
  split
  case isTrue h  => exact ⟨h, UInt64.le_refl _⟩
  case isFalse h => exact ⟨UInt64.le_refl _, UInt64.le_of_lt (UInt64.not_le.mp h)⟩

theorem max_eq_or (a b : UInt64) : max a b = a ∨ max a b = b := by
  change (if a ≤ b then b else a) = a ∨ (if a ≤ b then b else a) = b
  split
  case isTrue  => exact .inr rfl
  case isFalse => exact .inl rfl

open SpinCallback

-- The controller holds the stamps of the callbacks that have run so far.
structure RosSimMotionController.Records (c : RosSimMotionController) (past : List SpinCallback) :
    Prop where
  status : c.lastStatusTime = lastStamp true past
  result : c.lastResultTime = lastStamp false past

theorem RosSimMotionController.Records.deliver {c : RosSimMotionController}
    (r : c.Records past) (callbacks : List SpinCallback) :
    (callbacks.foldl RosSimMotionController.deliver c).Records (past ++ callbacks) := by
  induction callbacks generalizing c past
  case nil => simpa using r
  case cons callback callbacks ih =>
    have h : (c.deliver callback).Records (past ++ [callback]) := by
      refine ⟨?_, ?_⟩ <;> rw [lastStamp_concat] <;> cases callback
      all_goals first | exact r.status | exact r.result | rfl
    simpa using ih h

namespace RosMotion

variable {m : RosMotion} {past : List SpinCallback} {n : Nat}

def delivered (m : RosMotion) (n : Nat) : List SpinCallback :=
  (m.schedule.take n).flatMap (·.callbacks)

theorem spin_records (r : m.controller.Records past) (n : Nat) :
    (spin^[n] m).controller.Records (past ++ m.delivered n) := by
  induction n generalizing m past
  case zero => simpa [delivered] using r
  case succ n ih =>
    rw [Function.iterate_succ_apply]
    have ⟨controller, clock, schedule⟩ := m
    cases schedule
    case nil => simpa [delivered, spin] using ih (m := ⟨controller, clock, []⟩) r
    case cons slice rest =>
      have h := ih (m := spin ⟨controller, clock, slice :: rest⟩) (r.deliver slice.callbacks)
      rwa [List.append_assoc] at h

-- The activity that a check takes into account if it loads the time of the last status at the
-- access `n` and that of the last result at the next one: what has been stored by then.
def seen (m : RosMotion) (past : List SpinCallback) (n : Nat) : List SpinCallback :=
  (past ++ m.delivered n).filter (·.isStatus) ++
    (past ++ m.delivered (n + 1)).filter (!·.isStatus)

-- What the check makes of it.
def lastActivity (m : RosMotion) (n : Nat) : UInt64 :=
  max (spin^[n] m).controller.lastStatusTime (spin^[n + 1] m).controller.lastResultTime

def reading (m : RosMotion) (n : Nat) : UInt64 :=
  (spin^[n] m).clock

-- The clock does not run backwards, neither in the callbacks nor in the firmware, and a callback
-- has read its stamp by the time at which it stores it.
structure Timely (m : RosMotion) (past : List SpinCallback) : Prop where
  stamps   : ((past ++ m.schedule.flatMap (·.callbacks)).map stamp).Pairwise (· ≤ ·)
  readings : (m.clock :: m.schedule.map (·.now)).Pairwise (· ≤ ·)
  stored   : ∀ slice ∈ m.schedule, ∀ cb ∈ slice.callbacks, cb.stamp ≤ slice.now
  past     : ∀ cb ∈ past, cb.stamp ≤ m.clock

theorem Timely.delivered (t : m.Timely past) (n : Nat) :
    ((past ++ m.delivered n).map stamp).Pairwise (· ≤ ·) := by
  refine t.stamps.sublist (.map _ (.append_left ?_ _))
  have h : m.delivered n ++ (m.schedule.drop n).flatMap (·.callbacks) =
      m.schedule.flatMap (·.callbacks) := by
    rw [RosMotion.delivered, ← List.flatMap_append, List.take_append_drop]
  exact h ▸ List.sublist_append_left _ _

theorem lastActivity_eq (r : m.controller.Records past) : m.lastActivity n = max
    (lastStamp true (past ++ m.delivered n)) (lastStamp false (past ++ m.delivered (n + 1))) := by
  rw [lastActivity, (spin_records r n).status, (spin_records r (n + 1)).result]

theorem mem_seen {cb : SpinCallback} : cb ∈ m.seen past n ↔
    (cb ∈ past ++ m.delivered n ∧ cb.isStatus = true) ∨
    (cb ∈ past ++ m.delivered (n + 1) ∧ cb.isStatus = false) := by
  simp only [seen, List.mem_append, List.mem_filter, Bool.not_eq_eq_eq_not, Bool.not_true]

theorem le_lastActivity (r : m.controller.Records past) (t : m.Timely past) :
    ∀ cb ∈ m.seen past n, cb.stamp ≤ m.lastActivity n := by
  intro cb hc
  rw [lastActivity_eq r]
  cases mem_seen.mp hc
  case inl h =>
    have hl := le_lastStamp (t.delivered n) h.left
    rw [h.right] at hl
    exact UInt64.le_trans hl (le_max _ _).left
  case inr h =>
    have hl := le_lastStamp (t.delivered (n + 1)) h.left
    rw [h.right] at hl
    exact UInt64.le_trans hl (le_max _ _).right

theorem lastActivity_attained (r : m.controller.Records past) (h : m.lastActivity n ≠ 0) :
    ∃ cb ∈ m.seen past n, cb.stamp = m.lastActivity n := by
  rw [lastActivity_eq r] at h ⊢
  cases max_eq_or (lastStamp true (past ++ m.delivered n))
    (lastStamp false (past ++ m.delivered (n + 1)))
  case inl hm =>
    rw [hm] at h ⊢
    have ⟨cb, hc, hk, hs⟩ := lastStamp_attained.resolve_left h
    exact ⟨cb, mem_seen.mpr (.inl ⟨hc, hk⟩), hs⟩
  case inr hm =>
    rw [hm] at h ⊢
    have ⟨cb, hc, hk, hs⟩ := lastStamp_attained.resolve_left h
    exact ⟨cb, mem_seen.mpr (.inr ⟨hc, hk⟩), hs⟩

end RosMotion

-- All of the activity is more than `limit` milliseconds older than `now`.
def Silent (limit now : UInt64) (activity : List SpinCallback) : Prop :=
  ∀ cb ∈ activity, cb.stamp.toNat + limit.toNat < now.toNat

-- Activity that is later than a clock reading, but not so much later that the difference between
-- the two wraps around to less than the limit again.
def Overtaken (limit now : UInt64) (activity : List SpinCallback) : Prop :=
  (∃ cb ∈ activity, now < cb.stamp) ∧
    ∀ cb ∈ activity, cb.stamp.toNat + limit.toNat < now.toNat + UInt64.size

instance : Decidable (Silent limit now activity) :=
  inferInstanceAs (Decidable (∀ cb ∈ activity, _))

instance : Decidable (Overtaken limit now activity) :=
  inferInstanceAs (Decidable ((∃ cb ∈ activity, _) ∧ ∀ cb ∈ activity, _))

theorem limit_lt_sub {limit now last : UInt64} : limit < now - last ↔
    last.toNat + limit.toNat < now.toNat ∨
    now.toNat < last.toNat ∧ last.toNat + limit.toNat < now.toNat + UInt64.size := by
  have hl := limit.toNat_lt
  have hn := now.toNat_lt
  have ha := last.toNat_lt
  rw [UInt64.lt_iff_toNat_lt, UInt64.toNat_sub]
  simp only [UInt64.size]
  omega

namespace RosMotion

variable {m : RosMotion} {past : List SpinCallback} {n : Nat} {limit now : UInt64} {p : Prop}

theorem overtaken_iff (r : m.controller.Records past) (t : m.Timely past) :
    Overtaken limit now (m.seen past n) ↔ now.toNat < (m.lastActivity n).toNat ∧
      (m.lastActivity n).toNat + limit.toNat < now.toNat + UInt64.size := by
  have hle {cb : SpinCallback} (hc : cb ∈ m.seen past n) :
      cb.stamp.toNat ≤ (m.lastActivity n).toNat :=
    UInt64.le_iff_toNat_le.mp (le_lastActivity r t cb hc)
  constructor
  case mp =>
    intro ⟨⟨cb, hc, hn⟩, hw⟩
    have hn := Nat.lt_of_lt_of_le (UInt64.lt_iff_toNat_lt.mp hn) (hle hc)
    have h₀ : m.lastActivity n ≠ 0 := fun h => by simp [h] at hn
    have ⟨cb, hc, ha⟩ := lastActivity_attained r h₀
    exact ⟨hn, ha ▸ hw cb hc⟩
  case mpr =>
    intro ⟨hn, hw⟩
    have h₀ : m.lastActivity n ≠ 0 := fun h => by simp [h] at hn
    have ⟨cb, hc, ha⟩ := lastActivity_attained r h₀
    exact ⟨⟨cb, hc, UInt64.lt_iff_toNat_lt.mpr (ha ▸ hn)⟩,
      fun cb hc => Nat.lt_of_le_of_lt (Nat.add_le_add_right (hle hc) _) hw⟩

-- A check that waits for more than `limit` milliseconds without activity while `p` holds is right
-- exactly if it is not overtaken while `p` holds.
theorem silent_iff (r : m.controller.Records past) (t : m.Timely past) :
    (p ∧ m.lastActivity n > 0 ∧ now - m.lastActivity n > limit →
      Silent limit now (m.seen past n)) ↔ ¬(p ∧ Overtaken limit now (m.seen past n)) := by
  rw [overtaken_iff r t]
  constructor
  case mp =>
    intro h ⟨hp, ho⟩
    have h₀ : m.lastActivity n > 0 := UInt64.lt_iff_toNat_lt.mpr (Nat.zero_lt_of_lt ho.left)
    have ⟨cb, hc, ha⟩ := lastActivity_attained r (UInt64.ne_of_lt h₀).symm
    have hs := h ⟨hp, h₀, limit_lt_sub.mpr (.inr ho)⟩ cb hc
    rw [ha] at hs
    omega
  case mpr =>
    intro h ⟨hp, _, hl⟩ cb hc
    have hs := (limit_lt_sub.mp hl).resolve_right fun ho => h ⟨hp, ho⟩
    have ha := UInt64.le_iff_toNat_le.mp (le_lastActivity r t cb hc)
    omega

def Watched (m : RosMotion) : Prop :=
  (spin^[1] m).controller.abortActive = false ∧ 0 < (spin^[4] m).inflight.1

def Draining (m : RosMotion) : Prop :=
  (spin^[1] m).controller.abortActive = true ∧
    (spin^[2] m).controller.lastCompletedSeq < (spin^[3] m).controller.lastSubmittedSeq

instance : Decidable (Watched m) :=
  inferInstanceAs (Decidable (_ ∧ _))

theorem checkWatchdog_fst : m.checkWatchdog.1 = true ↔
    m.Watched ∧ m.lastActivity 3 > 0 ∧
      m.reading 2 - m.lastActivity 3 > RosSimMotionController.watchdogTimeoutMs := by
  simp only [checkWatchdog, Watched, lastActivity, reading, Function.iterate_succ_apply,
    Function.iterate_zero_apply]
  split
  case isTrue h =>
    refine iff_of_false nofun fun hw => ?_
    cases h.symm.trans hw.left.left
  case isFalse h =>
    simp only [Bool.not_eq_true] at h
    split
    case isTrue hz =>
      refine iff_of_false nofun fun hw => ?_
      rw [eq_of_beq hz] at hw
      exact absurd hw.right.left (by decide)
    case isFalse hz =>
      have hp := UInt64.pos_iff_ne_zero.mpr (ne_of_beq_false (Bool.not_eq_true _ |>.mp hz))
      simp only [h, Bool.and_eq_true, decide_eq_true_eq, true_and, gt_iff_lt]
      simp only [hp, true_and]

theorem abortFallback_fst : m.abortFallback.1 = true ↔
    m.Draining ∧ m.lastActivity 5 > 0 ∧ m.reading 4 - m.lastActivity 5 > 500 := by
  simp only [abortFallback, Draining, lastActivity, reading, Function.iterate_succ_apply,
    Function.iterate_zero_apply]
  split
  case isTrue h =>
    refine iff_of_false nofun fun hd => ?_
    rw [hd.left.left] at h
    cases h
  case isFalse h =>
    simp only [Bool.not_eq_eq_eq_not, Bool.not_true, Bool.not_eq_false] at h
    split
    case isTrue h'  =>
      simp only [Bool.not_eq_eq_eq_not, Bool.not_true, decide_eq_false_iff_not] at h'
      exact iff_of_false nofun fun hd => h' hd.left.right
    case isFalse h' =>
      simp only [Bool.not_eq_eq_eq_not, Bool.not_true, Bool.not_eq_false, decide_eq_true_eq] at h'
      simp only [h, h', Bool.and_eq_true, decide_eq_true_eq, true_and, gt_iff_lt]

end RosMotion

open RosSimMotionController (watchdogTimeoutMs)

-- Neither the watchdog nor the fallback of an abort takes activity for silence exactly as long as
-- no callback that stores a stamp behind their clock reading overtakes them.
theorem silence_iff_not_overtaken (m : RosMotion) (past : List SpinCallback)
    (r : m.controller.Records past) (t : m.Timely past) :
    ((m.checkWatchdog.1 = true → Silent watchdogTimeoutMs (m.reading 2) (m.seen past 3)) ↔
      ¬(m.Watched ∧ Overtaken watchdogTimeoutMs (m.reading 2) (m.seen past 3))) ∧
    ((m.abortFallback.1 = true → Silent 500 (m.reading 4) (m.seen past 5)) ↔
      ¬(m.Draining ∧ Overtaken 500 (m.reading 4) (m.seen past 5))) := by
  rw [RosMotion.checkWatchdog_fst, RosMotion.abortFallback_fst]
  exact ⟨RosMotion.silent_iff r t, RosMotion.silent_iff r t⟩

def staleMotion : RosMotion where
  controller := { lastSubmittedSeq := 1, lastStatusTime := 10 }
  clock      := 6000

def overtakenMotion : RosMotion where
  controller := { lastSubmittedSeq := 1, lastStatusTime := 10 }
  clock      := 10
  schedule   := [{ now := 10 }, { now := 10 },
    { callbacks := [.motionStatus true 0 0 11], now := 11 }]

theorem staleMotion_timely : staleMotion.Timely [.motionStatus true 0 0 10] where
  stamps   := by decide
  readings := by decide
  stored   := nofun
  past     := by decide

theorem overtakenMotion_timely : overtakenMotion.Timely [.motionStatus true 0 0 10] where
  stamps   := by decide
  readings := by decide
  stored   := by decide
  past     := by decide

theorem silence_iff_not_overtaken_stale : staleMotion.checkWatchdog.1 = true ∧
    Silent watchdogTimeoutMs (staleMotion.reading 2)
      (staleMotion.seen [.motionStatus true 0 0 10] 3) :=
  ⟨by decide, (silence_iff_not_overtaken staleMotion _ ⟨rfl, rfl⟩ staleMotion_timely).left.mpr
    (by decide) (by decide)⟩

theorem silence_fails : ¬∀ (m : RosMotion) past, m.controller.Records past → m.Timely past →
    m.checkWatchdog.1 = true → Silent watchdogTimeoutMs (m.reading 2) (m.seen past 3) := by
  intro hc
  have h := hc overtakenMotion _ ⟨rfl, rfl⟩ overtakenMotion_timely (by decide)
  exact absurd h (by decide)

end Firmware
