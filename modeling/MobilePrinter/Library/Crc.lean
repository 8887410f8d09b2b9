import Mathlib.Data.List.GetD
import Mathlib.Logic.Function.Iterate
import Mathlib.Tactic.Basic

namespace Crc

variable {w : Nat} {poly x y : BitVec w} {bs bs' : List UInt8}

def shift (poly x : BitVec w) : BitVec w :=
  if x.getLsbD 0 then (x >>> 1) ^^^ poly else x >>> 1

def feed (poly x : BitVec w) (b : UInt8) : BitVec w :=
  (shift poly)^[8] (x ^^^ b.toBitVec.setWidth w)

def feedBit (poly x : BitVec w) (t : Bool) : BitVec w :=
  shift poly (x ^^^ (BitVec.ofBool t).setWidth w)

-- The bits of a message in the order in which they are shifted out.
def bits (bs : List UInt8) : List Bool :=
  bs.flatMap fun b => (List.range 8).map b.toBitVec.getLsbD

-- Bits as one word, with the first of them at the low end.
def word : List Bool → BitVec w
  | []      => 0
  | t :: ts => (BitVec.ofBool t).setWidth w ^^^ (word ts <<< 1)

-- The messages differ, but only in bits that lie within `n` positions of each other.
structure Burst (n : Nat) (bs bs' : List UInt8) : Prop where
  length : bs.length = bs'.length
  differ : bs ≠ bs'
  within : ∃ start, ∀ k, (bits bs)[k]? ≠ (bits bs')[k]? → start ≤ k ∧ k < start + n

theorem shift_xor : shift poly (x ^^^ y) = shift poly x ^^^ shift poly y := by
  have hp (a b : BitVec w) : a ^^^ poly ^^^ (b ^^^ poly) = a ^^^ b := by
    rw [BitVec.xor_comm b, ← BitVec.xor_assoc, BitVec.xor_assoc a, BitVec.xor_self,
      BitVec.xor_zero]
  simp only [shift, BitVec.getLsbD_xor, BitVec.ushiftRight_xor_distrib]
  cases x.getLsbD 0 <;> cases y.getLsbD 0
  case true.true => exact (hp _ _).symm
  all_goals
    simp only [bne_self_eq_false, Bool.bne_false, Bool.bne_true, Bool.not_false, if_true, if_false,
      Bool.false_eq_true]
    try ac_rfl

theorem shift_injective (hp : poly.msb = true) : Function.Injective (shift poly) := by
  intro x y h
  have hm (z : BitVec w) : (shift poly z).msb = z.getLsbD 0 := by
    simp only [shift]
    split <;> simp_all
  have hl : x.getLsbD 0 = y.getLsbD 0 := by rw [← hm x, ← hm y, h]
  have hr : x >>> 1 = y >>> 1 := by
    simp only [shift, hl] at h
    split at h
    · exact (BitVec.xor_left_inj poly).mp h
    · exact h
  have hb (i : Nat) : x.getLsbD i = y.getLsbD i := by
    cases i
    case zero   => exact hl
    case succ i => simpa [Nat.add_comm] using congrArg (BitVec.getLsbD · i) hr
  exact BitVec.eq_of_getLsbD_eq fun i _ => hb i

section Bits

theorem bits_cons : bits (b :: bs) = bits [b] ++ bits bs := by
  simp [bits]

theorem bits_append : bits (bs ++ bs') = bits bs ++ bits bs' :=
  List.flatMap_append

theorem bits_length : (bits bs).length = 8 * bs.length := by
  simp [bits, List.map_const', Nat.mul_comm]

theorem getD_bits (i : Nat) : (bits [b]).getD i false = b.toBitVec.getLsbD i := by
  by_cases hi : i < 8
  case pos => simp [bits, hi]
  case neg => simp [bits, hi, BitVec.getLsbD_of_ge _ _ (Nat.le_of_not_lt hi)]

theorem bits_inj (h : bits bs = bits bs') : bs = bs' := by
  have hl : bs.length = bs'.length := by
    have hl := congrArg List.length h
    rw [bits_length, bits_length] at hl
    omega
  induction bs generalizing bs'
  case nil => exact (List.eq_nil_of_length_eq_zero hl.symm).symm
  case cons b bs ih =>
    cases bs'
    case nil => cases hl
    case cons b' bs' =>
      rw [bits_cons, bits_cons (b := b')] at h
      have ⟨hb, hs⟩ := List.append_inj h (by rw [bits_length, bits_length]; rfl)
      have hb : b = b' := by
        refine UInt8.toBitVec_inj.mp (BitVec.eq_of_getLsbD_eq fun i _ => ?_)
        rw [← getD_bits, ← getD_bits, hb]
      rw [hb, ih hs (Nat.succ.inj hl)]

end Bits

section Words

variable {ts ts' : List Bool}

theorem getLsbD_word : (word ts : BitVec w).getLsbD i = (decide (i < w) && ts.getD i false) := by
  induction ts generalizing i
  case nil => simp [word]
  case cons t ts ih =>
    cases i
    case zero => simp [word]
    case succ i =>
      have ht : (BitVec.ofBool t).getLsbD (i + 1) = false := BitVec.getLsbD_of_ge _ _ (by omega)
      rw [word, BitVec.getLsbD_xor, BitVec.getLsbD_setWidth, BitVec.getLsbD_shiftLeft, ht,
        Nat.add_sub_cancel, ih]
      by_cases hi : i + 1 < w
      case pos => simp [-BitVec.getLsbD_eq_getElem, hi, Nat.lt_of_succ_lt hi]
      case neg => simp [hi]

theorem word_inj (h : ts.length ≤ w) (hl : ts.length = ts'.length)
    (he : (word ts : BitVec w) = word ts') : ts = ts' := by
  refine List.ext_getElem hl fun i hi hi' => ?_
  have hw : i < w := Nat.lt_of_lt_of_le hi h
  have hb := congrArg (BitVec.getLsbD · i) he
  simp only [getLsbD_word, decide_eq_true hw, Bool.true_and] at hb
  rwa [List.getD_eq_getElem _ _ hi, List.getD_eq_getElem _ _ hi'] at hb

theorem word_bits : (word (bits [b]) : BitVec w) = b.toBitVec.setWidth w := by
  refine BitVec.eq_of_getLsbD_eq fun i _ => ?_
  rw [getLsbD_word, getD_bits, BitVec.getLsbD_setWidth]

theorem shift_word (h : ts.length + 1 ≤ w) : shift poly (word ts <<< 1) = word ts := by
  have hl : ((word ts : BitVec w) <<< 1).getLsbD 0 = false := by simp
  refine BitVec.eq_of_getLsbD_eq fun i hi => ?_
  rw [shift, hl, if_neg Bool.false_ne_true, BitVec.getLsbD_ushiftRight, BitVec.getLsbD_shiftLeft,
    getLsbD_word, getLsbD_word]
  by_cases hw : 1 + i < w
  case pos => simp [hw, hi]
  case neg =>
    have ht : ts.getD i false = false := List.getD_eq_default _ _ (by omega)
    simp only [ht, hw, decide_false, Bool.false_and, Bool.and_false]

theorem foldl_feedBit (h : ts.length ≤ w) :
    ts.foldl (feedBit poly) x = (shift poly)^[ts.length] (x ^^^ word ts) := by
  induction ts generalizing x
  case nil => simp [word]
  case cons t ts ih =>
    have hs : shift poly (x ^^^ word (t :: ts)) = feedBit poly x t ^^^ word ts := by
      rw [word, ← BitVec.xor_assoc, shift_xor, shift_word h]
      rfl
    rw [List.foldl_cons, ih (Nat.le_of_succ_le h), List.length_cons, Function.iterate_succ_apply,
      hs]

theorem foldl_feed (hw : 8 ≤ w) :
    bs.foldl (feed poly) x = (bits bs).foldl (feedBit poly) x := by
  induction bs generalizing x
  case nil => rfl
  case cons b bs ih =>
    have hb : feed poly x b = (bits [b]).foldl (feedBit poly) x := by
      rw [foldl_feedBit (bits_length ▸ hw), word_bits, bits_length]
      rfl
    rw [List.foldl_cons, ih, hb, ← List.foldl_append, ← bits_cons]

theorem foldl_feedBit_injective (hp : poly.msb = true) :
    Function.Injective fun x => ts.foldl (feedBit poly) x := by
  induction ts
  case nil          => exact Function.injective_id
  case cons t ts ih =>
    exact fun x y h => (BitVec.xor_left_inj _).mp (shift_injective hp (ih h))

end Words

namespace Burst

theorem split (h : Burst n bs bs') : ∃ front ts ts' back, ts.length ≤ n ∧
    ts.length = ts'.length ∧ ts ≠ ts' ∧ bits bs = front ++ ts ++ back ∧
    bits bs' = front ++ ts' ++ back := by
  have ⟨start, hk⟩ := h.within
  have hsame {k : Nat} (ho : ¬(start ≤ k ∧ k < start + n)) : (bits bs)[k]? = (bits bs')[k]? :=
    not_not.mp (ho ∘ hk k)
  have hlen : (bits bs).length = (bits bs').length := by rw [bits_length, bits_length, h.length]
  have hparts (ts : List Bool) :
      ts = ts.take start ++ (ts.drop start).take n ++ ts.drop (start + n) := by
    rw [List.append_assoc, ← List.drop_drop, List.take_append_drop, List.take_append_drop]
  have hf : (bits bs).take start = (bits bs').take start := by
    refine List.ext_getElem? fun k => ?_
    rw [List.getElem?_take, List.getElem?_take]
    split
    case isTrue hs  => exact hsame fun hb => Nat.not_le_of_lt hs hb.1
    case isFalse    => rfl
  have hb : (bits bs).drop (start + n) = (bits bs').drop (start + n) := by
    refine List.ext_getElem? fun k => ?_
    rw [List.getElem?_drop, List.getElem?_drop]
    exact hsame fun hb => Nat.not_lt_of_le (Nat.le_add_right _ k) hb.2
  refine ⟨_, _, ((bits bs').drop start).take n, _, List.length_take_le _ _, ?_, ?_, hparts _, ?_⟩
  case refine_1 => simp only [List.length_take, List.length_drop, hlen]
  case refine_2 =>
    intro hm
    refine h.differ (bits_inj ?_)
    rw [hparts (bits bs), hparts (bits bs'), hf, hb, hm]
  case refine_3 => rw [hf, hb, ← hparts]

-- The check detects every burst that fits into its register.
theorem check_ne (h : Burst w bs bs') (hp : poly.msb = true) (hw : 8 ≤ w) :
    bs.foldl (feed poly) x ≠ bs'.foldl (feed poly) x := by
  obtain ⟨front, ts, ts', back, hn, hl, hne, hb, hb'⟩ := h.split
  intro he
  rw [foldl_feed hw, foldl_feed hw, hb, hb'] at he
  simp only [List.foldl_append] at he
  have he := foldl_feedBit_injective hp he
  rw [foldl_feedBit hn, foldl_feedBit (hl ▸ hn : ts'.length ≤ w), ← hl] at he
  have he := (BitVec.xor_right_inj _).mp ((shift_injective hp).iterate _ he)
  exact hne (word_inj hn hl he)

theorem append (front back : List UInt8) (h : Burst n bs bs') :
    Burst n (front ++ bs ++ back) (front ++ bs' ++ back) where
  length := by simp [h.length]
  differ he := h.differ (List.append_cancel_left (List.append_cancel_right he))
  within := by
    have ⟨start, hk⟩ := h.within
    have hlen : (bits bs).length = (bits bs').length := by rw [bits_length, bits_length, h.length]
    refine ⟨(bits front).length + start, fun k hd => ?_⟩
    simp only [bits_append, List.append_assoc] at hd
    by_cases hf : k < (bits front).length
    case pos =>
      rw [List.getElem?_append_left hf, List.getElem?_append_left hf] at hd
      exact absurd rfl hd
    case neg =>
      have hf := Nat.le_of_not_lt hf
      rw [List.getElem?_append_right hf, List.getElem?_append_right hf] at hd
      by_cases hm : k - (bits front).length < (bits bs).length
      case pos =>
        rw [List.getElem?_append_left hm, List.getElem?_append_left (hlen ▸ hm)] at hd
        have := hk _ hd
        omega
      case neg =>
        have hm := Nat.le_of_not_lt hm
        rw [List.getElem?_append_right hm, List.getElem?_append_right (hlen ▸ hm), hlen] at hd
        exact absurd rfl hd

theorem take (h : Burst n bs bs') (hd : bs.drop k = bs'.drop k) :
    Burst n (bs.take k) (bs'.take k) where
  length := by simp [h.length]
  differ he := by
    refine h.differ ?_
    rw [← List.take_append_drop k bs, he, hd, List.take_append_drop]
  within := by
    have ⟨start, hk⟩ := h.within
    refine ⟨start, fun i hi => hk i fun he => hi ?_⟩
    have hb (bs : List UInt8) : bits bs = bits (bs.take k) ++ bits (bs.drop k) := by
      rw [← bits_append, List.take_append_drop]
    have hl : (bits (bs.take k)).length = (bits (bs'.take k)).length := by
      simp [bits_length, h.length]
    by_cases hlt : i < (bits (bs.take k)).length
    case pos =>
      rw [hb bs, hb bs'] at he
      rwa [List.getElem?_append_left hlt, List.getElem?_append_left (hl ▸ hlt)] at he
    case neg =>
      have hle := Nat.le_of_not_lt hlt
      rw [List.getElem?_eq_none hle, List.getElem?_eq_none (hl ▸ hle)]

theorem of_ne (hl : bs.length = bs'.length) (h : bs ≠ bs') (hn : 8 * bs.length ≤ n) :
    Burst n bs bs' where
  length := hl
  differ := h
  within := by
    refine ⟨0, fun k hd => ⟨Nat.zero_le k, ?_⟩⟩
    by_contra hk
    refine hd ?_
    rw [List.getElem?_eq_none, List.getElem?_eq_none] <;> rw [bits_length] <;> omega

end Burst
end Crc
