import Mathlib.Data.Nat.Digits.Lemmas

structure Layout (α : Type*) where
  size         : Nat
  bytes        : α → List UInt8
  read         : List UInt8 → α
  bytes_length : ∀ a, (bytes a).length = size
  read_bytes   : ∀ a rest, read (bytes a ++ rest) = a

namespace Layout

variable {α β : Type*} {l : Layout α} {m : Layout β} {bs : List UInt8}

attribute [simp] bytes_length read_bytes

-- The digits of a number that takes `k` bytes, lowest first.
def digits (k n : Nat) : List UInt8 :=
  (Nat.digitsAppend 256 k n).map UInt8.ofNat

def ofDigits (bs : List UInt8) : Nat :=
  Nat.ofDigits 256 (bs.map UInt8.toNat)

theorem digits_length (h : n < 256 ^ k) : (digits k n).length = k := by
  rw [digits, List.length_map, Nat.length_digitsAppend (by decide) k h]

theorem ofDigits_digits (h : n < 256 ^ k) : ofDigits (digits k n) = n := by
  have hd : ∀ d ∈ Nat.digitsAppend 256 k n, (UInt8.toNat ∘ UInt8.ofNat) d = d :=
    fun d hd => UInt8.toNat_ofNat_of_lt' (Nat.lt_of_mem_digitsAppend (by decide) k d hd)
  rw [ofDigits, digits, List.map_map, List.map_congr_left hd, List.map_id']
  exact (Nat.setInvOn_digitsAppend_ofDigits (by decide) k).right h

theorem ofDigits_lt : ofDigits bs < 256 ^ bs.length := by
  have h := Nat.ofDigits_lt_base_pow_length (b := 256) (l := bs.map UInt8.toNat) (by decide) ?_
  case refine_1 =>
    intro d hd
    obtain ⟨b, -, rfl⟩ := List.mem_map.mp hd
    exact b.toNat_lt
  rwa [List.length_map] at h

theorem digits_ofDigits (h : bs.length = k) : digits k (ofDigits bs) = bs := by
  have hb : bs.map UInt8.toNat ∈ {L : List Nat | L.length = k ∧ ∀ x ∈ L, x < 256} := by
    refine ⟨by simpa using h, fun d hd => ?_⟩
    obtain ⟨b, -, rfl⟩ := List.mem_map.mp hd
    exact b.toNat_lt
  rw [digits, ofDigits, (Nat.setInvOn_digitsAppend_ofDigits (by decide) k).left hb, List.map_map]
  simp [Function.comp_def]

-- A type whose values are the numbers of `k` bytes.
def number (k : Nat) (toNat : α → Nat) (ofNat : Nat → α) (hn : ∀ a, toNat a < 256 ^ k)
    (ha : ∀ a, ofNat (toNat a) = a) : Layout α where
  size             := k
  bytes a          := digits k (toNat a)
  read bs          := ofNat (ofDigits (bs.take k))
  bytes_length a   := digits_length (hn a)
  read_bytes a _   := by rw [List.take_left' (digits_length (hn a)), ofDigits_digits (hn a), ha]

def pair (l : Layout α) (m : Layout β) : Layout (α × β) where
  size             := l.size + m.size
  bytes p          := l.bytes p.1 ++ m.bytes p.2
  read bs          := (l.read bs, m.read (bs.drop l.size))
  bytes_length p   := by simp
  read_bytes p _   := by simp [List.drop_left' (l.bytes_length p.1)]

def map (l : Layout α) (f : α → β) (g : β → α) (h : ∀ b, f (g b) = b) : Layout β where
  size             := l.size
  bytes b          := l.bytes (g b)
  read bs          := f (l.read bs)
  bytes_length b   := l.bytes_length (g b)
  read_bytes b _   := by rw [l.read_bytes, h]

-- Every string of the right size stands for a value.
structure Exact (l : Layout α) : Prop where
  bytes_read : ∀ bs, bs.length = l.size → l.bytes (l.read bs) = bs

namespace Exact

theorem read_take (e : l.Exact) (h : l.size ≤ bs.length) : l.read (bs.take l.size) = l.read bs := by
  have hb := e.bytes_read (bs.take l.size) (by simpa using h)
  calc l.read (bs.take l.size)
      = l.read (l.bytes (l.read (bs.take l.size)) ++ bs.drop l.size) := (l.read_bytes _ _).symm
    _ = l.read bs := by rw [hb, List.take_append_drop]

theorem bytes_read_of_le (e : l.Exact) (h : l.size ≤ bs.length) :
    l.bytes (l.read bs) = bs.take l.size := by
  rw [← e.read_take h]
  exact e.bytes_read _ (by simpa using h)

theorem number {toNat : α → Nat} {ofNat : Nat → α} {hn : ∀ a, toNat a < 256 ^ k}
    {ha : ∀ a, ofNat (toNat a) = a} (h : ∀ n < 256 ^ k, toNat (ofNat n) = n) :
    (number k toNat ofNat hn ha).Exact where
  bytes_read bs hl := by
    change bs.length = k at hl
    have ht : bs.take k = bs := List.take_of_length_le hl.le
    simp only [Layout.number, ht]
    rw [h _ (hl ▸ ofDigits_lt), digits_ofDigits hl]

theorem pair (e : l.Exact) (e' : m.Exact) : (l.pair m).Exact where
  bytes_read bs hl := by
    change bs.length = l.size + m.size at hl
    have hd : (bs.drop l.size).length = m.size := by simp [hl]
    simp only [Layout.pair]
    rw [e.bytes_read_of_le (by omega), e'.bytes_read _ hd, List.take_append_drop]

theorem map {f : α → β} {g : β → α} {h : ∀ b, f (g b) = b} (e : l.Exact) (hg : ∀ a, g (f a) = a) :
    (l.map f g h).Exact where
  bytes_read bs hl := by
    simp only [Layout.map, hg]
    exact e.bytes_read bs hl

end Exact

def uint8 : Layout UInt8 :=
  number 1 UInt8.toNat UInt8.ofNat UInt8.toNat_lt fun _ => UInt8.ofNat_toNat

def uint16 : Layout UInt16 :=
  number 2 UInt16.toNat UInt16.ofNat UInt16.toNat_lt fun _ => UInt16.ofNat_toNat

def uint32 : Layout UInt32 :=
  number 4 UInt32.toNat UInt32.ofNat UInt32.toNat_lt fun _ => UInt32.ofNat_toNat

def uint64 : Layout UInt64 :=
  number 8 UInt64.toNat UInt64.ofNat UInt64.toNat_lt fun _ => UInt64.ofNat_toNat

def bool : Layout Bool :=
  uint8.map (· != 0) (if · then 1 else 0) (by decide)

theorem uint32_exact : uint32.Exact :=
  .number fun _ h => UInt32.toNat_ofNat_of_lt' h

theorem uint64_exact : uint64.Exact :=
  .number fun _ h => UInt64.toNat_ofNat_of_lt' h

-- The bytes of an array, and the first `n` elements of one.
def array (l : Layout α) (as : List α) : List UInt8 :=
  as.flatMap l.bytes

def readArray (l : Layout α) : Nat → List UInt8 → List α
  | 0, _      => []
  | n + 1, bs => l.read bs :: l.readArray n (bs.drop l.size)

theorem array_length (as : List α) : (l.array as).length = l.size * as.length := by
  simp [array, List.map_const', Nat.mul_comm]

@[simp]
theorem readArray_length : (l.readArray n bs).length = n := by
  induction n generalizing bs <;> simp [readArray, *]

theorem readArray_getElem? (h : k < n) :
    (l.readArray n bs)[k]? = some (l.read (bs.drop (l.size * k))) := by
  induction n generalizing bs k
  case zero => exact absurd h (Nat.not_lt_zero k)
  case succ n ih =>
    cases k
    case zero   => rfl
    case succ k =>
      rw [readArray, List.getElem?_cons_succ, ih (Nat.lt_of_succ_lt_succ h), List.drop_drop,
        Nat.mul_succ, Nat.add_comm]

theorem readArray_array (as : List α) (rest : List UInt8) :
    l.readArray as.length (l.array as ++ rest) = as := by
  induction as
  case nil => rfl
  case cons a as ih =>
    rw [array, List.flatMap_cons, List.append_assoc, List.length_cons, readArray, l.read_bytes,
      List.drop_left' (l.bytes_length a)]
    exact congrArg (a :: ·) ih

theorem array_readArray (e : l.Exact) (h : l.size * n ≤ bs.length) :
    l.array (l.readArray n bs) = bs.take (l.size * n) := by
  induction n generalizing bs
  case zero => simp [readArray, array]
  case succ n ih =>
    rw [Nat.mul_succ] at h
    have hd : l.size * n ≤ (bs.drop l.size).length := by
      rw [List.length_drop]
      omega
    have ih := ih hd
    rw [readArray, array, List.flatMap_cons, e.bytes_read_of_le (by omega), Nat.mul_succ,
      Nat.add_comm, List.take_add]
    exact congrArg (_ ++ ·) ih

end Layout
