/-!
# Byte arrays

Reading, writing, cutting and extending byte arrays, with zeros for what was never written.

* `Bytes.get?` reads a byte, if the array has it.
* `Bytes.put` writes a byte, extending the array with zeros up to it.
* `Bytes.resize` cuts an array or extends it with zeros.

`Bytes.get?` is the view of an array: `get?_set`, `get?_put`, `get?_resize` and `get?_extract` say
what each operation does to it.
-/

namespace DotMatrix.Bytes

/-- Arrays are compared byte by byte. -/
instance instDecidableEq : DecidableEq ByteArray := ByteArray.instDecidableEq

/-- An array of zeros. -/
def zeros (n : Nat) : ByteArray := ⟨Array.replicate n 0⟩

/-- The byte at a position, if there is one. -/
def get? (b : ByteArray) (i : Nat) : Option UInt8 :=
  if h : i < b.size then some (b.get i h) else none

/-- Replace the byte at a position, if there is one. -/
def set (b : ByteArray) (i : Nat) (v : UInt8) : ByteArray :=
  if h : i < b.size then b.set i v h else b

/-- Write a byte, with zeros between the end of the array and the byte. -/
def put (b : ByteArray) (i : Nat) (v : UInt8) : ByteArray :=
  if h : i < b.size then b.set i v h else (b ++ zeros (i - b.size)).push v

/-- The first `n` bytes, or all bytes and zeros up to `n`. -/
def resize (b : ByteArray) (n : Nat) : ByteArray :=
  if n ≤ b.size then b.extract 0 n else b ++ zeros (n - b.size)

@[simp] theorem size_zeros (n : Nat) : (zeros n).size = n := by
  simp [zeros, ByteArray.size]

theorem get?_eq_getElem? (b : ByteArray) (i : Nat) : get? b i = b.data[i]? := by
  by_cases h : i < b.size
  · rw [get?, dif_pos h]
    exact (Array.getElem?_eq_getElem h).symm
  · rw [get?, dif_neg h]
    exact (Array.getElem?_eq_none (Nat.le_of_not_lt h)).symm

theorem get?_eq_none_iff (b : ByteArray) (i : Nat) : get? b i = none ↔ b.size ≤ i := by
  rw [get?_eq_getElem?, Array.getElem?_eq_none_iff, ByteArray.size_data]

theorem exists_get? {b : ByteArray} {i : Nat} (h : i < b.size) : ∃ v, get? b i = some v :=
  ⟨_, dif_pos h⟩

theorem lt_size_of_get? {b : ByteArray} {i : Nat} {v : UInt8} (h : get? b i = some v) :
    i < b.size := by
  rw [← Nat.not_le, ← get?_eq_none_iff, h]
  nofun

/-- The view of an array determines it. -/
theorem ext_get? {a b : ByteArray} (h : ∀ i, get? a i = get? b i) : a = b := by
  refine ByteArray.ext (Array.ext_getElem? fun i => ?_)
  rw [← get?_eq_getElem?, ← get?_eq_getElem?, h]

theorem get?_zeros (n i : Nat) : get? (zeros n) i = if i < n then some 0 else none := by
  rw [get?_eq_getElem?]
  exact Array.getElem?_replicate

/-- A piece of an array has the bytes of the array, counted from the start of the piece. -/
theorem get?_extract (b : ByteArray) (i n j : Nat) :
    get? (b.extract i n) j = if i + j < n then get? b (i + j) else none := by
  have hs : b.data.size = b.size := ByteArray.size_data
  rw [get?_eq_getElem?, get?_eq_getElem?, ByteArray.data_extract, Array.getElem?_extract]
  by_cases h : j < min n b.data.size - i
  · rw [if_pos h, if_pos (by omega)]
  · rw [if_neg h]
    by_cases hn : i + j < n
    · rw [if_pos hn, Array.getElem?_eq_none (by omega)]
    · rw [if_neg hn]

@[simp] theorem size_set (b : ByteArray) (i : Nat) (v : UInt8) : (set b i v).size = b.size := by
  unfold set
  split
  · cases b
    simp [ByteArray.set, ByteArray.size]
  · rfl

theorem get?_set (b : ByteArray) (i j : Nat) (v : UInt8) :
    get? (set b i v) j = if i = j ∧ j < b.size then some v else get? b j := by
  simp only [get?_eq_getElem?]
  unfold set
  split
  · next h =>
    have hd : (b.set i v h).data = b.data.set i v h := by
      cases b
      rfl
    rw [hd, Array.getElem?_set]
    by_cases hij : i = j
    · subst hij
      simp [h]
    · simp [hij]
  · next h =>
    rw [if_neg]
    rintro ⟨rfl, hj⟩
    exact h hj

/-- A written byte is read back; the bytes before it that were not there are zeros. -/
theorem get?_put (b : ByteArray) (i j : Nat) (v : UInt8) :
    get? (put b i v) j =
      if i = j then some v
      else if b.size ≤ j ∧ j < i then some 0
      else get? b j := by
  by_cases h : i < b.size
  · have hp : put b i v = set b i v := by
      simp [put, set, h]
    rw [hp, get?_set]
    by_cases hij : i = j
    · subst hij
      simp [h]
    · have hn : ¬ (b.size ≤ j ∧ j < i) := by omega
      simp [hij, hn]
  · have hd : (put b i v).data = (b.data ++ Array.replicate (i - b.size) 0).push v := by
      simp [put, h, zeros]
    have hs : b.data.size = b.size := ByteArray.size_data
    rw [get?_eq_getElem?, get?_eq_getElem?, hd, Array.getElem?_push, Array.getElem?_append,
      Array.getElem?_replicate, Array.size_append, Array.size_replicate, hs]
    have he : b.size + (i - b.size) = i := by omega
    rw [he]
    by_cases hij : i = j
    · simp [hij]
    · have hji : ¬ j = i := fun e => hij e.symm
      rw [if_neg hji, if_neg hij]
      by_cases hj : j < b.size
      · rw [if_pos hj, if_neg (by omega)]
      · by_cases hi : j < i
        · rw [if_neg hj, if_pos (by omega), if_pos (by omega)]
        · rw [if_neg hj, if_neg (by omega), if_neg (by omega),
            Array.getElem?_eq_none (by omega)]

@[simp] theorem size_resize (b : ByteArray) (n : Nat) : (resize b n).size = n := by
  unfold resize
  split
  · next h => simp [ByteArray.size_extract, h]
  · next h =>
    rw [ByteArray.size_append, size_zeros]
    omega

@[simp] theorem resize_empty (n : Nat) : resize .empty n = zeros n := by
  unfold resize
  split
  · next h =>
    obtain rfl : n = 0 := Nat.le_zero.1 h
    rfl
  · exact ByteArray.empty_append

theorem get?_resize (b : ByteArray) (n j : Nat) :
    get? (resize b n) j =
      if n ≤ j then none
      else if b.size ≤ j then some 0
      else get? b j := by
  have hs : b.data.size = b.size := ByteArray.size_data
  by_cases hj : n ≤ j
  · rw [if_pos hj, get?_eq_none_iff, size_resize]
    exact hj
  · rw [if_neg hj, get?_eq_getElem?, get?_eq_getElem?]
    unfold resize
    split
    · rw [if_neg (by omega), ByteArray.data_extract, Array.getElem?_extract,
        if_pos (by omega), Nat.zero_add]
    · have hd : (b ++ zeros (n - b.size)).data = b.data ++ Array.replicate (n - b.size) 0 := by
        simp [zeros]
      rw [hd, Array.getElem?_append, Array.getElem?_replicate, hs]
      by_cases hb : b.size ≤ j
      · rw [if_neg (by omega), if_pos (by omega), if_pos hb]
      · rw [if_pos (by omega), if_neg hb]

end DotMatrix.Bytes
