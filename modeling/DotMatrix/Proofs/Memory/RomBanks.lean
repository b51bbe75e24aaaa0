import DotMatrix.Proofs.Disk.Lookup
import DotMatrix.Proofs.Memory.Checked

/-!
# Cutting data into ROM banks

The switchable ROM is filled from one stretch of data. Both ends of the piece for a bank are kept
inside the data, and the piece goes to the front of a bank of zeros.

* `SliceError` is what would break such a copy off. `Bytes.slice` and `Bytes.overwrite` take and
  replace a piece of an array, and look at its ends.
* `MemoryMap.cutBanks` makes the banks by these. None of its pieces is out of range, and its banks
  are those of `MemoryMap.loadSwitchRom` (`cutBanks_eq`).
* `Window.joined` is the banks of a window, one behind the other. `MemoryMap.loadSwitchRom_cuts`
  says that they are the data, cut or filled up with zeros.
-/

namespace DotMatrix

/-- What breaks a copy off. -/
inductive SliceError
  /-- A piece that ends before it starts. -/
  | reversed (start stop : Nat)
  /-- A piece that goes past the end of the array. -/
  | pastEnd (stop size : Nat)
  /-- A piece that is copied over one of another size. -/
  | unequal (target source : Nat)
  deriving DecidableEq, Repr

namespace Bytes

/-- The piece of an array from one position up to another. -/
def slice (b : ByteArray) (start stop : Nat) : Except SliceError ByteArray :=
  if stop < start then .error (.reversed start stop)
  else if b.size < stop then .error (.pastEnd stop b.size)
  else .ok (b.extract start stop)

/-- Replace the first `n` bytes of an array by a piece of that size. -/
def overwrite (b : ByteArray) (n : Nat) (piece : ByteArray) : Except SliceError ByteArray := do
  let front ← slice b 0 n
  if front.size = piece.size then .ok (piece ++ b.extract n b.size)
  else .error (.unequal front.size piece.size)

theorem slice_of_le {b : ByteArray} {start stop : Nat} (h : start ≤ stop) (h' : stop ≤ b.size) :
    slice b start stop = .ok (b.extract start stop) := by
  rw [slice, if_neg (Nat.not_lt.2 h), if_neg (Nat.not_lt.2 h')]

/-- A piece is the same when both its ends are kept inside the array. -/
theorem extract_clamped (b : ByteArray) (i n : Nat) :
    b.extract (min i b.size) (min (min i b.size + n) b.size) = b.extract i (i + n) := by
  refine ext_get? fun j => ?_
  rw [get?_extract, get?_extract]
  by_cases hj : i + j < b.size
  · rw [Nat.min_eq_left (show i ≤ b.size by omega)]
    by_cases hn : j < n
    · rw [if_pos (by omega), if_pos (by omega)]
    · rw [if_neg (by omega), if_neg (by omega)]
  · rw [if_neg (by omega), (get?_eq_none_iff _ _).2 (Nat.le_of_not_lt hj), ite_self]

theorem get?_append (b c : ByteArray) (i : Nat) :
    get? (b ++ c) i = if i < b.size then get? b i else get? c (i - b.size) := by
  have hs : b.data.size = b.size := ByteArray.size_data
  rw [get?_eq_getElem?, get?_eq_getElem?, get?_eq_getElem?, ByteArray.data_append,
    Array.getElem?_append, hs]

/-- An array that is cut or extended has all bytes up to its new size. -/
theorem get?_resize_eq_getD (b : ByteArray) (n i : Nat) :
    get? (resize b n) i = if i < n then some ((get? b i).getD 0) else none := by
  rw [get?_resize]
  by_cases hn : i < n
  · rw [if_neg (Nat.not_le.2 hn), if_pos hn]
    by_cases hi : i < b.size
    · obtain ⟨v, hv⟩ := exists_get? hi
      rw [if_neg (Nat.not_le.2 hi), hv, Option.getD_some]
    · rw [if_pos (Nat.le_of_not_lt hi), (get?_eq_none_iff _ _).2 (Nat.le_of_not_lt hi),
        Option.getD_none]
  · rw [if_pos (Nat.le_of_not_lt hn), if_neg hn]

/-- An array that is copied over zeros is filled up with them. -/
theorem overwrite_zeros {piece : ByteArray} {n : Nat} (h : piece.size ≤ n) :
    overwrite (zeros n) piece.size piece = .ok (resize piece n) := by
  have hfront : ((zeros n).extract 0 piece.size).size = piece.size := by
    rw [ByteArray.size_extract, size_zeros]
    omega
  have hbytes : piece ++ (zeros n).extract piece.size (zeros n).size = resize piece n := by
    refine ext_get? fun i => ?_
    rw [get?_append, get?_extract, get?_zeros, size_zeros, get?_resize]
    by_cases hi : i < piece.size
    · rw [if_pos hi, if_neg (by omega), if_neg (by omega)]
    · rw [if_neg hi, Nat.add_sub_cancel' (Nat.le_of_not_lt hi)]
      by_cases hn : i < n
      · rw [if_pos hn, if_pos hn, if_neg (by omega), if_pos (by omega)]
      · rw [if_neg hn, if_pos (by omega)]
  have hle : piece.size ≤ (zeros n).size := by rwa [size_zeros]
  refine bind_eq_ok.2 ⟨_, slice_of_le (Nat.zero_le _) hle, ?_⟩
  rw [if_pos hfront, hbytes]

end Bytes

/-- The banks of a window, one behind the other. -/
def Window.joined (w : Window) : ByteArray :=
  (w.banks.toList.map Bank.data).foldl (· ++ ·) .empty

namespace MemoryMap

theorem get?_data_romBank (data : ByteArray) (n o : Nat) :
    Bytes.get? (romBank data n).data o =
      if o < 0x4000 then some ((Bytes.get? data (n * 0x4000 + o)).getD 0) else none :=
  get?_romBank data n o

theorem size_romBank (data : ByteArray) (n : Nat) : (romBank data n).size = 0x4000 := by
  rw [Bank.size, romBank, Bytes.size_resize]

/-- A bank of ROM is not locked. -/
theorem mk_data_romBank (data : ByteArray) (n : Nat) :
    ({ data := (romBank data n).data } : Bank) = romBank data n := by
  rw [romBank]

/-- Cut the bank of a number out of data, piece by piece. -/
def cutBank (data : ByteArray) (n : Nat) : Except SliceError Bank := do
  let start := min (n * 0x4000) data.size
  let stop := min (start + 0x4000) data.size
  let piece ← Bytes.slice data start stop
  let bytes ← Bytes.overwrite (Bytes.zeros 0x4000) (stop - start) piece
  return { data := bytes }

/-- Cut the first `count` banks out of data, one after the other. -/
def cutBanks (data : ByteArray) (count : Nat) : Except SliceError (Array Bank) :=
  (Array.range count).mapM (cutBank data)

/-- No piece of a bank is out of range, wherever the bank lies. -/
theorem cutBank_eq (data : ByteArray) (n : Nat) : cutBank data n = .ok (romBank data n) := by
  have hpiece := Bytes.extract_clamped data (n * 0x4000) 0x4000
  obtain ⟨start, hstart⟩ : ∃ start, start = min (n * 0x4000) data.size := ⟨_, rfl⟩
  obtain ⟨stop, hstop⟩ : ∃ stop, stop = min (start + 0x4000) data.size := ⟨_, rfl⟩
  rw [← hstart, ← hstop, ← Nat.add_one_mul] at hpiece
  have hsize : (data.extract start stop).size = stop - start := by
    rw [ByteArray.size_extract]
    omega
  have hcopy := Bytes.overwrite_zeros (show (data.extract start stop).size ≤ 0x4000 by omega)
  rw [hsize, hpiece] at hcopy
  rw [cutBank, ← hstart, ← hstop, Bytes.slice_of_le (by omega) (by omega), hpiece]
  refine bind_eq_ok.2 ⟨_, rfl, bind_eq_ok.2 ⟨_, hcopy, ?_⟩⟩
  rw [romBank]
  rfl

/-- No copy is broken off, and the banks are those that are loaded. -/
theorem cutBanks_eq (data : ByteArray) (count : Nat) :
    cutBanks data count = .ok ((Array.range count).map (romBank data)) := by
  have hcut : cutBank data = fun n => pure (romBank data n) := funext (cutBank_eq data)
  rw [cutBanks, hcut]
  exact Array.mapM_pure

/-- A bank goes on where the banks before it end. -/
theorem resize_append_romBank (data : ByteArray) (n : Nat) :
    Bytes.resize data (n * 0x4000) ++ (romBank data n).data =
      Bytes.resize data ((n + 1) * 0x4000) := by
  refine Bytes.ext_get? fun i => ?_
  rw [Bytes.get?_append, Bytes.size_resize, get?_data_romBank, Bytes.get?_resize_eq_getD,
    Bytes.get?_resize_eq_getD]
  by_cases hi : i < n * 0x4000
  · have hn : i < (n + 1) * 0x4000 :=
      Nat.lt_of_lt_of_le hi (Nat.mul_le_mul_right _ n.le_succ)
    rw [if_pos hi, if_pos hi, if_pos hn]
  · have hle : n * 0x4000 ≤ i := by omega
    rw [if_neg hi, Nat.add_sub_cancel' hle]
    by_cases hn : i < (n + 1) * 0x4000
    · rw [if_pos (by omega), if_pos hn]
    · rw [if_neg (by omega), if_neg hn]

/-- The banks one behind the other are the data, cut or filled up with zeros. -/
theorem joined_loadSwitchRom (m : MemoryMap) (data : ByteArray) (count : Nat) :
    (m.loadSwitchRom data count).switchRom.joined = Bytes.resize data (count * 0x4000) := by
  have hbanks : (m.loadSwitchRom data count).switchRom.joined =
      (((List.range count).map (romBank data)).map Bank.data).foldl (· ++ ·) .empty := by
    simp [Window.joined, loadSwitchRom]
  rw [hbanks]
  clear hbanks
  induction count with
  | zero =>
    refine Bytes.ext_get? fun i => ?_
    rw [Nat.zero_mul, Bytes.get?_resize, if_pos (Nat.zero_le i)]
    rfl
  | succ count ih =>
    rw [List.range_succ, List.map_append, List.map_append, List.foldl_append, ih]
    simp only [List.map_cons, List.map_nil, List.foldl_cons, List.foldl_nil]
    exact resize_append_romBank data count

theorem get?_loadSwitchRom (m : MemoryMap) (data : ByteArray) (count n o : Nat) :
    (m.loadSwitchRom data count).switchRom.get? n o =
      if n < count ∧ o < 0x4000 then some ((Bytes.get? data (n * 0x4000 + o)).getD 0)
      else none := by
  by_cases hn : n < count
  · have hbank : (m.loadSwitchRom data count).switchRom.banks[n]? = some (romBank data n) := by
      simp [loadSwitchRom, hn]
    rw [Window.get?_of_bank hbank, get?_romBank]
    simp only [hn, true_and]
  · simp [Window.get?, loadSwitchRom, hn]

theorem sizes_loadSwitchRom (m : MemoryMap) (data : ByteArray) (count : Nat) :
    (m.loadSwitchRom data count).switchRom.sizes = List.replicate count 0x4000 := by
  refine List.eq_replicate_iff.2 ⟨by simp [Window.sizes, loadSwitchRom], fun size hs => ?_⟩
  simp only [Window.sizes, loadSwitchRom, Array.toList_map, List.map_map, List.mem_map] at hs
  obtain ⟨n, -, rfl⟩ := hs
  rw [Function.comp_apply, size_romBank]

/-- A bank among the first `count` has no byte past them. -/
theorem romBank_extract {count n : Nat} (h : n < count) (data : ByteArray) :
    romBank (data.extract 0 (count * 0x4000)) n = romBank data n := by
  have hbytes : (romBank (data.extract 0 (count * 0x4000)) n).data = (romBank data n).data := by
    refine Bytes.ext_get? fun o => ?_
    rw [get?_data_romBank, get?_data_romBank, Bytes.get?_extract, Nat.zero_add]
    by_cases ho : o < 0x4000
    · rw [if_pos (show n * 0x4000 + o < count * 0x4000 by omega)]
    · rw [if_neg ho, if_neg ho]
  rw [← mk_data_romBank, hbytes, mk_data_romBank]

theorem loadSwitchRom_extract (m : MemoryMap) (data : ByteArray) (count : Nat) :
    m.loadSwitchRom (data.extract 0 (count * 0x4000)) count = m.loadSwitchRom data count := by
  have hbanks : (Array.range count).map (romBank (data.extract 0 (count * 0x4000))) =
      (Array.range count).map (romBank data) :=
    Array.map_congr_left fun n hn => romBank_extract (Array.mem_range.1 hn) data
  rw [loadSwitchRom, hbanks]
  rfl

/-- Loading cuts data into banks without loss or overlap. Whatever the length of the data and the
number of banks, no piece is out of range. There are as many banks as asked for, each of 0x4000
bytes, and byte `o` of bank `n` is the byte of the data at `n * 0x4000 + o`, or zero past its end.
One behind the other, the banks are the data, cut or filled up with zeros; what is cut off has no
effect. -/
theorem loadSwitchRom_cuts (m : MemoryMap) (data : ByteArray) (count : Nat) :
    let w := (m.loadSwitchRom data count).switchRom
    cutBanks data count = .ok w.banks ∧
    w.sizes = List.replicate count 0x4000 ∧
    (∀ n o, w.get? n o =
      if n < count ∧ o < 0x4000 then
        some (if h : n * 0x4000 + o < data.size then data.get (n * 0x4000 + o) h else 0)
      else none) ∧
    w.joined = Bytes.resize data (count * 0x4000) ∧
    m.loadSwitchRom (data.extract 0 (count * 0x4000)) count = m.loadSwitchRom data count := by
  intro w
  refine ⟨cutBanks_eq data count, m.sizes_loadSwitchRom data count, fun n o => ?_,
    m.joined_loadSwitchRom data count, m.loadSwitchRom_extract data count⟩
  have hbyte (i : Nat) :
      (Bytes.get? data i).getD 0 = if h : i < data.size then data.get i h else 0 := by
    by_cases hi : i < data.size
    · rw [Bytes.get?, dif_pos hi, dif_pos hi, Option.getD_some]
    · rw [Bytes.get?, dif_neg hi, dif_neg hi, Option.getD_none]
  rw [m.get?_loadSwitchRom, hbyte]

end MemoryMap

end DotMatrix
