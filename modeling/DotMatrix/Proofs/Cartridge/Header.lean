import DotMatrix.Cartridge.Header
import Mathlib.Algebra.BigOperators.Intervals

/-!
# Which headers are accepted

The check byte of a header is a sum of complements. The boot program asks for the same byte in
another way: starting from zero, it subtracts each byte and one.

* `bootValue` is what the boot program has after a number of bytes, and `PassesBootCheck` says that
  it ends in the check byte. `passesBootCheck_iff` says that the sum of complements is the same.
* `passesBootCheck_iff_weight` turns the check into a congruence on the sum of all 26 bytes, the
  check byte among them. A single byte that changes breaks it: `PassesBootCheck.not_set`.
* `Says` is what an accepted header says: its sizes, its controller and its title.
* `ofBytes_accepts` is the law of acceptance: when a header is read, which error it gives otherwise,
  what it says, and which bytes this depends on.
-/

namespace DotMatrix.Header

/-- The byte at an offset, zero past the end. -/
def byteAt (h : HeaderBytes) (i : Nat) : UInt8 := h[i]?.getD 0

/-- What the boot program has after `n` of the bytes from 0x34 on: from zero, each byte takes itself
and one away, modulo 2^8. -/
def bootValue (h : HeaderBytes) : Nat → Int
  | 0 => 0
  | n + 1 => (bootValue h n - (byteAt h (0x34 + n)).toNat - 1) % 256

/-- The boot program ends, after the 25 bytes from 0x34 to 0x4C, in the check byte. -/
def PassesBootCheck (h : HeaderBytes) : Prop := bootValue h 25 = (byteAt h 0x4D).toNat

/-- The sum of the bytes from 0x34 to 0x4D, the check byte among them. -/
def weight (h : HeaderBytes) : Nat := ∑ j ∈ Finset.range 26, (byteAt h (0x34 + j)).toNat

/-- The size codes of external RAM that there are. -/
def ramCodes : List Nat := [0, 2, 3, 4, 5]

/-- The printable ASCII character that a byte is, if it is one. -/
def printable? (b : UInt8) : Option Char :=
  if 0x20 ≤ b.toNat ∧ b.toNat ≤ 0x7E then some (Char.ofNat b.toNat) else none

/-- A text holds the printable characters of the 16 bytes from 0x34 on that stand before the first
NUL, or of all 16 where there is none. -/
def IsTitle (h : HeaderBytes) (title : String) : Prop :=
  ∃ n ≤ 16, (∀ j < n, byteAt h (0x34 + j) ≠ 0) ∧ (n < 16 → byteAt h (0x34 + n) = 0) ∧
    title.toList = (List.range n).filterMap fun j => printable? (byteAt h (0x34 + j))

/-- What the bytes of an accepted header say. -/
structure Says (h : HeaderBytes) (header : Header) : Prop where
  romBanks : header.romBanks = 2 * 2 ^ (byteAt h 0x48).toNat
  ramBanks : ((byteAt h 0x49).toNat, header.ramBanks) ∈ [(0, 0), (2, 1), (3, 4), (4, 16), (5, 8)]
  controller : header.controller = .ofCode (byteAt h 0x47)
  title : IsTitle h header.title
  length_title : header.title.length ≤ 16

/-! ### Bytes -/

theorem byteAt_of_lt (h : HeaderBytes) {i : Nat} (hi : i < 80) : byteAt h i = h[i] := by
  rw [byteAt, Vector.getElem?_eq_getElem hi, Option.getD_some]

theorem byteAt_set (h : HeaderBytes) {i : Nat} (hi : i < 80) (v : UInt8) (j : Nat) :
    byteAt (h.set i v hi) j = if i = j then v else byteAt h j := by
  rw [byteAt, Vector.getElem?_set]
  split <;> rfl

/-- The bytes of a piece, each at its offset. -/
theorem slice_eq_map (h : HeaderBytes) {i n : Nat} (hn : i + n ≤ 80) :
    slice h i n = (List.range n).map fun j => byteAt h (i + j) := by
  apply List.ext_getElem
  · simp [slice]
    omega
  · intro j hj hj'
    have hlt : i + j < 80 := by
      simp only [List.length_map, List.length_range] at hj'
      omega
    simp [slice, byteAt_of_lt h hlt]

/-! ### The boot check -/

/-- The sum of complements runs through the values of the boot program. -/
theorem toNat_foldl_complement (h : HeaderBytes) (n : Nat) :
    ((((List.range n).map fun j => byteAt h (0x34 + j)).foldl
      (fun sum b => sum + ~~~b) (0 : UInt8)).toNat : Int) = bootValue h n := by
  induction n with
  | zero => rfl
  | succ n ih =>
    rw [List.range_succ, List.map_append, List.foldl_append, bootValue, ← ih]
    simp only [List.map_cons, List.map_nil, List.foldl_cons, List.foldl_nil, UInt8.toNat_add,
      UInt8.toNat_not]
    have hb := (byteAt h (0x34 + n)).toNat_lt
    simp only [UInt8.size]
    omega

theorem toNat_checksum (h : HeaderBytes) : ((checksum h).toNat : Int) = bootValue h 25 := by
  rw [checksum, slice_eq_map h (by decide), toNat_foldl_complement]

/-- The sum of complements is the check byte exactly when the boot program ends in it. -/
theorem passesBootCheck_iff (h : HeaderBytes) : PassesBootCheck h ↔ checksum h = byteAt h 0x4D := by
  rw [PassesBootCheck, ← toNat_checksum, Int.natCast_inj, UInt8.toNat_inj]

theorem bootValue_eq_sum (h : HeaderBytes) (n : Nat) :
    bootValue h n =
      (-((∑ j ∈ Finset.range n, (byteAt h (0x34 + j)).toNat : Nat) : Int) - n) % 256 := by
  induction n with
  | zero => simp [bootValue]
  | succ n ih =>
    rw [bootValue, ih, Finset.sum_range_succ]
    push_cast
    omega

/-- A header passes the boot check when its bytes, the check byte among them, add up to 25 less than
a multiple of 2^8. -/
theorem passesBootCheck_iff_weight (h : HeaderBytes) :
    PassesBootCheck h ↔ (weight h + 25) % 256 = 0 := by
  have hw : weight h =
      ∑ j ∈ Finset.range 25, (byteAt h (0x34 + j)).toNat + (byteAt h 0x4D).toNat := by
    rw [weight, Finset.sum_range_succ]
  have hlt := (byteAt h 0x4D).toNat_lt
  rw [PassesBootCheck, bootValue_eq_sum, hw]
  omega

/-- Writing a byte changes the sum by what it changes the byte. -/
theorem weight_set (h : HeaderBytes) {i : Nat} (hi : i < 80) (hlo : 0x34 ≤ i) (hhi : i ≤ 0x4D)
    (v : UInt8) : weight (h.set i v hi) + (byteAt h i).toNat = weight h + v.toNat := by
  obtain ⟨j, rfl⟩ := Nat.exists_eq_add_of_le hlo
  have hj : j ∈ Finset.range 26 := Finset.mem_range.2 (by omega)
  have hrest : ∑ k ∈ (Finset.range 26).erase j, (byteAt (h.set (0x34 + j) v hi) (0x34 + k)).toNat =
      ∑ k ∈ (Finset.range 26).erase j, (byteAt h (0x34 + k)).toNat := by
    refine Finset.sum_congr rfl fun k hk => ?_
    have hne : 0x34 + j ≠ 0x34 + k := fun he => Finset.ne_of_mem_erase hk (by omega)
    rw [byteAt_set, if_neg hne]
  rw [weight, weight, ← Finset.add_sum_erase _ _ hj, ← Finset.add_sum_erase _ _ hj, hrest,
    byteAt_set, if_pos rfl]
  omega

/-- A header that passes does not pass any more once a single byte has changed. -/
theorem PassesBootCheck.not_set {h : HeaderBytes} (hp : PassesBootCheck h) {i : Nat} (hi : i < 80)
    (hlo : 0x34 ≤ i) (hhi : i ≤ 0x4D) {v : UInt8} (hv : v ≠ byteAt h i) :
    ¬ PassesBootCheck (h.set i v hi) := by
  intro hp'
  rw [passesBootCheck_iff_weight] at hp hp'
  have hw := weight_set h hi hlo hhi v
  have hne : v.toNat ≠ (byteAt h i).toNat := fun he => hv (UInt8.toNat_inj.1 he)
  have hlt := v.toNat_lt
  have hlt' := (byteAt h i).toNat_lt
  omega

/-! ### Sizes and title -/

theorem romBanksOf_eq_ok {code : UInt8} {n : Nat} :
    romBanksOf code = .ok n ↔ code.toNat ≤ 8 ∧ n = 2 * 2 ^ code.toNat := by
  rw [romBanksOf]
  split
  · next hle => simp [hle, Nat.shiftLeft_eq, eq_comm]
  · next hgt => simp [hgt]

theorem romBanksOf_eq_error {code : UInt8} (h : 8 < code.toNat) :
    romBanksOf code = .error (.romSize code) := if_neg (Nat.not_le.2 h)

theorem ramBanksOf_of_eq_ok {code : UInt8} {n : Nat} (h : ramBanksOf code = .ok n) :
    (code.toNat, n) ∈ [(0, 0), (2, 1), (3, 4), (4, 16), (5, 8)] := by
  unfold ramBanksOf at h
  split at h <;> cases h <;> simp_all

theorem exists_ramBanksOf {code : UInt8} (h : code.toNat ∈ ramCodes) :
    ∃ n, ramBanksOf code = .ok n := by
  unfold ramBanksOf
  split
  all_goals first | exact ⟨_, rfl⟩ | simp_all [ramCodes]

theorem ramBanksOf_eq_error {code : UInt8} (h : code.toNat ∉ ramCodes) :
    ramBanksOf code = .error (.ramSize code) := by
  unfold ramBanksOf
  split
  all_goals first | rfl | simp_all [ramCodes]

/-- Leaving out the bytes that are not printable, and reading the others as characters. -/
theorem map_filter_isPrintable (l : List UInt8) :
    (l.filter isPrintable).map (fun b => Char.ofNat b.toNat) = l.filterMap printable? := by
  induction l with
  | nil => rfl
  | cons b l ih =>
    by_cases hb : 0x20 ≤ b.toNat ∧ b.toNat ≤ 0x7E
    · simp [isPrintable, printable?, hb, ih]
    · simp [isPrintable, printable?, hb, ih]

theorem isTitle_titleOf (h : HeaderBytes) : IsTitle h (titleOf h) := by
  set field := slice h 0x34 16 with hfield
  have hmap : field = (List.range 16).map fun j => byteAt h (0x34 + j) :=
    slice_eq_map h (by decide)
  have hlen : field.length = 16 := by simp [hmap]
  have hget : ∀ j (hj : j < field.length), field[j] = byteAt h (0x34 + j) := by simp [hmap]
  -- The first NUL, or the length of the field.
  obtain ⟨n, hn⟩ : ∃ n, n = field.findIdx (fun b => !decide (b ≠ 0)) := ⟨_, rfl⟩
  have hle : n ≤ 16 := hn ▸ hlen ▸ List.findIdx_le_length
  refine ⟨n, hle, fun j hj => ?_, fun hlt => ?_, ?_⟩
  · have hj' : j < field.findIdx (fun b => !decide (b ≠ 0)) := hn ▸ hj
    simpa [hget] using List.not_of_lt_findIdx hj'
  · subst hn
    rw [← hlen] at hlt
    rw [← hget _ hlt]
    simpa using List.findIdx_getElem (w := hlt)
  · have htake : field.takeWhile (· ≠ 0) = (List.range n).map fun j => byteAt h (0x34 + j) := by
      rw [List.takeWhile_eq_take_findIdx_not, ← hn, hmap, ← List.map_take, List.take_range,
        Nat.min_eq_left hle]
    rw [titleOf, String.toList_ofList, map_filter_isPrintable, ← hfield, htake, List.filterMap_map]
    rfl

theorem IsTitle.length_le {h : HeaderBytes} {title : String} (ht : IsTitle h title) :
    title.length ≤ 16 := by
  obtain ⟨n, hn, -, -, htitle⟩ := ht
  calc title.length = title.toList.length := String.length_toList.symm
    _ ≤ (List.range n).length := htitle ▸ List.length_filterMap_le _ _
    _ ≤ 16 := by simpa using hn

/-! ### Acceptance -/

/-- The checks in their order. -/
theorem ofBytes_eq (h : HeaderBytes) : ofBytes h =
    if checksum h ≠ byteAt h 0x4D then .error (.checksum (byteAt h 0x4D) (checksum h))
    else do
      let romBanks ← romBanksOf (byteAt h 0x48)
      let ramBanks ← ramBanksOf (byteAt h 0x49)
      return ⟨titleOf h, .ofCode (byteAt h 0x47), romBanks, ramBanks⟩ := by
  rw [byteAt_of_lt h (show 0x47 < 80 by decide), byteAt_of_lt h (show 0x48 < 80 by decide),
    byteAt_of_lt h (show 0x49 < 80 by decide), byteAt_of_lt h (show 0x4D < 80 by decide)]
  rfl

theorem ofBytes_of_not_passes {h : HeaderBytes} (hp : ¬ PassesBootCheck h) :
    ofBytes h = .error (.checksum (byteAt h 0x4D) (checksum h)) := by
  rw [passesBootCheck_iff] at hp
  rw [ofBytes_eq, if_pos hp]

theorem ofBytes_of_passes {h : HeaderBytes} (hp : PassesBootCheck h) :
    ofBytes h = do
      let romBanks ← romBanksOf (byteAt h 0x48)
      let ramBanks ← ramBanksOf (byteAt h 0x49)
      return ⟨titleOf h, .ofCode (byteAt h 0x47), romBanks, ramBanks⟩ := by
  rw [passesBootCheck_iff] at hp
  rw [ofBytes_eq, if_neg (not_not.2 hp)]

theorem ofBytes_of_romSize {h : HeaderBytes} (hp : PassesBootCheck h)
    (hrom : 8 < (byteAt h 0x48).toNat) : ofBytes h = .error (.romSize (byteAt h 0x48)) := by
  rw [ofBytes_of_passes hp, romBanksOf_eq_error hrom]
  rfl

theorem ofBytes_of_ramSize {h : HeaderBytes} (hp : PassesBootCheck h)
    (hrom : (byteAt h 0x48).toNat ≤ 8) (hram : (byteAt h 0x49).toNat ∉ ramCodes) :
    ofBytes h = .error (.ramSize (byteAt h 0x49)) := by
  rw [ofBytes_of_passes hp, romBanksOf_eq_ok.2 ⟨hrom, rfl⟩, ramBanksOf_eq_error hram]
  rfl

/-- The checks that pass are what makes a header readable, and what it says then. -/
theorem exists_ofBytes {h : HeaderBytes} (hp : PassesBootCheck h)
    (hrom : (byteAt h 0x48).toNat ≤ 8) (hram : (byteAt h 0x49).toNat ∈ ramCodes) :
    ∃ header, ofBytes h = .ok header ∧ Says h header := by
  obtain ⟨n, hn⟩ := exists_ramBanksOf hram
  refine ⟨⟨titleOf h, .ofCode (byteAt h 0x47), 2 * 2 ^ (byteAt h 0x48).toNat, n⟩, ?_, ?_⟩
  · rw [ofBytes_of_passes hp, romBanksOf_eq_ok.2 ⟨hrom, rfl⟩, hn]
    rfl
  · exact { romBanks := rfl, ramBanks := ramBanksOf_of_eq_ok hn, controller := rfl
            title := isTitle_titleOf h, length_title := (isTitle_titleOf h).length_le }

/-- A header that is read has passed all checks. Each check that fails gives an error instead. -/
theorem checks_of_ofBytes {h : HeaderBytes} {header : Header} (hok : ofBytes h = .ok header) :
    PassesBootCheck h ∧ (byteAt h 0x48).toNat ≤ 8 ∧ (byteAt h 0x49).toNat ∈ ramCodes := by
  by_cases hp : PassesBootCheck h
  · by_cases hrom : (byteAt h 0x48).toNat ≤ 8
    · by_cases hram : (byteAt h 0x49).toNat ∈ ramCodes
      · exact ⟨hp, hrom, hram⟩
      · rw [ofBytes_of_ramSize hp hrom hram] at hok
        cases hok
    · rw [ofBytes_of_romSize hp (Nat.lt_of_not_le hrom)] at hok
      cases hok
  · rw [ofBytes_of_not_passes hp] at hok
    cases hok

theorem says_of_ofBytes {h : HeaderBytes} {header : Header} (hok : ofBytes h = .ok header) :
    Says h header := by
  obtain ⟨hp, hrom, hram⟩ := checks_of_ofBytes hok
  obtain ⟨header', hok', hread⟩ := exists_ofBytes hp hrom hram
  obtain rfl : header' = header := Except.ok.inj (hok'.symm.trans hok)
  exact hread

theorem Says.ramBanks_le {h : HeaderBytes} {header : Header} (hs : Says h header) :
    header.ramBanks ≤ 16 := by
  have hm := hs.ramBanks
  simp only [List.mem_cons, Prod.mk.injEq, List.not_mem_nil, or_false] at hm
  omega

/-- What is read off a header depends on the bytes from 0x34 to 0x4D alone. -/
theorem ofBytes_congr {h h' : HeaderBytes}
    (hsame : ∀ i, 0x34 ≤ i → i ≤ 0x4D → byteAt h' i = byteAt h i) : ofBytes h' = ofBytes h := by
  have hslice : ∀ n ≤ 26, slice h' 0x34 n = slice h 0x34 n := by
    intro n hn
    rw [slice_eq_map h' (by omega), slice_eq_map h (by omega)]
    refine List.map_congr_left fun j hj => ?_
    have hj := List.mem_range.1 hj
    exact hsame (0x34 + j) (by omega) (by omega)
  have hsum : checksum h' = checksum h := by rw [checksum, checksum, hslice 25 (by decide)]
  have htitle : titleOf h' = titleOf h := by rw [titleOf, titleOf, hslice 16 (by decide)]
  rw [ofBytes_eq, ofBytes_eq, hsum, htitle, hsame 0x47 (by decide) (by decide),
    hsame 0x48 (by decide) (by decide), hsame 0x49 (by decide) (by decide),
    hsame 0x4D (by decide) (by decide)]

/-- The law of acceptance. A header is read exactly when it passes the boot check and both its size
codes are known. Otherwise the first check that fails, in the order checksum, ROM size, RAM size,
decides the error. What is read is what the bytes say, it depends on the bytes from 0x34 to 0x4D
alone, and a single one of these that changes leaves a header that the checksum refuses. -/
theorem ofBytes_accepts (h : HeaderBytes) :
    ((∃ header, ofBytes h = .ok header) ↔
      PassesBootCheck h ∧ (byteAt h 0x48).toNat ≤ 8 ∧ (byteAt h 0x49).toNat ∈ ramCodes) ∧
    (¬ PassesBootCheck h → ∃ computed : UInt8, (computed.toNat : Int) = bootValue h 25 ∧
      ofBytes h = .error (.checksum (byteAt h 0x4D) computed)) ∧
    (PassesBootCheck h → 8 < (byteAt h 0x48).toNat →
      ofBytes h = .error (.romSize (byteAt h 0x48))) ∧
    (PassesBootCheck h → (byteAt h 0x48).toNat ≤ 8 → (byteAt h 0x49).toNat ∉ ramCodes →
      ofBytes h = .error (.ramSize (byteAt h 0x49))) ∧
    (∀ header, ofBytes h = .ok header → Says h header ∧
      ∀ i (hi : i < 80), 0x34 ≤ i → i ≤ 0x4D → ∀ v, v ≠ byteAt h i → ∃ expected computed,
        ofBytes (h.set i v hi) = .error (.checksum expected computed)) ∧
    (∀ h' : HeaderBytes, (∀ i, 0x34 ≤ i → i ≤ 0x4D → byteAt h' i = byteAt h i) →
      ofBytes h' = ofBytes h) := by
  refine ⟨⟨?_, ?_⟩, ?_, ofBytes_of_romSize, ofBytes_of_ramSize, ?_, fun h' => ofBytes_congr⟩
  · rintro ⟨header, hok⟩
    exact checks_of_ofBytes hok
  · rintro ⟨hp, hrom, hram⟩
    obtain ⟨header, hok, -⟩ := exists_ofBytes hp hrom hram
    exact ⟨header, hok⟩
  · intro hp
    exact ⟨checksum h, toNat_checksum h, ofBytes_of_not_passes hp⟩
  · intro header hok
    refine ⟨says_of_ofBytes hok, fun i hi hlo hhi v hv => ?_⟩
    exact ⟨_, _, ofBytes_of_not_passes ((checks_of_ofBytes hok).1.not_set hi hlo hhi hv)⟩

/-- A title of two letters, with a byte between them that is not printable and a letter after the
NUL. -/
example :
    let title := (((Vector.replicate 80 0).set 0x34 0x41).set 0x35 1).set 0x36 0x42 |>.set 0x38 0x43
    ofBytes (((title.set 0x48 8).set 0x49 3).set 0x4D 0x15) = .ok ⟨"AB", .none, 512, 4⟩ := by
  cbv

end DotMatrix.Header
