import Mathlib.Algebra.GroupWithZero.Nat
import DotMatrix.Proofs.Disk.NamedFile
import DotMatrix.Proofs.Memory.Configuration
import DotMatrix.Proofs.Memory.FlatStore

/-!
# The two backings of cartridge RAM

Cartridge RAM lives in memory or in a save file, and what uses it cannot tell which.

* `RamUse` is one use, `CartridgeRam.use` makes it and gives the answer. A `RamEvent` is a use or
  something that happens elsewhere on the disk, and `CartridgeRam.after` is what a history of events
  leaves.
* `Keeps path n b ram d` says that `ram` has `n` banks and that its bytes are those of `b`, in
  memory or in the file at `path`. `Keeps.use` says that the answers are then those of the bytes,
  and `Keeps.after` what becomes of the bytes.
* `RamEvent.stored?` is the byte that an event stores at a position, and `get?_bytesAfter` says that
  the byte stored last is there.
* `backings_agree` says that the two backings are equivalent.
-/

namespace DotMatrix

/-- Offsets in a bank can be written as numbers. -/
instance CartridgeRam.neZero_bankSize : NeZero CartridgeRam.bankSize := ⟨by decide⟩

/-- A use of cartridge RAM. -/
inductive RamUse
  | read (bank : Nat) (offset : Fin CartridgeRam.bankSize)
  | write (bank : Nat) (offset : Fin CartridgeRam.bankSize) (v : UInt8)
  | flush

/-- A change of a disk that leaves the file at a path as it is. -/
structure Elsewhere (path : String) where
  change : Disk → Disk
  keeps : ∀ d k b, d.FileAt path k b → (change d).FileAt path k b

/-- What happens while cartridge RAM is in use, the save file of which is at `path`. -/
inductive RamEvent (path : String)
  | use (u : RamUse)
  | elsewhere (e : Elsewhere path)

/-- The answer to a use: a byte if it is a read. -/
abbrev RamAnswer := Except Miss (Option UInt8)

namespace CartridgeRam

/-- Use cartridge RAM. A use that is refused leaves everything as it is. -/
def use (ram : CartridgeRam) (d : Disk) : RamUse → RamAnswer × CartridgeRam × Disk
  | .read i o => ((ram.read d i o).map some, ram, d)
  | .write i o v =>
    match ram.write d i o v with
    | .ok s => (.ok Option.none, s)
    | .error e => (.error (.failed e), ram, d)
  | .flush =>
    match ram.flush d with
    | .ok d => (.ok Option.none, ram, d)
    | .error e => (.error (.failed e), ram, d)

/-- The RAM and the disk that a history of events, newest first, leaves. -/
def after {path : String} (ram : CartridgeRam) (d : Disk) :
    List (RamEvent path) → CartridgeRam × Disk
  | [] => (ram, d)
  | .use u :: older => ((ram.after d older).1.use (ram.after d older).2 u).2
  | .elsewhere e :: older => ((ram.after d older).1, e.change (ram.after d older).2)

theorem use_of_error {ram : CartridgeRam} {d : Disk} {u : RamUse} {e : Miss}
    (h : (ram.use d u).1 = .error e) : (ram.use d u).2 = (ram, d) := by
  cases u with
  | read => rfl
  | flush => rfl
  | write i o v =>
    cases hw : ram.write d i o v with
    | error => simp only [use, hw]
    | ok s =>
      simp only [use, hw] at h
      cases h

end CartridgeRam

/-! ### The bytes of cartridge RAM -/

/-- The answer to a use of `n` banks, when `byte` says which bytes they hold. -/
def RamUse.answer (n : Nat) (byte : Nat → Fin CartridgeRam.bankSize → UInt8) : RamUse → RamAnswer
  | read i o =>
    if i < n then .ok (some (byte i o)) else .error (.failed (.noSuchBank "ERAM" i n))
  | write i _ _ => if i < n then .ok none else .error (.failed (.noSuchBank "ERAM" i n))
  | flush => .ok none

theorem RamUse.answer_congr {n : Nat} {f g : Nat → Fin CartridgeRam.bankSize → UInt8}
    (h : ∀ i < n, ∀ o, f i o = g i o) (u : RamUse) : u.answer n f = u.answer n g := by
  cases u with
  | read i o =>
    by_cases hi : i < n
    · simp only [answer, h i hi]
    · simp only [answer, if_neg hi]
  | write => rfl
  | flush => rfl

/-- The byte of a byte array at an offset of a bank. -/
def ramByte (b : ByteArray) (i : Nat) (o : Fin CartridgeRam.bankSize) : UInt8 :=
  (Bytes.get? b (CartridgeRam.position i o)).getD 0

/-- What a use makes of the bytes of `n` banks. -/
def RamUse.bytes (n : Nat) (b : ByteArray) : RamUse → ByteArray
  | write i o v => if i < n then Bytes.set b (CartridgeRam.position i o) v else b
  | read .. | flush => b

namespace RamEvent

variable {path : String}

/-- What an event makes of the bytes of `n` banks. -/
def bytes (n : Nat) (e : RamEvent path) (b : ByteArray) : ByteArray :=
  match e with
  | use u => u.bytes n b
  | elsewhere _ => b

/-- What a history of events, newest first, makes of the bytes of `n` banks. -/
def bytesAfter (n : Nat) (b : ByteArray) (events : List (RamEvent path)) : ByteArray :=
  events.foldr (bytes n) b

/-- The byte that an event stores at a position of `n` banks, if it stores one. -/
def stored? (n p : Nat) : RamEvent path → Option UInt8
  | use (.write i o v) => if i < n ∧ CartridgeRam.position i o = p then some v else none
  | _ => none

/-- The byte that an event writes, or would write, at an offset of a bank. -/
def wrote? (i : Nat) (o : Fin CartridgeRam.bankSize) : RamEvent path → Option UInt8
  | use (.write j q v) => if j = i ∧ q = o then some v else none
  | _ => none

/-- The byte that was written last at an offset of a bank, newest event first, and zero if none
was. -/
def lastWritten (events : List (RamEvent path)) (i : Nat) (o : Fin CartridgeRam.bankSize) :
    UInt8 :=
  (events.findSome? (wrote? i o)).getD 0

end RamEvent

theorem CartridgeRam.position_lt {n i : Nat} (hi : i < n) (o : Fin bankSize) :
    position i o < n * bankSize := by
  have ho := o.isLt
  unfold position bankSize at *
  omega

namespace RamEvent

variable {path : String} {n p : Nat} {b : ByteArray}

@[simp] theorem size_bytes (n : Nat) (b : ByteArray) (e : RamEvent path) :
    (e.bytes n b).size = b.size := by
  cases e with
  | elsewhere => rfl
  | use u =>
    cases u with
    | read => rfl
    | flush => rfl
    | write i o v =>
      unfold bytes RamUse.bytes
      dsimp only
      split
      · exact Bytes.size_set ..
      · rfl

@[simp] theorem size_bytesAfter (n : Nat) (b : ByteArray) (events : List (RamEvent path)) :
    (bytesAfter n b events).size = b.size := by
  induction events with
  | nil => rfl
  | cons e older ih => exact (size_bytes n _ e).trans ih

/-- An event leaves the byte that it stores, and all others as they were. -/
theorem get?_bytes {v : UInt8} (hv : Bytes.get? b p = some v) (e : RamEvent path) :
    Bytes.get? (e.bytes n b) p = some ((e.stored? n p).getD v) := by
  have hp := Bytes.lt_size_of_get? hv
  cases e with
  | elsewhere => exact hv
  | use u =>
    cases u with
    | read => exact hv
    | flush => exact hv
    | write i o w =>
      simp only [bytes, RamUse.bytes, stored?]
      by_cases hi : i < n
      · rw [if_pos hi, Bytes.get?_set, hv]
        by_cases hip : CartridgeRam.position i o = p
        · rw [if_pos ⟨hip, hp⟩, if_pos ⟨hi, hip⟩, Option.getD_some]
        · rw [if_neg fun h => hip h.1, if_neg fun h => hip h.2, Option.getD_none]
      · rw [if_neg hi, if_neg fun h => hi h.1, hv, Option.getD_none]

/-- The byte that was stored last is there, or else the first one. -/
theorem get?_bytesAfter {v : UInt8} (hv : Bytes.get? b p = some v)
    (events : List (RamEvent path)) :
    Bytes.get? (bytesAfter n b events) p =
      some ((events.findSome? (stored? n p)).getD v) := by
  induction events with
  | nil => exact hv
  | cons e older ih =>
    refine (get?_bytes ih e).trans ?_
    rw [List.findSome?_cons]
    cases e.stored? n p <;> rfl

/-- What is stored at the position of a byte is what is written at its offset of its bank. -/
theorem stored?_position {i : Nat} (hi : i < n) (o : Fin CartridgeRam.bankSize) :
    (stored? n (CartridgeRam.position i o) : RamEvent path → Option UInt8) = wrote? i o := by
  funext e
  cases e with
  | elsewhere => rfl
  | use u =>
    cases u with
    | read => rfl
    | flush => rfl
    | write j q v =>
      simp only [stored?, wrote?]
      by_cases h : j = i ∧ q = o
      · obtain ⟨rfl, rfl⟩ := h
        rw [if_pos ⟨hi, rfl⟩, if_pos ⟨rfl, rfl⟩]
      · rw [if_neg h, if_neg]
        rintro ⟨-, hp⟩
        obtain ⟨hj, hq⟩ := Agrees.position_inj q.isLt o.isLt hp
        exact h ⟨hj, Fin.ext hq⟩

/-- Banks that begin with zeros hold what was written last. -/
theorem ramByte_bytesAfter {i : Nat} (hi : i < n) (o : Fin CartridgeRam.bankSize)
    (events : List (RamEvent path)) :
    ramByte (bytesAfter n (Bytes.zeros (n * CartridgeRam.bankSize)) events) i o =
      lastWritten events i o := by
  have hz : Bytes.get? (Bytes.zeros (n * CartridgeRam.bankSize)) (CartridgeRam.position i o) =
      some 0 := by
    rw [Bytes.get?_zeros, if_pos (CartridgeRam.position_lt hi o)]
  rw [ramByte, get?_bytesAfter hz, stored?_position hi, Option.getD_some, lastWritten]

end RamEvent

/-! ### Backings -/

namespace CartridgeRam

/-- Cartridge RAM of `n` banks has the bytes of `b`, in memory or in the file at a path. -/
inductive Keeps (path : String) : Nat → ByteArray → CartridgeRam → Disk → Prop
  | absent (b : ByteArray) (d : Disk) : Keeps path 0 b none d
  | inMemory {n : Nat} {b : ByteArray} (d : Disk) : Keeps path n b (volatile b n) d
  | inFile {n : Nat} {b : ByteArray} {d : Disk} {k : Handle} (h : d.FileAt path k b) :
      Keeps path n b (persistent k path n) d

namespace Keeps

variable {path : String} {n : Nat} {b : ByteArray} {ram : CartridgeRam} {d : Disk}

theorem bankCount_eq (h : Keeps path n b ram d) : ram.bankCount = n := by
  cases h <;> rfl

/-- The byte that a bank gives is that of the bytes it keeps. -/
theorem get_eq (h : Keeps path n b ram d) (hb : b.size = n * bankSize) {i : Nat} (hi : i < n)
    (o : Fin bankSize) : ram.get d i o = .ok (ramByte b i o) := by
  obtain ⟨v, hv⟩ := Bytes.exists_get? (hb ▸ position_lt hi o)
  rw [ramByte, hv]
  cases h with
  | absent => exact absurd hi (Nat.not_lt_zero i)
  | inMemory => simp only [get, hv, Option.getD_some]
  | inFile h => simp only [get, h.byte_eq hv, Option.getD_some]

theorem read_eq (h : Keeps path n b ram d) (hb : b.size = n * bankSize) {i : Nat} (hi : i < n)
    (o : Fin bankSize) : ram.read d i o = .ok (ramByte b i o) := by
  rw [read, if_pos (h.bankCount_eq.symm ▸ hi), h.get_eq hb hi]

/-- A byte that is put into a bank is put into the bytes it keeps. -/
theorem put (h : Keeps path n b ram d) (hb : b.size = n * bankSize) {i : Nat} (hi : i < n)
    (o : Fin bankSize) (v : UInt8) :
    Keeps path n (Bytes.set b (position i o) v) (ram.put d i o v).1 (ram.put d i o v).2 := by
  have hlt : position i o < b.size := hb ▸ position_lt hi o
  -- Nothing is written past the end, so that the file is not extended.
  have hput : Bytes.put b (position i o) v = Bytes.set b (position i o) v := by
    rw [Bytes.put, dif_pos hlt, Bytes.set, dif_pos hlt]
  cases h with
  | absent => exact absurd hi (Nat.not_lt_zero i)
  | inMemory => exact .inMemory d
  | inFile h => exact .inFile (hput ▸ h.putByte _ v)

/-- A use is answered from the bytes, and changes them. -/
theorem use (h : Keeps path n b ram d) (hb : b.size = n * bankSize) (u : RamUse) :
    (ram.use d u).1 = u.answer n (ramByte b) ∧
      Keeps path n (u.bytes n b) (ram.use d u).2.1 (ram.use d u).2.2 := by
  have hn := h.bankCount_eq
  cases u with
  | flush => exact ⟨rfl, h⟩
  | read i o =>
    refine ⟨?_, h⟩
    by_cases hi : i < n
    · simp only [CartridgeRam.use, RamUse.answer, if_pos hi, h.read_eq hb hi]
      rfl
    · simp only [CartridgeRam.use, read, RamUse.answer, hn, if_neg hi, noSuchBank]
      rfl
  | write i o v =>
    by_cases hi : i < n
    · simp only [CartridgeRam.use, write, RamUse.answer, RamUse.bytes, hn, if_pos hi]
      exact ⟨trivial, h.put hb hi o v⟩
    · simp only [CartridgeRam.use, write, RamUse.answer, RamUse.bytes, hn, if_neg hi, noSuchBank]
      exact ⟨trivial, h⟩

/-- What happens elsewhere on the disk does not matter. -/
theorem elsewhere (h : Keeps path n b ram d) (e : Elsewhere path) :
    Keeps path n b ram (e.change d) := by
  cases h with
  | absent => exact .absent b _
  | inMemory => exact .inMemory _
  | inFile h => exact .inFile (e.keeps _ _ _ h)

/-- A history of events changes the bytes and keeps the backing. -/
theorem after (h : Keeps path n b ram d) (hb : b.size = n * bankSize)
    (events : List (RamEvent path)) :
    Keeps path n (RamEvent.bytesAfter n b events) (ram.after d events).1
      (ram.after d events).2 := by
  -- The newest event comes first, so the induction is on how long the RAM has been in use.
  induction events with
  | nil => exact h
  | cons e older ih =>
    cases e with
    | use u => exact (ih.use ((RamEvent.size_bytesAfter n b older).trans hb) u).2
    | elsewhere e => exact ih.elsewhere e

/-- Banks that began with zeros are answered for by what was written last. -/
theorem answer_after (h : Keeps path n (Bytes.zeros (n * bankSize)) ram d)
    (events : List (RamEvent path)) (u : RamUse) :
    ((ram.after d events).1.use (ram.after d events).2 u).1 =
      u.answer n (RamEvent.lastWritten events) := by
  have hz : (Bytes.zeros (n * bankSize)).size = n * bankSize := Bytes.size_zeros _
  have hu := ((h.after hz events).use ((RamEvent.size_bytesAfter n _ events).trans hz) u).1
  rw [hu]
  exact u.answer_congr fun i hi o => RamEvent.ramByte_bytesAfter hi o events

/-- Cartridge RAM of the kind that is in memory has its bytes there. -/
theorem eq_volatile (h : Keeps path n b ram d) (hs : ram.shape = volatile .empty n) :
    ram = volatile b n := by
  cases h with
  | inMemory => rfl
  | absent | inFile => cases hs

/-- Cartridge RAM of the kind that is in a save file has its bytes there. -/
theorem fileAt (h : Keeps path n b ram d) {k : Handle} (hs : ram.shape = persistent k path n) :
    d.FileAt path k b := by
  cases h with
  | inFile h =>
    cases hs
    exact h
  | absent | inMemory => cases hs

end Keeps

theorem shape_use (ram : CartridgeRam) (d : Disk) (u : RamUse) :
    (ram.use d u).2.1.shape = ram.shape := by
  cases u with
  | read | flush => rfl
  | write i o v =>
    simp only [use, write]
    split
    · next h =>
      split at h <;> cases h
      exact shape_put ..
    · rfl

/-- Events do not change the kind of the RAM. -/
theorem shape_after {path : String} (ram : CartridgeRam) (d : Disk)
    (events : List (RamEvent path)) : (ram.after d events).1.shape = ram.shape := by
  induction events with
  | nil => rfl
  | cons e older ih =>
    cases e with
    | use u => exact (shape_use _ _ u).trans ih
    | elsewhere => exact ih

theorem keeps_ofBanks (path : String) (n : Nat) (d : Disk) :
    Keeps path n (Bytes.zeros (n * bankSize)) (ofBanks n) d := by
  unfold ofBanks
  split
  · next hn =>
    subst hn
    exact .absent _ d
  · exact .inMemory d

/-- A save file can be opened where a file is or can be. It gets the size of the banks, and its
bytes up to there are those of the file that was there. -/
theorem exists_openSave {path : String} {n : Nat} {d : Disk} (hd : d.CanHold path) (h0 : n ≠ 0)
    (hn : n * bankSize < Disk.lengthLimit) :
    ∃ k d', openSave path n d = (.ok (persistent k path n), d') ∧
      d'.FileAt path k (Bytes.resize ((d.contents? path).getD .empty) (n * bankSize)) := by
  obtain ⟨k, d₁, ho, hk⟩ := Disk.exists_openOrCreate hd
  obtain ⟨d', hs, hk'⟩ := hk.setLength hn
  refine ⟨k, d', ?_, hk'⟩
  rw [openSave, if_neg h0, ho]
  dsimp only
  rw [hs]

/-- A new save file holds zeros. With no banks there is no RAM and no file is made. -/
theorem keeps_openSave {path : String} {n : Nat} {d : Disk} (hd : 0 < n → d.IsFree path)
    (hn : n * bankSize < Disk.lengthLimit) :
    ∃ ram d', openSave path n d = (.ok ram, d') ∧
      Keeps path n (Bytes.zeros (n * bankSize)) ram d' ∧
      (n = 0 ∧ ram = none ∨ ∃ k, ram = persistent k path n) := by
  rcases Nat.eq_zero_or_pos n with rfl | h0
  · exact ⟨none, d, rfl, .absent _ d, .inl ⟨rfl, rfl⟩⟩
  · have hfree := hd h0
    obtain ⟨k, d', ho, hk⟩ := exists_openSave (.inl hfree) (Nat.ne_of_gt h0) hn
    rw [Disk.contents?_of_isFree hfree, Option.getD_none, Bytes.resize_empty] at hk
    exact ⟨_, d', ho, .inFile hk, .inr ⟨k, rfl⟩⟩

variable {path : String} {banks : Nat} {d : Disk}

/-- Cartridge RAM in memory and cartridge RAM in a new save file are equivalent. After every history
of events both give every use the same answer: to a read the byte that was written last at the same
offset of the same bank, or zero, and to a use of a bank that is not there the error that says so,
which has no effect. The bytes of the file are those in memory, as many as the banks have. With no
banks there is no RAM, and no file is needed. -/
theorem backings_agree (hd : 0 < banks → d.IsFree path)
    (hn : banks * bankSize < Disk.lengthLimit) :
    ∃ ram d', openSave path banks d = (.ok ram, d') ∧
      (banks = 0 → ofBanks banks = none ∧ ram = none) ∧
      ∀ (d₀ : Disk) (events : List (RamEvent path)),
        let inMemory := (ofBanks banks).after d₀ events
        let inFile := ram.after d' events
        (∀ u, (inMemory.1.use inMemory.2 u).1 = u.answer banks (RamEvent.lastWritten events) ∧
          (inFile.1.use inFile.2 u).1 = u.answer banks (RamEvent.lastWritten events)) ∧
        (∀ u e, u.answer banks (RamEvent.lastWritten events) = .error e →
          (inMemory.1.use inMemory.2 u).2 = inMemory ∧ (inFile.1.use inFile.2 u).2 = inFile) ∧
        (0 < banks → ∃ data, inMemory.1 = volatile data banks ∧
          inFile.2.contents? path = some data ∧ data.size = banks * bankSize) := by
  obtain ⟨ram, d', ho, hf, hkind⟩ := keeps_openSave hd hn
  have hm (d₀ : Disk) := keeps_ofBanks path banks d₀
  have hz : (Bytes.zeros (banks * bankSize)).size = banks * bankSize := Bytes.size_zeros _
  refine ⟨ram, d', ho, ?_, fun d₀ events => ⟨fun u => ?_, fun u e he => ?_, fun h0 => ?_⟩⟩
  · rintro rfl
    rcases hkind with ⟨-, rfl⟩ | ⟨k, rfl⟩
    · exact ⟨rfl, rfl⟩
    · cases ho
  · exact ⟨(hm d₀).answer_after events u, hf.answer_after events u⟩
  · exact ⟨use_of_error (((hm d₀).answer_after events u).trans he),
      use_of_error ((hf.answer_after events u).trans he)⟩
  · rcases hkind with ⟨rfl, -⟩ | ⟨k, rfl⟩
    · exact absurd h0 (Nat.lt_irrefl 0)
    · have hs : (ofBanks banks).shape = volatile .empty banks := by
        rw [ofBanks, if_neg (Nat.ne_of_gt h0)]
        rfl
      have hmem := ((hm d₀).after hz events).eq_volatile ((shape_after _ _ _).trans hs)
      have hfile := (hf.after hz events).fileAt (shape_after _ _ _)
      exact ⟨_, hmem, hfile.contents?_eq, (RamEvent.size_bytesAfter banks _ events).trans hz⟩

/-- Two banks on an empty disk. A bank that is not there takes nothing. -/
theorem backings_agree_of_two :
    (0 < 2 → Disk.IsFree {} "s") ∧ 2 * bankSize < Disk.lengthLimit ∧
      ∃ ram d', openSave "s" 2 {} = (.ok ram, d') ∧
        let events : List (RamEvent "s") :=
          [.use (.write 2 3 9), .use (.write 0 3 5), .use (.write 1 3 7), .use (.write 1 3 6)]
        let inMemory := (ofBanks 2).after {} events
        let inFile := ram.after d' events
        (inMemory.1.use inMemory.2 (.read 1 3)).1 = .ok (some 7) ∧
          (inFile.1.use inFile.2 (.read 1 3)).1 = .ok (some 7) ∧
          (inFile.1.use inFile.2 (.read 0 4)).1 = .ok (some 0) ∧
          (inFile.1.use inFile.2 (.read 2 3)).1 = .error (.failed (.noSuchBank "ERAM" 2 2)) := by
  have hd : 0 < 2 → Disk.IsFree {} "s" := fun _ => ⟨{ names := [['s']] }, rfl, rfl, rfl⟩
  have hn : 2 * bankSize < Disk.lengthLimit := by decide
  obtain ⟨ram, d', ho, -, hall⟩ := backings_agree hd hn
  refine ⟨hd, hn, ram, d', ho, ?_⟩
  intro events inMemory inFile
  have hu := (hall {} events).1
  exact ⟨(hu (.read 1 3)).1, (hu (.read 1 3)).2, (hu (.read 0 4)).2, (hu (.read 2 3)).2⟩

end CartridgeRam

end DotMatrix
