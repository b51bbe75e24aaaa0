import DotMatrix.Proofs.Memory.Backing

/-!
# Save files from session to session

A save file is opened in one session after another, not always for the same number of banks.

* A `SaveSession` opens the save file and uses it. `SaveSession.run` is what one of them leaves, and
  `SaveSession.runAll` what a history of them leaves.
* `savedByte` is the byte at a position of the file that the history accounts for: the one stored
  last, or else the one that was there at first, unless the file has been shorter since.
* `fileByte_finalBytes` is what one session does to the bytes of the file, and `fileByte_runAll`
  what all of them do. `saves_last` says that the sessions read them.
-/

namespace DotMatrix

open CartridgeRam (openSave bankSize position)

/-- A session with cartridge RAM in the save file at a path: its banks, and what happens in it,
newest first. -/
structure SaveSession (path : String) where
  banks : Nat
  events : List (RamEvent path)
  pos : 0 < banks
  /-- A file can have the length of the banks. -/
  fits : banks * bankSize < Disk.lengthLimit

/-- The byte of a file at a position; zero past its end and where there is no file. -/
def fileByte (file : Option ByteArray) (p : Nat) : UInt8 := (file.bind (Bytes.get? · p)).getD 0

theorem get?_eq_fileByte {b : ByteArray} {p : Nat} (hp : p < b.size) :
    Bytes.get? b p = some (fileByte (some b) p) := by
  obtain ⟨v, hv⟩ := Bytes.exists_get? hp
  rw [fileByte, Option.bind_some, hv, Option.getD_some]

namespace SaveSession

variable {path : String}

/-- The size of the file in a session. -/
def size (s : SaveSession path) : Nat := s.banks * bankSize

/-- The byte that a session stores last at a position, if it stores one. -/
def stored? (p : Nat) (s : SaveSession path) : Option UInt8 :=
  s.events.findSome? (RamEvent.stored? s.banks p)

/-- Open the save file, and let happen what happens. -/
def run (s : SaveSession path) (d : Disk) : CartridgeRam × Disk :=
  match openSave path s.banks d with
  | (.ok ram, d) => ram.after d s.events
  | (.error _, d) => (.none, d)

/-- The RAM and the disk that a history of sessions, newest first, leaves. -/
def runAll (d : Disk) : List (SaveSession path) → CartridgeRam × Disk
  | [] => (.none, d)
  | s :: older => s.run (runAll d older).2

/-- The sessions of a history, newest first, since a byte was stored at a position. -/
def since (sessions : List (SaveSession path)) (p : Nat) : List (SaveSession path) :=
  sessions.takeWhile fun s => (s.stored? p).isNone

/-- The byte at a position after a history of sessions, newest first: the one stored last, or else
the one of the first file, if all sessions since then have the position in their files, and zero if
one has not. -/
def savedByte (first : Option ByteArray) (sessions : List (SaveSession path)) (p : Nat) : UInt8 :=
  if ∀ s ∈ since sessions p, p < s.size then
    (sessions.findSome? (stored? p)).getD (fileByte first p)
  else 0

theorem savedByte_nil (first : Option ByteArray) (p : Nat) :
    savedByte first ([] : List (SaveSession path)) p = fileByte first p := if_pos nofun

/-- A session that stores a byte settles it; any other keeps the byte there was if its file is long
enough. -/
theorem savedByte_cons (first : Option ByteArray) (s : SaveSession path)
    (older : List (SaveSession path)) (p : Nat) :
    savedByte first (s :: older) p =
      (s.stored? p).getD (if p < s.size then savedByte first older p else 0) := by
  unfold savedByte since
  cases hv : s.stored? p with
  | some v => simp [hv]
  | none =>
    simp only [List.takeWhile_cons, hv, Option.isNone_none, if_true, List.forall_mem_cons,
      List.findSome?_cons, Option.getD_none]
    by_cases hp : p < s.size
    · simp only [hp, true_and, if_true]
    · simp only [hp, false_and, if_false]

theorem lt_size_of_stored? {s : SaveSession path} {p : Nat} {v : UInt8}
    (h : s.stored? p = some v) : p < s.size := by
  obtain ⟨e, -, he⟩ := List.exists_of_findSome?_eq_some h
  unfold RamEvent.stored? at he
  split at he
  · next i o _ =>
    simp only [Option.ite_none_right_eq_some] at he
    obtain ⟨⟨hi, rfl⟩, -⟩ := he
    exact CartridgeRam.position_lt hi o
  · cases he

/-! ### One session -/

/-- The bytes of the file when a session opens it. -/
def openedBytes (s : SaveSession path) (file : Option ByteArray) : ByteArray :=
  Bytes.resize (file.getD .empty) s.size

/-- The bytes of the file when a session ends. -/
def finalBytes (s : SaveSession path) (file : Option ByteArray) : ByteArray :=
  RamEvent.bytesAfter s.banks (s.openedBytes file) s.events

theorem size_openedBytes (s : SaveSession path) (file : Option ByteArray) :
    (s.openedBytes file).size = s.size := Bytes.size_resize _ _

theorem size_finalBytes (s : SaveSession path) (file : Option ByteArray) :
    (s.finalBytes file).size = s.size :=
  (RamEvent.size_bytesAfter _ _ _).trans (s.size_openedBytes file)

/-- Opening keeps the bytes that fit, and puts zeros after them. -/
theorem get?_openedBytes (s : SaveSession path) (file : Option ByteArray) {p : Nat}
    (hp : p < s.size) : Bytes.get? (s.openedBytes file) p = some (fileByte file p) := by
  rw [openedBytes, Bytes.get?_resize, if_neg (Nat.not_le.2 hp)]
  cases file with
  | none => rfl
  | some b =>
    rw [Option.getD_some]
    by_cases h : b.size ≤ p
    · rw [if_pos h, fileByte, Option.bind_some, (Bytes.get?_eq_none_iff b p).2 h, Option.getD_none]
    · rw [if_neg h, get?_eq_fileByte (Nat.lt_of_not_le h)]

/-- A session ends with the bytes that it stored last, and all others as they were when it opened
the file. -/
theorem fileByte_finalBytes (s : SaveSession path) (file : Option ByteArray) (p : Nat) :
    fileByte (some (s.finalBytes file)) p =
      (s.stored? p).getD (if p < s.size then fileByte file p else 0) := by
  rw [fileByte, Option.bind_some]
  by_cases hp : p < s.size
  · rw [finalBytes, RamEvent.get?_bytesAfter (s.get?_openedBytes file hp), if_pos hp]
    rfl
  · have hn : Bytes.get? (s.finalBytes file) p = none :=
      (Bytes.get?_eq_none_iff _ _).2 (s.size_finalBytes file ▸ Nat.le_of_not_lt hp)
    rw [hn, if_neg hp]
    cases hv : s.stored? p with
    | none => rfl
    | some v => exact absurd (lt_size_of_stored? hv) hp

/-- A session opens its file wherever there is one or can be one, and goes on in it. -/
theorem exists_run {d : Disk} (hd : d.CanHold path) (s : SaveSession path) :
    ∃ k d', openSave path s.banks d = (.ok (.persistent k path s.banks), d') ∧
      d'.FileAt path k (s.openedBytes (d.contents? path)) ∧
      s.run d = (CartridgeRam.persistent k path s.banks).after d' s.events ∧
      CartridgeRam.Keeps path s.banks (s.finalBytes (d.contents? path)) (s.run d).1 (s.run d).2 ∧
      (s.run d).2.FileAt path k (s.finalBytes (d.contents? path)) := by
  obtain ⟨k, d', ho, hk⟩ := CartridgeRam.exists_openSave hd (Nat.ne_of_gt s.pos) s.fits
  have hr : s.run d = (CartridgeRam.persistent k path s.banks).after d' s.events := by
    rw [run, ho]
  have hkeeps := (CartridgeRam.Keeps.inFile hk).after (s.size_openedBytes _) s.events
  refine ⟨k, d', ho, hk, hr, ?_, ?_⟩
  · rw [hr]
    exact hkeeps
  · rw [hr]
    exact hkeeps.fileAt (CartridgeRam.shape_after _ _ _)

/-! ### All sessions -/

/-- After every history of sessions the file is there or can be, and its bytes are those that the
history accounts for. -/
theorem fileByte_runAll {d : Disk} (hd : d.CanHold path) (sessions : List (SaveSession path)) :
    (runAll d sessions).2.CanHold path ∧
      ∀ p, fileByte ((runAll d sessions).2.contents? path) p =
        savedByte (d.contents? path) sessions p := by
  induction sessions with
  | nil => exact ⟨hd, fun p => (savedByte_nil _ p).symm⟩
  | cons s older ih =>
    obtain ⟨hcan, hbyte⟩ := ih
    obtain ⟨k, d', -, -, -, -, hf⟩ := s.exists_run hcan
    refine ⟨hf.canHold, fun p => ?_⟩
    show fileByte ((s.run (runAll d older).2).2.contents? path) p = _
    rw [hf.contents?_eq, fileByte_finalBytes, hbyte, savedByte_cons]

/-- Save data lasts from session to session. A session opens its file wherever there is one or can
be one, and leaves in it what fits of the bytes that were there. What it then reads is the byte
stored last at the position, in this session or an earlier one, or the byte of the file that was
there before all sessions, if no session since then had a shorter file, and zero otherwise. -/
theorem saves_last {d : Disk} (hd : d.CanHold path) (s : SaveSession path)
    (older : List (SaveSession path)) :
    (∃ ram d' file, openSave path s.banks (runAll d older).2 = (.ok ram, d') ∧
      runAll d (s :: older) = ram.after d' s.events ∧
      d'.contents? path = some file ∧ file.size = s.banks * bankSize ∧
      ∀ old, (runAll d older).2.contents? path = some old →
        ∀ p, p < min file.size old.size → Bytes.get? file p = Bytes.get? old p) ∧
    ∀ i < s.banks, ∀ o : Fin bankSize,
      (runAll d (s :: older)).1.read (runAll d (s :: older)).2 i o =
        .ok (savedByte (d.contents? path) (s :: older) (position i o)) := by
  obtain ⟨hcan, hbyte⟩ := fileByte_runAll hd older
  obtain ⟨k, d', ho, hopened, hr, hkeeps, -⟩ := s.exists_run hcan
  constructor
  · refine ⟨_, d', _, ho, hr, hopened.contents?_eq, s.size_openedBytes _, ?_⟩
    intro old hold p hp
    rw [size_openedBytes, Nat.lt_min] at hp
    rw [s.get?_openedBytes _ hp.1, hold, get?_eq_fileByte hp.2]
  · intro i hi o
    refine (hkeeps.read_eq (s.size_finalBytes _) hi o).trans (congrArg Except.ok ?_)
    rw [savedByte_cons, ← hbyte]
    exact s.fileByte_finalBytes _ _

/-- Three sessions on a file of three bytes, the second of them with a bank less: what the first one
stores in the second bank is lost, and the rest is there. -/
theorem saves_last_of_shorter :
    let d : Disk := { files := [({ names := [['s']] }, 0)], contents := #[⟨#[1, 2, 3]⟩] }
    let first : SaveSession "s" :=
      ⟨2, [.use (.write 0 5 9), .use (.write 1 0 7)], by decide, by decide⟩
    let second : SaveSession "s" := ⟨1, [], by decide, by decide⟩
    let third : SaveSession "s" := ⟨2, [.use (.write 2 0 8)], by decide, by decide⟩
    let s := runAll d [third, second, first]
    d.CanHold "s" ∧ s.1.read s.2 1 0 = .ok 0 ∧ s.1.read s.2 0 5 = .ok 9 ∧
      s.1.read s.2 0 1 = .ok 2 := by
  intro d first second third s
  have hd : d.CanHold "s" := .inr ⟨0, _, rfl, rfl⟩
  have hread := (saves_last hd third [second, first]).2
  rw [show d.contents? "s" = some ⟨#[1, 2, 3]⟩ from rfl] at hread
  have h₁ : savedByte (some ⟨#[1, 2, 3]⟩) [third, second, first] (position 1 0) = 0 := by
    decide +kernel
  have h₂ : savedByte (some ⟨#[1, 2, 3]⟩) [third, second, first] (position 0 5) = 9 := by
    decide +kernel
  have h₃ : savedByte (some ⟨#[1, 2, 3]⟩) [third, second, first] (position 0 1) = 2 := by
    decide +kernel
  exact ⟨hd, (hread 1 (by decide) 0).trans (congrArg Except.ok h₁),
    (hread 0 (by decide) 5).trans (congrArg Except.ok h₂),
    (hread 0 (by decide) 1).trans (congrArg Except.ok h₃)⟩

end SaveSession

end DotMatrix
