import DotMatrix.Console
import DotMatrix.Proofs.Cartridge.Failure
import DotMatrix.Proofs.Cartridge.Header

/-!
# Which files are cartridges

A ROM file is looked up, its name is checked, it is opened, the header is read, and the header is
checked. The first of these that fails decides the error.

* `IsRomName` says what the name of a ROM file is like.
* `Cartridge.Decides d path r` lists the outcomes for everything that a disk may have at a path;
  `ofFile_eq_iff` says that they are those of the check.
* `ofFile_congr` says that of a ROM file only the header bytes matter.
* `attachRam_eq_error_of_ofFile` says that the RAM of a cartridge, of 16 banks at most, can be set up
  wherever its save file can be opened.
* `savePath_of_dot` is about the one stem of a ROM file that leaves no name for a save file: the
  save path leads to a directory, and with RAM in a save file the load fails.
* `ofFile_decides` puts it together.
-/

namespace DotMatrix

/-- The header bytes of a file, from 0x100 to 0x14F. -/
def Header.bytesIn (file : ByteArray) : HeaderBytes :=
  Vector.ofFn fun i => (Bytes.get? file (start + i)).getD 0

/-! ### Names -/

/-- The name of a ROM file: a stem, a dot, and `gb` or `gbc`, in capitals or not. -/
def IsRomName (path : String) : Prop :=
  ∃ stem ext, Path.fileName? path = some (stem ++ '.' :: ext) ∧ stem ≠ [] ∧
    ext.map Char.toLower ∈ [['g', 'b'], ['g', 'b', 'c']]

theorem not_mem_of_lower {ext : Name}
    (h : ext.map Char.toLower ∈ [['g', 'b'], ['g', 'b', 'c']]) : '.' ∉ ext := by
  intro hd
  have hm : '.' ∈ ext.map Char.toLower := List.mem_map.2 ⟨'.', hd, by decide⟩
  simp only [List.mem_cons, List.not_mem_nil, or_false] at h
  rcases h with h | h <;> rw [h] at hm <;> revert hm <;> decide

theorem hasRomExtension_iff (path : String) :
    Cartridge.hasRomExtension path = true ↔ IsRomName path := by
  constructor
  · intro h
    unfold Cartridge.hasRomExtension at h
    split at h
    · cases h
    · next ext hx =>
      obtain ⟨n, hn, hs⟩ := Option.bind_eq_some_iff.1 hx
      obtain ⟨stem, rfl, h0, -⟩ := Path.eq_append_of_splitExtension hs
      exact ⟨stem, ext, hn, h0, by simpa using h⟩
  · rintro ⟨stem, ext, hn, h0, h⟩
    have hx : Path.extension? path = some ext := by
      rw [Path.extension?, hn]
      exact congrArg Prod.snd (Path.splitExtension_append h0 (not_mem_of_lower h))
    rw [Cartridge.hasRomExtension, hx]
    simpa using h

example : Cartridge.hasRomExtension "roms.gb/.gb" = false ∧
    Cartridge.hasRomExtension "a.sav.GbC/" = true := by decide

/-! ### The check -/

namespace Cartridge

/-- The cartridge of a ROM file with a header that was checked. -/
def ofHeader (path : String) (header : Header) : Cartridge where
  romPath := path
  savePath :=
    if header.controller.hasBattery then some (Path.withExtension path saveExtension) else none
  header := header

/-- What becomes of a ROM file whose header bytes have been read. -/
def ofHeaderBytes (path : String) (bytes : HeaderBytes) : Except CartridgeError Cartridge :=
  match Header.ofBytes bytes with
  | .error e => .error (.badHeader e)
  | .ok header => .ok (ofHeader path header)

/-- The outcomes of the check of what a disk has at a path, by the first stage that fails. -/
inductive Decides (d : Disk) (path : String) : Except CartridgeError Cartridge → Prop
  | notFound (missing : ∀ x, d.find path ≠ .ok x) : Decides d path (.error (.notFound path))
  | badExtension {x : Node} (found : d.find path = .ok x) (name : ¬ IsRomName path) :
      Decides d path (.error (.badExtension path))
  | openRom {cause : DiskError} (name : IsRomName path) (refuses : d.Refuses path cause) :
      Decides d path (.error (.openRom path cause))
  | directory (name : IsRomName path) (opens : d.openRead path = .ok .directory) :
      Decides d path (.error (.unreadableHeader .isDirectory))
  | short {k : Handle} (name : IsRomName path) (opens : d.openRead path = .ok (.file k))
      (size : (d.bytes k).size < 0x150) : Decides d path (.error (.unreadableHeader .endOfFile))
  | header {k : Handle} (name : IsRomName path) (opens : d.openRead path = .ok (.file k))
      (size : 0x150 ≤ (d.bytes k).size) :
      Decides d path (ofHeaderBytes path (Header.bytesIn (d.bytes k)))

variable {d : Disk} {path : String} {x : Node} {k : Handle}

theorem ofFile_of_missing (h : ∀ x, d.find path ≠ .ok x) :
    ofFile d path = .error (.notFound path) := by
  cases hf : d.find path with
  | ok x => exact absurd hf (h x)
  | error e =>
    unfold ofFile Disk.exists?
    rw [hf]
    rfl

theorem ofFile_of_not_isRomName (hn : ¬ IsRomName path) (hf : d.find path = .ok x) :
    ofFile d path = .error (.badExtension path) := by
  have hx : hasRomExtension path = false :=
    Bool.eq_false_iff.2 (mt (hasRomExtension_iff path).1 hn)
  unfold ofFile
  rw [Disk.exists?_of_find hf, hx]
  rfl

/-- The stages after the name of a ROM file. -/
theorem ofFile_of_isRomName (hn : IsRomName path) (hf : d.find path = .ok x) :
    ofFile d path =
      ((d.openRead path).mapError (.openRom path) >>= fun file =>
        (d.read file Header.start 80).mapError .unreadableHeader >>= fun raw =>
          ofHeaderBytes path (Vector.ofFn fun i => (Bytes.get? raw i).getD 0)) := by
  have hb : ∀ bytes : HeaderBytes, ofHeaderBytes path bytes =
      (Header.ofBytes bytes).mapError .badHeader >>= fun header => .ok (ofHeader path header) := by
    intro bytes
    unfold ofHeaderBytes
    cases Header.ofBytes bytes <;> rfl
  unfold ofFile
  rw [Disk.exists?_of_find hf, (hasRomExtension_iff path).2 hn]
  simp only [hb]
  rfl

theorem ofFile_of_refuses {e : DiskError} (hn : IsRomName path) (h : d.Refuses path e) :
    ofFile d path = .error (.openRom path e) := by
  obtain ⟨x, hf⟩ := Disk.find_of_refuses h
  rw [ofFile_of_isRomName hn hf, Disk.openRead_of_refuses h]
  rfl

theorem ofFile_of_read_eq_error {e : DiskError} (hn : IsRomName path)
    (ho : d.openRead path = .ok x) (hr : d.read x Header.start 80 = .error e) :
    ofFile d path = .error (.unreadableHeader e) := by
  rw [ofFile_of_isRomName hn (Disk.find_of_openRead ho), ho]
  show (d.read x Header.start 80).mapError CartridgeError.unreadableHeader >>= _ = _
  rw [hr]
  rfl

/-- The bytes that are read are the header bytes of the file. -/
theorem ofFile_of_le_size (hn : IsRomName path) (ho : d.openRead path = .ok (.file k))
    (hs : 0x150 ≤ (d.bytes k).size) :
    ofFile d path = ofHeaderBytes path (Header.bytesIn (d.bytes k)) := by
  have hr : d.read (.file k) Header.start 80 = .ok _ := Disk.read_eq_ok.2 ⟨hs, rfl⟩
  rw [ofFile_of_isRomName hn (Disk.find_of_openRead ho), ho]
  show (d.read (.file k) Header.start 80).mapError CartridgeError.unreadableHeader >>= _ = _
  rw [hr, Header.bytesIn]
  simp only [← Header.get?_extract]
  generalize ofHeaderBytes path = g
  rfl

/-- An outcome that is listed is that of the check. -/
theorem Decides.ofFile_eq {r : Except CartridgeError Cartridge} (h : Decides d path r) :
    ofFile d path = r := by
  cases h with
  | notFound missing => exact ofFile_of_missing missing
  | badExtension found name => exact ofFile_of_not_isRomName name found
  | openRom name refuses => exact ofFile_of_refuses name refuses
  | directory name opens => exact ofFile_of_read_eq_error name opens rfl
  | short name opens size =>
    exact ofFile_of_read_eq_error name opens (if_neg (Nat.not_le_of_lt size))
  | header name opens size => exact ofFile_of_le_size name opens size

/-- The list is complete: whatever is at the path, the outcome of the check is listed. -/
theorem decides_ofFile (d : Disk) (path : String) : Decides d path (ofFile d path) := by
  by_cases hf : ∃ x, d.find path = .ok x
  · obtain ⟨x, hx⟩ := hf
    by_cases hn : IsRomName path
    · rcases Disk.openRead_cases hx with ho | ⟨e, he⟩
      · cases x with
        | directory =>
          rw [ofFile_of_read_eq_error hn ho rfl]
          exact .directory hn ho
        | file k =>
          by_cases hs : 0x150 ≤ (d.bytes k).size
          · rw [ofFile_of_le_size hn ho hs]
            exact .header hn ho hs
          · rw [ofFile_of_read_eq_error hn ho (if_neg hs)]
            exact .short hn ho (Nat.lt_of_not_le hs)
      · rw [ofFile_of_refuses hn he]
        exact .openRom hn he
    · rw [ofFile_of_not_isRomName hn hx]
      exact .badExtension hx hn
  · have hm : ∀ x, d.find path ≠ .ok x := not_exists.1 hf
    rw [ofFile_of_missing hm]
    exact .notFound hm

theorem ofFile_eq_iff {r : Except CartridgeError Cartridge} :
    ofFile d path = r ↔ Decides d path r := by
  constructor
  · rintro rfl
    exact decides_ofFile d path
  · exact Decides.ofFile_eq

/-! ### Bytes that are not read -/

section

variable {b b' : ByteArray} (h : ∀ i, 0x100 ≤ i → i < 0x150 → Bytes.get? b i = Bytes.get? b' i)
include h

theorem le_size_congr : 0x150 ≤ b.size ↔ 0x150 ≤ b'.size := by
  have hlast := h 0x14F (by decide) (by decide)
  rw [← not_iff_not, Nat.not_le, Nat.not_le, Nat.lt_succ_iff, Nat.lt_succ_iff,
    ← Bytes.get?_eq_none_iff, ← Bytes.get?_eq_none_iff, hlast]

theorem bytesIn_congr : Header.bytesIn b = Header.bytesIn b' := by
  have hi (i : Fin 80) : Bytes.get? b (Header.start + i) = Bytes.get? b' (Header.start + i) :=
    h _ (Nat.le_add_right _ _) (Nat.add_lt_add_left i.isLt 0x100)
  simp only [Header.bytesIn, hi]

end

/-- Only the header of a file matters. -/
theorem ofFile_congr {d' : Disk} {k' : Handle} (ho : d.openRead path = .ok (.file k))
    (ho' : d'.openRead path = .ok (.file k'))
    (h : ∀ i, 0x100 ≤ i → i < 0x150 → Bytes.get? (d.bytes k) i = Bytes.get? (d'.bytes k') i) :
    ofFile d path = ofFile d' path := by
  have hsize := le_size_congr h
  by_cases hn : IsRomName path
  · by_cases hs : 0x150 ≤ (d.bytes k).size
    · rw [ofFile_of_le_size hn ho hs, ofFile_of_le_size hn ho' (hsize.1 hs), bytesIn_congr h]
    · rw [ofFile_of_read_eq_error hn ho (if_neg hs),
        ofFile_of_read_eq_error hn ho' (if_neg (mt hsize.2 hs))]
  · rw [ofFile_of_not_isRomName hn (Disk.find_of_openRead ho),
      ofFile_of_not_isRomName hn (Disk.find_of_openRead ho')]

/-! ### Save files -/

/-- A cartridge is that of a ROM file with a header that was checked. -/
theorem exists_header_of_ofFile {c : Cartridge} (h : ofFile d path = .ok c) :
    IsRomName path ∧ ∃ k header, d.openRead path = .ok (.file k) ∧
      Header.ofBytes (Header.bytesIn (d.bytes k)) = .ok header ∧ c = ofHeader path header := by
  have hd := ofFile_eq_iff.1 h
  -- A variable for the result keeps the header bytes from being evaluated.
  generalize hr : Except.ok c = r at hd
  cases hd with
  | header name opens size =>
    unfold ofHeaderBytes at hr
    split at hr
    · cases hr
    · next header hread => exact ⟨name, _, header, opens, hread, Except.ok.inj hr⟩
  | _ => cases hr

theorem fields_of_ofFile {c : Cartridge} (h : ofFile d path = .ok c) :
    c.romPath = path ∧ c.savePath.isSome = c.hasBattery ∧
      (c.ramBanks = if c.header.ramBanks = 0 then c.header.controller.builtInRamBanks
        else c.header.ramBanks) := by
  obtain ⟨-, k, header, -, -, rfl⟩ := exists_header_of_ofFile h
  refine ⟨rfl, ?_, rfl⟩
  unfold ofHeader hasBattery
  dsimp only
  cases header.controller.hasBattery <;> rfl

/-- The path of a cartridge has a directory part, a stem and an extension. -/
theorem exists_hasParts_of_ofFile {c : Cartridge} (h : ofFile d path = .ok c) :
    ∃ dir stem ext, Path.HasParts path dir stem ext := by
  obtain ⟨hn, k, -, ho, -⟩ := exists_header_of_ofFile h
  obtain ⟨ext, hext, h0, -⟩ := exists_extension ((hasRomExtension_iff path).2 hn)
  obtain ⟨dir, stem, hp⟩ :=
    Path.exists_hasParts (Disk.asksDirectory_of_find (Disk.find_of_openRead ho)) hext h0
  exact ⟨dir, stem, ext, hp⟩

/-- The save path is not that of the ROM file, and does not lead to it under another name. -/
theorem savePath_of_ofFile {c : Cartridge} {p : String} (h : ofFile d path = .ok c)
    (hp : c.savePath = some p) :
    p = Path.withExtension path saveExtension ∧ p ≠ path ∧
      ∀ k, d.find path = .ok (.file k) → d.HasOneName k → d.find p ≠ .ok (.file k) := by
  obtain ⟨-, hx, -, hsave, -⟩ := ofFile_spec h
  obtain ⟨ext, hext, h0, hne⟩ := exists_extension hx
  have hsave : p = Path.withExtension path saveExtension := hsave p hp
  refine ⟨hsave, ?_, fun k hk hu => ?_⟩
  · rw [hsave]
    exact Path.withExtension_ne (e := ['s', 'a']) hext h0 hne (by decide) (by decide)
  · rw [hsave]
    exact find_savePath_ne hu hx hk

/-- A cartridge has no more RAM than its header can count. -/
theorem ramBanks_le_of_ofFile {c : Cartridge} (h : ofFile d path = .ok c) : c.ramBanks ≤ 16 := by
  obtain ⟨-, k, header, -, hread, rfl⟩ := exists_header_of_ofFile h
  have hcounted := (Header.says_of_ofBytes hread).ramBanks_le
  have hbuiltIn := header.controller.builtInRamBanks_le
  unfold ramBanks ofHeader
  dsimp only
  split <;> omega

/-- Setting up the RAM of a cartridge fails only where its save file cannot be opened: the cartridge
has a path for it, and its RAM is not too large for a file. -/
theorem attachRam_eq_error_of_ofFile {c : Cartridge} {b b' : Board} {cause : MemoryError}
    (h : ofFile d path = .ok c)
    (ha : b.attachRam c.ramBanks c.hasBattery c.savePath = (.error cause, b')) :
    ∃ p e, c.savePath = some p ∧ b.disk.openOrCreate p = .error e ∧ cause = .saveOpen p e := by
  obtain ⟨-, hsome, -⟩ := fields_of_ofFile h
  obtain ⟨hsetup, -⟩ := Board.attachRam_eq_error ha
  cases hp : c.savePath with
  | none =>
    -- Without a save path there is no battery, and the RAM is in memory.
    rw [hp] at hsome
    have hb : c.hasBattery = false := hsome.symm
    unfold Board.attachRam at ha
    rw [hb, Bool.false_and, if_neg Bool.false_ne_true] at ha
    cases ha
  | some p =>
    rw [hp] at hsetup
    cases hsetup with
    | saveOpen hopen => exact ⟨p, _, rfl, hopen, rfl⟩
    | saveResize hlen =>
      have hbanks := ramBanks_le_of_ofFile h
      unfold Disk.lengthLimit CartridgeRam.bankSize at hlen
      omega

/-- Where the save path leads to a directory no save file is opened, and nothing changes. -/
theorem load_of_directory {c : Cartridge} {b : Board} {p : String} (hb : c.hasBattery = true)
    (h0 : c.ramBanks ≠ 0) (hp : c.savePath = some p) (hd : b.disk.find p = .ok .directory) :
    c.load b = (.error (.saveFile (.saveOpen p .isDirectory)), b) := by
  have hopen : b.disk.openOrCreate p = .error .isDirectory := Disk.openOrCreate_of_directory hd
  have hsave : CartridgeRam.openSave p c.ramBanks b.disk =
      (.error (.saveOpen p .isDirectory), b.disk) := by
    rw [CartridgeRam.openSave, if_neg h0, hopen]
  have hneeds : (c.hasBattery && c.ramBanks != 0) = true := by
    rw [hb, Bool.true_and]
    exact bne_iff_ne.2 h0
  apply load_of_attachRam_eq_error
  unfold Board.attachRam
  rw [if_pos hneeds, hp]
  dsimp only
  rw [hsave]

/-- With a single dot as its stem a ROM file has no name for its save file: the save path leads to a
directory. -/
theorem savePath_of_dot {c : Cartridge} {p : String} {dir : List Char} {ext : Name}
    (h : ofFile d path = .ok c) (hp : c.savePath = some p)
    (hparts : Path.HasParts path dir ['.'] ext) :
    p = String.ofList (dir ++ ['.', '.']) ∧ d.find p = .ok .directory ∧
      (c.ramBanks ≠ 0 → ∀ b : Board, b.disk = d →
        c.load b = (.error (.saveFile (.saveOpen p .isDirectory)), b)) := by
  obtain ⟨-, hsome, -⟩ := fields_of_ofFile h
  obtain ⟨-, k, -, ho, -⟩ := exists_header_of_ofFile h
  have hsave : p = String.ofList (dir ++ ['.', '.']) :=
    (savePath_of_ofFile h hp).1.trans (hparts.withExtension_of_dot saveExtension)
  have hfind : d.find path = .ok (.file k) := Disk.find_of_openRead ho
  rw [hparts.text] at hfind
  have hdir : d.find p = .ok .directory := by
    rw [hsave]
    exact Disk.find_dots hparts.directory hparts.last hfind
  refine ⟨hsave, hdir, fun h0 b hd => ?_⟩
  refine load_of_directory (by rw [← hsome, hp]; rfl) h0 hp ?_
  rw [hd]
  exact hdir

end Cartridge

/-! ### Sessions -/

namespace Console

variable {path : String} {d : Disk}

/-- A session that fails in the check leaves the disk as it is. -/
theorem start_of_ofFile_eq_error {e : CartridgeError} (h : Cartridge.ofFile d path = .error e)
    (options : Options) (j : Journal) : ∃ j', start path options d j = .error ⟨e, d, j'⟩ := by
  unfold start
  rw [h]
  exact ⟨_, rfl⟩

/-- A session loads what was checked, from the disk that it was checked on. -/
theorem start_of_ofFile {c : Cartridge} (h : Cartridge.ofFile d path = .ok c) (options : Options)
    (j : Journal) :
    (∃ e b j', c.load { disk := d } = (.error e, b) ∧
      start path options d j = .error ⟨e, b.disk, j'⟩) ∨
    ∃ b s, c.load { disk := d } = (.ok (), b) ∧ start path options d j = .ok s ∧
      s.cartridge = c := by
  unfold start
  dsimp only
  rw [h]
  rcases hl : c.load { disk := d } with ⟨_ | _, b⟩
  · exact .inl ⟨_, b, _, rfl, by dsimp only; rw [hl]⟩
  · exact .inr ⟨b, _, rfl, by dsimp only; rw [hl], rfl⟩

end Console

namespace Cartridge

/-- The first stage that fails decides what becomes of what a disk has at a path. Of a file that can
be opened the header bytes alone matter. A cartridge has a save file if it has a battery, and the
path of the save file is that of the ROM file with another extension, which is another path; where
the ROM file has no other name, it leads to another file. The extension is what follows the last dot
of the file name. The banks of RAM are those that the header counts, or those of the controller if
it counts none. If the stem before the last dot is itself a single dot, what is left without the
extension is no file name: the save path leads to a directory, and with RAM in a save file the load
fails and changes nothing. The check makes and changes nothing on the disk: a session that fails in
it leaves the disk as it was, and one that does not loads from that disk. -/
theorem ofFile_decides (d : Disk) (path : String) :
    (∀ r, ofFile d path = r ↔ Decides d path r) ∧
    (∀ d' k k', d.openRead path = .ok (.file k) → d'.openRead path = .ok (.file k') →
      (∀ i, 0x100 ≤ i → i < 0x150 → Bytes.get? (d.bytes k) i = Bytes.get? (d'.bytes k') i) →
      ofFile d path = ofFile d' path) ∧
    (∀ c, ofFile d path = .ok c →
      c.romPath = path ∧ c.savePath.isSome = c.hasBattery ∧
      (c.ramBanks = if c.header.ramBanks = 0 then c.header.controller.builtInRamBanks
        else c.header.ramBanks) ∧
      (∃ dir stem ext, Path.HasParts path dir stem ext) ∧
      ∀ p, c.savePath = some p → p = Path.withExtension path saveExtension ∧ p ≠ path ∧
        (∀ k, d.find path = .ok (.file k) → d.HasOneName k → d.find p ≠ .ok (.file k)) ∧
        ∀ dir stem ext, Path.HasParts path dir stem ext → stem ≠ ['.'] →
          p = String.ofList (dir ++ (stem ++ '.' :: saveExtension))) ∧
    (∀ c p dir ext, ofFile d path = .ok c → c.savePath = some p →
      Path.HasParts path dir ['.'] ext →
        p = String.ofList (dir ++ ['.', '.']) ∧ d.find p = .ok .directory ∧
        (c.ramBanks ≠ 0 → ∀ b : Board, b.disk = d →
          c.load b = (.error (.saveFile (.saveOpen p .isDirectory)), b))) ∧
    ∀ options j,
      (∀ e, ofFile d path = .error e → ∃ j', Console.start path options d j = .error ⟨e, d, j'⟩) ∧
      ∀ c, ofFile d path = .ok c →
        (∃ e b j', c.load { disk := d } = (.error e, b) ∧
          Console.start path options d j = .error ⟨e, b.disk, j'⟩) ∨
        ∃ b s, c.load { disk := d } = (.ok (), b) ∧ Console.start path options d j = .ok s ∧
          s.cartridge = c := by
  refine ⟨fun r => ofFile_eq_iff, fun d' k k' ho ho' h => ofFile_congr ho ho' h, fun c h => ?_,
    fun c p dir ext h hp hparts => ?_, fun options j =>
    ⟨fun e he => Console.start_of_ofFile_eq_error he options j,
      fun c hc => Console.start_of_ofFile hc options j⟩⟩
  · obtain ⟨hromPath, hsome, hbanks⟩ := fields_of_ofFile h
    refine ⟨hromPath, hsome, hbanks, exists_hasParts_of_ofFile h, fun p hp => ?_⟩
    obtain ⟨hsave, hne, hfile⟩ := savePath_of_ofFile h hp
    refine ⟨hsave, hne, hfile, fun dir stem ext hparts hdot => ?_⟩
    rw [hsave]
    exact hparts.withExtension_eq hdot saveExtension
  · exact savePath_of_dot h hp hparts

/-- A ROM with a battery and a bank of RAM, and the same file where it cannot be opened. -/
theorem ofFile_decides_of_battery :
    let d := Disk.putFile {} "a.gb" shortRom
    let closed := d.close "a.gb" .permissionDenied
    Decides d "a.gb" (.ok fourBanks) ∧ fourBanks.hasBattery = true ∧
      "a.sav" = Path.withExtension "a.gb" saveExtension ∧ "a.sav" ≠ "a.gb" ∧
      fourBanks.ramBanks = 1 ∧
      Decides closed "a.gb" (.error (.openRom "a.gb" .permissionDenied)) := by
  intro d closed
  obtain ⟨hiff, -, hspec, -⟩ := ofFile_decides d "a.gb"
  obtain ⟨hiff', -⟩ := ofFile_decides closed "a.gb"
  obtain ⟨-, hbattery, hbanks, -, hsave⟩ := hspec _ ofFile_shortRom
  obtain ⟨hpath, hne, -⟩ := hsave "a.sav" rfl
  have hclosed : ofFile closed "a.gb" = .error (.openRom "a.gb" .permissionDenied) := by
    decide +kernel
  exact ⟨(hiff _).1 ofFile_shortRom, hbattery.symm, hpath, hne, hbanks, (hiff' _).1 hclosed⟩

end Cartridge

end DotMatrix
