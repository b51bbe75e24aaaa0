import DotMatrix.Proofs.Disk.Lookup

/-!
# The file at a path

A file that a path leads to, followed through what is done to the disk.

* `d.FileAt path k b` says that the path leads to the file `k`, and that its bytes are `b`.
* `d.IsFree path` says that a file can be made at the path, and `d.CanHold path` that there is one
  or that it can be made.
* `exists_openOrCreate` says that it can then be opened, and `FileAt.setLength` and `FileAt.putByte`
  say what becomes of its bytes.
-/

namespace DotMatrix.Disk

/-- A path leads to a file with the bytes `b`, which can be opened. -/
structure FileAt (d : Disk) (path : String) (k : Handle) (b : ByteArray) : Prop where
  opens : d.openRead path = .ok (.file k)
  contents : d.contents[k]? = some b

/-- A path leads to an empty place in a directory, where a file can be made. -/
def IsFree (d : Disk) (path : String) : Prop :=
  ∃ l, d.resolve path = .ok l ∧ d.node? l = none ∧ d.refusal? l = none

/-- There is a file at a path that can be opened, or one can be made there. -/
def CanHold (d : Disk) (path : String) : Prop := d.IsFree path ∨ ∃ k b, d.FileAt path k b

variable {d : Disk} {path : String} {k : Handle} {b : ByteArray}

namespace FileAt

theorem bytes_eq (h : d.FileAt path k b) : d.bytes k = b := by
  rw [bytes, Array.getD_eq_getD_getElem?, h.contents, Option.getD_some]

theorem contents?_eq (h : d.FileAt path k b) : d.contents? path = some b :=
  contents_eq_some.2 ⟨k, find_of_openRead h.opens, h.bytes_eq⟩

theorem canHold (h : d.FileAt path k b) : d.CanHold path := .inr ⟨k, b, h⟩

theorem byte_eq (h : d.FileAt path k b) {i : Nat} {v : UInt8} (hv : Bytes.get? b i = some v) :
    d.byte k i = .ok v := by
  rw [byte, h.bytes_eq, hv]

/-- Changing the contents of a file leaves it where it is. -/
theorem modify (h : d.FileAt path k b) (g : ByteArray → ByteArray) :
    ({ d with contents := d.contents.modify k g } : Disk).FileAt path k (g b) where
  opens :=
    have he : Extends { d with contents := d.contents.modify k g } d := ⟨fun _ _ hx => hx, rfl⟩
    openRead_of_extends he h.opens
  contents := by
    show (d.contents.modify k g)[k]? = some (g b)
    rw [Array.getElem?_modify, if_pos rfl, h.contents, Option.map_some]

theorem putByte (h : d.FileAt path k b) (i : Nat) (v : UInt8) :
    (d.putByte k i v).FileAt path k (Bytes.put b i v) := h.modify (Bytes.put · i v)

theorem setLength (h : d.FileAt path k b) {n : Nat} (hn : n < lengthLimit) :
    ∃ d', d.setLength k n = (.ok (), d') ∧ d'.FileAt path k (Bytes.resize b n) :=
  ⟨_, if_pos hn, h.modify (Bytes.resize · n)⟩

theorem openOrCreate_eq (h : d.FileAt path k b) : d.openOrCreate path = .ok (k, d) := by
  obtain ⟨l, hl, hk, hr⟩ := openRead_eq_ok.1 h.opens
  refine bind_eq_ok.2 ⟨l, hl, ?_⟩
  rw [hk, hr]
  rfl

end FileAt

theorem contents?_of_isFree (h : d.IsFree path) : d.contents? path = none := by
  obtain ⟨l, hl, hn, -⟩ := h
  refine Option.eq_none_iff_forall_ne_some.2 fun b hb => ?_
  obtain ⟨k, hk, -⟩ := contents_eq_some.1 hb
  obtain ⟨l', hl', hk⟩ := find_eq_ok.1 hk
  rw [hl] at hl'
  cases hl'
  rw [hn] at hk
  cases hk

/-- A file that is made is in the place that its path leads to. -/
theorem node_addFile {l : Location} (hn : d.node? l = none) (k : Handle)
    (contents : Array ByteArray) :
    ({ d with files := (l, k) :: d.files, contents := contents } : Disk).node? l =
      some (.file k) := by
  unfold node? at hn ⊢
  split at hn
  · cases hn
  · next hl =>
    rw [if_neg hl, List.lookup_cons_self, Option.map_some]

/-- Where there is a file, or can be one, opening gives it, or makes one without bytes. -/
theorem exists_openOrCreate (h : d.CanHold path) :
    ∃ k d', d.openOrCreate path = .ok (k, d') ∧
      d'.FileAt path k ((d.contents? path).getD .empty) := by
  obtain hfree | ⟨k, b, hk⟩ := h
  · rw [contents?_of_isFree hfree, Option.getD_none]
    obtain ⟨l, hl, hn, hr⟩ := hfree
    refine ⟨d.contents.size, _, bind_eq_ok.2 ⟨l, hl, by rw [hn, hr]; rfl⟩, ?_, ?_⟩
    · exact openRead_eq_ok.2
        ⟨l, resolve_of_extends (extends_addFile hn _ _) hl, node_addFile hn _ _, hr⟩
    · exact Array.getElem?_push_size
  · rw [hk.contents?_eq, Option.getD_some]
    exact ⟨k, d, hk.openOrCreate_eq, hk⟩

end DotMatrix.Disk
