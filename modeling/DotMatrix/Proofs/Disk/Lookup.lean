import DotMatrix.Disk.Basic
import DotMatrix.Proofs.Disk.Path

/-!
# What paths lead to

A path is resolved by a walk along its components, and what it leads to is found in the place where
the walk ends.

* `walk_cons` is one step of a walk; `walk_concat` says that the last component is followed without
  being looked up. `d.IsRooted l` is what a walk through directories keeps.
* `d.Refuses path e` says that there is something at a path that cannot be opened. What is there is
  opened or refuses (`openRead_cases`).
* `d'.Extends d` says that `d'` has all that `d` has, in the same places. The paths of `d` then lead
  to the same (`find_of_extends`). `openOrCreate_spec` says what opening a file makes of a disk.
* `resolve_withExtension_ne` says that a path with another extension leads to another place, and
  `d.HasOneName k` that no other place has the file `k`.
-/

namespace DotMatrix

/-! ### Results -/

section Results

variable {α β ε ε' : Type}

theorem bind_eq_ok {x : Except ε α} {g : α → Except ε β} {b : β} :
    x >>= g = .ok b ↔ ∃ a, x = .ok a ∧ g a = .ok b := by
  cases x with
  | error e => exact ⟨nofun, nofun⟩
  | ok a =>
    refine ⟨fun h => ⟨a, rfl, h⟩, ?_⟩
    rintro ⟨a, ⟨⟩, h⟩
    exact h

theorem mapError_eq_ok {x : Except ε α} {f : ε → ε'} {a : α} :
    x.mapError f = .ok a ↔ x = .ok a := by
  cases x with
  | error e => exact ⟨nofun, nofun⟩
  | ok b => simp [Except.mapError]

end Results

namespace Disk

variable {d d' : Disk} {l l' : Location} {n : Name} {ns : List Name} {whole : Bool} {path : String}

/-! ### Walks -/

/-- One step of a walk. The last component is not looked up, unless the path asks for it. -/
theorem walk_cons : d.walk whole l (n :: ns) = .ok l' ↔ isTooLong n = false ∧
    if ns = [] ∧ whole = false then l.follow n = l'
    else d.node? (l.follow n) = some .directory ∧ d.walk whole (l.follow n) ns = .ok l' := by
  rw [walk]
  cases hn : isTooLong n with
  | true => simp
  | false =>
    by_cases hl : ns = [] ∧ whole = false
    · simp [hl]
    · have hl' : ¬ (ns = [] ∧ (!whole) = true) := by simpa using hl
      rw [if_neg Bool.false_ne_true, if_neg hl, if_neg hl']
      cases d.node? (l.follow n) with
      | none => simp
      | some x => cases x <;> simp

/-- One step of a walk that looks up every component. -/
theorem walk_true_cons : d.walk true l (n :: ns) = .ok l' ↔ isTooLong n = false ∧
    d.node? (l.follow n) = some .directory ∧ d.walk true (l.follow n) ns = .ok l' := by
  rw [walk_cons, if_neg (by simp)]

/-- The last component is followed from the directory that the others lead to. -/
theorem walk_concat : d.walk false l (ns ++ [n]) = .ok l' ↔
    isTooLong n = false ∧ ∃ p, d.walk true l ns = .ok p ∧ l' = p.follow n := by
  induction ns generalizing l with
  | nil =>
    rw [List.nil_append, walk_cons, if_pos ⟨rfl, rfl⟩]
    refine and_congr_right fun _ => ⟨fun h => ⟨l, rfl, h.symm⟩, ?_⟩
    rintro ⟨p, hp, rfl⟩
    obtain rfl : l = p := Except.ok.inj hp
    rfl
  | cons m ns ih =>
    rw [List.cons_append, walk_cons, if_neg (by simp), ih]
    constructor
    · rintro ⟨hm, hdir, hn, p, hp, rfl⟩
      exact ⟨hn, p, walk_true_cons.2 ⟨hm, hdir, hp⟩, rfl⟩
    · rintro ⟨hn, p, hp, rfl⟩
      obtain ⟨hm, hdir, hw⟩ := walk_true_cons.1 hp
      exact ⟨hm, hdir, hn, p, hw, rfl⟩

/-- A place is a directory, and so are all places above it. -/
def IsRooted (d : Disk) (l : Location) : Prop :=
  ∀ names, names <:+ l.names → d.node? { l with names := names } = some .directory

theorem IsRooted.node (h : d.IsRooted l) : d.node? l = some .directory :=
  h l.names (List.suffix_refl _)

theorem isRooted_of_names_eq_nil (h : l.names = []) : d.IsRooted l := by
  intro names hs
  rw [h, List.suffix_nil] at hs
  exact if_pos (.inl hs)

theorem IsRooted.parent (h : d.IsRooted l) : d.IsRooted l.parent := by
  unfold Location.parent
  split
  · next m ms hm =>
    intro names hs
    exact h names (hm ▸ hs.trans (List.suffix_cons m ms))
  · next hn => exact isRooted_of_names_eq_nil hn

theorem IsRooted.follow (h : d.IsRooted l) (hn : d.node? (l.follow n) = some .directory) :
    d.IsRooted (l.follow n) := by
  unfold Location.follow at hn ⊢
  split
  · exact h.parent
  · next hdots =>
    rw [if_neg hdots] at hn
    intro names hs
    -- Either the new place itself, or one that was above it before.
    rcases List.suffix_cons_iff.1 hs with rfl | hs
    · exact hn
    · exact h names hs

/-- A walk that looks up every component leads to a directory, through directories. -/
theorem isRooted_of_walk (h : d.walk true l ns = .ok l') (hl : d.IsRooted l) : d.IsRooted l' := by
  induction ns generalizing l with
  | nil =>
    cases h
    exact hl
  | cons n ns ih =>
    obtain ⟨-, hdir, hw⟩ := walk_true_cons.1 h
    exact ih hw (hl.follow hdir)

/-! ### Paths -/

/-- Text that may stand for a path. -/
structure IsPathText (path : String) : Prop where
  ne_empty : path ≠ ""
  noNul : ¬ path.toList.contains '\x00' = true
  size : path.utf8ByteSize < pathLimit

/-- The beginning of a path may stand for a path too. -/
theorem IsPathText.of_append {cs cs' : List Char} (h : IsPathText (String.ofList (cs ++ cs')))
    (hc : cs ≠ []) : IsPathText (String.ofList cs) where
  ne_empty he := hc (by simpa using he)
  noNul hn := h.noNul (by simp_all)
  size := by
    have hs := h.size
    rw [String.ofList_append, String.utf8ByteSize_append] at hs
    omega

/-- A path is resolved by a walk. -/
theorem resolve_eq_ok : d.resolve path = .ok l ↔ IsPathText path ∧
    d.walk (Path.asksDirectory path) (Location.start path) (Path.components path) = .ok l := by
  unfold resolve
  split
  · next h => exact ⟨nofun, fun hw => absurd h hw.1.ne_empty⟩
  · next h =>
    split
    · next h' => exact ⟨nofun, fun hw => absurd h' hw.1.noNul⟩
    · next h' =>
      split
      · next hs => exact ⟨nofun, fun hw => absurd hs (Nat.not_le.2 hw.1.size)⟩
      · next hs => exact ⟨fun hw => ⟨⟨h, h', Nat.lt_of_not_le hs⟩, hw⟩, And.right⟩

theorem find_eq_ok {x : Node} :
    d.find path = .ok x ↔ ∃ l, d.resolve path = .ok l ∧ d.node? l = some x := by
  rw [find, bind_eq_ok]
  refine exists_congr fun l => and_congr_right fun _ => ?_
  cases d.node? l with
  | none => exact ⟨nofun, nofun⟩
  | some y => simp [pure, Except.pure]

theorem exists?_of_find {x : Node} (h : d.find path = .ok x) : d.exists? path = true := by
  rw [exists?, h]
  rfl

/-- There is something at a path, and it refuses to be opened. -/
def Refuses (d : Disk) (path : String) (e : DiskError) : Prop :=
  ∃ l x, d.resolve path = .ok l ∧ d.node? l = some x ∧ d.refusal? l = some e

/-- What can be opened is there, and does not refuse. -/
theorem openRead_eq_ok {x : Node} : d.openRead path = .ok x ↔
    ∃ l, d.resolve path = .ok l ∧ d.node? l = some x ∧ d.refusal? l = none := by
  rw [openRead, bind_eq_ok]
  refine exists_congr fun l => and_congr_right fun _ => ?_
  cases d.node? l with
  | none => exact ⟨nofun, nofun⟩
  | some y =>
    cases d.refusal? l with
    | none => simp [pure, Except.pure]
    | some e => exact ⟨nofun, nofun⟩

theorem find_of_openRead {x : Node} (h : d.openRead path = .ok x) : d.find path = .ok x := by
  obtain ⟨l, hl, hx, -⟩ := openRead_eq_ok.1 h
  exact find_eq_ok.2 ⟨l, hl, hx⟩

theorem find_of_refuses {e : DiskError} (h : d.Refuses path e) : ∃ x, d.find path = .ok x := by
  obtain ⟨l, x, hl, hx, -⟩ := h
  exact ⟨x, find_eq_ok.2 ⟨l, hl, hx⟩⟩

theorem openRead_of_refuses {e : DiskError} (h : d.Refuses path e) :
    d.openRead path = .error e := by
  obtain ⟨l, x, hl, hx, he⟩ := h
  rw [openRead, hl]
  simp only [bind, Except.bind, hx, he]
  rfl

/-- What is there is opened, or refuses. -/
theorem openRead_cases {x : Node} (h : d.find path = .ok x) :
    d.openRead path = .ok x ∨ ∃ e, d.Refuses path e := by
  obtain ⟨l, hl, hx⟩ := find_eq_ok.1 h
  cases he : d.refusal? l with
  | none => exact .inl (openRead_eq_ok.2 ⟨l, hl, hx, he⟩)
  | some e => exact .inr ⟨e, l, x, hl, hx, he⟩

/-- A path that leads to a file does not ask for a directory. -/
theorem asksDirectory_of_find {k : Handle} (h : d.find path = .ok (.file k)) :
    Path.asksDirectory path = false := by
  obtain ⟨l, hl, hk⟩ := find_eq_ok.1 h
  cases hd : Path.asksDirectory path with
  | false => rfl
  | true =>
    have hw := (resolve_eq_ok.1 hl).2
    rw [hd] at hw
    rw [(isRooted_of_walk hw (isRooted_of_names_eq_nil rfl)).node] at hk
    cases hk

theorem contents_eq_some {b : ByteArray} :
    d.contents? path = some b ↔ ∃ k, d.find path = .ok (.file k) ∧ d.bytes k = b := by
  unfold contents?
  split
  · next k hk =>
    rw [hk]
    refine ⟨fun h => ⟨k, rfl, Option.some.inj h⟩, ?_⟩
    rintro ⟨k', ⟨⟩, rfl⟩
    rfl
  · next hn => exact ⟨nofun, fun ⟨k, hk, _⟩ => absurd hk (hn k)⟩

/-! ### Growth -/

/-- What is found in one disk is found in the same place in another, and the same places refuse to
be opened. -/
structure Extends (d' d : Disk) : Prop where
  node : ∀ l x, d.node? l = some x → d'.node? l = some x
  closed : d'.closed = d.closed

theorem Extends.refl (d : Disk) : d.Extends d := ⟨fun _ _ h => h, rfl⟩

theorem Extends.trans {d'' : Disk} (h : d''.Extends d') (h' : d'.Extends d) : d''.Extends d where
  node l x hx := h.node l x (h'.node l x hx)
  closed := h.closed.trans h'.closed

theorem walk_of_extends (h : d'.Extends d) (hw : d.walk whole l ns = .ok l') :
    d'.walk whole l ns = .ok l' := by
  induction ns generalizing l with
  | nil => exact hw
  | cons n ns ih =>
    obtain ⟨hn, hw⟩ := walk_cons.1 hw
    refine walk_cons.2 ⟨hn, ?_⟩
    split at hw
    · next hl =>
      rw [if_pos hl]
      exact hw
    · next hl =>
      rw [if_neg hl]
      exact ⟨h.node _ _ hw.1, ih hw.2⟩

theorem resolve_of_extends (h : d'.Extends d) (hr : d.resolve path = .ok l) :
    d'.resolve path = .ok l :=
  resolve_eq_ok.2 ((resolve_eq_ok.1 hr).imp_right (walk_of_extends h))

theorem find_of_extends {x : Node} (h : d'.Extends d) (hf : d.find path = .ok x) :
    d'.find path = .ok x := by
  obtain ⟨l, hl, hx⟩ := find_eq_ok.1 hf
  exact find_eq_ok.2 ⟨l, resolve_of_extends h hl, h.node l x hx⟩

theorem refusal?_of_extends (h : d'.Extends d) (l : Location) : d'.refusal? l = d.refusal? l := by
  rw [refusal?, h.closed, refusal?]

theorem openRead_of_extends {x : Node} (h : d'.Extends d) (ho : d.openRead path = .ok x) :
    d'.openRead path = .ok x := by
  obtain ⟨l, hl, hx, hr⟩ := openRead_eq_ok.1 ho
  exact openRead_eq_ok.2
    ⟨l, resolve_of_extends h hl, h.node l x hx, (refusal?_of_extends h l).trans hr⟩

/-- Opening a file changes nothing, or makes an empty one in a place that was empty. -/
theorem openOrCreate_cases {k : Handle} (h : d.openOrCreate path = .ok (k, d')) :
    ∃ l, d.resolve path = .ok l ∧ d.refusal? l = none ∧
      (d.node? l = some (.file k) ∧ d' = d ∨
        d.node? l = none ∧ k = d.contents.size ∧
          d' =
            { d with
              files := (l, d.contents.size) :: d.files
              contents := d.contents.push .empty }) := by
  obtain ⟨l, hl, h⟩ := bind_eq_ok.1 h
  refine ⟨l, hl, ?_⟩
  cases hr : d.refusal? l with
  | some e =>
    rcases hx : d.node? l with _ | _ | _ <;>
      · rw [hx, hr] at h
        cases h
  | none =>
    refine ⟨rfl, ?_⟩
    cases hx : d.node? l with
    | none =>
      rw [hx, hr] at h
      cases h
      exact .inr ⟨rfl, rfl, rfl⟩
    | some x =>
      rw [hx, hr] at h
      cases x with
      | directory => cases h
      | file k' =>
        cases h
        exact .inl ⟨rfl, rfl⟩

theorem openOrCreate_of_directory (h : d.find path = .ok .directory) :
    d.openOrCreate path = .error .isDirectory := by
  obtain ⟨l, hl, hx⟩ := find_eq_ok.1 h
  rw [openOrCreate, hl]
  simp only [bind, Except.bind, hx]
  rfl

theorem extends_addFile (hl : d.node? l = none) (k : Handle) (contents : Array ByteArray) :
    ({ d with files := (l, k) :: d.files, contents := contents } : Disk).Extends d := by
  refine ⟨fun l' x hx => ?_, rfl⟩
  -- The new file is not in a place where something was found.
  have hn : l' ≠ l := by
    rintro rfl
    rw [hl] at hx
    cases hx
  unfold node? at hx ⊢
  rw [List.lookup_cons, beq_eq_false_iff_ne.2 hn]
  exact hx

/-! ### Contents -/

/-- A file that has bytes is one of the files of the disk. -/
theorem lt_of_bytes {k : Handle} (h : 0 < (d.bytes k).size) : k < d.contents.size := by
  refine Nat.lt_of_not_le fun hk => ?_
  have he : d.bytes k = .empty := by
    rw [bytes, Array.getD_eq_getD_getElem?, Array.getElem?_eq_none hk, Option.getD_none]
  rw [he] at h
  exact absurd h (by decide)

/-- A read gives bytes that the file has. -/
theorem read_eq_ok {k : Handle} {i n : Nat} {b : ByteArray} :
    d.read (.file k) i n = .ok b ↔
      i + n ≤ (d.bytes k).size ∧ b = (d.bytes k).extract i (i + n) := by
  rw [read]
  split
  · next h => exact ⟨fun hb => ⟨h, (Except.ok.inj hb).symm⟩, fun hb => congrArg _ hb.2.symm⟩
  · next h => exact ⟨nofun, fun hb => absurd hb.1 h⟩

theorem bytes_setLength {k : Handle} {size : Nat} (h : d.setLength k size = (.ok (), d'))
    {i : Handle} (hi : i < d.contents.size) :
    d'.bytes i = if k = i then Bytes.resize (d.bytes i) size else d.bytes i := by
  unfold setLength at h
  split at h <;> cases h
  simp only [bytes, Array.getD_eq_getD_getElem?, Array.getElem?_modify]
  split <;> simp [hi]

theorem extends_setLength {k : Handle} {size : Nat} (h : d.setLength k size = (.ok (), d')) :
    d'.Extends d := by
  unfold setLength at h
  split at h <;> cases h
  exact ⟨fun _ _ hx => hx, rfl⟩

/-- Opening a file changes no bytes; one that is made has none. -/
theorem bytes_openOrCreate {k : Handle} (h : d.openOrCreate path = .ok (k, d')) (i : Handle) :
    d'.bytes i = d.bytes i := by
  obtain ⟨l, -, -, ⟨-, rfl⟩ | ⟨-, -, rfl⟩⟩ := openOrCreate_cases h
  · rfl
  · simp only [bytes, Array.getD_eq_getD_getElem?, Array.getElem?_push]
    by_cases hi : i = d.contents.size
    · simp [hi]
    · rw [if_neg hi]

/-- Opening a file finds the one that the path leads to, or makes a new one. The others are as they
were. -/
theorem openOrCreate_spec {k : Handle} (h : d.openOrCreate path = .ok (k, d')) :
    d'.Extends d ∧ d.contents.size ≤ d'.contents.size ∧
      (k = d.contents.size ∨ d.find path = .ok (.file k)) ∧
      ∀ i < d.contents.size, d'.bytes i = d.bytes i := by
  obtain ⟨l, hl, -, ⟨hk, rfl⟩ | ⟨hn, rfl, rfl⟩⟩ := openOrCreate_cases h
  · exact ⟨.refl _, Nat.le_refl _, .inr (find_eq_ok.2 ⟨l, hl, hk⟩), fun _ _ => rfl⟩
  · refine ⟨extends_addFile hn _ _, ?_, .inl rfl, fun i _ => bytes_openOrCreate h i⟩
    rw [Array.size_push]
    exact Nat.le_succ _

/-! ### Names of a file -/

/-- A file is not found in two places. -/
def HasOneName (d : Disk) (k : Handle) : Prop :=
  ∀ l l', d.node? l = some (.file k) → d.node? l' = some (.file k) → l = l'

theorem follow_ne (p : Location) {n n' : Name} (hn : n ≠ ['.', '.']) (h : n' ≠ n) :
    p.follow n' ≠ p.follow n := by
  intro he
  rw [Location.follow, Location.follow, if_neg hn] at he
  split at he
  · -- Above a directory there are fewer names than below it.
    have hl := congrArg (fun l => l.names.length) he
    unfold Location.parent at hl
    cases hp : p.names with
    | nil => simp [Location.child, hp] at hl
    | cons m ms =>
      simp only [hp, Location.child, List.length_cons] at hl
      omega
  · exact h (List.cons.inj (congrArg Location.names he)).1

/-- The directory part of a path leads to the same place whatever follows it. -/
theorem resolve_parts {dir : List Char} (hd : Path.IsDirectoryPart dir) (hn : Path.IsLast n) :
    d.resolve (String.ofList (dir ++ n)) = .ok l ↔
      IsPathText (String.ofList (dir ++ n)) ∧ isTooLong n = false ∧
        ∃ p, d.walk true ⟨if dir.head? == some '/' then none else some 0, []⟩
            ((Path.split dir).dropLast.filter fun n => n ≠ [] ∧ n ≠ ['.']) = .ok p ∧
          l = p.follow n := by
  rw [resolve_eq_ok, Path.asksDirectory_parts hd hn.noSlash, Path.components_parts hd hn,
    decide_eq_false (not_or.2 ⟨hn.ne_nil, hn.ne_dot⟩), Location.start, Path.isAbsolute_parts hn,
    walk_concat]

/-- There is a directory above every file. -/
theorem find_dots {dir : List Char} {ext : Name} {x : Node} (hd : Path.IsDirectoryPart dir)
    (hn : Path.IsLast ('.' :: '.' :: ext))
    (h : d.find (String.ofList (dir ++ '.' :: '.' :: ext)) = .ok x) :
    d.find (String.ofList (dir ++ ['.', '.'])) = .ok .directory := by
  obtain ⟨l, hl, -⟩ := find_eq_ok.1 h
  obtain ⟨htext, -, p, hp, -⟩ := (resolve_parts hd hn).1 hl
  have htext' : IsPathText (String.ofList (dir ++ ['.', '.'] ++ ext)) := by
    rwa [List.append_assoc]
  have hr : d.resolve (String.ofList (dir ++ ['.', '.'])) = .ok p.parent :=
    (resolve_parts hd Path.isLast_dots).2 ⟨htext'.of_append (by simp), by decide, p, hp, rfl⟩
  exact find_eq_ok.2
    ⟨p.parent, hr, (isRooted_of_walk hp (isRooted_of_names_eq_nil rfl)).parent.node⟩

/-- A path and the path with another extension lead to different places. -/
theorem resolve_withExtension_ne {ext e : Name} (hp : Path.asksDirectory path = false)
    (hx : Path.extension? path = some ext) (h0 : ext ≠ []) (hne : e ≠ ext) (he : '/' ∉ e)
    (h : d.resolve path = .ok l) (h' : d.resolve (Path.withExtension path e) = .ok l') :
    l' ≠ l := by
  obtain ⟨dir, n, n', rfl, hw, hd, hn, hn', hdots, hnn⟩ := Path.exists_siblings hp hx h0 hne he
  rw [hw] at h'
  obtain ⟨-, -, p, hp, rfl⟩ := (resolve_parts hd hn).1 h
  obtain ⟨-, -, p', hp', rfl⟩ := (resolve_parts hd hn').1 h'
  rw [hp] at hp'
  cases hp'
  exact follow_ne p hdots hnn

end Disk

end DotMatrix
