import Mathlib.Data.List.TakeDrop
import Mathlib.Data.List.TakeWhile
import DotMatrix.Disk.Path

/-!
# Paths taken apart

The text of a path is a directory part, which is empty or ends in a slash, and a last component
without slashes.

* `IsDirectoryPart` says which texts are directory parts, and `IsLast` which last components stand
  for something. `exists_parts` cuts a path in two.
* The lemmas `…_parts` say what the functions of a path are in terms of its parts.
* `HasParts path dir stem ext` cuts the last component in two at its last dot.
  `HasParts.withExtension_eq` gives it another extension, and `HasParts.withExtension_of_dot` is the
  stem for which that does not work.
* `exists_siblings` says that a path with another extension has the same directory part and another
  last component. `withExtension_ne` says that it is another path also where it names a directory.
-/

namespace DotMatrix.Path

/-! ### Splitting -/

theorem split_ne_nil (cs : List Char) : split cs ≠ [] := by
  fun_induction split cs <;> simp

theorem split_of_no_slash {n : Name} (h : '/' ∉ n) : split n = [n] := by
  induction n with
  | nil => rfl
  | cons c cs ih =>
    rw [List.mem_cons, not_or] at h
    rw [split, if_neg (Ne.symm h.1), ih h.2]

/-- A slash separates the components before it from those after it. -/
theorem split_append_slash (cs t : List Char) : split (cs ++ '/' :: t) = split cs ++ split t := by
  induction cs with
  | nil => rfl
  | cons c cs ih =>
    rw [List.cons_append, split, split, ih]
    split
    · rfl
    · cases hs : split cs with
      | nil => exact absurd hs (split_ne_nil cs)
      | cons n ns => rfl

/-! ### Directory parts -/

/-- Text that a last component can follow: it is empty or ends in a slash. -/
def IsDirectoryPart (dir : List Char) : Prop := dir = [] ∨ ∃ cs, dir = cs ++ ['/']

/-- A path is a directory part and a last component. -/
theorem exists_parts (cs : List Char) :
    ∃ dir n, cs = dir ++ n ∧ IsDirectoryPart dir ∧ '/' ∉ n := by
  by_cases h : '/' ∈ cs.reverse
  · -- The last slash is the first one of the text in reverse.
    obtain ⟨n, dir, hr, hn⟩ := List.eq_append_cons_of_mem h
    refine ⟨dir.reverse ++ ['/'], n.reverse, ?_, .inr ⟨_, rfl⟩, by simpa using hn⟩
    rw [← List.reverse_reverse cs, hr]
    simp
  · exact ⟨[], cs, rfl, .inl rfl, by simpa using h⟩

variable {dir : List Char} {n : Name}

/-- The components of a path are those of its directory part, and the last one. -/
theorem split_parts (hd : IsDirectoryPart dir) (hn : '/' ∉ n) :
    split (dir ++ n) = (split dir).dropLast ++ [n] := by
  obtain rfl | ⟨cs, rfl⟩ := hd
  · exact split_of_no_slash hn
  · rw [List.append_assoc, List.singleton_append, split_append_slash, split_append_slash,
      split_of_no_slash hn]
    exact congrArg (· ++ [n]) List.dropLast_concat.symm

/-- A last component that stands for something. -/
structure IsLast (n : Name) : Prop where
  noSlash : '/' ∉ n
  ne_nil : n ≠ []
  ne_dot : n ≠ ['.']

theorem asksDirectory_parts (hd : IsDirectoryPart dir) (hn : '/' ∉ n) :
    asksDirectory (String.ofList (dir ++ n)) = decide (n = [] ∨ n = ['.']) := by
  rw [asksDirectory, String.toList_ofList, split_parts hd hn, List.getLast?_concat]

theorem components_parts (hd : IsDirectoryPart dir) (hn : IsLast n) :
    components (String.ofList (dir ++ n)) =
      ((split dir).dropLast.filter fun n => n ≠ [] ∧ n ≠ ['.']) ++ [n] := by
  rw [components, String.toList_ofList, split_parts hd hn.noSlash, List.filter_append]
  simp [hn.ne_nil, hn.ne_dot]

theorem isAbsolute_parts (hn : IsLast n) (dir : List Char) :
    isAbsolute (String.ofList (dir ++ n)) = (dir.head? == some '/') := by
  rw [isAbsolute, String.toList_ofList]
  cases dir with
  | cons c cs => rfl
  | nil =>
    cases n with
    | nil => exact absurd rfl hn.ne_nil
    | cons c cs =>
      have hc : c ≠ '/' := fun h => hn.noSlash (h ▸ List.mem_cons_self)
      simp [hc]

/-! ### File names and extensions -/

theorem dropTrailing_of_isLast (hn : IsLast n) (cs : List Char) :
    dropTrailing (n.reverse ++ cs) = n.reverse ++ cs := by
  have hs : '/' ∉ n.reverse := by simpa using hn.noSlash
  have hd : n.reverse ≠ ['.'] := fun h => hn.ne_dot (by simpa using h)
  have h0 : n.reverse ≠ [] := by simpa using hn.ne_nil
  cases hr : n.reverse with
  | nil => exact absurd hr h0
  | cons c r =>
    rw [hr] at hs hd
    rw [List.mem_cons, not_or] at hs
    rw [List.cons_append]
    unfold dropTrailing
    split
    · next h =>
      obtain ⟨rfl, -⟩ := List.cons.inj h
      exact absurd rfl hs.1
    · next h =>
      -- A dot is dropped only if the slash before it ends the component.
      obtain ⟨rfl, ht⟩ := List.cons.inj h
      cases r with
      | nil => exact absurd rfl hd
      | cons c r =>
        obtain ⟨rfl, -⟩ := List.cons.inj ht
        exact absurd List.mem_cons_self hs.2
    · rfl

theorem lastReversed_parts (hd : IsDirectoryPart dir) (hn : IsLast n) :
    lastReversed (String.ofList (dir ++ n)) = (n.reverse, dir.reverse) := by
  have hp : ∀ c ∈ n.reverse, (decide (c ≠ '/')) = true := by
    intro c hc
    have : c ≠ '/' := by
      rintro rfl
      exact hn.noSlash (List.mem_reverse.1 hc)
    simpa using this
  rw [lastReversed, String.toList_ofList, List.reverse_append, dropTrailing_of_isLast hn,
    List.span_eq_takeWhile_dropWhile, List.takeWhile_append_of_pos hp,
    List.dropWhile_append_of_pos hp]
  obtain rfl | ⟨cs, rfl⟩ := hd <;> simp

theorem fileName_parts (hd : IsDirectoryPart dir) (hn : IsLast n) :
    fileName? (String.ofList (dir ++ n)) = if n = ['.', '.'] then none else some n := by
  rw [fileName?, lastReversed_parts hd hn]
  simp [hn.ne_nil, hn.ne_dot]

/-- The last dot of a file name separates its stem from its extension. -/
theorem splitExtension_append {stem ext : Name} (hs : stem ≠ []) (he : '.' ∉ ext) :
    splitExtension (stem ++ '.' :: ext) = (stem, some ext) := by
  have hp : ∀ c ∈ ext.reverse, (decide (c ≠ '.')) = true := by
    intro c hc
    have : c ≠ '.' := by
      rintro rfl
      exact he (List.mem_reverse.1 hc)
    simpa using this
  obtain ⟨c, r, hr⟩ := List.exists_cons_of_ne_nil (List.reverse_ne_nil_iff.2 hs)
  have hspan : (stem ++ '.' :: ext).reverse.span (· ≠ '.') = (ext.reverse, '.' :: c :: r) := by
    rw [List.reverse_append, List.reverse_cons, List.append_assoc, List.singleton_append, hr,
      List.span_eq_takeWhile_dropWhile, List.takeWhile_append_of_pos hp,
      List.dropWhile_append_of_pos hp]
    simp
  rw [splitExtension, hspan]
  exact congrArg₂ Prod.mk (by rw [← hr, List.reverse_reverse]) (by rw [List.reverse_reverse])

/-- A file name with an extension has a stem and a last dot. -/
theorem eq_append_of_splitExtension {ext : Name} (h : (splitExtension n).2 = some ext) :
    ∃ stem, n = stem ++ '.' :: ext ∧ stem ≠ [] ∧ '.' ∉ ext := by
  unfold splitExtension at h
  split at h
  · next e c stem hs =>
    obtain rfl : e.reverse = ext := Option.some.inj h
    rw [List.span_eq_takeWhile_dropWhile, Prod.mk.injEq] at hs
    have hr : n.reverse.takeWhile (· ≠ '.') ++ n.reverse.dropWhile (· ≠ '.') = n.reverse :=
      List.takeWhile_append_dropWhile
    rw [hs.1, hs.2] at hr
    refine ⟨(c :: stem).reverse, ?_, by simp, fun he => ?_⟩
    · rw [← List.reverse_reverse n, ← hr]
      simp
    · rw [List.mem_reverse, ← hs.1] at he
      simpa using List.mem_takeWhile_imp he
  · cases h

variable {stem ext : Name}

/-- A path taken apart: a directory part, and a file name whose last dot separates a stem from an
extension. -/
structure HasParts (path : String) (dir : List Char) (stem ext : Name) : Prop where
  text : path = String.ofList (dir ++ (stem ++ '.' :: ext))
  directory : IsDirectoryPart dir
  last : IsLast (stem ++ '.' :: ext)
  stem_ne_nil : stem ≠ []
  ext_ne_nil : ext ≠ []
  noDot : '.' ∉ ext

theorem exists_hasParts {path : String} (hp : asksDirectory path = false)
    (hx : extension? path = some ext) (h0 : ext ≠ []) : ∃ dir stem, HasParts path dir stem ext := by
  obtain ⟨dir, n, hcs, hd, hs⟩ := exists_parts path.toList
  obtain rfl : path = String.ofList (dir ++ n) := by rw [← hcs, String.ofList_toList]
  rw [asksDirectory_parts hd hs, decide_eq_false_iff_not, not_or] at hp
  have hn : IsLast n := ⟨hs, hp.1, hp.2⟩
  rw [extension?, fileName_parts hd hn] at hx
  split at hx
  · cases hx
  · obtain ⟨stem, rfl, hstem, he⟩ := eq_append_of_splitExtension hx
    exact ⟨dir, stem, rfl, hd, hn, hstem, h0, he⟩

theorem isLast_append {e : Name} (h : '/' ∉ stem) (hs : stem ≠ []) (he : '/' ∉ e) :
    IsLast (stem ++ '.' :: e) where
  noSlash := by simp [h, he]
  ne_nil := by simp
  ne_dot hd := by
    have hl := congrArg List.length hd
    have h1 := List.length_pos_iff.2 hs
    simp only [List.length_append, List.length_cons, List.length_nil] at hl
    omega

theorem IsLast.noSlash_stem (hn : IsLast (stem ++ '.' :: ext)) : '/' ∉ stem :=
  fun h => hn.noSlash (List.mem_append_left _ h)

theorem isLast_dots : IsLast ['.', '.'] := ⟨by decide, by decide, by decide⟩

theorem append_ne_dots (hs : stem ≠ []) (h0 : ext ≠ []) : stem ++ '.' :: ext ≠ ['.', '.'] := by
  intro h
  have hl := congrArg List.length h
  have h1 := List.length_pos_iff.2 hs
  have h2 := List.length_pos_iff.2 h0
  simp only [List.length_append, List.length_cons, List.length_nil] at hl
  omega

namespace HasParts

variable {path : String}

theorem cutExtension_eq (h : HasParts path dir stem ext) :
    cutExtension path = String.ofList (dir ++ (stem ++ ['.'])) := by
  obtain ⟨rfl, hd, hn, hs, h0, he⟩ := h
  have hx : extension? (String.ofList (dir ++ (stem ++ '.' :: ext))) = some ext := by
    rw [extension?, fileName_parts hd hn, if_neg (append_ne_dots hs h0)]
    exact congrArg Prod.snd (splitExtension_append hs he)
  have hc : dir ++ (stem ++ '.' :: ext) = dir ++ (stem ++ ['.']) ++ ext := by simp
  rw [cutExtension, hx, String.toList_ofList, hc]
  refine congrArg String.ofList (List.take_left' ?_)
  rw [Option.elim_some]
  simp only [List.length_append]
  omega

/-- Another extension changes the last component alone, and of that what follows the last dot. -/
theorem withExtension_eq (h : HasParts path dir stem ext) (hdot : stem ≠ ['.']) (e : Name) :
    withExtension path e = String.ofList (dir ++ (stem ++ '.' :: e)) := by
  have hl := isLast_append h.last.noSlash_stem h.stem_ne_nil List.not_mem_nil
  have hf : stem ++ ['.'] ≠ ['.', '.'] := fun hf => hdot (List.append_cancel_right hf)
  rw [withExtension, h.cutExtension_eq, replaceExtension, fileName_parts h.directory hl, if_neg hf]
  dsimp only
  rw [splitExtension_append h.stem_ne_nil List.not_mem_nil, lastReversed_parts h.directory hl,
    List.reverse_reverse, List.append_assoc]

/-- A stem that is a single dot is left as two dots, which are no file name. -/
theorem withExtension_of_dot (h : HasParts path dir ['.'] ext) (e : Name) :
    withExtension path e = String.ofList (dir ++ ['.', '.']) := by
  have hc : cutExtension path = String.ofList (dir ++ ['.', '.']) := h.cutExtension_eq
  rw [withExtension, hc, replaceExtension, fileName_parts h.directory isLast_dots]
  rfl

example : withExtension "a/..gb" ['s'] = "a/.." ∧ withExtension "a/...gb" ['s'] = "a/...s" := by
  decide

end HasParts

/-- A path with an extension and the path with another extension differ in their last components
alone. -/
theorem exists_siblings {path : String} {e : Name} (hp : asksDirectory path = false)
    (hx : extension? path = some ext) (h0 : ext ≠ []) (hne : e ≠ ext) (he : '/' ∉ e) :
    ∃ dir n n', path = String.ofList (dir ++ n) ∧
      withExtension path e = String.ofList (dir ++ n') ∧ IsDirectoryPart dir ∧ IsLast n ∧
      IsLast n' ∧ n ≠ ['.', '.'] ∧ n' ≠ n := by
  obtain ⟨dir, stem, h⟩ := exists_hasParts hp hx h0
  have hdots := append_ne_dots h.stem_ne_nil h0
  by_cases hs : stem = ['.']
  · subst hs
    exact ⟨dir, _, _, h.text, h.withExtension_of_dot e, h.directory, h.last, isLast_dots, hdots,
      hdots.symm⟩
  · exact ⟨dir, _, _, h.text, h.withExtension_eq hs e, h.directory, h.last,
      isLast_append h.last.noSlash_stem h.stem_ne_nil he, hdots,
      fun hn => hne (List.cons.inj (List.append_cancel_left hn)).2⟩

/-! ### Another path -/

theorem asksDirectory_concat {c : Char} (hs : c ≠ '/') (hd : c ≠ '.') (cs : List Char) :
    asksDirectory (String.ofList (cs ++ [c])) = false := by
  obtain ⟨dir, n, hcs, hdir, hn⟩ := exists_parts (cs ++ [c])
  have hlast : (dir ++ n).getLast? = some c := by rw [← hcs, List.getLast?_concat]
  rw [hcs, asksDirectory_parts hdir hn, decide_eq_false_iff_not]
  rintro (rfl | rfl)
  · obtain rfl | ⟨cs', rfl⟩ := hdir
    · cases hlast
    · rw [List.append_nil, List.getLast?_concat] at hlast
      exact hs (Option.some.inj hlast).symm
  · rw [List.getLast?_concat] at hlast
    exact hd (Option.some.inj hlast).symm

theorem cutExtension_ne {path : String} (hx : extension? path = some ext) (h0 : ext ≠ []) :
    cutExtension path ≠ path := by
  intro h
  have hl := congrArg (fun p => p.toList.length) h
  rw [cutExtension, hx, String.toList_ofList, List.length_take, Option.elim_some] at hl
  have hpos := List.length_pos_iff.2 h0
  have hnil : path.toList = [] := List.eq_nil_of_length_eq_zero (by omega)
  rw [String.toList_eq_nil_iff.1 hnil] at hx
  cases hx

/-- A path changes when its extension is replaced by another one that does not end in a dot. -/
theorem withExtension_ne {path : String} {e : Name} {c : Char} (hx : extension? path = some ext)
    (h0 : ext ≠ []) (hne : e ++ [c] ≠ ext) (he : '/' ∉ e ++ [c]) (hc : c ≠ '.') :
    withExtension path (e ++ [c]) ≠ path := by
  intro h
  cases hp : asksDirectory path with
  | false =>
    obtain ⟨dir, n, n', hn, hn', -, -, -, -, hnn⟩ := exists_siblings hp hx h0 hne he
    rw [hn', hn] at h
    exact hnn (List.append_cancel_left (String.ofList_injective h))
  | true =>
    -- Only a path that is cut short still asks for a directory.
    unfold withExtension replaceExtension at h
    split at h
    · exact cutExtension_ne hx h0 h
    · have hs : c ≠ '/' := fun hs => he (by simp [hs])
      rw [← h, ← List.cons_append, ← List.append_assoc, asksDirectory_concat hs hc] at hp
      cases hp

end DotMatrix.Path
