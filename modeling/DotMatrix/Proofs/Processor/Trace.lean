import DotMatrix.Processor.Bus

/-!
# Traces

A trace is a list of accesses to a bus, in the order they are made.

* `Performs s l t` says that the bus goes from `s` to `t` by the accesses of `l`. On a traced bus
  the history then grows by `l` (`Performs.history_eq`), so that it determines `l`.
* `fetches` are the reads of consecutive bytes, `pushes` and `pops` the accesses to the stack.
-/

namespace DotMatrix

variable {σ : Type} [Bus σ]

/-- A bus goes from one state to another by a trace. -/
inductive Performs : σ → List Access → σ → Prop
  | nil (s : σ) : Performs s [] s
  | read {s t : σ} {l : List Access} (a : UInt16) (h : Performs (Bus.read s a).2 l t) :
      Performs s (.read a (Bus.read s a).1 :: l) t
  | write {s t : σ} {l : List Access} (a : UInt16) (v : UInt8)
      (h : Performs (Bus.write s a v) l t) : Performs s (.write a v :: l) t

namespace Performs

theorem append {s t u : σ} {l l' : List Access} (h : Performs s l t) (h' : Performs t l' u) :
    Performs s (l ++ l') u := by
  induction h with
  | nil s => exact h'
  | read a _ ih => exact .read a (ih h')
  | write a v _ ih => exact .write a v (ih h')

/-- A trace can be cut anywhere. -/
theorem exists_of_append {s t : σ} {l l' : List Access} (h : Performs s (l ++ l') t) :
    ∃ u, Performs s l u ∧ Performs u l' t := by
  induction l generalizing s with
  | nil => exact ⟨s, .nil s, h⟩
  | cons e l ih =>
    cases h with
    | read a h =>
      obtain ⟨u, hu, ht⟩ := ih h
      exact ⟨u, .read a hu, ht⟩
    | write a v h =>
      obtain ⟨u, hu, ht⟩ := ih h
      exact ⟨u, .write a v hu, ht⟩

/-- A single read. -/
theorem one_read (s : σ) (a : UInt16) : Performs s [.read a (Bus.read s a).1] (Bus.read s a).2 :=
  .read a (.nil _)

/-- A single write. -/
theorem one_write (s : σ) (a : UInt16) (v : UInt8) : Performs s [.write a v] (Bus.write s a v) :=
  .write a v (.nil _)

/-- Writes in a row. -/
theorem writes (s : σ) (table : List (UInt16 × UInt8)) :
    Performs s (table.map fun (a, v) => .write a v)
      (table.foldl (fun s (a, v) => Bus.write s a v) s) := by
  induction table generalizing s with
  | nil => exact .nil s
  | cons e table ih => exact .write e.1 e.2 (ih _)

/-- A read gives the byte that the bus gives. -/
theorem eq_of_read {s t : σ} {a : UInt16} {v : UInt8} {l : List Access}
    (h : Performs s (.read a v :: l) t) : v = (Bus.read s a).1 := by
  cases h
  rfl

/-- The history of a traced bus grows by the trace. -/
theorem history_eq {s t : Traced σ} {l : List Access} (h : Performs s l t) :
    t.history = s.history ++ l := by
  induction h with
  | nil s => exact (List.append_nil _).symm
  | read a _ ih => simpa [Traced.history, Bus.read] using ih
  | write a v _ ih => simpa [Traced.history, Bus.write] using ih

end Performs

/-! ### Bytes in a row -/

/-- The reads of some bytes from an address on. -/
def fetches : UInt16 → List UInt8 → List Access
  | _, [] => []
  | a, v :: vs => .read a v :: fetches (a + 1) vs

@[simp] theorem fetches_nil (a : UInt16) : fetches a [] = [] := rfl

@[simp] theorem fetches_cons (a : UInt16) (v : UInt8) (vs : List UInt8) :
    fetches a (v :: vs) = .read a v :: fetches (a + 1) vs := rfl

@[simp] theorem length_fetches (a : UInt16) (vs : List UInt8) :
    (fetches a vs).length = vs.length := by
  induction vs generalizing a with
  | nil => rfl
  | cons v vs ih => rw [fetches_cons, List.length_cons, ih, List.length_cons]

theorem fetches_append (a : UInt16) (vs ws : List UInt8) :
    fetches a (vs ++ ws) = fetches a vs ++ fetches (a + UInt16.ofNat vs.length) ws := by
  induction vs generalizing a with
  | nil =>
    show fetches a ws = fetches (a + 0) ws
    rw [UInt16.add_zero]
  | cons v vs ih =>
    have ha : a + 1 + UInt16.ofNat vs.length = a + UInt16.ofNat (v :: vs).length := by
      rw [List.length_cons, UInt16.ofNat_add, UInt16.add_assoc, UInt16.add_comm 1]
      rfl
    rw [List.cons_append, fetches_cons, fetches_cons, ih, ha, List.cons_append]

/-! ### The stack -/

/-- The writes that push a word: the high byte below the stack pointer, the low byte below that. -/
def pushes (sp w : UInt16) : List Access :=
  [.write (sp - 1) (Word.high w), .write (sp - 2) (Word.low w)]

/-- The reads that pop a word: the low byte at the stack pointer, the high byte above it. -/
def pops (sp : UInt16) (lo hi : UInt8) : List Access := [.read sp lo, .read (sp + 1) hi]

end DotMatrix
