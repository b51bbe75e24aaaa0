import DotMatrix.Proofs.Processor.Unread

/-!
# Scratch state

A processor keeps a record of the last instruction for diagnostics, and the decoded flags and a
count of accesses for the instruction that it executes; F has a low nibble, which stands for
nothing. None of this influences what the processor does.

* `Cpu.core` is a processor without this state. Two machines are `Alike` if they differ in it alone.
* `Alike.exists_step` says that alike machines take the same step and stay alike, and that they are
  equal once they fetch an opcode.
* `Machine.steps` takes steps in a row; `steps_of_core` is the law of runs.
-/

namespace DotMatrix

/-- A processor without its scratch state: the decoded flags, the count of accesses, the record of
the last instruction and the low nibble of F. -/
def Cpu.core (c : Cpu) : Cpu :=
  { c with
    regs := { c.regs with f := c.regs.f &&& 0xF0 }
    flags := {}
    accesses := 0
    last := {} }

/-- Clear the scratch state. -/
def Unread.scratch : Unread where
  flags _ := {}
  accesses _ := 0
  last _ := {}
  f v := v &&& 0xF0
  and_high v := by rw [UInt8.and_assoc, UInt8.and_self]
  of_high v := by rw [UInt8.and_assoc, UInt8.and_self]

namespace Machine

section Alike

variable {σ : Type}

/-- Two machines differ in their scratch state alone. -/
structure Alike (m m' : Machine σ) : Prop where
  core : m'.cpu.core = m.cpu.core
  bus : m'.bus = m.bus
  journal : m'.journal = m.journal

namespace Alike

theorem refl (m : Machine σ) : m.Alike m := ⟨rfl, rfl, rfl⟩

theorem alter_eq {m m' : Machine σ} (h : m.Alike m') : m'.alter .scratch = m.alter .scratch := by
  have hm (m : Machine σ) : m.alter .scratch = { m with cpu := m.cpu.core } := rfl
  rw [hm, hm, h.core, h.bus, h.journal]

theorem of_alter_eq {m m' : Machine σ} (h : m'.alter .scratch = m.alter .scratch) :
    m.Alike m' := by
  obtain ⟨hc, hb, hj⟩ := Machine.mk.inj h
  exact ⟨hc, hb, hj⟩

end Alike

end Alike

variable {σ : Type} [Bus σ] {m m' m₁ : Machine σ} {n : Nat}

/-- Alike machines take the same step and stay alike; if the step fetches an opcode, they are equal
after it. -/
theorem Alike.exists_step (h : m.Alike m') :
    ∃ n k k', m.step = .ok (n, k) ∧ m'.step = .ok (n, k') ∧ k.Alike k' ∧
      (m.fetched? ≠ none → k' = k) := by
  obtain ⟨n, k, hk, -⟩ := m.exists_takes
  obtain ⟨n', k', hk', -⟩ := m'.exists_takes
  have hf : m'.fetched? = m.fetched? := by
    rw [← m'.fetched?_alter .scratch, h.alter_eq, fetched?_alter]
  cases hm : m.fetched? with
  | some opcode =>
    rw [hm] at hf
    -- Both take the step of the machine without scratch state.
    have hs := m'.step_alter_of_fetched .scratch rfl hf
    rw [h.alter_eq, m.step_alter_of_fetched .scratch rfl hm, hk, hk'] at hs
    obtain ⟨rfl, rfl⟩ := Prod.mk.inj (Except.ok.inj hs)
    exact ⟨n, k, k, hk, hk', .refl k, fun _ => rfl⟩
  | none =>
    rw [hm] at hf
    have hs := m'.step_alter_of_idle .scratch hf
    rw [h.alter_eq, m.step_alter_of_idle .scratch hm, hk, hk'] at hs
    obtain ⟨rfl, he⟩ := Prod.mk.inj (Except.ok.inj hs)
    exact ⟨n, k, k', hk, hk', .of_alter_eq he.symm, fun hn => absurd rfl hn⟩

/-! ### Runs -/

/-- Take `n` steps; the cycles of each. -/
def steps : Nat → Machine σ → Except Fault (List Nat × Machine σ)
  | 0, m => .ok ([], m)
  | n + 1, m => do
    let (cycles, m) ← m.step
    let (rest, m) ← steps n m
    return (cycles :: rest, m)

/-- The step after `i` steps fetches an opcode. -/
def FetchesAt (m : Machine σ) (i : Nat) : Prop :=
  ∃ ns m₁, m.steps i = .ok (ns, m₁) ∧ m₁.fetched? ≠ none

theorem steps_succ (h : m.step = .ok (n, m₁)) (i : Nat) :
    m.steps (i + 1) = (m₁.steps i).map fun p => (n :: p.1, p.2) := by
  rw [steps, h]
  show (m₁.steps i >>= fun p => pure (n :: p.1, p.2)) = _
  cases m₁.steps i <;> rfl

theorem fetchesAt_zero : m.FetchesAt 0 ↔ m.fetched? ≠ none := by
  constructor
  · rintro ⟨ns, m₁, hs, hf⟩
    obtain ⟨-, rfl⟩ := Prod.mk.inj (Except.ok.inj hs)
    exact hf
  · exact fun hf => ⟨[], m, rfl, hf⟩

theorem fetchesAt_succ (h : m.step = .ok (n, m₁)) {i : Nat} (hf : m.FetchesAt (i + 1)) :
    m₁.FetchesAt i := by
  obtain ⟨ns, m₂, hs, hm⟩ := hf
  rw [steps_succ h] at hs
  cases hr : m₁.steps i with
  | error e =>
    rw [hr] at hs
    cases hs
  | ok p =>
    rw [hr] at hs
    obtain ⟨-, rfl⟩ := Prod.mk.inj (Except.ok.inj hs)
    exact ⟨p.1, p.2, hr, hm⟩

/-- Alike machines take the same steps and stay alike; once one has fetched an opcode, they are
equal. -/
theorem Alike.exists_steps (h : m.Alike m') (n : Nat) :
    ∃ ns k k', m.steps n = .ok (ns, k) ∧ m'.steps n = .ok (ns, k') ∧ k.Alike k' ∧
      ((∃ i < n, m.FetchesAt i) → k' = k) := by
  induction n generalizing m m' with
  | zero => exact ⟨[], m, m', rfl, rfl, h, fun ⟨i, hi, _⟩ => absurd hi (Nat.not_lt_zero i)⟩
  | succ n ih =>
    obtain ⟨c, m₁, m₁', hm, hm', h₁, hf₁⟩ := h.exists_step
    obtain ⟨ns, k, k', hk, hk', hn, hf⟩ := ih h₁
    refine ⟨c :: ns, k, k', ?_, ?_, hn, ?_⟩
    · rw [steps_succ hm, hk]
      rfl
    · rw [steps_succ hm', hk']
      rfl
    · rintro ⟨i, hi, hfi⟩
      cases i with
      | zero =>
        -- From equal machines the rest of the run is the same.
        rw [hf₁ (fetchesAt_zero.1 hfi), hk] at hk'
        exact (Prod.mk.inj (Except.ok.inj hk')).2.symm
      | succ i => exact hf ⟨i, Nat.lt_of_succ_lt_succ hi, fetchesAt_succ hm hfi⟩

/-- Two processors that differ in their scratch state alone take steps of the same cycles, make the
same accesses to the bus, in the same order and with the same bytes, and go on to differ in it
alone. After the first step that fetches an opcode they are the same. -/
theorem steps_of_core (m : Machine (Traced σ)) {cpu : Cpu} (h : cpu.core = m.cpu.core) (n : Nat) :
    ∃ ns k k', m.steps n = .ok (ns, k) ∧
      ({ m with cpu := cpu } : Machine (Traced σ)).steps n = .ok (ns, k') ∧
      k'.bus.history = k.bus.history ∧ k'.bus = k.bus ∧ k'.journal = k.journal ∧
      k'.cpu.core = k.cpu.core ∧ ((∃ i < n, m.FetchesAt i) → k' = k) := by
  have ha : m.Alike { m with cpu := cpu } := ⟨h, rfl, rfl⟩
  obtain ⟨ns, k, k', hk, hk', hn, hf⟩ := ha.exists_steps n
  exact ⟨ns, k, k', hk, hk', congrArg Traced.history hn.bus, hn.bus, hn.journal, hn.core, hf⟩

/-- PUSH AF pushes the flags of F, not those left by an earlier instruction nor its low nibble. -/
theorem steps_of_core_of_pushAf :
    let m : Machine (Traced FlatMemory) :=
      { cpu := { regs := { f := 0x90 } }, bus := { bus := .filled 0xF5 } }
    let cpu : Cpu :=
      { regs := { f := 0x9F }
        flags := { subtract := true }
        accesses := 7
        last := ⟨0x0150, .base 0x76, 4⟩ }
    cpu ≠ m.cpu ∧ cpu.core = m.cpu.core ∧ m.FetchesAt 0 ∧
      ∃ ns k, m.steps 1 = .ok (ns, k) ∧
        ({ m with cpu := cpu } : Machine (Traced FlatMemory)).steps 1 = .ok (ns, k) := by
  intro m cpu
  have hc : cpu.core = m.cpu.core := by decide
  have ho : m.fetched? = some 0xF5 := congrArg some (FlatMemory.get_filled 0xF5 0)
  have hf : m.FetchesAt 0 := fetchesAt_zero.2 (by rw [ho]; nofun)
  obtain ⟨ns, k, k', hk, hk', -, -, -, -, he⟩ := steps_of_core m hc 1
  rw [he ⟨0, Nat.one_pos, hf⟩] at hk'
  exact ⟨by decide, hc, hf, ns, k, hk, hk'⟩

end Machine

end DotMatrix
