import DotMatrix.Processor.PowerOn
import DotMatrix.Proofs.Processor.Instruction

/-!
# Runs

A run begins with a new processor or with one in the power-on state, and consists of steps. Between
steps, other parts may change the bus.

* `m.Reachable R` says that a run leads to `m`, where `R` says how the bus may be changed.
* `m.Waits R m'` says that a run leads from `m` to `m'` in which nothing is fetched.
* `performs_of_step` says that a step changes the bus by reads and writes alone.
-/

namespace DotMatrix.Machine

variable {σ : Type} [Bus σ]

/-! ### The power-on state -/

theorem cpu_sumBytes (m : Machine σ) (as : List UInt16) : (m.sumBytes as).2.cpu = m.cpu := by
  unfold sumBytes
  -- The sum so far has no part in it.
  generalize (0 : UInt8) = sum
  induction as generalizing sum m with
  | nil => rfl
  | cons a as ih =>
    rw [List.foldl_cons]
    exact ih ..

theorem cpu_putAll (m : Machine σ) (table : List (UInt16 × UInt8)) :
    (table.foldl (fun m (a, v) => m.put a v) m).cpu = m.cpu := by
  induction table generalizing m with
  | nil => rfl
  | cons e table ih => exact ih _

/-- The sum is made of reads. -/
theorem performs_sumBytes (m : Machine σ) (as : List UInt16) :
    ∃ l, Performs m.bus l (m.sumBytes as).2.bus := by
  unfold sumBytes
  generalize (0 : UInt8) = sum
  induction as generalizing sum m with
  | nil => exact ⟨[], .nil _⟩
  | cons a as ih =>
    obtain ⟨l, hl⟩ := ih (m.sample a).2 (sum + (m.sample a).1)
    exact ⟨_, .read a hl⟩

theorem bus_putAll (m : Machine σ) (table : List (UInt16 × UInt8)) :
    (table.foldl (fun m (a, v) => m.put a v) m).bus =
      table.foldl (fun s (a, v) => Bus.write s a v) m.bus := by
  induction table generalizing m with
  | nil => rfl
  | cons e table ih => exact ih _

/-- The power-on state is brought about by reads and writes. -/
theorem performs_powerOn (m : Machine σ) : ∃ l, Performs m.bus l m.powerOn.bus := by
  let m₃ := (((({ m with cpu := m.cpu.reset } : Machine σ).sample 0x014B).2.sample 0x0144).2.sample
    0x0145).2
  unfold powerOn
  dsimp only
  rw [bus_putAll]
  split
  · obtain ⟨l, hl⟩ := m₃.performs_sumBytes PowerOn.titleAddresses
    exact ⟨_, .read _ (.read _ (.read _ (hl.append (.writes _ _))))⟩
  · exact ⟨_, .read _ (.read _ (.read _ (.writes m₃.bus _)))⟩

/-- But for registers and flags, the power-on state is that of a reset processor. -/
theorem control_powerOn (m : Machine σ) : m.powerOn.cpu.control = m.cpu.reset.control := by
  unfold powerOn
  dsimp only
  rw [cpu_putAll]
  split
  · rw [cpu_sumBytes]
    rfl
  · rfl

/-! ### Runs -/

/-- A run leads to a machine. It begins with the registers set to anything, or in the power-on
state, and between steps the bus may change as `R` says. -/
inductive Reachable (R : σ → σ → Prop) : Machine σ → Prop
  | new (regs : Registers) (rules : FlagRules) (bus : σ) (journal : Journal) :
      Reachable R { cpu := { regs := regs, rules := rules }, bus := bus, journal := journal }
  | powerOn (m : Machine σ) : Reachable R m.powerOn
  | step {m m' : Machine σ} {n : Nat} (h : Reachable R m) (hs : m.step = .ok (n, m')) :
      Reachable R m'
  | change {m : Machine σ} {bus : σ} (h : Reachable R m) (hb : R m.bus bus) :
      Reachable R { m with bus := bus }

/-- A run in which nothing is fetched leads from one machine to another. -/
inductive Waits (R : σ → σ → Prop) (m : Machine σ) : Machine σ → Prop
  | refl : Waits R m m
  | step {m₁ m₂ : Machine σ} {n : Nat} (h : Waits R m m₁) (hf : m₁.fetched? = none)
      (hs : m₁.step = .ok (n, m₂)) : Waits R m m₂
  | change {m₁ : Machine σ} {bus : σ} (h : Waits R m m₁) (hb : R m₁.bus bus) :
      Waits R m { m₁ with bus := bus }

variable {R : σ → σ → Prop} {m m' : Machine σ} {n : Nat}

/-- A step that gives a result takes it. -/
theorem takes_of_step (h : m.step = .ok (n, m')) : m.Takes n m' := by
  obtain ⟨n', m'', hm, ht⟩ := m.exists_takes
  rw [h] at hm
  cases hm
  exact ht

theorem performs_sampleLines (m : Machine σ) : ∃ l, Performs m.bus l m.sampleLines.bus := by
  have hb : m.sampleLines.bus = (Bus.read m.bus 0xFF00).2 := by
    unfold sampleLines
    dsimp only
    split <;> rfl
  rw [hb]
  exact ⟨_, .one_read _ _⟩

theorem performs_enterHandler (m : Machine σ) (i : Nat) :
    ∃ l, Performs m.bus l (m.enterHandler i).bus := by
  unfold enterHandler
  exact ⟨_, .read _ (.write _ _ (.write _ _ (.write _ _ (.nil _))))⟩

/-- A step changes the bus by reads and writes alone. -/
theorem performs_of_step (h : m.step = .ok (n, m')) : ∃ l, Performs m.bus l m'.bus := by
  have hd := m.decides_turn
  unfold step at h
  generalize m.turn = t at h hd
  cases hd with
  | sampleLines =>
    cases h
    exact m.performs_sampleLines
  | enterHandler i m₁ polls _ _ _ _ hp =>
    cases h
    obtain ⟨l, hl⟩ := m₁.performs_enterHandler i
    exact ⟨_, hp.append hl⟩
  | wait m₁ polls _ _ _ hp =>
    cases h
    exact ⟨polls, hp⟩
  | execute m₁ polls _ _ _ _ hp =>
    obtain ⟨m₂, operands, data, sample, hm, hc⟩ := m₁.exists_completes
    rw [show m₁.executeNext = .ok (n, m') from h] at hm
    cases hm
    exact ⟨_, hp.append hc.performs⟩

theorem Waits.reachable (h : m.Waits R m') (hm : m.Reachable R) : m'.Reachable R := by
  induction h with
  | refl => exact hm
  | step _ _ hs ih => exact ih.step hs
  | change _ hb ih => exact ih.change hb

end DotMatrix.Machine
