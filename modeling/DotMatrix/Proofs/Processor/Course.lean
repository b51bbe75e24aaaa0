import DotMatrix.Proofs.Processor.LowPower

/-!
# Waits of any length

Calls of a step come one after the other, and between them other parts may change the bus. A
processor that waits looks at the bus once in each call.

* `Course` is a sequence of calls. `Course.ofChanges` makes one for given changes of the bus.
* `c.Idles i` says that call `i` does nothing. `idles_iff` says for how many calls a halted
  processor idles.
* `c.Rests lines i` says that call `i` finds no joypad line low that was high in `lines`.
  `stopped_iff` says for how many calls a processor stays stopped, and `watches_succ` what these do.
* `low_power` puts it together, with the calls that follow.
-/

namespace DotMatrix

/-- Calls of a step one after the other. Between two calls the bus may change, and with it whatever
a program cannot see; the processor does not. -/
structure Course (σ : Type) [Bus σ] where
  before : Nat → Machine σ
  after : Nat → Machine σ
  cost : Nat → Nat
  step_eq : ∀ i, (before i).step = .ok (cost i, after i)
  cpu_next : ∀ i, (before (i + 1)).cpu = (after i).cpu

namespace Course

variable {σ : Type} [Bus σ]

/-- The machine after a step, and the cycles of the step. -/
def advance (m : Machine σ) : Nat × Machine σ := m.step.toOption.getD (0, m)

theorem step_eq_advance (m : Machine σ) : m.step = .ok (advance m) := by
  obtain ⟨n, m', hm, -⟩ := m.exists_takes
  rw [advance, hm]
  rfl

/-- The machine before each call, where `change i` is what happens to the bus after call `i`. -/
def machines (m : Machine σ) (change : Nat → σ → σ) : Nat → Machine σ
  | 0 => m
  | i + 1 =>
    let m' := (advance (machines m change i)).2
    { m' with bus := change i m'.bus }

/-- The course of a machine under given changes of the bus. -/
def ofChanges (m : Machine σ) (change : Nat → σ → σ) : Course σ where
  before := machines m change
  after i := (advance (machines m change i)).2
  cost i := (advance (machines m change i)).1
  step_eq _ := step_eq_advance _
  cpu_next _ := rfl

variable (c : Course σ)

/-- A call costs four cycles, and changes neither the processor nor the bus. -/
def Idles (i : Nat) : Prop :=
  c.cost i = 4 ∧ (c.after i).cpu = (c.before i).cpu ∧ (c.after i).bus = (c.before i).bus

/-- The joypad byte that a call finds. -/
def joypad (i : Nat) : UInt8 := (Bus.read (c.before i).bus 0xFF00).1

/-- No line that was high in `lines` is low at a call. -/
def Rests (lines : UInt8) (i : Nat) : Prop := lines &&& 0x0F &&& ~~~c.joypad i &&& 0x0F = 0

instance (lines : UInt8) (i : Nat) : Decidable (c.Rests lines i) :=
  inferInstanceAs (Decidable (_ = _))

theorem forall_le_succ {P : Nat → Prop} {k : Nat} :
    (∀ i ≤ k + 1, P i) ↔ (∀ i ≤ k, P i) ∧ P (k + 1) := by
  constructor
  · intro h
    exact ⟨fun i hi => h i (Nat.le_succ_of_le hi), h (k + 1) (Nat.le_refl _)⟩
  · rintro ⟨h, hlast⟩ i hi
    rcases Nat.le_succ_iff.1 hi with hi | rfl
    · exact h i hi
    · exact hlast

/-! ### Courses of a halted processor -/

section Halted

variable {c}
variable (hp : Machine.PureReads σ) (halted : (c.before 0).cpu.halted = true)
  (running : (c.before 0).cpu.stopped = false)
include hp halted running

/-- While nothing was pending, the processor is the one that the course began with. -/
theorem cpu_before_of_quiet {k : Nat}
    (h : ∀ i < k, Interrupt.requestedOn (c.before i).bus = 0) :
    (c.before k).cpu = (c.before 0).cpu := by
  induction k with
  | zero => rfl
  | succ k ih =>
    have hk := ih fun i hi => h i (Nat.lt_succ_of_lt hi)
    have hstep := Machine.step_of_halted hp (hk ▸ running) (hk ▸ halted) (c.step_eq k)
    rw [c.cpu_next, (hstep.2 (h k (Nat.lt_succ_self k))).2.1, hk]

/-- The calls do nothing for as long as nothing is pending. -/
theorem idles_iff (k : Nat) :
    (∀ i ≤ k, c.Idles i) ↔ ∀ i ≤ k, Interrupt.requestedOn (c.before i).bus = 0 := by
  induction k with
  | zero =>
    have hstep := Machine.step_of_halted hp running halted (c.step_eq 0)
    simpa [Idles] using hstep
  | succ k ih =>
    rw [forall_le_succ, forall_le_succ, ih]
    refine and_congr_right fun hquiet => ?_
    have hcpu : (c.before (k + 1)).cpu = (c.before 0).cpu :=
      cpu_before_of_quiet hp halted running fun i hi => hquiet i (Nat.le_of_lt_succ hi)
    exact Machine.step_of_halted hp (hcpu ▸ running) (hcpu ▸ halted) (c.step_eq (k + 1))

end Halted

/-! ### Courses of a stopped processor -/

section Stopped

variable {c}
variable {lines : UInt8} {k : Nat} (hl : (c.before 0).stopLines? = some lines)
include hl

/-- The processor after the call that executes STOP. -/
theorem cpu_after_stop : (c.after 0).cpu.stopped = true ∧ (c.after 0).cpu.halted = false ∧
    (c.after 0).cpu.stopLines = lines &&& 0x0F ∧
    (c.after 0).cpu.regs.pc = (c.before 0).cpu.regs.pc + 2 := by
  obtain ⟨m', hm', h⟩ := Machine.exists_stop hl
  obtain ⟨-, hafter⟩ := Machine.step_unique (c.step_eq 0) hm'
  rw [hafter]
  exact h

/-- A call after the calls that rested finds the processor as STOP left it, and looks at the
joypad. -/
theorem watches_succ (hk : (c.after k).cpu = (c.after 0).cpu) :
    c.cost (k + 1) = 4 ∧
    (c.before (k + 1)).Watches (c.joypad (k + 1)) (c.after (k + 1)) ∧
    (c.after (k + 1)).cpu =
      { (c.after 0).cpu with stopped := decide (c.Rests lines (k + 1)) } := by
  obtain ⟨hstopped, -, hlines, -⟩ := cpu_after_stop hl
  have hcpu : (c.before (k + 1)).cpu = (c.after 0).cpu := (c.cpu_next k).trans hk
  obtain ⟨m', hm'⟩ := Machine.exists_watches (m := c.before (k + 1)) (hcpu ▸ hstopped)
  obtain ⟨hcost, hafter⟩ := Machine.step_unique (c.step_eq (k + 1)) hm'.step
  have hw := hm'.cpu
  rw [hcpu, hlines] at hw
  rw [hafter]
  exact ⟨hcost, hm', hw⟩

/-- While no line falls, the processor is as STOP left it. -/
theorem cpu_after_of_rests (h : ∀ i, 1 ≤ i → i ≤ k → c.Rests lines i) :
    (c.after k).cpu = (c.after 0).cpu := by
  induction k with
  | zero => rfl
  | succ k ih =>
    have hk := ih fun i h1 hi => h i h1 (Nat.le_succ_of_le hi)
    obtain ⟨-, -, hcpu⟩ := watches_succ hl hk
    rw [hcpu, decide_eq_true (h (k + 1) (Nat.succ_pos k) (Nat.le_refl _)),
      ← (cpu_after_stop hl).1]

/-- The processor stays stopped for as long as no line falls that was high on entry. -/
theorem stopped_iff (k : Nat) : (∀ i ≤ k, (c.after i).cpu.stopped = true) ↔
    ∀ i, 1 ≤ i → i ≤ k → c.Rests lines i := by
  constructor
  · intro h
    induction k with
    | zero =>
      intro i h1 h0
      omega
    | succ k ih =>
      have hk := ih fun i hi => h i (Nat.le_succ_of_le hi)
      obtain ⟨-, -, hcpu⟩ := watches_succ hl (cpu_after_of_rests hl hk)
      have hlast := h (k + 1) (Nat.le_refl _)
      rw [hcpu] at hlast
      intro i h1 hi
      rcases Nat.le_succ_iff.1 hi with hi | rfl
      · exact hk i h1 hi
      · exact of_decide_eq_true hlast
  · intro h i hi
    rw [cpu_after_of_rests hl fun j h1 hj => h j h1 (Nat.le_trans hj hi)]
    exact (cpu_after_stop hl).1

/-- The call behind the one that ends the stop goes on behind the two bytes of STOP. -/
theorem goesOn_of_not_rests (h : ∀ i, 1 ≤ i → i ≤ k → c.Rests lines i)
    (hn : ¬ c.Rests lines (k + 1)) :
    (c.before (k + 2)).cpu.regs.pc = (c.before 0).cpu.regs.pc + 2 ∧
      (c.before (k + 2)).GoesOn (c.cost (k + 2)) (c.after (k + 2)) := by
  obtain ⟨-, hhalted, -, hpc⟩ := cpu_after_stop hl
  obtain ⟨-, -, hcpu⟩ := watches_succ hl (cpu_after_of_rests hl h)
  rw [decide_eq_false hn] at hcpu
  have hbefore := (c.cpu_next (k + 1)).trans hcpu
  refine ⟨by rw [hbefore, ← hpc], ?_⟩
  exact Machine.goesOn_of_awake (by rw [hbefore]) (by rw [hbefore, ← hhalted]) (c.step_eq (k + 2))

end Stopped

/-- How a processor waits, over any number of calls and with any changes of the bus between them.

A halted one, on a bus whose reads have no effect, does nothing at a cost of four cycles for exactly
as long as no interrupt is pending, whether interrupts are enabled or not. The call that finds one
pending finds the processor unchanged, and goes on: it serves the first line and pushes the program
counter if interrupts are enabled, and else executes the instruction there. The program counter is
the address behind the HALT.

A processor that executes STOP before a zero byte stays stopped for exactly as long as no joypad
line is low that was high when STOP read them. The calls up to the one that ends the stop cost four
cycles, read the joypad byte and do nothing else, whatever is pending. The call behind that one goes
on behind the two bytes of STOP. -/
theorem low_power :
    (Machine.PureReads σ → (c.before 0).cpu.halted = true → (c.before 0).cpu.stopped = false →
      (∀ k, (∀ i ≤ k, c.Idles i) ↔ ∀ i ≤ k, Interrupt.requestedOn (c.before i).bus = 0) ∧
      ∀ k, (∀ i < k, Interrupt.requestedOn (c.before i).bus = 0) →
        Interrupt.requestedOn (c.before k).bus ≠ 0 →
        (c.before k).cpu = (c.before 0).cpu ∧
        ((c.before 0).cpu.ime = true →
          ∃ i, Interrupt.first? (Interrupt.requestedOn (c.before k).bus) = some i ∧
            (c.before k).Services i (c.after k)) ∧
        ((c.before 0).cpu.ime = false →
          ∃ m₁, m₁.bus = (c.before k).bus ∧
            (c.before k).Resumes m₁ (c.cost k) (c.after k))) ∧
    ((c.before 0).fetched? = some 0x76 →
      (c.after 0).cpu.halted = true ∧ (c.after 0).cpu.stopped = false ∧
        (c.after 0).cpu.regs.pc = (c.before 0).cpu.regs.pc + 1) ∧
    ∀ lines, (c.before 0).stopLines? = some lines →
      (∀ k, (∀ i ≤ k, (c.after i).cpu.stopped = true) ↔
        ∀ i, 1 ≤ i → i ≤ k → c.Rests lines i) ∧
      ∀ k, (∀ i, 1 ≤ i → i ≤ k → c.Rests lines i) →
        c.cost (k + 1) = 4 ∧
        (c.before (k + 1)).Watches (c.joypad (k + 1)) (c.after (k + 1)) ∧
        (c.after (k + 1)).cpu =
          { (c.after 0).cpu with stopped := decide (c.Rests lines (k + 1)) } ∧
        (¬ c.Rests lines (k + 1) →
          (c.before (k + 2)).cpu.regs.pc = (c.before 0).cpu.regs.pc + 2 ∧
            (c.before (k + 2)).GoesOn (c.cost (k + 2)) (c.after (k + 2))) := by
  refine ⟨fun hp halted running => ⟨idles_iff hp halted running, fun k hquiet hk => ?_⟩,
    fun hf => Machine.halts_of_fetched hf (c.step_eq 0), fun lines hl => ⟨stopped_iff hl, ?_⟩⟩
  · have hcpu := cpu_before_of_quiet hp halted running hquiet
    obtain ⟨hserve, hresume⟩ :=
      Machine.wakes hp (hcpu ▸ running) (hcpu ▸ halted) hk (c.step_eq k)
    rw [hcpu] at hserve hresume
    exact ⟨hcpu, hserve, hresume⟩
  · intro k hrest
    obtain ⟨hcost, hwatches, hcpu⟩ := watches_succ hl (cpu_after_of_rests hl hrest)
    exact ⟨hcost, hwatches, hcpu, goesOn_of_not_rests hl hrest⟩

/-- STOP before a zero byte, with joypad line 3 low. -/
def stopMemory : FlatMemory := ((FlatMemory.filled 0).set 0 0x10).set 0xFF00 0xC7

/-- A stop during which line 0 falls after the first call. -/
def keyPress : Course FlatMemory :=
  ofChanges { bus := stopMemory } fun i _ =>
    if i = 0 then stopMemory else stopMemory.set 0xFF00 0xC6

/-- Memory in which the first line is enabled and requested. -/
def requestMemory : FlatMemory := ((FlatMemory.filled 0).set 0xFFFF 1).set 0xFF0F 1

/-- A wait with interrupts enabled, during which one is requested after the second call. -/
def request : Course FlatMemory :=
  ofChanges { cpu := { ime := true, halted := true }, bus := .filled 0 } fun i _ =>
    if i = 0 then .filled 0 else requestMemory

theorem requestedOn_filled : Interrupt.requestedOn (FlatMemory.filled 0) = 0 := by
  show (FlatMemory.filled 0).get 0xFFFF &&& (FlatMemory.filled 0).get 0xFF0F &&& 0x1F = 0
  rw [FlatMemory.get_filled, FlatMemory.get_filled]
  rfl

theorem requestedOn_requestMemory : Interrupt.requestedOn requestMemory = 1 := by
  show requestMemory.get 0xFFFF &&& requestMemory.get 0xFF0F &&& 0x1F = 1
  rw [requestMemory, FlatMemory.get_set_self, FlatMemory.get_set_of_ne _ (by decide),
    FlatMemory.get_set_self]
  rfl

theorem stopLines?_keyPress : (keyPress.before 0).stopLines? = some 0xC7 := by
  have hcalm : (keyPress.before 0).IsCalm := Machine.isCalm_of_pending rfl rfl (.inl rfl)
  have hopcode : stopMemory.get 0 = 0x10 := by
    rw [stopMemory, FlatMemory.get_set_of_ne _ (by decide), FlatMemory.get_set_self]
  have hnext : stopMemory.get 1 = 0 := by
    rw [stopMemory, FlatMemory.get_set_of_ne _ (by decide), FlatMemory.get_set_of_ne _ (by decide),
      FlatMemory.get_filled]
  unfold Machine.stopLines?
  rw [Machine.turn_of_isCalm hcalm]
  exact (if_pos ⟨hopcode, hnext⟩).trans (congrArg some (FlatMemory.get_set_self _ _ _))

/-- The line that was low from the start does not end the stop. -/
theorem rests_keyPress : ∀ i, 1 ≤ i → i ≤ 1 → keyPress.Rests 0xC7 i := by
  intro i h1 hi
  obtain rfl : i = 1 := Nat.le_antisymm hi h1
  show 0xC7 &&& 0x0F &&& ~~~stopMemory.get 0xFF00 &&& 0x0F = 0
  rw [stopMemory, FlatMemory.get_set_self]
  rfl

theorem not_rests_keyPress : ¬ keyPress.Rests 0xC7 2 := by
  show ¬ 0xC7 &&& 0x0F &&& ~~~(stopMemory.set 0xFF00 0xC6).get 0xFF00 &&& 0x0F = 0
  rw [FlatMemory.get_set_self]
  decide

theorem quiet_request : ∀ i ≤ 1, Interrupt.requestedOn (request.before i).bus = 0 := by
  intro i hi
  rcases Nat.le_one_iff_eq_zero_or_eq_one.1 hi with rfl | rfl
  · exact requestedOn_filled
  · exact requestedOn_filled

/-- The press of a key ends a stop, one call after a line that was low from the start did not. The
request of an interrupt ends a wait, two calls after it began. -/
theorem low_power_of_flat :
    (keyPress.before 0).stopLines? = some 0xC7 ∧ (keyPress.after 1).cpu.stopped = true ∧
      (keyPress.after 2).cpu.stopped = false ∧ (keyPress.before 3).cpu.regs.pc = 2 ∧
      Machine.PureReads FlatMemory ∧ request.Idles 0 ∧ request.Idles 1 ∧
      (request.before 2).Services 0 (request.after 2) := by
  -- The stop.
  obtain ⟨-, -, hstop⟩ := low_power keyPress
  obtain ⟨hiff, hcalls⟩ := hstop 0xC7 stopLines?_keyPress
  obtain ⟨-, -, hcpu, hwake⟩ := hcalls 1 rests_keyPress
  simp only [Nat.reduceAdd] at hcpu hwake
  rw [decide_eq_false not_rests_keyPress] at hcpu
  obtain ⟨hpc, -⟩ := hwake not_rests_keyPress
  have hstart : (keyPress.before 0).cpu.regs.pc = 0 := rfl
  rw [hstart] at hpc
  -- The wait.
  have hp : Machine.PureReads FlatMemory := fun _ _ => rfl
  obtain ⟨hhalt, -, -⟩ := low_power request
  obtain ⟨hidles, hleave⟩ := hhalt hp rfl rfl
  have hone : Interrupt.requestedOn (request.before 2).bus = 1 := requestedOn_requestMemory
  obtain ⟨-, hserve, -⟩ :=
    hleave 2 (fun i hi => quiet_request i (Nat.le_of_lt_succ hi)) (by rw [hone]; decide)
  obtain ⟨i, hi, hservice⟩ := hserve rfl
  rw [hone] at hi
  obtain rfl : 0 = i := Option.some.inj hi
  have hidle := (hidles 1).2 quiet_request
  exact ⟨stopLines?_keyPress, (hiff 1).2 rests_keyPress 1 (Nat.le_refl 1), by rw [hcpu], hpc, hp,
    hidle 0 (Nat.zero_le 1), hidle 1 (Nat.le_refl 1), hservice⟩

end Course

end DotMatrix
