import DotMatrix.Proofs.Processor.FlatStep

/-!
# The service of interrupts

If several interrupts are pending and the handler of each returns at once, they are served one after
the other, the lowest first. An entry clears the request of its own interrupt and pushes the program
counter; the return pops it and enables interrupts again, so that the next entry finds the processor
as the first one did.

* `Interrupt.ascending` are the lines of a byte in the order in which they are served.
* `s.Served sp pc v t` says what service leaves behind in memory.
* `m.CanServe` collects what a machine needs for an undisturbed service. `CanServe.service` is the
  service of one interrupt, which keeps it.
* `serves_pending` is the law of service.
-/

namespace DotMatrix

namespace Interrupt

variable {v : UInt8} {i : Nat} {is : List Nat}

/-- The lines of a byte, lowest first. -/
def ascending (v : UInt8) : List Nat := (List.range 5).filter v.toNat.testBit

theorem first?_eq_head? (v : UInt8) : first? v = (ascending v).head? :=
  List.head?_filter.symm

theorem mem_ascending : i ∈ ascending v ↔ i < 5 ∧ v.toNat.testBit i = true := by
  simp [ascending]

theorem pairwise_ascending (v : UInt8) : (ascending v).Pairwise (· < ·) :=
  List.pairwise_lt_range.filter _

theorem testBit_mask (hi : i < 8) (j : Nat) : (BitOp.mask i).toNat.testBit j = decide (i = j) := by
  have h : 2 ^ i < 2 ^ 8 := Nat.pow_lt_pow_right (by decide) hi
  rw [BitOp.mask, Nat.one_shiftLeft, UInt8.toNat_ofNat', Nat.mod_eq_of_lt h, Nat.testBit_two_pow]

/-- Clearing a bit leaves the other bits alone. -/
theorem testBit_clear (hi : i < 8) (v : UInt8) (j : Nat) :
    (v &&& ~~~BitOp.mask i).toNat.testBit j = (v.toNat.testBit j && decide (i ≠ j)) := by
  have hm : (BitOp.mask i).toNat < 2 ^ 8 := UInt8.toNat_lt _
  have hv : v.toNat < 2 ^ 8 := v.toNat_lt
  have hn : (~~~BitOp.mask i).toNat = 2 ^ 8 - ((BitOp.mask i).toNat + 1) := by
    rw [UInt8.toNat_not, UInt8.size]
    omega
  rw [UInt8.toNat_and, Nat.testBit_and, hn, Nat.testBit_two_pow_sub_succ hm, testBit_mask hi]
  rcases Nat.lt_or_ge j 8 with hj | hj
  · simp [hj]
  · have hb : v.toNat < 2 ^ j := Nat.lt_of_lt_of_le hv (Nat.pow_le_pow_right (by decide) hj)
    rw [Nat.testBit_lt_two_pow hb, Bool.false_and, Bool.false_and]

/-- Clearing the lowest line leaves the others. -/
theorem ascending_clear (h : ascending v = i :: is) : ascending (v &&& ~~~BitOp.mask i) = is := by
  have hi : i < 5 := (mem_ascending.1 (h ▸ List.mem_cons_self)).1
  have hp := h ▸ pairwise_ascending v
  calc ascending (v &&& ~~~BitOp.mask i)
      = (ascending v).filter fun j => decide (i ≠ j) := by
        rw [ascending, ascending, List.filter_filter]
        refine List.filter_congr fun j _ => ?_
        rw [testBit_clear (by omega), Bool.and_comm]
    _ = is.filter fun j => decide (i ≠ j) := by rw [h, List.filter_cons_of_neg (by simp)]
    _ = is := by
        refine List.filter_eq_self.2 fun j hj => ?_
        have hij := (List.pairwise_cons.1 hp).1 j hj
        exact decide_eq_true (by omega)

/-- A line that is set is restored by setting it again. -/
theorem mask_or_clear (hi : i < 8) (hv : v.toNat.testBit i = true) :
    BitOp.mask i ||| (v &&& ~~~BitOp.mask i) = v := by
  refine UInt8.toNat_inj.1 (Nat.eq_of_testBit_eq fun j => ?_)
  rw [UInt8.toNat_or, Nat.testBit_or, testBit_mask hi, testBit_clear hi]
  by_cases hj : i = j
  · subst hj
    simp [hv]
  · simp [hj]

theorem pending_clear (e r m : UInt8) : pending e (r &&& m) = pending e r &&& m := by
  unfold pending lines
  ac_rfl

/-- Only the five lines are pending. -/
theorem eq_zero_of_ascending_pending {e r : UInt8} (h : ascending (pending e r) = []) :
    pending e r = 0 := by
  refine UInt8.toNat_inj.1 (Nat.eq_of_testBit_eq fun j => ?_)
  have hj : (pending e r).toNat.testBit j = false := by
    rcases Nat.lt_or_ge j 5 with hj | hj
    · have hn : j ∉ ascending (pending e r) := h ▸ List.not_mem_nil
      simpa [mem_ascending, hj] using hn
    · have hl : (31 : Nat).testBit j = false :=
        Nat.testBit_lt_two_pow
          (Nat.lt_of_lt_of_le (by decide) (Nat.pow_le_pow_right (by decide) hj))
      simp [pending, lines, UInt8.toNat_and, Nat.testBit_and, hl]
  rw [hj, UInt8.toNat_zero, Nat.zero_testBit]

theorem vector_ne_requestAddress (hi : i < 5) : vector i ≠ requestAddress := by
  decide +revert

end Interrupt

/-- Memory `t` is memory `s` after the service of the lines of `v`: their requests are cleared, and
the two bytes below the stack pointer hold the program counter. -/
structure FlatMemory.Served (s : FlatMemory) (sp pc : UInt16) (v : UInt8) (t : FlatMemory) :
    Prop where
  request : t.get Interrupt.requestAddress = s.get Interrupt.requestAddress &&& ~~~v
  high : t.get (sp - 1) = Word.high pc
  low : t.get (sp - 2) = Word.low pc
  rest : ∀ a, a ≠ Interrupt.requestAddress → a ≠ sp - 1 → a ≠ sp - 2 → t.get a = s.get a

theorem FlatMemory.Served.trans {s t u : FlatMemory} {sp pc : UInt16} {v w : UInt8}
    (h : s.Served sp pc v t) (h' : t.Served sp pc w u) : s.Served sp pc (v ||| w) u where
  request := by
    have hn : ~~~(v ||| w) = ~~~v &&& ~~~w := UInt8.toBitVec_inj.1 BitVec.not_or
    rw [h'.request, h.request, hn, UInt8.and_assoc]
  high := h'.high
  low := h'.low
  rest a hr hh hl := (h'.rest a hr hh hl).trans (h.rest a hr hh hl)

/-- A processor after the handler of a line has returned. -/
def Cpu.served (c : Cpu) (i : Nat) : Cpu :=
  { c with
    regs := { c.regs with f := c.regs.f &&& 0xF0 }
    flags := .ofByte c.regs.f
    ime := true
    halted := false
    request := .none
    accesses := 2
    last := ⟨Interrupt.vector i, .base 0xD9, 12⟩ }

theorem Cpu.served_served (c : Cpu) (i j : Nat) : (c.served i).served j = c.served j := by
  have hf : Flags.ofByte (c.regs.f &&& 0xF0) = .ofByte c.regs.f := by
    rw [← Flags.toByte_ofByte, Flags.ofByte_toByte]
  have hm : c.regs.f &&& 0xF0 &&& 0xF0 = c.regs.f &&& 0xF0 := by
    rw [UInt8.and_assoc, UInt8.and_self]
  simp only [served, hf, hm]

namespace Machine

variable {m m₁ m₂ m' : Machine FlatMemory} {pc : UInt16} {i : Nat} {is : List Nat}

/-- A step enters the handler of a line and pushes `pc`. -/
structure Enters (m : Machine FlatMemory) (pc : UInt16) (i : Nat) (m' : Machine FlatMemory) :
    Prop where
  turn : m.turn.1 = .enterHandler i
  step : m.step = .ok (20, m')
  vector : m'.cpu.regs.pc = Interrupt.vector i
  served : m.bus.Served m.cpu.regs.sp pc (BitOp.mask i) m'.bus

/-- A step executes RETI. -/
structure Returns (m m' : Machine FlatMemory) : Prop where
  fetched : m.fetched? = some 0xD9
  step : m.step = .ok (12, m')

/-- The handlers of some lines are entered from `pc` one after the other, and each returns at
once. -/
inductive Serves (pc : UInt16) : List Nat → Machine FlatMemory → Machine FlatMemory → Prop
  | nil {m : Machine FlatMemory} : Serves pc [] m m
  | cons {m m₁ m₂ m' : Machine FlatMemory} {i : Nat} {is : List Nat} (enters : m.Enters pc i m₁)
      (returns : m₁.Returns m₂) (rest : Serves pc is m₂ m') : Serves pc (i :: is) m m'

/-- A service takes two steps and 32 cycles a line. -/
theorem Serves.runFrom (h : Serves pc is m m') (total : Nat) :
    m.runFrom (2 * is.length) total = .ok (total + 32 * is.length, m') := by
  induction h generalizing total with
  | nil => rfl
  | @cons m m₁ m₂ m' i is enters returns _ ih =>
    calc m.runFrom (2 * is.length + 1 + 1) total
        = m₁.runFrom (2 * is.length + 1) (total + 20) := by
          rw [Machine.runFrom, enters.step]
          rfl
      _ = m₂.runFrom (2 * is.length) (total + 20 + 12) := by
          rw [Machine.runFrom, returns.step]
          rfl
      _ = .ok (total + 32 * (is.length + 1), m') := by
          rw [ih]
          congr 2
          omega

/-- Interrupts are enabled, the handlers of the pending ones consist of RETI, and the stack leaves
them and the interrupt bytes alone. -/
structure CanServe (m : Machine FlatMemory) : Prop where
  running : m.cpu.stopped = false
  enabled : m.cpu.ime = true
  handlers : ∀ i ∈ Interrupt.ascending m.pending, m.bus.get (Interrupt.vector i) = 0xD9
  stack : ∀ a, a = m.cpu.regs.sp - 1 ∨ a = m.cpu.regs.sp - 2 →
    a ≠ Interrupt.requestAddress ∧ a ≠ Interrupt.enableAddress ∧
      ∀ i ∈ Interrupt.ascending m.pending, a ≠ Interrupt.vector i

/-- What the entry of an interrupt leaves behind in memory, if the stack is elsewhere. -/
theorem served_enterHandler (m : Machine FlatMemory) (i : Nat)
    (hh : m.cpu.regs.sp - 1 ≠ Interrupt.requestAddress)
    (hl : m.cpu.regs.sp - 2 ≠ Interrupt.requestAddress) :
    m.bus.Served m.cpu.regs.sp m.cpu.regs.pc (BitOp.mask i) (m.enterHandler i).bus := by
  have hs : m.cpu.regs.sp - 1 - 1 = m.cpu.regs.sp - 2 := by grind
  have hn : m.cpu.regs.sp - 2 ≠ m.cpu.regs.sp - 1 := by grind
  rw [bus_enterHandler, hs]
  constructor
  · rw [FlatMemory.get_set_of_ne _ hl, FlatMemory.get_set_of_ne _ hh, FlatMemory.get_set_self]
  · rw [FlatMemory.get_set_of_ne _ hn, FlatMemory.get_set_self]
  · rw [FlatMemory.get_set_self]
  · intro a hr hh hl
    rw [FlatMemory.get_set_of_ne _ hl.symm, FlatMemory.get_set_of_ne _ hh.symm,
      FlatMemory.get_set_of_ne _ hr.symm]

/-- Service takes the lines it serves from the pending ones. -/
theorem pending_of_served {sp : UInt16} {v : UInt8} (h : m.bus.Served sp pc v m'.bus)
    (hh : sp - 1 ≠ Interrupt.enableAddress) (hl : sp - 2 ≠ Interrupt.enableAddress) :
    m'.pending = m.pending &&& ~~~v := by
  rw [pending, h.request, h.rest _ (by decide) hh.symm hl.symm, Interrupt.pending_clear]
  rfl

/-- Service leaves the handlers in place. -/
theorem CanServe.get_vector (h : m.CanServe) {t : FlatMemory} {v : UInt8}
    (hs : m.bus.Served m.cpu.regs.sp pc v t) (hi : i ∈ Interrupt.ascending m.pending) :
    t.get (Interrupt.vector i) = 0xD9 := by
  have hr := Interrupt.vector_ne_requestAddress (Interrupt.mem_ascending.1 hi).1
  have hh := (h.stack _ (.inl rfl)).2.2 i hi
  have hl := (h.stack _ (.inr rfl)).2.2 i hi
  rw [hs.rest _ hr hh.symm hl.symm]
  exact h.handlers i hi

/-- Service leaves a machine that can serve what is still pending. -/
theorem CanServe.of_served (h : m.CanServe) {v : UInt8} (hc : m'.cpu = m.cpu.served i)
    (hs : m.bus.Served m.cpu.regs.sp pc v m'.bus)
    (hp : ∀ j ∈ Interrupt.ascending m'.pending, j ∈ Interrupt.ascending m.pending) :
    m'.CanServe where
  running := by
    rw [hc]
    exact h.running
  enabled := by
    rw [hc]
    rfl
  handlers j hj := h.get_vector hs (hp j hj)
  stack a ha := by
    rw [hc] at ha
    obtain ⟨hr, he, hv⟩ := h.stack a ha
    exact ⟨hr, he, fun j hj => hv j (hp j hj)⟩

/-- The handler of an interrupt is entered and returns: the processor is as it was before, but for
what `Cpu.served` says. -/
theorem CanServe.enters_returns (h : m.CanServe) (hf : Interrupt.first? m.pending = some i)
    (hi : i ∈ Interrupt.ascending m.pending) :
    ∃ m₁ m₂, m.Enters m.cpu.regs.pc i m₁ ∧ m₁.Returns m₂ ∧ m₂.cpu = m.cpu.served i ∧
      m.bus.Served m.cpu.regs.sp m.cpu.regs.pc (BitOp.mask i) m₂.bus := by
  have hs := m.served_enterHandler i (h.stack _ (.inl rfl)).1 (h.stack _ (.inr rfl)).1
  -- The handler finds interrupts disabled and its RETI in place.
  have hc : (m.enterHandler i).IsCalm := isCalm_of_pending h.running rfl (.inl rfl)
  have ho : (m.enterHandler i).bus.get (Interrupt.vector i) = 0xD9 := h.get_vector hs hi
  obtain ⟨m₂, hm, hb, hcpu⟩ := step_reti hc ho
  refine ⟨m.enterHandler i, m₂, ⟨?_, step_of_first? h.running h.enabled hf, rfl, hs⟩, ⟨?_, hm⟩,
    ?_, hb ▸ hs⟩
  · rw [turn_of_first? h.running h.enabled hf]
  · rw [fetched?_of_isCalm hc]
    exact congrArg some ho
  · -- RETI pops what the entry pushed.
    have hlo : m.cpu.regs.sp - 1 - 1 = m.cpu.regs.sp - 2 := by grind
    have hhi : m.cpu.regs.sp - 2 + 1 = m.cpu.regs.sp - 1 := by grind
    have hsp : m.cpu.regs.sp - 2 + 2 = m.cpu.regs.sp := by grind
    rw [hcpu, cpu_enterHandler]
    simp only [hlo, hhi, hsp, hs.high, hs.low, Word.ofBytes_high_low, Cpu.served]

/-- The service of one interrupt, after which the others can be served. -/
theorem CanServe.service (h : m.CanServe) (hp : Interrupt.ascending m.pending = i :: is) :
    ∃ m₁ m₂, m.Enters m.cpu.regs.pc i m₁ ∧ m₁.Returns m₂ ∧ m₂.cpu = m.cpu.served i ∧
      m.bus.Served m.cpu.regs.sp m.cpu.regs.pc (BitOp.mask i) m₂.bus ∧
      BitOp.mask i ||| m₂.pending = m.pending ∧ Interrupt.ascending m₂.pending = is ∧
      m₂.CanServe := by
  have hi : i ∈ Interrupt.ascending m.pending := hp ▸ List.mem_cons_self
  have hf : Interrupt.first? m.pending = some i := by
    rw [Interrupt.first?_eq_head?, hp]
    rfl
  obtain ⟨m₁, m₂, he, hr, hc, hs⟩ := h.enters_returns hf hi
  have hpe : m₂.pending = m.pending &&& ~~~BitOp.mask i :=
    pending_of_served hs (h.stack _ (.inl rfl)).2.1 (h.stack _ (.inr rfl)).2.1
  have ha : Interrupt.ascending m₂.pending = is := by
    rw [hpe]
    exact Interrupt.ascending_clear hp
  have hor : BitOp.mask i ||| m₂.pending = m.pending := by
    obtain ⟨hi₅, hv⟩ := Interrupt.mem_ascending.1 hi
    rw [hpe, Interrupt.mask_or_clear (by omega) hv]
  refine ⟨m₁, m₂, he, hr, hc, hs, hor, ha, h.of_served hc hs fun j hj => ?_⟩
  rw [ha] at hj
  exact hp ▸ List.mem_cons_of_mem i hj

/-- All pending interrupts are served, in order. -/
theorem CanServe.serves (h : m.CanServe) (hp : Interrupt.ascending m.pending = i :: is) :
    ∃ m' j, m.Serves m.cpu.regs.pc (i :: is) m' ∧ m'.cpu = m.cpu.served j ∧
      m.bus.Served m.cpu.regs.sp m.cpu.regs.pc m.pending m'.bus := by
  induction is generalizing m i with
  | nil =>
    obtain ⟨m₁, m₂, he, hr, hc, hs, hor, ha, -⟩ := h.service hp
    have hz : m₂.pending = 0 := Interrupt.eq_zero_of_ascending_pending ha
    rw [hz, UInt8.or_zero] at hor
    exact ⟨m₂, i, .cons he hr .nil, hc, hor ▸ hs⟩
  | cons j is ih =>
    obtain ⟨m₁, m₂, he, hr, hc, hs, hor, ha, h₂⟩ := h.service hp
    obtain ⟨m', k, hr', hc', hs'⟩ := ih h₂ ha
    rw [hc] at hr' hc' hs'
    exact ⟨m', k, .cons he hr hr', hc'.trans (m.cpu.served_served i k), hor ▸ hs.trans hs'⟩

/-- The law of service. If interrupts are enabled and some are pending, their handlers return at
once and the stack is out of the way, then all of them are served, from the lowest line to the
highest: each is entered from the same program counter, in 20 cycles, and returns in 12. In the end
the requests that were served are cleared, and no others; memory is otherwise as it was, but for the
two bytes below the stack pointer; the registers are as they were, but for the low nibble of F; and
the processor is awake, with interrupts enabled. -/
theorem serves_pending (m : Machine FlatMemory) (h : m.CanServe) (requested : m.pending ≠ 0) :
    let lines := Interrupt.ascending m.pending
    ∃ m', m.Serves m.cpu.regs.pc lines m' ∧
      m.run (2 * lines.length) = .ok (32 * lines.length, m') ∧
      m.bus.Served m.cpu.regs.sp m.cpu.regs.pc m.pending m'.bus ∧
      m'.cpu.regs = { m.cpu.regs with f := m.cpu.regs.f &&& 0xF0 } ∧ m'.cpu.ime = true ∧
      m'.cpu.halted = false := by
  intro lines
  obtain ⟨i, is, hp⟩ : ∃ i is, lines = i :: is :=
    List.exists_cons_of_ne_nil fun hn => requested (Interrupt.eq_zero_of_ascending_pending hn)
  obtain ⟨m', j, hs, hc, hb⟩ := h.serves hp
  refine ⟨m', hp ▸ hs, ?_, hb, ?_⟩
  · rw [run, hp, hs.runFrom, Nat.zero_add]
  · rw [hc]
    exact ⟨rfl, rfl, rfl⟩

/-- A halted processor serves three interrupts, and forgets the DI before them. -/
theorem serves_pending_of_halted :
    let m : Machine FlatMemory :=
      { cpu :=
          { regs := { f := 0xFF, sp := 0xC000, pc := 0x1234 }
            ime := true
            halted := true
            request := .armed false }
        bus := ((FlatMemory.filled 0xD9).set 0xFFFF 0x15).set 0xFF0F 0xF5 }
    m.CanServe ∧ m.pending ≠ 0 ∧
      ∃ m', m.Serves 0x1234 [0, 2, 4] m' ∧ m.run 6 = .ok (96, m') ∧
        m.bus.Served 0xC000 0x1234 0x15 m'.bus ∧ m'.bus.get Interrupt.requestAddress = 0xE0 ∧
        m'.cpu.regs = { f := 0xF0, sp := 0xC000, pc := 0x1234 } := by
  intro m
  have hg (a : UInt16) :
      m.bus.get a = if 0xFF0F = a then 0xF5 else if 0xFFFF = a then 0x15 else 0xD9 := by
    simp only [m, FlatMemory.get_set, FlatMemory.get_filled]
  have hp : m.pending = 0x15 := by
    rw [pending, hg, hg]
    rfl
  have hl : Interrupt.ascending m.pending = [0, 2, 4] := by
    rw [hp]
    rfl
  have hc : m.CanServe := by
    refine ⟨rfl, rfl, ?_, ?_⟩
    · intro i hi
      rw [hl] at hi
      rw [hg]
      revert i
      decide
    · rintro a (rfl | rfl) <;>
        · rw [hl]
          decide
  have hz : m.pending ≠ 0 := by
    rw [hp]
    decide
  obtain ⟨m', hs, hr, hb, hregs, -, -⟩ := serves_pending m hc hz
  rw [hl] at hs hr
  rw [hp] at hb
  refine ⟨hc, hz, m', hs, hr, hb, ?_, ?_⟩
  · rw [hb.request, hg]
    rfl
  · simp only [hregs, m]
    rfl

end Machine

end DotMatrix
