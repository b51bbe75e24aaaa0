import DotMatrix.Proofs.Processor.Consistent
import DotMatrix.Proofs.Processor.Service

/-!
# Waiting

A halted processor waits for a pending interrupt, a stopped one for a joypad line to fall. These are
the calls of a step on such a processor, one at a time.

* `m.Services i m'` and `m.Resumes m₁ n m'` are the two ways in which a processor that does not wait
  goes on: it enters the handler of a line, or it executes the instruction at the program counter.
* `step_of_halted` says when a call on a halted processor does nothing, and `wakes` how it goes on
  otherwise.
* `m.stopLines?` is the joypad byte that a valid STOP reads, and `exists_stop` what STOP does.
  `m.Watches p m'` is a call on a stopped processor, which reads the joypad byte `p`.
-/

namespace DotMatrix

namespace Interrupt

variable {σ : Type} [Bus σ]

/-- The lines that are enabled and requested on a bus. -/
def requestedOn (s : σ) : UInt8 :=
  (Bus.read s enableAddress).1 &&& (Bus.read s requestAddress).1 &&& 0x1F

theorem pending_eq (e r : UInt8) : pending e r = e &&& r &&& 0x1F := by
  calc pending e r = e &&& r &&& (0x1F &&& 0x1F) := by
        unfold pending lines
        ac_rfl
    _ = e &&& r &&& 0x1F := by rw [UInt8.and_self]

/-- There is a line to serve unless nothing is requested and enabled. -/
theorem first?_requestedOn_eq_none {s : σ} : first? (requestedOn s) = none ↔ requestedOn s = 0 := by
  constructor
  · intro h
    rw [requestedOn, ← pending_eq] at h ⊢
    rw [first?_eq_head?, List.head?_eq_none_iff] at h
    exact eq_zero_of_ascending_pending h
  · intro h
    rw [h]
    decide

end Interrupt

namespace Machine

variable {σ : Type} [Bus σ] {m m' m'' m₁ : Machine σ} {n n' i : Nat}

/-! ### Going on -/

/-- A step enters the handler of a line, the first of those that it finds pending: it clears the
request and pushes the program counter. -/
structure Services (m : Machine σ) (i : Nat) (m' : Machine σ) : Prop where
  step : m.step = .ok (20, m')
  cpu : m'.cpu =
    { m.cpu with
      ime := false
      halted := false
      regs := { m.cpu.regs with sp := m.cpu.regs.sp - 2, pc := Interrupt.vector i } }
  performs : ∃ e r v, Interrupt.first? (Interrupt.pending e r) = some i ∧
    Performs m.bus
      ([.read Interrupt.enableAddress e, .read Interrupt.requestAddress r,
        .read Interrupt.requestAddress v,
        .write Interrupt.requestAddress (v &&& ~~~BitOp.mask i)] ++
          pushes m.cpu.regs.sp m.cpu.regs.pc) m'.bus

/-- A step executes the instruction at the program counter, from a machine that is awake and has
done nothing but poll the interrupt lines. -/
structure Resumes (m m₁ : Machine σ) (n : Nat) (m' : Machine σ) : Prop where
  step : m.step = .ok (n, m')
  cpu : m₁.cpu = { m.cpu with halted := false }
  polls : ∃ polls, Polls (m.cpu.ime.toNat + m.cpu.halted.toNat) polls ∧
    Performs m.bus polls m₁.bus
  fetched : m.fetched? = some (Bus.read m₁.bus m.cpu.regs.pc).1
  execute : m₁.executeNext = .ok (n, m')
  last : m'.cpu.last.pc = m.cpu.regs.pc

/-- A machine has one step. -/
theorem step_unique (hs : m.step = .ok (n, m')) (hs' : m.step = .ok (n', m'')) :
    n = n' ∧ m' = m'' :=
  Prod.mk.inj (Except.ok.inj (hs.symm.trans hs'))

theorem services_of_step (running : m.cpu.stopped = false) (h : m.firstInterrupt.1 = some i)
    (hs : m.step = .ok (n, m')) : m.Services i m' := by
  have hime : m.cpu.ime = true := by
    rw [← Bool.not_eq_false]
    intro hime
    obtain ⟨-, -, -, -, hn⟩ := m.firstInterrupt_spec
    rw [hn hime] at h
    cases h
  have hf : m.firstInterrupt = (Interrupt.first? m.pollInterrupts.1, m.pollInterrupts.2) := by
    unfold firstInterrupt
    rw [if_pos hime]
  have h : Interrupt.first? m.pollInterrupts.1 = some i := by
    rw [hf] at h
    exact h
  have ht : m.turn = (.enterHandler i, m.pollInterrupts.2) := by
    unfold turn
    rw [if_neg (by simp [running]), hf, h]
  have hstep : m.step = .ok (20, m.pollInterrupts.2.enterHandler i) := by
    unfold step
    rw [ht]
  obtain ⟨-, rfl⟩ := step_unique hs hstep
  have hsp : m.cpu.regs.sp - 2 = m.cpu.regs.sp - 1 - 1 := by grind
  refine ⟨hstep, ?_, _, _, (Bus.read m.pollInterrupts.2.bus Interrupt.requestAddress).1, h, ?_⟩
  · rw [hsp]
    rfl
  · unfold pushes
    rw [hsp]
    exact .read _ (.read _ (.read _ (.write _ _ (.write _ _ (.write _ _ (.nil _))))))

theorem resumes_of_step (ht : m.turn.1 = .execute) (hs : m.step = .ok (n, m')) :
    ∃ m₁, m.turn = (.execute, m₁) ∧ m.Resumes m₁ n m' := by
  have hd := m.decides_turn
  generalize hm : m.turn = t at hd ht
  cases hd with
  | execute m₁ polls running serves cpu polled performs =>
    obtain ⟨m'', operands, data, sample, hx, hc⟩ := m₁.exists_completes
    have hpc : m₁.cpu.regs.pc = m.cpu.regs.pc := by rw [cpu]
    have hstep : m.step = .ok (m''.cpu.last.cycles, m'') := by
      unfold step
      rw [hm]
      exact hx
    obtain ⟨rfl, rfl⟩ := step_unique hs hstep
    have hf : m.fetched? = some (Bus.read m₁.bus m.cpu.regs.pc).1 := by
      unfold fetched?
      rw [hm, ← hpc]
    exact ⟨m₁, rfl, hs, cpu, ⟨polls, polled, performs⟩, hf, hx, hc.pc.trans hpc⟩
  | sampleLines | enterHandler | wait => cases ht

theorem turn_of_awake (running : m.cpu.stopped = false) (awake : m.cpu.halted = false)
    (h : m.firstInterrupt.1 = none) : m.turn.1 = .execute := by
  obtain ⟨-, -, -, hcpu, -⟩ := m.firstInterrupt_spec
  have hf : m.firstInterrupt = (none, m.firstInterrupt.2) := Prod.ext h rfl
  unfold turn
  rw [if_neg (by simp [running]), hf]
  dsimp only
  rw [hcpu, if_neg (by simp [awake])]

/-- A step of a processor that does not wait: it serves the interrupt that it finds, or executes the
next instruction. -/
def GoesOn (m : Machine σ) (n : Nat) (m' : Machine σ) : Prop :=
  match m.firstInterrupt.1 with
  | some i => m.Services i m'
  | none => ∃ m₁, m.Resumes m₁ n m'

theorem goesOn_of_awake (running : m.cpu.stopped = false) (awake : m.cpu.halted = false)
    (hs : m.step = .ok (n, m')) : m.GoesOn n m' := by
  unfold GoesOn
  split
  · next i hi => exact services_of_step running hi hs
  · next hi =>
    obtain ⟨m₁, -, hm₁⟩ := resumes_of_step (turn_of_awake running awake hi) hs
    exact ⟨m₁, hm₁⟩

/-- An instruction that follows a wait changes the processor: it leaves HALT, or is another HALT and
moves on. -/
theorem Resumes.cpu_ne (h : m.Resumes m₁ n m') (hh : m.cpu.halted = true) : m'.cpu ≠ m.cpu := by
  intro he
  obtain ⟨m₂, -, operands, data, sample, -, -, -, cpu, -, -, hc⟩ :=
    (takes_of_step h.step).of_fetched h.fetched
  have hr : m₂.cpu.regs = m.cpu.regs := by rw [cpu]
  have hleads := hc.leads
  have hrun := hc.running
  have hsize := hc.size
  rw [he, hr] at hleads
  rw [he, hh, cpu] at hrun
  generalize (Bus.read m₁.bus m.cpu.regs.pc).1 = opcode at hleads hrun hsize
  by_cases hhalt : BaseOp.decode opcode = .halt
  · rw [hhalt] at hleads
    rw [Opcode.size, hhalt, List.length_cons] at hsize
    have hnil : operands.length = 0 := Nat.succ.inj hsize
    have hpc : m.cpu.regs.pc = m.cpu.regs.pc + UInt16.ofNat (1 + operands.length) := hleads
    rw [hnil] at hpc
    grind
  · by_cases hstop : BaseOp.decode opcode = .stop
    · rw [hstop] at hleads
      obtain ⟨next, -, hpc⟩ := hleads
      split at hpc <;> grind
    · have hwoken : true = false := (hrun hhalt hstop).1
      cases hwoken

/-! ### A halted processor -/

section Halted

variable (hp : PureReads σ)
include hp

/-- Where reads have no effect, a poll gives what is requested and changes the journal alone. -/
theorem pollInterrupts_of_pure (m : Machine σ) :
    ∃ j, m.pollInterrupts = (Interrupt.requestedOn m.bus, { m with journal := j }) := by
  have hbus : (Bus.read (Bus.read m.bus Interrupt.enableAddress).2 Interrupt.requestAddress).2 =
      m.bus := by rw [hp, hp]
  have hpending : m.pollInterrupts.1 = Interrupt.requestedOn m.bus := by
    show Interrupt.pending (Bus.read m.bus Interrupt.enableAddress).1
      (Bus.read (Bus.read m.bus Interrupt.enableAddress).2 Interrupt.requestAddress).1 = _
    rw [hp, Interrupt.pending_eq]
    rfl
  refine ⟨m.pollInterrupts.2.journal, Prod.ext hpending ?_⟩
  show ({ m.pollInterrupts.2 with } : Machine σ) = _
  exact congrArg (Machine.mk m.cpu · _) hbus

theorem fst_firstInterrupt_of_pure (m : Machine σ) : m.firstInterrupt.1 =
    if m.cpu.ime then Interrupt.first? (Interrupt.requestedOn m.bus) else none := by
  obtain ⟨j, hj⟩ := pollInterrupts_of_pure hp m
  unfold firstInterrupt
  rw [hj]
  split <;> rfl

theorem snd_firstInterrupt_of_pure (m : Machine σ) :
    ∃ j, m.firstInterrupt.2 = { m with journal := j } := by
  obtain ⟨j, hj⟩ := pollInterrupts_of_pure hp m
  unfold firstInterrupt
  rw [hj]
  split
  · exact ⟨j, rfl⟩
  · exact ⟨m.journal, rfl⟩

/-- A halted processor that finds no interrupt to serve polls once more, to wait or to wake. -/
theorem turn_of_halted (running : m.cpu.stopped = false) (halted : m.cpu.halted = true)
    (h : m.firstInterrupt.1 = none) : ∃ j, m.turn =
      if Interrupt.requestedOn m.bus = 0 then (.wait, { m with journal := j })
      else (.execute, { m with cpu := { m.cpu with halted := false }, journal := j }) := by
  obtain ⟨j, hj⟩ := snd_firstInterrupt_of_pure hp m
  obtain ⟨j', hj'⟩ := pollInterrupts_of_pure hp { m with journal := j }
  have hf : m.firstInterrupt = (none, { m with journal := j }) := Prod.ext h hj
  refine ⟨j', ?_⟩
  unfold turn
  rw [if_neg (by simp [running]), hf]
  dsimp only
  rw [if_pos halted, hj']

/-- Nothing pending: the call waits, whatever the master enable is. -/
theorem exists_wait (running : m.cpu.stopped = false) (halted : m.cpu.halted = true)
    (h : Interrupt.requestedOn m.bus = 0) :
    ∃ m', m.step = .ok (4, m') ∧ m'.cpu = m.cpu ∧ m'.bus = m.bus := by
  have hf : m.firstInterrupt.1 = none := by
    rw [fst_firstInterrupt_of_pure hp, Interrupt.first?_requestedOn_eq_none.2 h, ite_self]
  obtain ⟨j, hj⟩ := turn_of_halted hp running halted hf
  rw [if_pos h] at hj
  refine ⟨{ m with journal := j }, ?_, rfl, rfl⟩
  unfold step
  rw [hj]

/-- Something pending: the same call wakes the processor. If interrupts are enabled it serves the
first line, and otherwise it executes the instruction at the program counter. -/
theorem wakes (running : m.cpu.stopped = false) (halted : m.cpu.halted = true)
    (h : Interrupt.requestedOn m.bus ≠ 0) (hs : m.step = .ok (n, m')) :
    (m.cpu.ime = true → ∃ i, Interrupt.first? (Interrupt.requestedOn m.bus) = some i ∧
      m.Services i m') ∧
    (m.cpu.ime = false → ∃ m₁, m₁.bus = m.bus ∧ m.Resumes m₁ n m') := by
  constructor
  · intro hime
    obtain ⟨i, hi⟩ := Option.ne_none_iff_exists'.1 (mt Interrupt.first?_requestedOn_eq_none.1 h)
    have hf : m.firstInterrupt.1 = some i := by
      rw [fst_firstInterrupt_of_pure hp, if_pos hime, hi]
    exact ⟨i, hi, services_of_step running hf hs⟩
  · intro hime
    have hf : m.firstInterrupt.1 = none := by
      rw [fst_firstInterrupt_of_pure hp, if_neg (by simp [hime])]
    obtain ⟨j, hj⟩ := turn_of_halted hp running halted hf
    rw [if_neg h] at hj
    obtain ⟨m₁, ht, hm₁⟩ := resumes_of_step (congrArg Prod.fst hj) hs
    rw [ht] at hj
    refine ⟨m₁, ?_, hm₁⟩
    rw [(Prod.mk.inj hj).2]

/-- A call on a halted processor does nothing, and costs four cycles, if and only if nothing is
pending. -/
theorem step_of_halted (running : m.cpu.stopped = false) (halted : m.cpu.halted = true)
    (hs : m.step = .ok (n, m')) :
    (n = 4 ∧ m'.cpu = m.cpu ∧ m'.bus = m.bus) ↔ Interrupt.requestedOn m.bus = 0 := by
  constructor
  · rintro ⟨rfl, hcpu, -⟩
    refine Decidable.byContradiction fun h => ?_
    obtain ⟨hserve, hresume⟩ := wakes hp running halted h hs
    cases hime : m.cpu.ime with
    | true =>
      obtain ⟨i, -, hi⟩ := hserve hime
      cases hs.symm.trans hi.step
    | false =>
      obtain ⟨m₁, -, hm₁⟩ := hresume hime
      exact hm₁.cpu_ne halted hcpu
  · intro h
    obtain ⟨m'', hm'', hcpu, hbus⟩ := exists_wait hp running halted h
    obtain ⟨rfl, rfl⟩ := step_unique hs hm''
    exact ⟨rfl, hcpu, hbus⟩

end Halted

/-- A step that fetches an opcode of the first page begins with it, on the bus behind the fetch. -/
theorem begins_of_fetched {opcode : UInt8} (hf : m.fetched? = some opcode) (hn : opcode ≠ 0xCB) :
    ∃ m₁, m.turn = (.execute, m₁) ∧ m₁.cpu = { m.cpu with halted := false } ∧
      m.Begins (.base opcode) m₁.fetchOpcode.2 := by
  unfold fetched? at hf
  split at hf
  · next m₁ ht =>
    have ho : m₁.fetchOpcode.1 = opcode := Option.some.inj hf
    have hb := begins_of_turn ht
    rw [fetchCode_of_ne (by rw [ho]; exact hn), ho] at hb
    have hd := m.decides_turn
    rw [ht] at hd
    cases hd with
    | execute _ polls running serves cpu polled performs => exact ⟨m₁, ht, cpu, hb⟩
  · cases hf

/-- HALT leaves the processor halted, with the program counter behind it. -/
theorem halts_of_fetched (hf : m.fetched? = some 0x76) (hs : m.step = .ok (n, m')) :
    m'.cpu.halted = true ∧ m'.cpu.stopped = false ∧ m'.cpu.regs.pc = m.cpu.regs.pc + 1 := by
  obtain ⟨m₁, -, -, hb⟩ := begins_of_fetched hf (by decide)
  generalize m₁.fetchOpcode.2 = m₀ at hb
  have hx : m₀.execCode (.base 0x76) = .ok { m₀ with cpu := { m₀.cpu with halted := true } } := rfl
  obtain ⟨m'', hs', -, hc⟩ := hb.exists_step hx
  obtain ⟨-, rfl⟩ := step_unique hs hs'
  rw [hc]
  refine ⟨rfl, ?_, ?_⟩
  · show m₀.cpu.stopped = false
    rw [hb.cpu]
    exact hb.running
  · show m₀.cpu.regs.pc = m.cpu.regs.pc + 1
    rw [hb.cpu]
    rfl

/-! ### A stopped processor -/

/-- The joypad byte that the next step reads, if it executes STOP before a zero byte. -/
def stopLines? (m : Machine σ) : Option UInt8 :=
  match m.turn with
  | (.execute, m) =>
    let (opcode, s) := Bus.read m.bus m.cpu.regs.pc
    let (next, s) := Bus.read s (m.cpu.regs.pc + 1)
    if opcode = 0x10 ∧ next = 0 then some (Bus.read s 0xFF00).1 else none
  | _ => none

theorem cpu_execStop (h : (Bus.read m.bus m.cpu.regs.pc).1 = 0) : m.execStop.cpu =
    { m.cpu with
      regs := { m.cpu.regs with pc := m.cpu.regs.pc + 1 }
      accesses := m.cpu.accesses + 1
      stopped := true
      stopLines := (Bus.read (Bus.read m.bus m.cpu.regs.pc).2 0xFF00).1 &&& 0x0F } := by
  unfold execStop
  dsimp only
  rw [fst_read, if_pos h]
  rfl

/-- STOP before a zero byte stops the processor, with the program counter behind the two bytes. It
keeps the low nibble of the joypad byte. -/
theorem exists_stop {lines : UInt8} (h : m.stopLines? = some lines) :
    ∃ m', m.step = .ok (8, m') ∧ m'.cpu.stopped = true ∧ m'.cpu.halted = false ∧
      m'.cpu.stopLines = lines &&& 0x0F ∧ m'.cpu.regs.pc = m.cpu.regs.pc + 2 := by
  unfold stopLines? at h
  split at h
  · next m₁ ht =>
    dsimp only at h
    split at h
    · next hz =>
      have hf : m.fetched? = some 0x10 := by
        unfold fetched?
        rw [ht, ← hz.1]
      obtain ⟨m₂, ht', -, hb⟩ := begins_of_fetched hf (by decide)
      obtain rfl : m₁ = m₂ := (Prod.mk.inj (ht.symm.trans ht')).2
      have hstop := cpu_execStop (m := m₁.fetchOpcode.2) hz.2
      have hx : m₁.fetchOpcode.2.execCode (.base 0x10) = .ok m₁.fetchOpcode.2.execStop := rfl
      obtain ⟨m', hs, -, hc⟩ := hb.exists_step hx
      have hcount : m₁.fetchOpcode.2.execStop.cpu.accesses = 1 := by
        rw [hstop]
        rfl
      have hlines : m₁.fetchOpcode.2.execStop.cpu.stopLines = lines &&& 0x0F := by
        rw [hstop]
        exact congrArg (· &&& 0x0F) (Option.some.inj h)
      have hpc : m₁.fetchOpcode.2.execStop.cpu.regs.pc = m.cpu.regs.pc + 2 := by
        have hpc : m₁.fetchOpcode.2.cpu.regs.pc = m.cpu.regs.pc + 1 := by
          rw [hb.cpu]
          rfl
        rw [hstop]
        dsimp only
        rw [hpc]
        grind
      rw [hcount] at hs
      refine ⟨m', hs, ?_, ?_, by rw [hc, ← hlines], by rw [hc, ← hpc]⟩
      · rw [hc, hstop]
      · rw [hc, hstop]
        show m₁.fetchOpcode.2.cpu.halted = false
        rw [hb.cpu]
    · cases h
  · cases h

/-- A call on a stopped processor reads the joypad byte, and does nothing else but end the stop if a
line has fallen. It executes nothing and serves nothing. -/
structure Watches (m : Machine σ) (p : UInt8) (m' : Machine σ) : Prop where
  step : m.step = .ok (4, m')
  turn : m.turn.1 = .sampleLines
  fetched : m.fetched? = none
  performs : Performs m.bus [.read 0xFF00 p] m'.bus
  cpu : m'.cpu = { m.cpu with stopped := decide (m.cpu.stopLines &&& ~~~p &&& 0x0F = 0) }

theorem exists_watches (stopped : m.cpu.stopped = true) :
    ∃ m', m.Watches (Bus.read m.bus 0xFF00).1 m' := by
  have ht : m.turn = (.sampleLines, m) := by
    unfold turn
    rw [if_pos stopped]
  refine ⟨m.sampleLines, ?_, congrArg Prod.fst ht, ?_, ?_, ?_⟩
  · unfold step
    rw [ht]
  · unfold fetched?
    rw [ht]
  · have hbus : m.sampleLines.bus = (Bus.read m.bus 0xFF00).2 := by
      unfold sampleLines
      dsimp only
      split <;> rfl
    rw [hbus]
    exact .one_read ..
  · unfold sampleLines
    dsimp only
    rw [fst_sample, cpu_sample]
    split
    · next h =>
      rw [decide_eq_true h, ← stopped]
      rfl
    · next h =>
      rw [decide_eq_false h]
      rfl

end Machine

end DotMatrix
