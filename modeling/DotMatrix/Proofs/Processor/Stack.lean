import DotMatrix.Proofs.Processor.Fetch
import DotMatrix.Proofs.Processor.FlatStep

/-!
# The stack

Words that are pushed come back in the opposite order, however many there are. All that is written
is the bytes below the stack pointer, two for each word.

* `m.pushAll ws` pushes words one after the other, `m.popAll n` pops `n` words. `popAll_pushAll` is
  the law of the two: of the words that are pushed, the first is popped last, and neither the words
  above it nor the stack pointer on its way through 0000 matter to it.
* `m.Pushes w pc m'` says that a step pushes a word and goes on at an address, `m.Pops r m'` that a
  step pops one. `Begins.pushes_push` and its companions say which instructions do.
* `stack_lifo` puts it together.
-/

namespace DotMatrix

/-- The program counter is no part of the pairs. -/
theorem Registers.word_setPc (r : Registers) (pc : UInt16) {s : Selector}
    (hs : s ∈ [.bc, .de, .hl, .af]) : ({ r with pc := pc } : Registers).word s = r.word s := by
  simp only [List.mem_cons, List.not_mem_nil, or_false] at hs
  rcases hs with rfl | rfl | rfl | rfl <;> rfl

/-- A word goes to a pair; F changes with AF alone. -/
theorem Registers.exists_setWord_f (r : Registers) (w : UInt16) {s : Selector}
    (hs : s ∈ [.bc, .de, .hl, .af]) :
    ∃ r', r.setWord s w = .ok r' ∧ (s ≠ .af → r.f = r'.f) := by
  simp only [List.mem_cons, List.not_mem_nil, or_false] at hs
  rcases hs with rfl | rfl | rfl | rfl
  · exact ⟨_, rfl, fun _ => rfl⟩
  · exact ⟨_, rfl, fun _ => rfl⟩
  · exact ⟨_, rfl, fun _ => rfl⟩
  · exact ⟨_, rfl, fun h => absurd rfl h⟩

/-- Whether an operation returns, given the flags. -/
def BaseOp.returns (op : BaseOp) (fl : Flags) : Bool :=
  match op with
  | ret c => c.holds fl
  | reti => true
  | _ => false

/-! ### Words in memory -/

namespace FlatMemory

variable (mem : FlatMemory) (sp w : UInt16)

/-- The word at an address, low byte first. -/
def word (a : UInt16) : UInt16 := Word.ofBytes (mem.get (a + 1)) (mem.get a)

/-- Memory with a word pushed below an address. -/
def push : FlatMemory := (mem.set (sp - 1) (Word.high w)).set (sp - 2) (Word.low w)

theorem sub_one_ne_sub_two : sp - 1 ≠ sp - 2 := by
  intro h
  have h1 : sp - 1 - (sp - 2) = 0 := by rw [h, UInt16.sub_self]
  grind

@[simp] theorem get_push_high : (mem.push sp w).get (sp - 1) = Word.high w := by
  rw [push, get_set_of_ne _ (sub_one_ne_sub_two sp).symm, get_set_self]

@[simp] theorem get_push_low : (mem.push sp w).get (sp - 2) = Word.low w := get_set_self ..

theorem get_push_of_ne {a : UInt16} (h1 : a ≠ sp - 1) (h2 : a ≠ sp - 2) :
    (mem.push sp w).get a = mem.get a := by
  rw [push, get_set_of_ne _ h2.symm, get_set_of_ne _ h1.symm]

/-- A word that is pushed is at the new stack pointer. -/
@[simp] theorem word_push : (mem.push sp w).word (sp - 2) = w := by
  have hs : sp - 2 + 1 = sp - 1 := by grind
  rw [word, hs, get_push_high, get_push_low, Word.ofBytes_high_low]

end FlatMemory

/-- An address is one of the `n` below `sp`, modulo 2^16. -/
def IsBelow (sp : UInt16) (n : Nat) (a : UInt16) : Prop := (sp - 1 - a).toNat < n

instance (sp : UInt16) (n : Nat) (a : UInt16) : Decidable (IsBelow sp n a) :=
  inferInstanceAs (Decidable ((sp - 1 - a).toNat < n))

theorem isBelow_two {sp a : UInt16} : IsBelow sp 2 a ↔ a = sp - 1 ∨ a = sp - 2 := by
  have hd : (sp - 1 - a).toNat < 2 ↔ sp - 1 - a = 0 ∨ sp - 1 - a = 1 := by
    rw [← UInt16.toNat_inj, ← UInt16.toNat_inj, UInt16.toNat_zero, UInt16.toNat_one]
    omega
  rw [IsBelow, hd]
  constructor
  · rintro (h | h)
    · exact .inl (by grind)
    · exact .inr (by grind)
  · rintro (rfl | rfl)
    · exact .inl (by grind)
    · exact .inr (by grind)

/-- What is not below the stack pointer is not below the one after a push. -/
theorem not_isBelow_sub_two {sp a : UInt16} {n : Nat} (h : ¬ IsBelow sp (n + 2) a) :
    ¬ IsBelow (sp - 2) n a := by
  have hd : sp - 2 - 1 - a = sp - 1 - a - 2 := by grind
  rw [IsBelow] at h ⊢
  have hle : (2 : UInt16) ≤ sp - 1 - a := by
    rw [UInt16.le_iff_toNat_le]
    show 2 ≤ (sp - 1 - a).toNat
    omega
  rw [hd, UInt16.toNat_sub_of_le _ _ hle]
  show ¬ (sp - 1 - a).toNat - 2 < n
  omega

/-- The bytes of a pushed word are below the new stack pointer only if all of memory is. -/
theorem not_isBelow_word (sp : UInt16) {n : Nat} (h : n ≤ 65534) :
    ¬ IsBelow (sp - 2) n (sp - 1) ∧ ¬ IsBelow (sp - 2) n (sp - 2) := by
  have h1 : sp - 2 - 1 - (sp - 1) = 65534 := by grind
  have h2 : sp - 2 - 1 - (sp - 2) = 65535 := by grind
  rw [IsBelow, IsBelow, h1, h2]
  show ¬ 65534 < n ∧ ¬ 65535 < n
  omega

/-! ### Pushes and pops -/

namespace Machine

section

variable {σ : Type} [Bus σ]

/-- Push words one after the other. -/
def pushAll (m : Machine σ) : List UInt16 → Machine σ
  | [] => m
  | w :: ws => (m.push w).pushAll ws

/-- Pop some words, and list them in the order in which they come. -/
def popAll (m : Machine σ) : Nat → List UInt16 × Machine σ
  | 0 => ([], m)
  | n + 1 => (m.pop.1 :: (m.pop.2.popAll n).1, (m.pop.2.popAll n).2)

/-- The last word popped may be taken apart as well as the first. -/
theorem popAll_succ (m : Machine σ) (n : Nat) :
    m.popAll (n + 1) = ((m.popAll n).1 ++ [(m.popAll n).2.pop.1], (m.popAll n).2.pop.2) := by
  induction n generalizing m with
  | zero => rfl
  | succ n ih =>
    rw [popAll, ih]
    rfl

end

variable (m : Machine FlatMemory)

theorem bus_push (w : UInt16) : (m.push w).bus = m.bus.push m.cpu.regs.sp w := by
  have hs : m.cpu.regs.sp - 2 = m.cpu.regs.sp - 1 - 1 := by grind
  rw [FlatMemory.push, hs]
  rfl

theorem cpu_push (w : UInt16) : (m.push w).cpu =
    { m.cpu with
      regs := { m.cpu.regs with sp := m.cpu.regs.sp - 2 }
      accesses := m.cpu.accesses + 2 } := by
  have hs : m.cpu.regs.sp - 2 = m.cpu.regs.sp - 1 - 1 := by grind
  rw [hs]
  rfl

theorem fst_pop : m.pop.1 = m.bus.word m.cpu.regs.sp := by
  rw [pop_eq]
  rfl

theorem snd_pop : m.pop.2 =
    { m with
      cpu :=
        { m.cpu with
          accesses := m.cpu.accesses + 2
          regs := { m.cpu.regs with sp := m.cpu.regs.sp + 2 } } } := by
  rw [pop_eq]

/-- Pushes change the bytes below the stack pointer, two for each word, and no others. -/
theorem get_pushAll (ws : List UInt16) {a : UInt16}
    (h : ¬ IsBelow m.cpu.regs.sp (2 * ws.length) a) : (m.pushAll ws).bus.get a = m.bus.get a := by
  induction ws generalizing m with
  | nil => rfl
  | cons w ws ih =>
    rw [List.length_cons, Nat.mul_succ] at h
    have h2 : ¬ IsBelow m.cpu.regs.sp 2 a :=
      fun hb => h (Nat.lt_of_lt_of_le hb (Nat.le_add_left ..))
    rw [isBelow_two, not_or] at h2
    have hsp : (m.push w).cpu.regs.sp = m.cpu.regs.sp - 2 := by rw [cpu_push]
    have hn := ih (m.push w) (by rw [hsp]; exact not_isBelow_sub_two h)
    rw [pushAll, hn, bus_push, FlatMemory.get_push_of_ne _ _ _ h2.1 h2.2]

/-- The stack is last in, first out. -/
theorem popAll_pushAll {ws : List UInt16} (h : ws.length ≤ 32768) :
    ((m.pushAll ws).popAll ws.length).1 = ws.reverse ∧
      ((m.pushAll ws).popAll ws.length).2.bus = (m.pushAll ws).bus ∧
      ((m.pushAll ws).popAll ws.length).2.cpu =
        { m.cpu with accesses := m.cpu.accesses + 4 * ws.length } := by
  induction ws generalizing m with
  | nil => exact ⟨rfl, rfl, rfl⟩
  | cons w ws ih =>
    -- The first word stays where it is while the others come and go, and is popped last.
    have hl : ws.length < 32768 := h
    obtain ⟨hws, hbus, hcpu⟩ := ih (m.push w) (by omega)
    have hsp : (m.push w).cpu.regs.sp = m.cpu.regs.sp - 2 := by rw [cpu_push]
    obtain ⟨h1, h2⟩ := not_isBelow_word m.cpu.regs.sp (n := 2 * ws.length) (by omega)
    have hw : (m.pushAll (w :: ws)).bus.word (m.cpu.regs.sp - 2) = w := by
      have hs : m.cpu.regs.sp - 2 + 1 = m.cpu.regs.sp - 1 := by grind
      rw [pushAll, FlatMemory.word, hs, get_pushAll _ _ (by rwa [hsp]),
        get_pushAll _ _ (by rwa [hsp]), bus_push, FlatMemory.get_push_high,
        FlatMemory.get_push_low, Word.ofBytes_high_low]
    rw [List.length_cons, popAll_succ, List.reverse_cons]
    refine ⟨?_, ?_, ?_⟩
    · rw [pushAll, hws, fst_pop, hbus, hcpu]
      show ws.reverse ++ [(m.pushAll (w :: ws)).bus.word (m.push w).cpu.regs.sp] = _
      rw [hsp, hw]
    · rw [pushAll, snd_pop, hbus]
    · have hs : m.cpu.regs.sp - 2 + 2 = m.cpu.regs.sp := by grind
      have hn : m.cpu.accesses + 2 + 4 * ws.length + 2 = m.cpu.accesses + 4 * (ws.length + 1) := by
        omega
      rw [pushAll, snd_pop, hcpu, cpu_push]
      dsimp only
      rw [hs, hn]

/-! ### Steps -/

/-- A step pushes a word and goes on at an address. The low nibble of F is cleared, and every other
register keeps its value; interrupts are enabled if they were, unless a request takes effect. -/
structure Pushes (m : Machine FlatMemory) (w pc : UInt16) (m' : Machine FlatMemory) : Prop where
  step : ∃ n, m.step = .ok (n, m')
  bus : m'.bus = (m.push w).bus
  regs : m'.cpu.regs =
    { m.cpu.regs with f := m.cpu.regs.f &&& 0xF0, sp := m.cpu.regs.sp - 2, pc := pc }
  running : m'.cpu.stopped = false
  awake : m'.cpu.halted = false
  ime : m'.cpu.ime = (m.cpu.request.settle m.cpu.ime).1

/-- A step pops a word: memory stays as it is, and the registers are these. -/
structure Pops (m : Machine FlatMemory) (r : Registers) (m' : Machine FlatMemory) : Prop where
  step : ∃ n, m.step = .ok (n, m')
  bus : m'.bus = m.bus
  regs : m'.cpu.regs = r

variable {m m₀ m₁ m₂ : Machine FlatMemory} {code : Code}

/-- The fetch of a code leaves flat memory as it is. -/
theorem Begins.bus_eq (h : m.Begins code m₀) : m₀.bus = m.bus := by
  have hp : PureReads FlatMemory := fun _ _ => rfl
  obtain ⟨polls, hl, hperf⟩ := h.performs
  obtain ⟨s, h1, h2⟩ := hperf.exists_of_append
  rw [eq_of_performs_fetches hp h2, eq_of_performs_polls hp hl h1]

/-- The step of an operation that fetches its operands, pushes a word and goes on at an address. -/
theorem Begins.pushes {w pc q : UInt16} {k : Nat} (h : m.Begins code m₀)
    (he : m₀.execCode code = .ok ((m₁.push w).goto pc)) (hb : m₁.bus = m₀.bus)
    (hc : m₁.cpu = { m₀.cpu with accesses := k, regs := { m₀.cpu.regs with pc := q } }) :
    ∃ m', m.Pushes w pc m' := by
  obtain ⟨m', hs, hbus, hcpu⟩ := h.exists_step he
  have hcpu₁ : ((m₁.push w).goto pc).cpu =
      { m.cpu with
        regs := { m.cpu.regs with sp := m.cpu.regs.sp - 2, pc := pc }
        flags := .ofByte m.cpu.regs.f
        halted := false
        accesses := k + 2 } := by
    rw [goto, mapRegs, cpu_push, hc, h.cpu]
  refine ⟨m', ⟨_, hs⟩, ?_, ?_, ?_, ?_, ?_⟩
  · rw [hbus]
    show (m₁.push w).bus = _
    rw [bus_push, bus_push, hb, h.bus_eq, hc, h.cpu]
  · rw [hcpu, hcpu₁, ← Flags.toByte_ofByte]
  · rw [hcpu, hcpu₁]
    exact h.running
  · rw [hcpu, hcpu₁]
  · rw [hcpu, hcpu₁]

/-- The step of an operation that writes nothing. -/
theorem Begins.pops (h : m.Begins code m₀) (he : m₀.execCode code = .ok m₁)
    (hb : m₁.bus = m₀.bus) :
    ∃ m', m.Pops { m₁.cpu.regs with f := m₁.cpu.flags.toByte } m' := by
  obtain ⟨m', hs, hbus, hcpu⟩ := h.exists_step he
  refine ⟨m', ⟨_, hs⟩, ?_, ?_⟩
  · rw [hbus, hb, h.bus_eq]
  · rw [hcpu]

omit m₀ m₁ m₂ code in
theorem exists_execPush {s : Selector} (hs : s ∈ [.bc, .de, .hl, .af])
    (hf : m.cpu.flags = .ofByte m.cpu.regs.f) :
    ∃ w, m.cpu.regs.word s = .ok w ∧ m.execPush s = .ok (m.push w) := by
  simp only [List.mem_cons, List.not_mem_nil, or_false] at hs
  rcases hs with rfl | rfl | rfl | rfl
  · exact ⟨_, rfl, rfl⟩
  · exact ⟨_, rfl, rfl⟩
  · exact ⟨_, rfl, rfl⟩
  · refine ⟨_, rfl, ?_⟩
    rw [execPush, hf, Flags.toByte_ofByte]
    rfl

omit m₁ m₂ in
/-- The operation of a code of the first page is executed past its opcode. -/
theorem Begins.pc_of_operation {op : BaseOp} (h : m.Begins code m₀) (hd : code.operation = op)
    (hb : op ≠ .bitPage) : m₀.cpu.regs.pc = m.cpu.regs.pc + 1 := by
  rw [h.cpu, length_bytes_of_operation hd hb]
  rfl

/-- PUSH pushes a pair. -/
theorem Begins.pushes_push {s : Selector} (h : m.Begins code m₀)
    (hd : code.operation = .push s) (hs : s ∈ [.bc, .de, .hl, .af]) :
    ∃ w m', m.cpu.regs.word s = .ok w ∧ m.Pushes w (m.cpu.regs.pc + 1) m' := by
  have hf : m₀.cpu.flags = .ofByte m₀.cpu.regs.f := by rw [h.cpu]
  obtain ⟨w, hw, he⟩ := exists_execPush hs hf
  rw [h.cpu, Registers.word_setPc _ _ hs] at hw
  have he : m₀.execCode code = .ok ((m₀.push w).goto (m.cpu.regs.pc + 1)) := by
    rw [execCode_of_operation hd nofun, execBase, he, ← h.pc_of_operation hd nofun]
    rfl
  obtain ⟨m', hm⟩ := h.pushes he rfl rfl
  exact ⟨w, m', hw, hm⟩

/-- A call that is taken pushes the address after its word. -/
theorem Begins.pushes_call {c : Condition} (h : m.Begins code m₀)
    (hd : code.operation = .call c) (hc : c.holds (.ofByte m.cpu.regs.f) = true) :
    ∃ m', m.Pushes (m.cpu.regs.pc + 3) (m.bus.word (m.cpu.regs.pc + 1)) m' := by
  have hn : m.cpu.regs.pc + 3 = m.cpu.regs.pc + 1 + 1 + 1 := by grind
  have hf : c.holds m₀.fetchWord.2.cpu.flags = true := by
    show c.holds m₀.cpu.flags = true
    rw [h.cpu, hc]
  have he : m₀.execCode code =
      .ok ((m₀.fetchWord.2.push (m.cpu.regs.pc + 3)).goto
        (m.bus.word (m.cpu.regs.pc + 1))) := by
    rw [execCode_of_operation hd nofun, execBase, hn, ← h.pc_of_operation hd nofun, ← h.bus_eq]
    exact congrArg Except.ok (if_pos hf)
  exact h.pushes he rfl rfl

/-- RST pushes the address after it. -/
theorem Begins.pushes_rst {v : UInt16} (h : m.Begins code m₀)
    (hd : code.operation = .rst v) : ∃ m', m.Pushes (m.cpu.regs.pc + 1) v m' := by
  have hv : v.toNat < 0x40 ∧ v.toNat % 8 = 0 := by
    have hi := code.isValid_operation
    rw [hd] at hi
    exact of_decide_eq_true hi
  have he : m₀.execCode code = .ok ((m₀.push (m.cpu.regs.pc + 1)).goto v) := by
    rw [execCode_of_operation hd nofun, execBase, execRst, if_pos hv,
      h.pc_of_operation hd nofun]
  exact h.pushes he rfl rfl

/-- A popped word goes to its pair, and the flags are then those of F. -/
theorem exists_execPop {s : Selector} (hs : s ∈ [.bc, .de, .hl, .af])
    (hf : m.cpu.flags = .ofByte m.cpu.regs.f) :
    ∃ r m', ({ m.cpu.regs with sp := m.cpu.regs.sp + 2 } : Registers).setWord s
        (m.bus.word m.cpu.regs.sp) = .ok r ∧
      m.execPop s = .ok m' ∧ m'.bus = m.bus ∧ m'.cpu.regs = r ∧ m'.cpu.flags = .ofByte r.f := by
  have hsp : m.pop.2.cpu.regs = { m.cpu.regs with sp := m.cpu.regs.sp + 2 } := by rw [snd_pop]
  have hbus : m.pop.2.bus = m.bus := by rw [snd_pop]
  have hflags : m.pop.2.cpu.flags = m.cpu.flags := by rw [snd_pop]
  obtain ⟨r, hr, hkept⟩ := Registers.exists_setWord_f
    { m.cpu.regs with sp := m.cpu.regs.sp + 2 } (m.bus.word m.cpu.regs.sp) hs
  let m₁ : Machine FlatMemory := { m.pop.2 with cpu := { m.pop.2.cpu with regs := r } }
  have hset : m.pop.2.setWordReg s m.pop.1 = .ok m₁ := by
    rw [setWordReg, hsp, fst_pop, hr]
    rfl
  have he : m.execPop s = .ok (if s = .af then m₁.setFlags (.ofByte r.f) else m₁) := by
    simp only [execPop, hset, bind, Except.bind, pure, Except.pure]
    rfl
  refine ⟨r, _, hr, he, ?_, ?_, ?_⟩
  · split <;> exact hbus
  · split <;> rfl
  · split
    · rfl
    · next hne =>
      show m.pop.2.cpu.flags = _
      rw [hflags, hf, hkept hne]

/-- POP pops a pair. -/
theorem Begins.pops_pop {s : Selector} (h : m.Begins code m₀) (hd : code.operation = .pop s)
    (hs : s ∈ [.bc, .de, .hl, .af]) :
    ∃ r m', ({ m.cpu.regs with sp := m.cpu.regs.sp + 2, pc := m.cpu.regs.pc + 1 } :
        Registers).setWord s (m.bus.word m.cpu.regs.sp) = .ok r ∧
      m.Pops { r with f := r.f &&& 0xF0 } m' := by
  have hf : m₀.cpu.flags = .ofByte m₀.cpu.regs.f := by rw [h.cpu]
  obtain ⟨r, m₁, hr, he, hb, hregs, hflags⟩ := exists_execPop hs hf
  obtain ⟨m', hm⟩ := h.pops ((execCode_of_operation hd nofun m₀).trans he) hb
  rw [hregs, hflags, Flags.toByte_ofByte] at hm
  rw [h.bus_eq, h.cpu, length_bytes_of_operation hd nofun] at hr
  exact ⟨r, m', hr, hm⟩

/-- The step of an operation that goes on at the address that it pops. -/
theorem Begins.pops_goto (h : m.Begins code m₀) (he : m₀.execCode code = .ok m₁)
    (hb : m₁.bus = m₀.bus) (hr : m₁.cpu.regs = (m₀.pop.2.goto m₀.pop.1).cpu.regs)
    (hf : m₁.cpu.flags = m₀.cpu.flags) :
    ∃ m', m.Pops
      { m.cpu.regs with
        f := m.cpu.regs.f &&& 0xF0
        sp := m.cpu.regs.sp + 2
        pc := m.bus.word m.cpu.regs.sp } m' := by
  obtain ⟨m', hm⟩ := h.pops he hb
  rw [hr, hf, goto, mapRegs, fst_pop, snd_pop, h.bus_eq, h.cpu, Flags.toByte_ofByte] at hm
  exact ⟨m', hm⟩

/-- A return that is taken, or RETI, pops the program counter. -/
theorem Begins.pops_returns (h : m.Begins code m₀)
    (hr : code.operation.returns (.ofByte m.cpu.regs.f) = true) :
    ∃ m', m.Pops
      { m.cpu.regs with
        f := m.cpu.regs.f &&& 0xF0
        sp := m.cpu.regs.sp + 2
        pc := m.bus.word m.cpu.regs.sp } m' := by
  cases hd : code.operation with
  | ret c =>
    rw [hd] at hr
    have hc : c.holds m₀.cpu.flags = true := by
      rw [h.cpu]
      exact hr
    have he : m₀.execCode code = .ok (m₀.pop.2.goto m₀.pop.1) :=
      (execCode_of_operation hd nofun m₀).trans (congrArg Except.ok (if_pos hc))
    exact h.pops_goto he rfl rfl rfl
  | reti => exact h.pops_goto (execCode_of_operation hd nofun m₀) rfl rfl rfl
  | _ =>
    rw [hd] at hr
    cases hr

/-! ### Round trips -/

/-- A processor that runs fetches the code at the program counter, if no interrupt is served. -/
theorem code?_of_isCalm (h : m.IsCalm) (hne : m.bus.get m.cpu.regs.pc ≠ 0xCB) :
    m.code? = some (.base (m.bus.get m.cpu.regs.pc)) := by
  have hf : m.fetchCode.1 = .base m.fetchOpcode.1 := by
    rw [fetchCode_of_ne (m := m) hne]
  rw [code?, turn_of_isCalm h]
  exact congrArg some hf

namespace Pushes

variable {w pc : UInt16}

/-- What a push leaves in memory. -/
theorem bus_eq (h : m.Pushes w pc m₁) : m₁.bus = m.bus.push m.cpu.regs.sp w := by
  rw [h.bus, bus_push]

/-- The word that was pushed is at the stack pointer. -/
theorem word_eq (h : m.Pushes w pc m₁) : m₁.bus.word m₁.cpu.regs.sp = w := by
  rw [h.bus_eq, h.regs, FlatMemory.word_push]

/-- What comes after a push is what memory held before it, if the word does not overlap it and no
interrupt comes between. -/
theorem exists_begins (h : m.Pushes w pc m₁) (hs : m₁.firstInterrupt.1 = none)
    (hpc : ¬ IsBelow m.cpu.regs.sp 2 pc) {op : BaseOp} (hd : BaseOp.decode (m.bus.get pc) = op)
    (hb : op ≠ .bitPage) : ∃ code m₂, m₁.Begins code m₂ ∧ code.operation = op := by
  rw [isBelow_two, not_or] at hpc
  have hget : m₁.bus.get m₁.cpu.regs.pc = m.bus.get pc := by
    rw [h.bus_eq, h.regs, FlatMemory.get_push_of_ne _ _ _ hpc.1 hpc.2]
  have hne : m₁.bus.get m₁.cpu.regs.pc ≠ 0xCB := by
    rw [hget]
    intro hcb
    rw [hcb] at hd
    exact hb hd.symm
  obtain ⟨m₂, hm⟩ := Machine.exists_begins (code?_of_isCalm ⟨h.running, h.awake, hs⟩ hne)
  exact ⟨_, m₂, hm, by rw [hget]; exact hd⟩

/-- A return after a push goes to the address that was pushed. -/
theorem returns (h : m.Pushes w pc m₁) (hs : m₁.firstInterrupt.1 = none)
    (hpc : ¬ IsBelow m.cpu.regs.sp 2 pc)
    (hr : (BaseOp.decode (m.bus.get pc)).returns (.ofByte m.cpu.regs.f) = true) :
    ∃ m₂, m₁.Pops { m.cpu.regs with f := m.cpu.regs.f &&& 0xF0, pc := w } m₂ := by
  have hb : BaseOp.decode (m.bus.get pc) ≠ .bitPage := by
    intro hb
    rw [hb] at hr
    cases hr
  obtain ⟨code, m₂, hm, hd⟩ := h.exists_begins hs hpc rfl hb
  have hf : Flags.ofByte m₁.cpu.regs.f = .ofByte m.cpu.regs.f := by
    rw [h.regs, ← Flags.toByte_ofByte, Flags.ofByte_toByte]
  obtain ⟨m', hm'⟩ := hm.pops_returns (by rw [hd, hf]; exact hr)
  have hsp : m.cpu.regs.sp - 2 + 2 = m.cpu.regs.sp := by grind
  rw [h.word_eq, h.regs] at hm'
  dsimp only at hm'
  rw [hsp, UInt8.and_assoc] at hm'
  exact ⟨m', hm'⟩

/-- A pop after a push takes the word to its pair. -/
theorem pops (h : m.Pushes w pc m₁) (hs : m₁.firstInterrupt.1 = none)
    (hpc : ¬ IsBelow m.cpu.regs.sp 2 pc) {s : Selector}
    (hd : BaseOp.decode (m.bus.get pc) = .pop s) (hp : s ∈ [.bc, .de, .hl, .af]) :
    ∃ r m₂, ({ m.cpu.regs with f := m.cpu.regs.f &&& 0xF0, pc := pc + 1 } :
        Registers).setWord s w = .ok r ∧ m₁.Pops { r with f := r.f &&& 0xF0 } m₂ := by
  obtain ⟨code, m₂, hm, hop⟩ := h.exists_begins hs hpc hd nofun
  obtain ⟨r, m', hr, hm'⟩ := hm.pops_pop hop hp
  have hsp : m.cpu.regs.sp - 2 + 2 = m.cpu.regs.sp := by grind
  rw [h.word_eq, h.regs] at hr
  dsimp only at hr
  rw [hsp] at hr
  exact ⟨r, m', hr, hm'⟩

end Pushes

/-- An instruction calls: it pushes the address `next` after it, and goes on at `target`. -/
inductive Calls (m : Machine FlatMemory) (code : Code) : UInt16 → UInt16 → Prop
  | call {c : Condition} (op : code.operation = .call c)
      (taken : c.holds (.ofByte m.cpu.regs.f) = true) :
      Calls m code (m.cpu.regs.pc + 3) (m.bus.word (m.cpu.regs.pc + 1))
  | rst {v : UInt16} (op : code.operation = .rst v) : Calls m code (m.cpu.regs.pc + 1) v

/-- A call pushes. -/
theorem Begins.pushes_calls {next target : UInt16} (h : m.Begins code m₀)
    (hc : m.Calls code next target) : ∃ m', m.Pushes next target m' := by
  cases hc with
  | call op taken => exact h.pushes_call op taken
  | rst op => exact h.pushes_rst op

/-- The laws of the stack. Words that are pushed are popped in the opposite order, up to as many as
memory holds; the stack pointer comes back to where it was, and nothing is written but the bytes
below it, two for each word. PUSH, and a CALL or RST that calls, push; POP, and a RET or RETI that
returns, pop. F is pushed and popped without its low nibble. If no interrupt is served in between,
and the word on the stack does not overlap the code, POP AF restores what PUSH AF saved, and a
return goes to the address after the call; A, F as it is read, and SP are then as they were. -/
theorem stack_lifo (m : Machine FlatMemory) :
    let r := m.cpu.regs
    (∀ ws : List UInt16, ws.length ≤ 32768 →
      let p := (m.pushAll ws).popAll ws.length
      p.1 = ws.reverse ∧
        p.2.cpu = { m.cpu with accesses := m.cpu.accesses + 4 * ws.length } ∧
        ∀ a, ¬ IsBelow r.sp (2 * ws.length) a → p.2.bus.get a = m.bus.get a) ∧
    ∀ code, m.code? = some code →
      (∀ s ∈ [Selector.bc, .de, .hl, .af], code.operation = .push s →
        ∃ w m₁, r.word s = .ok w ∧ m.Pushes w (r.pc + 1) m₁) ∧
      (∀ s ∈ [Selector.bc, .de, .hl, .af], code.operation = .pop s →
        ∃ r' m₁, ({ r with sp := r.sp + 2, pc := r.pc + 1 } : Registers).setWord s
            (m.bus.word r.sp) = .ok r' ∧
          m.Pops { r' with f := r'.f &&& 0xF0 } m₁) ∧
      (code.operation = .push .af →
        ∃ m₁, m.Pushes r.af (r.pc + 1) m₁ ∧
          m₁.bus.get (r.sp - 1) = r.a ∧ m₁.bus.get (r.sp - 2) = r.f &&& 0xF0 ∧
          (m₁.firstInterrupt.1 = none → ¬ IsBelow r.sp 2 (r.pc + 1) →
            BaseOp.decode (m.bus.get (r.pc + 1)) = .pop .af →
            ∃ m₂, m₁.Pops { r with f := r.f &&& 0xF0, pc := r.pc + 2 } m₂)) ∧
      (code.operation = .pop .af →
        ∃ m₁, m.Pops
          { r with
            a := m.bus.get (r.sp + 1)
            f := m.bus.get r.sp &&& 0xF0
            sp := r.sp + 2
            pc := r.pc + 1 } m₁) ∧
      (code.operation.returns (.ofByte r.f) = true →
        ∃ m₁, m.Pops
          { r with f := r.f &&& 0xF0, sp := r.sp + 2, pc := m.bus.word r.sp } m₁) ∧
      ∀ next target, m.Calls code next target →
        ∃ m₁, m.Pushes next target m₁ ∧
          (m₁.firstInterrupt.1 = none → ¬ IsBelow r.sp 2 target →
            (BaseOp.decode (m.bus.get target)).returns (.ofByte r.f) = true →
            ∃ m₂, m₁.Pops { r with f := r.f &&& 0xF0, pc := next } m₂ ∧
              m₂.cpu.regs.byte .f = r.byte .f) := by
  intro r
  refine ⟨fun ws hl => ?_, fun code hc => ?_⟩
  · obtain ⟨hws, hbus, hcpu⟩ := m.popAll_pushAll hl
    refine ⟨hws, hcpu, fun a ha => ?_⟩
    rw [hbus, m.get_pushAll ws ha]
  · obtain ⟨m₀, hb⟩ := exists_begins hc
    refine ⟨fun s hs hd => hb.pushes_push hd hs, fun s hs hd => hb.pops_pop hd hs, ?_, ?_,
      hb.pops_returns, ?_⟩
    · intro hd
      obtain ⟨w, m₁, hw, hp⟩ := hb.pushes_push hd (by decide)
      obtain rfl : r.af = w := Except.ok.inj hw
      refine ⟨m₁, hp, ?_, ?_, fun hs hpc hpop => ?_⟩
      · rw [hp.bus_eq, FlatMemory.get_push_high]
        exact Word.high_ofBytes ..
      · rw [hp.bus_eq, FlatMemory.get_push_low]
        exact Word.low_ofBytes ..
      · obtain ⟨r', m₂, hr, hp₂⟩ := hp.pops hs hpc hpop (by decide)
        cases hr
        have hpc₂ : m.cpu.regs.pc + 1 + 1 = m.cpu.regs.pc + 2 := by grind
        simp only [Registers.setAf, Registers.af, Word.high_ofBytes, Word.low_ofBytes,
          UInt8.and_assoc, UInt8.and_self, hpc₂] at hp₂
        exact ⟨m₂, hp₂⟩
    · intro hd
      obtain ⟨r', m₁, hr, hp⟩ := hb.pops_pop hd (by decide)
      cases hr
      simp only [Registers.setAf, FlatMemory.word, Word.high_ofBytes, Word.low_ofBytes,
        UInt8.and_assoc, UInt8.and_self] at hp
      exact ⟨m₁, hp⟩
    · intro next target hcall
      obtain ⟨m₁, hp⟩ := hb.pushes_calls hcall
      refine ⟨m₁, hp, fun hs hpc hret => ?_⟩
      obtain ⟨m₂, hm₂⟩ := hp.returns hs hpc hret
      refine ⟨m₂, hm₂, ?_⟩
      rw [hm₂.regs]
      show Except.ok (r.f &&& 0xF0 &&& 0xF0) = .ok (r.f &&& 0xF0)
      rw [UInt8.and_assoc]
      rfl

/-- A restart and its return, with the stack pointer on its way through 0000. -/
theorem stack_lifo_of_rst :
    let m : Machine FlatMemory :=
      { cpu := { regs := { f := 0xB0, sp := 0x0001, pc := 0x1234 } }
        bus := (FlatMemory.filled 0xC9).set 0x1234 0xCF }
    ∃ m₁ m₂, m.Pushes 0x1235 0x0008 m₁ ∧
      m₁.Pops { f := 0xB0, sp := 0x0001, pc := 0x1235 } m₂ := by
  intro m
  have hg : m.bus.get 0x1234 = 0xCF := FlatMemory.get_set_self (.filled 0xC9) 0x1234 0xCF
  have hc : m.code? = some (.base 0xCF) := by
    have hcalm : m.IsCalm := ⟨rfl, rfl, rfl⟩
    have hf := code?_of_isCalm hcalm (by rw [hg]; decide)
    rwa [hg] at hf
  obtain ⟨-, h⟩ := stack_lifo m
  obtain ⟨-, -, -, -, -, h⟩ := h _ hc
  obtain ⟨m₁, hp, hr⟩ := h 0x1235 0x0008 (.rst (by decide))
  have hret : m.bus.get 0x0008 = 0xC9 := by
    show ((FlatMemory.filled 0xC9).set 0x1234 0xCF).get 0x0008 = 0xC9
    rw [FlatMemory.get_set_of_ne _ (by decide), FlatMemory.get_filled]
  have hs : m₁.firstInterrupt.1 = none := by
    rw [firstInterrupt_eq, hp.ime]
    rfl
  obtain ⟨m₂, hm, -⟩ := hr hs (by decide) (by rw [hret]; decide)
  have hf : m.cpu.regs.f &&& 0xF0 = 0xB0 := by decide
  rw [hf] at hm
  exact ⟨m₁, m₂, hp, hm⟩

end Machine

end DotMatrix
