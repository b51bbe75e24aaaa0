import DotMatrix.Proofs.Processor.FlatStep

/-!
# Interrupts in a handler

The entry of an interrupt clears the master enable, so that its handler runs undisturbed until it
enables interrupts itself. But the entry does not touch a request of EI. If one is pending, it takes
effect after the first instruction of the handler.

* `m.Handles R m'` says that a run leads from `m` to `m'` in which neither EI nor RETI is fetched.
* `IsMasked` is what such a run keeps: interrupts are disabled, and there is no request to enable
  them (`Handles.isMasked`).
* `entry_masks` is the law of handlers, `entry_unmasked` a handler that is entered a second time.
-/

namespace DotMatrix

/-- Whether an operation enables interrupts, at once or later. -/
def BaseOp.enables : BaseOp → Bool
  | ei | reti => true
  | _ => false

/-- Interrupt lines are requested in memory, in addition to those that are. -/
def Interrupt.Raises (s t : FlatMemory) : Prop :=
  ∃ v : UInt8, t = s.set requestAddress (s.get requestAddress ||| v)

/-- An operation that does not enable interrupts leaves them disabled, if there is no request to
enable them, and makes no such request. -/
theorem BaseOp.enabling_of_not_enables {op : BaseOp} (h : op.enables = false)
    {pending : Option Bool} (hp : pending ≠ some true) :
    (op.enabling false pending).1 = false ∧ (op.enabling false pending).2 ≠ some true := by
  have hd : pending.getD false = false := by
    rcases pending with _ | _ | _
    · rfl
    · rfl
    · exact absurd rfl hp
  cases op with
  | ei | reti => cases h
  | di => exact ⟨rfl, nofun⟩
  | _ => exact ⟨hd, nofun⟩

namespace Machine

variable {σ : Type} [Bus σ] {R : σ → σ → Prop} {m m' : Machine σ} {n i : Nat}

/-- A run leads from one machine to another in which neither EI nor RETI is fetched. -/
inductive Handles (R : σ → σ → Prop) (m : Machine σ) : Machine σ → Prop
  | refl : Handles R m m
  | step {m₁ m₂ : Machine σ} {n : Nat} (h : Handles R m m₁)
      (hf : ∀ opcode, m₁.fetched? = some opcode → (BaseOp.decode opcode).enables = false)
      (hs : m₁.step = .ok (n, m₂)) : Handles R m m₂
  | change {m₁ : Machine σ} {bus : σ} (h : Handles R m m₁) (hb : R m₁.bus bus) :
      Handles R m { m₁ with bus := bus }

/-- Interrupts are disabled, and there is no request to enable them. -/
structure IsMasked (m : Machine σ) : Prop where
  settled : m.cpu.request.IsSettled
  disabled : m.cpu.ime = false
  unrequested : m.cpu.request.value? ≠ some true

theorem Takes.isMasked (h : m.Takes n m') (hm : m.IsMasked)
    (hf : ∀ opcode, m.fetched? = some opcode → (BaseOp.decode opcode).enables = false) :
    m'.IsMasked := by
  have hs := h.isSettled hm.settled
  cases hc : m.fetched? with
  | some opcode =>
    have he := h.enabling hm.settled hc
    rw [hm.disabled, Prod.mk.injEq] at he
    obtain ⟨hi, hv⟩ := BaseOp.enabling_of_not_enables (hf opcode hc) hm.unrequested
    rw [← he.1] at hi
    rw [← he.2] at hv
    exact ⟨hs, hi, hv⟩
  | none =>
    obtain ⟨hq, hi⟩ := h.idle hc
    refine ⟨hs, ?_, hq ▸ hm.unrequested⟩
    split at hi
    · exact hi
    · exact hi.trans hm.disabled

theorem Handles.isMasked (h : m.Handles R m') (hm : m.IsMasked) : m'.IsMasked := by
  induction h with
  | refl => exact hm
  | step _ hf hs ih => exact (takes_of_step hs).isMasked ih hf
  | change _ _ ih => exact ⟨ih.settled, ih.disabled, ih.unrequested⟩

/-- No interrupt is entered while interrupts are disabled. -/
theorem ne_enterHandler_of_ime (h : m.cpu.ime = false) (i : Nat) : m.turn.1 ≠ .enterHandler i := by
  intro ht
  have hs := serves_of_turn ht
  obtain ⟨-, -, -, -, hn⟩ := m.firstInterrupt_spec
  rw [hn h] at hs
  cases hs

/-- The entry of an interrupt clears the master enable and keeps the request. -/
theorem step_of_enterHandler (h : m.turn.1 = .enterHandler i) :
    ∃ m', m.step = .ok (20, m') ∧ m'.cpu.ime = false ∧ m'.cpu.request = m.cpu.request := by
  obtain ⟨n, m', hs, ht⟩ := m.exists_takes
  have hf : m.fetched? = none := by
    unfold fetched?
    split
    · next he =>
      rw [he] at h
      cases h
    · rfl
  cases ht with
  | enterHandler _ _ _ _ _ _ cpu => exact ⟨m', hs, by rw [cpu], by rw [cpu]⟩
  | sampleLines _ turn | wait _ turn =>
    rw [h] at turn
    cases turn
  | fetch _ _ _ _ _ _ _ fetched =>
    rw [hf] at fetched
    cases fetched

/-- The law of handlers. The entry of an interrupt disables interrupts, and if no request to enable
them is pending they stay disabled, and no interrupt is entered, until EI or RETI is fetched. If one
is pending it stays so until the handler's first instruction, which enables interrupts unless it is
itself DI or EI. -/
theorem entry_masks (R : σ → σ → Prop) (m : Machine σ) (h : m.Reachable R) {i : Nat}
    (he : m.turn.1 = .enterHandler i) :
    ∃ m₁, m.step = .ok (20, m₁) ∧ m₁.cpu.ime = false ∧
      (m.cpu.request.value? ≠ some true → ∀ m₂, m₁.Handles R m₂ →
        m₂.cpu.ime = false ∧ ∀ j, m₂.turn.1 ≠ .enterHandler j) ∧
      (m.cpu.request.value? = some true → ∀ m₂ opcode, m₁.Waits R m₂ → m₂.fetched? = some opcode →
        BaseOp.decode opcode ≠ .di → BaseOp.decode opcode ≠ .ei →
          ∃ n m₃, m₂.step = .ok (n, m₃) ∧ m₃.cpu.ime = true) := by
  obtain ⟨m₁, hs, hi, hq⟩ := step_of_enterHandler he
  refine ⟨m₁, hs, hi, fun hr m₂ hm => ?_, fun hr m₂ opcode hw hf hd he => ?_⟩
  · have hm₁ : m₁.IsMasked := ⟨hq ▸ h.isSettled, hi, hq ▸ hr⟩
    have hi₂ := (hm.isMasked hm₁).disabled
    exact ⟨hi₂, ne_enterHandler_of_ime hi₂⟩
  · obtain ⟨n, m₃, hs₃, ht⟩ := m₂.exists_takes
    have hq₂ : m₂.cpu.request.value? = some true := by rw [hw.request_eq, hq, hr]
    have hn := ht.enabling (hw.reachable (h.step hs)).isSettled hf
    rw [hq₂, Prod.mk.injEq] at hn
    refine ⟨n, m₃, hs₃, hn.1.trans ?_⟩
    generalize BaseOp.decode opcode = op at hd he
    cases op with
    | di => exact absurd rfl hd
    | ei => exact absurd rfl he
    | _ => rfl

end Machine

/-! ### Entries without and with a request -/

namespace Masking

open Machine

/-- The program EI, DEC SP and EI. Two interrupts are enabled, and the handler of the first is
another DEC SP. -/
def program : FlatMemory :=
  (((((FlatMemory.filled 0).set 0 0xFB).set 1 0x3B).set 2 0xFB).set 0x40 0x3B).set 0xFFFF 3

/-- The program, and two interrupts requested. -/
def raised : FlatMemory := program.set 0xFF0F (program.get 0xFF0F ||| 3)

/-- The processor before the second EI: interrupts are enabled. -/
def enabled : Cpu where
  regs := { sp := 0xFFFF, pc := 2 }
  ime := true
  last := ⟨1, .base 0x3B, 4⟩

/-- The processor after the second EI: in addition, there is a request to enable them. -/
def requesting : Cpu where
  regs := { sp := 0xFFFF, pc := 3 }
  ime := true
  request := .armed true
  last := ⟨2, .base 0xFB, 4⟩

theorem get_program (a : UInt16) :
    program.get a =
      if 0xFFFF = a then 3 else if 0x40 = a then 0x3B else if 2 = a then 0xFB else
        if 1 = a then 0x3B else if 0 = a then 0xFB else 0 := by
  simp only [program, FlatMemory.get_set, FlatMemory.get_filled]

theorem get_raised (a : UInt16) : raised.get a = if 0xFF0F = a then 3 else program.get a := by
  simp only [raised, FlatMemory.get_set, get_program]
  rfl

theorem raises_raised : Interrupt.Raises program raised := ⟨3, rfl⟩

theorem first?_pending_raised (c : Cpu) (j : Journal) :
    Interrupt.first? (pending ⟨c, raised, j⟩) = some 0 := by
  simp only [pending, get_raised, get_program]
  rfl

theorem reachable_enabled : ∃ j, Reachable Interrupt.Raises ⟨enabled, program, j⟩ := by
  have h : Reachable Interrupt.Raises { bus := program } := .new {} {} program {}
  obtain ⟨⟨_, _, j₁⟩, s₁, rfl, rfl⟩ :=
    step_ei (m := { bus := program }) (isCalm_of_pending rfl rfl (.inl rfl)) (get_program 0)
  obtain ⟨⟨c, _, j₂⟩, s₂, rfl, hc⟩ :=
    step_decSp (m := ⟨{ ({} : Cpu).past 0xFB with request := .armed true }, program, j₁⟩)
      (isCalm_of_pending rfl rfl (.inl rfl)) (get_program 1)
  obtain rfl : c = enabled := by
    dsimp only at hc
    rw [hc]
    rfl
  exact ⟨j₂, (h.step s₁).step s₂⟩

theorem reachable_requesting : ∃ j, Reachable Interrupt.Raises ⟨requesting, program, j⟩ := by
  obtain ⟨j, h⟩ := reachable_enabled
  have hn : Interrupt.first? (pending ⟨enabled, program, j⟩) = none := by
    simp only [pending, get_program]
    rfl
  obtain ⟨⟨c, _, j'⟩, hs, rfl, hc⟩ :=
    step_ei (m := ⟨enabled, program, j⟩) (isCalm_of_pending rfl rfl (.inr hn)) (get_program 2)
  obtain rfl : c = requesting := by
    dsimp only at hc
    rw [hc]
    rfl
  exact ⟨j', h.step hs⟩

end Masking

namespace Machine

open Masking

/-- When two interrupts are requested before the second EI, the handler of the first is not
interrupted. -/
theorem entry_masks_enabled :
    ∃ j m₁, step ⟨enabled, raised, j⟩ = .ok (20, m₁) ∧
      ∀ m₂, m₁.Handles Interrupt.Raises m₂ →
        m₂.cpu.ime = false ∧ ∀ i, m₂.turn.1 ≠ .enterHandler i := by
  obtain ⟨j, h⟩ := reachable_enabled
  have ht : turn ⟨enabled, raised, j⟩ = _ :=
    turn_of_first? rfl rfl (first?_pending_raised enabled j)
  obtain ⟨m₁, hs, -, hm, -⟩ :=
    entry_masks _ _ (h.change raises_raised) (congrArg Prod.fst ht)
  exact ⟨j, m₁, hs, hm nofun⟩

/-- When they are requested after the second EI, the first instruction of the handler enables
interrupts, and the handler is interrupted by the second. -/
theorem entry_unmasked :
    ∃ m m₁ m₂ : Machine FlatMemory, m.Reachable Interrupt.Raises ∧ m.turn.1 = .enterHandler 0 ∧
      m.step = .ok (20, m₁) ∧ m₁.Handles Interrupt.Raises m₂ ∧ m₂.cpu.ime = true ∧
      m₂.turn.1 = .enterHandler 1 := by
  obtain ⟨j, h⟩ := reachable_requesting
  let m : Machine FlatMemory := ⟨requesting, raised, j⟩
  have hi : Interrupt.first? m.pending = some 0 := first?_pending_raised requesting j
  -- The entry clears the request bit of the first interrupt, and the stack is out of the way.
  have hc : (m.enterHandler 0).IsCalm := isCalm_of_pending rfl rfl (.inl rfl)
  have ho : (m.enterHandler 0).bus.get 0x40 = 0x3B := by
    simp only [bus_enterHandler, FlatMemory.get_set, m, get_raised, get_program]
    rfl
  obtain ⟨m₂, hs, hb, hm⟩ := step_decSp hc ho
  have hf : ∀ opcode, (m.enterHandler 0).fetched? = some opcode →
      (BaseOp.decode opcode).enables = false := by
    rw [fetched?_of_isCalm hc]
    rintro _ ⟨⟩
    exact congrArg (fun v => (BaseOp.decode v).enables) ho
  have hi₂ : Interrupt.first? m₂.pending = some 1 := by
    simp only [pending, hb, bus_enterHandler, FlatMemory.get_set, m, get_raised, get_program]
    rfl
  refine ⟨m, m.enterHandler 0, m₂, h.change raises_raised,
    congrArg Prod.fst (turn_of_first? rfl rfl hi), step_of_first? rfl rfl hi, .step .refl hf hs, ?_,
    congrArg Prod.fst (turn_of_first? ?_ ?_ hi₂)⟩
  · rw [hm]
    rfl
  · rw [hm]
    rfl
  · rw [hm]
    rfl

end Machine

end DotMatrix
