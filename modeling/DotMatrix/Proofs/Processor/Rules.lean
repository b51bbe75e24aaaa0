import DotMatrix.Proofs.Processor.Addressing
import DotMatrix.Proofs.Processor.Unread

/-!
# What the flag rules decide

The flag rules decide some flags of byte arithmetic, and nothing else. Two machines that differ in
their rules alone take the same step but for these flags.

* `Clears p b b'` says how a flag changes when a carry is folded into the operand; `Clears.of_sum`
  and `Clears.of_difference` are the arithmetic behind it.
* `op.FlagsAgree rules rules' fl fl'` says which flags may differ after an operation.
* `m.withRules rules` is `m` under other rules. The lemmas `…_withRules` say that what a step does
  is the same for it, since the rules are not read; `Begins.exists_withRules` is what the rules may
  change about an operation.
* `step_withRules` is the law of steps.
-/

namespace DotMatrix

/-! ### A carry folded into an operand -/

/-- A bit stays, except that `p` clears it. -/
def Clears (p : Prop) [Decidable p] (b b' : Bool) : Prop :=
  if p then b = true ∧ b' = false else b' = b

namespace Clears

variable {p q q' : Prop} [Decidable p] [Decidable q] [Decidable q']

theorem refl (h : ¬p) (b : Bool) : Clears p b b := (if_neg h).mpr rfl

theorem congr {b b' : Bool} (h : Clears (q ∧ p) b b') (hq : q) : Clears p b b' := by
  unfold Clears at h ⊢
  simpa [hq] using h

theorem of_decide (h : p → q ∧ ¬q') (h' : ¬p → (q' ↔ q)) :
    Clears p (decide q) (decide q') := by
  unfold Clears
  split
  · next hp => exact ⟨decide_eq_true (h hp).1, decide_eq_false (h hp).2⟩
  · next hp => exact decide_eq_decide.2 (h' hp)

variable {B x y : Nat} {c : Bool}

theorem add_carry_lt (hy : y < B) (h : ¬(c = true ∧ y + 1 = B)) : y + c.toNat < B := by
  cases c with
  | false => exact hy
  | true =>
    have hB : y + 1 ≠ B := fun hB => h ⟨rfl, hB⟩
    rw [Bool.toNat_true]
    omega

/-- A carry that is folded into a digit is lost to the sum if the digit is the largest one. -/
theorem of_sum (hx : x < B) (hy : y < B) (hp : p ↔ c = true ∧ y + 1 = B) :
    Clears p (decide (B ≤ x + y + c.toNat)) (decide (B ≤ x + (y + c.toNat) % B)) := by
  refine of_decide ?_ ?_
  · intro h
    obtain ⟨rfl, hB⟩ := hp.1 h
    rw [Bool.toNat_true, hB, Nat.mod_self]
    omega
  · intro h
    rw [Nat.mod_eq_of_lt (add_carry_lt hy (mt hp.2 h)), Nat.add_assoc]

/-- A borrow that is folded into a digit is lost to the difference if the digit is the largest
one. -/
theorem of_difference (hx : x < B) (hy : y < B) (hp : p ↔ c = true ∧ y + 1 = B) :
    Clears p (decide ((x : Int) - y - c.toNat < 0)) (decide (x < (y + c.toNat) % B)) := by
  refine of_decide ?_ ?_
  · intro h
    obtain ⟨rfl, hB⟩ := hp.1 h
    rw [Bool.toNat_true, hB, Nat.mod_self]
    omega
  · intro h
    rw [Nat.mod_eq_of_lt (add_carry_lt hy (mt hp.2 h))]
    omega

end Clears

namespace Arithmetic

variable {p q : Prop} [Decidable p] [Decidable q] (a : UInt8) {v : UInt8} {c : Bool}

theorem toNat_fold : (v + Byte.ofCarry c).toNat = (v.toNat + c.toNat) % 256 := by
  rw [UInt8.toNat_add]
  cases c <;> rfl

theorem toNat_fold_mod : (v + Byte.ofCarry c).toNat % 16 = (v.toNat % 16 + c.toNat) % 16 := by
  rw [toNat_fold]
  omega

variable (hp : p ↔ c = true ∧ v.toNat % 16 = 15) (hq : q ↔ c = true ∧ v.toNat = 255)

include hp hq

theorem clears_add :
    Clears p (add .operands a v c).2.halfCarry (add .folded a v c).2.halfCarry ∧
      Clears q (add .operands a v c).2.carry (add .folded a v c).2.carry := by
  constructor
  · show Clears p (decide _) (decide (16 ≤ a.toNat % 16 + (v + Byte.ofCarry c).toNat % 16))
    rw [toNat_fold_mod]
    refine .of_sum (Nat.mod_lt _ (by decide)) (Nat.mod_lt _ (by decide)) ?_
    rw [hp, Nat.add_right_cancel_iff]
  · show Clears q (decide _) (decide (256 ≤ a.toNat + (v + Byte.ofCarry c).toNat))
    rw [toNat_fold]
    refine .of_sum a.toNat_lt v.toNat_lt ?_
    rw [hq, Nat.add_right_cancel_iff]

theorem clears_sub :
    Clears p (sub .operands a v c).2.halfCarry (sub .folded a v c).2.halfCarry ∧
      Clears q (sub .operands a v c).2.carry (sub .folded a v c).2.carry := by
  constructor
  · show Clears p (decide _) (decide (a.toNat % 16 < (v + Byte.ofCarry c).toNat % 16))
    rw [toNat_fold_mod]
    refine .of_difference (Nat.mod_lt _ (by decide)) (Nat.mod_lt _ (by decide)) ?_
    rw [hp, Nat.add_right_cancel_iff]
  · show Clears q (decide _) (decide (a.toNat < (v + Byte.ofCarry c).toNat))
    rw [toNat_fold]
    refine .of_difference a.toNat_lt v.toNat_lt ?_
    rw [hq, Nat.add_right_cancel_iff]

end Arithmetic

namespace ByteOp

/-- What folding the carry into an immediate operand changes: ADC and SBC lose the half carry if the
carry runs through the low nibble of the operand, and the carry if it runs through the byte. -/
theorem clears_apply {rules rules' : FlagRules} (h : rules.carrySource = .operands)
    (h' : rules'.carrySource = .postResult) (op : ByteOp) (a v : UInt8) (fl : Flags) :
    let r := op.apply rules .immediate a v fl
    let r' := op.apply rules' .immediate a v fl
    let p := (op = .adc ∨ op = .sbc) ∧ fl.carry = true
    Clears (p ∧ v.toNat % 16 = 15) r.2.halfCarry r'.2.halfCarry ∧
      Clears (p ∧ v.toNat = 255) r.2.carry r'.2.carry := by
  have hb : rules.basis .immediate = .operands := FlagRules.basis_of_operands h _
  have hb' : rules'.basis .immediate = .folded := by
    rw [FlagRules.basis, h']
    rfl
  intro r r' p
  cases op with
  | add =>
    simp only [r, r', apply, hb, hb']
    exact Arithmetic.clears_add a (by simp [p]) (by simp [p])
  | adc =>
    simp only [r, r', apply, hb, hb']
    exact Arithmetic.clears_add a (by simp [p]) (by simp [p])
  | sub | cp =>
    simp only [r, r', apply, hb, hb']
    exact Arithmetic.clears_sub a (by simp [p]) (by simp [p])
  | sbc =>
    simp only [r, r', apply, hb, hb']
    exact Arithmetic.clears_sub a (by simp [p]) (by simp [p])
  | and | xor | or => exact ⟨.refl (by simp [p]) _, .refl (by simp [p]) _⟩

end ByteOp

/-! ### The flags under two rules -/

namespace BaseOp

/-- How the flags after an operation may differ under two rules. -/
def FlagsAgree (op : BaseOp) (rules rules' : FlagRules) (fl fl' : Flags) : Prop :=
  match op with
  | inc _ | dec _ => fl' = { fl with halfCarry := fl'.halfCarry }
  | byteOp .and _ | byteOp .or _ | byteOp .xor _ =>
    fl.subtract = rules.logicSetsSubtract ∧
      fl' = { fl with subtract := rules'.logicSetsSubtract }
  | byteOp .. => fl' = { fl with halfCarry := fl'.halfCarry, carry := fl'.carry }
  | _ => fl' = fl

theorem FlagsAgree.zero {op : BaseOp} {rules rules' : FlagRules} {fl fl' : Flags}
    (h : op.FlagsAgree rules rules' fl fl') : fl'.zero = fl.zero := by
  unfold FlagsAgree at h
  split at h
  · rw [h]
  · rw [h]
  · rw [h.2]
  · rw [h.2]
  · rw [h.2]
  · rw [h]
  · rw [h]

theorem flagsAgree_of_not_usesRules {op : BaseOp} (h : op.usesRules = false)
    (rules rules' : FlagRules) (fl : Flags) : op.FlagsAgree rules rules' fl fl := by
  cases op with
  | inc | dec | byteOp => cases h
  | _ => rfl

end BaseOp

namespace ByteOp

variable (op : ByteOp) (rules rules' : FlagRules) (src : Operand) (a v : UInt8) (fl : Flags)

theorem fst_apply : (op.apply rules src a v fl).1 = (op.apply rules' src a v fl).1 := by
  cases op <;> rfl

theorem flagsAgree_apply :
    (BaseOp.byteOp op src).FlagsAgree rules rules' (op.apply rules src a v fl).2
      (op.apply rules' src a v fl).2 := by
  cases op with
  | and | or | xor => exact ⟨rfl, rfl⟩
  | _ => rfl

end ByteOp

theorem Code.flagsAgree_of_inPlace {code : Code} {k : InPlace} {o : Operand}
    (h : code.inPlace? = some (k, o)) (rules rules' : FlagRules) (v : UInt8) (fl : Flags) :
    code.operation.FlagsAgree rules rules' (k.apply rules v fl).2 (k.apply rules' v fl).2 := by
  cases code with
  | base b =>
    have h : (BaseOp.decode b).inPlace? = some (k, o) := h
    show (BaseOp.decode b).FlagsAgree ..
    cases hd : BaseOp.decode b with
    | inc | dec =>
      rw [hd] at h
      cases h
      rfl
    | _ =>
      rw [hd] at h
      cases h
  | bit b =>
    obtain ⟨rfl, -⟩ := Prod.mk.inj (Option.some.inj h)
    show _ = _
    cases BitOp.decode b <;> rfl

/-- Replace the flag rules. -/
def Unread.ofRules (rules : FlagRules) : Unread where
  rules _ := rules
  and_high _ := rfl
  of_high _ := rfl

namespace Machine

variable {σ : Type}

/-- The same machine under other flag rules. -/
def withRules (m : Machine σ) (rules : FlagRules) : Machine σ :=
  { m with cpu := { m.cpu with rules := rules } }

variable [Bus σ] (m : Machine σ) (rules : FlagRules)

theorem turn_withRules :
    (m.withRules rules).turn = (m.turn.1, m.turn.2.withRules rules) :=
  m.turn_alter (.ofRules rules)

theorem fetchCode_withRules :
    (m.withRules rules).fetchCode = (m.fetchCode.1, m.fetchCode.2.withRules rules) :=
  m.fetchCode_alter (.ofRules rules)

theorem readOperand_withRules (o : Operand) :
    (m.withRules rules).readOperand o =
      (m.readOperand o).map fun p => (p.1, p.2.withRules rules) :=
  m.readOperand_alter (.ofRules rules) o

/-- The rules make no difference to an operation that does not use them. -/
theorem execBase_withRules {op : BaseOp} (h : op.usesRules = false) :
    (m.withRules rules).execBase op = (m.execBase op).map (·.withRules rules) :=
  m.execBase_alter (.ofRules rules) (.inr h)

omit [Bus σ] in
theorem complete_withRules (fl : Flags) (pc : UInt16) (code : Code) :
    ((m.withRules rules).setFlags fl).complete pc code =
      ((m.complete pc code).1,
        { (m.complete pc code).2 with
          cpu :=
            { (m.complete pc code).2.cpu with
              rules := rules
              flags := fl
              regs := { (m.complete pc code).2.cpu.regs with f := fl.toByte } } }) := by
  unfold complete
  dsimp only
  rw [settleRequest_eq, settleRequest_eq]
  rfl

/-! ### Operations that use the rules -/

/-- Two operations in place that give the same result. -/
theorem modifyOperand_withRules {o : Operand} (ho : o.isModifiable = true)
    {g g' : UInt8 → Flags → Option UInt8 × Flags} (hg : ∀ v fl, (g' v fl).1 = (g v fl).1) :
    ∃ v m₁, m.modifyOperand o (fun v fl => .ok (g v fl)) = .ok m₁ ∧
      m₁.cpu.flags = (g v m.cpu.flags).2 ∧
      (m.withRules rules).modifyOperand o (fun v fl => .ok (g' v fl)) =
        .ok ((m₁.withRules rules).setFlags (g' v m.cpu.flags).2) := by
  cases o with
  | register s =>
    obtain ⟨v, hv⟩ := m.exists_byteReg ho
    have hv' : (m.withRules rules).byteReg s = .ok v := hv
    have hf : (m.withRules rules).cpu.flags = m.cpu.flags := rfl
    simp only [modifyOperand, hv, hv', hf, bind, Except.bind, hg]
    cases (g v m.cpu.flags).1 with
    | none => exact ⟨v, _, rfl, rfl, rfl⟩
    | some u =>
      obtain ⟨r, hr, -⟩ := m.cpu.regs.exists_setByte ho u
      refine ⟨v, _, setByteReg_of_setByte _ hr, rfl, ?_⟩
      exact setByteReg_of_setByte _ hr
  | indirect s =>
    obtain ⟨a, ha⟩ := m.exists_wordReg ho
    have ha' : (m.withRules rules).wordReg s = .ok a := ha
    have hf : ((m.withRules rules).read a).2.cpu.flags = m.cpu.flags := rfl
    have hf' : (m.read a).2.cpu.flags = m.cpu.flags := rfl
    have hv : ((m.withRules rules).read a).1 = (m.read a).1 := rfl
    simp only [modifyOperand, ha, ha', hf, hf', hv, bind, Except.bind, hg]
    refine ⟨(m.read a).1, ?_⟩
    cases (g (m.read a).1 m.cpu.flags).1 <;> exact ⟨_, rfl, rfl, rfl⟩
  | _ => cases ho

theorem exists_inPlace_withRules {code : Code} {k : InPlace} {o : Operand}
    (hk : code.inPlace? = some (k, o)) :
    ∃ v m₁, m.execCode code = .ok m₁ ∧ m₁.cpu.flags = (k.apply m.cpu.rules v m.cpu.flags).2 ∧
      (m.withRules rules).execCode code =
        .ok ((m₁.withRules rules).setFlags (k.apply rules v m.cpu.flags).2) := by
  rw [execCode_of_inPlace hk, execCode_of_inPlace hk]
  refine m.modifyOperand_withRules rules (code.operand_of_inPlace _ hk).1 ?_
  intro v fl
  cases k <;> rfl

omit [Bus σ] in
theorem setResult_withRules {r r' : UInt8 × Flags} (h : r.1 = r'.1) :
    (m.withRules rules).setResult r' = ((m.setResult r).withRules rules).setFlags r'.2 := by
  rw [setResult, ← h]
  rfl

theorem exists_byteOp_withRules (k : ByteOp) {src : Operand} (h : src.isReadable = true) :
    ∃ m₁ fl, m.execBase (.byteOp k src) = .ok m₁ ∧
      (m.withRules rules).execBase (.byteOp k src) = .ok ((m₁.withRules rules).setFlags fl) ∧
      (BaseOp.byteOp k src).FlagsAgree m.cpu.rules rules m₁.cpu.flags fl := by
  obtain ⟨v, m₁, operands, data, hr, ha, -⟩ := m.advances_readOperand h
  have hc := Cpu.rules_of_control ha.control
  have hr' := m.readOperand_withRules rules src
  rw [hr] at hr'
  let r (rules : FlagRules) := k.apply rules src m₁.cpu.regs.a v m₁.cpu.flags
  refine ⟨m₁.setResult (r m₁.cpu.rules), (r rules).2, ?_, ?_, ?_⟩
  · simp only [execBase, hr, bind, Except.bind, pure, Except.pure, r]
  · simp only [execBase, hr', Except.map, bind, Except.bind, pure, Except.pure]
    exact congrArg Except.ok (m₁.setResult_withRules rules (k.fst_apply ..))
  · rw [← hc]
    exact k.flagsAgree_apply ..

/-- What the rules may change about an operation. -/
theorem Begins.exists_withRules {m m₀ : Machine σ} {code : Code} (h : m.Begins code m₀)
    (rules : FlagRules) :
    ∃ m₁ fl, m₀.execCode code = .ok m₁ ∧
      (m₀.withRules rules).execCode code = .ok ((m₁.withRules rules).setFlags fl) ∧
      code.operation.FlagsAgree m.cpu.rules rules m₁.cpu.flags fl := by
  have hr : m₀.cpu.rules = m.cpu.rules := by rw [h.cpu]
  rw [← hr]
  cases hk : code.inPlace? with
  | some p =>
    obtain ⟨v, m₁, hm, hf, hm'⟩ := m₀.exists_inPlace_withRules rules hk
    refine ⟨m₁, _, hm, hm', ?_⟩
    rw [hf]
    exact Code.flagsAgree_of_inPlace hk ..
  | none =>
    cases code with
    | bit b => cases hk
    | base b =>
      have hb := h.decoded b rfl
      have hv := BaseOp.isValid_decode b
      have hn : (BaseOp.decode b).inPlace? = none := hk
      show ∃ m₁ fl, m₀.execBase (BaseOp.decode b) = .ok m₁ ∧
        (m₀.withRules rules).execBase (BaseOp.decode b) = .ok ((m₁.withRules rules).setFlags fl) ∧
        (BaseOp.decode b).FlagsAgree m₀.cpu.rules rules m₁.cpu.flags fl
      generalize BaseOp.decode b = op at hb hv hn
      by_cases hu : op.usesRules = true
      · cases op with
        | byteOp k src => exact m₀.exists_byteOp_withRules rules k hv
        | inc | dec => cases hn
        | _ => cases hu
      · have hu : op.usesRules = false := Bool.eq_false_iff.2 hu
        have hs : m₀.cpu.regs = { m.cpu.regs with pc := m.cpu.regs.pc + 1 } := by
          rw [h.cpu]
          rfl
        obtain ⟨m₁, -, -, -, hm, -⟩ := exists_executes hs hv hb
        refine ⟨m₁, m₁.cpu.flags, hm, ?_, BaseOp.flagsAgree_of_not_usesRules hu ..⟩
        rw [m₀.execBase_withRules rules hu, hm]
        rfl

/-! ### Steps -/

/-- The rules make no difference to a step that fetches nothing. -/
theorem step_withRules_of_idle (h : m.code? = none) :
    ∃ n m₁, m.step = .ok (n, m₁) ∧ (m.withRules rules).step = .ok (n, m₁.withRules rules) := by
  obtain ⟨n, m₁, hm, -⟩ := m.exists_takes
  have hs := m.step_alter_of_idle (.ofRules rules) (fetched?_of_code? h)
  rw [hm] at hs
  exact ⟨n, m₁, hm, hs⟩

theorem exists_begins_withRules {m : Machine σ} {code : Code} (h : m.code? = some code)
    (rules : FlagRules) :
    ∃ m₀, m.Begins code m₀ ∧ (m.withRules rules).Begins code (m₀.withRules rules) := by
  obtain ⟨m₁, ht, rfl⟩ := turn_of_code h
  have ht' : (m.withRules rules).turn = (.execute, m₁.withRules rules) := by
    rw [turn_withRules, ht]
  have hb := begins_of_turn ht'
  rw [fetchCode_withRules] at hb
  exact ⟨_, begins_of_turn ht, hb⟩

theorem execBase_immediate (op : ByteOp) :
    m.execBase (.byteOp op .immediate) =
      .ok (m.fetchByte.2.setResult
        (op.apply m.cpu.rules .immediate m.cpu.regs.a m.fetchByte.1 m.cpu.flags)) := rfl

/-- What the flags of an operation on an immediate are under two rules. -/
theorem Begins.immediate {m m₀ m₁ : Machine σ} {code : Code} {rules : FlagRules} {fl : Flags}
    {op : ByteOp} (h : m.Begins code m₀) (hop : code.operation = .byteOp op .immediate)
    (he : m₀.execCode code = .ok m₁)
    (he' : (m₀.withRules rules).execCode code = .ok ((m₁.withRules rules).setFlags fl)) :
    ∃ v, m₀.Proceeds [v] [] m₁ ∧
      m₁.cpu.flags =
        (op.apply m.cpu.rules .immediate m.cpu.regs.a v (.ofByte m.cpu.regs.f)).2 ∧
      fl = (op.apply rules .immediate m.cpu.regs.a v (.ofByte m.cpu.regs.f)).2 := by
  rw [execCode_of_operation hop nofun] at he he'
  have hr : m₀.cpu.rules = m.cpu.rules := by rw [h.cpu]
  have ha : m₀.cpu.regs.a = m.cpu.regs.a := by rw [h.cpu]
  have hf : m₀.cpu.flags = .ofByte m.cpu.regs.f := by rw [h.cpu]
  rw [← hr, ← ha, ← hf]
  rw [execBase_immediate] at he he'
  have hfl := congrArg (fun m : Machine σ => m.cpu.flags) (Except.ok.inj he')
  obtain rfl := Except.ok.inj he
  have hp (r : UInt8 × Flags) : m₀.Advances [m₀.fetchByte.1] [] (m₀.fetchByte.2.setResult r) :=
    m₀.advances_fetchByte.then_cpu rfl rfl rfl rfl
  exact ⟨m₀.fetchByte.1, (hp _).toProceeds, rfl, hfl.symm⟩

/-- Under other rules a step costs the same, makes the same accesses to the bus with the same bytes,
and leaves the same machine but for the flags. `FlagsAgree` says which flags may differ: the
subtract flag after AND, OR and XOR, the half carry after INC and DEC, the half carry and the carry
after the other operations on A. With an immediate operand these two differ for ADC and SBC alone,
when a carry that is folded into the operand runs through its low nibble, or through the byte. -/
theorem step_withRules (m : Machine (Traced σ)) (rules : FlagRules) :
    ∃ n m₁ m₂, m.step = .ok (n, m₁) ∧ (m.withRules rules).step = .ok (n, m₂) ∧
      m₂ =
        { m₁ with
          cpu :=
            { m₁.cpu with
              rules := rules
              flags := m₂.cpu.flags
              regs := { m₁.cpu.regs with f := m₂.cpu.regs.f } } } ∧
      match m.code? with
      | none => m₂.cpu.regs.f = m₁.cpu.regs.f
      | some code =>
        ∃ fl fl', m₁.cpu.regs.f = fl.toByte ∧ m₂.cpu.regs.f = fl'.toByte ∧ fl'.zero = fl.zero ∧
          code.operation.FlagsAgree m.cpu.rules rules fl fl' ∧
          ∀ op, code.operation = .byteOp op .immediate →
            m.cpu.rules.carrySource = .operands → rules.carrySource = .postResult →
            ∃ v, m.StepsBy (code.bytes ++ [v]) [] n m₁ ∧
              let folds := (op = .adc ∨ op = .sbc) ∧ (Flags.ofByte m.cpu.regs.f).carry = true
              Clears (folds ∧ v.toNat % 16 = 15) fl.halfCarry fl'.halfCarry ∧
                Clears (folds ∧ v.toNat = 255) fl.carry fl'.carry := by
  cases hc : m.code? with
  | none =>
    obtain ⟨n, m₁, hm, hm'⟩ := m.step_withRules_of_idle rules hc
    exact ⟨n, m₁, _, hm, hm', rfl, rfl⟩
  | some code =>
    obtain ⟨m₀, hb, hb'⟩ := exists_begins_withRules hc rules
    obtain ⟨m₁, fl, he, he', hf⟩ := hb.exists_withRules rules
    have hs : m.step = .ok (m₁.complete m.cpu.regs.pc code) := by
      rw [hb.step, he]
      rfl
    have hs' : (m.withRules rules).step =
        .ok (((m₁.withRules rules).setFlags fl).complete m.cpu.regs.pc code) := by
      rw [hb'.step, he']
      rfl
    rw [complete_withRules] at hs'
    refine ⟨(m₁.complete m.cpu.regs.pc code).1, (m₁.complete m.cpu.regs.pc code).2, _, hs, hs', rfl,
      m₁.cpu.flags, fl, ?_, rfl, hf.zero, hf, ?_⟩
    · rw [cpu_complete]
    · intro op hop hr hr'
      obtain ⟨v, hp, hfl, hfl'⟩ := hb.immediate hop he he'
      obtain ⟨m', hv, -⟩ := hb.exists_stepsBy he hp
      have hm := Except.ok.inj (hv.step.symm.trans hs)
      rw [← hm]
      refine ⟨v, hv, ?_⟩
      rw [hfl, hfl']
      exact op.clears_apply hr hr' ..

/-- An addition with carry of an immediate, under both rules. -/
theorem step_withRules_of_adc :
    let m : Machine (Traced FlatMemory) :=
      { cpu := { regs := { f := 0x10 } }, bus := { bus := .filled 0xCE } }
    let rules : FlagRules := { carrySource := .postResult }
    m.code? = some (.base 0xCE) ∧
      ∃ n m₁ m₂ v, ∃ fl fl' : Flags,
        m.step = .ok (n, m₁) ∧ (m.withRules rules).step = .ok (n, m₂) ∧
        m₁.cpu.regs.f = fl.toByte ∧ m₂.cpu.regs.f = fl'.toByte ∧ m.StepsBy [0xCE, v] [] n m₁ ∧
        Clears (v.toNat % 16 = 15) fl.halfCarry fl'.halfCarry ∧
        Clears (v.toNat = 255) fl.carry fl'.carry := by
  intro m rules
  have ho : m.fetchOpcode.1 = 0xCE := FlatMemory.get_filled 0xCE 0
  have hf : m.fetchCode.1 = .base 0xCE := by
    rw [fetchCode_of_ne (by rw [ho]; decide), ho]
  have hc : m.code? = some (.base 0xCE) := congrArg some hf
  obtain ⟨n, m₁, m₂, hm, hm', -, h⟩ := step_withRules m rules
  rw [hc] at h
  obtain ⟨fl, fl', hfl, hfl', -, -, hi⟩ := h
  obtain ⟨v, hv, hh, hcy⟩ := hi .adc (by decide) rfl rfl
  refine ⟨hc, n, m₁, m₂, v, fl, fl', hm, hm', hfl, hfl', hv, ?_, ?_⟩
  · exact hh.congr (by decide)
  · exact hcy.congr (by decide)

end Machine

end DotMatrix
