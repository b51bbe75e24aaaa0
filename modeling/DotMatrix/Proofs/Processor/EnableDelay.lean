import DotMatrix.Proofs.Processor.Run

/-!
# The delay of DI and EI

DI and EI request a change of the interrupt master enable, which takes effect after the instruction
that follows.

* `ImeRequest.IsSettled` says how the two fields of a request agree between instructions, and
  `Takes.isSettled` that a step keeps it.
* `BaseOp.enabling` is the law of a single instruction, for the master enable and the requested
  value. `Takes.enabling` says that it is the law of a step.
* `Reachable.isCalm` says that while a request is pending there is no interrupt to serve, as long as
  only the processor's own writes change the bus.
* `enable_delay` is the law of runs.
-/

namespace DotMatrix

/-- The interrupt master enable and the requested value after an instruction, given those before
it. -/
def BaseOp.enabling (op : BaseOp) (ime : Bool) (pending : Option Bool) : Bool × Option Bool :=
  match op with
  | di => (ime, some false)
  | ei => (ime, some true)
  | reti => (true, none)
  | _ => (pending.getD ime, none)

/-- The value that an operation requests for the interrupt master enable. -/
def BaseOp.requested? : BaseOp → Option Bool
  | di => some false
  | ei => some true
  | _ => none

theorem BaseOp.enabling_of_requested {op : BaseOp} {v : Bool} (h : op.requested? = some v)
    (ime : Bool) (pending : Option Bool) : op.enabling ime pending = (ime, some v) := by
  cases op with
  | di | ei =>
    cases h
    rfl
  | _ => cases h

/-- Only DI and EI leave a request behind. -/
theorem BaseOp.requests_of_enabling {op : BaseOp} {ime : Bool} {pending : Option Bool}
    (h : (op.enabling ime pending).2 ≠ none) : op = .di ∨ op = .ei := by
  cases op with
  | di => exact .inl rfl
  | ei => exact .inr rfl
  | _ => exact absurd rfl h

/-- What holds of a request between instructions: it is armed if there is one, and only then. -/
def ImeRequest.IsSettled (request : ImeRequest) : Prop := request.isArmed = request.value?.isSome

namespace ImeRequest

theorem isSettled_none : none.IsSettled := rfl

/-- Between instructions there is no request, or one that is armed. -/
theorem IsSettled.cases {request : ImeRequest} (h : request.IsSettled) :
    request = none ∨ ∃ e, request = armed e := by
  obtain ⟨_ | e, isArmed⟩ := request
  · obtain rfl : isArmed = false := h
    exact .inl rfl
  · obtain rfl : isArmed = true := h
    exact .inr ⟨e, rfl⟩

/-- An operation, and carrying the request on after it, leave the request settled. -/
theorem isSettled_settle {request : ImeRequest} (h : request.IsSettled) (op : BaseOp) (ime : Bool) :
    ((op.enable ime request).2.settle (op.enable ime request).1).2.IsSettled := by
  obtain rfl | ⟨e, rfl⟩ := h.cases
  · cases op <;> rfl
  · cases op <;> rfl

/-- Between instructions, carrying a request on follows the law. -/
theorem settle_enable {request : ImeRequest} (h : request.IsSettled) (op : BaseOp) (ime : Bool) :
    let s := (op.enable ime request).2.settle (op.enable ime request).1
    (s.1, s.2.value?) = op.enabling ime request.value? := by
  obtain rfl | ⟨e, rfl⟩ := h.cases
  · cases op <;> rfl
  · cases op <;> rfl

end ImeRequest

namespace Machine

variable {σ : Type} [Bus σ] {m m' : Machine σ} {n : Nat}

/-! ### Single steps -/

/-- What an instruction makes of the interrupt master enable and a request. -/
theorem Takes.enabling (h : m.Takes n m') (hs : m.cpu.request.IsSettled) {opcode : UInt8}
    (hf : m.fetched? = some opcode) :
    (m'.cpu.ime, m'.cpu.request.value?) =
      (BaseOp.decode opcode).enabling m.cpu.ime m.cpu.request.value? := by
  obtain ⟨m₁, polls, operands, data, sample, -, -, -, cpu, -, -, comp⟩ := h.of_fetched hf
  have he := comp.enable
  rw [cpu, Prod.mk.injEq] at he
  rw [he.1, he.2]
  exact ImeRequest.settle_enable hs _ _

/-- What a step that fetches nothing makes of them. -/
theorem Takes.idle (h : m.Takes n m') (hf : m.fetched? = none) :
    m'.cpu.request = m.cpu.request ∧
      match m.turn.1 with
      | .enterHandler _ => m'.cpu.ime = false
      | _ => m'.cpu.ime = m.cpu.ime := by
  cases h with
  | sampleLines m' turn fetched stopped cpu =>
    rw [turn, cpu]
    exact ⟨rfl, rfl⟩
  | enterHandler i m' turn fetched running serves cpu =>
    rw [turn, cpu]
    exact ⟨rfl, rfl⟩
  | wait m' turn fetched halted cpu =>
    rw [turn, cpu]
    exact ⟨rfl, rfl⟩
  | fetch _ _ _ _ _ _ _ fetched =>
    rw [fetched] at hf
    cases hf

theorem Takes.isSettled (h : m.Takes n m') (hs : m.cpu.request.IsSettled) :
    m'.cpu.request.IsSettled := by
  cases h with
  | sampleLines m' turn fetched stopped cpu | wait m' turn fetched stopped cpu
  | enterHandler i m' turn fetched running serves cpu =>
    rw [cpu]
    exact hs
  | fetch opcode m₁ m' polls operands data sample fetched serves running cpu polled performs
      comp =>
    have he := comp.enable
    rw [cpu, Prod.mk.injEq] at he
    rw [he.2]
    exact ImeRequest.isSettled_settle hs _ _

/-! ### Runs -/

variable {R : σ → σ → Prop}

/-- Between the steps of a run a request is settled. -/
theorem Reachable.isSettled (h : m.Reachable R) : m.cpu.request.IsSettled := by
  induction h with
  | new => exact ImeRequest.isSettled_none
  | powerOn m =>
    rw [(Cpu.fields_of_control m.control_powerOn).2.1]
    exact ImeRequest.isSettled_none
  | step _ hs ih => exact (takes_of_step hs).isSettled ih
  | change _ _ ih => exact ih

/-- A request stays as it is while nothing is fetched. -/
theorem Waits.request_eq (h : m.Waits R m') : m'.cpu.request = m.cpu.request := by
  induction h with
  | refl => rfl
  | step _ hf hs ih => exact ((takes_of_step hs).idle hf).1.trans ih
  | change _ _ ih => exact ih

/-! ### Undisturbed runs -/

/-- Reads do not change the bus. -/
def PureReads (σ : Type) [Bus σ] : Prop := ∀ (s : σ) (a : UInt16), (Bus.read s a).2 = s

theorem eq_of_performs_fetches (hp : PureReads σ) {s t : σ} {a : UInt16} {vs : List UInt8}
    (h : Performs s (fetches a vs) t) : t = s := by
  induction vs generalizing s a with
  | nil =>
    cases h
    rfl
  | cons v vs ih =>
    rw [fetches_cons] at h
    cases h with
    | read _ h =>
      rw [hp] at h
      exact ih h

theorem eq_of_performs_polls (hp : PureReads σ) {s t : σ} {k : Nat} {l : List Access}
    (hl : Polls k l) (h : Performs s l t) : t = s := by
  induction k generalizing s l with
  | zero =>
    obtain rfl : l = [] := hl
    cases h
    rfl
  | succ k ih =>
    obtain ⟨v, w, rest, rfl, hr⟩ := hl
    cases h with
    | read _ h =>
      cases h with
      | read _ h =>
        rw [hp, hp] at h
        exact ih hr h

/-- What there is to serve depends on the master enable and the bus alone. -/
theorem fst_firstInterrupt_congr (hi : m'.cpu.ime = m.cpu.ime) (hb : m'.bus = m.bus) :
    m'.firstInterrupt.1 = m.firstInterrupt.1 := by
  obtain ⟨cpu, bus, journal⟩ := m
  obtain ⟨cpu', bus', journal'⟩ := m'
  obtain rfl : bus' = bus := hb
  have hi : cpu'.ime = cpu.ime := hi
  unfold firstInterrupt
  dsimp only
  rw [hi]
  split <;> rfl

/-- The processor runs, and there is no interrupt to serve. -/
structure IsCalm (m : Machine σ) : Prop where
  running : m.cpu.stopped = false
  awake : m.cpu.halted = false
  serves : m.firstInterrupt.1 = none

/-- DI and EI leave the bus alone, and the processor running. -/
theorem Completes.of_request (hp : PureReads σ) {opcode : UInt8} {operands : List UInt8}
    {data sample : List Access} (h : m.Completes opcode operands data sample m')
    (hr : BaseOp.decode opcode = .di ∨ BaseOp.decode opcode = .ei) :
    m'.bus = m.bus ∧ m'.cpu.ime = m.cpu.ime ∧ m'.cpu.halted = m.cpu.halted ∧
      m'.cpu.stopped = m.cpu.stopped := by
  have hd := h.length_data
  have hs := h.samples
  have ht := h.running
  have he := h.enable
  have hf := h.performs
  rw [Prod.mk.injEq] at he
  obtain ⟨hd, hs, hi, hh, hst⟩ : data.length = 0 ∧ sample = [] ∧ m'.cpu.ime = m.cpu.ime ∧
      m'.cpu.halted = m.cpu.halted ∧ m'.cpu.stopped = m.cpu.stopped := by
    rcases hr with hr | hr <;>
      · rw [hr] at hd hs ht he
        exact ⟨hd nofun, hs, he.1, ht nofun nofun⟩
  obtain rfl : data = [] := List.eq_nil_of_length_eq_zero hd
  rw [hs, List.append_nil, List.append_nil] at hf
  exact ⟨eq_of_performs_fetches hp hf, hi, hh, hst⟩

/-- After DI or EI the processor runs, and what there is to serve is what there was before. -/
theorem Takes.isCalm (hp : PureReads σ) (h : m.Takes n m') {opcode : UInt8}
    (hf : m.fetched? = some opcode)
    (hr : BaseOp.decode opcode = .di ∨ BaseOp.decode opcode = .ei) : m'.IsCalm := by
  obtain ⟨m₁, polls, operands, data, sample, -, serves, running, cpu, polled, performs, comp⟩ :=
    h.of_fetched hf
  obtain ⟨hb, hi, hh, hst⟩ := comp.of_request hp hr
  rw [eq_of_performs_polls hp polled performs] at hb
  rw [cpu] at hi hh hst
  exact ⟨hst.trans running, hh, (fst_firstInterrupt_congr hi hb).trans serves⟩

/-- A calm processor fetches. -/
theorem Takes.fetched_of_isCalm (h : m.Takes n m') (hc : m.IsCalm) : m.fetched? ≠ none := by
  cases h with
  | sampleLines _ _ _ stopped =>
    rw [hc.running] at stopped
    cases stopped
  | enterHandler _ _ _ _ _ serves =>
    rw [hc.serves] at serves
    cases serves
  | wait _ _ _ halted =>
    rw [hc.awake] at halted
    cases halted
  | fetch _ _ _ _ _ _ _ fetched =>
    rw [fetched]
    nofun

/-- If nothing but the processor changes the bus, there is no interrupt to serve while a request is
pending. -/
theorem Reachable.isCalm (hp : PureReads σ) (hR : ∀ s t, R s t → t = s) (h : m.Reachable R)
    (hr : m.cpu.request.value? ≠ none) : m.IsCalm := by
  induction h with
  | new => exact absurd rfl hr
  | powerOn m =>
    rw [(Cpu.fields_of_control m.control_powerOn).2.1] at hr
    exact absurd rfl hr
  | @step m m' n h hs ih =>
    have ht := takes_of_step hs
    cases hf : m.fetched? with
    | some opcode =>
      have hv : m'.cpu.request.value? = _ := congrArg Prod.snd (ht.enabling h.isSettled hf)
      rw [hv] at hr
      exact ht.isCalm hp hf (BaseOp.requests_of_enabling hr)
    | none =>
      -- The request was there before, when the processor was calm and would have fetched.
      rw [(ht.idle hf).1] at hr
      exact absurd hf (ht.fetched_of_isCalm (ih hr))
  | @change m bus h hb ih =>
    -- The bus is the same, and with it the machine.
    obtain rfl : bus = m.bus := hR _ _ hb
    exact ih hr

/-- An interrupt is entered only if there is one to serve. -/
theorem serves_of_turn {i : Nat} (h : m.turn.1 = .enterHandler i) :
    m.firstInterrupt.1 = some i := by
  have hd := m.decides_turn
  generalize m.turn = t at h hd
  cases hd with
  | enterHandler j m' polls running enabled serves =>
    cases h
    exact serves
  | _ => cases h

/-- The law of DI and EI in a run. An instruction changes the master enable and the request as
`BaseOp.enabling` says; any other step leaves the request alone, and of these only the entry of an
interrupt changes the master enable. A request takes effect with the next instruction that is
fetched, whatever the steps in between, unless that instruction is DI, EI or RETI. If only the
processor's own writes change the bus, no interrupt is entered while a request is pending. -/
theorem enable_delay (R : σ → σ → Prop) (m : Machine σ) (h : m.Reachable R) :
    (∃ n m', m.step = .ok (n, m') ∧
      match m.fetched? with
      | some opcode =>
        (m'.cpu.ime, m'.cpu.request.value?) =
          (BaseOp.decode opcode).enabling m.cpu.ime m.cpu.request.value?
      | none =>
        m'.cpu.request = m.cpu.request ∧
          match m.turn.1 with
          | .enterHandler _ => m'.cpu.ime = false
          | _ => m'.cpu.ime = m.cpu.ime) ∧
    (∀ opcode v n m₁ m₂ opcode', m.fetched? = some opcode →
      (BaseOp.decode opcode).requested? = some v → m.step = .ok (n, m₁) → m₁.Waits R m₂ →
      m₂.fetched? = some opcode' →
        m₁.cpu.ime = m.cpu.ime ∧ m₁.cpu.request.value? = some v ∧
        m₂.cpu.request = m₁.cpu.request ∧
        ∃ n' m₃, m₂.step = .ok (n', m₃) ∧
          match BaseOp.decode opcode' with
          | .di => m₃.cpu.ime = m₂.cpu.ime ∧ m₃.cpu.request.value? = some false
          | .ei => m₃.cpu.ime = m₂.cpu.ime ∧ m₃.cpu.request.value? = some true
          | .reti => m₃.cpu.ime = true ∧ m₃.cpu.request.value? = none
          | _ => m₃.cpu.ime = v ∧ m₃.cpu.request.value? = none) ∧
    (PureReads σ → (∀ s t, R s t → t = s) → m.cpu.request.value? ≠ none →
      ∀ i, m.turn.1 ≠ .enterHandler i) := by
  refine ⟨?_, ?_, ?_⟩
  · obtain ⟨n, m', hm, ht⟩ := m.exists_takes
    refine ⟨n, m', hm, ?_⟩
    cases hf : m.fetched? with
    | some opcode => exact ht.enabling h.isSettled hf
    | none => exact ht.idle hf
  · intro opcode v n m₁ m₂ opcode' hf hv hs hw hf'
    have h₁ := h.step hs
    obtain ⟨n', m₃, hs', ht'⟩ := m₂.exists_takes
    have he := (takes_of_step hs).enabling h.isSettled hf
    have he' := ht'.enabling (hw.reachable h₁).isSettled hf'
    rw [BaseOp.enabling_of_requested hv, Prod.mk.injEq] at he
    rw [hw.request_eq, he.2] at he'
    refine ⟨he.1, he.2, hw.request_eq, n', m₃, hs', ?_⟩
    generalize BaseOp.decode opcode' = op at he'
    cases op with
    | _ => exact Prod.mk.inj he'
  · intro hp hR hr i hi
    have hs := serves_of_turn hi
    rw [(h.isCalm hp hR hr).serves] at hs
    cases hs

/-- EI and an instruction without effect of its own: the master enable is set after the second. -/
theorem enable_delay_of_ei :
    let m : Machine FlatMemory := { bus := (FlatMemory.filled 0).set 0 0xFB }
    let m₁ : Machine FlatMemory :=
      { cpu := { regs := { pc := 1 }, request := .armed true, last := ⟨0, .base 0xFB, 4⟩ }
        bus := m.bus }
    m.step = .ok (4, m₁) ∧ m₁.cpu.ime = false ∧ (∀ i, m₁.turn.1 ≠ .enterHandler i) ∧
      ∃ n m₂, m₁.step = .ok (n, m₂) ∧ m₂.cpu.ime = true := by
  intro m m₁
  have hs : m.step = .ok (4, m₁) := by
    simp only [m, m₁]
    rfl
  have h : m.Reachable (fun _ _ => False) := .new {} {} _ {}
  obtain ⟨-, hd, -⟩ := enable_delay _ m h
  obtain ⟨-, -, -, n, m₂, hm, hi, -⟩ := hd 0xFB true 4 m₁ m₁ 0 rfl rfl hs .refl rfl
  obtain ⟨-, -, hn⟩ := enable_delay _ m₁ (h.step hs)
  exact ⟨hs, rfl, hn (fun _ _ => rfl) nofun nofun, n, m₂, hm, hi⟩

end Machine

end DotMatrix
