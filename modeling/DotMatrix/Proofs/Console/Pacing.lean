import Mathlib.Algebra.GroupWithZero.Nat
import DotMatrix.Proofs.Console.Session

/-!
# Frame pacing

A frame takes steps as long as the counter of cycles is below the cycles of a frame, and then takes
the cycles of a frame off the counter. Whatever the program does, each step counts from 4 to 20
cycles, and that alone paces the frames.

* `s.Fills costs s'` says that the steps of a frame lead from `s` to `s'`, and what each of them
  cost. `exists_fills` says that a frame ends, and `stepFrame_of_fills` that `stepFrame` goes on to
  its end.
* `s.Paces frames s'` says that frames lead from `s` to `s'`, each of them with its costs, and that
  the counter never has fewer cycles than are taken off it. `exists_paces` says that any number of
  frames can follow a frame.
* `frames_paced` sums up what holds of all sessions.
-/

namespace DotMatrix.Console

variable {s s₁ s' : Console} {n : Nat} {costs : List Nat} {frames : List (List Nat)}

/-! ### Steps -/

/-- A step counts from 4 to 20 cycles, and none are lost by the width of the counter. -/
theorem counts_of_step (h : s.step = .ok (n, s')) :
    s'.options = s.options ∧ s'.cycle.toNat = s.cycle.toNat + n ∧ 4 ≤ n ∧ n ≤ 20 := by
  obtain ⟨⟨cycles, m⟩, hm, h⟩ := bind_eq_ok.1 h
  obtain ⟨cycle, hc, h⟩ := bind_eq_ok.1 h
  cases h
  refine ⟨rfl, ?_, Machine.cycles_of_step hm⟩
  unfold count at hc
  split at hc
  · next hlt =>
    cases hc
    exact UInt32.toNat_ofNat_of_lt hlt
  · cases hc

/-! ### Frames -/

/-- The steps of a frame lead from one session to another: there is a step as long as the counter
is below the cycles of a frame. The list has the cost of each step. -/
inductive Fills : Console → List Nat → Console → Prop
  | full {s : Console} (h : s.options.cyclesPerFrame ≤ s.cycle) : Fills s [] s
  | step {s s₁ s' : Console} {n : Nat} {costs : List Nat} (h : s.cycle < s.options.cyclesPerFrame)
      (hs : s.step = .ok (n, s₁)) (ht : Fills s₁ costs s') : Fills s (n :: costs) s'

namespace Fills

theorem options_eq (h : s.Fills costs s') : s'.options = s.options := by
  induction h with
  | full => rfl
  | step _ hs _ ih => exact ih.trans (counts_of_step hs).1

theorem cycle_eq (h : s.Fills costs s') : s'.cycle.toNat = s.cycle.toNat + costs.sum := by
  induction h with
  | full => rfl
  | step _ hs _ ih =>
    rw [ih, (counts_of_step hs).2.1, List.sum_cons, Nat.add_assoc]

/-- The counter has the cycles of a frame when the steps end. -/
theorem le_cycle (h : s.Fills costs s') : s'.options.cyclesPerFrame ≤ s'.cycle := by
  induction h with
  | full h => exact h
  | step _ _ _ ih => exact ih

/-- The last step begins below the cycles of a frame, and so does not go far past them. -/
theorem cycle_le_max (h : s.Fills costs s') :
    s'.cycle.toNat ≤ max s.cycle.toNat (s.options.cyclesPerFrame.toNat + 19) := by
  induction h with
  | full => exact Nat.le_max_left ..
  | step h hs _ ih =>
    have hlt := UInt32.lt_iff_toNat_lt.1 h
    obtain ⟨ho, hcycle, h4, h20⟩ := counts_of_step hs
    rw [ho, hcycle] at ih
    omega

/-- Each step but the last leaves the counter below the cycles of a frame, and 4 above what it
was. -/
theorem length_le (h : s.Fills costs s') :
    4 * costs.length ≤ s.options.cyclesPerFrame.toNat + 3 - s.cycle.toNat := by
  induction h with
  | full => exact Nat.zero_le _
  | step h hs _ ih =>
    have hlt := UInt32.lt_iff_toNat_lt.1 h
    obtain ⟨ho, hcycle, h4, h20⟩ := counts_of_step hs
    rw [ho, hcycle] at ih
    rw [List.length_cons]
    omega

theorem length_pos (h : s.Fills costs s') (hlt : s.cycle < s.options.cyclesPerFrame) :
    0 < costs.length := by
  cases h with
  | full h => exact absurd hlt (UInt32.not_lt.2 h)
  | step => exact Nat.succ_pos _

end Fills

/-- A frame ends, if the counter has room for a step past the cycles of a frame. -/
theorem exists_fills (s : Console) (hc : s.options.cyclesPerFrame.toNat + 20 ≤ UInt32.size) :
    ∃ costs s', s.Fills costs s' := by
  -- Every step lessens what the counter lacks.
  induction hk : s.options.cyclesPerFrame.toNat - s.cycle.toNat using Nat.strong_induction_on
    generalizing s with
  | _ k ih =>
    by_cases hlt : s.cycle < s.options.cyclesPerFrame
    · have hlt' := UInt32.lt_iff_toNat_lt.1 hlt
      obtain ⟨n, s₁, hs⟩ := s.exists_step (by omega)
      obtain ⟨ho, hcycle, h4, h20⟩ := counts_of_step hs
      obtain ⟨costs, s', ht⟩ := ih _ (by rw [ho]; omega) s₁ (by rw [ho]; exact hc) rfl
      exact ⟨n :: costs, s', .step hlt hs ht⟩
    · exact ⟨[], s, .full (UInt32.not_lt.1 hlt)⟩

theorem fillFrame_of_fills {fuel : Nat} (h : s.Fills costs s') (hf : costs.length ≤ fuel) :
    fillFrame fuel s = .ok s' := by
  induction h generalizing fuel with
  | full h =>
    cases fuel with
    | zero => rfl
    | succ fuel => rw [fillFrame, if_neg (UInt32.not_lt.2 h)]
  | step h hs _ ih =>
    cases fuel with
    | zero => exact absurd hf (Nat.not_succ_le_zero _)
    | succ fuel =>
      rw [fillFrame, if_pos h, hs]
      exact ih (Nat.le_of_succ_le_succ hf)

/-- Take the cycles of a frame off a counter that has them. -/
theorem resetCycle_of_le (h : s.options.cyclesPerFrame ≤ s.cycle) :
    s.resetCycle = { s with cycle := s.cycle - s.options.cyclesPerFrame } := by
  rw [resetCycle, if_pos h]

/-- A frame is not cut short: it has no more steps than cycles. -/
theorem stepFrame_of_fills (h : s.Fills costs s') :
    s.stepFrame = .ok { s' with cycle := s'.cycle - s'.options.cyclesPerFrame } := by
  have hl := h.length_le
  rw [stepFrame, fillFrame_of_fills h (by omega), ← resetCycle_of_le h.le_cycle]
  rfl

/-! ### Frame after frame -/

/-- Frames lead from one session to another, each of them with the costs of its steps. After each
frame its cycles are taken off a counter that has them. -/
inductive Paces : Console → List (List Nat) → Console → Prop
  | refl (s : Console) : Paces s [] s
  | frame {s s₁ s' : Console} {costs : List Nat} {frames : List (List Nat)}
      (h : Fills s costs s₁) (hc : s₁.options.cyclesPerFrame ≤ s₁.cycle)
      (ht : Paces { s₁ with cycle := s₁.cycle - s₁.options.cyclesPerFrame } frames s') :
      Paces s (costs :: frames) s'

/-- What a frame leaves on the counter is less than what a step may cost. -/
theorem cycle_after_frame (h : s.Fills costs s₁) (hs : s.cycle.toNat ≤ 19) :
    (s₁.cycle - s₁.options.cyclesPerFrame).toNat ≤ 19 := by
  have hle := h.cycle_le_max
  rw [UInt32.toNat_sub_of_le _ _ h.le_cycle, h.options_eq]
  omega

/-- Frame follows frame without end. -/
theorem exists_paces (n : Nat) (s : Console)
    (hc : s.options.cyclesPerFrame.toNat + 20 ≤ UInt32.size) :
    ∃ frames s', s.Paces frames s' ∧ frames.length = n := by
  induction n generalizing s with
  | zero => exact ⟨[], s, .refl s, rfl⟩
  | succ n ih =>
    obtain ⟨costs, s₁, h⟩ := s.exists_fills hc
    obtain ⟨frames, s', ht, hn⟩ := ih { s₁ with cycle := s₁.cycle - s₁.options.cyclesPerFrame }
      (h.options_eq ▸ hc)
    exact ⟨costs :: frames, s', .frame h h.le_cycle ht, congrArg Nat.succ hn⟩

namespace Paces

theorem runFrames_eq (h : s.Paces frames s') : s.runFrames frames.length = .ok s' := by
  induction h with
  | refl => rfl
  | frame h _ _ ih =>
    rw [List.length_cons, runFrames, stepFrame_of_fills h]
    exact ih

/-- No cycle is lost: those that were counted are in the frames or still on the counter. -/
theorem sum_eq (h : s.Paces frames s') :
    s.cycle.toNat + (frames.map List.sum).sum =
      frames.length * s.options.cyclesPerFrame.toNat + s'.cycle.toNat := by
  induction h with
  | refl => simp
  | frame h hc _ ih =>
    have hle := UInt32.le_iff_toNat_le.1 hc
    have hcycle := h.cycle_eq
    rw [UInt32.toNat_sub_of_le _ _ hc, h.options_eq] at ih
    rw [h.options_eq] at hle
    rw [List.map_cons, List.sum_cons, List.length_cons, Nat.succ_mul]
    omega

theorem cycle_le (h : s.Paces frames s') (hs : s.cycle.toNat ≤ 19) : s'.cycle.toNat ≤ 19 := by
  induction h with
  | refl => exact hs
  | frame h _ _ ih => exact ih (cycle_after_frame h hs)

theorem length_of_mem (h : s.Paces frames s') (hs : s.cycle.toNat ≤ 19) (hm : costs ∈ frames) :
    costs.length ≤ (s.options.cyclesPerFrame.toNat + 3) / 4 ∧
      (20 ≤ s.options.cyclesPerFrame.toNat → 0 < costs.length) := by
  induction h with
  | refl => cases hm
  | frame h _ _ ih =>
    cases hm with
    | head =>
      have hl := h.length_le
      exact ⟨by omega, fun hc => h.length_pos (UInt32.lt_iff_toNat_lt.2 (by omega))⟩
    | tail _ hm =>
      have ih := ih (cycle_after_frame h hs) hm
      rwa [h.options_eq] at ih

end Paces

/-! ### Sessions -/

theorem cycle_of_start {path : String} {options : Options} {d : Disk} {j : Journal}
    (h : start path options d j = .ok s) : s.options = options ∧ s.cycle = 0 := by
  unfold start at h
  dsimp only at h
  split at h
  · cases h
  · split at h <;> cases h
    exact ⟨rfl, rfl⟩

/-- Frame pacing ends every frame and loses no cycles. If a step fits on the counter past the cycles
of a frame, any number of frames can be run from the start of a session, whatever the program does.
The cycles of all steps are those of the frames and what is left on the counter, and that is less
than 20. A frame has no more steps than there are fours in its cycles, rounded up, and has a step if
it is as long as one. -/
theorem frames_paced {path : String} {options : Options} {d : Disk} {j : Journal}
    (hs : start path options d j = .ok s)
    (hc : options.cyclesPerFrame.toNat ≤ 2 ^ 32 - 20) :
    (∀ n, ∃ frames s', s.Paces frames s' ∧ frames.length = n) ∧
    ∀ frames s', s.Paces frames s' →
      s.runFrames frames.length = .ok s' ∧
      (frames.map List.sum).sum =
        frames.length * options.cyclesPerFrame.toNat + s'.cycle.toNat ∧
      s'.cycle.toNat ≤ 19 ∧
      ∀ costs ∈ frames, costs.length ≤ (options.cyclesPerFrame.toNat + 3) / 4 ∧
        (20 ≤ options.cyclesPerFrame.toNat → 0 < costs.length) := by
  obtain ⟨rfl, h0⟩ := cycle_of_start hs
  have hroom : s.options.cyclesPerFrame.toNat + 20 ≤ UInt32.size := by
    rw [UInt32.size]
    omega
  have hzero : s.cycle.toNat = 0 := by
    rw [h0]
    rfl
  have h19 : s.cycle.toNat ≤ 19 := by omega
  refine ⟨fun n => exists_paces n s hroom, fun frames s' h => ⟨h.runFrames_eq, ?_, h.cycle_le h19,
    fun costs hm => h.length_of_mem h19 hm⟩⟩
  rw [← h.sum_eq, hzero, Nat.zero_add]

theorem exists_start_blankRom (options : Options) :
    ∃ s, start "a.gb" options (romDisk blankRom) {} = .ok s := by
  have hsize : (blankCartridge.switchBanks + 1) * Cartridge.romBankSize ≤
      ((romDisk blankRom).bytes 0).size := by
    rw [bytes_romDisk, size_blankRom]
    decide
  obtain ⟨b, hl⟩ : ∃ b, blankCartridge.load { disk := romDisk blankRom } = (.ok (), b) :=
    Cartridge.exists_load rfl (openRead_romDisk blankRom) hsize
  obtain ⟨s, hs, -⟩ : ∃ s, start "a.gb" options (romDisk blankRom) {} = .ok s ∧ s.cycle = 0 :=
    exists_start ofFile_blankRom hl
  exact ⟨s, hs⟩

/-- Three frames of the greatest length. -/
theorem frames_paced_longest :
    ∃ s frames s', start "a.gb" { cyclesPerFrame := 0xFFFFFFEC } (romDisk blankRom) {} = .ok s ∧
      (0xFFFFFFEC : UInt32).toNat ≤ 2 ^ 32 - 20 ∧ s.Paces frames s' ∧ s.runFrames 3 = .ok s' ∧
      (frames.map List.sum).sum = 3 * 0xFFFFFFEC + s'.cycle.toNat ∧ s'.cycle.toNat ≤ 19 ∧
      ∀ costs ∈ frames, 0 < costs.length := by
  obtain ⟨s, hs⟩ := exists_start_blankRom { cyclesPerFrame := 0xFFFFFFEC }
  obtain ⟨hn, hall⟩ := frames_paced hs (by decide)
  obtain ⟨frames, s', h, h3⟩ := hn 3
  obtain ⟨hrun, hsum, hle, hsteps⟩ := hall frames s' h
  rw [h3] at hrun hsum
  exact ⟨s, frames, s', hs, by decide, h, hrun, hsum, hle,
    fun costs hm => (hsteps costs hm).2 (by decide)⟩

end DotMatrix.Console
