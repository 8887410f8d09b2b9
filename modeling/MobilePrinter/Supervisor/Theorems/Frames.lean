import MobilePrinter.Firmware.Theorems.Channel
import MobilePrinter.Supervisor.Theorems.Actions

namespace Firmware.State

variable {s : State} {io : FileOutcomes} {shm : CommandShm}

-- The poll gives what it has read to `handle_command`.
def Handles (s : State) (io : FileOutcomes) (shm : CommandShm) : Prop :=
  (s.pollCommand io (some shm)).history.handled ≠ s.history.handled

theorem handleCommand_handled {cmd : CommandIpc} :
    (s.handleCommand io cmd).history.handled ≠ s.history.handled := by
  cases handleCommand_cases s io cmd
  case inl h =>
    rw [h]
    exact List.cons_ne_self _ _
  case inr h =>
    have ⟨s', a, h⟩ := h
    rw [h, note_handled, a.channel.right]
    exact List.cons_ne_self _ _

theorem handles_iff : s.Handles io shm ↔
    s.lastSeenSeq < shm.seq ∧ shm.frame.seq = shm.seq ∧ shm.frame.validate = true := by
  simp only [Handles, pollCommand]
  split
  case isTrue hl => exact iff_of_false (not_not.mpr rfl) fun h => UInt32.not_lt.mpr hl h.left
  case isFalse hl =>
    split
    case isTrue hq =>
      exact iff_of_false (not_not.mpr rfl) fun h => bne_iff_ne.mp hq h.right.left
    case isFalse hq =>
      split
      case isTrue hv => exact iff_of_false (not_not.mpr rfl) fun h => by simp [h.right.right] at hv
      case isFalse hv =>
        exact iff_of_true handleCommand_handled
          ⟨UInt32.not_le.mp hl, by simpa using hq, by simpa using hv⟩

end Firmware.State

namespace Supervisor

open Firmware

-- The supervisor can write the frame.
def Sends (cmd : CommandIpc) : Prop :=
  ∃ (w : IpcCommandWriter) (command : CommandType) (now : UInt64),
    (w.sendCommand command now).1 = some cmd

-- Every field of `cmd` comes from one of two frames, but it is neither of them.
structure Torn (cmd₁ cmd₂ cmd : CommandIpc) : Prop where
  abiVersion       : cmd.abiVersion = cmd₁.abiVersion ∨ cmd.abiVersion = cmd₂.abiVersion
  seq              : cmd.seq = cmd₁.seq ∨ cmd.seq = cmd₂.seq
  command          : cmd.command = cmd₁.command ∨ cmd.command = cmd₂.command
  flags            : cmd.flags = cmd₁.flags ∨ cmd.flags = cmd₂.flags
  timestampNs      : cmd.timestampNs = cmd₁.timestampNs ∨ cmd.timestampNs = cmd₂.timestampNs
  checksum         : cmd.checksum = cmd₁.checksum ∨ cmd.checksum = cmd₂.checksum
  localizationMode : cmd.localizationMode = cmd₁.localizationMode ∨
    cmd.localizationMode = cmd₂.localizationMode
  ne_left          : cmd ≠ cmd₁
  ne_right         : cmd ≠ cmd₂

variable {cmd cmd₁ cmd₂ : CommandIpc}

theorem validate_iff :
    cmd.validate = true ↔ cmd.abiVersion = commandIpcAbiVersion ∧ cmd.flags = 0 := by
  simp only [CommandIpc.validate]
  grind

theorem Sends.validate (h : Sends cmd) : cmd.validate = true := by
  have ⟨w, command, now, h⟩ := h
  have hw := SupervisorNode.sendCommand_writes w command now
  rw [h] at hw
  exact hw.numbered.left

theorem Torn.validate (t : Torn cmd₁ cmd₂ cmd) (h₁ : Sends cmd₁) (h₂ : Sends cmd₂) :
    cmd.validate = true := by
  have h₁ := validate_iff.mp h₁.validate
  have h₂ := validate_iff.mp h₂.validate
  refine validate_iff.mpr ⟨?_, ?_⟩
  · exact t.abiVersion.elim (·.trans h₁.left) (·.trans h₂.left)
  · exact t.flags.elim (·.trans h₁.right) (·.trans h₂.right)

-- A torn frame is passed over exactly if it is not newer than the last one or carries another
-- number than the one that was read before it, and a frame is handled under its own checksum only
-- exactly if it is passed over for one of these reasons, for its version or for its flags, or has
-- the right checksum anyway.
theorem torn_passed_iff (s : State) (io : FileOutcomes) (shm : CommandShm) :
    (∀ cmd₁ cmd₂, Sends cmd₁ → Sends cmd₂ → cmd₁.seq ≠ cmd₂.seq → Torn cmd₁ cmd₂ shm.frame →
      (¬s.Handles io shm ↔ shm.seq ≤ s.lastSeenSeq ∨ shm.frame.seq ≠ shm.seq)) ∧
    ((s.Handles io shm → shm.frame.checksum = xorChecksum shm.frame) ↔
      shm.seq ≤ s.lastSeenSeq ∨ shm.frame.seq ≠ shm.seq ∨
        shm.frame.abiVersion ≠ commandIpcAbiVersion ∨ shm.frame.flags ≠ 0 ∨
        shm.frame.checksum = xorChecksum shm.frame) := by
  refine ⟨fun cmd₁ cmd₂ h₁ h₂ _ t => ?_, ?_⟩
  · rw [State.handles_iff, ← UInt32.not_lt]
    have hv := t.validate h₁ h₂
    grind
  · rw [State.handles_iff, validate_iff, ← UInt32.not_lt]
    grind

def startFrame : CommandIpc where
  seq         := 1
  command     := 1
  timestampNs := 1

def pauseFrame : CommandIpc where
  seq         := 2
  command     := 2
  timestampNs := 2
  checksum    := 3

-- The old command under the new sequence number.
def tornFrame : CommandIpc :=
  { pauseFrame with command := startFrame.command }

theorem startFrame_sends : Sends startFrame :=
  ⟨{ isConnected := true }, .start, 1, rfl⟩

theorem pauseFrame_sends : Sends pauseFrame :=
  ⟨{ isConnected := true, seq := 1 }, .pause, 2, rfl⟩

theorem tornFrame_torn : Torn startFrame pauseFrame tornFrame where
  abiVersion       := .inr rfl
  seq              := .inr rfl
  command          := .inl rfl
  flags            := .inr rfl
  timestampNs      := .inr rfl
  checksum         := .inr rfl
  localizationMode := .inr rfl
  ne_left          := by decide
  ne_right         := by decide

theorem torn_passed_iff_old :
    ¬State.Handles { lastSeenSeq := 2 } {} ⟨2, tornFrame⟩ ∧
      (State.Handles {} {} ⟨1, startFrame⟩ → startFrame.checksum = xorChecksum startFrame) :=
  ⟨((torn_passed_iff _ _ ⟨2, tornFrame⟩).left _ _ startFrame_sends pauseFrame_sends (by decide)
      tornFrame_torn).mpr (.inl (by decide)),
    (torn_passed_iff _ _ ⟨1, startFrame⟩).right.mpr (by decide)⟩

-- The torn frame is handled as a START.
theorem torn_passed_fails : ¬∀ cmd₁ cmd₂ cmd, Sends cmd₁ → Sends cmd₂ → cmd₁.seq ≠ cmd₂.seq →
    Torn cmd₁ cmd₂ cmd → ∀ (s : State) io seq, ¬s.Handles io ⟨seq, cmd⟩ := by
  intro hc
  refine hc _ _ _ startFrame_sends pauseFrame_sends (by decide) tornFrame_torn {} {} 2 ?_
  exact State.handles_iff.mpr ⟨by decide, rfl, rfl⟩

end Supervisor
