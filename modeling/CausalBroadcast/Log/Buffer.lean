import CausalBroadcast.Library.Reachability
import CausalBroadcast.Model.Log

/-!
# What the buffered log writes

The lines that were given to `write_log` are the file followed by the buffer, as long
as every `fwrite` writes all it is given.  `write_to_file` only asks whether `fwrite`
has written anything at all, so what a short write leaves out is dropped with the
buffer (`writeLogs_file`).  The size of the buffer is never exceeded, whatever
`fwrite` does (`bufCurrentSize_le`).
-/

namespace CausalBroadcast

/-- Calls of `write_log` one after the other, each with what its `fwrite` accepts. -/
def writeLogs : List (ℕ × List Char) → LogCall Unit
  | [] => pure ()
  | (accepted, line) :: rest => do
      writeLog accepted line
      writeLogs rest

/-- Calls of `write_log`, and `write_to_file` at the end. -/
def writeAndFlush (script : List (ℕ × List Char)) (final : ℕ) : LogCall Unit := do
  writeLogs script
  writeToFile final

/-- Every `fwrite` of the calls, which start with `size` characters in the buffer, writes
all it is given. -/
def FlushesWhole (bufMaxSize : ℕ) : ℕ → List (ℕ × List Char) → ℕ → Prop
  | size, [], final => size ≤ final
  | size, (accepted, line) :: rest, final =>
      if bufMaxSize < line.length + size then
        size ≤ accepted ∧ FlushesWhole bufMaxSize line.length rest final
      else FlushesWhole bufMaxSize (size + line.length) rest final

/-- The states of a log between calls with lines that are not longer than the buffer. -/
def logRuns (bufMaxSize : ℕ) : TransitionSystem LogData where
  init log := log = initLogData bufMaxSize
  step log log' :=
    (∃ accepted line, line.length ≤ log.bufMaxSize ∧
      (writeLog accepted line log).ReturnsIn log') ∨
    ∃ accepted, (writeToFile accepted log).ReturnsIn log'

section Calls

variable {log log' : LogData} {line : List Char}

/-- The three ways of `write_log`: the flush fails, the line follows a flush, or it fits. -/
theorem writeLog_cases (h : log.WellFormed) (hline : line.length ≤ log.bufMaxSize)
    (accepted : ℕ) :
    (log.bufMaxSize < line.length + log.bufCurrentSize ∧
      writeLog accepted line log = .error .io log) ∨
    (log.bufMaxSize < line.length + log.bufCurrentSize ∧
      ∃ log', writeLog accepted line log = .ok () log' ∧ log'.WellFormed ∧
        log'.bufMaxSize = log.bufMaxSize ∧ log'.bufCurrentSize = line.length ∧
        log'.pending = line ∧ log'.file = log.file ++ log.pending.take accepted) ∨
    (¬ log.bufMaxSize < line.length + log.bufCurrentSize ∧
      ∃ log', writeLog accepted line log = .ok () log' ∧ log'.WellFormed ∧
        log'.bufMaxSize = log.bufMaxSize ∧
        log'.bufCurrentSize = log.bufCurrentSize + line.length ∧
        log'.pending = log.pending ++ line ∧ log'.file = log.file) := by
  by_cases hfull : log.bufMaxSize < line.length + log.bufCurrentSize
  · rcases writeToFile_eq h accepted with
      ⟨-, hflush⟩ | ⟨-, flushed, hflush, hwf, hmax, hsize, hfile⟩
    · exact .inl ⟨hfull, by simp [writeLog, hfull, hflush]⟩
    · obtain ⟨log', happend, hwf', hmax', hsize', hpending', hfile'⟩ := appendLine_eq hwf line
        (by rw [hsize, hmax]; omega)
      have hempty : flushed.pending = [] := by rw [LogData.pending, hsize, List.take_zero]
      refine .inr (.inl ⟨hfull, log', by simp [writeLog, hfull, hflush, happend], hwf',
        hmax'.trans hmax, ?_, ?_, hfile'.trans hfile⟩)
      · rw [hsize', hsize, Nat.zero_add]
      · rw [hpending', hempty, List.nil_append]
  · obtain ⟨log', happend, hrest⟩ := appendLine_eq h line (by omega)
    exact .inr (.inr ⟨hfull, log', by simp [writeLog, hfull, happend], hrest⟩)

/-- A call only fails when nothing can be written. -/
theorem writeLog_ok (h : log.WellFormed) (hline : line.length ≤ log.bufMaxSize) {accepted : ℕ}
    (hpos : 0 < accepted) : ∃ log', writeLog accepted line log = .ok () log' := by
  by_cases hfull : log.bufMaxSize < line.length + log.bufCurrentSize
  · rcases writeToFile_eq h accepted with ⟨hzero, -⟩ | ⟨-, flushed, hflush, hwf, hmax, hsize, -⟩
    · omega
    · obtain ⟨log', happend, -⟩ := appendLine_eq hwf line (by rw [hsize, hmax]; omega)
      exact ⟨log', by simp [writeLog, hfull, hflush, happend]⟩
  · obtain ⟨log', happend, -⟩ := appendLine_eq h line (by omega)
    exact ⟨log', by simp [writeLog, hfull, happend]⟩

theorem wellFormed_of_writeLog (h : log.WellFormed) (hline : line.length ≤ log.bufMaxSize)
    {accepted : ℕ} (hcall : (writeLog accepted line log).ReturnsIn log') : log'.WellFormed := by
  rcases writeLog_cases h hline accepted with ⟨-, hrun⟩ | ⟨-, log₁, hrun, hwf, -⟩ |
    ⟨-, log₁, hrun, hwf, -⟩
  · rw [hrun] at hcall
    exact hcall.error_eq ▸ h
  · rw [hrun] at hcall
    exact hcall.ok_eq ▸ hwf
  · rw [hrun] at hcall
    exact hcall.ok_eq ▸ hwf

theorem bufMaxSize_of_writeLog (h : log.WellFormed) (hline : line.length ≤ log.bufMaxSize)
    {accepted : ℕ} (hcall : (writeLog accepted line log).ReturnsIn log') :
    log'.bufMaxSize = log.bufMaxSize := by
  rcases writeLog_cases h hline accepted with ⟨-, hrun⟩ | ⟨-, log₁, hrun, -, hmax, -⟩ |
    ⟨-, log₁, hrun, -, hmax, -⟩
  · rw [hrun] at hcall
    rw [hcall.error_eq]
  · rw [hrun] at hcall
    exact hcall.ok_eq ▸ hmax
  · rw [hrun] at hcall
    exact hcall.ok_eq ▸ hmax

theorem wellFormed_of_writeToFile (h : log.WellFormed) {accepted : ℕ}
    (hcall : (writeToFile accepted log).ReturnsIn log') : log'.WellFormed := by
  rcases writeToFile_eq h accepted with ⟨-, hrun⟩ | ⟨-, log₁, hrun, hwf, -⟩
  · rw [hrun] at hcall
    exact hcall.error_eq ▸ h
  · rw [hrun] at hcall
    exact hcall.ok_eq ▸ hwf

/-- A call adds its line to what is in the file and the buffer together, when `fwrite`
writes all it is given. -/
theorem writeLog_text (h : log.WellFormed) (hline : line.length ≤ log.bufMaxSize) {accepted : ℕ}
    (haccepts : log.bufMaxSize ≤ accepted) (hcall : writeLog accepted line log = .ok () log') :
    log'.file ++ log'.pending = log.file ++ log.pending ++ line := by
  have hall : log.pending.take accepted = log.pending := by
    refine List.take_of_length_le ?_
    rw [length_pending h]
    exact h.bound.trans haccepts
  rcases writeLog_cases h hline accepted with
    ⟨-, hrun⟩ | ⟨-, log₁, hrun, -, -, -, hpending, hfile⟩ |
      ⟨-, log₁, hrun, -, -, -, hpending, hfile⟩
  · rw [hrun] at hcall
    cases hcall
  · obtain ⟨-, rfl⟩ := Outcome.ok.inj (hrun.symm.trans hcall)
    rw [hpending, hfile, hall]
  · obtain ⟨-, rfl⟩ := Outcome.ok.inj (hrun.symm.trans hcall)
    rw [hpending, hfile, List.append_assoc]

/-- Afterwards the file has everything, also when there was nothing to write. -/
theorem writeToFile_text (h : log.WellFormed) {accepted : ℕ}
    (haccepts : log.bufMaxSize ≤ accepted) (hcall : (writeToFile accepted log).ReturnsIn log') :
    log'.file = log.file ++ log.pending ∧ log'.pending = [] := by
  rcases writeToFile_eq h accepted with ⟨hzero, hrun⟩ | ⟨-, log₁, hrun, -, -, hsize, hfile⟩
  · rw [hrun] at hcall
    have hbound := h.bound
    have hempty : log.pending = [] := by
      rw [← List.length_eq_zero_iff, length_pending h]
      omega
    rw [← hcall.error_eq, hempty, List.append_nil]
    exact ⟨rfl, rfl⟩
  · rw [hrun] at hcall
    rw [← hcall.ok_eq, hfile]
    refine ⟨?_, ?_⟩
    · rw [List.take_of_length_le]
      rw [length_pending h]
      exact h.bound.trans haccepts
    · rw [LogData.pending, hsize, List.take_zero]

theorem bufCurrentSize_le {bufMaxSize : ℕ} (hs : (logRuns bufMaxSize).Reachable log) :
    log.bufCurrentSize ≤ log.bufMaxSize := by
  refine (hs.invariant (I := LogData.WellFormed) ?_ ?_).bound
  · intro log hinit
    exact hinit ▸ initLogData_wellFormed bufMaxSize
  · intro log log' _ hwf hstep
    rcases hstep with ⟨accepted, line, hline, hcall⟩ | ⟨accepted, hcall⟩
    · exact wellFormed_of_writeLog hwf hline hcall
    · exact wellFormed_of_writeToFile hwf hcall

/-- What is in the file after calls that all returned `0`.  It is never longer than all
the lines, so a line that lost a part is not made up for later. -/
theorem writeLogs_file {script : List (ℕ × List Char)} {final : ℕ} (h : log.WellFormed)
    (hlines : ∀ entry ∈ script, entry.2.length ≤ log.bufMaxSize)
    (hrun : writeAndFlush script final log = .ok () log') :
    log'.file.length ≤ (log.file ++ log.pending ++ script.flatMap Prod.snd).length ∧
      (log'.file = log.file ++ log.pending ++ script.flatMap Prod.snd ↔
        FlushesWhole log.bufMaxSize log.bufCurrentSize script final) := by
  induction script generalizing log with
  | nil =>
      have hflush : writeToFile final log = .ok () log' := hrun
      rcases writeToFile_eq h final with ⟨-, herror⟩ | ⟨-, log₁, hok, -, -, -, hfile⟩
      · rw [herror] at hflush
        cases hflush
      · obtain ⟨-, rfl⟩ := Outcome.ok.inj (hok.symm.trans hflush)
        rw [hfile, List.flatMap_nil, List.append_nil, List.append_cancel_left_eq,
          List.take_eq_self_iff, length_pending h]
        refine ⟨?_, Iff.rfl⟩
        rw [List.length_append, List.length_append, List.length_take]
        omega
  | cons entry rest ih =>
      obtain ⟨accepted, line⟩ := entry
      rw [List.forall_mem_cons] at hlines
      obtain ⟨hline, hrest⟩ := hlines
      have hnext : ∀ log₁, writeLog accepted line log = .ok () log₁ →
          writeAndFlush rest final log₁ = .ok () log' := by
        intro log₁ hcall
        simpa [writeAndFlush, writeLogs, hcall] using hrun
      rw [List.flatMap_cons]
      rcases writeLog_cases h hline accepted with ⟨-, hcall⟩ |
        ⟨hfull, log₁, hcall, hwf, hmax, hsize, hpending, hfile⟩ |
        ⟨hroom, log₁, hcall, hwf, hmax, hsize, hpending, hfile⟩
      · simp [writeAndFlush, writeLogs, hcall] at hrun
      · obtain ⟨hlength, hiff⟩ := ih hwf (hmax ▸ hrest) (hnext log₁ hcall)
        rw [hmax, hsize, hpending, hfile] at hiff
        rw [hpending, hfile] at hlength
        simp only [FlushesWhole, if_pos hfull]
        have htaken : (log.pending.take accepted).length = min accepted log.bufCurrentSize := by
          rw [List.length_take, length_pending h]
        have hall : log.bufCurrentSize ≤ accepted → log.pending.take accepted = log.pending :=
          fun hle => List.take_of_length_le (by rw [length_pending h]; exact hle)
        simp only [List.length_append, htaken] at hlength
        simp only [List.append_assoc] at hiff ⊢
        refine ⟨?_, fun hwhole => ?_, fun hwhole => ?_⟩
        · simp only [List.length_append, length_pending h]
          omega
        · -- a character that was left out would be missing in the end
          have hle : log.bufCurrentSize ≤ accepted := by
            have hsame := congrArg List.length hwhole
            simp only [List.length_append, length_pending h] at hsame
            omega
          rw [hall hle] at hiff
          exact ⟨hle, hiff.mp hwhole⟩
        · rw [hall hwhole.1] at hiff
          exact hiff.mpr hwhole.2
      · obtain ⟨hlength, hiff⟩ := ih hwf (hmax ▸ hrest) (hnext log₁ hcall)
        rw [hmax, hsize, hpending, hfile] at hiff
        rw [hpending, hfile] at hlength
        simp only [FlushesWhole, if_neg hroom]
        rw [← hiff]
        simp only [List.append_assoc] at hlength ⊢
        exact ⟨hlength, trivial⟩

end Calls

/-- Calls that all return `0` leave the concatenation of their lines in the file exactly
when no `fwrite` writes less than it is given. -/
theorem bufferedLog_iff {bufMaxSize final : ℕ} {script : List (ℕ × List Char)} {log : LogData}
    (hlines : ∀ entry ∈ script, entry.2.length ≤ bufMaxSize)
    (hrun : writeAndFlush script final (initLogData bufMaxSize) = .ok () log) :
    (∀ log, (logRuns bufMaxSize).Reachable log → log.bufCurrentSize ≤ log.bufMaxSize) ∧
      (log.file = script.flatMap Prod.snd ↔ FlushesWhole bufMaxSize 0 script final) :=
  ⟨fun _ => bufCurrentSize_le,
    (writeLogs_file (initLogData_wellFormed bufMaxSize) hlines hrun).2⟩

/-- Two lines that fill a buffer of four characters exactly, and a third. -/
theorem bufferedLog_full :
    (∀ log, (logRuns 4).Reachable log → log.bufCurrentSize ≤ log.bufMaxSize) ∧
      (['a', 'b', 'c', '\n', 'd', '\n'] = [(0, ['a', 'b']), (0, ['c', '\n']),
        (4, ['d', '\n'])].flatMap Prod.snd ↔
        FlushesWhole 4 0 [(0, ['a', 'b']), (0, ['c', '\n']), (4, ['d', '\n'])] 2) :=
  have hrun : writeAndFlush [(0, ['a', 'b']), (0, ['c', '\n']), (4, ['d', '\n'])] 2
      (initLogData 4) =
      .ok () ⟨4, 0, List.replicate 4 '\x00', ['a', 'b', 'c', '\n', 'd', '\n']⟩ := by
    decide +kernel
  bufferedLog_iff (by decide) hrun

/-- The first `fwrite` writes one character of three, and all calls return `0`. -/
theorem bufferedLog_loses :
    writeAndFlush [(0, ['a', 'b', 'c']), (1, ['d', 'e'])] 2 (initLogData 4) =
      .ok () ⟨4, 0, List.replicate 4 '\x00', ['a', 'd', 'e']⟩ ∧
    ['a', 'd', 'e'] ≠ [(0, ['a', 'b', 'c']), (1, ['d', 'e'])].flatMap Prod.snd := by
  decide +kernel

end CausalBroadcast
