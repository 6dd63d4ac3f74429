import CausalBroadcast.Model.Data

/-!
# The log

`log.c`: lines are collected in a buffer, which is written to the file when the next
line does not fit any more.  What `fwrite` does is an argument of the calls:
`accepted` is how many characters it is able to write, so it appends that many of the
ones it is given and returns their number.

`sprintf` writes to an array of a fixed size.  A text that is too long for it, with its
terminating zero, ends in `undefined`.
-/

namespace CausalBroadcast

/-- `log_data_t`; `file` is what the file contains. -/
structure LogData where
  bufMaxSize : ℕ
  bufCurrentSize : ℕ
  buffer : List Char
  file : List Char
  deriving DecidableEq, Repr

abbrev LogCall := Call ErrorCode LogData

/-! ## The buffer -/

/-- `init_log_data`, when the buffer can be allocated and the file opened. -/
def initLogData (bufMaxSize : ℕ) : LogData where
  bufMaxSize := bufMaxSize
  bufCurrentSize := 0
  buffer := List.replicate bufMaxSize '\x00'
  file := []

/-- `fwrite` to the log file; the result is the number of characters written. -/
def fwrite (accepted : ℕ) (text : List Char) : LogCall ℕ := do
  Call.modify fun log => { log with file := log.file ++ text.take accepted }
  pure (min accepted text.length)

/-- `write_to_file`. -/
def writeToFile (accepted : ℕ) : LogCall Unit := do
  let log ← Call.state
  let count ← fwrite accepted (log.buffer.take log.bufCurrentSize)
  if count = 0 then
    Call.fail .io
  else
    Call.modify fun log =>
      { log with buffer := List.replicate log.bufMaxSize '\x00', bufCurrentSize := 0 }

/-- `memcpy(&buffer[offset], line, size)`; `none` is a write outside the buffer. -/
def copyAt (buffer : List Char) (offset : ℕ) (line : List Char) : Option (List Char) :=
  if offset + line.length ≤ buffer.length then
    some (buffer.take offset ++ line ++ buffer.drop (offset + line.length))
  else none

/-- The end of `write_log`, when there is room in the buffer. -/
def appendLine (line : List Char) : LogCall Unit := do
  let log ← Call.state
  let buffer ← Call.access (copyAt log.buffer log.bufCurrentSize line)
  Call.modify fun log =>
    { log with buffer := buffer, bufCurrentSize := log.bufCurrentSize + line.length }

/-- `write_log`, which locks `loglok`; the locks are modelled elsewhere. -/
def writeLog (accepted : ℕ) (line : List Char) : LogCall Unit := do
  let log ← Call.state
  if log.bufMaxSize < line.length + log.bufCurrentSize then do
    writeToFile accepted
    appendLine line
  else
    appendLine line

/-! ## The texts -/

/-- `LINE_MAX_LENGTH` of `layers.h`, the size of the array `line`. -/
def logLineMaxLength : ℕ := 8

/-- The size of the array `log_filename`. -/
def logFilenameSize : ℕ := 14

/-- `sprintf` to an array of `size` characters; `none` is a write behind its end. -/
def sprintf (size : ℕ) (text : List Char) : Option (List Char) :=
  if text.length + 1 ≤ size then some text else none

/-- The text of a line, by the formats `"b %u\n"` and `"d %u %u\n"`. -/
def LogLine.text : LogLine → List Char
  | broadcast seq => ['b', ' '] ++ Nat.toDigits 10 (u32 seq) ++ ['\n']
  | deliver pid seq =>
      ['d', ' '] ++ Nat.toDigits 10 (u32 pid) ++ [' '] ++ Nat.toDigits 10 (u32 seq) ++ ['\n']

/-- The name of the log file, by the format `LOG_FILENAME`. -/
def logFilenameText (selfPid : ℕ) : List Char :=
  "da_proc_".toList ++ Nat.toDigits 10 selfPid ++ ".out".toList

/-- The assignment of `log_filename` in `init_data`. -/
def logFilename (selfPid : ℕ) : Option (List Char) :=
  sprintf logFilenameSize (logFilenameText selfPid)

/-- What `log_deliver` and `log_urb_broadcast` share. -/
def logLine (accepted : ℕ) (logged : LogLine) : LogCall Unit := do
  let line ← Call.access (sprintf logLineMaxLength logged.text)
  writeLog accepted line

namespace LogData

/-- `log_deliver`. -/
def logDeliver (accepted pid seq : ℕ) : LogCall Unit := logLine accepted (.deliver pid seq)

/-- `log_urb_broadcast`. -/
def logUrbBroadcast (accepted seq : ℕ) : LogCall Unit := logLine accepted (.broadcast seq)

end LogData

/-! ## What the calls do -/

/-- What holds of a log between calls. -/
structure LogData.WellFormed (log : LogData) : Prop where
  length : log.buffer.length = log.bufMaxSize
  bound : log.bufCurrentSize ≤ log.bufMaxSize

/-- The text that waits in the buffer. -/
def LogData.pending (log : LogData) : List Char := log.buffer.take log.bufCurrentSize

section Spec

variable {log : LogData}

theorem initLogData_wellFormed (bufMaxSize : ℕ) : (initLogData bufMaxSize).WellFormed :=
  ⟨List.length_replicate, Nat.zero_le _⟩

@[simp] theorem pending_initLogData (bufMaxSize : ℕ) : (initLogData bufMaxSize).pending = [] := rfl

theorem length_pending (h : log.WellFormed) : log.pending.length = log.bufCurrentSize := by
  rw [LogData.pending, List.length_take, h.length, min_eq_left h.bound]

/-- `write_to_file` fails when nothing is written, and takes what is written for all. -/
theorem writeToFile_eq (h : log.WellFormed) (accepted : ℕ) :
    (min accepted log.bufCurrentSize = 0 ∧ writeToFile accepted log = .error .io log) ∨
    (min accepted log.bufCurrentSize ≠ 0 ∧
      ∃ log', writeToFile accepted log = .ok () log' ∧ log'.WellFormed ∧
        log'.bufMaxSize = log.bufMaxSize ∧ log'.bufCurrentSize = 0 ∧
        log'.file = log.file ++ log.pending.take accepted) := by
  have hcount : min accepted log.pending.length = min accepted log.bufCurrentSize := by
    rw [length_pending h]
  have hwrite : fwrite accepted (log.buffer.take log.bufCurrentSize) log =
      .ok (min accepted log.bufCurrentSize)
        { log with file := log.file ++ log.pending.take accepted } := by
    rw [← hcount]
    rfl
  by_cases hzero : min accepted log.bufCurrentSize = 0
  · left
    have hnothing : log.pending.take accepted = [] := by
      rw [← List.length_eq_zero_iff, List.length_take, hcount, hzero]
    refine ⟨hzero, ?_⟩
    simp only [writeToFile, Call.bind_apply, Call.state_apply, Outcome.ok_andThen, hwrite,
      if_pos hzero, hnothing, List.append_nil, Call.fail_apply]
  · right
    refine ⟨hzero, { log with
        file := log.file ++ log.pending.take accepted
        buffer := List.replicate log.bufMaxSize '\x00'
        bufCurrentSize := 0 },
      ?_, ⟨List.length_replicate, Nat.zero_le _⟩, rfl, rfl, rfl⟩
    simp only [writeToFile, Call.bind_apply, Call.state_apply, Outcome.ok_andThen, hwrite,
      if_neg hzero, Call.modify_apply]

theorem appendLine_eq (h : log.WellFormed) (line : List Char)
    (hroom : log.bufCurrentSize + line.length ≤ log.bufMaxSize) :
    ∃ log', appendLine line log = .ok () log' ∧ log'.WellFormed ∧
      log'.bufMaxSize = log.bufMaxSize ∧
      log'.bufCurrentSize = log.bufCurrentSize + line.length ∧
      log'.pending = log.pending ++ line ∧ log'.file = log.file := by
  have hcopy : copyAt log.buffer log.bufCurrentSize line = some (log.pending ++ line ++
      log.buffer.drop (log.bufCurrentSize + line.length)) := by
    rw [copyAt, if_pos (by rw [h.length]; exact hroom)]
    rfl
  have htake : (log.pending ++ line).length = log.bufCurrentSize + line.length := by
    rw [List.length_append, length_pending h]
  refine ⟨{ log with
      buffer := log.pending ++ line ++ log.buffer.drop (log.bufCurrentSize + line.length)
      bufCurrentSize := log.bufCurrentSize + line.length },
    by simp [appendLine, hcopy], ⟨?_, hroom⟩, rfl, rfl, ?_, rfl⟩
  · show (log.pending ++ line ++ _).length = log.bufMaxSize
    rw [List.length_append, htake, List.length_drop, h.length]
    omega
  · show (log.pending ++ line ++ _).take _ = _
    rw [← htake, List.take_left]

end Spec

end CausalBroadcast
