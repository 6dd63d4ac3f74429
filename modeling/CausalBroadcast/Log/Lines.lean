import CausalBroadcast.Log.Buffer
import CausalBroadcast.Model.Fifo
import CausalBroadcast.Parser.Usable

/-!
# The lines and the name of the log

The arrays for the texts have a fixed size, and the numbers are not limited by it:
`logTextsFit_iff` says up to which number of processes and of messages all texts fit.

The layers above keep the lines that they log in a list.  As long as these fit their
arrays and `fwrite` writes all it is given, the file followed by the buffer has the text
of that list (`LogData.Carries`): what is shown of the lists is shown of the log.
-/

namespace CausalBroadcast

/-- Every line and every name of a log fits its array, with the terminating zero. -/
def LogTextsFit (numProc numMsg : ℕ) : Prop :=
  (∀ pid seq, 1 ≤ pid → pid ≤ numProc → 1 ≤ seq → seq ≤ numMsg →
    (LogLine.deliver pid seq).text.length + 1 ≤ logLineMaxLength ∧
    (LogLine.broadcast seq).text.length + 1 ≤ logLineMaxLength) ∧
  ∀ selfPid, 1 ≤ selfPid → selfPid ≤ numProc →
    (logFilenameText selfPid).length + 1 ≤ logFilenameSize

/-! ## The lengths -/

theorem length_deliver (pid seq : ℕ) : (LogLine.deliver pid seq).text.length =
    (Nat.toDigits 10 (u32 pid)).length + (Nat.toDigits 10 (u32 seq)).length + 4 := by
  rw [LogLine.text]
  generalize Nat.toDigits 10 (u32 pid) = pidDigits
  generalize Nat.toDigits 10 (u32 seq) = seqDigits
  simp only [List.length_append, List.length_cons, List.length_nil]
  omega

theorem length_broadcast (seq : ℕ) :
    (LogLine.broadcast seq).text.length = (Nat.toDigits 10 (u32 seq)).length + 3 := by
  rw [LogLine.text]
  generalize Nat.toDigits 10 (u32 seq) = seqDigits
  simp only [List.length_append, List.length_cons, List.length_nil]
  omega

theorem length_logFilenameText (selfPid : ℕ) :
    (logFilenameText selfPid).length = (Nat.toDigits 10 selfPid).length + 12 := by
  unfold logFilenameText
  generalize Nat.toDigits 10 selfPid = digits
  have hhead : "da_proc_".toList.length = 8 := rfl
  have htail : ".out".toList.length = 4 := rfl
  rw [List.length_append, List.length_append, hhead, htail]
  omega

theorem logTextsFit_iff {numProc numMsg : ℕ} (hproc : 1 ≤ numProc) :
    LogTextsFit numProc numMsg ↔ numProc ≤ 9 ∧ numMsg ≤ 99 := by
  constructor
  · rintro ⟨hlines, hnames⟩
    have hnine : numProc ≤ 9 := by
      by_contra hmore
      have hname := hnames 10 (by omega) (by omega)
      exact absurd hname (by decide)
    refine ⟨hnine, ?_⟩
    by_contra hmore
    have hline := (hlines 1 100 (le_refl 1) hproc (by omega) (by omega)).1
    exact absurd hline (by decide)
  · rintro ⟨hnine, hmany⟩
    refine ⟨fun pid seq _ hpid _ hseq => ?_, fun selfPid _ hself => ?_⟩
    · have hpidDigits : (Nat.toDigits 10 (u32 pid)).length ≤ 1 := by
        rw [Nat.length_toDigits_le_iff (by norm_num) Nat.one_pos]
        have := u32_le pid
        omega
      have hseqDigits : (Nat.toDigits 10 (u32 seq)).length ≤ 2 := by
        rw [Nat.length_toDigits_le_iff (by norm_num) Nat.two_pos]
        have := u32_le seq
        omega
      rw [length_deliver, length_broadcast]
      unfold logLineMaxLength
      omega
    · have hselfDigits : (Nat.toDigits 10 selfPid).length ≤ 1 := by
        rw [Nat.length_toDigits_le_iff (by norm_num) Nat.one_pos]
        omega
      rw [length_logFilenameText]
      unfold logFilenameSize
      omega

/-- A line that does not fit its array is written behind the end of it. -/
theorem logLine_undefined {logged : LogLine} (hlong : logLineMaxLength < logged.text.length + 1)
    (accepted : ℕ) (log : LogData) : logLine accepted logged log = .undefined := by
  simp [logLine, sprintf, not_le.mpr hlong]

/-- All texts of a system that the parser accepts fit their arrays exactly when there are
at most nine processes and at most 99 messages. -/
theorem acceptedTexts_fit_iff {fopen : List Char → Option (List Char)} {argv : List (List Char)}
    {data data' : ParserData} (hparse : parseMembershipArgs fopen argv data = .ok () data') :
    LogTextsFit data'.numProc data'.numMsg ↔ data'.numProc ≤ 9 ∧ data'.numMsg ≤ 99 := by
  obtain ⟨_, _, _, _, _, _, haccepted⟩ := accepted_of_parse hparse
  exact logTextsFit_iff (haccepted.numProc ▸ haccepted.numProc_pos)

/-- Two processes with five messages each. -/
theorem acceptedTexts_fit_pair : LogTextsFit 2 5 := by
  have haccepted : parseMembershipArgs (fun _ => some pairFile) (argvOf "1") blankData =
      .ok () pairData := by decide +kernel
  exact (acceptedTexts_fit_iff haccepted).mpr ⟨by decide, by decide⟩

/-- One process with a hundred messages: the line of its hundredth delivery has eight
characters, and the zero behind them is outside the array. -/
theorem hundredthLine_outside :
    parseMembershipArgs (fun _ => some "1\n1 127.0.0.1 11001\n1\n".toList)
      ["da_proc".toList, "1".toList, "membership".toList, "100".toList] blankData =
        .ok () ⟨1, 100, 1, ⟨1, [⟨63786, 2130706433⟩]⟩, ⟨1, [[]]⟩, []⟩ ∧
    ¬ LogTextsFit 1 100 ∧
    LogData.logDeliver 0 1 100 (initLogData 1024) = .undefined := by
  have hlong : logLineMaxLength < (LogLine.deliver 1 100).text.length + 1 := by decide
  refine ⟨by decide +kernel, ?_, logLine_undefined hlong 0 _⟩
  rw [logTextsFit_iff (le_refl 1)]
  decide

/-! ## The lines that the layers keep -/

/-- The file and the buffer together have the text of `lines`, and an empty buffer takes
every line that fits its array. -/
structure LogData.Carries (log : LogData) (lines : List LogLine) : Prop where
  wellFormed : log.WellFormed
  room : logLineMaxLength ≤ log.bufMaxSize
  text : log.file ++ log.pending = (lines.map LogLine.text).flatten

/-- The line fits its array, with the terminating zero. -/
def LogLine.Fits (line : LogLine) : Prop := line.text.length + 1 ≤ logLineMaxLength

theorem initLogData_carries {bufMaxSize : ℕ} (hroom : logLineMaxLength ≤ bufMaxSize) :
    (initLogData bufMaxSize).Carries [] where
  wellFormed := initLogData_wellFormed bufMaxSize
  room := hroom
  text := rfl

section Carries

variable {log : LogData} {lines : List LogLine} {accepted : ℕ}

/-- What `log_deliver` and `log_urb_broadcast` share appends the line. -/
theorem LogData.Carries.logLine (h : log.Carries lines) {line : LogLine} (hfits : line.Fits)
    (haccepts : log.bufMaxSize ≤ accepted) :
    ∃ log', CausalBroadcast.logLine accepted line log = .ok () log' ∧
      log'.bufMaxSize = log.bufMaxSize ∧ log'.Carries (lines ++ [line]) := by
  have hroom := h.room
  have hshort : line.text.length + 1 ≤ logLineMaxLength := hfits
  have hline : line.text.length ≤ log.bufMaxSize := by omega
  obtain ⟨log', hcall⟩ := writeLog_ok h.wellFormed hline
    (show 0 < accepted by unfold logLineMaxLength at hroom; omega)
  have hreturns : (writeLog accepted line.text log).ReturnsIn log' := .inl ⟨(), hcall⟩
  have hmax := bufMaxSize_of_writeLog h.wellFormed hline hreturns
  refine ⟨log', ?_, hmax, wellFormed_of_writeLog h.wellFormed hline hreturns, hmax ▸ h.room, ?_⟩
  · simp only [CausalBroadcast.logLine, sprintf, if_pos hshort, Call.bind_apply,
      Call.access_some, Outcome.ok_andThen]
    exact hcall
  · rw [writeLog_text h.wellFormed hline haccepts hcall, h.text, List.map_append,
      List.flatten_append, List.map_singleton, List.flatten_singleton]

variable (haccepts : log.bufMaxSize ≤ accepted)
include haccepts

/-- `log_deliver_lcb` writes the line that the causal layer notes. -/
theorem logDeliverLcb_carries {pid seq : ℕ} (hfits : (LogLine.deliver pid seq).Fits) {data : Lcb}
    (h : log.Carries data.log) : ∃ log' data',
      LogData.logDeliver accepted pid seq log = .ok () log' ∧
      logDeliverLcb pid seq data = .ok () data' ∧ log'.Carries data'.log := by
  obtain ⟨log', hcall, -, hcarries⟩ := h.logLine hfits haccepts
  exact ⟨log', _, hcall, rfl, hcarries⟩

/-- `log_urb_broadcast` writes the line that `send_urb` notes. -/
theorem logUrbBroadcast_carries {seq : ℕ} (hfits : (LogLine.broadcast seq).Fits) {data : Lcb}
    (h : log.Carries data.log) : ∃ log' data',
      LogData.logUrbBroadcast accepted seq log = .ok () log' ∧
      logUrbBroadcast seq data = .ok () data' ∧ log'.Carries data'.log := by
  obtain ⟨log', hcall, -, hcarries⟩ := h.logLine hfits haccepts
  exact ⟨log', _, hcall, rfl, hcarries⟩

/-- `log_deliver` writes the line that the FIFO layer notes. -/
theorem logDeliver_carries {msg : FifoMsg}
    (hfits : (LogLine.deliver msg.originalSender msg.sequenceNum).Fits) {data : FifoData}
    (h : log.Carries data.log) : ∃ log' data',
      LogData.logDeliver accepted msg.originalSender msg.sequenceNum log = .ok () log' ∧
      logDeliver msg data = .ok () data' ∧ log'.Carries data'.log := by
  obtain ⟨log', hcall, -, hcarries⟩ := h.logLine hfits haccepts
  exact ⟨log', _, hcall, rfl, hcarries⟩

end Carries

/-- Calls of `log_deliver` and `log_urb_broadcast` one after the other. -/
def logLines (accepted : ℕ) : List LogLine → LogCall Unit
  | [] => pure ()
  | line :: rest => do
      logLine accepted line
      logLines accepted rest

theorem LogData.Carries.logLines {log : LogData} {lines more : List LogLine} {accepted : ℕ}
    (h : log.Carries lines) (haccepts : log.bufMaxSize ≤ accepted)
    (hfits : ∀ line ∈ more, line.Fits) :
    ∃ log', CausalBroadcast.logLines accepted more log = .ok () log' ∧
      log'.bufMaxSize = log.bufMaxSize ∧ log'.Carries (lines ++ more) := by
  induction more generalizing log lines with
  | nil => exact ⟨log, rfl, rfl, (List.append_nil lines).symm ▸ h⟩
  | cons line rest ih =>
      obtain ⟨hline, hrest⟩ := List.forall_mem_cons.mp hfits
      obtain ⟨log₁, hcall, hmax, hcarries⟩ := h.logLine hline haccepts
      obtain ⟨log', hcalls, hmax', hcarries'⟩ := ih hcarries (hmax ▸ haccepts) hrest
      refine ⟨log', ?_, hmax'.trans hmax, ?_⟩
      · rw [CausalBroadcast.logLines, Call.bind_apply, hcall, Outcome.ok_andThen, hcalls]
      · rwa [List.append_assoc, List.singleton_append] at hcarries'

/-- The file of a process that has logged `lines` when its buffer has been written. -/
theorem flushedLines_text {bufMaxSize accepted : ℕ} (hroom : logLineMaxLength ≤ bufMaxSize)
    (haccepts : bufMaxSize ≤ accepted) {lines : List LogLine}
    (hfits : ∀ line ∈ lines, line.Fits) :
    ∃ log, logLines accepted lines (initLogData bufMaxSize) = .ok () log ∧ log.Carries lines ∧
      ∀ log', (writeToFile accepted log).ReturnsIn log' →
        log'.file = (lines.map LogLine.text).flatten := by
  obtain ⟨log, hcall, hmax, hcarries⟩ := (initLogData_carries hroom).logLines haccepts hfits
  refine ⟨log, hcall, hcarries, fun log' hflush => ?_⟩
  rw [(writeToFile_text hcarries.wellFormed (hmax.trans_le haccepts) hflush).1]
  exact hcarries.text

end CausalBroadcast
