import CausalBroadcast.Causal.LogOrder
import CausalBroadcast.Library.Sequence
import CausalBroadcast.Output.Texts
import CausalBroadcast.Stack.Guarantees

/-!
# Numbered lines

The lines `b i` of a log are to be numbered one after the other, and so are the lines
`d q k` of each `q` (`Consecutive`).  `check_fifo.py` tests exactly this
(`checkFifo_decides`), and every log of every run has it, at any time
(`stack_output_accepted`): `k` is printed from the count of deliveries, not from the
message, so the order in which the messages of `q` were broadcast plays no part.
-/

namespace CausalBroadcast

/-! ## The numbers -/

def LogLine.isBroadcast : LogLine → Bool
  | broadcast _ => true
  | deliver _ _ => false

/-- The number of lines `b i` in a log. -/
def broadcastLines (log : List LogLine) : ℕ := log.countP LogLine.isBroadcast

@[simp] theorem broadcastLines_nil : broadcastLines [] = 0 := rfl

@[simp] theorem broadcastLines_concat_broadcast (i : ℕ) (log : List LogLine) :
    broadcastLines (log ++ [.broadcast i]) = broadcastLines log + 1 := by
  simp [broadcastLines, List.countP_append, LogLine.isBroadcast]

@[simp] theorem broadcastLines_concat_deliver (pid seq : ℕ) (log : List LogLine) :
    broadcastLines (log ++ [.deliver pid seq]) = broadcastLines log := by
  simp [broadcastLines, List.countP_append, LogLine.isBroadcast]

/-- The line has the number that comes next. -/
def NextNumber (pre : List LogLine) : LogLine → Prop
  | .broadcast i => i = broadcastLines pre + 1
  | .deliver q k => k = deliverLines q pre + 1

instance (pre : List LogLine) (line : LogLine) : Decidable (NextNumber pre line) :=
  match line with
  | .broadcast _ => inferInstanceAs (Decidable (_ = _))
  | .deliver _ _ => inferInstanceAs (Decidable (_ = _))

/-- Every line has the number that comes next after the lines before it. -/
abbrev Consecutive (log : List LogLine) : Prop := InSequence NextNumber log

/-- The numbers of a line are `unsigned int`s. -/
def LogLine.IsU32 : LogLine → Prop
  | broadcast i => i < 2 ^ 32
  | deliver q k => q < 2 ^ 32 ∧ k < 2 ^ 32

/-! ## The script -/

/-- The body of the loop for the text of a line. -/
def FifoCheck.logged (check : FifoCheck) (line : LogLine) : Except FifoFailure FifoCheck :=
  check.line line.text

/-- The variables of the script after some lines. -/
structure FifoCheck.After (pre : List LogLine) (check : FifoCheck) : Prop where
  i : check.i = broadcastLines pre + 1
  l : check.l = pre.length + 1
  nextMessage : ∀ q : ℕ, check.nextMessage q = deliverLines q pre + 1

/-- How the script ends at a line with a wrong number. -/
def fifoRefusal (pre : List LogLine) : LogLine → FifoFailure
  | .broadcast i => .broadcastOutOfOrder (pre.length + 1) (broadcastLines pre + 1) i
  | .deliver q k => .deliveredOutOfOrder (pre.length + 1) (deliverLines q pre + 1) k

section Script

variable {pre log : List LogLine} {check : FifoCheck}

theorem FifoCheck.logged_broadcast {i : ℕ} (hi : i < 2 ^ 32) (check : FifoCheck) :
    check.logged (.broadcast i) =
      if (i : ℤ) ≠ check.i then .error (.broadcastOutOfOrder check.l check.i i)
      else .ok { check with i := check.i + 1, l := check.l + 1 } := by
  have hwords : (LogLine.broadcast i).words = [['b'], decimal i] := by
    rw [LogLine.words, u32_of_lt hi]
  have hfirst : pyGet [['b'], decimal i] 0 = .ok ['b'] := rfl
  have hsecond : pyGet [['b'], decimal i] 1 = .ok (decimal i) := rfl
  simp only [logged, line, broadcast, pySplit_text, hwords, hfirst, hsecond, raising, Bind.bind,
    Except.bind, pyInt_decimal]
  by_cases h : (i : ℤ) = check.i
  · simp [h]
  · simp [h]

theorem FifoCheck.logged_deliver {q k : ℕ} (hq : q < 2 ^ 32) (hk : k < 2 ^ 32)
    (check : FifoCheck) : check.logged (.deliver q k) =
      if (k : ℤ) ≠ check.nextMessage q then
        .error (.deliveredOutOfOrder check.l (check.nextMessage q) k)
      else .ok { check with
        l := check.l + 1
        nextMessage := Function.update check.nextMessage q (k + 1) } := by
  have hwords : (LogLine.deliver q k).words = [['d'], decimal q, decimal k] := by
    rw [LogLine.words, u32_of_lt hq, u32_of_lt hk]
  have hfirst : pyGet [['d'], decimal q, decimal k] 0 = .ok ['d'] := rfl
  have hsecond : pyGet [['d'], decimal q, decimal k] 1 = .ok (decimal q) := rfl
  have hthird : pyGet [['d'], decimal q, decimal k] 2 = .ok (decimal k) := rfl
  simp only [logged, line, delivery, pySplit_text, hwords, hfirst, hsecond, hthird, raising,
    Bind.bind, Except.bind, pyInt_decimal]
  by_cases h : (k : ℤ) = check.nextMessage q
  · simp [h]
  · simp [h]

/-- The script checks the number of every line. -/
theorem checksEach_line (hlog : ∀ line ∈ log, line.IsU32) :
    ChecksEach NextNumber FifoCheck.logged FifoCheck.After fifoRefusal log := by
  intro pre line check hpref hafter
  have hline : line.IsU32 := hlog line (hpref.subset (by simp))
  have hlength : (check.l + 1 : ℕ) = (pre ++ [line]).length + 1 := by
    rw [hafter.l, List.length_append, List.length_singleton]
  cases line with
  | broadcast i =>
      rw [FifoCheck.logged_broadcast hline, hafter.i, hafter.l]
      constructor
      · intro hnext
        have hi : (i : ℤ) = broadcastLines pre + 1 := by exact_mod_cast hnext
        refine ⟨_, if_neg (not_not.mpr hi), ?_, ?_, fun q => ?_⟩
        · rw [broadcastLines_concat_broadcast]
          push_cast
          ring
        · rw [← hlength, hafter.l]
        · rw [deliverLines_concat_broadcast]
          exact hafter.nextMessage q
      · intro hnext
        exact if_pos fun hi => hnext (by exact_mod_cast hi)
  | deliver q k =>
      rw [FifoCheck.logged_deliver hline.1 hline.2, hafter.nextMessage, hafter.l]
      constructor
      · intro hnext
        have hk : (k : ℤ) = deliverLines q pre + 1 := by exact_mod_cast hnext
        refine ⟨_, if_neg (not_not.mpr hk), ?_, ?_, fun r => ?_⟩
        · rw [broadcastLines_concat_deliver]
          exact hafter.i
        · rw [← hlength, hafter.l]
        · show Function.update check.nextMessage (q : ℤ) (k + 1) r = _
          rw [deliverLines_concat_deliver]
          by_cases hr : q = r
          · subst hr
            rw [if_pos rfl, Function.update_self, hk]
            push_cast
            ring
          · rw [if_neg hr, Function.update_of_ne (by exact_mod_cast Ne.symm hr),
              hafter.nextMessage, Nat.add_zero]
      · intro hnext
        exact if_pos fun hk => hnext (by exact_mod_cast hk)

/-- The script goes through, or stops at the first wrong number. -/
theorem checkFifo_cases (hlog : ∀ line ∈ log, line.IsU32) :
    (Consecutive log ∧ ∃ check, checkFifo (outputText log) = .ok check ∧
      FifoCheck.After log check) ∨
    ∃ pre line, pre ++ [line] <+: log ∧ Consecutive pre ∧ ¬ NextNumber pre line ∧
      checkFifo (outputText log) = .error (fifoRefusal pre line) := by
  have hfold : checkFifo (outputText log) =
      log.foldlM FifoCheck.logged ⟨1, 1, fun _ => 1⟩ := by
    rw [checkFifo, pyLines_outputText, List.foldlM_map]
    rfl
  rw [hfold]
  exact checkEach_cases (checksEach_line hlog) ⟨rfl, rfl, fun _ => rfl⟩

/-- `check_fifo.py` accepts an output exactly when its lines are numbered one after the
other, and otherwise reports the first line that is not. -/
theorem checkFifo_decides (hlog : ∀ line ∈ log, line.IsU32) :
    ((∃ check, checkFifo (outputText log) = .ok check) ↔ Consecutive log) ∧
    ∀ failure, checkFifo (outputText log) = .error failure ↔
      ∃ pre line, pre ++ [line] <+: log ∧ Consecutive pre ∧ ¬ NextNumber pre line ∧
        failure = fifoRefusal pre line := by
  rcases checkFifo_cases hlog with ⟨hnumbered, check, hcheck, -⟩ |
    ⟨pre, line, hpref, hpre, hline, hcheck⟩
  · refine ⟨⟨fun _ => hnumbered, fun _ => ⟨check, hcheck⟩⟩, fun failure => ?_⟩
    rw [hcheck]
    constructor
    · intro h
      cases h
    · rintro ⟨pre, line, hpref, -, hline, -⟩
      exact absurd (hnumbered pre line hpref) hline
  · refine ⟨⟨fun ⟨check, h⟩ => ?_, fun hnumbered => absurd (hnumbered pre line hpref) hline⟩,
      fun failure => ⟨fun h => ?_, ?_⟩⟩
    · rw [hcheck] at h
      cases h
    · rw [hcheck] at h
      exact ⟨pre, line, hpref, hpre, hline, (Except.error.inj h).symm⟩
    · rintro ⟨pre', line', hpref', hpre', hline', rfl⟩
      obtain ⟨rfl, rfl⟩ := InSequence.first_not_unique hpref hpre hline hpref' hpre' hline'
      exact hcheck

/-- The second delivery from process `2` has the number of the third. -/
theorem checkFifo_gap : checkFifo (outputText [.broadcast 1, .deliver 2 1, .deliver 2 3]) =
    .error (.deliveredOutOfOrder 3 2 3) := by
  have hlog : ∀ line ∈ [LogLine.broadcast 1, .deliver 2 1, .deliver 2 3], line.IsU32 := by
    intro line hline
    simp only [List.mem_cons, List.not_mem_nil, or_false] at hline
    rcases hline with rfl | rfl | rfl <;> norm_num [LogLine.IsU32]
  refine ((checkFifo_decides hlog).2 _).mpr ⟨[.broadcast 1, .deliver 2 1], .deliver 2 3,
    List.prefix_refl _, ?_, by decide, rfl⟩
  have hfirst : Consecutive [.broadcast 1] := InSequence.nil.concat rfl
  exact hfirst.concat rfl

end Script

/-! ## The logs of the causal layer -/

/-- The lines `b i` that the main thread has written. -/
def BroadcastWritten (log : List LogLine) : MainThread → Prop
  | .ready i => broadcastLines log + 1 = i
  | .copied i _ => broadcastLines log + 1 = i
  | .logged i _ => broadcastLines log = i

/-- The log of a process. -/
structure LineInv (P : LcbProcess) : Prop where
  delivered : ∀ q, deliverLines q P.data.log + unwritten q P.receiver =
    (fromSender q P.data.delivered).length
  main : BroadcastWritten P.data.log P.main
  consecutive : Consecutive P.data.log
  isU32 : ∀ line ∈ P.data.log, line.IsU32

section Runs

variable {cfg : Membership} {s t : LcbSystem} {p : ℕ} {P P' : LcbProcess}

/-- A step that writes nothing. -/
theorem LineInv.keep (h : LineInv P) (hlog : P'.data.log = P.data.log) (hmain : P'.main = P.main)
    (hdelivered : ∀ q, deliverLines q P.data.log + unwritten q P'.receiver =
      (fromSender q P'.data.delivered).length) : LineInv P' where
  delivered := by
    rw [hlog]
    exact hdelivered
  main := by
    rw [hlog, hmain]
    exact h.main
  consecutive := by
    rw [hlog]
    exact h.consecutive
  isU32 := by
    rw [hlog]
    exact h.isU32

/-- The receiver thread writes the line of the message it has counted. -/
theorem LineInv.write (h : LineInv P) (hinv : LcbInv cfg s) (hp : cfg.IsPid p)
    (hP : P = s.process p) {msg : LcbMsg} {seq : ℕ} {site : Site}
    (hreceiver : P.receiver = .logging msg seq site)
    (hlog : P'.data.log = P.data.log ++ [.deliver msg.originalSender seq])
    (hdelivered : P'.data.delivered = P.data.delivered) (hmain : P'.main = P.main)
    (hwritten : ∀ q, unwritten q P'.receiver = 0) : LineInv P' := by
  have hproc : ProcessInv cfg s.broadcast p P := hP ▸ hinv.process p hp
  have hheld := hproc.receiver
  rw [hreceiver] at hheld
  obtain ⟨⟨pre, hpre⟩, hseq⟩ := hheld
  have hpid : cfg.IsPid msg.originalSender :=
    (hproc.fits hinv.broadcast (hproc.delivered_subset (hpre ▸ by simp))).isPid
  -- The counted delivery is the only one without a line, so its number is the next one.
  have hcount : seq = deliverLines msg.originalSender P.data.log + 1 := by
    have := h.delivered msg.originalSender
    rw [hreceiver, unwritten, if_pos rfl] at this
    rw [hseq, hproc.clock _ hpid, this]
  -- An entry never wraps: an origin broadcasts fewer than `2 ^ 31` messages.
  have hbound : seq < 2 ^ 32 := by
    have hle : (fromSender msg.originalSender P.data.delivered).length ≤
        (fromSender msg.originalSender s.broadcast).length :=
      length_fromSender_le_of_subset hproc.delivered_nodup
        (List.Subset.trans hproc.delivered_subset hproc.handed_subset)
    have hlt := hinv.length_lt hpid
    rw [hseq, hproc.clock _ hpid]
    omega
  refine ⟨fun q => ?_, ?_, ?_, ?_⟩
  · have := h.delivered q
    rw [hreceiver] at this
    rw [hwritten, hdelivered, hlog, deliverLines_concat_deliver, ← this]
    rfl
  · have hold := h.main
    have hlines : broadcastLines P'.data.log = broadcastLines P.data.log := by
      rw [hlog, broadcastLines_concat_deliver]
    rw [hmain]
    cases hcase : P.main with
    | ready i =>
        rw [hcase] at hold
        exact (congrArg (· + 1) hlines).trans hold
    | copied i own =>
        rw [hcase] at hold
        exact (congrArg (· + 1) hlines).trans hold
    | logged i own =>
        rw [hcase] at hold
        exact hlines.trans hold
  · rw [hlog]
    exact h.consecutive.concat hcount
  · intro line hline
    rw [hlog] at hline
    rcases List.mem_append.mp hline with hline | hline
    · exact h.isU32 line hline
    · rw [List.mem_singleton.mp hline]
      have hlast : msg.originalSender ≤ cfg.numProc := hpid.2
      have hproc := cfg.numProc_lt
      exact ⟨by omega, hbound⟩

theorem LineInv.receive (h : LineInv P) (hinv : LcbInv cfg s) (hp : cfg.IsPid p)
    (hP : P = s.process p) (heffect : ReceiveEffect cfg P P') : LineInv P' := by
  have hdelivered := h.delivered
  cases heffect with
  | accept hreceiver hready =>
      exact h.keep rfl rfl fun q => by simpa [hreceiver, unwritten] using hdelivered q
  | park hreceiver hready =>
      exact h.keep rfl rfl fun q => by simpa [hreceiver, unwritten] using hdelivered q
  | count hreceiver =>
      refine h.keep rfl rfl fun q => ?_
      rw [length_fromSender_concat, ← hdelivered q, hreceiver]
      rfl
  | write hreceiver => exact h.write hinv hp hP hreceiver rfl rfl rfl fun _ => rfl
  | fail hreceiver => exact h.write hinv hp hP hreceiver rfl rfl rfl fun _ => rfl
  | removeNext hreceiver => exact h.write hinv hp hP hreceiver rfl rfl rfl fun _ => rfl
  | turn hreceiver hquiet =>
      refine h.keep rfl rfl fun q => ?_
      have hbefore : unwritten q P.receiver = 0 := by
        rcases hreceiver with hreceiver | ⟨i, foundOne, hreceiver⟩ <;> rw [hreceiver] <;> rfl
      rw [← hdelivered q, hbefore]
      exact congrArg _ (hquiet.unwritten q)
  | find hreceiver hwaiting hready =>
      exact h.keep rfl rfl fun q => by simpa [hreceiver, unwritten] using hdelivered q
  | stay => exact h
  | lose hreceiver =>
      exact h.keep rfl rfl fun q => by simpa [hreceiver, unwritten] using hdelivered q

/-- The main thread writes the line `b i`. -/
theorem LineInv.logBroadcast (h : LineInv P) {i : ℕ} {msg : LcbMsg} (hmain : P.main = .copied i msg)
    (hi : i < 2 ^ 31) : LineInv { P with
      data := { P.data with log := P.data.log ++ [.broadcast i] }
      main := .logged i msg } := by
  have hnext := h.main
  rw [hmain] at hnext
  have hnext : broadcastLines P.data.log + 1 = i := hnext
  refine ⟨fun q => by simpa using h.delivered q, ?_, h.consecutive.concat hnext.symm, ?_⟩
  · exact (broadcastLines_concat_broadcast i P.data.log).trans hnext
  · intro line hline
    rcases List.mem_append.mp hline with hline | hline
    · exact h.isU32 line hline
    · rw [List.mem_singleton.mp hline]
      exact hi.trans (by norm_num)

theorem LineInv.step (hinv : LcbInv cfg s) (hp : cfg.IsPid p)
    (h : ∀ q, cfg.IsPid q → LineInv (s.process q)) {action : LcbAction}
    (hstep : LcbStep s p action t) : ∀ q, cfg.IsPid q → LineInv (t.process q) := by
  have hP := hinv.process p hp
  have hset : ∀ {P' : LcbProcess}, LineInv P' →
      ∀ q, cfg.IsPid q → LineInv ((s.set p P').process q) :=
    fun hP' => LcbSystem.forall_set (I := fun _ => LineInv) h hP'
  have hmainInv := hP.main
  have hold := (h p hp).main
  cases hstep with
  | @copy i msg data hdefined hmain hi hcall =>
      rw [nextLcbMsg_eq hP.wellFormed hp] at hcall
      obtain ⟨rfl, rfl⟩ := Outcome.ok.inj hcall
      rw [hmain] at hold
      exact hset ⟨(h p hp).delivered, hold, (h p hp).consecutive, (h p hp).isU32⟩
  | @logBroadcast i msg data hdefined hmain hcall =>
      obtain ⟨-, rfl⟩ := Outcome.ok.inj hcall
      rw [hmain] at hmainInv
      exact hset ((h p hp).logBroadcast hmain hmainInv.2.2.2)
  | @send i msg hdefined hmain =>
      rw [hmain] at hold
      exact hset ⟨(h p hp).delivered, congrArg (· + 1) hold, (h p hp).consecutive,
        (h p hp).isU32⟩
  | @hand msg hidle hmem hnew =>
      refine hset ⟨fun q => ?_, hold, (h p hp).consecutive, (h p hp).isU32⟩
      have := (h p hp).delivered q
      rw [hidle] at this
      exact this
  | receive hdefined =>
      exact hset ((h p hp).receive hinv hp rfl (receive_effect hinv.broadcast hP))

theorem lineInv_of_reachable (hs : (lcbSystem cfg).Reachable s) :
    ∀ p, cfg.IsPid p → LineInv (s.process p) := by
  refine hs.invariant (I := fun s => ∀ p, cfg.IsPid p → LineInv (s.process p)) ?_ ?_
  · rintro s rfl p _
    exact ⟨fun q => rfl, rfl, InSequence.nil, fun line hline => absurd hline List.not_mem_nil⟩
  · rintro s t hs h ⟨p, action, hp, hstep⟩
    exact LineInv.step (lcbInv_of_reachable hs) hp h hstep

end Runs

/-! ## The outputs of the whole stack -/

/-- Whenever the file of a process is read, with as many lines as are written by then,
`check_fifo.py` accepts it. -/
theorem stack_output_accepted {cfg : Membership} {numMsg : ℕ → ℕ} {s : StackSystem}
    (hs : (stackSystem cfg numMsg).Reachable s) (hin : InTables cfg s.world) {p : ℕ}
    (hp : cfg.IsPid p) {written : List LogLine}
    (hwritten : written <+: (s p).net.data.lcb.log) :
    ∃ check, checkFifo (outputText written) = .ok check ∧
      check.i = broadcastLines written + 1 ∧
      ∀ q : ℕ, check.nextMessage q = deliverLines q written + 1 := by
  obtain ⟨t, ht, h⟩ := exists_stackRefines hs hin
  have hlines := lineInv_of_reachable ht p hp
  rw [← (h.process p hp).data] at hwritten
  have hisU32 : ∀ line ∈ written, line.IsU32 := fun line hline =>
    hlines.isU32 line (hwritten.subset hline)
  have hconsecutive : Consecutive written := hlines.consecutive.mono hwritten
  rcases checkFifo_cases hisU32 with ⟨-, check, hcheck, hafter⟩ | ⟨pre, line, hpref, -, hline, -⟩
  · exact ⟨check, hcheck, hafter.i, hafter.nextMessage⟩
  · exact absurd (hconsecutive pre line hpref) hline

/-- Process `1` broadcasts a message and delivers it, and then the answer. -/
theorem answered_output_accepted : ∃ s, (stackSystem chainMembership fun _ => 1).Reachable s ∧
    (s 1).net.data.lcb.log = [.broadcast 1, .deliver 1 1, .deliver 2 1] ∧
    ∃ check, checkFifo (outputText [.broadcast 1, .deliver 1 1, .deliver 2 1]) = .ok check ∧
      check.nextMessage 2 = 2 := by
  obtain ⟨s, hs, hmatches⟩ := exists_netMatches answered_reachable fun q hq => answered_sane hq
  have hin : InTables chainMembership s.world := by
    rw [show s.world = answered.world from funext fun q => (hmatches q).data]
    exact answered_inTables
  have hlog : (s 1).net.data.lcb.log = [.broadcast 1, .deliver 1 1, .deliver 2 1] := by
    rw [(hmatches 1).data]
    decide +kernel
  have hwhole : [.broadcast 1, .deliver 1 1, .deliver 2 1] <+: (s 1).net.data.lcb.log := by
    rw [hlog]
  obtain ⟨check, hcheck, -, hnext⟩ := stack_output_accepted hs hin (p := 1) (by decide) hwhole
  exact ⟨s, hs, hlog, check, hcheck, hnext 2⟩

end CausalBroadcast
