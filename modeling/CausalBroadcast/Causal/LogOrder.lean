import CausalBroadcast.Causal.Fifo

/-!
# The broadcast line and the carried clock

The main thread copies the clock and writes `b i` later; the receiver thread
counts a delivery and writes `d q k` later.  A message that is counted after the
copy can be logged before `b i`, and then the log shows more deliveries from `q`
before `b i` than message `i` carries.

`LinesInTime` excludes exactly that step: a line `d q k` of a listed `q` that is
written between the copy and `b i` must belong to a delivery counted before the
copy.  In the runs all of whose steps meet it, log and clocks agree.
-/

namespace CausalBroadcast

/-- The number of lines `d q k` in a log. -/
def deliverLines (q : ℕ) (log : List LogLine) : ℕ :=
  log.countP fun
    | .deliver pid _ => pid = q
    | .broadcast _ => false

@[simp] theorem deliverLines_nil (q : ℕ) : deliverLines q [] = 0 := rfl

@[simp] theorem deliverLines_concat_broadcast (q i : ℕ) (log : List LogLine) :
    deliverLines q (log ++ [.broadcast i]) = deliverLines q log := by
  simp [deliverLines]

@[simp] theorem deliverLines_concat_deliver (q pid seq : ℕ) (log : List LogLine) :
    deliverLines q (log ++ [.deliver pid seq]) =
      deliverLines q log + if pid = q then 1 else 0 := by
  simp [deliverLines, List.countP_append, List.countP_singleton]

/-- Before the line `b i` of `p`, the log has at most as many lines `d q k`, for a
listed `q` other than `p`, as the clock of message `i` says. -/
def LogAgrees (cfg : Membership) (s : LcbSystem) : Prop :=
  ∀ p, cfg.IsPid p → ∀ i pre, pre ++ [.broadcast i] <+: (s.process p).data.log →
    ∀ msg past, (s.process p).copies[i - 1]? = some (msg, past) →
      ∀ q ∈ cfg.deps p, q ≠ p → deliverLines q pre ≤ entry msg.vecClock q

/-- A line `d q k` of a listed process that is written between the clock copy and
the line `b i` has a number `k` that the copy has reached. -/
def LinesInTime (cfg : Membership) (s t : LcbSystem) : Prop :=
  ∀ p, cfg.IsPid p → ∀ i msg, (s.process p).main = .copied i msg →
    ∀ other seq site, (s.process p).receiver = .logging other seq site →
      (t.process p).receiver ≠ .logging other seq site →
      other.originalSender ∈ cfg.deps p → other.originalSender ≠ p →
      seq ≤ entry msg.vecClock other.originalSender

/-! ## The invariant -/

/-- The lines `d q k` that are still to be written: one while the receiver thread
stands between the counting and the line. -/
def unwritten (q : ℕ) : Receiver → ℕ
  | .logging msg _ _ => if msg.originalSender = q then 1 else 0
  | _ => 0

theorem Receiver.Quiet.unwritten {receiver : Receiver} (h : receiver.Quiet) (q : ℕ) :
    unwritten q receiver = 0 := by
  cases receiver with
  | logging msg seq site => exact h.elim
  | _ => rfl

/-- How far the main thread is with its message. -/
def LogMain (cfg : Membership) (p : ℕ) (P : LcbProcess) : MainThread → Prop
  | .ready i => P.copies.length + 1 = i
  | .copied i msg => P.copies.length = i ∧ (∃ past, P.copies[i - 1]? = some (msg, past)) ∧
      1 ≤ i ∧ ∀ q ∈ cfg.deps p, q ≠ p → deliverLines q P.data.log ≤ entry msg.vecClock q
  | .logged i _ => P.copies.length = i

/-- The log of a process. -/
structure LogInv (cfg : Membership) (p : ℕ) (P : LcbProcess) : Prop where
  lines : ∀ q, deliverLines q P.data.log + unwritten q P.receiver =
    (fromSender q P.data.delivered).length
  main : LogMain cfg p P P.main
  broadcast : ∀ i, .broadcast i ∈ P.data.log → 1 ≤ i ∧ i ≤ P.copies.length
  agrees : ∀ i pre, pre ++ [.broadcast i] <+: P.data.log → ∀ msg past,
    P.copies[i - 1]? = some (msg, past) →
      ∀ q ∈ cfg.deps p, q ≠ p → deliverLines q pre ≤ entry msg.vecClock q

section Step

variable {cfg : Membership} {s t : LcbSystem} {p : ℕ} {P P' : LcbProcess}

/-- A step that writes nothing. -/
theorem LogInv.keep (h : LogInv cfg p P) (hlog : P'.data.log = P.data.log)
    (hcopies : P'.copies = P.copies) (hmain : P'.main = P.main)
    (hlines : ∀ q, deliverLines q P'.data.log + unwritten q P'.receiver =
      (fromSender q P'.data.delivered).length) : LogInv cfg p P' where
  lines := hlines
  main := by
    have := h.main
    rw [hmain]
    unfold LogMain at *
    rwa [hlog, hcopies]
  broadcast := by
    rw [hlog, hcopies]
    exact h.broadcast
  agrees := by
    rw [hlog, hcopies]
    exact h.agrees

/-- The receiver thread writes the line of the message it has counted. -/
theorem LogInv.write {broadcast : List LcbMsg} (h : LogInv cfg p P)
    (hP : ProcessInv cfg broadcast p P) (hbroadcast : BroadcastInv cfg broadcast) {msg : LcbMsg}
    {seq : ℕ} {site : Site} (hreceiver : P.receiver = .logging msg seq site)
    (hlog : P'.data.log = P.data.log ++ [.deliver msg.originalSender seq])
    (hdelivered : P'.data.delivered = P.data.delivered) (hcopies : P'.copies = P.copies)
    (hmain : P'.main = P.main) (hwritten : ∀ q, unwritten q P'.receiver = 0)
    (hintime : ∀ i own, P.main = .copied i own → msg.originalSender ∈ cfg.deps p →
      msg.originalSender ≠ p → seq ≤ entry own.vecClock msg.originalSender) :
    LogInv cfg p P' := by
  have hheld := hP.receiver
  rw [hreceiver] at hheld
  obtain ⟨⟨pre, hpre⟩, hseq⟩ := hheld
  have hpid : cfg.IsPid msg.originalSender :=
    (hP.fits hbroadcast (hP.delivered_subset (hpre ▸ by simp))).isPid
  have hlines : ∀ q, deliverLines q P'.data.log = (fromSender q P.data.delivered).length := by
    intro q
    have := h.lines q
    rw [hreceiver] at this
    rw [hlog, deliverLines_concat_deliver]
    exact this
  refine ⟨fun q => by rw [hlines, hwritten, hdelivered, Nat.add_zero], ?_, ?_, ?_⟩
  · have hold := h.main
    rw [hmain]
    cases hcase : P.main with
    | ready i =>
        rw [hcase] at hold
        exact (congrArg (List.length · + 1) hcopies).trans hold
    | logged i own =>
        rw [hcase] at hold
        exact (congrArg List.length hcopies).trans hold
    -- The line of broadcast `i` is still to come: a line that is written first must be one that
    -- the copy counts.
    | copied i own =>
        rw [hcase] at hold
        obtain ⟨hlength, hcopy, hpos, hle⟩ := hold
        refine ⟨hcopies ▸ hlength, hcopies ▸ hcopy, hpos, fun q hq hne => ?_⟩
        by_cases hsender : msg.originalSender = q
        · rw [hlines, ← hsender, ← hP.clock _ hpid, ← hseq]
          exact hintime i own hcase (hsender ▸ hq) (hsender ▸ hne)
        · rw [hlog, deliverLines_concat_deliver, if_neg hsender, Nat.add_zero]
          exact hle q hq hne
  · intro i hi
    rw [hlog] at hi
    rw [hcopies]
    exact h.broadcast i (by simpa using hi)
  · intro i pre hpref
    rw [hlog] at hpref
    rw [hcopies]
    refine h.agrees i pre ?_
    rcases List.prefix_concat_iff.mp hpref with heq | hpref
    · exact absurd (List.append_inj' heq rfl).2 (by simp)
    · exact hpref

theorem LogInv.receive {broadcast : List LcbMsg} (h : LogInv cfg p P)
    (hP : ProcessInv cfg broadcast p P) (hbroadcast : BroadcastInv cfg broadcast)
    (heffect : ReceiveEffect cfg P P')
    (hintime : ∀ i own, P.main = .copied i own → ∀ msg seq site,
      P.receiver = .logging msg seq site → P'.receiver ≠ .logging msg seq site →
      msg.originalSender ∈ cfg.deps p → msg.originalSender ≠ p →
      seq ≤ entry own.vecClock msg.originalSender) : LogInv cfg p P' := by
  have hlines := h.lines
  cases heffect with
  | accept hreceiver hready =>
      exact h.keep rfl rfl rfl fun q => by simpa [hreceiver, unwritten] using hlines q
  | park hreceiver hready =>
      exact h.keep rfl rfl rfl fun q => by simpa [hreceiver, unwritten] using hlines q
  -- The counted message has no line yet, and `unwritten` says so.
  | count hreceiver =>
      refine h.keep rfl rfl rfl fun q => ?_
      rw [length_fromSender_concat, ← hlines q, hreceiver]
      rfl
  | write hreceiver =>
      exact h.write hP hbroadcast hreceiver rfl rfl rfl rfl (fun _ => rfl)
        fun i own hmain => hintime i own hmain _ _ _ hreceiver nofun
  | fail hreceiver =>
      exact h.write hP hbroadcast hreceiver rfl rfl rfl rfl (fun _ => rfl)
        fun i own hmain => hintime i own hmain _ _ _ hreceiver nofun
  | removeNext hreceiver =>
      exact h.write hP hbroadcast hreceiver rfl rfl rfl rfl (fun _ => rfl)
        fun i own hmain => hintime i own hmain _ _ _ hreceiver nofun
  | turn hreceiver hquiet =>
      refine h.keep rfl rfl rfl fun q => ?_
      have hbefore : unwritten q P.receiver = 0 := by
        rcases hreceiver with hreceiver | ⟨i, foundOne, hreceiver⟩ <;> rw [hreceiver] <;> rfl
      have hafter := hquiet.unwritten q
      rw [← hlines q, hbefore]
      exact congrArg _ hafter
  | find hreceiver hwaiting hready =>
      exact h.keep rfl rfl rfl fun q => by simpa [hreceiver, unwritten] using hlines q
  | stay => exact h
  | lose hreceiver =>
      exact h.keep rfl rfl rfl fun q => by simpa [hreceiver, unwritten] using hlines q

/-- The main thread copies the clock. -/
theorem LogInv.copy {broadcast : List LcbMsg} (h : LogInv cfg p P)
    (hP : ProcessInv cfg broadcast p P) {i : ℕ} {msg : LcbMsg} (hmain : P.main = .ready i)
    (hmsg : ∀ q, cfg.IsPid q → q ≠ p → entry msg.vecClock q = entry P.data.vectorClock q) :
    LogInv cfg p { P with
      main := .copied i msg
      copies := P.copies ++ [(msg, P.data.delivered)] } := by
  have hlength := h.main
  rw [hmain] at hlength
  have hlength : P.copies.length + 1 = i := hlength
  refine ⟨h.lines, ⟨by simpa using hlength, ⟨P.data.delivered, ?_⟩, by omega, fun q hq hne => ?_⟩,
    fun j hj => ?_, fun j pre hpref other past hcopy => ?_⟩
  · rw [← hlength]
    simp
  · have hpid := Membership.isPid_of_mem_deps hq
    rw [hmsg q hpid hne, hP.clock q hpid, ← h.lines q]
    exact Nat.le_add_right ..
  · have := h.broadcast j hj
    simp only [List.length_append, List.length_singleton]
    omega
  · -- a line that is already there belongs to an earlier message
    have hj := h.broadcast j (hpref.subset (by simp))
    rw [List.getElem?_append_left (by omega)] at hcopy
    exact h.agrees j pre hpref other past hcopy

/-- The main thread writes the line `b i`. -/
theorem LogInv.logBroadcast (h : LogInv cfg p P) {i : ℕ} {msg : LcbMsg}
    (hmain : P.main = .copied i msg) : LogInv cfg p { P with
      data := { P.data with log := P.data.log ++ [.broadcast i] }
      main := .logged i msg } := by
  have hold := h.main
  rw [hmain] at hold
  obtain ⟨hlength, ⟨past, hcopy⟩, hpos, hle⟩ := hold
  refine ⟨fun q => by simpa using h.lines q, hlength, fun j hj => ?_,
    fun j pre hpref other past' hcopy' => ?_⟩
  · rcases List.mem_append.mp hj with hj | hj
    · exact h.broadcast j hj
    · obtain rfl : j = i := by simpa using hj
      exact ⟨hpos, hlength.ge⟩
  · rcases List.prefix_concat_iff.mp hpref with heq | hpref
    · obtain ⟨rfl, hline⟩ := List.append_inj' heq rfl
      obtain rfl : j = i := by simpa using hline
      obtain ⟨rfl, -⟩ : other = msg ∧ past' = past := by simpa using hcopy'.symm.trans hcopy
      exact hle
    · exact h.agrees j pre hpref other past' hcopy'

theorem LogInv.step (hinv : LcbInv cfg s) (hp : cfg.IsPid p)
    (h : ∀ q, cfg.IsPid q → LogInv cfg q (s.process q)) {action : LcbAction}
    (hstep : LcbStep s p action t) (hintime : LinesInTime cfg s t) :
    ∀ q, cfg.IsPid q → LogInv cfg q (t.process q) := by
  have hP := hinv.process p hp
  have hset : ∀ {P' : LcbProcess}, LogInv cfg p P' →
      ∀ q, cfg.IsPid q → LogInv cfg q ((s.set p P').process q) :=
    fun hP' => LcbSystem.forall_set h hP'
  cases hstep with
  | @copy i msg data hdefined hmain hi hcall =>
      rw [nextLcbMsg_eq hP.wellFormed hp] at hcall
      obtain ⟨rfl, rfl⟩ := Outcome.ok.inj hcall
      refine hset ((h p hp).copy hP hmain fun q hq hne => ?_)
      rw [entry_set _ hp.1 (hP.wellFormed.vectorClock ▸ hp.2) hq.1, if_neg hne]
  | @logBroadcast i msg data hdefined hmain hcall =>
      obtain ⟨-, rfl⟩ := Outcome.ok.inj hcall
      exact hset ((h p hp).logBroadcast hmain)
  | @send i msg hdefined hmain =>
      have hlength := (h p hp).main
      rw [hmain] at hlength
      exact hset ⟨(h p hp).lines, congrArg (· + 1) hlength, (h p hp).broadcast, (h p hp).agrees⟩
  | @hand msg hidle hmem hnew =>
      refine hset ⟨fun q => ?_, (h p hp).main, (h p hp).broadcast, (h p hp).agrees⟩
      have := (h p hp).lines q
      rw [hidle] at this
      exact this
  | receive hdefined =>
      refine hset ((h p hp).receive hP hinv.broadcast (receive_effect hinv.broadcast hP)
        fun i own hmain msg seq site hreceiver hleft => ?_)
      refine hintime p hp i own hmain msg seq site hreceiver ?_
      rwa [LcbSystem.set_process_self]

end Step

/-- The logs and the clocks in a run whose delivery lines are written in time. -/
theorem logInv_of_linesInTime {cfg : Membership} {s : LcbSystem}
    (hs : ((lcbSystem cfg).restrict (LinesInTime cfg)).Reachable s) :
    ∀ p, cfg.IsPid p → LogInv cfg p (s.process p) := by
  refine hs.invariant (I := fun s => ∀ p, cfg.IsPid p → LogInv cfg p (s.process p)) ?_ ?_
  · rintro s rfl p _
    exact ⟨fun q => rfl, rfl, fun i hi => absurd hi List.not_mem_nil,
      fun i pre hpref => absurd (List.prefix_nil.mp hpref) (by simp)⟩
  · rintro s t hs h ⟨⟨p, action, hp, hstep⟩, hintime⟩
    exact LogInv.step (lcbInv_of_reachable hs.of_restrict) hp h hstep hintime

/-- In a run whose delivery lines are all written in time, the log and the carried
clocks agree. -/
theorem logAgrees_of_linesInTime {cfg : Membership} {s : LcbSystem}
    (hs : ((lcbSystem cfg).restrict (LinesInTime cfg)).Reachable s) : LogAgrees cfg s :=
  fun p hp => (logInv_of_linesInTime hs p hp).agrees

/-! ## A line that is written in time -/

section Runs

variable {cfg : Membership} {p q : ℕ}

theorem linesInTime_of_idle {s : LcbSystem} (h : ∀ p, (s.process p).receiver = .idle)
    (t : LcbSystem) : LinesInTime cfg s t := by
  intro p _ i msg _ other seq site hreceiver
  rw [h p] at hreceiver
  cases hreceiver

theorem linesInTime_of_ready {s : LcbSystem} (h : ∀ p, ∃ i, (s.process p).main = .ready i)
    (t : LcbSystem) : LinesInTime cfg s t := by
  intro p _ i msg hmain
  obtain ⟨j, hready⟩ := h p
  rw [hready] at hmain
  cases hmain

/-- `p` has counted the first message of `q`. -/
def countedFirst (cfg : Membership) (p q : ℕ) : LcbProcess :=
  (LcbProcess.initial cfg p).afterCount (earlyMsg cfg q 1)

/-- The message for which `p` copies its clock then. -/
def carryingMsg (cfg : Membership) (p q : ℕ) : LcbMsg := (countedFirst cfg p q).next p 1

/-- `p` has copied its clock, and the line of the delivery is still to be written. -/
def copiedSecond (cfg : Membership) (p q : ℕ) : LcbProcess :=
  { countedFirst cfg p q with
    main := .copied 1 (carryingMsg cfg p q)
    copies := [(carryingMsg cfg p q, [earlyMsg cfg q 1])] }

theorem entry_carryingMsg (hp : cfg.IsPid p) (hq : cfg.IsPid q) (hpq : p ≠ q) :
    entry (carryingMsg cfg p q).vecClock q = 1 := by
  have hlength : ∀ {r}, cfg.IsPid r → r ≤ (List.replicate cfg.numProc 0).length := by
    intro r hr
    rw [List.length_replicate]
    exact hr.2
  show entry ((bump (List.replicate cfg.numProc 0) q).set (p - 1) 0) q = 1
  rw [entry_set 0 hp.1 (by rw [length_bump]; exact hlength hp) hq.1, if_neg (Ne.symm hpq),
    entry_bump hq.1 (hlength hq) hq.1, if_pos rfl, entry_replicate_zero]
  rfl

/-- `p` counts the first message of `q`, copies its clock, writes the line of the delivery
and then `b 1`. -/
theorem reachable_inTime (cfg : Membership) (hp : cfg.IsPid p) (hq : cfg.IsPid q) (hpq : p ≠ q) :
    ∃ s, ((lcbSystem cfg).restrict (LinesInTime cfg)).Reachable s ∧
      (s.process p).data.log = [.deliver q 1, .broadcast 1] ∧
      (s.process p).copies = [(carryingMsg cfg p q, [earlyMsg cfg q 1])] := by
  have hsent : ((lcbSystem cfg).restrict (LinesInTime cfg)).Reachable
      ((LcbSystem.initial cfg).sendLcb q 1) :=
    Reachable.sendLcb_allowed (.init rfl) hq rfl rfl (by norm_num) fun u t hsame =>
      linesInTime_of_idle hsame t
  have hprocess : ((LcbSystem.initial cfg).sendLcb q 1).process p = LcbProcess.initial cfg p :=
    LcbSystem.sendLcb_process_of_ne _ _ hpq
  have hbroadcast : ((LcbSystem.initial cfg).sendLcb q 1).broadcast = [earlyMsg cfg q 1] := rfl
  have hothers : ∀ r, ∃ i, (((LcbSystem.initial cfg).sendLcb q 1).process r).main = .ready i := by
    intro r
    by_cases hr : r = q
    · rw [hr, LcbSystem.sendLcb_process_self]
      exact ⟨2, rfl⟩
    · rw [LcbSystem.sendLcb_process_of_ne _ _ hr]
      exact ⟨1, rfl⟩
  set sent := (LcbSystem.initial cfg).sendLcb q 1
  -- the message is counted
  have hcounted : ((lcbSystem cfg).restrict (LinesInTime cfg)).Reachable
      (sent.set p (countedFirst cfg p q)) := by
    have hcount := Reachable.count_allowed (earlyMsg cfg q 1) hsent hp (by rw [hprocess]; rfl)
      (by rw [hbroadcast]; exact List.mem_cons_self) (by rw [hprocess]; exact List.not_mem_nil)
      (by rw [hprocess]; exact ready_first hq _) fun u t hsame =>
        linesInTime_of_ready (fun r => (hothers r).imp fun i hi => (hsame r).trans hi) t
    rwa [hprocess] at hcount
  have hcountedReady : ∀ r, ∃ i,
      ((sent.set p (countedFirst cfg p q)).process r).main = .ready i := by
    intro r
    by_cases hr : r = p
    · rw [hr, LcbSystem.set_process_self]
      exact ⟨1, rfl⟩
    · rw [LcbSystem.set_process_of_ne _ _ hr]
      exact hothers r
  -- the clock is copied
  have hcopied : ((lcbSystem cfg).restrict (LinesInTime cfg)).Reachable
      (sent.set p (copiedSecond cfg p q)) := by
    have hwf := ((lcbInv_of_reachable hcounted.of_restrict).process p hp).wellFormed
    have hcall := nextLcbMsg_eq hwf hp 1
    rw [LcbSystem.set_process_self] at hcall
    have hdefined : (countedFirst cfg p q).receiver ≠ .undefined := fun h => by cases h
    have hstep := LcbStep.copy (s := sent.set p (countedFirst cfg p q)) (p := p) (i := 1)
      (by rwa [LcbSystem.set_process_self]) (by rw [LcbSystem.set_process_self]; rfl)
      (by norm_num) (by rw [LcbSystem.set_process_self]; exact hcall)
    rw [LcbSystem.set_set, LcbSystem.set_process_self] at hstep
    exact hcounted.step ⟨⟨p, _, hp, hstep⟩, linesInTime_of_ready hcountedReady _⟩
  -- the line of the delivery is written, with a number that the copy has reached
  have hwritten : ((lcbSystem cfg).restrict (LinesInTime cfg)).Reachable
      (sent.set p (copiedSecond cfg p q).receive) := by
    have hdefined : (copiedSecond cfg p q).receiver ≠ .undefined := fun h => by cases h
    have hstep := LcbStep.receive (s := sent.set p (copiedSecond cfg p q)) (p := p)
      (by rwa [LcbSystem.set_process_self])
    rw [LcbSystem.set_set, LcbSystem.set_process_self] at hstep
    refine hcopied.step ⟨⟨p, _, hp, hstep⟩, ?_⟩
    intro r _ i msg hmain other seq site hreceiver _ _ _
    by_cases hr : r = p
    · subst hr
      rw [LcbSystem.set_process_self] at hmain hreceiver
      obtain ⟨rfl, rfl⟩ := MainThread.copied.inj hmain
      obtain ⟨rfl, rfl, rfl⟩ := Receiver.logging.inj hreceiver
      show u32 (entry (List.replicate cfg.numProc 0) q + 1) ≤ entry (carryingMsg cfg r q).vecClock q
      rw [entry_carryingMsg hp hq hpq, entry_replicate_zero]
      decide
    · rw [LcbSystem.set_process_of_ne _ _ hr] at hmain
      obtain ⟨j, hready⟩ := hothers r
      rw [hready] at hmain
      cases hmain
  -- the line `b 1` is written
  have hreceive : (copiedSecond cfg p q).receive =
      { copiedSecond cfg p q with
        data := { (copiedSecond cfg p q).data with log := [.deliver q 1] }
        receiver := .calling } := by
    have hseq : u32 (entry (List.replicate cfg.numProc 0) q + 1) = 1 := by
      rw [entry_replicate_zero]
      rfl
    simp [LcbProcess.receive, receiverNext, receiverStep, logDeliverLcb, copiedSecond,
      countedFirst, LcbProcess.afterCount, LcbProcess.initial, Lcb.initial, earlyMsg, hseq]
  have hdefined : (copiedSecond cfg p q).receive.receiver ≠ .undefined := by
    rw [hreceive]
    exact fun h => by cases h
  have hstep := @LcbStep.logBroadcast (sent.set p (copiedSecond cfg p q).receive) p 1
    (carryingMsg cfg p q) _ (by rwa [LcbSystem.set_process_self])
    (by rw [LcbSystem.set_process_self, hreceive]; rfl) rfl
  rw [LcbSystem.set_set, LcbSystem.set_process_self] at hstep
  refine ⟨_, hwritten.step ⟨⟨p, _, hp, hstep⟩, ?_⟩, ?_, ?_⟩
  · intro r _ i msg hmain other seq site hreceiver _ _ _
    by_cases hr : r = p
    · rw [hr, LcbSystem.set_process_self, hreceive] at hreceiver
      cases hreceiver
    · rw [LcbSystem.set_process_of_ne _ _ hr] at hmain
      obtain ⟨j, hready⟩ := hothers r
      rw [hready] at hmain
      cases hmain
  · rw [LcbSystem.set_process_self, hreceive]
    rfl
  · rw [LcbSystem.set_process_self, hreceive]
    rfl

/-- In the configuration of `test_correctness.sh` the line `d 2 1` stands between the copy and
`b 1`, and message `1` of process `1` carries `1` for process `2`. -/
theorem testMembership_inTime : ∃ s,
    ((lcbSystem testMembership).restrict (LinesInTime testMembership)).Reachable s ∧
    (s.process 1).data.log = [.deliver 2 1, .broadcast 1] ∧
    (s.process 1).copies = [(⟨[0, 1, 0, 0, 0], 1⟩, [⟨[0, 0, 0, 0, 0], 2⟩])] ∧
    LogAgrees testMembership s := by
  obtain ⟨s, hs, hlog, hcopies⟩ := reachable_inTime testMembership (p := 1) (q := 2)
    (by decide) (by decide) (by decide)
  exact ⟨s, hs, hlog, hcopies, logAgrees_of_linesInTime hs⟩

/-! ## A line that is not written in time -/

/-- `p` has copied its clock for its first message. -/
def copiedFirst (cfg : Membership) (p : ℕ) : LcbProcess :=
  { LcbProcess.initial cfg p with
    main := .copied 1 (earlyMsg cfg p 1)
    copies := [(earlyMsg cfg p 1, [])] }

theorem nextLcbMsg_initial (hp : cfg.IsPid p) (i : ℕ) :
    nextLcbMsg i (Lcb.initial cfg p) = .ok (earlyMsg cfg p i) (Lcb.initial cfg p) :=
  nextLcbMsg_eq (Lcb.initial_wellFormed cfg p) hp i

/-- `p` has copied its clock, then delivered the first message of `q`, then written `b 1`. -/
def loggedLate (cfg : Membership) (p q : ℕ) : LcbProcess :=
  { (copiedFirst cfg p).afterDeliver (earlyMsg cfg q 1) with
    data := { ((copiedFirst cfg p).afterDeliver (earlyMsg cfg q 1)).data with
      log := ((copiedFirst cfg p).afterDeliver (earlyMsg cfg q 1)).data.log ++ [.broadcast 1] }
    main := .logged 1 (earlyMsg cfg p 1) }

theorem log_loggedLate (cfg : Membership) (p q : ℕ) :
    (loggedLate cfg p q).data.log = [.deliver q 1, .broadcast 1] := by
  simp [loggedLate, LcbProcess.afterDeliver, Lcb.deliver, copiedFirst, LcbProcess.initial,
    Lcb.initial, earlyMsg, entry_replicate_zero, u32]

/-- `p` copies its clock, delivers the first message of `q` and writes `b 1`. -/
theorem reachable_loggedLate (cfg : Membership) {p q : ℕ} (hp : cfg.IsPid p) (hq : cfg.IsPid q)
    (hpq : p ≠ q) : (lcbSystem cfg).Reachable
      (((LcbSystem.initial cfg).sendLcb q 1).set p (loggedLate cfg p q)) := by
  have hsent : (lcbSystem cfg).Reachable ((LcbSystem.initial cfg).sendLcb q 1) :=
    Reachable.sendLcb (.init rfl) hq rfl rfl (by norm_num)
  have hprocess : ((LcbSystem.initial cfg).sendLcb q 1).process p = LcbProcess.initial cfg p :=
    LcbSystem.sendLcb_process_of_ne _ _ hpq
  have hbroadcast : ((LcbSystem.initial cfg).sendLcb q 1).broadcast = [earlyMsg cfg q 1] := rfl
  set sent := (LcbSystem.initial cfg).sendLcb q 1
  -- the clock copy
  have hcopied : (lcbSystem cfg).Reachable (sent.set p (copiedFirst cfg p)) := by
    have hstep := LcbStep.copy (s := sent) (p := p) (i := 1)
      (by rw [hprocess]; exact fun h => by cases h)
      (by rw [hprocess]; rfl) (by norm_num)
      (by rw [hprocess]; exact nextLcbMsg_initial hp 1)
    rw [hprocess] at hstep
    exact hsent.step ⟨p, _, hp, hstep⟩
  -- the delivery and its line
  have hdelivered := Reachable.deliver (earlyMsg cfg q 1) hcopied hp
    (by rw [LcbSystem.set_process_self]; rfl) (by rw [LcbSystem.set_broadcast, hbroadcast]; simp)
    (by rw [LcbSystem.set_process_self]; exact List.not_mem_nil)
    (by rw [LcbSystem.set_process_self]; exact ready_first hq _)
    (by rw [LcbSystem.set_process_self]; exact noPending_initial cfg p)
  rw [LcbSystem.set_set, LcbSystem.set_process_self] at hdelivered
  -- the line `b 1`
  have hstep := @LcbStep.logBroadcast
    (sent.set p ((copiedFirst cfg p).afterDeliver (earlyMsg cfg q 1))) p 1 (earlyMsg cfg p 1) _
    (by rw [LcbSystem.set_process_self]; exact fun h => by cases h)
    (by rw [LcbSystem.set_process_self]; rfl) rfl
  rw [LcbSystem.set_set, LcbSystem.set_process_self] at hstep
  exact hdelivered.step ⟨p, _, hp, hstep⟩

/-- In the configuration of `test_correctness.sh`, the log of process `1` shows a
delivery from process `2` before `b 1` that its first message does not carry. -/
theorem testMembership_late : ∃ s, (lcbSystem testMembership).Reachable s ∧
    (s.process 1).data.log = [.deliver 2 1, .broadcast 1] ∧
    (s.process 1).copies = [(⟨[0, 0, 0, 0, 0], 1⟩, [])] ∧ ¬ LogAgrees testMembership s := by
  have hs := reachable_loggedLate testMembership (p := 1) (q := 2) (by decide) (by decide)
    (by decide)
  have hprocess : (((LcbSystem.initial testMembership).sendLcb 2 1).set 1
      (loggedLate testMembership 1 2)).process 1 = loggedLate testMembership 1 2 :=
    LcbSystem.set_process_self ..
  have hlog := log_loggedLate testMembership 1 2
  refine ⟨_, hs, by rw [hprocess, hlog], by rw [hprocess]; rfl, fun hagrees => ?_⟩
  have hle := hagrees 1 (by decide) 1 [.deliver 2 1] (by rw [hprocess, hlog]; exact List.prefix_refl _)
    (earlyMsg testMembership 1 1) [] (by rw [hprocess]; rfl) 2 (by decide) (by decide)
  exact absurd hle (by decide)

end Runs

end CausalBroadcast
