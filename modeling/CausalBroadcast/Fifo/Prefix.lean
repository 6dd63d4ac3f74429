import CausalBroadcast.Model.Fifo
import Mathlib.Order.Bounds.Basic

/-!
# FIFO delivery logs a prefix

Three things count the deliveries of an origin `q`: the next table, the flags of
the pending table and the number that the loop of `deliver_fifo` carries along.
`FifoInv` ties them to the messages received so far.  A flag below the count means
nothing, so a message that comes again does no harm.

Between calls the first number after the count has not been received.  The loop
starts only when the message at hand has that number, and then the number it
carries along is the one of `next_idx`.
-/

namespace CausalBroadcast

/-- The lines for deliveries from `q`. -/
def linesOf (q : ℕ) (log : List LogLine) : List LogLine :=
  log.filter fun
    | .deliver pid _ => pid = q
    | .broadcast _ => false

/-- The lines `d q 1` to `d q k`. -/
def numberedLines (q k : ℕ) : List LogLine := (List.range k).map fun i => .deliver q (i + 1)

/-- A sequence of calls of `deliver_fifo`. -/
def runFifo (rounds : ℕ) : List FifoMsg → FifoCall Unit
  | [] => pure ()
  | msg :: msgs => do
      deliverFifo rounds msg
      runFifo rounds msgs

/-- The message has an origin and a number, and its id lies in the table and is not
refused. -/
structure Admitted (cfg : Membership) (total : ℕ) (msg : FifoMsg) : Prop where
  isPid : cfg.IsPid msg.originalSender
  pos : 1 ≤ msg.sequenceNum
  lt : seenIdOf cfg.numProc msg.sequenceNum msg.originalSender < total
  le : seenIdOf cfg.numProc msg.sequenceNum msg.originalSender ≤ maxSizePending

/-- `msgs` are the messages received, of which `delivered q` of each origin `q` have
been delivered. -/
structure FifoInv (cfg : Membership) (total : ℕ) (msgs : List FifoMsg) (delivered : ℕ → ℕ)
    (data : FifoData) : Prop where
  numProc : data.numProc = cfg.numProc
  noProcess : data.next.noProcess = cfg.numProc
  length : data.next.entries.length = cfg.numProc
  totalEntries : data.pending.totalEntries = total
  admitted : ∀ msg ∈ msgs, Admitted cfg total msg
  next : ∀ q, cfg.IsPid q → entry data.next.entries q = delivered q
  received : ∀ q, cfg.IsPid q → ∀ i, 1 ≤ i → i ≤ delivered q → ⟨i, q⟩ ∈ msgs
  flags : ∀ q, cfg.IsPid q → ∀ i, delivered q < i → seenIdOf cfg.numProc i q < total →
    (data.pending.bol (seenIdOf cfg.numProc i q) = 1 ↔ ⟨i, q⟩ ∈ msgs)
  lines : ∀ q, cfg.IsPid q → linesOf q data.log = numberedLines q (delivered q)

theorem linesOf_concat (q pid seq : ℕ) (log : List LogLine) :
    linesOf q (log ++ [.deliver pid seq]) =
      if pid = q then linesOf q log ++ [.deliver pid seq] else linesOf q log := by
  by_cases hpid : pid = q <;> simp [linesOf, hpid]

theorem numberedLines_succ (q k : ℕ) :
    numberedLines q (k + 1) = numberedLines q k ++ [.deliver q (k + 1)] := by
  simp [numberedLines, List.range_succ]

theorem fifoInv_initial (cfg : Membership) (noMsgs : ℕ) :
    FifoInv cfg (u32 (noMsgs * cfg.numProc)) [] (fun _ => 0) (FifoData.initial cfg noMsgs) where
  numProc := rfl
  noProcess := rfl
  length := List.length_replicate
  totalEntries := rfl
  admitted := by simp
  next := fun q _ => entry_replicate_zero _ q
  received := fun _ _ i hpos hle => absurd hle (by omega)
  flags := fun _ _ _ _ _ => iff_of_false zero_ne_one List.not_mem_nil
  lines := fun _ _ => rfl

section Loop

variable {cfg : Membership} {total : ℕ} {msgs : List FifoMsg} {delivered : ℕ → ℕ}
  {data : FifoData} {q : ℕ}

/-- A number that has been received is small. -/
theorem Admitted.number_le {msg : FifoMsg} (h : Admitted cfg total msg) :
    msg.sequenceNum ≤ maxSizePending + 1 := by
  have hpid := h.isPid
  have hle := h.le
  have hmul : msg.sequenceNum - 1 ≤ cfg.numProc * (msg.sequenceNum - 1) :=
    Nat.le_mul_of_pos_left _ cfg.numProc_pos
  have hpos := hpid.1
  unfold seenIdOf at hle
  omega

namespace FifoInv

theorem delivered_le (hinv : FifoInv cfg total msgs delivered data) (hq : cfg.IsPid q) :
    delivered q ≤ maxSizePending + 1 := by
  by_cases hzero : delivered q = 0
  · omega
  · exact (hinv.admitted _ (hinv.received q hq _ (by omega) le_rfl)).number_le

/-- The id of the next message is not truncated. -/
theorem nextId_eq (hinv : FifoInv cfg total msgs delivered data) (hq : cfg.IsPid q) :
    fifoId data.numProc (delivered q + 1) q = seenIdOf cfg.numProc (delivered q + 1) q := by
  have hle := hinv.delivered_le hq
  have hnum := cfg.numProc_lt
  have hpid := hq
  rw [hinv.numProc]
  refine fifoId_eq (by omega) hq.1 (by unfold maxSizePending at hle; omega) ?_
  by_cases hzero : delivered q = 0
  · rw [hzero]
    unfold seenIdOf
    have := hpid.2
    rw [Nat.zero_add, Nat.sub_self, Nat.mul_zero]
    omega
  · have hlast : seenIdOf cfg.numProc (delivered q) q ≤ maxSizePending :=
      (hinv.admitted _ (hinv.received q hq _ (by omega) le_rfl)).le
    have hmul : cfg.numProc * (delivered q + 1 - 1) =
        cfg.numProc * (delivered q - 1) + cfg.numProc := by
      rw [← Nat.mul_succ]
      congr 1
      omega
    unfold seenIdOf maxSizePending at *
    omega

/-- The loop goes on exactly when the next message has been received. -/
theorem getPending_next (hinv : FifoInv cfg total msgs delivered data) (hq : cfg.IsPid q) :
    getPending data.pending (fifoId data.numProc (delivered q + 1) q) = 1 ↔
      ⟨delivered q + 1, q⟩ ∈ msgs := by
  rw [hinv.nextId_eq hq, getPending, hinv.totalEntries]
  by_cases hsize : total ≤ seenIdOf cfg.numProc (delivered q + 1) q
  · rw [if_pos hsize]
    exact iff_of_false zero_ne_one fun hmem => absurd (hinv.admitted _ hmem).lt (not_lt.mpr hsize)
  · rw [if_neg hsize]
    exact hinv.flags q hq _ (Nat.lt_succ_self _) (not_le.mp hsize)

/-- One message more is received. -/
theorem receive (hinv : FifoInv cfg total msgs delivered data) {msg : FifoMsg}
    (hmsg : Admitted cfg total msg) :
    FifoInv cfg total (msgs ++ [msg]) delivered { data with
      pending := data.pending.set
        (seenIdOf cfg.numProc msg.sequenceNum msg.originalSender) 1 } :=
  { hinv with
    admitted := by
      intro other hmem
      rcases List.mem_append.mp hmem with hmem | hmem
      · exact hinv.admitted other hmem
      · exact List.mem_singleton.mp hmem ▸ hmsg
    received := fun r hr i hpos hle => List.mem_append_left _ (hinv.received r hr i hpos hle)
    flags := by
      intro r hr i hlt hsize
      show Function.update data.pending.bol _ 1 _ = 1 ↔ _
      rw [List.mem_append, List.mem_singleton]
      by_cases hid : seenIdOf cfg.numProc i r =
          seenIdOf cfg.numProc msg.sequenceNum msg.originalSender
      · obtain ⟨hnumber, horigin⟩ := seenIdOf_inj (by omega) hmsg.pos hr hmsg.isPid hid
        rw [hid, Function.update_self]
        exact iff_of_true rfl (.inr (by rw [hnumber, horigin]))
      · rw [Function.update_of_ne hid, hinv.flags r hr i hlt hsize]
        refine (or_iff_left ?_).symm
        rintro rfl
        exact hid rfl }

/-- The next message of `q` is delivered. -/
theorem deliver (hinv : FifoInv cfg total msgs delivered data) (hq : cfg.IsPid q)
    (hmem : ⟨delivered q + 1, q⟩ ∈ msgs) :
    FifoInv cfg total msgs (Function.update delivered q (delivered q + 1)) { data with
      next := { data.next with entries := data.next.entries.set (q - 1) (delivered q + 1) }
      pending := data.pending.set (seenIdOf cfg.numProc (delivered q + 1) q) 0
      log := data.log ++ [.deliver q (delivered q + 1)] } where
  numProc := hinv.numProc
  noProcess := hinv.noProcess
  length := List.length_set.trans hinv.length
  totalEntries := hinv.totalEntries
  admitted := hinv.admitted
  next := by
    intro r hr
    show entry (data.next.entries.set _ _) r = _
    rw [entry_set _ hq.1 (hinv.length ▸ hq.2) hr.1]
    by_cases hrq : r = q
    · rw [if_pos hrq, hrq, Function.update_self]
    · rw [if_neg hrq, Function.update_of_ne hrq]
      exact hinv.next r hr
  received := by
    intro r hr i hpos hle
    by_cases hrq : r = q
    · rw [hrq, Function.update_self] at hle
      rcases Nat.of_le_succ hle with hle | heq
      · exact hrq ▸ hinv.received q hq i hpos hle
      · exact hrq ▸ heq ▸ hmem
    · rw [Function.update_of_ne hrq] at hle
      exact hinv.received r hr i hpos hle
  flags := by
    intro r hr i hlt hsize
    -- the flag that is cleared is the one that has just been counted
    have hid : seenIdOf cfg.numProc i r ≠ seenIdOf cfg.numProc (delivered q + 1) q := by
      intro heq
      obtain ⟨hnumber, horigin⟩ := seenIdOf_inj (by omega) (by omega) hr hq heq
      rw [horigin, Function.update_self] at hlt
      omega
    show Function.update data.pending.bol _ 0 _ = 1 ↔ _
    rw [Function.update_of_ne hid]
    refine hinv.flags r hr i (lt_of_le_of_lt ?_ hlt) hsize
    by_cases hrq : r = q
    · rw [hrq, Function.update_self]
      exact Nat.le_succ _
    · rw [Function.update_of_ne hrq]
  lines := by
    intro r hr
    rw [linesOf_concat]
    by_cases hrq : r = q
    · rw [if_pos hrq.symm, hrq, Function.update_self, numberedLines_succ, hinv.lines q hq]
    · rw [if_neg (Ne.symm hrq), Function.update_of_ne hrq, hinv.lines r hr]

end FifoInv

theorem FifoInv.incrNext_eq (hinv : FifoInv cfg total msgs delivered data) (hq : cfg.IsPid q) :
    incrNext q data.next = .ok ()
      { data.next with entries := data.next.entries.set (q - 1) (delivered q + 1) } := by
  have hle := hinv.delivered_le hq
  rw [CausalBroadcast.incrNext_eq hq.1 (hinv.noProcess ▸ hq.2)
    (hinv.length.trans hinv.noProcess.symm), hinv.next q hq,
    u32_of_lt (by unfold maxSizePending at hle; omega)]

/-- Nothing is left to deliver. -/
def Settled (cfg : Membership) (msgs : List FifoMsg) (delivered : ℕ → ℕ) : Prop :=
  ∀ q, cfg.IsPid q → ⟨delivered q + 1, q⟩ ∉ msgs

/-- The loop of `deliver_fifo` delivers from `q` as far as it can. -/
theorem deliverNext_prefix (rounds : ℕ) (msg : FifoMsg)
    (hinv : FifoInv cfg total msgs delivered data) (hq : cfg.IsPid msg.originalSender)
    (hnumber : ⟨delivered msg.originalSender + 1, msg.originalSender⟩ ∈ msgs →
      msg.sequenceNum = delivered msg.originalSender + 1)
    (hothers : ∀ r, cfg.IsPid r → r ≠ msg.originalSender → ⟨delivered r + 1, r⟩ ∉ msgs)
    (hrounds : maxSizePending + 1 ≤ delivered msg.originalSender + rounds) :
    ∃ delivered' data', deliverNext rounds msg (delivered msg.originalSender + 1) data =
        .ok () data' ∧
      FifoInv cfg total msgs delivered' data' ∧ Settled cfg msgs delivered' := by
  -- By induction on the rounds: `msg` is the pending message of `q` with the next number, and no
  -- other origin has one.  The table has no room for a number that would outlast the rounds.
  induction rounds generalizing msg delivered data with
  | zero =>
      have hstop : ⟨delivered msg.originalSender + 1, msg.originalSender⟩ ∉ msgs := by
        intro hmem
        have hle := (hinv.admitted _ hmem).number_le
        simp only at hle
        omega
      refine ⟨delivered, data, ?_, hinv, fun r hr => ?_⟩
      · simp only [deliverNext, Call.bind_apply, Call.state_apply, Outcome.ok_andThen,
          hinv.getPending_next hq, hstop, if_false, Call.pure_apply]
      · by_cases hrq : r = msg.originalSender
        · exact hrq ▸ hstop
        · exact hothers r hr hrq
  | succ rounds ih =>
      by_cases hmem : ⟨delivered msg.originalSender + 1, msg.originalSender⟩ ∈ msgs
      -- The round that delivers: the flag is cleared and the counter moves on, so the rounds that
      -- are left start from the invariant again.
      · have hadmitted := hinv.admitted _ hmem
        have hseq := hnumber hmem
        have hle := hinv.delivered_le hq
        have hroom : seenIdOf cfg.numProc (delivered msg.originalSender + 1) msg.originalSender <
            data.pending.totalEntries := hadmitted.lt.trans_eq hinv.totalEntries.symm
        have hclear := addPending_of_lt rounds 0 data.pending hadmitted.le hroom
        have hflag := (hinv.getPending_next hq).mpr hmem
        have hsucc : u32 (delivered msg.originalSender + 1 + 1) =
            delivered msg.originalSender + 1 + 1 :=
          u32_of_lt (by unfold maxSizePending at hle; omega)
        obtain ⟨delivered', data', hrun, hinv', hsettled⟩ := ih
          { msg with sequenceNum := u32 (msg.sequenceNum + 1) }
          (hinv.deliver hq hmem) hq
          (by
            intro _
            show u32 (msg.sequenceNum + 1) = Function.update delivered _ _ _ + 1
            rw [Function.update_self, hseq, hsucc])
          (by
            intro r hr hne
            rw [Function.update_of_ne hne]
            exact hothers r hr hne)
          (by
            show maxSizePending + 1 ≤ Function.update delivered _ _ _ + rounds
            rw [Function.update_self]
            omega)
        refine ⟨delivered', data', ?_, hinv', hsettled⟩
        simp only [Function.update_self, hseq, hsucc] at hrun
        rw [deliverNext, Call.bind_apply, Call.state_apply, Outcome.ok_andThen, if_pos hflag]
        rw [Call.bind_apply, onNext, Call.on_apply, hinv.incrNext_eq hq, Outcome.mapState_ok,
          Outcome.ok_andThen, Call.bind_apply, onPending, Call.on_apply, hinv.nextId_eq hq, hclear,
          Outcome.mapState_ok, Outcome.ok_andThen, Call.bind_apply, logDeliver, Call.modify_apply,
          Outcome.ok_andThen, hseq, hsucc]
        exact hrun
      · refine ⟨delivered, data, ?_, hinv, fun r hr => ?_⟩
        · simp only [deliverNext, Call.bind_apply, Call.state_apply, Outcome.ok_andThen,
            hinv.getPending_next hq, hmem, if_false, Call.pure_apply]
        · by_cases hrq : r = msg.originalSender
          · exact hrq ▸ hmem
          · exact hothers r hr hrq

theorem deliverFifo_prefix {rounds : ℕ} {msg : FifoMsg}
    (hinv : FifoInv cfg total msgs delivered data) (hsettled : Settled cfg msgs delivered)
    (hmsg : Admitted cfg total msg) (hrounds : maxSizePending < rounds) :
    ∃ delivered' data', deliverFifo rounds msg data = .ok () data' ∧
      FifoInv cfg total (msgs ++ [msg]) delivered' data' ∧
      Settled cfg (msgs ++ [msg]) delivered' := by
  have hq := hmsg.isPid
  have hnumber := hmsg.number_le
  have hid : fifoId data.numProc msg.sequenceNum msg.originalSender =
      seenIdOf cfg.numProc msg.sequenceNum msg.originalSender := by
    rw [hinv.numProc]
    have hle := hmsg.le
    exact fifoId_eq hmsg.pos hq.1 (by unfold maxSizePending at hnumber; omega)
      (by unfold maxSizePending at hle; omega)
  have hset := addPending_of_lt rounds 1 data.pending hmsg.le
    (hmsg.lt.trans_eq hinv.totalEntries.symm)
  have hdelivered := hinv.delivered_le hq
  have hnext : getNext data.next msg.originalSender =
      some (delivered msg.originalSender + 1) := by
    rw [getNext_eq hq.1 (hinv.noProcess ▸ hq.2) (hinv.length.trans hinv.noProcess.symm),
      hinv.next _ hq, u32_of_lt (by unfold maxSizePending at hdelivered; omega)]
  -- Nothing could be delivered before, so only the new message can be next.
  have hfirst : ∀ r, cfg.IsPid r → ⟨delivered r + 1, r⟩ ∈ msgs ++ [msg] →
      msg = ⟨delivered r + 1, r⟩ := by
    intro r hr hmem
    rcases List.mem_append.mp hmem with hmem | hmem
    · exact absurd hmem (hsettled r hr)
    · exact (List.mem_singleton.mp hmem).symm
  obtain ⟨delivered', data', hrun, hinv', hsettled'⟩ := deliverNext_prefix rounds msg
    (hinv.receive hmsg) hq (fun hmem => congrArg FifoMsg.sequenceNum (hfirst _ hq hmem))
    (fun r hr hne hmem => hne (congrArg FifoMsg.originalSender (hfirst r hr hmem)).symm)
    (by omega)
  refine ⟨delivered', data', ?_, hinv', hsettled'⟩
  rw [deliverFifo, Call.bind_apply, Call.state_apply, Outcome.ok_andThen, Call.bind_apply,
    onPending, Call.on_apply, hid, hset, Outcome.mapState_ok, Outcome.ok_andThen, hnext,
    Call.bind_apply, Call.access_some, Outcome.ok_andThen]
  exact hrun

theorem runFifo_prefix {rounds : ℕ} (hrounds : maxSizePending < rounds) (later : List FifoMsg) :
    ∀ {msgs : List FifoMsg} {delivered : ℕ → ℕ} {data : FifoData},
      FifoInv cfg total msgs delivered data → Settled cfg msgs delivered →
      (∀ msg ∈ later, Admitted cfg total msg) →
      ∃ delivered' data', runFifo rounds later data = .ok () data' ∧
        FifoInv cfg total (msgs ++ later) delivered' data' ∧
        Settled cfg (msgs ++ later) delivered' := by
  induction later with
  | nil =>
      intro msgs delivered data hinv hsettled _
      rw [List.append_nil]
      exact ⟨delivered, data, rfl, hinv, hsettled⟩
  | cons msg later ih =>
      intro msgs delivered data hinv hsettled hlater
      rw [List.forall_mem_cons] at hlater
      obtain ⟨delivered₁, data₁, hcall, hinv₁, hsettled₁⟩ :=
        deliverFifo_prefix hinv hsettled hlater.1 hrounds
      obtain ⟨delivered₂, data₂, hrun, hinv₂, hsettled₂⟩ := ih hinv₁ hsettled₁ hlater.2
      rw [List.append_assoc, List.singleton_append] at hinv₂ hsettled₂
      refine ⟨delivered₂, data₂, ?_, hinv₂, hsettled₂⟩
      rw [runFifo, Call.bind_apply, hcall, Outcome.ok_andThen, hrun]

end Loop

/-- Whatever the order and the repetitions, the lines of every origin are the longest
run of numbers from `1` on that has been received. -/
theorem fifoPrefix {cfg : Membership} {noMsgs rounds : ℕ} {msgs : List FifoMsg}
    (hrounds : maxSizePending < rounds)
    (hmsgs : ∀ msg ∈ msgs, Admitted cfg (u32 (noMsgs * cfg.numProc)) msg) :
    ∃ data, runFifo rounds msgs (FifoData.initial cfg noMsgs) = .ok () data ∧
      ∀ q, cfg.IsPid q → ∃ k, linesOf q data.log = numberedLines q k ∧
        IsGreatest {k | ∀ i, 1 ≤ i → i ≤ k → (⟨i, q⟩ : FifoMsg) ∈ msgs} k := by
  obtain ⟨delivered, data, hrun, hinv, hsettled⟩ := runFifo_prefix hrounds msgs
    (fifoInv_initial cfg noMsgs) (fun _ _ => List.not_mem_nil) hmsgs
  rw [List.nil_append] at hinv hsettled
  refine ⟨data, hrun, fun q hq => ⟨delivered q, hinv.lines q hq, hinv.received q hq, ?_⟩⟩
  intro k hk
  by_contra hlt
  exact hsettled q hq (hk _ (by omega) (by omega))

/-- Origin `1` sends three messages, which come in the order 3, 1, 1, 2. -/
theorem fifoPrefix_outOfOrder :
    ∃ data, runFifo (maxSizePending + 1) [⟨3, 1⟩, ⟨1, 1⟩, ⟨1, 1⟩, ⟨2, 1⟩]
        (FifoData.initial fifoMembership origTableSize) = .ok () data ∧
      ∀ q, fifoMembership.IsPid q → ∃ k, linesOf q data.log = numberedLines q k ∧
        IsGreatest {k | ∀ i, 1 ≤ i → i ≤ k →
          (⟨i, q⟩ : FifoMsg) ∈ [⟨3, 1⟩, ⟨1, 1⟩, ⟨1, 1⟩, ⟨2, 1⟩]} k := by
  refine fifoPrefix (Nat.lt_succ_self _) fun msg hmem => ?_
  fin_cases hmem <;> exact ⟨by decide, by decide, by decide, by decide⟩

/-- So many processes that the first message of the last one has the id 8193. -/
def wideMembership : Membership where
  numProc := 8194
  dependencies := List.replicate 8194 []
  numProc_pos := by decide
  numProc_lt := by decide
  length_dependencies := List.length_replicate
  mem_range := by
    intro list hlist
    rw [List.eq_of_mem_replicate hlist]
    simp

theorem deliverFifo_refused (rounds : ℕ) (msg : FifoMsg) (data : FifoData)
    (hid : maxSizePending < fifoId data.numProc msg.sequenceNum msg.originalSender) :
    deliverFifo rounds msg data = .error .table data := by
  have hadd := addPending_of_cap_lt rounds 1 data.pending hid
  rw [deliverFifo, Call.bind_apply, Call.state_apply, Outcome.ok_andThen, Call.bind_apply,
    onPending, Call.on_apply, hadd, Outcome.mapState_error, Outcome.error_andThen]

/-- The id of the message lies in the table, and `add_pending` refuses it. -/
theorem fifo_refused :
    wideMembership.IsPid 8194 ∧
      seenIdOf wideMembership.numProc 1 8194 < u32 (origTableSize * wideMembership.numProc) ∧
      runFifo (maxSizePending + 1) [⟨1, 8194⟩] (FifoData.initial wideMembership origTableSize) =
        .error .table (FifoData.initial wideMembership origTableSize) := by
  have hseen : seenIdOf wideMembership.numProc 1 8194 = 8193 := rfl
  have htotal : u32 (origTableSize * wideMembership.numProc) = 1229100 := rfl
  have hcap : maxSizePending < fifoId wideMembership.numProc 1 8194 := by
    rw [fifoId_eq le_rfl (by norm_num) (by norm_num) (by rw [hseen]; norm_num), hseen]
    norm_num [maxSizePending]
  refine ⟨⟨by norm_num, le_rfl⟩, by rw [hseen, htotal]; norm_num, ?_⟩
  have hrefused := deliverFifo_refused (maxSizePending + 1) ⟨1, 8194⟩
    (FifoData.initial wideMembership origTableSize) hcap
  rw [runFifo, Call.bind_apply, hrefused, Outcome.error_andThen]

end CausalBroadcast
