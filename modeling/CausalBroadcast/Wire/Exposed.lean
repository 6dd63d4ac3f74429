import CausalBroadcast.Causal.Invariant
import CausalBroadcast.Causal.Search
import CausalBroadcast.Reliable.System
import CausalBroadcast.Reliable.Effects
import CausalBroadcast.Reliable.Ids
import CausalBroadcast.Storage.QueueList
import CausalBroadcast.Wire.RoundTrip

/-!
# A process on an open network

One process whose receiver thread gets any datagrams, of any length and content,
while its other threads run as before.  `ExposedData` is what still holds of its data
whenever the receiver thread is in `recvfrom`: the arrays have their sizes, the
waiting clocks have theirs, and only ids up to the cap are marked.
-/

namespace CausalBroadcast

/-! ## Datagrams -/

/-- The buffer of `receiver_f` after `recvfrom`. -/
def datagramBuffer (datagram : List UInt8) (numProc : ℕ) : List UInt8 :=
  let received := datagram.take (messageSize numProc)
  received ++ List.replicate (messageSize numProc - received.length) 0

/-- The words of a buffer under the names of the fields. -/
def wordsMsg (words : List ℕ) : Msg where
  urbMsg := {
    lcbMsg := ⟨words.drop numStatic, words.getD 6 0⟩
    seenId := words.getD 5 0
    mid := words.getD 4 0 }
  mid := words.getD 0 0
  ackid := words.getD 1 0
  sender := words.getD 2 0
  mtype := words.getD 3 0

/-- What a datagram says; words that are missing are zero. -/
def datagramMsg (datagram : List UInt8) (numProc : ℕ) : Msg :=
  wordsMsg (toWords (datagramBuffer datagram numProc))

/-- `next_message` after a datagram; an acknowledgement leaves the broadcast message of
the last one in it. -/
def receivedMsg (datagram : List UInt8) (numProc : ℕ) (nextMessage : Msg) : Msg :=
  let msg := datagramMsg datagram numProc
  if msg.mtype = ackNo then { msg with urbMsg := nextMessage.urbMsg } else msg

theorem wordsMsg_fields (msg : Msg) : wordsMsg msg.fields = msg := rfl

theorem length_datagramBuffer (datagram : List UInt8) (numProc : ℕ) :
    (datagramBuffer datagram numProc).length = messageSize numProc := by
  unfold datagramBuffer
  rw [List.length_append, List.length_replicate, List.length_take]
  omega

theorem datagramMsg_fields (datagram : List UInt8) (numProc : ℕ) :
    toWords (datagramBuffer datagram numProc) = (datagramMsg datagram numProc).fields ∧
      (datagramMsg datagram numProc).urbMsg.lcbMsg.vecClock.length = numProc := by
  obtain ⟨msg, hwords, hlength, -⟩ := exists_fields (length_datagramBuffer datagram numProc)
  rw [datagramMsg, hwords, wordsMsg_fields]
  exact ⟨rfl, hlength⟩

/-- `receive_msg` takes every datagram. -/
theorem receiveMsg_eq {numProc : ℕ} (hlt : numProc < 2 ^ 32) (datagram : List UInt8)
    (nextMessage : Msg) : receiveMsg datagram numProc nextMessage =
      .ok () (receivedMsg datagram numProc nextMessage) := by
  obtain ⟨hwords, hlength⟩ := datagramMsg_fields datagram numProc
  show deserialize (some (datagramBuffer datagram numProc)) numProc nextMessage = _
  unfold receivedMsg
  generalize datagramMsg datagram numProc = msg at hwords hlength ⊢
  by_cases hmtype : msg.mtype = ackNo
  · have hack : toWords (datagramBuffer datagram numProc) =
        [msg.mid, msg.ackid, msg.sender, ackNo] ++ msg.fields.drop 4 := by
      rw [hwords, ← hmtype]
      rfl
    rw [deserialize_ack numProc hack, if_pos hmtype, hmtype]
  · rw [deserialize_eq hlt hwords hlength hmtype, if_neg hmtype]

theorem receivedMsg_clock {datagram : List UInt8} {numProc : ℕ} {nextMessage : Msg}
    (hmtype : (receivedMsg datagram numProc nextMessage).mtype ≠ ackNo) :
    (receivedMsg datagram numProc nextMessage).urbMsg.lcbMsg.vecClock.length = numProc := by
  have hlength := (datagramMsg_fields datagram numProc).2
  unfold receivedMsg at hmtype ⊢
  generalize datagramMsg datagram numProc = msg at hlength hmtype ⊢
  by_cases hack : msg.mtype = ackNo
  · rw [if_pos hack] at hmtype
    exact absurd hack hmtype
  · rwa [if_neg hack]

/-! ## The process -/

/-- A process with the message list of `cfg` that gets any datagrams. -/
def exposedSystem (cfg : Membership) (numMsg me : ℕ) : TransitionSystem NetProcess where
  init P := P = NetProcess.initial cfg numMsg me
  step P P' := P.status = .running ∧ ∃ action, NetStep P action P' ∧
    ∀ sendto msg, action = .receive sendto msg →
      ∃ datagram nextMessage, msg = receivedMsg datagram cfg.numProc nextMessage

/-- The size of a uid table, however many ids were recorded. -/
structure UidTable.Sized (cfg : Membership) (table : UidTable) : Prop where
  noProcess : table.noProcess = cfg.numProc
  size : table.totalEntries = uidTotal cfg ∨
    (0 < uidTotal cfg ∧ uidTotal cfg ≤ maxSize ∧ uidTotal cfg ≤ table.totalEntries ∧
      table.totalEntries ≤ 2 * maxSize)

/-- What holds of the data while the receiver thread waits for a datagram. -/
structure ExposedData (cfg : Membership) (me : ℕ) (d : NetData) : Prop where
  lcb : d.lcb.WellFormed cfg me
  fits : PendingFits cfg d.lcb
  taskQ : d.taskQ.GrownFrom queueLen
  urbTotal : d.urbTable.totalEntries = urbTotal cfg
  seen : ∀ s, isSeenUrb d.urbTable s ≠ 0 → s ≤ maxSizeUrb
  plDelivered : d.plDelivered.Sized cfg
  urbacks : d.urbacks.Sized cfg

/-! ## The tables -/

section Tables

variable {cfg : Membership} {table : UidTable} {mid : ℕ}

theorem UidTable.sized_initial (cfg : Membership) :
    (initTableUid origTableSize cfg.numProc).Sized cfg := ⟨rfl, .inl rfl⟩

theorem growTableTo_sized (junk : ℕ → ℕ → ℕ) (hcap : mid ≤ maxSize) (rounds : ℕ)
    (h : table.Sized cfg) :
    (growTableTo junk mid rounds table).Meets (fun _ grown => grown.Sized cfg) (fun _ _ => False)
      fun grown => grown.Sized cfg := by
  induction rounds generalizing table with
  | zero =>
      by_cases hsize : table.totalEntries ≤ mid
      · simpa [growTableTo, hsize] using h
      · simpa [growTableTo, hsize] using h
  | succ rounds ih =>
      by_cases hsize : table.totalEntries ≤ mid
      · simp only [growTableTo, Call.bind_apply, Call.state_apply, Outcome.ok_andThen, hsize,
          if_true, growTable, Call.modify_apply]
        have hdouble : u32 (table.totalEntries * 2) = table.totalEntries * 2 :=
          u32_of_lt (by unfold maxSize at hcap; omega)
        refine ih ⟨h.noProcess, ?_⟩
        show u32 (table.totalEntries * 2) = uidTotal cfg ∨ (0 < uidTotal cfg ∧
          uidTotal cfg ≤ maxSize ∧ uidTotal cfg ≤ u32 (table.totalEntries * 2) ∧
          u32 (table.totalEntries * 2) ≤ 2 * maxSize)
        rw [hdouble]
        rcases h.size with heq | ⟨hpos, hle, hgrown, -⟩ <;> omega
      · simpa [growTableTo, hsize] using h

theorem tableWriteEntry_sized (rounds : ℕ) (junk : ℕ → ℕ → ℕ) (mid : ℕ) (h : table.Sized cfg) :
    (tableWriteEntry rounds junk mid 1 table).Meets (fun _ table' => table'.Sized cfg)
      (fun _ table' => table' = table) fun table' => table'.Sized cfg := by
  rcases lt_or_ge maxSize mid with hcap | hcap
  · rw [tableWriteEntry_of_cap_lt rounds junk 1 hcap]
    rfl
  · simp only [tableWriteEntry, not_lt.mpr hcap, if_false, Call.bind_apply]
    exact (growTableTo_sized junk hcap rounds h).andThen (fun _ _ => False.elim) (fun _ => id)
      fun _ grown hgrown => ⟨hgrown.noProcess, hgrown.size⟩

end Tables

/-! ## The causal layer -/

section Causal

variable {cfg : Membership} {me : ℕ} {data : Lcb} {msg : LcbMsg}

/-- There is no dependency list for the origin: `test_vec_clock` reads outside the array
or through `NULL`. -/
theorem testVecClock_outside (hdata : data.WellFormed cfg me) {pid : ℕ} (hpid : ¬ cfg.IsPid pid)
    (vector : List ℕ) : testVecClock vector pid data = .undefined := by
  have hlist : dependencyList data.dependencies (getDependencies data.dependencies pid) = none := by
    rw [hdata.dependencies]
    by_cases hle : cfg.dependencies.length < pid
    · rw [getDependencies, if_pos hle]
      rfl
    · have hzero : pid = 0 := by
        rw [cfg.length_dependencies] at hle
        by_contra hpos
        exact hpid ⟨Nat.one_le_iff_ne_zero.mpr hpos, not_lt.mp hle⟩
      subst hzero
      rw [getDependencies, if_neg hle]
      rfl
  simp [testVecClock, hlist]

theorem deliverLcb_outside (hdata : data.WellFormed cfg me)
    (horigin : ¬ cfg.IsPid msg.originalSender) (rounds : ℕ) :
    deliverLcb rounds msg data = .undefined := by
  rw [deliverLcb, Call.bind_apply, testVecClock_outside hdata horigin, Outcome.undefined_andThen]

theorem PendingFits.park (hfits : PendingFits cfg data)
    (hclock : msg.vecClock.length = cfg.numProc) : PendingFits cfg (data.park msg) := by
  intro i clock hmem
  unfold pendingList Lcb.park at hmem
  rcases mem_getD_modify hmem with hmem | ⟨-, hmem⟩
  · exact hfits i clock hmem
  · rcases List.mem_append.mp hmem with hmem | hmem
    · exact hfits i clock hmem
    · rw [List.mem_singleton.mp hmem]
      exact hclock

theorem pendingFits_initial (cfg : Membership) (me : ℕ) : PendingFits cfg (Lcb.initial cfg me) := by
  intro i clock hmem
  have hnil : pendingList (Lcb.initial cfg me) i = [] := by
    rcases lt_or_ge i (Lcb.initial cfg me).lcbPending.length with hlt | hle
    · exact noPending_iff.mp (noPending_initial cfg me) i (Nat.zero_le i) (by omega)
    · exact pendingList_of_le hle
  rw [hnil] at hmem
  cases hmem

theorem deliverLcb_keeps (hdata : data.WellFormed cfg me) (hfits : PendingFits cfg data)
    (hclock : msg.vecClock.length = cfg.numProc) (rounds : ℕ) :
    (deliverLcb rounds msg data).Meets
      (fun _ data' => data'.WellFormed cfg me ∧ PendingFits cfg data') (fun _ _ => True)
      fun _ => True := by
  by_cases horigin : cfg.IsPid msg.originalSender
  · by_cases hready : Ready cfg data.vectorClock msg
    · rw [deliverLcb_ready hdata ⟨horigin, hclock⟩ hready]
      cases hfind : findAllPending rounds rounds (data.deliver msg) with
      | ok value data' =>
          obtain ⟨-, rfl⟩ := findAllPending_ok hfind
          exact ⟨hdata.deliver msg, hfits⟩
      | error code data' => trivial
      | running data' => trivial
      | undefined => trivial
    · rw [deliverLcb_refused hdata ⟨horigin, hclock⟩ hready]
      exact ⟨hdata.park msg, hfits.park hclock⟩
  · rw [deliverLcb_outside hdata horigin]
    trivial

end Causal

/-! ## The calls -/

section Calls

variable {cfg : Membership} {me : ℕ} (machine : Machine) {d : NetData}

theorem ExposedData.initial (cfg : Membership) (numMsg me : ℕ) :
    ExposedData cfg me (NetData.initial cfg numMsg me) where
  lcb := Lcb.initial_wellFormed cfg me
  fits := pendingFits_initial cfg me
  taskQ := initQueue_grownFrom (by decide) (by decide)
  urbTotal := rfl
  seen s hs := absurd (isSeenUrb_initUrbTable ..) hs
  plDelivered := UidTable.sized_initial cfg
  urbacks := UidTable.sized_initial cfg

theorem ExposedData.setUrbacks (h : ExposedData cfg me d) (mid : ℕ) :
    (setAckUrb machine mid d).Meets (fun _ d' => ExposedData cfg me d') (fun _ _ => True)
      fun d' => ExposedData cfg me d' :=
  ((tableWriteEntry_sized _ _ mid h.urbacks).mono (fun _ _ htable => { h with urbacks := htable })
    (fun _ _ _ => trivial) fun _ htable => { h with urbacks := htable }).mapState

/-- A message that passes the cap may be marked as seen. -/
theorem ExposedData.markSeen (h : ExposedData cfg me d) {s : ℕ} (hcap : s ≤ maxSizeUrb)
    (hsize : s < d.urbTable.totalEntries) :
    ExposedData cfg me { d with urbTable := d.urbTable.mark s .see } := by
  refine { h with urbTotal := h.urbTotal, seen := fun k hk => ?_ }
  rcases (isSeenUrb_see hsize k).mp hk with rfl | hk
  · exact hcap
  · exact h.seen k hk

theorem ExposedData.see (h : ExposedData cfg me d) (s : ℕ) :
    (onUrbTable (addSeenUrb machine.rounds s) d).Meets (fun _ d' => ExposedData cfg me d')
      (fun _ _ => True) fun d' => ExposedData cfg me d' := by
  refine (addSeenUrb_meets machine s (h.urbTotal.symm ▸ urbTotal_pos cfg)
    (h.urbTotal.symm ▸ urbTotal_lt cfg)).mono ?_ (fun _ _ _ => trivial) ?_
  · rintro _ _ ⟨hcap, hsize, rfl⟩
    exact h.markSeen hcap hsize
  · rintro _ ⟨-, rfl⟩
    exact h

/-- `send_urb` up to `send_beb`. -/
theorem ExposedData.sendUrb (h : ExposedData cfg me d) (i : ℕ) (lcbMsg : LcbMsg) :
    (sendUrb machine i lcbMsg d).Meets (fun _ d' => ExposedData cfg me d') (fun _ _ => True)
      fun d' => ExposedData cfg me d' := by
  simp only [CausalBroadcast.sendUrb, Call.bind_apply, Call.modify_apply, Call.state_apply,
    Outcome.ok_andThen]
  have hpass : ExposedData cfg me { d with sentUrb := d.sentUrb ++ [lcbMsg] } := { h with }
  refine (hpass.see machine _).andThen (fun _ _ => id) (fun _ => id) fun _ d₁ h₁ => ?_
  refine (h₁.setUrbacks machine _).andThen (fun _ _ => id) (fun _ => id) fun _ d₂ h₂ => ?_
  exact { h₂ with lcb := { h₂.lcb with }, fits := h₂.fits }

theorem ExposedData.enqueueTask (h : ExposedData cfg me d) (task : QueueTask) :
    (onTaskQ (enqueue task) d).Meets (fun _ d' => ExposedData cfg me d') (fun _ _ => False)
      fun _ => False := by
  unfold onTaskQ
  rw [Call.on_apply]
  rcases lt_or_ge d.taskQ.noElem (maxQueueSize queueLen) with hroom | hfull
  · obtain ⟨queue, henqueue, hgrown, -⟩ :=
      enqueue_grownFrom (by decide) h.taskQ task hroom
    rw [henqueue]
    exact { h with taskQ := hgrown }
  · rw [enqueue_beyond (by decide) h.taskQ task hfull]
    trivial

theorem ExposedData.sendBebBody (h : ExposedData cfg me d) (msg : UrbMsg) (k : ℕ) :
    (sendBebBody msg k d).Meets (fun _ d' => ExposedData cfg me d') (fun _ _ => False)
      fun _ => False := by
  simp only [CausalBroadcast.sendBebBody, Call.bind_apply, Call.state_apply, Outcome.ok_andThen,
    Call.ite_apply]
  split
  · exact h
  · unfold enqueueBeb
    rw [Call.bind_apply]
    exact (h.enqueueTask _).andThen (fun _ _ => id) (fun _ => id) fun _ d' h' => { h' with }

theorem ExposedData.dequeue (h : ExposedData cfg me d) :
    (onTaskQ dequeue d).Meets (fun _ d' => ExposedData cfg me d') (fun _ _ => False)
      fun _ => False := by
  unfold onTaskQ
  rw [Call.on_apply]
  obtain ⟨k, hk⟩ := h.taskQ.doubled
  rcases dequeue_eq h.taskQ.wellFormed with ⟨-, hdequeue⟩ | ⟨_, _, queue, -, hdequeue, hwf, -⟩
  · rw [hdequeue]
    exact h
  · rw [hdequeue]
    exact { h with taskQ := ⟨hwf, k, (dequeue_qsize hdequeue).trans hk⟩ }

theorem ExposedData.sendPlBody (h : ExposedData cfg me d) (sendto : Bool) (task : QueueTask)
    (i : ℕ) : (sendPlBody sendto task i d).Meets (fun _ d' => ExposedData cfg me d')
      (fun _ d' => ExposedData cfg me d') fun _ => False := by
  unfold CausalBroadcast.sendPlBody
  split
  · rw [Call.bind_apply]
    exact (h.enqueueTask task).andThen (fun _ _ => False.elim) (fun _ => id) fun _ _ => id
  · rw [Call.bind_apply]
    refine (sendFl_meets sendto task.pidDest task.msg d).andThen ?_ (fun _ => id) ?_
    · rintro _ _ ⟨-, -, rfl⟩
      exact h
    · rintro _ _ ⟨-, -, rfl⟩
      exact { h with }

theorem ExposedData.deliverUrbStart (h : ExposedData cfg me d) (msg : UrbMsg) :
    (deliverUrbStart machine msg d).Meets (fun _ d' => ExposedData cfg me d') (fun _ _ => True)
      fun _ => True := by
  simp only [CausalBroadcast.deliverUrbStart, Call.bind_apply]
  refine (h.setUrbacks machine _).andThen (fun _ _ => id) (fun _ _ => trivial) fun _ d₁ h₁ => ?_
  rw [Call.bind_apply, Call.state_apply, Outcome.ok_andThen, Call.ite_apply]
  split
  · rw [Call.bind_apply]
    refine (h₁.see machine _).andThen (fun _ _ => id) (fun _ _ => trivial) fun _ d₂ h₂ => ?_
    rw [Call.bind_apply]
    exact (h₂.setUrbacks machine _).andThen (fun _ _ => id) (fun _ _ => trivial)
      fun _ d₃ h₃ => { h₃ with }
  · exact h₁

theorem ExposedData.deliverUrbEnd (h : ExposedData cfg me d) {msg : UrbMsg}
    (hclock : msg.lcbMsg.vecClock.length = cfg.numProc) :
    (deliverUrbEnd machine msg d).Meets (fun _ d' => ExposedData cfg me d') (fun _ _ => True)
      fun _ => True := by
  simp only [CausalBroadcast.deliverUrbEnd, Call.bind_apply, Call.state_apply, Outcome.ok_andThen]
  cases canDeliver d.urbacks msg.seenId with
  | none => trivial
  | some majority =>
      simp only [Call.access_some, Outcome.ok_andThen, Call.ite_apply]
      split
      · rw [Call.bind_apply]
        refine (addDeliveredUrb_meets machine msg.seenId (h.urbTotal.symm ▸ urbTotal_pos cfg)
          (h.urbTotal.symm ▸ urbTotal_lt cfg)).andThen (fun _ _ _ => trivial)
          (fun _ _ => trivial) ?_
        rintro _ _ ⟨-, hsize, rfl⟩
        simp only [Call.bind_apply, Call.modify_apply, Outcome.ok_andThen]
        refine ((deliverLcb_keeps h.lcb h.fits hclock machine.rounds).mono ?_
          (fun _ _ => id) fun _ => id).mapState
        rintro _ lcb ⟨hlcb, hfits⟩
        refine { h with lcb := hlcb, fits := hfits, urbTotal := h.urbTotal, seen := fun k hk => ?_ }
        exact h.seen k (isSeenUrb_deliver hsize k ▸ hk)
      · exact h

theorem ExposedData.recordDelivery (h : ExposedData cfg me d) (msg : Msg) :
    (recordDelivery machine msg d).Meets (fun _ d' => ExposedData cfg me d') (fun _ _ => True)
      fun _ => True := by
  simp only [CausalBroadcast.recordDelivery, Call.bind_apply, Call.state_apply,
    Outcome.ok_andThen, Call.ite_apply]
  split
  · have hwrite : (setDelivered machine msg.mid d).Meets (fun _ d' => ExposedData cfg me d')
        (fun _ _ => True) fun _ => True :=
      ((tableWriteEntry_sized _ _ msg.mid h.plDelivered).mono
        (fun _ _ htable => { h with plDelivered := htable }) (fun _ _ _ => trivial)
        fun _ _ => trivial).mapState
    exact hwrite.andThen (fun _ _ => id) (fun _ => id) fun _ d' h' => { h' with }
  · exact h

/-- `deliver_pl` goes on after the acknowledgement of a real message only. -/
theorem ExposedData.deliverPlStart (h : ExposedData cfg me d) (sendto : Bool) (msg : Msg) :
    (deliverPlStart machine sendto msg d).Meets
      (fun real d' => ExposedData cfg me d' ∧ (real = true → msg.mtype ≠ ackNo))
      (fun _ _ => True) fun _ => True := by
  refine (deliverPlStart_meets machine sendto msg d).mono ?_ (fun _ _ _ => trivial)
    fun _ _ => trivial
  rintro (_ | _) d' hresult
  · obtain ⟨-, -, table, -, rfl⟩ := hresult
    exact ⟨{ h with }, nofun⟩
  · obtain ⟨hmtype, -, -, rfl⟩ := hresult
    exact ⟨{ h with }, fun _ => hmtype⟩

theorem ExposedData.deliverPlEnd (h : ExposedData cfg me d) {msg : Msg}
    (hclock : msg.urbMsg.lcbMsg.vecClock.length = cfg.numProc) :
    (deliverPlEnd machine msg d).Meets (fun _ d' => ExposedData cfg me d') (fun _ _ => True)
      fun _ => True := by
  unfold CausalBroadcast.deliverPlEnd
  rw [Call.bind_apply]
  refine (h.recordDelivery machine msg).andThen (fun _ _ => id) (fun _ => id) fun fresh d₁ h₁ => ?_
  cases fresh with
  | false => exact h₁
  | true =>
      unfold deliverUrb
      rw [if_pos rfl, Call.bind_apply]
      refine (h₁.deliverUrbStart machine msg.urbMsg).andThen (fun _ _ => id) (fun _ => id)
        fun newMsg d₂ h₂ => ?_
      cases newMsg with
      | some newMsg => exact h₂
      | none =>
          show ((CausalBroadcast.deliverUrbEnd machine msg.urbMsg d₂).andThen _).Meets _ _ _
          exact (h₂.deliverUrbEnd machine hclock).andThen (fun _ _ => id) (fun _ => id)
            fun _ _ hdone => hdone

end Calls

/-! ## Runs -/

/-- The broadcast message that the receiver thread has in its hands. -/
def NetReceiver.held : NetReceiver → Option UrbMsg
  | .delivering msg => some msg.urbMsg
  | .relay msg _ _ => some msg
  | .idle => none
  | .stuck => none

/-- The data is as described until the receiver thread ends or hangs, and a message that
it is busy with has a clock of the right length. -/
structure ExposedInv (cfg : Membership) (me : ℕ) (P : NetProcess) : Prop where
  data : P.status = .running → P.receiver ≠ .stuck → ExposedData cfg me P.data
  held : ∀ msg, P.receiver.held = some msg → msg.lcbMsg.vecClock.length = cfg.numProc

section Runs

variable {cfg : Membership} {me numMsg : ℕ} {P P' : NetProcess}

/-- A call of the main or the receiver thread. -/
theorem ExposedInv.settle {α : Type} (h : ExposedInv cfg me P)
    {outcome : Outcome ErrorCode NetData α} {ok : α → NetProcess → NetProcess}
    {stuck : NetProcess → NetProcess}
    (hmeets : outcome.Meets (fun value d => ExposedInv cfg me (ok value { P with data := d }))
      (fun _ _ => True) fun d => ExposedInv cfg me (stuck { P with data := d })) :
    ExposedInv cfg me (P.settle outcome ok stuck) := by
  cases outcome with
  | ok value d => exact hmeets
  | error code d => exact ⟨nofun, h.held⟩
  | running d => exact hmeets
  | undefined => exact ⟨nofun, h.held⟩

/-- A step that is not one of the receiver thread. -/
theorem ExposedInv.setData (h : ExposedInv cfg me P) (hreceiver : P'.receiver = P.receiver)
    (hdata : P.receiver ≠ .stuck → ExposedData cfg me P'.data) : ExposedInv cfg me P' :=
  ⟨fun _ hstuck => hdata (hreceiver ▸ hstuck), fun msg hheld => h.held msg (hreceiver ▸ hheld)⟩

theorem nextLcbMsg_keeps (i : ℕ) (d : NetData) :
    (onLcb (nextLcbMsg i) d).Meets (fun _ d' => d' = d) (fun _ _ => False) fun _ => False := by
  simp only [onLcb, nextLcbMsg, getVecClockCopy, Call.on_apply, Call.bind_apply, Call.state_apply,
    Outcome.ok_andThen, Call.pure_apply]
  cases writeEntry d.lcb.vectorClock d.lcb.selfPid (i - 1) with
  | none => trivial
  | some clock => rfl

theorem ExposedInv.step (h : ExposedInv cfg me P) (hrunning : P.status = .running)
    {action : NetAction} (hstep : NetStep P action P')
    (hdatagram : ∀ sendto msg, action = .receive sendto msg →
      ∃ datagram nextMessage, msg = receivedMsg datagram cfg.numProc nextMessage) :
    ExposedInv cfg me P' := by
  -- a receiver thread that hangs in a loop promises nothing about the data any more
  by_cases hstuck : P.receiver = .stuck
  · have hstuck' := hstep.receiver_stuck hstuck
    refine ⟨fun _ hne => absurd hstuck' hne, fun _ hheld => ?_⟩
    rw [hstuck'] at hheld
    cases hheld
  have hdata := h.data hrunning hstuck
  cases hstep with
  | copy hmain hi =>
      refine h.settle ((nextLcbMsg_keeps _ _).mono ?_ (fun _ _ _ => trivial) fun _ => False.elim)
      rintro _ _ rfl
      exact h.setData rfl fun _ => hdata
  | broadcast machine hmain =>
      exact h.settle ((hdata.sendUrb machine _ _).mono
        (fun _ _ hd => h.setData rfl fun _ => hd) (fun _ _ => id)
        fun _ hd => h.setData rfl fun _ => hd)
  | bebMain hmain hk =>
      exact h.settle ((hdata.sendBebBody _ _).mono
        (fun _ _ hd => h.setData rfl fun _ => hd) (fun _ _ _ => trivial) fun _ => False.elim)
  | next hmain hk => exact h.setData rfl fun _ => hdata
  | receive machine sendto msg hreceiver =>
      obtain ⟨datagram, nextMessage, rfl⟩ := hdatagram sendto _ rfl
      refine h.settle ((hdata.deliverPlStart machine sendto _).mono ?_ (fun _ _ => id)
        fun _ _ => ⟨fun _ hne => absurd rfl hne, nofun⟩)
      rintro real d' ⟨hd, hreal⟩
      refine ⟨fun _ _ => hd, fun msg hheld => ?_⟩
      cases real with
      | false => cases hheld
      | true =>
          cases hheld
          exact receivedMsg_clock (hreal rfl)
  | deliverBeb machine hreceiver =>
      have hclock := h.held _ (congrArg NetReceiver.held hreceiver)
      refine h.settle ((hdata.deliverPlEnd machine hclock).mono ?_ (fun _ _ => id)
        fun _ _ => ⟨fun _ hne => absurd rfl hne, nofun⟩)
      intro newMsg d' hd
      refine ⟨fun _ _ => hd, fun msg hheld => ?_⟩
      cases newMsg with
      | none => cases hheld
      | some newMsg =>
          cases hheld
          exact hclock
  | bebReceiver hreceiver hk =>
      refine h.settle ((hdata.sendBebBody _ _).mono ?_ (fun _ _ _ => trivial) fun _ => False.elim)
      intro _ d' hd
      refine ⟨fun _ _ => hd, fun msg hheld => h.held msg ?_⟩
      rw [hreceiver]
      exact hheld
  | finish machine hreceiver hk =>
      have hclock := h.held _ (congrArg NetReceiver.held hreceiver)
      exact h.settle ((hdata.deliverUrbEnd machine hclock).mono
        (fun _ _ hd => ⟨fun _ _ => hd, nofun⟩) (fun _ _ => id)
        fun _ _ => ⟨fun _ hne => absurd rfl hne, nofun⟩)
  | dequeue hj hsender =>
      refine h.settle (hdata.dequeue.mono ?_ (fun _ _ _ => trivial) fun _ => False.elim)
      intro task d' hd
      cases task with
      | none => exact h.setData rfl fun _ => hd
      | some task => exact h.setData rfl fun _ => hd
  | test hj hsender =>
      unfold NetProcess.test
      split <;> exact h.setData rfl fun _ => hdata
  | @attempt j i task sendto hj hsender =>
      have hbody := hdata.sendPlBody sendto task i
      unfold NetProcess.attempt
      cases hresult : sendPlBody sendto task i P.data with
      | ok round d' =>
          rw [hresult] at hbody
          exact h.setData rfl fun _ => hbody
      | error code d' =>
          rw [hresult] at hbody
          exact h.setData rfl fun _ => hbody
      | running d' =>
          rw [hresult] at hbody
          exact hbody.elim
      | undefined => exact ⟨nofun, h.held⟩
  | crash => exact ⟨nofun, h.held⟩

theorem exposedInv_of_reachable (hP : (exposedSystem cfg numMsg me).Reachable P) :
    ExposedInv cfg me P := by
  refine hP.invariant ?_ ?_
  · rintro Q rfl
    exact ⟨fun _ _ => ExposedData.initial cfg numMsg me, nofun⟩
  · rintro Q Q' - h ⟨hrunning, action, hstep, hdatagram⟩
    exact h.step hrunning hstep hdatagram

/-- The data of a process that waits for a datagram. -/
theorem exposedData_of_reachable (hP : (exposedSystem cfg numMsg me).Reachable P)
    (hrunning : P.status = .running) (hidle : P.receiver = .idle) : ExposedData cfg me P.data :=
  (exposedInv_of_reachable hP).data hrunning (hidle ▸ nofun)

end Runs

end CausalBroadcast
