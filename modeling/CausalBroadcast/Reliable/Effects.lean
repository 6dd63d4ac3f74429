import CausalBroadcast.Model.Layers

/-!
# What the calls do to the data

One lemma for each call that a thread makes.  It says which data the call leaves
after a normal return, after an error, and when it is found in a loop of a table,
and which ids it has checked on the way.  Everything later about a step of a
thread is derived from these.

A table that is written is described by `UidTable.Written`: if the id lies inside
the table, it is the table with a `1` at that id.
-/

namespace CausalBroadcast

/-! ## The causal layer, seen from below -/

/-- The process and the number of processes are the same. -/
def Lcb.SameProcess (data data' : Lcb) : Prop :=
  data'.selfPid = data.selfPid ∧ data'.numProc = data.numProc

instance : Std.Refl Lcb.SameProcess := ⟨fun _ => ⟨rfl, rfl⟩⟩

instance : IsTrans Lcb Lcb.SameProcess :=
  ⟨fun _ _ _ h h' => ⟨h'.1.trans h.1, h'.2.trans h.2⟩⟩

/-- The call keeps the process, and its errors are not those of a table. -/
abbrev KeepsProcess {α : Type} (call : LcbCall α) : Prop :=
  call.Moves Lcb.SameProcess (· ≠ .table)

open Call.Moves in
theorem keepsProcess_testVecClock (vector : List ℕ) (pid : ℕ) :
    KeepsProcess (testVecClock vector pid) :=
  state.bind fun _ => (access _).bind fun _ => access _

open Call.Moves in
theorem keepsProcess_updateVecClock (pid : ℕ) : KeepsProcess (updateVecClock pid) := by
  refine state.bind fun data => .ite (fail (by decide)) ?_
  refine (access _).bind fun count => Call.Moves.bind ?_ fun _ => .pure _
  exact modify fun _ => ⟨rfl, rfl⟩

theorem keepsProcess_noteDelivery (msg : LcbMsg) : KeepsProcess (noteDelivery msg) :=
  .modify fun _ => ⟨rfl, rfl⟩

theorem keepsProcess_logDeliverLcb (pid seq : ℕ) : KeepsProcess (logDeliverLcb pid seq) :=
  .modify fun _ => ⟨rfl, rfl⟩

open Call.Moves in
theorem keepsProcess_addPendingLcb (pid : ℕ) (clock : List ℕ) :
    KeepsProcess (addPendingLcb pid clock) :=
  state.bind fun _ => .ite (fail (by decide)) (.ite undef (modify fun _ => ⟨rfl, rfl⟩))

theorem keepsProcess_removeVeclist (i : ℕ) (ptr : Cursor) : KeepsProcess (removeVeclist i ptr) := by
  cases ptr with
  | null => exact .fail (by decide)
  | node k => exact .modify fun _ => ⟨rfl, rfl⟩
  | freed => exact .undef

open Call.Moves in
theorem keepsProcess_findPendingList (i : ℕ) : ∀ (rounds : ℕ) (ptr : Cursor) (foundOne : Bool),
    KeepsProcess (findPendingList i rounds ptr foundOne) := by
  intro rounds
  induction rounds with
  | zero =>
      intro ptr foundOne
      cases ptr with
      | null => exact .pure _
      | node k => exact outOfRounds
      | freed => exact outOfRounds
  | succ rounds ih =>
      intro ptr foundOne
      cases ptr with
      | null => exact .pure _
      | freed => exact undef
      | node k =>
          refine state.bind fun _ => (access _).bind fun clock =>
            (keepsProcess_testVecClock clock (i + 1)).bind fun accepted => .ite ?_ (ih _ _)
          exact (keepsProcess_updateVecClock (i + 1)).bind fun seq =>
            (keepsProcess_noteDelivery _).bind fun _ =>
            (keepsProcess_logDeliverLcb (i + 1) seq).bind fun _ => state.bind fun _ =>
            (keepsProcess_removeVeclist i _).bind fun _ => ih _ _

theorem keepsProcess_findPendingFrom (rounds : ℕ) : ∀ (n i : ℕ) (foundOne : Bool),
    KeepsProcess (findPendingFrom rounds i n foundOne) := by
  intro n
  induction n with
  | zero => exact fun i foundOne => .pure _
  | succ n ih =>
      exact fun i foundOne => Call.Moves.state.bind fun _ =>
        (keepsProcess_findPendingList i rounds _ foundOne).bind fun found => ih (i + 1) found

theorem keepsProcess_findAllPending (rounds : ℕ) : ∀ calls : ℕ,
    KeepsProcess (findAllPending rounds calls) := by
  intro calls
  induction calls with
  | zero => exact .outOfRounds
  | succ calls ih =>
      exact (Call.Moves.state.bind fun _ => keepsProcess_findPendingFrom rounds _ 0 false).bind
        fun _ => .ite ih (.pure _)

theorem keepsProcess_deliverLcb (rounds : ℕ) (msg : LcbMsg) :
    KeepsProcess (deliverLcb rounds msg) :=
  (keepsProcess_testVecClock _ _).bind fun _ => .ite
    ((keepsProcess_updateVecClock _).bind fun seq => (keepsProcess_noteDelivery msg).bind fun _ =>
      (keepsProcess_logDeliverLcb _ seq).bind fun _ => keepsProcess_findAllPending rounds rounds)
    (keepsProcess_addPendingLcb _ _)

/-- The clock copy changes nothing. -/
theorem nextLcbMsg_cases (i : ℕ) (data : Lcb) : nextLcbMsg i data = .undefined ∨
    ∃ msg, msg.originalSender = data.selfPid ∧ nextLcbMsg i data = .ok msg data := by
  simp only [nextLcbMsg, getVecClockCopy, Call.bind_apply, Call.state_apply, Outcome.ok_andThen,
    Call.pure_apply]
  cases writeEntry data.vectorClock data.selfPid (i - 1) with
  | none => exact .inl rfl
  | some vecClock => exact .inr ⟨⟨vecClock, data.selfPid⟩, rfl, rfl⟩

/-! ## Single accesses -/

section Access

variable (machine : Machine) (mid s : ℕ) (d : NetData)

theorem writeOn_meets {get : NetData → UidTable} {put : NetData → UidTable → NetData}
    (junk : ℕ → ℕ → ℕ) : (Call.on get put (tableWriteEntry machine.rounds junk mid 1) d).Meets
      (fun _ d' => mid ≤ maxSize ∧ ∃ table, (get d).Written mid table ∧ d' = put d table)
      (fun code d' => code = .table ∧ maxSize < mid ∧ d' = put d (get d))
      (fun d' => (get d).totalEntries ≤ mid ∧
        ∃ table, (get d).Written mid table ∧ d' = put d table) := by
  refine ((tableWriteEntry_meets machine.rounds junk mid).mono ?_ ?_ ?_).mapState
  · exact fun _ table ⟨hcap, hwritten⟩ => ⟨hcap, table, hwritten, rfl⟩
  · exact fun _ table ⟨hcode, hcap, htable⟩ => ⟨hcode, hcap, congrArg (put d) htable⟩
  · exact fun table ⟨hsize, hwritten⟩ => ⟨hsize, table, hwritten, rfl⟩

theorem setAck_meets : (setAck machine mid d).Meets
    (fun _ d' => mid ≤ maxSize ∧ ∃ table, d.plAcks.Written mid table ∧
      d' = { d with plAcks := table })
    (fun code d' => code = .table ∧ maxSize < mid ∧ d' = d)
    (fun d' => d.plAcks.totalEntries ≤ mid ∧ ∃ table, d.plAcks.Written mid table ∧
      d' = { d with plAcks := table }) :=
  writeOn_meets machine mid d _

theorem setDelivered_meets : (setDelivered machine mid d).Meets
    (fun _ d' => mid ≤ maxSize ∧ ∃ table, d.plDelivered.Written mid table ∧
      d' = { d with plDelivered := table })
    (fun code d' => code = .table ∧ maxSize < mid ∧ d' = d)
    (fun d' => d.plDelivered.totalEntries ≤ mid ∧ ∃ table, d.plDelivered.Written mid table ∧
      d' = { d with plDelivered := table }) :=
  writeOn_meets machine mid d _

theorem setAckUrb_meets : (setAckUrb machine mid d).Meets
    (fun _ d' => mid ≤ maxSize ∧ ∃ table, d.urbacks.Written mid table ∧
      d' = { d with urbacks := table })
    (fun code d' => code = .table ∧ maxSize < mid ∧ d' = d)
    (fun d' => d.urbacks.totalEntries ≤ mid ∧ ∃ table, d.urbacks.Written mid table ∧
      d' = { d with urbacks := table }) :=
  writeOn_meets machine mid d _

theorem onUrbTable_meets {d : NetData} (hpos : 0 < d.urbTable.totalEntries)
    (hlt : d.urbTable.totalEntries < 2 ^ 32) (mark : UrbEntry → UrbEntry) :
    (onUrbTable (addUrb machine.rounds s mark) d).Meets
      (fun _ d' => s ≤ maxSizeUrb ∧ s < d.urbTable.totalEntries ∧
        d' = { d with urbTable := d.urbTable.mark s mark })
      (fun code d' => code = .table ∧ maxSizeUrb < s ∧ d' = d)
      (fun d' => d.urbTable.totalEntries ≤ s ∧ d' = d) := by
  refine ((addUrb_meets hpos hlt machine.rounds mark).mono ?_ ?_ ?_).mapState
  · rintro _ table ⟨hcap, hsize, rfl⟩
    exact ⟨hcap, hsize, rfl⟩
  · rintro code table ⟨hcode, hcap, rfl⟩
    exact ⟨hcode, hcap, rfl⟩
  · rintro table ⟨hsize, rfl⟩
    exact ⟨hsize, rfl⟩

theorem addSeenUrb_meets {d : NetData} (hpos : 0 < d.urbTable.totalEntries)
    (hlt : d.urbTable.totalEntries < 2 ^ 32) :
    (onUrbTable (addSeenUrb machine.rounds s) d).Meets
      (fun _ d' => s ≤ maxSizeUrb ∧ s < d.urbTable.totalEntries ∧
        d' = { d with urbTable := d.urbTable.mark s .see })
      (fun code d' => code = .table ∧ maxSizeUrb < s ∧ d' = d)
      (fun d' => d.urbTable.totalEntries ≤ s ∧ d' = d) :=
  onUrbTable_meets machine s hpos hlt .see

theorem addDeliveredUrb_meets {d : NetData} (hpos : 0 < d.urbTable.totalEntries)
    (hlt : d.urbTable.totalEntries < 2 ^ 32) :
    (onUrbTable (addDeliveredUrb machine.rounds s) d).Meets
      (fun _ d' => s ≤ maxSizeUrb ∧ s < d.urbTable.totalEntries ∧
        d' = { d with urbTable := d.urbTable.mark s .deliver })
      (fun code d' => code = .table ∧ maxSizeUrb < s ∧ d' = d)
      (fun d' => d.urbTable.totalEntries ≤ s ∧ d' = d) :=
  onUrbTable_meets machine s hpos hlt .deliver

theorem onLcb_meets {α : Type} {call : LcbCall α} (h : KeepsProcess call) (d : NetData) :
    (onLcb call d).Meets (fun _ d' => ∃ lcb, d.lcb.SameProcess lcb ∧ d' = { d with lcb := lcb })
      (fun code d' => code ≠ .table ∧ ∃ lcb, d.lcb.SameProcess lcb ∧ d' = { d with lcb := lcb })
      (fun d' => ∃ lcb, d.lcb.SameProcess lcb ∧ d' = { d with lcb := lcb }) :=
  ((h d.lcb).mono (fun _ lcb hsame => ⟨lcb, hsame, rfl⟩)
    (fun _ lcb ⟨hcode, hsame⟩ => ⟨hcode, lcb, hsame, rfl⟩)
    (fun lcb hsame => ⟨lcb, hsame, rfl⟩)).mapState

theorem sendFl_meets (sendto : Bool) (dest : ℕ) (msg : Msg) (d : NetData) :
    (sendFl sendto dest msg d).Meets
      (fun _ d' => 1 ≤ dest ∧ dest ≤ d.numProc ∧ d' = { d with sent := d.sent ++ [(dest, msg)] })
      (fun code d' => code ≠ .table ∧ (sendto = false ∨ d.numProc + 1 < dest) ∧ d' = d)
      (fun _ => False) := by
  simp only [sendFl, getAddr, Call.bind_apply, Call.state_apply, Outcome.ok_andThen,
    Call.ite_apply]
  split
  · exact ⟨by decide, .inr ‹_›, rfl⟩
  · split
    · trivial
    · cases sendto with
      | true => exact ⟨by omega, by omega, rfl⟩
      | false => exact ⟨by decide, .inl rfl, rfl⟩

end Access

/-! ## The queue -/

section TaskQ

variable {d : NetData}

theorem onTaskQ_enqueue_meets (h : d.taskQ.WellFormed) (task : QueueTask) :
    (onTaskQ (enqueue task) d).Meets
      (fun _ d' => ∃ queue : MsgQueue QueueTask, queue.WellFormed ∧
        queue.contents = d.taskQ.contents ++ [task] ∧ d' = { d with taskQ := queue })
      (fun _ _ => False) (fun _ => False) := by
  unfold onTaskQ
  rw [Call.on_apply]
  rcases enqueue_cases h task with henqueue | ⟨queue, henqueue, hwf, hcontents⟩ <;>
    rw [henqueue]
  · trivial
  · exact ⟨queue, hwf, hcontents, rfl⟩

theorem sendBebBody_meets (h : d.taskQ.WellFormed) (msg : UrbMsg) (k : ℕ) :
    (sendBebBody msg k d).Meets
      (fun _ d' => (k = d.selfPid ∧ d' = d) ∨ (k ≠ d.selfPid ∧
        ∃ queue : MsgQueue QueueTask, queue.WellFormed ∧
          queue.contents = d.taskQ.contents ++ [bebTask d.numProc d.selfPid msg k] ∧
          d' = { d with
            taskQ := queue
            enqueued := d.enqueued ++ [bebTask d.numProc d.selfPid msg k] }))
      (fun _ _ => False) (fun _ => False) := by
  simp only [sendBebBody, Call.bind_apply, Call.state_apply, Outcome.ok_andThen, Call.ite_apply]
  split
  · exact .inl ⟨‹_›, rfl⟩
  · unfold enqueueBeb
    rw [Call.bind_apply]
    refine (onTaskQ_enqueue_meets h _).andThen (fun _ _ => id) (fun _ => id) ?_
    rintro _ _ ⟨queue, hwf, hcontents, rfl⟩
    exact .inr ⟨‹_›, queue, hwf, hcontents, rfl⟩

theorem onTaskQ_dequeue_meets (h : d.taskQ.WellFormed) :
    (onTaskQ dequeue d).Meets
      (fun result d' => match result with
        | none => d' = d
        | some task => ∃ queue : MsgQueue QueueTask, queue.WellFormed ∧
            d.taskQ.contents = task :: queue.contents ∧ d' = { d with taskQ := queue })
      (fun _ _ => False) (fun _ => False) := by
  unfold onTaskQ
  rw [Call.on_apply]
  rcases dequeue_eq h with ⟨-, hdequeue⟩ | ⟨task, rest, queue, hcontents, hdequeue, hwf, hrest⟩ <;>
    rw [hdequeue]
  · rfl
  · exact ⟨queue, hwf, hrest ▸ hcontents, rfl⟩

theorem sendPlBody_meets (h : d.taskQ.WellFormed) (sendto : Bool) (task : QueueTask) (i : ℕ) :
    (sendPlBody sendto task i d).Meets
      (fun result d' => match result with
        | none => ∃ queue : MsgQueue QueueTask, queue.WellFormed ∧
            queue.contents = d.taskQ.contents ++ [task] ∧ d' = { d with taskQ := queue }
        | some _ => d' = { d with sent := d.sent ++ [(task.pidDest, task.msg)] })
      (fun _ d' => (sendto = false ∨ d.numProc + 1 < task.pidDest) ∧ d' = d)
      (fun _ => False) := by
  unfold sendPlBody
  split
  · rw [Call.bind_apply]
    exact (onTaskQ_enqueue_meets h task).andThen (fun _ _ => False.elim) (fun _ => id)
      fun _ _ => id
  · rw [Call.bind_apply]
    exact (sendFl_meets sendto task.pidDest task.msg d).andThen (fun _ _ h => h.2) (fun _ => id)
      fun _ _ h => h.2.2

end TaskQ

/-! ## Uniform reliable broadcast -/

section Urb

variable (machine : Machine) {d : NetData}

/-- `send_urb` up to `send_beb`.  A message that both tables take is marked seen and
acknowledged to itself; an id that one of them refuses leaves the changes made before. -/
theorem sendUrb_meets (hpos : 0 < d.urbTable.totalEntries)
    (hlt : d.urbTable.totalEntries < 2 ^ 32) (i : ℕ) (lcbMsg : LcbMsg) {s mid : ℕ}
    (hs : u32 (d.numProc * (i - 1) + d.selfPid - 1) = s)
    (hmid : u32 (d.numProc * s + d.selfPid - 1) = mid) :
    (sendUrb machine i lcbMsg d).Meets
      (fun newMsg d' => newMsg = ⟨lcbMsg, s, mid⟩ ∧
        s ≤ maxSizeUrb ∧ s < d.urbTable.totalEntries ∧ mid ≤ maxSize ∧
        ∃ table lcb, d.urbacks.Written mid table ∧ d.lcb.SameProcess lcb ∧ d' = { d with
          sentUrb := d.sentUrb ++ [lcbMsg]
          urbTable := d.urbTable.mark s .see
          urbacks := table
          lcb := lcb
          sentBeb := d.sentBeb ++ [newMsg] })
      (fun code d' => code = .table ∧
        ((maxSizeUrb < s ∧ d' = { d with sentUrb := d.sentUrb ++ [lcbMsg] }) ∨
        (s ≤ maxSizeUrb ∧ s < d.urbTable.totalEntries ∧ maxSize < mid ∧ d' = { d with
          sentUrb := d.sentUrb ++ [lcbMsg]
          urbTable := d.urbTable.mark s .see })))
      (fun d' => (d.urbTable.totalEntries ≤ s ∧ d' = { d with sentUrb := d.sentUrb ++ [lcbMsg] }) ∨
        (s ≤ maxSizeUrb ∧ s < d.urbTable.totalEntries ∧ d.urbacks.totalEntries ≤ mid ∧
          ∃ table, d.urbacks.Written mid table ∧ d' = { d with
            sentUrb := d.sentUrb ++ [lcbMsg]
            urbTable := d.urbTable.mark s .see
            urbacks := table })) := by
  simp only [sendUrb, Call.bind_apply, Call.modify_apply, Call.state_apply, Outcome.ok_andThen,
    hs, hmid]
  refine (addSeenUrb_meets machine s
    (d := { d with sentUrb := d.sentUrb ++ [lcbMsg] }) hpos hlt).andThen
    (fun _ _ h => ⟨h.1, .inl h.2⟩) (fun _ => .inl) ?_
  -- The entry of the message exists from here on; `set_ack_urb` may still refuse its row.
  rintro _ _ ⟨hcap, hsize, rfl⟩
  refine (setAckUrb_meets machine mid _).andThen (fun _ _ h => ⟨h.1, .inr ⟨hcap, hsize, h.2⟩⟩)
    (fun _ h => .inr ⟨hcap, hsize, h⟩) ?_
  rintro _ _ ⟨hmidcap, table, hwritten, rfl⟩
  exact ⟨rfl, hcap, hsize, hmidcap, table, { d.lcb with log := d.lcb.log ++ [.broadcast i] },
    hwritten, ⟨rfl, rfl⟩, rfl⟩

/-- `deliver_urb` up to `send_beb`.  The acknowledgement of this copy is recorded; a
message that was not seen before is marked seen, acknowledged to itself and handed on
under its own id. -/
theorem deliverUrbStart_meets (hpos : 0 < d.urbTable.totalEntries)
    (hlt : d.urbTable.totalEntries < 2 ^ 32) (msg : UrbMsg) {mid : ℕ}
    (hmid : u32 (d.numProc * msg.seenId + d.selfPid - 1) = mid) :
    (deliverUrbStart machine msg d).Meets
      (fun newMsg d' => ∃ table, d.urbacks.Written msg.mid table ∧ match newMsg with
        | none => isSeenUrb d.urbTable msg.seenId ≠ 0 ∧ d' = { d with urbacks := table }
        | some newMsg => isSeenUrb d.urbTable msg.seenId = 0 ∧
            msg.seenId ≤ maxSizeUrb ∧ msg.seenId < d.urbTable.totalEntries ∧ mid ≤ maxSize ∧
            newMsg = { msg with mid := mid } ∧
            ∃ table', table.Written mid table' ∧ d' = { d with
              urbTable := d.urbTable.mark msg.seenId .see
              urbacks := table'
              sentBeb := d.sentBeb ++ [newMsg] })
      (fun code d' => code = .table ∧ ((maxSize < msg.mid ∧ d' = d) ∨
        ∃ table, d.urbacks.Written msg.mid table ∧
          ((maxSizeUrb < msg.seenId ∧ d' = { d with urbacks := table }) ∨
          (msg.seenId ≤ maxSizeUrb ∧ msg.seenId < d.urbTable.totalEntries ∧ maxSize < mid ∧
            d' = { d with
              urbTable := d.urbTable.mark msg.seenId .see
              urbacks := table }))))
      (fun d' => ∃ table, d.urbacks.Written msg.mid table ∧
        ((d.urbacks.totalEntries ≤ msg.mid ∧ d' = { d with urbacks := table }) ∨
        (d.urbTable.totalEntries ≤ msg.seenId ∧ d' = { d with urbacks := table }) ∨
        (msg.seenId ≤ maxSizeUrb ∧ msg.seenId < d.urbTable.totalEntries ∧
          table.totalEntries ≤ mid ∧ ∃ table', table.Written mid table' ∧ d' = { d with
            urbTable := d.urbTable.mark msg.seenId .see
            urbacks := table' }))) := by
  simp only [deliverUrbStart, Call.bind_apply]
  refine (setAckUrb_meets machine msg.mid d).andThen (fun _ _ h => ⟨h.1, .inl h.2⟩)
    (fun _ ⟨hsize, table, hwritten, hd⟩ => ⟨table, hwritten, .inl ⟨hsize, hd⟩⟩) ?_
  rintro _ _ ⟨-, table, hwritten, rfl⟩
  rw [Call.bind_apply, Call.state_apply, Outcome.ok_andThen, Call.ite_apply, hmid]
  -- Only a message that is new here is marked and handed on.
  by_cases hseen : isSeenUrb d.urbTable msg.seenId = 0
  · rw [if_pos hseen, Call.bind_apply]
    refine (addSeenUrb_meets machine msg.seenId
      (d := { d with urbacks := table }) hpos hlt).andThen
      (fun _ _ h => ⟨h.1, .inr ⟨table, hwritten, .inl h.2⟩⟩)
      (fun _ h => ⟨table, hwritten, .inr (.inl h)⟩) ?_
    rintro _ _ ⟨hcap, hsize, rfl⟩
    refine (setAckUrb_meets machine mid _).andThen
      (fun _ _ h => ⟨h.1, .inr ⟨table, hwritten, .inr ⟨hcap, hsize, h.2⟩⟩⟩)
      (fun _ h => ⟨table, hwritten, .inr (.inr ⟨hcap, hsize, h⟩)⟩) ?_
    rintro _ _ ⟨hmidcap, table', hwritten', rfl⟩
    exact ⟨table, hwritten, hseen, hcap, hsize, hmidcap, rfl, table', hwritten', rfl⟩
  · rw [if_neg hseen]
    exact ⟨table, hwritten, hseen, rfl⟩

/-- `deliver_urb` has called `deliver_lcb` for `msg`, which has gone through. -/
def PassedUp (d : NetData) (msg : UrbMsg) (d' : NetData) : Prop :=
  canDeliver d.urbacks msg.seenId = some true ∧ isDeliveredUrb d.urbTable msg.seenId = 0 ∧
    msg.seenId < d.urbTable.totalEntries ∧ ∃ lcb, d.lcb.SameProcess lcb ∧ d' = { d with
      urbTable := d.urbTable.mark msg.seenId .deliver
      deliveredLcb := d.deliveredLcb ++ [msg]
      lcb := lcb }

/-- `deliver_urb` after `send_beb`.  The message is passed up if its row has a majority
and it was not passed up before; otherwise nothing changes. -/
theorem deliverUrbEnd_meets (hpos : 0 < d.urbTable.totalEntries)
    (hlt : d.urbTable.totalEntries < 2 ^ 32) (msg : UrbMsg) :
    (deliverUrbEnd machine msg d).Meets
      (fun _ d' => PassedUp d msg d' ∨ ((canDeliver d.urbacks msg.seenId = some false ∨
        isDeliveredUrb d.urbTable msg.seenId ≠ 0) ∧ d' = d))
      (fun code d' => (code ≠ .table ∧ PassedUp d msg d') ∨
        (code = .table ∧ maxSizeUrb < msg.seenId ∧ d' = d))
      (fun d' => PassedUp d msg d' ∨ (d.urbTable.totalEntries ≤ msg.seenId ∧ d' = d)) := by
  simp only [deliverUrbEnd, Call.bind_apply, Call.state_apply, Outcome.ok_andThen]
  cases hmajority : canDeliver d.urbacks msg.seenId with
  | none => trivial
  | some majority =>
      simp only [Call.access_some, Outcome.ok_andThen, Call.ite_apply]
      by_cases hdeliver : majority = true ∧ isDeliveredUrb d.urbTable msg.seenId = 0
      · obtain ⟨rfl, hdelivered⟩ := hdeliver
        rw [if_pos ⟨rfl, hdelivered⟩, Call.bind_apply]
        refine (addDeliveredUrb_meets machine msg.seenId hpos hlt).andThen
          (fun _ _ => .inr) (fun _ => .inr) ?_
        rintro _ _ ⟨-, hsize, rfl⟩
        simp only [Call.bind_apply, Call.modify_apply, Outcome.ok_andThen]
        exact (onLcb_meets (keepsProcess_deliverLcb machine.rounds msg.lcbMsg) _).mono
          (fun _ _ h => .inl ⟨hmajority, hdelivered, hsize, h⟩)
          (fun _ _ h => .inl ⟨h.1, hmajority, hdelivered, hsize, h.2⟩)
          (fun _ h => .inl ⟨hmajority, hdelivered, hsize, h⟩)
      · rw [if_neg hdeliver]
        refine .inr ⟨?_, rfl⟩
        cases majority with
        | false => exact .inl rfl
        | true => exact .inr fun hdelivered => hdeliver ⟨rfl, hdelivered⟩

end Urb

/-- What `deliver_urb` does not write, but for the tasks that `send_beb` adds. -/
def NetData.besideUrb (d : NetData) : ℕ × List LcbMsg × UidTable × List (ℕ × Msg) :=
  (d.numMsg, d.sentUrb, d.plDelivered, d.sent)

section Frames

open Call.Frames

theorem deliverUrbStart_frames (machine : Machine) (msg : UrbMsg) :
    Call.Frames NetData.besideUrb (deliverUrbStart machine msg) := by
  have hacks : ∀ mid, Call.Frames NetData.besideUrb (setAckUrb machine mid) :=
    fun _ => on (by exact fun _ _ => rfl) _
  refine (hacks _).bind fun _ => state.bind fun data => .ite ?_ (.pure _)
  refine Call.Frames.bind (on (by exact fun _ _ => rfl) _) fun _ => (hacks _).bind fun _ => ?_
  exact Call.Frames.bind (modify fun _ => rfl) fun _ => .pure _

theorem deliverUrbEnd_frames (machine : Machine) (msg : UrbMsg) :
    Call.Frames NetData.besideUrb (deliverUrbEnd machine msg) := by
  refine state.bind fun data => (access _).bind fun majority => .ite ?_ (.pure _)
  refine Call.Frames.bind (on (by exact fun _ _ => rfl) _) fun _ => ?_
  exact Call.Frames.bind (modify fun _ => rfl) fun _ => on (by exact fun _ _ => rfl) _

end Frames

/-! ## Perfect links -/

/-- The acknowledgement is on the wire, or it was refused and nothing has changed. -/
theorem sendAck_meets (sendto : Bool) (msg : Msg) (d : NetData) :
    (sendAck sendto msg d).Meets
      (fun _ d' => 1 ≤ msg.sender ∧ msg.sender ≤ d.numProc ∧
        d' = { d with sent := d.sent ++ [(msg.sender, ackMsg d.selfPid msg)] })
      (fun code d' => code ≠ .table ∧ d' = d) (fun _ => False) := by
  simp only [sendAck, Call.bind_apply, Call.state_apply, Outcome.ok_andThen]
  exact (sendFl_meets sendto msg.sender (ackMsg d.selfPid msg) d).mono (fun _ _ => id)
    (fun _ _ h => ⟨h.1, h.2.2⟩) fun _ => id

/-- A message that was recorded before changes nothing; another one is recorded, and
`deliver_beb` is called for it. -/
theorem recordDelivery_meets (machine : Machine) (msg : Msg) (d : NetData) :
    (recordDelivery machine msg d).Meets
      (fun fresh d' => match fresh with
        | false => isDelivered d msg.mid ≠ 0 ∧ d' = d
        | true => isDelivered d msg.mid = 0 ∧ ∃ table, d.plDelivered.Written msg.mid table ∧
            d' = { d with plDelivered := table, deliveredBeb := d.deliveredBeb ++ [msg] })
      (fun code d' => code = .table ∧ maxSize < msg.mid ∧ d' = d)
      (fun d' => d.plDelivered.totalEntries ≤ msg.mid ∧
        ∃ table, d' = { d with plDelivered := table }) := by
  simp only [recordDelivery, Call.bind_apply, Call.state_apply, Outcome.ok_andThen, Call.ite_apply]
  by_cases hdelivered : isDelivered d msg.mid = 0
  · rw [if_pos hdelivered]
    refine (setDelivered_meets machine msg.mid d).andThen (fun _ _ => id)
      (fun _ ⟨hsize, table, _, hd⟩ => ⟨hsize, table, hd⟩) ?_
    rintro _ _ ⟨-, table, hwritten, rfl⟩
    exact ⟨hdelivered, table, hwritten, rfl⟩
  · rw [if_neg hdelivered]
    exact ⟨hdelivered, rfl⟩

/-- `deliver_pl` up to `is_delivered`: it goes on for a real message, whose
acknowledgement is on the wire then. -/
theorem deliverPlStart_meets (machine : Machine) (sendto : Bool) (msg : Msg) (d : NetData) :
    (deliverPlStart machine sendto msg d).Meets
      (fun real d' => match real with
        | false => msg.mtype = ackNo ∧ msg.ackid ≤ maxSize ∧
            ∃ table, d.plAcks.Written msg.ackid table ∧ d' = { d with plAcks := table }
        | true => msg.mtype ≠ ackNo ∧ 1 ≤ msg.sender ∧ msg.sender ≤ d.numProc ∧
            d' = { d with sent := d.sent ++ [(msg.sender, ackMsg d.selfPid msg)] })
      (fun code d' => (code = .table → msg.mtype = ackNo ∧ maxSize < msg.ackid) ∧ d' = d)
      (fun d' => msg.mtype = ackNo ∧ d.plAcks.totalEntries ≤ msg.ackid ∧
        ∃ table, d.plAcks.Written msg.ackid table ∧ d' = { d with plAcks := table }) := by
  simp only [deliverPlStart, Call.ite_apply, Call.bind_apply]
  by_cases hmtype : msg.mtype = ackNo
  · rw [if_pos hmtype]
    refine (setAck_meets machine msg.ackid d).andThen ?_ (fun _ => .intro hmtype)
      fun _ _ => .intro hmtype
    exact fun code d' ⟨_, hcap, hd⟩ => ⟨fun _ => ⟨hmtype, hcap⟩, hd⟩
  · rw [if_neg hmtype]
    refine (sendAck_meets sendto msg d).andThen ?_ (fun _ => False.elim) fun _ _ => .intro hmtype
    exact fun code d' ⟨hcode, hd⟩ => ⟨fun htable => absurd htable hcode, hd⟩

end CausalBroadcast
