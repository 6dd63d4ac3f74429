import CausalBroadcast.Model.Pending
import CausalBroadcast.Model.Queue
import CausalBroadcast.Model.Tables

/-!
# The layers below causal broadcast

`flink.c`, `plink.c`, `beb.c`, `urb.c` and the sending side of `layerzero.c` and
`sender.c`: fair-loss links, perfect links by retransmission, best-effort
broadcast through the task queue, and uniform reliable broadcast by majority.

A datagram that `sendto` takes is kept in `sent`; the network may lose, repeat and
reorder those, but brings no others.  Whether `sendto` takes a datagram is an
argument of the calls.  `Machine` has what else a call depends on: the rounds its
loops are given and what `realloc` leaves in the grown part of a table.

`send_beb` and `deliver_pl` enqueue one task a peer.  They are cut there: the loop
of `send_beb` is its body `sendBebBody`, `send_urb` is `sendUrb` up to the call of
`send_beb`, and `deliver_pl` goes up to that call and, after the loop, on with
`deliverUrbEnd`.  It is also cut where its acknowledgement is on the wire and the
message is not delivered yet, into `deliverPlStart` and `deliverPlEnd`.
-/

namespace CausalBroadcast

/-- `ORIG_TABLE_SIZE` of `da_proc.c`. -/
def origTableSize : ℕ := 150

/-- `QUEUE_LEN` of `da_proc.c`. -/
def queueLen : ℕ := 200

/-- `NUM_SENDER_THREADS` of `da_proc.c`. -/
def numSenderThreads : ℕ := 10

/-- `THRESHOLD` of `plink.c`. -/
def threshold : ℕ := 10

/-- `ACK_NO` of `plink.c`. -/
def ackNo : ℕ := 1

/-- `urb_msg_t`.  The field `fifo_msg` is not sent and never read again. -/
structure UrbMsg where
  lcbMsg : LcbMsg
  seenId : ℕ
  mid : ℕ
  deriving DecidableEq

/-- `msg_t`. -/
structure Msg where
  urbMsg : UrbMsg
  mid : ℕ
  ackid : ℕ
  sender : ℕ
  mtype : ℕ
  deriving DecidableEq

/-- `queue_task_t`. -/
structure QueueTask where
  pidDest : ℕ
  msg : Msg
  deriving DecidableEq

/-- A zeroed message. -/
def zeroMsg : Msg := ⟨⟨⟨[], 0⟩, 0, 0⟩, 0, 0, 0, 0⟩

instance : Inhabited QueueTask := ⟨⟨0, zeroMsg⟩⟩

/-- The tables of type `uid_table_t`. -/
inductive TableName where
  | plAcks
  | plDelivered
  | urbacks

/-- What a call depends on besides its arguments and the data of its process. -/
structure Machine where
  rounds : ℕ
  junk : TableName → ℕ → ℕ → ℕ

/-- `net_data_t`, without the address book, the sockets, the log buffer and the
parts of the unused FIFO layer.

The last fields are histories: the messages passed to `send_urb` and to
`send_beb`, the tasks that `send_beb` has enqueued, the datagrams that `sendto` has
taken with their destinations, and the messages for which `deliver_beb` and
`deliver_lcb` were called. -/
structure NetData where
  numMsg : ℕ
  plAcks : UidTable
  plDelivered : UidTable
  taskQ : MsgQueue QueueTask
  urbTable : UrbTable
  urbacks : UidTable
  lcb : Lcb
  sentUrb : List LcbMsg
  sentBeb : List UrbMsg
  enqueued : List QueueTask
  sent : List (ℕ × Msg)
  deliveredBeb : List Msg
  deliveredLcb : List UrbMsg

abbrev NetData.selfPid (data : NetData) : ℕ := data.lcb.selfPid

abbrev NetData.numProc (data : NetData) : ℕ := data.lcb.numProc

/-- The data as `init_data` leaves it. -/
def NetData.initial (cfg : Membership) (numMsg me : ℕ) : NetData where
  numMsg := numMsg
  plAcks := initTableUid origTableSize cfg.numProc
  plDelivered := initTableUid origTableSize cfg.numProc
  taskQ := initQueue queueLen
  urbTable := initUrbTable origTableSize cfg.numProc
  urbacks := initTableUid origTableSize cfg.numProc
  lcb := Lcb.initial cfg me
  sentUrb := []
  sentBeb := []
  enqueued := []
  sent := []
  deliveredBeb := []
  deliveredLcb := []

abbrev NetCall := Call ErrorCode NetData

/-! ## Access to the parts -/

/-- A call on the causal layer. -/
def onLcb {α : Type} (call : LcbCall α) : NetCall α :=
  Call.on NetData.lcb (fun data lcb => { data with lcb := lcb }) call

/-- A call on the task queue. -/
def onTaskQ {α : Type} (call : QueueCall QueueTask α) : NetCall α :=
  Call.on NetData.taskQ (fun data taskQ => { data with taskQ := taskQ }) call

/-- A call on the urb table. -/
def onUrbTable {α : Type} (call : UrbCall α) : NetCall α :=
  Call.on NetData.urbTable (fun data urbTable => { data with urbTable := urbTable }) call

/-- `is_ack`. -/
def isAck (data : NetData) (mid : ℕ) : ℕ := tableReadEntry data.plAcks mid

/-- `set_ack`. -/
def setAck (machine : Machine) (mid : ℕ) : NetCall Unit :=
  Call.on NetData.plAcks (fun data table => { data with plAcks := table })
    (tableWriteEntry machine.rounds (machine.junk .plAcks) mid 1)

/-- `is_delivered`. -/
def isDelivered (data : NetData) (mid : ℕ) : ℕ := tableReadEntry data.plDelivered mid

/-- `set_delivered`. -/
def setDelivered (machine : Machine) (mid : ℕ) : NetCall Unit :=
  Call.on NetData.plDelivered (fun data table => { data with plDelivered := table })
    (tableWriteEntry machine.rounds (machine.junk .plDelivered) mid 1)

/-- `set_ack_urb`. -/
def setAckUrb (machine : Machine) (mid : ℕ) : NetCall Unit :=
  Call.on NetData.urbacks (fun data table => { data with urbacks := table })
    (tableWriteEntry machine.rounds (machine.junk .urbacks) mid 1)

/-! ## Fair-loss links -/

/-- `get_addr`: it refuses pids above `num_proc + 1` and reads `addresses[pid - 1]`. -/
def getAddr (pid : ℕ) : NetCall Unit := do
  let data ← Call.state
  if data.numProc + 1 < pid then
    Call.fail .pid
  else if pid = 0 ∨ pid = data.numProc + 1 then
    Call.undef
  else
    pure ()

/-- `send_fl` and `send_message`. -/
def sendFl (sendto : Bool) (destPid : ℕ) (msg : Msg) : NetCall Unit := do
  getAddr destPid
  if sendto then
    Call.modify fun data => { data with sent := data.sent ++ [(destPid, msg)] }
  else
    Call.fail .send

/-! ## Best-effort broadcast -/

/-- The task that `send_beb` builds for the peer `i`. -/
def bebTask (numProc me : ℕ) (msg : UrbMsg) (i : ℕ) : QueueTask where
  pidDest := i
  msg := {
    urbMsg := msg
    mid := u32 (msg.seenId * numProc + me - 1)
    ackid := u32 (msg.seenId * numProc + i - 1)
    sender := me
    mtype := 0 }

/-- `enqueue` on the task queue for a task of `send_beb`. -/
def enqueueBeb (task : QueueTask) : NetCall Unit := do
  onTaskQ (enqueue task)
  Call.modify fun data => { data with enqueued := data.enqueued ++ [task] }

/-- The body of the loop of `send_beb`. -/
def sendBebBody (msg : UrbMsg) (i : ℕ) : NetCall Unit := do
  let data ← Call.state
  if i = data.selfPid then
    pure ()
  else
    enqueueBeb (bebTask data.numProc data.selfPid msg i)

/-- `send_beb` is called. -/
def noteSendBeb (msg : UrbMsg) : NetCall Unit :=
  Call.modify fun data => { data with sentBeb := data.sentBeb ++ [msg] }

/-! ## Uniform reliable broadcast -/

/-- `send_urb` up to the call of `send_beb`, for the message with the number
`sequenceNum`; the result is the message that `send_beb` gets. -/
def sendUrb (machine : Machine) (sequenceNum : ℕ) (lcbMsg : LcbMsg) : NetCall UrbMsg := do
  Call.modify fun data => { data with sentUrb := data.sentUrb ++ [lcbMsg] }
  let data ← Call.state
  let seenId := u32 (data.numProc * (sequenceNum - 1) + data.selfPid - 1)
  let mid := u32 (data.numProc * seenId + data.selfPid - 1)
  onUrbTable (addSeenUrb machine.rounds seenId)
  setAckUrb machine mid
  onLcb (logUrbBroadcast sequenceNum)
  let newMsg := ⟨lcbMsg, seenId, mid⟩
  noteSendBeb newMsg
  pure newMsg

/-- `can_deliver`: more than half of the row are set.  The index is an `int`, so a
row that ends at `2 ^ 31` or later is not read. -/
def canDeliver (table : UidTable) (seenId : ℕ) : Option Bool :=
  let noProc := table.noProcess
  let first := u32 (seenId * noProc)
  let last := u32 (seenId * noProc + noProc)
  if table.totalEntries ≤ last then some false
  else if first < last ∧ 2 ^ 31 ≤ last then none
  else some (decide
    (noProc / 2 < (List.range' first (last - first)).countP fun i => table.entries i = 1))

/-- The part of `deliver_urb` before `send_beb`; the result is the message that is
broadcast again, if there is one. -/
def deliverUrbStart (machine : Machine) (msg : UrbMsg) : NetCall (Option UrbMsg) := do
  setAckUrb machine msg.mid
  let data ← Call.state
  if isSeenUrb data.urbTable msg.seenId = 0 then do
    onUrbTable (addSeenUrb machine.rounds msg.seenId)
    let newMsg := { msg with mid := u32 (data.numProc * msg.seenId + data.selfPid - 1) }
    setAckUrb machine newMsg.mid
    noteSendBeb newMsg
    pure (some newMsg)
  else
    pure none

/-- The part of `deliver_urb` after `send_beb`. -/
def deliverUrbEnd (machine : Machine) (msg : UrbMsg) : NetCall Unit := do
  let data ← Call.state
  let majority ← Call.access (canDeliver data.urbacks msg.seenId)
  if majority ∧ isDeliveredUrb data.urbTable msg.seenId = 0 then do
    onUrbTable (addDeliveredUrb machine.rounds msg.seenId)
    Call.modify fun data => { data with deliveredLcb := data.deliveredLcb ++ [msg] }
    onLcb (deliverLcb machine.rounds msg.lcbMsg)
  else
    pure ()

/-- `deliver_urb`, and `deliver_beb`, up to the call of `send_beb` if there is one. -/
def deliverUrb (machine : Machine) (msg : UrbMsg) : NetCall (Option UrbMsg) := do
  let newMsg ← deliverUrbStart machine msg
  match newMsg with
  | some newMsg => pure (some newMsg)
  | none => do
      deliverUrbEnd machine msg
      pure none

/-! ## Perfect links -/

/-- The acknowledgement that `deliver_pl` sends back; its `urb_msg` is not
initialized. -/
def ackMsg (me : ℕ) (msg : Msg) : Msg where
  urbMsg := zeroMsg.urbMsg
  mid := msg.mid
  ackid := msg.ackid
  sender := me
  mtype := ackNo

/-- `deliver_pl` for a real message up to `is_delivered`: the acknowledgement is sent,
also when the message was delivered before. -/
def sendAck (sendto : Bool) (msg : Msg) : NetCall Unit := do
  let data ← Call.state
  sendFl sendto msg.sender (ackMsg data.selfPid msg)

/-- From `is_delivered` on up to `deliver_beb`: the message is recorded unless it was
recorded before.  The result tells whether `deliver_beb` is called. -/
def recordDelivery (machine : Machine) (msg : Msg) : NetCall Bool := do
  let data ← Call.state
  if isDelivered data msg.mid = 0 then do
    setDelivered machine msg.mid
    Call.modify fun data => { data with deliveredBeb := data.deliveredBeb ++ [msg] }
    pure true
  else
    pure false

/-- `deliver_pl` up to `is_delivered`, or to its end.  The result tells whether it goes
on. -/
def deliverPlStart (machine : Machine) (sendto : Bool) (msg : Msg) : NetCall Bool := do
  if msg.mtype = ackNo then do
    setAck machine msg.ackid
    pure false
  else do
    sendAck sendto msg
    pure true

/-- `deliver_pl` from `is_delivered` on, up to the call of `send_beb` if there is one. -/
def deliverPlEnd (machine : Machine) (msg : Msg) : NetCall (Option UrbMsg) := do
  let fresh ← recordDelivery machine msg
  if fresh then deliverUrb machine msg.urbMsg else pure none

/-- The body of the loop of `send_pl` after `is_ack` has returned `0`, in round `i`.
The result is the next round, or `none` after the task was put back into the
queue. -/
def sendPlBody (sendto : Bool) (task : QueueTask) (i : ℕ) : NetCall (Option ℕ) :=
  if threshold ≤ i then do
    onTaskQ (enqueue task)
    pure none
  else do
    sendFl sendto task.pidDest task.msg
    pure (some (i + 1))

end CausalBroadcast
