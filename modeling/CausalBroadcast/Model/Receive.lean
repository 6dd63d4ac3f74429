import CausalBroadcast.Model.Wire

/-!
# The receiver thread

`deliver_urb` and `deliver_pl` as whole calls, with the loop of `send_beb`, and what
`receiver_f` does for one datagram.  No other thread runs in between here;
`deliverUrbCall_eq` puts a whole call together from the parts that the system of all
processes takes as separate steps.
-/

namespace CausalBroadcast

/-- The loop of `send_beb` over `n` peers from `i` on. -/
def sendBebFrom (msg : UrbMsg) : ℕ → ℕ → NetCall Unit
  | _, 0 => pure ()
  | i, n + 1 => do
      sendBebBody msg i
      sendBebFrom msg (i + 1) n

/-- The loop of `send_beb` for the message that `deliver_urb` broadcasts again, if there
is one. -/
def rebroadcast : Option UrbMsg → NetCall Unit
  | none => pure ()
  | some msg => do
      let data ← Call.state
      sendBebFrom msg 1 data.numProc

/-- `deliver_urb`, and `deliver_beb`. -/
def deliverUrbCall (machine : Machine) (msg : UrbMsg) : NetCall Unit := do
  let newMsg ← deliverUrbStart machine msg
  rebroadcast newMsg
  deliverUrbEnd machine msg

/-- `deliver_pl`, `deliver_fl` and `process_msg`. -/
def deliverPlCall (machine : Machine) (sendto : Bool) (msg : Msg) : NetCall Unit := do
  let real ← deliverPlStart machine sendto msg
  if real then do
    let fresh ← recordDelivery machine msg
    if fresh then deliverUrbCall machine msg.urbMsg else pure ()
  else
    pure ()

/-- The body of the loop of `receiver_f`: `receive_msg` into `next_message`, and
`process_msg`. -/
def receiverBody (machine : Machine) (sendto : Bool) (datagram : List UInt8) :
    Call ErrorCode (Msg × NetData) Unit := do
  let start ← Call.state
  Call.on Prod.fst (fun memory nextMessage => (nextMessage, memory.2))
    (receiveMsg datagram start.2.numProc)
  let memory ← Call.state
  Call.on Prod.snd (fun memory data => (memory.1, data)) (deliverPlCall machine sendto memory.1)

/-- A whole call in its parts. -/
theorem deliverUrbCall_eq (machine : Machine) (msg : UrbMsg) (d : NetData) :
    deliverUrbCall machine msg d = (deliverUrb machine msg d).andThen fun newMsg =>
      match newMsg with
      | none => pure ()
      | some newMsg => rebroadcast (some newMsg) >>= fun _ => deliverUrbEnd machine msg := by
  unfold deliverUrbCall deliverUrb
  rw [Call.bind_apply, Call.bind_apply]
  cases deliverUrbStart machine msg d with
  | ok newMsg d' =>
      cases newMsg with
      | none =>
          show deliverUrbEnd machine msg d' =
            ((deliverUrbEnd machine msg d').andThen fun _ => pure none).andThen _
          cases deliverUrbEnd machine msg d' <;> rfl
      | some newMsg => rfl
  | error code d' => rfl
  | running d' => rfl
  | undefined => rfl

/-! ## What the loop of `send_beb` leaves alone -/

/-- Nothing but the task queue and its history has changed. -/
def OnlyTasks (d d' : NetData) : Prop :=
  ∃ taskQ enqueued, d' = { d with taskQ := taskQ, enqueued := enqueued }

instance : Std.Refl OnlyTasks := ⟨fun d => ⟨d.taskQ, d.enqueued, rfl⟩⟩

instance : IsTrans NetData OnlyTasks where
  trans := by
    rintro d _ _ ⟨taskQ, enqueued, rfl⟩ ⟨taskQ', enqueued', rfl⟩
    exact ⟨taskQ', enqueued', rfl⟩

/-- Whatever comes of the call, it has changed nothing but the task queue. -/
abbrev ChangesTasks {α : Type} (call : NetCall α) : Prop :=
  call.Moves OnlyTasks fun _ => True

theorem changesTasks_enqueueBeb (task : QueueTask) : ChangesTasks (enqueueBeb task) := by
  refine Call.Moves.bind (fun d => ?_) fun _ => .modify fun d => ⟨d.taskQ, _, rfl⟩
  unfold onTaskQ
  rw [Call.on_apply]
  cases enqueue task d.taskQ with
  | ok value queue => exact ⟨queue, d.enqueued, rfl⟩
  | error code queue => exact ⟨trivial, queue, d.enqueued, rfl⟩
  | running queue => exact ⟨queue, d.enqueued, rfl⟩
  | undefined => trivial

theorem changesTasks_sendBebBody (msg : UrbMsg) (i : ℕ) : ChangesTasks (sendBebBody msg i) :=
  Call.Moves.state.bind fun _ => .ite (.pure _) (changesTasks_enqueueBeb _)

theorem changesTasks_sendBebFrom (msg : UrbMsg) (i n : ℕ) : ChangesTasks (sendBebFrom msg i n) := by
  induction n generalizing i with
  | zero => exact .pure _
  | succ n ih => exact (changesTasks_sendBebBody msg i).bind fun _ => ih (i + 1)

theorem changesTasks_rebroadcast (newMsg : Option UrbMsg) : ChangesTasks (rebroadcast newMsg) := by
  cases newMsg with
  | none => exact .pure _
  | some msg => exact Call.Moves.state.bind fun d => changesTasks_sendBebFrom msg 1 d.numProc

end CausalBroadcast
