import CausalBroadcast.Library.Reachability
import CausalBroadcast.Model.Layers

/-!
# The processes and the network

`N` processes, each with a main thread (`send_lcb`), a receiver thread
(`receiver_f`) and ten sender threads (`sender_f`), over a network that loses,
repeats and reorders datagrams: a receiver may get any datagram that was ever sent
to it, any number of times.

A step is one call, with these exceptions.  Every `enqueue` of `send_beb` is a step
of its own.  A sender thread takes one step for each `dequeue`, each `is_ack` and each
round of `send_pl`.  `deliver_pl` takes one step up to `is_delivered`, after which the
acknowledgement of a real message is on the wire (`NetReceiver.delivering`), and the
next one from there up to `send_beb`.  A process may crash between any two steps, which
also stands for the allocations that fail.  A step sends at most one datagram, and does so
last: to the others a crash inside a step looks like one before or after it.

An error ends the process, because `main` and `receiver_f` leave it then, but in a
sender thread it only ends the thread.
-/

namespace CausalBroadcast

/-- Where the main thread stands in `send_lcb`: before round `i`, before
`send_urb` of round `i`, in `send_beb` at peer `k`, or in a loop of a table that
does not end. -/
inductive NetMain where
  | next (i : ℕ)
  | copied (i : ℕ) (msg : LcbMsg)
  | beb (i : ℕ) (msg : UrbMsg) (k : ℕ)
  | stuck

/-- Where the receiver thread stands: in `receive_msg`, in `deliver_pl` before
`is_delivered`, in the `send_beb` that `deliver_urb` calls for `msg`, at peer `k`, or in
a loop that does not end. -/
inductive NetReceiver where
  | idle
  | delivering (msg : Msg)
  | relay (msg : UrbMsg) (newMsg : UrbMsg) (k : ℕ)
  | stuck
  deriving DecidableEq

/-- Where a sender thread stands: before `dequeue`, in round `i` of `send_pl` before
`is_ack` or after it has returned `0`, or after `pthread_exit`. -/
inductive NetSender where
  | waiting
  | testing (task : QueueTask) (i : ℕ)
  | attempting (task : QueueTask) (i : ℕ)
  | exited

/-- The task that a sender thread holds. -/
def NetSender.task : NetSender → Option QueueTask
  | .testing task _ => some task
  | .attempting task _ => some task
  | _ => none

/-- Whether a process runs, and how it ended if it does not. -/
inductive Status where
  | running
  | exited (code : ErrorCode)
  | crashed
  | undefined
  deriving DecidableEq

/-- A process with its threads. -/
structure NetProcess where
  data : NetData
  status : Status
  main : NetMain
  receiver : NetReceiver
  sender : ℕ → NetSender

/-- The process after a call of its main or receiver thread. -/
def NetProcess.settle {α : Type} (P : NetProcess) (outcome : Outcome ErrorCode NetData α)
    (ok : α → NetProcess → NetProcess) (stuck : NetProcess → NetProcess) : NetProcess :=
  match outcome with
  | .ok value data => ok value { P with data := data }
  | .error code data => { P with data := data, status := .exited code }
  | .running data => stuck { P with data := data }
  | .undefined => { P with status := .undefined }

def NetProcess.setMain (P : NetProcess) (main : NetMain) : NetProcess := { P with main := main }

def NetProcess.setReceiver (P : NetProcess) (receiver : NetReceiver) : NetProcess :=
  { P with receiver := receiver }

def NetProcess.setSender (P : NetProcess) (j : ℕ) (sender : NetSender) : NetProcess :=
  { P with sender := Function.update P.sender j sender }

/-- Round `i` of `send_lcb` starts with the clock copy. -/
def NetProcess.copy (P : NetProcess) (i : ℕ) : NetProcess :=
  P.settle (onLcb (nextLcbMsg i) P.data) (fun msg P => P.setMain (.copied i msg))
    fun P => P.setMain .stuck

/-- `send_urb` up to `send_beb`. -/
def NetProcess.broadcast (P : NetProcess) (machine : Machine) (i : ℕ) (msg : LcbMsg) :
    NetProcess :=
  P.settle (sendUrb machine i msg P.data) (fun newMsg P => P.setMain (.beb i newMsg 1))
    fun P => P.setMain .stuck

/-- The body of the loop of `send_beb` in the main thread. -/
def NetProcess.bebMain (P : NetProcess) (i : ℕ) (msg : UrbMsg) (k : ℕ) : NetProcess :=
  P.settle (sendBebBody msg k P.data) (fun _ P => P.setMain (.beb i msg (k + 1)))
    fun P => P.setMain .stuck

/-- `deliver_pl` up to `is_delivered`, or to its end. -/
def NetProcess.receive (P : NetProcess) (machine : Machine) (sendto : Bool) (msg : Msg) :
    NetProcess :=
  P.settle (deliverPlStart machine sendto msg P.data)
    (fun real P => P.setReceiver (if real then .delivering msg else .idle))
    fun P => P.setReceiver .stuck

/-- `deliver_pl` from `is_delivered` on, up to `send_beb`, or to its end. -/
def NetProcess.deliverBeb (P : NetProcess) (machine : Machine) (msg : Msg) : NetProcess :=
  P.settle (deliverPlEnd machine msg P.data)
    (fun newMsg P => P.setReceiver
      (match newMsg with
      | some newMsg => .relay msg.urbMsg newMsg 1
      | none => .idle))
    fun P => P.setReceiver .stuck

/-- The body of the loop of `send_beb` in the receiver thread. -/
def NetProcess.bebReceiver (P : NetProcess) (msg newMsg : UrbMsg) (k : ℕ) : NetProcess :=
  P.settle (sendBebBody newMsg k P.data) (fun _ P => P.setReceiver (.relay msg newMsg (k + 1)))
    fun P => P.setReceiver .stuck

/-- The end of `deliver_urb` after `send_beb`. -/
def NetProcess.finish (P : NetProcess) (machine : Machine) (msg : UrbMsg) : NetProcess :=
  P.settle (deliverUrbEnd machine msg P.data) (fun _ P => P.setReceiver .idle)
    fun P => P.setReceiver .stuck

/-- `dequeue` in sender thread `j`. -/
def NetProcess.dequeue (P : NetProcess) (j : ℕ) : NetProcess :=
  P.settle (onTaskQ CausalBroadcast.dequeue P.data)
    (fun task P =>
      match task with
      | some task => P.setSender j (.testing task 0)
      | none => P)
    id

/-- `is_ack` in sender thread `j`; when it is true `send_pl` returns `0`. -/
def NetProcess.test (P : NetProcess) (j : ℕ) (task : QueueTask) (i : ℕ) : NetProcess :=
  if isAck P.data task.msg.ackid = 0 then P.setSender j (.attempting task i)
  else P.setSender j .waiting

/-- A round of `send_pl` in sender thread `j`. -/
def NetProcess.attempt (P : NetProcess) (sendto : Bool) (j : ℕ) (task : QueueTask) (i : ℕ) :
    NetProcess :=
  match sendPlBody sendto task i P.data with
  | .ok round data => { P with data := data }.setSender j
      (match round with
      | some i => .testing task i
      | none => .waiting)
  | .error _ data => { P with data := data }.setSender j .exited
  | .running data => { P with data := data }
  | .undefined => { P with status := .undefined }

/-- The processes by pid. -/
abbrev NetSystem := ℕ → NetProcess

/-- What a process does in a step. -/
inductive NetAction where
  | copy
  | broadcast
  | bebMain
  | next
  | receive (sendto : Bool) (msg : Msg)
  | deliverBeb
  | bebReceiver
  | finish
  | dequeue (j : ℕ)
  | test (j : ℕ)
  | attempt (sendto : Bool) (j : ℕ)
  | crash

/-- The process `P` becomes `P'` in a step. -/
inductive NetStep (P : NetProcess) : NetAction → NetProcess → Prop
  | copy {i : ℕ} (hmain : P.main = .next i) (hi : i ≤ P.data.numMsg) :
      NetStep P .copy (P.copy i)
  | broadcast {i : ℕ} {msg : LcbMsg} (machine : Machine) (hmain : P.main = .copied i msg) :
      NetStep P .broadcast (P.broadcast machine i msg)
  | bebMain {i k : ℕ} {msg : UrbMsg} (hmain : P.main = .beb i msg k) (hk : k ≤ P.data.numProc) :
      NetStep P .bebMain (P.bebMain i msg k)
  | next {i k : ℕ} {msg : UrbMsg} (hmain : P.main = .beb i msg k) (hk : P.data.numProc < k) :
      NetStep P .next (P.setMain (.next (i + 1)))
  | receive (machine : Machine) (sendto : Bool) (msg : Msg) (hreceiver : P.receiver = .idle) :
      NetStep P (.receive sendto msg) (P.receive machine sendto msg)
  | deliverBeb {msg : Msg} (machine : Machine) (hreceiver : P.receiver = .delivering msg) :
      NetStep P .deliverBeb (P.deliverBeb machine msg)
  | bebReceiver {msg newMsg : UrbMsg} {k : ℕ} (hreceiver : P.receiver = .relay msg newMsg k)
      (hk : k ≤ P.data.numProc) : NetStep P .bebReceiver (P.bebReceiver msg newMsg k)
  | finish {msg newMsg : UrbMsg} {k : ℕ} (machine : Machine)
      (hreceiver : P.receiver = .relay msg newMsg k) (hk : P.data.numProc < k) :
      NetStep P .finish (P.finish machine msg)
  | dequeue {j : ℕ} (hj : j < numSenderThreads) (hsender : P.sender j = .waiting) :
      NetStep P (.dequeue j) (P.dequeue j)
  | test {j i : ℕ} {task : QueueTask} (hj : j < numSenderThreads)
      (hsender : P.sender j = .testing task i) : NetStep P (.test j) (P.test j task i)
  | attempt {j i : ℕ} {task : QueueTask} (sendto : Bool) (hj : j < numSenderThreads)
      (hsender : P.sender j = .attempting task i) :
      NetStep P (.attempt sendto j) (P.attempt sendto j task i)
  | crash : NetStep P .crash { P with status := .crashed }

section Receiver

variable {P P' : NetProcess} {action : NetAction}

/-- The actions of the receiver thread. -/
def NetAction.OfReceiver : NetAction → Prop
  | .receive _ _ => True
  | .deliverBeb => True
  | .bebReceiver => True
  | .finish => True
  | _ => False

theorem settle_receiver {α : Type} (outcome : Outcome ErrorCode NetData α)
    {ok : α → NetProcess → NetProcess} {stuck : NetProcess → NetProcess}
    (hok : ∀ value Q, (ok value Q).receiver = Q.receiver)
    (hstuck : ∀ Q, (stuck Q).receiver = Q.receiver) :
    (P.settle outcome ok stuck).receiver = P.receiver := by
  cases outcome with
  | ok value d => exact hok value _
  | error code d => rfl
  | running d => exact hstuck _
  | undefined => rfl

/-- The other threads leave the receiver thread where it stands. -/
theorem NetStep.receiver_eq (hstep : NetStep P action P') (hother : ¬ action.OfReceiver) :
    P'.receiver = P.receiver := by
  cases hstep with
  | copy hmain hi => exact settle_receiver _ (fun _ _ => rfl) fun _ => rfl
  | broadcast machine hmain => exact settle_receiver _ (fun _ _ => rfl) fun _ => rfl
  | bebMain hmain hk => exact settle_receiver _ (fun _ _ => rfl) fun _ => rfl
  | next hmain hk => rfl
  | dequeue hj hsender =>
      refine settle_receiver _ (fun task _ => ?_) fun _ => rfl
      cases task <;> rfl
  | test hj hsender =>
      unfold NetProcess.test
      split <;> rfl
  | attempt sendto hj hsender =>
      unfold NetProcess.attempt
      split <;> rfl
  | crash => rfl
  | receive machine sendto msg hreceiver => exact absurd trivial hother
  | deliverBeb machine hreceiver => exact absurd trivial hother
  | bebReceiver hreceiver hk => exact absurd trivial hother
  | finish machine hreceiver hk => exact absurd trivial hother

/-- A receiver thread that hangs takes no step. -/
theorem NetStep.receiver_stuck (hstep : NetStep P action P') (hstuck : P.receiver = .stuck) :
    P'.receiver = .stuck := by
  by_cases hreceiver : action.OfReceiver
  · cases hstep with
    | receive machine sendto msg hidle => rw [hidle] at hstuck; cases hstuck
    | deliverBeb machine hdelivering => rw [hdelivering] at hstuck; cases hstuck
    | bebReceiver hrelay hk => rw [hrelay] at hstuck; cases hstuck
    | finish machine hrelay hk => rw [hrelay] at hstuck; cases hstuck
    | _ => exact hreceiver.elim
  · exact (hstep.receiver_eq hreceiver).trans hstuck

/-- From `is_delivered` only the next step of `deliver_pl` leads on. -/
theorem NetStep.of_delivering {msg : Msg} (hstep : NetStep P action P')
    (hdelivering : P.receiver = .delivering msg) : P'.receiver = .delivering msg ∨
      ∃ machine, action = .deliverBeb ∧ P' = P.deliverBeb machine msg := by
  by_cases hreceiver : action.OfReceiver
  · cases hstep with
    | receive machine sendto msg' hidle => rw [hidle] at hdelivering; cases hdelivering
    | deliverBeb machine hdelivering' =>
        rw [hdelivering'] at hdelivering
        cases hdelivering
        exact .inr ⟨machine, rfl, rfl⟩
    | bebReceiver hrelay hk => rw [hrelay] at hdelivering; cases hdelivering
    | finish machine hrelay hk => rw [hrelay] at hdelivering; cases hdelivering
    | _ => exact hreceiver.elim
  · exact .inl ((hstep.receiver_eq hreceiver).trans hdelivering)

end Receiver

/-- Some process has sent the datagram `msg` to `dest`. -/
def InNetwork (cfg : Membership) (s : NetSystem) (dest : ℕ) (msg : Msg) : Prop :=
  ∃ r, cfg.IsPid r ∧ (dest, msg) ∈ (s r).data.sent

/-- Process `p` takes a step; what it receives is in the network. -/
structure NetSystemStep (cfg : Membership) (s : NetSystem) (p : ℕ) (action : NetAction)
    (t : NetSystem) : Prop where
  isPid : cfg.IsPid p
  running : (s p).status = .running
  network : ∀ sendto msg, action = .receive sendto msg → InNetwork cfg s p msg
  step : NetStep (s p) action (t p)
  frame : ∀ q, q ≠ p → t q = s q

/-- A process as it starts. -/
def NetProcess.initial (cfg : Membership) (numMsg p : ℕ) : NetProcess where
  data := NetData.initial cfg numMsg p
  status := .running
  main := .next 1
  receiver := .idle
  sender _ := .waiting

/-- The system of the processes that the membership file names, with the actions
that `allowed` lets happen; process `p` is to broadcast `numMsg p` messages. -/
def netSystem (cfg : Membership) (numMsg : ℕ → ℕ) (allowed : NetAction → Prop) :
    TransitionSystem NetSystem where
  init s := s = fun p => NetProcess.initial cfg (numMsg p) p
  step s t := ∃ p action, allowed action ∧ NetSystemStep cfg s p action t

end CausalBroadcast
