import CausalBroadcast.Library.Reachability
import CausalBroadcast.Model.Pending

/-!
# The causal layer as a system of threads

Every process runs a main thread (`send_lcb`) and a receiver thread
(`deliver_lcb`, called for the messages that URB hands over).  Both touch the
vector clock and the log under a mutex, so a step is one such section; between
two sections the other thread, and the other processes, can run.

* `MainThread` is where the main thread stands in the loop of `send_lcb`;
* `Receiver` is where the receiver thread stands in `deliver_lcb`, with the loops
  of `find_pending` cut at every evaluation of their conditions.

URB is the environment here.  It hands any message that some process has
broadcast to any process, in any order, each at most once.

When `deliver_lcb` returns an error, `receiver_f` calls `exit`; the main thread
may take further steps before the process is gone.  A process that reads a freed
node does something without a meaning, and takes no step that this model knows.
-/

namespace CausalBroadcast

/-- Where the main thread stands: at the top of the loop of `send_lcb`, after the
clock was copied into the message, or after the line `b i` was written. -/
inductive MainThread where
  | ready (i : ℕ)
  | copied (i : ℕ) (msg : LcbMsg)
  | logged (i : ℕ) (msg : LcbMsg)

/-- Where a message that is being delivered came from: the call of `deliver_lcb`
itself, or the node in position `k` of the pending list `i`. -/
inductive Site where
  | direct
  | pending (i k : ℕ)

/-- Where the receiver thread stands. -/
inductive Receiver where
  /-- in `receive_msg` -/
  | idle
  /-- `deliver_lcb` is about to call `test_vec_clock` -/
  | testing (msg : LcbMsg)
  /-- `test_vec_clock` has accepted the message -/
  | updating (msg : LcbMsg) (site : Site)
  /-- the message is counted and its delivery line is to be written -/
  | logging (msg : LcbMsg) (seq : ℕ) (site : Site)
  /-- `deliver_lcb` is about to call `find_pending` -/
  | calling
  /-- `find_pending` is about to evaluate `ptr != NULL` on list `i` -/
  | scanning (i : ℕ) (ptr : Cursor) (foundOne : Bool)
  /-- `deliver_lcb` has returned an error -/
  | exited
  /-- a freed node was read -/
  | undefined

/-- `find_pending` turns to list `i`, or returns after the last one; `deliver_lcb`
calls it again when it has found something. -/
def turnTo (data : Lcb) (i : ℕ) (foundOne : Bool) : Receiver :=
  if i < data.lcbPending.length then .scanning i (cursorAt (pendingList data i) 0) foundOne
  else if foundOne then .calling else .idle

/-- One step of the receiver thread. -/
def receiverStep : Receiver → LcbCall Receiver
  | .testing msg => do
      let accepted ← testVecClock msg.vecClock msg.originalSender
      if accepted then pure (.updating msg .direct)
      else do
        addPendingLcb msg.originalSender msg.vecClock
        pure .idle
  | .updating msg site => do
      let seq ← updateVecClock msg.originalSender
      noteDelivery msg
      pure (.logging msg seq site)
  | .logging msg seq .direct => do
      logDeliverLcb msg.originalSender seq
      pure .calling
  | .logging msg seq (.pending i k) => do
      logDeliverLcb msg.originalSender seq
      let data ← Call.state
      removeVeclist i (cursorAt (pendingList data i) (k + 1))
      pure (.scanning i .freed true)
  | .calling => do
      let data ← Call.state
      pure (turnTo data 0 false)
  | .scanning i .null foundOne => do
      let data ← Call.state
      pure (turnTo data (i + 1) foundOne)
  | .scanning _ .freed _ => Call.undef
  | .scanning i (.node k) foundOne => do
      let data ← Call.state
      let clock ← Call.access (pendingList data i)[k]?
      let accepted ← testVecClock clock (i + 1)
      pure (if accepted then .updating ⟨clock, i + 1⟩ (.pending i k)
        else .scanning i (.node k) foundOne)
  | .idle => pure .idle
  | .exited => pure .exited
  | .undefined => pure .undefined

/-- A process of the causal layer.  `handed` and `copies` are histories: the
messages that URB has handed over, and for each own message the deliveries that
came before its clock copy. -/
structure LcbProcess where
  data : Lcb
  main : MainThread
  receiver : Receiver
  handed : List LcbMsg
  copies : List (LcbMsg × List LcbMsg)

/-- Data and receiver thread after one of its steps. -/
def receiverNext (data : Lcb) (receiver : Receiver) : Lcb × Receiver :=
  match receiverStep receiver data with
  | .ok receiver data => (data, receiver)
  | .error _ data => (data, .exited)
  | .running data => (data, receiver)
  | .undefined => (data, .undefined)

/-- The process after one step of its receiver thread. -/
def LcbProcess.receive (P : LcbProcess) : LcbProcess :=
  { P with
    data := (receiverNext P.data P.receiver).1
    receiver := (receiverNext P.data P.receiver).2 }

/-- The processes, and the messages broadcast so far in the order of their
`send_urb` calls. -/
structure LcbSystem where
  process : ℕ → LcbProcess
  broadcast : List LcbMsg

/-- Replace the process `p`. -/
def LcbSystem.set (s : LcbSystem) (p : ℕ) (P : LcbProcess) : LcbSystem :=
  { s with process := Function.update s.process p P }

@[simp] theorem LcbSystem.set_process_self (s : LcbSystem) (p : ℕ) (P : LcbProcess) :
    (s.set p P).process p = P := Function.update_self ..

theorem LcbSystem.set_process_of_ne (s : LcbSystem) {p q : ℕ} (P : LcbProcess) (h : q ≠ p) :
    (s.set p P).process q = s.process q := Function.update_of_ne h ..

/-- Only the process that takes the step changes. -/
theorem LcbSystem.forall_set {I : ℕ → LcbProcess → Prop} {cfg : Membership} {s : LcbSystem}
    {p : ℕ} (h : ∀ q, cfg.IsPid q → I q (s.process q)) {P : LcbProcess} (hP : I p P) :
    ∀ q, cfg.IsPid q → I q ((s.set p P).process q) := by
  intro q hq
  by_cases hqp : q = p
  · rw [hqp, LcbSystem.set_process_self]
    exact hP
  · rw [LcbSystem.set_process_of_ne s P hqp]
    exact h q hq

@[simp] theorem LcbSystem.set_broadcast (s : LcbSystem) (p : ℕ) (P : LcbProcess) :
    (s.set p P).broadcast = s.broadcast := rfl

/-- What a process does in a step. -/
inductive LcbAction where
  | copy
  | logBroadcast
  | send
  | hand (msg : LcbMsg)
  | receive

/-- The steps of process `p`.  `i` is an `int`, which bounds the loop of
`send_lcb` whatever the number of messages asked for. -/
inductive LcbStep (s : LcbSystem) (p : ℕ) : LcbAction → LcbSystem → Prop
  | copy {i : ℕ} {msg : LcbMsg} {data : Lcb}
      (hdefined : (s.process p).receiver ≠ .undefined)
      (hmain : (s.process p).main = .ready i) (hi : i < 2 ^ 31)
      (hcall : nextLcbMsg i (s.process p).data = .ok msg data) :
      LcbStep s p .copy (s.set p { s.process p with
        data := data
        main := .copied i msg
        copies := (s.process p).copies ++ [(msg, (s.process p).data.delivered)] })
  | logBroadcast {i : ℕ} {msg : LcbMsg} {data : Lcb}
      (hdefined : (s.process p).receiver ≠ .undefined)
      (hmain : (s.process p).main = .copied i msg)
      (hcall : logUrbBroadcast i (s.process p).data = .ok () data) :
      LcbStep s p .logBroadcast (s.set p { s.process p with
        data := data
        main := .logged i msg })
  | send {i : ℕ} {msg : LcbMsg}
      (hdefined : (s.process p).receiver ≠ .undefined)
      (hmain : (s.process p).main = .logged i msg) :
      LcbStep s p .send { s.set p { s.process p with main := .ready (i + 1) } with
        broadcast := s.broadcast ++ [msg] }
  | hand {msg : LcbMsg} (hidle : (s.process p).receiver = .idle)
      (hmem : msg ∈ s.broadcast) (hnew : msg ∉ (s.process p).handed) :
      LcbStep s p (.hand msg) (s.set p { s.process p with
        receiver := .testing msg
        handed := (s.process p).handed ++ [msg] })
  | receive (hdefined : (s.process p).receiver ≠ .undefined) :
      LcbStep s p .receive (s.set p (s.process p).receive)

/-- The process as `init_data` leaves it, before its threads start. -/
def LcbProcess.initial (cfg : Membership) (p : ℕ) : LcbProcess where
  data := Lcb.initial cfg p
  main := .ready 1
  receiver := .idle
  handed := []
  copies := []

/-- The system before its first step. -/
def LcbSystem.initial (cfg : Membership) : LcbSystem where
  process := LcbProcess.initial cfg
  broadcast := []

/-- The causal layer of the processes that the membership file names. -/
def lcbSystem (cfg : Membership) : TransitionSystem LcbSystem where
  init s := s = LcbSystem.initial cfg
  step s t := ∃ p action, cfg.IsPid p ∧ LcbStep s p action t

end CausalBroadcast
