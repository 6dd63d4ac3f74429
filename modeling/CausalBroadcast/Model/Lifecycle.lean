import CausalBroadcast.Model.Shared
import CausalBroadcast.Model.Layers

/-!
# The life of a process

`da_proc.c`, `sender.c` and `receiver.c` start the threads of a process, and `stop`, the
handler of `SIGTERM` and `SIGINT`, ends them.  A signal is handled by any thread of the
process, which does nothing else until the handler is done.  Here a thread is reduced to
what the start and the end of the process depend on: whether it exists, whether it is
between `lock` and `unlock` in `write_log`, and whether it is about to end the process.

* `MainStep` is `init_data`, the wait for the start, `send_lcb` and the return of `main`;
* `ReceiverThreadStep` is `receiver_f`, and `SenderThreadStep` is `sender_f`;
* `StopStep` is `stop`, with `terminate_senders` and `terminate_receiver`.

A thread that is cancelled ends at once or later.  One that cancels itself ends at once,
and the handler that it runs with it.  A line that does not fit its array is not written
here (`logLine_undefined`).
-/

namespace CausalBroadcast

/-- `MSG_BUF_MAX_SIZE`. -/
def msgBufMaxSize : ℕ := 1024

/-! ## Places -/

/-- Where the main thread stands. -/
inductive MainPlace where
  /-- in `init_data`, before `init_receiver` has created its thread -/
  | initialising
  /-- before `setup_sockets` -/
  | sockets
  /-- in the loop of `setup_threads` -/
  | creating (i : ℕ)
  /-- `free_data` is to be called since `init_data` has failed -/
  | freeing
  /-- in the wait for the start signal -/
  | waiting
  /-- in `send_lcb`, outside of `write_log` -/
  | sending
  /-- in `write_log`, between `lock` and `unlock` -/
  | writing (line : LogLine)
  /-- `write_log` has returned an error, with the mutex locked -/
  | abandoned
  /-- in the loop at the end -/
  | sleeping
  /-- `main` is to return an error -/
  | returning
  deriving DecidableEq

/-- Where the receiver thread stands. -/
inductive ReceiverPlace where
  /-- not created yet -/
  | absent
  /-- in the loop of `receiver_f`, outside of `write_log` -/
  | running
  /-- in `write_log`, between `lock` and `unlock` -/
  | writing (line : LogLine)
  /-- `write_log` has returned an error, with the mutex locked -/
  | abandoned
  /-- `exit` is to be called with an error -/
  | failing
  | ended
  deriving DecidableEq

/-- Where a sender thread stands. -/
inductive SenderPlace where
  | absent
  | running
  | ended
  deriving DecidableEq

/-- The threads. -/
inductive ThreadId where
  | main
  | receiver
  | sender (i : ℕ)
  deriving DecidableEq

/-- Where `stop` stands. -/
inductive StopPlace where
  /-- the first loop of `terminate_senders` -/
  | cancelling (i : ℕ)
  /-- the second loop -/
  | joining (i : ℕ)
  /-- `terminate_receiver` -/
  | locking
  | cancelReceiver
  | joinReceiver
  | unlocking
  /-- `write_to_file` -/
  | flushing
  /-- `free_data` -/
  | freeing
  /-- `exit` -/
  | exiting
  deriving DecidableEq

/-- The handler: waiting for a signal, on a thread, or gone with the thread. -/
inductive StopHandler where
  | armed
  | running (thread : ThreadId) (place : StopPlace)
  | lost (place : StopPlace)
  deriving DecidableEq

/-- How the process has ended: by the return of `main` or an `exit` of the receiver, by
`exit(0)` in `stop`, or by something without a meaning. -/
inductive ProcessStatus where
  | running
  | failed
  | stopped
  | undefined
  deriving DecidableEq

/-- A process.  `created` is the number of sender threads that `setup_threads` has created,
and `lines` is a history: the lines whose `write_log` has returned `0`. -/
structure DaProc where
  main : MainPlace
  receiver : ReceiverPlace
  receiverCancelled : Bool
  sender : ℕ → SenderPlace
  senderCancelled : ℕ → Bool
  created : ℕ
  handler : StopHandler
  log : Guarded LogData
  lines : List LogLine
  freed : Bool
  status : ProcessStatus

namespace DaProc

/-- The thread runs the handler, and nothing else. -/
def Interrupted (s : DaProc) (thread : ThreadId) : Prop :=
  ∃ place, s.handler = .running thread place

/-- The thread exists. -/
def Alive (s : DaProc) : ThreadId → Prop
  | .main => True
  | .receiver => s.receiver ≠ .absent ∧ s.receiver ≠ .ended
  | .sender i => s.sender i = .running

/-! ## Steps -/

/-- The steps of the main thread; `accepts` says what `fwrite` may be able to write. -/
inductive MainStep (accepts : ℕ → Prop) (s : DaProc) : DaProc → Prop
  /-- `parse_membership_args`, an `init` of a table, `init_log_data` or `init_receiver` fails. -/
  | initFails (hmain : s.main = .initialising) : MainStep accepts s { s with main := .freeing }
  | initReceiver (hmain : s.main = .initialising) :
      MainStep accepts s { s with main := .sockets, receiver := .running }
  | socketsFail (hmain : s.main = .sockets) : MainStep accepts s { s with main := .freeing }
  | setupSockets (hmain : s.main = .sockets) : MainStep accepts s { s with main := .creating 0 }
  | createFails {i : ℕ} (hmain : s.main = .creating i) (hi : i < numSenderThreads) :
      MainStep accepts s { s with main := .freeing }
  | create {i : ℕ} (hmain : s.main = .creating i) (hi : i < numSenderThreads) :
      MainStep accepts s { s with
        main := .creating (i + 1)
        sender := Function.update s.sender i .running
        created := i + 1 }
  | created (hmain : s.main = .creating numSenderThreads) :
      MainStep accepts s { s with main := .waiting }
  | freeData (hmain : s.main = .freeing) :
      MainStep accepts s { s with main := .returning, freed := true }
  /-- `SIGUSR2` has come. -/
  | start (hmain : s.main = .waiting) : MainStep accepts s { s with main := .sending }
  | lock {line : LogLine} {log : Guarded LogData} (hmain : s.main = .sending)
      (hfits : line.text.length + 1 ≤ logLineMaxLength)
      (hlock : (Guarded.lock : Call ErrorCode _ _) s.log = .ok () log) :
      MainStep accepts s { s with main := .writing line, log := log }
  | unlock {line : LogLine} {accepted : ℕ} {log : Guarded LogData} (hmain : s.main = .writing line)
      (haccepts : accepts accepted)
      (hcall : Locked.writeLog accepted line.text s.log = .ok () log) :
      MainStep accepts s { s with main := .sending, log := log, lines := s.lines ++ [line] }
  | abandon {line : LogLine} {accepted : ℕ} {code : ErrorCode} {log : Guarded LogData}
      (hmain : s.main = .writing line) (haccepts : accepts accepted)
      (hcall : Locked.writeLog accepted line.text s.log = .error code log) :
      MainStep accepts s { s with main := .abandoned, log := log }
  /-- `send_urb` or the copy of the clock fails. -/
  | fails (hmain : s.main = .sending) : MainStep accepts s { s with main := .returning }
  | allSent (hmain : s.main = .sending) : MainStep accepts s { s with main := .sleeping }
  | returns (hmain : s.main = .returning ∨ s.main = .abandoned) :
      MainStep accepts s { s with status := .failed }

/-- The steps of the receiver thread. -/
inductive ReceiverThreadStep (accepts : ℕ → Prop) (s : DaProc) : DaProc → Prop
  | lock {line : LogLine} {log : Guarded LogData} (hreceiver : s.receiver = .running)
      (hfits : line.text.length + 1 ≤ logLineMaxLength)
      (hlock : (Guarded.lock : Call ErrorCode _ _) s.log = .ok () log) :
      ReceiverThreadStep accepts s { s with receiver := .writing line, log := log }
  | unlock {line : LogLine} {accepted : ℕ} {log : Guarded LogData}
      (hreceiver : s.receiver = .writing line) (haccepts : accepts accepted)
      (hcall : Locked.writeLog accepted line.text s.log = .ok () log) :
      ReceiverThreadStep accepts s { s with
        receiver := .running
        log := log
        lines := s.lines ++ [line] }
  | abandon {line : LogLine} {accepted : ℕ} {code : ErrorCode} {log : Guarded LogData}
      (hreceiver : s.receiver = .writing line) (haccepts : accepts accepted)
      (hcall : Locked.writeLog accepted line.text s.log = .error code log) :
      ReceiverThreadStep accepts s { s with receiver := .abandoned, log := log }
  /-- `receive_msg` or `process_msg` fails. -/
  | fails (hreceiver : s.receiver = .running) :
      ReceiverThreadStep accepts s { s with receiver := .failing }
  | exits (hreceiver : s.receiver = .failing ∨ s.receiver = .abandoned) :
      ReceiverThreadStep accepts s { s with status := .failed }

/-- The steps of sender thread `i`; it ends by itself when `send_pl` fails. -/
inductive SenderThreadStep (s : DaProc) (i : ℕ) : DaProc → Prop
  | exits (hsender : s.sender i = .running) :
      SenderThreadStep s i { s with sender := Function.update s.sender i .ended }

/-- The steps of `stop` on a thread. -/
inductive StopStep (accepts : ℕ → Prop) (s : DaProc) (thread : ThreadId) :
    StopPlace → DaProc → Prop
  | cancel {i : ℕ} (hi : i < s.created) (hother : thread ≠ .sender i) :
      StopStep accepts s thread (.cancelling i) { s with
        senderCancelled := Function.update s.senderCancelled i true
        handler := .running thread (.cancelling (i + 1)) }
  | cancelSelf {i : ℕ} (hi : i < s.created) (hself : thread = .sender i) :
      StopStep accepts s thread (.cancelling i) { s with
        sender := Function.update s.sender i .ended
        handler := .lost (.cancelling i) }
  /-- `senders` is `NULL`, freed, or holds no thread at this place. -/
  | cancelNone {i : ℕ} (hi : i < numSenderThreads) (hnone : s.created ≤ i) :
      StopStep accepts s thread (.cancelling i) { s with status := .undefined }
  | cancelled : StopStep accepts s thread (.cancelling numSenderThreads)
      { s with handler := .running thread (.joining 0) }
  | join {i : ℕ} (hi : i < numSenderThreads) (hended : s.sender i = .ended) :
      StopStep accepts s thread (.joining i)
        { s with handler := .running thread (.joining (i + 1)) }
  | joined : StopStep accepts s thread (.joining numSenderThreads)
      { s with handler := .running thread .locking }
  | lock {log : Guarded LogData} (hlock : (Guarded.lock : Call ErrorCode _ _) s.log = .ok () log) :
      StopStep accepts s thread .locking
        { s with handler := .running thread .cancelReceiver, log := log }
  | cancelReceiver (hother : thread ≠ .receiver) :
      StopStep accepts s thread .cancelReceiver
        { s with receiverCancelled := true, handler := .running thread .joinReceiver }
  | cancelReceiverSelf (hself : thread = .receiver) :
      StopStep accepts s thread .cancelReceiver
        { s with receiver := .ended, handler := .lost .cancelReceiver }
  | joinReceiver (hended : s.receiver = .ended) :
      StopStep accepts s thread .joinReceiver { s with handler := .running thread .unlocking }
  | unlock : StopStep accepts s thread .unlocking
      { s with handler := .running thread .flushing, log := { s.log with held := false } }
  | flush {accepted : ℕ} {log : LogData} (haccepts : accepts accepted)
      (hcall : (writeToFile accepted s.log.data).ReturnsIn log) :
      StopStep accepts s thread .flushing
        { s with handler := .running thread .freeing, log := { s.log with data := log } }
  | freeData : StopStep accepts s thread .freeing
      { s with handler := .running thread .exiting, freed := true }
  | exit : StopStep accepts s thread .exiting { s with status := .stopped }

/-- The steps of a process. -/
inductive Step (accepts : ℕ → Prop) (s : DaProc) : DaProc → Prop
  | main {t : DaProc} (hfree : ¬ s.Interrupted .main) (h : MainStep accepts s t) :
      Step accepts s t
  | receiver {t : DaProc} (hfree : ¬ s.Interrupted .receiver) (h : ReceiverThreadStep accepts s t) :
      Step accepts s t
  | sender {t : DaProc} {i : ℕ} (hfree : ¬ s.Interrupted (.sender i))
      (h : SenderThreadStep s i t) : Step accepts s t
  | signal {thread : ThreadId} (harmed : s.handler = .armed) (halive : s.Alive thread) :
      Step accepts s { s with handler := .running thread (.cancelling 0) }
  | stop {t : DaProc} {thread : ThreadId} {place : StopPlace}
      (hhandler : s.handler = .running thread place) (h : StopStep accepts s thread place t) :
      Step accepts s t
  /-- A cancelled sender thread ends. -/
  | senderEnds {i : ℕ} (hcancelled : s.senderCancelled i = true)
      (hsender : s.sender i = .running) :
      Step accepts s { s with sender := Function.update s.sender i .ended }
  /-- The cancelled receiver thread ends. -/
  | receiverEnds (hcancelled : s.receiverCancelled = true) (halive : s.Alive .receiver) :
      Step accepts s { s with receiver := .ended }
  /-- A thread other than the main one goes on with data that has been freed. -/
  | useFreed {thread : ThreadId} (hfreed : s.freed = true) (hother : thread ≠ .main)
      (halive : s.Alive thread) : Step accepts s { s with status := .undefined }

/-- The process at the beginning of `main`; `init_log_data` has nothing to do with the rest
of the start. -/
def initial : DaProc where
  main := .initialising
  receiver := .absent
  receiverCancelled := false
  sender := fun _ => .absent
  senderCancelled := fun _ => false
  created := 0
  handler := .armed
  log := ⟨false, initLogData msgBufMaxSize⟩
  lines := []
  freed := false
  status := .running

end DaProc

/-- A process, from the beginning of `main`. -/
def daProc (accepts : ℕ → Prop) : TransitionSystem DaProc where
  init s := s = DaProc.initial
  step s t := s.status = .running ∧ DaProc.Step accepts s t

end CausalBroadcast
