import CausalBroadcast.Causal.Threads
import CausalBroadcast.Reliable.System

/-!
# All layers of a process

`Reliable/System.lean` has the layers up to uniform reliable broadcast, with
`deliver_lcb` as one call; `Causal/Threads.lean` has `deliver_lcb` cut into the
sections that it runs under a lock, over a broadcast that is the environment.  Here
both are put together.  A call of the receiver thread ends where `deliver_lcb` is
called (`PlResult.pass`), and from there the thread takes the steps of
`receiverStep`; in between the main thread, the sender threads and the other
processes can run.

`deliverUrbEnd_eq` and `deliverPlEnd_eq` say that the calls of the layers below are the
ones that are cut here.
-/

namespace CausalBroadcast

/-! ## The calls up to `deliver_lcb` -/

/-- The part of `deliver_urb` after `send_beb`, up to the call of `deliver_lcb`; the
result is the message that is delivered, if there is one. -/
def passLcb (machine : Machine) (msg : UrbMsg) : NetCall (Option LcbMsg) := do
  let data ← Call.state
  let majority ← Call.access (canDeliver data.urbacks msg.seenId)
  if majority ∧ isDeliveredUrb data.urbTable msg.seenId = 0 then do
    onUrbTable (addDeliveredUrb machine.rounds msg.seenId)
    Call.modify fun data => { data with deliveredLcb := data.deliveredLcb ++ [msg] }
    pure (some msg.lcbMsg)
  else
    pure none

/-- Where `deliver_pl` has come to: to its end, to `send_beb`, or to `deliver_lcb`. -/
inductive PlResult where
  | done
  | relay (newMsg : UrbMsg)
  | pass (lcbMsg : LcbMsg)

/-- The result of `passLcb` as one of `deliver_pl`. -/
def PlResult.ofPassed : Option LcbMsg → PlResult
  | none => .done
  | some lcbMsg => .pass lcbMsg

/-- `deliver_urb`, up to the call of `send_beb` or of `deliver_lcb`. -/
def startUrb (machine : Machine) (msg : UrbMsg) : NetCall PlResult := do
  let newMsg ← deliverUrbStart machine msg
  match newMsg with
  | some newMsg => pure (.relay newMsg)
  | none => do
      let passed ← passLcb machine msg
      pure (.ofPassed passed)

/-- `deliver_pl` from `is_delivered` on, up to the call of `send_beb` or of
`deliver_lcb`. -/
def startBeb (machine : Machine) (msg : Msg) : NetCall PlResult := do
  let fresh ← recordDelivery machine msg
  if fresh then startUrb machine msg.urbMsg else pure .done

/-- What is left of `deliver_urb` and `deliver_pl` when they have passed a message
to `deliver_lcb`. -/
def deliverPassed (machine : Machine) : Option LcbMsg → NetCall Unit
  | none => pure ()
  | some lcbMsg => onLcb (deliverLcb machine.rounds lcbMsg)

/-- What is left of `deliver_pl`; the result is the message that `send_beb` gets. -/
def finishPl (machine : Machine) : PlResult → NetCall (Option UrbMsg)
  | .done => pure none
  | .relay newMsg => pure (some newMsg)
  | .pass lcbMsg => do
      deliverPassed machine (some lcbMsg)
      pure none

theorem deliverUrbEnd_eq (machine : Machine) (msg : UrbMsg) :
    deliverUrbEnd machine msg = passLcb machine msg >>= deliverPassed machine := by
  funext d
  simp only [deliverUrbEnd, passLcb, Call.bind_apply, Call.state_apply, Outcome.ok_andThen,
    Outcome.andThen_assoc]
  cases canDeliver d.urbacks msg.seenId with
  | none => rfl
  | some majority =>
      by_cases hdeliver : majority = true ∧ isDeliveredUrb d.urbTable msg.seenId = 0
      · show (if _ then _ else _ : NetCall Unit) d =
          Outcome.andThen ((if _ then _ else _ : NetCall (Option LcbMsg)) d) _
        rw [if_pos hdeliver, if_pos hdeliver, Call.bind_apply, Call.bind_apply,
          Outcome.andThen_assoc]
        rfl
      · show (if _ then _ else _ : NetCall Unit) d =
          Outcome.andThen ((if _ then _ else _ : NetCall (Option LcbMsg)) d) _
        rw [if_neg hdeliver, if_neg hdeliver]
        rfl

theorem deliverUrb_eq (machine : Machine) (msg : UrbMsg) :
    deliverUrb machine msg = startUrb machine msg >>= finishPl machine := by
  funext d
  simp only [deliverUrb, startUrb, Call.bind_apply, Outcome.andThen_assoc]
  congr 1
  funext newMsg d'
  cases newMsg with
  | some newMsg => rfl
  | none =>
      simp only [Call.bind_apply, deliverUrbEnd_eq, Outcome.andThen_assoc]
      congr 1
      funext passed d'
      cases passed with
      | none => rfl
      | some lcbMsg => rfl

/-- `deliver_pl` goes on where it was cut. -/
theorem deliverPlEnd_eq (machine : Machine) (msg : Msg) :
    deliverPlEnd machine msg = startBeb machine msg >>= finishPl machine := by
  funext d
  simp only [deliverPlEnd, startBeb, Call.bind_apply, Outcome.andThen_assoc]
  congr 1
  funext fresh d'
  cases fresh with
  | false => rfl
  | true => exact congrFun (deliverUrb_eq machine msg.urbMsg) d'

/-! ## The processes -/

/-- A process with all its layers.  `receiver` is where the receiver thread stands in
`deliver_lcb`, and `.idle` outside of it; `copies` is the history that `LcbProcess`
has. -/
structure StackProcess where
  net : NetProcess
  receiver : Receiver
  copies : List (LcbMsg × List LcbMsg)

/-- The process after a call of its receiver thread. -/
def StackProcess.settle {α : Type} (P : StackProcess) (outcome : Outcome ErrorCode NetData α)
    (ok : α → StackProcess → StackProcess) : StackProcess :=
  match outcome with
  | .ok value data => ok value { P with net := { P.net with data := data } }
  | .error code data => { P with net := { P.net with data := data, status := .exited code } }
  | .running data => { P with net := NetProcess.setReceiver { P.net with data := data } .stuck }
  | .undefined => { P with net := { P.net with status := .undefined } }

/-- The receiver thread goes on after its part of `deliver_pl` for `msg`. -/
def StackProcess.goOn (P : StackProcess) (msg : UrbMsg) : PlResult → StackProcess
  | .done => { P with net := P.net.setReceiver .idle }
  | .relay newMsg => { P with net := P.net.setReceiver (.relay msg newMsg 1) }
  | .pass lcbMsg => { P with net := P.net.setReceiver .idle, receiver := .testing lcbMsg }

/-- Round `i` of `send_lcb` starts with the clock copy. -/
def StackProcess.copy (P : StackProcess) (i : ℕ) : StackProcess where
  net := P.net.copy i
  receiver := P.receiver
  copies :=
    match nextLcbMsg i P.net.data.lcb with
    | .ok msg _ => P.copies ++ [(msg, P.net.data.lcb.delivered)]
    | _ => P.copies

/-- `deliver_pl` up to `is_delivered`, or to its end. -/
def StackProcess.receive (P : StackProcess) (machine : Machine) (sendto : Bool) (msg : Msg) :
    StackProcess :=
  { P with net := P.net.receive machine sendto msg }

/-- `deliver_pl` from `is_delivered` on, up to `send_beb` or `deliver_lcb`, or to its
end. -/
def StackProcess.deliverBeb (P : StackProcess) (machine : Machine) (msg : Msg) : StackProcess :=
  P.settle (startBeb machine msg P.net.data) fun result P => P.goOn msg.urbMsg result

/-- The part of `deliver_urb` after `send_beb`, up to `deliver_lcb`. -/
def StackProcess.finish (P : StackProcess) (machine : Machine) (msg : UrbMsg) : StackProcess :=
  P.settle (passLcb machine msg P.net.data) fun passed P => P.goOn msg (.ofPassed passed)

/-- A section of `deliver_lcb`. -/
def StackProcess.deliver (P : StackProcess) : StackProcess :=
  P.settle (onLcb (receiverStep P.receiver) P.net.data) fun receiver P =>
    { P with receiver := receiver }

/-! ## The steps -/

/-- What a process does in a step. -/
inductive StackAction where
  | net (action : NetAction)
  | deliver

/-- The steps that are the same with and without the sections of `deliver_lcb`, wherever
the receiver thread stands in it. -/
def NetAction.Lower : NetAction → Prop
  | .copy => False
  | .receive _ _ => False
  | .deliverBeb => False
  | .finish => False
  | _ => True

/-- The process `P` becomes `P'` in a step. -/
inductive StackStep (P : StackProcess) : StackAction → StackProcess → Prop
  | lower {action : NetAction} {net : NetProcess} (hlower : action.Lower)
      (hstep : NetStep P.net action net) : StackStep P (.net action) { P with net := net }
  | copy {i : ℕ} (hmain : P.net.main = .next i) (hi : i ≤ P.net.data.numMsg) :
      StackStep P (.net .copy) (P.copy i)
  | receive (machine : Machine) (sendto : Bool) (msg : Msg) (hnet : P.net.receiver = .idle)
      (hidle : P.receiver = .idle) :
      StackStep P (.net (.receive sendto msg)) (P.receive machine sendto msg)
  | deliverBeb {msg : Msg} (machine : Machine) (hnet : P.net.receiver = .delivering msg) :
      StackStep P (.net .deliverBeb) (P.deliverBeb machine msg)
  | finish {msg newMsg : UrbMsg} {k : ℕ} (machine : Machine)
      (hnet : P.net.receiver = .relay msg newMsg k) (hk : P.net.data.numProc < k) :
      StackStep P (.net .finish) (P.finish machine msg)
  | deliver (hbusy : P.receiver ≠ .idle) : StackStep P .deliver P.deliver

/-- The processes by pid. -/
abbrev StackSystem := ℕ → StackProcess

/-- The processes without the sections of `deliver_lcb`. -/
def StackSystem.net (s : StackSystem) : NetSystem := fun p => (s p).net

/-- Process `p` takes a step; what it receives is in the network. -/
structure StackSystemStep (cfg : Membership) (s : StackSystem) (p : ℕ) (action : StackAction)
    (t : StackSystem) : Prop where
  isPid : cfg.IsPid p
  running : (s p).net.status = .running
  network : ∀ sendto msg, action = .net (.receive sendto msg) → InNetwork cfg s.net p msg
  step : StackStep (s p) action (t p)
  frame : ∀ q, q ≠ p → t q = s q

/-- A process as it starts. -/
def StackProcess.initial (cfg : Membership) (numMsg p : ℕ) : StackProcess where
  net := NetProcess.initial cfg numMsg p
  receiver := .idle
  copies := []

/-- The system of the processes that the membership file names; process `p` is to
broadcast `numMsg p` messages. -/
def stackSystem (cfg : Membership) (numMsg : ℕ → ℕ) : TransitionSystem StackSystem where
  init s := s = fun p => StackProcess.initial cfg (numMsg p) p
  step s t := ∃ p action, StackSystemStep cfg s p action t

end CausalBroadcast
