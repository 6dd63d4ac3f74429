import CausalBroadcast.Stack.Onward
import CausalBroadcast.Stack.Refinement
import CausalBroadcast.Wire.RoundTrip

/-!
# The stack over a network of bytes

In `Stack/Threads.lean` a process receives a message that another has sent.  Here the
network has datagrams: `send_message` serializes the message, with whatever the local
array held before where `serialize` writes nothing, and `receive_msg` reads a datagram
into `next_message`, which starts uninitialized and keeps the fields that an
acknowledgement does not write.  A datagram can be lost, repeated and overtaken.

`wireReachable_iff`: as long as the rows of the messages lie inside the tables, the
two systems reach the same states of the processes.  No message is refused by
`serialize` or `deserialize`, every clock has the length and the width that the wire
format needs, and what an acknowledgement leaves in `next_message` is never used.
-/

namespace CausalBroadcast

/-! ## The system -/

/-- A process with all its layers, and `next_message` of its receiver thread. -/
structure WireProcess where
  stack : StackProcess
  nextMessage : Msg

/-- The process stops. -/
def StackProcess.stop (P : StackProcess) (status : Status) : StackProcess :=
  { P with net := { P.net with status := status } }

/-- `receive_msg` for a datagram that has arrived, and `deliver_pl` up to `is_delivered`,
or to its end. -/
def WireProcess.receive (P : WireProcess) (machine : Machine) (sendto : Bool)
    (datagram : List UInt8) : WireProcess :=
  match receiveMsg datagram P.stack.net.data.numProc P.nextMessage with
  | .ok _ msg => ⟨P.stack.receive machine sendto msg, msg⟩
  | .error code msg => ⟨P.stack.stop (.exited code), msg⟩
  | .running msg => ⟨{ P.stack with net := P.stack.net.setReceiver .stuck }, msg⟩
  | .undefined => ⟨P.stack.stop .undefined, P.nextMessage⟩

/-- The process `P` becomes `P'` in a step, in which it reads the datagram `received` if
there is one. -/
inductive WireStep (P : WireProcess) : Option (List UInt8) → WireProcess → Prop
  | receive (machine : Machine) (sendto : Bool) (datagram : List UInt8)
      (hnet : P.stack.net.receiver = .idle) (hidle : P.stack.receiver = .idle) :
      WireStep P (some datagram) (P.receive machine sendto datagram)
  | other {action : StackAction} {stack : StackProcess}
      (hother : ∀ sendto msg, action ≠ .net (.receive sendto msg))
      (hstep : StackStep P.stack action stack) : WireStep P none { P with stack := stack }

/-- `datagram` is what `send_message` makes of `message`. -/
structure Serialized (numProc : ℕ) (message : ℕ × Msg) (datagram : ℕ × List UInt8) : Prop where
  dest : datagram.1 = message.1
  bytes : ∃ stack, serialize stack message.2 numProc = some datagram.2

/-- The processes by pid, and the datagrams that were sent with their destinations. -/
structure WireSystem where
  process : ℕ → WireProcess
  network : List (ℕ × List UInt8)

/-- The processes without `next_message`. -/
def WireSystem.stack (s : WireSystem) : StackSystem := fun p => (s.process p).stack

/-- Process `p` takes a step. -/
structure WireSystemStep (cfg : Membership) (s : WireSystem) (p : ℕ)
    (received : Option (List UInt8)) (t : WireSystem) : Prop where
  isPid : cfg.IsPid p
  running : (s.stack p).net.status = .running
  arrives : ∀ datagram, received = some datagram → (p, datagram) ∈ s.network
  step : WireStep (s.process p) received (t.process p)
  frame : ∀ q, q ≠ p → t.process q = s.process q
  sends : ∃ sends : List ((ℕ × Msg) × ℕ × List UInt8),
    (∀ send ∈ sends, Serialized (s.stack p).net.data.numProc send.1 send.2) ∧
    (t.stack p).net.data.sent = (s.stack p).net.data.sent ++ sends.map Prod.fst ∧
    t.network = s.network ++ sends.map Prod.snd

/-- The system of the processes over a network of bytes; `garbage` is what `next_message`
holds at the start. -/
def wireSystem (cfg : Membership) (numMsg : ℕ → ℕ) (garbage : ℕ → Msg) :
    TransitionSystem WireSystem where
  init s := s = ⟨fun p => ⟨StackProcess.initial cfg (numMsg p) p, garbage p⟩, []⟩
  step s t := ∃ p received, WireSystemStep cfg s p received t

/-! ## Messages that can be sent -/

/-- What `serialize` and `deserialize` need of a message. -/
def Sendable (numProc : ℕ) (msg : Msg) : Prop :=
  (msg.mtype = ackNo ∧ msg.ackid < 2 ^ 32) ∨
    (msg.mtype ≠ ackNo ∧ msg.IsWords ∧ msg.urbMsg.lcbMsg.vecClock.length = numProc)

/-- `deliver_pl` cannot tell `msg'` from `msg`. -/
def SameForPl (msg msg' : Msg) : Prop :=
  msg' = msg ∨ (msg.mtype = ackNo ∧ msg'.mtype = ackNo ∧ msg'.ackid = msg.ackid)

section Sendable

variable {numProc : ℕ} {msg msg' : Msg}

theorem receiveMsg_of_length {datagram : List UInt8}
    (hlength : datagram.length = messageSize numProc) (target : Msg) :
    receiveMsg datagram numProc target = deserialize (some datagram) numProc target := by
  unfold receiveMsg
  rw [← hlength, List.take_length, Nat.sub_self, List.replicate_zero, List.append_nil]

/-- `serialize` accepts the message, and `receive_msg` reads it back. -/
theorem Sendable.roundTrip (h : Sendable numProc msg) (hlt : numProc < 2 ^ 32)
    (stack : ℕ → ℕ) : ∃ datagram, serialize stack msg numProc = some datagram ∧
      ∀ target, ∃ msg', receiveMsg datagram numProc target = .ok () msg' ∧ SameForPl msg msg' := by
  rcases h with ⟨hmtype, hackid⟩ | ⟨hmtype, hwords, hlength⟩
  · obtain ⟨rest, hrest, hserialize⟩ := serialize_ack stack hmtype numProc
    refine ⟨_, hserialize, fun target => ⟨{ target with
      mid := msg.mid % 2 ^ 32, ackid := msg.ackid, sender := msg.sender % 2 ^ 32, mtype := ackNo },
      ?_, .inr ⟨hmtype, rfl, rfl⟩⟩⟩
    have hsize : (wordsBytes ([msg.mid, msg.ackid, msg.sender, msg.mtype] ++ rest)).length =
        messageSize numProc := by
      rw [length_wordsBytes, List.length_append, hrest]
      unfold messageSize
      simp only [List.length_cons, List.length_nil]
      omega
    rw [receiveMsg_of_length hsize]
    have hread : toWords (wordsBytes ([msg.mid, msg.ackid, msg.sender, msg.mtype] ++ rest)) =
        [msg.mid % 2 ^ 32, msg.ackid, msg.sender % 2 ^ 32, ackNo] ++ rest.map (· % 2 ^ 32) := by
      rw [toWords_wordsBytes, List.map_append, hmtype]
      simp only [List.map_cons, List.map_nil, Nat.mod_eq_of_lt hackid]
      rfl
    exact deserialize_ack numProc hread target
  · obtain ⟨datagram, hserialize, hsize, hread⟩ := message_roundTrip hlt stack hwords hlength hmtype
    refine ⟨datagram, hserialize, fun target => ⟨msg, ?_, .inl rfl⟩⟩
    rw [receiveMsg_of_length hsize, hread]

/-- `deliver_pl` does the same for both messages. -/
theorem SameForPl.receive (h : SameForPl msg msg') (P : StackProcess) (machine : Machine)
    (sendto : Bool) : P.receive machine sendto msg' = P.receive machine sendto msg := by
  rcases h with rfl | ⟨hmtype, hmtype', hackid⟩
  · rfl
  · -- both only record the acknowledgement
    unfold StackProcess.receive NetProcess.receive deliverPlStart
    rw [if_pos hmtype, if_pos hmtype', hackid, Call.bind_apply]
    cases setAck machine msg.ackid P.net.data <;> rfl

end Sendable

/-! ## Every message that is sent can be sent -/

section Sent

variable {cfg : Membership} {numMsg : ℕ → ℕ} {u : StackSystem}

/-- An entry of a clock that is backed by broadcasts is an `unsigned int`. -/
theorem vecClock_lt {t : LcbSystem} (ht : (lcbSystem cfg).Reachable t) {msg : LcbMsg}
    (hmem : msg ∈ t.broadcast) : ∀ n ∈ msg.vecClock, n < 2 ^ 32 := by
  have hinv := lcbInv_of_reachable ht
  obtain ⟨pre, hprefix, hsupported⟩ := hinv.broadcast.exists_of_mem hmem
  intro n hn
  obtain ⟨k, hk, rfl⟩ := List.mem_iff_getElem.mp hn
  have hlength := hsupported.fits.length
  have hpid : cfg.IsPid (k + 1) := ⟨by omega, by omega⟩
  have hentry : entry msg.vecClock (k + 1) = msg.vecClock[k] := by
    simp [entry, readEntry, hk]
  calc msg.vecClock[k] = entry msg.vecClock (k + 1) := hentry.symm
    _ ≤ (fromSender (k + 1) pre).length := hsupported.le (k + 1) hpid
    _ ≤ (fromSender (k + 1) t.broadcast).length :=
      (fromSender_mono ((List.prefix_append pre [msg]).trans hprefix)).length_le
    _ < 2 ^ 31 := hinv.length_lt hpid
    _ ≤ 2 ^ 32 := by norm_num

/-- What `sendto` was given can be serialized and read. -/
theorem sendable_of_sent (hu : (stackSystem cfg numMsg).Reachable u)
    (hin : InTables cfg u.world) {r dest : ℕ} (hr : cfg.IsPid r) {msg : Msg}
    (hsent : (dest, msg) ∈ (u r).net.data.sent) : Sendable cfg.numProc msg := by
  have hdata : DataInv cfg u.world r (u r).net.data :=
    (systemInv_of_stackReachable hu).net.data r hr
  rcases hdata.sent dest msg hsent with ⟨henqueued, hmtype⟩ | hack
  · obtain ⟨t, ht, h⟩ := exists_stackRefines hu hin
    have hbroadcast : msg.urbMsg.lcbMsg ∈ t.broadcast :=
      (h.carried r hr).enqueued ⟨dest, msg⟩ henqueued
    have htask := hdata.enqueued ⟨dest, msg⟩ henqueued
    have hgenuine := htask.genuine
    have hmsg : msg = (bebTask cfg.numProc r msg.urbMsg dest).msg := congrArg QueueTask.msg htask.eq
    have hlength := ((lcbInv_of_reachable ht).broadcast.fits hbroadcast).length
    have hnum := cfg.numProc_lt
    refine .inr ⟨hmtype, ⟨?_, ?_, ?_, ?_, ?_, ?_, ?_, vecClock_lt ht hbroadcast⟩, hlength⟩
    · rw [hmsg]
      exact Nat.mod_lt _ (Nat.two_pow_pos 32)
    · rw [hmsg]
      exact Nat.mod_lt _ (Nat.two_pow_pos 32)
    · rw [hmsg]
      exact hr.2.trans_lt (hnum.trans (by norm_num))
    · rw [hmsg]
      exact Nat.two_pow_pos 32
    · rw [hgenuine.mid]
      exact Nat.mod_lt _ (Nat.two_pow_pos 32)
    · exact hgenuine.broadcast.le.trans_lt (by decide)
    · exact hgenuine.broadcast.isPid.2.trans_lt (hnum.trans (by norm_num))
  · refine .inl ⟨hack.mtype, ?_⟩
    obtain ⟨s, -, hackid⟩ := hack.answers
    rw [hackid]
    exact Nat.mod_lt _ (Nat.two_pow_pos 32)

end Sent

/-! ## The two systems -/

/-- The datagrams in the network and the messages that were sent. -/
structure OnWire (cfg : Membership) (s : WireSystem) : Prop where
  message : ∀ datagram ∈ s.network, ∃ r, cfg.IsPid r ∧ ∃ message ∈ (s.stack r).net.data.sent,
    Serialized cfg.numProc message datagram
  datagram : ∀ r, cfg.IsPid r → ∀ message ∈ (s.stack r).net.data.sent, ∃ datagram ∈ s.network,
    Serialized cfg.numProc message datagram

section Step

variable {cfg : Membership} {numMsg : ℕ → ℕ} {garbage : ℕ → Msg} {s t : WireSystem} {p : ℕ}
  {received : Option (List UInt8)}

/-- What a step sends is in the network. -/
theorem OnWire.step (h : OnWire cfg s) (hstep : WireSystemStep cfg s p received t)
    (hnum : (s.stack p).net.data.numProc = cfg.numProc) : OnWire cfg t := by
  obtain ⟨sends, hserialized, hsent, hnetwork⟩ := hstep.sends
  rw [hnum] at hserialized
  have hother : ∀ q, q ≠ p → t.stack q = s.stack q := fun q hqp =>
    congrArg WireProcess.stack (hstep.frame q hqp)
  refine ⟨fun datagram hmem => ?_, fun r hr message hmem => ?_⟩
  · rw [hnetwork] at hmem
    rcases List.mem_append.mp hmem with hmem | hmem
    · obtain ⟨r, hr, message, hmessage, hbytes⟩ := h.message datagram hmem
      refine ⟨r, hr, message, ?_, hbytes⟩
      by_cases hrp : r = p
      · subst hrp
        rw [hsent]
        exact List.mem_append_left _ hmessage
      · rw [hother r hrp]
        exact hmessage
    · obtain ⟨send, hsend, rfl⟩ := List.mem_map.mp hmem
      refine ⟨p, hstep.isPid, send.1, ?_, hserialized send hsend⟩
      rw [hsent]
      exact List.mem_append_right _ (List.mem_map_of_mem hsend)
  · rw [hnetwork]
    by_cases hrp : r = p
    · subst hrp
      rw [hsent] at hmem
      rcases List.mem_append.mp hmem with hmem | hmem
      · obtain ⟨datagram, hdatagram, hbytes⟩ := h.datagram r hr message hmem
        exact ⟨datagram, List.mem_append_left _ hdatagram, hbytes⟩
      · obtain ⟨send, hsend, rfl⟩ := List.mem_map.mp hmem
        exact ⟨send.2, List.mem_append_right _ (List.mem_map_of_mem hsend), hserialized send hsend⟩
    · rw [hother r hrp] at hmem
      obtain ⟨datagram, hdatagram, hbytes⟩ := h.datagram r hr message hmem
      exact ⟨datagram, List.mem_append_left _ hdatagram, hbytes⟩

/-- A datagram is read as the message that was sent. -/
theorem exists_stackStep_of_wireStep (hs : (stackSystem cfg numMsg).Reachable s.stack)
    (hin : InTables cfg s.stack.world) (h : OnWire cfg s)
    (hnum : (s.stack p).net.data.numProc = cfg.numProc)
    (hstep : WireSystemStep cfg s p received t) :
    ∃ action, StackSystemStep cfg s.stack p action t.stack := by
  have hframe : ∀ q, q ≠ p → t.stack q = s.stack q := fun q hqp =>
    congrArg WireProcess.stack (hstep.frame q hqp)
  have hkind := hstep.step
  have harrives := hstep.arrives
  generalize hP' : t.process p = P' at hkind
  have hstack : t.stack p = P'.stack := congrArg WireProcess.stack hP'
  cases hkind with
  | @other action stack hother hstep' =>
      refine ⟨action, hstep.isPid, hstep.running, fun sendto msg haction => ?_, ?_, hframe⟩
      · exact absurd haction (hother sendto msg)
      · rw [hstack]
        exact hstep'
  | receive machine sendto datagram hnet hidle =>
      obtain ⟨r, hr, ⟨dest, msg⟩, hsent, hserialized⟩ := h.message _ (harrives datagram rfl)
      obtain rfl : p = dest := hserialized.dest
      obtain ⟨stack, hbytes⟩ := hserialized.bytes
      -- The bytes determine the message but for the fields that an acknowledgement does not send.
      have hsendable := sendable_of_sent hs hin hr hsent
      obtain ⟨datagram', hbytes', hread⟩ :=
        hsendable.roundTrip (cfg.numProc_lt.trans (by norm_num)) stack
      obtain rfl : datagram' = datagram := Option.some.inj (hbytes'.symm.trans hbytes)
      obtain ⟨msg', hmsg', hsame⟩ := hread (s.process p).nextMessage
      have hreceive : ((s.process p).receive machine sendto datagram').stack =
          (s.stack p).receive machine sendto msg := by
        have hnum' : (s.process p).stack.net.data.numProc = cfg.numProc := hnum
        unfold WireProcess.receive
        rw [hnum', hmsg']
        exact hsame.receive _ machine sendto
      refine ⟨.net (.receive sendto msg), hstep.isPid, hstep.running, fun _ msg' haction => ?_, ?_,
        hframe⟩
      · cases haction
        exact ⟨r, hr, hsent⟩
      · rw [hstack, hreceive]
        exact .receive machine sendto msg hnet hidle

/-- A message is received as a datagram that was made of it. -/
theorem exists_wireStep_of_stackStep {u' : StackSystem}
    (hs : (stackSystem cfg numMsg).Reachable s.stack)
    (hs' : (stackSystem cfg numMsg).Reachable u') (hin' : InTables cfg u'.world)
    (hin : InTables cfg s.stack.world) (h : OnWire cfg s)
    (hnum : (s.stack p).net.data.numProc = cfg.numProc) {action : StackAction}
    (hstep : StackSystemStep cfg s.stack p action u') :
    ∃ t received, WireSystemStep cfg s p received t ∧ t.stack = u' := by
  have hp := hstep.isPid
  -- what the step sends
  obtain ⟨sent, hsent⟩ := hstep.step.onward.sent
  let datagramOf : ℕ × Msg → ℕ × List UInt8 := fun message =>
    (message.1, (serialize (fun _ => 0) message.2 cfg.numProc).getD [])
  have hserialized : ∀ message ∈ sent, Serialized cfg.numProc message (datagramOf message) := by
    intro message hmessage
    have hmem : (message.1, message.2) ∈ (u' p).net.data.sent :=
      hsent ▸ List.mem_append_right _ hmessage
    have hsendable := sendable_of_sent hs' hin' hp hmem
    obtain ⟨datagram, hbytes, -⟩ :=
      hsendable.roundTrip (cfg.numProc_lt.trans (by norm_num)) fun _ => 0
    refine ⟨rfl, fun _ => 0, ?_⟩
    show _ = some ((serialize (fun _ => 0) message.2 cfg.numProc).getD [])
    rw [hbytes]
    rfl
  -- it is enough to find the step of `p`
  suffices hprocess : ∃ received P', WireStep (s.process p) received P' ∧ P'.stack = u' p ∧
      ∀ datagram, received = some datagram → (p, datagram) ∈ s.network by
    obtain ⟨received, P', hwire, hstack, harrives⟩ := hprocess
    have ht : WireSystem.stack ⟨Function.update s.process p P',
        s.network ++ sent.map datagramOf⟩ = u' := by
      funext q
      show (Function.update s.process p P' q).stack = u' q
      by_cases hqp : q = p
      · subst hqp
        rw [Function.update_self, hstack]
      · rw [Function.update_of_ne hqp, hstep.frame q hqp]
        rfl
    refine ⟨⟨Function.update s.process p P', s.network ++ sent.map datagramOf⟩, received, ?_, ht⟩
    refine ⟨hp, hstep.running, harrives, ?_, fun q hqp => Function.update_of_ne hqp .., ?_⟩
    · show WireStep (s.process p) received (Function.update s.process p P' p)
      rw [Function.update_self]
      exact hwire
    · refine ⟨sent.map fun message => (message, datagramOf message), fun send hsend => ?_, ?_, ?_⟩
      · obtain ⟨message, hmessage, rfl⟩ := List.mem_map.mp hsend
        rw [hnum]
        exact hserialized message hmessage
      · rw [ht, ← hsent, List.map_map]
        exact congrArg _ (List.map_id _).symm
      · rw [List.map_map]
        rfl
  have hkind := hstep.step
  by_cases hreceive : ∃ sendto msg, action = .net (.receive sendto msg)
  · obtain ⟨sendto, msg, rfl⟩ := hreceive
    generalize u' p = P' at hkind
    cases hkind with
    | lower hlower => exact hlower.elim
    | receive machine _ _ hnet hidle =>
        obtain ⟨r, hr, hmem⟩ := hstep.network sendto msg rfl
        obtain ⟨⟨dest, datagram⟩, hdatagram, hmade⟩ := h.datagram r hr (p, msg) hmem
        obtain rfl : dest = p := hmade.dest
        obtain ⟨stack, hbytes⟩ := hmade.bytes
        have hsendable := sendable_of_sent hs hin hr hmem
        obtain ⟨datagram', hbytes', hread⟩ :=
          hsendable.roundTrip (cfg.numProc_lt.trans (by norm_num)) stack
        obtain rfl : datagram' = datagram := Option.some.inj (hbytes'.symm.trans hbytes)
        obtain ⟨msg', hmsg', hsame⟩ := hread (s.process dest).nextMessage
        refine ⟨_, _, .receive machine sendto datagram' hnet hidle, ?_, ?_⟩
        · have hnum' : (s.process dest).stack.net.data.numProc = cfg.numProc := hnum
          unfold WireProcess.receive
          rw [hnum', hmsg']
          exact hsame.receive _ machine sendto
        · rintro _ ⟨⟩
          exact hdatagram
  · have hother : ∀ sendto msg, action ≠ .net (.receive sendto msg) := fun sendto msg haction =>
      hreceive ⟨sendto, msg, haction⟩
    exact ⟨none, _, .other hother hkind, rfl, nofun⟩

end Step

/-! ## The runs -/

section Run

variable {cfg : Membership} {numMsg : ℕ → ℕ} {garbage : ℕ → Msg}

theorem numProc_of_stackReachable {u : StackSystem} (hu : (stackSystem cfg numMsg).Reachable u)
    {p : ℕ} (hp : cfg.IsPid p) : (u p).net.data.numProc = cfg.numProc :=
  ((systemInv_of_stackReachable hu).net.data p hp).numProc

/-- A step leads onward, whatever the datagram that it reads. -/
theorem WireStep.onward {P P' : WireProcess} {received : Option (List UInt8)}
    (hstep : WireStep P received P') : Onward P.stack.net.data P'.stack.net.data := by
  cases hstep with
  | other hother hstep => exact hstep.onward
  | receive machine sendto datagram hnet hidle =>
      unfold WireProcess.receive
      cases receiveMsg datagram P.stack.net.data.numProc P.nextMessage with
      | ok _ msg => exact StackStep.onward (.receive machine sendto msg hnet hidle)
      | error code msg => exact .refl _
      | running msg => exact .refl _
      | undefined => exact .refl _

/-- The urb table keeps its size. -/
theorem urbTotal_of_wireReachable {s : WireSystem}
    (hs : (wireSystem cfg numMsg garbage).Reachable s) :
    ∀ p, (s.stack p).net.data.urbTable.totalEntries = urbTotal cfg := by
  refine hs.invariant
    (I := fun s => ∀ p, (s.stack p).net.data.urbTable.totalEntries = urbTotal cfg) ?_ ?_
  · rintro _ rfl p
    rfl
  · rintro s t - h ⟨p, received, hstep⟩ q
    by_cases hqp : q = p
    · subst hqp
      refine (hstep.step.onward.seen ?_ ?_).1.trans (h q)
      · exact (h q).symm ▸ urbTotal_pos cfg
      · exact (h q).symm ▸ urbTotal_lt cfg
    · rw [show t.stack q = s.stack q from congrArg WireProcess.stack (hstep.frame q hqp)]
      exact h q

/-- Rows that lie inside the tables did so before. -/
theorem inTables_of_wireStep {s t : WireSystem} (hs : (wireSystem cfg numMsg garbage).Reachable s)
    {p : ℕ} {received : Option (List UInt8)} (hstep : WireSystemStep cfg s p received t)
    (hin : InTables cfg t.stack.world) : InTables cfg s.stack.world := by
  intro q hq id hseen
  refine hin q hq id ?_
  have htotal := urbTotal_of_wireReachable hs q
  by_cases hqp : q = p
  · subst hqp
    refine (hstep.step.onward.seen ?_ ?_).2 id hseen
    · exact htotal.symm ▸ urbTotal_pos cfg
    · exact htotal.symm ▸ urbTotal_lt cfg
  · have hother : t.stack q = s.stack q := congrArg WireProcess.stack (hstep.frame q hqp)
    show Seen (t.stack q).net.data id
    rw [hother]
    exact hseen

theorem onWire_initial (cfg : Membership) (numMsg : ℕ → ℕ) (garbage : ℕ → Msg) :
    OnWire cfg ⟨fun p => ⟨StackProcess.initial cfg (numMsg p) p, garbage p⟩, []⟩ :=
  ⟨nofun, fun _ _ _ hmessage => nomatch hmessage⟩

theorem stackReachable_of_wireReachable {s : WireSystem}
    (hs : (wireSystem cfg numMsg garbage).Reachable s) (hin : InTables cfg s.stack.world) :
    (stackSystem cfg numMsg).Reachable s.stack ∧ OnWire cfg s := by
  induction hs with
  | init h =>
      subst h
      exact ⟨.init rfl, onWire_initial cfg numMsg garbage⟩
  | step hs hstep ih =>
      obtain ⟨p, received, hstep⟩ := hstep
      have hbefore := inTables_of_wireStep hs hstep hin
      obtain ⟨hstack, hwire⟩ := ih hbefore
      have hnum := numProc_of_stackReachable hstack hstep.isPid
      obtain ⟨action, hstep'⟩ := exists_stackStep_of_wireStep hstack hbefore hwire hnum hstep
      exact ⟨hstack.step ⟨p, action, hstep'⟩, hwire.step hstep hnum⟩

theorem exists_wireReachable (garbage : ℕ → Msg) {u : StackSystem}
    (hu : (stackSystem cfg numMsg).Reachable u) (hin : InTables cfg u.world) :
    ∃ s, (wireSystem cfg numMsg garbage).Reachable s ∧ s.stack = u ∧ OnWire cfg s := by
  refine hu.simulate (R := fun u (s : WireSystem) => s.stack = u ∧ OnWire cfg s)
    (B := fun u => InTables cfg u.world) ?_ ?_ ?_ hin
  · rintro _ rfl
    exact ⟨_, rfl, rfl, onWire_initial cfg numMsg garbage⟩
  · intro u u' hu hstep hin
    exact inTables_of_stackStep hu hstep hin
  · rintro _ u' s hu hs ⟨rfl, hwire⟩ hstep hin
    have hu' := hu.step hstep
    have hbefore := inTables_of_stackStep hu hstep hin
    obtain ⟨p, action, hstep⟩ := hstep
    have hnum := numProc_of_stackReachable hu hstep.isPid
    obtain ⟨t, received, hwire', ht⟩ :=
      exists_wireStep_of_stackStep hu hu' hin hbefore hwire hnum hstep
    exact ⟨t, .single ⟨p, received, hwire'⟩, ht, hwire.step hwire' hnum⟩

end Run

end CausalBroadcast
