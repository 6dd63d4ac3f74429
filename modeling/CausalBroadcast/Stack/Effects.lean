import CausalBroadcast.Stack.Invariant

/-!
# What the layers below leave to the causal layer

A call of the layers below changes nothing of the causal layer but the line `b i`
that `send_urb` logs, and hands on only messages that it has got: a message that
reaches `send_beb` or a task was passed to `send_urb` before.
-/

namespace CausalBroadcast

/-- The messages that the process has handed to `send_beb` and enqueued are among
`broadcast`. -/
structure Carried (broadcast : List LcbMsg) (d : NetData) : Prop where
  sentBeb : ∀ msg ∈ d.sentBeb, msg.lcbMsg ∈ broadcast
  enqueued : ∀ task ∈ d.enqueued, task.msg.urbMsg.lcbMsg ∈ broadcast

theorem Carried.mono {broadcast broadcast' : List LcbMsg} {d : NetData}
    (h : Carried broadcast d) (hsubset : broadcast ⊆ broadcast') : Carried broadcast' d :=
  ⟨fun msg hmsg => hsubset (h.sentBeb msg hmsg), fun task htask => hsubset (h.enqueued task htask)⟩

/-- What a call that has passed the messages `passed` up has done otherwise. -/
structure Beneath (broadcast : List LcbMsg) (d : NetData) (passed : List UrbMsg) (d' : NetData) :
    Prop where
  lcb : d'.lcb = d.lcb
  sentUrb : d'.sentUrb = d.sentUrb
  deliveredLcb : d'.deliveredLcb = d.deliveredLcb ++ passed
  carried : Carried broadcast d → Carried broadcast d'

section Beneath

variable {broadcast : List LcbMsg} {d d' d'' : NetData}

/-- A call that changes only tables and what was sent. -/
theorem Beneath.of_eq (hlcb : d'.lcb = d.lcb) (hsentUrb : d'.sentUrb = d.sentUrb)
    (hdelivered : d'.deliveredLcb = d.deliveredLcb) (hsentBeb : d'.sentBeb = d.sentBeb)
    (henqueued : d'.enqueued = d.enqueued) : Beneath broadcast d [] d' := by
  refine ⟨hlcb, hsentUrb, by rw [hdelivered, List.append_nil], fun h => ⟨?_, ?_⟩⟩
  · rw [hsentBeb]
    exact h.sentBeb
  · rw [henqueued]
    exact h.enqueued

theorem Beneath.refl (d : NetData) : Beneath broadcast d [] d := .of_eq rfl rfl rfl rfl rfl

theorem Beneath.trans {passed passed' : List UrbMsg} (h : Beneath broadcast d passed d')
    (h' : Beneath broadcast d' passed' d'') : Beneath broadcast d (passed ++ passed') d'' where
  lcb := h'.lcb.trans h.lcb
  sentUrb := h'.sentUrb.trans h.sentUrb
  deliveredLcb := by rw [h'.deliveredLcb, h.deliveredLcb, List.append_assoc]
  carried hcarried := h'.carried (h.carried hcarried)

/-- A message that was passed to `send_urb` before is handed to `send_beb`. -/
theorem Carried.handBeb {msg : UrbMsg} (h : Carried broadcast d) (hmem : msg.lcbMsg ∈ broadcast)
    (hsentBeb : d'.sentBeb = d.sentBeb ++ [msg]) (henqueued : d'.enqueued = d.enqueued) :
    Carried broadcast d' := by
  refine ⟨fun msg' hmsg' => ?_, by rw [henqueued]; exact h.enqueued⟩
  rw [hsentBeb] at hmsg'
  rcases List.mem_append.mp hmsg' with hmsg' | hmsg'
  · exact h.sentBeb msg' hmsg'
  · rw [List.mem_singleton.mp hmsg']
    exact hmem

end Beneath

/-! ## The calls -/

/-- The messages that the result says are passed to `deliver_lcb`. -/
def PlResult.passed (msg : UrbMsg) : PlResult → List UrbMsg
  | .pass _ => [msg]
  | _ => []

/-- What is passed to `deliver_lcb` is the message that has arrived, and was broadcast. -/
def PlResult.Carries (broadcast : List LcbMsg) (msg : UrbMsg) : PlResult → Prop
  | .pass lcbMsg => lcbMsg = msg.lcbMsg ∧ lcbMsg ∈ broadcast
  | _ => True

section Calls

variable (machine : Machine) {broadcast : List LcbMsg} {d : NetData}

theorem passLcb_beneath (hpos : 0 < d.urbTable.totalEntries)
    (hlt : d.urbTable.totalEntries < 2 ^ 32) {msg : UrbMsg} (hmem : msg.lcbMsg ∈ broadcast) :
    (passLcb machine msg d).Meets
      (fun passed d' => Beneath broadcast d ((PlResult.ofPassed passed).passed msg) d' ∧
        (PlResult.ofPassed passed).Carries broadcast msg)
      (fun _ d' => Beneath broadcast d [] d') (fun d' => Beneath broadcast d [] d') := by
  refine (passLcb_meets machine hpos hlt msg).mono ?_ ?_ ?_
  · rintro (_ | lcbMsg) d' hresult
    · obtain rfl := hresult
      exact ⟨.refl d', trivial⟩
    · obtain ⟨hmsg, -, -, -, rfl⟩ := hresult
      exact ⟨⟨rfl, rfl, rfl, fun h => ⟨h.sentBeb, h.enqueued⟩⟩, hmsg, hmsg ▸ hmem⟩
  · rintro code _ rfl
    exact .refl _
  · rintro _ rfl
    exact .refl _

theorem startUrb_beneath (hpos : 0 < d.urbTable.totalEntries)
    (hlt : d.urbTable.totalEntries < 2 ^ 32) {msg : UrbMsg} (hmem : msg.lcbMsg ∈ broadcast) :
    (startUrb machine msg d).Meets
      (fun result d' => Beneath broadcast d (result.passed msg) d' ∧ result.Carries broadcast msg)
      (fun _ d' => Beneath broadcast d [] d') (fun d' => Beneath broadcast d [] d') := by
  unfold startUrb
  rw [Call.bind_apply]
  refine (deliverUrbStart_meets machine hpos hlt msg rfl).andThen ?_ ?_ ?_
  · rintro code _ ⟨-, ⟨-, rfl⟩ | ⟨table, -, ⟨-, rfl⟩ | ⟨-, -, -, rfl⟩⟩⟩
    · exact .refl _
    · exact .of_eq rfl rfl rfl rfl rfl
    · exact .of_eq rfl rfl rfl rfl rfl
  · rintro _ ⟨table, -, ⟨-, rfl⟩ | ⟨-, rfl⟩ | ⟨-, -, -, table', -, rfl⟩⟩
    · exact .of_eq rfl rfl rfl rfl rfl
    · exact .of_eq rfl rfl rfl rfl rfl
    · exact .of_eq rfl rfl rfl rfl rfl
  · rintro (_ | newMsg) d₁ ⟨table, -, hresult⟩
    · obtain ⟨-, rfl⟩ := hresult
      have hstart : Beneath broadcast d [] { d with urbacks := table } :=
        .of_eq rfl rfl rfl rfl rfl
      refine (passLcb_beneath machine (d := { d with urbacks := table }) hpos hlt hmem).andThen
        (fun _ _ => hstart.trans) (fun _ => hstart.trans) fun passed d₂ hd => ?_
      exact ⟨hstart.trans hd.1, hd.2⟩
    · obtain ⟨-, -, -, -, hnew, table', -, rfl⟩ := hresult
      have hmem' : newMsg.lcbMsg ∈ broadcast := by rwa [hnew]
      exact ⟨⟨rfl, rfl, (List.append_nil _).symm, fun h => h.handBeb hmem' rfl rfl⟩, trivial⟩

theorem deliverPlStart_beneath (broadcast : List LcbMsg) (d : NetData) (sendto : Bool)
    (msg : Msg) :
    (deliverPlStart machine sendto msg d).Meets (fun _ d' => Beneath broadcast d [] d')
      (fun _ d' => Beneath broadcast d [] d') (fun d' => Beneath broadcast d [] d') := by
  refine (deliverPlStart_meets machine sendto msg d).mono ?_ ?_ ?_
  · rintro (_ | _) d' hresult
    · obtain ⟨-, -, table, -, rfl⟩ := hresult
      exact .of_eq rfl rfl rfl rfl rfl
    · obtain ⟨-, -, -, rfl⟩ := hresult
      exact .of_eq rfl rfl rfl rfl rfl
  · rintro code _ ⟨-, rfl⟩
    exact .refl _
  · rintro _ ⟨-, -, table, -, rfl⟩
    exact .of_eq rfl rfl rfl rfl rfl

theorem startBeb_beneath (hpos : 0 < d.urbTable.totalEntries)
    (hlt : d.urbTable.totalEntries < 2 ^ 32) {msg : Msg}
    (hmem : msg.urbMsg.lcbMsg ∈ broadcast) :
    (startBeb machine msg d).Meets
      (fun result d' => Beneath broadcast d (result.passed msg.urbMsg) d' ∧
        result.Carries broadcast msg.urbMsg)
      (fun _ d' => Beneath broadcast d [] d') (fun d' => Beneath broadcast d [] d') := by
  refine (recordDelivery_meets machine msg d).andThen ?_ ?_ ?_
  · rintro code _ ⟨-, -, rfl⟩
    exact .refl _
  · rintro _ ⟨-, table, rfl⟩
    exact .of_eq rfl rfl rfl rfl rfl
  · rintro (_ | _) d₁ hresult
    · obtain ⟨-, rfl⟩ := hresult
      exact ⟨.refl _, trivial⟩
    · obtain ⟨-, table, -, rfl⟩ := hresult
      have hstart : Beneath broadcast d [] { d with
          plDelivered := table
          deliveredBeb := d.deliveredBeb ++ [msg] } := .of_eq rfl rfl rfl rfl rfl
      exact (startUrb_beneath machine (d := { d with
          plDelivered := table
          deliveredBeb := d.deliveredBeb ++ [msg] }) hpos hlt hmem).mono
        (fun _ _ hd => ⟨hstart.trans hd.1, hd.2⟩) (fun _ _ => hstart.trans) fun _ => hstart.trans

/-- `send_urb` was called for `lcbMsg` and has not come to its line. -/
structure Announced (lcbMsg : LcbMsg) (d d' : NetData) : Prop where
  lcb : d'.lcb = d.lcb
  sentUrb : d'.sentUrb = d.sentUrb ++ [lcbMsg]
  deliveredLcb : d'.deliveredLcb = d.deliveredLcb
  sentBeb : d'.sentBeb = d.sentBeb
  enqueued : d'.enqueued = d.enqueued

/-- `send_urb` has come to `send_beb`, with the line written. -/
structure HandedOn (i : ℕ) (lcbMsg : LcbMsg) (d : NetData) (newMsg : UrbMsg) (d' : NetData) :
    Prop where
  carries : newMsg.lcbMsg = lcbMsg
  lcb : d'.lcb = { d.lcb with log := d.lcb.log ++ [.broadcast i] }
  sentUrb : d'.sentUrb = d.sentUrb ++ [lcbMsg]
  deliveredLcb : d'.deliveredLcb = d.deliveredLcb
  sentBeb : d'.sentBeb = d.sentBeb ++ [newMsg]
  enqueued : d'.enqueued = d.enqueued
  le : u32 (d.numProc * (i - 1) + d.selfPid - 1) ≤ maxSizeUrb

theorem sendUrb_handedOn (hpos : 0 < d.urbTable.totalEntries)
    (hlt : d.urbTable.totalEntries < 2 ^ 32) (i : ℕ) (lcbMsg : LcbMsg) :
    (sendUrb machine i lcbMsg d).Meets (HandedOn i lcbMsg d) (fun _ => Announced lcbMsg d)
      (Announced lcbMsg d) := by
  simp only [sendUrb, Call.bind_apply, Call.modify_apply, Call.state_apply, Outcome.ok_andThen]
  refine (addSeenUrb_meets machine _
    (d := { d with sentUrb := d.sentUrb ++ [lcbMsg] }) hpos hlt).andThen ?_ ?_ ?_
  · rintro _ _ ⟨-, -, rfl⟩
    exact ⟨rfl, rfl, rfl, rfl, rfl⟩
  · rintro _ ⟨-, rfl⟩
    exact ⟨rfl, rfl, rfl, rfl, rfl⟩
  · rintro _ _ ⟨hcap, -, rfl⟩
    refine (setAckUrb_meets machine _ _).andThen ?_ ?_ ?_
    · rintro _ _ ⟨-, -, rfl⟩
      exact ⟨rfl, rfl, rfl, rfl, rfl⟩
    · rintro _ ⟨-, table, -, rfl⟩
      exact ⟨rfl, rfl, rfl, rfl, rfl⟩
    · rintro _ _ ⟨-, table, -, rfl⟩
      exact ⟨rfl, rfl, rfl, rfl, rfl, rfl, hcap⟩

end Calls

end CausalBroadcast
