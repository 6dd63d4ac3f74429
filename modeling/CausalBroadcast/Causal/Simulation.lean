import CausalBroadcast.Causal.Threads

/-!
# The receiver thread runs `deliver_lcb`

`Model/Pending.lean` has `deliver_lcb` as one call, with its loops; the thread
system has it cut into steps.  `runsTo_deliverLcb` connects the two: from the
entry of `deliver_lcb` the receiver thread reaches what the call comes to, on the
same data.
-/

namespace CausalBroadcast

variable {α β : Type}

/-- Steps of the receiver thread with nothing in between. -/
abbrev ReceiverRun := Relation.ReflTransGen fun a b : Lcb × Receiver => b = receiverNext a.1 a.2

/-- The receiver thread, started at `start`, reaches what a call comes to; after a
normal return it stands at `next`. -/
def RunsTo (start : Lcb × Receiver) (next : α → Lcb → Receiver) :
    Outcome ErrorCode Lcb α → Prop
  | .ok value data => ReceiverRun start (data, next value data)
  | .error _ data => ReceiverRun start (data, .exited)
  | .running data => ∃ receiver, ReceiverRun start (data, receiver)
  | .undefined => ∃ data, ReceiverRun start (data, .undefined)

theorem RunsTo.head {start middle : Lcb × Receiver} {next : α → Lcb → Receiver}
    {outcome : Outcome ErrorCode Lcb α} (hrun : ReceiverRun start middle)
    (h : RunsTo middle next outcome) : RunsTo start next outcome := by
  cases outcome with
  | ok value data => exact hrun.trans h
  | error code data => exact hrun.trans h
  | running data => exact h.imp fun _ => hrun.trans
  | undefined => exact h.imp fun _ => hrun.trans

theorem RunsTo.andThen {start : Lcb × Receiver} {next : α → Lcb → Receiver}
    {next' : β → Lcb → Receiver} {outcome : Outcome ErrorCode Lcb α}
    {rest : α → Call ErrorCode Lcb β} (h : RunsTo start next outcome)
    (hrest : ∀ value data, RunsTo (data, next value data) next' (rest value data)) :
    RunsTo start next' (outcome.andThen rest) := by
  cases outcome with
  | ok value data => exact (hrest value data).head h
  | error code data => exact h
  | running data => exact h
  | undefined => exact h

theorem runsTo_step (data : Lcb) (receiver : Receiver) :
    RunsTo (data, receiver) (fun receiver _ => receiver) (receiverStep receiver data) := by
  have hstep : ReceiverRun (data, receiver) (receiverNext data receiver) := .single rfl
  unfold receiverNext at hstep
  cases hcase : receiverStep receiver data with
  | ok receiver' data' => rwa [hcase] at hstep
  | error code data' => rwa [hcase] at hstep
  | running data' => exact ⟨receiver, by rwa [hcase] at hstep⟩
  | undefined => exact ⟨data, by rwa [hcase] at hstep⟩

/-! ## The steps of one delivery -/

/-- Counting a message and writing its line; the thread then goes on at `after`. -/
theorem runsTo_count (msg : LcbMsg) {site : Site} {after : Receiver}
    {rest : LcbCall Unit}
    (hrest : ∀ seq data, RunsTo (data, .logging msg seq site) (fun _ _ => after)
      ((do logDeliverLcb msg.originalSender seq; rest) data)) (data : Lcb) :
    RunsTo (data, .updating msg site) (fun _ _ => after)
      ((do
        let seq ← updateVecClock msg.originalSender
        noteDelivery msg
        logDeliverLcb msg.originalSender seq
        rest) data) := by
  have hstep := runsTo_step data (.updating msg site)
  simp only [receiverStep, Call.bind_apply] at hstep ⊢
  cases hupdate : updateVecClock msg.originalSender data with
  | ok seq data' =>
      rw [hupdate] at hstep
      exact (hrest seq _).head hstep
  | error code data' => rw [hupdate] at hstep; exact hstep
  | running data' => rw [hupdate] at hstep; exact hstep
  | undefined => rw [hupdate] at hstep; exact hstep

/-- Writing the line of a pending message, advancing the cursor and removing. -/
theorem runsTo_remove (msg : LcbMsg) (i k seq : ℕ) (data : Lcb) :
    RunsTo (data, .logging msg seq (.pending i k)) (fun _ _ => .scanning i .freed true)
      ((do
        logDeliverLcb msg.originalSender seq
        let data ← Call.state
        removeVeclist i (cursorAt (pendingList data i) (k + 1))) data) := by
  have hstep := runsTo_step data (.logging msg seq (.pending i k))
  simp only [receiverStep, logDeliverLcb, Call.bind_apply, Call.modify_apply,
    Outcome.ok_andThen, Call.state_apply] at hstep ⊢
  generalize pendingList _ i = nodes at hstep ⊢
  rcases cursorAt_cases nodes (k + 1) with ⟨_, hcursor⟩ | ⟨_, hcursor⟩ <;>
    rw [hcursor] at hstep ⊢ <;> exact hstep

/-! ## The loops of `find_pending` -/

theorem runsTo_findPendingList (i : ℕ) : ∀ (rounds : ℕ) (ptr : Cursor) (foundOne : Bool)
    (data : Lcb), RunsTo (data, .scanning i ptr foundOne)
      (fun foundOne _ => .scanning i .null foundOne)
      (findPendingList i rounds ptr foundOne data) := by
  intro rounds
  induction rounds with
  | zero =>
      intro ptr foundOne data
      cases ptr with
      | null => exact .refl
      | node k => exact ⟨_, .refl⟩
      | freed => exact ⟨_, .refl⟩
  | succ rounds ih =>
      intro ptr foundOne data
      have hstep := runsTo_step data (.scanning i ptr foundOne)
      cases ptr with
      | null => exact .refl
      | freed => exact hstep
      | node k =>
          simp only [receiverStep, findPendingList, Call.bind_apply, Call.state_apply,
            Outcome.ok_andThen] at hstep ⊢
          cases hnode : (pendingList data i)[k]? with
          | none => rw [hnode] at hstep; exact hstep
          | some clock =>
              simp only [hnode, Call.access_some, Outcome.ok_andThen, Call.bind_apply] at hstep ⊢
              rcases testVecClock_cases clock (i + 1) data with htest | ⟨accepted, htest⟩
              · rw [htest] at hstep ⊢; exact hstep
              · rw [htest] at hstep ⊢
                cases accepted with
                | false => exact (ih (.node k) foundOne data).head hstep
                | true =>
                    -- the call up to the removal, then the rest of the loop
                    have hdelivery := runsTo_count ⟨clock, i + 1⟩
                      (fun seq data => runsTo_remove ⟨clock, i + 1⟩ i k seq data) data
                    have hfound : ReceiverRun (data, .scanning i (.node k) foundOne)
                        (data, .updating ⟨clock, i + 1⟩ (.pending i k)) := hstep
                    refine RunsTo.head hfound ?_
                    convert hdelivery.andThen fun _ data => ih .freed true data using 1
                    show (updateVecClock (i + 1) data).andThen _ =
                      ((updateVecClock (i + 1) data).andThen _).andThen _
                    cases updateVecClock (i + 1) data <;> rfl

theorem runsTo_findPendingFrom (rounds : ℕ) : ∀ (n i : ℕ) (foundOne : Bool) (data : Lcb),
    i + n = data.lcbPending.length →
    RunsTo (data, turnTo data i foundOne)
      (fun foundOne _ => if foundOne then .calling else .idle)
      (findPendingFrom rounds i n foundOne data) := by
  intro n
  induction n with
  | zero =>
      intro i foundOne data hlength
      unfold turnTo
      rw [if_neg (by omega)]
      exact .refl
  | succ n ih =>
      intro i foundOne data hlength
      unfold turnTo
      rw [if_pos (by omega)]
      show RunsTo _ _ ((findPendingList i rounds (cursorAt (pendingList data i) 0) foundOne
        data).andThen fun foundOne => findPendingFrom rounds (i + 1) n foundOne)
      have hlist := runsTo_findPendingList i rounds (cursorAt (pendingList data i) 0) foundOne data
      cases hcase : findPendingList i rounds (cursorAt (pendingList data i) 0) foundOne data with
      | ok value data' =>
          rw [hcase] at hlist
          obtain ⟨-, -, rfl⟩ := findPendingList_ok hcase
          have hturn : ReceiverRun (data', .scanning i .null value)
              (data', turnTo data' (i + 1) value) := .single rfl
          exact ((ih (i + 1) value data' (by omega)).head hturn).head hlist
      | error code data' => rwa [hcase] at hlist
      | running data' => rwa [hcase] at hlist
      | undefined => rwa [hcase] at hlist

theorem runsTo_findPending (rounds : ℕ) (data : Lcb) :
    RunsTo (data, .calling) (fun foundOne _ => if foundOne then .calling else .idle)
      (findPending rounds data) :=
  (runsTo_findPendingFrom rounds data.lcbPending.length 0 false data (Nat.zero_add _)).head
    (.single rfl)

theorem runsTo_findAllPending (rounds : ℕ) : ∀ (calls : ℕ) (data : Lcb),
    RunsTo (data, .calling) (fun _ _ => .idle) (findAllPending rounds calls data) := by
  intro calls
  induction calls with
  | zero => exact fun data => ⟨_, .refl⟩
  | succ calls ih =>
      intro data
      refine (runsTo_findPending rounds data).andThen fun foundOne data => ?_
      cases foundOne with
      | true => exact ih data
      | false => exact .refl

/-- The receiver thread, with a message handed over, runs `deliver_lcb`. -/
theorem runsTo_deliverLcb (rounds : ℕ) (msg : LcbMsg) (data : Lcb) :
    RunsTo (data, .testing msg) (fun _ _ => .idle) (deliverLcb rounds msg data) := by
  have hstep := runsTo_step data (.testing msg)
  simp only [receiverStep, deliverLcb, Call.bind_apply] at hstep ⊢
  rcases testVecClock_cases msg.vecClock msg.originalSender data with htest | ⟨accepted, htest⟩
  · rw [htest] at hstep ⊢; exact hstep
  · rw [htest] at hstep ⊢
    cases accepted with
    | true =>
        have haccepted : ReceiverRun (data, .testing msg) (data, .updating msg .direct) := hstep
        refine RunsTo.head haccepted ?_
        exact runsTo_count msg (fun seq data => (runsTo_findAllPending rounds rounds _).head
          (.single rfl)) data
    | false =>
        simp only [Outcome.ok_andThen, Bool.false_eq_true, if_false, Call.bind_apply] at hstep ⊢
        cases hadd : addPendingLcb msg.originalSender msg.vecClock data with
        | ok value data' => rw [hadd] at hstep; exact hstep
        | error code data' => rw [hadd] at hstep; exact hstep
        | running data' => rw [hadd] at hstep; exact hstep
        | undefined => rw [hadd] at hstep; exact hstep

end CausalBroadcast
