import CausalBroadcast.Model.Data

/-!
# The vector clock and the pending lists

`pending.c` and the accessor `get_dependencies` it goes through.

A pending list is the list of its nodes' clocks; a node is named by its position.
`find_pending` walks a list with a cursor, the C variable `ptr`.  The cursor is
`null` past the last node, `node k` at the node in position `k`, and `freed` once
the node it points to has been unlinked and freed.  Reading through a freed
cursor has no meaning in C, so it ends in `undefined` here.
-/

namespace CausalBroadcast

abbrev LcbCall := Call ErrorCode Lcb

/-! ## Dependencies -/

/-- `get_dependencies`: `NULL` for a pid that is too large, and otherwise the
address of entry `source - 1`, here its index. -/
def getDependencies (dependencies : List (List ℕ)) (source : ℕ) : Option ℤ :=
  if dependencies.length < source then none else some ((source : ℤ) - 1)

/-- The list behind a pointer that `get_dependencies` returned. -/
def dependencyList (dependencies : List (List ℕ)) : Option ℤ → Option (List ℕ)
  | none => none
  | some index => if index < 0 then none else dependencies[index.toNat]?

theorem dependencyList_getDependencies {dependencies : List (List ℕ)} {pid : ℕ}
    (hpos : 1 ≤ pid) (hle : pid ≤ dependencies.length) :
    dependencyList dependencies (getDependencies dependencies pid) =
      some (dependencies.getD (pid - 1) []) := by
  have hlt : pid - 1 < dependencies.length := by omega
  have hindex : ((pid : ℤ) - 1).toNat = pid - 1 := by omega
  have hnonneg : ¬ (pid : ℤ) - 1 < 0 := by omega
  simp [getDependencies, dependencyList, not_lt.mpr hle, hnonneg, hindex, hlt]

/-! ## The vector clock -/

/-- One round of the loop of `test_vec_clock`. -/
def compareEntry (vector clock : List ℕ) (isBigger : Bool) (currProc : ℕ) : Option Bool := do
  let carried ← readEntry vector currProc
  let known ← readEntry clock currProc
  pure (if known < carried then false else isBigger)

/-- The loop of `test_vec_clock`: no listed entry of `vector` exceeds the one of
`clock`.  It reads every listed entry, also after one that is too large. -/
def compareEntries (vector clock dep : List ℕ) : Option Bool :=
  dep.foldlM (compareEntry vector clock) true

/-- `test_vec_clock`: can a message of `pid` with the clock `vector` be delivered? -/
def testVecClock (vector : List ℕ) (pid : ℕ) : LcbCall Bool := do
  let data ← Call.state
  let dep ← Call.access
    (dependencyList data.dependencies (getDependencies data.dependencies pid))
  Call.access (compareEntries vector data.vectorClock dep)

/-- `update_vec_clock`: count a delivery from `pid` and return its new number. -/
def updateVecClock (pid : ℕ) : LcbCall ℕ := do
  let data ← Call.state
  if data.numProc < pid then
    Call.fail .pid
  else do
    let count ← Call.access (readEntry data.vectorClock pid)
    let seq := u32 (count + 1)
    Call.modify fun data => { data with vectorClock := data.vectorClock.set (pid - 1) seq }
    pure seq

/-- `get_vec_clock_copy`. -/
def getVecClockCopy : LcbCall (List ℕ) := do
  let data ← Call.state
  pure data.vectorClock

/-- The history of deliveries: `msg` has just been counted. -/
def noteDelivery (msg : LcbMsg) : LcbCall Unit :=
  Call.modify fun data => { data with delivered := data.delivered ++ [msg] }

/-- `log_deliver_lcb`, with `log_deliver` and the line it gives to `write_log`. -/
def logDeliverLcb (pid seq : ℕ) : LcbCall Unit :=
  Call.modify fun data => { data with log := data.log ++ [.deliver pid seq] }

/-! ## The pending lists -/

/-- `add_pending_lcb` and `add_veclist`: append a copy of the clock. -/
def addPendingLcb (pid : ℕ) (clock : List ℕ) : LcbCall Unit := do
  let data ← Call.state
  if data.lcbPending.length < pid then
    Call.fail .pid
  else if pid = 0 then
    Call.undef
  else
    Call.modify fun data =>
      { data with lcbPending := data.lcbPending.modify (pid - 1) (· ++ [clock]) }

/-- Where the variable `ptr` of `find_pending` points. -/
inductive Cursor where
  | null
  | node (k : ℕ)
  | freed
  deriving DecidableEq, Repr

/-- The pointer to position `k` of a list, `NULL` past its end. -/
def cursorAt (nodes : List (List ℕ)) (k : ℕ) : Cursor :=
  if k < nodes.length then .node k else .null

theorem cursorAt_cases (nodes : List (List ℕ)) (k : ℕ) :
    (k < nodes.length ∧ cursorAt nodes k = .node k) ∨
      (nodes.length ≤ k ∧ cursorAt nodes k = .null) := by
  unfold cursorAt
  by_cases h : k < nodes.length
  · exact .inl ⟨h, if_pos h⟩
  · exact .inr ⟨not_lt.mp h, if_neg h⟩

/-- `pending->lists[i]`. -/
def pendingList (data : Lcb) (i : ℕ) : List (List ℕ) := data.lcbPending.getD i []

/-- `remove_veclist` on list `i`: unlink and free the node at the cursor. -/
def removeVeclist (i : ℕ) : Cursor → LcbCall Unit
  | .null => Call.fail .pointer
  | .node k => Call.modify fun data =>
      { data with lcbPending := data.lcbPending.modify i (·.eraseIdx k) }
  | .freed => Call.undef

/-- The loop `while (ptr != NULL)` of `find_pending` on list `i`, for a number of
rounds.  The result is `found_one`. -/
def findPendingList (i : ℕ) : ℕ → Cursor → Bool → LcbCall Bool
  | _, .null, foundOne => pure foundOne
  | 0, _, _ => Call.outOfRounds
  | _ + 1, .freed, _ => Call.undef
  | rounds + 1, .node k, foundOne => do
      let data ← Call.state
      let clock ← Call.access (pendingList data i)[k]?
      let accepted ← testVecClock clock (i + 1)
      if accepted then do
        let seq ← updateVecClock (i + 1)
        noteDelivery ⟨clock, i + 1⟩
        logDeliverLcb (i + 1) seq
        -- `ptr = ptr->next` comes before the removal, so the node that is
        -- removed is the next one, and `ptr` still points to it afterwards
        let data ← Call.state
        removeVeclist i (cursorAt (pendingList data i) (k + 1))
        findPendingList i rounds .freed true
      else
        findPendingList i rounds (.node k) foundOne

/-- The loop of `find_pending` over the lists from `i` on, `n` of them. -/
def findPendingFrom (rounds : ℕ) : ℕ → ℕ → Bool → LcbCall Bool
  | _, 0, foundOne => pure foundOne
  | i, n + 1, foundOne => do
      let data ← Call.state
      let foundOne ← findPendingList i rounds (cursorAt (pendingList data i) 0) foundOne
      findPendingFrom rounds (i + 1) n foundOne

/-- `find_pending`. -/
def findPending (rounds : ℕ) : LcbCall Bool := do
  let data ← Call.state
  findPendingFrom rounds 0 data.lcbPending.length false

/-! ## The causal layer -/

/-- The body of the loop of `send_lcb` before `send_urb`: copy the clock and put
the number of the earlier broadcasts into the own entry. -/
def nextLcbMsg (i : ℕ) : LcbCall LcbMsg := do
  let data ← Call.state
  let copy ← getVecClockCopy
  let vecClock ← Call.access (writeEntry copy data.selfPid (i - 1))
  pure ⟨vecClock, data.selfPid⟩

/-- `log_urb_broadcast` and the line it gives to `write_log`. -/
def logUrbBroadcast (i : ℕ) : LcbCall Unit :=
  Call.modify fun data => { data with log := data.log ++ [.broadcast i] }

/-- The repetition in `deliver_lcb`: call `find_pending` until it finds nothing. -/
def findAllPending (rounds : ℕ) : ℕ → LcbCall Unit
  | 0 => Call.outOfRounds
  | calls + 1 => do
      let foundOne ← findPending rounds
      if foundOne then findAllPending rounds calls else pure ()

/-- `deliver_lcb`.  Each of its loops is given `rounds` rounds. -/
def deliverLcb (rounds : ℕ) (msg : LcbMsg) : LcbCall Unit := do
  let accepted ← testVecClock msg.vecClock msg.originalSender
  if accepted then do
    let seq ← updateVecClock msg.originalSender
    noteDelivery msg
    logDeliverLcb msg.originalSender seq
    findAllPending rounds rounds
  else
    addPendingLcb msg.originalSender msg.vecClock

/-! ## What the operations do on a well-formed state -/

/-- The condition `test_vec_clock` decides: the clock has reached every listed
entry of the message. -/
def Ready (cfg : Membership) (clock : List ℕ) (msg : LcbMsg) : Prop :=
  ∀ q ∈ cfg.deps msg.originalSender, entry msg.vecClock q ≤ entry clock q

instance (cfg : Membership) (clock : List ℕ) (msg : LcbMsg) : Decidable (Ready cfg clock msg) :=
  inferInstanceAs (Decidable (∀ q ∈ cfg.deps msg.originalSender, _))

/-- The clock after one more delivery from `pid`. -/
def bump (clock : List ℕ) (pid : ℕ) : List ℕ := clock.set (pid - 1) (u32 (entry clock pid + 1))

@[simp] theorem length_bump (clock : List ℕ) (pid : ℕ) : (bump clock pid).length = clock.length :=
  List.length_set

theorem entry_bump {clock : List ℕ} {pid other : ℕ} (hpos : 1 ≤ pid) (hle : pid ≤ clock.length)
    (hother : 1 ≤ other) : entry (bump clock pid) other =
      if other = pid then u32 (entry clock pid + 1) else entry clock other :=
  entry_set _ hpos hle hother

theorem compareEntry_eq {vector clock : List ℕ} (flag : Bool) {q : ℕ} (hpos : 1 ≤ q)
    (hvector : q ≤ vector.length) (hclock : q ≤ clock.length) :
    compareEntry vector clock flag q =
      some (flag && decide (entry vector q ≤ entry clock q)) := by
  unfold compareEntry
  rw [readEntry_eq_some hpos hvector, readEntry_eq_some hpos hclock]
  by_cases hlt : entry clock q < entry vector q
  · simp [hlt]
  · simp [hlt, not_lt.mp hlt]

/-- The flag starts at `1` and is only ever cleared. -/
theorem foldlM_compareEntry {vector clock dep : List ℕ} (flag : Bool)
    (hrange : ∀ q ∈ dep, 1 ≤ q ∧ q ≤ vector.length ∧ q ≤ clock.length) :
    dep.foldlM (compareEntry vector clock) flag =
      some (flag && decide (∀ q ∈ dep, entry vector q ≤ entry clock q)) := by
  induction dep generalizing flag with
  | nil => simp
  | cons q rest ih =>
      rw [List.forall_mem_cons] at hrange
      obtain ⟨⟨hpos, hvector, hclock⟩, hrest⟩ := hrange
      rw [List.foldlM_cons, compareEntry_eq flag hpos hvector hclock, Option.bind_eq_bind,
        Option.bind_some, ih _ hrest]
      simp [Bool.and_assoc]

section Spec

variable {cfg : Membership} {me : ℕ} {data : Lcb}

theorem testVecClock_eq (hdata : data.WellFormed cfg me) {msg : LcbMsg} (hmsg : cfg.Fits msg) :
    testVecClock msg.vecClock msg.originalSender data =
      .ok (decide (Ready cfg data.vectorClock msg)) data := by
  have hlist : dependencyList data.dependencies
      (getDependencies data.dependencies msg.originalSender) =
      some (cfg.deps msg.originalSender) := by
    rw [hdata.dependencies]
    exact dependencyList_getDependencies hmsg.isPid.1
      (cfg.length_dependencies ▸ hmsg.isPid.2)
  have hcompare : compareEntries msg.vecClock data.vectorClock (cfg.deps msg.originalSender) =
      some (decide (Ready cfg data.vectorClock msg)) := by
    refine foldlM_compareEntry true fun q hq => ?_
    rw [hmsg.length, hdata.vectorClock]
    have hpid := Membership.isPid_of_mem_deps hq
    exact ⟨hpid.1, hpid.2, hpid.2⟩
  simp [testVecClock, hlist, hcompare]

/-- `test_vec_clock` returns a truth value and changes nothing. -/
theorem testVecClock_cases (vector : List ℕ) (pid : ℕ) (data : Lcb) :
    testVecClock vector pid data = .undefined ∨
      ∃ accepted, testVecClock vector pid data = .ok accepted data := by
  simp only [testVecClock, Call.bind_apply, Call.state_apply, Outcome.ok_andThen]
  cases dependencyList data.dependencies (getDependencies data.dependencies pid) with
  | none => exact .inl rfl
  | some dep =>
      simp only [Call.access_some, Outcome.ok_andThen]
      cases compareEntries vector data.vectorClock dep with
      | none => exact .inl rfl
      | some accepted => exact .inr ⟨accepted, rfl⟩

theorem updateVecClock_eq (hdata : data.WellFormed cfg me) {pid : ℕ} (hpid : cfg.IsPid pid) :
    updateVecClock pid data = .ok (u32 (entry data.vectorClock pid + 1))
      { data with vectorClock := bump data.vectorClock pid } := by
  have hle : ¬ data.numProc < pid := by rw [hdata.numProc]; exact not_lt.mpr hpid.2
  have hread := readEntry_eq_some hpid.1 (hdata.vectorClock ▸ hpid.2)
  simp [updateVecClock, hle, hread, bump]

theorem addPendingLcb_eq (hdata : data.WellFormed cfg me) {pid : ℕ} (hpid : cfg.IsPid pid)
    (clock : List ℕ) : addPendingLcb pid clock data = .ok ()
      { data with lcbPending := data.lcbPending.modify (pid - 1) (· ++ [clock]) } := by
  have hle : ¬ data.lcbPending.length < pid := by
    rw [hdata.lcbPending]; exact not_lt.mpr hpid.2
  have hne : pid ≠ 0 := Nat.one_le_iff_ne_zero.mp hpid.1
  simp [addPendingLcb, hle, hne]

theorem nextLcbMsg_eq (hdata : data.WellFormed cfg me) (hme : cfg.IsPid me) (i : ℕ) :
    nextLcbMsg i data = .ok ⟨data.vectorClock.set (me - 1) (i - 1), me⟩ data := by
  have hwrite := writeEntry_eq_some (i - 1) hme.1 (hdata.vectorClock ▸ hme.2)
  simp [nextLcbMsg, getVecClockCopy, hdata.selfPid, hwrite]

end Spec

/-! ## What `find_pending` comes to

A cursor that has stopped at a node never gets past it: a refused node is tested
again, and after an accepted one either there is no next node to remove, or the
next node is freed and then read.  So `find_pending` returns without an error
exactly when every list is empty. -/

theorem findPendingList_node_ne_ok (i rounds k : ℕ) (foundOne value : Bool) (data data' : Lcb) :
    findPendingList i rounds (.node k) foundOne data ≠ .ok value data' := by
  induction rounds with
  | zero => intro h; cases h
  | succ rounds ih =>
      intro h
      simp only [findPendingList, Call.bind_apply, Call.state_apply, Outcome.ok_andThen] at h
      cases hnode : (pendingList data i)[k]? with
      | none => rw [hnode] at h; cases h
      | some clock =>
          simp only [hnode, Call.access_some, Outcome.ok_andThen, Call.bind_apply] at h
          rcases testVecClock_cases clock (i + 1) data with htest | ⟨accepted, htest⟩
          · rw [htest] at h; cases h
          · rw [htest] at h
            cases accepted with
            | false => exact ih h
            | true =>
                simp only [Outcome.ok_andThen, if_true, Call.bind_apply] at h
                cases hupdate : updateVecClock (i + 1) data with
                | ok seq data₁ =>
                    simp only [hupdate, Outcome.ok_andThen, noteDelivery, logDeliverLcb,
                      Call.bind_apply, Call.modify_apply, Call.state_apply] at h
                    generalize pendingList _ i = nodes at h
                    rcases cursorAt_cases nodes (k + 1) with ⟨_, hcursor⟩ | ⟨_, hcursor⟩
                    · rw [hcursor] at h
                      cases rounds <;> cases h
                    · rw [hcursor] at h; cases h
                | error code data₁ => rw [hupdate] at h; cases h
                | running data₁ => rw [hupdate] at h; cases h
                | undefined => rw [hupdate] at h; cases h

theorem findPendingList_ok {i rounds k : ℕ} {nodes : List (List ℕ)} {foundOne value : Bool}
    {data data' : Lcb}
    (h : findPendingList i rounds (cursorAt nodes k) foundOne data = .ok value data') :
    nodes.length ≤ k ∧ value = foundOne ∧ data' = data := by
  rcases cursorAt_cases nodes k with ⟨_, hcursor⟩ | ⟨hle, hcursor⟩
  · rw [hcursor] at h
    exact (findPendingList_node_ne_ok _ _ _ _ _ _ _ h).elim
  · rw [hcursor, findPendingList] at h
    obtain ⟨rfl, rfl⟩ := Outcome.ok.inj h
    exact ⟨hle, rfl, rfl⟩

theorem findPendingFrom_ok (rounds : ℕ) : ∀ {n i : ℕ} {foundOne value : Bool} {data data' : Lcb},
    findPendingFrom rounds i n foundOne data = .ok value data' →
    (∀ j, i ≤ j → j < i + n → pendingList data j = []) ∧ value = foundOne ∧ data' = data := by
  intro n
  induction n with
  | zero =>
      intro i foundOne value data data' h
      obtain ⟨rfl, rfl⟩ := Outcome.ok.inj h
      exact ⟨fun j hle hlt => absurd hlt (by omega), rfl, rfl⟩
  | succ n ih =>
      intro i foundOne value data data' h
      simp only [findPendingFrom, Call.bind_apply, Call.state_apply, Outcome.ok_andThen] at h
      cases hlist : findPendingList i rounds (cursorAt (pendingList data i) 0) foundOne data with
      | ok value₁ data₁ =>
          rw [hlist] at h
          obtain ⟨hnil, rfl, rfl⟩ := findPendingList_ok hlist
          obtain ⟨hrest, hvalue, hdata⟩ := ih h
          refine ⟨fun j hle hlt => ?_, hvalue, hdata⟩
          rcases eq_or_lt_of_le hle with rfl | hlt'
          · exact List.eq_nil_of_length_eq_zero (Nat.le_zero.mp hnil)
          · exact hrest j hlt' (by omega)
      | error code data₁ => rw [hlist] at h; cases h
      | running data₁ => rw [hlist] at h; cases h
      | undefined => rw [hlist] at h; cases h

theorem findPendingFrom_of_nil (rounds : ℕ) : ∀ {n i : ℕ} (foundOne : Bool) {data : Lcb},
    (∀ j, i ≤ j → j < i + n → pendingList data j = []) →
    findPendingFrom rounds i n foundOne data = .ok foundOne data := by
  intro n
  induction n with
  | zero => intro i foundOne data _; rfl
  | succ n ih =>
      intro i foundOne data hnil
      have hhead : cursorAt (pendingList data i) 0 = .null := by
        rw [hnil i le_rfl (by omega)]
        rfl
      simp only [findPendingFrom, Call.bind_apply, Call.state_apply, Outcome.ok_andThen, hhead,
        findPendingList, Call.pure_apply]
      exact ih foundOne fun j hle hlt => hnil j (by omega) (by omega)

/-- No message is waiting. -/
def NoPending (data : Lcb) : Prop := ∀ list ∈ data.lcbPending, list = []

theorem noPending_initial (cfg : Membership) (p : ℕ) : NoPending (Lcb.initial cfg p) :=
  fun _ hmem => List.eq_of_mem_replicate hmem

theorem noPending_iff {data : Lcb} :
    NoPending data ↔ ∀ j, 0 ≤ j → j < 0 + data.lcbPending.length → pendingList data j = [] := by
  unfold NoPending pendingList
  rw [List.forall_mem_iff_getElem]
  refine forall_congr' fun j => ?_
  simp +contextual [List.getD_eq_getElem?_getD]

theorem findAllPending_ok {rounds calls : ℕ} {value : Unit} {data data' : Lcb}
    (h : findAllPending rounds calls data = .ok value data') : NoPending data ∧ data' = data := by
  cases calls with
  | zero => cases h
  | succ calls =>
      simp only [findAllPending, findPending, Call.bind_apply, Call.state_apply,
        Outcome.ok_andThen] at h
      cases hfrom : findPendingFrom rounds 0 data.lcbPending.length false data with
      | ok value₁ data₁ =>
          rw [hfrom] at h
          obtain ⟨hnil, rfl, rfl⟩ := findPendingFrom_ok rounds hfrom
          obtain ⟨-, rfl⟩ := Outcome.ok.inj h
          exact ⟨noPending_iff.mpr hnil, rfl⟩
      | error code data₁ => rw [hfrom] at h; cases h
      | running data₁ => rw [hfrom] at h; cases h
      | undefined => rw [hfrom] at h; cases h

theorem findAllPending_of_noPending {data : Lcb} (h : NoPending data) (rounds calls : ℕ) :
    findAllPending rounds (calls + 1) data = .ok () data := by
  simp only [findAllPending, findPending, Call.bind_apply, Call.state_apply, Outcome.ok_andThen,
    findPendingFrom_of_nil rounds false (noPending_iff.mp h), Bool.false_eq_true, if_false,
    Call.pure_apply]

/-! ## What `deliver_lcb` comes to -/

/-- The state after `msg` is counted and its line is written. -/
def Lcb.deliver (data : Lcb) (msg : LcbMsg) : Lcb :=
  { data with
    vectorClock := bump data.vectorClock msg.originalSender
    delivered := data.delivered ++ [msg]
    log := data.log ++
      [.deliver msg.originalSender (u32 (entry data.vectorClock msg.originalSender + 1))] }

/-- The state after `msg` is put into the pending list of its origin. -/
def Lcb.park (data : Lcb) (msg : LcbMsg) : Lcb :=
  { data with
    lcbPending := data.lcbPending.modify (msg.originalSender - 1) (· ++ [msg.vecClock]) }

section Deliver

variable {cfg : Membership} {me : ℕ} {data : Lcb} {msg : LcbMsg}

theorem Lcb.WellFormed.deliver (hdata : data.WellFormed cfg me) (msg : LcbMsg) :
    (data.deliver msg).WellFormed cfg me :=
  { hdata with vectorClock := (length_bump ..).trans hdata.vectorClock }

theorem Lcb.WellFormed.park (hdata : data.WellFormed cfg me) (msg : LcbMsg) :
    (data.park msg).WellFormed cfg me :=
  { hdata with lcbPending := (List.length_modify ..).trans hdata.lcbPending }

theorem deliverLcb_ready (hdata : data.WellFormed cfg me) (hmsg : cfg.Fits msg)
    (hready : Ready cfg data.vectorClock msg) (rounds : ℕ) :
    deliverLcb rounds msg data = findAllPending rounds rounds (data.deliver msg) := by
  simp only [deliverLcb, Call.bind_apply, testVecClock_eq hdata hmsg, hready, decide_true,
    Outcome.ok_andThen, if_true, updateVecClock_eq hdata hmsg.isPid, noteDelivery, logDeliverLcb,
    Call.modify_apply]
  rfl

theorem deliverLcb_refused (hdata : data.WellFormed cfg me) (hmsg : cfg.Fits msg)
    (hready : ¬ Ready cfg data.vectorClock msg) (rounds : ℕ) :
    deliverLcb rounds msg data = .ok () (data.park msg) := by
  simp only [deliverLcb, Call.bind_apply, testVecClock_eq hdata hmsg, hready, decide_false,
    Outcome.ok_andThen, Bool.false_eq_true, if_false, addPendingLcb_eq hdata hmsg.isPid]
  rfl

/-- A message that is accepted while nothing waits. -/
theorem deliverLcb_direct (hdata : data.WellFormed cfg me) (hmsg : cfg.Fits msg)
    (hready : Ready cfg data.vectorClock msg) (hnone : NoPending data) (rounds : ℕ) :
    deliverLcb (rounds + 1) msg data = .ok () (data.deliver msg) := by
  rw [deliverLcb_ready hdata hmsg hready]
  exact findAllPending_of_noPending (show NoPending (data.deliver msg) from hnone) _ _

end Deliver

end CausalBroadcast
