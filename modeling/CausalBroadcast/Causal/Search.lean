import CausalBroadcast.Model.Pending

/-!
# What the pending search does

`find_pending` stops at the first list that is not empty, and never gets past its
first node.  If `test_vec_clock` refuses that node, the node is tested for ever; if
it accepts the node, the node after it is removed and then read, or, where there is
none, `NULL` is given to `remove_veclist`.  `findPending_cases` lists these outcomes,
and both exact conditions below are read off it.
-/

namespace CausalBroadcast

/-- The body of the loop `while (ptr != NULL)` at node `k` of list `i`; the result is
the next value of `ptr` and of `found_one`. -/
def findPendingBody (i k : ℕ) (foundOne : Bool) : LcbCall (Cursor × Bool) := do
  let data ← Call.state
  let clock ← Call.access (pendingList data i)[k]?
  let accepted ← testVecClock clock (i + 1)
  if accepted then do
    let seq ← updateVecClock (i + 1)
    noteDelivery ⟨clock, i + 1⟩
    logDeliverLcb (i + 1) seq
    let data ← Call.state
    removeVeclist i (cursorAt (pendingList data i) (k + 1))
    pure (.freed, true)
  else
    pure (.node k, foundOne)

/-- Every clock in the lists has one entry a process. -/
def PendingFits (cfg : Membership) (data : Lcb) : Prop :=
  ∀ i, ∀ clock ∈ pendingList data i, clock.length = cfg.numProc

/-- List `i` is the first that is not empty, and begins with `clock`. -/
structure FirstWaiting (data : Lcb) (i : ℕ) (clock : List ℕ) (rest : List (List ℕ)) : Prop where
  lt : i < data.lcbPending.length
  before : ∀ j < i, pendingList data j = []
  list : pendingList data i = clock :: rest

/-- The next node of list `i` is unlinked and freed instead of the first one. -/
def Lcb.removeSecond (data : Lcb) (i : ℕ) : Lcb :=
  { data with lcbPending := data.lcbPending.modify i (·.eraseIdx 1) }

theorem pendingList_of_le {data : Lcb} {i : ℕ} (h : data.lcbPending.length ≤ i) :
    pendingList data i = [] := by
  rw [pendingList, List.getD_eq_getElem?_getD, List.getElem?_eq_none h]
  rfl

theorem noPending_or_firstWaiting (data : Lcb) :
    NoPending data ∨ ∃ i clock rest, FirstWaiting data i clock rest := by
  by_cases hnone : NoPending data
  · exact .inl hnone
  · have hsome : ∃ i, i < data.lcbPending.length ∧ pendingList data i ≠ [] := by
      by_contra hall
      push Not at hall
      exact hnone (noPending_iff.mpr fun j _ hlt => hall j (by omega))
    obtain ⟨hlt, hne⟩ := Nat.find_spec hsome
    obtain ⟨clock, rest, hlist⟩ := List.exists_cons_of_ne_nil hne
    refine .inr ⟨Nat.find hsome, clock, rest, hlt, fun j hj => ?_, hlist⟩
    by_contra hlist
    exact Nat.find_min hsome hj ⟨hj.trans hlt, hlist⟩

theorem FirstWaiting.not_noPending {data : Lcb} {i : ℕ} {clock : List ℕ} {rest : List (List ℕ)}
    (h : FirstWaiting data i clock rest) : ¬ NoPending data := by
  intro hnone
  have hnil := noPending_iff.mp hnone i (Nat.zero_le i) (by have := h.lt; omega)
  rw [h.list] at hnil
  cases hnil

theorem FirstWaiting.unique {data : Lcb} {i i' : ℕ} {clock clock' : List ℕ}
    {rest rest' : List (List ℕ)} (h : FirstWaiting data i clock rest)
    (h' : FirstWaiting data i' clock' rest') : i = i' ∧ clock :: rest = clock' :: rest' := by
  rcases lt_trichotomy i i' with hlt | rfl | hlt
  · have hnil := h'.before i hlt
    rw [h.list] at hnil
    cases hnil
  · exact ⟨rfl, h.list.symm.trans h'.list⟩
  · have hnil := h.before i' hlt
    rw [h'.list] at hnil
    cases hnil

/-! ## One round -/

theorem findPendingList_succ (i rounds k : ℕ) (foundOne : Bool) :
    findPendingList i (rounds + 1) (.node k) foundOne = (do
      let (cursor, foundOne) ← findPendingBody i k foundOne
      findPendingList i rounds cursor foundOne) := by
  funext data
  simp only [findPendingList, findPendingBody, Call.bind_apply, Call.state_apply,
    Outcome.ok_andThen]
  cases (pendingList data i)[k]? with
  | none => rfl
  | some clock =>
      simp only [Call.access_some, Outcome.ok_andThen, Call.bind_apply]
      rcases testVecClock_cases clock (i + 1) data with htest | ⟨accepted, htest⟩
      · rw [htest]
        rfl
      · rw [htest]
        cases accepted with
        | false => rfl
        | true =>
            simp only [Outcome.ok_andThen, if_true, Call.bind_apply]
            cases updateVecClock (i + 1) data with
            | ok seq data₁ =>
                simp only [Outcome.ok_andThen, noteDelivery, logDeliverLcb, Call.bind_apply,
                  Call.modify_apply, Call.state_apply]
                generalize removeVeclist i _ _ = removed
                cases removed <;> rfl
            | error code data₁ => rfl
            | running data₁ => rfl
            | undefined => rfl

section Round

variable {cfg : Membership} {me : ℕ} {data : Lcb} {i k : ℕ} {clock : List ℕ}

theorem fits_of_mem (hdata : data.WellFormed cfg me) (hfits : PendingFits cfg data)
    (hi : i < data.lcbPending.length) (hclock : clock ∈ pendingList data i) :
    cfg.Fits ⟨clock, i + 1⟩ :=
  ⟨⟨Nat.succ_le_succ (Nat.zero_le i), hdata.lcbPending ▸ hi⟩, hfits i clock hclock⟩

theorem findPendingBody_refused (hdata : data.WellFormed cfg me) (hnode : (pendingList data i)[k]? =
    some clock) (hmsg : cfg.Fits ⟨clock, i + 1⟩)
    (hrefused : ¬ Ready cfg data.vectorClock ⟨clock, i + 1⟩) (foundOne : Bool) :
    findPendingBody i k foundOne data = .ok (.node k, foundOne) data := by
  have htest := testVecClock_eq hdata hmsg
  simp only [hrefused, decide_false] at htest
  simp only [findPendingBody, Call.bind_apply, Call.state_apply, Outcome.ok_andThen, hnode,
    Call.access_some, htest, Bool.false_eq_true, if_false, Call.pure_apply]

theorem findPendingBody_accepted (hdata : data.WellFormed cfg me)
    (hnode : (pendingList data i)[k]? = some clock) (hmsg : cfg.Fits ⟨clock, i + 1⟩)
    (haccepted : Ready cfg data.vectorClock ⟨clock, i + 1⟩) (foundOne : Bool) :
    findPendingBody i k foundOne data =
      (removeVeclist i (cursorAt (pendingList data i) (k + 1))
        (data.deliver ⟨clock, i + 1⟩)).andThen fun _ => pure (.freed, true) := by
  have htest := testVecClock_eq hdata hmsg
  simp only [haccepted, decide_true] at htest
  have hupdate := updateVecClock_eq hdata hmsg.isPid
  simp only [findPendingBody, Call.bind_apply, Call.state_apply, Outcome.ok_andThen, hnode,
    Call.access_some, htest, if_true, hupdate, noteDelivery, logDeliverLcb, Call.modify_apply]
  rfl

/-- A refused node is tested for ever. -/
theorem findPendingList_refused (hdata : data.WellFormed cfg me) (hnode : (pendingList data i)[k]? =
    some clock) (hmsg : cfg.Fits ⟨clock, i + 1⟩)
    (hrefused : ¬ Ready cfg data.vectorClock ⟨clock, i + 1⟩) (rounds : ℕ) (foundOne : Bool) :
    findPendingList i rounds (.node k) foundOne data = .running data := by
  induction rounds with
  | zero => rfl
  | succ rounds ih =>
      rw [findPendingList_succ, Call.bind_apply,
        findPendingBody_refused hdata hnode hmsg hrefused, Outcome.ok_andThen]
      exact ih

end Round

/-! ## One call -/

theorem findPendingFrom_skip (rounds : ℕ) (foundOne : Bool) {data : Lcb} (n : ℕ) :
    ∀ (m j : ℕ), (∀ l, j ≤ l → l < j + m → pendingList data l = []) →
      findPendingFrom rounds j (m + n) foundOne data =
        findPendingFrom rounds (j + m) n foundOne data := by
  intro m
  induction m with
  | zero => intro j _; rw [Nat.zero_add, Nat.add_zero]
  | succ m ih =>
      intro j hnil
      have hhead : cursorAt (pendingList data j) 0 = .null := by
        rw [hnil j le_rfl (by omega)]
        rfl
      rw [Nat.add_right_comm, findPendingFrom]
      simp only [Call.bind_apply, Call.state_apply, Outcome.ok_andThen, hhead, findPendingList,
        Call.pure_apply]
      rw [ih (j + 1) fun l hle hlt => hnil l (by omega) (by omega), Nat.add_right_comm,
        Nat.add_assoc]

/-- The search begins with the first list that is not empty. -/
theorem findPending_first {data : Lcb} {i : ℕ} {clock : List ℕ} {rest : List (List ℕ)}
    (hfirst : FirstWaiting data i clock rest) (rounds : ℕ) : findPending rounds data =
      (findPendingList i rounds (.node 0) false data).andThen fun foundOne =>
        findPendingFrom rounds (i + 1) (data.lcbPending.length - i - 1) foundOne := by
  have hlt := hfirst.lt
  have hsplit : data.lcbPending.length = i + (data.lcbPending.length - i - 1 + 1) := by omega
  have hskip := findPendingFrom_skip rounds false (data.lcbPending.length - i - 1 + 1) i 0
    fun j _ hj => hfirst.before j (by omega)
  rw [← hsplit, Nat.zero_add] at hskip
  have hhead : cursorAt (pendingList data i) 0 = .node 0 := by
    rw [hfirst.list]
    rfl
  rw [findPending, Call.bind_apply, Call.state_apply, Outcome.ok_andThen, hskip, findPendingFrom,
    Call.bind_apply, Call.state_apply, Outcome.ok_andThen, Call.bind_apply, hhead]

section Calls

variable {cfg : Membership} {me : ℕ} {data : Lcb} {i : ℕ} {clock : List ℕ} {rest : List (List ℕ)}

theorem FirstWaiting.node (hfirst : FirstWaiting data i clock rest) :
    (pendingList data i)[0]? = some clock := by
  rw [hfirst.list]
  rfl

theorem FirstWaiting.fits (hfirst : FirstWaiting data i clock rest)
    (hdata : data.WellFormed cfg me) (hfits : PendingFits cfg data) :
    cfg.Fits ⟨clock, i + 1⟩ :=
  fits_of_mem hdata hfits hfirst.lt (hfirst.list ▸ List.mem_cons_self)

theorem findPending_noPending (hnone : NoPending data) (rounds : ℕ) :
    findPending rounds data = .ok false data := by
  rw [findPending, Call.bind_apply, Call.state_apply, Outcome.ok_andThen]
  exact findPendingFrom_of_nil rounds false (noPending_iff.mp hnone)

theorem findPending_refused (hdata : data.WellFormed cfg me) (hfits : PendingFits cfg data)
    (hfirst : FirstWaiting data i clock rest)
    (hrefused : ¬ Ready cfg data.vectorClock ⟨clock, i + 1⟩) (rounds : ℕ) :
    findPending rounds data = .running data := by
  rw [findPending_first hfirst, findPendingList_refused hdata hfirst.node
    (hfirst.fits hdata hfits) hrefused, Outcome.running_andThen]

theorem findPending_accepted (hdata : data.WellFormed cfg me) (hfits : PendingFits cfg data)
    (hfirst : FirstWaiting data i clock rest)
    (haccepted : Ready cfg data.vectorClock ⟨clock, i + 1⟩) (rounds : ℕ) :
    findPending (rounds + 1) data =
      if rest = [] then .error .pointer (data.deliver ⟨clock, i + 1⟩)
      else if rounds = 0 then .running ((data.deliver ⟨clock, i + 1⟩).removeSecond i)
      else .undefined := by
  rw [findPending_first hfirst, findPendingList_succ, Call.bind_apply,
    findPendingBody_accepted hdata hfirst.node (hfirst.fits hdata hfits) haccepted, hfirst.list]
  cases rest with
  | nil => rfl
  | cons second rest =>
      have hnext : cursorAt (clock :: second :: rest) (0 + 1) = .node 1 :=
        if_pos (by simp)
      rw [hnext, if_neg (List.cons_ne_nil second rest)]
      cases rounds <;> rfl

theorem findPending_noRounds (hfirst : FirstWaiting data i clock rest) :
    findPending 0 data = .running data := by
  rw [findPending_first hfirst]
  rfl

end Calls

/-! ## Termination -/

/-- The first list that is not empty has one message, and it is accepted. -/
def OneAccepted (cfg : Membership) (data : Lcb) : Prop :=
  ∃ i clock, FirstWaiting data i clock [] ∧ Ready cfg data.vectorClock ⟨clock, i + 1⟩

/-- The round at node `k` of list `i` delivers and removes its message, or changes
nothing and moves on to a later node; the pointer is usable afterwards. -/
def MakesProgress (data : Lcb) (i k : ℕ) : Prop :=
  ∀ foundOne, ∃ cursor foundOne' data',
    findPendingBody i k foundOne data = .ok (cursor, foundOne') data' ∧ cursor ≠ .freed ∧
      ((∃ clock, (pendingList data i)[k]? = some clock ∧
          data'.delivered = data.delivered ++ [⟨clock, i + 1⟩] ∧
          pendingList data' i = (pendingList data i).eraseIdx k) ∨
        (data' = data ∧ ∀ k', cursor = .node k' → k < k'))

section Termination

variable {cfg : Membership} {me : ℕ} {data : Lcb}

/-- What decides whether a search returns. -/
theorem findPending_returned_iff (hdata : data.WellFormed cfg me) (hfits : PendingFits cfg data)
    (rounds : ℕ) : (findPending (rounds + 1) data).Returned ↔
      NoPending data ∨ OneAccepted cfg data := by
  rcases noPending_or_firstWaiting data with hnone | ⟨i, clock, rest, hfirst⟩
  · rw [findPending_noPending hnone]
    exact iff_of_true trivial (.inl hnone)
  · have hone : OneAccepted cfg data ↔
        rest = [] ∧ Ready cfg data.vectorClock ⟨clock, i + 1⟩ := by
      constructor
      · rintro ⟨j, clock', hfirst', hready⟩
        obtain ⟨rfl, hlist⟩ := hfirst.unique hfirst'
        obtain ⟨rfl, rfl⟩ := List.cons.inj hlist
        exact ⟨rfl, hready⟩
      · rintro ⟨rfl, hready⟩
        exact ⟨i, clock, hfirst, hready⟩
    rw [hone, or_iff_right hfirst.not_noPending]
    by_cases hready : Ready cfg data.vectorClock ⟨clock, i + 1⟩
    · rw [findPending_accepted hdata hfits hfirst hready]
      by_cases hrest : rest = []
      · rw [if_pos hrest]
        exact iff_of_true trivial ⟨hrest, hready⟩
      · rw [if_neg hrest]
        refine iff_of_false ?_ fun h => hrest h.1
        split <;> exact id
    · rw [findPending_refused hdata hfits hfirst hready]
      exact iff_of_false id fun h => hready h.2

theorem findPending_returns_iff (hdata : data.WellFormed cfg me) (hfits : PendingFits cfg data) :
    (∃ rounds, (findPending rounds data).Returned) ↔ NoPending data ∨ OneAccepted cfg data := by
  constructor
  · rintro ⟨rounds, hreturned⟩
    cases rounds with
    | zero =>
        rcases noPending_or_firstWaiting data with hnone | ⟨i, clock, rest, hfirst⟩
        · exact .inl hnone
        · rw [findPending_noRounds hfirst] at hreturned
          exact hreturned.elim
    | succ rounds => exact (findPending_returned_iff hdata hfits rounds).mp hreturned
  · intro h
    exact ⟨1, (findPending_returned_iff hdata hfits 0).mpr h⟩

/-- The repetition ends with its first call or not at all. -/
theorem findAllPending_returned_iff (hdata : data.WellFormed cfg me)
    (hfits : PendingFits cfg data) (rounds calls : ℕ) :
    (findAllPending (rounds + 1) (calls + 1) data).Returned ↔
      NoPending data ∨ OneAccepted cfg data := by
  rw [← findPending_returned_iff hdata hfits rounds, findAllPending, Call.bind_apply]
  rcases noPending_or_firstWaiting data with hnone | ⟨i, clock, rest, hfirst⟩
  · rw [findPending_noPending hnone]
    exact Iff.rfl
  · by_cases hready : Ready cfg data.vectorClock ⟨clock, i + 1⟩
    · rw [findPending_accepted hdata hfits hfirst hready]
      split
      · exact Iff.rfl
      · split <;> exact Iff.rfl
    · rw [findPending_refused hdata hfits hfirst hready]
      exact Iff.rfl

theorem deliverLcb_returns_iff (hdata : data.WellFormed cfg me) (hfits : PendingFits cfg data)
    {msg : LcbMsg} (hmsg : cfg.Fits msg) :
    (∃ rounds, (deliverLcb rounds msg data).Returned) ↔
      ¬ Ready cfg data.vectorClock msg ∨ NoPending data ∨ OneAccepted cfg (data.deliver msg) := by
  by_cases hready : Ready cfg data.vectorClock msg
  · have hreturned := findAllPending_returned_iff (hdata.deliver msg)
      (show PendingFits cfg (data.deliver msg) from hfits)
    have hnone : NoPending (data.deliver msg) ↔ NoPending data := Iff.rfl
    rw [or_iff_right (not_not_intro hready), ← hnone]
    constructor
    · rintro ⟨rounds, h⟩
      rw [deliverLcb_ready hdata hmsg hready] at h
      cases rounds with
      | zero => exact h.elim
      | succ rounds => exact (hreturned rounds rounds).mp h
    · intro h
      refine ⟨1, ?_⟩
      rw [deliverLcb_ready hdata hmsg hready]
      exact (hreturned 0 0).mpr h
  · refine iff_of_true ⟨0, ?_⟩ (.inl hready)
    rw [deliverLcb_refused hdata hmsg hready]
    trivial

/-- No round makes progress. -/
theorem not_makesProgress (hdata : data.WellFormed cfg me) (hfits : PendingFits cfg data)
    {i k : ℕ} (hk : k < (pendingList data i).length) : ¬ MakesProgress data i k := by
  intro hprogress
  have hi : i < data.lcbPending.length := by
    by_contra hle
    rw [pendingList_of_le (not_lt.mp hle)] at hk
    exact absurd hk (Nat.not_lt_zero k)
  have hnode : (pendingList data i)[k]? = some (pendingList data i)[k] :=
    List.getElem?_eq_getElem hk
  have hmsg := fits_of_mem hdata hfits hi (List.getElem_mem hk)
  obtain ⟨cursor, foundOne', data', hbody, husable, hdone⟩ := hprogress false
  by_cases hready : Ready cfg data.vectorClock ⟨(pendingList data i)[k], i + 1⟩
  · rw [findPendingBody_accepted hdata hnode hmsg hready] at hbody
    rcases cursorAt_cases (pendingList data i) (k + 1) with ⟨-, hcursor⟩ | ⟨-, hcursor⟩
    · rw [hcursor] at hbody
      obtain ⟨hpair, -⟩ := Outcome.ok.inj hbody
      exact husable (congrArg Prod.fst hpair).symm
    · rw [hcursor] at hbody
      cases hbody
  · rw [findPendingBody_refused hdata hnode hmsg hready] at hbody
    obtain ⟨hpair, rfl⟩ := Outcome.ok.inj hbody
    rcases hdone with ⟨clock, -, hdelivered, -⟩ | ⟨-, hlater⟩
    · have hlength := congrArg List.length hdelivered
      rw [List.length_append, List.length_singleton] at hlength
      omega
    · exact lt_irrefl k (hlater k (congrArg Prod.fst hpair).symm)

/-- When the search and the repetition around it return, and when every round of the
search makes progress. -/
theorem searchTerminates_iff (hdata : data.WellFormed cfg me) (hfits : PendingFits cfg data) :
    ((∃ rounds, (findPending rounds data).Returned) ↔ NoPending data ∨ OneAccepted cfg data) ∧
    (∀ msg, cfg.Fits msg → ((∃ rounds, (deliverLcb rounds msg data).Returned) ↔
      ¬ Ready cfg data.vectorClock msg ∨ NoPending data ∨ OneAccepted cfg (data.deliver msg))) ∧
    ((∀ i k, k < (pendingList data i).length → MakesProgress data i k) ↔ NoPending data) := by
  refine ⟨findPending_returns_iff hdata hfits,
    fun msg hmsg => deliverLcb_returns_iff hdata hfits hmsg, ?_, ?_⟩
  · intro hall
    rcases noPending_or_firstWaiting data with hnone | ⟨i, clock, rest, hfirst⟩
    · exact hnone
    · have hk : 0 < (pendingList data i).length := by
        rw [hfirst.list]
        exact Nat.succ_pos _
      exact absurd (hall i 0 hk) (not_makesProgress hdata hfits hk)
  · intro hnone i k hk
    have hlist : pendingList data i = [] := by
      by_cases hi : i < data.lcbPending.length
      · exact noPending_iff.mp hnone i (Nat.zero_le i) (by omega)
      · exact pendingList_of_le (not_lt.mp hi)
    rw [hlist] at hk
    exact absurd hk (Nat.not_lt_zero k)

end Termination

/-- At process 2 the second message of process 1 is waiting for the first. -/
def waitingLcb : Lcb := (Lcb.initial fifoMembership 2).park ⟨[1, 0], 1⟩

theorem waitingLcb_wellFormed : waitingLcb.WellFormed fifoMembership 2 :=
  (Lcb.initial_wellFormed fifoMembership 2).park _

theorem waitingLcb_fits : PendingFits fifoMembership waitingLcb := by
  intro i clock hclock
  match i, hclock with
  | 0, hclock => exact List.mem_singleton.mp hclock ▸ rfl
  | 1, hclock => cases hclock
  | i + 2, hclock => cases hclock

theorem waitingLcb_first : FirstWaiting waitingLcb 0 [1, 0] [] :=
  ⟨by decide, by simp, rfl⟩

/-- The first message of process 1 makes the waiting one acceptable. -/
theorem searchTerminates_oneWaiting :
    ∃ rounds, (deliverLcb rounds ⟨[0, 0], 1⟩ waitingLcb).Returned :=
  ((searchTerminates_iff waitingLcb_wellFormed waitingLcb_fits).2.1 ⟨[0, 0], 1⟩
    ⟨by decide, rfl⟩).mpr (.inr (.inr ⟨0, [1, 0], ⟨by decide, by simp, rfl⟩, by decide⟩))

/-- Process 2 delivers its own first message, and then searches for ever. -/
theorem search_stuck : (¬ ∃ rounds, (findPending rounds waitingLcb).Returned) ∧
    ¬ ∃ rounds, (deliverLcb rounds ⟨[0, 0], 2⟩ waitingLcb).Returned := by
  constructor
  · rintro ⟨rounds, hreturned⟩
    rw [findPending_refused waitingLcb_wellFormed waitingLcb_fits waitingLcb_first
      (by decide)] at hreturned
    exact hreturned
  · rw [deliverLcb_returns_iff waitingLcb_wellFormed waitingLcb_fits ⟨by decide, rfl⟩]
    rintro (hrefused | hnone | ⟨i, clock, hfirst, hready⟩)
    · exact hrefused (by decide)
    · exact waitingLcb_first.not_noPending hnone
    · have hwaiting : FirstWaiting (waitingLcb.deliver ⟨[0, 0], 2⟩) 0 [1, 0] [] :=
        ⟨by decide, by simp, rfl⟩
      obtain ⟨rfl, hlist⟩ := hwaiting.unique hfirst
      obtain ⟨rfl, -⟩ := List.cons.inj hlist
      exact absurd hready (by decide)

/-! ## Conservation -/

/-- The clocks of the messages of `q`. -/
def clocksFrom (q : ℕ) (msgs : List LcbMsg) : List (List ℕ) :=
  (msgs.filter (·.originalSender = q)).map LcbMsg.vecClock

/-- The messages `new` have been counted, logged and taken out of the lists, each
once, and nothing else has changed. -/
structure Conserved (cfg : Membership) (data : Lcb) (new : List LcbMsg) (data' : Lcb) : Prop where
  delivered : data'.delivered = data.delivered ++ new
  logged : ∃ seqs : List ℕ, seqs.length = new.length ∧ data'.log = data.log ++
    List.zipWith (fun msg seq => .deliver msg.originalSender seq) new seqs
  removed : ∀ q, cfg.IsPid q → (pendingList data (q - 1)).Perm
    (clocksFrom q new ++ pendingList data' (q - 1))
  order : ∀ q, cfg.IsPid q →
    (pendingList data' (q - 1)).Sublist (pendingList data (q - 1))
  counted : ∀ q, cfg.IsPid q → entry data'.vectorClock q =
    (fun count => u32 (count + 1))^[(clocksFrom q new).length] (entry data.vectorClock q)

/-- Whenever `find_pending` returns it has conserved the messages, and it reads no
node that has been removed. -/
def SearchConserves (cfg : Membership) (data : Lcb) : Prop :=
  ∀ rounds, match findPending rounds data with
    | .ok _ data' => ∃ new, Conserved cfg data new data'
    | .error _ data' => ∃ new, Conserved cfg data new data'
    | .running _ => True
    | .undefined => False

/-- The first node of the first list that is not empty is accepted. -/
def HeadAccepted (cfg : Membership) (data : Lcb) : Prop :=
  ∃ i clock rest, FirstWaiting data i clock rest ∧ Ready cfg data.vectorClock ⟨clock, i + 1⟩

theorem Conserved.refl (cfg : Membership) (data : Lcb) : Conserved cfg data [] data where
  delivered := (List.append_nil _).symm
  logged := ⟨[], rfl, (List.append_nil _).symm⟩
  removed := fun _ _ => List.Perm.refl _
  order := fun _ _ => List.Sublist.refl _
  counted := fun _ _ => rfl

section Conservation

variable {cfg : Membership} {me : ℕ} {data : Lcb}

/-- A single accepted message is delivered and stays where it is. -/
theorem not_conserved_deliver (hdata : data.WellFormed cfg me) {i : ℕ} {clock : List ℕ}
    (hfirst : FirstWaiting data i clock []) (new : List LcbMsg) :
    ¬ Conserved cfg data new (data.deliver ⟨clock, i + 1⟩) := by
  intro hconserved
  have hnew : [⟨clock, i + 1⟩] = new := List.append_cancel_left hconserved.delivered
  have hpid : cfg.IsPid (i + 1) := ⟨Nat.succ_le_succ (Nat.zero_le i), hdata.lcbPending ▸ hfirst.lt⟩
  have hlength := (hconserved.removed (i + 1) hpid).length_eq
  have hsame : pendingList (data.deliver ⟨clock, i + 1⟩) (i + 1 - 1) = pendingList data i := rfl
  have hone : clocksFrom (i + 1) new = [clock] := by
    rw [← hnew]
    simp [clocksFrom]
  rw [hsame, hone, Nat.add_sub_cancel, List.length_append, List.length_singleton] at hlength
  omega

theorem not_searchConserves (hdata : data.WellFormed cfg me) (hfits : PendingFits cfg data)
    (haccepted : HeadAccepted cfg data) : ¬ SearchConserves cfg data := by
  obtain ⟨i, clock, rest, hfirst, hready⟩ := haccepted
  intro hconserves
  have hsearch := hconserves 2
  rw [findPending_accepted hdata hfits hfirst hready] at hsearch
  by_cases hrest : rest = []
  · subst hrest
    rw [if_pos rfl] at hsearch
    obtain ⟨new, hconserved⟩ := hsearch
    exact not_conserved_deliver hdata hfirst new hconserved
  · rw [if_neg hrest, if_neg one_ne_zero] at hsearch
    exact hsearch

/-- The search conserves the messages exactly when it delivers none of them. -/
theorem searchConserves_iff (hdata : data.WellFormed cfg me) (hfits : PendingFits cfg data) :
    SearchConserves cfg data ↔ ¬ HeadAccepted cfg data := by
  refine ⟨fun hconserves haccepted => not_searchConserves hdata hfits haccepted hconserves,
    fun hnot rounds => ?_⟩
  rcases noPending_or_firstWaiting data with hnone | ⟨i, clock, rest, hfirst⟩
  · rw [findPending_noPending hnone]
    exact ⟨[], Conserved.refl cfg data⟩
  · rw [findPending_refused hdata hfits hfirst fun hready => hnot ⟨i, clock, rest, hfirst, hready⟩]
    trivial

end Conservation

/-- A single message waits and is refused: the search does not return, so it conserves the
messages for want of a result.  Where it returns inside the condition, the lists are all
empty (`findPending_noPending`). -/
theorem searchConserves_refused : SearchConserves fifoMembership waitingLcb := by
  refine (searchConserves_iff waitingLcb_wellFormed waitingLcb_fits).mpr ?_
  rintro ⟨i, clock, rest, hfirst, hready⟩
  obtain ⟨rfl, hlist⟩ := waitingLcb_first.unique hfirst
  obtain ⟨rfl, -⟩ := List.cons.inj hlist
  exact absurd hready (by decide)

/-- The first message of process 1 has been delivered, and `find_pending` is called:
it delivers the second one and leaves it in its list. -/
theorem search_keepsDelivered :
    ¬ SearchConserves fifoMembership (waitingLcb.deliver ⟨[0, 0], 1⟩) :=
  not_searchConserves (waitingLcb_wellFormed.deliver _) waitingLcb_fits
    ⟨0, [1, 0], [], ⟨by decide, by simp, rfl⟩, by decide⟩

end CausalBroadcast
