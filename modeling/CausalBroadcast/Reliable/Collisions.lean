import CausalBroadcast.Reliable.Ids

/-!
# Collisions of ids

The ids are truncated to 32 bits before their sizes are checked.  The ids of messages
cannot collide for all that: a process stops at its first id above the cap, and up to
there nothing is truncated (`seenIdAt_of_called`).  The indices of the urb ack table
can, with more than `2 ^ 32 / 8193` processes (`messageIds_iff`).
-/

namespace CausalBroadcast

/-- The id of message `i` of process `o`, as `send_urb` computes it. -/
def seenIdAt (numProc i o : ℕ) : ℕ := u32 (numProc * (i - 1) + o - 1)

/-- The index of process `q` in the urb ack table for the message with the id `seenId`, as
`send_urb`, `deliver_urb` and `send_beb` compute it. -/
def urbAckId (numProc seenId q : ℕ) : ℕ := u32 (numProc * seenId + q - 1)

/-- The ids of message `i` of process `o`, for process `q`, pass the size checks of
`add_seen_urb` and `table_write_entry`. -/
def PassesChecks (numProc i o q : ℕ) : Prop :=
  seenIdAt numProc i o ≤ maxSizeUrb ∧ urbAckId numProc (seenIdAt numProc i o) q ≤ maxSize

instance (numProc i o q : ℕ) : Decidable (PassesChecks numProc i o q) :=
  inferInstanceAs (Decidable (_ ∧ _))

/-- Each process `o` has sent the messages up to `sent o`, in order, so their ids have passed
its own checks. -/
structure SendRun (numProc numMsg : ℕ) (sent : ℕ → ℕ) : Prop where
  le : ∀ o, sent o ≤ numMsg
  passed : ∀ o i, 1 ≤ o ∧ o ≤ numProc → 1 ≤ i → i ≤ sent o → PassesChecks numProc i o o

/-- Process `o` has called `send_urb` for message `i`: the last call may have failed. -/
structure Called (numProc numMsg : ℕ) (sent : ℕ → ℕ) (i o : ℕ) : Prop where
  isPid : 1 ≤ o ∧ o ≤ numProc
  pos : 1 ≤ i
  le : i ≤ numMsg
  called : i ≤ sent o + 1

/-- Process `o` has sent message `i`. -/
structure WasSent (numProc : ℕ) (sent : ℕ → ℕ) (i o : ℕ) : Prop where
  isPid : 1 ≤ o ∧ o ≤ numProc
  pos : 1 ≤ i
  sent : i ≤ sent o

/-- Different pairs of a message in `messages` and a process, whose ids pass the checks, have
different indices. -/
def AckIdsDiffer (numProc : ℕ) (messages : ℕ → ℕ → Prop) : Prop :=
  ∀ i o q j r t, messages i o → messages j r → 1 ≤ q ∧ q ≤ numProc → 1 ≤ t ∧ t ≤ numProc →
    PassesChecks numProc i o q → PassesChecks numProc j r t →
    urbAckId numProc (seenIdAt numProc i o) q = urbAckId numProc (seenIdAt numProc j r) t →
    i = j ∧ o = r ∧ q = t

/-! ## The ids of the code -/

theorem addSeenUrb_checks (rounds seenId : ℕ) (data : NetData) :
    (onUrbTable (addSeenUrb rounds seenId) data).Meets (fun _ _ => seenId ≤ maxSizeUrb)
      (fun _ _ => True) fun _ => True := by
  refine Outcome.Meets.mapState ?_
  unfold addSeenUrb addUrb
  split
  · trivial
  · rename_i hle
    rw [Call.bind_apply]
    cases reallocTableTo seenId rounds data.urbTable with
    | ok value table => exact not_lt.mp hle
    | error code table => trivial
    | running table => trivial
    | undefined => trivial

theorem setAckUrb_checks (machine : Machine) (mid : ℕ) (data : NetData) :
    (setAckUrb machine mid data).Meets (fun _ _ => mid ≤ maxSize) (fun _ _ => True)
      fun _ => True := by
  refine Outcome.Meets.mapState ?_
  unfold tableWriteEntry
  split
  · trivial
  · rename_i hle
    rw [Call.bind_apply]
    cases growTableTo (machine.junk .urbacks) mid machine.rounds data.urbacks with
    | ok value table => exact not_lt.mp hle
    | error code table => trivial
    | running table => trivial
    | undefined => trivial

/-- A message that `send_urb` hands on has these ids, and they have passed the checks. -/
theorem sendUrb_ids (machine : Machine) (i : ℕ) (lcbMsg : LcbMsg) (data : NetData) :
    (sendUrb machine i lcbMsg data).Meets
      (fun msg _ => msg.seenId = seenIdAt data.numProc i data.selfPid ∧
        msg.mid = urbAckId data.numProc msg.seenId data.selfPid ∧
        PassesChecks data.numProc i data.selfPid data.selfPid)
      (fun _ _ => True) fun _ => True := by
  unfold sendUrb
  simp only [Call.bind_apply, Call.modify_apply, Call.state_apply, Outcome.ok_andThen]
  refine (addSeenUrb_checks _ _ _).andThen (fun _ _ => id) (fun _ => id) fun _ data₁ hseen => ?_
  refine (setAckUrb_checks _ _ _).andThen (fun _ _ => id) (fun _ => id) fun _ data₂ hack => ?_
  exact ⟨rfl, rfl, hseen, hack⟩

/-- `send_beb` gives the index of the sender and of the receiver in the row of the message. -/
theorem bebTask_ids (numProc me : ℕ) (msg : UrbMsg) (i : ℕ) :
    (bebTask numProc me msg i).msg.mid = urbAckId numProc msg.seenId me ∧
      (bebTask numProc me msg i).msg.ackid = urbAckId numProc msg.seenId i := by
  unfold bebTask urbAckId
  rw [Nat.mul_comm]
  exact ⟨rfl, rfl⟩

section Ids

variable {N m i o : ℕ} {sent : ℕ → ℕ}

/-- No id of a message that was broadcast is truncated. -/
theorem seenIdAt_of_called (hlt : N < 2 ^ 31) (hrun : SendRun N m sent)
    (h : Called N m sent i o) :
    seenIdAt N i o = seenIdOf N i o ∧ seenIdOf N i o ≤ maxSizeUrb + N := by
  obtain ⟨hpid, hpos, -, hcalled⟩ := h
  induction i with
  | zero => omega
  | succ i ih =>
      have hbound : seenIdOf N (i + 1) o ≤ maxSizeUrb + N := by
        rcases Nat.eq_zero_or_pos i with rfl | hi
        · unfold seenIdOf
          omega
        · obtain ⟨hsame, -⟩ := ih hi (by omega)
          have hpassed := (hrun.passed o i hpid hi (by omega)).1
          rw [hsame] at hpassed
          have hnext : seenIdOf N (i + 1) o = seenIdOf N i o + N := by
            unfold seenIdOf
            obtain ⟨k, rfl⟩ : ∃ k, i = k + 1 := ⟨i - 1, by omega⟩
            rw [Nat.add_sub_cancel, Nat.add_sub_cancel, Nat.mul_succ]
            omega
          omega
      refine ⟨u32_of_lt ?_, hbound⟩
      unfold maxSizeUrb at hbound
      show seenIdOf N (i + 1) o < 2 ^ 32
      omega

theorem WasSent.called (hrun : SendRun N m sent) (h : WasSent N sent i o) : Called N m sent i o :=
  ⟨h.isPid, h.pos, h.sent.trans (hrun.le o), h.sent.trans (Nat.le_succ _)⟩

theorem seenIdAt_inj (hlt : N < 2 ^ 31) (hrun : SendRun N m sent) {j r : ℕ}
    (h : Called N m sent i o) (h' : Called N m sent j r)
    (heq : seenIdAt N i o = seenIdAt N j r) : i = j ∧ o = r := by
  rw [(seenIdAt_of_called hlt hrun h).1, (seenIdAt_of_called hlt hrun h').1] at heq
  exact seenIdOf_inj h.pos h'.pos h.isPid h'.isPid heq

/-- Indices are not truncated if the last row of the table ends at `2 ^ 32`. -/
theorem urbAckId_eq (hrows : N * 8193 ≤ 2 ^ 32) {s q : ℕ} (hs : s ≤ maxSizeUrb)
    (hq : 1 ≤ q ∧ q ≤ N) : urbAckId N s q = rowId N s q := by
  refine u32_of_lt ?_
  have hrow : N * s ≤ N * 8192 := Nat.mul_le_mul_left N hs
  omega

theorem ackIdsDiffer_of_rows (hlt : N < 2 ^ 31) (hrows : N * 8193 ≤ 2 ^ 32)
    (hrun : SendRun N m sent) : AckIdsDiffer N (Called N m sent) := by
  intro i o q j r t hcalled hcalled' hq ht hpass hpass' heq
  rw [urbAckId_eq hrows hpass.1 hq, urbAckId_eq hrows hpass'.1 ht] at heq
  obtain ⟨hseen, hpids⟩ := rowId_inj hq ht heq
  obtain ⟨hi, ho⟩ := seenIdAt_inj hlt hrun hcalled hcalled' hseen
  exact ⟨hi, ho, hpids⟩

/-- Nobody has sent a message yet. -/
theorem sendRun_zero (N m : ℕ) : SendRun N m fun _ => 0 := by
  refine ⟨fun _ => Nat.zero_le m, fun o i _ hpos hle => ?_⟩
  omega

theorem called_first (hm : 1 ≤ m) (ho : 1 ≤ o ∧ o ≤ N) (sent : ℕ → ℕ) : Called N m sent 1 o :=
  ⟨ho, le_refl 1, hm, Nat.le_add_left 1 _⟩

theorem seenIdAt_first (N s : ℕ) (hs : s < 2 ^ 32) : seenIdAt N 1 (s + 1) = s := by
  have hzero : N * (1 - 1) + (s + 1) - 1 = s := by omega
  rw [seenIdAt, hzero, u32_of_lt hs]

/-- With more rows than the index has room for, the index `2 ^ 32` belongs to a first
message and is truncated to the index of process 1 for its first message. -/
theorem rows_of_ackIdsDiffer (hN : 1 ≤ N) (hlt : N < 2 ^ 31) (hm : 1 ≤ m)
    (h : ∀ sent, SendRun N m sent → AckIdsDiffer N (Called N m sent)) : N * 8193 ≤ 2 ^ 32 := by
  by_contra hmore
  have hdivision : 2 ^ 32 % N + N * (2 ^ 32 / N) = 2 ^ 32 := Nat.mod_add_div _ _
  have hmod : 2 ^ 32 % N < N := Nat.mod_lt _ hN
  obtain ⟨s, hs⟩ : ∃ s, 2 ^ 32 / N = s := ⟨_, rfl⟩
  obtain ⟨q, hq⟩ : ∃ q, 2 ^ 32 % N = q := ⟨_, rfl⟩
  rw [hs, hq] at hdivision
  rw [hq] at hmod
  have hle : s ≤ 8192 := by
    by_contra hlarge
    have hrow : N * 8193 ≤ N * s := Nat.mul_le_mul_left N (by omega)
    omega
  have hseen := seenIdAt_first N s (by omega)
  have hseenFirst := seenIdAt_first N 0 (by norm_num)
  have hzero : urbAckId N s (q + 1) = 0 := by
    have hsum : N * s + (q + 1) - 1 = 2 ^ 32 := by omega
    rw [urbAckId, hsum]
    rfl
  have hzeroFirst : urbAckId N 0 1 = 0 := by
    rw [urbAckId, Nat.mul_zero]
    rfl
  have hpass : PassesChecks N 1 (s + 1) (q + 1) := by
    refine ⟨hseen.le.trans hle, ?_⟩
    rw [hseen, hzero]
    exact Nat.zero_le _
  have hpassFirst : PassesChecks N 1 1 1 := by
    refine ⟨hseenFirst.le.trans (Nat.zero_le _), ?_⟩
    rw [hseenFirst, hzeroFirst]
    exact Nat.zero_le _
  -- Two messages of which both are acknowledged at index 0.
  have hsame := h _ (sendRun_zero N m) 1 (s + 1) (q + 1) 1 1 1
    (called_first hm ⟨by omega, by omega⟩ _) (called_first hm ⟨le_refl 1, hN⟩ _) (by omega)
    ⟨le_refl 1, hN⟩ hpass hpassFirst (by rw [hseen, hzero, hseenFirst, hzeroFirst])
  have hpositive : s ≠ 0 := by
    rintro rfl
    omega
  omega

/-- A first message other than the one of process 1 that is sent has its own index in the
first row. -/
theorem sent_first_of_ackIdsDiffer (hlt : N < 2 ^ 31) (hm : 1 ≤ m)
    (h : ∀ sent, SendRun N m sent → AckIdsDiffer N (WasSent N sent)) :
    N ≤ 8192 ∨ ∀ s, 1 ≤ s → s ≤ 8192 → 8192 < (N + 1) * s % 2 ^ 32 := by
  by_contra hnot
  rw [not_or, not_le, not_forall] at hnot
  obtain ⟨hN, s, hs⟩ := hnot
  rw [Classical.not_imp, Classical.not_imp, not_lt] at hs
  obtain ⟨hpos, hle, hsmall⟩ := hs
  obtain ⟨v, hv⟩ : ∃ v, (N + 1) * s % 2 ^ 32 = v := ⟨_, rfl⟩
  rw [hv] at hsmall
  have hseen := seenIdAt_first N s (by omega)
  have hseenFirst := seenIdAt_first N 0 (by norm_num)
  have hown : urbAckId N s (s + 1) = v := by
    have hsum : N * s + (s + 1) - 1 = (N + 1) * s := by
      rw [Nat.add_mul]
      omega
    rw [urbAckId, hsum]
    exact hv
  have hfirst : ∀ t, t ≤ 8192 → urbAckId N 0 (t + 1) = t := by
    intro t ht
    have hsum : N * 0 + (t + 1) - 1 = t := by omega
    rw [urbAckId, hsum, u32_of_lt (by omega)]
  have hpass : PassesChecks N 1 (s + 1) (s + 1) := by
    refine ⟨hseen.le.trans hle, ?_⟩
    rw [hseen, hown]
    exact hsmall
  have hpassFirst : ∀ t, t ≤ 8192 → PassesChecks N 1 1 (t + 1) := by
    intro t ht
    refine ⟨hseenFirst.le.trans (Nat.zero_le _), ?_⟩
    rw [hseenFirst, hfirst t ht]
    exact ht
  -- process 1 and process `s + 1` have sent their first messages
  have hrun : SendRun N m fun o => if o = 1 ∨ o = s + 1 then 1 else 0 := by
    refine ⟨fun o => ?_, fun o i _ hpos' hle' => ?_⟩
    · split
      · exact hm
      · exact Nat.zero_le m
    · split at hle'
      · rename_i ho
        obtain rfl : i = 1 := by omega
        rcases ho with rfl | rfl
        · exact hpassFirst 0 (Nat.zero_le _)
        · exact hpass
      · omega
  have hsame := h _ hrun 1 (s + 1) (s + 1) 1 1 (v + 1)
    ⟨⟨by omega, by omega⟩, le_refl 1, by simp⟩ ⟨⟨le_refl 1, by omega⟩, le_refl 1, by simp⟩
    ⟨by omega, by omega⟩ ⟨by omega, by omega⟩ hpass (hpassFirst v hsmall)
    (by rw [hseen, hown, hseenFirst, hfirst v hsmall])
  omega

theorem ackIdsDiffer_of_sent_first (hlt : N < 2 ^ 31)
    (h : N ≤ 8192 ∨ ∀ s, 1 ≤ s → s ≤ 8192 → 8192 < (N + 1) * s % 2 ^ 32)
    (hrun : SendRun N m sent) : AckIdsDiffer N (WasSent N sent) := by
  rcases Nat.lt_or_ge 8192 N with hlarge | hsmall
  · have hfirst := h.resolve_left (by omega)
    -- only process 1 gets a message past its checks, and only the first one
    have honly : ∀ i o, WasSent N sent i o → i = 1 ∧ o = 1 := by
      intro i o hsent
      have hpassed := hrun.passed o i hsent.isPid hsent.pos hsent.sent
      have hsame := (seenIdAt_of_called hlt hrun (hsent.called hrun)).1
      have hseen := hpassed.1
      rw [hsame] at hseen
      have hi : i = 1 := by
        by_contra hne
        have hrow : N * 1 ≤ N * (i - 1) := by
          have := hsent.pos
          exact Nat.mul_le_mul_left N (by omega)
        unfold seenIdOf maxSizeUrb at hseen
        have := hsent.isPid.1
        omega
      subst hi
      refine ⟨rfl, ?_⟩
      by_contra hne
      obtain ⟨s, rfl⟩ : ∃ s, o = s + 1 := ⟨o - 1, by have := hsent.isPid.1; omega⟩
      have hs : seenIdAt N 1 (s + 1) = s := seenIdAt_first N s (by have := hsent.isPid.2; omega)
      have hack := hpassed.2
      have hle := hpassed.1
      rw [hs] at hack hle
      have hsum : N * s + (s + 1) - 1 = (N + 1) * s := by
        rw [Nat.add_mul]
        omega
      rw [urbAckId, hsum] at hack
      exact absurd hack (not_le.mpr (hfirst s (by omega) hle))
    intro i o q j r t hsent hsent' hq ht _ _ heq
    obtain ⟨rfl, rfl⟩ := honly i o hsent
    obtain ⟨rfl, rfl⟩ := honly j r hsent'
    refine ⟨rfl, rfl, ?_⟩
    have hread : ∀ p, 1 ≤ p ∧ p ≤ N → urbAckId N (seenIdAt N 1 1) p = p - 1 := by
      intro p hp
      have hsum : N * 0 + p - 1 = p - 1 := by omega
      rw [seenIdAt_first N 0 (by norm_num), urbAckId, hsum, u32_of_lt (by omega)]
    rw [hread q hq, hread t ht] at heq
    omega
  · have hall := ackIdsDiffer_of_rows hlt (by omega) hrun
    intro i o q j r t hsent hsent'
    exact hall i o q j r t (hsent.called hrun) (hsent'.called hrun)

end Ids

/-- In every run different messages have different ids.  All pairs whose ids pass the checks
have different indices exactly up to `2 ^ 32 / 8193` processes; if only messages are
considered that were sent, also with more processes, unless the own index of a first
message wraps around to a small number. -/
theorem messageIds_iff {numProc numMsg : ℕ} (hproc : 1 ≤ numProc) (hlt : numProc < 2 ^ 31)
    (hmsg : 1 ≤ numMsg) :
    (∀ sent, SendRun numProc numMsg sent → ∀ i o j r, Called numProc numMsg sent i o →
      Called numProc numMsg sent j r → seenIdAt numProc i o = seenIdAt numProc j r →
      i = j ∧ o = r) ∧
    ((∀ sent, SendRun numProc numMsg sent → AckIdsDiffer numProc (Called numProc numMsg sent)) ↔
      numProc * 8193 ≤ 2 ^ 32) ∧
    ((∀ sent, SendRun numProc numMsg sent → AckIdsDiffer numProc (WasSent numProc sent)) ↔
      numProc ≤ 8192 ∨ ∀ s, 1 ≤ s → s ≤ 8192 → 8192 < (numProc + 1) * s % 2 ^ 32) := by
  refine ⟨fun sent hrun i o j r hcalled hcalled' => seenIdAt_inj hlt hrun hcalled hcalled', ?_, ?_⟩
  · exact ⟨rows_of_ackIdsDiffer hproc hlt hmsg,
      fun hrows sent hrun => ackIdsDiffer_of_rows hlt hrows hrun⟩
  · exact ⟨sent_first_of_ackIdsDiffer hlt hmsg,
      fun h sent hrun => ackIdsDiffer_of_sent_first hlt h hrun⟩

theorem messageIds_two :
    (∀ sent, SendRun 2 1 sent → ∀ i o j r, Called 2 1 sent i o → Called 2 1 sent j r →
      seenIdAt 2 i o = seenIdAt 2 j r → i = j ∧ o = r) ∧
    ((∀ sent, SendRun 2 1 sent → AckIdsDiffer 2 (Called 2 1 sent)) ↔ 2 * 8193 ≤ 2 ^ 32) ∧
    ((∀ sent, SendRun 2 1 sent → AckIdsDiffer 2 (WasSent 2 sent)) ↔
      2 ≤ 8192 ∨ ∀ s, 1 ≤ s → s ≤ 8192 → 8192 < (2 + 1) * s % 2 ^ 32) :=
  messageIds_iff (by norm_num) (by norm_num) (by norm_num)

/-- Of `2 ^ 19 - 1` processes, process 8193 and process 1 have sent their first messages.
The index of process 8193 for its message is `2 ^ 32`, and so the one of process 1 for
its own. -/
theorem ackIds_wrap :
    PassesChecks 524287 1 8193 8193 ∧ PassesChecks 524287 1 1 1 ∧
      urbAckId 524287 (seenIdAt 524287 1 8193) 8193 = urbAckId 524287 (seenIdAt 524287 1 1) 1 ∧
      ¬ ∀ sent, SendRun 524287 1 sent → AckIdsDiffer 524287 (WasSent 524287 sent) := by
  refine ⟨by decide, by decide, by decide, fun h => ?_⟩
  rcases sent_first_of_ackIdsDiffer (by norm_num) (le_refl 1) h with hsmall | hlarge
  · exact absurd hsmall (by norm_num)
  · exact absurd (hlarge 8192 (by norm_num) (le_refl 8192)) (by norm_num)

end CausalBroadcast
