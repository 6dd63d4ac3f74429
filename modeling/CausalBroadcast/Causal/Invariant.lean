import CausalBroadcast.Causal.Threads
import CausalBroadcast.Library.Sequence

/-!
# The invariant of the causal layer

The clocks carry counts.  What ties the counts to messages is:

* `Supported`: a message's own entry is its position among the broadcasts of its
  origin, and every other entry is at most the number of messages that its
  process had broadcast by then;
* `ProcessInv`: the entry for `q` of a process's clock is the number of messages
  from `q` it has counted, no message is counted twice, and only broadcast
  messages are counted.

The steps of the receiver thread are inverted once, in `ReceiveEffect`; every
invariant is proved from that list of effects.

Between the counting of a pending message and the end of its process the message
is still in its list (`Receiver.Torn`).  Everywhere else the waiting messages and
the counted ones are disjoint.
-/

namespace CausalBroadcast

/-! ## Messages by origin -/

/-- The messages of `l` whose origin is `q`, in order. -/
def fromSender (q : ℕ) (l : List LcbMsg) : List LcbMsg :=
  l.filter fun msg => msg.originalSender = q

@[simp] theorem fromSender_nil (q : ℕ) : fromSender q [] = [] := rfl

@[simp] theorem fromSender_append (q : ℕ) (l l' : List LcbMsg) :
    fromSender q (l ++ l') = fromSender q l ++ fromSender q l' := List.filter_append ..

theorem fromSender_singleton_self (msg : LcbMsg) : fromSender msg.originalSender [msg] = [msg] := by
  simp [fromSender]

theorem fromSender_singleton_of_ne {q : ℕ} {msg : LcbMsg} (h : msg.originalSender ≠ q) :
    fromSender q [msg] = [] := by
  simp [fromSender, h]

@[simp] theorem mem_fromSender {q : ℕ} {l : List LcbMsg} {msg : LcbMsg} :
    msg ∈ fromSender q l ↔ msg ∈ l ∧ msg.originalSender = q := by
  simp [fromSender]

theorem length_fromSender_concat (q : ℕ) (l : List LcbMsg) (msg : LcbMsg) :
    (fromSender q (l ++ [msg])).length =
      (fromSender q l).length + if msg.originalSender = q then 1 else 0 := by
  rw [fromSender_append, List.length_append]
  split
  · next h => rw [← h, fromSender_singleton_self, List.length_singleton]
  · next h => rw [fromSender_singleton_of_ne h, List.length_nil]

theorem length_fromSender_le_of_subset {q : ℕ} {l l' : List LcbMsg} (hnodup : l.Nodup)
    (hsubset : l ⊆ l') : (fromSender q l).length ≤ (fromSender q l').length :=
  ((hnodup.filter _).subperm (List.filter_subset _ hsubset)).length_le

theorem fromSender_mono {q : ℕ} {l l' : List LcbMsg} (h : l <+: l') :
    fromSender q l <+: fromSender q l' := h.filter _

/-! ## The statements -/

/-- The clock of `msg` is backed by the messages `pre` broadcast before it. -/
structure Supported (cfg : Membership) (pre : List LcbMsg) (msg : LcbMsg) : Prop where
  fits : cfg.Fits msg
  own : entry msg.vecClock msg.originalSender = (fromSender msg.originalSender pre).length
  le : ∀ q, cfg.IsPid q → entry msg.vecClock q ≤ (fromSender q pre).length

/-- Every broadcast message is backed by the broadcasts before it. -/
abbrev BroadcastInv (cfg : Membership) (broadcast : List LcbMsg) : Prop :=
  InSequence (Supported cfg) broadcast

/-- What the main thread of `p` holds. -/
def MainInv (cfg : Membership) (broadcast : List LcbMsg) (p : ℕ) : MainThread → Prop
  | .ready i => (fromSender p broadcast).length + 1 = i ∧ i ≤ 2 ^ 31
  | .copied i msg | .logged i msg =>
      Supported cfg broadcast msg ∧ msg.originalSender = p ∧
        (fromSender p broadcast).length + 1 = i ∧ i < 2 ^ 31

/-- `msg` is in the pending list of its origin. -/
def Waiting (data : Lcb) (msg : LcbMsg) : Prop :=
  1 ≤ msg.originalSender ∧ msg.vecClock ∈ pendingList data (msg.originalSender - 1)

/-- A pending message has been counted and is still in its list, or its successor
has been removed in its place. -/
def Receiver.Torn : Receiver → Prop
  | .logging _ _ (.pending _ _) => True
  | .scanning _ .freed _ => True
  | .exited => True
  | .undefined => True
  | _ => False

/-- The receiver thread holds no message and its cursor is sound. -/
def Receiver.Quiet : Receiver → Prop
  | .idle => True
  | .calling => True
  | .scanning _ .null _ => True
  | .scanning _ (.node _) _ => True
  | _ => False

/-- What the receiver thread holds. -/
def ReceiverInv (cfg : Membership) (P : LcbProcess) : Receiver → Prop
  | .testing msg => msg ∈ P.handed ∧ msg ∉ P.data.delivered ∧ ¬ Waiting P.data msg
  | .updating msg site => msg ∈ P.handed ∧ msg ∉ P.data.delivered ∧
      Ready cfg P.data.vectorClock msg ∧
      match site with
      | .direct => ¬ Waiting P.data msg
      | .pending _ _ => True
  | .logging msg seq _ => (∃ pre, P.data.delivered = pre ++ [msg]) ∧
      seq = entry P.data.vectorClock msg.originalSender
  | _ => True

/-- The invariant of one process, given the messages broadcast so far. -/
structure ProcessInv (cfg : Membership) (broadcast : List LcbMsg) (p : ℕ) (P : LcbProcess) :
    Prop where
  wellFormed : P.data.WellFormed cfg p
  main : MainInv cfg broadcast p P.main
  handed_nodup : P.handed.Nodup
  handed_subset : P.handed ⊆ broadcast
  delivered_nodup : P.data.delivered.Nodup
  delivered_subset : P.data.delivered ⊆ P.handed
  clock : ∀ q, cfg.IsPid q →
    entry P.data.vectorClock q = (fromSender q P.data.delivered).length
  waiting_handed : ∀ msg, Waiting P.data msg → msg ∈ P.handed
  waiting_fresh : ¬ P.receiver.Torn → ∀ msg, Waiting P.data msg → msg ∉ P.data.delivered
  receiver : ReceiverInv cfg P P.receiver

/-- The invariant of the system. -/
structure LcbInv (cfg : Membership) (s : LcbSystem) : Prop where
  broadcast : BroadcastInv cfg s.broadcast
  process : ∀ p, cfg.IsPid p → ProcessInv cfg s.broadcast p (s.process p)

/-! ## Positions -/

section Positions

variable {cfg : Membership} {broadcast : List LcbMsg}

theorem BroadcastInv.fits (h : BroadcastInv cfg broadcast) {msg : LcbMsg}
    (hmem : msg ∈ broadcast) : cfg.Fits msg :=
  let ⟨_, _, hsupported⟩ := h.exists_of_mem hmem
  hsupported.fits

/-- A broadcast message stands among those of its origin in the position that its
own entry names. -/
theorem BroadcastInv.getElem?_own (h : BroadcastInv cfg broadcast) {msg : LcbMsg}
    (hmem : msg ∈ broadcast) :
    (fromSender msg.originalSender broadcast)[entry msg.vecClock msg.originalSender]? =
      some msg := by
  obtain ⟨pre, hpref, hsupported⟩ := h.exists_of_mem hmem
  have hfiltered : fromSender msg.originalSender pre ++ [msg] <+:
      fromSender msg.originalSender broadcast := by
    have := fromSender_mono (q := msg.originalSender) hpref
    rwa [fromSender_append, fromSender_singleton_self] at this
  obtain ⟨post, hpost⟩ := hfiltered
  rw [hsupported.own, ← hpost, List.append_assoc, List.getElem?_append_right le_rfl]
  simp

theorem BroadcastInv.own_lt (h : BroadcastInv cfg broadcast) {msg : LcbMsg}
    (hmem : msg ∈ broadcast) : entry msg.vecClock msg.originalSender <
      (fromSender msg.originalSender broadcast).length := by
  by_contra hlt
  have := h.getElem?_own hmem
  rw [List.getElem?_eq_none (not_lt.mp hlt)] at this
  cases this

/-- The message that is being prepared has not been broadcast. -/
theorem BroadcastInv.not_mem_of_supported (h : BroadcastInv cfg broadcast) {msg : LcbMsg}
    (hmsg : Supported cfg broadcast msg) : msg ∉ broadcast := by
  intro hmem
  have := h.own_lt hmem
  rw [hmsg.own] at this
  exact lt_irrefl _ this

theorem BroadcastInv.nodup (h : BroadcastInv cfg broadcast) : broadcast.Nodup := by
  induction broadcast using List.reverseRecOn with
  | nil => exact List.nodup_nil
  | append_singleton l msg ih =>
      obtain ⟨hl, hmsg⟩ := InSequence.concat_iff.mp h
      have hnew := BroadcastInv.not_mem_of_supported hl hmsg
      exact List.concat_eq_append ▸ List.Nodup.concat hnew (ih hl)

/-- Broadcasts of other processes keep a message backed. -/
theorem Supported.concat {pre : List LcbMsg} {msg other : LcbMsg} (h : Supported cfg pre msg)
    (hne : other.originalSender ≠ msg.originalSender) : Supported cfg (pre ++ [other]) msg where
  fits := h.fits
  own := by rw [h.own, length_fromSender_concat, if_neg hne, Nat.add_zero]
  le q hq := by
    have := h.le q hq
    rw [length_fromSender_concat]
    omega

end Positions

/-! ## What a step of the receiver thread does -/

/-- The effects of a receiver step on the process `P`. -/
inductive ReceiveEffect (cfg : Membership) (P : LcbProcess) : LcbProcess → Prop
  /-- `test_vec_clock` accepts the message handed over. -/
  | accept {msg : LcbMsg} (hreceiver : P.receiver = .testing msg)
      (hready : Ready cfg P.data.vectorClock msg) :
      ReceiveEffect cfg P { P with receiver := .updating msg .direct }
  /-- `test_vec_clock` refuses it, and it is put into the pending list. -/
  | park {msg : LcbMsg} (hreceiver : P.receiver = .testing msg)
      (hready : ¬ Ready cfg P.data.vectorClock msg) :
      ReceiveEffect cfg P { P with
        data := { P.data with
          lcbPending := P.data.lcbPending.modify (msg.originalSender - 1) (· ++ [msg.vecClock]) }
        receiver := .idle }
  /-- The accepted message is counted. -/
  | count {msg : LcbMsg} {site : Site} (hreceiver : P.receiver = .updating msg site) :
      ReceiveEffect cfg P { P with
        data := { P.data with
          vectorClock := bump P.data.vectorClock msg.originalSender
          delivered := P.data.delivered ++ [msg] }
        receiver := .logging msg
          (u32 (entry P.data.vectorClock msg.originalSender + 1)) site }
  /-- Its line is written; it came from `deliver_lcb`. -/
  | write {msg : LcbMsg} {seq : ℕ} (hreceiver : P.receiver = .logging msg seq .direct) :
      ReceiveEffect cfg P { P with
        data := { P.data with log := P.data.log ++ [.deliver msg.originalSender seq] }
        receiver := .calling }
  /-- Its line is written; it was the last node of its list, so `remove_veclist`
  is called with `NULL`. -/
  | fail {msg : LcbMsg} {seq i k : ℕ} (hreceiver : P.receiver = .logging msg seq (.pending i k)) :
      ReceiveEffect cfg P { P with
        data := { P.data with log := P.data.log ++ [.deliver msg.originalSender seq] }
        receiver := .exited }
  /-- Its line is written, and the next node is removed. -/
  | removeNext {msg : LcbMsg} {seq i k : ℕ}
      (hreceiver : P.receiver = .logging msg seq (.pending i k)) :
      ReceiveEffect cfg P { P with
        data := { P.data with
          log := P.data.log ++ [.deliver msg.originalSender seq]
          lcbPending := P.data.lcbPending.modify i (·.eraseIdx (k + 1)) }
        receiver := .scanning i .freed true }
  /-- `find_pending` goes on to another list, or returns. -/
  | turn {receiver : Receiver}
      (hreceiver : P.receiver = .calling ∨ ∃ i foundOne, P.receiver = .scanning i .null foundOne)
      (hquiet : receiver.Quiet) :
      ReceiveEffect cfg P { P with receiver := receiver }
  /-- `test_vec_clock` accepts a pending message. -/
  | find {msg : LcbMsg} {i k : ℕ} {foundOne : Bool}
      (hreceiver : P.receiver = .scanning i (.node k) foundOne) (hwaiting : Waiting P.data msg)
      (hready : Ready cfg P.data.vectorClock msg) :
      ReceiveEffect cfg P { P with receiver := .updating msg (.pending i k) }
  /-- The thread stays where it is. -/
  | stay : ReceiveEffect cfg P P
  /-- Freed memory is read. -/
  | lose {i : ℕ} {ptr : Cursor} {foundOne : Bool}
      (hreceiver : P.receiver = .scanning i ptr foundOne) :
      ReceiveEffect cfg P { P with receiver := .undefined }

theorem quiet_cursorAt (i : ℕ) (nodes : List (List ℕ)) (k : ℕ) (foundOne : Bool) :
    (Receiver.scanning i (cursorAt nodes k) foundOne).Quiet := by
  rcases cursorAt_cases nodes k with ⟨_, h⟩ | ⟨_, h⟩ <;> rw [h] <;> trivial

theorem quiet_turnTo (data : Lcb) (i : ℕ) (foundOne : Bool) : (turnTo data i foundOne).Quiet := by
  unfold turnTo
  split
  · exact quiet_cursorAt ..
  · split <;> trivial

theorem waiting_of_getElem? {data : Lcb} {i k : ℕ} {clock : List ℕ}
    (h : (pendingList data i)[k]? = some clock) : Waiting data ⟨clock, i + 1⟩ :=
  ⟨Nat.le_add_left .., List.mem_of_getElem? h⟩

section Receive

variable {cfg : Membership} {broadcast : List LcbMsg} {p : ℕ} {P : LcbProcess}

theorem ProcessInv.fits (hinv : ProcessInv cfg broadcast p P)
    (hbroadcast : BroadcastInv cfg broadcast) {msg : LcbMsg} (hmem : msg ∈ P.handed) :
    cfg.Fits msg :=
  hbroadcast.fits (hinv.handed_subset hmem)

/-- Every receiver step has one of the listed effects. -/
theorem receive_effect (hbroadcast : BroadcastInv cfg broadcast)
    (hinv : ProcessInv cfg broadcast p P) : ReceiveEffect cfg P P.receive := by
  have hwf := hinv.wellFormed
  have hheld := hinv.receiver
  unfold LcbProcess.receive receiverNext
  cases hreceiver : P.receiver with
  | idle => simpa [receiverStep, ← hreceiver] using ReceiveEffect.stay
  | exited => simpa [receiverStep, ← hreceiver] using ReceiveEffect.stay
  | undefined => simpa [receiverStep, ← hreceiver] using ReceiveEffect.stay
  | testing msg =>
      rw [hreceiver] at hheld
      have hfits := hinv.fits hbroadcast hheld.1
      simp only [receiverStep, Call.bind_apply, testVecClock_eq hwf hfits, Outcome.ok_andThen]
      by_cases hready : Ready cfg P.data.vectorClock msg
      · simpa [hready] using ReceiveEffect.accept hreceiver hready
      · simpa [hready, addPendingLcb_eq hwf hfits.isPid] using
          ReceiveEffect.park hreceiver hready
  | updating msg site =>
      rw [hreceiver] at hheld
      have hfits := hinv.fits hbroadcast hheld.1
      simpa [receiverStep, updateVecClock_eq hwf hfits.isPid, noteDelivery] using
        ReceiveEffect.count hreceiver
  | logging msg seq site =>
      cases site with
      | direct => simpa [receiverStep, logDeliverLcb] using ReceiveEffect.write hreceiver
      | pending i k =>
          simp only [receiverStep, logDeliverLcb, Call.bind_apply, Call.modify_apply,
            Outcome.ok_andThen, Call.state_apply]
          generalize pendingList _ i = nodes
          -- `ptr` has moved on: the node that is removed is the one behind the delivered one.
          rcases cursorAt_cases nodes (k + 1) with ⟨_, hcursor⟩ | ⟨_, hcursor⟩
          · simpa [hcursor, removeVeclist] using ReceiveEffect.removeNext hreceiver
          · simpa [hcursor, removeVeclist] using ReceiveEffect.fail hreceiver
  | calling =>
      simpa [receiverStep] using
        ReceiveEffect.turn (.inl hreceiver) (quiet_turnTo P.data 0 false)
  | scanning i ptr foundOne =>
      cases ptr with
      | null =>
          simpa [receiverStep] using
            ReceiveEffect.turn (.inr ⟨i, foundOne, hreceiver⟩)
              (quiet_turnTo P.data (i + 1) foundOne)
      | freed => simpa [receiverStep] using ReceiveEffect.lose hreceiver
      | node k =>
          cases hnode : (pendingList P.data i)[k]? with
          | none => simpa [receiverStep, hnode] using ReceiveEffect.lose hreceiver
          | some clock =>
              have hwaiting : Waiting P.data ⟨clock, i + 1⟩ := waiting_of_getElem? hnode
              have hfits := hinv.fits hbroadcast (hinv.waiting_handed _ hwaiting)
              have htest : testVecClock clock (i + 1) P.data =
                  .ok (decide (Ready cfg P.data.vectorClock ⟨clock, i + 1⟩)) P.data :=
                testVecClock_eq hwf hfits
              by_cases hready : Ready cfg P.data.vectorClock ⟨clock, i + 1⟩
              · simpa [receiverStep, hnode, htest, hready] using
                  ReceiveEffect.find hreceiver hwaiting hready
              · simpa [receiverStep, hnode, htest, hready, ← hreceiver] using ReceiveEffect.stay

end Receive

/-! ## The waiting messages -/

theorem mem_getD_modify {lists : List (List (List ℕ))} {f : List (List ℕ) → List (List ℕ)}
    {i j : ℕ} {clock : List ℕ} (h : clock ∈ (lists.modify i f).getD j []) :
    clock ∈ lists.getD j [] ∨ (i = j ∧ clock ∈ f (lists.getD j [])) := by
  rw [List.getD_eq_getElem?_getD, List.getElem?_modify] at h
  rw [List.getD_eq_getElem?_getD]
  cases hlist : lists[j]? with
  | none => simp [hlist] at h
  | some nodes =>
      by_cases hij : i = j
      · simp only [hlist, if_pos hij, Option.map_eq_map, Option.map_some, Option.getD_some] at h
        exact .inr ⟨hij, by simpa using h⟩
      · simp only [hlist, if_neg hij, Option.map_eq_map, Option.map_some,
          Option.getD_some] at h
        exact .inl (by simpa using h)

theorem waiting_park {data : Lcb} {msg other : LcbMsg} (hpos : 1 ≤ msg.originalSender)
    (h : Waiting { data with
      lcbPending := data.lcbPending.modify (msg.originalSender - 1) (· ++ [msg.vecClock]) } other) :
    Waiting data other ∨ other = msg := by
  obtain ⟨hother, hmem⟩ := h
  rcases mem_getD_modify hmem with hmem | ⟨hsender, hmem⟩
  · exact .inl ⟨hother, hmem⟩
  · rcases List.mem_append.mp hmem with hmem | hmem
    · exact .inl ⟨hother, hmem⟩
    · right
      have hclock : other.vecClock = msg.vecClock := by simpa using hmem
      have hsender : other.originalSender = msg.originalSender := by omega
      cases other
      cases msg
      simp_all

theorem waiting_eraseIdx {data : Lcb} {log : List LogLine} {i k : ℕ} {msg : LcbMsg}
    (h : Waiting { data with
      log := log
      lcbPending := data.lcbPending.modify i (·.eraseIdx k) } msg) : Waiting data msg := by
  obtain ⟨hpos, hmem⟩ := h
  rcases mem_getD_modify hmem with hmem | ⟨_, hmem⟩
  · exact ⟨hpos, hmem⟩
  · exact ⟨hpos, List.mem_of_mem_eraseIdx hmem⟩

/-! ## The receiver thread keeps the invariant -/

theorem Receiver.Quiet.receiverInv {cfg : Membership} {P : LcbProcess} {receiver : Receiver}
    (h : receiver.Quiet) : ReceiverInv cfg P receiver := by
  match receiver, h with
  | .idle, _ => trivial
  | .calling, _ => trivial
  | .scanning _ .null _, _ => trivial
  | .scanning _ (.node _) _, _ => trivial

/-- The invariant does not depend on the receiver's place when that holds no
message and the place was not torn before. -/
theorem ProcessInv.setReceiver {cfg : Membership} {broadcast : List LcbMsg} {p : ℕ}
    {P : LcbProcess} (h : ProcessInv cfg broadcast p P) {receiver : Receiver}
    (htorn : P.receiver.Torn → receiver.Torn)
    (hreceiver : ReceiverInv cfg { P with receiver := receiver } receiver) :
    ProcessInv cfg broadcast p { P with receiver := receiver } :=
  { h with
    waiting_fresh := fun hsound => h.waiting_fresh (mt htorn hsound)
    receiver := hreceiver }

/-- The clock with one more message counts the deliveries with that message. -/
theorem ProcessInv.entry_concat {cfg : Membership} {broadcast : List LcbMsg} {p : ℕ}
    {P : LcbProcess} (h : ProcessInv cfg broadcast p P)
    (hbound : ∀ q, cfg.IsPid q → (fromSender q broadcast).length < 2 ^ 32) {msg : LcbMsg}
    (hpid : cfg.IsPid msg.originalSender) (hnodup : (P.data.delivered ++ [msg]).Nodup)
    (hsubset : P.data.delivered ++ [msg] ⊆ P.handed) {q : ℕ} (hq : cfg.IsPid q) :
    entry (bump P.data.vectorClock msg.originalSender) q =
      (fromSender q (P.data.delivered ++ [msg])).length := by
  rw [entry_bump hpid.1 (h.wellFormed.vectorClock ▸ hpid.2) hq.1, length_fromSender_concat,
    ← h.clock q hq]
  by_cases hsender : q = msg.originalSender
  · -- the new count is still a number of broadcast messages
    have hcount : entry P.data.vectorClock q + 1 < 2 ^ 32 := by
      have hle : (fromSender q (P.data.delivered ++ [msg])).length ≤
          (fromSender q broadcast).length :=
        length_fromSender_le_of_subset hnodup (List.Subset.trans hsubset h.handed_subset)
      have := hbound q hq
      rw [length_fromSender_concat, if_pos hsender.symm, ← h.clock q hq] at hle
      omega
    rw [if_pos hsender, if_pos hsender.symm, ← hsender, u32_of_lt hcount]
  · rw [if_neg hsender, if_neg (Ne.symm hsender), Nat.add_zero]

theorem ReceiveEffect.processInv {cfg : Membership} {broadcast : List LcbMsg} {p : ℕ}
    {P P' : LcbProcess} (heffect : ReceiveEffect cfg P P')
    (hbroadcast : BroadcastInv cfg broadcast) (h : ProcessInv cfg broadcast p P)
    (hbound : ∀ q, cfg.IsPid q → (fromSender q broadcast).length < 2 ^ 32) :
    ProcessInv cfg broadcast p P' := by
  have hheld := h.receiver
  cases heffect with
  | @accept msg hreceiver hready =>
      rw [hreceiver] at hheld
      exact h.setReceiver (by simp [hreceiver, Receiver.Torn])
        ⟨hheld.1, hheld.2.1, hready, hheld.2.2⟩
  | @park msg hreceiver hready =>
      rw [hreceiver] at hheld
      have hpos := (h.fits hbroadcast hheld.1).isPid.1
      have hfresh := h.waiting_fresh (by simp [hreceiver, Receiver.Torn])
      exact { h with
        wellFormed := { h.wellFormed with
          lcbPending := (List.length_modify ..).trans h.wellFormed.lcbPending }
        waiting_handed := fun other hother => by
          rcases waiting_park hpos hother with hother | rfl
          · exact h.waiting_handed other hother
          · exact hheld.1
        waiting_fresh := fun _ other hother => by
          rcases waiting_park hpos hother with hother | rfl
          · exact hfresh other hother
          · exact hheld.2.1
        receiver := trivial }
  | @count msg site hreceiver =>
      rw [hreceiver] at hheld
      obtain ⟨hhanded, hnew, -, hsite⟩ := hheld
      have hpid := (h.fits hbroadcast hhanded).isPid
      have hsubset : P.data.delivered ++ [msg] ⊆ P.handed :=
        List.append_subset.mpr ⟨h.delivered_subset, by simpa using hhanded⟩
      have hnodup : (P.data.delivered ++ [msg]).Nodup :=
        List.concat_eq_append ▸ List.Nodup.concat hnew h.delivered_nodup
      exact { h with
        wellFormed := { h.wellFormed with
          vectorClock := (length_bump ..).trans h.wellFormed.vectorClock }
        delivered_nodup := hnodup
        delivered_subset := hsubset
        clock := fun q hq => h.entry_concat hbound hpid hnodup hsubset hq
        waiting_fresh := fun hsound other hother => by
          cases site with
          | pending i k => exact absurd trivial hsound
          | direct =>
              have hne : other ≠ msg := by rintro rfl; exact hsite hother
              have hold := h.waiting_fresh (by simp [hreceiver, Receiver.Torn]) other hother
              simpa [hne] using hold
        -- The number in the line is the entry that the increment has left.
        receiver := ⟨⟨_, rfl⟩, by
          rw [entry_bump hpid.1 (h.wellFormed.vectorClock ▸ hpid.2) hpid.1, if_pos rfl]⟩ }
  -- The line says nothing about the clock or the lists.
  | @write msg seq hreceiver =>
      have hfresh := h.waiting_fresh (by simp [hreceiver, Receiver.Torn])
      exact { h with
        wellFormed := { h.wellFormed with }
        waiting_fresh := fun _ => hfresh
        receiver := trivial }
  | @fail msg seq i k hreceiver =>
      exact { h with
        wellFormed := { h.wellFormed with }
        -- A delivery from a list leaves the delivered message in it, so nothing is said about
        -- the waiting messages from here on.
        waiting_fresh := fun hsound => absurd trivial hsound
        receiver := trivial }
  | @removeNext msg seq i k hreceiver =>
      exact { h with
        wellFormed := { h.wellFormed with
          lcbPending := (List.length_modify ..).trans h.wellFormed.lcbPending }
        waiting_handed := fun other hother => h.waiting_handed other (waiting_eraseIdx hother)
        waiting_fresh := fun hsound => absurd trivial hsound
        receiver := trivial }
  | turn hreceiver hquiet =>
      refine h.setReceiver (fun htorn => ?_) hquiet.receiverInv
      rcases hreceiver with hreceiver | ⟨i, foundOne, hreceiver⟩ <;>
        simp [hreceiver, Receiver.Torn] at htorn
  | find hreceiver hwaiting hready =>
      have hfresh := h.waiting_fresh (by simp [hreceiver, Receiver.Torn]) _ hwaiting
      exact h.setReceiver (by simp [hreceiver, Receiver.Torn])
        ⟨h.waiting_handed _ hwaiting, hfresh, hready, trivial⟩
  | stay => exact h
  | lose hreceiver => exact h.setReceiver (fun _ => trivial) trivial

/-! ## The main thread and the other processes -/

section Main

variable {cfg : Membership} {broadcast : List LcbMsg} {p : ℕ} {P : LcbProcess}

/-- The message that the main thread prepares is backed by the broadcasts so far. -/
theorem ProcessInv.supported_next (h : ProcessInv cfg broadcast p P) (hp : cfg.IsPid p)
    {i : ℕ} (hmain : (fromSender p broadcast).length + 1 = i) :
    Supported cfg broadcast ⟨P.data.vectorClock.set (p - 1) (i - 1), p⟩ where
  fits := ⟨hp, List.length_set.trans h.wellFormed.vectorClock⟩
  own := by
    rw [entry_set _ hp.1 (h.wellFormed.vectorClock ▸ hp.2) hp.1, if_pos rfl]
    show i - 1 = (fromSender p broadcast).length
    omega
  le q hq := by
    rw [entry_set _ hp.1 (h.wellFormed.vectorClock ▸ hp.2) hq.1]
    by_cases hqp : q = p
    · rw [if_pos hqp, hqp]
      omega
    · rw [if_neg hqp, h.clock q hq]
      exact length_fromSender_le_of_subset h.delivered_nodup
        (List.Subset.trans h.delivered_subset h.handed_subset)

theorem MainInv.concat {main : MainThread} (h : MainInv cfg broadcast p main) {msg : LcbMsg}
    (hne : msg.originalSender ≠ p) : MainInv cfg (broadcast ++ [msg]) p main := by
  have hlength : (fromSender p (broadcast ++ [msg])).length = (fromSender p broadcast).length := by
    rw [length_fromSender_concat, if_neg hne, Nat.add_zero]
  cases main with
  | ready i => exact ⟨hlength ▸ h.1, h.2⟩
  | copied i own => exact ⟨h.1.concat (h.2.1 ▸ hne), h.2.1, hlength ▸ h.2.2.1, h.2.2.2⟩
  | logged i own => exact ⟨h.1.concat (h.2.1 ▸ hne), h.2.1, hlength ▸ h.2.2.1, h.2.2.2⟩

/-- A broadcast of another process keeps the invariant. -/
theorem ProcessInv.concat (h : ProcessInv cfg broadcast p P) {msg : LcbMsg}
    (hne : msg.originalSender ≠ p) : ProcessInv cfg (broadcast ++ [msg]) p P :=
  { h with
    main := h.main.concat hne
    handed_subset := List.subset_append_of_subset_left _ h.handed_subset }

end Main

/-! ## Every reachable state satisfies the invariant -/

section System

variable {cfg : Membership} {s t : LcbSystem} {p : ℕ}

/-- A process broadcasts fewer than `2 ^ 31` messages. -/
theorem LcbInv.length_lt (h : LcbInv cfg s) {q : ℕ} (hq : cfg.IsPid q) :
    (fromSender q s.broadcast).length < 2 ^ 31 := by
  have hmain := (h.process q hq).main
  cases hcase : (s.process q).main with
  | ready i => rw [hcase] at hmain; have := hmain.1; have := hmain.2; omega
  | copied i msg => rw [hcase] at hmain; have := hmain.2.2; omega
  | logged i msg => rw [hcase] at hmain; have := hmain.2.2; omega

/-- It is enough to look at the process that takes the step. -/
theorem LcbInv.set (h : LcbInv cfg s) {P : LcbProcess}
    (hP : ProcessInv cfg s.broadcast p P) : LcbInv cfg (s.set p P) where
  broadcast := h.broadcast
  process := LcbSystem.forall_set h.process hP

theorem LcbInv.step (h : LcbInv cfg s) (hp : cfg.IsPid p) {action : LcbAction}
    (hstep : LcbStep s p action t) : LcbInv cfg t := by
  have hP := h.process p hp
  have hmainInv := hP.main
  cases hstep with
  | @copy i msg data hdefined hmain hi hcall =>
      rw [hmain] at hmainInv
      rw [nextLcbMsg_eq hP.wellFormed hp] at hcall
      obtain ⟨rfl, rfl⟩ := Outcome.ok.inj hcall
      exact h.set { hP with
        main := ⟨hP.supported_next hp hmainInv.1, rfl, hmainInv.1, hi⟩
        receiver := hP.receiver }
  | @logBroadcast i msg data hdefined hmain hcall =>
      rw [hmain] at hmainInv
      obtain ⟨-, rfl⟩ := Outcome.ok.inj hcall
      exact h.set { hP with
        wellFormed := { hP.wellFormed with }
        main := hmainInv
        receiver := hP.receiver }
  -- The one step that changes what has been broadcast, which the invariants of all
  -- processes speak about.
  | @send i msg hdefined hmain =>
      rw [hmain] at hmainInv
      obtain ⟨hmsg, rfl, hlength, hi⟩ := hmainInv
      refine ⟨h.broadcast.concat hmsg, fun q hq => ?_⟩
      by_cases hqp : q = msg.originalSender
      · subst hqp
        have hcount :
            (fromSender msg.originalSender (s.broadcast ++ [msg])).length + 1 = i + 1 := by
          rw [length_fromSender_concat, if_pos rfl, hlength]
        simpa using ({ hP with
          main := ⟨hcount, hi⟩
          handed_subset := List.subset_append_of_subset_left _ hP.handed_subset
          receiver := hP.receiver } : ProcessInv cfg (s.broadcast ++ [msg]) msg.originalSender
            { s.process msg.originalSender with main := .ready (i + 1) })
      · show ProcessInv cfg (s.broadcast ++ [msg]) q ((s.set _ _).process q)
        rw [LcbSystem.set_process_of_ne s _ hqp]
        exact (h.process q hq).concat (Ne.symm hqp)
  | @hand msg hidle hmem hnew =>
      have hdelivered : msg ∉ (s.process p).data.delivered := fun hin =>
        hnew (hP.delivered_subset hin)
      have hwaiting : ¬ Waiting (s.process p).data msg := fun hin =>
        hnew (hP.waiting_handed msg hin)
      have hfresh := hP.waiting_fresh (by simp [hidle, Receiver.Torn])
      exact h.set { hP with
        handed_nodup := List.concat_eq_append ▸ List.Nodup.concat hnew hP.handed_nodup
        handed_subset := List.append_subset.mpr ⟨hP.handed_subset, by simpa using hmem⟩
        delivered_subset := List.subset_append_of_subset_left _ hP.delivered_subset
        waiting_handed := fun other hother =>
          List.mem_append_left _ (hP.waiting_handed other hother)
        waiting_fresh := fun _ => hfresh
        receiver := ⟨by simp, hdelivered, hwaiting⟩ }
  | receive hdefined =>
      have heffect := receive_effect h.broadcast hP
      exact h.set (heffect.processInv h.broadcast hP fun q hq =>
        (h.length_lt hq).trans (by norm_num))

theorem ProcessInv.initial (cfg : Membership) (p : ℕ) :
    ProcessInv cfg [] p (LcbProcess.initial cfg p) where
  wellFormed := Lcb.initial_wellFormed cfg p
  main := ⟨rfl, by norm_num⟩
  handed_nodup := List.nodup_nil
  handed_subset := List.Subset.refl _
  delivered_nodup := List.nodup_nil
  delivered_subset := List.Subset.refl _
  clock q _ := entry_replicate_zero cfg.numProc q
  waiting_handed msg hmsg := by
    have hempty : pendingList (Lcb.initial cfg p) (msg.originalSender - 1) = [] := by
      simp only [pendingList, Lcb.initial, List.getD_eq_getElem?_getD, List.getElem?_replicate]
      split <;> rfl
    exact absurd hmsg.2 (hempty ▸ List.not_mem_nil)
  waiting_fresh _ msg _ := List.not_mem_nil
  receiver := trivial

/-- The invariant holds in every reachable state of the causal layer. -/
theorem lcbInv_of_reachable (hs : (lcbSystem cfg).Reachable s) : LcbInv cfg s := by
  refine hs.invariant ?_ ?_
  · rintro s rfl
    exact ⟨InSequence.nil, fun p _ => ProcessInv.initial cfg p⟩
  · rintro s t _ hinv ⟨p, action, hp, hstep⟩
    exact hinv.step hp hstep

end System

end CausalBroadcast
