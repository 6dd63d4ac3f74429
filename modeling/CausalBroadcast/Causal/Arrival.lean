import CausalBroadcast.Causal.Fifo

/-!
# The order of arrival

The messages that a process has to deliver in the end do not depend on the order
in which they arrive: they are the unique saturation of `Met` (`Saturates.perm`).
`find_pending` does not compute it.  Its cursor stops at the first waiting message
(`findPendingList_node_ne_ok`), so a call that accepts a message while another one
is waiting never returns `0`.

`sameResult_iff` says for which orders the calls do what they should: those in
which no message that is accepted on arrival comes after one that is refused.
-/

namespace CausalBroadcast

/-- `deliver_lcb` for each message of a list, until a call does not return `0`. -/
def deliverAll (rounds : ℕ) : List LcbMsg → LcbCall Unit
  | [] => pure ()
  | msg :: rest => do
      deliverLcb rounds msg
      deliverAll rounds rest

/-- The messages `pre` are accepted one after another on arrival, and the messages
`post` after them are all refused. -/
def ArrivesInTurn (cfg : Membership) (order : List LcbMsg) : Prop :=
  ∃ pre post, order = pre ++ post ∧ InSequence (Met cfg) pre ∧ ∀ msg ∈ post, ¬ Met cfg pre msg

/-- Two orders of arrival, at a process that starts from the initial state, with
the same result: every call returns `0`, the clocks and the delivered messages are
the same, and so are the waiting messages, which are those that are not met. -/
def SameResult (cfg : Membership) (me : ℕ) (order order' : List LcbMsg) : Prop :=
  ∃ rounds data data',
    deliverAll rounds order (Lcb.initial cfg me) = .ok () data ∧
    deliverAll rounds order' (Lcb.initial cfg me) = .ok () data' ∧
    data.vectorClock = data'.vectorClock ∧
    (∀ msg, msg ∈ data.delivered ↔ msg ∈ data'.delivered) ∧
    (∀ i, (pendingList data i).Perm (pendingList data' i)) ∧
    ∀ msg, Waiting data msg ↔ msg ∈ order ∧ ¬ Ready cfg data.vectorClock msg

/-! ## Delivering and parking -/

section Data

variable {cfg : Membership} {me : ℕ} {data : Lcb} {order pre post : List LcbMsg}

theorem foldl_deliver_wellFormed (hdata : data.WellFormed cfg me) (l : List LcbMsg) :
    (l.foldl Lcb.deliver data).WellFormed cfg me := by
  induction l generalizing data with
  | nil => exact hdata
  | cons msg rest ih => exact ih (hdata.deliver msg)

theorem foldl_park_wellFormed (hdata : data.WellFormed cfg me) (l : List LcbMsg) :
    (l.foldl Lcb.park data).WellFormed cfg me := by
  induction l generalizing data with
  | nil => exact hdata
  | cons msg rest ih => exact ih (hdata.park msg)

@[simp] theorem foldl_deliver_lcbPending (l : List LcbMsg) :
    (l.foldl Lcb.deliver data).lcbPending = data.lcbPending := by
  induction l generalizing data with
  | nil => rfl
  | cons msg rest ih => exact ih

@[simp] theorem foldl_deliver_delivered (l : List LcbMsg) :
    (l.foldl Lcb.deliver data).delivered = data.delivered ++ l := by
  induction l generalizing data with
  | nil => simp
  | cons msg rest ih =>
      rw [List.foldl_cons, ih]
      simp [Lcb.deliver]

@[simp] theorem foldl_park_vectorClock (l : List LcbMsg) :
    (l.foldl Lcb.park data).vectorClock = data.vectorClock := by
  induction l generalizing data with
  | nil => rfl
  | cons msg rest ih => exact ih

@[simp] theorem foldl_park_delivered (l : List LcbMsg) :
    (l.foldl Lcb.park data).delivered = data.delivered := by
  induction l generalizing data with
  | nil => rfl
  | cons msg rest ih => exact ih

theorem pendingList_park {msg : LcbMsg} {i : ℕ} (hi : i < data.lcbPending.length)
    (hpos : 1 ≤ msg.originalSender) : pendingList (data.park msg) i =
      pendingList data i ++ (fromSender (i + 1) [msg]).map LcbMsg.vecClock := by
  have hiff : msg.originalSender - 1 = i ↔ msg.originalSender = i + 1 := by omega
  unfold pendingList Lcb.park
  rw [List.getD_eq_getElem?_getD, List.getD_eq_getElem?_getD, List.getElem?_modify]
  by_cases hsender : msg.originalSender = i + 1
  · simp [fromSender, hsender, hi]
  · simp [fromSender, mt hiff.mp hsender, hsender, hi]

theorem pendingList_foldl_park {i : ℕ} (hi : i < data.lcbPending.length) (l : List LcbMsg)
    (hpos : ∀ msg ∈ l, 1 ≤ msg.originalSender) : pendingList (l.foldl Lcb.park data) i =
      pendingList data i ++ (fromSender (i + 1) l).map LcbMsg.vecClock := by
  induction l generalizing data with
  | nil => simp
  | cons msg rest ih =>
      have hlength : i < (data.park msg).lcbPending.length := by simpa [Lcb.park] using hi
      rw [List.foldl_cons, ih hlength fun m hm => hpos m (List.mem_cons_of_mem _ hm),
        pendingList_park hi (hpos msg List.mem_cons_self), List.append_assoc, ← List.map_append,
        ← fromSender_append, List.singleton_append]

theorem not_noPending_park (hdata : data.WellFormed cfg me) {msg : LcbMsg} (hmsg : cfg.Fits msg) :
    ¬ NoPending (data.park msg) := by
  intro hnone
  have hpos := hmsg.isPid.1
  have hlt : msg.originalSender - 1 < data.lcbPending.length := by
    have := hdata.lcbPending
    have := hmsg.isPid.2
    omega
  have hnil := noPending_iff.mp hnone (msg.originalSender - 1) (Nat.zero_le _)
    (by simpa [Lcb.park] using hlt)
  rw [pendingList_park hlt hpos] at hnil
  simp [fromSender, Nat.sub_add_cancel hpos] at hnil

/-! ## When every call returns `0` -/

theorem deliverAll_refused (hdata : data.WellFormed cfg me) (hfits : ∀ msg ∈ order, cfg.Fits msg)
    (hrefused : ∀ msg ∈ order, ¬ Ready cfg data.vectorClock msg) (rounds : ℕ) :
    deliverAll rounds order data = .ok () (order.foldl Lcb.park data) := by
  induction order generalizing data with
  | nil => rfl
  | cons msg rest ih =>
      rw [List.forall_mem_cons] at hfits hrefused
      simp only [deliverAll, Call.bind_apply, deliverLcb_refused hdata hfits.1 hrefused.1,
        Outcome.ok_andThen]
      exact @ih (data.park msg) (hdata.park msg) hfits.2 hrefused.2

/-- Once a message waits, calls that return `0` refuse their message. -/
theorem deliverAll_stuck (hdata : data.WellFormed cfg me) (hpending : ¬ NoPending data)
    (hfits : ∀ msg ∈ order, cfg.Fits msg) {rounds : ℕ} {data' : Lcb}
    (h : deliverAll rounds order data = .ok () data') :
    ∀ msg ∈ order, ¬ Ready cfg data.vectorClock msg := by
  induction order generalizing data with
  | nil => simp
  | cons msg rest ih =>
      rw [List.forall_mem_cons] at hfits
      simp only [deliverAll, Call.bind_apply] at h
      by_cases hready : Ready cfg data.vectorClock msg
      · rw [deliverLcb_ready hdata hfits.1 hready] at h
        cases hcall : findAllPending rounds rounds (data.deliver msg) with
        | ok value data₁ => exact absurd (findAllPending_ok hcall).1 hpending
        | error code data₁ => rw [hcall] at h; cases h
        | running data₁ => rw [hcall] at h; cases h
        | undefined => rw [hcall] at h; cases h
      · rw [deliverLcb_refused hdata hfits.1 hready, Outcome.ok_andThen] at h
        exact List.forall_mem_cons.mpr ⟨hready, @ih (data.park msg) (hdata.park msg)
          (not_noPending_park hdata hfits.1) hfits.2 h⟩

/-- The clock of `data` after it has counted `pre` lets `msg` pass. -/
def ReadyAfter (cfg : Membership) (data : Lcb) (pre : List LcbMsg) (msg : LcbMsg) : Prop :=
  Ready cfg (pre.foldl Lcb.deliver data).vectorClock msg

theorem deliverAll_split (hdata : data.WellFormed cfg me) (hnone : NoPending data)
    (hfits : ∀ msg ∈ pre ++ post, cfg.Fits msg) (hpre : InSequence (ReadyAfter cfg data) pre)
    (hpost : ∀ msg ∈ post, ¬ ReadyAfter cfg data pre msg) (rounds : ℕ) :
    deliverAll (rounds + 1) (pre ++ post) data =
      .ok () (post.foldl Lcb.park (pre.foldl Lcb.deliver data)) := by
  induction pre generalizing data with
  | nil => exact deliverAll_refused hdata hfits hpost _
  | cons msg rest ih =>
      rw [List.cons_append, List.forall_mem_cons] at hfits
      have hready : Ready cfg data.vectorClock msg := hpre [] msg ⟨rest, rfl⟩
      simp only [List.cons_append, deliverAll, Call.bind_apply,
        deliverLcb_direct hdata hfits.1 hready hnone, Outcome.ok_andThen]
      exact ih (hdata.deliver msg) hnone hfits.2
        (fun l m hl => hpre (msg :: l) m (List.cons_prefix_cons.mpr ⟨rfl, hl⟩)) hpost

theorem split_of_deliverAll (hdata : data.WellFormed cfg me) (hnone : NoPending data)
    (hfits : ∀ msg ∈ order, cfg.Fits msg) {rounds : ℕ} {data' : Lcb}
    (h : deliverAll rounds order data = .ok () data') :
    ∃ pre post, order = pre ++ post ∧ InSequence (ReadyAfter cfg data) pre ∧
      ∀ msg ∈ post, ¬ ReadyAfter cfg data pre msg := by
  induction order generalizing data with
  | nil => exact ⟨[], [], rfl, InSequence.nil, by simp⟩
  | cons msg rest ih =>
      have hall := hfits
      rw [List.forall_mem_cons] at hfits
      simp only [deliverAll, Call.bind_apply] at h
      by_cases hready : Ready cfg data.vectorClock msg
      · rw [deliverLcb_ready hdata hfits.1 hready] at h
        cases hcall : findAllPending rounds rounds (data.deliver msg) with
        | ok value data₁ =>
            obtain ⟨-, rfl⟩ := findAllPending_ok hcall
            rw [hcall, Outcome.ok_andThen] at h
            obtain ⟨pre, post, rfl, hpre, hpost⟩ := ih (hdata.deliver msg) hnone hfits.2 h
            refine ⟨msg :: pre, post, rfl, fun l m hl => ?_, hpost⟩
            cases l with
            | nil =>
                obtain ⟨rfl, -⟩ := List.cons_prefix_cons.mp hl
                exact hready
            | cons first l =>
                obtain ⟨rfl, hpref⟩ := List.cons_prefix_cons.mp hl
                exact hpre l m hpref
        | error code data₁ => rw [hcall] at h; cases h
        | running data₁ => rw [hcall] at h; cases h
        | undefined => rw [hcall] at h; cases h
      -- Once a message waits, no call that accepts one returns `0`.
      · rw [deliverLcb_refused hdata hfits.1 hready, Outcome.ok_andThen] at h
        have hstuck := deliverAll_stuck (hdata.park msg) (not_noPending_park hdata hfits.1)
          hfits.2 h
        exact ⟨[], msg :: rest, rfl, InSequence.nil, List.forall_mem_cons.mpr ⟨hready, hstuck⟩⟩

end Data

/-! ## The clock counts the deliveries -/

section Clock

variable {cfg : Membership} {me : ℕ}

theorem entry_foldl_deliver (l : List LcbMsg) (hfits : ∀ msg ∈ l, cfg.Fits msg)
    (hbound : ∀ q, cfg.IsPid q → (fromSender q l).length < 2 ^ 32) {q : ℕ} (hq : cfg.IsPid q) :
    entry (l.foldl Lcb.deliver (Lcb.initial cfg me)).vectorClock q =
      (fromSender q l).length := by
  induction l using List.reverseRecOn with
  | nil => exact entry_replicate_zero cfg.numProc q
  | append_singleton l msg ih =>
      have hmsg := (hfits msg (by simp)).isPid
      have hwf := foldl_deliver_wellFormed (Lcb.initial_wellFormed cfg me) l
      have hlt := hbound q hq
      rw [length_fromSender_concat] at hlt ⊢
      have hold := ih (fun m hm => hfits m (List.mem_append_left _ hm)) fun r hr => by
        have := hbound r hr
        rw [length_fromSender_concat] at this
        omega
      rw [List.foldl_concat]
      show entry (bump (l.foldl Lcb.deliver (Lcb.initial cfg me)).vectorClock
        msg.originalSender) q = _
      rw [entry_bump hmsg.1 (hwf.vectorClock ▸ hmsg.2) hq.1]
      by_cases hsender : q = msg.originalSender
      · rw [if_pos hsender.symm] at hlt
        rw [if_pos hsender, if_pos hsender.symm, ← hsender, hold, u32_of_lt hlt]
      · rw [if_neg hsender, if_neg (Ne.symm hsender), hold, Nat.add_zero]

/-- Clocks with the same entries are the same. -/
theorem eq_of_entry_eq {clock clock' : List ℕ} (hlength : clock.length = cfg.numProc)
    (hlength' : clock'.length = cfg.numProc)
    (h : ∀ q, cfg.IsPid q → entry clock q = entry clock' q) : clock = clock' := by
  refine List.ext_getElem (hlength.trans hlength'.symm) fun i hi hi' => ?_
  have hentry := h (i + 1) ⟨Nat.le_add_left .., by omega⟩
  simpa [entry, readEntry, hi, hi'] using hentry

end Clock

/-! ## Two orders -/

section Orders

variable {cfg : Membership} {s : LcbSystem} {me : ℕ} {order order' : List LcbMsg}

/-- Distinct messages of a run. -/
structure FromRun (cfg : Membership) (s : LcbSystem) (order : List LcbMsg) : Prop where
  reachable : (lcbSystem cfg).Reachable s
  nodup : order.Nodup
  subset : order ⊆ s.broadcast

theorem FromRun.fits (h : FromRun cfg s order) : ∀ msg ∈ order, cfg.Fits msg :=
  fun _ hmem => (lcbInv_of_reachable h.reachable).broadcast.fits (h.subset hmem)

theorem FromRun.mono (h : FromRun cfg s order) {pre : List LcbMsg} (hpre : pre <+: order) :
    FromRun cfg s pre :=
  ⟨h.reachable, h.nodup.sublist hpre.sublist, List.Subset.trans hpre.subset h.subset⟩

theorem FromRun.perm (h : FromRun cfg s order) (hperm : order.Perm order') :
    FromRun cfg s order' :=
  ⟨h.reachable, hperm.nodup_iff.mp h.nodup, List.Subset.trans hperm.symm.subset h.subset⟩

theorem FromRun.entry_deliver (h : FromRun cfg s order) {q : ℕ} (hq : cfg.IsPid q) :
    entry (order.foldl Lcb.deliver (Lcb.initial cfg me)).vectorClock q =
      (fromSender q order).length :=
  entry_foldl_deliver order h.fits (fun _ hr =>
    ((length_fromSender_le_of_subset h.nodup h.subset).trans_lt
      ((lcbInv_of_reachable h.reachable).length_lt hr)).trans (by norm_num)) hq

theorem FromRun.readyAfter_iff (h : FromRun cfg s order) (msg : LcbMsg) :
    ReadyAfter cfg (Lcb.initial cfg me) order msg ↔ Met cfg order msg :=
  ready_iff_met (fun _ hq => h.entry_deliver hq) msg

theorem FromRun.inSequence_iff (h : FromRun cfg s order) :
    InSequence (ReadyAfter cfg (Lcb.initial cfg me)) order ↔ InSequence (Met cfg) order :=
  forall₃_congr fun pre msg hpref =>
    (h.mono ((List.prefix_append pre [msg]).trans hpref)).readyAfter_iff msg

/-- What the calls leave when the messages arrive in turn. -/
theorem FromRun.deliverAll_split {pre post : List LcbMsg} (h : FromRun cfg s (pre ++ post))
    (hpre : InSequence (Met cfg) pre) (hpost : ∀ msg ∈ post, ¬ Met cfg pre msg) (rounds : ℕ) :
    deliverAll (rounds + 1) (pre ++ post) (Lcb.initial cfg me) =
      .ok () (post.foldl Lcb.park (pre.foldl Lcb.deliver (Lcb.initial cfg me))) := by
  have hpref := h.mono (List.prefix_append pre post)
  exact CausalBroadcast.deliverAll_split (Lcb.initial_wellFormed cfg me) (noPending_initial cfg me)
    h.fits (hpref.inSequence_iff.mpr hpre)
    (fun msg hmsg => mt (hpref.readyAfter_iff msg).mp (hpost msg hmsg)) rounds

/-- Every call returns `0` exactly when the messages arrive in turn. -/
theorem FromRun.deliverAll_ok_iff (h : FromRun cfg s order) :
    (∃ rounds data, deliverAll rounds order (Lcb.initial cfg me) = .ok () data) ↔
      ArrivesInTurn cfg order := by
  constructor
  · rintro ⟨rounds, data, hcalls⟩
    obtain ⟨pre, post, rfl, hpre, hpost⟩ := split_of_deliverAll (Lcb.initial_wellFormed cfg me)
      (noPending_initial cfg me) h.fits hcalls
    have hpref := h.mono (List.prefix_append pre post)
    exact ⟨pre, post, rfl, hpref.inSequence_iff.mp hpre,
      fun msg hmsg => mt (hpref.readyAfter_iff msg).mpr (hpost msg hmsg)⟩
  · rintro ⟨pre, post, rfl, hpre, hpost⟩
    exact ⟨1, _, h.deliverAll_split hpre hpost 0⟩

theorem FromRun.saturates {pre post : List LcbMsg} (h : FromRun cfg s (pre ++ post))
    (hpre : InSequence (Met cfg) pre) (hpost : ∀ msg ∈ post, ¬ Met cfg pre msg) :
    Saturates (Met cfg) pre (pre ++ post) where
  nodup := h.nodup.sublist (List.sublist_append_left ..)
  subset := List.subset_append_left ..
  inSequence := hpre
  closed msg hmem hnew := hpost msg ((List.mem_append.mp hmem).resolve_left hnew)

/-- The messages that wait after all have arrived in turn. -/
theorem FromRun.pendingList_eq {pre post : List LcbMsg} (h : FromRun cfg s (pre ++ post)) (i : ℕ) :
    pendingList (post.foldl Lcb.park (pre.foldl Lcb.deliver (Lcb.initial cfg me))) i =
      (fromSender (i + 1) post).map LcbMsg.vecClock := by
  have hfits : ∀ msg ∈ post, cfg.Fits msg := fun msg hmsg =>
    h.fits msg (List.mem_append_right _ hmsg)
  have hwf := foldl_deliver_wellFormed (Lcb.initial_wellFormed cfg me) pre
  by_cases hi : i < cfg.numProc
  · rw [pendingList_foldl_park (hwf.lcbPending ▸ hi) post fun msg hmsg => (hfits msg hmsg).isPid.1]
    have hnil : pendingList (pre.foldl Lcb.deliver (Lcb.initial cfg me)) i = [] := by
      unfold pendingList
      rw [foldl_deliver_lcbPending]
      simp [Lcb.initial, hi]
    rw [hnil, List.nil_append]
  · have hnone : fromSender (i + 1) post = [] := by
      refine List.filter_eq_nil_iff.mpr fun msg hmsg => ?_
      have := (hfits msg hmsg).isPid.2
      simp only [decide_eq_true_eq]
      omega
    have hlength := (foldl_park_wellFormed hwf post).lcbPending
    unfold pendingList
    rw [hnone, List.getD_eq_getElem?_getD, List.getElem?_eq_none (by omega)]
    rfl

theorem FromRun.waiting_iff {pre post : List LcbMsg} (h : FromRun cfg s (pre ++ post))
    (msg : LcbMsg) :
    Waiting (post.foldl Lcb.park (pre.foldl Lcb.deliver (Lcb.initial cfg me))) msg ↔
      msg ∈ post := by
  unfold Waiting
  rw [h.pendingList_eq, List.mem_map]
  constructor
  · rintro ⟨hpos, other, hother, hclock⟩
    obtain ⟨hmem, hsender⟩ := mem_fromSender.mp hother
    rw [Nat.sub_add_cancel hpos] at hsender
    obtain rfl : other = msg := by
      cases other
      cases msg
      simp_all
    exact hmem
  · intro hmem
    have hpos := (h.fits msg (List.mem_append_right _ hmem)).isPid.1
    exact ⟨hpos, msg, mem_fromSender.mpr ⟨hmem, (Nat.sub_add_cancel hpos).symm⟩, rfl⟩

theorem sameResult_of_arrivesInTurn (h : FromRun cfg s order) (hperm : order.Perm order')
    (harrives : ArrivesInTurn cfg order) (harrives' : ArrivesInTurn cfg order') :
    SameResult cfg me order order' := by
  have h' := h.perm hperm
  obtain ⟨pre, post, rfl, hpre, hpost⟩ := harrives
  obtain ⟨pre', post', rfl, hpre', hpost'⟩ := harrives'
  have hsat := h.saturates hpre hpost
  have hsat' := h'.saturates hpre' hpost'
  -- both orders deliver the unique saturation
  have hdelivered : pre.Perm pre' := hsat.perm (monotoneReady_met cfg)
    { hsat' with
      subset := List.Subset.trans hsat'.subset hperm.symm.subset
      closed := fun msg hmem => hsat'.closed msg (hperm.subset hmem) }
  have hwaiting : post.Perm post' :=
    (List.perm_append_left_iff pre').mp ((hdelivered.append_right post).symm.trans hperm)
  have hclock := h.mono (List.prefix_append pre post)
  have hclock' := h'.mono (List.prefix_append pre' post')
  refine ⟨1, _, _, h.deliverAll_split hpre hpost 0, h'.deliverAll_split hpre' hpost' 0,
    ?_, ?_, ?_, ?_⟩
  · rw [foldl_park_vectorClock, foldl_park_vectorClock]
    refine eq_of_entry_eq
      (foldl_deliver_wellFormed (Lcb.initial_wellFormed cfg me) pre).vectorClock
      (foldl_deliver_wellFormed (Lcb.initial_wellFormed cfg me) pre').vectorClock fun q hq => ?_
    rw [hclock.entry_deliver hq, hclock'.entry_deliver hq]
    exact (hdelivered.filter _).length_eq
  · intro msg
    simp only [foldl_park_delivered, foldl_deliver_delivered, List.mem_append]
    rw [hdelivered.mem_iff]
  · intro i
    rw [h.pendingList_eq, h'.pendingList_eq]
    exact (hwaiting.filter _).map _
  · intro msg
    rw [h.waiting_iff, foldl_park_vectorClock]
    show msg ∈ post ↔ msg ∈ pre ++ post ∧ ¬ ReadyAfter cfg (Lcb.initial cfg me) pre msg
    rw [hclock.readyAfter_iff]
    constructor
    · exact fun hmem => ⟨List.mem_append_right _ hmem, hpost msg hmem⟩
    · rintro ⟨hmem, hrefused⟩
      refine (List.mem_append.mp hmem).resolve_left fun hin => hrefused ?_
      obtain ⟨l, hl, hmet⟩ := hpre.exists_of_mem hin
      have hpref := (List.prefix_append l [msg]).trans hl
      exact monotoneReady_met cfg l pre msg (hclock.nodup.sublist hpref.sublist) hpref.subset
        hmet

/-- Two orders of the same messages have the same result exactly when in both no
message that is accepted on arrival comes after one that is refused. -/
theorem sameResult_iff (h : FromRun cfg s order) (hperm : order.Perm order') :
    SameResult cfg me order order' ↔ ArrivesInTurn cfg order ∧ ArrivesInTurn cfg order' := by
  constructor
  · rintro ⟨rounds, data, data', hcalls, hcalls', -⟩
    exact ⟨h.deliverAll_ok_iff.mp ⟨rounds, data, hcalls⟩,
      (h.perm hperm).deliverAll_ok_iff.mp ⟨rounds, data', hcalls'⟩⟩
  · exact fun harrives => sameResult_of_arrivesInTurn h hperm harrives.1 harrives.2

end Orders

/-! ## Two messages in the wrong order -/

theorem fromRun_twoSent : FromRun fifoMembership (twoSent fifoMembership 2)
    [⟨[0, 0], 2⟩, ⟨[0, 1], 2⟩] where
  reachable := reachable_twoSent (by decide)
  nodup := by decide
  subset := by
    rw [twoSent_broadcast]
    exact List.Subset.refl _

/-- Process `2` has broadcast three messages and process `1` one. -/
def crossSent : LcbSystem := ((twoSent fifoMembership 2).sendLcb 2 3).sendLcb 1 1

theorem fromRun_crossSent : FromRun fifoMembership crossSent
    [⟨[0, 0], 2⟩, ⟨[0, 0], 1⟩, ⟨[0, 2], 2⟩] where
  reachable := by
    have hthree : (lcbSystem fifoMembership).Reachable ((twoSent fifoMembership 2).sendLcb 2 3) :=
      Reachable.sendLcb (reachable_twoSent (by decide)) (by decide) rfl rfl (by norm_num)
    exact Reachable.sendLcb hthree (by decide) rfl rfl (by norm_num)
  nodup := by decide
  subset := by
    intro msg hmem
    have hbroadcast : crossSent.broadcast =
        [⟨[0, 0], 2⟩, ⟨[0, 1], 2⟩, ⟨[0, 2], 2⟩, ⟨[0, 0], 1⟩] := rfl
    rw [hbroadcast]
    revert msg
    decide

theorem arrivesInTurn_triple {cfg : Membership} {first second last : LcbMsg}
    (hfirst : Met cfg [] first) (hsecond : Met cfg [first] second)
    (hlast : ¬ Met cfg [first, second] last) : ArrivesInTurn cfg [first, second, last] := by
  refine ⟨[first, second], [last], rfl, ?_, fun msg hmem => ?_⟩
  · have hone : InSequence (Met cfg) ([] ++ [first]) := InSequence.concat_iff.mpr ⟨.nil, hfirst⟩
    exact InSequence.concat_iff.mpr ⟨hone, hsecond⟩
  · rw [List.mem_singleton.mp hmem]
    exact hlast

/-- The first messages of both processes come in either order, and after them a message
whose predecessor is missing, which waits. -/
theorem fifoMembership_arrival :
    SameResult fifoMembership 1 [⟨[0, 0], 2⟩, ⟨[0, 0], 1⟩, ⟨[0, 2], 2⟩]
      [⟨[0, 0], 1⟩, ⟨[0, 0], 2⟩, ⟨[0, 2], 2⟩] := by
  refine (sameResult_iff fromRun_crossSent (.swap ..)).mpr ⟨?_, ?_⟩
  · exact arrivesInTurn_triple (by decide) (by decide) (by decide)
  · exact arrivesInTurn_triple (by decide) (by decide) (by decide)

theorem not_arrivesInTurn_swap : ¬ ArrivesInTurn fifoMembership [⟨[0, 1], 2⟩, ⟨[0, 0], 2⟩] := by
  rintro ⟨pre, post, hsplit, hpre, hpost⟩
  cases pre with
  | nil =>
      -- the first broadcast is not refused
      obtain rfl : _ = post := hsplit
      exact hpost ⟨[0, 0], 2⟩ (by decide) (by decide)
  | cons first rest =>
      -- the second one is not accepted
      obtain ⟨rfl, -⟩ := List.cons.inj hsplit
      exact absurd (hpre [] _ ⟨rest, rfl⟩) (by decide)

/-- The second message of process `2` arrives first and waits; when the first one
comes, both are counted, and the search ends with `ERROR_POINTER` because there is
no next node to remove. -/
theorem fifoMembership_swapped :
    ¬ SameResult fifoMembership 1 [⟨[0, 0], 2⟩, ⟨[0, 1], 2⟩] [⟨[0, 1], 2⟩, ⟨[0, 0], 2⟩] ∧
    ∃ data, deliverAll 2 [⟨[0, 1], 2⟩, ⟨[0, 0], 2⟩] (Lcb.initial fifoMembership 1) =
      .error .pointer data ∧ data.vectorClock = [0, 2] ∧ data.lcbPending = [[], [[0, 1]]] := by
  refine ⟨?_, _, rfl, by decide, by decide⟩
  rintro ⟨rounds, data, data', -, hcalls, -⟩
  have hrun := fromRun_twoSent.perm (.swap ..)
  exact not_arrivesInTurn_swap (hrun.deliverAll_ok_iff.mp ⟨rounds, data', hcalls⟩)

end CausalBroadcast
