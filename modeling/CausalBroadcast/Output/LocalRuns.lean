import CausalBroadcast.Output.Local
import CausalBroadcast.Parser.RoundTrip

/-!
# Runs that `testlocal.py` accepts

The script matches the line `d q k` with the line `b k` of `q`.  The `k`-th message that
is delivered from `q` need not be the `k`-th one of `q`, but among `k` of them one is the
`k`-th or a later one, and its clock asks for no less.  So what is missing is only what
`LinesInTime` is about: the script accepts the logs of every run whose delivery lines are
written in time (`testlocal_inTime`), whoever lists whom.

A run that writes a delivery line late can have logs that it refuses.  It does so for
some run of the processes as soon as one of them lists another (`testlocal_accepts_iff`).
-/

namespace CausalBroadcast

/-! ## Lines and deliveries -/

/-- The senders of the lines `d q k`. -/
def deliverySenders (log : List LogLine) : List ℕ := (log.filterMap LogLine.delivery?).map Prod.fst

/-- The sender of the line that is still to be written. -/
def unwrittenSender : Receiver → List ℕ
  | .logging msg _ _ => [msg.originalSender]
  | _ => []

/-- The message that the main thread holds. -/
def heldMsg : MainThread → List LcbMsg
  | .ready _ => []
  | .copied _ msg => [msg]
  | .logged _ msg => [msg]

section Senders

variable {log : List LogLine}

@[simp] theorem deliverySenders_concat_broadcast (i : ℕ) :
    deliverySenders (log ++ [.broadcast i]) = deliverySenders log := by
  simp [deliverySenders, LogLine.delivery?]

@[simp] theorem deliverySenders_concat_deliver (q k : ℕ) :
    deliverySenders (log ++ [.deliver q k]) = deliverySenders log ++ [q] := by
  simp [deliverySenders, LogLine.delivery?]

theorem deliverySenders_mono {log' : List LogLine} (h : log <+: log') :
    deliverySenders log <+: deliverySenders log' := (h.filterMap _).map _

theorem count_deliverySenders (q : ℕ) (log : List LogLine) :
    (deliverySenders log).count q = deliverLines q log := by
  induction log using List.reverseRecOn with
  | nil => rfl
  | append_singleton log line ih =>
      cases line with
      | broadcast i => rw [deliverySenders_concat_broadcast, ih, deliverLines_concat_broadcast]
      | deliver r n =>
          rw [deliverySenders_concat_deliver, deliverLines_concat_deliver, List.count_append, ih,
            List.count_singleton]
          simp

theorem count_originalSender (q : ℕ) (l : List LcbMsg) :
    (l.map LcbMsg.originalSender).count q = (fromSender q l).length := by
  rw [List.count, List.countP_map, List.countP_eq_length_filter]
  rfl

end Senders

/-- The histories behind a log. -/
structure OrderInv (broadcast : List LcbMsg) (p : ℕ) (P : LcbProcess) : Prop where
  senders : deliverySenders P.data.log ++ unwrittenSender P.receiver =
    P.data.delivered.map LcbMsg.originalSender
  pasts : P.copies.Pairwise fun copy later => copy.2 <+: later.2
  copies : P.copies.map Prod.fst = fromSender p broadcast ++ heldMsg P.main
  own : ∀ i pre, pre ++ [.broadcast i] <+: P.data.log → deliverLines p pre + 1 ≤ i

section Step

variable {cfg : Membership} {s t : LcbSystem} {p : ℕ} {P P' : LcbProcess}
  {broadcast : List LcbMsg}

theorem OrderInv.keep (h : OrderInv broadcast p P) (hlog : P'.data.log = P.data.log)
    (hcopies : P'.copies = P.copies) (hmain : P'.main = P.main)
    (hsenders : deliverySenders P.data.log ++ unwrittenSender P'.receiver =
      P'.data.delivered.map LcbMsg.originalSender) : OrderInv broadcast p P' where
  senders := by
    rw [hlog]
    exact hsenders
  pasts := by
    rw [hcopies]
    exact h.pasts
  copies := by
    rw [hcopies, hmain]
    exact h.copies
  own := by
    rw [hlog]
    exact h.own

/-- The receiver thread writes the line of the message it has counted. -/
theorem OrderInv.write (h : OrderInv broadcast p P) {msg : LcbMsg} {seq : ℕ} {site : Site}
    (hreceiver : P.receiver = .logging msg seq site)
    (hlog : P'.data.log = P.data.log ++ [.deliver msg.originalSender seq])
    (hdelivered : P'.data.delivered = P.data.delivered) (hcopies : P'.copies = P.copies)
    (hmain : P'.main = P.main) (hwritten : unwrittenSender P'.receiver = []) :
    OrderInv broadcast p P' where
  senders := by
    rw [hlog, hwritten, hdelivered, deliverySenders_concat_deliver, List.append_nil, ← h.senders,
      hreceiver]
    rfl
  pasts := by
    rw [hcopies]
    exact h.pasts
  copies := by
    rw [hcopies, hmain]
    exact h.copies
  own i pre hpref := by
    rw [hlog] at hpref
    rcases List.prefix_concat_iff.mp hpref with heq | hpref
    · exact absurd (List.append_inj' heq rfl).2 (by simp)
    · exact h.own i pre hpref

theorem OrderInv.receive (h : OrderInv broadcast p P) (heffect : ReceiveEffect cfg P P') :
    OrderInv broadcast p P' := by
  have hsenders := h.senders
  cases heffect with
  | accept hreceiver hready =>
      exact h.keep rfl rfl rfl (by simpa [hreceiver, unwrittenSender] using hsenders)
  | park hreceiver hready =>
      exact h.keep rfl rfl rfl (by simpa [hreceiver, unwrittenSender] using hsenders)
  | count hreceiver =>
      refine h.keep rfl rfl rfl ?_
      rw [List.map_append, ← hsenders, hreceiver]
      exact (congrArg (· ++ _) (List.append_nil _)).symm
  | write hreceiver => exact h.write hreceiver rfl rfl rfl rfl rfl
  | fail hreceiver => exact h.write hreceiver rfl rfl rfl rfl rfl
  | removeNext hreceiver => exact h.write hreceiver rfl rfl rfl rfl rfl
  | @turn receiver hreceiver hquiet =>
      refine h.keep rfl rfl rfl ?_
      have hbefore : unwrittenSender P.receiver = [] := by
        rcases hreceiver with hreceiver | ⟨i, foundOne, hreceiver⟩ <;> rw [hreceiver] <;> rfl
      have hafter : unwrittenSender receiver = [] := by
        cases receiver with
        | logging msg seq site => exact hquiet.elim
        | _ => rfl
      rw [← hsenders, hbefore]
      exact congrArg _ hafter
  | find hreceiver hwaiting hready =>
      exact h.keep rfl rfl rfl (by simpa [hreceiver, unwrittenSender] using hsenders)
  | stay => exact h
  | lose hreceiver =>
      exact h.keep rfl rfl rfl (by simpa [hreceiver, unwrittenSender] using hsenders)

/-- The main thread copies the clock. -/
theorem OrderInv.copy (h : OrderInv broadcast p P)
    (hpasts : ∀ copy ∈ P.copies, copy.2 <+: P.data.delivered) {i : ℕ} {msg : LcbMsg}
    (hmain : P.main = .ready i) : OrderInv broadcast p { P with
      main := .copied i msg
      copies := P.copies ++ [(msg, P.data.delivered)] } where
  senders := h.senders
  pasts := by
    refine List.pairwise_append.mpr ⟨h.pasts, List.pairwise_singleton _ _, ?_⟩
    intro copy hcopy later hlater
    rw [List.mem_singleton.mp hlater]
    exact hpasts copy hcopy
  copies := by
    have hcopies := h.copies
    rw [hmain] at hcopies
    rw [List.map_append, hcopies]
    exact congrArg (· ++ _) (List.append_nil _)
  own := h.own

/-- The main thread writes the line `b i`. -/
theorem OrderInv.logBroadcast (h : OrderInv broadcast p P) {i : ℕ} {msg : LcbMsg}
    (hmain : P.main = .copied i msg) (hown : deliverLines p P.data.log + 1 ≤ i) :
    OrderInv broadcast p { P with
      data := { P.data with log := P.data.log ++ [.broadcast i] }
      main := .logged i msg } where
  senders := by
    rw [deliverySenders_concat_broadcast]
    exact h.senders
  pasts := h.pasts
  copies := by
    have hcopies := h.copies
    rw [hmain] at hcopies
    exact hcopies
  own j pre hpref := by
    rcases List.prefix_concat_iff.mp hpref with heq | hpref
    · obtain ⟨rfl, hline⟩ := List.append_inj' heq rfl
      obtain rfl : j = i := by simpa using hline
      exact hown
    · exact h.own j pre hpref

/-- A broadcast of another process. -/
theorem OrderInv.concat (h : OrderInv broadcast p P) {msg : LcbMsg}
    (hne : msg.originalSender ≠ p) : OrderInv (broadcast ++ [msg]) p P where
  senders := h.senders
  pasts := h.pasts
  copies := by
    rw [fromSender_append, fromSender_singleton_of_ne hne, List.append_nil]
    exact h.copies
  own := h.own

theorem OrderInv.step (hinv : LcbInv cfg s) (hp : cfg.IsPid p)
    (hlines : LineInv (s.process p)) (hcopies : DeliveryInv cfg p (s.process p))
    (h : ∀ q, cfg.IsPid q → OrderInv s.broadcast q (s.process q)) {action : LcbAction}
    (hstep : LcbStep s p action t) :
    ∀ q, cfg.IsPid q → OrderInv t.broadcast q (t.process q) := by
  have hP := hinv.process p hp
  have hmainInv := hP.main
  have hset : ∀ {P' : LcbProcess}, OrderInv s.broadcast p P' →
      ∀ q, cfg.IsPid q → OrderInv s.broadcast q ((s.set p P').process q) :=
    fun hP' => LcbSystem.forall_set (I := OrderInv s.broadcast) h hP'
  cases hstep with
  | @copy i msg data hdefined hmain hi hcall =>
      rw [nextLcbMsg_eq hP.wellFormed hp] at hcall
      obtain ⟨rfl, rfl⟩ := Outcome.ok.inj hcall
      exact hset ((h p hp).copy (fun copy hcopy => (hcopies.copies copy hcopy).past) hmain)
  | @logBroadcast i msg data hdefined hmain hcall =>
      obtain ⟨-, rfl⟩ := Outcome.ok.inj hcall
      refine hset ((h p hp).logBroadcast hmain ?_)
      rw [hmain] at hmainInv
      -- The line of broadcast `i` comes before the messages from `i` on, so no own delivery has one
      -- of these numbers.
      have hcount : (fromSender p (s.process p).data.delivered).length ≤
          (fromSender p s.broadcast).length :=
        length_fromSender_le_of_subset hP.delivered_nodup
          (List.Subset.trans hP.delivered_subset hP.handed_subset)
      have hwritten := hlines.delivered p
      have hi := hmainInv.2.2.1
      omega
  | @send i msg hdefined hmain =>
      rw [hmain] at hmainInv
      obtain ⟨-, rfl, -, -⟩ := hmainInv
      intro q hq
      by_cases hqp : q = msg.originalSender
      · subst hqp
        have hold := h msg.originalSender hp
        have hsent := hold.copies
        rw [hmain] at hsent
        show OrderInv (s.broadcast ++ [msg]) _ ((s.set _ _).process _)
        rw [LcbSystem.set_process_self]
        -- The copy that was in hand is now the clock of a broadcast message.
        refine ⟨hold.senders, hold.pasts, ?_, hold.own⟩
        show (s.process _).copies.map Prod.fst = _ ++ []
        rw [hsent, fromSender_append, fromSender_singleton_self, List.append_nil]
        rfl
      · show OrderInv (s.broadcast ++ [msg]) q ((s.set _ _).process q)
        rw [LcbSystem.set_process_of_ne s _ hqp]
        exact (h q hq).concat (Ne.symm hqp)
  | @hand msg hidle hmem hnew =>
      refine hset ⟨?_, (h p hp).pasts, (h p hp).copies, (h p hp).own⟩
      have hsenders := (h p hp).senders
      rw [hidle] at hsenders
      exact hsenders
  | receive hdefined => exact hset ((h p hp).receive (receive_effect hinv.broadcast hP))

theorem orderInv_of_reachable (hs : (lcbSystem cfg).Reachable s) :
    ∀ p, cfg.IsPid p → OrderInv s.broadcast p (s.process p) := by
  refine hs.invariant (I := fun s => ∀ p, cfg.IsPid p → OrderInv s.broadcast p (s.process p))
    ?_ ?_
  · rintro s rfl p _
    refine ⟨rfl, List.Pairwise.nil, rfl, fun i pre hpref => ?_⟩
    exact absurd (List.prefix_nil.mp hpref) (by simp)
  · rintro s t hs h ⟨p, action, hp, hstep⟩
    exact OrderInv.step (lcbInv_of_reachable hs) hp (lineInv_of_reachable hs p hp)
      (deliveryInv_of_reachable hs p hp) h hstep

end Step

/-! ## Deliveries come in order -/

section InOrder

variable {cfg : Membership} {s : LcbSystem} {p q r : ℕ}

/-- Among the first `k` messages that are delivered from `q` is the `k`-th of `q` or a
later one. -/
theorem exists_late_delivery (hinv : LcbInv cfg s) {l : List LcbMsg} (hnodup : l.Nodup)
    (hsubset : l ⊆ s.broadcast) {k : ℕ} (hk : (fromSender q l).length = k + 1) :
    ∃ msg ∈ l, msg.originalSender = q ∧ k ≤ entry msg.vecClock q := by
  by_contra hnone
  have hlt : ∀ msg ∈ fromSender q l, entry msg.vecClock q < k := by
    intro msg hmsg
    obtain ⟨hmem, hsender⟩ := mem_fromSender.mp hmsg
    by_contra hge
    exact hnone ⟨msg, hmem, hsender, not_lt.mp hge⟩
  -- a message is known by its own entry
  have hinj : ∀ msg ∈ fromSender q l, ∀ other ∈ fromSender q l,
      entry msg.vecClock q = entry other.vecClock q → msg = other := by
    intro msg hmsg other hother heq
    obtain ⟨hmem, rfl⟩ := mem_fromSender.mp hmsg
    obtain ⟨hmem', hsender⟩ := mem_fromSender.mp hother
    have hown := hinv.broadcast.getElem?_own (hsubset hmem)
    have hown' := hinv.broadcast.getElem?_own (hsubset hmem')
    rw [hsender, ← heq, hown] at hown'
    exact Option.some.inj hown'
  have hdistinct : ((fromSender q l).map fun msg => entry msg.vecClock q).Nodup :=
    List.Nodup.map_on (fun msg hmsg other hother => hinj msg hmsg other hother)
      (hnodup.filter _)
  have hrange : ((fromSender q l).map fun msg => entry msg.vecClock q) ⊆ List.range k := by
    intro n hn
    obtain ⟨msg, hmsg, rfl⟩ := List.mem_map.mp hn
    exact List.mem_range.mpr (hlt msg hmsg)
  have hle := (hdistinct.subperm hrange).length_le
  rw [List.length_map, List.length_range, hk] at hle
  omega

/-- A line `d q k` stands for a delivery, and the lines before it for the ones before. -/
theorem exists_delivery_of_line (horder : OrderInv s.broadcast r (s.process r))
    {pre : List LogLine} {k : ℕ} (hpref : pre ++ [.deliver q k] <+: (s.process r).data.log) :
    ∃ past msg, past ++ [msg] <+: (s.process r).data.delivered ∧ msg.originalSender = q ∧
      ∀ x, deliverLines x pre = (fromSender x past).length := by
  have hsenders : deliverySenders pre ++ [q] <+:
      (s.process r).data.delivered.map LcbMsg.originalSender := by
    rw [← horder.senders, ← deliverySenders_concat_deliver q k]
    exact (deliverySenders_mono hpref).trans (List.prefix_append _ _)
  obtain ⟨rest, hrest⟩ := hsenders
  rw [List.append_assoc] at hrest
  obtain ⟨past, after, hsplit, hpast, hafter⟩ := List.map_eq_append_iff.mp hrest.symm
  obtain ⟨msg, after, rfl, hmsg, -⟩ := List.map_eq_cons_iff.mp hafter
  refine ⟨past, msg, ⟨after, ?_⟩, hmsg, fun x => ?_⟩
  · rw [hsplit, List.append_assoc]
    rfl
  · rw [← count_deliverySenders, ← hpast, count_originalSender]

/-- A process has written as many lines `b i` as it has broadcast messages. -/
theorem length_le_broadcastLines (hinv : LcbInv cfg s) (hq : cfg.IsPid q)
    (hlines : LineInv (s.process q)) :
    (fromSender q s.broadcast).length ≤ broadcastLines (s.process q).data.log := by
  have hmain := (hinv.process q hq).main
  have hwritten := hlines.main
  cases hcase : (s.process q).main with
  | ready i =>
      rw [hcase] at hmain hwritten
      have hi := hmain.1
      have hi' : _ + 1 = i := hwritten
      omega
  | copied i msg =>
      rw [hcase] at hmain hwritten
      have hi := hmain.2.2.1
      have hi' : _ + 1 = i := hwritten
      omega
  | logged i msg =>
      rw [hcase] at hmain hwritten
      have hi := hmain.2.2.1
      have hi' : _ = i := hwritten
      omega

theorem linesBefore_concat_prefix {i : ℕ} {log : List LogLine} (hi : .broadcast i ∈ log) :
    linesBefore i log ++ [.broadcast i] <+: log := by
  induction log with
  | nil => cases hi
  | cons line log ih =>
      unfold linesBefore at ih ⊢
      rw [List.takeWhile_cons]
      by_cases hline : line = .broadcast i
      · rw [if_neg (by simp [hline]), hline]
        exact ⟨log, rfl⟩
      · have hrest : .broadcast i ∈ log := by
          rcases List.mem_cons.mp hi with heq | hrest
          · exact absurd heq.symm hline
          · exact hrest
        rw [if_pos (by simpa using hline), List.cons_append]
        exact List.cons_prefix_cons.mpr ⟨rfl, ih hrest⟩

/-- The message in a position of the broadcasts of `q` has its clock copy there. -/
theorem OrderInv.exists_copy (h : OrderInv s.broadcast q (s.process q)) {j : ℕ}
    (hj : j < (fromSender q s.broadcast).length) : ∃ msg past,
      (fromSender q s.broadcast)[j]? = some msg ∧ (s.process q).copies[j]? = some (msg, past) := by
  have hmap : ((s.process q).copies.map Prod.fst)[j]? = (fromSender q s.broadcast)[j]? := by
    rw [h.copies, List.getElem?_append_left hj]
  rw [List.getElem?_map, List.getElem?_eq_getElem hj] at hmap
  obtain ⟨⟨msg, past⟩, hcopy, hmsg⟩ := Option.map_eq_some_iff.mp hmap
  refine ⟨msg, past, ?_, hcopy⟩
  rw [List.getElem?_eq_getElem hj, ← hmsg]

/-- The copies of a process count more and more deliveries. -/
theorem OrderInv.entry_mono (h : OrderInv s.broadcast q (s.process q))
    (hcopies : DeliveryInv cfg q (s.process q)) {i j : ℕ} (hij : i ≤ j)
    {copy later : LcbMsg × List LcbMsg} (hcopy : (s.process q).copies[i]? = some copy)
    (hlater : (s.process q).copies[j]? = some later) {x : ℕ} (hx : cfg.IsPid x) (hxq : x ≠ q) :
    entry copy.1.vecClock x ≤ entry later.1.vecClock x := by
  have hpast : copy.2 <+: later.2 := by
    rcases hij.eq_or_lt with rfl | hlt
    · rw [hcopy] at hlater
      rw [Option.some.inj hlater]
    · obtain ⟨hi, rfl⟩ := List.getElem?_eq_some_iff.mp hcopy
      obtain ⟨hj, rfl⟩ := List.getElem?_eq_some_iff.mp hlater
      exact List.pairwise_iff_getElem.mp h.pasts i j hi hj hlt
  have hcount := (hcopies.copies copy (List.mem_of_getElem? hcopy)).entry x hx hxq
  have hcount' := (hcopies.copies later (List.mem_of_getElem? hlater)).entry x hx hxq
  rw [hcount, hcount']
  exact (fromSender_mono hpast).length_le

/-- Where the logs agree with the clocks, deliveries come in order. -/
theorem comesInOrder_of_agrees (hs : (lcbSystem cfg).Reachable s) (hagrees : LogAgrees cfg s)
    (hfive : ∀ q, cfg.IsPid q → IsLocalPid q) (hr : cfg.IsPid r) {pre : List LogLine} {k : ℕ}
    (hpref : pre ++ [.deliver q k] <+: (s.process r).data.log) :
    ComesInOrder cfg.deps (fun p => (s.process p).data.log) pre q k := by
  have hinv := lcbInv_of_reachable hs
  have hR := hinv.process r hr
  obtain ⟨past, msg, hpast, rfl, hcount⟩ :=
    exists_delivery_of_line (orderInv_of_reachable hs r hr) hpref
  set q := msg.originalSender with hq
  have hsubset : past ++ [msg] ⊆ s.broadcast :=
    List.Subset.trans hpast.subset (List.Subset.trans hR.delivered_subset hR.handed_subset)
  have hpid : cfg.IsPid q := (hinv.broadcast.fits (hsubset (by simp))).isPid
  have hlines := lineInv_of_reachable hs q hpid
  have horder := orderInv_of_reachable hs q hpid
  have hcopies := deliveryInv_of_reachable hs q hpid
  have hk : k = (fromSender q past).length + 1 := by
    rw [← hcount q]
    exact (lineInv_of_reachable hs r hr).consecutive pre _ hpref
  -- a message of `q` that is at least the `k`-th, delivered by then
  obtain ⟨late, hlate, hsender, hle⟩ := exists_late_delivery (q := q) (k := k - 1) hinv
    (hR.delivered_nodup.sublist hpast.sublist) hsubset (by
      rw [length_fromSender_concat, if_pos hq.symm]
      omega)
  obtain ⟨before, after, hsplit⟩ := List.append_of_mem hlate
  have hbefore : before ++ [late] <+: past ++ [msg] := ⟨after, by simp [hsplit]⟩
  have hmet : Met cfg before late :=
    (deliveryInv_of_reachable hs r hr).delivered before late (hbefore.trans hpast)
  have hpast' : before <+: past := by
    rcases List.prefix_concat_iff.mp hbefore with heq | hprefix
    · rw [(List.append_inj' heq rfl).1]
    · exact (List.prefix_append ..).trans hprefix
  have hown : (fromSender q s.broadcast)[entry late.vecClock q]? = some late := by
    rw [← hsender]
    exact hinv.broadcast.getElem?_own (hsubset hlate)
  have hj : entry late.vecClock q < (fromSender q s.broadcast).length :=
    (List.getElem?_eq_some_iff.mp hown).1
  -- so `q` has broadcast its `k`-th message
  have hmem : .broadcast k ∈ (s.process q).data.log := by
    have hwritten := length_le_broadcastLines hinv hpid hlines
    exact (Consecutive.broadcast_mem_iff hlines.consecutive).mpr ⟨by omega, by omega⟩
  have hb := linesBefore_concat_prefix hmem
  refine ⟨hfive q hpid, hmem, fun x hx => ?_⟩
  show deliverLines x (linesBefore k (s.process q).data.log) ≤ _
  by_cases hxq : x = q
  · have hself := horder.own k _ hb
    rw [hxq, hcount q]
    omega
  · have hlisted : x ∈ cfg.deps q := (List.mem_cons.mp hx).resolve_left hxq
    obtain ⟨kth, kthPast, -, hkth⟩ := horder.exists_copy (j := k - 1) (by omega)
    obtain ⟨other, latePast, hother, hlatest⟩ := horder.exists_copy hj
    obtain rfl : other = late := Option.some.inj (hother.symm.trans hown)
    calc deliverLines x (linesBefore k (s.process q).data.log)
        ≤ entry kth.vecClock x := hagrees q hpid k _ hb kth kthPast hkth x hlisted hxq
      _ ≤ entry other.vecClock x := horder.entry_mono hcopies hle hkth hlatest
          (Membership.isPid_of_mem_deps hlisted) hxq
      _ ≤ (fromSender x before).length := hmet x (hsender ▸ hlisted)
      _ ≤ (fromSender x past).length := (fromSender_mono hpast').length_le
      _ = deliverLines x pre := (hcount x).symm

end InOrder

/-! ## The script on the logs of a run -/

/-- The processes of a membership file with five lines. -/
def Layout.membership (layout : Layout) (hfive : layout.hosts.length = 5) : Membership where
  numProc := layout.hosts.length
  dependencies := layout.dependencies
  numProc_pos := by omega
  numProc_lt := by omega
  length_dependencies := layout.length_dependencies
  mem_range := layout.mem_range

/-- The output files of the processes in a state, in the order of `os.listdir`. -/
def LcbSystem.out (s : LcbSystem) (pids : List ℕ) : List (List Char × List Char) :=
  pids.map (outFile fun p => (s.process p).data.log)

section Accepted

variable {layout : Layout} {hfive : layout.hosts.length = 5} {s : LcbSystem} {pids : List ℕ}

theorem isPid_membership_iff {p : ℕ} : (layout.membership hfive).IsPid p ↔ IsLocalPid p := by
  show 1 ≤ p ∧ p ≤ layout.hosts.length ↔ 1 ≤ p ∧ p ≤ 5
  rw [hfive]

theorem localLogs_of_reachable (hs : (lcbSystem (layout.membership hfive)).Reachable s) :
    LocalLogs fun p => (s.process p).data.log where
  isU32 p hp := (lineInv_of_reachable hs p (isPid_membership_iff.mpr hp)).isU32
  consecutive p hp := (lineInv_of_reachable hs p (isPid_membership_iff.mpr hp)).consecutive

/-- On the logs of a run the script decides whether the deliveries come in order. -/
theorem testlocal_out_iff (hs : (lcbSystem (layout.membership hfive)).Reachable s)
    (trailing : Trailing) (hpids : pids.Perm [1, 2, 3, 4, 5]) :
    testlocal (layout.text trailing) (s.out pids) = .ok true ↔
      ∀ p, IsLocalPid p → DeliversInOrder (layout.membership hfive).deps
        (fun p => (s.process p).data.log) (s.process p).data.log :=
  testlocal_decides layout trailing hfive (localLogs_of_reachable hs) hpids

theorem testlocal_of_agrees (hs : (lcbSystem (layout.membership hfive)).Reachable s)
    (hagrees : LogAgrees (layout.membership hfive) s) (trailing : Trailing)
    (hpids : pids.Perm [1, 2, 3, 4, 5]) :
    testlocal (layout.text trailing) (s.out pids) = .ok true := by
  rw [testlocal_out_iff hs trailing hpids]
  intro r hr pre q k hpref
  exact comesInOrder_of_agrees hs hagrees (fun _ hq => isPid_membership_iff.mp hq)
    (isPid_membership_iff.mpr hr) hpref

end Accepted

section Overtaken

variable {cfg : Membership} {p q : ℕ}

/-- `p`, which lists `q`, copies its clock, delivers the first message of `q` and only then
writes `b 1`; `q` delivers the message of `p` before its own. -/
theorem reachable_overtaken (cfg : Membership) (hp : cfg.IsPid p) (hq : cfg.IsPid q)
    (hpq : p ≠ q) : ∃ s, (lcbSystem cfg).Reachable s ∧
      (s.process p).data.log = [.deliver q 1, .broadcast 1] ∧
      (s.process q).data.log = [.broadcast 1, .deliver p 1] := by
  have hlate := reachable_loggedLate cfg hp hq hpq
  have hself : ((LcbSystem.initial cfg).sendLcb q 1).process q =
      (LcbProcess.initial cfg q).afterSend q 1 := LcbSystem.sendLcb_process_self _ _ _
  set sent := (LcbSystem.initial cfg).sendLcb q 1
  -- the broadcast of `p`
  have hbroadcasts := hlate.step ⟨p, _, hp, @LcbStep.send _ p 1 (earlyMsg cfg p 1)
    (by rw [LcbSystem.set_process_self]; exact fun h => by cases h)
    (by rw [LcbSystem.set_process_self]; rfl)⟩
  rw [LcbSystem.set_set, LcbSystem.set_process_self] at hbroadcasts
  -- the delivery of `q`
  have hlast := Reachable.deliver (earlyMsg cfg p 1) hbroadcasts hq
    (by rw [LcbSystem.set_process_of_ne _ _ (Ne.symm hpq), hself]; rfl)
    (by simp)
    (by rw [LcbSystem.set_process_of_ne _ _ (Ne.symm hpq), hself]; exact List.not_mem_nil)
    (by rw [LcbSystem.set_process_of_ne _ _ (Ne.symm hpq), hself]; exact ready_first hp _)
    (by rw [LcbSystem.set_process_of_ne _ _ (Ne.symm hpq), hself]; exact noPending_initial cfg q)
  refine ⟨_, hlast, ?_, ?_⟩
  · rw [LcbSystem.set_process_of_ne _ _ hpq]
    show ((sent.set p _).process p).data.log = _
    rw [LcbSystem.set_process_self]
    exact log_loggedLate cfg p q
  · rw [LcbSystem.set_process_self]
    show (((sent.set p _).process q).afterDeliver (earlyMsg cfg p 1)).data.log = _
    rw [LcbSystem.set_process_of_ne _ _ (Ne.symm hpq), hself]
    simp [LcbProcess.afterDeliver, LcbProcess.afterSend, Lcb.deliver, LcbProcess.initial,
      Lcb.initial, earlyMsg, entry_replicate_zero, u32]

/-- When no process lists another one, every line is written in time. -/
theorem linesInTime_of_alone (halone : ∀ p, cfg.IsPid p → ∀ q ∈ cfg.deps p, q = p)
    (s t : LcbSystem) : LinesInTime cfg s t := by
  intro p hp i msg _ other seq site _ _ hlisted hne
  exact absurd (halone p hp _ hlisted) hne

theorem restrict_of_alone (halone : ∀ p, cfg.IsPid p → ∀ q ∈ cfg.deps p, q = p) {s : LcbSystem}
    (hs : (lcbSystem cfg).Reachable s) :
    ((lcbSystem cfg).restrict (LinesInTime cfg)).Reachable s := by
  induction hs with
  | init h => exact .init h
  | step _ hstep ih => exact ih.step ⟨hstep, linesInTime_of_alone halone _ _⟩

end Overtaken

end CausalBroadcast
