import CausalBroadcast.Causal.Runs
import CausalBroadcast.Stack.Calls
import CausalBroadcast.Stack.Effects

/-!
# The stack refines the causal layer over a broadcast

`Causal/Threads.lean` takes broadcast as the environment: it hands any message that
some process has broadcast to any process, each at most once.  Here the layers below
are shown to be such an environment.  Every step of a process with all its layers is
matched by steps of the causal layer alone, as long as the rows of the messages lie
inside the tables: `send_urb` by the line `b i` and the broadcast, the call of
`deliver_lcb` by the hand-over of a message that is new, a section of `deliver_lcb`
by itself, and everything else by nothing.

What is proved of the causal layer alone then holds of the whole stack.
-/

namespace CausalBroadcast

/-! ## The relation -/

/-- The main thread stands at the same place of `send_lcb`; a main thread that is stuck
stands anywhere. -/
def MainRefines : NetMain → MainThread → Prop
  | .next i, main => main = .ready i ∧ i ≤ maxSizeUrb + 2
  | .copied i msg, main => main = .copied i msg
  | .beb i _ _, main => main = .ready (i + 1) ∧ i ≤ maxSizeUrb + 1
  | .stuck, _ => True

/-- The receiver thread stands inside `deliver_pl`, below `deliver_lcb`. -/
def NetReceiver.Below : NetReceiver → Prop
  | .delivering _ => True
  | .relay _ _ _ => True
  | .idle => False
  | .stuck => False

/-- A process with all its layers and a process of the causal layer alone.  The receiver
thread is not inside `deliver_lcb` while it stands below. -/
structure StackProcess.Refines (P : StackProcess) (L : LcbProcess) : Prop where
  data : L.data = P.net.data.lcb
  handed : L.handed = P.net.data.deliveredLcb.map UrbMsg.lcbMsg
  copies : L.copies = P.copies
  main : P.net.status = .running → MainRefines P.net.main L.main
  receiver : P.net.status = .running → L.receiver = P.receiver
  live : P.net.status = .running → P.receiver.Live
  apart : P.net.receiver.Below → P.receiver = .idle

/-- The stack and the causal layer alone. -/
structure StackRefines (cfg : Membership) (s : StackSystem) (t : LcbSystem) : Prop where
  process : ∀ p, cfg.IsPid p → (s p).Refines (t.process p)
  carried : ∀ p, cfg.IsPid p → Carried t.broadcast (s p).net.data
  sentUrb : ∀ p, cfg.IsPid p → fromSender p t.broadcast <+: (s p).net.data.sentUrb
  own : ∀ p, cfg.IsPid p → ∀ k msg, (s p).net.data.sentUrb[k]? = some msg →
    entry msg.vecClock p = k

/-! ## Steps that the causal layer does not see -/

/-- A step of the layers below that broadcasts nothing and passes nothing up. -/
structure KeepsUpper (broadcast : List LcbMsg) (P P' : NetProcess) : Prop where
  data : Beneath broadcast P.data [] P'.data
  main : P'.status = .running → ∀ main, MainRefines P.main main → MainRefines P'.main main
  receiver : P'.receiver.Below → P.receiver.Below

section Lower

variable {broadcast : List LcbMsg} {P : NetProcess}

/-- Nothing but the sender threads and the data below has changed. -/
theorem KeepsUpper.of_data {d : NetData} (h : Beneath broadcast P.data [] d)
    (sender : ℕ → NetSender) :
    KeepsUpper broadcast P { P with data := d, sender := sender } :=
  ⟨h, fun _ _ => id, id⟩

/-- The process stops. -/
theorem KeepsUpper.of_status {status : Status} (hstatus : status ≠ .running) :
    KeepsUpper broadcast P { P with status := status } :=
  ⟨.refl _, fun hrunning => absurd hrunning hstatus, id⟩

/-- The loop of `send_beb` enqueues a task for a message that it was given. -/
theorem sendBebBody_beneath (broadcast : List LcbMsg) {d : NetData}
    (hqueue : d.taskQ.WellFormed) {msg : UrbMsg} (hmem : msg ∈ d.sentBeb) (k : ℕ) :
    (sendBebBody msg k d).Meets (fun _ d' => Beneath broadcast d [] d') (fun _ _ => False)
      (fun _ => False) := by
  refine (sendBebBody_meets hqueue msg k).mono ?_ (fun _ _ => id) fun _ => id
  rintro _ _ (⟨-, rfl⟩ | ⟨-, queue, -, -, rfl⟩)
  · exact .refl _
  · refine ⟨rfl, rfl, (List.append_nil _).symm, fun h => ⟨h.sentBeb, fun task htask => ?_⟩⟩
    rcases List.mem_append.mp htask with htask | htask
    · exact h.enqueued task htask
    · rw [List.mem_singleton.mp htask]
      exact h.sentBeb msg hmem

theorem keepsUpper_attempt (hqueue : P.data.taskQ.WellFormed) (sendto : Bool) (j : ℕ)
    (task : QueueTask) (i : ℕ) : KeepsUpper broadcast P (P.attempt sendto j task i) := by
  have hmeets := sendPlBody_meets hqueue sendto task i
  unfold NetProcess.attempt
  cases hcase : sendPlBody sendto task i P.data with
  | ok round d =>
      rw [hcase] at hmeets
      refine KeepsUpper.of_data ?_ _
      cases round with
      | none =>
          obtain ⟨queue, -, -, rfl⟩ := hmeets
          exact .of_eq rfl rfl rfl rfl rfl
      | some i' =>
          obtain rfl := hmeets
          exact .of_eq rfl rfl rfl rfl rfl
  | error code d =>
      rw [hcase] at hmeets
      obtain ⟨-, rfl⟩ := hmeets
      exact KeepsUpper.of_data (.refl _) _
  | running d => rw [hcase] at hmeets; exact hmeets.elim
  | undefined => exact .of_status nofun

theorem keepsUpper_dequeue (hqueue : P.data.taskQ.WellFormed) (j : ℕ) :
    KeepsUpper broadcast P (P.dequeue j) := by
  refine NetProcess.settle_of_meets ((onTaskQ_dequeue_meets hqueue).mono ?_
    (fun _ _ => False.elim) (fun _ => False.elim)) (.of_status nofun)
  rintro (_ | task) d hresult
  · obtain rfl := hresult
    exact .of_data (.refl _) _
  · obtain ⟨queue, -, -, rfl⟩ := hresult
    have hdata : Beneath broadcast P.data [] { P.data with taskQ := queue } :=
      .of_eq rfl rfl rfl rfl rfl
    exact .of_data hdata (Function.update P.sender j (.testing task 0))

/-- The steps below the causal layer, but for `send_urb`, are not seen by it. -/
theorem keepsUpper_of_netStep {cfg : Membership} {p : ℕ} (hqueue : P.data.taskQ.WellFormed)
    (hP : ThreadInv cfg p P) {action : NetAction} {P' : NetProcess} (hlower : action.Lower)
    (hstep : NetStep P action P') (hnew : action ≠ .broadcast) : KeepsUpper broadcast P P' := by
  cases hstep with
  | copy hmain hi => exact hlower.elim
  | broadcast machine hmain => exact absurd rfl hnew
  | bebMain hmain hk =>
      have hplace := hP.main
      rw [hmain] at hplace
      refine NetProcess.settle_of_meets ((sendBebBody_beneath broadcast hqueue hplace.2.1 _).mono ?_
        (fun _ _ => False.elim) (fun _ => False.elim)) (.of_status nofun)
      intro _ d hd
      refine ⟨hd, fun _ main hrefines => ?_, id⟩
      rw [hmain] at hrefines
      exact hrefines
  | @next i k msg hmain hk =>
      refine ⟨.refl _, fun _ main hrefines => ?_, id⟩
      rw [hmain] at hrefines
      exact ⟨hrefines.1, Nat.succ_le_succ hrefines.2⟩
  | receive machine sendto msg => exact hlower.elim
  | deliverBeb machine hreceiver => exact hlower.elim
  | bebReceiver hreceiver hk =>
      have hplace := hP.receiver
      rw [hreceiver] at hplace
      refine NetProcess.settle_of_meets ((sendBebBody_beneath broadcast hqueue hplace.1 _).mono ?_
        (fun _ _ => False.elim) (fun _ => False.elim)) (.of_status nofun)
      intro _ d hd
      refine ⟨hd, fun _ main => id, fun _ => ?_⟩
      rw [hreceiver]
      trivial
  | finish machine hreceiver => exact hlower.elim
  | dequeue => exact keepsUpper_dequeue hqueue _
  | test =>
      unfold NetProcess.test
      split
      · exact .of_data (.refl _) _
      · exact .of_data (.refl _) _
  | attempt sendto => exact keepsUpper_attempt hqueue sendto _ _ _
  | crash => exact .of_status nofun

end Lower

/-! ## Steps that the causal layer matches -/

/-- The causal layer alone can follow `p` from `P` to `P'`. -/
def Matched (cfg : Membership) (t : LcbSystem) (p : ℕ) (P P' : StackProcess) : Prop :=
  ∃ L : LcbProcess, (lcbSystem cfg).Steps t (t.set p L) ∧ P'.Refines L ∧
    (Carried t.broadcast P.net.data → Carried t.broadcast P'.net.data) ∧
    P'.net.data.sentUrb = P.net.data.sentUrb

section Matched

variable {cfg : Membership} {t : LcbSystem} {p : ℕ} {P : StackProcess}

/-- The causal layer does nothing. -/
theorem Matched.stay {P' : StackProcess} {d : NetData} (hd : P'.net.data = d)
    (hdata : Beneath t.broadcast P.net.data [] d)
    (hrefines : d.lcb = P.net.data.lcb → d.deliveredLcb = P.net.data.deliveredLcb →
      P'.Refines (t.process p)) : Matched cfg t p P P' := by
  subst hd
  refine ⟨t.process p, ?_, hrefines hdata.lcb ?_, hdata.carried, hdata.sentUrb⟩
  · rw [LcbSystem.set_self]
  · rw [hdata.deliveredLcb, List.append_nil]

variable (hrunning : P.net.status = .running) (h : P.Refines (t.process p))
include hrunning h

/-- A step of the layers below that passes nothing up. -/
theorem matched_beneath {net : NetProcess} (hdata : Beneath t.broadcast P.net.data [] net.data)
    (hmain : net.status = .running → MainRefines net.main (t.process p).main)
    (hapart : net.receiver.Below → P.receiver = .idle) :
    Matched cfg t p P { P with net := net } := by
  refine Matched.stay rfl hdata fun hlcb hdelivered => ?_
  refine ⟨h.data.trans hlcb.symm, ?_, h.copies, hmain, fun _ => h.receiver hrunning,
    fun _ => h.live hrunning, hapart⟩
  rw [hdelivered]
  exact h.handed

theorem matched_keepsUpper {net : NetProcess} (hkeeps : KeepsUpper t.broadcast P.net net) :
    Matched cfg t p P { P with net := net } := by
  refine matched_beneath hrunning h hkeeps.data (fun hstatus => ?_) fun hbelow => ?_
  · exact hkeeps.main hstatus _ (h.main hrunning)
  · exact h.apart (hkeeps.receiver hbelow)

/-- `deliver_pl` up to `is_delivered`: whatever it answers, the message stays below. -/
theorem matched_receive (hidle : P.receiver = .idle) (machine : Machine) (sendto : Bool)
    (msg : Msg) : Matched cfg t p P (P.receive machine sendto msg) := by
  unfold StackProcess.receive NetProcess.receive
  have hcall := deliverPlStart_beneath machine t.broadcast P.net.data sendto msg
  refine NetProcess.settle_of_meets (I := fun net => Matched cfg t p P { P with net := net })
    (hcall.mono ?_ ?_ ?_) ?_
  · intro real d hd
    exact matched_beneath hrunning h hd (fun _ => h.main hrunning) fun _ => hidle
  · intro code d hd
    exact matched_beneath hrunning h hd nofun fun _ => hidle
  · intro d hd
    exact matched_beneath hrunning h hd (fun _ => h.main hrunning) fun _ => hidle
  · exact matched_keepsUpper hrunning h (.of_status nofun)

/-- A call of the layers below, made by the receiver thread. -/
theorem matched_settle {α : Type} {outcome : Outcome ErrorCode NetData α}
    {ok : α → StackProcess → StackProcess} {Q : α → NetData → Prop}
    (hcall : outcome.Meets Q (fun _ d => Beneath t.broadcast P.net.data [] d)
      fun d => Beneath t.broadcast P.net.data [] d)
    (hok : ∀ value d, outcome = .ok value d → Q value d →
      Matched cfg t p P (ok value { P with net := { P.net with data := d } })) :
    Matched cfg t p P (P.settle outcome ok) := by
  cases outcome with
  | ok value d => exact hok value d rfl hcall
  | error code d =>
      exact matched_keepsUpper hrunning h
        ⟨hcall, nofun, id⟩
  | running d =>
      exact matched_keepsUpper hrunning h ⟨hcall, fun _ _ => id, nofun⟩
  | undefined => exact matched_keepsUpper hrunning h (.of_status nofun)

/-- The receiver thread goes on after its part of `deliver_pl`; a message that it passes
up is handed over. -/
theorem matched_goOn (hp : cfg.IsPid p) (hidle : P.receiver = .idle) {msg : UrbMsg}
    {result : PlResult} {d : NetData}
    (hdata : Beneath t.broadcast P.net.data (result.passed msg) d)
    (hcarries : result.Carries t.broadcast msg)
    (hfresh : ∀ passed, d.deliveredLcb = P.net.data.deliveredLcb ++ [passed] →
      passed.lcbMsg ∉ P.net.data.deliveredLcb.map UrbMsg.lcbMsg) :
    Matched cfg t p P
      (StackProcess.goOn { P with net := { P.net with data := d } } msg result) := by
  cases result with
  | done =>
      exact matched_keepsUpper hrunning h ⟨hdata, fun _ _ => id, nofun⟩
  | relay newMsg =>
      exact matched_beneath hrunning h hdata (fun _ => h.main hrunning) fun _ => hidle
  | pass lcbMsg =>
      obtain ⟨rfl, hmem⟩ := hcarries
      have hreceiver : (t.process p).receiver = .idle := (h.receiver hrunning).trans hidle
      have hnew : msg.lcbMsg ∉ (t.process p).handed := by
        rw [h.handed]
        exact hfresh msg hdata.deliveredLcb
      have hhand := LcbStep.hand (s := t) (p := p) hreceiver hmem hnew
      refine ⟨_, .single ⟨p, _, hp, hhand⟩, ?_, hdata.carried, hdata.sentUrb⟩
      refine ⟨h.data.trans hdata.lcb.symm, ?_, h.copies, fun _ => h.main hrunning, fun _ => rfl,
        fun _ => trivial, nofun⟩
      show (t.process p).handed ++ [msg.lcbMsg] = d.deliveredLcb.map UrbMsg.lcbMsg
      rw [h.handed, hdata.deliveredLcb, List.map_append]
      rfl

/-- Round `i` of `send_lcb` starts with the clock copy. -/
theorem matched_copy (hp : cfg.IsPid p) (ht : LcbInv cfg t) {i : ℕ}
    (hmain : P.net.main = .next i) : Matched cfg t p P (P.copy i) := by
  have hL := ht.process p hp
  have hplace := h.main hrunning
  rw [hmain] at hplace
  obtain ⟨hready, hle⟩ := hplace
  have hcall := nextLcbMsg_eq hL.wellFormed hp i
  have hcall' := hcall
  rw [h.data] at hcall'
  have hlt : i < 2 ^ 31 := by
    unfold maxSizeUrb at hle
    omega
  have hdefined : (t.process p).receiver ≠ .undefined := by
    rw [h.receiver hrunning]
    exact (h.live hrunning).ne_undefined
  refine ⟨_, .single ⟨p, _, hp, .copy hdefined hready hlt hcall⟩, ?_, ?_, ?_⟩
  all_goals
    unfold StackProcess.copy NetProcess.copy onLcb
    rw [Call.on_apply, hcall']
  · refine ⟨h.data, h.handed, ?_, fun _ => ?_, fun _ => h.receiver hrunning,
      fun _ => h.live hrunning, h.apart⟩
    · show (t.process p).copies ++ _ = P.copies ++ _
      rw [h.copies, h.data]
    · show MainThread.copied i _ = MainThread.copied i _
      rw [h.data]
  · exact fun hcarried => ⟨hcarried.sentBeb, hcarried.enqueued⟩
  · rfl

/-- A section of `deliver_lcb` is matched by itself. -/
theorem matched_deliver (hp : cfg.IsPid p) (hbusy : P.receiver ≠ .idle) :
    Matched cfg t p P P.deliver := by
  have hdefined : (t.process p).receiver ≠ .undefined := by
    rw [h.receiver hrunning]
    exact (h.live hrunning).ne_undefined
  have hreceive : (lcbSystem cfg).Steps t (t.set p (t.process p).receive) :=
    .single ⟨p, _, hp, .receive hdefined⟩
  have hapart : ¬ P.net.receiver.Below := fun hbelow => hbusy (h.apart hbelow)
  unfold LcbProcess.receive receiverNext at hreceive
  rw [h.data, h.receiver hrunning] at hreceive
  unfold StackProcess.deliver onLcb
  rw [Call.on_apply]
  cases hstep : receiverStep P.receiver P.net.data.lcb with
  | ok receiver lcb =>
      rw [hstep] at hreceive
      have hmeets := receiverStep_meets (h.live hrunning) P.net.data.lcb
      rw [hstep] at hmeets
      exact ⟨_, hreceive, ⟨rfl, h.handed, h.copies, fun _ => h.main hrunning, fun _ => rfl,
        fun _ => hmeets, fun hbelow => absurd hbelow hapart⟩,
        fun hcarried => ⟨hcarried.sentBeb, hcarried.enqueued⟩, rfl⟩
  | error code lcb =>
      rw [hstep] at hreceive
      exact ⟨_, hreceive, ⟨rfl, h.handed, h.copies, nofun, nofun, nofun,
        fun hbelow => absurd hbelow hapart⟩,
        fun hcarried => ⟨hcarried.sentBeb, hcarried.enqueued⟩, rfl⟩
  | running lcb =>
      rw [hstep] at hreceive
      exact ⟨_, hreceive, ⟨rfl, h.handed, h.copies, fun _ => h.main hrunning, fun _ => rfl,
        fun _ => h.live hrunning, nofun⟩,
        fun hcarried => ⟨hcarried.sentBeb, hcarried.enqueued⟩, rfl⟩
  | undefined => exact matched_keepsUpper hrunning h (.of_status nofun)

end Matched

/-! ## What is passed up is new -/

section Fresh

variable {cfg : Membership} {W : ℕ → NetData} {p : ℕ} {l : List UrbMsg} {msg : UrbMsg}

/-- A message that is passed up under a new id is a new message, because its own entry
says which broadcast of its origin it is. -/
theorem fresh_of_safeInv
    (hown : ∀ q, cfg.IsPid q → ∀ k lcbMsg, (W q).sentUrb[k]? = some lcbMsg →
      entry lcbMsg.vecClock q = k)
    (hsafe : SafeInv cfg W p (W p)) (hdelivered : (W p).deliveredLcb = l ++ [msg]) :
    msg.lcbMsg ∉ l.map UrbMsg.lcbMsg := by
  intro hmem
  obtain ⟨other, hother, hsame⟩ := List.mem_map.mp hmem
  have hnodup := hsafe.deliveredLcbOnce
  rw [hdelivered, List.map_append, List.nodup_append] at hnodup
  have hbroadcast := (hsafe.deliveredLcb msg (by simp [hdelivered])).1
  have hbroadcast' := (hsafe.deliveredLcb other (by simp [hdelivered, hother])).1
  rw [hsame] at hbroadcast'
  obtain ⟨i, hi, hsent, hid⟩ := hbroadcast.sent
  obtain ⟨j, hj, hsent', hid'⟩ := hbroadcast'.sent
  have hposition := hown _ hbroadcast.isPid _ _ hsent
  rw [hown _ hbroadcast.isPid _ _ hsent'] at hposition
  obtain rfl : i = j := by omega
  exact hnodup.2.2 _ (List.mem_map_of_mem hother) _
    (List.mem_map_of_mem (List.mem_singleton_self _)) (hid'.trans hid.symm)

end Fresh

/-! ## One step -/

section Step

variable {cfg : Membership} {s s' : StackSystem} {t : LcbSystem} {p : ℕ}

theorem StackRefines.own_withData (h : StackRefines cfg s t) {d : NetData}
    (hsentUrb : d.sentUrb = (s p).net.data.sentUrb) :
    ∀ q, cfg.IsPid q → ∀ k lcbMsg, (withData s.world p d q).sentUrb[k]? = some lcbMsg →
      entry lcbMsg.vecClock q = k := by
  intro q hq k lcbMsg hsent
  by_cases hqp : q = p
  · subst hqp
    rw [withData_self, hsentUrb] at hsent
    exact h.own q hq k lcbMsg hsent
  · rw [withData_of_ne _ _ hqp] at hsent
    exact h.own q hq k lcbMsg hsent

/-- It is enough to look at the process that takes the step. -/
theorem StackRefines.update (h : StackRefines cfg s t) (hframe : ∀ q, q ≠ p → s' q = s q)
    {t' : LcbSystem} (hprocess : ∀ q, q ≠ p → t'.process q = t.process q)
    (hsubset : t.broadcast ⊆ t'.broadcast)
    (hothers : ∀ q, q ≠ p → fromSender q t'.broadcast = fromSender q t.broadcast)
    (hrefines : (s' p).Refines (t'.process p)) (hcarried : Carried t'.broadcast (s' p).net.data)
    (hsentUrb : fromSender p t'.broadcast <+: (s' p).net.data.sentUrb)
    (hown : ∀ k msg, (s' p).net.data.sentUrb[k]? = some msg → entry msg.vecClock p = k) :
    StackRefines cfg s' t' := by
  refine ⟨fun q hq => ?_, fun q hq => ?_, fun q hq => ?_, fun q hq => ?_⟩
  all_goals by_cases hqp : q = p
  · subst hqp
    exact hrefines
  · rw [hframe q hqp, hprocess q hqp]
    exact h.process q hq
  · subst hqp
    exact hcarried
  · rw [hframe q hqp]
    exact (h.carried q hq).mono hsubset
  · subst hqp
    exact hsentUrb
  · rw [hframe q hqp, hothers q hqp]
    exact h.sentUrb q hq
  · subst hqp
    exact hown
  · rw [hframe q hqp]
    exact h.own q hq

/-- A step that the causal layer can follow. -/
theorem StackRefines.matched (h : StackRefines cfg s t) (hp : cfg.IsPid p)
    (hframe : ∀ q, q ≠ p → s' q = s q) (hmatched : Matched cfg t p (s p) (s' p)) :
    ∃ t', (lcbSystem cfg).Steps t t' ∧ StackRefines cfg s' t' := by
  obtain ⟨L, hsteps, hrefines, hcarried, hsentUrb⟩ := hmatched
  refine ⟨t.set p L, hsteps, h.update hframe (fun q => t.set_process_of_ne L)
    (List.Subset.refl _) (fun _ _ => rfl) ?_ (hcarried (h.carried p hp)) ?_ ?_⟩
  · rw [LcbSystem.set_process_self]
    exact hrefines
  · rw [hsentUrb]
    exact h.sentUrb p hp
  · rw [hsentUrb]
    exact h.own p hp

@[simp] theorem StackProcess.goOn_data (P : StackProcess) (msg : UrbMsg) (result : PlResult) :
    (P.goOn msg result).net.data = P.net.data := by
  cases result <;> rfl

section

variable (h : StackRefines cfg s t) (hp : cfg.IsPid p) (hrunning : (s p).net.status = .running)
include h hp hrunning

/-- A call of the receiver thread that may pass the message `msg` up. -/
theorem StackRefines.matched_call {α : Type} {outcome : Outcome ErrorCode NetData α}
    {msg : UrbMsg} {result : α → PlResult} (hidle : (s p).receiver = .idle)
    (hcall : outcome.Meets
      (fun value d => Beneath t.broadcast (s p).net.data ((result value).passed msg) d ∧
        (result value).Carries t.broadcast msg)
      (fun _ d => Beneath t.broadcast (s p).net.data [] d)
      fun d => Beneath t.broadcast (s p).net.data [] d)
    {P' : StackProcess}
    (hP' : P' = (s p).settle outcome fun value P => P.goOn msg (result value))
    (hsafe : SafeInv cfg (withData s.world p P'.net.data) p P'.net.data) :
    Matched cfg t p (s p) P' := by
  subst hP'
  refine matched_settle hrunning (h.process p hp) hcall ?_
  intro value d hcase ⟨hdata, hcarries⟩
  subst hcase
  refine matched_goOn hrunning (h.process p hp) hp hidle hdata hcarries fun passed hpassed => ?_
  simp only [StackProcess.settle, StackProcess.goOn_data] at hsafe
  refine fresh_of_safeInv (h.own_withData hdata.sentUrb) (p := p) ?_ ?_
  · rw [withData_self]
    exact hsafe
  · rw [withData_self]
    exact hpassed

end

/-! ### `send_urb` -/

/-- The next message of `p` says that it is the next. -/
theorem own_concat {l : List LcbMsg} {msg : LcbMsg}
    (h : ∀ k other, l[k]? = some other → entry other.vecClock p = k)
    (hmsg : entry msg.vecClock p = l.length) :
    ∀ k other, (l ++ [msg])[k]? = some other → entry other.vecClock p = k := by
  intro k other hother
  rcases lt_trichotomy k l.length with hlt | rfl | hgt
  · rw [List.getElem?_append_left hlt] at hother
    exact h k other hother
  · rw [List.getElem?_concat_length] at hother
    rw [← Option.some.inj hother]
    exact hmsg
  · rw [List.getElem?_eq_none (by simp; omega)] at hother
    cases hother

section Send

variable {i : ℕ} {msg : LcbMsg} (hinv : SystemInv cfg s.net) (ht : LcbInv cfg t)
  (h : StackRefines cfg s t) (hp : cfg.IsPid p) (hrunning : (s p).net.status = .running)
  (hmain : (s p).net.main = .copied i msg) (hframe : ∀ q, q ≠ p → s' q = s q)
include hinv ht h hp hrunning hmain

omit ht h in
/-- Where the main thread stands before `send_urb`. -/
theorem mainAt_copied : (1 ≤ i ∧ (s p).net.data.sentUrb.length + 1 = i ∧
    seenIdOf cfg.numProc i p < 2 ^ 32) ∧ msg.originalSender = p := by
  have hplace := (hinv.threads p hp hrunning).main
  have hmain' : (s.net p).main = .copied i msg := hmain
  rw [hmain'] at hplace
  exact hplace

omit hinv in
/-- What the causal layer knows of the message that is sent. -/
theorem supported_copied : (t.process p).main = .copied i msg ∧ Supported cfg t.broadcast msg ∧
    (fromSender p t.broadcast).length + 1 = i := by
  have hplace := (h.process p hp).main hrunning
  rw [hmain] at hplace
  have hheld := (ht.process p hp).main
  rw [hplace] at hheld
  exact ⟨hplace, hheld.1, hheld.2.2.1⟩

/-- All messages that were sent before are broadcast. -/
theorem fromSender_eq_sentUrb : fromSender p t.broadcast = (s p).net.data.sentUrb := by
  have hlength := (mainAt_copied hinv hp hrunning hmain).1.2.1
  have hlength' := (supported_copied ht h hp hrunning hmain).2.2
  exact (h.sentUrb p hp).eq_of_length (by omega)

theorem own_copied : entry msg.vecClock p = (s p).net.data.sentUrb.length := by
  obtain ⟨-, hsender⟩ := mainAt_copied hinv hp hrunning hmain
  obtain ⟨-, hsupported, -⟩ := supported_copied ht h hp hrunning hmain
  have hcount := hsupported.own
  rw [hsender, fromSender_eq_sentUrb hinv ht h hp hrunning hmain] at hcount
  exact hcount

include hframe

/-- `send_urb` has not come to its line. -/
theorem StackRefines.announce (hannounced : Announced msg (s p).net.data (s' p).net.data)
    (hcopies : (s' p).copies = (s p).copies) (hreceiver : (s' p).receiver = (s p).receiver)
    (hstopped : (s' p).net.status = .running → (s' p).net.main = .stuck)
    (hnet : (s' p).net.receiver = (s p).net.receiver) : StackRefines cfg s' t := by
  have hP := h.process p hp
  refine h.update hframe (fun _ _ => rfl) (List.Subset.refl _) (fun _ _ => rfl) ?_ ?_ ?_ ?_
  · refine ⟨hP.data.trans hannounced.lcb.symm, ?_, hP.copies.trans hcopies.symm, fun hstatus => ?_,
      fun _ => (hP.receiver hrunning).trans hreceiver.symm, fun _ => ?_, ?_⟩
    · rw [hannounced.deliveredLcb]
      exact hP.handed
    · rw [hstopped hstatus]
      trivial
    · rw [hreceiver]
      exact hP.live hrunning
    · rw [hnet, hreceiver]
      exact hP.apart
  · refine ⟨?_, ?_⟩
    · rw [hannounced.sentBeb]
      exact (h.carried p hp).sentBeb
    · rw [hannounced.enqueued]
      exact (h.carried p hp).enqueued
  · rw [hannounced.sentUrb]
    exact (h.sentUrb p hp).trans (List.prefix_append ..)
  · rw [hannounced.sentUrb]
    exact own_concat (h.own p hp) (own_copied hinv ht h hp hrunning hmain)

/-- `send_urb` has come to `send_beb`: the causal layer writes the line and broadcasts. -/
theorem StackRefines.handOn {newMsg : UrbMsg}
    (hhanded : HandedOn i msg (s p).net.data newMsg (s' p).net.data)
    (hcopies : (s' p).copies = (s p).copies) (hreceiver : (s' p).receiver = (s p).receiver)
    (hmain' : (s' p).net.main = .beb i newMsg 1)
    (hnet : (s' p).net.receiver = (s p).net.receiver) :
    ∃ t', (lcbSystem cfg).Steps t t' ∧ StackRefines cfg s' t' := by
  have hP := h.process p hp
  obtain ⟨⟨hi, -, hid⟩, hsender⟩ := mainAt_copied hinv hp hrunning hmain
  obtain ⟨hcopied, -, -⟩ := supported_copied ht h hp hrunning hmain
  have hdefined : (t.process p).receiver ≠ .undefined := by
    rw [hP.receiver hrunning]
    exact (hP.live hrunning).ne_undefined
  -- the line `b i`
  have hlog := LcbStep.logBroadcast (s := t) (p := p) hdefined hcopied rfl
  set t₁ := t.set p { t.process p with
    data := { (t.process p).data with log := (t.process p).data.log ++ [.broadcast i] }
    main := .logged i msg } with ht₁
  have hself : t₁.process p = { t.process p with
    data := { (t.process p).data with log := (t.process p).data.log ++ [.broadcast i] }
    main := .logged i msg } := t.set_process_self ..
  -- the broadcast
  have hsend := @LcbStep.send t₁ p i msg (by rw [hself]; exact hdefined) (by rw [hself])
  rw [hself] at hsend
  refine ⟨_, .tail (.single ⟨p, _, hp, hlog⟩) ⟨p, _, hp, hsend⟩,
    h.update hframe (fun q hqp => ?_) (List.subset_append_left ..) (fun q hqp => ?_) ?_ ?_ ?_ ?_⟩
  · exact (t₁.set_process_of_ne _ hqp).trans (t.set_process_of_ne _ hqp)
  · show fromSender q (t.broadcast ++ [msg]) = _
    rw [fromSender_append, fromSender_singleton_of_ne (by rw [hsender]; exact hqp.symm),
      List.append_nil]
  · show (s' p).Refines ((t₁.set p _).process p)
    rw [LcbSystem.set_process_self]
    refine ⟨?_, ?_, hP.copies.trans hcopies.symm, fun _ => ?_,
      fun _ => (hP.receiver hrunning).trans hreceiver.symm, fun _ => ?_, ?_⟩
    · rw [hhanded.lcb, ← hP.data]
    · rw [hhanded.deliveredLcb]
      exact hP.handed
    · rw [hmain']
      refine ⟨rfl, ?_⟩
      -- the id of the message is at most `MAX_SIZE_URB`, and the round at most one more
      have hdata := hinv.net.data p hp
      have hle := hhanded.le
      have hnum : (s p).net.data.numProc = cfg.numProc := hdata.numProc
      have hself' : (s p).net.data.selfPid = p := hdata.selfPid
      have hexact : u32 (cfg.numProc * (i - 1) + p - 1) = cfg.numProc * (i - 1) + p - 1 :=
        u32_of_lt hid
      rw [hnum, hself', hexact] at hle
      have hround : i - 1 ≤ cfg.numProc * (i - 1) := Nat.le_mul_of_pos_left _ cfg.numProc_pos
      have := hp.1
      omega
    · rw [hreceiver]
      exact hP.live hrunning
    · rw [hnet, hreceiver]
      exact hP.apart
  · have hcarried := (h.carried p hp).mono (List.subset_append_left t.broadcast [msg])
    refine hcarried.handBeb ?_ hhanded.sentBeb hhanded.enqueued
    rw [hhanded.carries]
    exact List.mem_append_right _ (List.mem_singleton_self _)
  · show fromSender p (t.broadcast ++ [msg]) <+: _
    rw [hhanded.sentUrb, fromSender_append, ← fromSender_eq_sentUrb hinv ht h hp hrunning hmain,
      ← hsender, fromSender_singleton_self]
  · rw [hhanded.sentUrb]
    exact own_concat (h.own p hp) (own_copied hinv ht h hp hrunning hmain)

/-- The main thread calls `send_urb`. -/
theorem StackRefines.send (machine : Machine)
    (hprocess : s' p = { s p with net := (s p).net.broadcast machine i msg }) :
    ∃ t', (lcbSystem cfg).Steps t t' ∧ StackRefines cfg s' t' := by
  have hdata : DataInv cfg s.world p (s p).net.data := hinv.net.data p hp
  have hcall := sendUrb_handedOn machine hdata.urbTable_pos hdata.urbTable_lt i msg
  unfold NetProcess.broadcast at hprocess
  cases hcase : sendUrb machine i msg (s p).net.data with
  | ok newMsg d =>
      rw [hcase] at hprocess hcall
      have hhanded : HandedOn i msg (s p).net.data newMsg (s' p).net.data := by
        rw [hprocess]
        exact hcall
      refine h.handOn hinv ht hp hrunning hmain hframe hhanded ?_ ?_ ?_ ?_
      all_goals rw [hprocess]
      · rfl
      · rfl
  -- A table has refused the id: the call is noted, but the message is not handed to `send_beb`.
  | error code d =>
      rw [hcase] at hprocess hcall
      refine ⟨t, .refl, h.announce hinv ht hp hrunning hmain hframe ?_ ?_ ?_ ?_ ?_⟩
      all_goals rw [hprocess]
      · exact hcall
      · nofun
      · rfl
  | running d =>
      rw [hcase] at hprocess hcall
      refine ⟨t, .refl, h.announce hinv ht hp hrunning hmain hframe ?_ ?_ ?_ ?_ ?_⟩
      all_goals rw [hprocess]
      · exact hcall
      · exact fun _ => rfl
      · rfl
  | undefined =>
      rw [hcase] at hprocess
      refine h.matched hp hframe ?_
      rw [hprocess]
      exact matched_keepsUpper hrunning (h.process p hp) (.of_status nofun)

end Send

/-- Every step of the stack is matched by steps of the causal layer alone. -/
theorem StackRefines.step {action : StackAction} (hinv : SystemInv cfg s.net) (ht : LcbInv cfg t)
    (h : StackRefines cfg s t) (hstep : StackSystemStep cfg s p action s')
    (hsafe : SafeInv cfg s'.world p (s' p).net.data) :
    ∃ t', (lcbSystem cfg).Steps t t' ∧ StackRefines cfg s' t' := by
  have hp := hstep.isPid
  have hrunning := hstep.running
  have hdata : DataInv cfg s.world p (s p).net.data := hinv.net.data p hp
  have hthreads : ThreadInv cfg p (s p).net := hinv.threads p hp hrunning
  have hP := h.process p hp
  rw [hstep.world_eq] at hsafe
  have hkind := hstep.step
  generalize hP' : s' p = P' at hkind hsafe
  -- all steps but `send_urb` leave what was broadcast alone
  suffices hmatched : (∃ machine i msg, (s p).net.main = .copied i msg ∧
      P' = { s p with net := (s p).net.broadcast machine i msg }) ∨
      Matched cfg t p (s p) P' by
    rcases hmatched with ⟨machine, i, msg, hmain, hsend⟩ | hmatched
    · exact h.send hinv ht hp hrunning hmain hstep.frame machine (hP'.trans hsend)
    · exact h.matched hp hstep.frame (hP' ▸ hmatched)
  cases hkind with
  | @lower action net hlower hnet =>
      by_cases hsend : action = .broadcast
      · subst hsend
        cases hnet with
        | broadcast machine hmain => exact .inl ⟨machine, _, _, hmain, rfl⟩
      · exact .inr (matched_keepsUpper hrunning hP
          (keepsUpper_of_netStep hdata.queue hthreads hlower hnet hsend))
  | copy hmain hi => exact .inr (matched_copy hrunning hP hp ht hmain)
  | receive machine sendto msg hnet hidle =>
      exact .inr (matched_receive hrunning hP hidle machine sendto msg)
  | @deliverBeb msg machine hnet =>
      have hidle := hP.apart (by rw [hnet]; trivial)
      refine .inr (h.matched_call hp hrunning hidle
        (startBeb_beneath machine hdata.urbTable_pos hdata.urbTable_lt ?_) rfl hsafe)
      -- the message of the datagram was enqueued by its sender
      have harrives := hinv.arriving p hp hrunning msg hnet
      exact (h.carried msg.sender harrives.isPid).enqueued _ harrives.task
  | @finish msg newMsg k machine hnet hk =>
      have hplace := hthreads.receiver
      rw [hnet] at hplace
      have hidle := hP.apart (by rw [hnet]; trivial)
      refine .inr (h.matched_call hp hrunning hidle
        (passLcb_beneath machine hdata.urbTable_pos hdata.urbTable_lt ?_) rfl hsafe)
      rw [← hplace.2.2.1]
      exact (h.carried p hp).sentBeb newMsg hplace.1
  | deliver hbusy => exact .inr (matched_deliver hrunning hP hp hbusy)

end Step

/-! ## The run -/

section Run

variable {cfg : Membership} {numMsg : ℕ → ℕ} {s : StackSystem}

theorem stackRefines_initial (cfg : Membership) (numMsg : ℕ → ℕ) :
    StackRefines cfg (fun p => StackProcess.initial cfg (numMsg p) p) (LcbSystem.initial cfg) where
  process p _ := ⟨rfl, rfl, rfl, fun _ => ⟨rfl, by unfold maxSizeUrb; omega⟩, fun _ => rfl,
    fun _ => trivial, nofun⟩
  carried p _ := ⟨nofun, nofun⟩
  sentUrb p _ := List.nil_prefix
  own p _ k msg hmsg := nomatch hmsg

/-- A reachable state of the stack is matched by one of the causal layer alone. -/
theorem exists_stackRefines (hs : (stackSystem cfg numMsg).Reachable s)
    (hin : InTables cfg s.world) : ∃ t, (lcbSystem cfg).Reachable t ∧ StackRefines cfg s t := by
  refine hs.simulate (B := fun s => InTables cfg s.world) ?_ ?_ ?_ hin
  · rintro _ rfl
    exact ⟨LcbSystem.initial cfg, rfl, stackRefines_initial cfg numMsg⟩
  · intro s s' hs hstep hin
    exact inTables_of_stackStep hs hstep hin
  · intro s s' t hs ht h hstep hin
    have hinv' := systemInv_of_stackReachable (hs.step hstep)
    obtain ⟨p, action, hstep⟩ := hstep
    exact h.step (systemInv_of_stackReachable hs) (lcbInv_of_reachable ht) hstep
      (hinv'.net.safe hin p hstep.isPid)

end Run

end CausalBroadcast
