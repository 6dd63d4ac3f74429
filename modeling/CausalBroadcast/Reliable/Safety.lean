import CausalBroadcast.Reliable.Calls
import CausalBroadcast.Reliable.Script

/-!
# Safety in every run

The invariant of the data holds in every reachable state (`systemInv_of_reachable`),
together with what the threads of a running process hold in their hands
(`ThreadInv`).  The safety of uniform reliable broadcast is read off it.
-/

namespace CausalBroadcast

/-! ## What the threads hold -/

section Threads

variable (cfg : Membership) (p : ℕ) (d : NetData)

/-- The place of the main thread fits the data. -/
def MainAt : NetMain → Prop
  | .next i => 1 ≤ i ∧ d.sentUrb.length + 1 = i ∧ seenIdOf cfg.numProc i p < 2 ^ 32
  | .copied i msg => (1 ≤ i ∧ d.sentUrb.length + 1 = i ∧ seenIdOf cfg.numProc i p < 2 ^ 32) ∧
      msg.originalSender = p
  | .beb i msg k => (d.sentUrb.length = i ∧ seenIdOf cfg.numProc (i + 1) p < 2 ^ 32) ∧
      msg ∈ d.sentBeb ∧ 1 ≤ k
  | .stuck => True

/-- The place of the receiver thread fits the data. -/
def ReceiverAt : NetReceiver → Prop
  | .relay msg newMsg k => newMsg ∈ d.sentBeb ∧ newMsg.seenId = msg.seenId ∧
      newMsg.lcbMsg = msg.lcbMsg ∧ 1 ≤ k
  | _ => True

/-- The places of all threads of a process fit its data. -/
structure ThreadInv (P : NetProcess) : Prop where
  main : MainAt cfg p P.data P.main
  receiver : ReceiverAt P.data P.receiver
  sender : ∀ j, ∀ task ∈ (P.sender j).task, task ∈ P.data.enqueued

end Threads

section Mono

variable {cfg : Membership} {W : ℕ → NetData} {p : ℕ} {d d' : NetData}

theorem MainAt.mono (hsentUrb : d'.sentUrb = d.sentUrb) (hsentBeb : d.sentBeb ⊆ d'.sentBeb) :
    ∀ {main : NetMain}, MainAt cfg p d main → MainAt cfg p d' main
  | .next _, h => by unfold MainAt at *; rwa [hsentUrb]
  | .copied _ _, h => by unfold MainAt at *; rwa [hsentUrb]
  | .beb _ _ _, h => by
      unfold MainAt at *
      rw [hsentUrb]
      exact ⟨h.1, hsentBeb h.2.1, h.2.2⟩
  | .stuck, _ => trivial

theorem ReceiverAt.mono (hsentBeb : d.sentBeb ⊆ d'.sentBeb) :
    ∀ {receiver : NetReceiver}, ReceiverAt d receiver → ReceiverAt d' receiver
  | .idle, _ => trivial
  | .delivering _, _ => trivial
  | .relay _ _ _, h => ⟨hsentBeb h.1, h.2⟩
  | .stuck, _ => trivial

/-- A thread other than the main thread changes the data. -/
theorem ThreadInv.aside {P : NetProcess} (h : ThreadInv cfg p P)
    (hsound : SoundAside cfg W p P.data d') : ThreadInv cfg p { P with data := d' } :=
  ⟨h.main.mono hsound.sentUrb hsound.sentBeb, h.receiver.mono hsound.sentBeb,
    fun j task htask => hsound.grows.enqueued (h.sender j task htask)⟩

theorem ThreadInv.setSender {P : NetProcess} (h : ThreadInv cfg p P) (j : ℕ) {sender : NetSender}
    (hsender : ∀ task ∈ sender.task, task ∈ P.data.enqueued) :
    ThreadInv cfg p (P.setSender j sender) := by
  refine ⟨h.main, h.receiver, fun k task htask => ?_⟩
  change task ∈ (Function.update P.sender j sender k).task at htask
  by_cases hk : k = j
  · subst hk
    rw [Function.update_self] at htask
    exact hsender task htask
  · rw [Function.update_of_ne hk] at htask
    exact h.sender k task htask

end Mono

/-! ## One step -/

/-- What holds of the outcome of a call holds of the process that settles it. -/
theorem NetProcess.settle_of_meets {α : Type} {P : NetProcess} {I : NetProcess → Prop}
    {outcome : Outcome ErrorCode NetData α} {ok : α → NetProcess → NetProcess}
    {stuck : NetProcess → NetProcess}
    (h : outcome.Meets (fun value d => I (ok value { P with data := d }))
      (fun code d => I { P with data := d, status := .exited code })
      (fun d => I (stuck { P with data := d })))
    (hundefined : I { P with status := .undefined }) : I (P.settle outcome ok stuck) := by
  cases outcome with
  | ok value d => exact h
  | error code d => exact h
  | running d => exact h
  | undefined => exact hundefined

/-- What a step of `p` leaves: sound data, and threads that fit it. -/
structure SoundStep (cfg : Membership) (W : ℕ → NetData) (p : ℕ) (P P' : NetProcess) : Prop where
  sound : Sound cfg W p P.data P'.data
  threads : P'.status = .running → ThreadInv cfg p P'

section Step

variable {cfg : Membership} {W : ℕ → NetData} {p : ℕ} {P : NetProcess} {d' : NetData}

/-- A process that has stopped. -/
theorem Sound.stopped (hsound : Sound cfg W p P.data d') {status : Status}
    (hstatus : status ≠ .running) : SoundStep cfg W p P { P with data := d', status := status } :=
  ⟨hsound, fun hrunning => absurd hrunning hstatus⟩

variable (h : NetInv cfg (withData W p P.data)) (hp : cfg.IsPid p) (hP : ThreadInv cfg p P)
include h hp hP

omit hP hp in
/-- A call that ends in an undefined outcome. -/
theorem soundStep_undefined : SoundStep cfg W p P { P with status := .undefined } :=
  ⟨h.sound.toSound, fun hrunning => nomatch hrunning⟩

theorem soundStep_copy {i : ℕ} (hmain : P.main = .next i) : SoundStep cfg W p P (P.copy i) := by
  have hplace := hP.main
  rw [hmain] at hplace
  refine NetProcess.settle_of_meets ?_ (soundStep_undefined h)
  unfold onLcb
  rw [Call.on_apply]
  rcases nextLcbMsg_cases i P.data.lcb with hcopy | ⟨msg, hsender, hcopy⟩ <;> rw [hcopy]
  · trivial
  · exact ⟨h.sound.toSound, fun _ => ⟨⟨hplace, hsender.trans (h.dataSelf hp).selfPid⟩,
      hP.receiver, hP.sender⟩⟩

theorem soundStep_broadcast {i : ℕ} {msg : LcbMsg} (machine : Machine)
    (hmain : P.main = .copied i msg) : SoundStep cfg W p P (P.broadcast machine i msg) := by
  have hplace := hP.main
  rw [hmain] at hplace
  obtain ⟨⟨hi, hlength, hid⟩, hsender⟩ := hplace
  refine NetProcess.settle_of_meets ((h.sendUrb hp machine hi hlength hsender hid).mono ?_ ?_ ?_)
    (soundStep_undefined h)
  · rintro newMsg d' ⟨hsound, hmem, hlength', -, hid'⟩
    exact ⟨hsound, fun _ => ⟨⟨⟨hlength', hid'⟩, hmem, le_rfl⟩,
      hP.receiver.mono hsound.sentBeb,
      fun j task htask => hsound.grows.enqueued (hP.sender j task htask)⟩⟩
  · exact fun code d' hsound => hsound.stopped nofun
  · exact fun d' hsound => ⟨hsound, fun _ => ⟨trivial, hP.receiver.mono hsound.sentBeb,
      fun j task htask => hsound.grows.enqueued (hP.sender j task htask)⟩⟩

theorem soundStep_bebMain {i k : ℕ} {msg : UrbMsg} (hmain : P.main = .beb i msg k)
    (hk : k ≤ P.data.numProc) : SoundStep cfg W p P (P.bebMain i msg k) := by
  have hplace := hP.main
  rw [hmain] at hplace
  obtain ⟨hround, hmem, hpos⟩ := hplace
  refine NetProcess.settle_of_meets ((h.sendBebBody hp hmem hpos hk).mono ?_ (fun _ _ => False.elim)
    (fun _ => False.elim)) (soundStep_undefined h)
  intro _ d' hsound
  have haside := hP.aside hsound
  have hplace' : MainAt cfg p d' (.beb i msg k) := hmain ▸ haside.main
  exact ⟨hsound.toSound, fun _ => ⟨⟨hplace'.1, hplace'.2.1, Nat.le_add_left 1 k⟩, haside.receiver,
    haside.sender⟩⟩

omit hp in
theorem soundStep_next {i k : ℕ} {msg : UrbMsg} (hmain : P.main = .beb i msg k) :
    SoundStep cfg W p P (P.setMain (.next (i + 1))) := by
  have hplace := hP.main
  rw [hmain] at hplace
  exact ⟨h.sound.toSound, fun _ => ⟨⟨Nat.le_add_left 1 i, congrArg (· + 1) hplace.1.1,
    hplace.1.2⟩, hP.receiver, hP.sender⟩⟩

theorem soundStep_receive {r : ℕ} {msg : Msg} (hr : cfg.IsPid r)
    (hsent : (p, msg) ∈ (withData W p P.data r).sent) (machine : Machine) (sendto : Bool) :
    SoundStep cfg W p P (P.receive machine sendto msg) := by
  refine NetProcess.settle_of_meets ((h.deliverPlStart hp hr hsent machine sendto).mono ?_ ?_ ?_)
    (soundStep_undefined h)
  · intro real d' hsound
    have haside := hP.aside hsound
    refine ⟨hsound.toSound, fun _ => ⟨haside.main, ?_, haside.sender⟩⟩
    cases real with
    | false => trivial
    | true => trivial
  · exact fun code d' hsound => hsound.toSound.stopped nofun
  · intro d' hsound
    have haside := hP.aside hsound
    exact ⟨hsound.toSound, fun _ => ⟨haside.main, trivial, haside.sender⟩⟩

theorem soundStep_deliverBeb {msg : Msg} (hm : Arrives cfg (withData W p P.data) p msg)
    (machine : Machine) : SoundStep cfg W p P (P.deliverBeb machine msg) := by
  refine NetProcess.settle_of_meets ((h.deliverPlEnd hp hm machine).mono ?_ ?_ ?_)
    (soundStep_undefined h)
  · rintro newMsg d' ⟨⟨hsound, -⟩, hnew⟩
    have haside := hP.aside hsound
    refine ⟨hsound.toSound, fun _ => ⟨haside.main, ?_, haside.sender⟩⟩
    cases newMsg with
    | none => trivial
    | some newMsg =>
        obtain ⟨hmem, hid, hmsg⟩ := hnew newMsg rfl
        exact ⟨hmem, hid, hmsg, le_rfl⟩
  · exact fun code d' hsound => hsound.toSound.stopped nofun
  · rintro d' ⟨hsound, -⟩
    have haside := hP.aside hsound
    exact ⟨hsound.toSound, fun _ => ⟨haside.main, trivial, haside.sender⟩⟩

theorem soundStep_bebReceiver {msg newMsg : UrbMsg} {k : ℕ}
    (hreceiver : P.receiver = .relay msg newMsg k) (hk : k ≤ P.data.numProc) :
    SoundStep cfg W p P (P.bebReceiver msg newMsg k) := by
  have hplace := hP.receiver
  rw [hreceiver] at hplace
  obtain ⟨hmem, hid, hmsg, hpos⟩ := hplace
  refine NetProcess.settle_of_meets ((h.sendBebBody hp hmem hpos hk).mono ?_ (fun _ _ => False.elim)
    (fun _ => False.elim)) (soundStep_undefined h)
  intro _ d' hsound
  have haside := hP.aside hsound
  exact ⟨hsound.toSound, fun _ => ⟨haside.main,
    ⟨hsound.sentBeb hmem, hid, hmsg, Nat.le_add_left 1 k⟩, haside.sender⟩⟩

/-- The message whose copies the receiver thread enqueues has been seen and broadcast. -/
theorem seen_of_relay {msg newMsg : UrbMsg} {k : ℕ} (hreceiver : P.receiver = .relay msg newMsg k) :
    Seen P.data msg.seenId ∧ Broadcast cfg (withData W p P.data) msg.seenId msg.lcbMsg := by
  have hplace := hP.receiver
  rw [hreceiver] at hplace
  obtain ⟨hmem, hid, hmsg, -⟩ := hplace
  have hgenuine := (h.dataSelf hp).sentBeb newMsg hmem
  have hseen := hgenuine.seen
  have hbroadcast := hgenuine.broadcast
  rw [withData_self, hid] at hseen
  rw [hid, hmsg] at hbroadcast
  exact ⟨hseen, hbroadcast⟩

theorem soundStep_finish {msg newMsg : UrbMsg} {k : ℕ}
    (hreceiver : P.receiver = .relay msg newMsg k) (machine : Machine) :
    SoundStep cfg W p P (P.finish machine msg) := by
  obtain ⟨hseen, hbroadcast⟩ := seen_of_relay h hp hP hreceiver
  refine NetProcess.settle_of_meets ((h.deliverUrbEnd hp hseen hbroadcast machine).mono ?_ ?_ ?_)
    (soundStep_undefined h)
  · intro _ d' hsound
    have haside := hP.aside hsound
    exact ⟨hsound.toSound, fun _ => ⟨haside.main, trivial, haside.sender⟩⟩
  · exact fun code d' hsound => hsound.toSound.stopped nofun
  · intro d' hsound
    have haside := hP.aside hsound
    exact ⟨hsound.toSound, fun _ => ⟨haside.main, trivial, haside.sender⟩⟩

theorem soundStep_dequeue (j : ℕ) : SoundStep cfg W p P (P.dequeue j) := by
  refine NetProcess.settle_of_meets ((h.dequeue hp).mono ?_ (fun _ _ => False.elim)
    (fun _ => False.elim)) (soundStep_undefined h)
  rintro (_ | task) d' ⟨hsound, htask⟩
  · exact ⟨hsound.toSound, fun _ => hP.aside hsound⟩
  · exact ⟨hsound.toSound, fun _ => (hP.aside hsound).setSender j htask⟩

omit hp in
theorem soundStep_test {j i : ℕ} {task : QueueTask} (hsender : P.sender j = .testing task i) :
    SoundStep cfg W p P (P.test j task i) := by
  unfold NetProcess.test
  split
  · refine ⟨h.sound.toSound, fun _ => hP.setSender j fun task' htask' => hP.sender j task' ?_⟩
    rw [hsender]
    exact htask'
  · exact ⟨h.sound.toSound, fun _ => hP.setSender j fun _ hmem =>
      absurd hmem (Option.not_mem_none _)⟩

theorem soundStep_attempt {j i : ℕ} {task : QueueTask} (sendto : Bool)
    (hsender : P.sender j = .attempting task i) :
    SoundStep cfg W p P (P.attempt sendto j task i) := by
  have htask : task ∈ P.data.enqueued := hP.sender j task (by rw [hsender]; rfl)
  have hmeets := h.sendPlBody hp htask sendto i
  unfold NetProcess.attempt
  cases hcase : CausalBroadcast.sendPlBody sendto task i P.data with
  | ok round d' =>
      rw [hcase] at hmeets
      refine ⟨hmeets.toSound, fun _ => (hP.aside hmeets).setSender j ?_⟩
      cases round with
      | none => exact fun _ hmem => absurd hmem (Option.not_mem_none _)
      | some i' =>
          exact fun task' hmem => Option.mem_some.mp hmem ▸ hmeets.grows.enqueued htask
  | error code d' =>
      rw [hcase] at hmeets
      obtain ⟨-, rfl⟩ := hmeets
      exact ⟨h.sound.toSound, fun _ => hP.setSender j fun _ hmem =>
        absurd hmem (Option.not_mem_none _)⟩
  | running d' => rw [hcase] at hmeets; exact hmeets.elim
  | undefined => exact soundStep_undefined h

theorem soundStep {P' : NetProcess} {action : NetAction} (hstep : NetStep P action P')
    (hnetwork : ∀ sendto msg, action = .receive sendto msg →
      ∃ r, cfg.IsPid r ∧ (p, msg) ∈ (withData W p P.data r).sent)
    (harriving : ∀ msg, P.receiver = .delivering msg → Arrives cfg (withData W p P.data) p msg) :
    SoundStep cfg W p P P' := by
  cases hstep with
  | copy hmain => exact soundStep_copy h hp hP hmain
  | broadcast machine hmain => exact soundStep_broadcast h hp hP machine hmain
  | bebMain hmain hk => exact soundStep_bebMain h hp hP hmain hk
  | next hmain => exact soundStep_next h hP hmain
  | receive machine sendto msg =>
      obtain ⟨r, hr, hsent⟩ := hnetwork sendto msg rfl
      exact soundStep_receive h hp hP hr hsent machine sendto
  | deliverBeb machine hreceiver =>
      exact soundStep_deliverBeb h hp hP (harriving _ hreceiver) machine
  | bebReceiver hreceiver hk => exact soundStep_bebReceiver h hp hP hreceiver hk
  | finish machine hreceiver => exact soundStep_finish h hp hP hreceiver machine
  | dequeue => exact soundStep_dequeue h hp hP _
  | test _ hsender => exact soundStep_test h hP hsender
  | attempt sendto _ hsender => exact soundStep_attempt h hp hP sendto hsender
  | crash => exact h.sound.toSound.stopped nofun

end Step

/-! ## Messages on their way through `deliver_pl` -/

section Delivering

variable {P P' : NetProcess} {msg : Msg}

/-- A call leaves the receiver thread before `is_delivered` only if it stood there, or by
its normal return. -/
theorem settle_delivering {α : Type} {outcome : Outcome ErrorCode NetData α}
    {ok : α → NetProcess → NetProcess} {C : Prop}
    (hok : ∀ value d, outcome = .ok value d →
      (ok value { P with data := d }).receiver = .delivering msg → C)
    (hdelivering : (P.settle outcome ok fun P => P.setReceiver .stuck).receiver =
      .delivering msg) : P.receiver = .delivering msg ∨ C := by
  cases outcome with
  | ok value d => exact .inr (hok value d rfl hdelivering)
  | error code d => exact .inl hdelivering
  | running d => cases hdelivering
  | undefined => exact .inl hdelivering

/-- Only a real message that is received comes to stand before `is_delivered`. -/
theorem NetStep.to_delivering {action : NetAction} (hstep : NetStep P action P')
    (hdelivering : P'.receiver = .delivering msg) : P.receiver = .delivering msg ∨
      ∃ sendto, action = .receive sendto msg ∧ msg.mtype ≠ ackNo := by
  by_cases hreceiver : action.OfReceiver
  · cases hstep with
    | receive machine sendto msg' hidle =>
        refine settle_delivering (fun real d hcase hafter => ?_) hdelivering
        have hresult := deliverPlStart_meets machine sendto msg' P.data
        rw [hcase] at hresult
        cases real with
        | false => cases hafter
        | true =>
            cases hafter
            exact ⟨sendto, rfl, hresult.1⟩
    | deliverBeb machine hbefore =>
        refine settle_delivering (fun newMsg d _ hafter => ?_) hdelivering
        cases newMsg <;> cases hafter
    | bebReceiver hrelay hk =>
        exact settle_delivering (fun value d _ hafter => by cases hafter) hdelivering
    | finish machine hrelay hk =>
        exact settle_delivering (fun value d _ hafter => by cases hafter) hdelivering
    | _ => exact hreceiver.elim
  · exact .inl ((hstep.receiver_eq hreceiver).symm.trans hdelivering)

end Delivering

/-! ## The run -/

/-- The data of the processes. -/
def NetSystem.world (s : NetSystem) : ℕ → NetData := fun q => (s q).data

/-- What holds in every reachable state. -/
structure SystemInv (cfg : Membership) (s : NetSystem) : Prop where
  net : NetInv cfg s.world
  threads : ∀ p, cfg.IsPid p → (s p).status = .running → ThreadInv cfg p (s p)
  arriving : ∀ p, cfg.IsPid p → (s p).status = .running → ∀ msg,
    (s p).receiver = .delivering msg → Arrives cfg s.world p msg

section Run

variable {cfg : Membership} {numMsg : ℕ → ℕ} {allowed : NetAction → Prop} {s t : NetSystem}

/-- A step changes the data of one process. -/
theorem NetSystem.world_eq {p : ℕ} (hframe : ∀ q, q ≠ p → t q = s q) :
    t.world = withData s.world p (t p).data := by
  funext q
  by_cases hqp : q = p
  · rw [hqp, withData_self]
    rfl
  · rw [withData_of_ne _ _ hqp]
    exact congrArg NetProcess.data (hframe q hqp)

/-- What other processes rely on is never lost. -/
theorem SoundStep.grows {p : ℕ} (h : SoundStep cfg s.world p (s p) (t p))
    (hframe : ∀ q, q ≠ p → t q = s q) (q : ℕ) : (s.world q).Grows (t.world q) := by
  by_cases hqp : q = p
  · rw [hqp]
    exact h.sound.grows
  · show (s q).data.Grows (t q).data
    rw [hframe q hqp]
    exact .refl _

/-- It is enough to look at the process that takes the step. -/
theorem SystemInv.change (h : SystemInv cfg s) {p : ℕ} (hrunning : (s p).status = .running)
    (hframe : ∀ q, q ≠ p → t q = s q) (hsound : SoundStep cfg s.world p (s p) (t p))
    (harrives : ∀ msg, (t p).receiver = .delivering msg →
      (s p).receiver = .delivering msg ∨ Arrives cfg s.world p msg) : SystemInv cfg t := by
  refine ⟨NetSystem.world_eq hframe ▸ hsound.sound.inv, fun q hq hstatus => ?_,
    fun q hq hstatus msg hdelivering => ?_⟩
  · by_cases hqp : q = p
    · subst hqp
      exact hsound.threads hstatus
    · rw [hframe q hqp] at hstatus ⊢
      exact h.threads q hq hstatus
  · refine Arrives.mono (hsound.grows hframe) ?_
    by_cases hqp : q = p
    · subst hqp
      rcases harrives msg hdelivering with hbefore | harrives
      · exact h.arriving q hq hrunning msg hbefore
      · exact harrives
    · rw [hframe q hqp] at hstatus hdelivering
      exact h.arriving q hq hstatus msg hdelivering

theorem NetSystemStep.world_eq {p : ℕ} {action : NetAction}
    (hstep : NetSystemStep cfg s p action t) : t.world = withData s.world p (t p).data :=
  NetSystem.world_eq hstep.frame

theorem SystemInv.soundStep (h : SystemInv cfg s) {p : ℕ} {action : NetAction}
    (hstep : NetSystemStep cfg s p action t) : SoundStep cfg s.world p (s p) (t p) := by
  have hself : withData s.world p (s p).data = s.world := withData_eq_self s.world p
  refine CausalBroadcast.soundStep (hself.symm ▸ h.net) hstep.isPid
    (h.threads p hstep.isPid hstep.running) hstep.step (fun sendto msg haction => ?_) ?_
  · rw [hself]
    exact hstep.network sendto msg haction
  · rw [hself]
    exact h.arriving p hstep.isPid hstep.running

theorem SystemInv.grows (h : SystemInv cfg s) {p : ℕ} {action : NetAction}
    (hstep : NetSystemStep cfg s p action t) (q : ℕ) : (s.world q).Grows (t.world q) :=
  (h.soundStep hstep).grows hstep.frame q

theorem SystemInv.step (h : SystemInv cfg s) {p : ℕ} {action : NetAction}
    (hstep : NetSystemStep cfg s p action t) : SystemInv cfg t := by
  refine h.change hstep.running hstep.frame (h.soundStep hstep) fun msg hdelivering => ?_
  rcases hstep.step.to_delivering hdelivering with hbefore | ⟨sendto, haction, hmtype⟩
  · exact .inl hbefore
  · obtain ⟨r, hr, hsent⟩ := hstep.network sendto msg haction
    exact .inr (h.net.arrives hr hsent hmtype)

theorem netInv_initial (cfg : Membership) (numMsg : ℕ → ℕ) :
    NetInv cfg fun p => NetData.initial cfg (numMsg p) p where
  data p _ :=
    { selfPid := rfl
      numProc := rfl
      urbTotal := rfl
      sentUrb := fun _ hmem => absurd hmem List.not_mem_nil
      seen := fun s hs => absurd (isSeenUrb_initUrbTable ..) hs
      sentBeb := fun _ hmem => absurd hmem List.not_mem_nil
      enqueued := fun _ hmem => absurd hmem List.not_mem_nil
      queue := MsgQueue.initQueue_wellFormed (by decide) (by decide)
      contents := List.Subset.refl _
      sent := fun _ _ hmem => absurd hmem List.not_mem_nil }
  safe _ p _ :=
    { plAcksTotal := rfl
      plDeliveredTotal := rfl
      urbacksTotal := rfl
      urbacksProcess := rfl
      urbacks := fun _ _ _ hread => absurd (tableReadEntry_initTableUid ..) hread
      plAcks := fun _ _ _ hread => absurd (tableReadEntry_initTableUid ..) hread
      plDelivered := fun _ _ _ hread => absurd (tableReadEntry_initTableUid ..) hread
      deliveredBeb := fun _ hmem => absurd hmem List.not_mem_nil
      deliveredBebOnce := List.nodup_nil
      deliveredLcb := fun _ hmem => absurd hmem List.not_mem_nil
      deliveredLcbOnce := List.nodup_nil
      delivered := fun s hs => absurd (isDeliveredUrb_initUrbTable ..) hs }

theorem systemInv_of_reachable (hs : (netSystem cfg numMsg allowed).Reachable s) :
    SystemInv cfg s := by
  refine hs.invariant ?_ ?_
  · rintro _ rfl
    refine ⟨netInv_initial cfg numMsg, fun p hp _ => ⟨⟨le_rfl, rfl, ?_⟩, trivial, ?_⟩,
      fun _ _ _ _ => nofun⟩
    · have hle := hp.2
      have hlt := cfg.numProc_lt
      unfold seenIdOf
      omega
    · exact fun _ _ hmem => absurd hmem (Option.not_mem_none _)
  · rintro s t - hinv ⟨p, action, -, hstep⟩
    exact hinv.step hstep

/-- What a process has seen was broadcast. -/
theorem SystemInv.exists_sent (h : SystemInv cfg s) {p id : ℕ} (hp : cfg.IsPid p)
    (hseen : Seen (s p).data id) : ∃ o i, cfg.IsPid o ∧ 1 ≤ i ∧
      i ≤ (s o).data.sentUrb.length ∧ id = seenIdOf cfg.numProc i o := by
  obtain ⟨lcbMsg, hbroadcast⟩ := (h.net.data p hp).seen id hseen
  obtain ⟨i, hi, hsent, hid⟩ := hbroadcast.sent
  have hlt : i - 1 < (s lcbMsg.originalSender).data.sentUrb.length :=
    (List.getElem?_eq_some_iff.mp hsent).1
  exact ⟨lcbMsg.originalSender, i, hbroadcast.isPid, hi, by omega, hid⟩

/-- Uniform reliable broadcast: `deliver_lcb` is called at most once for an id, only
for the message that its origin passed to `send_urb`, and only after more than half
of the processes have marked it seen. -/
theorem uniformBroadcast_safety (hs : (netSystem cfg numMsg allowed).Reachable s)
    (hin : InTables cfg s.world) {p : ℕ} (hp : cfg.IsPid p) :
    ((s p).data.deliveredLcb.map UrbMsg.seenId).Nodup ∧
    ∀ msg ∈ (s p).data.deliveredLcb, Broadcast cfg s.world msg.seenId msg.lcbMsg ∧
      SeenByMajority cfg s.world msg.seenId := by
  have hsafe := (systemInv_of_reachable hs).net.safe hin p hp
  refine ⟨hsafe.deliveredLcbOnce, fun msg hmsg => ?_⟩
  obtain ⟨hbroadcast, hmajority, -⟩ := hsafe.deliveredLcb msg hmsg
  exact ⟨hbroadcast, hmajority⟩

end Run

/-! ## The exchange of one message -/

theorem exchanged_reachable :
    (netSystem fifoMembership (fun _ => 1) fun _ => True).Reachable exchanged :=
  reachable_play fun _ _ => trivial

/-- While process `1` has broadcast one message and the others none, there is only one
id to see. -/
theorem seen_eq_zero {cfg : Membership} {allowed : NetAction → Prop} {s : NetSystem}
    (hs : (netSystem cfg (fun _ => 1) allowed).Reachable s)
    (hfirst : (s 1).data.sentUrb.length = 1)
    (hothers : ∀ q ∈ Finset.Icc 2 cfg.numProc, (s q).data.sentUrb.length = 0) {p id : ℕ}
    (hp : cfg.IsPid p) (hseen : Seen (s p).data id) : id = 0 := by
  obtain ⟨o, i, ⟨ho, hlast⟩, hi, hlength, rfl⟩ := (systemInv_of_reachable hs).exists_sent hp hseen
  rcases Nat.eq_or_lt_of_le ho with rfl | hlater
  · obtain rfl : i = 1 := by omega
    unfold seenIdOf
    omega
  · have hnone := hothers o (Finset.mem_Icc.mpr ⟨hlater, hlast⟩)
    omega

theorem exchanged_seen {p id : ℕ} (hp : fifoMembership.IsPid p)
    (hseen : Seen (exchanged p).data id) : id = 0 :=
  seen_eq_zero exchanged_reachable (by decide +kernel) (by decide +kernel) hp hseen

theorem exchanged_inTables : InTables fifoMembership exchanged.world := by
  intro p hp id hseen
  obtain rfl := exchanged_seen hp hseen
  decide

/-- In the exchange process `2` has passed the message of process `1` up. -/
theorem exchanged_uniformBroadcast : ∃ msg ∈ (exchanged 2).data.deliveredLcb,
    msg.lcbMsg = firstMsg ∧ Broadcast fifoMembership exchanged.world msg.seenId msg.lcbMsg ∧
      SeenByMajority fifoMembership exchanged.world msg.seenId := by
  have hmem : ⟨firstMsg, 0, 0⟩ ∈ (exchanged 2).data.deliveredLcb := by decide +kernel
  obtain ⟨-, hsafe⟩ := uniformBroadcast_safety (p := 2) exchanged_reachable exchanged_inTables
    (by decide)
  exact ⟨_, hmem, rfl, hsafe _ hmem⟩

end CausalBroadcast
