import CausalBroadcast.Reliable.Safety

/-!
# No send task is lost

A task moves between the queue and the sender threads until the acknowledgement of
its message is recorded.  `TaskInv` counts the tasks of a running process: for each
message and each peer as many as `send_beb` has enqueued, at most one, and none is
missing while there is no acknowledgement (`taskKept`).

The exception is `sendto`.  When it fails, `sender_f` leaves its thread with
`pthread_exit`, and the task that the thread held is gone (`taskLost`).  So the law is
about the runs in which `sendto` takes every datagram of the sender threads.
-/

namespace CausalBroadcast

/-! ## Counting -/

/-- The task carries the message `id` to `q`. -/
def QueueTask.IsFor (task : QueueTask) (id q : ℕ) : Prop :=
  task.msg.urbMsg.seenId = id ∧ task.pidDest = q

instance (task : QueueTask) (id q : ℕ) : Decidable (task.IsFor id q) :=
  inferInstanceAs (Decidable (_ ∧ _))

/-- The tasks of a list that carry the message `id` to `q`. -/
def countFor (tasks : List QueueTask) (id q : ℕ) : ℕ :=
  tasks.countP fun task => decide (task.IsFor id q)

/-- The thread holds a task that carries the message `id` to `q`. -/
def NetSender.holds (id q : ℕ) (sender : NetSender) : Bool :=
  sender.task.any fun task => decide (task.IsFor id q)

/-- The sender threads that hold a task for the message `id` and the peer `q`. -/
def heldFor (sender : ℕ → NetSender) (id q : ℕ) : ℕ :=
  ((Finset.range numSenderThreads).filter fun j => (sender j).holds id q = true).card

/-- The tasks for the message `id` and the peer `q`: in the queue or in a thread. -/
def NetProcess.tasksFor (P : NetProcess) (id q : ℕ) : ℕ :=
  countFor P.data.taskQ.contents id q + heldFor P.sender id q

@[simp] theorem countFor_concat (tasks : List QueueTask) (task : QueueTask) (id q : ℕ) :
    countFor (tasks ++ [task]) id q = countFor tasks id q + if task.IsFor id q then 1 else 0 := by
  unfold countFor
  rw [List.countP_append, List.countP_singleton]
  simp

@[simp] theorem countFor_cons (tasks : List QueueTask) (task : QueueTask) (id q : ℕ) :
    countFor (task :: tasks) id q = countFor tasks id q + if task.IsFor id q then 1 else 0 := by
  unfold countFor
  rw [List.countP_cons]
  simp

/-- One thread changes what it holds. -/
theorem heldFor_update (sender : ℕ → NetSender) {j : ℕ} (hj : j < numSenderThreads)
    (place : NetSender) (id q : ℕ) :
    heldFor (Function.update sender j place) id q + (if (sender j).holds id q then 1 else 0) =
      heldFor sender id q + if place.holds id q then 1 else 0 := by
  have hmem : j ∈ Finset.range numSenderThreads := Finset.mem_range.mpr hj
  have hrest : ∑ k ∈ (Finset.range numSenderThreads).erase j,
        (if (Function.update sender j place k).holds id q = true then 1 else 0) =
      ∑ k ∈ (Finset.range numSenderThreads).erase j,
        if (sender k).holds id q = true then 1 else 0 := by
    refine Finset.sum_congr rfl fun k hk => ?_
    rw [Function.update_of_ne (Finset.ne_of_mem_erase hk)]
  unfold heldFor
  rw [Finset.card_filter, Finset.card_filter, ← Finset.add_sum_erase _ _ hmem,
    ← Finset.add_sum_erase _ (fun k => if (sender k).holds id q = true then 1 else 0) hmem, hrest,
    Function.update_self]
  omega

/-! ## The loops of `send_beb` -/

/-- The thread is in the `send_beb` of the message `id`, before the peer `q`. -/
def NetMain.handing : NetMain → ℕ → ℕ → Prop
  | .beb _ msg k => fun id q => msg.seenId = id ∧ k ≤ q
  | _ => fun _ _ => False

/-- The thread is in the `send_beb` of the message `id`, before the peer `q`. -/
def NetReceiver.handing : NetReceiver → ℕ → ℕ → Prop
  | .relay _ newMsg k => fun id q => newMsg.seenId = id ∧ k ≤ q
  | _ => fun _ _ => False

/-- A `send_beb` of the message `id` has not come to the peer `q` yet. -/
def NetProcess.handing (P : NetProcess) (id q : ℕ) : Prop :=
  P.main.handing id q ∨ P.receiver.handing id q

instance : ∀ (main : NetMain) (id q : ℕ), Decidable (main.handing id q)
  | .next _, _, _ => inferInstanceAs (Decidable False)
  | .copied _ _, _, _ => inferInstanceAs (Decidable False)
  | .beb _ msg k, id, q => inferInstanceAs (Decidable (msg.seenId = id ∧ k ≤ q))
  | .stuck, _, _ => inferInstanceAs (Decidable False)

instance : ∀ (receiver : NetReceiver) (id q : ℕ), Decidable (receiver.handing id q)
  | .idle, _, _ => inferInstanceAs (Decidable False)
  | .delivering _, _, _ => inferInstanceAs (Decidable False)
  | .relay _ newMsg k, id, q => inferInstanceAs (Decidable (newMsg.seenId = id ∧ k ≤ q))
  | .stuck, _, _ => inferInstanceAs (Decidable False)

instance (P : NetProcess) (id q : ℕ) : Decidable (P.handing id q) :=
  inferInstanceAs (Decidable (_ ∨ _))

/-- The two threads are never in a `send_beb` of the same message. -/
def Apart (main : NetMain) (receiver : NetReceiver) : Prop :=
  ∀ id q r, main.handing id q → ¬ receiver.handing id r

/-- What holds of the tasks of a running process. -/
structure TaskInv (cfg : Membership) (p : ℕ) (P : NetProcess) : Prop where
  apart : Apart P.main P.receiver
  handed : ∀ msg ∈ P.data.sentBeb, ∀ q, cfg.IsPid q → q ≠ p → ¬ P.handing msg.seenId q →
    countFor P.data.enqueued msg.seenId q = 1
  ahead : ∀ id q, P.handing id q → countFor P.data.enqueued id q = 0
  fresh : ∀ id q, id ∉ P.data.sentBeb.map UrbMsg.seenId → countFor P.data.enqueued id q = 0
  le : ∀ id q, P.tasksFor id q ≤ countFor P.data.enqueued id q
  kept : ∀ id q, isAck P.data (u32 (cfg.numProc * id + q - 1)) = 0 →
    P.tasksFor id q = countFor P.data.enqueued id q

/-- Neither the queue nor the tasks are touched, and no acknowledgement is lost. -/
structure LeavesTasks (d d' : NetData) : Prop where
  taskQ : d'.taskQ = d.taskQ
  enqueued : d'.enqueued = d.enqueued
  acks : ∀ k, isAck d k ≠ 0 → isAck d' k ≠ 0

theorem LeavesTasks.refl (d : NetData) : LeavesTasks d d := ⟨rfl, rfl, fun _ => id⟩

theorem LeavesTasks.trans {d d' d'' : NetData} (h : LeavesTasks d d') (h' : LeavesTasks d' d'') :
    LeavesTasks d d'' :=
  ⟨h'.taskQ.trans h.taskQ, h'.enqueued.trans h.enqueued, fun k hk => h'.acks k (h.acks k hk)⟩

section Step

variable {cfg : Membership} {p : ℕ} {P P' : NetProcess}

theorem tasksFor_eq (hdata : LeavesTasks P.data P'.data) (hsender : P'.sender = P.sender)
    (id q : ℕ) : P'.tasksFor id q = P.tasksFor id q := by
  unfold NetProcess.tasksFor
  rw [hdata.taskQ, hsender]

/-- A step that hands nothing to `send_beb` and moves no task. -/
theorem TaskInv.frame (h : TaskInv cfg p P) (hdata : LeavesTasks P.data P'.data)
    (hsender : P'.sender = P.sender) (hsentBeb : P'.data.sentBeb = P.data.sentBeb)
    (hmain : ∀ id q, P'.main.handing id q → P.main.handing id q)
    (hreceiver : ∀ id q, P'.receiver.handing id q → P.receiver.handing id q)
    (hback : ∀ id q, cfg.IsPid q → P.handing id q → P'.handing id q) : TaskInv cfg p P' := by
  refine ⟨fun id q r hq hr => h.apart id q r (hmain id q hq) (hreceiver id r hr),
    fun msg hmsg q hq hne hnot => ?_, fun id q hq => ?_, fun id q hid => ?_, fun id q => ?_,
    fun id q hack => ?_⟩
  · rw [hdata.enqueued]
    rw [hsentBeb] at hmsg
    exact h.handed msg hmsg q hq hne fun hhanding => hnot (hback _ q hq hhanding)
  · rw [hdata.enqueued]
    exact h.ahead id q (hq.imp (hmain id q) (hreceiver id q))
  · rw [hdata.enqueued]
    rw [hsentBeb] at hid
    exact h.fresh id q hid
  · rw [hdata.enqueued, tasksFor_eq hdata hsender]
    exact h.le id q
  · rw [hdata.enqueued, tasksFor_eq hdata hsender]
    exact h.kept id q (by_contra fun hne => hdata.acks _ hne hack)

/-- A thread hands a new message to `send_beb`. -/
theorem TaskInv.hand (h : TaskInv cfg p P) (hdata : LeavesTasks P.data P'.data)
    (hsender : P'.sender = P.sender) {newMsg : UrbMsg}
    (hsentBeb : P'.data.sentBeb = P.data.sentBeb ++ [newMsg])
    (hfresh : newMsg.seenId ∉ P.data.sentBeb.map UrbMsg.seenId)
    (hapart : Apart P'.main P'.receiver)
    (hhanding : ∀ id q, P'.handing id q ↔ P.handing id q ∨ (newMsg.seenId = id ∧ 1 ≤ q)) :
    TaskInv cfg p P' := by
  refine ⟨hapart, fun msg hmsg q hq hne hnot => ?_, fun id q hq => ?_, fun id q hid => ?_,
    fun id q => ?_, fun id q hack => ?_⟩
  · rw [hdata.enqueued]
    rw [hhanding] at hnot
    rw [hsentBeb] at hmsg
    rcases List.mem_append.mp hmsg with hmsg | hmsg
    · exact h.handed msg hmsg q hq hne fun hhanding => hnot (.inl hhanding)
    · rw [List.mem_singleton.mp hmsg] at hnot
      exact absurd (.inr ⟨rfl, hq.1⟩) hnot
  · rw [hdata.enqueued]
    rcases (hhanding id q).mp hq with hq | ⟨rfl, -⟩
    · exact h.ahead id q hq
    · exact h.fresh _ q hfresh
  · rw [hdata.enqueued]
    rw [hsentBeb, List.map_append, List.mem_append, not_or] at hid
    exact h.fresh id q hid.1
  · rw [hdata.enqueued, tasksFor_eq hdata hsender]
    exact h.le id q
  · rw [hdata.enqueued, tasksFor_eq hdata hsender]
    exact h.kept id q (by_contra fun hne => hdata.acks _ hne hack)

/-- `send_beb` comes to the process itself. -/
theorem TaskInv.skip (h : TaskInv cfg p P) {id : ℕ} (hdata : P'.data = P.data)
    (hsender : P'.sender = P.sender) (hapart : Apart P'.main P'.receiver)
    (hhanding : ∀ t q, P'.handing t q ↔ P.handing t q ∧ ¬ (t = id ∧ q = p)) :
    TaskInv cfg p P' := by
  have hleaves : LeavesTasks P.data P'.data := hdata ▸ .refl P.data
  refine ⟨hapart, fun msg hmsg q hq hne hnot => ?_, fun t q hq => ?_, fun t q ht => ?_,
    fun t q => ?_, fun t q hack => ?_⟩
  · rw [hdata] at hmsg ⊢
    exact h.handed msg hmsg q hq hne fun hq => hnot ((hhanding _ q).mpr ⟨hq, fun heq => hne heq.2⟩)
  · rw [hdata]
    exact h.ahead t q ((hhanding t q).mp hq).1
  · rw [hdata] at ht ⊢
    exact h.fresh t q ht
  · rw [tasksFor_eq hleaves hsender, hdata]
    exact h.le t q
  · rw [tasksFor_eq hleaves hsender, hdata]
    rw [hdata] at hack
    exact h.kept t q hack

/-- `send_beb` enqueues the task for the peer `k`. -/
theorem TaskInv.enqueue (h : TaskInv cfg p P) {msg : UrbMsg} {k : ℕ} {task : QueueTask}
    (htask : ∀ id q, task.IsFor id q ↔ id = msg.seenId ∧ q = k)
    (hhands : P.handing msg.seenId k) (hmsg : msg ∈ P.data.sentBeb)
    (hcontents : P'.data.taskQ.contents = P.data.taskQ.contents ++ [task])
    (henqueued : P'.data.enqueued = P.data.enqueued ++ [task])
    (hacks : P'.data.plAcks = P.data.plAcks) (hsentBeb : P'.data.sentBeb = P.data.sentBeb)
    (hsender : P'.sender = P.sender) (hapart : Apart P'.main P'.receiver)
    (hhanding : ∀ t q, P'.handing t q ↔ P.handing t q ∧ ¬ (t = msg.seenId ∧ q = k)) :
    TaskInv cfg p P' := by
  have hcount : ∀ t q, countFor P'.data.enqueued t q =
      countFor P.data.enqueued t q + if t = msg.seenId ∧ q = k then 1 else 0 := by
    intro t q
    rw [henqueued, countFor_concat]
    simp only [htask]
  have htasks : ∀ t q, P'.tasksFor t q =
      P.tasksFor t q + if t = msg.seenId ∧ q = k then 1 else 0 := by
    intro t q
    unfold NetProcess.tasksFor
    rw [hcontents, countFor_concat, hsender]
    simp only [htask]
    omega
  -- The new task is counted once on both sides: among the enqueued ones and among those that
  -- the queue and the senders hold.
  refine ⟨hapart, fun msg' hmsg' q hq hne hnot => ?_, fun t q hq => ?_, fun t q ht => ?_,
    fun t q => ?_, fun t q hack => ?_⟩
  · rw [hcount]
    rw [hsentBeb] at hmsg'
    split
    · obtain ⟨hid, rfl⟩ := ‹msg'.seenId = msg.seenId ∧ q = k›
      rw [hid, h.ahead _ q hhands]
    · rw [Nat.add_zero]
      exact h.handed msg' hmsg' q hq hne fun hq => hnot ((hhanding _ q).mpr ⟨hq, ‹_›⟩)
  · obtain ⟨hold, hother⟩ := (hhanding t q).mp hq
    rw [hcount, if_neg hother, Nat.add_zero]
    exact h.ahead t q hold
  · rw [hsentBeb] at ht
    have hother : ¬ (t = msg.seenId ∧ q = k) := fun heq =>
      ht (heq.1 ▸ List.mem_map_of_mem hmsg)
    rw [hcount, if_neg hother, Nat.add_zero]
    exact h.fresh t q ht
  · rw [htasks, hcount]
    exact Nat.add_le_add_right (h.le t q) _
  · unfold isAck at hack
    rw [hacks] at hack
    rw [htasks, hcount, h.kept t q hack]

/-- A task goes from the queue to a thread, from a thread to the queue, or is dropped
after its acknowledgement. -/
theorem TaskInv.move (h : TaskInv cfg p P) (henqueued : P'.data.enqueued = P.data.enqueued)
    (hacks : P'.data.plAcks = P.data.plAcks) (hsentBeb : P'.data.sentBeb = P.data.sentBeb)
    (hmain : P'.main = P.main) (hreceiver : P'.receiver = P.receiver)
    (hle : ∀ id q, P'.tasksFor id q ≤ P.tasksFor id q)
    (hkept : ∀ id q, isAck P.data (u32 (cfg.numProc * id + q - 1)) = 0 →
      P'.tasksFor id q = P.tasksFor id q) : TaskInv cfg p P' := by
  have hhanding : ∀ t q, P'.handing t q ↔ P.handing t q := by
    intro t q
    unfold NetProcess.handing
    rw [hmain, hreceiver]
  refine ⟨by rw [hmain, hreceiver]; exact h.apart, fun msg hmsg q hq hne hnot => ?_,
    fun t q hq => ?_, fun t q ht => ?_, fun t q => ?_, fun t q hack => ?_⟩
  · rw [hsentBeb] at hmsg
    rw [hhanding] at hnot
    rw [henqueued]
    exact h.handed msg hmsg q hq hne hnot
  · rw [henqueued]
    exact h.ahead t q ((hhanding t q).mp hq)
  · rw [hsentBeb] at ht
    rw [henqueued]
    exact h.fresh t q ht
  · rw [henqueued]
    exact (hle t q).trans (h.le t q)
  · unfold isAck at hack
    rw [hacks] at hack
    rw [henqueued, hkept t q hack, h.kept t q hack]

end Step

/-! ## The calls -/

/-- An acknowledgement that arrives is recorded, and one that is sent is no task. -/
theorem deliverPlStart_tasks (machine : Machine) (sendto : Bool) (msg : Msg) (d : NetData) :
    (deliverPlStart machine sendto msg d).Meets
      (fun _ d' => LeavesTasks d d' ∧ d'.sentBeb = d.sentBeb) (fun _ _ => True)
      (fun d' => LeavesTasks d d' ∧ d'.sentBeb = d.sentBeb) := by
  refine (deliverPlStart_meets machine sendto msg d).mono ?_ (fun _ _ _ => trivial) ?_
  · rintro (_ | _) d' hresult
    · obtain ⟨-, -, table, hwritten, rfl⟩ := hresult
      exact ⟨⟨rfl, rfl, hwritten.keeps.recorded⟩, rfl⟩
    · obtain ⟨-, -, -, rfl⟩ := hresult
      exact ⟨⟨rfl, rfl, fun _ => id⟩, rfl⟩
  · rintro _ ⟨-, -, table, hwritten, rfl⟩
    exact ⟨⟨rfl, rfl, hwritten.keeps.recorded⟩, rfl⟩

/-- `deliver_pl` hands at most one message to `send_beb`, which was not seen before. -/
theorem deliverPlEnd_tasks {d : NetData} (hpos : 0 < d.urbTable.totalEntries)
    (hlt : d.urbTable.totalEntries < 2 ^ 32) (machine : Machine) (msg : Msg) :
    (deliverPlEnd machine msg d).Meets
      (fun newMsg d' => LeavesTasks d d' ∧ d'.sentBeb = d.sentBeb ++ newMsg.toList ∧
        ∀ msg' ∈ newMsg, ¬ Seen d msg'.seenId)
      (fun _ _ => True) (fun d' => LeavesTasks d d' ∧ d'.sentBeb = d.sentBeb) := by
  have hnone : ∀ msg' ∈ (none : Option UrbMsg), ¬ Seen d msg'.seenId :=
    fun _ hmem => absurd hmem (Option.not_mem_none _)
  refine (recordDelivery_meets machine msg d).andThen (fun _ _ _ => trivial) ?_ ?_
  · rintro _ ⟨-, table, rfl⟩
    exact ⟨⟨rfl, rfl, fun _ => id⟩, rfl⟩
  rintro fresh d₁ hresult
  cases fresh with
  | false =>
      obtain ⟨-, rfl⟩ := hresult
      exact ⟨⟨rfl, rfl, fun _ => id⟩, (List.append_nil _).symm, hnone⟩
  | true =>
      obtain ⟨-, table, -, rfl⟩ := hresult
      refine (deliverUrbStart_meets machine (d := { d with
        plDelivered := table
        deliveredBeb := d.deliveredBeb ++ [msg] }) hpos hlt msg.urbMsg rfl).andThen
        (fun _ _ _ => trivial) ?_ ?_
      · rintro _ ⟨table', -, ⟨-, rfl⟩ | ⟨-, rfl⟩ | ⟨-, -, -, table'', -, rfl⟩⟩
        all_goals exact ⟨⟨rfl, rfl, fun _ => id⟩, rfl⟩
      rintro (_ | newMsg) d₂ ⟨table', -, hstart⟩
      · -- seen before, so it is not relayed
        obtain ⟨-, rfl⟩ := hstart
        refine (deliverUrbEnd_meets machine (d := { d with
          plDelivered := table
          urbacks := table'
          deliveredBeb := d.deliveredBeb ++ [msg] }) hpos hlt msg.urbMsg).andThen
          (fun _ _ _ => trivial) ?_ ?_
        · rintro _ (⟨-, -, -, lcb, -, rfl⟩ | ⟨-, rfl⟩)
          all_goals exact ⟨⟨rfl, rfl, fun _ => id⟩, rfl⟩
        · rintro _ _ (⟨-, -, -, lcb, -, rfl⟩ | ⟨-, rfl⟩)
          all_goals exact ⟨⟨rfl, rfl, fun _ => id⟩, (List.append_nil _).symm, hnone⟩
      · obtain ⟨hnot, -, -, -, rfl, table'', -, rfl⟩ := hstart
        refine ⟨⟨rfl, rfl, fun _ => id⟩, rfl, fun msg' hmem => ?_⟩
        obtain rfl := Option.mem_some.mp hmem
        exact not_not.mpr hnot

theorem deliverUrbEnd_tasks {d : NetData} (hpos : 0 < d.urbTable.totalEntries)
    (hlt : d.urbTable.totalEntries < 2 ^ 32) (machine : Machine) (msg : UrbMsg) :
    (deliverUrbEnd machine msg d).Meets (fun _ d' => LeavesTasks d d' ∧ d'.sentBeb = d.sentBeb)
      (fun _ _ => True) (fun d' => LeavesTasks d d' ∧ d'.sentBeb = d.sentBeb) := by
  refine (deliverUrbEnd_meets machine hpos hlt msg).mono ?_ (fun _ _ _ => trivial) ?_
  · rintro _ _ (⟨-, -, -, lcb, -, rfl⟩ | ⟨-, rfl⟩)
    all_goals exact ⟨⟨rfl, rfl, fun _ => id⟩, rfl⟩
  · rintro _ (⟨-, -, -, lcb, -, rfl⟩ | ⟨-, rfl⟩)
    all_goals exact ⟨⟨rfl, rfl, fun _ => id⟩, rfl⟩

/-! ## One step -/

theorem mem_sentBeb_of_main {cfg : Membership} {p id q : ℕ} {d : NetData} {main : NetMain}
    (h : MainAt cfg p d main) (hhanding : main.handing id q) :
    id ∈ d.sentBeb.map UrbMsg.seenId := by
  cases main with
  | beb i msg k => exact hhanding.1 ▸ List.mem_map_of_mem h.2.1
  | next i => exact hhanding.elim
  | copied i msg => exact hhanding.elim
  | stuck => exact hhanding.elim

theorem mem_sentBeb_of_receiver {id q : ℕ} {d : NetData} {receiver : NetReceiver}
    (h : ReceiverAt d receiver) (hhanding : receiver.handing id q) :
    id ∈ d.sentBeb.map UrbMsg.seenId := by
  cases receiver with
  | relay msg newMsg k => exact hhanding.1 ▸ List.mem_map_of_mem h.1
  | idle => exact hhanding.elim
  | delivering msg => exact hhanding.elim
  | stuck => exact hhanding.elim

/-- What was not seen was not handed to `send_beb`. -/
theorem DataInv.not_mem_sentBeb {cfg : Membership} {W : ℕ → NetData} {p id : ℕ} {d : NetData}
    (h : DataInv cfg (withData W p d) p d) (hnot : ¬ Seen d id) :
    id ∉ d.sentBeb.map UrbMsg.seenId := by
  intro hmem
  obtain ⟨msg, hmsg, rfl⟩ := List.mem_map.mp hmem
  have hseen := (h.sentBeb msg hmsg).seen
  rw [withData_self] at hseen
  exact hnot hseen

/-- The invariant holds of a process that still runs. -/
def TasksKept (cfg : Membership) (p : ℕ) (P : NetProcess) : Prop :=
  P.status = .running → TaskInv cfg p P

section TaskStep

variable {cfg : Membership} {W : ℕ → NetData} {p : ℕ} {P : NetProcess}
variable (h : NetInv cfg (withData W p P.data)) (hp : cfg.IsPid p) (hP : ThreadInv cfg p P)
  (hT : TaskInv cfg p P)
include h hp hP hT

omit h hp hP in
/-- A step of the main thread that is not in `send_beb` before or after it. -/
theorem taskFrame_main {d' : NetData} {main : NetMain} (hdata : LeavesTasks P.data d')
    (hsentBeb : d'.sentBeb = P.data.sentBeb) (hbefore : ∀ id q, ¬ P.main.handing id q)
    (hafter : ∀ id q, ¬ main.handing id q) :
    TaskInv cfg p ({ P with data := d' }.setMain main) :=
  hT.frame hdata rfl hsentBeb (fun id q hq => absurd hq (hafter id q)) (fun _ _ => id)
    fun id q _ hq => .inr (hq.resolve_left (hbefore id q))

omit h hp hP in
/-- The same for the receiver thread. -/
theorem taskFrame_receiver {d' : NetData} {receiver : NetReceiver} (hdata : LeavesTasks P.data d')
    (hsentBeb : d'.sentBeb = P.data.sentBeb)
    (hbefore : ∀ id q, cfg.IsPid q → ¬ P.receiver.handing id q)
    (hafter : ∀ id q, ¬ receiver.handing id q) :
    TaskInv cfg p ({ P with data := d' }.setReceiver receiver) :=
  hT.frame hdata rfl hsentBeb (fun _ _ => id) (fun id q hq => absurd hq (hafter id q))
    fun id q hpid hq => .inl (hq.resolve_right (hbefore id q hpid))

omit h hp hP in
theorem taskStep_copy {i : ℕ} (hmain : P.main = .next i) : TasksKept cfg p (P.copy i) := by
  have hbefore : ∀ id q, ¬ P.main.handing id q := by
    rw [hmain]
    exact fun _ _ => id
  refine NetProcess.settle_of_meets ?_ nofun
  unfold onLcb
  rw [Call.on_apply]
  rcases nextLcbMsg_cases i P.data.lcb with hcopy | ⟨msg, -, hcopy⟩ <;> rw [hcopy]
  · trivial
  · exact fun _ => taskFrame_main hT ⟨rfl, rfl, fun _ => id⟩ rfl hbefore fun _ _ => id

theorem taskStep_broadcast {i : ℕ} {msg : LcbMsg} (machine : Machine)
    (hmain : P.main = .copied i msg) : TasksKept cfg p (P.broadcast machine i msg) := by
  have hbefore : ∀ id q, ¬ P.main.handing id q := by
    rw [hmain]
    exact fun _ _ => id
  have hplace := hP.main
  rw [hmain] at hplace
  obtain ⟨⟨hi, hlength, hid⟩, -⟩ := hplace
  have hdata := h.dataSelf hp
  have hfresh := hdata.not_mem_sentBeb (h.fresh hp hi hlength)
  refine NetProcess.settle_of_meets ((sendUrb_meets machine hdata.urbTable_pos hdata.urbTable_lt i
    msg (s := seenIdOf cfg.numProc i p) (by rw [hdata.numProc, hdata.selfPid]; exact u32_of_lt hid)
    rfl).mono ?_ (fun _ _ _ => nofun) ?_) nofun
  · rintro newMsg _ ⟨rfl, -, -, -, table, lcb, -, -, rfl⟩
    intro _
    refine hT.hand ⟨rfl, rfl, fun _ => id⟩ rfl rfl hfresh ?_ fun id q => ?_
    · -- the receiver is handing out another message, one that was seen before
      intro id q r hq hr
      have hid : seenIdOf cfg.numProc i p = id := hq.1
      rw [hid] at hfresh
      exact hfresh (mem_sentBeb_of_receiver hP.receiver hr)
    · constructor
      · rintro (hq | hq)
        · exact .inr hq
        · exact .inl (.inr hq)
      · rintro ((hq | hq) | hq)
        · exact absurd hq (hbefore id q)
        · exact .inr hq
        · exact .inl hq
  · rintro _ (⟨-, rfl⟩ | ⟨-, -, -, table, -, rfl⟩)
    · exact fun _ => taskFrame_main hT ⟨rfl, rfl, fun _ => id⟩ rfl hbefore fun _ _ => id
    · exact fun _ => taskFrame_main hT ⟨rfl, rfl, fun _ => id⟩ rfl hbefore fun _ _ => id

omit h hp hP in
theorem taskStep_receive (machine : Machine) (sendto : Bool) (msg : Msg)
    (hreceiver : P.receiver = .idle) : TasksKept cfg p (P.receive machine sendto msg) := by
  have hbefore : ∀ id q, cfg.IsPid q → ¬ P.receiver.handing id q := by
    rw [hreceiver]
    exact fun _ _ _ => id
  refine NetProcess.settle_of_meets ((deliverPlStart_tasks machine sendto msg P.data).mono ?_
    (fun _ _ _ => nofun) ?_) nofun
  · rintro real d' ⟨hleaves, hsentBeb⟩
    intro _
    refine taskFrame_receiver hT hleaves hsentBeb hbefore ?_
    cases real with
    | false => exact fun _ _ => id
    | true => exact fun _ _ => id
  · rintro d' ⟨hleaves, hsentBeb⟩
    exact fun _ => taskFrame_receiver hT hleaves hsentBeb hbefore fun _ _ => id

theorem taskStep_deliverBeb {msg : Msg} (hreceiver : P.receiver = .delivering msg)
    (machine : Machine) : TasksKept cfg p (P.deliverBeb machine msg) := by
  have hbefore : ∀ id q, ¬ P.receiver.handing id q := by
    rw [hreceiver]
    exact fun _ _ => id
  have hdata := h.dataSelf hp
  refine NetProcess.settle_of_meets ((deliverPlEnd_tasks hdata.urbTable_pos hdata.urbTable_lt
    machine msg).mono ?_ (fun _ _ _ => nofun) ?_) nofun
  · rintro newMsg d' ⟨hleaves, hsentBeb, hnew⟩
    intro _
    cases newMsg with
    | none =>
        exact taskFrame_receiver hT hleaves (hsentBeb.trans (List.append_nil _))
          (fun id q _ => hbefore id q) fun _ _ => id
    | some newMsg =>
        have hfresh := hdata.not_mem_sentBeb (hnew newMsg rfl)
        refine hT.hand hleaves rfl hsentBeb hfresh ?_ fun id q => ?_
        · intro id q r hq hr
          exact hfresh (hr.1 ▸ mem_sentBeb_of_main hP.main hq)
        · constructor
          · rintro (hq | hq)
            · exact .inl (.inl hq)
            · exact .inr hq
          · rintro ((hq | hq) | hq)
            · exact .inl hq
            · exact absurd hq (hbefore id q)
            · exact .inr hq
  · rintro d' ⟨hleaves, hsentBeb⟩
    exact fun _ => taskFrame_receiver hT hleaves hsentBeb (fun id q _ => hbefore id q) fun _ _ => id

omit h hp hP in
/-- A round of `send_beb`, in the thread that `advance` moves on to the next peer. -/
theorem taskStep_beb {msg : UrbMsg} {k : ℕ} (hmsg : msg ∈ P.data.sentBeb)
    (hhands : P.handing msg.seenId k) {advance : NetProcess → NetProcess}
    (hdata : ∀ d', (advance { P with data := d' }).data = d')
    (hsender : ∀ d', (advance { P with data := d' }).sender = P.sender)
    (hapart : ∀ d',
      Apart (advance { P with data := d' }).main (advance { P with data := d' }).receiver)
    (hhanding : ∀ d' t q, (advance { P with data := d' }).handing t q ↔
      P.handing t q ∧ ¬ (t = msg.seenId ∧ q = k)) (hself : P.data.selfPid = p)
    (hqueue : P.data.taskQ.WellFormed) (stuck : NetProcess → NetProcess) :
    TasksKept cfg p (P.settle (sendBebBody msg k P.data) (fun _ => advance) stuck) := by
  refine NetProcess.settle_of_meets ((sendBebBody_meets hqueue msg k).mono ?_
    (fun _ _ => False.elim) fun _ => False.elim) nofun
  rintro _ d' (⟨hk, rfl⟩ | ⟨hk, queue, hwf, hcontents, rfl⟩)
  · intro _
    have hkp : k = p := hk.trans hself
    have hskips : ∀ t q, (advance { P with data := P.data }).handing t q ↔
        P.handing t q ∧ ¬ (t = msg.seenId ∧ q = p) := by
      intro t q
      rw [hhanding, hkp]
    exact hT.skip (hdata _) (hsender _) (hapart _) hskips
  · intro _
    have htask : ∀ id q, (bebTask P.data.numProc P.data.selfPid msg k).IsFor id q ↔
        id = msg.seenId ∧ q = k :=
      fun id q => ⟨fun h => ⟨h.1.symm, h.2.symm⟩, fun h => ⟨h.1.symm, h.2.symm⟩⟩
    refine hT.enqueue htask hhands hmsg ?_ ?_ ?_ ?_ (hsender _) (hapart _) (hhanding _)
    · rw [hdata]
      exact hcontents
    · rw [hdata]
    · rw [hdata]
    · rw [hdata]

theorem taskStep_bebMain {i k : ℕ} {msg : UrbMsg} (hmain : P.main = .beb i msg k) :
    TasksKept cfg p (P.bebMain i msg k) := by
  have hdata := h.dataSelf hp
  have hplace := hP.main
  rw [hmain] at hplace
  obtain ⟨-, hmsg, -⟩ := hplace
  have hhands : P.main.handing msg.seenId k := by
    rw [hmain]
    exact ⟨rfl, le_rfl⟩
  refine taskStep_beb hT hmsg (.inl hhands) (fun _ => rfl) (fun _ => rfl) (fun d' => ?_)
    (fun d' t q => ?_) hdata.selfPid hdata.queue _
  · intro id q r hq hr
    refine hT.apart id q r ?_ hr
    rw [hmain]
    exact ⟨hq.1, Nat.le_of_succ_le hq.2⟩
  · constructor
    · rintro (⟨hid, hq⟩ | hq)
      · refine ⟨.inl ?_, fun heq => ?_⟩
        · rw [hmain]
          exact ⟨hid, Nat.le_of_succ_le hq⟩
        · omega
      · refine ⟨.inr hq, fun heq => ?_⟩
        rw [heq.1] at hq
        exact hT.apart _ _ _ hhands hq
    · rintro ⟨hq | hq, hnot⟩
      · rw [hmain] at hq
        refine .inl ⟨hq.1, ?_⟩
        have hne : q ≠ k := fun heq => hnot ⟨hq.1.symm, heq⟩
        have hle : k ≤ q := hq.2
        omega
      · exact .inr hq

theorem taskStep_bebReceiver {k : ℕ} {msg newMsg : UrbMsg}
    (hreceiver : P.receiver = .relay msg newMsg k) :
    TasksKept cfg p (P.bebReceiver msg newMsg k) := by
  have hdata := h.dataSelf hp
  have hplace := hP.receiver
  rw [hreceiver] at hplace
  have hhands : P.receiver.handing newMsg.seenId k := by
    rw [hreceiver]
    exact ⟨rfl, le_rfl⟩
  refine taskStep_beb hT hplace.1 (.inr hhands) (fun _ => rfl) (fun _ => rfl) (fun d' => ?_)
    (fun d' t q => ?_) hdata.selfPid hdata.queue _
  · intro id q r hq hr
    refine hT.apart id q r hq ?_
    rw [hreceiver]
    exact ⟨hr.1, Nat.le_of_succ_le hr.2⟩
  · constructor
    · rintro (hq | ⟨hid, hq⟩)
      · refine ⟨.inl hq, fun heq => ?_⟩
        rw [heq.1] at hq
        exact hT.apart _ _ _ hq hhands
      · refine ⟨.inr ?_, fun heq => ?_⟩
        · rw [hreceiver]
          exact ⟨hid, Nat.le_of_succ_le hq⟩
        · omega
    · rintro ⟨hq | hq, hnot⟩
      · exact .inl hq
      · rw [hreceiver] at hq
        refine .inr ⟨hq.1, ?_⟩
        have hne : q ≠ k := fun heq => hnot ⟨hq.1.symm, heq⟩
        have hle : k ≤ q := hq.2
        omega

omit hP in
theorem taskStep_next {i k : ℕ} {msg : UrbMsg} (hmain : P.main = .beb i msg k)
    (hk : P.data.numProc < k) : TasksKept cfg p (P.setMain (.next (i + 1))) := by
  intro _
  refine hT.frame (.refl _) rfl rfl (fun _ _ => False.elim) (fun _ _ => id) fun id q hpid hq => ?_
  refine .inr (hq.resolve_left fun hq => ?_)
  rw [hmain] at hq
  have hle : k ≤ q := hq.2
  have hbound := hpid.2
  rw [(h.dataSelf hp).numProc] at hk
  omega

omit hP in
theorem taskStep_finish {k : ℕ} {msg newMsg : UrbMsg} (machine : Machine)
    (hreceiver : P.receiver = .relay msg newMsg k) (hk : P.data.numProc < k) :
    TasksKept cfg p (P.finish machine msg) := by
  have hdata := h.dataSelf hp
  have hbefore : ∀ id q, cfg.IsPid q → ¬ P.receiver.handing id q := by
    intro id q hpid hq
    rw [hreceiver] at hq
    have hle : k ≤ q := hq.2
    have hbound := hpid.2
    rw [hdata.numProc] at hk
    omega
  refine NetProcess.settle_of_meets ((deliverUrbEnd_tasks hdata.urbTable_pos hdata.urbTable_lt
    machine msg).mono ?_ (fun _ _ _ => nofun) ?_) nofun
  · rintro _ d' ⟨hleaves, hsentBeb⟩
    exact fun _ => taskFrame_receiver hT hleaves hsentBeb hbefore fun _ _ => id
  · rintro d' ⟨hleaves, hsentBeb⟩
    exact fun _ => taskFrame_receiver hT hleaves hsentBeb hbefore fun _ _ => id

omit h hp hP in
/-- A task goes from the queue to a thread, or back. -/
theorem taskInv_setSender {j : ℕ} (hj : j < numSenderThreads) {d' : NetData} {place : NetSender}
    (henqueued : d'.enqueued = P.data.enqueued) (hacks : d'.plAcks = P.data.plAcks)
    (hsentBeb : d'.sentBeb = P.data.sentBeb)
    (hcount : ∀ id q, countFor d'.taskQ.contents id q + (if place.holds id q then 1 else 0) =
      countFor P.data.taskQ.contents id q + if (P.sender j).holds id q then 1 else 0) :
    TaskInv cfg p ({ P with data := d' }.setSender j place) := by
  have htasks : ∀ id q, ({ P with data := d' }.setSender j place).tasksFor id q =
      P.tasksFor id q := by
    intro id q
    have hheld := heldFor_update P.sender hj place id q
    have hsum := hcount id q
    show countFor d'.taskQ.contents id q + heldFor (Function.update P.sender j place) id q =
      countFor P.data.taskQ.contents id q + heldFor P.sender id q
    omega
  exact hT.move henqueued hacks hsentBeb rfl rfl (fun id q => (htasks id q).le)
    fun id q _ => htasks id q

omit hP in
theorem taskStep_dequeue {j : ℕ} (hj : j < numSenderThreads) (hsender : P.sender j = .waiting) :
    TasksKept cfg p (P.dequeue j) := by
  refine NetProcess.settle_of_meets ((onTaskQ_dequeue_meets (h.dataSelf hp).queue).mono ?_
    (fun _ _ => False.elim) fun _ => False.elim) nofun
  rintro (_ | task) d' hresult
  · obtain rfl := hresult
    exact fun _ => hT
  · obtain ⟨queue, -, hcontents, rfl⟩ := hresult
    intro _
    refine taskInv_setSender hT hj rfl rfl rfl fun id q => ?_
    rw [hsender, hcontents, countFor_cons]
    simp [NetSender.holds, NetSender.task]

theorem taskStep_test {j i : ℕ} {task : QueueTask} (hj : j < numSenderThreads)
    (hsender : P.sender j = .testing task i) : TasksKept cfg p (P.test j task i) := by
  intro _
  unfold NetProcess.test
  split
  · refine taskInv_setSender hT hj rfl rfl rfl fun id q => ?_
    rw [hsender]
    rfl
  · rename_i hack
    -- the task is dropped, and its acknowledgement is recorded
    have htask := (h.dataSelf hp).enqueued task (hP.sender j task (by rw [hsender]; rfl))
    have hackid : ∀ {id q}, task.IsFor id q →
        isAck P.data (u32 (cfg.numProc * id + q - 1)) ≠ 0 := by
      rintro id q ⟨rfl, rfl⟩
      rwa [← htask.ackid]
    have hheld : ∀ id q, heldFor (Function.update P.sender j .waiting) id q +
        (if task.IsFor id q then 1 else 0) = heldFor P.sender id q := by
      intro id q
      have hupdate := heldFor_update P.sender hj .waiting id q
      rw [hsender] at hupdate
      simpa [NetSender.holds, NetSender.task] using hupdate
    refine hT.move rfl rfl rfl rfl rfl (fun id q => ?_) fun id q hzero => ?_
    · have hsum := hheld id q
      show countFor P.data.taskQ.contents id q +
          heldFor (Function.update P.sender j .waiting) id q ≤
        countFor P.data.taskQ.contents id q + heldFor P.sender id q
      omega
    · have hsum := hheld id q
      rw [if_neg fun hfor => hackid hfor hzero] at hsum
      show countFor P.data.taskQ.contents id q +
          heldFor (Function.update P.sender j .waiting) id q =
        countFor P.data.taskQ.contents id q + heldFor P.sender id q
      omega

theorem taskStep_attempt {j i : ℕ} {task : QueueTask} (hj : j < numSenderThreads)
    (hsender : P.sender j = .attempting task i) :
    TasksKept cfg p (P.attempt true j task i) := by
  have hdata := h.dataSelf hp
  have htask := hdata.enqueued task (hP.sender j task (by rw [hsender]; rfl))
  have hmeets := sendPlBody_meets hdata.queue true task i
  unfold NetProcess.attempt
  cases hcase : sendPlBody true task i P.data with
  | ok round d' =>
      rw [hcase] at hmeets
      intro _
      cases round with
      | none =>
          obtain ⟨queue, -, hcontents, rfl⟩ := hmeets
          refine taskInv_setSender hT hj rfl rfl rfl fun id q => ?_
          rw [hsender, hcontents, countFor_concat]
          simp [NetSender.holds, NetSender.task]
      | some i' =>
          obtain rfl := hmeets
          refine taskInv_setSender hT hj rfl rfl rfl fun id q => ?_
          rw [hsender]
          rfl
  | error code d' =>
      rw [hcase] at hmeets
      obtain ⟨hfails | hpid, -⟩ := hmeets
      · cases hfails
      · have hbound := htask.isPid.2
        rw [hdata.numProc] at hpid
        omega
  | running d' =>
      rw [hcase] at hmeets
      exact hmeets.elim
  | undefined => exact nofun

theorem taskStep {P' : NetProcess} {action : NetAction} (hstep : NetStep P action P')
    (hsends : ∀ j, action ≠ .attempt false j) : TasksKept cfg p P' := by
  cases hstep with
  | copy hmain => exact taskStep_copy hT hmain
  | broadcast machine hmain => exact taskStep_broadcast h hp hP hT machine hmain
  | bebMain hmain => exact taskStep_bebMain h hp hP hT hmain
  | next hmain hk => exact taskStep_next h hp hT hmain hk
  | receive machine sendto msg hreceiver =>
      exact taskStep_receive hT machine sendto msg hreceiver
  | deliverBeb machine hreceiver => exact taskStep_deliverBeb h hp hP hT hreceiver machine
  | bebReceiver hreceiver => exact taskStep_bebReceiver h hp hP hT hreceiver
  | finish machine hreceiver hk => exact taskStep_finish h hp hT machine hreceiver hk
  | dequeue hj hsender => exact taskStep_dequeue h hp hT hj hsender
  | test hj hsender => exact taskStep_test h hp hP hT hj hsender
  | attempt sendto hj hsender =>
      cases sendto with
      | true => exact taskStep_attempt h hp hP hT hj hsender
      | false => exact absurd rfl (hsends _)
  | crash => exact nofun

end TaskStep

/-! ## The run -/

/-- `sendto` takes the datagram, if this is the step of a sender thread. -/
def SendsTask (action : NetAction) : Prop := ∀ j, action ≠ .attempt false j

theorem taskInv_initial (cfg : Membership) (numMsg p : ℕ) :
    TaskInv cfg p (NetProcess.initial cfg numMsg p) := by
  have hnone : ∀ id q, (NetProcess.initial cfg numMsg p).tasksFor id q = 0 := by
    intro id q
    have hheld : heldFor (fun _ => .waiting) id q = 0 := by
      rw [heldFor, Finset.card_eq_zero, Finset.filter_eq_empty_iff]
      exact fun _ _ => Bool.false_ne_true
    show countFor (initQueue queueLen : MsgQueue QueueTask).contents id q +
      heldFor (fun _ => .waiting) id q = 0
    rw [hheld, MsgQueue.contents_initQueue]
    rfl
  exact {
    apart := fun _ _ _ => False.elim
    handed := fun _ hmem => absurd hmem List.not_mem_nil
    ahead := fun _ _ hq => (hq.elim id id).elim
    fresh := fun _ _ _ => rfl
    le := fun id q => (hnone id q).le
    kept := fun id q _ => hnone id q }

section Run

variable {cfg : Membership} {numMsg : ℕ → ℕ} {s : NetSystem}

theorem tasksKept_of_reachable (hs : (netSystem cfg numMsg SendsTask).Reachable s) :
    ∀ p, cfg.IsPid p → TasksKept cfg p (s p) := by
  refine hs.invariant (I := fun s => ∀ p, cfg.IsPid p → TasksKept cfg p (s p)) ?_ ?_
  · rintro _ rfl p -
    exact fun _ => taskInv_initial cfg (numMsg p) p
  · rintro s t hreach hkept ⟨p, action, hsends, hstep⟩ q hq
    by_cases hqp : q = p
    · subst hqp
      have hinv := systemInv_of_reachable hreach
      have hself : withData s.world q (s q).data = s.world := withData_eq_self s.world q
      exact taskStep (W := s.world) (hself.symm ▸ hinv.net) hq (hinv.threads q hq hstep.running)
        (hkept q hq hstep.running) hstep.step hsends
    · rw [hstep.frame q hqp]
      exact hkept q hq

/-- While an acknowledgement is missing, exactly one task for it exists, in the queue or
in a live sender thread. -/
theorem taskKept (hs : (netSystem cfg numMsg SendsTask).Reachable s) {p q : ℕ} (hp : cfg.IsPid p)
    (hrunning : (s p).status = .running) {msg : UrbMsg} (hmsg : msg ∈ (s p).data.sentBeb)
    (hq : cfg.IsPid q) (hne : q ≠ p) (hhanded : ¬ (s p).handing msg.seenId q)
    (hack : isAck (s p).data (u32 (cfg.numProc * msg.seenId + q - 1)) = 0) :
    (s p).tasksFor msg.seenId q = 1 := by
  have hinv := tasksKept_of_reachable hs p hp hrunning
  rw [hinv.kept _ _ hack, hinv.handed msg hmsg q hq hne hhanded]

end Run

/-! ## One task -/

/-- Process `1` hands its message to `send_beb`, and a sender thread takes the task and
comes to `sendto`, which takes the datagram or does not. -/
def oneTask (sendto : Bool) : NetSystem :=
  play fifoMembership (fun _ => 1) shortMachine
    [(1, .copy), (1, .broadcast), (1, .bebMain), (1, .bebMain), (1, .next), (1, .dequeue 0),
      (1, .test 0), (1, .attempt sendto 0)]

/-- After a `sendto` that takes the datagram the thread still has its task. -/
theorem taskKept_oneTask : (oneTask true 1).tasksFor 0 2 = 1 := by
  have hreach : (netSystem fifoMembership (fun _ => 1) SendsTask).Reachable (oneTask true) := by
    refine reachable_play fun move hmem j => ?_
    fin_cases hmem <;> exact nofun
  have hmsg : ⟨firstMsg, 0, 0⟩ ∈ (oneTask true 1).data.sentBeb := by decide +kernel
  have hkept := taskKept (p := 1) (q := 2) hreach (by decide) (by decide +kernel) hmsg (by decide)
    (by decide) (by decide +kernel) (by decide +kernel)
  exact hkept

/-- After one that does not, the thread is gone, and the task with it. -/
theorem taskLost :
    (netSystem fifoMembership (fun _ => 1) fun _ => True).Reachable (oneTask false) ∧
      (oneTask false 1).status = .running ∧
      ⟨firstMsg, 0, 0⟩ ∈ (oneTask false 1).data.sentBeb ∧ ¬ (oneTask false 1).handing 0 2 ∧
      isAck (oneTask false 1).data (u32 (fifoMembership.numProc * 0 + 2 - 1)) = 0 ∧
      (oneTask false 1).tasksFor 0 2 = 0 :=
  ⟨reachable_play fun _ _ => trivial, by decide +kernel, by decide +kernel, by decide +kernel,
    by decide +kernel, by decide +kernel⟩

end CausalBroadcast
