import CausalBroadcast.Log.Buffer
import CausalBroadcast.Model.Lifecycle

/-!
# Which threads exist, and who holds the log

`LifeInv` says of every reachable state how far the start has come (`CreatedBy`), who holds
`loglok` (`HeldByOne`), what `stop` has done by the place where it stands (`StopInv`), and
when the data has been freed.

A process that has got through its start does nothing that has no meaning
(`created_lt_of_undefined`).  Before, a signal makes `stop` use threads that are not there,
and `free_data` after a failure of `init_senders` frees what the receiver thread uses.
-/

namespace CausalBroadcast

/-! ## The mutex of the log -/

/-- Between `lock` and `unlock` in `write_log`, or behind `lock` for ever. -/
def MainPlace.inLog : MainPlace → Bool
  | writing _ => true
  | abandoned => true
  | _ => false

def ReceiverPlace.inLog : ReceiverPlace → Bool
  | writing _ => true
  | abandoned => true
  | _ => false

/-- Between `lock` and `unlock` in `terminate_receiver`. -/
def StopPlace.inLog : StopPlace → Bool
  | cancelReceiver => true
  | joinReceiver => true
  | unlocking => true
  | _ => false

def StopHandler.inLog : StopHandler → Bool
  | armed => false
  | running _ place => place.inLog
  | lost place => place.inLog

/-- A mutex that is held by at most one of three. -/
def HeldByOne (held first second third : Bool) : Prop :=
  held = (first || second || third) ∧ (first && second) = false ∧ (first && third) = false ∧
    (second && third) = false

instance (held first second third : Bool) : Decidable (HeldByOne held first second third) :=
  inferInstanceAs (Decidable (_ ∧ _))

namespace HeldByOne

theorem free : ∀ {first second third : Bool}, HeldByOne false first second third →
    first = false ∧ second = false ∧ third = false := by decide

theorem lock : ∀ {first second third : Bool}, HeldByOne false first second third →
    HeldByOne true true second third ∧ HeldByOne true first true third ∧
      HeldByOne true first second true := by decide

theorem unlock : ∀ {held first second third : Bool}, HeldByOne held first second third →
    (first = true → HeldByOne false false second third) ∧
    (second = true → HeldByOne false first false third) ∧
    (third = true → HeldByOne false first second false) := by decide

theorem first : ∀ {held first second third : Bool}, HeldByOne held first second third →
    first = true → held = true ∧ second = false ∧ third = false := by decide

theorem second : ∀ {held first second third : Bool}, HeldByOne held first second third →
    second = true → held = true ∧ first = false ∧ third = false := by decide

theorem third : ∀ {held first second third : Bool}, HeldByOne held first second third →
    third = true → held = true ∧ first = false ∧ second = false := by decide

end HeldByOne

namespace DaProc

/-! ## The start -/

/-- How many sender threads there are. -/
def CreatedBy (s : DaProc) : MainPlace → Prop
  | .initialising => s.created = 0 ∧ s.receiver = .absent
  | .sockets => s.created = 0 ∧ s.receiver ≠ .absent
  | .creating i => s.created = i ∧ i ≤ numSenderThreads ∧ s.receiver ≠ .absent
  | .freeing => s.created < numSenderThreads ∧ (s.created ≠ 0 → s.receiver ≠ .absent)
  | .returning => s.created ≤ numSenderThreads ∧ (s.created ≠ 0 → s.receiver ≠ .absent)
  | _ => s.created = numSenderThreads ∧ s.receiver ≠ .absent

/-! ## The end -/

/-- All sender threads have ended, and the handler is on none of them. -/
structure SendersEnded (s : DaProc) (thread : ThreadId) : Prop where
  created : s.created = numSenderThreads
  thread : ∀ i, thread ≠ .sender i
  ended : ∀ i, i < numSenderThreads → s.sender i = .ended

/-- What `stop` has done when it stands at a place. -/
def StopInv (s : DaProc) (thread : ThreadId) : StopPlace → Prop
  | .cancelling i => i ≤ s.created ∧ (∀ j, thread = .sender j → i ≤ j ∧ j < s.created) ∧
      ∀ j, j < i → s.senderCancelled j = true
  | .joining i => s.created = numSenderThreads ∧ (∀ j, thread ≠ .sender j) ∧
      i ≤ numSenderThreads ∧ (∀ j, j < numSenderThreads → s.senderCancelled j = true) ∧
      ∀ j, j < i → s.sender j = .ended
  | .locking => s.SendersEnded thread
  | .cancelReceiver => s.SendersEnded thread
  | .joinReceiver => s.SendersEnded thread ∧ thread = .main ∧ s.receiverCancelled = true
  | _ => s.SendersEnded thread ∧ thread = .main ∧ s.receiver = .ended ∧ s.main.inLog = false

/-- The invariant of a process. -/
structure LifeInv (s : DaProc) : Prop where
  start : s.CreatedBy s.main
  senders : ∀ i, s.sender i = .absent ↔ s.created ≤ i
  wellFormed : s.log.data.WellFormed
  size : s.log.data.bufMaxSize = msgBufMaxSize
  holds : HeldByOne s.log.held s.main.inLog s.receiver.inLog s.handler.inLog
  writing : ∀ line, s.main = .writing line ∨ s.receiver = .writing line →
    line.text.length ≤ msgBufMaxSize
  stop : ∀ thread place, s.handler = .running thread place → s.StopInv thread place
  cancelled : s.receiverCancelled = true →
    s.handler = .running .main .joinReceiver ∨ s.receiver = .ended
  freed : s.freed = true → (s.main = .returning ∧ s.created < numSenderThreads) ∨
    (s.handler = .running .main .exiting ∧ (∀ i, s.sender i ≠ .running) ∧ s.receiver = .ended)

/-! ## One lemma for each kind of step -/

section Step

variable {accepts : ℕ → Prop} {s t : DaProc}

theorem LifeInv.created_le (h : s.LifeInv) : s.created ≤ numSenderThreads := by
  have hmain := h.start
  cases hcase : s.main with
  | initialising =>
      rw [hcase] at hmain
      exact hmain.1 ▸ Nat.zero_le _
  | sockets =>
      rw [hcase] at hmain
      exact hmain.1 ▸ Nat.zero_le _
  | creating i =>
      rw [hcase] at hmain
      exact hmain.1 ▸ hmain.2.1
  | freeing =>
      rw [hcase] at hmain
      exact hmain.1.le
  | returning =>
      rw [hcase] at hmain
      exact hmain.1
  | waiting => rw [hcase] at hmain; exact hmain.1.le
  | sending => rw [hcase] at hmain; exact hmain.1.le
  | writing line => rw [hcase] at hmain; exact hmain.1.le
  | abandoned => rw [hcase] at hmain; exact hmain.1.le
  | sleeping => rw [hcase] at hmain; exact hmain.1.le

theorem SendersEnded.keep {thread : ThreadId} (h : s.SendersEnded thread)
    (hcreated : t.created = s.created)
    (hsender : ∀ i, s.sender i = .ended → t.sender i = .ended) : t.SendersEnded thread :=
  ⟨hcreated.trans h.created, h.thread, fun i hi => hsender i (h.ended i hi)⟩

/-- What `stop` has done stays done. -/
theorem StopInv.keep {thread : ThreadId} {place : StopPlace} (h : s.StopInv thread place)
    (hcreated : t.created = s.created) (hsender : ∀ i, s.sender i = .ended → t.sender i = .ended)
    (hcancelled : t.senderCancelled = s.senderCancelled)
    (hreceiver : s.receiver = .ended → t.receiver = .ended)
    (hreceiverCancelled : t.receiverCancelled = s.receiverCancelled)
    (hmain : thread = .main → t.main = s.main) : t.StopInv thread place := by
  have hlast : ∀ {P : Prop}, (s.SendersEnded thread ∧ thread = .main ∧ s.receiver = .ended ∧
      s.main.inLog = false) → (t.SendersEnded thread ∧ thread = .main ∧ t.receiver = .ended ∧
      t.main.inLog = false → P) → P := by
    intro P h hP
    obtain ⟨hended, hthread, hdone, hlog⟩ := h
    exact hP ⟨hended.keep hcreated hsender, hthread, hreceiver hdone, hmain hthread ▸ hlog⟩
  cases place with
  | cancelling i =>
      obtain ⟨hle, hself, hall⟩ := h
      exact ⟨hcreated ▸ hle, fun j hj => hcreated ▸ hself j hj, fun j hj => hcancelled ▸ hall j hj⟩
  | joining i =>
      obtain ⟨hall, hthread, hle, hcancel, hended⟩ := h
      exact ⟨hcreated.trans hall, hthread, hle, fun j hj => hcancelled ▸ hcancel j hj,
        fun j hj => hsender j (hended j hj)⟩
  | locking => exact SendersEnded.keep h hcreated hsender
  | cancelReceiver => exact SendersEnded.keep h hcreated hsender
  | joinReceiver =>
      exact ⟨h.1.keep hcreated hsender, h.2.1, hreceiverCancelled.trans h.2.2⟩
  | unlocking => exact hlast h id
  | flushing => exact hlast h id
  | freeing => exact hlast h id
  | exiting => exact hlast h id

theorem LifeInv.withStatus (h : s.LifeInv) (status : ProcessStatus) :
    LifeInv { s with status := status } :=
  { h with
    start := h.start
    senders := h.senders
    holds := h.holds
    stop := fun thread place hhandler => (h.stop thread place hhandler).keep rfl
      (fun _ hi => hi) rfl id rfl fun _ => rfl }

/-- The main thread does not run the handler when it takes a step. -/
theorem LifeInv.stop_of_main (h : s.LifeInv) (hfree : ¬ s.Interrupted .main)
    (hhandler : t.handler = s.handler) (hcreated : t.created = s.created)
    (hsender : t.sender = s.sender) (hcancelled : t.senderCancelled = s.senderCancelled)
    (hreceiver : s.receiver = .ended → t.receiver = .ended)
    (hreceiverCancelled : t.receiverCancelled = s.receiverCancelled) :
    ∀ thread place, t.handler = .running thread place → t.StopInv thread place := by
  intro thread place hrunning
  rw [hhandler] at hrunning
  refine (h.stop thread place hrunning).keep hcreated (fun i hi => hsender ▸ hi) hcancelled
    hreceiver hreceiverCancelled fun hthread => ?_
  exact absurd ⟨place, hthread ▸ hrunning⟩ hfree

/-- Once the data is freed by `stop`, the main thread runs the handler. -/
theorem LifeInv.freed_of_main (h : s.LifeInv) (hfree : ¬ s.Interrupted .main)
    (hfreed : s.freed = true) : s.main = .returning ∧ s.created < numSenderThreads := by
  rcases h.freed hfreed with hmain | ⟨hhandler, -⟩
  · exact hmain
  · exact absurd ⟨_, hhandler⟩ hfree

theorem LifeInv.cancelled_of_main (h : s.LifeInv) (hfree : ¬ s.Interrupted .main)
    (hcancelled : s.receiverCancelled = true) : s.receiver = .ended := by
  rcases h.cancelled hcancelled with hhandler | hended
  · exact absurd ⟨_, hhandler⟩ hfree
  · exact hended

/-- The main thread goes on, outside of `write_log`. -/
theorem LifeInv.moveMain (h : s.LifeInv) (hfree : ¬ s.Interrupted .main) {place : MainPlace}
    (hcreated : s.CreatedBy place) (hold : s.main.inLog = false) (hnew : place.inLog = false)
    (hgoes : s.main ≠ .returning) : LifeInv { s with main := place } :=
  { h with
    start := hcreated
    senders := h.senders
    holds := by
      have hholds := h.holds
      rw [hold] at hholds
      rwa [hnew]
    writing := fun line hline => by
      rcases hline with hline | hline
      · have hwriting : place = .writing line := hline
        rw [hwriting] at hnew
        cases hnew
      · exact h.writing line (.inr hline)
    stop := h.stop_of_main hfree rfl rfl rfl rfl id rfl
    cancelled := h.cancelled
    freed := fun hfreed => absurd (h.freed_of_main hfree hfreed).1 hgoes }

/-- The result of `write_log` on a log that fits. -/
theorem LifeInv.logged (h : s.LifeInv) {line : LogLine}
    (hline : line.text.length ≤ msgBufMaxSize) {accepted : ℕ} {log : LogData}
    (hcall : (writeLog accepted line.text s.log.data).ReturnsIn log) :
    log.WellFormed ∧ log.bufMaxSize = msgBufMaxSize := by
  have hline : line.text.length ≤ s.log.data.bufMaxSize := h.size.symm ▸ hline
  exact ⟨wellFormed_of_writeLog h.wellFormed hline hcall,
    (bufMaxSize_of_writeLog h.wellFormed hline hcall).trans h.size⟩

theorem StopInv.cancelling_of_lt {thread : ThreadId} {place : StopPlace}
    (h : s.StopInv thread place) (hlt : s.created < numSenderThreads) :
    ∃ i, place = .cancelling i := by
  have hnot : ¬ s.SendersEnded thread := fun hended => absurd hended.created hlt.ne
  cases place with
  | cancelling i => exact ⟨i, rfl⟩
  | joining i => exact absurd h.1 hlt.ne
  | locking => exact absurd h hnot
  | cancelReceiver => exact absurd h hnot
  | joinReceiver => exact absurd h.1 hnot
  | unlocking => exact absurd h.1 hnot
  | flushing => exact absurd h.1 hnot
  | freeing => exact absurd h.1 hnot
  | exiting => exact absurd h.1 hnot

theorem length_le_of_fits {line : LogLine} (hfits : line.text.length + 1 ≤ logLineMaxLength) :
    line.text.length ≤ msgBufMaxSize := by
  have : line.text.length + 1 ≤ 8 := hfits
  show line.text.length ≤ 1024
  omega

theorem LifeInv.mainStep (h : s.LifeInv) (hfree : ¬ s.Interrupted .main)
    (hstep : MainStep accepts s t) : t.LifeInv := by
  have hstart := h.start
  have hholds := h.holds
  -- `free_data` is the last thing that `main` calls, so a main thread that goes on has its data.
  have hkept : ∀ {place : MainPlace}, s.main = place → place ≠ .returning → s.freed = true →
      False := by
    intro place hmain hne hfreed
    rw [← hmain] at hne
    exact hne (h.freed_of_main hfree hfreed).1
  have hline : ∀ {place : MainPlace} {line : LogLine},
      place = .writing line ∨ s.receiver = .writing line → place.inLog = false →
        line.text.length ≤ msgBufMaxSize := by
    intro place line hline hout
    rcases hline with rfl | hline
    · cases hout
    · exact h.writing line (.inr hline)
  cases hstep with
  | initFails hmain =>
      rw [hmain] at hstart
      refine h.moveMain hfree ⟨?_, fun hne => absurd hstart.1 hne⟩ (by rw [hmain]; rfl) rfl
        (by rw [hmain]; nofun)
      rw [hstart.1]
      decide
  | initReceiver hmain =>
      rw [hmain] at hstart hholds
      obtain ⟨hnone, habsent⟩ := hstart
      rw [habsent] at hholds
      refine { h with
        start := ⟨hnone, nofun⟩
        holds := hholds
        writing := fun line hline => by
          rcases hline with hline | hline <;> cases hline
        stop := h.stop_of_main hfree rfl rfl rfl rfl (fun hended => ?_) rfl
        cancelled := fun hcancelled => ?_
        freed := fun hfreed => (hkept hmain nofun hfreed).elim }
      · rw [habsent] at hended
        cases hended
      · have hended := h.cancelled_of_main hfree hcancelled
        rw [habsent] at hended
        cases hended
  | socketsFail hmain =>
      rw [hmain] at hstart
      refine h.moveMain hfree ⟨?_, fun _ => hstart.2⟩ (by rw [hmain]; rfl) rfl
        (by rw [hmain]; nofun)
      rw [hstart.1]
      decide
  | setupSockets hmain =>
      rw [hmain] at hstart
      exact h.moveMain hfree ⟨hstart.1, Nat.zero_le _, hstart.2⟩ (by rw [hmain]; rfl) rfl
        (by rw [hmain]; nofun)
  | createFails hmain hi =>
      rw [hmain] at hstart
      exact h.moveMain hfree ⟨hstart.1 ▸ hi, fun _ => hstart.2.2⟩ (by rw [hmain]; rfl) rfl
        (by rw [hmain]; nofun)
  | @create i hmain hi =>
      rw [hmain] at hstart hholds
      obtain ⟨hcreated, hle, hreceiver⟩ := hstart
      refine { h with
        start := ⟨rfl, hi, hreceiver⟩
        senders := fun j => ?_
        holds := hholds
        writing := fun line hwriting => hline hwriting rfl
        stop := fun thread place hhandler => ?_
        cancelled := h.cancelled
        freed := fun hfreed => (hkept hmain nofun hfreed).elim }
      · have hbefore := h.senders j
        rw [hcreated] at hbefore
        by_cases hj : j = i
        · subst hj
          show Function.update s.sender j .running j = _ ↔ j + 1 ≤ j
          rw [Function.update_self]
          exact iff_of_false nofun (by omega)
        · show Function.update s.sender i .running j = _ ↔ i + 1 ≤ j
          rw [Function.update_of_ne hj, hbefore]
          omega
      -- A handler on another thread is still in `terminate_senders`, before the thread that is
      -- created now.
      · have hstop := h.stop thread place hhandler
        obtain ⟨k, rfl⟩ := hstop.cancelling_of_lt (hcreated ▸ hi)
        obtain ⟨hk, hself, hcancelled⟩ := hstop
        rw [hcreated] at hk
        refine ⟨Nat.le_succ_of_le hk, fun j hj => ?_, hcancelled⟩
        obtain ⟨hkj, hlt⟩ := hself j hj
        rw [hcreated] at hlt
        exact ⟨hkj, Nat.lt_succ_of_lt hlt⟩
  | created hmain =>
      rw [hmain] at hstart
      exact h.moveMain hfree ⟨hstart.1, hstart.2.2⟩ (by rw [hmain]; rfl) rfl
        (by rw [hmain]; nofun)
  | freeData hmain =>
      rw [hmain] at hstart hholds
      exact { h with
        start := ⟨hstart.1.le, hstart.2⟩
        senders := h.senders
        holds := hholds
        writing := fun line hwriting => hline hwriting rfl
        stop := h.stop_of_main hfree rfl rfl rfl rfl id rfl
        cancelled := h.cancelled
        freed := fun _ => .inl ⟨rfl, hstart.1⟩ }
  | start hmain =>
      rw [hmain] at hstart
      exact h.moveMain hfree hstart (by rw [hmain]; rfl) rfl (by rw [hmain]; nofun)
  | @lock line log hmain hfits hlock =>
      obtain ⟨hheld, rfl⟩ := Guarded.lock_eq_ok hlock
      rw [hmain] at hstart
      rw [hheld] at hholds
      exact { h with
        start := hstart
        senders := h.senders
        wellFormed := h.wellFormed
        size := h.size
        holds := hholds.lock.1
        writing := fun other hwriting => by
          rcases hwriting with hwriting | hwriting
          · cases hwriting
            exact length_le_of_fits hfits
          · exact h.writing other (.inr hwriting)
        stop := h.stop_of_main hfree rfl rfl rfl rfl id rfl
        cancelled := h.cancelled
        freed := fun hfreed => (hkept hmain nofun hfreed).elim }
  | @unlock line accepted log hmain haccepts hcall =>
      rw [Locked.writeLog_eq_releasing] at hcall
      obtain ⟨data, hdata, rfl⟩ := Guarded.releasing_eq_ok hcall
      obtain ⟨hwf, hsize⟩ := h.logged (h.writing line (.inl hmain)) (.inl ⟨(), hdata⟩)
      rw [hmain] at hstart hholds
      exact { h with
        start := hstart
        senders := h.senders
        wellFormed := hwf
        size := hsize
        holds := hholds.unlock.1 rfl
        writing := fun other hwriting => hline hwriting rfl
        stop := h.stop_of_main hfree rfl rfl rfl rfl id rfl
        cancelled := h.cancelled
        freed := fun hfreed => (hkept hmain nofun hfreed).elim }
  -- The early return of `write_log` leaves the mutex locked, and the main thread inside of it.
  | @abandon line accepted code log hmain haccepts hcall =>
      rw [Locked.writeLog_eq_releasing] at hcall
      obtain ⟨data, hdata, rfl⟩ := Guarded.releasing_eq_error hcall
      obtain ⟨hwf, hsize⟩ := h.logged (h.writing line (.inl hmain)) (.inr ⟨code, hdata⟩)
      rw [hmain] at hstart hholds
      exact { h with
        start := hstart
        senders := h.senders
        wellFormed := hwf
        size := hsize
        holds := hholds
        writing := fun other hwriting => by
          rcases hwriting with hwriting | hwriting
          · cases hwriting
          · exact h.writing other (.inr hwriting)
        stop := h.stop_of_main hfree rfl rfl rfl rfl id rfl
        cancelled := h.cancelled
        freed := fun hfreed => (hkept hmain nofun hfreed).elim }
  | fails hmain =>
      rw [hmain] at hstart
      exact h.moveMain hfree ⟨hstart.1.le, fun _ => hstart.2⟩ (by rw [hmain]; rfl) rfl
        (by rw [hmain]; nofun)
  | allSent hmain =>
      rw [hmain] at hstart
      exact h.moveMain hfree hstart (by rw [hmain]; rfl) rfl (by rw [hmain]; nofun)
  | returns hmain => exact h.withStatus .failed

/-- The receiver thread goes on, or ends. -/
theorem LifeInv.moveReceiver (h : s.LifeInv) (hpresent : s.receiver ≠ .absent)
    (place : ReceiverPlace) (hplace : place ≠ .absent)
    (hgoes : s.receiver = .ended → place = .ended) (log : Guarded LogData)
    (hlog : log.data.WellFormed ∧ log.data.bufMaxSize = msgBufMaxSize)
    (hholds : HeldByOne log.held s.main.inLog place.inLog s.handler.inLog)
    (hwriting : ∀ line, place = .writing line → line.text.length ≤ msgBufMaxSize)
    (lines : List LogLine) :
    LifeInv { s with receiver := place, log := log, lines := lines } := by
  have hstart := h.start
  refine { h with
    start := ?_
    senders := h.senders
    wellFormed := hlog.1
    size := hlog.2
    holds := hholds
    writing := fun line hline => ?_
    stop := fun thread place hhandler => ?_
    cancelled := fun hcancelled => ?_
    freed := fun hfreed => ?_ }
  -- Only before `init_receiver` may the thread be absent, and there it cannot move.
  · show CreatedBy _ s.main
    cases hcase : s.main with
    | initialising =>
        rw [hcase] at hstart
        exact absurd hstart.2 hpresent
    | creating i =>
        rw [hcase] at hstart
        exact ⟨hstart.1, hstart.2.1, hplace⟩
    | freeing =>
        rw [hcase] at hstart
        exact ⟨hstart.1, fun _ => hplace⟩
    | returning =>
        rw [hcase] at hstart
        exact ⟨hstart.1, fun _ => hplace⟩
    | sockets => rw [hcase] at hstart; exact ⟨hstart.1, hplace⟩
    | waiting => rw [hcase] at hstart; exact ⟨hstart.1, hplace⟩
    | sending => rw [hcase] at hstart; exact ⟨hstart.1, hplace⟩
    | writing line => rw [hcase] at hstart; exact ⟨hstart.1, hplace⟩
    | abandoned => rw [hcase] at hstart; exact ⟨hstart.1, hplace⟩
    | sleeping => rw [hcase] at hstart; exact ⟨hstart.1, hplace⟩
  · rcases hline with hline | hline
    · exact h.writing line (.inl hline)
    · exact hwriting line hline
  · exact (h.stop thread place hhandler).keep rfl (fun _ hi => hi) rfl
      hgoes rfl fun _ => rfl
  · rcases h.cancelled hcancelled with hhandler | hended
    · exact .inl hhandler
    · exact .inr (hgoes hended)
  · rcases h.freed hfreed with hmain | ⟨hhandler, hnone, hended⟩
    · exact .inl hmain
    · exact .inr ⟨hhandler, hnone, hgoes hended⟩

theorem LifeInv.receiverStep (h : s.LifeInv) (hstep : ReceiverThreadStep accepts s t) :
    t.LifeInv := by
  have hholds := h.holds
  have hpresent : ∀ {place : ReceiverPlace}, s.receiver = place → place ≠ .absent →
      s.receiver ≠ .absent := by
    intro place hplace hne
    rwa [hplace]
  have hgoes : ∀ {place : ReceiverPlace} (next : ReceiverPlace), s.receiver = place →
      place ≠ .ended → s.receiver = .ended → next = .ended := by
    intro place next hplace hne hended
    exact absurd (hplace.symm.trans hended) hne
  cases hstep with
  | @lock line log hreceiver hfits hlock =>
      obtain ⟨hheld, rfl⟩ := Guarded.lock_eq_ok hlock
      rw [hheld] at hholds
      refine h.moveReceiver (hpresent hreceiver nofun) (.writing line) nofun
        (hgoes _ hreceiver nofun)
        { s.log with held := true } ⟨h.wellFormed, h.size⟩ hholds.lock.2.1 (fun other hother => ?_)
        s.lines
      cases hother
      exact length_le_of_fits hfits
  | @unlock line accepted log hreceiver haccepts hcall =>
      rw [Locked.writeLog_eq_releasing] at hcall
      obtain ⟨data, hdata, rfl⟩ := Guarded.releasing_eq_ok hcall
      rw [hreceiver] at hholds
      exact h.moveReceiver (hpresent hreceiver nofun) .running nofun
        (hgoes _ hreceiver nofun) ⟨false, data⟩
        (h.logged (h.writing line (.inr hreceiver)) (.inl ⟨(), hdata⟩)) (hholds.unlock.2.1 rfl)
        nofun (s.lines ++ [line])
  | @abandon line accepted code log hreceiver haccepts hcall =>
      rw [Locked.writeLog_eq_releasing] at hcall
      obtain ⟨data, hdata, rfl⟩ := Guarded.releasing_eq_error hcall
      rw [hreceiver] at hholds
      exact h.moveReceiver (hpresent hreceiver nofun) .abandoned nofun
        (hgoes _ hreceiver nofun) { s.log with data := data }
        (h.logged (h.writing line (.inr hreceiver)) (.inr ⟨code, hdata⟩)) hholds nofun s.lines
  | fails hreceiver =>
      rw [hreceiver] at hholds
      exact h.moveReceiver (hpresent hreceiver nofun) .failing nofun
        (hgoes _ hreceiver nofun) s.log
        ⟨h.wellFormed, h.size⟩ hholds nofun s.lines
  | exits hreceiver => exact h.withStatus .failed

/-- A sender thread ends, by itself or cancelled. -/
theorem LifeInv.endSender (h : s.LifeInv) {i : ℕ} (hsender : s.sender i ≠ .absent) :
    LifeInv { s with sender := Function.update s.sender i .ended } := by
  have hkeeps : ∀ j, s.sender j = .ended → Function.update s.sender i .ended j = .ended := by
    intro j hj
    by_cases hji : j = i
    · rw [hji, Function.update_self]
    · rwa [Function.update_of_ne hji]
  refine { h with
    start := h.start
    senders := fun j => ?_
    holds := h.holds
    stop := fun thread place hhandler =>
      (h.stop thread place hhandler).keep rfl hkeeps rfl id rfl fun _ => rfl
    cancelled := h.cancelled
    freed := fun hfreed => ?_ }
  · show Function.update s.sender i .ended j = _ ↔ s.created ≤ j
    rw [← h.senders j]
    by_cases hji : j = i
    · rw [hji, Function.update_self]
      exact iff_of_false nofun hsender
    · rw [Function.update_of_ne hji]
  · rcases h.freed hfreed with hmain | ⟨hhandler, hnone, hended⟩
    · exact .inl hmain
    · refine .inr ⟨hhandler, fun j => ?_, hended⟩
      show Function.update s.sender i .ended j ≠ .running
      by_cases hji : j = i
      · rw [hji, Function.update_self]
        nofun
      · rw [Function.update_of_ne hji]
        exact hnone j

/-- The handler goes on. -/
theorem LifeInv.moveStop (h : s.LifeInv) {thread : ThreadId} {place : StopPlace}
    (hhandler : s.handler = .running thread place) (hgoes : place ≠ .exiting)
    (next : StopPlace) (log : Guarded LogData)
    (hlog : log.data.WellFormed ∧ log.data.bufMaxSize = msgBufMaxSize)
    (hholds : HeldByOne log.held s.main.inLog s.receiver.inLog next.inLog)
    (senderCancelled : ℕ → Bool) (receiverCancelled : Bool)
    (hcancelled : receiverCancelled = true →
      (thread = .main ∧ next = .joinReceiver) ∨ s.receiver = .ended)
    (hnext : StopInv { s with
      handler := .running thread next
      log := log
      senderCancelled := senderCancelled
      receiverCancelled := receiverCancelled } thread next) :
    LifeInv { s with
      handler := .running thread next
      log := log
      senderCancelled := senderCancelled
      receiverCancelled := receiverCancelled } := by
  refine { h with
    start := h.start
    senders := h.senders
    wellFormed := hlog.1
    size := hlog.2
    holds := hholds
    stop := fun thread' place' hrunning => ?_
    cancelled := fun hreceiver => ?_
    freed := fun hfreed => ?_ }
  · cases hrunning
    exact hnext
  · rcases hcancelled hreceiver with ⟨rfl, rfl⟩ | hended
    · exact .inl rfl
    · exact .inr hended
  · rcases h.freed hfreed with hmain | ⟨hexit, -⟩
    · exact .inl hmain
    · rw [hhandler] at hexit
      cases hexit
      exact absurd rfl hgoes

/-- The handler is lost with the thread that it runs on. -/
theorem LifeInv.lose (h : s.LifeInv) {thread : ThreadId} {place : StopPlace}
    (hhandler : s.handler = .running thread place) (hthread : thread ≠ .main) :
    LifeInv { s with handler := .lost place } := by
  have hother : ∀ {place' : StopPlace}, s.handler ≠ .running .main place' := by
    intro place' heq
    rw [hhandler] at heq
    cases heq
    exact absurd rfl hthread
  have hholds := h.holds
  rw [hhandler] at hholds
  exact { h with
    start := h.start
    senders := h.senders
    holds := hholds
    stop := fun thread' place' hrunning => by cases hrunning
    cancelled := fun hcancelled => .inr ((h.cancelled hcancelled).resolve_left hother)
    freed := fun hfreed => .inl ((h.freed hfreed).resolve_right fun hexit => hother hexit.1) }

theorem ThreadId.eq_main {thread : ThreadId} (hreceiver : thread ≠ .receiver)
    (hsender : ∀ i, thread ≠ .sender i) : thread = .main := by
  cases thread with
  | main => rfl
  | receiver => exact absurd rfl hreceiver
  | sender i => exact absurd rfl (hsender i)

/-- The log that `write_to_file` leaves. -/
theorem LifeInv.flushed (h : s.LifeInv) {accepted : ℕ} {log : LogData}
    (hcall : (writeToFile accepted s.log.data).ReturnsIn log) :
    log.WellFormed ∧ log.bufMaxSize = msgBufMaxSize := by
  refine ⟨wellFormed_of_writeToFile h.wellFormed hcall, ?_⟩
  rcases writeToFile_eq h.wellFormed accepted with ⟨-, hrun⟩ | ⟨-, log', hrun, -, hmax, -⟩
  · rw [hrun] at hcall
    exact hcall.error_eq ▸ h.size
  · rw [hrun] at hcall
    exact hcall.ok_eq ▸ hmax.trans h.size

/-- Outside of `joinReceiver` the receiver thread is not cancelled, or has ended. -/
theorem LifeInv.cancelled_of_stop (h : s.LifeInv) {thread : ThreadId} {place : StopPlace}
    (hhandler : s.handler = .running thread place) (hplace : place ≠ .joinReceiver)
    (hcancelled : s.receiverCancelled = true) : s.receiver = .ended := by
  rcases h.cancelled hcancelled with hjoin | hended
  · rw [hhandler] at hjoin
    cases hjoin
    exact absurd rfl hplace
  · exact hended

theorem LifeInv.receiver_ne_absent (h : s.LifeInv) (hall : s.created = numSenderThreads) :
    s.receiver ≠ .absent := by
  have hstart := h.start
  have hsome : s.created ≠ 0 := by
    rw [hall]
    decide
  cases hcase : s.main with
  | initialising =>
      rw [hcase] at hstart
      exact absurd hstart.1 hsome
  | sockets => rw [hcase] at hstart; exact hstart.2
  | creating i => rw [hcase] at hstart; exact hstart.2.2
  | freeing => rw [hcase] at hstart; exact hstart.2 hsome
  | returning => rw [hcase] at hstart; exact hstart.2 hsome
  | waiting => rw [hcase] at hstart; exact hstart.2
  | sending => rw [hcase] at hstart; exact hstart.2
  | writing line => rw [hcase] at hstart; exact hstart.2
  | abandoned => rw [hcase] at hstart; exact hstart.2
  | sleeping => rw [hcase] at hstart; exact hstart.2

theorem LifeInv.stopStep (h : s.LifeInv) {thread : ThreadId} {place : StopPlace}
    (hhandler : s.handler = .running thread place) (hstep : StopStep accepts s thread place t) :
    t.LifeInv := by
  have hstop := h.stop thread place hhandler
  have hholds := h.holds
  have hlog : s.log.data.WellFormed ∧ s.log.data.bufMaxSize = msgBufMaxSize :=
    ⟨h.wellFormed, h.size⟩
  rw [hhandler] at hholds
  cases hstep with
  | @cancel i hi hother =>
      obtain ⟨hle, hself, hall⟩ := hstop
      refine h.moveStop hhandler nofun (.cancelling (i + 1)) s.log hlog hholds _ _
        (fun hc => .inr (h.cancelled_of_stop hhandler nofun hc))
        ⟨hi, fun j hj => ?_, fun j hj => ?_⟩
      · obtain ⟨hij, hlt⟩ := hself j hj
        have hne : i ≠ j := by
          rintro rfl
          exact hother hj
        exact ⟨by omega, hlt⟩
      · show Function.update s.senderCancelled i true j = true
        by_cases hji : j = i
        · rw [hji, Function.update_self]
        · rw [Function.update_of_ne hji]
          exact hall j (by omega)
  -- The handler runs on the sender that it cancels, and is lost with it.
  | @cancelSelf i hi hself =>
      have hpresent : s.sender i ≠ .absent := by
        rw [Ne, h.senders i]
        omega
      refine (h.endSender hpresent).lose hhandler ?_
      rw [hself]
      nofun
  | cancelNone hi hnone => exact h.withStatus .undefined
  | cancelled =>
      obtain ⟨hle, hself, hall⟩ := hstop
      have hcreated := Nat.le_antisymm h.created_le hle
      refine h.moveStop hhandler nofun (.joining 0) s.log hlog hholds _ _
        (fun hc => .inr (h.cancelled_of_stop hhandler nofun hc))
        ⟨hcreated, fun j hj => ?_, Nat.zero_le _, hall, nofun⟩
      obtain ⟨hij, hlt⟩ := hself j hj
      omega
  | @join i hi hended =>
      obtain ⟨hcreated, hthread, hle, hall, hbefore⟩ := hstop
      refine h.moveStop hhandler nofun (.joining (i + 1)) s.log hlog hholds _ _
        (fun hc => .inr (h.cancelled_of_stop hhandler nofun hc))
        ⟨hcreated, hthread, hi, hall, fun j hj => ?_⟩
      rcases Nat.lt_succ_iff_lt_or_eq.mp hj with hj | rfl
      · exact hbefore j hj
      · exact hended
  | joined =>
      obtain ⟨hcreated, hthread, -, -, hended⟩ := hstop
      exact h.moveStop hhandler nofun .locking s.log hlog hholds _ _
        (fun hc => .inr (h.cancelled_of_stop hhandler nofun hc)) ⟨hcreated, hthread, hended⟩
  | lock hlock =>
      obtain ⟨hheld, rfl⟩ := Guarded.lock_eq_ok hlock
      rw [hheld] at hholds
      exact h.moveStop hhandler nofun .cancelReceiver { s.log with held := true } hlog
        hholds.lock.2.2 _ _ (fun hc => .inr (h.cancelled_of_stop hhandler nofun hc))
        (SendersEnded.keep hstop rfl fun _ hi => hi)
  | cancelReceiver hother =>
      have hmain := ThreadId.eq_main hother hstop.thread
      exact h.moveStop hhandler nofun .joinReceiver s.log hlog hholds _ _
        (fun _ => .inl ⟨hmain, rfl⟩) ⟨SendersEnded.keep hstop rfl fun _ hi => hi, hmain, rfl⟩
  -- The receiver thread is outside of `write_log`, since the handler on it has taken the mutex;
  -- both are lost, and the mutex stays held.
  | cancelReceiverSelf hself =>
      rw [(hholds.third rfl).2.2] at hholds
      have hreceiver := h.moveReceiver (h.receiver_ne_absent hstop.created) .ended nofun
        (fun _ => rfl) s.log hlog (by rw [hhandler]; exact hholds) nofun s.lines
      refine hreceiver.lose hhandler ?_
      rw [hself]
      nofun
  -- The handler has held the mutex since `lock`: the receiver did not end inside of `write_log`.
  | joinReceiver hended =>
      have hout := (hholds.third rfl).2.1
      exact h.moveStop hhandler nofun .unlocking s.log hlog hholds _ _ (fun _ => .inr hended)
        ⟨hstop.1.keep rfl fun _ hi => hi, hstop.2.1, hended, hout⟩
  | unlock =>
      exact h.moveStop hhandler nofun .flushing { s.log with held := false } hlog
        (hholds.unlock.2.2 rfl) _ _ (fun _ => .inr hstop.2.2.1)
        ⟨hstop.1.keep rfl fun _ hi => hi, hstop.2⟩
  | @flush accepted log haccepts hcall =>
      exact h.moveStop hhandler nofun .freeing { s.log with data := log } (h.flushed hcall)
        hholds _ _ (fun _ => .inr hstop.2.2.1) ⟨hstop.1.keep rfl fun _ hi => hi, hstop.2⟩
  | freeData =>
      obtain ⟨hended, hmain, hreceiver, hout⟩ := hstop
      have hmoved := h.moveStop hhandler nofun .exiting s.log hlog hholds s.senderCancelled
        s.receiverCancelled (fun _ => .inr hreceiver)
        ⟨hended.keep rfl fun _ hi => hi, hmain, hreceiver, hout⟩
      refine { hmoved with
        start := hmoved.start
        senders := hmoved.senders
        holds := hmoved.holds
        stop := fun thread' place' hother => (hmoved.stop thread' place' hother).keep rfl
          (fun _ hi => hi) rfl id rfl fun _ => rfl
        freed := fun _ => .inr ⟨hmain ▸ rfl, fun i => ?_, hreceiver⟩ }
      -- Every sender that was created has been joined.
      show s.sender i ≠ .running
      by_cases hi : i < numSenderThreads
      · rw [hended.ended i hi]
        nofun
      · rw [(h.senders i).mpr (hended.created.trans_le (Nat.le_of_not_lt hi))]
        nofun
  | exit => exact h.withStatus .stopped

theorem LifeInv.step (h : s.LifeInv) (hstep : Step accepts s t) : t.LifeInv := by
  cases hstep with
  | main hfree hmain => exact h.mainStep hfree hmain
  | receiver hfree hreceiver => exact h.receiverStep hreceiver
  | sender hfree hsender =>
      cases hsender with
      | exits hsender => exact h.endSender (by rw [hsender]; nofun)
  | @signal thread harmed halive =>
      have hholds := h.holds
      rw [harmed] at hholds
      have hother : ∀ {place' : StopPlace}, s.handler ≠ .running .main place' := by
        intro place' heq
        rw [harmed] at heq
        cases heq
      refine { h with
        start := h.start
        senders := h.senders
        holds := hholds
        stop := fun thread' place' hhandler => ?_
        cancelled := fun hcancelled => .inr ((h.cancelled hcancelled).resolve_left hother)
        freed := fun hfreed => .inl ((h.freed hfreed).resolve_right fun hexit => hother hexit.1) }
      cases hhandler
      refine ⟨Nat.zero_le _, fun j hj => ⟨Nat.zero_le _, ?_⟩, nofun⟩
      rw [hj] at halive
      have hpresent : s.sender j ≠ .absent := by
        rw [show s.sender j = .running from halive]
        nofun
      rwa [Ne, h.senders j, not_le] at hpresent
  | stop hhandler hstop => exact h.stopStep hhandler hstop
  | senderEnds hcancelled hsender => exact h.endSender (by rw [hsender]; nofun)
  -- It ends while the handler holds the mutex, hence outside of `write_log`.
  | receiverEnds hcancelled halive =>
      have hholds := h.holds
      have hin : s.receiver.inLog = false := by
        rcases h.cancelled hcancelled with hhandler | hended
        · rw [hhandler] at hholds
          exact (hholds.third rfl).2.2
        · rw [hended]
          rfl
      rw [hin] at hholds
      exact h.moveReceiver halive.1 .ended nofun (fun _ => rfl) s.log ⟨h.wellFormed, h.size⟩
        hholds nofun s.lines
  | useFreed hfreed hother halive => exact h.withStatus .undefined

end Step

theorem lifeInv_of_reachable {accepts : ℕ → Prop} {s : DaProc}
    (hs : (daProc accepts).Reachable s) : s.LifeInv := by
  refine hs.invariant ?_ ?_
  · rintro s rfl
    exact ⟨⟨rfl, rfl⟩, fun i => iff_of_true rfl (Nat.zero_le i), initLogData_wellFormed _, rfl,
      by decide, nofun, nofun, nofun, nofun⟩
  · intro s t _ hinv hstep
    exact hinv.step hstep.2

/-! ## What has no meaning -/

section Undefined

variable {accepts : ℕ → Prop} {s t : DaProc}

theorem MainStep.status (h : MainStep accepts s t) : t.status = s.status ∨ t.status = .failed := by
  cases h with
  | returns hmain => exact .inr rfl
  | _ => exact .inl rfl

theorem ReceiverThreadStep.status (h : ReceiverThreadStep accepts s t) :
    t.status = s.status ∨ t.status = .failed := by
  cases h with
  | exits hreceiver => exact .inr rfl
  | _ => exact .inl rfl

/-- The steps that end the process from the handler. -/
theorem StopStep.status {thread : ThreadId} {place : StopPlace}
    (h : StopStep accepts s thread place t) :
    t.status = s.status ∨
    (∃ i, place = .cancelling i ∧ i < numSenderThreads ∧ s.created ≤ i ∧
      t = { s with status := .undefined }) ∨
    (place = .exiting ∧ t = { s with status := .stopped }) := by
  cases h with
  | @cancelNone i hi hnone => exact .inr (.inl ⟨i, rfl, hi, hnone, rfl⟩)
  | exit => exact .inr (.inr ⟨rfl, rfl⟩)
  | _ => exact .inl rfl

/-- How a process can end, other than by an error: at the first place of `senders` without a
thread, on a thread whose data is freed, and at the end of `stop`. -/
theorem Step.ends (h : Step accepts s t) :
    (t.status = s.status ∨ t.status = .failed) ∨
    (∃ thread i, s.handler = .running thread (.cancelling i) ∧ i < numSenderThreads ∧
      s.created ≤ i ∧ t = { s with status := .undefined }) ∨
    (∃ thread, s.freed = true ∧ thread ≠ .main ∧ s.Alive thread ∧
      t = { s with status := .undefined }) ∨
    ∃ thread, s.handler = .running thread .exiting ∧ t = { s with status := .stopped } := by
  cases h with
  | main hfree hmain => exact .inl hmain.status
  | receiver hfree hreceiver => exact .inl hreceiver.status
  | sender hfree hsender =>
      cases hsender
      exact .inl (.inl rfl)
  | signal harmed halive => exact .inl (.inl rfl)
  | senderEnds hcancelled hsender => exact .inl (.inl rfl)
  | receiverEnds hcancelled halive => exact .inl (.inl rfl)
  | @stop _ thread place hhandler hstop =>
      rcases hstop.status with hstatus | ⟨i, rfl, hi, hnone, rfl⟩ | ⟨rfl, rfl⟩
      · exact .inl (.inl hstatus)
      · exact .inr (.inl ⟨thread, i, hhandler, hi, hnone, rfl⟩)
      · exact .inr (.inr (.inr ⟨thread, hhandler, rfl⟩))
  | useFreed hfreed hother halive => exact .inr (.inr (.inl ⟨_, hfreed, hother, halive, rfl⟩))

/-- The last step of a process that is not running, and has not ended with an error. -/
theorem exists_last (hs : (daProc accepts).Reachable s) (hended : s.status ≠ .running)
    (hfailed : s.status ≠ .failed) :
    ∃ t, (daProc accepts).Reachable t ∧ Step accepts t s ∧
      ¬ (s.status = t.status ∨ s.status = .failed) := by
  cases hs with
  | init h =>
      rw [show s = initial from h] at hended
      exact absurd rfl hended
  | @step t _ ht h =>
      refine ⟨t, ht, h.2, ?_⟩
      rintro (hstatus | hstatus)
      · exact hended (hstatus.trans h.1)
      · exact hfailed hstatus

/-- `SIGTERM` before `init_senders`. -/
def earlySignal : DaProc :=
  { initial with handler := .running .main (.cancelling 0), status := .undefined }

end Undefined

end DaProc

end CausalBroadcast
