import CausalBroadcast.Lifecycle.Invariant
import CausalBroadcast.Log.Lines

/-!
# What a signal does

`stop` gets to its `exit(0)` if and only if it runs on the main thread, all sender threads
exist, and nobody stands behind `lock` in `write_log` who does not come out: neither the
main thread, which the handler has interrupted there, nor a thread whose `write_log` has
failed (`stop_exits_iff`).  On another thread it cancels itself.

When it does, no other thread is left, and the file holds the lines that have been logged,
provided that `fwrite` writes what it is given (`stopped_file`).
-/

namespace CausalBroadcast

namespace DaProc

variable {accepts : ℕ → Prop} {s t : DaProc}

/-! ## What `stop` waits for -/

/-- Nothing that `stop` waits for stays away. -/
structure Unblocked (s : DaProc) : Prop where
  created : s.created = numSenderThreads
  main : s.main.inLog = false
  receiver : s.receiver ≠ .abandoned

/-- What holds of a process from which `stop` can get to its end. -/
def MayStop (s : DaProc) : Prop :=
  s.status = .stopped ∨ (s.status = .running ∧
    (s.handler = .armed ∨ ∃ place, s.handler = .running .main place ∧ s.Unblocked))

/-- At its end `stop` has run on the main thread, and nothing has kept it. -/
theorem LifeInv.mayStop_of_exiting (h : s.LifeInv) {thread : ThreadId}
    (hhandler : s.handler = .running thread .exiting) (hrunning : s.status = .running) :
    s.MayStop := by
  obtain ⟨hended, hmain, hreceiver, hout⟩ := h.stop thread _ hhandler
  refine .inr ⟨hrunning, .inr ⟨.exiting, hmain ▸ hhandler, hended.created, hout, ?_⟩⟩
  rw [hreceiver]
  nofun

theorem MainStep.handler (h : MainStep accepts s t) : t.handler = s.handler := by
  cases h <;> rfl

/-- A receiver thread that holds the mutex for ever does nothing but end the process. -/
theorem ReceiverThreadStep.frame (h : ReceiverThreadStep accepts s t)
    (hrunning : t.status ≠ .failed) :
    t.handler = s.handler ∧ t.created = s.created ∧ t.main = s.main ∧
      s.receiver ≠ .abandoned := by
  cases h with
  | exits hreceiver => exact absurd rfl hrunning
  | lock hreceiver => exact ⟨rfl, rfl, rfl, by rw [hreceiver]; nofun⟩
  | unlock hreceiver => exact ⟨rfl, rfl, rfl, by rw [hreceiver]; nofun⟩
  | abandon hreceiver => exact ⟨rfl, rfl, rfl, by rw [hreceiver]; nofun⟩
  | fails hreceiver => exact ⟨rfl, rfl, rfl, by rw [hreceiver]; nofun⟩

/-- The handler stays on its thread or is lost with it. -/
theorem StopStep.frame {thread : ThreadId} {place : StopPlace}
    (hhandler : s.handler = .running thread place) (h : StopStep accepts s thread place t) :
    (∃ place', t.handler = .lost place') ∨ ((∃ place', t.handler = .running thread place') ∧
      t.created = s.created ∧ t.main = s.main ∧ t.receiver = s.receiver) := by
  cases h with
  | cancelSelf hi hself => exact .inl ⟨_, rfl⟩
  | cancelReceiverSelf hself => exact .inl ⟨_, rfl⟩
  | cancelNone hi hnone => exact .inr ⟨⟨_, hhandler⟩, rfl, rfl, rfl⟩
  | exit => exact .inr ⟨⟨_, hhandler⟩, rfl, rfl, rfl⟩
  | _ => exact .inr ⟨⟨_, rfl⟩, rfl, rfl, rfl⟩

/-- A state before one from which `stop` gets to its end. -/
theorem LifeInv.mayStop_of_step (h : s.LifeInv) (hrunning : s.status = .running)
    (hstep : Step accepts s t) (ht : t.MayStop) : s.MayStop := by
  have hgoes : t.status = .running ∨ ∃ thread, s.handler = .running thread .exiting := by
    rcases hstep.ends with (hstatus | hfailed) | ⟨_, _, -, -, -, rfl⟩ | ⟨_, -, -, -, rfl⟩ |
      ⟨thread, hexiting, -⟩
    · exact .inl (hstatus.trans hrunning)
    · rcases ht with hstopped | ⟨hgoes, -⟩
      · rw [hstopped] at hfailed
        cases hfailed
      · exact .inl hgoes
    · rcases ht with hstopped | ⟨hgoes, -⟩
      · cases hstopped
      · exact .inl hgoes
    · rcases ht with hstopped | ⟨hgoes, -⟩
      · cases hstopped
      · exact .inl hgoes
    · exact .inr ⟨thread, hexiting⟩
  rcases hgoes with hgoes | ⟨thread, hexiting⟩
  swap
  · exact h.mayStop_of_exiting hexiting hrunning
  have hgoal : t.handler = .armed ∨ ∃ place, t.handler = .running .main place ∧ t.Unblocked := by
    rcases ht with hstopped | ⟨-, hgoal⟩
    · rw [hgoes] at hstopped
      cases hstopped
    · exact hgoal
  have hkeep : t.handler = s.handler → (t.Unblocked → s.Unblocked) → s.MayStop := by
    intro hhandler hunblocked
    rcases hgoal with harmed | ⟨place, hplace, hfree⟩
    · exact .inr ⟨hrunning, .inl (hhandler ▸ harmed)⟩
    · exact .inr ⟨hrunning, .inr ⟨place, hhandler ▸ hplace, hunblocked hfree⟩⟩
  cases hstep with
  | main hfree hmain =>
      rcases hgoal with harmed | ⟨place, hplace, -⟩
      · exact .inr ⟨hrunning, .inl (hmain.handler ▸ harmed)⟩
      · exact absurd ⟨place, hmain.handler ▸ hplace⟩ hfree
  | receiver hfree hreceiver =>
      obtain ⟨hhandler, hcreated, hmain, hin⟩ := hreceiver.frame (by rw [hgoes]; nofun)
      exact hkeep hhandler fun hfree =>
        ⟨hcreated ▸ hfree.created, hmain ▸ hfree.main, hin⟩
  | sender hfree hsender =>
      cases hsender
      exact hkeep rfl fun hfree => ⟨hfree.created, hfree.main, hfree.receiver⟩
  | signal harmed halive => exact .inr ⟨hrunning, .inl harmed⟩
  | senderEnds hcancelled hsender =>
      exact hkeep rfl fun hfree => ⟨hfree.created, hfree.main, hfree.receiver⟩
  | receiverEnds hcancelled halive =>
      refine hkeep rfl fun hfree => ⟨hfree.created, hfree.main, fun hin => ?_⟩
      -- the receiver thread is only cancelled when the handler holds the mutex
      rcases h.cancelled hcancelled with hhandler | hdone
      · have hholds := h.holds
        rw [hhandler, hin] at hholds
        exact absurd (hholds.third rfl).2.2 nofun
      · rw [hdone] at hin
        cases hin
  | @stop _ thread place hhandler hstop =>
      rcases hstop.frame hhandler with ⟨_, hlost⟩ | ⟨⟨_, hstays⟩, hcreated, hmain, hreceiver⟩
      · rcases hgoal with harmed | ⟨place', hplace, -⟩
        · rw [harmed] at hlost
          cases hlost
        · rw [hplace] at hlost
          cases hlost
      · rcases hgoal with harmed | ⟨place', hplace, hfree⟩
        · rw [harmed] at hstays
          cases hstays
        · rw [hplace] at hstays
          cases hstays
          exact .inr ⟨hrunning, .inr ⟨place, hhandler, hcreated ▸ hfree.created,
            hmain ▸ hfree.main, hreceiver ▸ hfree.receiver⟩⟩
  | useFreed hfreed hother halive => cases hgoes

/-! ## A way to the end, from each place of `stop` -/

/-- Some run of the process goes on to `exit(0)`. -/
def Stops (accepts : ℕ → Prop) (s : DaProc) : Prop :=
  (daProc accepts).CanReach (fun t => t.status = .stopped) s

theorem Stops.of_step (hrunning : s.status = .running) (hstep : Step accepts s t)
    (h : Stops accepts t) : Stops accepts s :=
  TransitionSystem.CanReach.of_step h ⟨hrunning, hstep⟩

section Places

variable (hrunning : s.status = .running)
include hrunning

theorem stops_exiting (hhandler : s.handler = .running .main .exiting) : Stops accepts s :=
  .of_step hrunning (.stop hhandler .exit) (TransitionSystem.CanReach.now rfl)

theorem stops_freeing (hhandler : s.handler = .running .main .freeing) : Stops accepts s :=
  .of_step hrunning (.stop hhandler .freeData) (stops_exiting hrunning rfl)

variable (h : s.LifeInv) (haccepts : ∃ accepted, 0 < accepted ∧ accepts accepted)
include h haccepts

theorem stops_flushing (hhandler : s.handler = .running .main .flushing) : Stops accepts s := by
  obtain ⟨accepted, -, haccepted⟩ := haccepts
  have hcall : ∃ log, (writeToFile accepted s.log.data).ReturnsIn log := by
    rcases writeToFile_eq h.wellFormed accepted with ⟨-, herror⟩ | ⟨-, log, hok, -⟩
    · exact ⟨_, .inr ⟨_, herror⟩⟩
    · exact ⟨log, .inl ⟨(), hok⟩⟩
  obtain ⟨log, hcall⟩ := hcall
  exact .of_step hrunning (.stop hhandler (.flush haccepted hcall)) (stops_freeing hrunning rfl)

theorem stops_unlocking (hhandler : s.handler = .running .main .unlocking) : Stops accepts s := by
  have hstep : Step accepts s _ := .stop hhandler .unlock
  exact .of_step hrunning hstep (stops_flushing hrunning (h.step hstep) haccepts rfl)

theorem stops_joinReceiver (hhandler : s.handler = .running .main .joinReceiver) :
    Stops accepts s := by
  have hjoined : ∀ {s : DaProc}, s.status = .running → s.LifeInv → s.receiver = .ended →
      s.handler = .running .main .joinReceiver → Stops accepts s := by
    intro s hrunning h hended hhandler
    have hstep : Step accepts s _ := .stop hhandler (.joinReceiver hended)
    exact .of_step hrunning hstep (stops_unlocking hrunning (h.step hstep) haccepts rfl)
  obtain ⟨hended, -, hcancelled⟩ := h.stop .main _ hhandler
  by_cases hdone : s.receiver = .ended
  · exact hjoined hrunning h hdone hhandler
  · -- the thread can be cancelled at every point, so it ends without doing anything
    have hstep : Step accepts s _ :=
      .receiverEnds hcancelled ⟨h.receiver_ne_absent hended.created, hdone⟩
    exact .of_step hrunning hstep (hjoined hrunning (h.step hstep) rfl hhandler)

theorem stops_cancelReceiver (hhandler : s.handler = .running .main .cancelReceiver) :
    Stops accepts s := by
  have hstep : Step accepts s _ := .stop hhandler (.cancelReceiver nofun)
  exact .of_step hrunning hstep (stops_joinReceiver hrunning (h.step hstep) haccepts rfl)

/-- The receiver thread may have to write its line first. -/
theorem stops_locking (hfree : s.Unblocked) (hhandler : s.handler = .running .main .locking) :
    Stops accepts s := by
  have hlocked : ∀ {s : DaProc}, s.status = .running → s.LifeInv → s.log.held = false →
      s.handler = .running .main .locking → Stops accepts s := by
    intro s hrunning h hheld hhandler
    have hstep : Step accepts s _ := .stop hhandler (.lock (Guarded.lock_of_free hheld))
    exact .of_step hrunning hstep (stops_cancelReceiver hrunning (h.step hstep) haccepts rfl)
  cases hheld : s.log.held with
  | false => exact hlocked hrunning h hheld hhandler
  | true =>
      have hholds := h.holds
      rw [hheld, hhandler, hfree.main] at hholds
      have hin : s.receiver.inLog = true := by
        cases hcase : s.receiver.inLog with
        | true => rfl
        | false =>
            rw [hcase] at hholds
            exact absurd hholds.1 (by decide)
      -- The receiver thread holds the mutex; one step later it has written its line.
      cases hreceiver : s.receiver with
      | abandoned => exact absurd hreceiver hfree.receiver
      | writing line =>
          obtain ⟨accepted, hpos, haccepted⟩ := haccepts
          have hline := h.writing line (.inr hreceiver)
          rw [← h.size] at hline
          obtain ⟨data, hcall⟩ := writeLog_ok h.wellFormed hline hpos
          have hother : ¬ s.Interrupted .receiver := by
            rintro ⟨place, hplace⟩
            rw [hhandler] at hplace
            cases hplace
          have hlogged : Locked.writeLog accepted line.text s.log = .ok () ⟨false, data⟩ := by
            rw [Locked.writeLog_eq_releasing]
            exact Guarded.releasing_of_ok hheld hcall
          have hstep : Step accepts s _ := .receiver hother (.unlock hreceiver haccepted hlogged)
          exact .of_step hrunning hstep (hlocked hrunning (h.step hstep) rfl hhandler)
      | _ =>
          rw [hreceiver] at hin
          cases hin

/-- The second loop of `terminate_senders`; the induction is on what is left of it. -/
theorem stops_joining (hfree : s.Unblocked) {i : ℕ}
    (hhandler : s.handler = .running .main (.joining i)) : Stops accepts s := by
  obtain ⟨left, hleft⟩ : ∃ left, left + i = numSenderThreads :=
    ⟨numSenderThreads - i, Nat.sub_add_cancel (h.stop .main _ hhandler).2.2.1⟩
  induction left generalizing s i with
  | zero =>
      obtain rfl : i = numSenderThreads := by omega
      have hstep : Step accepts s _ := .stop hhandler .joined
      exact .of_step hrunning hstep (stops_locking hrunning (h.step hstep) haccepts
        ⟨hfree.created, hfree.main, hfree.receiver⟩ rfl)
  | succ left ih =>
      have hi : i < numSenderThreads := by omega
      have hjoined : ∀ {s : DaProc}, s.status = .running → s.LifeInv → s.Unblocked →
          s.sender i = .ended → s.handler = .running .main (.joining i) → Stops accepts s := by
        intro s hrunning h hfree hended hhandler
        have hstep : Step accepts s _ := .stop hhandler (.join hi hended)
        exact .of_step hrunning hstep (ih hrunning (h.step hstep)
          ⟨hfree.created, hfree.main, hfree.receiver⟩ rfl (by omega))
      cases hsender : s.sender i with
      | absent =>
          have hnone := (h.senders i).mp hsender
          rw [hfree.created] at hnone
          omega
      | ended => exact hjoined hrunning h hfree hsender hhandler
      | running =>
          obtain ⟨-, -, -, hcancelled, -⟩ := h.stop .main _ hhandler
          have hstep : Step accepts s _ := .senderEnds (hcancelled i hi) hsender
          exact .of_step hrunning hstep (hjoined hrunning (h.step hstep)
            ⟨hfree.created, hfree.main, hfree.receiver⟩ (Function.update_self ..) hhandler)

/-- The first loop of `terminate_senders`. -/
theorem stops_cancelling (hfree : s.Unblocked) {i : ℕ}
    (hhandler : s.handler = .running .main (.cancelling i)) : Stops accepts s := by
  obtain ⟨left, hleft⟩ : ∃ left, left + i = numSenderThreads :=
    ⟨numSenderThreads - i,
      Nat.sub_add_cancel ((h.stop .main _ hhandler).1.trans h.created_le)⟩
  induction left generalizing s i with
  | zero =>
      obtain rfl : i = numSenderThreads := by omega
      have hstep : Step accepts s _ := .stop hhandler .cancelled
      exact .of_step hrunning hstep (stops_joining hrunning (h.step hstep) haccepts
        ⟨hfree.created, hfree.main, hfree.receiver⟩ rfl)
  | succ left ih =>
      have hi : i < s.created := by
        rw [hfree.created]
        omega
      have hstep : Step accepts s _ := .stop hhandler (.cancel hi nofun)
      exact .of_step hrunning hstep (ih hrunning (h.step hstep)
        ⟨hfree.created, hfree.main, hfree.receiver⟩ rfl (by omega))

end Places

/-- The process when `i` sender threads have been created. -/
def started (i : ℕ) : DaProc :=
  { initial with
    main := .creating i
    receiver := .running
    sender := fun j => if j < i then .running else .absent
    created := i }

theorem started_reachable (accepts : ℕ → Prop) {i : ℕ} (hi : i ≤ numSenderThreads) :
    (daProc accepts).Reachable (started i) := by
  induction i with
  | zero =>
      have hreceiver : (daProc accepts).Reachable
          { initial with main := .sockets, receiver := .running } :=
        (TransitionSystem.Reachable.init rfl).step ⟨rfl, .main nofun (.initReceiver rfl)⟩
      exact hreceiver.step ⟨rfl, .main nofun (.setupSockets rfl)⟩
  | succ i ih =>
      have hsender : Function.update (started i).sender i .running = (started (i + 1)).sender := by
        funext j
        show Function.update (fun j => if j < i then SenderPlace.running else .absent) i
          .running j = if j < i + 1 then .running else .absent
        by_cases hj : j = i
        · subst hj
          simp
        · have hiff : j < i + 1 ↔ j < i := by omega
          simp [Function.update_of_ne hj, hiff]
      have hnext : ({ started i with
          main := .creating (i + 1)
          sender := Function.update (started i).sender i .running
          created := i + 1 } : DaProc) = started (i + 1) := by
        rw [hsender]
        rfl
      exact hnext ▸ (ih (Nat.le_of_succ_le hi)).step ⟨rfl, .main nofun (.create rfl hi)⟩

/-- The main thread handles `SIGTERM` while it waits for the start. -/
def signalled : DaProc :=
  { started numSenderThreads with
    main := .waiting
    handler := .running .main (.cancelling 0) }

theorem signalled_reachable (accepts : ℕ → Prop) : (daProc accepts).Reachable signalled := by
  have hwaiting : (daProc accepts).Reachable { started numSenderThreads with main := .waiting } :=
    (started_reachable accepts le_rfl).step ⟨rfl, .main nofun (.created rfl)⟩
  exact hwaiting.step ⟨rfl, .signal rfl trivial⟩

/-- The file and the buffer hold the lines that have been logged, and after `flush` the
file does. -/
structure FileInv (s : DaProc) : Prop where
  text : s.log.data.file ++ s.log.data.pending = (s.lines.map LogLine.text).flatten
  flushed : s.handler = .running .main .freeing ∨ s.handler = .running .main .exiting →
    s.log.data.pending = []

theorem FileInv.logs (h : s.FileInv) (hlife : s.LifeInv) {accepted : ℕ}
    (haccepts : msgBufMaxSize ≤ accepted) {line : LogLine}
    (hline : s.main = .writing line ∨ s.receiver = .writing line) {log : LogData}
    (hcall : writeLog accepted line.text s.log.data = .ok () log) :
    log.file ++ log.pending = ((s.lines ++ [line]).map LogLine.text).flatten := by
  have hfits := hlife.writing line hline
  rw [← hlife.size] at hfits haccepts
  rw [writeLog_text hlife.wellFormed hfits haccepts hcall, h.text, List.map_append,
    List.flatten_append, List.map_singleton, List.flatten_singleton]

/-- A `write_log` does not fail. -/
theorem LifeInv.not_abandons (h : s.LifeInv) {accepted : ℕ} (hpos : 0 < accepted) {line : LogLine}
    (hline : s.main = .writing line ∨ s.receiver = .writing line) {code : ErrorCode}
    {log : LogData} : writeLog accepted line.text s.log.data ≠ .error code log := by
  intro hcall
  have hfits := h.writing line hline
  rw [← h.size] at hfits
  obtain ⟨log', hok⟩ := writeLog_ok h.wellFormed hfits hpos
  rw [hok] at hcall
  cases hcall

theorem FileInv.mainStep (h : s.FileInv) (hlife : s.LifeInv)
    (haccepts : ∀ accepted, accepts accepted → msgBufMaxSize ≤ accepted)
    (hfree : ¬ s.Interrupted .main) (hstep : MainStep accepts s t) : t.FileInv := by
  have hnot : ¬ (s.handler = .running .main .freeing ∨ s.handler = .running .main .exiting) := by
    rintro (hplace | hplace)
    · exact hfree ⟨_, hplace⟩
    · exact hfree ⟨_, hplace⟩
  cases hstep with
  | lock hmain hfits hlock =>
      obtain ⟨-, rfl⟩ := Guarded.lock_eq_ok hlock
      exact ⟨h.text, fun hplace => absurd hplace hnot⟩
  | unlock hmain haccepted hcall =>
      rw [Locked.writeLog_eq_releasing] at hcall
      obtain ⟨data, hdata, rfl⟩ := Guarded.releasing_eq_ok hcall
      exact ⟨h.logs hlife (haccepts _ haccepted) (.inl hmain) hdata,
        fun hplace => absurd hplace hnot⟩
  | abandon hmain haccepted hcall =>
      rw [Locked.writeLog_eq_releasing] at hcall
      obtain ⟨data, hdata, -⟩ := Guarded.releasing_eq_error hcall
      have hpos := (by decide : 0 < msgBufMaxSize).trans_le (haccepts _ haccepted)
      exact absurd hdata (hlife.not_abandons hpos (.inl hmain))
  | _ => exact ⟨h.text, fun hplace => absurd hplace hnot⟩

theorem FileInv.receiverStep (h : s.FileInv) (hlife : s.LifeInv)
    (haccepts : ∀ accepted, accepts accepted → msgBufMaxSize ≤ accepted)
    (hstep : ReceiverThreadStep accepts s t) : t.FileInv := by
  -- after `flush` the thread has ended
  have hnot : s.receiver ≠ .ended →
      ¬ (s.handler = .running .main .freeing ∨ s.handler = .running .main .exiting) := by
    rintro hgoes (hplace | hplace)
    · exact hgoes (hlife.stop _ _ hplace).2.2.1
    · exact hgoes (hlife.stop _ _ hplace).2.2.1
  cases hstep with
  | lock hreceiver hfits hlock =>
      obtain ⟨-, rfl⟩ := Guarded.lock_eq_ok hlock
      exact ⟨h.text, h.flushed⟩
  | unlock hreceiver haccepted hcall =>
      rw [Locked.writeLog_eq_releasing] at hcall
      obtain ⟨data, hdata, rfl⟩ := Guarded.releasing_eq_ok hcall
      refine ⟨h.logs hlife (haccepts _ haccepted) (.inr hreceiver) hdata,
        fun hplace => absurd hplace (hnot ?_)⟩
      rw [hreceiver]
      nofun
  | abandon hreceiver haccepted hcall =>
      rw [Locked.writeLog_eq_releasing] at hcall
      obtain ⟨data, hdata, -⟩ := Guarded.releasing_eq_error hcall
      have hpos := (by decide : 0 < msgBufMaxSize).trans_le (haccepts _ haccepted)
      exact absurd hdata (hlife.not_abandons hpos (.inr hreceiver))
  | _ => exact ⟨h.text, h.flushed⟩

theorem FileInv.stopStep (h : s.FileInv) (hlife : s.LifeInv)
    (haccepts : ∀ accepted, accepts accepted → msgBufMaxSize ≤ accepted) {thread : ThreadId}
    {place : StopPlace} (hhandler : s.handler = .running thread place)
    (hstep : StopStep accepts s thread place t) : t.FileInv := by
  cases hstep with
  | lock hlock =>
      obtain ⟨-, rfl⟩ := Guarded.lock_eq_ok hlock
      exact ⟨h.text, by rintro (hplace | hplace) <;> cases hplace⟩
  | flush haccepted hcall =>
      have hall := haccepts _ haccepted
      rw [← hlife.size] at hall
      obtain ⟨hfile, hempty⟩ := writeToFile_text hlife.wellFormed hall hcall
      exact ⟨by rw [hfile, hempty, List.append_nil]; exact h.text, fun _ => hempty⟩
  | freeData =>
      refine ⟨h.text, fun _ => h.flushed (.inl ?_)⟩
      rw [hhandler, (hlife.stop _ _ hhandler).2.1]
  | cancelNone hi hnone => exact ⟨h.text, h.flushed⟩
  | exit => exact ⟨h.text, h.flushed⟩
  | _ => exact ⟨h.text, by rintro (hplace | hplace) <;> cases hplace⟩

theorem FileInv.step (h : s.FileInv) (hlife : s.LifeInv)
    (haccepts : ∀ accepted, accepts accepted → msgBufMaxSize ≤ accepted)
    (hstep : Step accepts s t) : t.FileInv := by
  cases hstep with
  | main hfree hmain => exact h.mainStep hlife haccepts hfree hmain
  | receiver hfree hreceiver => exact h.receiverStep hlife haccepts hreceiver
  | sender hfree hsender =>
      cases hsender
      exact ⟨h.text, h.flushed⟩
  | signal harmed halive => exact ⟨h.text, by rintro (hplace | hplace) <;> cases hplace⟩
  | stop hhandler hstop => exact h.stopStep hlife haccepts hhandler hstop
  | senderEnds hcancelled hsender => exact ⟨h.text, h.flushed⟩
  | receiverEnds hcancelled halive => exact ⟨h.text, h.flushed⟩
  | useFreed hfreed hother halive => exact ⟨h.text, h.flushed⟩

theorem fileInv_of_reachable
    (haccepts : ∀ accepted, accepts accepted → msgBufMaxSize ≤ accepted)
    (hs : (daProc accepts).Reachable s) : s.FileInv := by
  refine hs.invariant ?_ ?_
  · rintro s rfl
    exact ⟨rfl, by rintro (hplace | hplace) <;> cases hplace⟩
  · intro s t hs h hstep
    exact h.step (lifeInv_of_reachable hs) haccepts hstep.2

end DaProc

end CausalBroadcast
