import CausalBroadcast.Reliable.System

/-!
# Runs that are written out

A script is a list of moves, each an action of a process.  A move that is not
possible is left out, so every script leads to a reachable state
(`reachable_play`); what happens on the way is found by evaluation.
-/

namespace CausalBroadcast

/-- The process after an action, if its threads stand where the action starts. -/
def NetProcess.act (P : NetProcess) (machine : Machine) : NetAction → Option NetProcess
  | .copy => match P.main with
      | .next i => if i ≤ P.data.numMsg then some (P.copy i) else none
      | _ => none
  | .broadcast => match P.main with
      | .copied i msg => some (P.broadcast machine i msg)
      | _ => none
  | .bebMain => match P.main with
      | .beb i msg k => if k ≤ P.data.numProc then some (P.bebMain i msg k) else none
      | _ => none
  | .next => match P.main with
      | .beb i _ k => if P.data.numProc < k then some (P.setMain (.next (i + 1))) else none
      | _ => none
  | .receive sendto msg => match P.receiver with
      | .idle => some (P.receive machine sendto msg)
      | _ => none
  | .deliverBeb => match P.receiver with
      | .delivering msg => some (P.deliverBeb machine msg)
      | _ => none
  | .bebReceiver => match P.receiver with
      | .relay msg newMsg k =>
          if k ≤ P.data.numProc then some (P.bebReceiver msg newMsg k) else none
      | _ => none
  | .finish => match P.receiver with
      | .relay msg _ k => if P.data.numProc < k then some (P.finish machine msg) else none
      | _ => none
  | .dequeue j => match P.sender j with
      | .waiting => if j < numSenderThreads then some (P.dequeue j) else none
      | _ => none
  | .test j => match P.sender j with
      | .testing task i => if j < numSenderThreads then some (P.test j task i) else none
      | _ => none
  | .attempt sendto j => match P.sender j with
      | .attempting task i =>
          if j < numSenderThreads then some (P.attempt sendto j task i) else none
      | _ => none
  | .crash => some { P with status := .crashed }

/-- An action with a condition happened, so the condition holds. -/
theorem of_guard {p : Prop} [Decidable p] {P P' : NetProcess}
    (h : (if p then some P else none) = some P') : p ∧ P = P' := by
  obtain ⟨hp, hP⟩ := Option.ite_none_right_eq_some.mp h
  exact ⟨hp, Option.some.inj hP⟩

theorem netStep_of_act {P P' : NetProcess} {machine : Machine} {action : NetAction}
    (h : P.act machine action = some P') : NetStep P action P' := by
  cases action with
  | copy =>
      simp only [NetProcess.act] at h
      split at h
      · next i hmain =>
          obtain ⟨hi, rfl⟩ := of_guard h
          exact .copy hmain hi
      · cases h
  | broadcast =>
      simp only [NetProcess.act] at h
      split at h
      · next i msg hmain =>
          cases h
          exact .broadcast machine hmain
      · cases h
  | bebMain =>
      simp only [NetProcess.act] at h
      split at h
      · next i msg k hmain =>
          obtain ⟨hk, rfl⟩ := of_guard h
          exact .bebMain hmain hk
      · cases h
  | next =>
      simp only [NetProcess.act] at h
      split at h
      · next i msg k hmain =>
          obtain ⟨hk, rfl⟩ := of_guard h
          exact .next hmain hk
      · cases h
  | receive sendto msg =>
      simp only [NetProcess.act] at h
      split at h
      · next hidle =>
          cases h
          exact .receive machine sendto msg hidle
      · cases h
  | deliverBeb =>
      simp only [NetProcess.act] at h
      split at h
      · next msg hdelivering =>
          cases h
          exact .deliverBeb machine hdelivering
      · cases h
  | bebReceiver =>
      simp only [NetProcess.act] at h
      split at h
      · next msg newMsg k hrelay =>
          obtain ⟨hk, rfl⟩ := of_guard h
          exact .bebReceiver hrelay hk
      · cases h
  | finish =>
      simp only [NetProcess.act] at h
      split at h
      · next msg newMsg k hrelay =>
          obtain ⟨hk, rfl⟩ := of_guard h
          exact .finish machine hrelay hk
      · cases h
  | dequeue j =>
      simp only [NetProcess.act] at h
      split at h
      · next hsender =>
          obtain ⟨hj, rfl⟩ := of_guard h
          exact .dequeue hj hsender
      · cases h
  | test j =>
      simp only [NetProcess.act] at h
      split at h
      · next task i hsender =>
          obtain ⟨hj, rfl⟩ := of_guard h
          exact .test hj hsender
      · cases h
  | attempt sendto j =>
      simp only [NetProcess.act] at h
      split at h
      · next task i hsender =>
          obtain ⟨hj, rfl⟩ := of_guard h
          exact .attempt sendto hj hsender
      · cases h
  | crash =>
      cases h
      exact .crash

/-- The datagram of a `receive` is in the network. -/
def NetSystem.delivers (s : NetSystem) (cfg : Membership) (p : ℕ) : NetAction → Bool
  | .receive _ msg => (List.range' 1 cfg.numProc).any fun r => decide ((p, msg) ∈ (s r).data.sent)
  | _ => true

/-- Process `p` does `action`, if it can. -/
def NetSystem.perform (cfg : Membership) (machine : Machine) (s : NetSystem)
    (move : ℕ × NetAction) : NetSystem :=
  if cfg.IsPid move.1 ∧ (s move.1).status = .running ∧ s.delivers cfg move.1 move.2 then
    match (s move.1).act machine move.2 with
    | some P => Function.update s move.1 P
    | none => s
  else s

/-- The state at the end of a script. -/
def play (cfg : Membership) (numMsg : ℕ → ℕ) (machine : Machine) (script : List (ℕ × NetAction)) :
    NetSystem :=
  script.foldl (NetSystem.perform cfg machine) fun p => NetProcess.initial cfg (numMsg p) p

section Play

variable {cfg : Membership} {numMsg : ℕ → ℕ} {machine : Machine} {allowed : NetAction → Prop}

theorem reachable_perform {s : NetSystem} (hs : (netSystem cfg numMsg allowed).Reachable s)
    {move : ℕ × NetAction} (hallowed : allowed move.2) :
    (netSystem cfg numMsg allowed).Reachable (s.perform cfg machine move) := by
  unfold NetSystem.perform
  split
  · rename_i h
    obtain ⟨hpid, hrunning, hdelivers⟩ := h
    split
    · rename_i P hact
      refine hs.step ⟨move.1, move.2, hallowed, hpid, hrunning, fun sendto msg haction => ?_, ?_,
        fun q hq => Function.update_of_ne hq ..⟩
      · rw [haction] at hdelivers
        obtain ⟨r, hr, hsent⟩ := List.any_eq_true.mp hdelivers
        rw [List.mem_range'_1] at hr
        exact ⟨r, ⟨hr.1, by omega⟩, of_decide_eq_true hsent⟩
      · rw [Function.update_self]
        exact netStep_of_act hact
    · exact hs
  · exact hs

theorem reachable_play {script : List (ℕ × NetAction)}
    (hallowed : ∀ move ∈ script, allowed move.2) :
    (netSystem cfg numMsg allowed).Reachable (play cfg numMsg machine script) := by
  have hfold : ∀ (script : List (ℕ × NetAction)) (s : NetSystem),
      (∀ move ∈ script, allowed move.2) → (netSystem cfg numMsg allowed).Reachable s →
      (netSystem cfg numMsg allowed).Reachable
        (script.foldl (NetSystem.perform cfg machine) s) := by
    intro script
    induction script with
    | nil => exact fun s _ hs => hs
    | cons move script ih =>
        intro s hallowed hs
        rw [List.forall_mem_cons] at hallowed
        exact ih _ hallowed.2 (reachable_perform hs hallowed.1)
  exact hfold script _ hallowed (.init rfl)

end Play

/-! ## Two processes exchange a message -/

/-- A machine for short runs. -/
def shortMachine : Machine := ⟨4, fun _ _ _ => 0⟩

/-- The message that process `1` broadcasts first. -/
def firstMsg : LcbMsg := ⟨[0, 0], 1⟩

/-- Process `1` broadcasts a message, process `2` relays it, and both pass it up; at
the end each has the acknowledgement of the other. -/
def exchange : List (ℕ × NetAction) :=
  let sent := (bebTask 2 1 ⟨firstMsg, 0, 0⟩ 2).msg
  let relayed := (bebTask 2 2 ⟨firstMsg, 0, 1⟩ 1).msg
  [(1, .copy), (1, .broadcast), (1, .bebMain), (1, .bebMain), (1, .next),
    (1, .dequeue 0), (1, .test 0), (1, .attempt true 0),
    (2, .receive true sent), (2, .deliverBeb), (2, .bebReceiver), (2, .bebReceiver), (2, .finish),
    (2, .dequeue 0), (2, .test 0), (2, .attempt true 0),
    (1, .receive true (ackMsg 2 sent)), (1, .receive true relayed), (1, .deliverBeb),
    (2, .receive true (ackMsg 1 relayed))]

/-- The state after the exchange. -/
def exchanged : NetSystem := play fifoMembership (fun _ => 1) shortMachine exchange

end CausalBroadcast
