import CausalBroadcast.Library.Call
import Mathlib.Data.List.Perm.Subperm
import Mathlib.Tactic

/-!
# The data of a process

`error.h`, `data.h` and the part of the membership file that the protocol
layers read.  Pids run from `1` to `numProc`; an array indexed by a pid is read
at `pid - 1`, as in the source.  An `unsigned int` is a natural number that the
code reduces modulo `2 ^ 32`, which `u32` does here.
-/

namespace CausalBroadcast

/-- The error codes of `error.h`, in the order of its enumeration. -/
inductive ErrorCode where
  | memory
  | queue
  | addrNotFound
  | socket
  | send
  | close
  | ackLock
  | lock
  | pid
  | bind
  | thread
  | network
  | io
  | condition
  | mutex
  | file
  | args
  | table
  | pointer
  deriving DecidableEq, Repr

/-- The value of an error code: `ERROR_MEMORY` is `-128`, the others follow. -/
def ErrorCode.toInt (code : ErrorCode) : ℤ := -128 + Int.ofNat code.ctorIdx

/-- So `if (error)` and `if (error < 0)` catch the same returns. -/
theorem ErrorCode.toInt_neg (code : ErrorCode) : code.toInt < 0 := by
  cases code <;> decide

/-- Truncation to an `unsigned int`. -/
def u32 (n : ℕ) : ℕ := n % 2 ^ 32

/-- Subtraction of `unsigned int`s. -/
def u32Sub (n k : ℕ) : ℕ := u32 (n + (2 ^ 32 - k))

theorem u32_of_lt {n : ℕ} (h : n < 2 ^ 32) : u32 n = n := Nat.mod_eq_of_lt h

theorem u32_le (n : ℕ) : u32 n ≤ n := Nat.mod_le _ _

/-- `vector[pid - 1]`; there is no entry for the pid `0`. -/
def readEntry (vector : List ℕ) (pid : ℕ) : Option ℕ :=
  if pid = 0 then none else vector[pid - 1]?

/-- `vector[pid - 1] = value`; outside the array there is no result. -/
def writeEntry (vector : List ℕ) (pid value : ℕ) : Option (List ℕ) :=
  if pid = 0 ∨ vector.length < pid then none else some (vector.set (pid - 1) value)

/-- The entry of `pid`, `0` where there is none. -/
def entry (vector : List ℕ) (pid : ℕ) : ℕ := (readEntry vector pid).getD 0

theorem readEntry_eq_some {vector : List ℕ} {pid : ℕ} (hpos : 1 ≤ pid)
    (hle : pid ≤ vector.length) : readEntry vector pid = some (entry vector pid) := by
  have hne : pid ≠ 0 := by omega
  have hlt : pid - 1 < vector.length := by omega
  simp [entry, readEntry, hne, hlt]

theorem writeEntry_eq_some {vector : List ℕ} {pid : ℕ} (value : ℕ) (hpos : 1 ≤ pid)
    (hle : pid ≤ vector.length) :
    writeEntry vector pid value = some (vector.set (pid - 1) value) :=
  if_neg (by omega)

/-- Writing the entry of one pid leaves the entries of the others. -/
theorem entry_set {vector : List ℕ} {pid : ℕ} (value : ℕ) (hpos : 1 ≤ pid)
    (hle : pid ≤ vector.length) {other : ℕ} (hother : 1 ≤ other) :
    entry (vector.set (pid - 1) value) other =
      if other = pid then value else entry vector other := by
  have hne : other ≠ 0 := by omega
  unfold entry readEntry
  rw [if_neg hne, if_neg hne, List.getElem?_set]
  by_cases h : other = pid
  · subst h
    have hlt : other - 1 < vector.length := by omega
    simp [hlt]
  · rw [if_neg h, if_neg (by omega)]

theorem entry_replicate_zero (n pid : ℕ) : entry (List.replicate n 0) pid = 0 := by
  unfold entry readEntry
  split
  · rfl
  · rw [List.getElem?_replicate]
    split <;> rfl

/-- `lcb_msg_t`: a message of the causal layer. -/
structure LcbMsg where
  vecClock : List ℕ
  originalSender : ℕ
  deriving DecidableEq, Repr

/-- A line of the log file: `b seq`, written when a broadcast starts, and
`d pid seq`, written at a delivery. -/
inductive LogLine where
  | broadcast (seq : ℕ)
  | deliver (pid seq : ℕ)
  deriving DecidableEq, Repr

/-- What `parse_membership_args` makes of the membership file: the number of
processes, which `atoi` reads as an `int`, and one dependency list a process. -/
structure Membership where
  numProc : ℕ
  dependencies : List (List ℕ)
  numProc_pos : 1 ≤ numProc
  numProc_lt : numProc < 2 ^ 31
  length_dependencies : dependencies.length = numProc
  mem_range : ∀ list ∈ dependencies, ∀ pid ∈ list, 1 ≤ pid ∧ pid ≤ numProc

/-- The dependency list of `pid`. -/
def Membership.deps (cfg : Membership) (pid : ℕ) : List ℕ := cfg.dependencies.getD (pid - 1) []

/-- The pids of the running system. -/
def Membership.IsPid (cfg : Membership) (pid : ℕ) : Prop := 1 ≤ pid ∧ pid ≤ cfg.numProc

instance (cfg : Membership) (pid : ℕ) : Decidable (cfg.IsPid pid) :=
  inferInstanceAs (Decidable (_ ∧ _))

theorem Membership.isPid_of_mem_deps {cfg : Membership} {p q : ℕ} (h : q ∈ cfg.deps p) :
    cfg.IsPid q := by
  unfold Membership.deps at h
  rw [List.getD_eq_getElem?_getD] at h
  cases hlist : cfg.dependencies[p - 1]? with
  | none => simp [hlist] at h
  | some list =>
      rw [hlist] at h
      exact cfg.mem_range list (List.mem_of_getElem? hlist) q h

/-- Two processes that list only themselves: plain FIFO broadcast. -/
def fifoMembership : Membership where
  numProc := 2
  dependencies := [[1], [2]]
  numProc_pos := by decide
  numProc_lt := by decide
  length_dependencies := rfl
  mem_range := by decide

/-- A message that the layer can index with: its origin is a pid of the system
and its clock has one entry a process. -/
structure Membership.Fits (cfg : Membership) (msg : LcbMsg) : Prop where
  isPid : cfg.IsPid msg.originalSender
  length : msg.vecClock.length = cfg.numProc

/-- The part of `net_data_t` that `lcb.c`, `pending.c` and `log.c` work on.

`lcbPending` holds, for each process, the clocks of its waiting messages in the
order of the linked list.  The lines given to `write_log` are kept as they are;
its buffer is not part of this record.  `delivered` is a history: the messages
counted into `vectorClock` so far, in order. -/
structure Lcb where
  selfPid : ℕ
  numProc : ℕ
  dependencies : List (List ℕ)
  vectorClock : List ℕ
  lcbPending : List (List (List ℕ))
  log : List LogLine
  delivered : List LcbMsg
  deriving Repr

/-- The causal layer as `init_data` leaves it. -/
def Lcb.initial (cfg : Membership) (me : ℕ) : Lcb where
  selfPid := me
  numProc := cfg.numProc
  dependencies := cfg.dependencies
  vectorClock := List.replicate cfg.numProc 0
  lcbPending := List.replicate cfg.numProc []
  log := []
  delivered := []

/-- The arrays of the layer have one entry a process. -/
structure Lcb.WellFormed (cfg : Membership) (me : ℕ) (data : Lcb) : Prop where
  selfPid : data.selfPid = me
  numProc : data.numProc = cfg.numProc
  dependencies : data.dependencies = cfg.dependencies
  vectorClock : data.vectorClock.length = cfg.numProc
  lcbPending : data.lcbPending.length = cfg.numProc

theorem Lcb.initial_wellFormed (cfg : Membership) (me : ℕ) :
    (Lcb.initial cfg me).WellFormed cfg me :=
  ⟨rfl, rfl, rfl, List.length_replicate, List.length_replicate⟩

end CausalBroadcast
