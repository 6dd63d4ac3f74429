import CausalBroadcast.Parser.RoundTrip

/-!
# The parser line by line

Any text can be the membership file.  `readLines` gives the lines that the loops of the
parser read, and `hostLine` and `sourceLine` what one line says, as far as it is read.
The loops stop at the first line that is not accepted: it decides whether the call has
a meaning (`eachLine_undefined_iff`), and if there is none, the lines are stored one
after the other (`eachLine_ok_iff`).
-/

namespace CausalBroadcast

/-! ## What a line says -/

/-- What is read: a number that `atoi` cannot represent, something that is refused, or an
entry. -/
inductive Reading (α : Type) where
  | overflow
  | rejected
  | entry (value : α)
  deriving DecidableEq, Repr

/-- A line of the address book. -/
def hostLine (line : List Char) : Reading (ℕ × SockaddrIn) :=
  match strtok line with
  | pidStr :: ipv4Str :: portStr :: _ =>
      match atoi pidStr with
      | none => .overflow
      | some pid =>
          if toSizeT pid = 0 then .rejected
          else
            match inetAton ipv4Str with
            | none => .rejected
            | some ipv4 =>
                match atoi portStr with
                | none => .overflow
                | some port => .entry (toSizeT pid, ⟨htons (toUint16 port), ipv4⟩)
  | _ => .rejected

/-- The dependencies on a line up to the first token that is no number of a process, and
what this token is; `entry` is the end of the line. -/
def depPids : List (List Char) → List ℕ × Reading Unit
  | [] => ([], .entry ())
  | depPidStr :: rest =>
      match atoi depPidStr with
      | none => ([], .overflow)
      | some depPid =>
          if toSizeT depPid = 0 then
            if depPidStr = ['\n'] then depPids rest else ([], .rejected)
          else (toSizeT depPid :: (depPids rest).1, (depPids rest).2)

/-- A line of the dependencies. -/
def sourceLine (line : List Char) : Reading (ℕ × List ℕ × Reading Unit) :=
  match strtok line with
  | [] => .rejected
  | sourcePidStr :: rest =>
      match atoi sourcePidStr with
      | none => .overflow
      | some sourcePid =>
          if toSizeT sourcePid = 0 then .rejected
          else .entry (toSizeT sourcePid, depPids rest)

/-- At most `n` calls of `fgets`: the lines that are read, and what is left. -/
def readLines : ℕ → List Char → List (List Char) × List Char
  | 0, file => ([], file)
  | n + 1, file =>
      if file = [] then ([], file)
      else
        let read := chunk '\n' (lineMaxLength - 1) file
        (read.1 :: (readLines n read.2).1, (readLines n read.2).2)

/-- The first line that is not accepted is one of the lines `out`. -/
def StopsAt (accepted out : List Char → Prop) (lines : List (List Char)) : Prop :=
  ∃ before line after, lines = before ++ line :: after ∧ (∀ l ∈ before, accepted l) ∧ out line

section StopsAt

variable {accepted out : List Char → Prop} {line : List Char} {lines : List (List Char)}

theorem not_stopsAt_nil : ¬ StopsAt accepted out [] := by
  rintro ⟨before, line, after, heq, -⟩
  simp at heq

theorem stopsAt_cons :
    StopsAt accepted out (line :: lines) ↔
      out line ∨ (accepted line ∧ StopsAt accepted out lines) := by
  constructor
  · rintro ⟨before, stop, after, heq, hbefore, hout⟩
    cases before with
    | nil =>
        obtain ⟨rfl, -⟩ := List.cons.inj heq
        exact .inl hout
    | cons first before =>
        obtain ⟨rfl, rfl⟩ := List.cons.inj heq
        rw [List.forall_mem_cons] at hbefore
        exact .inr ⟨hbefore.1, before, stop, after, rfl, hbefore.2, hout⟩
  · rintro (hout | ⟨haccepted, before, stop, after, rfl, hbefore, hout⟩)
    · exact ⟨[], line, lines, rfl, by simp, hout⟩
    · exact ⟨line :: before, stop, after, rfl, List.forall_mem_cons.mpr ⟨haccepted, hbefore⟩, hout⟩

end StopsAt

/-! ## A loop over lines -/

/-- Read at most `n` lines and run `body` on each. -/
def eachLine (body : List Char → ParserCall Unit) : ℕ → ParserCall Unit
  | 0 => pure ()
  | n + 1 => do
      match ← fgets with
      | none => pure ()
      | some line => do
          body line
          eachLine body n

theorem readHosts_eq_eachLine (n : ℕ) : readHosts n = eachLine readHost n := by
  induction n with
  | zero => rfl
  | succ n ih =>
      exact congrArg (fun rest : ParserCall Unit => fgets >>= fun
        | none => pure ()
        | some line => readHost line >>= fun _ => rest) ih

theorem readDependencyLines_eq_eachLine (N n : ℕ) :
    readDependencyLines N n = eachLine (readDependencies N) n := by
  induction n with
  | zero => rfl
  | succ n ih =>
      exact congrArg (fun rest : ParserCall Unit => fgets >>= fun
        | none => pure ()
        | some line => readDependencies N line >>= fun _ => rest) ih

/-- What a body does with a line: an accepted line is stored, a line `out` has no meaning,
and all others are an error.  `Inv` is what the body needs of the data. -/
structure ReadsLines (body : List Char → ParserCall Unit) (Inv : ParserData → Prop)
    (accepted out : List Char → Prop) (store : List Char → ParserData → ParserData) : Prop where
  run_accepted : ∀ {line data}, Inv data → accepted line → body line data = .ok () (store line data)
  run_out : ∀ {line data}, Inv data → out line → body line data = .undefined
  run_rejected : ∀ {line data}, Inv data → ¬ accepted line → ¬ out line →
    ∃ code, body line data = .error code data
  inv_store : ∀ {line data}, Inv data → Inv (store line data)
  inv_withFile : ∀ {data} file, Inv data → Inv (ParserData.withFile data file)
  store_withFile : ∀ line data file,
    store line (ParserData.withFile data file) = (store line data).withFile file

namespace ReadsLines

variable {body : List Char → ParserCall Unit} {Inv : ParserData → Prop}
  {accepted out : List Char → Prop} {store : List Char → ParserData → ParserData}
  {data data' : ParserData}

theorem not_out (h : ReadsLines body Inv accepted out store) (hinv : Inv data) {line : List Char}
    (haccepted : accepted line) : ¬ out line := by
  intro hout
  have hsame := (h.run_accepted hinv haccepted).symm.trans (h.run_out hinv hout)
  cases hsame

theorem eachLine_nil (n : ℕ) (hfile : data.membershipFile = []) :
    eachLine body n data = .ok () data := by
  cases n with
  | zero => rfl
  | succ n =>
      rw [eachLine, Call.bind_apply]
      unfold fgets
      rw [Call.bind_apply, Call.state_apply, Outcome.ok_andThen, if_pos hfile]
      rfl

theorem eachLine_succ (n : ℕ) (hfile : data.membershipFile ≠ []) :
    eachLine body (n + 1) data =
      (body (chunk '\n' (lineMaxLength - 1) data.membershipFile).1
        (data.withFile (chunk '\n' (lineMaxLength - 1) data.membershipFile).2)).andThen
        fun _ => eachLine body n := by
  rw [eachLine, Call.bind_apply, fgets_apply hfile, Outcome.ok_andThen]
  rfl

theorem readLines_nil (n : ℕ) : readLines n [] = ([], []) := by
  cases n <;> rfl

theorem readLines_succ (n : ℕ) {file : List Char} (hfile : file ≠ []) :
    readLines (n + 1) file = ((chunk '\n' (lineMaxLength - 1) file).1 ::
      (readLines n (chunk '\n' (lineMaxLength - 1) file).2).1,
      (readLines n (chunk '\n' (lineMaxLength - 1) file).2).2) := by
  rw [readLines, if_neg hfile]

theorem foldl_withFile (h : ReadsLines body Inv accepted out store) (lines : List (List Char))
    (data : ParserData) (file file' : List Char) :
    (lines.foldl (fun data line => store line data) (data.withFile file)).withFile file' =
      (lines.foldl (fun data line => store line data) data).withFile file' := by
  induction lines generalizing data with
  | nil => rfl
  | cons line lines ih => rw [List.foldl_cons, List.foldl_cons, h.store_withFile, ih]

theorem eachLine_undefined_iff (h : ReadsLines body Inv accepted out store) (hinv : Inv data)
    (n : ℕ) : eachLine body n data = .undefined ↔
      StopsAt accepted out (readLines n data.membershipFile).1 := by
  induction n generalizing data with
  | zero => exact ⟨nofun, fun hstops => absurd hstops not_stopsAt_nil⟩
  | succ n ih =>
      by_cases hfile : data.membershipFile = []
      · rw [eachLine_nil _ hfile, hfile, readLines_nil]
        exact ⟨nofun, fun hstops => absurd hstops not_stopsAt_nil⟩
      · rw [eachLine_succ n hfile, readLines_succ n hfile, stopsAt_cons]
        generalize chunk '\n' (lineMaxLength - 1) data.membershipFile = read
        have hinv' := h.inv_withFile read.2 hinv
        by_cases haccepted : accepted read.1
        · rw [h.run_accepted hinv' haccepted, Outcome.ok_andThen, ih (h.inv_store hinv'),
            h.store_withFile]
          have hout := h.not_out hinv haccepted
          exact ⟨fun hstops => .inr ⟨haccepted, hstops⟩,
            fun hstops => hstops.elim (fun h => absurd h hout) And.right⟩
        · by_cases hout : out read.1
          · rw [h.run_out hinv' hout]
            exact ⟨fun _ => .inl hout, fun _ => rfl⟩
          · obtain ⟨code, hrun⟩ := h.run_rejected hinv' haccepted hout
            rw [hrun]
            exact ⟨nofun, fun hstops => hstops.elim (fun h => absurd h hout)
              fun h => absurd h.1 haccepted⟩

theorem eachLine_ok_iff (h : ReadsLines body Inv accepted out store) (hinv : Inv data) (n : ℕ) :
    eachLine body n data = .ok () data' ↔
      (∀ line ∈ (readLines n data.membershipFile).1, accepted line) ∧
        data' = ((readLines n data.membershipFile).1.foldl (fun data line => store line data)
          data).withFile (readLines n data.membershipFile).2 := by
  induction n generalizing data with
  | zero =>
      constructor
      · intro hrun
        exact ⟨by simp [readLines], (Outcome.ok.inj hrun).2.symm⟩
      · rintro ⟨-, rfl⟩
        rfl
  | succ n ih =>
      by_cases hfile : data.membershipFile = []
      · rw [eachLine_nil _ hfile, hfile, readLines_nil]
        have hsame : data.withFile [] = data := by rw [← hfile]; rfl
        constructor
        · intro hrun
          exact ⟨by simp, by rw [List.foldl_nil, hsame]; exact (Outcome.ok.inj hrun).2.symm⟩
        · rintro ⟨-, rfl⟩
          rw [List.foldl_nil, hsame]
      · rw [eachLine_succ n hfile, readLines_succ n hfile, List.forall_mem_cons, List.foldl_cons]
        generalize chunk '\n' (lineMaxLength - 1) data.membershipFile = read
        have hinv' := h.inv_withFile read.2 hinv
        by_cases haccepted : accepted read.1
        · rw [h.run_accepted hinv' haccepted, Outcome.ok_andThen, ih (h.inv_store hinv'),
            h.store_withFile, h.foldl_withFile]
          exact ⟨fun hrun => ⟨⟨haccepted, hrun.1⟩, hrun.2⟩, fun hrun => ⟨hrun.1.2, hrun.2⟩⟩
        · refine ⟨fun hrun => ?_, fun hrun => absurd hrun.1.1 haccepted⟩
          by_cases hout : out read.1
          · rw [h.run_out hinv' hout] at hrun
            cases hrun
          · obtain ⟨code, herror⟩ := h.run_rejected hinv' haccepted hout
            rw [herror] at hrun
            cases hrun

end ReadsLines

/-! ## The lines of the address book -/

/-- The line gives an address to one of the `N` processes. -/
def HostAccepted (N : ℕ) (line : List Char) : Prop :=
  ∃ pid addr, hostLine line = .entry (pid, addr) ∧ pid ≤ N

/-- The line gives an address to process `N + 1`, which `add_entry` lets through. -/
def HostOutside (N : ℕ) (line : List Char) : Prop :=
  ∃ addr, hostLine line = .entry (N + 1, addr)

/-- What a line of the address book stores. -/
def storeHost (line : List Char) (data : ParserData) : ParserData :=
  match hostLine line with
  | .entry (pid, addr) => data.withAddress pid addr
  | _ => data

/-- The pid of an entry is not zero. -/
theorem hostLine_pos {line : List Char} {pid : ℕ} {addr : SockaddrIn}
    (h : hostLine line = .entry (pid, addr)) : 1 ≤ pid := by
  unfold hostLine at h
  split at h
  · split at h
    · cases h
    · split at h
      · cases h
      · rename_i hne
        split at h
        · cases h
        · split at h
          · cases h
          · obtain ⟨rfl, -⟩ := Prod.mk.inj (Reading.entry.inj h)
            omega
  · cases h

/-- `readHost` stores what `hostLine` says, if `add_entry` takes it. -/
theorem readHost_eq_hostLine (line : List Char) (data : ParserData) :
    readHost line data =
      match hostLine line with
      | .overflow => .undefined
      | .rejected => .error .file data
      | .entry (pid, addr) => Call.failAs .file (addEntry pid addr) data := by
  unfold readHost hostLine
  rcases strtok line with _ | ⟨pidStr, _ | ⟨ipv4Str, _ | ⟨portStr, more⟩⟩⟩
  · rfl
  · rfl
  · rfl
  · show (Call.access (atoi pidStr) >>= _ : ParserCall Unit) data = _
    cases hpid : atoi pidStr with
    | none => simp [hpid]
    | some pid =>
        rw [Call.bind_apply, Call.access_some, Outcome.ok_andThen]
        by_cases hzero : toSizeT pid = 0
        · simp [hpid, hzero]
        · simp only [hpid, if_neg hzero]
          cases hip : inetAton ipv4Str with
          | none => rfl
          | some ipv4 =>
              cases hport : atoi portStr with
              | none => rfl
              | some port => rfl

theorem readHost_readsLines (N : ℕ) :
    ReadsLines readHost (fun data => data.addressBook.HasSize N) (HostAccepted N)
      (fun line => hostLine line = .overflow ∨ HostOutside N line) storeHost where
  run_accepted := by
    rintro line data hbook ⟨pid, addr, hline, hle⟩
    have hpos := hostLine_pos hline
    have hadd : addEntry pid addr data = .ok () (data.withAddress pid addr) := by
      unfold addEntry
      rw [Call.bind_apply, Call.state_apply, Outcome.ok_andThen, hbook.1, hbook.2,
        if_neg (by omega), if_neg (by omega)]
      rfl
    rw [readHost_eq_hostLine, storeHost, hline]
    simp only [Call.failAs, hadd]
  -- The pid `N + 1` passes the check of `add_entry` and is written behind the address book.
  run_out := by
    rintro line data hbook (hline | ⟨addr, hline⟩)
    · rw [readHost_eq_hostLine, hline]
    · have hadd : addEntry (N + 1) addr data = .undefined := by
        unfold addEntry
        rw [Call.bind_apply, Call.state_apply, Outcome.ok_andThen, hbook.1, hbook.2,
          if_neg (by omega), if_pos (by omega)]
        rfl
      rw [readHost_eq_hostLine, hline]
      simp only [Call.failAs, hadd]
  run_rejected := by
    intro line data hbook haccepted hout
    rw [readHost_eq_hostLine]
    cases hline : hostLine line with
    | overflow => exact absurd (.inl hline) hout
    | rejected => exact ⟨.file, rfl⟩
    | entry entry =>
        obtain ⟨pid, addr⟩ := entry
        have hpid : N + 1 < pid := by
          have hle : ¬ pid ≤ N := fun hle => haccepted ⟨pid, addr, hline, hle⟩
          have hne : pid ≠ N + 1 := fun heq => hout (.inr ⟨addr, heq ▸ hline⟩)
          omega
        have hadd : addEntry pid addr data = .error .pid data := by
          unfold addEntry
          rw [Call.bind_apply, Call.state_apply, Outcome.ok_andThen, hbook.1, if_pos hpid]
          rfl
        -- `ERROR_PID` comes out of the parser as `ERROR_FILE`.
        exact ⟨.file, by simp only [Call.failAs, hadd]⟩
  inv_store := by
    intro line data hbook
    unfold storeHost
    split
    · exact ⟨hbook.1, List.length_set.trans hbook.2⟩
    · exact hbook
  inv_withFile _ hbook := hbook
  store_withFile line data file := by
    unfold storeHost
    split <;> rfl

/-! ## The lines of the dependencies -/

/-- The line gives a list that fits the buffer to one of the `N` processes. -/
def SourceAccepted (N : ℕ) (line : List Char) : Prop :=
  ∃ source pids, sourceLine line = .entry (source, pids, .entry ()) ∧ pids.length ≤ N ∧ source ≤ N

/-- The line has more numbers than the buffer has room for. -/
def SourceOutside (N : ℕ) (line : List Char) : Prop :=
  ∃ source pids ending, sourceLine line = .entry (source, pids, ending) ∧ N < pids.length

/-- A number on the line that is read cannot be represented. -/
def SourceOverflow (N : ℕ) (line : List Char) : Prop :=
  sourceLine line = .overflow ∨
    ∃ source pids, sourceLine line = .entry (source, pids, .overflow) ∧ pids.length ≤ N

/-- What a line of the dependencies stores. -/
def storeSource (line : List Char) (data : ParserData) : ParserData :=
  match sourceLine line with
  | .entry (source, pids, _) => data.withDeps source pids
  | _ => data

/-- The source is not zero, and the numbers are those of the tokens after it. -/
theorem sourceLine_entry {line : List Char} {source : ℕ} {pids : List ℕ} {ending : Reading Unit}
    (h : sourceLine line = .entry (source, pids, ending)) :
    1 ≤ source ∧ ∃ depStrs, depPids depStrs = (pids, ending) := by
  unfold sourceLine at h
  split at h
  · cases h
  · rename_i sourcePidStr rest _
    split at h
    · cases h
    · split at h
      · cases h
      · obtain ⟨rfl, hpids⟩ := Prod.mk.inj (Reading.entry.inj h)
        exact ⟨by omega, rest, hpids⟩

theorem sourceLine_pos {line : List Char} {source : ℕ} {pids : List ℕ} {ending : Reading Unit}
    (h : sourceLine line = .entry (source, pids, ending)) : 1 ≤ source :=
  (sourceLine_entry h).1

/-- The loop over the dependencies of a line, from a buffer that is filled so far. -/
theorem readDeps_eq_depPids {N : ℕ} (depStrs : List (List Char)) (data : ParserData)
    {depPidBuf : List ℕ} (hroom : depPidBuf.length ≤ N) :
    readDeps N depStrs depPidBuf data =
      if N < depPidBuf.length + (depPids depStrs).1.length then .undefined
      else
        match (depPids depStrs).2 with
        | .overflow => .undefined
        | .rejected => .error .file data
        | .entry () => .ok (depPidBuf ++ (depPids depStrs).1) data := by
  induction depStrs generalizing depPidBuf with
  | nil =>
      rw [readDeps, depPids, List.length_nil, Nat.add_zero, if_neg (not_lt.mpr hroom),
        List.append_nil]
      rfl
  | cons depPidStr rest ih =>
      rw [readDeps, depPids, Call.bind_apply]
      cases hread : atoi depPidStr with
      | none =>
          simp [not_lt.mpr hroom]
      | some depPid =>
          rw [Call.access_some, Outcome.ok_andThen]
          by_cases hzero : toSizeT depPid = 0
          · by_cases hnewline : depPidStr = ['\n']
            · simp only [if_pos hzero, if_pos hnewline]
              exact ih hroom
            · simp only [if_pos hzero, if_neg hnewline]
              simp [not_lt.mpr hroom]
          · simp only [if_neg hzero]
            by_cases hfull : depPidBuf.length < N
            · rw [if_pos hfull, ih (by rw [List.length_append, List.length_singleton]; omega),
                List.length_append, List.length_singleton, List.length_cons, Nat.add_assoc,
                Nat.add_comm 1, List.append_assoc]
              rfl
            · rw [if_neg hfull, if_pos (by rw [List.length_cons]; omega)]
              rfl

/-- `readDependencies` stores what `sourceLine` says, if the numbers fit the buffer and
`set_dependencies` takes the list. -/
theorem readDependencies_eq_sourceLine (N : ℕ) (line : List Char) (data : ParserData) :
    readDependencies N line data =
      match sourceLine line with
      | .overflow => .undefined
      | .rejected => .error .file data
      | .entry (source, pids, ending) =>
          if N < pids.length then .undefined
          else
            match ending with
            | .overflow => .undefined
            | .rejected => .error .file data
            | .entry () => setDependencies source pids data := by
  unfold readDependencies sourceLine
  rcases strtok line with _ | ⟨sourcePidStr, rest⟩
  · rfl
  · show (Call.access (atoi sourcePidStr) >>= _ : ParserCall Unit) data = _
    cases hsource : atoi sourcePidStr with
    | none => simp [hsource]
    | some source =>
        rw [Call.bind_apply, Call.access_some, Outcome.ok_andThen]
        by_cases hzero : toSizeT source = 0
        · simp [hsource, hzero]
        · simp only [hsource, if_neg hzero]
          rw [Call.bind_apply, readDeps_eq_depPids rest data (Nat.zero_le N), List.length_nil,
            Nat.zero_add, List.nil_append]
          by_cases hmany : N < (depPids rest).1.length
          · rw [if_pos hmany, if_pos hmany]
            rfl
          · rw [if_neg hmany, if_neg hmany]
            cases (depPids rest).2 with
            | overflow => rfl
            | rejected => rfl
            | entry ending => rfl

theorem setDependencies_eq {N source : ℕ} (pids : List ℕ) {data : ParserData}
    (hsize : data.dependencies.HasSize N) (hpos : 1 ≤ source) :
    setDependencies source pids data =
      if N < source then .error .memory data else .ok () (data.withDeps source pids) := by
  unfold setDependencies
  rw [Call.bind_apply, Call.state_apply, Outcome.ok_andThen, hsize.1, hsize.2]
  by_cases hlarge : N < source
  · rw [if_pos hlarge, if_pos hlarge]
    rfl
  · rw [if_neg hlarge, if_neg hlarge, if_neg (by omega)]
    rfl

theorem readDependencies_readsLines (N : ℕ) :
    ReadsLines (readDependencies N) (fun data => data.dependencies.HasSize N) (SourceAccepted N)
      (fun line => SourceOverflow N line ∨ SourceOutside N line) storeSource where
  run_accepted := by
    rintro line data hsize ⟨source, pids, hline, hfits, hle⟩
    rw [readDependencies_eq_sourceLine, storeSource, hline]
    simp only [if_neg (not_lt.mpr hfits)]
    rw [setDependencies_eq pids hsize (sourceLine_pos hline), if_neg (not_lt.mpr hle)]
  run_out := by
    rintro line data hsize
      ((hline | ⟨source, pids, hline, hfits⟩) | ⟨source, pids, ending, hline, hmany⟩)
    · rw [readDependencies_eq_sourceLine, hline]
    · rw [readDependencies_eq_sourceLine, hline]
      simp only [if_neg (not_lt.mpr hfits)]
    · rw [readDependencies_eq_sourceLine, hline]
      simp only [if_pos hmany]
  run_rejected := by
    intro line data hsize haccepted hout
    rw [readDependencies_eq_sourceLine]
    cases hline : sourceLine line with
    | overflow => exact absurd (.inl (.inl hline)) hout
    | rejected => exact ⟨.file, rfl⟩
    | entry entry =>
        obtain ⟨source, pids, ending⟩ := entry
        have hfits : ¬ N < pids.length := fun hmany =>
          hout (.inr ⟨source, pids, ending, hline, hmany⟩)
        simp only [if_neg hfits]
        cases ending with
        | overflow => exact absurd (.inl (.inr ⟨source, pids, hline, not_lt.mp hfits⟩)) hout
        | rejected => exact ⟨.file, rfl⟩
        | entry ending =>
            have hlarge : N < source := by
              by_contra hle
              exact haccepted ⟨source, pids, hline, not_lt.mp hfits, not_lt.mp hle⟩
            refine ⟨.memory, ?_⟩
            show setDependencies source pids data = _
            rw [setDependencies_eq pids hsize (sourceLine_pos hline), if_pos hlarge]
  inv_store := by
    intro line data hsize
    unfold storeSource
    split
    · exact ⟨hsize.1, List.length_set.trans hsize.2⟩
    · exact hsize
  inv_withFile _ hsize := hsize
  store_withFile line data file := by
    unfold storeSource
    split <;> rfl

/-! ## The whole file -/

/-- The number of processes on the first line of a file. -/
def firstLine (file : List Char) : Reading ℕ :=
  if file = [] then .rejected
  else
    match atoi (chunk '\n' (lineMaxLength - 1) file).1 with
    | none => .overflow
    | some number => if toSizeT number = 0 then .rejected else .entry (toSizeT number)

/-- The lines of the address book in a file for `N` processes. -/
def hostLines (N : ℕ) (file : List Char) : List (List Char) :=
  (readLines N (chunk '\n' (lineMaxLength - 1) file).2).1

/-- The lines of the dependencies in a file for `N` processes. -/
def sourceLines (N : ℕ) (file : List Char) : List (List Char) :=
  (readLines N (readLines N (chunk '\n' (lineMaxLength - 1) file).2).2).1

/-- What is left of the file after the lines of the address book. -/
def afterHosts (N : ℕ) (file : List Char) : List Char :=
  (readLines N (chunk '\n' (lineMaxLength - 1) file).2).2

/-- The number of the process, the number of messages and the text of the file that the
arguments give. -/
def argsReading (fopen : List Char → Option (List Char)) (argv : List (List Char)) :
    Reading (ℕ × ℕ × List Char) :=
  match argv with
  | _ :: pidStr :: path :: msgStr :: _ =>
      match atoi pidStr with
      | none => .overflow
      | some selfPid =>
          if toSizeT selfPid = 0 then .rejected
          else
            match atoi msgStr with
            | none => .overflow
            | some numMsg =>
                if numMsg = 0 then .rejected
                else
                  match fopen path with
                  | none => .rejected
                  | some text => .entry (toSizeT selfPid, toSizeT numMsg, text)
  | _ => .rejected

/-- The data before the lines of the address book. -/
def ParserData.opened (data : ParserData) (N : ℕ) (rest : List Char) : ParserData :=
  { data with numProc := N, addressBook := allocAddrBook N, membershipFile := rest }

/-- The data before the lines of the dependencies. -/
def ParserData.withoutLists (data : ParserData) (N : ℕ) : ParserData :=
  { data with dependencies := allocDependencies N }

/-- `parse_membership_args` from the opened file on, in two loops. -/
theorem parseMembershipFile_eq_loops (data : ParserData) :
    parseMembershipFile data =
      match firstLine data.membershipFile with
      | .overflow => .undefined
      | .rejected => .error .file (data.withFile
          (chunk '\n' (lineMaxLength - 1) data.membershipFile).2)
      | .entry N =>
          (eachLine readHost N (data.opened N
            (chunk '\n' (lineMaxLength - 1) data.membershipFile).2)).andThen fun _ mid =>
              eachLine (readDependencies N) N (mid.withoutLists N) := by
  unfold firstLine
  by_cases hfile : data.membershipFile = []
  · rw [if_pos hfile]
    unfold parseMembershipFile fgets
    rw [Call.bind_apply, Call.bind_apply, Call.state_apply, Outcome.ok_andThen, if_pos hfile]
    have hsame : data.withFile (chunk '\n' (lineMaxLength - 1) data.membershipFile).2 = data := by
      rw [hfile]
      exact congrArg (ParserData.withFile data) hfile.symm
    rw [hsame]
    rfl
  · rw [if_neg hfile]
    unfold parseMembershipFile
    rw [Call.bind_apply, fgets_apply hfile, Outcome.ok_andThen]
    generalize chunk '\n' (lineMaxLength - 1) data.membershipFile = read
    show (Call.access (atoi read.1) >>= _ : ParserCall Unit) (data.withFile read.2) = _
    cases hread : atoi read.1 with
    | none => rfl
    | some number =>
        rw [Call.bind_apply, Call.access_some, Outcome.ok_andThen]
        by_cases hzero : toSizeT number = 0
        · simp only [if_pos hzero]
          rfl
        · simp only [if_neg hzero]
          simp only [Call.bind_apply, Call.modify_apply, Outcome.ok_andThen,
            readHosts_eq_eachLine, readDependencyLines_eq_eachLine]
          rfl

/-- What `parse_membership_args` does with its arguments. -/
theorem parseMembershipArgs_eq_file (fopen : List Char → Option (List Char))
    (argv : List (List Char)) (data : ParserData) :
    match argsReading fopen argv with
    | .overflow => parseMembershipArgs fopen argv data = .undefined
    | .rejected => ∃ code data', parseMembershipArgs fopen argv data = .error code data'
    | .entry (selfPid, numMsg, text) => parseMembershipArgs fopen argv data =
        parseMembershipFile
          { data with selfPid := selfPid, numMsg := numMsg, membershipFile := text } := by
  rcases argv with _ | ⟨prog, _ | ⟨pidStr, _ | ⟨path, _ | ⟨msgStr, more⟩⟩⟩⟩
  · exact ⟨.args, data, rfl⟩
  · exact ⟨.args, data, rfl⟩
  · exact ⟨.args, data, rfl⟩
  · exact ⟨.args, data, rfl⟩
  · unfold argsReading parseMembershipArgs
    simp only [Call.bind_apply]
    cases hself : atoi pidStr with
    | none => rfl
    | some selfPid =>
        simp only [Call.access_some, Outcome.ok_andThen]
        by_cases hzero : toSizeT selfPid = 0
        · simp only [if_pos hzero]
          exact ⟨.args, data, rfl⟩
        · simp only [if_neg hzero, Call.bind_apply, Call.modify_apply, Outcome.ok_andThen]
          cases hmsg : atoi msgStr with
          | none => rfl
          | some numMsg =>
              simp only [Call.access_some, Outcome.ok_andThen]
              by_cases hnone : numMsg = 0
              · simp only [if_pos hnone]
                exact ⟨.args, _, rfl⟩
              · simp only [if_neg hnone, Call.bind_apply, Call.modify_apply, Outcome.ok_andThen]
                cases fopen path with
                | none => exact ⟨.file, _, rfl⟩
                | some text => rfl

end CausalBroadcast
