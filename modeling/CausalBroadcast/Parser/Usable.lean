import CausalBroadcast.Library.Sequence
import CausalBroadcast.Model.Pending
import CausalBroadcast.Parser.Bounds

/-!
# When an accepted membership is usable

What `parse_membership_args` leaves after a return of `0` is read off the lines
(`AcceptedFile`).  The parser does not count the lines of the address book, does not ask
whether a pid comes twice, and compares neither the number of the process itself nor
the dependencies with `N`.  `usable_iff` says what this amounts to.
-/

namespace CausalBroadcast

/-! ## What is accepted -/

/-- The pid to which a line gives an address. -/
def hostPid (line : List Char) : Option ℕ :=
  match hostLine line with
  | .entry (pid, _) => some pid
  | _ => none

/-- The pid whose dependencies a line gives. -/
def sourcePid (line : List Char) : Option ℕ :=
  match sourceLine line with
  | .entry (source, _) => some source
  | _ => none

/-- The lists after one more line. -/
def storeList (lists : List (List ℕ)) (line : List Char) : List (List ℕ) :=
  match sourceLine line with
  | .entry (source, pids, _) => lists.set (source - 1) pids
  | _ => lists

/-- The dependency lists that the lines of the dependencies leave. -/
def storedLists (N : ℕ) (lines : List (List Char)) : List (List ℕ) :=
  lines.foldl storeList (List.replicate N [])

/-- The data after a return of `0`, for the arguments and the text of the file. -/
structure AcceptedFile (selfPid N : ℕ) (text : List Char) (data : ParserData) : Prop where
  selfPid_pos : 1 ≤ selfPid
  numProc_pos : 1 ≤ N
  hosts : ∀ line ∈ hostLines N text, HostAccepted N line
  sources : ∀ line ∈ sourceLines N text, SourceAccepted N line
  selfPid : data.selfPid = selfPid
  numProc : data.numProc = N
  dependencies : data.dependencies = ⟨N, storedLists N (sourceLines N text)⟩

theorem argsReading_pos {fopen : List Char → Option (List Char)} {argv : List (List Char)}
    {selfPid numMsg : ℕ} {text : List Char}
    (h : argsReading fopen argv = .entry (selfPid, numMsg, text)) : 1 ≤ selfPid := by
  unfold argsReading at h
  split at h
  · split at h
    · cases h
    · split at h
      · cases h
      · rename_i hne
        split at h
        · cases h
        · split at h
          · cases h
          · split at h
            · cases h
            · obtain ⟨rfl, -⟩ := Prod.mk.inj (Reading.entry.inj h)
              omega
  · cases h

theorem firstLine_pos {text : List Char} {N : ℕ} (h : firstLine text = .entry N) : 1 ≤ N := by
  unfold firstLine at h
  split at h
  · cases h
  · split at h
    · cases h
    · split at h
      · cases h
      · obtain rfl := Reading.entry.inj h
        omega

/-- What every line leaves alone is left alone by all of them. -/
theorem foldl_keeps {τ : Type} {store : List Char → ParserData → ParserData}
    (get : ParserData → τ) (hkeep : ∀ line data, get (store line data) = get data)
    (lines : List (List Char)) (data : ParserData) :
    get (lines.foldl (fun data line => store line data) data) = get data := by
  induction lines generalizing data with
  | nil => rfl
  | cons line lines ih => rw [List.foldl_cons, ih, hkeep]

theorem storeHost_keeps {τ : Type} (get : ParserData → τ)
    (hkeep : ∀ data pid addr, get (ParserData.withAddress data pid addr) = get data)
    (line : List Char) (data : ParserData) : get (storeHost line data) = get data := by
  unfold storeHost
  split
  · exact hkeep _ _ _
  · rfl

theorem storeSource_keeps {τ : Type} (get : ParserData → τ)
    (hkeep : ∀ data pid deps, get (ParserData.withDeps data pid deps) = get data)
    (line : List Char) (data : ParserData) : get (storeSource line data) = get data := by
  unfold storeSource
  split
  · exact hkeep _ _ _
  · rfl

theorem dependencies_storeSource (line : List Char) (data : ParserData) :
    (storeSource line data).dependencies =
      ⟨data.dependencies.numProc, storeList data.dependencies.depLists line⟩ := by
  unfold storeSource storeList
  cases sourceLine line <;> rfl

theorem dependencies_foldl (lines : List (List Char)) (data : ParserData) :
    (lines.foldl (fun data line => storeSource line data) data).dependencies =
      ⟨data.dependencies.numProc, lines.foldl storeList data.dependencies.depLists⟩ := by
  induction lines generalizing data with
  | nil => rfl
  | cons line lines ih => rw [List.foldl_cons, ih, dependencies_storeSource, List.foldl_cons]

theorem accepted_of_parse {fopen : List Char → Option (List Char)} {argv : List (List Char)}
    {data data' : ParserData} (hparse : parseMembershipArgs fopen argv data = .ok () data') :
    ∃ selfPid numMsg text N, argsReading fopen argv = .entry (selfPid, numMsg, text) ∧
      firstLine text = .entry N ∧ AcceptedFile selfPid N text data' := by
  have hargs := parseMembershipArgs_eq_file fopen argv data
  cases hreading : argsReading fopen argv with
  | overflow =>
      rw [hreading] at hargs
      cases hargs.symm.trans hparse
  | rejected =>
      rw [hreading] at hargs
      obtain ⟨code, final, hrun⟩ := hargs
      cases hrun.symm.trans hparse
  | entry args =>
      obtain ⟨selfPid, numMsg, text⟩ := args
      rw [hreading] at hargs
      rw [hargs, parseMembershipFile_eq_loops] at hparse
      cases hfirst : firstLine text with
      | overflow =>
          simp only [hfirst] at hparse
          cases hparse
      | rejected =>
          simp only [hfirst] at hparse
          cases hparse
      | entry N =>
          simp only [hfirst] at hparse
          obtain ⟨_, mid, hfirstLoop, hsecondLoop⟩ := Outcome.ok_of_andThen hparse
          obtain ⟨hhosts, hmid⟩ := hostLoop_ok_iff.mp hfirstLoop
          obtain ⟨hsources, hdata⟩ := (sourceLoop_ok_iff (by rw [hmid]; rfl)).mp hsecondLoop
          refine ⟨selfPid, numMsg, text, N, rfl, hfirst, argsReading_pos hreading,
            firstLine_pos hfirst, hhosts, hsources, ?_, ?_, ?_⟩
          -- The loops write their tables and leave what the lines before have set.
          · have hmidPid : mid.selfPid = selfPid := by
              rw [hmid]
              exact foldl_keeps _ (storeHost_keeps ParserData.selfPid fun _ _ _ => rfl) _ _
            rw [hdata]
            exact (foldl_keeps _ (storeSource_keeps ParserData.selfPid fun _ _ _ => rfl)
              _ (mid.withoutLists N)).trans hmidPid
          · have hmidProc : mid.numProc = N := by
              rw [hmid]
              exact foldl_keeps _ (storeHost_keeps ParserData.numProc fun _ _ _ => rfl) _ _
            rw [hdata]
            exact (foldl_keeps _ (storeSource_keeps ParserData.numProc fun _ _ _ => rfl)
              _ (mid.withoutLists N)).trans hmidProc
          · rw [hdata]
            exact dependencies_foldl _ _

/-! ## The addresses -/

section Hosts

variable {N : ℕ} {lines : List (List Char)}

/-- Some line gives an address to `pid`. -/
def Addressed (lines : List (List Char)) (pid : ℕ) : Prop := ∃ line ∈ lines, hostPid line = some pid

theorem hostPid_of_accepted {line : List Char} (h : HostAccepted N line) :
    ∃ pid, hostPid line = some pid ∧ 1 ≤ pid ∧ pid ≤ N := by
  obtain ⟨pid, addr, hline, hle⟩ := h
  exact ⟨pid, by rw [hostPid, hline], hostLine_pos hline, hle⟩

/-- The pids of accepted lines, in the order of the lines. -/
theorem exists_pids (h : ∀ line ∈ lines, HostAccepted N line) :
    ∃ pids : List ℕ, lines.map hostPid = pids.map some ∧ ∀ pid ∈ pids, pid ∈ List.range' 1 N := by
  induction lines with
  | nil => exact ⟨[], rfl, by simp⟩
  | cons line lines ih =>
      rw [List.forall_mem_cons] at h
      obtain ⟨pid, hpid, hpos, hle⟩ := hostPid_of_accepted h.1
      obtain ⟨pids, hpids, hrange⟩ := ih h.2
      refine ⟨pid :: pids, by rw [List.map_cons, List.map_cons, hpid, hpids],
        List.forall_mem_cons.mpr ⟨List.mem_range'_1.mpr (by omega), hrange⟩⟩

theorem length_readLines_le (n : ℕ) (file : List Char) : (readLines n file).1.length ≤ n := by
  induction n generalizing file with
  | zero => exact le_refl 0
  | succ n ih =>
      rw [readLines]
      split
      · exact Nat.zero_le _
      · exact Nat.succ_le_succ (ih _)

/-- At most `N` accepted lines give an address to each of the `N` processes exactly when
there are `N` of them for different processes. -/
theorem addressed_iff (h : ∀ line ∈ lines, HostAccepted N line) (hlength : lines.length ≤ N) :
    (∀ pid, 1 ≤ pid → pid ≤ N → Addressed lines pid) ↔
      lines.length = N ∧ (lines.map hostPid).Nodup := by
  obtain ⟨pids, hpids, hrange⟩ := exists_pids h
  have hcount : pids.length = lines.length := by
    have := congrArg List.length hpids
    rwa [List.length_map, List.length_map, eq_comm] at this
  have haddressed : ∀ pid, Addressed lines pid ↔ pid ∈ pids := by
    intro pid
    calc Addressed lines pid ↔ some pid ∈ lines.map hostPid := List.mem_map.symm
      _ ↔ some pid ∈ pids.map some := by rw [hpids]
      _ ↔ pid ∈ pids := by simp
  have hnodup : (lines.map hostPid).Nodup ↔ pids.Nodup := by
    rw [hpids]
    exact List.nodup_map_iff (Option.some_injective ℕ)
  simp only [haddressed, hnodup]
  constructor
  · intro hall
    have hsubset : List.range' 1 N ⊆ pids := by
      intro pid hpid
      rw [List.mem_range'_1] at hpid
      exact hall pid hpid.1 (by omega)
    have hrangeNodup : (List.range' 1 N).Nodup := List.nodup_range'
    have hsubperm := hrangeNodup.subperm hsubset
    have hle : N ≤ pids.length := by simpa using hsubperm.length_le
    have hperm := hsubperm.perm_of_length_le (by rw [List.length_range']; omega)
    exact ⟨by omega, hperm.nodup_iff.mp hrangeNodup⟩
  · rintro ⟨hfull, hdistinct⟩ pid hpos hle
    have hperm := (hdistinct.subperm hrange).perm_of_length_le
      (by rw [List.length_range']; omega)
    exact hperm.mem_iff.mpr (List.mem_range'_1.mpr ⟨hpos, by omega⟩)

end Hosts

/-! ## The dependency lists -/

section Lists

variable {N p : ℕ} {lines : List (List Char)}

theorem storedLists_concat (lines : List (List Char)) (line : List Char) :
    storedLists N (lines ++ [line]) = storeList (storedLists N lines) line := by
  rw [storedLists, List.foldl_concat]
  rfl

theorem length_storedLists (lines : List (List Char)) : (storedLists N lines).length = N := by
  induction lines using List.reverseRecOn with
  | nil => exact List.length_replicate
  | append_singleton lines line ih =>
      rw [storedLists_concat, storeList]
      split
      · rw [List.length_set, ih]
      · exact ih

theorem depPids_pos (depStrs : List (List Char)) : ∀ pid ∈ (depPids depStrs).1, 1 ≤ pid := by
  induction depStrs with
  | nil => simp [depPids]
  | cons depPidStr rest ih =>
      rw [depPids]
      cases atoi depPidStr with
      | none => simp
      | some depPid =>
          by_cases hzero : toSizeT depPid = 0
          · by_cases hnewline : depPidStr = ['\n']
            · simp only [if_pos hzero, if_pos hnewline]
              exact ih
            · simp [hzero, hnewline]
          · simp only [if_neg hzero]
            exact List.forall_mem_cons.mpr ⟨by omega, ih⟩

theorem sourceLine_pids_pos {line : List Char} {source : ℕ} {pids : List ℕ}
    {ending : Reading Unit} (h : sourceLine line = .entry (source, pids, ending)) :
    ∀ pid ∈ pids, 1 ≤ pid := by
  obtain ⟨-, depStrs, hpids⟩ := sourceLine_entry h
  have hfirst : (depPids depStrs).1 = pids := congrArg Prod.fst hpids
  rw [← hfirst]
  exact depPids_pos depStrs

/-- The list stored for `p` is the one of the last line for `p`. -/
theorem storedLists_iff (hsources : ∀ line ∈ lines, SourceAccepted N line)
    (hp : 1 ≤ p ∧ p ≤ N) (good : List ℕ → Prop) (hnil : good []) :
    good ((storedLists N lines).getD (p - 1) []) ↔
      ∀ before line after pids ending, lines = before ++ line :: after →
        sourceLine line = .entry (p, pids, ending) →
        (∀ later ∈ after, sourcePid later ≠ some p) → good pids := by
  induction lines using List.reverseRecOn with
  | nil =>
      have hempty : (storedLists N []).getD (p - 1) [] = [] := by
        rw [storedLists, List.foldl_nil, List.getD_eq_getElem?_getD, List.getElem?_replicate,
          if_pos (by omega)]
        rfl
      rw [hempty]
      exact ⟨fun _ before line after pids ending heq => by simp at heq, fun _ => hnil⟩
  | append_singleton lines last ih =>
      rw [List.forall_mem_append, List.forall_mem_singleton] at hsources
      obtain ⟨hlines, source, stored, hlast, -, hle⟩ := hsources
      have hsource := sourceLine_pos hlast
      have hlastPid : sourcePid last = some source := by rw [sourcePid, hlast]
      have hstore : storedLists N (lines ++ [last]) =
          (storedLists N lines).set (source - 1) stored := by
        rw [storedLists_concat, storeList, hlast]
      have hlength := length_storedLists (N := N) lines
      rw [hstore]
      by_cases hsame : source = p
      · subst hsame
        have hread : ((storedLists N lines).set (source - 1) stored).getD (source - 1) [] =
            stored := by
          rw [List.getD_eq_getElem?_getD, List.getElem?_set_self (by omega)]
          rfl
        rw [hread]
        constructor
        · intro hgood before line after pids ending heq hline hafter
          rcases cut_of_concat heq with ⟨-, -, rfl⟩ | ⟨rest, rfl, -⟩
          · obtain ⟨-, hpids⟩ := Prod.mk.inj (Reading.entry.inj (hlast.symm.trans hline))
            obtain ⟨rfl, -⟩ := Prod.mk.inj hpids
            exact hgood
          · -- the last line is later
            exact absurd hlastPid (hafter last (by simp))
        · intro hall
          exact hall lines last [] stored (.entry ()) rfl hlast (by simp)
      · have hread : ((storedLists N lines).set (source - 1) stored).getD (p - 1) [] =
            (storedLists N lines).getD (p - 1) [] := by
          rw [List.getD_eq_getElem?_getD, List.getElem?_set_ne (by omega),
            List.getD_eq_getElem?_getD]
        rw [hread, ih hlines]
        constructor
        · intro hall before line after pids ending heq hline hafter
          rcases cut_of_concat heq with ⟨-, -, rfl⟩ | ⟨rest, rfl, hcut⟩
          · obtain ⟨hsource', -⟩ := Prod.mk.inj (Reading.entry.inj (hlast.symm.trans hline))
            exact absurd hsource' hsame
          · exact hall before line rest pids ending hcut hline fun later hlater =>
              hafter later (List.mem_append_left _ hlater)
        · intro hall before line after pids ending heq hline hafter
          refine hall before line (after ++ [last]) pids ending (by rw [heq]; simp) hline ?_
          rw [List.forall_mem_append, List.forall_mem_singleton, hlastPid]
          exact ⟨hafter, fun heq => hsame (Option.some.inj heq)⟩

end Lists

/-! ## Usable memberships -/

/-- What the layers assume of a membership. -/
structure Usable (text : List Char) (data : ParserData) : Prop where
  selfPid : 1 ≤ data.selfPid ∧ data.selfPid ≤ data.numProc
  addressed : ∀ pid, 1 ≤ pid → pid ≤ data.numProc → Addressed (hostLines data.numProc text) pid
  lists : ∀ list ∈ data.dependencies.depLists, ∀ pid ∈ list, 1 ≤ pid ∧ pid ≤ data.numProc

/-- There are `N` lines of the address book, for different processes, the number of the
process is not larger than `N`, and neither is any number on the last line with the
dependencies of a process. -/
structure Complete (selfPid N : ℕ) (text : List Char) : Prop where
  selfPid : selfPid ≤ N
  count : (hostLines N text).length = N
  distinct : ((hostLines N text).map hostPid).Nodup
  known : ∀ before line after source pids ending,
    sourceLines N text = before ++ line :: after → sourceLine line = .entry (source, pids, ending) →
    (∀ later ∈ after, sourcePid later ≠ some source) → ∀ pid ∈ pids, pid ≤ N

/-- The lists of a matrix are the lists behind the pids. -/
theorem forall_mem_lists {N : ℕ} {lists : List (List ℕ)} (hlength : lists.length = N)
    {good : List ℕ → Prop} :
    (∀ list ∈ lists, good list) ↔ ∀ p, 1 ≤ p ∧ p ≤ N → good (lists.getD (p - 1) []) := by
  constructor
  · intro hall p hp
    have hlt : p - 1 < lists.length := by omega
    rw [List.getD_eq_getElem?_getD, List.getElem?_eq_getElem hlt]
    exact hall _ (List.getElem_mem hlt)
  · intro hall list hmem
    obtain ⟨i, hlt, rfl⟩ := List.getElem_of_mem hmem
    have hgood := hall (i + 1) (by omega)
    rwa [Nat.add_sub_cancel, List.getD_eq_getElem?_getD, List.getElem?_eq_getElem hlt] at hgood

theorem AcceptedFile.usable_iff {selfPid N : ℕ} {text : List Char} {data : ParserData}
    (h : AcceptedFile selfPid N text data) : Usable text data ↔ Complete selfPid N text := by
  have hlength : (hostLines N text).length ≤ N := length_readLines_le N _
  have haddressed := addressed_iff h.hosts hlength
  have hlists : (∀ list ∈ data.dependencies.depLists, ∀ pid ∈ list, 1 ≤ pid ∧ pid ≤ N) ↔
      ∀ p, 1 ≤ p ∧ p ≤ N → ∀ before line after pids ending,
        sourceLines N text = before ++ line :: after →
        sourceLine line = .entry (p, pids, ending) →
        (∀ later ∈ after, sourcePid later ≠ some p) → ∀ pid ∈ pids, 1 ≤ pid ∧ pid ≤ N := by
    rw [h.dependencies, forall_mem_lists (length_storedLists _)]
    refine forall_congr' fun p => forall_congr' fun hp => ?_
    exact storedLists_iff h.sources hp (fun list => ∀ pid ∈ list, 1 ≤ pid ∧ pid ≤ N) (by simp)
  constructor
  · rintro ⟨hself, hall, hrange⟩
    rw [h.numProc] at hself hall hrange
    obtain ⟨hcount, hdistinct⟩ := haddressed.mp hall
    refine ⟨h.selfPid ▸ hself.2, hcount, hdistinct, ?_⟩
    intro before line after source pids ending hcut hline hafter pid hpid
    obtain ⟨source', pids', hline', -, hle⟩ := h.sources line (by rw [hcut]; simp)
    obtain ⟨rfl, -⟩ := Prod.mk.inj (Reading.entry.inj (hline'.symm.trans hline))
    exact (hlists.mp hrange source' ⟨sourceLine_pos hline', hle⟩ before line after pids ending hcut
      hline hafter pid hpid).2
  · rintro ⟨hself, hcount, hdistinct, hknown⟩
    refine ⟨?_, ?_, ?_⟩
    · rw [h.selfPid, h.numProc]
      exact ⟨h.selfPid_pos, hself⟩
    · rw [h.numProc]
      exact haddressed.mpr ⟨hcount, hdistinct⟩
    · rw [h.numProc]
      refine hlists.mpr fun p _ before line after pids ending hcut hline hafter pid hpid => ?_
      exact ⟨sourceLine_pids_pos hline pid hpid,
        hknown before line after p pids ending hcut hline hafter pid hpid⟩

/-- With a usable membership `test_vec_clock` stays inside its arrays. -/
theorem Usable.testVecClock_ok {text : List Char} {data : ParserData} (h : Usable text data)
    {lcb : Lcb} (hlists : lcb.dependencies = data.dependencies.depLists)
    (hsize : lcb.dependencies.length = data.numProc)
    (hclock : lcb.vectorClock.length = data.numProc) {vector : List ℕ}
    (hvector : vector.length = data.numProc) {pid : ℕ} (hpos : 1 ≤ pid)
    (hpid : pid ≤ data.numProc) : ∃ accepted, testVecClock vector pid lcb = .ok accepted lcb := by
  have hlist := dependencyList_getDependencies hpos (hsize.symm ▸ hpid)
  have hall : ∀ list ∈ lcb.dependencies, ∀ q ∈ list, 1 ≤ q ∧ q ≤ data.numProc := by
    rw [hlists]
    exact h.lists
  have hmem : ∀ q ∈ lcb.dependencies.getD (pid - 1) [],
      1 ≤ q ∧ q ≤ vector.length ∧ q ≤ lcb.vectorClock.length := by
    intro q hq
    rw [hvector, hclock]
    have hrange := (forall_mem_lists hsize).mp hall pid ⟨hpos, hpid⟩ q hq
    exact ⟨hrange.1, hrange.2, hrange.2⟩
  have hcompare := foldlM_compareEntry true hmem
  rcases testVecClock_cases vector pid lcb with hundefined | hok
  · simp only [testVecClock, Call.bind_apply, Call.state_apply, Outcome.ok_andThen, hlist,
      Call.access_some, compareEntries, hcompare] at hundefined
    cases hundefined
  · exact hok

/-- A file for two processes, with addresses for both and known dependencies. -/
def pairFile : List Char := "2\n1 127.0.0.1 11001\n2 127.0.0.1 11002\n1 2\n2 1\n".toList

/-- A file for two processes, with two addresses for the first one and a dependency on the
ninth. -/
def brokenFile : List Char := "2\n1 127.0.0.1 11001\n1 127.0.0.1 11002\n1 9\n2 1\n".toList

/-- The data before the call. -/
def blankData : ParserData := ⟨0, 0, 0, ⟨0, []⟩, ⟨0, []⟩, []⟩

/-- The arguments for process `selfPid`. -/
def argvOf (selfPid : String) : List (List Char) :=
  ["da_proc".toList, selfPid.toList, "membership".toList, "5".toList]

def pairData : ParserData :=
  ⟨1, 5, 2, ⟨2, [⟨63786, 2130706433⟩, ⟨64042, 2130706433⟩]⟩, ⟨2, [[2], [1]]⟩, []⟩

def brokenData : ParserData :=
  ⟨3, 5, 2, ⟨2, [⟨64042, 2130706433⟩, ⟨0, 0⟩]⟩, ⟨2, [[9], [1]]⟩, []⟩

/-- The numbers of the dependencies on a line are at most `N`. -/
def knownLine (N : ℕ) (line : List Char) : Bool :=
  match sourceLine line with
  | .entry (_, pids, _) => pids.all (· ≤ N)
  | _ => true

theorem complete_pairFile : Complete 1 2 pairFile := by
  have hknown : (sourceLines 2 pairFile).all (knownLine 2) = true := by decide +kernel
  refine ⟨by decide, by decide +kernel, by decide +kernel, ?_⟩
  intro before line after source pids ending hcut hline _ pid hpid
  rw [hcut] at hknown
  have hthis := List.all_eq_true.mp hknown line (by simp)
  rw [knownLine, hline] at hthis
  exact of_decide_eq_true (List.all_eq_true.mp hthis pid hpid)

end CausalBroadcast
