import CausalBroadcast.Parser.Lines

/-!
# Where the parser leaves its arrays

`add_entry` lets the pid `N + 1` through, for which there is no address, and nothing
limits how many numbers of a line go to `dep_pid_buf`.  These are the only ways out of
the arrays: `parseMembershipArgs_inside_iff` says when the call has a meaning, which
asks in addition that `atoi` can represent the numbers that are read.
-/

namespace CausalBroadcast

/-- The first line of a file for `N` processes that is not accepted is one of the lines
`hostOut` of the address book or `sourceOut` of the dependencies. -/
def StopsInFile (hostOut sourceOut : List Char → Prop) (N : ℕ) (file : List Char) : Prop :=
  StopsAt (HostAccepted N) hostOut (hostLines N file) ∨
    ((∀ line ∈ hostLines N file, HostAccepted N line) ∧
      StopsAt (SourceAccepted N) sourceOut (sourceLines N file))

/-- The parser comes to a line that gives an address to process `N + 1`, or to a line with
more than `N` dependencies. -/
def LeavesArrays (fopen : List Char → Option (List Char)) (argv : List (List Char)) : Prop :=
  ∃ selfPid numMsg text N, argsReading fopen argv = .entry (selfPid, numMsg, text) ∧
    firstLine text = .entry N ∧ StopsInFile (HostOutside N) (SourceOutside N) N text

/-- The parser comes to a number that does not fit an `int`. -/
def LeavesInt (fopen : List Char → Option (List Char)) (argv : List (List Char)) : Prop :=
  argsReading fopen argv = .overflow ∨
    ∃ selfPid numMsg text, argsReading fopen argv = .entry (selfPid, numMsg, text) ∧
      (firstLine text = .overflow ∨ ∃ N, firstLine text = .entry N ∧
        StopsInFile (fun line => hostLine line = .overflow) (SourceOverflow N) N text)

theorem stopsAt_or {accepted out out' : List Char → Prop} {lines : List (List Char)} :
    StopsAt accepted (fun line => out line ∨ out' line) lines ↔
      StopsAt accepted out lines ∨ StopsAt accepted out' lines := by
  induction lines with
  | nil => simp [not_stopsAt_nil]
  | cons line lines ih =>
      rw [stopsAt_cons, stopsAt_cons, stopsAt_cons, ih]
      tauto

theorem stopsInFile_or {hostOut hostOut' sourceOut sourceOut' : List Char → Prop} {N : ℕ}
    {file : List Char} :
    StopsInFile (fun line => hostOut line ∨ hostOut' line)
        (fun line => sourceOut line ∨ sourceOut' line) N file ↔
      StopsInFile hostOut sourceOut N file ∨ StopsInFile hostOut' sourceOut' N file := by
  unfold StopsInFile
  rw [stopsAt_or, stopsAt_or]
  tauto

theorem allocAddrBook_hasSize (N : ℕ) : (allocAddrBook N).HasSize N := ⟨rfl, List.length_replicate⟩

theorem allocDependencies_hasSize (N : ℕ) : (allocDependencies N).HasSize N :=
  ⟨rfl, List.length_replicate⟩

/-- The first loop, from the opened file. -/
theorem hostLoop_undefined_iff (N : ℕ) (data : ParserData) (file : List Char) :
    eachLine readHost N (data.opened N (chunk '\n' (lineMaxLength - 1) file).2) = .undefined ↔
      StopsAt (HostAccepted N) (fun line => hostLine line = .overflow ∨ HostOutside N line)
        (hostLines N file) :=
  (readHost_readsLines N).eachLine_undefined_iff (allocAddrBook_hasSize N) N

theorem hostLoop_ok_iff {N : ℕ} {data mid : ParserData} {file : List Char} :
    eachLine readHost N (data.opened N (chunk '\n' (lineMaxLength - 1) file).2) = .ok () mid ↔
      (∀ line ∈ hostLines N file, HostAccepted N line) ∧
        mid = ((hostLines N file).foldl (fun data line => storeHost line data)
          (data.opened N (chunk '\n' (lineMaxLength - 1) file).2)).withFile (afterHosts N file) :=
  (readHost_readsLines N).eachLine_ok_iff (allocAddrBook_hasSize N) N

/-- The second loop, from data whose file is what the first loop left. -/
theorem sourceLoop_undefined_iff {N : ℕ} {mid : ParserData} {file : List Char}
    (hmid : mid.membershipFile = afterHosts N file) :
    eachLine (readDependencies N) N (mid.withoutLists N) = .undefined ↔
      StopsAt (SourceAccepted N) (fun line => SourceOverflow N line ∨ SourceOutside N line)
        (sourceLines N file) := by
  rw [(readDependencies_readsLines N).eachLine_undefined_iff (allocDependencies_hasSize N) N]
  show StopsAt _ _ (readLines N mid.membershipFile).1 ↔ _
  rw [hmid]
  rfl

theorem sourceLoop_ok_iff {N : ℕ} {mid data' : ParserData} {file : List Char}
    (hmid : mid.membershipFile = afterHosts N file) :
    eachLine (readDependencies N) N (mid.withoutLists N) = .ok () data' ↔
      (∀ line ∈ sourceLines N file, SourceAccepted N line) ∧
        data' = ((sourceLines N file).foldl (fun data line => storeSource line data)
          (mid.withoutLists N)).withFile
            (readLines N (afterHosts N file)).2 := by
  rw [(readDependencies_readsLines N).eachLine_ok_iff (allocDependencies_hasSize N) N]
  show (∀ line ∈ (readLines N mid.membershipFile).1, _) ∧
    data' = ParserData.withFile ((readLines N mid.membershipFile).1.foldl _ _)
      (readLines N mid.membershipFile).2 ↔ _
  rw [hmid]
  rfl

theorem fileLoops_undefined_iff (N : ℕ) (data : ParserData) (file : List Char) :
    (eachLine readHost N (data.opened N (chunk '\n' (lineMaxLength - 1) file).2)).andThen
        (fun _ mid => eachLine (readDependencies N) N (mid.withoutLists N)) = .undefined ↔
      StopsInFile (fun line => hostLine line = .overflow) (SourceOverflow N) N file ∨
        StopsInFile (HostOutside N) (SourceOutside N) N file := by
  rw [← stopsInFile_or, StopsInFile, ← hostLoop_undefined_iff N data file]
  cases hrun : eachLine readHost N (data.opened N (chunk '\n' (lineMaxLength - 1) file).2) with
  | ok value mid =>
      have hok := hostLoop_ok_iff.mp hrun
      show eachLine (readDependencies N) N (mid.withoutLists N) = .undefined ↔ _
      rw [sourceLoop_undefined_iff (by rw [hok.2]; rfl)]
      exact ⟨fun hstops => .inr ⟨hok.1, hstops⟩, fun hstops => hstops.elim nofun And.right⟩
  | error code mid =>
      refine ⟨nofun, fun hstops => hstops.elim nofun fun hall => ?_⟩
      rw [hostLoop_ok_iff.mpr ⟨hall.1, rfl⟩] at hrun
      cases hrun
  | running mid =>
      refine ⟨nofun, fun hstops => hstops.elim nofun fun hall => ?_⟩
      rw [hostLoop_ok_iff.mpr ⟨hall.1, rfl⟩] at hrun
      cases hrun
  | undefined => exact ⟨fun _ => .inl rfl, fun _ => rfl⟩

theorem parseMembershipFile_undefined_iff (data : ParserData) :
    parseMembershipFile data = .undefined ↔ firstLine data.membershipFile = .overflow ∨
      ∃ N, firstLine data.membershipFile = .entry N ∧
        (StopsInFile (fun line => hostLine line = .overflow) (SourceOverflow N) N
            data.membershipFile ∨
          StopsInFile (HostOutside N) (SourceOutside N) N data.membershipFile) := by
  rw [parseMembershipFile_eq_loops]
  cases hfirst : firstLine data.membershipFile with
  | overflow => exact ⟨fun _ => .inl rfl, fun _ => rfl⟩
  | rejected => exact ⟨nofun, fun h => h.elim nofun fun ⟨N, hN, _⟩ => nomatch hN⟩
  | entry N =>
      have hloops := fileLoops_undefined_iff N data data.membershipFile
      constructor
      · exact fun hrun => .inr ⟨N, rfl, hloops.mp hrun⟩
      · rintro (hoverflow | ⟨N', hN, hstops⟩)
        · cases hoverflow
        · cases hN
          exact hloops.mpr hstops

/-- The call has a meaning exactly when no line takes the parser out of its arrays, and
every number that it comes to fits an `int`. -/
theorem parseMembershipArgs_inside_iff (fopen : List Char → Option (List Char))
    (argv : List (List Char)) (data : ParserData) :
    parseMembershipArgs fopen argv data ≠ .undefined ↔
      ¬ LeavesArrays fopen argv ∧ ¬ LeavesInt fopen argv := by
  rw [← not_or, not_iff_not]
  have hparse := parseMembershipArgs_eq_file fopen argv data
  unfold LeavesArrays LeavesInt
  cases hargs : argsReading fopen argv with
  | overflow =>
      rw [hargs] at hparse
      exact ⟨fun _ => .inr (.inl rfl), fun _ => hparse⟩
  | rejected =>
      rw [hargs] at hparse
      obtain ⟨code, data', hrun⟩ := hparse
      rw [hrun]
      simp
  | entry args =>
      obtain ⟨selfPid, numMsg, text⟩ := args
      rw [hargs] at hparse
      rw [hparse, parseMembershipFile_undefined_iff]
      constructor
      · rintro (hoverflow | ⟨N, hN, hint | harrays⟩)
        · exact .inr (.inr ⟨selfPid, numMsg, text, rfl, .inl hoverflow⟩)
        · exact .inr (.inr ⟨selfPid, numMsg, text, rfl, .inr ⟨N, hN, hint⟩⟩)
        · exact .inl ⟨selfPid, numMsg, text, N, rfl, hN, harrays⟩
      · rintro (⟨_, _, _, N, heq, hN, harrays⟩ | hsame | ⟨_, _, _, heq, hint⟩)
        · cases heq
          exact .inr ⟨N, hN, .inr harrays⟩
        · cases hsame
        · cases heq
          exact hint.imp id fun ⟨N, hN, hstops⟩ => ⟨N, hN, .inl hstops⟩

/-- A file for one process with an address for a second one. -/
def secondHostFile : List Char := "1\n2 127.0.0.1 11002\n2\n".toList

theorem secondHost_outside :
    parseMembershipArgs (fun _ => some secondHostFile)
      ["da_proc".toList, "1".toList, "membership".toList, "1".toList]
      ⟨0, 0, 0, ⟨0, []⟩, ⟨0, []⟩, []⟩ = .undefined ∧
    firstLine secondHostFile = .entry 1 ∧ hostLine "2 127.0.0.1 11002\n".toList =
      .entry (2, ⟨htons 11002, 2130706433⟩) := by
  decide +kernel

-- `strtok` takes the fourth line for `1 2`, and the fifth has one number too many
example : parseMembershipArgs
    (fun _ => some "2\n1 127.0.0.1 11001\n2 127.0.0.1 11002\n1 2\x00 x\n2 1 1 1\n".toList)
    ["da_proc".toList, "1".toList, "membership".toList, "1".toList]
    ⟨0, 0, 0, ⟨0, []⟩, ⟨0, []⟩, []⟩ = .undefined := by
  decide +kernel

end CausalBroadcast
