import CausalBroadcast.Parser.Format

/-!
# Reading the membership file

`parse_membership_args` on a file in the documented format.  A line whose text fits
into the line buffer is read as it is meant (`readHosts_step`,
`readDependencyLines_step`); if its end does not fit, the rest of the end is read as
a line of its own, which is an error unless no line is read any more.  A dependency
list whose text does not fit is never what the file comes to, because a list is made
of one buffer (`readDependencyLines_fits`).
-/

namespace CausalBroadcast

/-! ## The condition -/

/-- Every line fits into the buffer of `fgets`. -/
def LinesFit {β : Type} (words : ℕ → β → List (List Char)) (trailing : ℕ → Bool) :
    ℕ → List β → Prop
  | _, [] => True
  | pid, item :: items =>
      (lineText (words pid item) ++ lineEnd (trailing pid)).length < lineMaxLength ∧
        LinesFit words trailing (pid + 1) items

/-- Every line fits, but of the last line only the text, without its end. -/
def LinesFitButEnd {β : Type} (words : ℕ → β → List (List Char)) (trailing : ℕ → Bool) :
    ℕ → List β → Prop
  | _, [] => True
  | pid, [item] => (lineText (words pid item)).length < lineMaxLength
  | pid, item :: next :: items =>
      (lineText (words pid item) ++ lineEnd (trailing pid)).length < lineMaxLength ∧
        LinesFitButEnd words trailing (pid + 1) (next :: items)

instance decidableLinesFit {β : Type} (words : ℕ → β → List (List Char)) (trailing : ℕ → Bool) :
    ∀ pid items, Decidable (LinesFit words trailing pid items)
  | _, [] => isTrue trivial
  | pid, _ :: items =>
      have := decidableLinesFit words trailing (pid + 1) items
      inferInstanceAs (Decidable (_ ∧ _))

instance decidableLinesFitButEnd {β : Type} (words : ℕ → β → List (List Char))
    (trailing : ℕ → Bool) : ∀ pid items, Decidable (LinesFitButEnd words trailing pid items)
  | _, [] => isTrue trivial
  | _, [_] => inferInstanceAs (Decidable (_ < _))
  | pid, _ :: next :: items =>
      have := decidableLinesFitButEnd words trailing (pid + 1) (next :: items)
      inferInstanceAs (Decidable (_ ∧ _))

/-- The file can be read with the line buffer: the number is an `int`, and no line is cut
where that matters. -/
structure FitsBuffer (layout : Layout) (trailing : Trailing) : Prop where
  numProc : layout.hosts.length < 2 ^ 31
  hosts : LinesFit hostWords trailing.hosts 1 layout.hosts
  dependencies : LinesFitButEnd depWords trailing.dependencies 1 layout.dependencies

/-- The data are what the file says. -/
structure ParserData.Describes (data : ParserData) (layout : Layout) : Prop where
  numProc : data.numProc = layout.hosts.length
  addressBook : data.addressBook = ⟨layout.hosts.length, layout.hosts.map Host.sockaddr⟩
  dependencies : data.dependencies = ⟨layout.hosts.length, layout.dependencies⟩

/-! ## One line -/

section Line

variable {data : ParserData} {N pid : ℕ} {line rest : List Char}

def ParserData.withAddress (data : ParserData) (pid : ℕ) (addr : SockaddrIn) : ParserData :=
  { data with addressBook := { data.addressBook with
      addresses := data.addressBook.addresses.set (pid - 1) addr } }

def ParserData.withDeps (data : ParserData) (pid : ℕ) (deps : List ℕ) : ParserData :=
  { data with dependencies := { data.dependencies with
      depLists := data.dependencies.depLists.set (pid - 1) deps } }

def ParserData.withFile (data : ParserData) (file : List Char) : ParserData :=
  { data with membershipFile := file }

theorem toSizeT_natCast {n : ℕ} (hn : n < 2 ^ 31) : toSizeT (n : ℤ) = n := by
  unfold toSizeT
  omega

theorem toUint16_natCast {n : ℕ} (hn : n < 2 ^ 16) : toUint16 (n : ℤ) = n := by
  unfold toUint16
  omega

theorem atoi_decimal_self {n : ℕ} (hn : n < 2 ^ 31) : atoi (decimal n) = some (n : ℤ) := by
  have h : atoi (decimal n ++ []) = some (n : ℤ) := atoi_decimal hn nofun
  rwa [List.append_nil] at h

theorem fgets_apply (hfile : data.membershipFile ≠ []) :
    fgets data = .ok (some (chunk '\n' (lineMaxLength - 1) data.membershipFile).1)
      (data.withFile (chunk '\n' (lineMaxLength - 1) data.membershipFile).2) := by
  unfold fgets
  rw [Call.bind_apply, Call.state_apply, Outcome.ok_andThen, if_neg hfile]
  rfl

/-- An address book with an entry for each of the `N` processes. -/
def AddrBook.HasSize (N : ℕ) (book : AddrBook) : Prop :=
  book.numProc = N ∧ book.addresses.length = N

theorem readHost_eq {ipv4Str portStr : List Char} {more : List (List Char)} {ip port : ℕ}
    (htokens : strtok line = decimal pid :: ipv4Str :: portStr :: more) (hpid : 1 ≤ pid)
    (hle : pid ≤ N) (hN : N < 2 ^ 31) (hbook : data.addressBook.HasSize N)
    (hip : inetAton ipv4Str = some ip) (hportStr : atoi portStr = some (port : ℤ))
    (hport : port < 2 ^ 16) :
    readHost line data = .ok () (data.withAddress pid ⟨htons port, ip⟩) := by
  have hlt : pid < 2 ^ 31 := hle.trans_lt hN
  have hread := atoi_decimal_self hlt
  unfold readHost
  simp only [htokens, hread, hip, hportStr, Call.bind_apply, Call.access_some, Outcome.ok_andThen,
    toSizeT_natCast hlt, toUint16_natCast hport, if_neg (Nat.pos_iff_ne_zero.mp hpid)]
  have hadd : addEntry pid ⟨htons port, ip⟩ data =
      .ok () (data.withAddress pid ⟨htons port, ip⟩) := by
    unfold addEntry
    rw [Call.bind_apply, Call.state_apply, Outcome.ok_andThen, hbook.1, hbook.2,
      if_neg (by omega), if_neg (by omega)]
    rfl
  unfold Call.failAs
  rw [hadd]

theorem readHosts_succ (n : ℕ) {read : List Char × List Char} (hne : data.membershipFile ≠ [])
    (hread : chunk '\n' (lineMaxLength - 1) data.membershipFile = read) :
    readHosts (n + 1) data =
      (readHost read.1 (data.withFile read.2)).andThen fun _ => readHosts n := by
  rw [readHosts, Call.bind_apply, fgets_apply hne, Outcome.ok_andThen, hread]
  rfl

theorem readDependencyLines_succ (n : ℕ) {read : List Char × List Char}
    (hne : data.membershipFile ≠ [])
    (hread : chunk '\n' (lineMaxLength - 1) data.membershipFile = read) :
    readDependencyLines N (n + 1) data =
      (readDependencies N read.1 (data.withFile read.2)).andThen fun _ =>
        readDependencyLines N n := by
  rw [readDependencyLines, Call.bind_apply, fgets_apply hne, Outcome.ok_andThen, hread]
  rfl

/-- What is left of the end of a line that did not fit. -/
def IsLeft (left : List Char) : Prop := ∃ ending trailing, ending ++ left = lineEnd trailing

theorem IsLeft.cases {left : List Char} (h : IsLeft left) (hne : left ≠ []) :
    left = ['\n'] ∨ left = [' ', '\n'] := by
  obtain ⟨ending, trailing, hend⟩ := h
  have hsuffix : left <:+ [' ', '\n'] := by
    have hleft : left <:+ lineEnd trailing := ⟨ending, hend⟩
    cases trailing with
    | false => exact hleft.trans ⟨[' '], rfl⟩
    | true => exact hleft
  rcases List.suffix_cons_iff.mp hsuffix with hall | htail
  · exact .inr hall
  · rcases List.suffix_cons_iff.mp htail with hone | hnil
    · exact .inl hone
    · exact absurd (List.suffix_nil.mp hnil) hne

theorem IsLeft.read {left : List Char} (h : IsLeft left) (hne : left ≠ []) (rest : List Char) :
    chunk '\n' (lineMaxLength - 1) (left ++ rest) = (left, rest) ∧
      strtok left = [['\n']] := by
  rcases h.cases hne with rfl | rfl
  · have hnil : '\n' ∉ ([] : List Char) := List.not_mem_nil
    exact ⟨chunk_line hnil (by decide) rest, rfl⟩
  · have hspace : '\n' ∉ [' '] := by decide
    exact ⟨chunk_line hspace (by decide) rest, rfl⟩

/-- It is no line of the address book. -/
theorem readHosts_left {left : List Char} (h : IsLeft left) (hne : left ≠ []) (n : ℕ)
    (hfile : data.membershipFile = left ++ rest) {final : ParserData} :
    readHosts (n + 1) data ≠ .ok () final := by
  obtain ⟨hchunk, htokens⟩ := h.read hne rest
  have hfull : data.membershipFile ≠ [] := hfile ▸ List.append_ne_nil_of_left_ne_nil hne rest
  rw [readHosts_succ n hfull (hfile ▸ hchunk)]
  unfold readHost
  rw [htokens]
  exact nofun

/-- And no line of the dependencies. -/
theorem readDependencyLines_left {left : List Char} (h : IsLeft left) (hne : left ≠ []) (n : ℕ)
    (hfile : data.membershipFile = left ++ rest) {final : ParserData} :
    readDependencyLines N (n + 1) data ≠ .ok () final := by
  obtain ⟨hchunk, htokens⟩ := h.read hne rest
  have hfull : data.membershipFile ≠ [] := hfile ▸ List.append_ne_nil_of_left_ne_nil hne rest
  have hnumber : atoi ['\n'] = some 0 := by decide
  rw [readDependencyLines_succ n hfull (hfile ▸ hchunk)]
  unfold readDependencies
  simp only [htokens, hnumber, Call.bind_apply, Call.access_some, Outcome.ok_andThen]
  exact nofun

end Line

/-! ## The address book -/

section Hosts

variable {data : ParserData} {N n pid : ℕ} {host : Host} {rest : List Char}

/-- A line whose text fits is read as it is meant. -/
theorem readHosts_step (htext : (lineText (hostWords pid host)).length < lineMaxLength)
    (trailing : Bool)
    (hfile : data.membershipFile = lineText (hostWords pid host) ++ lineEnd trailing ++ rest)
    (hpid : 1 ≤ pid) (hle : pid ≤ N) (hN : N < 2 ^ 31) (hbook : data.addressBook.HasSize N)
    (n : ℕ) :
    ∃ left, IsLeft left ∧
      (left = [] ↔ (lineText (hostWords pid host) ++ lineEnd trailing).length < lineMaxLength) ∧
      readHosts (n + 1) data =
        readHosts n ((data.withAddress pid host.sockaddr).withFile (left ++ rest)) := by
  have hfields := isField_hostWords pid host
  have hnewline := not_mem_lineText hfields (c := '\n') (by decide) (by decide) (by decide)
  obtain ⟨ending, left, hend, hchunk, hleft⟩ := chunk_lineText hnewline htext trailing rest
  have hwords : ∀ word ∈ [decimal pid, host.ipv4.text] ++ [decimal host.port],
      IsField word := hfields
  obtain ⟨close, more, htokens, hclose, -⟩ := strtok_lineText hwords ⟨left, hend⟩
  have hnodigit : NoDigit close := by
    rcases hclose with rfl | rfl
    · exact nofun
    · rintro _ ⟨⟩
      decide
  have hport := atoi_decimal (n := host.port) (host.port.isLt.trans (by norm_num)) hnodigit
  have hfull : data.membershipFile ≠ [] := by
    rw [hfile, List.append_assoc]
    refine List.append_ne_nil_of_left_ne_nil ?_ _
    exact List.append_ne_nil_of_left_ne_nil (decimal_ne_nil pid) _
  refine ⟨left, ⟨ending, trailing, hend⟩, hleft, ?_⟩
  have hhost : readHost (lineText (hostWords pid host) ++ ending) (data.withFile (left ++ rest)) =
      .ok () ((data.withFile (left ++ rest)).withAddress pid host.sockaddr) :=
    readHost_eq htokens hpid hle hN hbook (inetAton_text host.ipv4) hport host.port.isLt
  rw [readHosts_succ n hfull (hfile ▸ hchunk)]
  show (readHost (lineText (hostWords pid host) ++ ending)
    (data.withFile (left ++ rest))).andThen _ = _
  rw [hhost]
  rfl

theorem length_ip_le (ip : Ipv4) : ip.text.length ≤ 15 := by
  have hwidth : width [decimal ip.a, decimal ip.b, decimal ip.c, decimal ip.d] = _ :=
    width_intercalate '.' (List.cons_ne_nil _ _)
  have hbyte : ∀ byte : Fin 256, (decimal byte).length ≤ 3 := fun byte =>
    length_decimal_le (by norm_num) (byte.isLt.trans (by norm_num))
  have ha := hbyte ip.a
  have hb := hbyte ip.b
  have hc := hbyte ip.c
  have hd := hbyte ip.d
  simp only [width_cons, width_nil] at hwidth
  unfold Ipv4.text
  omega

/-- The text of an address line is too long by one character at most, and that is the last
digit of the port. -/
theorem hostWords_long (hpid : pid < 2 ^ 31)
    (htext : lineMaxLength ≤ (lineText (hostWords pid host)).length) :
    10 ^ 4 ≤ (host.port : ℕ) ∧ ∃ digit : Char, digit.isDigit ∧
      lineText (hostWords pid host) =
        lineText [decimal pid, host.ipv4.text, decimal (host.port / 10)] ++ [digit] ∧
      (lineText [decimal pid, host.ipv4.text, decimal (host.port / 10)]).length =
        lineMaxLength - 1 := by
  have hwidth : width (hostWords pid host) = _ := width_intercalate ' ' (List.cons_ne_nil _ _)
  have hp : (decimal pid).length ≤ 10 := length_decimal_le (by norm_num) (hpid.trans (by norm_num))
  have hip := length_ip_le host.ipv4
  have hport : (decimal host.port).length ≤ 5 :=
    length_decimal_le (by norm_num) (host.port.isLt.trans (by norm_num))
  simp only [hostWords, width_cons, width_nil] at hwidth
  unfold lineMaxLength lineText at *
  simp only [hostWords] at htext ⊢
  have hbig : 10 ^ 4 ≤ (host.port : ℕ) := by
    by_contra hlt
    have hshort : (decimal host.port).length ≤ 4 :=
      length_decimal_le (by norm_num) (not_le.mp hlt)
    omega
  have hsplit : decimal host.port =
      decimal (host.port / 10) ++ [Nat.digitChar (host.port % 10)] :=
    Nat.toDigits_of_base_le (by norm_num) (le_trans (by norm_num) hbig)
  have hdigit : (Nat.digitChar (host.port % 10)).isDigit := by
    apply isDigit_of_mem_decimal (n := host.port)
    rw [hsplit]
    exact List.mem_append_right _ List.mem_cons_self
  have htextEq : [' '].intercalate [decimal pid, host.ipv4.text, decimal host.port] =
      [' '].intercalate [decimal pid, host.ipv4.text, decimal (host.port / 10)] ++
        [Nat.digitChar (host.port % 10)] := by
    rw [hsplit]
    exact (intercalate_concat_append [decimal pid, host.ipv4.text] _ _).symm
  have hlength := congrArg List.length htextEq
  rw [List.length_append, List.length_singleton] at hlength
  exact ⟨hbig, _, hdigit, htextEq, by omega⟩

theorem htons_cut_ne {port : ℕ} (hpos : 0 < port) (hlt : port < 2 ^ 16) :
    htons (port / 10) ≠ htons port := by
  unfold htons
  omega

/-- Then a wrong port is read. -/
theorem readHosts_cut (htext : lineMaxLength ≤ (lineText (hostWords pid host)).length)
    (trailing : Bool)
    (hfile : data.membershipFile = lineText (hostWords pid host) ++ lineEnd trailing ++ rest)
    (hpid : 1 ≤ pid) (hle : pid ≤ N) (hN : N < 2 ^ 31) (hbook : data.addressBook.HasSize N)
    (n : ℕ) :
    ∃ digit : Char, digit.isDigit ∧ readHosts (n + 1) data =
      readHosts n ((data.withAddress pid ⟨htons (host.port / 10), host.ipv4.value⟩).withFile
        (digit :: (lineEnd trailing ++ rest))) := by
  obtain ⟨-, digit, hdigit, hsplit, hlength⟩ := hostWords_long (hle.trans_lt hN) htext
  have hfields : ∀ word ∈ [decimal pid, host.ipv4.text, decimal (host.port / 10)],
      IsField word := by
    intro word hword
    simp only [List.mem_cons, List.not_mem_nil, or_false] at hword
    rcases hword with rfl | rfl | rfl
    · exact isField_decimal pid
    · exact isField_ip host.ipv4
    · exact isField_decimal _
  have hnewline := not_mem_lineText hfields (c := '\n') (by decide) (by decide) (by decide)
  have hchunk : chunk '\n' (lineMaxLength - 1) data.membershipFile =
      (lineText [decimal pid, host.ipv4.text, decimal (host.port / 10)],
        digit :: (lineEnd trailing ++ rest)) := by
    rw [hfile, hsplit, ← hlength, List.append_assoc, List.append_assoc]
    exact chunk_cut hnewline _
  have hfull : data.membershipFile ≠ [] := by
    rw [hfile, List.append_assoc]
    exact List.append_ne_nil_of_left_ne_nil
      (List.append_ne_nil_of_left_ne_nil (decimal_ne_nil pid) _) _
  have hport : (host.port : ℕ) / 10 < 2 ^ 16 := (Nat.div_le_self _ _).trans_lt host.port.isLt
  have htokens : strtok (lineText [decimal pid, host.ipv4.text, decimal (host.port / 10)]) =
      [decimal pid, host.ipv4.text, decimal (host.port / 10)] := strtok_words hfields
  have hhost : readHost _ (data.withFile (digit :: (lineEnd trailing ++ rest))) = _ :=
    readHost_eq htokens hpid hle hN hbook (inetAton_text host.ipv4)
      (atoi_decimal_self (hport.trans (by norm_num))) hport
  refine ⟨digit, hdigit, ?_⟩
  rw [readHosts_succ n hfull hchunk]
  show (readHost (lineText _) (data.withFile _)).andThen _ = _
  rw [hhost]
  rfl

/-- The rest of a line that was cut is no line of the address book. -/
theorem readHosts_digit {digit : Char} (hdigit : digit.isDigit) (trailing : Bool)
    (hfile : data.membershipFile = digit :: (lineEnd trailing ++ rest)) (n : ℕ)
    {final : ParserData} : readHosts (n + 1) data ≠ .ok () final := by
  have hword : IsField [digit] := by
    refine ⟨List.cons_ne_nil _ _, fun c hc => .inl ?_⟩
    rw [List.mem_singleton] at hc
    exact hc ▸ hdigit
  have hnewline : '\n' ∉ [digit] := hword.not_mem (by decide) (by decide)
  have hwords : ∀ word ∈ [] ++ [[digit]], IsField word := by
    intro word hmem
    rw [List.nil_append, List.mem_singleton] at hmem
    exact hmem ▸ hword
  obtain ⟨ending, left, hend, hchunk, hleft⟩ := chunk_lineText hnewline
    (show 1 < 32 by norm_num) trailing rest
  obtain ⟨close, more, htokens, -, hmore⟩ := strtok_lineText hwords ⟨left, hend⟩
  have hfull : data.membershipFile ≠ [] := hfile ▸ List.cons_ne_nil _ _
  have hfail : readHost ([digit] ++ ending) (data.withFile (left ++ rest)) =
      .error .file (data.withFile (left ++ rest)) := by
    unfold readHost
    rw [show [digit] ++ ending = lineText ([] ++ [[digit]]) ++ ending from rfl, htokens]
    rcases hmore with rfl | rfl <;> rfl
  have hread : chunk '\n' (lineMaxLength - 1) data.membershipFile =
      ([digit] ++ ending, left ++ rest) := by
    rw [hfile]
    exact hchunk
  rw [readHosts_succ n hfull hread]
  show (readHost ([digit] ++ ending) (data.withFile (left ++ rest))).andThen _ ≠ _
  rw [hfail]
  exact nofun

/-- The entries of the first processes, and none yet for the other `n`. -/
def bookOf (N : ℕ) (done : List SockaddrIn) (n : ℕ) : AddrBook :=
  ⟨N, done ++ List.replicate n ⟨0, 0⟩⟩

theorem bookOf_hasSize {done : List SockaddrIn} (hlength : done.length + n = N) :
    (bookOf N done n).HasSize N := by
  refine ⟨rfl, ?_⟩
  unfold bookOf
  rw [List.length_append, List.length_replicate, hlength]

theorem withAddress_bookOf {done : List SockaddrIn} (addr : SockaddrIn)
    (hbook : data.addressBook = bookOf N done (n + 1)) :
    (data.withAddress (done.length + 1) addr).addressBook = bookOf N (done ++ [addr]) n := by
  unfold ParserData.withAddress
  simp only [hbook, bookOf, List.replicate_succ, Nat.add_sub_cancel]
  rw [List.set_append_right _ _ le_rfl, Nat.sub_self, List.set_cons_zero, List.append_assoc]
  rfl

/-- Lines that fit fill the address book. -/
theorem readHosts_lines {trailing : ℕ → Bool} {hosts : List Host} (done : List SockaddrIn)
    (hfits : LinesFit hostWords trailing (done.length + 1) hosts)
    (hlength : done.length + hosts.length = N) (hN : N < 2 ^ 31)
    (hfile : data.membershipFile =
      writeLines hostWords trailing (done.length + 1) hosts ++ rest)
    (hbook : data.addressBook = bookOf N done hosts.length) :
    readHosts hosts.length data = .ok () { data with
      addressBook := ⟨N, done ++ hosts.map Host.sockaddr⟩
      membershipFile := rest } := by
  induction hosts generalizing data done with
  | nil =>
      rw [writeLines, List.nil_append] at hfile
      have hdone : data.addressBook = ⟨N, done ++ [].map Host.sockaddr⟩ := hbook
      rw [← hfile, ← hdone]
      rfl
  | cons host hosts ih =>
      obtain ⟨hline, hrest⟩ := hfits
      rw [List.length_cons] at hlength
      rw [writeLines, List.append_assoc] at hfile
      have htext : (lineText (hostWords (done.length + 1) host)).length < lineMaxLength := by
        rw [List.length_append] at hline
        omega
      have hsize : data.addressBook.HasSize N :=
        hbook ▸ bookOf_hasSize (by rw [List.length_cons]; exact hlength)
      obtain ⟨left, -, hleft, hstep⟩ := readHosts_step htext _ hfile (Nat.le_add_left 1 _)
        (by omega) hN hsize hosts.length
      rw [hleft.mpr hline, List.nil_append] at hstep
      have hdone : (done ++ [host.sockaddr]).length = done.length + 1 := List.length_append
      have hih := @ih ((data.withAddress (done.length + 1) host.sockaddr).withFile
        (writeLines hostWords trailing (done.length + 1 + 1) hosts ++ rest))
        (done ++ [host.sockaddr]) (hdone ▸ hrest) (by omega) (by rw [hdone]; rfl)
        (withAddress_bookOf _ hbook)
      rw [List.length_cons, hstep, hih, List.append_assoc]
      rfl

/-- If the book comes to what was written, and the file does not go on with the rest of a
line, the lines fit. -/
theorem linesFit_of_readHosts {trailing : ℕ → Bool} {hosts : List Host}
    (done : List SockaddrIn) {final : ParserData}
    (hlength : done.length + hosts.length = N) (hN : N < 2 ^ 31)
    (hfile : data.membershipFile =
      writeLines hostWords trailing (done.length + 1) hosts ++ rest)
    (hbook : data.addressBook = bookOf N done hosts.length)
    (hrun : readHosts hosts.length data = .ok () final)
    (hclean : ∀ left, IsLeft left → left ≠ [] → final.membershipFile ≠ left ++ rest)
    (hfinal : final.addressBook.addresses = done ++ hosts.map Host.sockaddr) :
    LinesFit hostWords trailing (done.length + 1) hosts := by
  -- the addresses that are `done` are in the book; the loop is about to read the next one
  induction hosts generalizing data done with
  | nil => trivial
  | cons host hosts ih =>
      rw [List.length_cons] at hlength hrun
      rw [writeLines, List.append_assoc] at hfile
      have hsize : data.addressBook.HasSize N :=
        hbook ▸ bookOf_hasSize (by rw [List.length_cons]; exact hlength)
      have hdone : (done ++ [host.sockaddr]).length = done.length + 1 := List.length_append
      rcases Nat.lt_or_ge (lineText (hostWords (done.length + 1) host)).length lineMaxLength with
        htext | htext
      · obtain ⟨left, hisLeft, hleft, hstep⟩ := readHosts_step htext _ hfile
          (Nat.le_add_left 1 _) (by omega) hN hsize hosts.length
        rw [hstep] at hrun
        by_cases hnil : left = []
        · rw [hnil, List.nil_append] at hrun
          refine ⟨hleft.mp hnil, ?_⟩
          have hih := @ih ((data.withAddress (done.length + 1) host.sockaddr).withFile
            (writeLines hostWords trailing (done.length + 1 + 1) hosts ++ rest))
            (done ++ [host.sockaddr]) (by omega) (by rw [hdone]; rfl)
            (withAddress_bookOf _ hbook) hrun (by rw [hfinal, List.append_assoc]; rfl)
          rwa [hdone] at hih
        · -- the rest of the end is read as a line
          exfalso
          cases hosts with
          | nil =>
              obtain ⟨-, rfl⟩ := Outcome.ok.inj hrun
              exact hclean left hisLeft hnil rfl
          | cons next hosts => exact readHosts_left hisLeft hnil _ rfl hrun
      · exfalso
        obtain ⟨digit, hdigit, hstep⟩ := readHosts_cut htext _ hfile
          (Nat.le_add_left 1 _) (by omega) hN hsize hosts.length
        rw [hstep] at hrun
        cases hosts with
        | nil =>
            -- the port is a wrong one
            obtain ⟨-, rfl⟩ := Outcome.ok.inj hrun
            have hbig := (hostWords_long (by omega) htext).1
            have haddr := (withAddress_bookOf (n := 0)
              ⟨htons (host.port / 10), host.ipv4.value⟩ hbook)
            have hsame : done ++ [⟨htons (host.port / 10), host.ipv4.value⟩] ++ [] =
                done ++ [host.sockaddr] :=
              (congrArg AddrBook.addresses haddr).symm.trans hfinal
            rw [List.append_nil, List.append_cancel_left_eq, List.singleton_inj] at hsame
            have hport : htons (host.port / 10) = htons host.port :=
              congrArg SockaddrIn.sinPort hsame
            exact htons_cut_ne (by omega) host.port.isLt hport
        | cons next hosts =>
            -- the digit that was cut off is read as the next line
            exact readHosts_digit hdigit _ rfl _ hrun

end Hosts

/-! ## The dependency lists -/

section Dependencies

variable {data : ParserData} {N pid n : ℕ} {deps : List ℕ} {rest : List Char}

/-- The tokens are read as the numbers. -/
def Spells (tokens : List (List Char)) (numbers : List ℕ) : Prop :=
  List.Forall₂ (fun token (number : ℕ) => atoi token = some (number : ℤ)) tokens numbers

theorem readDeps_spells {tokens more : List (List Char)} {depPidBuf : List ℕ}
    (hspells : Spells tokens deps) (hmore : more = [] ∨ more = [['\n']])
    (hdeps : ∀ dep ∈ deps, 1 ≤ dep ∧ dep < 2 ^ 31)
    (hroom : depPidBuf.length + deps.length ≤ N) :
    readDeps N (tokens ++ more) depPidBuf data = .ok (depPidBuf ++ deps) data := by
  induction hspells generalizing depPidBuf with
  | nil =>
      rw [List.append_nil]
      rcases hmore with rfl | rfl <;> rfl
  | @cons token dep tokens deps htoken _ ih =>
      obtain ⟨hpos, hlt⟩ := hdeps dep List.mem_cons_self
      rw [List.length_cons] at hroom
      rw [List.cons_append, readDeps, htoken, Call.bind_apply, Call.access_some,
        Outcome.ok_andThen, toSizeT_natCast hlt, if_neg (Nat.pos_iff_ne_zero.mp hpos),
        if_pos (by omega), ih (fun d hd => hdeps d (List.mem_cons_of_mem _ hd))
          (by rw [List.length_append, List.length_singleton]; omega), List.append_assoc]
      rfl

theorem spells_decimal (hdeps : ∀ dep ∈ deps, dep < 2 ^ 31) :
    Spells (deps.map decimal) deps := by
  unfold Spells
  rw [List.forall₂_map_left_iff, List.forall₂_same]
  exact fun dep hdep => atoi_decimal_self (hdeps dep hdep)

/-- A dependency list that can be stored for `pid`. -/
structure IsDepList (N pid : ℕ) (deps : List ℕ) : Prop where
  isPid : 1 ≤ pid ∧ pid ≤ N
  mem_range : ∀ dep ∈ deps, 1 ≤ dep ∧ dep ≤ N
  length_le : deps.length ≤ N

theorem isDepList_of_nodup (hpid : 1 ≤ pid ∧ pid ≤ N)
    (hrange : ∀ dep ∈ deps, 1 ≤ dep ∧ dep ≤ N) (hnodup : deps.Nodup) : IsDepList N pid deps := by
  refine ⟨hpid, hrange, ?_⟩
  have hsubset : deps ⊆ List.range' 1 N := by
    intro dep hdep
    rw [List.mem_range'_1]
    have := hrange dep hdep
    omega
  simpa using (hnodup.subperm hsubset).length_le

/-- The dependency lists have an entry for each of the `N` processes. -/
def Dependencies.HasSize (N : ℕ) (dependencies : Dependencies) : Prop :=
  dependencies.numProc = N ∧ dependencies.depLists.length = N

/-- A line of which at most the end is cut off is read as it is meant. -/
theorem readDependencies_lineText (hlist : IsDepList N pid deps) (hN : N < 2 ^ 31)
    (hsize : data.dependencies.HasSize N) {trailing : Bool} {ending : List Char}
    (hending : ending <+: lineEnd trailing) :
    readDependencies N (lineText (depWords pid deps) ++ ending) data =
      .ok () (data.withDeps pid deps) := by
  have hlt : ∀ number ∈ pid :: deps, number < 2 ^ 31 := by
    intro number hnumber
    rcases List.mem_cons.mp hnumber with rfl | hdep
    · exact hlist.isPid.2.trans_lt hN
    · exact (hlist.mem_range number hdep).2.trans_lt hN
  -- Only the last token can carry the line feed, and that may be the pid itself.
  obtain ⟨numbers, last, hnumbers⟩ : ∃ numbers last, pid :: deps = numbers ++ [last] :=
    ⟨_, _, (List.dropLast_append_getLast (List.cons_ne_nil pid deps)).symm⟩
  have hwords : depWords pid deps = numbers.map decimal ++ [decimal last] := by
    unfold depWords
    rw [hnumbers, List.map_append]
    rfl
  have hfields : ∀ word ∈ numbers.map decimal ++ [decimal last], IsField word :=
    fun word hword => isField_depWords pid deps word (hwords ▸ hword)
  obtain ⟨close, more, htokens, hclose, hmore⟩ := strtok_lineText hfields hending
  have hlast : atoi (decimal last ++ close) = some (last : ℤ) := by
    refine atoi_decimal (hlt last (hnumbers ▸ List.mem_append_right _ List.mem_cons_self)) ?_
    rcases hclose with rfl | rfl
    · exact nofun
    · rintro _ ⟨⟩
      decide
  have hspells : Spells (numbers.map decimal ++ [decimal last ++ close]) (pid :: deps) := by
    rw [hnumbers]
    refine List.rel_append (spells_decimal fun number hmem => ?_) (.cons hlast .nil)
    exact hlt number (hnumbers ▸ List.mem_append_left _ hmem)
  rw [hwords]
  unfold readDependencies
  rw [htokens]
  generalize numbers.map decimal ++ [decimal last ++ close] = spelled at hspells
  obtain _ | ⟨hpidStr, hdepStrs⟩ := hspells
  have hpid : pid < 2 ^ 31 := hlt pid List.mem_cons_self
  have hroom : ([] : List ℕ).length + deps.length ≤ N := (Nat.zero_add _).le.trans hlist.length_le
  have hdeps : ∀ d, readDeps N _ [] d = .ok ([] ++ deps) d := fun _ =>
    readDeps_spells hdepStrs hmore (fun dep hdep =>
      ⟨(hlist.mem_range dep hdep).1, hlt dep (List.mem_cons_of_mem _ hdep)⟩) hroom
  have hone := hlist.isPid.1
  have htwo := hlist.isPid.2
  simp only [List.cons_append, hpidStr, Call.bind_apply, Call.access_some, Outcome.ok_andThen,
    toSizeT_natCast hpid, if_neg (Nat.pos_iff_ne_zero.mp hone), hdeps, List.nil_append]
  unfold setDependencies
  rw [Call.bind_apply, Call.state_apply, Outcome.ok_andThen, hsize.1, hsize.2,
    if_neg (by omega), if_neg (by omega)]
  rfl

theorem readDependencyLines_step (htext : (lineText (depWords pid deps)).length < lineMaxLength)
    (trailing : Bool)
    (hfile : data.membershipFile = lineText (depWords pid deps) ++ lineEnd trailing ++ rest)
    (hlist : IsDepList N pid deps) (hN : N < 2 ^ 31) (hsize : data.dependencies.HasSize N)
    (n : ℕ) :
    ∃ left, IsLeft left ∧
      (left = [] ↔ (lineText (depWords pid deps) ++ lineEnd trailing).length < lineMaxLength) ∧
      readDependencyLines N (n + 1) data =
        readDependencyLines N n ((data.withDeps pid deps).withFile (left ++ rest)) := by
  have hnewline := not_mem_lineText (isField_depWords pid deps) (c := '\n') (by decide)
    (by decide) (by decide)
  obtain ⟨ending, left, hend, hchunk, hleft⟩ := chunk_lineText hnewline htext trailing rest
  have hfull : data.membershipFile ≠ [] := by
    rw [hfile, List.append_assoc]
    refine List.append_ne_nil_of_right_ne_nil _ (List.append_ne_nil_of_left_ne_nil ?_ _)
    cases trailing <;> exact List.cons_ne_nil _ _
  refine ⟨left, ⟨ending, trailing, hend⟩, hleft, ?_⟩
  have hpart : ending <+: lineEnd trailing := ⟨left, hend⟩
  have hsize' : (data.withFile (left ++ rest)).dependencies.HasSize N := hsize
  have hdeps := readDependencies_lineText hlist hN hsize' hpart
  rw [readDependencyLines_succ n hfull (hfile ▸ hchunk)]
  show (readDependencies N (lineText (depWords pid deps) ++ ending)
    (data.withFile (left ++ rest))).andThen _ = _
  rw [hdeps]
  rfl

/-- The lists of the first processes, and none yet for the other `n`. -/
def listsOf (N : ℕ) (done : List (List ℕ)) (n : ℕ) : Dependencies :=
  ⟨N, done ++ List.replicate n []⟩

theorem listsOf_hasSize {done : List (List ℕ)} (hlength : done.length + n = N) :
    (listsOf N done n).HasSize N := by
  refine ⟨rfl, ?_⟩
  unfold listsOf
  rw [List.length_append, List.length_replicate, hlength]

theorem withDeps_listsOf {done : List (List ℕ)} (deps : List ℕ)
    (hlists : data.dependencies = listsOf N done (n + 1)) :
    (data.withDeps (done.length + 1) deps).dependencies = listsOf N (done ++ [deps]) n := by
  unfold ParserData.withDeps
  simp only [hlists, listsOf, List.replicate_succ, Nat.add_sub_cancel]
  rw [List.set_append_right _ _ le_rfl, Nat.sub_self, List.set_cons_zero, List.append_assoc]
  rfl

section Lines

variable {trailing : ℕ → Bool} {lists : List (List ℕ)} (done : List (List ℕ))
  {final : ParserData} (hN : N < 2 ^ 31) (hlength : done.length + lists.length = N)
  (hfile : data.membershipFile = writeLines depWords trailing (done.length + 1) lists)
  (hlists : data.dependencies = listsOf N done lists.length)
  (hdeps : ∀ i deps, lists[i]? = some deps → IsDepList N (done.length + 1 + i) deps)

include hN hlength hfile hlists hdeps

/-- Lines that fit fill the dependency lists. -/
theorem readDependencyLines_lines
    (hfits : LinesFitButEnd depWords trailing (done.length + 1) lists) :
    ∃ left, readDependencyLines N lists.length data = .ok () { data with
      dependencies := ⟨N, done ++ lists⟩
      membershipFile := left } := by
  -- only of the last line may the end be cut off, as nothing is read after it
  induction lists generalizing data done with
  | nil =>
      have hdone : data.dependencies = ⟨N, done ++ []⟩ := hlists
      refine ⟨data.membershipFile, ?_⟩
      rw [← hdone]
      rfl
  | cons deps lists ih =>
      rw [List.length_cons] at hlength
      have hsize : data.dependencies.HasSize N :=
        hlists ▸ listsOf_hasSize (by rw [List.length_cons]; exact hlength)
      have hfirst : IsDepList N (done.length + 1) deps := hdeps 0 deps rfl
      have hdone : (done ++ [deps]).length = done.length + 1 := List.length_append
      rw [writeLines] at hfile
      have htext : (lineText (depWords (done.length + 1) deps)).length < lineMaxLength := by
        cases lists with
        | nil => exact hfits
        | cons next lists =>
            have hline := hfits.1
            rw [List.length_append] at hline
            omega
      obtain ⟨left, -, hleft, hstep⟩ := readDependencyLines_step htext _ hfile hfirst hN hsize
        lists.length
      cases lists with
      | nil =>
          refine ⟨left, ?_⟩
          have hlast := withDeps_listsOf (n := 0) deps hlists
          have hall : (data.withDeps (done.length + 1) deps).dependencies =
              ⟨N, done ++ [deps]⟩ := by
            rw [hlast]
            exact congrArg _ (List.append_nil _)
          rw [List.length_cons, hstep, ← hall, writeLines, List.append_nil]
          rfl
      | cons next lists =>
          rw [hleft.mpr hfits.1, List.nil_append] at hstep
          have hih := @ih ((data.withDeps (done.length + 1) deps).withFile
            (writeLines depWords trailing (done.length + 1 + 1) (next :: lists)))
            (done ++ [deps]) (by omega) (by rw [hdone]; rfl) (withDeps_listsOf _ hlists)
            (fun i list hlist => by
              rw [hdone, Nat.add_assoc, Nat.add_comm 1 i]
              exact hdeps (i + 1) list hlist) (hdone ▸ hfits.2)
          obtain ⟨left', hrun⟩ := hih
          refine ⟨left', ?_⟩
          rw [List.length_cons, hstep, hrun, List.append_assoc]
          rfl

/-- If the loop returns and the texts of the lines fit, the lines fit. -/
theorem linesFit_of_readDependencyLines
    (hrun : readDependencyLines N lists.length data = .ok () final)
    (htexts : ∀ i deps, lists[i]? = some deps →
      (lineText (depWords (done.length + 1 + i) deps)).length < lineMaxLength) :
    LinesFitButEnd depWords trailing (done.length + 1) lists := by
  induction lists generalizing data done with
  | nil => trivial
  | cons deps lists ih =>
      rw [List.length_cons] at hlength hrun
      have hsize : data.dependencies.HasSize N :=
        hlists ▸ listsOf_hasSize (by rw [List.length_cons]; exact hlength)
      have hdone : (done ++ [deps]).length = done.length + 1 := List.length_append
      have htext : (lineText (depWords (done.length + 1) deps)).length < lineMaxLength :=
        htexts 0 deps rfl
      rw [writeLines] at hfile
      obtain ⟨left, hisLeft, hleft, hstep⟩ := readDependencyLines_step htext _ hfile
        (hdeps 0 deps rfl) hN hsize lists.length
      rw [hstep] at hrun
      cases lists with
      | nil => exact htext
      | cons next lists =>
          -- what is left of a line is read as the next one, which has no number
          have hnil : left = [] := by
            by_contra hne
            exact readDependencyLines_left hisLeft hne _ rfl hrun
          rw [hnil, List.nil_append] at hrun
          refine ⟨hleft.mp hnil, ?_⟩
          have hshift : ∀ i, (done ++ [deps]).length + 1 + i = done.length + 1 + (i + 1) := by
            intro i
            omega
          have hih := @ih ((data.withDeps (done.length + 1) deps).withFile
            (writeLines depWords trailing (done.length + 1 + 1) (next :: lists)))
            (done ++ [deps]) (by omega) (by rw [hdone]; rfl) (withDeps_listsOf _ hlists)
            (fun i list hlist => hshift i ▸ hdeps (i + 1) list hlist) hrun
            (fun i list hlist => hshift i ▸ htexts (i + 1) list hlist)
          rwa [hdone] at hih

end Lines

end Dependencies

/-! ## What fits into one buffer -/

section Texts

variable {N : ℕ}

/-- A number that is read from a text without a minus sign. -/
theorem atoi_of_no_minus {text : List Char} {value : ℤ} (hminus : '-' ∉ text)
    (hread : atoi text = some value) :
    ∃ n : ℕ, value = n ∧ n < 2 ^ 31 ∧ (0 < n → (decimal n).length ≤ text.length) := by
  have hhead : (text.dropWhile isspace).head? ≠ some '-' := by
    intro hhead
    exact hminus ((List.dropWhile_suffix _).mem (List.mem_of_mem_head? hhead))
  obtain ⟨digits, hdigits, hvalue⟩ : ∃ digits : List Char, digits.length ≤ text.length ∧
      atoi text = if -2 ^ 31 ≤ (Nat.ofDigitChars 10 (digits.takeWhile Char.isDigit) 0 : ℤ) ∧
          (Nat.ofDigitChars 10 (digits.takeWhile Char.isDigit) 0 : ℤ) < 2 ^ 31
        then some (Nat.ofDigitChars 10 (digits.takeWhile Char.isDigit) 0 : ℤ) else none := by
    have hdrop := (List.dropWhile_suffix (l := text) isspace).length_le
    unfold atoi
    simp only [hhead, if_false, false_or]
    split
    · exact ⟨_, (List.tail_suffix _).length_le.trans hdrop, rfl⟩
    · exact ⟨_, hdrop, rfl⟩
  rw [hvalue] at hread
  split at hread
  · rename_i hrange
    refine ⟨_, (Option.some.inj hread).symm, by exact_mod_cast hrange.2, fun hpos => ?_⟩
    refine (length_toDigits_ofDigitChars_le ?_ fun c hc => ?_).trans
      ((List.takeWhile_prefix _).length_le.trans hdigits)
    · intro hnil
      rw [hnil] at hpos
      exact absurd hpos (lt_irrefl 0)
    · exact List.all_eq_true.mp List.all_takeWhile c hc
  · cases hread

/-- The numbers that a line is read as are not longer than its tokens. -/
theorem readDeps_width (depStrs : List (List Char)) (depPidBuf : List ℕ) (data : ParserData)
    (hminus : ∀ token ∈ depStrs, '-' ∉ token) :
    (readDeps N depStrs depPidBuf data).Meets
      (fun deps data' => data' = data ∧
        width (deps.map decimal) ≤ width (depPidBuf.map decimal) + width depStrs)
      (fun _ _ => True) fun _ => True := by
  induction depStrs generalizing depPidBuf with
  | nil => exact ⟨rfl, Nat.le_refl _⟩
  | cons token depStrs ih =>
      have hrest := fun buf => ih buf fun t ht => hminus t (List.mem_cons_of_mem _ ht)
      rw [readDeps, Call.bind_apply]
      cases hread : atoi token with
      | none => trivial
      | some value =>
          obtain ⟨n, rfl, hlt, hlength⟩ :=
            atoi_of_no_minus (hminus token List.mem_cons_self) hread
          rw [Call.access_some, Outcome.ok_andThen, toSizeT_natCast hlt, width_cons]
          split
          · split
            · refine (hrest depPidBuf).mono ?_ (fun _ _ => id) fun _ => id
              rintro deps data' ⟨rfl, hle⟩
              exact ⟨rfl, by omega⟩
            · trivial
          · rename_i hpos
            split
            · refine (hrest (depPidBuf ++ [n])).mono ?_ (fun _ _ => id) fun _ => id
              rintro deps data' ⟨rfl, hle⟩
              have hn := hlength (Nat.pos_of_ne_zero hpos)
              have hbuf : width ((depPidBuf ++ [n]).map decimal) =
                  width (depPidBuf.map decimal) + ((decimal n).length + 1) := by
                simp [width]
              exact ⟨rfl, by omega⟩
            · trivial

/-- The text of every list fits into the buffer. -/
def TextsFit (depLists : List (List ℕ)) : Prop :=
  ∀ i deps, depLists[i]? = some deps → (lineText (depWords (i + 1) deps)).length < lineMaxLength

/-- The text of a list is as long as its numbers with a blank each. -/
theorem length_depWords (pid : ℕ) (deps : List ℕ) :
    (lineText (depWords pid deps)).length = (decimal pid).length + width (deps.map decimal) := by
  have htext : width (depWords pid deps) = _ := width_intercalate ' ' (List.cons_ne_nil _ _)
  unfold depWords at htext
  rw [List.map_cons, width_cons] at htext
  unfold lineText depWords
  rw [List.map_cons]
  omega

theorem TextsFit.set {depLists : List (List ℕ)} (h : TextsFit depLists) {source : ℕ}
    (hpos : source ≠ 0) {deps : List ℕ}
    (htext : (lineText (depWords source deps)).length < lineMaxLength) :
    TextsFit (depLists.set (source - 1) deps) := by
  intro i list hlist
  by_cases hi : i = source - 1
  · have hlt := (List.getElem?_eq_some_iff.mp hlist).1
    rw [hi, List.length_set] at hlt
    rw [hi, List.getElem?_set_self hlt] at hlist
    rw [show i + 1 = source by omega, ← Option.some.inj hlist]
    exact htext
  · rw [List.getElem?_set_ne (Ne.symm hi)] at hlist
    exact h i list hlist

/-- A list is made of what is in one buffer. -/
theorem readDependencies_textsFit {line : List Char} (data : ParserData)
    (hminus : '-' ∉ line) (hline : line.length < lineMaxLength)
    (htexts : TextsFit data.dependencies.depLists) :
    (readDependencies N line data).Meets
      (fun _ data' => TextsFit data'.dependencies.depLists ∧
        data'.membershipFile = data.membershipFile) (fun _ _ => True) fun _ => True := by
  have hstring : (cString line).Sublist line := List.takeWhile_sublist _
  have htokens : ∀ token ∈ strtok line, '-' ∉ token := fun token hmem hmem' =>
    hminus (hstring.subset (mem_of_mem_tokens hmem hmem'))
  -- All tokens with their blanks come from one buffer; no number is written longer than its token.
  have hwidth : width (strtok line) ≤ line.length + 1 :=
    (width_tokens_le ' ' (cString line)).trans (Nat.succ_le_succ hstring.length_le)
  unfold readDependencies
  cases heq : strtok line with
  | nil => trivial
  | cons sourcePidStr rest =>
    rw [heq] at htokens hwidth
    rw [width_cons] at hwidth
    show ((Call.access (atoi sourcePidStr) >>= _ : ParserCall Unit) data).Meets _ _ _
    rw [Call.bind_apply]
    cases hread : atoi sourcePidStr with
    | none => trivial
    | some value =>
        obtain ⟨source, rfl, hlt, hlength⟩ :=
          atoi_of_no_minus (htokens sourcePidStr List.mem_cons_self) hread
        rw [Call.access_some, Outcome.ok_andThen, toSizeT_natCast hlt]
        split
        · trivial
        · rename_i hpos
          have hsource := hlength (Nat.pos_of_ne_zero hpos)
          rw [Call.bind_apply]
          refine (readDeps_width rest [] data fun token hmem =>
            htokens token (List.mem_cons_of_mem _ hmem)).andThen (fun _ _ => id) (fun _ => id) ?_
          rintro deps data' ⟨rfl, hle⟩
          unfold setDependencies
          rw [Call.bind_apply, Call.state_apply, Outcome.ok_andThen, Call.ite_apply,
            Call.ite_apply]
          split
          · trivial
          · split
            · trivial
            · rw [List.map_nil, width_nil, Nat.zero_add] at hle
              refine ⟨htexts.set hpos ?_, rfl⟩
              rw [length_depWords]
              omega

/-- The lists that the file comes to fit into the buffer. -/
theorem readDependencyLines_textsFit (n : ℕ) {data : ParserData}
    (hminus : '-' ∉ data.membershipFile) (htexts : TextsFit data.dependencies.depLists) :
    (readDependencyLines N n data).Meets
      (fun _ data' => TextsFit data'.dependencies.depLists) (fun _ _ => True)
      fun _ => True := by
  induction n generalizing data with
  | zero => exact htexts
  | succ n ih =>
      by_cases hnil : data.membershipFile = []
      · rw [readDependencyLines, Call.bind_apply]
        unfold fgets
        rw [Call.bind_apply, Call.state_apply, Outcome.ok_andThen, if_pos hnil]
        exact htexts
      · rw [readDependencyLines_succ n hnil rfl]
        have hparts := chunk_append '\n' (lineMaxLength - 1) data.membershipFile
        have hlength := chunk_length_le '\n' (lineMaxLength - 1) data.membershipFile
        rw [← hparts, List.mem_append, not_or] at hminus
        have hread := readDependencies_textsFit (N := N)
          (data.withFile (chunk '\n' (lineMaxLength - 1) data.membershipFile).2) hminus.1
          (Nat.lt_of_le_pred (by decide) hlength) htexts
        refine hread.andThen (fun _ _ => id) (fun _ => id) ?_
        rintro _ data' ⟨htexts', hfile⟩
        exact ih (hfile ▸ hminus.2) htexts'

end Texts

/-! ## What the loops leave alone -/

section Frames

variable {τ : Type} {get : ParserData → τ}
  (hfile : ∀ data file, get (ParserData.withFile data file) = get data)

include hfile

theorem fgets_frames : Call.Frames get fgets := by
  refine .bind .state fun data => .ite (.pure _) (.bind (.modify fun d => ?_) fun _ => .pure _)
  exact hfile d _

theorem readHosts_frames
    (haddress : ∀ data pid addr, get (ParserData.withAddress data pid addr) = get data) (n : ℕ) :
    Call.Frames get (readHosts n) := by
  have hadd : ∀ pid addr, Call.Frames get (addEntry pid addr) := fun pid addr =>
    .bind .state fun data => .ite (.fail _) (.ite .undef (.modify fun d => haddress d pid addr))
  have hhost : ∀ line, Call.Frames get (readHost line) := by
    intro line
    unfold readHost
    split
    · refine .bind (.access _) fun pid => .ite (.fail _) ?_
      split
      · exact .fail _
      · exact .bind (.access _) fun port => (hadd _ _).failAs _
    · exact .fail _
  induction n with
  | zero => exact .pure _
  | succ n ih =>
      refine .bind (fgets_frames hfile) fun read => ?_
      cases read with
      | none => exact .pure _
      | some line => exact .bind (hhost line) fun _ => ih

theorem readDependencyLines_frames
    (hdeps : ∀ data pid deps, get (ParserData.withDeps data pid deps) = get data) (N n : ℕ) :
    Call.Frames get (readDependencyLines N n) := by
  have hset : ∀ pid deps, Call.Frames get (setDependencies pid deps) := fun pid deps =>
    .bind .state fun data => .ite (.fail _) (.ite .undef (.modify fun d => hdeps d pid deps))
  have hread : ∀ depStrs buf, Call.Frames get (readDeps N depStrs buf) := by
    intro depStrs
    induction depStrs with
    | nil => exact fun buf => .pure _
    | cons token depStrs ih =>
        intro buf
        refine .bind (.access _) fun dep => .ite (.ite (ih buf) (.fail _)) (.ite (ih _) .undef)
  have hline : ∀ line, Call.Frames get (readDependencies N line) := by
    intro line
    unfold readDependencies
    split
    · exact .fail _
    · exact .bind (.access _) fun pid => .ite (.fail _) (.bind (hread _ _) fun deps => hset _ _)
  induction n with
  | zero => exact .pure _
  | succ n ih =>
      refine .bind (fgets_frames hfile) fun read => ?_
      cases read with
      | none => exact .pure _
      | some line => exact .bind (hline line) fun _ => ih

end Frames

/-! ## The whole file -/

section File

variable {layout : Layout} {trailing : Trailing} {data : ParserData} {N : ℕ} {rest : List Char}

theorem not_mem_writeLines {β : Type} {words : ℕ → β → List (List Char)} {trailing : ℕ → Bool}
    (hwords : ∀ pid item, ∀ word ∈ words pid item, IsField word) (pid : ℕ) (items : List β) :
    '-' ∉ writeLines words trailing pid items := by
  induction items generalizing pid with
  | nil => exact List.not_mem_nil
  | cons item items ih =>
      rw [writeLines, List.mem_append, List.mem_append, not_or, not_or]
      refine ⟨⟨not_mem_lineText (hwords pid item) (by decide) (by decide) (by decide), ?_⟩,
        ih (pid + 1)⟩
      cases trailing pid <;> decide

theorem Layout.not_mem_text (layout : Layout) (trailing : Trailing) :
    '-' ∉ layout.text trailing := by
  unfold Layout.text
  simp only [List.mem_append, not_or]
  refine ⟨⟨not_mem_decimal (by decide), ?_⟩, not_mem_writeLines isField_hostWords _ _,
    not_mem_writeLines isField_depWords _ _⟩
  cases trailing.first <;> decide

/-- The number of processes that is read is an `int`. -/
theorem parseMembershipFile_numProc (hminus : '-' ∉ data.membershipFile) :
    (parseMembershipFile data).Meets (fun _ final => final.numProc < 2 ^ 31) (fun _ _ => True)
      fun _ => True := by
  unfold parseMembershipFile
  rw [Call.bind_apply]
  by_cases hnil : data.membershipFile = []
  · unfold fgets
    rw [Call.bind_apply, Call.state_apply, Outcome.ok_andThen, if_pos hnil]
    trivial
  · have hparts := chunk_append '\n' (lineMaxLength - 1) data.membershipFile
    rw [← hparts, List.mem_append, not_or] at hminus
    rw [fgets_apply hnil, Outcome.ok_andThen]
    show ((Call.access (atoi _) >>= _ : ParserCall Unit) _).Meets _ _ _
    rw [Call.bind_apply]
    cases hread : atoi (chunk '\n' (lineMaxLength - 1) data.membershipFile).1 with
    | none => trivial
    | some value =>
        obtain ⟨n, rfl, hlt, -⟩ := atoi_of_no_minus hminus.1 hread
        rw [Call.access_some, Outcome.ok_andThen]
        simp only [toSizeT_natCast hlt]
        split
        · trivial
        · have hframes : Call.Frames ParserData.numProc (do
              readHosts n
              Call.modify fun data => { data with dependencies := allocDependencies n }
              readDependencyLines n n) :=
            .bind (readHosts_frames (fun _ _ => rfl) (fun _ _ _ => rfl) n) fun _ =>
              .bind (.modify fun _ => rfl) fun _ =>
                readDependencyLines_frames (fun _ _ => rfl) (fun _ _ _ => rfl) n n
          refine (hframes _).mono (fun _ final hsame => ?_) (fun _ _ _ => trivial)
            fun _ _ => trivial
          rw [hsame]
          exact hlt

/-- The data after the first line. -/
def ParserData.numbered (data : ParserData) (N : ℕ) (file : List Char) : ParserData :=
  { data with numProc := N, addressBook := bookOf N [] N, membershipFile := file }

/-- The data before the first dependency list. -/
def ParserData.addressed (data : ParserData) (layout : Layout) (file : List Char) : ParserData :=
  { data with
    numProc := layout.hosts.length
    addressBook := ⟨layout.hosts.length, layout.hosts.map Host.sockaddr⟩
    dependencies := listsOf layout.hosts.length [] layout.hosts.length
    membershipFile := file }

/-- From the number of processes on. -/
theorem parseMembershipFile_eq {trailing : Bool} (hpos : 1 ≤ N) (hN : N < 2 ^ 31)
    (hfile : data.membershipFile = decimal N ++ lineEnd trailing ++ rest) :
    parseMembershipFile data =
      (readHosts N (data.numbered N rest)).andThen fun _ mid =>
        readDependencyLines N N { mid with dependencies := listsOf N [] N } := by
  have hlength : (decimal N).length ≤ 10 :=
    length_decimal_le (by norm_num) (hN.trans (by norm_num))
  have hshort : (decimal N).length < lineMaxLength := by
    unfold lineMaxLength
    omega
  have hnewline : '\n' ∉ decimal N := not_mem_decimal (by decide)
  obtain ⟨ending, left, hend, hchunk, hleft⟩ := chunk_lineText hnewline hshort trailing rest
  have hnil : left = [] := by
    refine hleft.mpr ?_
    have hbound : (lineEnd trailing).length ≤ 2 := by cases trailing <;> decide
    rw [List.length_append]
    unfold lineMaxLength
    omega
  rw [hnil, List.append_nil] at hend
  rw [hnil, List.nil_append, hend] at hchunk
  have hfull : data.membershipFile ≠ [] := by
    rw [hfile, List.append_assoc]
    exact List.append_ne_nil_of_left_ne_nil (decimal_ne_nil N) _
  have hnumber : atoi (decimal N ++ lineEnd trailing) = some (N : ℤ) := by
    refine atoi_decimal hN ?_
    cases trailing
    all_goals
      rintro _ ⟨⟩
      decide
  unfold parseMembershipFile
  rw [Call.bind_apply, fgets_apply hfull, Outcome.ok_andThen, hfile, hchunk]
  show ((Call.access (atoi (decimal N ++ lineEnd trailing)) >>= _ : ParserCall Unit)
    (data.withFile rest)) = _
  rw [Call.bind_apply, hnumber, Call.access_some, Outcome.ok_andThen]
  simp only [toSizeT_natCast hN, if_neg (Nat.pos_iff_ne_zero.mp hpos)]
  rfl

/-- From the opened file on. -/
theorem parseMembershipArgs_eq {fopen : List Char → Option (List Char)}
    {prog path text : List Char} {selfPid numMsg : ℕ} (hself : 1 ≤ selfPid)
    (hselfLt : selfPid < 2 ^ 31) (hmsg : 1 ≤ numMsg) (hmsgLt : numMsg < 2 ^ 31)
    (hopen : fopen path = some text) :
    parseMembershipArgs fopen [prog, decimal selfPid, path, decimal numMsg] data =
      parseMembershipFile { data with
        selfPid := selfPid, numMsg := numMsg, membershipFile := text } := by
  have hne : (numMsg : ℤ) ≠ 0 := by omega
  simp only [parseMembershipArgs, Call.bind_apply, Call.modify_apply, atoi_decimal_self hselfLt,
    atoi_decimal_self hmsgLt, Call.access_some, Outcome.ok_andThen, toSizeT_natCast hselfLt,
    toSizeT_natCast hmsgLt, if_neg (Nat.pos_iff_ne_zero.mp hself), if_neg hne, hopen]

/-- The lists of a layout can be stored. -/
theorem Layout.isDepList (layout : Layout) (i : ℕ) (deps : List ℕ)
    (hdeps : layout.dependencies[i]? = some deps) :
    IsDepList layout.hosts.length (1 + i) deps := by
  have hlt := (List.getElem?_eq_some_iff.mp hdeps).1
  have hmem := List.mem_of_getElem? hdeps
  rw [layout.length_dependencies] at hlt
  exact isDepList_of_nodup ⟨by omega, by omega⟩ (layout.mem_range deps hmem)
    (layout.nodup deps hmem)

theorem textsFit_replicate (hN : N < 2 ^ 31) : TextsFit (List.replicate N []) := by
  intro i deps hdeps
  obtain ⟨hlt, rfl⟩ := List.getElem?_eq_some_iff.mp hdeps
  rw [List.length_replicate] at hlt
  rw [List.getElem_replicate]
  have hlength : (decimal (i + 1)).length ≤ 10 :=
    length_decimal_le (by norm_num) (by omega)
  show ([' '].intercalate [decimal (i + 1)]).length < lineMaxLength
  rw [List.intercalate_singleton]
  unfold lineMaxLength
  omega

/-- What is read after the addresses, if their lines fit. -/
theorem parseMembershipFile_addressed
    (hfile : data.membershipFile = layout.text trailing) (hN : layout.hosts.length < 2 ^ 31)
    (hfits : LinesFit hostWords trailing.hosts 1 layout.hosts) :
    parseMembershipFile data = readDependencyLines layout.hosts.length layout.dependencies.length
      (data.addressed layout
        (writeLines depWords trailing.dependencies 1 layout.dependencies)) := by
  have hpos : 1 ≤ layout.hosts.length := List.length_pos_iff.mpr layout.hosts_ne_nil
  have hhosts : readHosts layout.hosts.length (data.numbered layout.hosts.length
      (writeLines hostWords trailing.hosts 1 layout.hosts ++
        writeLines depWords trailing.dependencies 1 layout.dependencies)) = _ :=
    readHosts_lines [] hfits (Nat.zero_add _) hN rfl rfl
  rw [parseMembershipFile_eq hpos hN hfile, hhosts, layout.length_dependencies]
  rfl

theorem addressed_dependencies (data : ParserData) (layout : Layout) (file : List Char) :
    (data.addressed layout file).dependencies =
      listsOf layout.hosts.length [] layout.dependencies.length := by
  rw [layout.length_dependencies]
  rfl

/-- A file that fits into the buffer is read. -/
theorem FitsBuffer.parse (h : FitsBuffer layout trailing)
    (hfile : data.membershipFile = layout.text trailing) :
    ∃ final, parseMembershipFile data = .ok () final ∧ final.Describes layout := by
  obtain ⟨left, hrun⟩ := readDependencyLines_lines [] h.numProc
    ((Nat.zero_add _).trans layout.length_dependencies) rfl
    (addressed_dependencies data layout _) layout.isDepList h.dependencies
  rw [parseMembershipFile_addressed hfile h.numProc h.hosts]
  exact ⟨_, hrun, rfl, rfl, rfl⟩

/-- A file that is read as it is meant fits into the buffer. -/
theorem fitsBuffer_of_parse (hfile : data.membershipFile = layout.text trailing)
    {final : ParserData} (hrun : parseMembershipFile data = .ok () final)
    (hfinal : final.Describes layout) : FitsBuffer layout trailing := by
  have hpos : 1 ≤ layout.hosts.length := List.length_pos_iff.mpr layout.hosts_ne_nil
  have hN : layout.hosts.length < 2 ^ 31 := by
    have hmeets := parseMembershipFile_numProc (hfile ▸ layout.not_mem_text trailing)
    rw [hrun] at hmeets
    rw [← hfinal.numProc]
    exact hmeets
  -- The end of a host line that was cut would stand before the first dependency line.
  have hhosts : LinesFit hostWords trailing.hosts 1 layout.hosts := by
    rw [parseMembershipFile_eq hpos hN hfile] at hrun
    obtain ⟨_, mid, hmid, hlists⟩ := Outcome.ok_of_andThen hrun
    refine linesFit_of_readHosts [] (Nat.zero_add _) hN rfl rfl hmid ?_ ?_
    · intro left hleft hne hrest
      obtain ⟨n, hn⟩ : ∃ n, layout.hosts.length = n + 1 := ⟨_, (Nat.sub_add_cancel hpos).symm⟩
      generalize listsOf layout.hosts.length [] layout.hosts.length = lists at hlists
      rw [hn] at hlists
      have hfile' : ParserData.membershipFile { mid with dependencies := lists } =
          left ++ writeLines depWords trailing.dependencies 1 layout.dependencies := hrest
      exact readDependencyLines_left hleft hne n hfile' hlists
    · have hframe : Call.Frames ParserData.addressBook
          (readDependencyLines layout.hosts.length layout.hosts.length) :=
        readDependencyLines_frames (fun _ _ => rfl) (fun _ _ _ => rfl) _ _
      have hbook := hframe
        { mid with dependencies := listsOf layout.hosts.length [] layout.hosts.length }
      rw [hlists] at hbook
      have hsame : final.addressBook = mid.addressBook := hbook
      rw [← hsame, hfinal.addressBook]
      rfl
  rw [parseMembershipFile_addressed hfile hN hhosts] at hrun
  refine ⟨hN, hhosts, linesFit_of_readDependencyLines [] hN
    ((Nat.zero_add _).trans layout.length_dependencies) rfl
    (addressed_dependencies data layout _) layout.isDepList hrun fun i deps hdeps => ?_⟩
  have htexts : TextsFit (data.addressed layout
      (writeLines depWords trailing.dependencies 1 layout.dependencies)).dependencies.depLists :=
    textsFit_replicate hN
  have hmeets := readDependencyLines_textsFit layout.dependencies.length
    (not_mem_writeLines isField_depWords 1 layout.dependencies) htexts (N := layout.hosts.length)
  rw [hrun] at hmeets
  have hfits : TextsFit final.dependencies.depLists := hmeets
  rw [hfinal.dependencies] at hfits
  rw [List.length_nil, Nat.zero_add, Nat.add_comm]
  exact hfits i deps hdeps

end File

/-- The membership file is read as it is meant exactly if it fits into the line buffer. -/
theorem membershipRoundTrip_iff (layout : Layout) (trailing : Trailing)
    {fopen : List Char → Option (List Char)} {prog path : List Char} {selfPid numMsg : ℕ}
    (hself : 1 ≤ selfPid) (hselfLt : selfPid < 2 ^ 31) (hmsg : 1 ≤ numMsg)
    (hmsgLt : numMsg < 2 ^ 31) (hopen : fopen path = some (layout.text trailing))
    (data : ParserData) :
    (∃ final, parseMembershipArgs fopen [prog, decimal selfPid, path, decimal numMsg] data =
        .ok () final ∧ final.Describes layout) ↔
      FitsBuffer layout trailing := by
  rw [parseMembershipArgs_eq hself hselfLt hmsg hmsgLt hopen]
  constructor
  · rintro ⟨final, hrun, hfinal⟩
    exact fitsBuffer_of_parse rfl hrun hfinal
  · intro hfits
    exact hfits.parse rfl

/-- Processes on one machine, with the ports from 11001 on. -/
def localHosts (n : ℕ) : List Host :=
  (List.range n).map fun i => ⟨⟨127, 0, 0, 1⟩, Fin.ofNat (2 ^ 16) (11001 + i)⟩

theorem testLayout_length : [[2, 3], [], [], [], ([] : List ℕ)].length = (localHosts 5).length :=
  rfl

/-- The example of `test_correctness.sh`: the line of process 2 has a trailing space. -/
def testLayout : Layout where
  hosts := localHosts 5
  dependencies := [[2, 3], [], [], [], []]
  hosts_ne_nil := List.cons_ne_nil _ _
  length_dependencies := testLayout_length
  mem_range := by decide
  nodup := by decide

/-- Nothing is known before the call. -/
def emptyParserData : ParserData := ⟨0, 0, 0, ⟨0, []⟩, ⟨0, []⟩, []⟩

theorem membershipRoundTrip_test : ∃ final,
    parseMembershipArgs (fun _ => some (testLayout.text ⟨false, fun _ => false, (· = 2)⟩))
        [[], decimal 1, [], decimal 100] emptyParserData = .ok () final ∧
      final.Describes testLayout := by
  refine (membershipRoundTrip_iff testLayout ⟨false, fun _ => false, (· = 2)⟩ le_rfl
    (by norm_num) (by norm_num) (by norm_num) ?_ emptyParserData).mpr ?_
  · rfl
  · exact ⟨by decide, by decide +kernel, by decide +kernel⟩

/-- Thirteen processes, of which the last one lists all. -/
def fullLayout : Layout where
  hosts := localHosts 13
  dependencies := List.replicate 12 [] ++ [List.range' 1 13]
  hosts_ne_nil := List.cons_ne_nil _ _
  length_dependencies := rfl
  mem_range := by decide
  nodup := by decide

/-- The last line is one character too long, and the last number loses a digit. -/
theorem fullLayout_cut :
    parseMembershipArgs (fun _ => some (fullLayout.text ⟨false, fun _ => false, fun _ => false⟩))
        [[], decimal 1, [], decimal 100] emptyParserData =
      .ok () ⟨1, 100, 13, ⟨13, fullLayout.hosts.map Host.sockaddr⟩,
        ⟨13, List.replicate 12 [] ++ [List.range' 1 12 ++ [1]]⟩, ['3', '\n']⟩ ∧
    fullLayout.dependencies ≠ List.replicate 12 [] ++ [List.range' 1 12 ++ [1]] := by
  decide +kernel

end CausalBroadcast
