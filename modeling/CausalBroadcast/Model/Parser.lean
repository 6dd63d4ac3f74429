import CausalBroadcast.Library.Tokens
import CausalBroadcast.Model.Data

/-!
# The membership file

`parser.c` and the functions of `addrbook.c` and `dependencies.c` that it calls.
The membership file is any sequence of characters.  `fgets` reads past a zero
character, but the string in its buffer ends there, so `strtok` gives the tokens
of what comes before the first zero, one after another (`strtok`).  `atoi` stops at
a zero as at every character that is no digit.  A conversion of `atoi` that does
not fit an `int` has no meaning in C.  Allocations succeed, as do the prints to
`stderr`, which are left out.
-/

namespace CausalBroadcast

/-! ## Library functions -/

/-- The string in a buffer: the characters before the first zero. -/
def cString (buffer : List Char) : List Char := buffer.takeWhile (· ≠ '\x00')

/-- What `strtok` with the delimiter `" "` gives for a buffer and then for `NULL`, until
there is no token any more. -/
def strtok (buffer : List Char) : List (List Char) := tokens ' ' (cString buffer)

/-- `isspace`. -/
def isspace (c : Char) : Bool := c = ' ' ∨ (9 ≤ c.toNat ∧ c.toNat ≤ 13)

/-- `atoi`: leading blanks, a sign, and the digits up to the first other character. -/
def atoi (text : List Char) : Option ℤ :=
  let text := text.dropWhile isspace
  let digits := if text.head? = some '-' ∨ text.head? = some '+' then text.tail else text
  let value : ℤ := Nat.ofDigitChars 10 (digits.takeWhile Char.isDigit) 0
  let value := if text.head? = some '-' then -value else value
  if -2 ^ 31 ≤ value ∧ value < 2 ^ 31 then some value else none

/-- The conversion of an `int` to `size_t`. -/
def toSizeT (value : ℤ) : ℕ := (value % 2 ^ 64).toNat

/-- The conversion of an `int` to `uint16_t`. -/
def toUint16 (value : ℤ) : ℕ := (value % 2 ^ 16).toNat

/-- `htons` on a little-endian machine. -/
def htons (port : ℕ) : ℕ := port % 256 * 256 + port / 256

/-- The value of a digit of a base up to 16, `16` for other characters. -/
def charDigit (c : Char) : ℕ :=
  if c.isDigit then c.toNat - 48
  else if 97 ≤ c.toNat ∧ c.toNat ≤ 102 then c.toNat - 87
  else if 65 ≤ c.toNat ∧ c.toNat ≤ 70 then c.toNat - 55
  else 16

/-- The digits at the head of a text, and what comes after them. -/
def readDigits (base : ℕ) (text : List Char) : ℕ × List Char :=
  ((text.takeWhile (charDigit · < base)).foldl (fun value c => base * value + charDigit c) 0,
    text.dropWhile (charDigit · < base))

/-- `strtoul` with base 0, for a text that starts with a digit. -/
def strtoul (text : List Char) : ℕ × List Char :=
  match text with
  | '0' :: x :: c :: rest =>
      if (x = 'x' ∨ x = 'X') ∧ charDigit c < 16 then readDigits 16 (c :: rest)
      else readDigits 8 text
  | '0' :: _ => readDigits 8 text
  | _ => readDigits 10 text

/-- `inet_aton` from a part on after which at most `left` parts may come; `high` is the
number that the parts before it make.  The last part fills the bytes that are left. -/
def inetAtonFrom (left high : ℕ) (text : List Char) : Option ℕ :=
  if text.head?.all Char.isDigit ∧ text ≠ [] then
    let val := (strtoul text).1
    match left, (strtoul text).2 with
    | left + 1, '.' :: rest =>
        if 255 < val then none else inetAtonFrom left (256 * high + val) rest
    | left, rest =>
        if rest.head?.all isspace ∧ val < 256 ^ (left + 1)
        then some (high * 256 ^ (left + 1) + val) else none
  else none

/-- `inet_aton`: an address of one to four parts, each decimal, octal or hexadecimal. -/
def inetAton (text : List Char) : Option ℕ := inetAtonFrom 3 0 text

/-! ## The address book and the dependencies -/

/-- `struct sockaddr_in`; the family is always `AF_INET`. -/
structure SockaddrIn where
  sinPort : ℕ
  sinAddr : ℕ
  deriving DecidableEq, Repr

/-- `addr_book_t`. -/
structure AddrBook where
  numProc : ℕ
  addresses : List SockaddrIn
  deriving DecidableEq, Repr

/-- `alloc_addr_book`. -/
def allocAddrBook (numEntries : ℕ) : AddrBook := ⟨numEntries, List.replicate numEntries ⟨0, 0⟩⟩

/-- `dependencies_t`. -/
structure Dependencies where
  numProc : ℕ
  depLists : List (List ℕ)
  deriving DecidableEq, Repr

/-- `alloc_dependencies`. -/
def allocDependencies (numProc : ℕ) : Dependencies := ⟨numProc, List.replicate numProc []⟩

/-! ## The parser -/

/-- `LINE_MAX_LENGTH`. -/
def lineMaxLength : ℕ := 32

/-- The part of `net_data_t` that the parser fills in, and what is left of the open
membership file. -/
structure ParserData where
  selfPid : ℕ
  numMsg : ℕ
  numProc : ℕ
  addressBook : AddrBook
  dependencies : Dependencies
  membershipFile : List Char
  deriving DecidableEq, Repr

abbrev ParserCall := Call ErrorCode ParserData

/-- `fgets` with a buffer of `LINE_MAX_LENGTH`; `none` is the end of the file. -/
def fgets : ParserCall (Option (List Char)) := do
  let data ← Call.state
  if data.membershipFile = [] then
    pure none
  else do
    let read := chunk '\n' (lineMaxLength - 1) data.membershipFile
    Call.modify fun data => { data with membershipFile := read.2 }
    pure (some read.1)

/-- `add_entry`, on the address book of the data. -/
def addEntry (pid : ℕ) (addr : SockaddrIn) : ParserCall Unit := do
  let data ← Call.state
  let book := data.addressBook
  if book.numProc + 1 < pid then
    Call.fail .pid
  else if pid = 0 ∨ book.addresses.length < pid then
    Call.undef
  else
    Call.modify fun data => { data with
      addressBook := { data.addressBook with
        addresses := data.addressBook.addresses.set (pid - 1) addr } }

/-- `set_dependencies`, on the dependencies of the data. -/
def setDependencies (source : ℕ) (pidList : List ℕ) : ParserCall Unit := do
  let data ← Call.state
  let dependencies := data.dependencies
  if dependencies.numProc < source then
    Call.fail .memory
  else if source = 0 ∨ dependencies.depLists.length < source then
    Call.undef
  else
    Call.modify fun data => { data with
      dependencies := { data.dependencies with
        depLists := data.dependencies.depLists.set (source - 1) pidList } }

/-- The body of the loop that fills the address book. -/
def readHost (line : List Char) : ParserCall Unit :=
  match strtok line with
  | pidStr :: ipv4Str :: portStr :: _ => do
      let pid ← Call.access (atoi pidStr)
      if toSizeT pid = 0 then
        Call.fail .file
      else
        match inetAton ipv4Str with
        | none => Call.fail .file
        | some ipv4 => do
            let port ← Call.access (atoi portStr)
            Call.failAs .file (addEntry (toSizeT pid) ⟨htons (toUint16 port), ipv4⟩)
  | _ => Call.fail .file

/-- The loop that fills the address book, with `n` lines to go. -/
def readHosts : ℕ → ParserCall Unit
  | 0 => pure ()
  | n + 1 => do
      match ← fgets with
      | none => pure ()
      | some line => do
          readHost line
          readHosts n

/-- The loop over the dependencies of a line; `depPidBuf` is the part of the array that is
filled, which has room for `numProc` pids. -/
def readDeps (numProc : ℕ) : List (List Char) → List ℕ → ParserCall (List ℕ)
  | [], depPidBuf => pure depPidBuf
  | depPidStr :: rest, depPidBuf => do
      let depPid ← Call.access (atoi depPidStr)
      if toSizeT depPid = 0 then
        if depPidStr = ['\n'] then readDeps numProc rest depPidBuf else Call.fail .file
      else if depPidBuf.length < numProc then
        readDeps numProc rest (depPidBuf ++ [toSizeT depPid])
      else
        Call.undef

/-- The body of the loop that fills the dependency lists. -/
def readDependencies (numProc : ℕ) (line : List Char) : ParserCall Unit :=
  match strtok line with
  | [] => Call.fail .file
  | sourcePidStr :: rest => do
      let sourcePid ← Call.access (atoi sourcePidStr)
      if toSizeT sourcePid = 0 then
        Call.fail .file
      else do
        let depPidBuf ← readDeps numProc rest []
        setDependencies (toSizeT sourcePid) depPidBuf

/-- The loop that fills the dependency lists, with `n` lines to go. -/
def readDependencyLines (numProc : ℕ) : ℕ → ParserCall Unit
  | 0 => pure ()
  | n + 1 => do
      match ← fgets with
      | none => pure ()
      | some line => do
          readDependencies numProc line
          readDependencyLines numProc n

/-- `parse_membership_args` from the opened file on. -/
def parseMembershipFile : ParserCall Unit := do
  match ← fgets with
  | none => Call.fail .file
  | some line => do
      let number ← Call.access (atoi line)
      let numProc := toSizeT number
      if numProc = 0 then
        Call.fail .file
      else do
        Call.modify fun data => { data with numProc := numProc }
        Call.modify fun data => { data with addressBook := allocAddrBook numProc }
        readHosts numProc
        Call.modify fun data => { data with dependencies := allocDependencies numProc }
        readDependencyLines numProc numProc

/-- `parse_membership_args`; `fopen` gives the text of a file that can be opened. -/
def parseMembershipArgs (fopen : List Char → Option (List Char)) (argv : List (List Char)) :
    ParserCall Unit :=
  match argv with
  | _ :: pidStr :: path :: msgStr :: _ => do
      let selfPid ← Call.access (atoi pidStr)
      if toSizeT selfPid = 0 then
        Call.fail .args
      else do
        Call.modify fun data => { data with selfPid := toSizeT selfPid }
        let numMsg ← Call.access (atoi msgStr)
        if numMsg = 0 then
          Call.fail .args
        else do
          Call.modify fun data => { data with numMsg := toSizeT numMsg }
          match fopen path with
          | none => Call.fail .file
          | some text => do
              Call.modify fun data => { data with membershipFile := text }
              parseMembershipFile
  | _ => Call.fail .args

end CausalBroadcast
