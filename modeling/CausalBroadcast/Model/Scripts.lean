import CausalBroadcast.Library.Tokens

/-!
# The scripts that check the output

`check_fifo.py` reads the output of one process, and `test/testlocal.py` the
membership file and the outputs of all processes.  They are read as functions of the
texts; what they print is their result.  A character is one of the decoded text, and a
number is written with the digits of ASCII.

The name of an output file is only looked at in its fifth character from the end.
-/

namespace CausalBroadcast

/-! ## Python -/

/-- The exceptions that the scripts can end with. -/
inductive PyException where
  | indexError
  | keyError
  | stopIteration
  | typeError
  | valueError
  deriving DecidableEq, Repr

abbrev Py := Except PyException

/-- The value, or the exception. -/
def orRaise {α : Type} (exception : PyException) : Option α → Py α
  | some value => .ok value
  | none => .error exception

/-- What `str.split()` takes for white space. -/
def pySpace (c : Char) : Bool :=
  let n := c.toNat
  decide ((9 ≤ n ∧ n ≤ 13) ∨ (28 ≤ n ∧ n ≤ 32) ∨ n = 0x85 ∨ n = 0xa0 ∨ n = 0x1680 ∨
    (0x2000 ≤ n ∧ n ≤ 0x200a) ∨ n = 0x2028 ∨ n = 0x2029 ∨ n = 0x202f ∨ n = 0x205f ∨ n = 0x3000)

/-- `str.split()`. -/
def pySplit (text : List Char) : List (List Char) := fields pySpace text

/-- The text of a file that is opened in text mode. -/
def universalNewlines : List Char → List Char
  | '\r' :: '\n' :: text => '\n' :: universalNewlines text
  | '\r' :: text => '\n' :: universalNewlines text
  | c :: text => c :: universalNewlines text
  | [] => []

/-- The lines over which a `for` loop over a file runs. -/
def pyLines (text : List Char) : List (List Char) := endedLines '\n' (universalNewlines text)

/-- The digits of an `int`, with single underscores between them. -/
def pyDigits (text : List Char) : Option ℕ :=
  let groups := text.splitOn '_'
  if groups.all fun group => !group.isEmpty && group.all Char.isDigit then
    some (Nat.ofDigitChars 10 groups.flatten 0)
  else none

/-- `int` of a text without white space. -/
def pyInt : List Char → Py ℤ
  | '-' :: text => orRaise .valueError ((pyDigits text).map fun n => -(n : ℤ))
  | '+' :: text => orRaise .valueError ((pyDigits text).map Int.ofNat)
  | text => orRaise .valueError ((pyDigits text).map Int.ofNat)

/-- The position in a list of a length that an index stands for. -/
def pyIndex (length : ℕ) (i : ℤ) : Option ℕ :=
  if 0 ≤ i ∧ i < length then some i.toNat
  else if -length ≤ i ∧ i < 0 then some (i + length).toNat
  else none

/-- `list[i]`. -/
def pyGet {α : Type} (list : List α) (i : ℤ) : Py α :=
  orRaise .indexError ((pyIndex list.length i).bind fun k => list[k]?)

/-- `list[i] = value`. -/
def pySet {α : Type} (list : List α) (i : ℤ) (value : α) : Py (List α) :=
  orRaise .indexError ((pyIndex list.length i).map fun k => list.set k value)

/-! ## `check_fifo.py` -/

/-- The variables of the script. -/
structure FifoCheck where
  i : ℤ
  l : ℕ
  nextMessage : ℤ → ℤ

/-- How the script ends before the end of the file: `sys.exit(1)` after one of its two
messages, or an exception.  Each has the line number `l`. -/
inductive FifoFailure where
  | broadcastOutOfOrder (l : ℕ) (expected msg : ℤ)
  | deliveredOutOfOrder (l : ℕ) (expected msg : ℤ)
  | raised (l : ℕ) (exception : PyException)
  deriving DecidableEq, Repr

/-- An exception ends the script. -/
def FifoCheck.raising {α : Type} (check : FifoCheck) : Py α → Except FifoFailure α
  | .ok value => .ok value
  | .error exception => .error (.raised check.l exception)

/-- "Check broadcast". -/
def FifoCheck.broadcast (check : FifoCheck) (tokens : List (List Char)) :
    Except FifoFailure FifoCheck := do
  let msg ← check.raising (pyGet tokens 1 >>= pyInt)
  if msg ≠ check.i then
    .error (.broadcastOutOfOrder check.l check.i msg)
  else
    .ok { check with i := check.i + 1 }

/-- "Check delivery". -/
def FifoCheck.delivery (check : FifoCheck) (tokens : List (List Char)) :
    Except FifoFailure FifoCheck := do
  let sender ← check.raising (pyGet tokens 1 >>= pyInt)
  let msg ← check.raising (pyGet tokens 2 >>= pyInt)
  if msg ≠ check.nextMessage sender then
    .error (.deliveredOutOfOrder check.l (check.nextMessage sender) msg)
  else
    .ok { check with nextMessage := Function.update check.nextMessage sender (msg + 1) }

/-- The body of the loop. -/
def FifoCheck.line (check : FifoCheck) (line : List Char) : Except FifoFailure FifoCheck := do
  let tokens := pySplit line
  let first ← check.raising (pyGet tokens 0)
  let check ← if first = ['b'] then check.broadcast tokens else .ok check
  let check ← if first = ['d'] then check.delivery tokens else .ok check
  .ok { check with l := check.l + 1 }

/-- `check_fifo.py` for an output file. -/
def checkFifo (output : List Char) : Except FifoFailure FifoCheck :=
  (pyLines output).foldlM FifoCheck.line ⟨1, 1, fun _ => 1⟩

/-! ## `testlocal.py` -/

/-- `depend`, as a function of its keys. -/
abbrev Depend := ℤ → Option (List ℤ)

/-- `Mapping`, as a function of its keys. -/
abbrev Mapping := ℤ × ℤ → Option (List (ℤ × ℤ))

/-- The loop that fills `depend`, from the key `i` on. -/
def readDepend : ℤ → List (List Char) → Depend → Py Depend
  | _, [], depend => .ok depend
  | i, line :: lines, depend => do
      let val ← (pySplit line).mapM pyInt
      readDepend (i + 1) lines (Function.update depend i (some val))

/-- `depend`, from the membership file. -/
def dependOf (membership : List Char) : Py Depend :=
  let lines := pyLines membership
  if lines.length < 6 then .error .stopIteration
  else readDepend 1 (lines.drop 6) fun _ => none

/-- `action, sender, m_nr = line.split()`. -/
def splitDelivery (line : List Char) : Py (List Char × List Char) :=
  match pySplit line with
  | [_, sender, mNr] => .ok (sender, mNr)
  | _ => .error .valueError

/-- `action, m_nr = line.split()`. -/
def splitBroadcast (line : List Char) : Py (List Char) :=
  match pySplit line with
  | [_, mNr] => .ok mNr
  | _ => .error .valueError

/-- `process_n`. -/
def processOf (file : List Char) : Py ℤ := do
  let c ← pyGet file (-5)
  pyInt [c]

/-- The loop over the lines of one output that fills `Mapping`. -/
def mapLines (depend : Depend) (processN : ℤ) :
    List (List Char) → List (ℤ × ℤ) → Mapping → Py Mapping
  | [], _, mapping => .ok mapping
  | line :: lines, s, mapping =>
      if line.head? = some 'd' then do
        let (sender, mNr) ← splitDelivery line
        let sender ← pyInt sender
        let listed ← orRaise .keyError (depend processN)
        if sender ∈ listed then do
          let mNr ← pyInt mNr
          mapLines depend processN lines (s ++ [(sender, mNr)]) mapping
        else
          mapLines depend processN lines s mapping
      else if line.head? = some 'b' then do
        let mNr ← splitBroadcast line
        let mNr ← pyInt mNr
        mapLines depend processN lines s (Function.update mapping (processN, mNr) (some s))
      else
        mapLines depend processN lines s mapping

/-- The loop over the files that fills `Mapping`. -/
def mapFiles (depend : Depend) : List (List Char × List Char) → Mapping → Py Mapping
  | [], mapping => .ok mapping
  | (file, text) :: files, mapping => do
      let processN ← processOf file
      let mapping ← mapLines depend processN (pyLines text) [] mapping
      mapFiles depend files mapping

/-- The loop over `did`, which ends at the first message that was not delivered. -/
def checkDid (delivered : List ℤ) : List (ℤ × ℤ) → Py Bool
  | [] => .ok true
  | a :: did => do
      let last ← pyGet delivered (a.1 - 1)
      if last < a.2 then .ok false else checkDid delivered did

/-- The loop over the lines of one output that checks the deliveries; the result is
whether `test` stays as it is. -/
def checkLines (mapping : Mapping) : List (List Char) → List ℤ → Py Bool
  | [], _ => .ok true
  | line :: lines, delivered =>
      if line.head? = some 'd' then do
        let (sender, mNr) ← splitDelivery line
        let sender ← pyInt sender
        let mNr ← pyInt mNr
        let did ← orRaise .typeError (mapping (sender, mNr))
        let done ← checkDid delivered did
        let last ← pyGet delivered (sender - 1)
        if mNr - last ≠ 1 then .ok false
        else do
          let delivered ← pySet delivered (sender - 1) mNr
          let rest ← checkLines mapping lines delivered
          .ok (done && rest)
      else
        checkLines mapping lines delivered

/-- The loop over the files that checks the deliveries. -/
def checkFiles (mapping : Mapping) : List (List Char × List Char) → Py Bool
  | [] => .ok true
  | (file, text) :: files => do
      let _ ← processOf file
      let passed ← checkLines mapping (pyLines text) [0, 0, 0, 0, 0]
      let rest ← checkFiles mapping files
      .ok (passed && rest)

/-- `testlocal.py`: what it prints at the end, for the membership file and the files in
`./out`, in the order of `os.listdir`. -/
def testlocal (membership : List Char) (out : List (List Char × List Char)) : Py Bool := do
  let depend ← dependOf membership
  let mapping ← mapFiles depend out fun _ => none
  checkFiles mapping out

end CausalBroadcast
