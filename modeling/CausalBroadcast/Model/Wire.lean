import CausalBroadcast.Library.Words
import CausalBroadcast.Model.Layers

/-!
# The wire format

`layerzero.c`: a datagram has seven words and the vector clock of the message.  Of
an acknowledgement only the first four words count; `serialize` sends the rest of
its local array as it is, and `stack` says what that is.
-/

namespace CausalBroadcast

/-- `num_static`. -/
def numStatic : ℕ := 7

/-- `num_fields`. -/
def numFields (numProc : ℕ) : ℕ := 7 + numProc

/-- `message_size`. -/
def messageSize (numProc : ℕ) : ℕ := 4 * 7 + 4 * numProc

/-- `alloc_vector`: a copy of the first `numProc` words of `values`; the number is an
`unsigned int`. -/
def allocVector (numProc : ℕ) (values : List ℕ) : Option (List ℕ) :=
  if values.length < u32 numProc then none else some (values.take (u32 numProc))

/-- `memcpy` of `n` words of `source` to position `start` of `words`. -/
def copyWords (words : List ℕ) (start : ℕ) (source : List ℕ) (n : ℕ) : Option (List ℕ) :=
  if source.length < n ∨ words.length < start + n then none
  else some (words.take start ++ source.take n ++ words.drop (start + n))

/-- `serialize`; the result is the buffer. -/
def serialize (stack : ℕ → ℕ) (msg : Msg) (numProc : ℕ) : Option (List UInt8) := do
  let temp := (List.range (numFields numProc)).map stack
  let temp := (((temp.set 0 msg.mid).set 1 msg.ackid).set 2 msg.sender).set 3 msg.mtype
  if msg.mtype = ackNo then
    some ((wordsBytes temp).take (messageSize numProc))
  else do
    let temp := ((temp.set 4 msg.urbMsg.mid).set 5 msg.urbMsg.seenId).set 6
      msg.urbMsg.lcbMsg.originalSender
    let temp ← copyWords temp numStatic msg.urbMsg.lcbMsg.vecClock numProc
    some ((wordsBytes temp).take (messageSize numProc))

abbrev MsgCall := Call ErrorCode Msg

/-- `deserialize`, a call on the message it fills in; `none` is a `NULL` buffer. -/
def deserialize (buffer : Option (List UInt8)) (numProc : ℕ) : MsgCall Unit :=
  match buffer with
  | none => Call.fail .pointer
  | some buffer => do
      let ptr := toWords buffer
      let mid ← Call.access ptr[0]?
      let ackid ← Call.access ptr[1]?
      let sender ← Call.access ptr[2]?
      let mtype ← Call.access ptr[3]?
      Call.modify fun msg =>
        { msg with mid := mid, ackid := ackid, sender := sender, mtype := mtype }
      if mtype = ackNo then
        pure ()
      else do
        let urbMid ← Call.access ptr[4]?
        let seenId ← Call.access ptr[5]?
        let originalSender ← Call.access ptr[6]?
        let vector ← Call.access (allocVector numProc (ptr.drop numStatic))
        Call.modify fun msg => { msg with
          urbMsg := { mid := urbMid, seenId := seenId, lcbMsg := ⟨vector, originalSender⟩ } }

/-- `receive_msg` in `receiver_f`, for a datagram that has arrived: the buffer is
cleared, and `recvfrom` puts as much of the datagram into it as fits. -/
def receiveMsg (datagram : List UInt8) (numProc : ℕ) : MsgCall Unit :=
  let received := datagram.take (messageSize numProc)
  let buffer := received ++ List.replicate (messageSize numProc - received.length) 0
  deserialize (some buffer) numProc

end CausalBroadcast
