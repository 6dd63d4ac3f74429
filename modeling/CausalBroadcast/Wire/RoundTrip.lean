import CausalBroadcast.Model.Wire

/-!
# The wire format in both directions

Laying out and reading words are inverse to each other (`toWords_wordsBytes`,
`wordsBytes_toWords`), so the round trips are about the array of words in the
middle: `fields` has the words of a message, and `serialize` and `deserialize` are
that array written and read.
-/

namespace CausalBroadcast

/-- The fields of a message are `unsigned int`s. -/
structure Msg.IsWords (msg : Msg) : Prop where
  mid : msg.mid < 2 ^ 32
  ackid : msg.ackid < 2 ^ 32
  sender : msg.sender < 2 ^ 32
  mtype : msg.mtype < 2 ^ 32
  urbMid : msg.urbMsg.mid < 2 ^ 32
  seenId : msg.urbMsg.seenId < 2 ^ 32
  originalSender : msg.urbMsg.lcbMsg.originalSender < 2 ^ 32
  vecClock : ∀ n ∈ msg.urbMsg.lcbMsg.vecClock, n < 2 ^ 32

/-- The words of a message that is no acknowledgement. -/
def Msg.fields (msg : Msg) : List ℕ :=
  [msg.mid, msg.ackid, msg.sender, msg.mtype, msg.urbMsg.mid, msg.urbMsg.seenId,
    msg.urbMsg.lcbMsg.originalSender] ++ msg.urbMsg.lcbMsg.vecClock

theorem Msg.IsWords.fields_lt {msg : Msg} (h : msg.IsWords) : ∀ n ∈ msg.fields, n < 2 ^ 32 := by
  intro n hn
  simp only [Msg.fields, List.cons_append, List.nil_append, List.mem_cons] at hn
  rcases hn with rfl | rfl | rfl | rfl | rfl | rfl | rfl | hn
  · exact h.mid
  · exact h.ackid
  · exact h.sender
  · exact h.mtype
  · exact h.urbMid
  · exact h.seenId
  · exact h.originalSender
  · exact h.vecClock n hn

/-- Words that fit are read back as they are. -/
theorem toWords_wordsBytes_of_lt {words : List ℕ} (h : ∀ n ∈ words, n < 2 ^ 32) :
    toWords (wordsBytes words) = words := by
  rw [toWords_wordsBytes]
  conv_rhs => rw [← List.map_id words]
  exact List.map_congr_left fun n hn => Nat.mod_eq_of_lt (h n hn)

/-! ## `serialize` -/

/-- Seven words of the local array, and the rest of it. -/
theorem range_numFields (stack : ℕ → ℕ) (numProc : ℕ) :
    (List.range (numFields numProc)).map stack =
      [stack 0, stack 1, stack 2, stack 3, stack 4, stack 5, stack 6] ++
        (List.range numProc).map fun k => stack (7 + k) := by
  rw [numFields, List.range_add, List.map_append, List.map_map]
  rfl

theorem take_wordsBytes {words : List ℕ} {numProc : ℕ} (h : words.length = numFields numProc) :
    (wordsBytes words).take (messageSize numProc) = wordsBytes words := by
  apply List.take_of_length_le
  rw [length_wordsBytes, h]
  unfold numFields messageSize
  omega

theorem copyWords_eq (first rest clock : List ℕ) (hfirst : first.length = numStatic)
    (hrest : rest.length = clock.length) :
    copyWords (first ++ rest) numStatic clock clock.length = some (first ++ clock) := by
  have hroom : (first ++ rest).length = numStatic + clock.length := by
    rw [List.length_append, hfirst, hrest]
  rw [copyWords, if_neg (by omega), ← hfirst, List.take_left, List.take_length,
    List.drop_eq_nil_of_le (by omega), List.append_nil]

theorem serialize_eq (stack : ℕ → ℕ) {msg : Msg} (hmtype : msg.mtype ≠ ackNo) :
    serialize stack msg msg.urbMsg.lcbMsg.vecClock.length = some (wordsBytes msg.fields) := by
  have hcopy := copyWords_eq [msg.mid, msg.ackid, msg.sender, msg.mtype, msg.urbMsg.mid,
      msg.urbMsg.seenId, msg.urbMsg.lcbMsg.originalSender]
    ((List.range msg.urbMsg.lcbMsg.vecClock.length).map fun k => stack (7 + k))
    msg.urbMsg.lcbMsg.vecClock rfl (by rw [List.length_map, List.length_range])
  have hlength : msg.fields.length = numFields msg.urbMsg.lcbMsg.vecClock.length :=
    List.length_append
  unfold serialize
  rw [if_neg hmtype, range_numFields]
  simp only [List.cons_append, List.nil_append, List.set_cons_zero, List.set_cons_succ] at hcopy ⊢
  rw [hcopy]
  exact congrArg some (take_wordsBytes hlength)

/-- Of an acknowledgement four words are written. -/
theorem serialize_ack (stack : ℕ → ℕ) {msg : Msg} (hmtype : msg.mtype = ackNo) (numProc : ℕ) :
    ∃ rest, rest.length = 3 + numProc ∧ serialize stack msg numProc =
      some (wordsBytes ([msg.mid, msg.ackid, msg.sender, msg.mtype] ++ rest)) := by
  refine ⟨[stack 4, stack 5, stack 6] ++ (List.range numProc).map fun k => stack (7 + k), ?_, ?_⟩
  · rw [List.length_append, List.length_map, List.length_range]
    rfl
  · unfold serialize
    rw [if_pos hmtype, range_numFields]
    simp only [List.cons_append, List.nil_append, List.set_cons_zero, List.set_cons_succ]
    apply congrArg some
    apply take_wordsBytes
    simp only [List.length_cons, List.length_map, List.length_range, numFields]
    omega

/-! ## `deserialize` -/

theorem allocVector_eq {numProc : ℕ} (hlt : numProc < 2 ^ 32) {values : List ℕ}
    (hlength : values.length = numProc) : allocVector numProc values = some values := by
  rw [allocVector, u32_of_lt hlt, if_neg (by omega), ← hlength, List.take_length]

theorem deserialize_eq {numProc : ℕ} (hlt : numProc < 2 ^ 32) {buffer : List UInt8} {msg : Msg}
    (hwords : toWords buffer = msg.fields) (hlength : msg.urbMsg.lcbMsg.vecClock.length = numProc)
    (hmtype : msg.mtype ≠ ackNo) (target : Msg) :
    deserialize (some buffer) numProc target = .ok () msg := by
  have hvector : allocVector numProc (msg.fields.drop numStatic) =
      some msg.urbMsg.lcbMsg.vecClock := allocVector_eq hlt hlength
  simp only [deserialize, hwords, Call.bind_apply, hvector]
  simp [Msg.fields, hmtype]

theorem deserialize_ack (numProc : ℕ) {buffer : List UInt8} {mid ackid sender : ℕ}
    {rest : List ℕ} (hwords : toWords buffer = [mid, ackid, sender, ackNo] ++ rest)
    (target : Msg) : deserialize (some buffer) numProc target = .ok ()
      { target with mid := mid, ackid := ackid, sender := sender, mtype := ackNo } := by
  simp [deserialize, hwords]

/-- A buffer of the right size has the words of a message. -/
theorem exists_fields {numProc : ℕ} {buffer : List UInt8}
    (hlength : buffer.length = messageSize numProc) :
    ∃ msg : Msg, toWords buffer = msg.fields ∧ msg.urbMsg.lcbMsg.vecClock.length = numProc ∧
      wordsBytes msg.fields = buffer := by
  have hsize : buffer.length = 4 * (7 + numProc) := by
    rw [hlength]
    unfold messageSize
    omega
  obtain ⟨hbytes, hwords⟩ := wordsBytes_toWords hsize
  match hread : toWords buffer with
  | mid :: ackid :: sender :: mtype :: urbMid :: seenId :: originalSender :: clock =>
      refine ⟨⟨⟨⟨clock, originalSender⟩, seenId, urbMid⟩, mid, ackid, sender, mtype⟩, rfl, ?_, ?_⟩
      · rw [hread] at hwords
        simp only [List.length_cons] at hwords
        show clock.length = numProc
        omega
      · rw [hread] at hbytes
        exact hbytes
  | [] | [_] | [_, _] | [_, _, _] | [_, _, _, _] | [_, _, _, _, _] | [_, _, _, _, _, _] =>
      rw [hread] at hwords
      simp only [List.length_cons, List.length_nil] at hwords
      omega

/-! ## The round trips -/

theorem message_roundTrip {numProc : ℕ} (hlt : numProc < 2 ^ 32) (stack : ℕ → ℕ) {msg : Msg}
    (hwords : msg.IsWords) (hlength : msg.urbMsg.lcbMsg.vecClock.length = numProc)
    (hmtype : msg.mtype ≠ ackNo) :
    ∃ buffer, serialize stack msg numProc = some buffer ∧ buffer.length = messageSize numProc ∧
      ∀ target, deserialize (some buffer) numProc target = .ok () msg := by
  refine ⟨wordsBytes msg.fields, hlength ▸ serialize_eq stack hmtype, ?_, fun target => ?_⟩
  · rw [length_wordsBytes, Msg.fields, List.length_append, hlength]
    unfold messageSize
    simp only [List.length_cons, List.length_nil]
    omega
  · exact deserialize_eq hlt (toWords_wordsBytes_of_lt hwords.fields_lt) hlength hmtype target

theorem ack_roundTrip (numProc : ℕ) (stack : ℕ → ℕ) {msg : Msg} (hwords : msg.IsWords)
    (hmtype : msg.mtype = ackNo) :
    ∃ buffer, serialize stack msg numProc = some buffer ∧ buffer.length = messageSize numProc ∧
      ∀ target, deserialize (some buffer) numProc target = .ok ()
        { target with mid := msg.mid, ackid := msg.ackid, sender := msg.sender,
                      mtype := msg.mtype } := by
  obtain ⟨rest, hrest, hserialize⟩ := serialize_ack stack hmtype numProc
  refine ⟨_, hserialize, ?_, fun target => ?_⟩
  · rw [length_wordsBytes, List.length_append, hrest]
    unfold messageSize
    simp only [List.length_cons, List.length_nil]
    omega
  · have hread : toWords (wordsBytes ([msg.mid, msg.ackid, msg.sender, msg.mtype] ++ rest)) =
        [msg.mid, msg.ackid, msg.sender, ackNo] ++ rest.map (· % 2 ^ 32) := by
      rw [toWords_wordsBytes, List.map_append, ← hmtype]
      simp only [List.map_cons, List.map_nil, Nat.mod_eq_of_lt hwords.mid,
        Nat.mod_eq_of_lt hwords.ackid, Nat.mod_eq_of_lt hwords.sender,
        Nat.mod_eq_of_lt hwords.mtype]
    rw [deserialize_ack numProc hread target, hmtype]

theorem buffer_roundTrip {numProc : ℕ} (hlt : numProc < 2 ^ 32) (stack : ℕ → ℕ)
    {buffer : List UInt8} (hlength : buffer.length = messageSize numProc)
    (hmtype : (toWords buffer)[3]? ≠ some ackNo) (target : Msg) :
    ∃ msg, deserialize (some buffer) numProc target = .ok () msg ∧
      serialize stack msg numProc = some buffer := by
  obtain ⟨msg, hwords, hclock, hbytes⟩ := exists_fields hlength
  have hother : msg.mtype ≠ ackNo := by
    intro heq
    rw [hwords] at hmtype
    exact hmtype (congrArg some heq)
  refine ⟨msg, deserialize_eq hlt hwords hclock hother target, ?_⟩
  rw [← hclock, serialize_eq stack hother, hbytes]

/-- The wire format loses nothing but the unused part of an acknowledgement.  The
number of clock entries is an `unsigned int`. -/
theorem wireRoundTrip {numProc : ℕ} (hlt : numProc < 2 ^ 32) (stack : ℕ → ℕ) :
    (∀ msg : Msg, msg.IsWords → msg.urbMsg.lcbMsg.vecClock.length = numProc →
      msg.mtype ≠ ackNo → ∃ buffer, serialize stack msg numProc = some buffer ∧
        buffer.length = messageSize numProc ∧
        ∀ target, deserialize (some buffer) numProc target = .ok () msg) ∧
    (∀ msg : Msg, msg.IsWords → msg.mtype = ackNo →
      ∃ buffer, serialize stack msg numProc = some buffer ∧
        buffer.length = messageSize numProc ∧
        ∀ target, deserialize (some buffer) numProc target = .ok ()
          { target with mid := msg.mid, ackid := msg.ackid, sender := msg.sender,
                        mtype := msg.mtype }) ∧
    ∀ buffer : List UInt8, buffer.length = messageSize numProc →
      (toWords buffer)[3]? ≠ some ackNo → ∀ target,
        ∃ msg, deserialize (some buffer) numProc target = .ok () msg ∧
          serialize stack msg numProc = some buffer :=
  ⟨fun _ hwords hlength hmtype => message_roundTrip hlt stack hwords hlength hmtype,
    fun _ hwords hmtype => ack_roundTrip numProc stack hwords hmtype,
    fun _ hlength hmtype target => buffer_roundTrip hlt stack hlength hmtype target⟩

/-- The message of `test_serial`, with an origin. -/
def testSerialMsg : Msg where
  urbMsg := { lcbMsg := ⟨[1, 2, 3, 4, 5], 1⟩, seenId := 50, mid := 40 }
  mid := 10
  ackid := 0
  sender := 30
  mtype := 20

theorem wireRoundTrip_testSerial :
    ∃ buffer, serialize (fun _ => 7) testSerialMsg 5 = some buffer ∧ buffer.length = 48 ∧
      ∀ target, deserialize (some buffer) 5 target = .ok () testSerialMsg :=
  (wireRoundTrip (by decide) fun _ => 7).1 testSerialMsg
    ⟨by decide, by decide, by decide, by decide, by decide, by decide, by decide, by decide⟩
    rfl (by decide)

end CausalBroadcast
