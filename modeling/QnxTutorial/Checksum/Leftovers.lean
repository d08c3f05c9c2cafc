import QnxTutorial.Checksum.FixedSize

/-!
# What a checksum tells about others

`name_lookup_server` adds up the bytes of `string_to_cksum` until it finds a NUL. If the message
has none, it goes on with what an earlier message left in the buffer, and then with the memory
behind the buffer.

**Theorem (`own_answer_iff`).** The answer depends on the message alone exactly if the message is
not a checksum request or has a NUL.

**Theorem (`answer_leaks`).** The two bytes of a type are answered with the checksum of the string
that somebody else sent before.
-/

namespace QnxTutorial.Checksum

open CString RecvBuf

variable (H : Headers)

/-! ## Answers -/

/-- `name_lookup_server` answers the message with `calls`, when `rbuf` is in the buffer and behind
it. If the loop does not end there is no answer. -/
def Answers (rcvid : ℤ) (bytes : List Byte) (rbuf : Buf) (calls : List Call) : Prop :=
  ∃ fuel, (nameLookupServer H fuel ⟨rcvid, bytes⟩ rbuf).map Prod.snd = some calls

/-- The message has the same answer. -/
def SameAnswer (bytes : List Byte) (rbuf rbuf' : Buf) : Prop :=
  ∀ rcvid > 0, ∀ calls, Answers H rcvid bytes rbuf calls ↔ Answers H rcvid bytes rbuf' calls

/-- The leftovers in the buffer do not matter. -/
def IgnoresLeftovers (bytes : List Byte) : Prop :=
  ∀ rbuf rbuf', (∀ i, H.sizeofRecvBuf ≤ i → rbuf i = rbuf' i) → SameAnswer H bytes rbuf rbuf'

/-- The answer depends on the message alone. -/
def OwnAnswer (bytes : List Byte) : Prop := ∀ rbuf rbuf', SameAnswer H bytes rbuf rbuf'

/-- The type of a message that has one. -/
def typeOf (bytes : List Byte) : ℕ := (u16 (receive 2 bytes fun _ => 0) 0).toNat

/-- The bytes of `string_to_cksum` that are received. -/
def received (bytes : List Byte) : List Byte := (bytes.take H.sizeofRecvBuf).drop 2

variable {H} {bytes : List Byte} {rbuf : Buf}

theorem toNat_type (hlen : 2 ≤ bytes.length) (rbuf : Buf) :
    (u16 (receive H.sizeofRecvBuf bytes rbuf) 0).toNat = typeOf bytes := by
  have hsize := H.sizeofCksumMsg_le
  rw [typeOf, (receive_agree (by omega) (Nat.le_refl 2) hlen rbuf fun _ => 0).u16 (Nat.le_refl 2)]

theorem answers_iff {rcvid : ℤ} (hrcvid : 0 < rcvid) {calls : List Call} :
    Answers H rcvid bytes rbuf calls ↔
      ∃ fuel, answer H fuel rcvid (receive H.sizeofRecvBuf bytes rbuf) = some calls := by
  have hround (fuel : ℕ) : (nameLookupServer H fuel ⟨rcvid, bytes⟩ rbuf).map Prod.snd =
      answer H fuel rcvid (receive H.sizeofRecvBuf bytes rbuf) := by
    rw [nameLookupServer, round_of_message hrcvid, Option.map_map]
    exact congrFun Option.map_id _
  simp only [Answers, hround]

theorem answers_of_ne (hlen : 2 ≤ bytes.length) (htype : typeOf bytes ≠ H.cksumMsgType)
    {rcvid : ℤ} (hrcvid : 0 < rcvid) {calls : List Call} :
    Answers H rcvid bytes rbuf calls ↔ calls = [.msgError rcvid .enosys] := by
  simp only [answers_iff hrcvid, answer, toNat_type hlen, if_neg htype, Option.some.injEq,
    exists_const, eq_comm]

theorem answers_of_eq (hlen : 2 ≤ bytes.length) (htype : typeOf bytes = H.cksumMsgType)
    {rcvid : ℤ} (hrcvid : 0 < rcvid) {calls : List Call} :
    Answers H rcvid bytes rbuf calls ↔
      ∃ s, IsString (shift (receive H.sizeofRecvBuf bytes rbuf) 2) s ∧
        calls = [.msgReply rcvid (BitVec.ofInt 32 (byteSum s))] := by
  simp only [answers_iff hrcvid, answer, toNat_type hlen, if_pos htype, Option.map_eq_some_iff]
  constructor
  · rintro ⟨fuel, checksum, hfuel, rfl⟩
    obtain ⟨s, hs, rfl⟩ := exists_calculateChecksum_iff.1 ⟨fuel, hfuel⟩
    exact ⟨s, hs, rfl⟩
  · rintro ⟨s, hs, rfl⟩
    obtain ⟨fuel, hfuel⟩ := exists_calculateChecksum_iff.2 ⟨s, hs, rfl⟩
    exact ⟨fuel, _, hfuel, rfl⟩

/-! ## A NUL is received -/

theorem getElem_received {i : ℕ} (hi : i < (received H bytes).length) (rbuf : Buf) :
    shift (receive H.sizeofRecvBuf bytes rbuf) 2 i = (received H bytes)[i] := by
  have hi' : 2 + i < H.sizeofRecvBuf ∧ 2 + i < bytes.length := by
    simp only [received, List.length_drop, List.length_take] at hi
    omega
  rw [shift, receive_of_lt rbuf hi'.1 hi'.2]
  simp [received]

/-- With a NUL the string is that of the message. -/
theorem isString_of_nul (hnul : 0 ∈ received H bytes) {rbuf' : Buf} {s : List Byte}
    (h : IsString (shift (receive H.sizeofRecvBuf bytes rbuf) 2) s) :
    IsString (shift (receive H.sizeofRecvBuf bytes rbuf') 2) s := by
  obtain ⟨n, hn, hget⟩ := List.mem_iff_getElem.1 hnul
  have hlen : s.length ≤ n := h.length_le ((getElem_received hn rbuf).trans hget)
  apply h.congr
  intro i hi
  have hi' : i < (received H bytes).length := by omega
  rw [getElem_received hi', getElem_received hi']

theorem ownAnswer_of_nul (hlen : 2 ≤ bytes.length)
    (h : typeOf bytes ≠ H.cksumMsgType ∨ 0 ∈ received H bytes) : OwnAnswer H bytes := by
  intro rbuf rbuf' rcvid hrcvid calls
  by_cases htype : typeOf bytes = H.cksumMsgType
  · have hnul := h.resolve_left (not_not.2 htype)
    rw [answers_of_eq hlen htype hrcvid, answers_of_eq hlen htype hrcvid]
    constructor
    · rintro ⟨s, hs, rfl⟩
      exact ⟨s, isString_of_nul hnul hs, rfl⟩
    · rintro ⟨s, hs, rfl⟩
      exact ⟨s, isString_of_nul hnul hs, rfl⟩
  · rw [answers_of_ne hlen htype hrcvid, answers_of_ne hlen htype hrcvid]

/-! ## No NUL is received -/

/-- How many bytes are received. -/
def receivedLen (H : Headers) (bytes : List Byte) : ℕ := min H.sizeofRecvBuf bytes.length

/-- Without a NUL the string goes on with what is behind the received bytes. -/
theorem isString_append (hlen : 2 ≤ bytes.length) (hnul : 0 ∉ received H bytes) {s : List Byte}
    (h : IsString (shift rbuf (receivedLen H bytes)) s) :
    IsString (shift (receive H.sizeofRecvBuf bytes rbuf) 2) (received H bytes ++ s) := by
  have hsize := H.sizeofCksumMsg_le
  have hlength : 2 + (received H bytes).length = receivedLen H bytes := by
    simp only [received, receivedLen, List.length_drop, List.length_take]
    omega
  apply IsString.append (fun i hi => getElem_received hi rbuf) hnul
  rw [shift_shift, hlength]
  apply h.congr
  intro i _
  unfold receivedLen shift receive
  split_ifs with hi
  · rw [List.getElem?_eq_none (by omega), Option.getD_none]
  · rfl

/-- Two leftovers that differ in one byte. -/
theorem not_sameAnswer (hlen : 2 ≤ bytes.length) (htype : typeOf bytes = H.cksumMsgType)
    (hnul : 0 ∉ received H bytes) :
    ¬ SameAnswer H bytes (fun _ => 0) (Function.update (fun _ => 0) (receivedLen H bytes) 1) := by
  intro hsame
  have h := hsame 1 (by decide) [.msgReply 1 (BitVec.ofInt 32 (byteSum (received H bytes)))]
  rw [answers_of_eq hlen htype (by decide), answers_of_eq hlen htype (by decide)] at h
  have hnil : IsString (shift (fun _ => (0 : Byte)) (receivedLen H bytes)) [] := isString_nil.2 rfl
  have hone : IsString (shift (Function.update (fun _ => (0 : Byte)) (receivedLen H bytes) 1)
      (receivedLen H bytes)) [1] := by
    refine isString_cons.2 ⟨by simp [shift], by decide, isString_nil.2 ?_⟩
    simp [shift]
  obtain ⟨s, hs, heq⟩ := h.1 ⟨_, isString_append hlen hnul hnil, by simp⟩
  rw [hs.unique (isString_append hlen hnul hone), byteSum_append, BitVec.ofInt_add] at heq
  simp only [List.cons.injEq, Call.msgReply.injEq, true_and, and_true] at heq
  have hone_eq : BitVec.ofInt 32 (byteSum [1]) = 1 := by decide
  rw [hone_eq] at heq
  bv_omega

/-! ## The theorems -/

/-- Two strings somebody may have sent before the two bytes of a type. -/
theorem answer_leaks : ¬ ∀ (r r' : Received) (rbuf : Buf) (bytes : List Byte),
    0 < r.rcvid → 0 < r'.rcvid → 2 ≤ bytes.length → bytes.length ≤ Headers.x86_64.sizeofRecvBuf →
    ∀ b b' : Buf, (nameLookupServer .x86_64 10 r rbuf).map Prod.fst = some b →
      (nameLookupServer .x86_64 10 r' rbuf).map Prod.fst = some b' →
      SameAnswer .x86_64 bytes b b' := by
  intro h
  have hsame := h ⟨1, [0, 2, 65, 0]⟩ ⟨1, [0, 2, 66, 0]⟩ (fun _ => 0) [0, 2] (by decide) (by decide)
    (by decide) (by decide) _ _ rfl rfl 2 (by decide) [.msgReply 2 65]
  have hleft : Answers .x86_64 2 [0, 2] (receive 264 [0, 2, 65, 0] fun _ => 0)
      [.msgReply 2 65] := ⟨3, rfl⟩
  have hright := (answers_of_eq (by decide) (by decide) (by decide)).1 (hsame.1 hleft)
  obtain ⟨s, hs, heq⟩ := hright
  have hB : IsString (shift (receive 264 [0, 2] (receive 264 [0, 2, 66, 0] fun _ => 0)) 2) [66] :=
    isString_cons.2 ⟨rfl, by decide, isString_nil.2 rfl⟩
  rw [hs.unique hB] at heq
  exact absurd heq (by decide)

/-- **Whose string it is.** The leftovers do not matter exactly if the message is no checksum
request, or has a NUL, or fills the buffer; and the answer depends on the message alone exactly if
it is no checksum request or has a NUL. -/
theorem own_answer_iff (H : Headers) (bytes : List Byte) (hlen : 2 ≤ bytes.length) :
    (IgnoresLeftovers H bytes ↔ typeOf bytes ≠ H.cksumMsgType ∨ 0 ∈ received H bytes ∨
      H.sizeofRecvBuf ≤ bytes.length) ∧
    (OwnAnswer H bytes ↔ typeOf bytes ≠ H.cksumMsgType ∨ 0 ∈ received H bytes) := by
  constructor
  · constructor
    · intro h
      by_contra hnot
      simp only [not_or, not_not, Nat.not_le] at hnot
      obtain ⟨htype, hnul, hshort⟩ := hnot
      refine not_sameAnswer hlen htype hnul (h _ _ fun i hi => ?_)
      have hne : i ≠ receivedLen H bytes := by
        unfold receivedLen
        omega
      rw [Function.update_of_ne hne]
    · rintro (h | h | h)
      · exact fun rbuf rbuf' _ => ownAnswer_of_nul hlen (.inl h) rbuf rbuf'
      · exact fun rbuf rbuf' _ => ownAnswer_of_nul hlen (.inr h) rbuf rbuf'
      · intro rbuf rbuf' hagree rcvid hrcvid calls
        -- Nothing is left over.
        have heq : receive H.sizeofRecvBuf bytes rbuf = receive H.sizeofRecvBuf bytes rbuf' := by
          funext i
          unfold receive
          split_ifs with hi
          · rw [List.getElem?_eq_getElem (by omega), Option.getD_some, Option.getD_some]
          · exact hagree i (by omega)
        rw [answers_iff hrcvid, answers_iff hrcvid, heq]
  · constructor
    · intro h
      by_contra hnot
      simp only [not_or, not_not] at hnot
      exact not_sameAnswer hlen hnot.1 hnot.2 (h _ _)
    · exact ownAnswer_of_nul hlen

theorem own_answer_iff_hi : ¬ OwnAnswer .x86_64 [0, 2, 0x68, 0x69] := fun h =>
  absurd ((own_answer_iff .x86_64 [0, 2, 0x68, 0x69] (by decide)).2.1 h) (by decide)

end QnxTutorial.Checksum
