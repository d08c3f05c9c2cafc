import QnxTutorial.Checksum.Scan

/-!
# Overflow of the checksum

The sum is an `int`, and adding beyond its limits is undefined in C. `checksumAdds` are the
additions that the loop makes. A field of 257 bytes cannot hold a text that is long enough to get
there; the data of an `iov_client` can be as long as an `unsigned` can say.

**Theorem (`no_overflow_iff`).** The servers with messages of a fixed size never overflow, and
reply the sum. `iov_server` does not exactly if no prefix of the text has a sum that is out of
range, which is certain up to 2^24 bytes.
-/

namespace QnxTutorial.Checksum

open CString RecvBuf

/-! ## The additions of the loop -/

/-- The operands of each `cksum += *c`, from the `i`-th byte on. -/
def checksumAdds (text : Buf) : (fuel i : ℕ) → BitVec 32 → List (BitVec 32 × BitVec 32)
  | 0, _, _ => []
  | fuel + 1, i, cksum =>
    if text i ≠ 0 then
      (cksum, (text i).signExtend 32) ::
        checksumAdds text fuel (i + 1) (cksum + (text i).signExtend 32)
    else []

/-- No addition overflows. -/
def NoOverflow (text : Buf) : Prop :=
  ∀ fuel, ∀ p ∈ checksumAdds text fuel 0 0, p.1.saddOverflow p.2 = false

/-- The value of an `int`. -/
def InRange (z : ℤ) : Prop := -2 ^ 31 ≤ z ∧ z < 2 ^ 31

theorem inRange_toInt (x : BitVec 32) : InRange x.toInt := by
  have hlow := BitVec.le_toInt x
  have hhigh := BitVec.toInt_lt (x := x)
  unfold InRange
  omega

theorem saddOverflow_eq_false_iff {x y : BitVec 32} :
    x.saddOverflow y = false ↔ InRange (x.toInt + y.toInt) := by
  simp only [BitVec.saddOverflow, InRange, Bool.or_eq_false_iff, decide_eq_false_iff_not]
  omega

theorem toInt_signExtend_byte (x : Byte) : (x.signExtend 32).toInt = x.toInt :=
  BitVec.toInt_signExtend_of_le (by decide)

theorem toInt_add_signExtend {cksum : BitVec 32} {x : Byte}
    (h : InRange (cksum.toInt + x.toInt)) :
    (cksum + x.signExtend 32).toInt = cksum.toInt + x.toInt := by
  rw [← toInt_signExtend_byte, ← saddOverflow_eq_false_iff, ← Bool.not_eq_true] at h
  rw [BitVec.toInt_add_of_not_saddOverflow h, toInt_signExtend_byte]

theorem checksumAdds_of_ne {text : Buf} {i : ℕ} {cksum : BitVec 32} (hne : text i ≠ 0) :
    (∀ fuel, ∀ p ∈ checksumAdds text fuel i cksum, p.1.saddOverflow p.2 = false) ↔
      InRange (cksum.toInt + (text i).toInt) ∧
        ∀ fuel, ∀ p ∈ checksumAdds text fuel (i + 1) (cksum + (text i).signExtend 32),
          p.1.saddOverflow p.2 = false := by
  rw [← toInt_signExtend_byte, ← saddOverflow_eq_false_iff]
  constructor
  · intro hall
    refine ⟨?_, fun fuel p hp => ?_⟩
    · apply hall 1 (cksum, (text i).signExtend 32)
      rw [checksumAdds, if_pos hne]
      exact List.mem_cons_self
    · apply hall (fuel + 1) p
      rw [checksumAdds, if_pos hne]
      exact List.mem_cons_of_mem _ hp
  · intro ⟨hfirst, hrest⟩ fuel
    cases fuel with
    | zero => exact nofun
    | succ fuel =>
      rw [checksumAdds, if_pos hne, List.forall_mem_cons]
      exact ⟨hfirst, hrest fuel⟩

/-- The prefixes of a string are the empty one, and those that begin with its first byte. -/
theorem forall_prefix_cons {z : ℤ} {x : Byte} {s : List Byte} :
    (∀ k, InRange (z + byteSum ((x :: s).take k))) ↔
      InRange z ∧ ∀ k, InRange (z + x.toInt + byteSum (s.take k)) := by
  constructor
  · intro hall
    refine ⟨?_, fun k => ?_⟩
    · have h0 := hall 0
      rwa [List.take_zero, byteSum_nil, Int.add_zero] at h0
    · have hk := hall (k + 1)
      rwa [List.take_succ_cons, byteSum_cons, ← Int.add_assoc] at hk
  · intro ⟨hz, hall⟩ k
    cases k with
    | zero => rwa [List.take_zero, byteSum_nil, Int.add_zero]
    | succ k =>
      rw [List.take_succ_cons, byteSum_cons, ← Int.add_assoc]
      exact hall k

/-- The additions make the sums of the prefixes. -/
theorem checksumAdds_iff {text : Buf} {i : ℕ} {cksum : BitVec 32} {s : List Byte}
    (h : IsString (shift text i) s) :
    (∀ fuel, ∀ p ∈ checksumAdds text fuel i cksum, p.1.saddOverflow p.2 = false) ↔
      ∀ k, InRange (cksum.toInt + byteSum (s.take k)) := by
  induction s generalizing i cksum with
  | nil =>
    have h0 : text i = 0 := isString_nil.1 h
    apply iff_of_true
    · intro fuel
      cases fuel with
      | zero => exact nofun
      | succ fuel =>
        rw [checksumAdds, if_neg (not_not.2 h0)]
        exact nofun
    · intro k
      rw [List.take_nil, byteSum_nil, Int.add_zero]
      exact inRange_toInt cksum
  | cons x s ih =>
    obtain ⟨hx, hne, hs⟩ := isString_cons.1 h
    rw [shift_shift] at hs
    have hi : text i = x := hx
    rw [checksumAdds_of_ne (hi ▸ hne), hi, forall_prefix_cons]
    constructor
    · intro ⟨hfirst, hadds⟩
      have hrest := (ih hs).1 hadds
      rw [toInt_add_signExtend hfirst] at hrest
      exact ⟨inRange_toInt cksum, hrest⟩
    · intro ⟨_, hrest⟩
      have hfirst : InRange (cksum.toInt + x.toInt) := by
        have h0 := hrest 0
        rwa [List.take_zero, byteSum_nil, Int.add_zero] at h0
      rw [← toInt_add_signExtend hfirst] at hrest
      exact ⟨hfirst, (ih hs).2 hrest⟩

/-- No prefix has a sum that is out of range. -/
def PrefixesInRange (s : List Byte) : Prop := ∀ k, InRange (byteSum (s.take k))

theorem noOverflow_iff {text : Buf} {s : List Byte} (h : IsString text s) :
    NoOverflow text ↔ PrefixesInRange s := by
  have hs : IsString (shift text 0) s := by rwa [shift_zero]
  refine (checksumAdds_iff hs).trans (forall_congr' fun k => ?_)
  show InRange (0 + byteSum (s.take k)) ↔ _
  rw [Int.zero_add]

theorem prefixesInRange_of_length_le {s : List Byte} (h : s.length ≤ 2 ^ 24) :
    PrefixesInRange s := by
  intro k
  have hbounds := byteSum_bounds (s.take k)
  have hlen : (s.take k).length ≤ s.length := by
    rw [List.length_take]
    exact Nat.min_le_right _ _
  unfold InRange
  omega

theorem toInt_checksum {s : List Byte} (h : PrefixesInRange s) :
    (BitVec.ofInt 32 (byteSum s)).toInt = byteSum s := by
  have hall := h s.length
  rw [List.take_length] at hall
  exact toInt_ofInt hall

/-! ## The longest texts -/

/-- A text of the least byte. -/
def lowest (n : ℕ) : List Byte := List.replicate n 0x80

theorem byteSum_lowest (n : ℕ) : byteSum (lowest n) = -128 * (n : ℤ) := by
  simp [byteSum, lowest, Int.mul_comm]

theorem not_prefixesInRange_lowest {n : ℕ} (hn : 2 ^ 24 < n) : ¬ PrefixesInRange (lowest n) := by
  intro h
  have hall := (h n).1
  rw [List.take_of_length_le (by simp [lowest]), byteSum_lowest] at hall
  omega

theorem zero_not_mem_lowest (n : ℕ) : 0 ∉ lowest n := by
  simp [lowest]

namespace Iov

variable (H : Headers) (arg : List Byte)

/-- The text of an `iov_client` comes to `calculate_checksum`. -/
theorem text_deliver (hlen : arg.length + 1 < 2 ^ 32) (hne : arg.length + 1 ≠ 2 ^ 32 - 1) :
    text H (deliver H 1 (message H arg fun _ => 0)) (.readsAll arg) (fun _ => 0) =
      some (dataSize arg, poke (fun _ => 0) 0 (arg ++ [0])) := by
  have hsucceeds := succeeds_readsAll H arg hlen
  refine text_eq_some_iff.2 ⟨Int.one_pos, accepted hlen 1 _, ?_, (u32_received hlen 1 _).symm,
    _, rfl, (readData_eq hlen hsucceeds).symm⟩
  exact mt (msgReadStatus_eq_iff hlen hsucceeds).1 hne

/-- With the greatest size the function is not called: what `MsgRead` returns is taken for an
error. -/
theorem not_succeeds_of_text {H : Headers} {r : Received} {env : Env} {msg data : Buf}
    {size : BitVec 32} (h : text H r env msg = some (size, data))
    (hsize : size.toNat = 2 ^ 32 - 1) :
    ¬ env.Succeeds r size := by
  obtain ⟨-, ⟨-, -, -, hsrcmsglen⟩, hstatus, rfl, -⟩ := text_eq_some_iff.1 h
  rintro ⟨-, hread⟩
  rw [Nat.min_eq_left (by omega), hsize] at hread
  apply hstatus
  rw [Env.msgReadStatus, hread]
  rfl

end Iov

/-! ## The theorem -/

/-- Beyond that size there is a text that overflows, which `iov_client` can send. -/
theorem exists_overflow (H : Iov.Headers) {size : BitVec 32} (hlow : 2 ^ 24 + 1 < size.toNat)
    (hhigh : size.toNat ≠ 2 ^ 32 - 1) :
    ∃ r env msg data s, Iov.text H r env msg = some (size, data) ∧ env.Succeeds r size ∧
      IsString data s ∧ s.length < size.toNat ∧ ¬ NoOverflow data := by
  have hlt := size.isLt
  have hlen : (lowest (size.toNat - 1)).length + 1 = size.toNat := by
    simp only [lowest, List.length_replicate]
    omega
  have hdata : Iov.dataSize (lowest (size.toNat - 1)) = size := by
    rw [Iov.dataSize, hlen, BitVec.ofNat_toNat, BitVec.setWidth_eq]
  have hstring : IsString (poke (fun _ => 0) 0 (lowest (size.toNat - 1) ++ [0]))
      (lowest (size.toNat - 1)) := by
    rw [← shift_zero (poke _ _ _)]
    exact isString_poke (zero_not_mem_lowest _)
  have htext := Iov.text_deliver H (lowest (size.toNat - 1)) (by omega) (by omega)
  have hsucceeds := Iov.succeeds_readsAll H (lowest (size.toNat - 1)) (by omega)
  rw [hdata] at htext hsucceeds
  refine ⟨_, _, _, _, _, htext, hsucceeds, hstring, by omega, fun hno => ?_⟩
  exact not_prefixesInRange_lowest (by omega) ((noOverflow_iff hstring).1 hno)

/-- The only answer is the sum of the text. -/
def RepliesSum (rcvid : ℤ) (s : List Byte) (calls : Option (List Call)) : Prop :=
  ∃ checksum, calls = some [.msgReply rcvid checksum] ∧ checksum.toInt = byteSum s

/-- **Overflow of the checksum.** -/
theorem no_overflow_iff (H : Iov.Headers) :
    (∀ (v : Server) (r : Received) (rbuf text : Buf) (s : List Byte),
      v.text H.toHeaders r rbuf = some text → IsString text s → s.length ≤ maxStringLen →
      NoOverflow text ∧ ∀ fuel, s.length < fuel →
        RepliesSum r.rcvid s ((v.round H.toHeaders fuel r rbuf).map Prod.snd)) ∧
    (∀ (r : Iov.Received) (env : Iov.Env) (msg data : Buf) (size : BitVec 32) (s : List Byte),
      Iov.text H r env msg = some (size, data) → IsString data s → s.length < size.toNat →
      (NoOverflow data ↔ PrefixesInRange s) ∧ (NoOverflow data → ∀ fuel, s.length < fuel →
        RepliesSum r.rcvid s ((Iov.iovServer H fuel r env msg).map
          fun p => p.2.filterMap Iov.Call.answer?))) ∧
    ∀ size : BitVec 32,
      (∀ (r : Iov.Received) (env : Iov.Env) (msg data : Buf) (s : List Byte),
        Iov.text H r env msg = some (size, data) → env.Succeeds r size → IsString data s →
        s.length < size.toNat → NoOverflow data) ↔
      size.toNat ≤ 2 ^ 24 + 1 ∨ size.toNat = 2 ^ 32 - 1 := by
  refine ⟨?_, ?_, fun size => ⟨fun hall => ?_, ?_⟩⟩
  · intro v r rbuf text s htext hs hlen
    have hrange : PrefixesInRange s := prefixesInRange_of_length_le (by
      unfold maxStringLen at hlen
      omega)
    refine ⟨(noOverflow_iff hs).2 hrange, fun fuel hfuel => ⟨_, ?_, toInt_checksum hrange⟩⟩
    rw [Server.round_of_text htext, calculateChecksum_eq hs hfuel]
    rfl
  · intro r env msg data size s htext hs hlen
    refine ⟨noOverflow_iff hs, fun hno fuel hfuel => ?_⟩
    refine ⟨_, ?_, toInt_checksum ((noOverflow_iff hs).1 hno)⟩
    rw [Iov.iovServer_of_text htext, calculateChecksum_eq hs hfuel]
    exact congrArg some (Iov.answers_replyCalls _)
  · by_contra hsize
    rw [not_or] at hsize
    obtain ⟨r, env, msg, data, s, htext, hsucceeds, hs, hlen, hoverflow⟩ :=
      exists_overflow H (by omega) hsize.2
    exact hoverflow (hall r env msg data s htext hsucceeds hs hlen)
  · rintro (hsize | hsize) r env msg data s htext hsucceeds hs hlen
    · exact (noOverflow_iff hs).2 (prefixesInRange_of_length_le (by omega))
    · exact absurd hsucceeds (Iov.not_succeeds_of_text htext hsize)

theorem no_overflow_iff_hi : ∃ text, Server.server.text .x86_64 receivedHi (fun _ => 0x55) =
    some text ∧ NoOverflow text := by
  refine ⟨_, rfl, ((no_overflow_iff .x86_64).1 .server receivedHi (fun _ => 0x55) _ [0x68, 0x69] rfl
    ?_ (by decide)).1⟩
  exact isString_cons.2 ⟨by decide, by decide, isString_cons.2 ⟨by decide, by decide,
    isString_nil.2 (by decide)⟩⟩

/-- **The sum overflows** on 2^24 + 1 bytes of the least value. -/
theorem checksum_overflows : ¬ ∀ (r : Iov.Received) (env : Iov.Env) (msg data : Buf)
    (size : BitVec 32) (s : List Byte), Iov.text .x86_64 r env msg = some (size, data) →
    IsString data s → s.length < size.toNat → NoOverflow data := by
  intro hall
  obtain ⟨r, env, msg, data, s, htext, -, hs, hlen, hoverflow⟩ :=
    exists_overflow .x86_64 (show 2 ^ 24 + 1 < (0x1000002 : BitVec 32).toNat by decide) (by decide)
  exact hoverflow (hall r env msg data _ s htext hs hlen)

end QnxTutorial.Checksum
