import Mathlib.Algebra.Group.Nat.Defs
import Mathlib.Data.Int.Notation
import Mathlib.Tactic.SplitIfs
import QnxTutorial.Machine
import QnxTutorial.RecvBuf

/-!
# The handlers of `/dev/example`

The resource manager of `example.c` has a handler for reads and one for writes. A read gives some
made up data; what is written goes to standard output. A handler replies to the client itself, or
returns an error, with which the library answers for it. Both mark times in the attributes, which
all clients share.

**Theorems (`read_act`, `write_act`).** The ways in which a read and a write can end.
-/

namespace QnxTutorial.ExampleDevice

open RecvBuf

/-- An error number. `EOK` is zero. -/
abbrev Errno := {e : ℤ // e ≠ 0}

/-- The system headers. -/
structure Headers where
  ioXtypeMask : BitVec 32
  ioXtypeNone : BitVec 32
  enosys : Errno
  enomem : Errno
  iofuncAttrAtime : BitVec 32
  iofuncAttrMtime : BitVec 32
  iofuncAttrCtime : BitVec 32

def Headers.x86_64 : Headers where
  ioXtypeMask := 0xff
  ioXtypeNone := 0
  enosys := ⟨89, by decide⟩
  enomem := ⟨12, by decide⟩
  iofuncAttrAtime := 1
  iofuncAttrMtime := 2
  iofuncAttrCtime := 4

/-- `io_read_t`, with the receive id from the context. -/
structure IoRead where
  rcvid : ℤ
  nbytes : BitVec 32
  xtype : BitVec 32

/-- `io_write_t`, with the data that the client has sent behind it. -/
structure IoWrite extends IoRead where
  data : List Byte

/-- How the calls for a write end, with the bytes that are fetched and emitted, and what is in
`errno` before. -/
structure Env where
  verify : Except Errno Unit
  malloc : Bool
  msgget : Except Errno ℕ
  write : Except Errno ℕ
  errno : ℤ

inductive Call where
  | verify
  | malloc (nbytes : BitVec 32)
  | msgget (nbytes : BitVec 32)
  | write (buf : List Byte)
  | free
  | msgReply (rcvid : ℤ) (status : ℕ) (bytes : List Byte)
  deriving DecidableEq

/-- What a handler returns: `_RESMGR_NOREPLY`, or a value that the library makes the answer. -/
inductive Ret where
  | noReply
  | value (e : ℤ)
  deriving DecidableEq

/-- What a handler does, and what it leaves in the flags of the attributes. -/
structure Outcome where
  calls : List Call
  ret : Ret
  flags : BitVec 32
  stdout : List Byte
  deriving DecidableEq

/-! ## The handlers -/

/-- `data`, an array that the string just fills. -/
def deviceData : List Byte := ("hello ".toList.map fun c => BitVec.ofNat 8 c.toNat) ++ [0]

variable (H : Headers)

def ioRead (msg : IoRead) (verify : Except Errno Unit) (flags : BitVec 32) : Outcome :=
  match verify with
  | .error e => ⟨[.verify], .value e, flags, []⟩
  | .ok _ =>
    if msg.xtype &&& H.ioXtypeMask ≠ H.ioXtypeNone then ⟨[.verify], .value H.enosys, flags, []⟩
    else
      let nb := min deviceData.length msg.nbytes.toNat
      ⟨[.verify, .msgReply msg.rcvid nb (deviceData.take nb)], .noReply,
        if 0 < nb then flags ||| H.iofuncAttrAtime else flags, []⟩

def ioWrite (msg : IoWrite) (env : Env) (flags : BitVec 32) : Outcome :=
  match env.verify with
  | .error e => ⟨[.verify], .value e, flags, []⟩
  | .ok _ =>
    if msg.xtype &&& H.ioXtypeMask ≠ H.ioXtypeNone then ⟨[.verify], .value H.enosys, flags, []⟩
    else if msg.nbytes = 0 then ⟨[.verify, .msgReply msg.rcvid 0 []], .noReply, flags, []⟩
    else if env.malloc = false then
      ⟨[.verify, .malloc msg.nbytes], .value H.enomem, flags, []⟩
    else
      match env.msgget with
      | .error e =>
        ⟨[.verify, .malloc msg.nbytes, .msgget msg.nbytes, .free], .value e, flags, []⟩
      | .ok nb =>
        let buf := msg.data.take nb
        match env.write with
        | .error e =>
          ⟨[.verify, .malloc msg.nbytes, .msgget msg.nbytes, .write buf, .free], .value e, flags,
            []⟩
        | .ok n =>
          -- `status` is an `int`.
          if (BitVec.ofNat 64 n).setWidth 32 = (-1 : BitVec 32) then
            ⟨[.verify, .malloc msg.nbytes, .msgget msg.nbytes, .write buf, .free],
              .value env.errno, flags, buf.take n⟩
          else
            ⟨[.verify, .malloc msg.nbytes, .msgget msg.nbytes, .write buf, .free,
                .msgReply msg.rcvid nb []], .noReply,
              if 0 < nb then flags ||| (H.iofuncAttrMtime ||| H.iofuncAttrCtime) else flags,
              buf.take n⟩

/-! ## How a request ends -/

/-- The request passes the tests that both handlers make. -/
structure Passes (msg : IoRead) (verify : Except Errno Unit) : Prop where
  verify : verify = .ok ()
  xtype : msg.xtype &&& H.ioXtypeMask = H.ioXtypeNone

/-- Or it does not, and is answered with an error. -/
inductive Rejects (msg : IoRead) (verify : Except Errno Unit) : Errno → Prop
  | notVerified {e : Errno} : verify = .error e → Rejects msg verify e
  | special : verify = .ok () → msg.xtype &&& H.ioXtypeMask ≠ H.ioXtypeNone →
      Rejects msg verify H.enosys

inductive ReadAct (msg : IoRead) (verify : Except Errno Unit) (flags : BitVec 32) : Outcome → Prop
  | rejected {e : Errno} : Rejects H msg verify e →
      ReadAct msg verify flags ⟨[.verify], .value e, flags, []⟩
  | replied {nb : ℕ} : Passes H msg verify → nb = min deviceData.length msg.nbytes.toNat →
      ReadAct msg verify flags ⟨[.verify, .msgReply msg.rcvid nb (deviceData.take nb)], .noReply,
        if 0 < nb then flags ||| H.iofuncAttrAtime else flags, []⟩

/-- A count that looks like -1 in an `int`. -/
def LooksFailed (n : ℕ) : Prop := n % 2 ^ 32 = 2 ^ 32 - 1

/-- The calls of a write, up to `resmgr_msgget`. -/
def IoWrite.fetch (msg : IoWrite) : List Call :=
  [.verify, .malloc msg.nbytes, .msgget msg.nbytes]

inductive WriteAct (msg : IoWrite) (env : Env) (flags : BitVec 32) : Outcome → Prop
  | rejected {e : Errno} : Rejects H msg.toIoRead env.verify e →
      WriteAct msg env flags ⟨[.verify], .value e, flags, []⟩
  | nothing : Passes H msg.toIoRead env.verify → msg.nbytes = 0 →
      WriteAct msg env flags ⟨[.verify, .msgReply msg.rcvid 0 []], .noReply, flags, []⟩
  | noMemory : Passes H msg.toIoRead env.verify → msg.nbytes ≠ 0 → env.malloc = false →
      WriteAct msg env flags ⟨[.verify, .malloc msg.nbytes], .value H.enomem, flags, []⟩
  | notFetched {e : Errno} : Passes H msg.toIoRead env.verify → msg.nbytes ≠ 0 →
      env.malloc = true → env.msgget = .error e →
      WriteAct msg env flags ⟨msg.fetch ++ [.free], .value e, flags, []⟩
  | notWritten {nb : ℕ} {e : Errno} : Passes H msg.toIoRead env.verify → msg.nbytes ≠ 0 →
      env.malloc = true → env.msgget = .ok nb → env.write = .error e →
      WriteAct msg env flags
        ⟨msg.fetch ++ [.write (msg.data.take nb), .free], .value e, flags, []⟩
  | misread {nb n : ℕ} : Passes H msg.toIoRead env.verify → msg.nbytes ≠ 0 →
      env.malloc = true → env.msgget = .ok nb → env.write = .ok n → LooksFailed n →
      WriteAct msg env flags ⟨msg.fetch ++ [.write (msg.data.take nb), .free], .value env.errno,
        flags, (msg.data.take nb).take n⟩
  | written {nb n : ℕ} : Passes H msg.toIoRead env.verify → msg.nbytes ≠ 0 →
      env.malloc = true → env.msgget = .ok nb → env.write = .ok n → ¬ LooksFailed n →
      WriteAct msg env flags
        ⟨msg.fetch ++ [.write (msg.data.take nb), .free, .msgReply msg.rcvid nb []], .noReply,
          if 0 < nb then flags ||| (H.iofuncAttrMtime ||| H.iofuncAttrCtime) else flags,
          (msg.data.take nb).take n⟩

theorem read_act (msg : IoRead) (verify : Except Errno Unit) (flags : BitVec 32) :
    ReadAct H msg verify flags (ioRead H msg verify flags) := by
  cases hverify : verify with
  | error e => exact .rejected (.notVerified rfl)
  | ok =>
    rw [ioRead]
    by_cases hxtype : msg.xtype &&& H.ioXtypeMask = H.ioXtypeNone
    · rw [if_neg (not_not.2 hxtype)]
      exact .replied ⟨rfl, hxtype⟩ rfl
    · rw [if_pos hxtype]
      exact .rejected (.special rfl hxtype)

theorem looksFailed_iff {n : ℕ} :
    (BitVec.ofNat 64 n).setWidth 32 = (-1 : BitVec 32) ↔ LooksFailed n := by
  have hstatus : ((BitVec.ofNat 64 n).setWidth 32).toNat = n % 2 ^ 32 := by
    rw [BitVec.toNat_setWidth, BitVec.toNat_ofNat]
    omega
  rw [← BitVec.toNat_inj, hstatus]
  rfl

theorem write_act (msg : IoWrite) (env : Env) (flags : BitVec 32) :
    WriteAct H msg env flags (ioWrite H msg env flags) := by
  rw [ioWrite]
  cases hverify : env.verify with
  | error e => exact .rejected (.notVerified hverify)
  | ok =>
    by_cases hxtype : msg.xtype &&& H.ioXtypeMask = H.ioXtypeNone
    · have hpasses : Passes H msg.toIoRead env.verify := ⟨hverify, hxtype⟩
      simp only [if_neg (not_not.2 hxtype)]
      by_cases hnbytes : msg.nbytes = 0
      · rw [if_pos hnbytes]
        exact .nothing hpasses hnbytes
      · rw [if_neg hnbytes]
        cases hmalloc : env.malloc with
        | false => exact .noMemory hpasses hnbytes hmalloc
        | true =>
          rw [if_neg nofun]
          cases hmsgget : env.msgget with
          | error e => exact .notFetched hpasses hnbytes hmalloc hmsgget
          | ok nb =>
            cases hwrite : env.write with
            | error e => exact .notWritten hpasses hnbytes hmalloc hmsgget hwrite
            | ok n =>
              by_cases hfailed : LooksFailed n
              · simp only [if_pos (looksFailed_iff.2 hfailed)]
                exact .misread hpasses hnbytes hmalloc hmsgget hwrite hfailed
              · simp only [if_neg (mt looksFailed_iff.1 hfailed)]
                exact .written hpasses hnbytes hmalloc hmsgget hwrite hfailed
    · simp only [ne_eq, hxtype, not_false_eq_true, if_true]
      exact .rejected (.special hverify hxtype)

end QnxTutorial.ExampleDevice
