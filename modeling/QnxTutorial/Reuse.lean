import QnxTutorial.EventServer.Notify
import QnxTutorial.EventServer.Reuse
import QnxTutorial.ShmemQnx.Reuse

/-!
# Two servers that save an id

`event_server.c` saves the id of the client that registered, and `shmem_qnx_server.c` that of the
client that got the region. Ids are used again, for ever.

**Theorem (`reuse_never_confuses`).** Neither ever takes a client for another one.
-/

namespace QnxTutorial

open ConnectionIds Monitor

/-- **Reuse of connection ids never confuses clients**, in either server. -/
theorem reuse_never_confuses (H : EventServer.Headers) (resp : List RecvBuf.Byte) :
    (∀ c : Config (EventServer.system H), EventServer.SystemReachable c →
      EventServer.OwnRegistration c) ∧
    ∀ h S, (ShmemQnx.system resp).Run h S → ShmemQnx.OwnRegion resp S :=
  ⟨fun _ => EventServer.ownRegistration_of_reachable, fun _ _ => ShmemQnx.ownRegion_of_run⟩

/-! ## An id that is used again -/

namespace EventServer

/-- A client connects, and registers. -/
def comes (scoid : ℤ) (h : scoid ≠ 0) : List (Option Tid × (Input ⊕ Kernel.ClientAct Message)) :=
  [(none, .inr (.connect scoid)), (none, .inr (.send scoid (request scoid h))),
    (some .main, .inl (.message (request scoid h)))] ++
    List.replicate 7 (some .main, .inl (.result true))

/-- The client goes, and the server handles the pulse. -/
def goes (scoid : ℤ) : List (Option Tid × (Input ⊕ Kernel.ClientAct Message)) :=
  let pulse := [0, 0, 0, 0, 0xdf] ++ List.replicate 11 0 ++ [BitVec.ofInt 8 scoid] ++
    List.replicate 7 0
  [(none, .inr (.close scoid)), (some .main, .inl (.pulse pulse))] ++
    List.replicate 7 (some .main, .inl (.result true))

end EventServer

namespace ShmemQnx

/-- A client connects, and gets a region. -/
def comes (scoid : Scoid) : List SystemEvent :=
  [.client (.connect scoid), .client (.send scoid ⟨0, .get 8192⟩),
    .message scoid ⟨0, .get 8192⟩ (.allWell 0x10000)]

/-- The client goes, and the server handles the pulse. -/
def goes (scoid : Scoid) : List SystemEvent :=
  [.client (.close scoid), .disconnect scoid, .detach]

end ShmemQnx

theorem reuse_never_confuses_again :
    (∃ c : Config (EventServer.system .x86_64), EventServer.SystemReachable c ∧
      c.shared.1.saveScoid = 1 ∧ c.shared.2.registrant.map Prod.snd = some 1 ∧
      EventServer.OwnRegistration c) ∧
    ∃ h S, (ShmemQnx.system (ShmemQnx.response none)).Run h S ∧ S.server.clientScoid = 1 ∧
      S.granted = some 1 ∧ ShmemQnx.OwnRegion (ShmemQnx.response none) S := by
  obtain ⟨hevents, hshmem⟩ := reuse_never_confuses .x86_64 (ShmemQnx.response none)
  constructor
  · obtain ⟨c, hc, hp⟩ := exists_reach (P := EventServer.system .x86_64)
      (I := EventServer.SystemStart) (s := (EventServer.start, ⟨.empty, none, none⟩))
      ⟨⟨rfl, rfl, rfl, rfl⟩, rfl⟩
      (l := EventServer.comes 1 (by decide) ++ EventServer.goes 1 ++
        EventServer.comes 1 (by decide))
      (p := fun c => c.shared.1.saveScoid == 1 && c.shared.2.registrant.map Prod.snd == some 1)
      (by decide)
    simp only [Bool.and_eq_true, beq_iff_eq] at hp
    exact ⟨c, hc, hp.1, hp.2, hevents c hc⟩
  · have hrun := (Machine.Run.init (M := ShmemQnx.system (ShmemQnx.response none))
      (s := ⟨ShmemQnx.start, .empty, none, none⟩) ⟨⟨rfl, rfl⟩, rfl, rfl⟩).trace
      (l := ShmemQnx.comes ⟨1, by decide⟩ ++ ShmemQnx.goes ⟨1, by decide⟩ ++
        ShmemQnx.comes ⟨1, by decide⟩)
      (by
        simp only [ShmemQnx.system]
        decide)
    exact ⟨_, _, hrun, by decide, by decide, hshmem _ _ hrun⟩

end QnxTutorial
