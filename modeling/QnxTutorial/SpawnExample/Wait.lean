import QnxTutorial.SpawnExample.Program

/-!
# The signal and the child

**Theorem (`reaps`).** In every run the parent waits for a child that is running, and for nothing
else. It takes the status of the child once, after the child has died; unless somebody else sends
`SIGCHLD`, it does not say before that the child has died.

**Theorem (`waits_iff`).** For this the signal has to be masked, and handled as well if the kernel
discards ignored signals that are masked: otherwise the parent may wait for a signal that has been
lost. The handler is never called if it is not attached without masking the signal.
-/

namespace QnxTutorial.SpawnExample

open Signals

variable {K : Kernel} {v : Variant} {s s' : System} {e : Event}

/-! ## The handler -/

/-- The handler is not called, and the signal is masked when it is attached. -/
structure Silent (v : Variant) (s : System) : Prop where
  quiet : s.sigchld.Quiet
  masked : v.masks = true → s.parent = .setup .signal → s.sigchld.masked = true

theorem Setup.effect_quiet (call : Setup) {sigchld : Signal} (h : sigchld.Quiet)
    (hmasked : v.handles = true → call = .signal → sigchld.masked = true) :
    (call.effect v sigchld).Quiet := by
  cases call with
  | sigemptyset | sigaddset => exact h
  | sigmask =>
    show (if v.masks = true then sigchld.mask else sigchld).Quiet
    by_cases hmasks : v.masks = true
    · rw [if_pos hmasks]
      exact h.mask
    · rwa [if_neg hmasks]
  | signal =>
    show (if v.handles = true then sigchld.attach else sigchld).Quiet
    by_cases hhandles : v.handles = true
    · rw [if_pos hhandles]
      exact h.attach (hmasked hhandles rfl)
    · rwa [if_neg hhandles]

theorem Silent.raise (h : Silent v s) : Silent v (raise K s) where
  quiet := h.quiet.raise
  masked hmasks hp := (Signal.raise_masked _).trans (h.masked hmasks hp)

theorem Silent.act (hv : v.handles = true → v.masks = true) (h : Silent v s) (ha : Act K v s e s') :
    Silent v s' := by
  cases ha with
  | @setup call hp =>
    refine ⟨call.effect_quiet h.quiet ?_, ?_⟩
    · rintro hhandles rfl
      exact h.masked (hv hhandles) hp
    · intro hmasks hnext
      cases call with
      | sigmask => simp [Setup.effect, hmasks, Signal.mask]
      | sigemptyset | sigaddset | signal => cases hnext
  | spawn | sleep | wait | exits | fails => exact ⟨h.quiet, fun _ hp => by cases hp⟩
  | sigwaitinfo _ htake => exact ⟨h.quiet.take htake, fun _ hp => by cases hp⟩
  | die | sigchld => exact ⟨h.quiet.raise, h.raise.masked⟩

theorem silent_of_run (hv : v.handles = true → v.masks = true) {h : List (System × Event)}
    (hrun : (processes K v).Run h s) : Silent v s := by
  apply processes_invariant hrun
  · exact fun pid masked => ⟨Signal.quiet_inherited masked, fun _ hp => by cases hp⟩
  · exact fun s e s' hs => hs.act hv

/-! ## The child -/

/-- The child has been spawned, and its status has not been taken. -/
def Child.Unreaped (c : Child) : Prop := c = .running ∨ ∃ status, c = .zombie status

def Child.Dead (c : Child) : Prop := ∃ status, c = .zombie status ∨ c = .reaped status

/-- All that the parent prints. -/
def lines (pid status : Int) : List Line :=
  [.parentPid, .childPid pid, .childHasDied, .diedWith pid status]

/-- How far the parent and the child have come, and what has been printed. -/
inductive Phase (pid : Int) : ParentPc → Child → List Line → Prop
  | setup {call : Setup} : Phase pid (.setup call) .notSpawned []
  | posixSpawn : Phase pid .posixSpawn .notSpawned [.parentPid]
  | sigwaitinfo {c : Child} : c.Unreaped → Phase pid .sigwaitinfo c [.parentPid, .childPid pid]
  | sleep {c : Child} : c.Unreaped →
      Phase pid .sleep c [.parentPid, .childPid pid, .childHasDied]
  | wait {c : Child} : c.Unreaped → Phase pid .wait c [.parentPid, .childPid pid, .childHasDied]
  | sleepAgain {status : Int} : Phase pid .sleepAgain (.reaped status) (lines pid status)
  | exited {status : Int} : Phase pid (.exited .success) (.reaped status) (lines pid status)
  | failed {c : Child} {output : List Line} : (∀ status, c ≠ .reaped status) →
      output <+: [.parentPid, .childPid pid, .childHasDied] → Phase pid (.exited .failure) c output

theorem Child.Unreaped.ne_reaped {c : Child} (h : c.Unreaped) (status : Int) :
    c ≠ .reaped status := by
  rcases h with rfl | ⟨_, rfl⟩ <;> simp

theorem Phase.fails {pid : Int} {p : ParentPc} {c : Child} {output : List Line}
    (h : Phase pid p c output) (hsleep : p ≠ .sleepAgain) (hexited : ∀ status, p ≠ .exited status) :
    Phase pid (.exited .failure) c output := by
  cases h with
  | setup | posixSpawn => exact .failed (by simp) (by simp)
  | sigwaitinfo hc => exact .failed hc.ne_reaped (by simp)
  | sleep hc | wait hc => exact .failed hc.ne_reaped (List.prefix_refl _)
  | sleepAgain => exact (hsleep rfl).elim
  | exited | failed => exact (hexited _ rfl).elim

theorem Phase.dies {pid status : Int} {p : ParentPc} {output : List Line}
    (h : Phase pid p .running output) : Phase pid p (.zombie status) output := by
  cases h with
  | sigwaitinfo => exact .sigwaitinfo (.inr ⟨status, rfl⟩)
  | sleep => exact .sleep (.inr ⟨status, rfl⟩)
  | wait => exact .wait (.inr ⟨status, rfl⟩)
  | failed _ houtput => exact .failed (by simp) houtput

theorem Phase.act (h : Phase s.pid s.parent s.child s.output) (ha : Act K v s e s') :
    Phase s'.pid s'.parent s'.child s'.output := by
  cases ha with
  | @setup call hp =>
    show Phase s.pid call.next s.child (s.output ++ call.prints)
    rw [hp] at h
    generalize s.child = c, s.output = output at h ⊢
    cases h
    cases call with
    | signal => exact .posixSpawn
    | sigemptyset | sigaddset | sigmask => exact .setup
  | spawn hp =>
    show Phase s.pid .sigwaitinfo .running (s.output ++ [.childPid s.pid])
    rw [hp] at h
    generalize s.child = c, s.output = output at h ⊢
    cases h
    exact .sigwaitinfo (.inl rfl)
  | sigwaitinfo hp =>
    show Phase s.pid .sleep s.child (s.output ++ [.childHasDied])
    rw [hp] at h
    generalize s.child = c, s.output = output at h ⊢
    cases h with
    | sigwaitinfo hc => exact .sleep hc
  | sleep hp =>
    show Phase s.pid .wait s.child s.output
    rw [hp] at h
    generalize s.child = c, s.output = output at h ⊢
    cases h with
    | sleep hc => exact .wait hc
  | @wait status hp hc =>
    show Phase s.pid .sleepAgain (.reaped status) (s.output ++ [.diedWith s.pid status])
    rw [hp] at h
    generalize s.child = c, s.output = output at h ⊢
    cases h
    exact .sleepAgain
  | exits hp =>
    show Phase s.pid (.exited .success) s.child s.output
    rw [hp] at h
    generalize s.child = c, s.output = output at h ⊢
    cases h
    exact .exited
  | fails _ hsleep hexited => exact h.fails hsleep hexited
  | die hc => exact Phase.dies (hc ▸ h)
  | sigchld => exact h

theorem Phase.unreaped {pid : Int} {c : Child} {output : List Line}
    (h : Phase pid .sigwaitinfo c output ∨ Phase pid .wait c output) : c.Unreaped := by
  rcases h with h | h <;> cases h <;> assumption

theorem Phase.exists_lines {pid : Int} {p : ParentPc} {c : Child} {output : List Line}
    (h : Phase pid p c output) : ∃ status, output <+: lines pid status ∧
      ((p = .exited .success ∨ ∃ pid' status', .diedWith pid' status' ∈ output) →
        c = .reaped status ∧ output = lines pid status) := by
  cases h with
  | setup | posixSpawn | sigwaitinfo | sleep | wait => exact ⟨0, by simp [lines], by simp⟩
  | sleepAgain | exited => exact ⟨_, List.prefix_refl _, fun _ => ⟨rfl, rfl⟩⟩
  | failed _ houtput =>
    refine ⟨0, houtput.trans ⟨[.diedWith pid 0], rfl⟩, ?_⟩
    rintro (hp | ⟨pid', status', hmem⟩)
    · cases hp
    · simpa using houtput.subset hmem

/-! ## The signal is not lost -/

/-- The signal is masked, and the kernel does not discard it. -/
def Variant.Waits (K : Kernel) (v : Variant) : Prop :=
  v.masks = true ∧ (v.handles = true ∨ K.keepsIgnored = true)

theorem both_waits (K : Kernel) : Variant.both.Waits K := ⟨rfl, .inl rfl⟩

structure Sound (K : Kernel) (v : Variant) (s : System) : Prop where
  phase : Phase s.pid s.parent s.child s.output
  silent : Silent v s
  kept : (∀ call, s.parent ≠ .setup call) → s.parent ≠ .exited .failure → s.sigchld.Kept K
  pending : s.parent = .sigwaitinfo → ∀ status, s.child = .zombie status → s.sigchld.pending = true

theorem Setup.effect_kept (hv : v.Waits K) {sigchld : Signal} (hmasked : sigchld.masked = true) :
    (Setup.signal.effect v sigchld).Kept K := by
  show (if v.handles = true then sigchld.attach else sigchld).Kept K
  by_cases hhandles : v.handles = true
  · rw [if_pos hhandles]
    exact ⟨hmasked, .inl rfl⟩
  · rw [if_neg hhandles]
    exact ⟨hmasked, .inr (hv.2.resolve_left hhandles)⟩

theorem sound_start (pid : Int) (masked : Bool) : Sound K v (start pid masked) where
  phase := .setup
  silent := ⟨Signal.quiet_inherited masked, fun _ hp => by cases hp⟩
  kept hsetup := (hsetup _ rfl).elim
  pending hp := by cases hp

theorem Sound.act (hv : v.Waits K) (h : Sound K v s) (ha : Act K v s e s') : Sound K v s' where
  phase := h.phase.act ha
  silent := h.silent.act (fun _ => hv.1) ha
  kept hsetup hfailure := by
    cases ha with
    | @setup call hp =>
      cases call with
      | signal => exact Setup.effect_kept hv (h.silent.masked hv.1 hp)
      | sigemptyset | sigaddset | sigmask => exact (hsetup _ rfl).elim
    | spawn hp | sleep hp | wait hp | exits hp => exact h.kept (by simp [hp]) (by simp [hp])
    | sigwaitinfo hp htake => exact (h.kept (by simp [hp]) (by simp [hp])).take htake
    | fails => exact (hfailure rfl).elim
    | die | sigchld => exact (h.kept hsetup hfailure).raise
  pending hp status hc := by
    cases ha with
    | @setup call => cases call <;> cases hp
    | spawn => cases hc
    | sigwaitinfo | sleep | wait | exits | fails => cases hp
    | die | sigchld =>
      have hp' : s.parent = .sigwaitinfo := hp
      show (s.sigchld.raise K).pending = true
      rw [(h.kept (by simp [hp']) (by simp [hp'])).raise_eq]

theorem sound_of_run (hv : v.Waits K) {h : List (System × Event)}
    (hrun : (processes K v).Run h s) : Sound K v s :=
  processes_invariant hrun sound_start fun _ _ _ => Sound.act hv

theorem Sound.blocked_iff (h : Sound K v s) : parent v false s = none ↔
    (∃ status, s.parent = .exited status) ∨ s.child = .running ∧
      (s.parent = .sigwaitinfo ∧ s.sigchld.pending = false ∨ s.parent = .wait) := by
  have hphase := h.phase
  unfold parent
  cases hp : s.parent with
  | setup | posixSpawn | sleep | sleepAgain | exited => simp
  | sigwaitinfo =>
    rw [hp] at hphase
    rcases Phase.unreaped (.inl hphase) with hc | ⟨status, hc⟩
    · simp [hc, Signal.take_eq_none_iff]
    · simp [hc, Signal.take_eq_none_iff, h.pending hp status hc]
  | wait =>
    rw [hp] at hphase
    rcases Phase.unreaped (.inr hphase) with hc | ⟨status, hc⟩ <;> simp [hc]

/-! ## Who sends the signal -/

/-- `SIGCHLD` comes from the death of the child. -/
def Honest (s : System) : Prop :=
  s.sigchld.pending = true ∨ .childHasDied ∈ s.output → s.child.Dead

theorem Setup.effect_pending (call : Setup) (sigchld : Signal) :
    (call.effect v sigchld).pending = sigchld.pending := by
  cases call with
  | sigemptyset | sigaddset => rfl
  | sigmask => by_cases hmasks : v.masks = true <;> simp [Setup.effect, hmasks, Signal.mask]
  | signal => by_cases hhandles : v.handles = true <;> simp [Setup.effect, hhandles, Signal.attach]

theorem Honest.act (h : Honest s) (hphase : Phase s.pid s.parent s.child s.output)
    (ha : Act K v s e s') (he : e ≠ .sigchld) : Honest s' := by
  intro hsent
  cases ha with
  | @setup call hp =>
    rw [Setup.effect_pending] at hsent
    refine h (hsent.imp_right fun hmem => ?_)
    refine (List.mem_append.1 hmem).resolve_right ?_
    cases call <;> simp [Setup.prints]
  | spawn hp =>
    have hdead : s.child.Dead := h (hsent.imp_right fun hmem => by simpa using hmem)
    rw [hp] at hphase
    generalize s.child = c, s.output = output at hphase hdead
    cases hphase
    obtain ⟨status, hc | hc⟩ := hdead <;> cases hc
  | sigwaitinfo hp htake =>
    exact h (.inl (Signal.take_eq htake).1)
  | sleep | exits | fails => exact h hsent
  | wait => exact ⟨_, .inr rfl⟩
  | die => exact ⟨_, .inl rfl⟩
  | sigchld => exact (he rfl).elim

theorem honest_of_run {h : List (System × Event)} (hrun : (processes K .both).Run h s)
    (hnone : ∀ p ∈ h, p.2 ≠ .sigchld) : Honest s := by
  induction hrun with
  | init hs =>
    obtain ⟨pid, masked, rfl⟩ := hs
    rintro (hsent | hsent) <;> cases hsent
  | @step h s e hrun ha ih =>
    obtain ⟨hbefore, hlast⟩ := List.forall_mem_append.1 hnone
    have he : e ≠ .sigchld := hlast (s, e) (List.mem_singleton_self _)
    exact (ih hbefore).act (sound_of_run (both_waits K) hrun).phase (next_act ha) he

theorem Act.dead (ha : Act K v s e s') {status : Int}
    (hc : s'.child = .zombie status ∨ s'.child = .reaped status) :
    (s.child = .zombie status ∨ s.child = .reaped status) ∨ e = .die status := by
  cases ha with
  | setup | sigwaitinfo | sleep | exits | fails | sigchld => exact .inl hc
  | spawn => rcases hc with hc | hc <;> cases hc
  | wait _ hzombie =>
    rcases hc with hc | hc <;> cases hc
    exact .inl (.inl hzombie)
  | die =>
    rcases hc with hc | hc <;> cases hc
    exact .inr rfl

/-- The child has the status with which it has died. -/
theorem died_of_run {h : List (System × Event)} (hrun : (processes K v).Run h s) (status : Int)
    (hc : s.child = .zombie status ∨ s.child = .reaped status) :
    .die status ∈ Machine.events h := by
  induction hrun with
  | init hs =>
    obtain ⟨pid, masked, rfl⟩ := hs
    rcases hc with hc | hc <;> cases hc
  | @step h s e hrun ha ih =>
    rw [Machine.events, List.map_append]
    rcases (next_act ha).dead hc with hbefore | rfl
    · exact List.mem_append_left _ (ih hbefore)
    · simp

/-! ## The theorems -/

/-- The child dies at once. -/
def diesAtOnce : List Event := List.replicate 5 (.parent false) ++ [.die 0]

theorem run_diesAtOnce (K : Kernel) (v : Variant) : (processes K v).Run
    ((processes K v).trace (start 0 false) diesAtOnce)
    (diesAtOnce.foldl (processes K v).next (start 0 false)) := by
  have hinit : (processes K v).Run [] (start 0 false) := .init ⟨0, false, rfl⟩
  have hallowed : ∀ p ∈ (processes K v).trace (start 0 false) diesAtOnce,
      (step K v p.1 p.2).isSome := by
    obtain ⟨keepsIgnored⟩ := K
    obtain ⟨masks, handles⟩ := v
    cases keepsIgnored <;> cases masks <;> cases handles <;> decide
  exact hinit.trace hallowed

/-- **The parent takes the status of the child when it has died.** -/
theorem reaps (K : Kernel) (h : List (System × Event)) (s : System)
    (hrun : (processes K .both).Run h s) :
    s.sigchld.calls = 0 ∧
    (parent .both false s = none ↔ (∃ status, s.parent = .exited status) ∨ s.child = .running ∧
      (s.parent = .sigwaitinfo ∧ s.sigchld.pending = false ∨ s.parent = .wait)) ∧
    (∃ status, s.output <+: lines s.pid status ∧
      ((s.parent = .exited .success ∨ ∃ pid' status', .diedWith pid' status' ∈ s.output) →
        s.child = .reaped status ∧ s.output = lines s.pid status ∧
          .die status ∈ Machine.events h)) ∧
    ((∀ p ∈ h, p.2 ≠ .sigchld) → .childHasDied ∈ s.output → s.child.Dead) := by
  have hs := sound_of_run (both_waits K) hrun
  refine ⟨hs.silent.quiet.calls, hs.blocked_iff, ?_, ?_⟩
  · obtain ⟨status, houtput, hreaped⟩ := hs.phase.exists_lines
    refine ⟨status, houtput, fun hended => ?_⟩
    obtain ⟨hc, hall⟩ := hreaped hended
    exact ⟨hc, hall, died_of_run hrun status (.inr hc)⟩
  · exact fun hnone hmem => honest_of_run hrun hnone (.inr hmem)

/-- The parent takes the status of a child that has died at once. -/
theorem reaps_atOnce : ∃ h s, (processes ⟨false⟩ .both).Run h s ∧ s.output = lines 0 0 ∧
    .die 0 ∈ Machine.events h := by
  have hallowed : ∀ p ∈ (processes ⟨false⟩ .both).trace
      (diesAtOnce.foldl (processes ⟨false⟩ .both).next (start 0 false))
      (List.replicate 4 (.parent false)), (step ⟨false⟩ .both p.1 p.2).isSome := by
    decide
  have hrun := (run_diesAtOnce ⟨false⟩ .both).trace hallowed
  obtain ⟨status, -, hended⟩ := (reaps _ _ _ hrun).2.2.1
  obtain ⟨hc, houtput, hdied⟩ := hended (.inl rfl)
  cases hc
  exact ⟨_, _, hrun, houtput, hdied⟩

/-- The handler is never called. -/
def NeverHandles (K : Kernel) (v : Variant) : Prop :=
  ∀ h s, (processes K v).Run h s → s.sigchld.calls = 0

/-- The parent never waits for the signal of a child that has died. -/
def NeverMisses (K : Kernel) (v : Variant) : Prop :=
  ∀ h s, (processes K v).Run h s → s.parent = .sigwaitinfo → s.child.Dead →
    parent v false s ≠ none

theorem neverHandles_iff : NeverHandles K v ↔ (v.handles = true → v.masks = true) := by
  refine ⟨fun hcalls => ?_, fun hv h s hrun => (silent_of_run hv hrun).quiet.calls⟩
  have hzero := hcalls _ _ (run_diesAtOnce K v)
  obtain ⟨keepsIgnored⟩ := K
  obtain ⟨masks, handles⟩ := v
  cases masks with
  | true => simp
  | false =>
    cases handles with
    | true => cases keepsIgnored <;> exact absurd hzero (by decide)
    | false => simp

theorem neverMisses_iff : NeverMisses K v ↔ v.Waits K := by
  constructor
  · intro hwaits
    have hgoes := hwaits _ _ (run_diesAtOnce K v)
    obtain ⟨keepsIgnored⟩ := K
    obtain ⟨masks, handles⟩ := v
    cases keepsIgnored <;> cases masks <;> cases handles <;>
      first
        | exact ⟨rfl, .inl rfl⟩
        | exact ⟨rfl, .inr rfl⟩
        | exact (hgoes rfl ⟨0, .inl rfl⟩ rfl).elim
  · rintro hv h s hrun hp ⟨status, hc⟩ hnone
    rcases (sound_of_run hv hrun).blocked_iff.1 hnone with ⟨_, hexited⟩ | ⟨hrunning, -⟩
    · cases hp.symm.trans hexited
    · rcases hc with hc | hc <;> cases hc.symm.trans hrunning

/-- **The signal has to be masked and handled**, on a kernel that discards it otherwise. -/
theorem waits_iff (K : Kernel) (v : Variant) :
    (NeverHandles K v ↔ (v.handles = true → v.masks = true)) ∧
    (NeverMisses K v ↔ v.masks = true ∧ (v.handles = true ∨ K.keepsIgnored = true)) ∧
    (K.Discards → (NeverMisses K v ↔ v = .both)) := by
  refine ⟨neverHandles_iff, neverMisses_iff, fun hK => neverMisses_iff.trans ?_⟩
  obtain ⟨masks, handles⟩ := v
  have hK' : K.keepsIgnored = false := hK
  simp [Variant.Waits, Variant.both, hK']

/-- Masking the signal is enough on one kernel, and not on the other. -/
theorem waits_iff_masked :
    NeverMisses ⟨true⟩ ⟨true, false⟩ ∧ ¬ NeverMisses ⟨false⟩ ⟨true, false⟩ := by
  refine ⟨(waits_iff ⟨true⟩ ⟨true, false⟩).2.1.2 ⟨rfl, .inr rfl⟩, fun hmisses => ?_⟩
  have hboth := ((waits_iff ⟨false⟩ ⟨true, false⟩).2.2 rfl).1 hmisses
  cases hboth

end QnxTutorial.SpawnExample
