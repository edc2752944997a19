import SystemsLab.Cush.Members

/-!
# Cush.Prompt

`main` asserts before each `readline` that SIGCHLD is not blocked and that the shell owns the
terminal, and `delete_job` asserts that the job it deletes has an id. This module shows which of
the shell's halts can happen at all.

* `PromptInv`: outside `wait_for_job` SIGCHLD is unblocked and the terminal is the shell's;
  inside it SIGCHLD is blocked. `step_post` shows that every step keeps it, except a pipeline
  whose stage loop takes a `return 1` before `posix_spawnp` (`EndsEarly`), which leaves SIGCHLD
  blocked (`spawn_failure_leaks`).
* `Halt.Unasserted`: `exit(0)`, `utils_fatal_error`, `abort()` in `add_job`, or a read through
  NULL. `step_post` also shows that from a state with `PromptInv` and a well-formed table these
  are the only ways a step can end the shell: no `assert` fails and no index is out of bounds.
* `ReachableWith SetupOk`: the runs in which every call before `posix_spawnp` succeeds.
  `ReachableWith.never_fails_assert` combines the two over every such run.

Each operation comes with one `Post` lemma: what it can return and how it can fail.
-/

namespace SystemsLab
namespace Cush

/-- How the shell ends, other than by a failed `assert` or an index out of bounds: `exit` with 0
(the `exit` builtin and the end of input), `utils_fatal_error`, `abort()` in `add_job`, or a read
through NULL. -/
def Halt.Unasserted (x : Halt) : Prop :=
  x = .exit 0 ∨ x = .fatalError ∨ x = .abort ∨ x = .nullDeref

theorem deref_post {α : Type} (o : Option α) :
    Post (fun _ => True) (· = Halt.nullDeref) (deref o) := by
  cases o
  · exact .error rfl
  · exact .ok trivial

/-- What `main`'s assertions need, and how `wait_for_job` keeps it: outside `wait_for_job`
SIGCHLD is unblocked and the shell owns the terminal; inside it SIGCHLD is blocked. -/
def PromptInv (s : Shell) : Prop :=
  match s.phase with
  | .ready _ => s.sigchldBlocked = false ∧ s.termOwner = s.pgrp
  | .waiting _ _ => s.sigchldBlocked = true

/-! ## The prompt -/

theorem reportStopped_post (s : Shell) :
    Post (fun t : Shell => t.sigchldBlocked = s.sigchldBlocked ∧ t.termOwner = s.termOwner ∧
      t.pgrp = s.pgrp ∧ t.phase = s.phase) (· = .nullDeref) (reportStopped s) := by
  unfold reportStopped
  exact Post.ite (fun _ => Post.bind (deref_post _) fun _ _ => Post.bind (deref_post _)
    fun _ _ => .ok ⟨rfl, rfl, rfl, rfl⟩) fun _ => .ok ⟨rfl, rfl, rfl, rfl⟩

theorem promptChecks_post {s : Shell} (hb : s.sigchldBlocked = false) (ht : s.termOwner = s.pgrp) :
    Post (fun t : Shell => t.sigchldBlocked = false ∧ t.termOwner = t.pgrp ∧ t.phase = s.phase)
      Halt.Unasserted (promptChecks s) := by
  unfold promptChecks
  rw [if_neg (by simp [hb])]
  refine Post.bind ((reportStopped_post s).imp (fun _ => id) fun _ h => .inr (.inr (.inr h)))
    fun u ⟨hub, hut, hup, huph⟩ => ?_
  have hsig : (reportSignal u).sigchldBlocked = u.sigchldBlocked ∧
      (reportSignal u).termOwner = u.termOwner ∧ (reportSignal u).pgrp = u.pgrp ∧
      (reportSignal u).phase = u.phase := by
    unfold reportSignal; split <;> exact ⟨rfl, rfl, rfl, rfl⟩
  rw [if_neg (by rw [hsig.2.1, hsig.2.2.1, hut, hup, ht]; exact not_not_intro rfl)]
  exact .ok ⟨hsig.1.trans (hub.trans hb), by rw [hsig.2.1, hsig.2.2.1, hut, hup, ht],
    hsig.2.2.2.trans huph⟩

/-! ## `wait_for_job` -/

theorem finishWait_prompt {s t : Shell} {a : Nat} (h : finishWait s a = .ok t) :
    t.sigchldBlocked = false ∧ t.termOwner = t.pgrp := by
  unfold finishWait at h
  obtain ⟨j, -, h⟩ := bind_eq_ok.1 h
  dsimp only at h
  split at h <;> obtain ⟨r, -, h⟩ := bind_eq_ok.1 h <;> cases h <;> exact ⟨rfl, rfl⟩

theorem waitLoop_prompt {t s' : Shell} {a : Nat} {ps : List Pipeline} (hb : t.sigchldBlocked = true)
    (h : waitLoop t a ps = .ok s') : PromptInv s' := by
  unfold waitLoop at h
  obtain ⟨j, -, h⟩ := bind_eq_ok.1 h
  split at h
  · cases h
    exact hb
  · obtain ⟨u, hu, rfl⟩ := map_eq_ok.1 h
    exact finishWait_prompt (t := u) hu

/-! ## The builtins -/

/-- What a builtin does to the terminal and the SIGCHLD mask: a handled builtin keeps the mask
and the process group, and leaves the terminal where it was or gives it back to the shell; `fg`
hands the terminal to the job and keeps the mask for `wait_for_job`. -/
def TermKept (s : Shell) : Builtin → Prop
  | .handled t => t.sigchldBlocked = s.sigchldBlocked ∧ t.pgrp = s.pgrp ∧
      (t.termOwner = s.termOwner ∨ t.termOwner = t.pgrp)
  | .fg t _ => t.sigchldBlocked = s.sigchldBlocked
  | .notBuiltin => True

theorem builtinFg_post (s : Shell) (cmd : Command) (k : Int) :
    Post (TermKept s) (· = .nullDeref) (builtinFg s cmd k) := by
  unfold builtinFg
  refine Post.bind (deref_post _) fun arg _ => ?_
  split
  · exact .ok ⟨rfl, rfl, .inl rfl⟩
  · refine Post.bind (deref_post _) fun job _ => Post.ite (fun _ => .ok ?_) fun _ => .ok rfl
    simp only [TermKept, Shell.giveTerminalBack, Shell.giveTerminalTo, Shell.print, or_true,
      and_self]

theorem builtinBg_post (s : Shell) (cmd : Command) (k : Int) :
    Post (TermKept s) (· = .nullDeref) (builtinBg s cmd k) := by
  unfold builtinBg
  refine Post.bind (deref_post _) fun _ _ => Post.bind (deref_post _) fun _ _ =>
    Post.bind (deref_post _) fun _ _ => ?_
  split
  · exact .ok ⟨rfl, rfl, .inl rfl⟩
  · exact .ok (by split <;> exact ⟨rfl, rfl, .inl rfl⟩)

theorem builtinStop_post (s : Shell) (cmd : Command) (k : Int) :
    Post (TermKept s) (· = .nullDeref) (builtinStop s cmd k) := by
  unfold builtinStop
  refine Post.bind (deref_post _) fun _ _ => ?_
  split
  · exact .ok ⟨rfl, rfl, .inl rfl⟩
  · exact Post.bind (deref_post _) fun _ _ => .ok (by split <;> exact ⟨rfl, rfl, .inl rfl⟩)

theorem builtinKill_post (s : Shell) (cmd : Command) (k : Int) :
    Post (TermKept s) (· = .nullDeref) (builtinKill s cmd k) := by
  unfold builtinKill
  refine Post.ite (fun _ => .ok ⟨rfl, rfl, .inl rfl⟩) fun _ => Post.ite (fun _ => ?_) fun _ => ?_
  · exact Post.bind (deref_post _) fun _ _ => Post.bind (deref_post _) fun _ _ =>
      Post.bind (deref_post _) fun _ _ => .ok (by split <;> exact ⟨rfl, rfl, .inl rfl⟩)
  · refine Post.bind (deref_post _) fun _ _ => Post.bind (deref_post _) fun _ _ =>
      Post.bind (deref_post _) fun _ _ => Post.bind (deref_post _) fun _ _ => ?_
    split
    · exact .ok (by split <;> exact ⟨rfl, rfl, .inl rfl⟩)
    · exact .ok ⟨rfl, rfl, .inl rfl⟩

theorem checkForBuiltin_post {s : Shell} (hw : s.reg.Wf) (cmd : Command) (k : Int) :
    Post (TermKept s) (· = .nullDeref) (checkForBuiltin s cmd k) := by
  unfold checkForBuiltin
  refine Post.ite (fun _ => ?_) fun _ => Post.ite (fun _ => .ok ⟨rfl, rfl, .inl rfl⟩) fun _ =>
    Post.ite (fun _ => builtinFg_post s cmd k) fun _ => Post.ite (fun _ => builtinBg_post s cmd k)
      fun _ => Post.ite (fun _ => builtinStop_post s cmd k) fun _ =>
        Post.ite (fun _ => builtinKill_post s cmd k) fun _ => .ok trivial
  rw [Registry.printAllJobs_eq hw, map_ok]
  exact .ok ⟨rfl, rfl, .inl rfl⟩

/-! ## The spawn -/

/-- Every call of the loop body before `posix_spawnp`. -/
def setupCalls : List SpawnCall :=
  [.attrInit, .fileActionsInit, .tcsetpgrp, .setflags, .setpgroup, .setsigmask, .addopenIn,
   .addopenOut, .dup2OutErr, .dup2PipeIn, .dup2PipeOut, .dup2PipeErr]

theorem mem_setupCalls {c : SpawnCall} : c ∈ setupCalls ↔ c ≠ .spawnp := by
  cases c <;> decide

theorem stageSetup_post (ret : SpawnCall → Nat) (p : Pipeline) (K i : Nat) (pgid : Int)
    (pipes : List (Nat × Nat)) (cmd : Command) :
    Post (fun r : SpawnAttr × List FileAction => r.1.takesTerminal = !p.bgJob) (fun _ => True)
      (stageSetup ret p K i pgid pipes cmd) := by
  unfold stageSetup
  refine Post.ite (fun _ => .error trivial) fun _ => Post.ite (fun _ => .error trivial) fun _ => ?_
  dsimp only
  refine Post.ite (fun _ => .error trivial) fun _ => Post.ite (fun _ => .error trivial) fun _ =>
    Post.ite (fun _ => .error trivial) fun _ => .ok ?_
  cases p.bgJob <;> simp only [SpawnAttr.takesTerminal] <;> rfl

theorem stageSetup_isOk {ret : SpawnCall → Nat} (hok : ∀ c ∈ setupCalls, ret c = 0) (p : Pipeline)
    (K i : Nat) (pgid : Int) (pipes : List (Nat × Nat)) (cmd : Command) :
    ∃ r, stageSetup ret p K i pgid pipes cmd = .ok r := by
  have h : stageSetup ret p K i pgid pipes cmd = stageSetup (fun _ => 0) p K i pgid pipes cmd := by
    simp only [setupCalls, List.mem_cons, List.not_mem_nil, or_false, forall_eq_or_imp,
      forall_eq] at hok
    obtain ⟨h1, h2, h3, h4, h5, h6, h7, h8, h9, h10, h11, h12⟩ := hok
    simp only [stageSetup, fileRedirections, pipeRedirections, h1, h2, h3, h4, h5, h6, h7, h8,
      h9, h10, h11, h12]
  obtain ⟨_, h'⟩ := @stageSetup_ok (fun _ => 0) (fun _ => rfl) p K i pgid pipes cmd
  exact ⟨_, h.trans h'⟩

theorem spawnStages_termOwner (os : SpawnOs) {p : Pipeline} (hbg : p.bgJob = true) (K : Nat)
    (pipes : List (Nat × Nat)) : ∀ (cmds : List Command) (i : Nat) (pgid : Int) (s : Shell)
      (pids : List Int), (spawnStages os p K pipes cmds i pgid s pids).shell.termOwner = s.termOwner
  | [], _, _, _, _ => rfl
  | cmd :: rest, i, pgid, s, pids => by
    simp only [spawnStages]
    split
    · rfl
    · rename_i attr acts hset
      split
      · rfl
      · rw [spawnStages_termOwner os hbg K pipes rest]
        simp only [(stageSetup_post (os.ret i) p K i pgid pipes cmd).of_eq_ok hset, hbg,
          Bool.not_true, Bool.false_eq_true, if_false]

theorem spawnStages_not_early (os : SpawnOs) (p : Pipeline) (K : Nat) (pipes : List (Nat × Nat)) :
    ∀ (cmds : List Command) (i : Nat) (pgid : Int) (s : Shell) (pids : List Int),
      (∀ j < cmds.length, ∀ c ∈ setupCalls, os.ret (i + j) c = 0) →
      ∀ s2, spawnStages os p K pipes cmds i pgid s pids ≠ .early s2
  | [], _, _, _, _, _, _ => nofun
  | cmd :: rest, i, pgid, s, pids, hok, s2 => by
    have h0 : ∀ c ∈ setupCalls, os.ret i c = 0 := hok 0 (Nat.succ_pos _)
    obtain ⟨⟨attr, acts⟩, hr⟩ := stageSetup_isOk h0 p K i pgid pipes cmd
    simp only [spawnStages, hr]
    cases posixSpawnp s.fds attr acts (os.ret i .spawnp) (os.pid i) with
    | none => nofun
    | some c =>
      exact spawnStages_not_early os p K pipes rest (i + 1) _ _ _ (fun j hj c hc => by
          simpa [Nat.add_assoc, Nat.add_comm 1 j] using
            hok (j + 1) (by simp only [List.length_cons]; omega) c hc) s2

/-- The stage loop of `iterate_over_pipeline` on `p` from `s` takes a `return 1` before
`posix_spawnp`. -/
def EndsEarly (os : SpawnOs) (p : Pipeline) (s : Shell) : Prop :=
  ∃ s2, spawnStages os p p.commands.length (makePipes s (p.commands.length - 1)).2 p.commands 0 0
    (makePipes s (p.commands.length - 1)).1 [] = .early s2

/-- What the spawn leaves of the terminal and the mask: with no job to wait on, SIGCHLD unblocked
and the terminal where it was or back with the shell; with a job to wait on, the mask as it
was. -/
def SpawnTerm (s : Shell) : Shell × Option Nat → Prop
  | (t, none) => t.sigchldBlocked = false ∧ t.pgrp = s.pgrp ∧
      (t.termOwner = s.termOwner ∨ t.termOwner = t.pgrp)
  | (t, some _) => t.sigchldBlocked = s.sigchldBlocked

theorem addJob_post (r : Registry) (p : Pipeline) :
    Post (fun _ => True) (· = Halt.abort) (r.addJob p) := by
  unfold Registry.addJob
  split
  · exact .ok trivial
  · exact .error rfl

theorem spawnPipeline_post (os : SpawnOs) (p : Pipeline) (s : Shell) :
    Post (fun r => ¬EndsEarly os p s → SpawnTerm s r) Halt.Unasserted (spawnPipeline os p s) := by
  obtain ⟨-, -, hb0, -, ho0, hg0⟩ := makePipes_frame s (p.commands.length - 1)
  have hst := spawnStages_frame os p p.commands.length (makePipes s (p.commands.length - 1)).2
    p.commands 0 0 (makePipes s (p.commands.length - 1)).1 []
  have hto := fun hbg : p.bgJob = true => spawnStages_termOwner os hbg p.commands.length
    (makePipes s (p.commands.length - 1)).2 p.commands 0 0 (makePipes s (p.commands.length - 1)).1 []
  unfold spawnPipeline EndsEarly
  dsimp only
  generalize spawnStages os p p.commands.length (makePipes s (p.commands.length - 1)).2
    p.commands 0 0 (makePipes s (p.commands.length - 1)).1 [] = e at hst hto ⊢
  cases e with
  | early s2 => exact .ok fun hne => (hne ⟨s2, rfl⟩).elim
  | failed s2 => exact .ok fun _ => ⟨rfl, hst.2.2.2.2.trans hg0, .inr rfl⟩
  | done s2 pids =>
    refine Post.bind ((addJob_post _ p).imp (fun _ => id) fun _ h => .inr (.inr (.inl h)))
      fun ⟨r, a⟩ _ => Post.bind ((deref_post _).imp (fun _ => id) fun _ h => .inr (.inr (.inr h)))
        fun job _ => ?_
    dsimp only
    split
    · exact .ok fun _ => ⟨rfl, hst.2.2.2.2.trans hg0, .inl ((hto ‹_›).trans ho0)⟩
    · exact .ok fun _ => hst.2.2.1.trans hb0

theorem freeAllJobsFrom_ok : ∀ (l : List Nat) (r : Registry), r.Wf → (∀ a ∈ l, a ∈ r.jobList) →
    l.Nodup → ∃ r', Registry.freeAllJobsFrom l r = .ok r'
  | [], r, _, _, _ => ⟨r, rfl⟩
  | a :: rest, r, hw, hl, hnd => by
    have hrest : ∀ b ∈ rest, b ≠ a := fun b hb e => (List.nodup_cons.1 hnd).1 (e ▸ hb)
    simp only [Registry.freeAllJobsFrom, Registry.deleteJob_unlink hw (hl a (List.mem_cons_self _ _)),
      ok_bind]
    exact freeAllJobsFrom_ok rest _ (Registry.dropJobs_wf hw _)
      (fun b hb => by simp [hl b (List.mem_cons_of_mem a hb), hrest b hb]) (List.nodup_cons.1 hnd).2

/-! ## One step -/

theorem checkForBuiltin_fg_listed {s t : Shell} {cmd : Command} {k : Int} {a : Nat}
    (hw : s.reg.Wf) (h : checkForBuiltin s cmd k = .ok (.fg t a)) :
    t.reg.Wf ∧ a ∈ t.reg.jobList := by
  rcases checkForBuiltin_ok hw h with ⟨_, h, -⟩ | ⟨_, _, h, hr⟩ | h <;> cases h
  exact ⟨hr.wf, hr.listed⟩

theorem runPipeline_post {s : Shell} (hw : s.reg.Wf) (ht : s.termOwner = s.pgrp) (p : Pipeline)
    (ps : List Pipeline) (os : SpawnOs) (k : Int) :
    Post (fun s' => ¬EndsEarly os p { s with sigchldBlocked := true } → PromptInv s')
      Halt.Unasserted (runPipeline s p ps os k) := by
  unfold runPipeline
  dsimp only
  refine Post.ite (fun _ => ?_) fun _ => ?_
  · obtain ⟨r', hr⟩ := freeAllJobsFrom_ok _ _ hw (fun _ h => h) hw.nodup
    rw [Registry.freeAllJobs, hr, ok_bind]
    exact .error (.inl rfl)
  have hb := checkForBuiltin_post (s := { s with sigchldBlocked := true }) hw p.first k
  cases hc : checkForBuiltin { s with sigchldBlocked := true } p.first k with
  | error x =>
    rw [hc] at hb
    exact .error (.inr (.inr (.inr hb.of_error)))
  | ok res =>
    rw [hc] at hb
    replace hb := hb.of_ok
    cases res with
    | handled t =>
      obtain ⟨-, hg, ho⟩ := hb
      exact .ok fun _ => ⟨rfl, ho.elim (fun h => h.trans (ht.trans hg.symm)) id⟩
    | fg t a =>
      obtain ⟨hw', ha⟩ := checkForBuiltin_fg_listed (s := { s with sigchldBlocked := true }) hw hc
      obtain ⟨s', hs'⟩ := waitLoop_isOk ps hw' ha
      show Post _ _ (waitLoop t a ps)
      rw [hs']
      exact .ok fun _ => waitLoop_prompt hb hs'
    | notBuiltin =>
      have hq := spawnPipeline_post os p { s with sigchldBlocked := true }
      cases hsp : spawnPipeline os p { s with sigchldBlocked := true } with
      | error x =>
        rw [hsp] at hq
        exact .error hq.of_error
      | ok r =>
        rw [hsp] at hq
        replace hq := hq.of_ok
        obtain ⟨t, o⟩ := r
        cases o with
        | none =>
          exact .ok fun hne => by
            obtain ⟨h1, hg, ho⟩ := hq hne
            exact ⟨h1, ho.elim (fun h => h.trans (ht.trans hg.symm)) id⟩
        | some a =>
          obtain ⟨-, hr⟩ := spawnPipeline_ok (s := { s with sigchldBlocked := true }) hw hsp
          obtain ⟨a', ha', hr⟩ := hr.resolve_left fun h => nomatch h.1
          cases ha'
          obtain ⟨s', hs'⟩ := waitLoop_isOk ps hr.wf hr.listed
          show Post _ _ (waitLoop t a ps)
          rw [hs']
          exact .ok fun hne => waitLoop_prompt (hq hne) hs'

/-! ## One step -/

theorem PromptInv.ready {s : Shell} {ps : List Pipeline} (hp : PromptInv s)
    (hph : s.phase = .ready ps) : s.sigchldBlocked = false ∧ s.termOwner = s.pgrp := by
  simpa only [PromptInv, hph] using hp

theorem reapChild_term (s : Shell) (pid : Int) (st : WaitStatus) :
    (s.reapChild pid st).sigchldBlocked = s.sigchldBlocked ∧
      (s.reapChild pid st).termOwner = s.termOwner ∧ (s.reapChild pid st).pgrp = s.pgrp := by
  cases st <;> exact ⟨rfl, rfl, rfl⟩

theorem handleChildStatus_post (s : Shell) (pid : Int) (st : WaitStatus) :
    Post (fun t : Shell => t.sigchldBlocked = s.sigchldBlocked ∧ t.termOwner = s.termOwner ∧
      t.pgrp = s.pgrp ∧ t.phase = s.phase) (· = .nullDeref) (handleChildStatus s pid st) := by
  unfold handleChildStatus
  exact Post.bind (deref_post _) fun _ _ => Post.bind (deref_post _) fun _ _ =>
    .ok ⟨rfl, rfl, rfl, rfl⟩

/-- Every call before `posix_spawnp` succeeds at every stage of the pipeline the step runs. -/
def SetupOk (s : Shell) : Event → Bool
  | .pipeline os _ => match s.phase with
    | .ready (p :: _) =>
      (List.range p.commands.length).all fun i => setupCalls.all (os.ret i · == 0)
    | _ => true
  | _ => true

theorem SetupOk.not_early {s : Shell} {p : Pipeline} {ps : List Pipeline} {os : SpawnOs} {k : Int}
    (hph : s.phase = .ready (p :: ps)) (h : SetupOk s (.pipeline os k) = true) (t : Shell) :
    ¬EndsEarly os p t := by
  simp only [SetupOk, hph, List.all_eq_true, List.mem_range, beq_iff_eq] at h
  exact fun ⟨s2, he⟩ => spawnStages_not_early os p _ _ p.commands 0 0 _ []
    (fun j hj c hc => by rw [Nat.zero_add]; exact h j hj c hc) s2 he

/-- One step from a state with `PromptInv` and a well-formed table keeps `PromptInv` when the
pipeline it runs, if any, gets through its setup; and it ends the shell only as
`Halt.Unasserted` says. -/
theorem step_post {s : Shell} {e : Event} {r : Except Halt Shell} (hw : s.reg.Wf) (hi : FgInv s)
    (hp : PromptInv s) (h : step s e = some r) :
    Post (fun s' => SetupOk s e = true → PromptInv s') Halt.Unasserted r := by
  cases e with
  | command line =>
    simp only [step] at h
    split at h
    · obtain ⟨hb, ht⟩ := hp.ready ‹_›
      cases h
      exact (promptChecks_post hb ht).map fun _ ⟨h1, h2, _⟩ _ => ⟨h1, h2⟩
    · cases h
  | eof =>
    simp only [step] at h
    split at h
    · obtain ⟨hb, ht⟩ := hp.ready ‹_›
      cases h
      exact (promptChecks_post hb ht).bind fun _ _ => .error (.inl rfl)
    · cases h
  | pipeline os k =>
    simp only [step] at h
    split at h
    · rename_i p ps hph
      split at h
      · cases h
        exact (runPipeline_post hw (hp.ready hph).2 p ps os k).imp
          (fun _ hs hok => hs (SetupOk.not_early hph hok _)) fun _ => id
      · cases h
    · cases h
  | reap pid st =>
    simp only [step] at h
    split at h
    · obtain ⟨hb0, ht0, hg0⟩ := reapChild_term s pid st
      have hq := handleChildStatus_post (s.reapChild pid st) pid st
      split at h
      · rename_i a ps hph
        cases h
        cases hc : handleChildStatus (s.reapChild pid st) pid st with
        | error x =>
          rw [hc] at hq
          exact .error (.inr (.inr (.inr hq.of_error)))
        | ok u =>
          rw [hc] at hq
          obtain ⟨hcalm, hl, -⟩ := handleChildStatus_calm (by rw [Shell.reapChild_reg]; exact hw) hc
          rw [Shell.reapChild_reg] at hl
          obtain ⟨s', hs'⟩ := waitLoop_isOk ps hcalm.wf (hl ▸ (hi.waiting hph).1)
          rw [ok_bind, hs']
          have hb : s.sigchldBlocked = true := by simpa only [PromptInv, hph] using hp
          exact .ok fun _ => waitLoop_prompt (hq.of_ok.1.trans (hb0.trans hb)) hs'
      · rename_i ps hph
        obtain ⟨hb, ht⟩ := hp.ready hph
        split at h
        · cases h
        · cases h
          refine hq.imp (fun u ⟨h1, h2, h3, h4⟩ _ => ?_) fun _ h => .inr (.inr (.inr h))
          simp only [PromptInv, h4, Shell.reapChild_phase, hph]
          exact ⟨h1.trans (hb0.trans hb), by rw [h2, h3, ht0, hg0, ht]⟩
    · cases h
  | waitFails =>
    simp only [step] at h
    split at h
    · split at h
      · cases h
        exact .error (.inr (.inl rfl))
      · cases h
    · cases h

/-! ## Runs -/

/-- The runs in which every step passes `ok`. -/
inductive ReachableWith (ok : Shell → Event → Bool) : Shell → Prop
  | init (pgrp : Int) (fds : FdTable) (tty : Nat) : ReachableWith ok (Shell.init pgrp fds tty)
  | step {s s' : Shell} (e : Event) : ReachableWith ok s → ok s e = true →
      step s e = some (.ok s') → ReachableWith ok s'

theorem ReachableWith.reachable {ok : Shell → Event → Bool} {s : Shell}
    (hs : ReachableWith ok s) : Reachable s := by
  induction hs with
  | init => exact .init _ _ _
  | step e _ _ h ih => exact .step e ih h

theorem ReachableWith.prompt {s : Shell} (hs : ReachableWith SetupOk s) : PromptInv s := by
  induction hs with
  | init => exact ⟨rfl, rfl⟩
  | step e hs _ h ih =>
    obtain ⟨hw, hi⟩ := reachable_inv hs.reachable
    exact (step_post hw hi ih h).of_ok ‹_›

/-- On every run whose pipelines get through the setup of their stages, `main`'s assertions
before `readline` hold at each prompt and SIGCHLD is blocked inside `wait_for_job`; and no step
fails an `assert` or indexes out of bounds: the shell ends only by `exit(0)`,
`utils_fatal_error`, `abort()` in `add_job` or a read through NULL. -/
theorem ReachableWith.never_fails_assert {s : Shell} (hs : ReachableWith SetupOk s) :
    PromptInv s ∧ ∀ e x, Cush.step s e = some (.error x) → x.Unasserted := by
  obtain ⟨hw, hi⟩ := reachable_inv hs.reachable
  exact ⟨hs.prompt, fun _ _ h => (step_post hw hi hs.prompt h).of_error⟩

theorem sleepAfterDone_setupOk : ReachableWith SetupOk sleepAfterDoneShell :=
  .step (.pipeline (okOs 101) 0) (.step (.command [sleepFive]) (.step (.reap 100 (.exited 0))
    (.step (.pipeline (okOs 100) 0) (.step (.command [sleepOneBg]) (.init 10 stdFds 0) rfl rfl)
      rfl rfl) rfl rfl) rfl rfl) rfl rfl

theorem never_fails_assert_after_done : ReachableWith SetupOk sleepAfterDoneShell ∧
    PromptInv sleepAfterDoneShell ∧
    ∀ e x, step sleepAfterDoneShell e = some (.error x) → x.Unasserted :=
  ⟨sleepAfterDone_setupOk, ReachableWith.never_fails_assert sleepAfterDone_setupOk⟩

end Cush
end SystemsLab
