import SystemsLab.Cush.State

/-!
# Cush.Spawn

The spawning half of `iterate_over_pipeline`: `pipe2` for the `K - 1` pipes, then one pass of
the loop body per stage (spawn attributes, redirection file actions, pipe file actions,
`posix_spawnp`), then closing the pipes and registering the job.

Every library call of the loop body may fail; `SpawnOs` says what each call returns at each
stage. The body reacts as the source does: five places `return 1` at once (`StageEnd.early`,
with SIGCHLD still blocked and nothing cleaned up), a failed `posix_spawnp` cleans up first
(`StageEnd.failed`). Two statuses are assigned with `=` rather than `|=`, so a failed `addopen`
of the input file or `adddup2` of the input pipe is forgotten when a later call succeeds; the
model keeps that.
-/

namespace SystemsLab
namespace Cush

/-! ## Constants of `fcntl.h`, `sys/stat.h` and `spawn.h` (Linux, glibc) -/

def oRdonly : Nat := 0
def oWronly : Nat := 1
def oCreat : Nat := 0o100
def oTrunc : Nat := 0o1000
def oAppend : Nat := 0o2000
def oCloexec : Nat := 0o2000000

def sIrusr : Nat := 0o400
def sIwusr : Nat := 0o200
def sIrgrp : Nat := 0o40
def sIwgrp : Nat := 0o20
def sIroth : Nat := 0o4
def sIwoth : Nat := 0o2

def posixSpawnSetpgroup : Nat := 0x02
def posixSpawnSetsigmask : Nat := 0x08
def posixSpawnTcsetpgroup : Nat := 0x100

/-! ## `posix_spawn` -/

inductive FileAction
  | addopen (fd : Nat) (path : String) (oflag mode : Nat)
  | adddup2 (fd newfd : Nat)
  deriving DecidableEq, Repr

/-- What the child does for one file action before `exec`: `addopen` opens the file at `fd`, a
new open file description; `adddup2` makes `newfd` refer to the description of `fd`, without
close-on-exec. A `dup2` of a closed descriptor fails. -/
def FileAction.run (t : FdTable) : FileAction → Option FdTable
  | .addopen fd path oflag mode => some (t.openAt fd path oflag mode (oflag &&& oCloexec != 0))
  | .adddup2 fd newfd => (t.getEntry fd).map fun e => t.setEntry newfd (some ⟨e.file, false⟩)

def runActions (t : FdTable) : List FileAction → Option FdTable
  | [] => some t
  | act :: rest => (act.run t).bind (runActions · rest)

/-- The attributes the shell sets: the flags, and the process group (`0` founds a new one). -/
structure SpawnAttr where
  flags : Nat
  pgroup : Int

def SpawnAttr.takesTerminal (attr : SpawnAttr) : Bool :=
  attr.flags &&& posixSpawnTcsetpgroup != 0

/-- `posix_spawnp` given the value the operating system returns for it: on success the child,
with its process group and the shell's table after the file actions and `exec`. A file action
that fails makes the call fail with `EBADF`. -/
def posixSpawnp (fds : FdTable) (attr : SpawnAttr) (acts : List FileAction) (ret : Nat)
    (pid : Int) : Option Child :=
  match runActions fds acts with
  | some t => if ret = 0 then
      some ⟨pid, if attr.pgroup = 0 then pid else attr.pgroup, t.dropCloexec⟩ else none
  | none => none

/-! ## The loop body -/

/-- The library calls of one pass of the loop body. -/
inductive SpawnCall
  | attrInit
  | fileActionsInit
  | tcsetpgrp
  | setflags
  | setpgroup
  | setsigmask
  | addopenIn
  | addopenOut
  | dup2OutErr
  | dup2PipeIn
  | dup2PipeOut
  | dup2PipeErr
  | spawnp
  deriving DecidableEq, Repr

/-- What the operating system answers during one pipeline's spawn loop: the value call `c`
returns at stage `i` (`0` is success, anything else an error number), and the pid
`posix_spawnp` gives stage `i`. -/
structure SpawnOs where
  ret : Nat → SpawnCall → Nat
  pid : Nat → Int

/-- Every call succeeds and stage `i` gets the pid `base + i`. -/
def okOs (base : Int) : SpawnOs := ⟨fun _ _ => 0, fun i => base + i⟩

/-- The pids the operating system gives the `K` stages: positive, distinct, and held neither by
the shell nor by a child it has not reaped. -/
def SpawnOs.freshPids (os : SpawnOs) (s : Shell) (K : Nat) : Bool :=
  (List.range K).all fun i => 0 < os.pid i && os.pid i != s.pgrp &&
    s.children.all (·.pid != os.pid i) && (List.range i).all (os.pid · != os.pid i)

/-- `posix_spawn_file_actions_add*`: the action is recorded only when the call succeeds. -/
def addAction (acts : List FileAction) (ret : Nat) (act : FileAction) : List FileAction :=
  if ret = 0 then acts ++ [act] else acts

/-- `O_CREAT | O_WRONLY`, then `O_APPEND` or `O_TRUNC`. -/
def outputFlags (p : Pipeline) : Nat :=
  (oCreat ||| oWronly) ||| (if p.appendToOutput then oAppend else oTrunc)

def outputMode : Nat := sIroth ||| sIwoth ||| sIrgrp ||| sIwgrp ||| sIrusr ||| sIwusr

/-- The file redirections of stage `i` of `K`, and `file_actions_status` after them. The
status of the output `addopen` replaces that of the input one. -/
def fileRedirections (ret : SpawnCall → Nat) (p : Pipeline) (K i : Nat) (dup : Bool) :
    Nat × List FileAction :=
  let input : Nat × List FileAction :=
    match p.ioredInput with
    | some f => if i = 0 then
        (ret .addopenIn, addAction [] (ret .addopenIn) (.addopen 0 f oRdonly 0)) else (0, [])
    | none => (0, [])
  match p.ioredOutput with
  | some f =>
    if i = K - 1 then
      let acts := addAction input.2 (ret .addopenOut) (.addopen 1 f (outputFlags p) outputMode)
      if ret .addopenOut = 0 ∧ dup = true then
        (ret .dup2OutErr, addAction acts (ret .dup2OutErr) (.adddup2 1 2))
      else (ret .addopenOut, acts)
    else input
  | none => input

/-- The pipe redirections of stage `i`, after `acts`, and `file_actions_status` after them.
The status of the output `adddup2` replaces that of the input one. -/
def pipeRedirections (ret : SpawnCall → Nat) (K i : Nat) (pipes : List (Nat × Nat)) (dup : Bool)
    (acts : List FileAction) : Nat × List FileAction :=
  let input : Nat × List FileAction :=
    if 1 < K ∧ 0 < i then
      (ret .dup2PipeIn, addAction acts (ret .dup2PipeIn) (.adddup2 (pipes.getD (i - 1) (0, 0)).1 0))
    else (0, acts)
  if 1 < K ∧ i < K - 1 then
    let acts := addAction input.2 (ret .dup2PipeOut) (.adddup2 (pipes.getD i (0, 0)).2 1)
    if ret .dup2PipeOut = 0 ∧ dup = true then
      (ret .dup2PipeErr, addAction acts (ret .dup2PipeErr) (.adddup2 1 2))
    else (ret .dup2PipeOut, acts)
  else input

/-- The loop body up to `posix_spawnp`: the attributes and file actions of stage `i`, or the
text `perror` prints where the body returns 1. -/
def stageSetup (ret : SpawnCall → Nat) (p : Pipeline) (K i : Nat) (pgid : Int)
    (pipes : List (Nat × Nat)) (cmd : Command) : Except String (SpawnAttr × List FileAction) :=
  if ret .attrInit ≠ 0 then .error "posix_spawnattr_init"
  else if ret .fileActionsInit ≠ 0 then .error "posix_spawn_file_actions_init"
  else
    let fg := !p.bgJob
    let flags := posixSpawnSetpgroup ||| posixSpawnSetsigmask |||
      (if fg then posixSpawnTcsetpgroup else 0)
    let attrStatus := (if fg then ret .tcsetpgrp else 0) ||| ret .setflags ||| ret .setpgroup |||
      ret .setsigmask
    if attrStatus ≠ 0 then .error "spawn_attr_status"
    else
      let redir := fileRedirections ret p K i cmd.dupStderrToStdout
      if redir.1 ≠ 0 then .error "posix_spawn_file_actions_addopen"
      else
        let piped := pipeRedirections ret K i pipes cmd.dupStderrToStdout redir.2
        if piped.1 ≠ 0 then .error "posix_spawn_file_actions_adddup2"
        else .ok (⟨flags, pgid⟩, piped.2)

/-! ## The loop -/

/-- How the stage loop ends: a `return 1` before `posix_spawnp` (nothing cleaned up), a failed
`posix_spawnp`, or every stage spawned, with their pids in stage order. -/
inductive StageEnd
  | early (s : Shell)
  | failed (s : Shell)
  | done (s : Shell) (pids : List Int)

/-- The shell an end of the loop leaves. -/
def StageEnd.shell : StageEnd → Shell
  | .early s => s
  | .failed s => s
  | .done s _ => s

/-- The stage loop from stage `i` on, with the process group `pgid` found so far. -/
def spawnStages (os : SpawnOs) (p : Pipeline) (K : Nat) (pipes : List (Nat × Nat)) :
    List Command → Nat → Int → Shell → List Int → StageEnd
  | [], _, _, s, pids => .done s pids
  | cmd :: rest, i, pgid, s, pids =>
    match stageSetup (os.ret i) p K i pgid pipes cmd with
    | .error msg => .early (s.print msg)
    | .ok (attr, acts) =>
      match posixSpawnp s.fds attr acts (os.ret i .spawnp) (os.pid i) with
      | none => .failed s
      | some c =>
        spawnStages os p K pipes rest (i + 1) (if pgid = 0 then c.pid else pgid)
          { s with children := s.children ++ [c],
                   termOwner := if attr.takesTerminal then c.pgid else s.termOwner }
          (pids ++ [c.pid])

/-- `pipe2(pipes[i], O_CLOEXEC)` for `i < n`: each pipe takes the two lowest free descriptors.
The shell does not check `pipe2`; the model lets it succeed. -/
def makePipes (s : Shell) : Nat → Shell × List (Nat × Nat)
  | 0 => (s, [])
  | n + 1 =>
    let prev := makePipes s n
    let s1 := prev.1
    let r := s1.fds.lowestFree
    let t1 := s1.fds.setEntry r (some ⟨.pipeRead s1.pipeCount, true⟩)
    let w := t1.lowestFree
    ({ s1 with fds := t1.setEntry w (some ⟨.pipeWrite s1.pipeCount, true⟩),
               pipeCount := s1.pipeCount + 1 }, prev.2 ++ [(r, w)])

/-- Closing both ends of every pipe. -/
def closePipes (s : Shell) (pipes : List (Nat × Nat)) : Shell :=
  { s with fds := pipes.foldl (fun t rw => (t.setEntry rw.1 none).setEntry rw.2 none) s.fds }

theorem spawnStages_frame (os : SpawnOs) (p : Pipeline) (K : Nat) (pipes : List (Nat × Nat)) :
    ∀ (cmds : List Command) (i : Nat) (pgid : Int) (s : Shell) (pids : List Int),
      let t := (spawnStages os p K pipes cmds i pgid s pids).shell
      t.reg = s.reg ∧ t.phase = s.phase ∧ t.sigchldBlocked = s.sigchldBlocked ∧ t.fds = s.fds ∧
        t.pgrp = s.pgrp
  | [], _, _, _, _ => ⟨rfl, rfl, rfl, rfl, rfl⟩
  | cmd :: rest, i, pgid, s, pids => by
    simp only [spawnStages]
    split
    · exact ⟨rfl, rfl, rfl, rfl, rfl⟩
    · split
      · exact ⟨rfl, rfl, rfl, rfl, rfl⟩
      · exact spawnStages_frame os p K pipes rest _ _ _ _

theorem makePipes_frame (s : Shell) : ∀ n : Nat,
    let t := (makePipes s n).1
    t.reg = s.reg ∧ t.phase = s.phase ∧ t.sigchldBlocked = s.sigchldBlocked ∧
      t.children = s.children ∧ t.termOwner = s.termOwner ∧ t.pgrp = s.pgrp
  | 0 => ⟨rfl, rfl, rfl, rfl, rfl, rfl⟩
  | n + 1 => makePipes_frame s n

@[simp] theorem closePipes_reg (s : Shell) (pipes : List (Nat × Nat)) :
    (closePipes s pipes).reg = s.reg := rfl
@[simp] theorem closePipes_phase (s : Shell) (pipes : List (Nat × Nat)) :
    (closePipes s pipes).phase = s.phase := rfl
@[simp] theorem closePipes_sigchldBlocked (s : Shell) (pipes : List (Nat × Nat)) :
    (closePipes s pipes).sigchldBlocked = s.sigchldBlocked := rfl
@[simp] theorem closePipes_termOwner (s : Shell) (pipes : List (Nat × Nat)) :
    (closePipes s pipes).termOwner = s.termOwner := rfl

theorem getEntry_closePipes (pipes : List (Nat × Nat)) :
    ∀ (s : Shell) (n : Nat), (closePipes s pipes).fds.getEntry n =
      if pipes.any (fun rw => n == rw.1 || n == rw.2) then none else s.fds.getEntry n := by
  induction pipes with
  | nil => intro s n; rfl
  | cons rw rest ih =>
    intro s n
    have := ih { s with fds := (s.fds.setEntry rw.1 none).setEntry rw.2 none } n
    simp only [closePipes, List.foldl_cons] at this ⊢
    rw [this]
    by_cases h1 : n = rw.1 <;> by_cases h2 : n = rw.2 <;>
      simp only [FdTable.getEntry_setEntry, List.any_cons, Bool.or_eq_true, beq_iff_eq, h1, h2,
        if_true, if_false, true_or, or_true, false_or, ite_self]

/-- `iterate_over_pipeline` after the builtin check, up to `wait_for_job`: the shell, and for
a foreground job the job to wait for. -/
def spawnPipeline (os : SpawnOs) (p : Pipeline) (s : Shell) : Except Halt (Shell × Option Nat) :=
  let K := p.commands.length
  let made := makePipes s (K - 1)
  match spawnStages os p K made.2 p.commands 0 0 made.1 [] with
  | .early s2 => .ok (s2, none)
  | .failed s2 =>
    .ok (closePipes { s2.termstateSample.giveTerminalBack.print "posix_spawnp" with
      sigchldBlocked := false } made.2, none)
  | .done s2 pids => do
    let s3 := closePipes s2 made.2
    let (r, a) ← s3.reg.addJob p
    let job ← deref (r.jobs a)
    let job := { job with numProcessesAlive := pids.length, childPidArray := pids,
                          terminationCode := -1, stateSavedPreviously := false }
    if p.bgJob then
      pure ({ (({ s3 with reg := r.setJob a { job with status := .background } } : Shell).print
        ("[" ++ toString job.jid ++ "] " ++ toString (pids.headD 0) ++ "\n")) with
        sigchldBlocked := false }, none)
    else pure ({ s3 with reg := r.setJob a { job with status := .foreground } }, some a)

theorem spawnPipeline_early {os : SpawnOs} {p : Pipeline} {s s2 : Shell}
    (h : spawnStages os p p.commands.length (makePipes s (p.commands.length - 1)).2 p.commands 0 0
      (makePipes s (p.commands.length - 1)).1 [] = .early s2) :
    spawnPipeline os p s = .ok (s2, none) ∧ s2.sigchldBlocked = s.sigchldBlocked ∧
      s2.fds = (makePipes s (p.commands.length - 1)).1.fds ∧ s2.reg = s.reg := by
  have hst := spawnStages_frame os p p.commands.length (makePipes s (p.commands.length - 1)).2
    p.commands 0 0 (makePipes s (p.commands.length - 1)).1 []
  obtain ⟨hr, -, hb, -⟩ := makePipes_frame s (p.commands.length - 1)
  simp only [h, StageEnd.shell] at hst
  exact ⟨by simp [spawnPipeline, h], hst.2.2.1.trans hb, hst.2.2.2.1, hst.1.trans hr⟩

theorem spawnPipeline_failed {os : SpawnOs} {p : Pipeline} {s s2 : Shell}
    (h : spawnStages os p p.commands.length (makePipes s (p.commands.length - 1)).2 p.commands 0 0
      (makePipes s (p.commands.length - 1)).1 [] = .failed s2) :
    ∃ t, spawnPipeline os p s = .ok (t, none) ∧ t.sigchldBlocked = false ∧
      t.termOwner = s.pgrp ∧ t.reg = s.reg ∧ ∀ rw ∈ (makePipes s (p.commands.length - 1)).2,
        t.fds.getEntry rw.1 = none ∧ t.fds.getEntry rw.2 = none := by
  have hst := spawnStages_frame os p p.commands.length (makePipes s (p.commands.length - 1)).2
    p.commands 0 0 (makePipes s (p.commands.length - 1)).1 []
  obtain ⟨hr, -, -, -, -, hg⟩ := makePipes_frame s (p.commands.length - 1)
  simp only [h, StageEnd.shell] at hst
  refine ⟨closePipes { s2.termstateSample.giveTerminalBack.print "posix_spawnp" with
    sigchldBlocked := false } (makePipes s (p.commands.length - 1)).2,
    by simp only [spawnPipeline, h], rfl, hst.2.2.2.2.trans hg, hst.1.trans hr, fun rw hrw => ?_⟩
  have hany : ∀ n, n = rw.1 ∨ n = rw.2 →
      (makePipes s (p.commands.length - 1)).2.any (fun x => n == x.1 || n == x.2) = true :=
    fun n hn => List.any_eq_true.2 ⟨rw, hrw, by rcases hn with rfl | rfl <;> simp⟩
  simp only [getEntry_closePipes, hany _ (.inl rfl), hany _ (.inr rfl), ite_true, and_self]

theorem spawnPipeline_done {os : SpawnOs} {p : Pipeline} {s s2 : Shell} {pids : List Int}
    {r : Registry} {a : Nat} {j : Job}
    (h : spawnStages os p p.commands.length (makePipes s (p.commands.length - 1)).2 p.commands 0 0
      (makePipes s (p.commands.length - 1)).1 [] = .done s2 pids)
    (hadd : s2.reg.addJob p = .ok (r, a)) (hj : r.jobs a = some j) :
    ∃ t, spawnPipeline os p s = .ok (t, if p.bgJob then none else some a) ∧
      t.children = s2.children ∧
      t.reg = r.setJob a
        { j with
          numProcessesAlive := pids.length
          childPidArray := pids
          terminationCode := -1
          stateSavedPreviously := false
          status := if p.bgJob then .background else .foreground } := by
  cases hb : p.bgJob <;>
    simp only [spawnPipeline, h, closePipes_reg, hadd, ok_bind, hj, deref_some, hb, pure_eq,
      if_true, if_false, Bool.false_eq_true] <;>
    exact ⟨_, rfl, rfl, rfl⟩

end Cush
end SystemsLab
