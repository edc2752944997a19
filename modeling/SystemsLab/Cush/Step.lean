import SystemsLab.Cush.Spawn
import SystemsLab.Cush.Builtin

/-!
# Cush.Step

The shell as a state machine. A step is one thing the environment lets happen next:

* `command`: at the prompt, `main` runs its assertions and pending reports, and `readline`
  returns a line, parsed into pipelines (an empty line, or one that does not parse, is `[]`);
* `eof`: at the prompt, `readline` returns NULL and `main` returns 0;
* `pipeline`: `iterate_over_command_line` runs `iterate_over_pipeline` on the next pipeline of
  the line, up to its end or up to the loop of `wait_for_job`; the operating system's answers to
  its calls are the event's data;
* `reap`: `waitpid` reports a child: in the loop of `wait_for_job`, or in `sigchld_handler`
  whenever SIGCHLD is unblocked. Any child the operating system has not reaped may exit, be
  killed or stop at any time;
* `waitFails`: `waitpid` in the loop of `wait_for_job` finds no child at all.

`step` returns `none` when the event cannot happen in that state, and `.error` when the shell
process ends. `Reachable` closes the initial states under `step`; `run` replays a list of
events, and `run_reachable` turns a replay into a reachable state. The runs from `shell0` that
later modules use are here, with `stale_stop_report_derefs_null`: a stop reported at the prompt
for a job `fg` has already deleted reads it through NULL.
-/

namespace SystemsLab
namespace Cush

inductive Event
  | command (line : List Pipeline)
  | eof
  | pipeline (os : SpawnOs) (killRet : Int)
  | reap (pid : Int) (status : WaitStatus)
  | waitFails

/-- The report, before the prompt, of a job stopped by ^Z: `job_with_jid(z_update_jid)` is
dereferenced without a check. -/
def reportStopped (s : Shell) : Except Halt Shell :=
  if s.zUpdateJid ≠ -1 then do
    let a ← deref (s.reg.jobWithJid s.zUpdateJid)
    let job ← deref (s.reg.jobs a)
    pure { s.print ("[" ++ toString job.jid ++ "]+\t" ++ getStatus job.status ++ "\t\t(" ++
      printCmdline job.pipe ++ ")\n") with zUpdateJid := -1 }
  else .ok s

/-- The report, before the prompt, of a signal that killed a member of a job. -/
def reportSignal (s : Shell) : Shell :=
  if s.errorUpdateCode ≠ -1 then
    { s.print (printErrorMessage s.errorUpdateCode) with errorUpdateCode := -1 } else s

/-- The top of the read-eval loop before `readline`: the SIGCHLD assertion, the two reports, and
the terminal assertion. -/
def promptChecks (s : Shell) : Except Halt Shell :=
  if s.sigchldBlocked then .error .assertFailed
  else reportStopped s >>= fun s =>
    if (reportSignal s).termOwner ≠ (reportSignal s).pgrp then .error .assertFailed
    else .ok (reportSignal s)

/-- What `wait_for_job` does after its loop, and what both its callers do next: sample the
terminal unless a member was killed by a signal, delete the job if no member is alive, give the
terminal back to the shell, unblock SIGCHLD. -/
def finishWait (s : Shell) (a : Nat) : Except Halt Shell := do
  let job ← deref (s.reg.jobs a)
  let s := if job.terminationCode = -1 then s.termstateSample else s
  let r ← if job.numProcessesAlive < 1 then (s.reg.unlink a).deleteJob a else pure s.reg
  pure { s.giveTerminalBack with reg := r, sigchldBlocked := false }

/-- The test of the loop of `wait_for_job` on the job at `a`: wait on, or leave the loop and go
on with the pipelines `pipes` of the line. -/
def waitLoop (s : Shell) (a : Nat) (pipes : List Pipeline) : Except Halt Shell := do
  let job ← deref (s.reg.jobs a)
  if job.status = .foreground ∧ 0 < job.numProcessesAlive then
    pure { s with phase := .waiting a pipes }
  else (fun s => { s with phase := .ready pipes }) <$> finishWait s a

/-- `iterate_over_pipeline` on `p`, with `pipes` left on the line: block SIGCHLD, `exit`, the
other builtins, or the spawn; then `wait_for_job` or unblock SIGCHLD. -/
def runPipeline (s : Shell) (p : Pipeline) (pipes : List Pipeline) (os : SpawnOs)
    (killRet : Int) : Except Halt Shell :=
  let s := { s with sigchldBlocked := true }
  if p.first.name = "exit" then s.reg.freeAllJobs >>= fun _ => .error (.exit 0)
  else checkForBuiltin s p.first killRet >>= fun
    | .handled s => .ok { s with sigchldBlocked := false, phase := .ready pipes }
    | .fg s a => waitLoop s a pipes
    | .notBuiltin => spawnPipeline os p s >>= fun
      | (s, some a) => waitLoop s a pipes
      | (s, none) => .ok { s with phase := .ready pipes }

def step (s : Shell) : Event → Option (Except Halt Shell)
  | .command line => match s.phase with
    | .ready [] => some ((fun s => { s with phase := .ready line }) <$> promptChecks s)
    | _ => none
  | .eof => match s.phase with
    | .ready [] => some (promptChecks s >>= fun _ => .error (.exit 0))
    | _ => none
  | .pipeline os killRet => match s.phase with
    | .ready (p :: ps) =>
      if os.freshPids s p.commands.length then some (runPipeline s p ps os killRet) else none
    | _ => none
  | .reap pid st =>
    if s.children.any (·.pid == pid) then
      match s.phase with
      | .waiting a ps =>
        some (handleChildStatus (s.reapChild pid st) pid st >>= fun s => waitLoop s a ps)
      | .ready _ =>
        if s.sigchldBlocked then none else some (handleChildStatus (s.reapChild pid st) pid st)
    else none
  | .waitFails => match s.phase with
    | .waiting _ _ => if s.children.isEmpty then some (.error .fatalError) else none
    | _ => none

theorem step_stale_stop {s : Shell} (hp : s.phase = .ready []) (hb : s.sigchldBlocked = false)
    (hz : s.zUpdateJid ≠ -1) (hf : s.reg.jobWithJid s.zUpdateJid = none) (line : List Pipeline) :
    step s (.command line) = some (.error .nullDeref) := by
  simp [step, hp, promptChecks, reportStopped, hb, hz, hf]

inductive Reachable : Shell → Prop
  | init (pgrp : Int) (fds : FdTable) (tty : Nat) : Reachable (Shell.init pgrp fds tty)
  | step {s s' : Shell} (e : Event) : Reachable s → step s e = some (.ok s') → Reachable s'

/-- Replay events from `s`; the replay stops at the first halt or impossible event. -/
def run (s : Shell) : List Event → Option (Except Halt Shell)
  | [] => some (.ok s)
  | e :: es => match step s e with
    | some (.ok s') => run s' es
    | r => r

theorem run_reachable {s : Shell} (hs : Reachable s) :
    ∀ {es : List Event} {s' : Shell}, run s es = some (.ok s') → Reachable s'
  | [], _, h => by cases h; exact hs
  | e :: es, s', h => by
    simp only [run] at h
    split at h
    · exact run_reachable (Reachable.step e hs ‹_›) h
    · rename_i hr
      exact absurd h (hr s')

theorem run_halts {s : Shell} (hs : Reachable s) :
    ∀ {es : List Event} {h : Halt}, run s es = some (.error h) →
      ∃ t e, Reachable t ∧ step t e = some (.error h)
  | [], _, h => by cases h
  | e :: es, _, h => by
    simp only [run] at h
    split at h
    · exact run_halts (Reachable.step e hs ‹_›) h
    · exact ⟨s, e, hs, h⟩

/-! ## Runs from `main`'s initial state -/

theorem shell0_reachable : Reachable shell0 := .init 10 stdFds 0

/-- A one-stage pipeline with no redirection, in the background when `bg`. -/
def line1 (argv : List String) (h : argv ≠ []) (bg : Bool) : Pipeline :=
  ⟨[⟨argv, false, h⟩], none, none, false, bg, by simp⟩

/-- `sleep 1 &`. -/
def sleepOneBg : Pipeline := line1 ["sleep", "1"] (by simp) true

/-- `sleep 5`. -/
def sleepFive : Pipeline := line1 ["sleep", "5"] (by simp) false

/-- `sleep 1 &` is spawned as pid 100, exits and is reaped at the prompt, and `sleep 5` is
spawned as pid 101: the second job waits in `wait_for_job` while the first, `DONE`, is still
listed. -/
def sleepAfterDone : List Event :=
  [.command [sleepOneBg], .pipeline (okOs 100) 0, .reap 100 (.exited 0), .command [sleepFive],
   .pipeline (okOs 101) 0]

/-- The state `sleepAfterDone` reaches. -/
def sleepAfterDoneShell : Shell :=
  match run shell0 sleepAfterDone with
  | some (.ok s) => s
  | _ => shell0

theorem sleepAfterDone_reachable : Reachable sleepAfterDoneShell :=
  run_reachable shell0_reachable (show run shell0 sleepAfterDone = some (.ok _) from rfl)

/-! ## A stop report for a deleted job -/

/-- `sleep 5 ; fg 1`: the sleep is stopped by ^Z (SIGTSTP, 20), which records its id in
`z_update_jid`; `fg 1` resumes it, it exits, and `wait_for_job` deletes it. -/
def staleStop : List Event :=
  [.command [line1 ["sleep", "5"] (by simp) false, line1 ["fg", "1"] (by simp) false],
   .pipeline (okOs 100) 0, .reap 100 (.stopped 20), .pipeline (okOs 200) 0, .reap 100 (.exited 0)]

/-- Back at the prompt, `z_update_jid` names a job that is gone, and the report of the stop reads
it through NULL whatever line comes next. -/
theorem stale_stop_report_derefs_null :
    ∃ s, Reachable s ∧ s.phase = .ready [] ∧ s.zUpdateJid ≠ -1 ∧
      s.reg.jobWithJid s.zUpdateJid = none ∧
      ∀ line, step s (.command line) = some (.error .nullDeref) :=
  ⟨_, run_reachable shell0_reachable (show run shell0 staleStop = some (.ok _) from rfl), rfl,
    by decide, by decide, step_stale_stop rfl rfl (by decide) (by decide)⟩

end Cush
end SystemsLab
