import SystemsLab.Cush.Registry

/-!
# Cush.State

The shell's state between two of its steps: the job table, the globals `z_update_jid` and
`error_update_code`, the SIGCHLD mask, the terminal (its owner and attributes, as the
terminal-control service of `termstate_management.c` keeps them), the descriptor table, the
children the operating system has not reaped yet, what has been printed, and where the main
loop is. Here too is `handle_child_status`, the one transition both reaping paths apply.

Descriptor tables are lists of slots, so that `pipe2` can take the lowest free descriptors.
A child records the table it was started with (after `exec` dropped the close-on-exec
descriptors). `getEntry_setEntry` is the only fact about tables later proofs use.
-/

namespace SystemsLab
namespace Cush

/-! ## Descriptor tables -/

/-- An open file description, as far as the pipeline wiring tells them apart. Each `open` makes
a new one, numbered `desc`; `dup2` shares it. -/
inductive OpenFile
  | inherited (fd : Nat)
  | pipeRead (p : Nat)
  | pipeWrite (p : Nat)
  | file (desc : Nat) (path : String) (oflag : Nat) (mode : Nat)
  deriving DecidableEq, Repr

/-- Whether a description is an end of a pipe. -/
def OpenFile.isPipe : OpenFile → Bool
  | .pipeRead _ | .pipeWrite _ => true
  | _ => false

structure FdEntry where
  file : OpenFile
  cloexec : Bool
  deriving DecidableEq, Repr

/-- A descriptor table: slot `n` is descriptor `n`; `opened` counts the files opened into it,
which numbers the next description `open` makes. -/
structure FdTable where
  slots : List (Option FdEntry)
  opened : Nat

namespace FdTable

def getEntry (t : FdTable) (n : Nat) : Option FdEntry := t.slots.getD n none

/-- Point descriptor `n` at `e` (`none` closes it), growing the table with closed slots. -/
def setEntry (t : FdTable) (n : Nat) (e : Option FdEntry) : FdTable :=
  ⟨(t.slots ++ List.replicate (n + 1 - t.slots.length) none).set n e, t.opened⟩

/-- `open` of `path` on descriptor `fd`: a new open file description. -/
def openAt (t : FdTable) (fd : Nat) (path : String) (oflag mode : Nat) (cloexec : Bool) :
    FdTable :=
  { t.setEntry fd (some ⟨.file t.opened path oflag mode, cloexec⟩) with opened := t.opened + 1 }

/-- The first free slot of a table. -/
def firstFree : List (Option FdEntry) → Nat
  | [] => 0
  | none :: _ => 0
  | some _ :: l => firstFree l + 1

/-- The lowest free descriptor, which `pipe2` and `open` return. -/
def lowestFree (t : FdTable) : Nat := firstFree t.slots

/-- `exec` closes the descriptors marked close-on-exec. -/
def dropCloexec (t : FdTable) : FdTable :=
  ⟨t.slots.map fun e => e.filter (fun x => !x.cloexec), t.opened⟩

theorem getD_append_replicate (l : List (Option FdEntry)) (k m : Nat) :
    (l ++ List.replicate k none).getD m none = l.getD m none := by
  simp only [List.getD_eq_getElem?_getD]
  rcases Nat.lt_or_ge m l.length with h | h
  · rw [List.getElem?_append_left h]
  · rw [List.getElem?_append_right h, List.getElem?_eq_none h, List.getElem?_replicate]
    split <;> rfl

theorem getEntry_setEntry (t : FdTable) (n m : Nat) (e : Option FdEntry) :
    (t.setEntry n e).getEntry m = if m = n then e else t.getEntry m := by
  unfold setEntry getEntry
  by_cases hm : m = n
  · subst hm
    simp [List.getD_eq_getElem?_getD, List.getElem?_set_self, show m < t.slots.length +
      (m + 1 - t.slots.length) by omega]
  · simp only [hm, ite_false, List.getD_eq_getElem?_getD, List.getElem?_set_ne (Ne.symm hm)]
    rw [← List.getD_eq_getElem?_getD, getD_append_replicate, List.getD_eq_getElem?_getD]

@[simp] theorem setEntry_opened (t : FdTable) (n : Nat) (e : Option FdEntry) :
    (t.setEntry n e).opened = t.opened := rfl

theorem getEntry_openAt (t : FdTable) (fd n : Nat) (path : String) (oflag mode : Nat)
    (c : Bool) : (t.openAt fd path oflag mode c).getEntry n =
      if n = fd then some ⟨.file t.opened path oflag mode, c⟩ else t.getEntry n :=
  getEntry_setEntry t fd n _

@[simp] theorem openAt_opened (t : FdTable) (fd : Nat) (path : String) (oflag mode : Nat)
    (c : Bool) : (t.openAt fd path oflag mode c).opened = t.opened + 1 := rfl

@[simp] theorem getEntry_dropCloexec (t : FdTable) (n : Nat) :
    t.dropCloexec.getEntry n = (t.getEntry n).filter (fun x => !x.cloexec) := by
  simp only [dropCloexec, getEntry, List.getD_eq_getElem?_getD, List.getElem?_map]
  cases t.slots[n]? <;> simp

theorem firstFree_spec : ∀ l : List (Option FdEntry),
    l.getD (firstFree l) none = none ∧ ∀ m < firstFree l, l.getD m none ≠ none
  | [] => by simp [firstFree]
  | none :: _ => by simp [firstFree]
  | some e :: l => by
    obtain ⟨h1, h2⟩ := firstFree_spec l
    refine ⟨by simpa [firstFree] using h1, fun m hm => ?_⟩
    cases m with
    | zero => simp
    | succ m => simpa using h2 m (by simp [firstFree] at hm; omega)

theorem getEntry_lowestFree (t : FdTable) : t.getEntry t.lowestFree = none :=
  (firstFree_spec t.slots).1

theorem getEntry_of_lt_lowestFree {t : FdTable} {m : Nat} (h : m < t.lowestFree) :
    t.getEntry m ≠ none :=
  (firstFree_spec t.slots).2 m h

end FdTable

/-! ## Children and the main loop -/

/-- A child of the shell that the operating system has not reaped: its pid, its process group,
and the descriptor table it was started with. -/
structure Child where
  pid : Int
  pgid : Int
  fds : FdTable

/-- Where the shell is: running a command line (its remaining pipelines; `[]` is the
read-eval prompt), or blocked in the loop of `wait_for_job` on the job at an address, with the
pipelines of the line still to run after it. -/
inductive Phase
  | ready (pipes : List Pipeline)
  | waiting (job : Nat) (pipes : List Pipeline)

/-- The state of the shell process and of the parts of the operating system it observes. -/
structure Shell where
  reg : Registry
  zUpdateJid : Int
  errorUpdateCode : Int
  children : List Child
  sigchldBlocked : Bool
  pgrp : Int
  termOwner : Int
  tty : Nat
  shellTty : Nat
  fds : FdTable
  pipeCount : Nat
  out : List String
  phase : Phase

namespace Shell

/-- The shell after `main`'s setup: no jobs, SIGCHLD unblocked, the terminal taken by the shell
(`termstate_init`), at the prompt. -/
def init (pgrp : Int) (fds : FdTable) (tty : Nat) : Shell :=
  ⟨Registry.empty, -1, -1, [], false, pgrp, pgrp, tty, tty, fds, 0, [], .ready []⟩

def setJob (s : Shell) (a : Nat) (j : Job) : Shell := { s with reg := s.reg.setJob a j }

def print (s : Shell) (text : String) : Shell := { s with out := s.out ++ [text] }

/-- `termstate_sample`: remember the current terminal attributes as the shell's. -/
def termstateSample (s : Shell) : Shell := { s with shellTty := s.tty }

/-- `termstate_give_terminal_back_to_shell`: restore the shell's attributes and take the
terminal back. -/
def giveTerminalBack (s : Shell) : Shell := { s with termOwner := s.pgrp, tty := s.shellTty }

/-- `termstate_give_terminal_to`: restore the given attributes, if any, and hand the terminal
to a process group. -/
def giveTerminalTo (s : Shell) (saved : Option Nat) (pgid : Int) : Shell :=
  { s with termOwner := pgid, tty := saved.getD s.tty }

/-- The operating system's side of a successful `waitpid`: an exited or killed child is
reaped, a stopped one stays. -/
def reapChild (s : Shell) (pid : Int) : WaitStatus → Shell
  | .stopped _ => s
  | _ => { s with children := s.children.filter (·.pid != pid) }

@[simp] theorem setJob_reg (s : Shell) (a : Nat) (j : Job) :
    (s.setJob a j).reg = s.reg.setJob a j := rfl
@[simp] theorem setJob_phase (s : Shell) (a : Nat) (j : Job) : (s.setJob a j).phase = s.phase := rfl
@[simp] theorem print_reg (s : Shell) (t : String) : (s.print t).reg = s.reg := rfl
@[simp] theorem print_phase (s : Shell) (t : String) : (s.print t).phase = s.phase := rfl
@[simp] theorem termstateSample_reg (s : Shell) : s.termstateSample.reg = s.reg := rfl
@[simp] theorem termstateSample_phase (s : Shell) : s.termstateSample.phase = s.phase := rfl
@[simp] theorem giveTerminalBack_reg (s : Shell) : s.giveTerminalBack.reg = s.reg := rfl
@[simp] theorem giveTerminalBack_phase (s : Shell) : s.giveTerminalBack.phase = s.phase := rfl
@[simp] theorem giveTerminalBack_termOwner (s : Shell) :
    s.giveTerminalBack.termOwner = s.pgrp := rfl
@[simp] theorem giveTerminalTo_reg (s : Shell) (t : Option Nat) (g : Int) :
    (s.giveTerminalTo t g).reg = s.reg := rfl
@[simp] theorem reapChild_reg (s : Shell) (pid : Int) (st : WaitStatus) :
    (s.reapChild pid st).reg = s.reg := by cases st <;> rfl
@[simp] theorem reapChild_phase (s : Shell) (pid : Int) (st : WaitStatus) :
    (s.reapChild pid st).phase = s.phase := by cases st <;> rfl

end Shell

/-- The descriptor table the shell starts with: the terminal on 0, 1 and 2. -/
def stdFds : FdTable :=
  ⟨[some ⟨.inherited 0, false⟩, some ⟨.inherited 1, false⟩, some ⟨.inherited 2, false⟩], 0⟩

/-- The shell after `main`'s setup, in process group 10. -/
def shell0 : Shell := Shell.init 10 stdFds 0

/-! ## `handle_child_status` -/

/-- Whether `pid` is among the first `list_size(&job->pipe->commands)` entries of
`child_pid_array`. -/
def Job.hasPid (j : Job) (pid : Int) : Bool :=
  (j.childPidArray.take j.pipe.commands.length).contains pid

/-- The search of `handle_child_status`: the first job on `job_list` with `pid` as a member. -/
def Registry.jobOfPid (r : Registry) (pid : Int) : Option Nat :=
  r.jobList.find? fun a => ((r.jobs a).map (Job.hasPid · pid)).getD false

/-- The job after a member exited or was killed: one fewer process alive, and the final state
once none is left. -/
def Job.reaped (j : Job) (final : JobStatus) : Job :=
  { j with numProcessesAlive := j.numProcessesAlive - 1,
           status := if j.numProcessesAlive - 1 < 1 then final else j.status }

/-- The branches of `handle_child_status` on what `waitpid` reported: the job as they leave
it, and the new values of `z_update_jid` and `error_update_code`. A stop of a `FOREGROUND` job
other than for terminal access saves the terminal attributes `tty` into the job. -/
def statusUpdate (tty : Nat) (zUpdateJid errorUpdateCode : Int) (job : Job) :
    WaitStatus → Job × Int × Int
  | .exited _ => (job.reaped .done, zUpdateJid, errorUpdateCode)
  | .signaled sig =>
    if sig ≠ 0 then ({ job with terminationCode := sig }.reaped .terminated, zUpdateJid, sig)
    else (job.reaped .terminated, zUpdateJid, errorUpdateCode)
  | .stopped sig =>
    if sig = sigttou ∨ sig = sigttin then ({ job with status := .needsTerminal }, zUpdateJid,
      errorUpdateCode)
    else if job.status = .foreground then
      ({ job with savedTtyState := tty, stateSavedPreviously := true, status := .stopped },
        job.jid, errorUpdateCode)
    else ({ job with status := .stopped }, zUpdateJid, errorUpdateCode)

/-- `handle_child_status`: find the job of `pid` and record what `waitpid` reported. A pid that
no listed job has leaves `found_job` NULL, and the update dereferences it. -/
def handleChildStatus (s : Shell) (pid : Int) (st : WaitStatus) : Except Halt Shell := do
  let a ← deref (s.reg.jobOfPid pid)
  let job ← deref (s.reg.jobs a)
  let u := statusUpdate s.tty s.zUpdateJid s.errorUpdateCode job st
  pure { s.setJob a u.1 with zUpdateJid := u.2.1, errorUpdateCode := u.2.2 }

theorem statusUpdate_spec (tty : Nat) (z e : Int) (job : Job) (st : WaitStatus) :
    (statusUpdate tty z e job st).1.jid = job.jid ∧
      (statusUpdate tty z e job st).1.childPidArray = job.childPidArray ∧
      (statusUpdate tty z e job st).1.pipe = job.pipe ∧
      ((statusUpdate tty z e job st).1.status = .foreground → job.status = .foreground) := by
  cases st <;> simp only [statusUpdate, Job.reaped] <;> split_ifs <;> simp_all

end Cush
end SystemsLab
