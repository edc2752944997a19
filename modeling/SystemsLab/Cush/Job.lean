import SystemsLab.Except

/-!
# Cush.Job

The data the job-control core of cush works on: the fields of `struct ast_pipeline` and
`struct ast_command` that the shell reads, the job record `struct job` with its six states,
and the texts that `get_status`, `print_cmdline`, `print_error_message` and `print_job` print.

A C-level failure (`exit`, `utils_fatal_error`, a failed `assert`, a NULL dereference, an
array index out of bounds, `abort`) ends the shell process; the model returns it as a `Halt`.
Signal numbers are those of Linux, which the shell is built for.
-/

namespace SystemsLab
namespace Cush

/-! ## Signals -/

def sighup : Nat := 1
def sigint : Nat := 2
def sigquit : Nat := 3
def sigabrt : Nat := 6
def sigfpe : Nat := 8
def sigkill : Nat := 9
def sigsegv : Nat := 11
def sigterm : Nat := 15
def sigcont : Nat := 18
def sigstop : Nat := 19
def sigttin : Nat := 21
def sigttou : Nat := 22

/-- What `waitpid` reports for a child, as `WIFEXITED`, `WIFSIGNALED` and `WIFSTOPPED`
decode it (no `WCONTINUED`, so a continued child is never reported). -/
inductive WaitStatus
  | exited (code : Nat)
  | signaled (sig : Nat)
  | stopped (sig : Nat)
  deriving DecidableEq, Repr

/-- The ways the shell process ends. -/
inductive Halt
  | exit (code : Int)
  | fatalError
  | assertFailed
  | nullDeref
  | outOfBounds
  | abort
  deriving DecidableEq, Repr

/-- Dereference a pointer that may be NULL. -/
def deref {α : Type} : Option α → Except Halt α
  | some x => .ok x
  | none => .error .nullDeref

@[simp] theorem deref_some {α : Type} (x : α) : deref (some x) = .ok x := rfl
@[simp] theorem deref_none {α : Type} : deref (none : Option α) = .error .nullDeref := rfl

/-! ## Pipelines -/

/-- One command of a pipeline: its argument vector, and whether `|&` or `>&` merges its
standard error into its standard output. The parser never yields an empty `argv`. -/
structure Command where
  argv : List String
  dupStderrToStdout : Bool
  argv_ne : argv ≠ []

/-- `argv[0]`. -/
def Command.name (c : Command) : String := c.argv.head c.argv_ne

/-- A pipeline of one or more commands, with the redirections of its first and last stage. -/
structure Pipeline where
  commands : List Command
  ioredInput : Option String
  ioredOutput : Option String
  appendToOutput : Bool
  bgJob : Bool
  commands_ne : commands ≠ []

/-- The first command, whose `argv[0]` decides whether the pipeline is a builtin. -/
def Pipeline.first (p : Pipeline) : Command := p.commands.head p.commands_ne

/-! ## Jobs -/

inductive JobStatus
  | foreground
  | background
  | stopped
  | needsTerminal
  | terminated
  | done
  deriving DecidableEq, Repr

/-- `struct job`. Terminal attributes (`struct termios`) are opaque values. -/
structure Job where
  pipe : Pipeline
  jid : Int
  status : JobStatus
  numProcessesAlive : Int
  savedTtyState : Nat
  terminationCode : Int
  childPidArray : List Int
  stateSavedPreviously : Bool

/-- The test of `print_all_jobs` for a job to delete after printing it. -/
def Job.finished (j : Job) : Bool := j.status = .terminated || j.status = .done

/-- The process group the builtins signal: `child_pid_array[0]`. -/
def Job.pgid (j : Job) : Int := j.childPidArray.headD 0

/-! ## What the shell prints about jobs -/

def getStatus : JobStatus → String
  | .foreground => "Foreground"
  | .background => "Running"
  | .stopped => "Stopped"
  | .needsTerminal => "Stopped (tty)"
  | _ => "Unknown"

/-- The commands' argument vectors, stages separated by `"| "`. -/
def printCmdline (p : Pipeline) : String :=
  "| ".intercalate (p.commands.map fun c => " ".intercalate c.argv)

def printErrorMessage (terminationCode : Int) : String :=
  if terminationCode = sigfpe then "Floating point exception\n"
  else if terminationCode = sigsegv then "Segmentation fault\n"
  else if terminationCode = sigabrt then "Aborted\n"
  else if terminationCode = sigkill then "Killed\n"
  else "Terminated\n"

def printJob (job : Job) : String :=
  if job.status = .terminated then printErrorMessage job.terminationCode
  else if job.status = .done then "[" ++ toString job.jid ++ "]\tDone\n"
  else "[" ++ toString job.jid ++ "]\t" ++ getStatus job.status ++ "\t\t(" ++
    printCmdline job.pipe ++ ")\n"

end Cush
end SystemsLab
