import SystemsLab.Cush.State

/-!
# Cush.Builtin

`check_for_builtin`: `jobs`, `history`, `fg`, `bg`, `stop` and `kill`, each on the first
command of a pipeline. A job argument goes through `atoi` and `job_with_jid`. Where the source
reads `argv[1]` past the end of `argv` (NULL, into `atoi`) or reads `child_pid_array` through a
job pointer `job_with_jid` did not find, the model halts with `Halt.nullDeref`.

`killpg` is answered by the operating system: its result is an argument. `SIGCONT` resumes
stopped members, which the model does not track (a child may report a stop at any time).
-/

namespace SystemsLab
namespace Cush

/-! ## `atoi` -/

def isSpace (c : Char) : Bool :=
  c = ' ' || c = '\t' || c = '\n' || c = '\x0b' || c = '\x0c' || c = '\r'

/-- The value of the leading decimal digits of `cs`, after `acc`. -/
def digitsValue (acc : Nat) : List Char → Nat
  | c :: cs => if c.isDigit then digitsValue (10 * acc + (c.toNat - '0'.toNat)) cs else acc
  | [] => acc

/-- `atoi` as glibc computes it, `(int) strtol(s, NULL, 10)`: white space, an optional sign,
then digits; `strtol` saturates at the bounds of `long` (`-2^63` and `2^63 - 1`) and the cast
keeps the low 32 bits. -/
def atoi (s : String) : Int :=
  let cs := s.toList.dropWhile isSpace
  let v : Int := match cs with
    | '-' :: t => -(digitsValue 0 t : Int)
    | '+' :: t => digitsValue 0 t
    | t => digitsValue 0 t
  let v := if v < -9223372036854775808 then -9223372036854775808
    else if 9223372036854775807 < v then 9223372036854775807 else v
  let m := v % 4294967296
  if m < 2147483648 then m else m - 4294967296

/-! ## The builtins -/

/-- How `check_for_builtin` ends: `return 0`, `return 1` with the shell after the builtin, or
`fg` calling `wait_for_job` on a job it has just made `FOREGROUND`. -/
inductive Builtin
  | notBuiltin
  | handled (s : Shell)
  | fg (s : Shell) (a : Nat)

/-- `fg <jid>`. -/
def builtinFg (s : Shell) (cmd : Command) (killRet : Int) : Except Halt Builtin := do
  let arg ← deref cmd.argv[1]?
  match s.reg.jobWithJid (atoi arg) with
  | none => pure (.handled (s.print ("fg " ++ arg ++ ": No such job\n")))
  | some a =>
    let job ← deref (s.reg.jobs a)
    let s := (s.print (printCmdline job.pipe)).print "\n"
    let s := s.giveTerminalTo (if job.stateSavedPreviously then some job.savedTtyState else none)
      job.pgid
    if (job.status = .stopped ∨ job.status = .needsTerminal) ∧ killRet = -1 then
      pure (.handled s.giveTerminalBack)
    else pure (.fg (s.setJob a { job with status := .foreground }) a)

/-- `bg <jid>`: `child_pid_array[0]` is read through the found job before it is checked. -/
def builtinBg (s : Shell) (cmd : Command) (killRet : Int) : Except Halt Builtin := do
  let arg ← deref cmd.argv[1]?
  let a ← deref (s.reg.jobWithJid (atoi arg))
  let job ← deref (s.reg.jobs a)
  if job.status = .background then
    pure (.handled (s.print ("bg: " ++ arg ++ " already in background\n")))
  else
    let s := s.setJob a { job with status := .background }
    pure (.handled (if killRet = -1 then s.print "bg:" else s))

/-- `stop <jid>`. -/
def builtinStop (s : Shell) (cmd : Command) (killRet : Int) : Except Halt Builtin := do
  let arg ← deref cmd.argv[1]?
  match s.reg.jobWithJid (atoi arg) with
  | none => pure (.handled (s.print ("stop " ++ arg ++ ": No such job\n")))
  | some a =>
    let _ ← deref (s.reg.jobs a)
    pure (.handled (if killRet = -1 then s.print "stop:" else s))

/-- The numbers `kill -N` accepts, with the name it prints for each. -/
def killSignalName (n : Int) : Option String :=
  if n = 1 then some "SIGHUP" else if n = 2 then some "SIGINT"
  else if n = 3 then some "SIGQUIT" else if n = 6 then some "SIGABRT"
  else if n = 9 then some "SIGKILL" else if n = 15 then some "SIGTERM"
  else if n = 17 ∨ n = 19 ∨ n = 23 then some "SIGSTOP" else none

/-- `kill <jid>` and `kill -N <jid>`: neither checks the job `job_with_jid` returns. -/
def builtinKill (s : Shell) (cmd : Command) (killRet : Int) : Except Halt Builtin := do
  if cmd.argv.length < 2 then pure (.handled (s.print "kill: usage: kill [jid]\n"))
  else if cmd.argv.length < 3 then
    let arg ← deref cmd.argv[1]?
    let a ← deref (s.reg.jobWithJid (atoi arg))
    let _ ← deref (s.reg.jobs a)
    pure (.handled (if killRet = 0 then s.print "Sent kill signal\n" else s.print "kill"))
  else
    let arg ← deref cmd.argv[1]?
    let jidArg ← deref cmd.argv[2]?
    let a ← deref (s.reg.jobWithJid (atoi jidArg))
    let _ ← deref (s.reg.jobs a)
    match killSignalName (atoi (arg.drop 1)) with
    | some name => pure (.handled
        (if killRet = 0 then s.print ("Sent kill signal " ++ name ++ "\n") else s.print "kill"))
    | none => pure (.handled ((s.print "kill: usage: kill [-SIGNAL] [jid]\n").print "kill"))

/-- `check_for_builtin`. `history` prints readline's history list, which is outside the model. -/
def checkForBuiltin (s : Shell) (cmd : Command) (killRet : Int) : Except Halt Builtin :=
  if cmd.name = "jobs" then
    (fun res => .handled { s with reg := res.1, out := s.out ++ res.2 }) <$> s.reg.printAllJobs
  else if cmd.name = "history" then .ok (.handled s)
  else if cmd.name = "fg" then builtinFg s cmd killRet
  else if cmd.name = "bg" then builtinBg s cmd killRet
  else if cmd.name = "stop" then builtinStop s cmd killRet
  else if cmd.name = "kill" then builtinKill s cmd killRet
  else .ok .notBuiltin

theorem checkForBuiltin_no_such_job (s : Shell) (cmd : Command) (k : Int) {arg : String}
    (harg : cmd.argv[1]? = some arg) (hf : s.reg.jobWithJid (atoi arg) = none) :
    (cmd.name = "fg" →
      checkForBuiltin s cmd k = .ok (.handled (s.print ("fg " ++ arg ++ ": No such job\n")))) ∧
    (cmd.name = "stop" →
      checkForBuiltin s cmd k = .ok (.handled (s.print ("stop " ++ arg ++ ": No such job\n")))) :=
  ⟨fun hn => by simp [checkForBuiltin, hn, builtinFg, harg, hf],
   fun hn => by simp [checkForBuiltin, hn, builtinStop, harg, hf]⟩

/-- `fg`, `bg` and `stop` with no argument pass `argv[1] = NULL` to `atoi`; `bg`, `kill <jid>`
and `kill -N <jid>` read `child_pid_array` through the NULL that `job_with_jid` returns for an id
that names no job. -/
theorem checkForBuiltin_null_job (s : Shell) (cmd : Command) (k : Int) :
    (cmd.name ∈ ["fg", "bg", "stop"] → cmd.argv.length < 2 →
      checkForBuiltin s cmd k = .error .nullDeref) ∧
    (∀ arg, cmd.argv[1]? = some arg → s.reg.jobWithJid (atoi arg) = none →
      cmd.name = "bg" ∨ cmd.name = "kill" ∧ cmd.argv.length = 2 →
      checkForBuiltin s cmd k = .error .nullDeref) ∧
    (∀ arg, cmd.argv[2]? = some arg → s.reg.jobWithJid (atoi arg) = none → cmd.name = "kill" →
      checkForBuiltin s cmd k = .error .nullDeref) := by
  refine ⟨fun hn hl => ?_, fun arg harg hf hn => ?_, fun arg harg hf hn => ?_⟩
  · have h1 : cmd.argv[1]? = none := List.getElem?_eq_none (by omega)
    simp only [List.mem_cons, List.mem_singleton, List.not_mem_nil, or_false] at hn
    rcases hn with hn | hn | hn <;>
      simp [checkForBuiltin, hn, builtinFg, builtinBg, builtinStop, h1]
  · rcases hn with hn | ⟨hn, hl⟩
    · simp [checkForBuiltin, hn, builtinBg, harg, hf]
    · simp [checkForBuiltin, hn, builtinKill, hl, harg, hf]
  · have hl : 2 < cmd.argv.length := (List.getElem?_eq_some_iff.1 harg).1
    have h1 : ∃ a1, cmd.argv[1]? = some a1 := ⟨_, List.getElem?_eq_getElem (by omega)⟩
    obtain ⟨a1, h1⟩ := h1
    simp [checkForBuiltin, hn, builtinKill, show ¬cmd.argv.length < 2 by omega,
      show ¬cmd.argv.length < 3 by omega, h1, harg, hf]

theorem checkForBuiltin_null_job_at_init :
    checkForBuiltin (Shell.init 10 ⟨[], 0⟩ 0) ⟨["bg"], false, by simp⟩ 0 = .error .nullDeref ∧
    checkForBuiltin (Shell.init 10 ⟨[], 0⟩ 0) ⟨["bg", "5"], false, by simp⟩ 0 = .error .nullDeref ∧
    checkForBuiltin (Shell.init 10 ⟨[], 0⟩ 0) ⟨["kill", "-9", "5"], false, by simp⟩ 0 =
      .error .nullDeref :=
  ⟨(checkForBuiltin_null_job _ _ 0).1 (by decide) (by decide),
    (checkForBuiltin_null_job _ _ 0).2.1 "5" rfl (by decide) (.inl rfl),
    (checkForBuiltin_null_job _ _ 0).2.2 "5" rfl (by decide) rfl⟩

end Cush
end SystemsLab
