import SystemsLab.Cush.Step

/-!
# Cush.Invariants

What a step can do to the job table, said once, and the invariants of every reachable state
derived from it.

* `Registry.Keeps r r'`: the table stays well formed (`Registry.Wf`), `malloc` only moves
  forward, and a slot of `jid2job` keeps its job, loses it, or takes a job the step allocated.
* `Registry.Calm r r'`: `Keeps`, and no job becomes `FOREGROUND`.
* `Registry.Raises r r' a`: `Keeps`, and the job at `a` is the only one that may become
  `FOREGROUND`; this is `fg` and a foreground spawn, right before `wait_for_job`.

Each operation of the shell is one of these (`handleChildStatus_calm`,
`checkForBuiltin_handled`, `checkForBuiltin_fg`, `spawnPipeline_none`, `spawnPipeline_some`),
and `waitLoop_inv` closes the loop of `wait_for_job`. `step_inv` combines them for one step and
`reachable_inv` for every reachable state: the table is well formed, no job is `FOREGROUND` while
the shell is not in `wait_for_job`, and only the job it waits on is. `bg_revives_done_job`
shows what the invariant leaves open: `bg` makes a `DONE` job `BACKGROUND` for good.
-/

namespace SystemsLab
namespace Cush

namespace Registry

def IsFg (r : Registry) (b : Nat) : Prop :=
  b ∈ r.jobList ∧ (r.jobs b).map Job.status = some .foreground

/-- A change of the job table that keeps it well formed, allocates only at or above
`nextAddr`, and puts in a slot of `jid2job` only its old job or a newly allocated one. -/
structure Keeps (r r' : Registry) : Prop where
  wf : r'.Wf
  nextAddr_le : r.nextAddr ≤ r'.nextAddr
  slot : ∀ i b, r'.jid2job i = some b → r.jid2job i = some b ∨ r.nextAddr ≤ b

/-- A change that keeps the table and makes no job `FOREGROUND`. -/
structure Calm (r r' : Registry) extends Keeps r r' : Prop where
  noFg : ∀ b, r'.IsFg b → r.IsFg b

/-- A change that keeps the table and makes the job at `a`, and no other, `FOREGROUND`. -/
structure Raises (r r' : Registry) (a : Nat) extends Keeps r r' : Prop where
  listed : a ∈ r'.jobList
  fg : ∀ b, r'.IsFg b → b = a ∨ r.IsFg b

theorem Keeps.trans {r r' r'' : Registry} (h : Keeps r r') (h' : Keeps r' r'') : Keeps r r'' :=
  ⟨h'.wf, h.nextAddr_le.trans h'.nextAddr_le, fun i b hb => by
    rcases h'.slot i b hb with hb | hb
    · exact h.slot i b hb
    · exact .inr (h.nextAddr_le.trans hb)⟩

theorem Calm.refl {r : Registry} (hw : r.Wf) : Calm r r :=
  ⟨⟨hw, le_rfl, fun _ _ h => .inl h⟩, fun _ h => h⟩

theorem Calm.of_eq {r r' : Registry} (hw : r.Wf) (h : r' = r) : Calm r r' := by
  subst h; exact Calm.refl hw

theorem Calm.trans {r r' r'' : Registry} (h : Calm r r') (h' : Calm r' r'') : Calm r r'' :=
  ⟨h.toKeeps.trans h'.toKeeps, fun b hb => h.noFg b (h'.noFg b hb)⟩

theorem Calm.dropJobs {r : Registry} (hw : r.Wf) (d : Nat → Bool) : Calm r (r.dropJobs d) := by
  refine ⟨⟨dropJobs_wf hw d, le_rfl, fun i b hb => .inl ?_⟩, fun b ⟨hb, hs⟩ => ?_⟩
  · simp only [dropJobs_jid2job, Option.filter_eq_some, Option.mem_def] at hb
    exact hb.1
  · simp only [dropJobs_jobList, List.mem_filter] at hb
    simp only [dropJobs_jobs] at hs
    split at hs
    · cases hs
    · exact ⟨hb.1, hs⟩

theorem Keeps.setJob {r : Registry} {a : Nat} {j j' : Job} (hw : r.Wf) (ha : a ∈ r.jobList)
    (hj : r.jobs a = some j) (hid : j'.jid = j.jid) : Keeps r (r.setJob a j') :=
  ⟨setJob_wf hw ha (by simp [jidOf, hj, hid]), le_rfl, fun _ _ h => .inl h⟩

theorem Calm.setJob {r : Registry} {a : Nat} {j j' : Job} (hw : r.Wf) (ha : a ∈ r.jobList)
    (hj : r.jobs a = some j) (hid : j'.jid = j.jid)
    (hfg : j'.status = .foreground → j.status = .foreground) : Calm r (r.setJob a j') := by
  refine ⟨Keeps.setJob hw ha hj hid, fun b ⟨hb, hs⟩ => ⟨hb, ?_⟩⟩
  by_cases hba : b = a
  · subst hba; simp_all
  · simpa [hba] using hs

theorem Raises.setJob {r : Registry} {a : Nat} {j j' : Job} (hw : r.Wf) (ha : a ∈ r.jobList)
    (hj : r.jobs a = some j) (hid : j'.jid = j.jid) : Raises r (r.setJob a j') a := by
  refine ⟨Keeps.setJob hw ha hj hid, ha, fun b ⟨hb, hs⟩ => ?_⟩
  by_cases hba : b = a
  · exact .inl hba
  · exact .inr ⟨hb, by simpa [hba] using hs⟩

theorem Keeps.addJob {r r1 : Registry} {p : Pipeline} {a : Nat} {j' : Job} (hw : r.Wf)
    (h : r.addJob p = .ok (r1, a)) (hid : (r1.jobs a).map Job.jid = some j'.jid) :
    Keeps r (r1.setJob a j') ∧ a ∈ r1.jobList ∧ a = r.nextAddr ∧
      ∀ b ≠ a, (b ∈ r1.jobList ↔ b ∈ r.jobList) ∧ r1.jobs b = r.jobs b := by
  have hw1 := addJob_wf hw h
  obtain ⟨i, -, rfl, rfl⟩ := addJob_eq h
  refine ⟨⟨setJob_wf hw1 (by simp) hid, by simp, fun k b hb => ?_⟩, by simp, rfl,
    fun b hb => ⟨by simp [hb], by simp [hb]⟩⟩
  simp only [setJob_jid2job] at hb
  by_cases hk : k = i
  · subst hk; simp only [Function.update_same, Option.some.injEq] at hb; exact .inr hb.le
  · exact .inl (by simpa [hk] using hb)

theorem Calm.addJob {r r1 : Registry} {p : Pipeline} {a : Nat} {j j' : Job} (hw : r.Wf)
    (h : r.addJob p = .ok (r1, a)) (hj : r1.jobs a = some j) (hid : j'.jid = j.jid)
    (hst : j'.status ≠ .foreground) : Calm r (r1.setJob a j') := by
  obtain ⟨hk, -, -, hb⟩ := Keeps.addJob hw h
    (show (r1.jobs a).map Job.jid = some j'.jid by simp [hj, hid])
  refine ⟨hk, fun b ⟨hbl, hbs⟩ => ?_⟩
  by_cases hba : b = a
  · subst hba; simp [hst] at hbs
  · simp only [setJob_jobList, setJob_jobs, Function.update_noteq hba] at hbl hbs
    exact ⟨(hb b hba).1.1 hbl, (hb b hba).2 ▸ hbs⟩

theorem Raises.addJob {r r1 : Registry} {p : Pipeline} {a : Nat} {j j' : Job} (hw : r.Wf)
    (h : r.addJob p = .ok (r1, a)) (hj : r1.jobs a = some j) (hid : j'.jid = j.jid) :
    Raises r (r1.setJob a j') a := by
  obtain ⟨hk, ha, -, hb⟩ := Keeps.addJob hw h
    (show (r1.jobs a).map Job.jid = some j'.jid by simp [hj, hid])
  refine ⟨hk, ha, fun b ⟨hbl, hbs⟩ => ?_⟩
  by_cases hba : b = a
  · exact .inl hba
  · simp only [setJob_jobList, setJob_jobs, Function.update_noteq hba] at hbl hbs
    exact .inr ⟨(hb b hba).1.1 hbl, (hb b hba).2 ▸ hbs⟩

end Registry

open Registry

/-- The invariant of the loop structure: outside `wait_for_job` no listed job is `FOREGROUND`;
inside it, the job it waits on is listed and is the only one that may be. -/
def FgInv (s : Shell) : Prop :=
  match s.phase with
  | .ready _ => ∀ b, ¬s.reg.IsFg b
  | .waiting a _ => a ∈ s.reg.jobList ∧ ∀ b, s.reg.IsFg b → b = a

theorem FgInv.ready {s : Shell} {ps : List Pipeline} (hi : FgInv s) (hp : s.phase = .ready ps) :
    ∀ b, ¬s.reg.IsFg b := by
  simpa only [FgInv, hp] using hi

theorem FgInv.waiting {s : Shell} {a : Nat} {ps : List Pipeline} (hi : FgInv s)
    (hp : s.phase = .waiting a ps) : a ∈ s.reg.jobList ∧ ∀ b, s.reg.IsFg b → b = a := by
  simpa only [FgInv, hp] using hi

/-! ## One lemma per operation -/

theorem handleChildStatus_ok {s t : Shell} {pid : Int} {st : WaitStatus}
    (h : handleChildStatus s pid st = .ok t) :
    ∃ a j, s.reg.jobOfPid pid = some a ∧ s.reg.jobs a = some j ∧
      t = { s.setJob a (statusUpdate s.tty s.zUpdateJid s.errorUpdateCode j st).1 with
        zUpdateJid := (statusUpdate s.tty s.zUpdateJid s.errorUpdateCode j st).2.1,
        errorUpdateCode := (statusUpdate s.tty s.zUpdateJid s.errorUpdateCode j st).2.2 } := by
  unfold handleChildStatus at h
  cases ha : s.reg.jobOfPid pid with
  | none => simp [ha] at h
  | some a =>
    cases hj : s.reg.jobs a with
    | none => simp [ha, hj] at h
    | some j =>
      simp only [ha, hj, deref_some, ok_bind, pure_eq, Except.ok.injEq] at h
      refine ⟨a, j, ?_, ?_, h.symm⟩ <;> simp [ha, hj]

theorem handleChildStatus_calm {s t : Shell} {pid : Int} {st : WaitStatus} (hw : s.reg.Wf)
    (h : handleChildStatus s pid st = .ok t) :
    Calm s.reg t.reg ∧ t.reg.jobList = s.reg.jobList ∧ t.phase = s.phase := by
  obtain ⟨a, j, ha, hj, rfl⟩ := handleChildStatus_ok h
  obtain ⟨hid, -, -, hfg⟩ := statusUpdate_spec s.tty s.zUpdateJid s.errorUpdateCode j st
  exact ⟨Calm.setJob hw (List.mem_of_find?_eq_some ha) hj hid hfg, rfl, rfl⟩

theorem reportStopped_ok {s t : Shell} (h : reportStopped s = .ok t) :
    t.reg = s.reg ∧ t.phase = s.phase ∧ t.termOwner = s.termOwner ∧ t.pgrp = s.pgrp ∧
      t.children = s.children := by
  unfold reportStopped at h
  split at h
  · cases ha : s.reg.jobWithJid s.zUpdateJid with
    | none => simp [ha] at h
    | some a =>
      cases hj : s.reg.jobs a with
      | none => simp [ha, hj] at h
      | some j =>
        simp only [ha, hj, deref_some, ok_bind, pure_eq, Except.ok.injEq] at h
        subst h
        simp [Shell.print]
  · cases h; simp

theorem promptChecks_ok {s t : Shell} (h : promptChecks s = .ok t) :
    t.reg = s.reg ∧ t.phase = s.phase ∧ s.sigchldBlocked = false ∧ t.termOwner = t.pgrp ∧
      t.children = s.children := by
  unfold promptChecks at h
  split at h
  · cases h
  · cases hr : reportStopped s with
    | error => simp [hr] at h
    | ok u =>
      obtain ⟨h1, h2, -, -, h3⟩ := reportStopped_ok hr
      simp only [hr, ok_bind] at h
      split at h
      · cases h
      · cases h
        refine ⟨?_, ?_, by simpa using ‹¬s.sigchldBlocked = true›, by simpa using ‹¬_ ≠ _›, ?_⟩ <;>
          simp only [reportSignal] <;> split <;> simp [Shell.print, h1, h2, h3]

theorem finishWait_ok {s t : Shell} {a : Nat} (hw : s.reg.Wf) (ha : a ∈ s.reg.jobList)
    (h : finishWait s a = .ok t) : ∃ j, s.reg.jobs a = some j ∧ t.phase = s.phase ∧
      t.termOwner = s.pgrp ∧ t.sigchldBlocked = false ∧ t.children = s.children ∧
      (if j.numProcessesAlive < 1 then t.reg = s.reg.dropJobs (· == a) else t.reg = s.reg) := by
  unfold finishWait at h
  obtain ⟨j, hj⟩ := hw.job_of_mem ha
  refine ⟨j, hj, ?_⟩
  simp only [hj, deref_some, ok_bind] at h
  by_cases hlt : j.numProcessesAlive < 1 <;> by_cases htc : j.terminationCode = -1 <;>
    simp only [hlt, htc, ite_true, ite_false, Shell.termstateSample_reg,
      deleteJob_unlink hw ha, ok_bind, pure_eq, Except.ok.injEq] at h <;>
    subst h <;> simp [Shell.giveTerminalBack, Shell.termstateSample, hlt]

/-! ## The builtins -/

theorem builtinFg_ok {s : Shell} {cmd : Command} {k : Int} {res : Builtin} (hw : s.reg.Wf)
    (h : builtinFg s cmd k = .ok res) :
    (∃ t, res = .handled t ∧ t.reg = s.reg ∧ t.children = s.children) ∨
      ∃ t a j, res = .fg t a ∧ Raises s.reg t.reg a ∧ s.reg.jobs a = some j ∧
        t.reg = s.reg.setJob a { j with status := .foreground } ∧ t.children = s.children := by
  unfold builtinFg at h
  cases harg : cmd.argv[1]? with
  | none => simp [harg] at h
  | some arg =>
    simp only [harg, deref_some, ok_bind] at h
    cases hf : s.reg.jobWithJid (atoi arg) with
    | none => simp only [hf, pure_eq, Except.ok.injEq] at h; exact .inl ⟨_, h.symm, rfl, rfl⟩
    | some a =>
      have ha : a ∈ s.reg.jobList := List.mem_of_find?_eq_some hf
      obtain ⟨j, hj⟩ := hw.job_of_mem ha
      simp only [hf, hj, deref_some, ok_bind] at h
      split at h <;> simp only [pure_eq, Except.ok.injEq] at h <;> subst h
      · exact .inl ⟨_, rfl, rfl, rfl⟩
      · exact .inr ⟨_, a, j, rfl, Raises.setJob hw ha hj rfl, hj, rfl, rfl⟩

theorem builtinBg_ok {s : Shell} {cmd : Command} {k : Int} {res : Builtin} (hw : s.reg.Wf)
    (h : builtinBg s cmd k = .ok res) : ∃ t, res = .handled t ∧ Calm s.reg t.reg ∧
      t.children = s.children ∧ (t.reg = s.reg ∨ ∃ a j, a ∈ s.reg.jobList ∧ s.reg.jobs a = some j ∧
        t.reg = s.reg.setJob a { j with status := .background }) := by
  unfold builtinBg at h
  cases harg : cmd.argv[1]? with
  | none => simp [harg] at h
  | some arg =>
    cases hf : s.reg.jobWithJid (atoi arg) with
    | none => simp [harg, hf] at h
    | some a =>
      have ha : a ∈ s.reg.jobList := List.mem_of_find?_eq_some hf
      obtain ⟨j, hj⟩ := hw.job_of_mem ha
      simp only [harg, hf, hj, deref_some, ok_bind] at h
      split at h <;> simp only [pure_eq, Except.ok.injEq] at h <;> subst h
      · exact ⟨_, rfl, Calm.refl hw, rfl, .inl rfl⟩
      · refine ⟨_, rfl, ?_⟩
        split <;> exact ⟨Calm.setJob hw ha hj rfl (by simp), rfl, .inr ⟨a, j, ha, hj, rfl⟩⟩

theorem builtinStop_ok {s : Shell} {cmd : Command} {k : Int} {res : Builtin}
    (h : builtinStop s cmd k = .ok res) :
    ∃ t, res = .handled t ∧ t.reg = s.reg ∧ t.children = s.children := by
  unfold builtinStop at h
  cases harg : cmd.argv[1]? with
  | none => simp [harg] at h
  | some arg =>
    simp only [harg, deref_some, ok_bind] at h
    cases hf : s.reg.jobWithJid (atoi arg) with
    | none => simp only [hf, pure_eq, Except.ok.injEq] at h; exact ⟨_, h.symm, rfl, rfl⟩
    | some a =>
      cases hj : s.reg.jobs a with
      | none => simp [hf, hj] at h
      | some j =>
        simp only [hf, hj, deref_some, ok_bind, pure_eq, Except.ok.injEq] at h
        subst h; exact ⟨_, rfl, by split <;> exact ⟨rfl, rfl⟩⟩

theorem builtinKill_ok {s : Shell} {cmd : Command} {k : Int} {res : Builtin}
    (h : builtinKill s cmd k = .ok res) :
    ∃ t, res = .handled t ∧ t.reg = s.reg ∧ t.children = s.children := by
  unfold builtinKill at h
  split at h
  · simp only [pure_eq, Except.ok.injEq] at h; exact ⟨_, h.symm, rfl, rfl⟩
  · split at h
    · cases harg : cmd.argv[1]? with
      | none => simp [harg] at h
      | some arg =>
        cases hf : s.reg.jobWithJid (atoi arg) with
        | none => simp [harg, hf] at h
        | some a =>
          cases hj : s.reg.jobs a with
          | none => simp [harg, hf, hj] at h
          | some j =>
            simp only [harg, hf, hj, deref_some, ok_bind, pure_eq, Except.ok.injEq] at h
            subst h; exact ⟨_, rfl, by split <;> exact ⟨rfl, rfl⟩⟩
    · cases harg : cmd.argv[1]? with
      | none => simp [harg] at h
      | some arg =>
        cases harg2 : cmd.argv[2]? with
        | none => simp [harg, harg2] at h
        | some arg2 =>
          cases hf : s.reg.jobWithJid (atoi arg2) with
          | none => simp [harg, harg2, hf] at h
          | some a =>
            cases hj : s.reg.jobs a with
            | none => simp [harg, harg2, hf, hj] at h
            | some j =>
              simp only [harg, harg2, hf, hj, deref_some, ok_bind] at h
              split at h <;> simp only [pure_eq, Except.ok.injEq] at h <;> subst h <;>
                exact ⟨_, rfl, by first | exact ⟨rfl, rfl⟩ | (split <;> exact ⟨rfl, rfl⟩)⟩

theorem checkForBuiltin_ok {s : Shell} {cmd : Command} {k : Int} {res : Builtin} (hw : s.reg.Wf)
    (h : checkForBuiltin s cmd k = .ok res) :
    (∃ t, res = .handled t ∧ Calm s.reg t.reg) ∨ (∃ t a, res = .fg t a ∧ Raises s.reg t.reg a) ∨
      res = .notBuiltin := by
  unfold checkForBuiltin at h
  split at h
  · rw [printAllJobs_eq hw, map_ok, Except.ok.injEq] at h
    exact .inl ⟨_, h.symm, Calm.dropJobs hw _⟩
  split at h
  · cases h; exact .inl ⟨_, rfl, Calm.refl hw⟩
  split at h
  · rcases builtinFg_ok hw h with ⟨t, rfl, ht, -⟩ | ⟨t, a, -, rfl, hr, -⟩
    · exact .inl ⟨t, rfl, Calm.of_eq hw ht⟩
    · exact .inr (.inl ⟨t, a, rfl, hr⟩)
  split at h
  · obtain ⟨t, rfl, hc, -⟩ := builtinBg_ok hw h; exact .inl ⟨t, rfl, hc⟩
  split at h
  · obtain ⟨t, rfl, ht, -⟩ := builtinStop_ok h; exact .inl ⟨t, rfl, Calm.of_eq hw ht⟩
  split at h
  · obtain ⟨t, rfl, ht, -⟩ := builtinKill_ok h; exact .inl ⟨t, rfl, Calm.of_eq hw ht⟩
  · cases h; exact .inr (.inr rfl)

/-! ## The spawn -/

theorem spawnPipeline_ok {os : SpawnOs} {p : Pipeline} {s t : Shell} {o : Option Nat}
    (hw : s.reg.Wf) (h : spawnPipeline os p s = .ok (t, o)) : t.phase = s.phase ∧
      ((o = none ∧ Calm s.reg t.reg) ∨ ∃ a, o = some a ∧ Raises s.reg t.reg a) := by
  obtain ⟨hr0, hp0, -⟩ := makePipes_frame s (p.commands.length - 1)
  have hst := spawnStages_frame os p p.commands.length (makePipes s (p.commands.length - 1)).2
    p.commands 0 0 (makePipes s (p.commands.length - 1)).1 []
  simp only [spawnPipeline] at h
  generalize spawnStages os p p.commands.length (makePipes s (p.commands.length - 1)).2
    p.commands 0 0 (makePipes s (p.commands.length - 1)).1 [] = e at h hst
  rw [hr0, hp0] at hst
  cases e with
  | early s2 | failed s2 =>
    simp only [Except.ok.injEq, Prod.mk.injEq] at h
    obtain ⟨rfl, rfl⟩ := h
    exact ⟨hst.2.1, .inl ⟨rfl, Calm.of_eq hw hst.1⟩⟩
  | done s2 pids =>
    obtain ⟨hr, hp, -⟩ := hst
    simp only [StageEnd.shell] at hr hp
    simp only [closePipes_reg, hr] at h
    cases hadd : s.reg.addJob p with
    | error => simp [hadd] at h
    | ok ra =>
      obtain ⟨r, a⟩ := ra
      obtain ⟨i, -, rfl, rfl⟩ := addJob_eq hadd
      simp only [hadd, Function.update_same, deref_some, ok_bind] at h
      split at h <;> simp only [pure_eq, Except.ok.injEq, Prod.mk.injEq] at h <;>
        obtain ⟨rfl, rfl⟩ := h
      · exact ⟨hp, .inl ⟨rfl, Calm.addJob hw hadd (Function.update_same _ _ _) rfl (by simp)⟩⟩
      · exact ⟨hp, .inr ⟨_, rfl, Raises.addJob hw hadd (Function.update_same _ _ _) rfl⟩⟩

/-- The loop of `wait_for_job`, entered with the table well formed and its job the only one that
may be `FOREGROUND`, ends in a state of the invariant. -/
theorem waitLoop_inv {t s' : Shell} {a : Nat} {ps : List Pipeline} (hw : t.reg.Wf)
    (ha : a ∈ t.reg.jobList) (hfg : ∀ b, t.reg.IsFg b → b = a) (h : waitLoop t a ps = .ok s') :
    Calm t.reg s'.reg ∧ FgInv s' := by
  unfold waitLoop at h
  obtain ⟨j, hj⟩ := hw.job_of_mem ha
  simp only [hj, deref_some, ok_bind] at h
  split at h
  · cases h; exact ⟨Calm.refl hw, ha, hfg⟩
  · rename_i hcond
    cases hf : finishWait t a with
    | error => simp [hf] at h
    | ok u =>
      simp only [hf, map_ok, Except.ok.injEq] at h
      subst h
      obtain ⟨j', hj', -, -, -, -, hu⟩ := finishWait_ok hw ha hf
      rw [hj] at hj'
      cases hj'
      split at hu
      · rw [hu]
        refine ⟨Calm.dropJobs hw _, fun b hb => ?_⟩
        have hb' := (Calm.dropJobs hw (· == a)).noFg b hb
        obtain rfl := hfg b hb'
        simp [IsFg] at hb
      · rw [hu]
        refine ⟨Calm.refl hw, fun b hb => ?_⟩
        obtain rfl := hfg b hb
        simp only [IsFg, hj, Option.map_some', Option.some.injEq] at hb
        exact hcond ⟨hb.2, by omega⟩

theorem waitLoop_raised {r : Registry} {t s' : Shell} {a : Nat} {ps : List Pipeline}
    (hr : Raises r t.reg a) (hno : ∀ b, ¬r.IsFg b) (h : waitLoop t a ps = .ok s') :
    Keeps r s'.reg ∧ FgInv s' :=
  have hl := waitLoop_inv hr.wf hr.listed (fun b hb => (hr.fg b hb).resolve_right (hno b)) h
  ⟨hr.toKeeps.trans hl.1.toKeeps, hl.2⟩

theorem runPipeline_inv {s s' : Shell} {p : Pipeline} {ps : List Pipeline} {os : SpawnOs}
    {k : Int} (hw : s.reg.Wf) (hno : ∀ b, ¬s.reg.IsFg b) (h : runPipeline s p ps os k = .ok s') :
    Keeps s.reg s'.reg ∧ FgInv s' := by
  unfold runPipeline at h
  split at h
  · cases hf : s.reg.freeAllJobs <;> simp [hf] at h
  cases hb : checkForBuiltin { s with sigchldBlocked := true } p.first k with
  | error => simp [hb] at h
  | ok res =>
    simp only [hb, ok_bind] at h
    rcases checkForBuiltin_ok (s := { s with sigchldBlocked := true }) hw hb with
      ⟨t, rfl, hc⟩ | ⟨t, a, rfl, hr⟩ | rfl
    · cases h; exact ⟨hc.toKeeps, fun b hb => hno b (hc.noFg b hb)⟩
    · exact waitLoop_raised hr hno h
    cases hsp : spawnPipeline os p { s with sigchldBlocked := true } with
    | error => simp [hsp] at h
    | ok res =>
      obtain ⟨t, o⟩ := res
      simp only [hsp, ok_bind] at h
      rcases (spawnPipeline_ok (s := { s with sigchldBlocked := true }) hw hsp).2 with
        ⟨rfl, hc⟩ | ⟨a, rfl, hr⟩
      · cases h; exact ⟨hc.toKeeps, fun b hb => hno b (hc.noFg b hb)⟩
      · exact waitLoop_raised hr hno h

/-! ## Every step, every reachable state -/

/-- One step keeps the table and the invariant of the loop structure. -/
theorem step_inv {s s' : Shell} {e : Event} (hw : s.reg.Wf) (hi : FgInv s)
    (h : step s e = some (.ok s')) : Keeps s.reg s'.reg ∧ FgInv s' := by
  cases e with
  | command line =>
    simp only [step] at h
    split at h
    · rename_i hp
      cases hc : promptChecks s with
      | error => simp [hc] at h
      | ok u =>
        simp only [hc, map_ok, Option.some.injEq, Except.ok.injEq] at h
        subst h
        obtain ⟨h1, -⟩ := promptChecks_ok hc
        exact ⟨(Calm.of_eq hw h1).toKeeps, fun b => h1 ▸ hi.ready hp b⟩
    · cases h
  | eof =>
    simp only [step] at h
    split at h
    · cases hc : promptChecks s <;> simp [hc] at h
    · cases h
  | pipeline os k =>
    simp only [step] at h
    split at h
    · rename_i p ps hp
      split at h
      · exact runPipeline_inv hw (hi.ready hp) (Option.some.inj h)
      · cases h
    · cases h
  | reap pid st =>
    simp only [step] at h
    split at h
    · split at h
      · rename_i a ps hp
        obtain ⟨ha, hfg⟩ := hi.waiting hp
        cases hc : handleChildStatus (s.reapChild pid st) pid st with
        | error => simp [hc] at h
        | ok u =>
          simp only [hc, ok_bind, Option.some.injEq] at h
          obtain ⟨hcalm, hl, -⟩ := handleChildStatus_calm (by simpa using hw) hc
          rw [Shell.reapChild_reg] at hcalm hl
          have hl' := waitLoop_inv hcalm.wf (by simpa [hl] using ha)
            (fun b hb => hfg b (hcalm.noFg b hb)) h
          exact ⟨hcalm.toKeeps.trans hl'.1.toKeeps, hl'.2⟩
      · rename_i ps hp
        split at h
        · cases h
        · obtain ⟨hcalm, -, hph⟩ := handleChildStatus_calm (by simpa using hw) (Option.some.inj h)
          rw [Shell.reapChild_reg] at hcalm
          refine ⟨hcalm.toKeeps, ?_⟩
          simp only [FgInv, hph, Shell.reapChild_phase, hp]
          exact fun b hb => hi.ready hp b (hcalm.noFg b hb)
    · cases h
  | waitFails =>
    simp only [step] at h
    split at h
    · split at h <;> cases h
    · cases h

/-- Every reachable state has a well-formed table and satisfies the invariant of the loop
structure. -/
theorem reachable_inv {s : Shell} (hs : Reachable s) : s.reg.Wf ∧ FgInv s := by
  induction hs with
  | init => exact ⟨empty_wf, fun b hb => by simp [IsFg, Shell.init, empty] at hb⟩
  | step e _ h ih =>
    have := step_inv ih.1 ih.2 h
    exact ⟨this.1.wf, this.2⟩

/-! ## The job ids -/

/-! ## `bg` on a finished job -/

/-- `sleep 1 &` exits and is reaped at the prompt; `bg 1` finds `killpg` failing on the empty
group. -/
def bgDone : List Event :=
  [.command [line1 ["sleep", "1"] (by simp) true], .pipeline (okOs 100) 0, .reap 100 (.exited 0),
   .command [line1 ["bg", "1"] (by simp) false], .pipeline (okOs 200) (-1)]

/-- `bg` makes the `DONE` job `BACKGROUND` with no member alive and no child left, and from then
on `print_all_jobs` keeps it. -/
theorem bg_revives_done_job :
    ∃ s, Reachable s ∧ s.phase = .ready [] ∧ s.children = [] ∧ 0 ∈ s.reg.jobList ∧
      (s.reg.jobs 0).map (fun j => (j.status, j.numProcessesAlive)) = some (.background, 0) ∧
      ∀ r' out, s.reg.printAllJobs = .ok (r', out) → 0 ∈ r'.jobList ∧ r'.jobs 0 = s.reg.jobs 0 := by
  refine ⟨_, run_reachable shell0_reachable (show run shell0 bgDone = some (.ok _) from rfl), rfl,
    rfl, by decide, by decide, fun r' out h => ?_⟩
  rw [Registry.printAllJobs_eq (reachable_inv (run_reachable shell0_reachable
    (show run shell0 bgDone = some (.ok _) from rfl))).1] at h
  cases h
  exact ⟨by decide, rfl⟩

/-- In every reachable state the listed jobs have distinct ids in `[1, MAXJOBS)`, `jid2job`
holds exactly the listed jobs under their ids, `add_job` gives the least free id, the list scan
and the array lookup agree, and across a step a lookup returns the job it returned before or one
the step allocated: a removed job is never found again, and its id finds nothing until `add_job`
gives it to a new job. -/
theorem reachable_jid_index {s : Shell} (hs : Reachable s) :
    (∀ a ∈ s.reg.jobList, ∃ i : Nat, 0 < i ∧ i < maxJobs ∧ s.reg.jidOf a = some (i : Int)) ∧
    (∀ a ∈ s.reg.jobList, ∀ b ∈ s.reg.jobList, s.reg.jidOf a = s.reg.jidOf b → a = b) ∧
    (∀ i a, 0 < i → i < maxJobs →
      (s.reg.jid2job i = some a ↔ a ∈ s.reg.jobList ∧ s.reg.jidOf a = some (i : Int))) ∧
    (∀ p r' a, s.reg.addJob p = .ok (r', a) → ∃ i : Nat, r'.jidOf a = some (i : Int) ∧ 0 < i ∧
      (∀ b ∈ s.reg.jobList, s.reg.jidOf b ≠ some (i : Int)) ∧
      ∀ k : Nat, 0 < k → k < i → ∃ b ∈ s.reg.jobList, s.reg.jidOf b = some (k : Int)) ∧
    (∀ jid : Int, s.reg.jobWithJid jid = s.reg.getJobFromJid jid) ∧
    (∀ e s' jid a, step s e = some (.ok s') → s'.reg.getJobFromJid jid = some a →
      s.reg.getJobFromJid jid = some a ∨ s.reg.nextAddr ≤ a) := by
  obtain ⟨hw, hi⟩ := reachable_inv hs
  refine ⟨fun a ha => ?_, fun a ha b hb h => hw.jid_inj ha hb h, fun i a hi0 him => ?_,
    fun p r' a h => addJob_least hw h, jobWithJid_eq_getJobFromJid hw,
    fun e s' jid a h ha => ?_⟩
  · obtain ⟨i, h0, h1, h2, -⟩ := hw.listed a ha
    exact ⟨i, h0, h1, h2⟩
  · simp [hw.jid2job_iff, hi0, him]
  · have hk := (step_inv hw hi h).1
    unfold getJobFromJid at ha ⊢
    split at ha
    · rw [if_pos ‹_›]
      exact hk.slot _ _ ha
    · cases ha

theorem reachable_jid_index_after_done : Reachable sleepAfterDoneShell ∧
    let s := sleepAfterDoneShell
    (∀ a ∈ s.reg.jobList, ∃ i : Nat, 0 < i ∧ i < maxJobs ∧ s.reg.jidOf a = some (i : Int)) ∧
    (∀ a ∈ s.reg.jobList, ∀ b ∈ s.reg.jobList, s.reg.jidOf a = s.reg.jidOf b → a = b) ∧
    (∀ i a, 0 < i → i < maxJobs →
      (s.reg.jid2job i = some a ↔ a ∈ s.reg.jobList ∧ s.reg.jidOf a = some (i : Int))) ∧
    (∀ p r' a, s.reg.addJob p = .ok (r', a) → ∃ i : Nat, r'.jidOf a = some (i : Int) ∧ 0 < i ∧
      (∀ b ∈ s.reg.jobList, s.reg.jidOf b ≠ some (i : Int)) ∧
      ∀ k : Nat, 0 < k → k < i → ∃ b ∈ s.reg.jobList, s.reg.jidOf b = some (k : Int)) ∧
    (∀ jid : Int, s.reg.jobWithJid jid = s.reg.getJobFromJid jid) ∧
    (∀ e s' jid a, step s e = some (.ok s') → s'.reg.getJobFromJid jid = some a →
      s.reg.getJobFromJid jid = some a ∨ s.reg.nextAddr ≤ a) :=
  ⟨sleepAfterDone_reachable, reachable_jid_index sleepAfterDone_reachable⟩

/-! ## The foreground job -/

/-- In every reachable state at most one listed job is `FOREGROUND`, only the one
`wait_for_job` is waiting on, and none while the shell runs a command line or sits at the
prompt. -/
theorem reachable_foreground_unique {s : Shell} (hs : Reachable s) :
    (∀ a b, s.reg.IsFg a → s.reg.IsFg b → a = b) ∧
    (∀ a, s.reg.IsFg a → ∃ ps, s.phase = .waiting a ps) ∧
    (∀ ps, s.phase = .ready ps → ∀ a, ¬s.reg.IsFg a) := by
  have hi := (reachable_inv hs).2
  cases hp : s.phase with
  | ready ps =>
    have hno := hi.ready hp
    exact ⟨fun a _ ha => absurd ha (hno a), fun a ha => absurd ha (hno a), fun _ _ => hno⟩
  | waiting c ps =>
    obtain ⟨-, hfg⟩ := hi.waiting hp
    refine ⟨fun a b ha hb => (hfg a ha).trans (hfg b hb).symm, fun a ha => ⟨ps, ?_⟩,
      fun _ h => by cases h⟩
    rw [hfg a ha]

theorem reachable_foreground_unique_after_done : Reachable sleepAfterDoneShell ∧
    let s := sleepAfterDoneShell
    (∀ a b, s.reg.IsFg a → s.reg.IsFg b → a = b) ∧
    (∀ a, s.reg.IsFg a → ∃ ps, s.phase = .waiting a ps) ∧
    (∀ ps, s.phase = .ready ps → ∀ a, ¬s.reg.IsFg a) :=
  ⟨sleepAfterDone_reachable, reachable_foreground_unique sleepAfterDone_reachable⟩

end Cush
end SystemsLab
