import SystemsLab.Cush.Invariants
import SystemsLab.Cush.Wiring

/-!
# Cush.Members

The children each job counts. A job's members are the first `list_size(&job->pipe->commands)`
entries of `child_pid_array`, the pids `handle_child_status` searches for; `num_processes_alive`
is meant to count those the operating system has not reaped yet.

That holds on every run in which the operating system gives no new child the pid of a member of
a job still on `job_list` (`FreshReachable`); `pid_reuse_reaches_fatal_error` shows a run with
such a reuse on which it fails. The invariant, `MembersInv`:

* `Tally`: each listed job counts exactly its members not yet reaped, lists each member once,
  shares no member with another listed job, and counts none once it is `DONE` or `TERMINATED`;
* `wait_for_job` waits only on a listed job with a member alive.

One lemma per change of the table says what it does to the tally (`Tally.setJob`,
`Tally.dropJobs`, `Tally.grow`, `Tally.reap`, `Tally.addJob`) and which jobs it may remove
(`Grows`, `RemovesDead`); `step_members` combines them for one step of the shell. What follows:

* `FreshReachable.alive_counts`: the counts, and `handle_child_status` finding each member's job;
* `FreshReachable.waitFails_none`: `wait_for_job`'s `waitpid` always has a child to wait for;
* `FreshReachable.removes_only_reaped`: a job leaves `job_list` only once every member is reaped;
* `reap_halts_only_unclaimed`: on every run, a `waitpid` report halts the shell only for a pid
  that no listed job has.
-/

namespace SystemsLab
namespace Cush

open Registry

/-- The members of a job: the first `list_size(&job->pipe->commands)` entries of
`child_pid_array`. -/
def Job.members (j : Job) : List Int := j.childPidArray.take j.pipe.commands.length

theorem Job.hasPid_iff (j : Job) (pid : Int) : j.hasPid pid = true ↔ pid ∈ j.members := by
  simp [Job.hasPid, Job.members]

/-- The pids of the children the operating system has not reaped. -/
def Shell.livePids (s : Shell) : List Int := s.children.map Child.pid

/-- The job table counts the children whose pids are `live`: each listed job's
`num_processes_alive` is the number of its members in `live`, its members are distinct and
belong to no other listed job, and a finished job counts none. -/
structure Tally (r : Registry) (live : List Int) : Prop where
  count : ∀ a ∈ r.jobList, ∀ j, r.jobs a = some j →
    j.numProcessesAlive = (j.members.countP (· ∈ live) : Int)
  nodup : ∀ a ∈ r.jobList, ∀ j, r.jobs a = some j → j.members.Nodup
  disjoint : ∀ a ∈ r.jobList, ∀ b ∈ r.jobList, ∀ j j', r.jobs a = some j → r.jobs b = some j' →
    ∀ m ∈ j.members, m ∈ j'.members → a = b
  finished : ∀ a ∈ r.jobList, ∀ j, r.jobs a = some j → j.finished = true →
    j.numProcessesAlive = 0

/-! ## Counting -/

theorem countP_filter_ne : ∀ {l : List Int} {live : List Int} {p : Int}, l.Nodup → p ∈ l →
    p ∈ live → l.countP (· ∈ live.filter (· != p)) + 1 = l.countP (· ∈ live)
  | [], _, _, _, hp, _ => nomatch hp
  | m :: l, live, p, hnd, hp, hl => by
    obtain ⟨hm, hnd⟩ := List.nodup_cons.1 hnd
    have hsame : ∀ x, x ≠ p → (x ∈ live.filter (· != p) ↔ x ∈ live) := fun x hx => by
      simp [List.mem_filter, hx]
    rcases List.mem_cons.1 hp with hpm | hp
    · subst hpm
      have hl' : l.countP (· ∈ live.filter (· != p)) = l.countP (· ∈ live) :=
        List.countP_congr fun x hx => by
          simpa using hsame x (fun h => hm (h ▸ hx))
      rw [List.countP_cons_of_neg _ _ (by simp), List.countP_cons_of_pos _ _ (by simpa using hl),
        hl']
    · have ih := countP_filter_ne hnd hp hl
      have hmp : m ≠ p := fun h => hm (h ▸ hp)
      by_cases hml : m ∈ live
      · rw [List.countP_cons_of_pos _ _ (by simpa using (hsame m hmp).2 hml),
          List.countP_cons_of_pos _ _ (by simpa using hml)]
        omega
      · rw [List.countP_cons_of_neg _ _ (by simpa using mt (hsame m hmp).1 hml),
          List.countP_cons_of_neg _ _ (by simpa using hml)]
        exact ih

/-! ## What each change of the table does to the tally -/

namespace Tally

variable {r : Registry} {live : List Int}

theorem setJob_jobs_eq {a b : Nat} {j' k : Job} (hk : (r.setJob a j').jobs b = some k) :
    b = a ∧ k = j' ∨ b ≠ a ∧ r.jobs b = some k := by
  by_cases hb : b = a
  · subst hb
    simp only [setJob_jobs, Function.update_same, Option.some.injEq] at hk
    exact .inl ⟨rfl, hk.symm⟩
  · simp only [setJob_jobs, Function.update_noteq hb] at hk
    exact .inr ⟨hb, hk⟩

/-- A write to a listed job that keeps its members, while the live children change in members
of that job only: the written job counts its members in the new `live'` and is finished only
with none counted. -/
theorem setJob (ht : Tally r live) {live' : List Int} {a : Nat} {j j' : Job}
    (ha : a ∈ r.jobList) (hj : r.jobs a = some j) (hmem : j'.members = j.members)
    (hlive : ∀ b ∈ r.jobList, b ≠ a → ∀ k, r.jobs b = some k → ∀ m ∈ k.members,
      (m ∈ live' ↔ m ∈ live))
    (hn : j'.numProcessesAlive = (j'.members.countP (· ∈ live') : Int))
    (hf : j'.finished = true → j'.numProcessesAlive = 0) : Tally (r.setJob a j') live' := by
  -- each job of the new table has the members of the old job at its address
  have hold : ∀ b k, (r.setJob a j').jobs b = some k → ∃ k₀, r.jobs b = some k₀ ∧
      k.members = k₀.members := fun b k hk => by
    rcases setJob_jobs_eq hk with ⟨rfl, rfl⟩ | ⟨-, hk⟩
    · exact ⟨j, hj, hmem⟩
    · exact ⟨k, hk, rfl⟩
  refine ⟨fun b hb k hk => ?_, fun b hb k hk => ?_, fun b hb c hc k k' hk hk' m hm hm' => ?_,
    fun b hb k hk hfin => ?_⟩
  · rcases setJob_jobs_eq hk with ⟨rfl, rfl⟩ | ⟨hba, hk⟩
    · exact hn
    · rw [ht.count b hb k hk]
      exact congrArg _ (List.countP_congr fun m hm => by simpa using (hlive b hb hba k hk m hm).symm)
  · obtain ⟨k₀, hk₀, he⟩ := hold b k hk
    exact he ▸ ht.nodup b hb k₀ hk₀
  · obtain ⟨k₀, hk₀, he⟩ := hold b k hk
    obtain ⟨k₁, hk₁, he'⟩ := hold c k' hk'
    exact ht.disjoint b hb c hc k₀ k₁ hk₀ hk₁ m (he ▸ hm) (he' ▸ hm')
  · rcases setJob_jobs_eq hk with ⟨rfl, rfl⟩ | ⟨-, hk⟩
    · exact hf hfin
    · exact ht.finished b hb k hk hfin

theorem setStatus (ht : Tally r live) {a : Nat} {j : Job} (ha : a ∈ r.jobList)
    (hj : r.jobs a = some j) {st : JobStatus} (hst : st ≠ .done ∧ st ≠ .terminated) :
    Tally (r.setJob a { j with status := st }) live :=
  ht.setJob ha hj rfl (fun _ _ _ _ _ _ _ => Iff.rfl) (ht.count a ha j hj) fun hfin => by
    simp [Job.finished, hst.1, hst.2] at hfin

/-- Removing jobs. -/
theorem dropJobs (ht : Tally r live) (d : Nat → Bool) : Tally (r.dropJobs d) live := by
  have hkeep : ∀ b ∈ (r.dropJobs d).jobList, ∀ k, (r.dropJobs d).jobs b = some k →
      b ∈ r.jobList ∧ r.jobs b = some k := fun b hb k hk => by
    simp only [dropJobs_jobList, List.mem_filter, Bool.not_eq_true'] at hb
    simp only [dropJobs_jobs, hb.2] at hk
    exact ⟨hb.1, by simpa using hk⟩
  refine ⟨fun b hb k hk => ?_, fun b hb k hk => ?_, fun b hb c hc k k' hk hk' => ?_,
    fun b hb k hk => ?_⟩
  · exact ht.count b (hkeep b hb k hk).1 k (hkeep b hb k hk).2
  · exact ht.nodup b (hkeep b hb k hk).1 k (hkeep b hb k hk).2
  · exact ht.disjoint b (hkeep b hb k hk).1 c (hkeep c hc k' hk').1 k k' (hkeep b hb k hk).2
      (hkeep c hc k' hk').2
  · exact ht.finished b (hkeep b hb k hk).1 k (hkeep b hb k hk).2

/-- New children whose pids are members of no listed job. -/
theorem grow (ht : Tally r live) {new : List Int}
    (hnew : ∀ q ∈ new, ∀ a ∈ r.jobList, ∀ j, r.jobs a = some j → q ∉ j.members) :
    Tally r (live ++ new) := by
  refine ⟨fun a ha j hj => ?_, ht.nodup, ht.disjoint, ht.finished⟩
  rw [ht.count a ha j hj]
  congr 1
  exact List.countP_congr fun m hm => by
    simpa using fun hn => absurd hm (hnew m hn a ha j hj)

/-- The reap of a live member `p` of the job at `a`, written as `j'`: one fewer counted, and
finished only with none left or if it already was. -/
theorem reap (ht : Tally r live) {a : Nat} {j j' : Job} (ha : a ∈ r.jobList)
    (hj : r.jobs a = some j) {p : Int} (hp : p ∈ j.members) (hl : p ∈ live)
    (hmem : j'.members = j.members) (hn : j'.numProcessesAlive = j.numProcessesAlive - 1)
    (hf : j'.finished = true → j'.numProcessesAlive < 1 ∨ j.finished = true) :
    Tally (r.setJob a j') (live.filter (· != p)) := by
  have hcount := countP_filter_ne (ht.nodup a ha j hj) hp hl
  have hj0 := ht.count a ha j hj
  -- `p` is a member of no other job, so the other jobs' members stay as live as they were
  refine ht.setJob ha hj hmem (fun b hb hba k hk m hm => ?_) (by rw [hn, hj0, hmem]; omega)
    fun hfin => ?_
  · have hmp : m ≠ p := fun h => hba (ht.disjoint b hb a ha k j hk hj m hm (h ▸ hp))
    simp [List.mem_filter, hmp]
  · rcases hf hfin with h1 | h1
    · have : (0 : Int) ≤ j'.numProcessesAlive := by
        rw [hn, hj0]
        omega
      omega
    · have h0 := ht.finished a ha j hj h1
      omega

theorem addJob_setJob_jobs {p : Pipeline} {r1 : Registry} {a : Nat}
    (hadd : r.addJob p = .ok (r1, a)) (J : Job) {b : Nat} {k : Job}
    (hb : b ∈ (r1.setJob a J).jobList) (hk : (r1.setJob a J).jobs b = some k) :
    b = a ∧ k = J ∨ b ∈ r.jobList ∧ r.jobs b = some k := by
  obtain ⟨i, -, rfl, rfl⟩ := addJob_eq hadd
  rcases setJob_jobs_eq hk with h | ⟨hba, hk⟩
  · exact .inl h
  · simp only [Function.update_noteq hba] at hk
    simp only [setJob_jobList, List.mem_append, List.mem_singleton, hba, or_false] at hb
    exact .inr ⟨hb, hk⟩

/-- `add_job` and the write that follows it in `iterate_over_pipeline`: the new job's members
are the `pids` just spawned, distinct, alive, and members of no listed job. -/
theorem addJob (ht : Tally r live) {p : Pipeline} {r1 : Registry} {a : Nat} {j : Job}
    (hadd : r.addJob p = .ok (r1, a)) (hj : r1.jobs a = some j) {pids : List Int}
    (hlen : pids.length = p.commands.length) (hnd : pids.Nodup)
    (hfresh : ∀ q ∈ pids, ∀ b ∈ r.jobList, ∀ k, r.jobs b = some k → q ∉ k.members)
    {st : JobStatus} (hst : st ≠ .done ∧ st ≠ .terminated) :
    Tally (r1.setJob a
      { j with
        numProcessesAlive := pids.length
        childPidArray := pids
        terminationCode := -1
        stateSavedPreviously := false
        status := st }) (live ++ pids) := by
  have hjp : j.pipe = p := by
    obtain ⟨i, -, rfl, rfl⟩ := addJob_eq hadd
    simp only [Function.update_same, Option.some.injEq] at hj
    rw [← hj]
    rfl
  have hmem : pids.take j.pipe.commands.length = pids := List.take_of_length_le (by rw [hjp, hlen])
  have hg := ht.grow hfresh
  refine ⟨fun b hb k hk => ?_, fun b hb k hk => ?_, fun b hb c hc k k' hk hk' m hm hm' => ?_,
    fun b hb k hk hfin => ?_⟩
  · rcases addJob_setJob_jobs hadd _ hb hk with ⟨-, rfl⟩ | ⟨hb, hk⟩
    · simp only [Job.members, hmem]
      rw [List.countP_eq_length.2 fun x hx => by simp [hx]]
    · exact hg.count b hb k hk
  · rcases addJob_setJob_jobs hadd _ hb hk with ⟨-, rfl⟩ | ⟨hb, hk⟩
    · simpa only [Job.members, hmem] using hnd
    · exact ht.nodup b hb k hk
  · rcases addJob_setJob_jobs hadd _ hb hk with ⟨rfl, rfl⟩ | ⟨hb₀, hk₀⟩ <;>
      rcases addJob_setJob_jobs hadd _ hc hk' with ⟨rfl, rfl⟩ | ⟨hc₀, hk₀'⟩
    · rfl
    · exact absurd hm' (hfresh m (by simpa only [Job.members, hmem] using hm) c hc₀ k' hk₀')
    · exact absurd hm (hfresh m (by simpa only [Job.members, hmem] using hm') b hb₀ k hk₀)
    · exact ht.disjoint b hb₀ c hc₀ k k' hk₀ hk₀' m hm hm'
  · rcases addJob_setJob_jobs hadd _ hb hk with ⟨-, rfl⟩ | ⟨hb, hk⟩
    · simp [Job.finished, hst.1, hst.2] at hfin
    · exact ht.finished b hb k hk hfin

end Tally

/-! ## Which jobs a change removes -/

/-- Every job `r` lists and `r'` does not has no member in `live`: what `delete_job` asks of its
callers, that every process forked for the job is known to have terminated. -/
def RemovesDead (r r' : Registry) (live : List Int) : Prop :=
  ∀ a ∈ r.jobList, a ∉ r'.jobList → ∀ j, r.jobs a = some j → ∀ m ∈ j.members, m ∉ live

/-- Every job `r` lists is still listed in `r'`, with the same members. -/
def Grows (r r' : Registry) : Prop :=
  ∀ a ∈ r.jobList, a ∈ r'.jobList ∧
    ∀ j, r.jobs a = some j → ∃ j', r'.jobs a = some j' ∧ j'.members = j.members

namespace Grows

variable {r r' : Registry}

theorem refl (r : Registry) : Grows r r := fun _ ha => ⟨ha, fun j hj => ⟨j, hj, rfl⟩⟩

theorem removesDead (hg : Grows r r') (live : List Int) : RemovesDead r r' live :=
  fun a ha hna => absurd (hg a ha).1 hna

theorem trans_removesDead {r'' : Registry} {live : List Int} (hg : Grows r r')
    (hd : RemovesDead r' r'' live) : RemovesDead r r'' live := fun a ha hna j hj => by
  obtain ⟨ha', hk⟩ := hg a ha
  obtain ⟨j', hj', he⟩ := hk j hj
  exact he ▸ hd a ha' hna j' hj'

theorem setJob {a : Nat} {j j' : Job} (hj : r.jobs a = some j) (hmem : j'.members = j.members) :
    Grows r (r.setJob a j') := fun b hb => ⟨hb, fun k hk => by
  by_cases hba : b = a
  · subst hba
    obtain rfl : j = k := Option.some.inj (hj.symm.trans hk)
    exact ⟨j', by simp, hmem⟩
  · exact ⟨k, by simpa [Function.update_noteq hba] using hk, rfl⟩⟩

theorem addJob {p : Pipeline} {r1 : Registry} {a : Nat} (hw : r.Wf)
    (hadd : r.addJob p = .ok (r1, a)) (J : Job) : Grows r (r1.setJob a J) := fun b hb => by
  obtain ⟨i, -, rfl, rfl⟩ := addJob_eq hadd
  have hba : b ≠ r.nextAddr := fun h => Nat.lt_irrefl _ (h ▸ hw.lt_nextAddr hb)
  exact ⟨by simp [hb], fun j hj => ⟨j, by simp [Function.update_noteq hba, hj], rfl⟩⟩

end Grows

theorem Tally.removesDead_dropJobs {r : Registry} {live : List Int} (ht : Tally r live)
    {d : Nat → Bool} (hd : ∀ a ∈ r.jobList, d a = true → ∀ j, r.jobs a = some j →
      j.numProcessesAlive < 1) : RemovesDead r (r.dropJobs d) live := fun a ha hna j hj m hm hl => by
  have hda : d a = true := by
    by_contra hda
    exact hna (by simpa [dropJobs_jobList, List.mem_filter, hda] using ha)
  have hpos : 0 < j.members.countP (· ∈ live) := List.countP_pos_iff.2 ⟨m, hm, by simpa using hl⟩
  have hc := ht.count a ha j hj
  have h1 := hd a ha hda j hj
  omega

/-! ## `handle_child_status` -/

theorem jobOfPid_spec {r : Registry} {pid : Int} {a : Nat} (h : r.jobOfPid pid = some a) :
    a ∈ r.jobList ∧ ∃ j, r.jobs a = some j ∧ pid ∈ j.members := by
  have hp := List.find?_some h
  refine ⟨List.mem_of_find?_eq_some h, ?_⟩
  cases hj : r.jobs a with
  | none => simp [hj] at hp
  | some j => exact ⟨j, rfl, (Job.hasPid_iff j pid).1 (by simpa [hj] using hp)⟩

theorem Tally.jobOfPid_eq {r : Registry} {live : List Int} (ht : Tally r live) {a : Nat}
    {j : Job} {pid : Int} (ha : a ∈ r.jobList) (hj : r.jobs a = some j) (hp : pid ∈ j.members) :
    r.jobOfPid pid = some a := by
  cases hf : r.jobOfPid pid with
  | none =>
    have := List.find?_eq_none.1 hf a ha
    simp [hj, (Job.hasPid_iff j pid).2 hp] at this
  | some b =>
    obtain ⟨hb, k, hk, hpk⟩ := jobOfPid_spec hf
    rw [ht.disjoint b hb a ha k j hk hj pid hpk hp]

theorem Job.reaped_finished (j : Job) (final : JobStatus) (h : (j.reaped final).finished = true) :
    (j.reaped final).numProcessesAlive < 1 ∨ j.finished = true := by
  by_cases hl : j.numProcessesAlive - 1 < 1
  · exact .inl hl
  · exact .inr (by simpa [Job.reaped, Job.finished, hl] using h)

theorem livePids_reaped (s : Shell) (pid : Int) :
    ({ s with children := s.children.filter (·.pid != pid) } : Shell).livePids =
      s.livePids.filter (· != pid) := by
  simp [Shell.livePids, List.filter_map, Function.comp_def]

theorem handleChildStatus_tally {s t : Shell} {pid : Int} {st : WaitStatus}
    (ht : Tally s.reg s.livePids) (hl : pid ∈ s.livePids)
    (h : handleChildStatus (s.reapChild pid st) pid st = .ok t) : Tally t.reg t.livePids := by
  obtain ⟨a, j, hf, hj, rfl⟩ := handleChildStatus_ok h
  rw [Shell.reapChild_reg] at hf hj
  obtain ⟨ha, j₀, hj₀, hp⟩ := jobOfPid_spec hf
  obtain rfl : j = j₀ := Option.some.inj (hj.symm.trans hj₀)
  cases st with
  | exited c =>
    show Tally (s.reg.setJob a (j.reaped .done))
      ({ s with children := s.children.filter (·.pid != pid) } : Shell).livePids
    rw [livePids_reaped]
    exact ht.reap ha hj hp hl rfl rfl (Job.reaped_finished j _)
  | signaled sig =>
    show Tally (s.reg.setJob a (statusUpdate s.tty s.zUpdateJid s.errorUpdateCode j
      (.signaled sig)).1) ({ s with children := s.children.filter (·.pid != pid) } : Shell).livePids
    rw [livePids_reaped]
    simp only [statusUpdate]
    split_ifs
    · exact ht.reap ha hj hp hl rfl rfl (Job.reaped_finished _ _)
    · exact ht.reap ha hj hp hl rfl rfl (Job.reaped_finished j _)
  | stopped sig =>
    show Tally (s.reg.setJob a (statusUpdate s.tty s.zUpdateJid s.errorUpdateCode j
      (.stopped sig)).1) s.livePids
    simp only [statusUpdate]
    split_ifs <;>
      exact ht.setJob ha hj rfl (fun _ _ _ _ _ _ _ => Iff.rfl) (ht.count a ha j hj)
        (by simp [Job.finished])

theorem handleChildStatus_grows {s t : Shell} {pid : Int} {st : WaitStatus}
    (h : handleChildStatus s pid st = .ok t) : Grows s.reg t.reg := by
  obtain ⟨a, j, -, hj, rfl⟩ := handleChildStatus_ok h
  obtain ⟨-, hcp, hpipe, -⟩ := statusUpdate_spec s.tty s.zUpdateJid s.errorUpdateCode j st
  exact Grows.setJob hj (by simp only [Job.members, hcp, hpipe])

/-! ## The builtins -/

/-- What a builtin leaves of the shell `s`: the same children, and a job table that keeps every
tally of `s`'s and removes only jobs that tally counts none alive in. -/
structure BuiltinFrame (s t : Shell) : Prop where
  children : t.children = s.children
  tally : ∀ live, Tally s.reg live → Tally t.reg live
  removes : ∀ live, Tally s.reg live → RemovesDead s.reg t.reg live

theorem BuiltinFrame.of_eq {s t : Shell} (hr : t.reg = s.reg) (hc : t.children = s.children) :
    BuiltinFrame s t :=
  ⟨hc, fun _ ht => hr ▸ ht, fun live _ => hr ▸ (Grows.refl s.reg).removesDead live⟩

theorem checkForBuiltin_frame {s : Shell} {cmd : Command} {k : Int} {res : Builtin}
    (hw : s.reg.Wf) (h : checkForBuiltin s cmd k = .ok res) :
    (∃ t, res = .handled t ∧ BuiltinFrame s t) ∨
      (∃ t a, res = .fg t a ∧ Raises s.reg t.reg a ∧ Grows s.reg t.reg ∧ BuiltinFrame s t) ∨
        res = .notBuiltin := by
  unfold checkForBuiltin at h
  by_cases h1 : cmd.name = "jobs"
  · rw [if_pos h1, printAllJobs_eq hw, map_ok, Except.ok.injEq] at h
    refine .inl ⟨_, h.symm, rfl, fun _ ht => ht.dropJobs _, fun _ ht => ht.removesDead_dropJobs ?_⟩
    intro a ha hd j hj
    simp only [isFinished, hj, Option.map_some', Option.getD_some] at hd
    rw [ht.finished a ha j hj hd]
    decide
  rw [if_neg h1] at h
  by_cases h2 : cmd.name = "history"
  · rw [if_pos h2] at h; cases h; exact .inl ⟨s, rfl, .of_eq rfl rfl⟩
  rw [if_neg h2] at h
  by_cases h3 : cmd.name = "fg"
  · rw [if_pos h3] at h
    rcases builtinFg_ok hw h with ⟨t, rfl, hr, hc⟩ | ⟨t, a, j, rfl, hr, hj, he, hc⟩
    · exact .inl ⟨t, rfl, .of_eq hr hc⟩
    · have ha : a ∈ s.reg.jobList := by simpa [he] using hr.listed
      have hg : Grows s.reg t.reg := he ▸ Grows.setJob hj rfl
      exact .inr (.inl ⟨t, a, rfl, hr, hg, hc, fun _ ht => he ▸ ht.setStatus ha hj (by decide),
        fun live _ => hg.removesDead live⟩)
  rw [if_neg h3] at h
  by_cases h4 : cmd.name = "bg"
  · rw [if_pos h4] at h
    obtain ⟨t, rfl, -, hc, hr | ⟨a, j, ha, hj, he⟩⟩ := builtinBg_ok hw h
    · exact .inl ⟨t, rfl, .of_eq hr hc⟩
    · exact .inl ⟨t, rfl, hc, fun _ ht => he ▸ ht.setStatus ha hj (by decide),
        fun live _ => he ▸ (Grows.setJob hj rfl).removesDead live⟩
  rw [if_neg h4] at h
  by_cases h5 : cmd.name = "stop"
  · rw [if_pos h5] at h
    obtain ⟨t, rfl, hr, hc⟩ := builtinStop_ok h; exact .inl ⟨t, rfl, .of_eq hr hc⟩
  rw [if_neg h5] at h
  by_cases h6 : cmd.name = "kill"
  · rw [if_pos h6] at h
    obtain ⟨t, rfl, hr, hc⟩ := builtinKill_ok h; exact .inl ⟨t, rfl, .of_eq hr hc⟩
  rw [if_neg h6] at h
  cases h; exact .inr (.inr rfl)

/-! ## The spawn -/

theorem posixSpawnp_pid {fds : FdTable} {attr : SpawnAttr} {acts : List FileAction} {ret : Nat}
    {pid : Int} {c : Child} (h : posixSpawnp fds attr acts ret pid = some c) : c.pid = pid := by
  unfold posixSpawnp at h
  split at h
  · split at h
    · cases h; rfl
    · cases h
  · cases h

theorem spawnStages_pids (os : SpawnOs) (p : Pipeline) (K : Nat) (pipes : List (Nat × Nat)) :
    ∀ (cmds : List Command) (i : Nat) (pgid : Int) (s : Shell) (pids : List Int),
      ∃ n ≤ cmds.length,
        (spawnStages os p K pipes cmds i pgid s pids).shell.livePids =
          s.livePids ++ (List.range' i n).map os.pid ∧
        ∀ s' pids', spawnStages os p K pipes cmds i pgid s pids = .done s' pids' →
          n = cmds.length ∧ pids' = pids ++ (List.range' i n).map os.pid
  | [], _, _, _, _ => ⟨0, le_rfl, by simp [spawnStages, StageEnd.shell], fun _ _ h => by
      cases h; simp⟩
  | cmd :: rest, i, pgid, s, pids => by
    simp only [spawnStages]
    split
    · exact ⟨0, Nat.zero_le _, by simp [StageEnd.shell, Shell.print, Shell.livePids],
        fun _ _ h => by cases h⟩
    · split
      · exact ⟨0, Nat.zero_le _, by simp [StageEnd.shell], fun _ _ h => by cases h⟩
      · rename_i c hc
        obtain ⟨n, hn, hlive, hdone⟩ := spawnStages_pids os p K pipes rest (i + 1) _ _ _
        have hcp := posixSpawnp_pid hc
        refine ⟨n + 1, by simpa using hn, ?_, fun s' pids' h => ?_⟩
        · rw [hlive]
          simp [Shell.livePids, List.range'_succ, hcp]
        · obtain ⟨h1, h2⟩ := hdone s' pids' h
          refine ⟨by simp [h1], ?_⟩
          rw [h2]
          simp [List.range'_succ, hcp]

theorem SpawnOs.freshPids_nodup {os : SpawnOs} {s : Shell} {K : Nat}
    (h : os.freshPids s K = true) : ((List.range' 0 K).map os.pid).Nodup := by
  refine (List.nodup_range' 0 K).map_on fun x hx y hy hxy => ?_
  simp only [SpawnOs.freshPids, List.all_eq_true, List.mem_range, Bool.and_eq_true,
    bne_iff_ne, ne_eq] at h
  simp only [List.mem_range'_1, Nat.zero_add] at hx hy
  by_contra hne
  rcases Nat.lt_or_gt_of_ne hne with hlt | hlt
  · exact (h y hy.2).2 x hlt hxy
  · exact (h x hx.2).2 y hlt hxy.symm

theorem spawnPipeline_tally {os : SpawnOs} {p : Pipeline} {s t : Shell} {o : Option Nat}
    (hw : s.reg.Wf) (ht : Tally s.reg s.livePids) (hfresh : os.freshPids s p.commands.length = true)
    (hnr : ∀ i < p.commands.length, ∀ b ∈ s.reg.jobList, ∀ k, s.reg.jobs b = some k →
      os.pid i ∉ k.members)
    (h : spawnPipeline os p s = .ok (t, o)) : Tally t.reg t.livePids ∧ Grows s.reg t.reg := by
  have hnew : ∀ n ≤ p.commands.length, ∀ q ∈ (List.range' 0 n).map os.pid, ∀ b ∈ s.reg.jobList,
      ∀ k, s.reg.jobs b = some k → q ∉ k.members := fun n hn q hq b hb k hk => by
    obtain ⟨i, hi, rfl⟩ := List.mem_map.1 hq
    simp only [List.mem_range'_1, Nat.zero_add] at hi
    exact hnr i (by omega) b hb k hk
  obtain ⟨hr0, -, -, hc0, -⟩ := makePipes_frame s (p.commands.length - 1)
  have hlp : (makePipes s (p.commands.length - 1)).1.livePids = s.livePids := by
    simp only [Shell.livePids, hc0]
  obtain ⟨n, hn, hlive, hdone⟩ := spawnStages_pids os p p.commands.length
    (makePipes s (p.commands.length - 1)).2 p.commands 0 0 (makePipes s (p.commands.length - 1)).1 []
  have hst := (spawnStages_frame os p p.commands.length (makePipes s (p.commands.length - 1)).2
    p.commands 0 0 (makePipes s (p.commands.length - 1)).1 []).1
  rw [hlp] at hlive
  rw [hr0] at hst
  cases he : spawnStages os p p.commands.length (makePipes s (p.commands.length - 1)).2 p.commands
    0 0 (makePipes s (p.commands.length - 1)).1 [] with
  | early s2 =>
    simp only [spawnPipeline, he, Except.ok.injEq, Prod.mk.injEq] at h
    obtain ⟨rfl, -⟩ := h
    simp only [he, StageEnd.shell] at hlive hst
    rw [hst, hlive]
    exact ⟨ht.grow (hnew n hn), .refl _⟩
  | failed s2 =>
    simp only [spawnPipeline, he, Except.ok.injEq, Prod.mk.injEq] at h
    obtain ⟨rfl, -⟩ := h
    simp only [he, StageEnd.shell] at hlive hst
    dsimp only [closePipes, Shell.print, Shell.giveTerminalBack, Shell.termstateSample,
      Shell.livePids] at hlive ⊢
    rw [hst, hlive]
    exact ⟨ht.grow (hnew n hn), .refl _⟩
  | done s2 pids =>
    simp only [he, StageEnd.shell] at hlive hst
    obtain ⟨rfl, hpids⟩ := hdone s2 pids he
    rw [List.nil_append] at hpids
    subst hpids
    cases hadd : s2.reg.addJob p with
    | error => simp [spawnPipeline, he, hadd] at h
    | ok ra =>
      obtain ⟨r, a⟩ := ra
      cases hj : r.jobs a with
      | none => simp [spawnPipeline, he, hadd, hj] at h
      | some j =>
        obtain ⟨t', ht', hc, hreg⟩ := spawnPipeline_done he hadd hj
        rw [ht', Except.ok.injEq, Prod.mk.injEq] at h
        obtain ⟨rfl, -⟩ := h
        rw [hst] at hadd
        rw [hreg, show t'.livePids = s2.livePids by simp only [Shell.livePids, hc], hlive]
        exact ⟨ht.addJob hadd hj (by simp) (SpawnOs.freshPids_nodup hfresh)
          (hnew _ le_rfl) (by split <;> decide), Grows.addJob hw hadd _⟩

/-! ## Every step of a run without pid reuse -/

/-- The invariant of the job counts: the tally of the unreaped children, and `wait_for_job`
waiting only on a listed job with a member alive. -/
structure MembersInv (s : Shell) : Prop where
  tally : Tally s.reg s.livePids
  waiting : ∀ a ps, s.phase = .waiting a ps →
    a ∈ s.reg.jobList ∧ ∃ j, s.reg.jobs a = some j ∧ 0 < j.numProcessesAlive

theorem waitLoop_members {t s' : Shell} {a : Nat} {ps : List Pipeline} (hw : t.reg.Wf)
    (ha : a ∈ t.reg.jobList) (ht : Tally t.reg t.livePids) (h : waitLoop t a ps = .ok s') :
    MembersInv s' ∧ RemovesDead t.reg s'.reg s'.livePids := by
  unfold waitLoop at h
  obtain ⟨j, hj⟩ := hw.job_of_mem ha
  simp only [hj, deref_some, ok_bind] at h
  split at h
  · rename_i hcond
    cases h
    exact ⟨⟨ht, fun b qs hp => by cases hp; exact ⟨ha, j, hj, hcond.2⟩⟩,
      (Grows.refl _).removesDead _⟩
  · cases hf : finishWait t a with
    | error => simp [hf] at h
    | ok u =>
      simp only [hf, map_ok, Except.ok.injEq] at h
      subst h
      obtain ⟨j', hj', -, -, -, hc, hu⟩ := finishWait_ok hw ha hf
      have hlp : u.livePids = t.livePids := by simp only [Shell.livePids, hc]
      have hu' : Tally u.reg t.livePids ∧ RemovesDead t.reg u.reg t.livePids := by
        split at hu <;> rw [hu]
        · refine ⟨ht.dropJobs _, ht.removesDead_dropJobs fun b _ hb k hk => ?_⟩
          obtain rfl : b = a := by simpa using hb
          rw [hj'] at hk
          cases hk
          assumption
        · exact ⟨ht, (Grows.refl _).removesDead _⟩
      refine ⟨⟨?_, fun _ _ hp => by cases hp⟩, ?_⟩
      · show Tally u.reg u.livePids
        exact hlp ▸ hu'.1
      · show RemovesDead t.reg u.reg u.livePids
        exact hlp ▸ hu'.2

theorem runPipeline_members {s s' : Shell} {p : Pipeline} {ps : List Pipeline} {os : SpawnOs}
    {k : Int} (hw : s.reg.Wf) (ht : Tally s.reg s.livePids)
    (hfresh : os.freshPids s p.commands.length = true)
    (hnr : ∀ i < p.commands.length, ∀ b ∈ s.reg.jobList, ∀ k, s.reg.jobs b = some k →
      os.pid i ∉ k.members)
    (h : runPipeline s p ps os k = .ok s') :
    MembersInv s' ∧ RemovesDead s.reg s'.reg s'.livePids := by
  unfold runPipeline at h
  split at h
  · cases hf : s.reg.freeAllJobs <;> simp [hf] at h
  cases hb : checkForBuiltin { s with sigchldBlocked := true } p.first k with
  | error => simp [hb] at h
  | ok res =>
    simp only [hb, ok_bind] at h
    rcases checkForBuiltin_frame (s := { s with sigchldBlocked := true }) hw hb with
      ⟨t, rfl, hfr⟩ | ⟨t, a, rfl, hr, hg, hfr⟩ | rfl
    · cases h
      have hlp : t.livePids = s.livePids := by simp only [Shell.livePids, hfr.children]
      refine ⟨⟨?_, fun _ _ hp => by cases hp⟩, ?_⟩
      · show Tally t.reg t.livePids
        exact hlp ▸ hfr.tally _ ht
      · show RemovesDead s.reg t.reg t.livePids
        exact hlp ▸ hfr.removes _ ht
    · have hlp : t.livePids = s.livePids := by simp only [Shell.livePids, hfr.children]
      have hl := waitLoop_members hr.wf hr.listed (hlp ▸ hfr.tally _ ht) h
      exact ⟨hl.1, hg.trans_removesDead hl.2⟩
    cases hsp : spawnPipeline os p { s with sigchldBlocked := true } with
    | error => simp [hsp] at h
    | ok res =>
      obtain ⟨t, o⟩ := res
      simp only [hsp, ok_bind] at h
      obtain ⟨htt, hg⟩ :=
        spawnPipeline_tally (s := { s with sigchldBlocked := true }) hw ht hfresh hnr hsp
      rcases (spawnPipeline_ok (s := { s with sigchldBlocked := true }) hw hsp).2 with
        ⟨rfl, -⟩ | ⟨a, rfl, hr⟩
      · cases h
        exact ⟨⟨htt, fun _ _ hp => by cases hp⟩, hg.removesDead _⟩
      · have hl := waitLoop_members hr.wf hr.listed htt h
        exact ⟨hl.1, hg.trans_removesDead hl.2⟩

/-- The operating system gives no stage of the pipeline the shell runs next the pid of a member
of a listed job. -/
def NoPidReuse (s : Shell) : Event → Bool
  | .pipeline os _ => match s.phase with
    | .ready (p :: _) => (List.range p.commands.length).all fun i =>
        s.reg.jobList.all fun a => ((s.reg.jobs a).map (!·.hasPid (os.pid i))).getD true
    | _ => true
  | _ => true

/-! ## A reaped pid given to a new job -/

/-- `sleep 1 &` gets pid 100, exits, and the handler reaps it at the prompt: the job is `DONE`
and stays listed until `jobs`. `sleep 5` gets pid 100 again, and its exit is reaped in
`wait_for_job`. -/
def pidReuse : List Event :=
  [.command [line1 ["sleep", "1"] (by simp) true], .pipeline (okOs 100) 0, .reap 100 (.exited 0),
   .command [line1 ["sleep", "5"] (by simp) false], .pipeline (okOs 100) 0, .reap 100 (.exited 0)]

/-- `handle_child_status` gives the exit of pid 100 to the first listed job with that pid, the
old one, whose count drops to `-1`. The new job stays `FOREGROUND` with one member alive and no
child left, so `waitpid` fails and the shell ends in `utils_fatal_error`. -/
theorem pid_reuse_reaches_fatal_error :
    ∃ s, Reachable s ∧ s.children = [] ∧ 0 ∈ s.reg.jobList ∧
      (s.reg.jobs 0).map Job.numProcessesAlive = some (-1) ∧
      (s.reg.jobs 1).map (fun j => (j.status, j.numProcessesAlive)) = some (.foreground, 1) ∧
      step s .waitFails = some (.error .fatalError) :=
  ⟨_, run_reachable shell0_reachable (show run shell0 pidReuse = some (.ok _) from rfl), rfl,
    by decide, by decide, by decide, rfl⟩

theorem NoPidReuse.pipeline {s : Shell} {os : SpawnOs} {k : Int} {p : Pipeline}
    {ps : List Pipeline} (hp : s.phase = .ready (p :: ps))
    (h : NoPidReuse s (.pipeline os k) = true) :
    ∀ i < p.commands.length, ∀ a ∈ s.reg.jobList, ∀ j, s.reg.jobs a = some j →
      os.pid i ∉ j.members := fun i hi a ha j hj hm => by
  simp only [NoPidReuse, hp, List.all_eq_true, List.mem_range] at h
  simpa [hj, (Job.hasPid_iff j _).2 hm] using h i hi a ha

/-- One step without pid reuse keeps the invariant of the job counts, and removes only jobs
with no member alive. -/
theorem step_members {s s' : Shell} {e : Event} (hw : s.reg.Wf) (hi : MembersInv s)
    (hn : NoPidReuse s e = true) (h : step s e = some (.ok s')) :
    MembersInv s' ∧ RemovesDead s.reg s'.reg s'.livePids := by
  cases e with
  | command line =>
    simp only [step] at h
    split at h
    · cases hc : promptChecks s with
      | error => simp [hc] at h
      | ok u =>
        simp only [hc, map_ok, Option.some.injEq, Except.ok.injEq] at h
        subst h
        obtain ⟨h1, -, -, -, h2⟩ := promptChecks_ok hc
        have hlp : u.livePids = s.livePids := by simp only [Shell.livePids, h2]
        refine ⟨⟨?_, fun _ _ hp => by cases hp⟩, ?_⟩
        · show Tally u.reg u.livePids
          rw [h1, hlp]
          exact hi.tally
        · show RemovesDead s.reg u.reg u.livePids
          rw [h1]
          exact (Grows.refl _).removesDead _
    · cases h
  | eof =>
    simp only [step] at h
    split at h
    · cases hc : promptChecks s <;> simp [hc] at h
    · cases h
  | pipeline os k =>
    simp only [step] at h
    split at h
    · rename_i p ps hp
      split at h
      · exact runPipeline_members hw hi.tally ‹_› (NoPidReuse.pipeline hp hn) (Option.some.inj h)
      · cases h
    · cases h
  | reap pid st =>
    simp only [step] at h
    split at h
    · rename_i hany
      have hl : pid ∈ s.livePids := by
        obtain ⟨c, hc, hcp⟩ := List.any_eq_true.1 hany
        exact List.mem_map.2 ⟨c, hc, by simpa using hcp⟩
      split at h
      · rename_i a ps hp
        cases hc : handleChildStatus (s.reapChild pid st) pid st with
        | error => simp [hc] at h
        | ok u =>
          simp only [hc, ok_bind, Option.some.injEq] at h
          obtain ⟨hcalm, hjl, -⟩ := handleChildStatus_calm (by simpa using hw) hc
          rw [Shell.reapChild_reg] at hcalm hjl
          have hwl := waitLoop_members hcalm.wf (hjl ▸ (hi.waiting a ps hp).1)
            (handleChildStatus_tally hi.tally hl hc) h
          exact ⟨hwl.1, (Shell.reapChild_reg s pid st ▸ handleChildStatus_grows hc).trans_removesDead
            hwl.2⟩
      · rename_i ps hp
        split at h
        · cases h
        · have hc := Option.some.inj h
          obtain ⟨-, -, hph⟩ := handleChildStatus_calm (by simpa using hw) hc
          refine ⟨⟨handleChildStatus_tally hi.tally hl hc, fun a qs hq => ?_⟩,
            (Shell.reapChild_reg s pid st ▸ handleChildStatus_grows hc).removesDead _⟩
          rw [hph, Shell.reapChild_phase, hp] at hq
          cases hq
    · cases h
  | waitFails =>
    simp only [step] at h
    split at h
    · split at h <;> cases h
    · cases h

/-- The states of the runs in which the operating system never gives a new child the pid of a
member of a listed job. -/
inductive FreshReachable : Shell → Prop
  | init (pgrp : Int) (fds : FdTable) (tty : Nat) : FreshReachable (Shell.init pgrp fds tty)
  | step {s s' : Shell} (e : Event) : FreshReachable s → NoPidReuse s e = true →
      step s e = some (.ok s') → FreshReachable s'

namespace FreshReachable

theorem reachable {s : Shell} (hs : FreshReachable s) : Reachable s := by
  induction hs with
  | init => exact .init _ _ _
  | step e _ _ h ih => exact .step e ih h

theorem members_inv {s : Shell} (hs : FreshReachable s) : MembersInv s := by
  induction hs with
  | init => exact ⟨⟨nofun, nofun, nofun, nofun⟩, fun _ _ hp => by cases hp⟩
  | step e hs hn h ih => exact (step_members (reachable_inv hs.reachable).1 ih hn h).1

end FreshReachable

/-! ## What the invariant gives -/

theorem waitLoop_isOk {t : Shell} {a : Nat} (ps : List Pipeline) (hw : t.reg.Wf)
    (ha : a ∈ t.reg.jobList) : ∃ s', waitLoop t a ps = .ok s' := by
  obtain ⟨j, hj⟩ := hw.job_of_mem ha
  unfold waitLoop finishWait
  simp only [hj, deref_some, ok_bind]
  split
  · exact ⟨_, rfl⟩
  · by_cases hlt : j.numProcessesAlive < 1 <;>
      simp [hlt, apply_ite Shell.reg, deleteJob_unlink hw ha]

theorem sleepAfterDone_fresh : FreshReachable sleepAfterDoneShell :=
  .step (.pipeline (okOs 101) 0) (.step (.command [sleepFive]) (.step (.reap 100 (.exited 0))
    (.step (.pipeline (okOs 100) 0) (.step (.command [sleepOneBg]) (.init 10 stdFds 0) rfl rfl)
      rfl rfl) rfl rfl) rfl rfl) rfl rfl

/-- On a run without pid reuse, each listed job's `num_processes_alive` is the number of its
members the operating system has not reaped, a `DONE` or `TERMINATED` job has no member left
unreaped, and `handle_child_status` finds each member's own job. -/
theorem FreshReachable.alive_counts {s : Shell} (hs : FreshReachable s) :
    ∀ a ∈ s.reg.jobList, ∀ j, s.reg.jobs a = some j →
      j.numProcessesAlive = (j.members.countP (· ∈ s.livePids) : Int) ∧
      (j.finished = true → ∀ m ∈ j.members, m ∉ s.livePids) ∧
      ∀ pid ∈ j.members, s.reg.jobOfPid pid = some a := by
  intro a ha j hj
  have ht := hs.members_inv.tally
  refine ⟨ht.count a ha j hj, fun hf m hm hl => ?_, fun pid hp => ht.jobOfPid_eq ha hj hp⟩
  have hpos : 0 < j.members.countP (· ∈ s.livePids) :=
    List.countP_pos_iff.2 ⟨m, hm, by simpa using hl⟩
  have hc := ht.count a ha j hj
  have h0 := ht.finished a ha j hj hf
  omega

theorem alive_counts_after_done : FreshReachable sleepAfterDoneShell ∧
    ∀ a ∈ sleepAfterDoneShell.reg.jobList, ∀ j, sleepAfterDoneShell.reg.jobs a = some j →
      j.numProcessesAlive = (j.members.countP (· ∈ sleepAfterDoneShell.livePids) : Int) ∧
      (j.finished = true → ∀ m ∈ j.members, m ∉ sleepAfterDoneShell.livePids) ∧
      ∀ pid ∈ j.members, sleepAfterDoneShell.reg.jobOfPid pid = some a :=
  ⟨sleepAfterDone_fresh, FreshReachable.alive_counts sleepAfterDone_fresh⟩

/-- On a run without pid reuse, the `waitpid` of `wait_for_job` always has a child to wait for:
its failure branch, `utils_fatal_error`, is never taken. -/
theorem FreshReachable.waitFails_none {s : Shell} (hs : FreshReachable s) :
    Cush.step s .waitFails = none := by
  have hi := hs.members_inv
  simp only [Cush.step]
  split
  · rename_i a ps hp
    obtain ⟨ha, j, hj, hpos⟩ := hi.waiting a ps hp
    have hc := hi.tally.count a ha j hj
    -- a member of the job waited on is alive, so the shell has a child
    obtain ⟨m, -, hm⟩ := List.countP_pos_iff.1 (by omega : 0 < j.members.countP (· ∈ s.livePids))
    have hne : s.children ≠ [] := fun h0 => by simp [Shell.livePids, h0] at hm
    simp [List.isEmpty_iff, hne]
  · rfl

theorem waitFails_none_after_done :
    FreshReachable sleepAfterDoneShell ∧ step sleepAfterDoneShell .waitFails = none :=
  ⟨sleepAfterDone_fresh, FreshReachable.waitFails_none sleepAfterDone_fresh⟩

/-- On a run without pid reuse, a step takes a job off `job_list` (and `delete_job` frees it) only
once the operating system has reaped every member of the job: what `delete_job` asks of its
callers. -/
theorem FreshReachable.removes_only_reaped {s s' : Shell} {e : Event} (hs : FreshReachable s)
    (hn : NoPidReuse s e = true) (h : Cush.step s e = some (.ok s')) :
    ∀ a ∈ s.reg.jobList, a ∉ s'.reg.jobList → ∀ j, s.reg.jobs a = some j →
      ∀ m ∈ j.members, m ∉ s'.livePids :=
  (step_members (reachable_inv hs.reachable).1 hs.members_inv hn h).2

/-- `sleep 5` exits, and `wait_for_job` deletes its job. -/
def sleepFiveDoneShell : Shell :=
  match step sleepAfterDoneShell (.reap 101 (.exited 0)) with
  | some (.ok s) => s
  | _ => shell0

theorem removes_only_reaped_sleep_five : FreshReachable sleepAfterDoneShell ∧
    NoPidReuse sleepAfterDoneShell (.reap 101 (.exited 0)) = true ∧
    step sleepAfterDoneShell (.reap 101 (.exited 0)) = some (.ok sleepFiveDoneShell) ∧
    1 ∈ sleepAfterDoneShell.reg.jobList ∧ 1 ∉ sleepFiveDoneShell.reg.jobList ∧
    ∀ a ∈ sleepAfterDoneShell.reg.jobList, a ∉ sleepFiveDoneShell.reg.jobList →
      ∀ j, sleepAfterDoneShell.reg.jobs a = some j → ∀ m ∈ j.members,
        m ∉ sleepFiveDoneShell.livePids :=
  ⟨sleepAfterDone_fresh, rfl, rfl, by decide, by decide,
    @FreshReachable.removes_only_reaped _ _ (.reap 101 (.exited 0)) sleepAfterDone_fresh rfl rfl⟩

/-- On every run, a report from `waitpid` halts the shell only when `handle_child_status` finds
no job for the pid, and then by reading through NULL: with a job found, the update, the rest of
`wait_for_job` and `delete_job` all succeed. -/
theorem reap_halts_only_unclaimed {s : Shell} (hs : Reachable s) {pid : Int} {st : WaitStatus}
    {e : Halt} (h : step s (.reap pid st) = some (.error e)) :
    s.reg.jobOfPid pid = none ∧ e = .nullDeref := by
  obtain ⟨hw, hi⟩ := reachable_inv hs
  simp only [step] at h
  split at h
  · cases hf : s.reg.jobOfPid pid with
    | none =>
      have hh : handleChildStatus (s.reapChild pid st) pid st = .error .nullDeref := by
        simp [handleChildStatus, hf]
      refine ⟨rfl, ?_⟩
      split at h
      · rw [hh] at h
        simpa using h.symm
      · split at h
        · cases h
        · rw [hh] at h
          simpa using h.symm
    | some a =>
      obtain ⟨-, j, hj, -⟩ := jobOfPid_spec hf
      obtain ⟨u, hu⟩ : ∃ u, handleChildStatus (s.reapChild pid st) pid st = .ok u := by
        simp [handleChildStatus, hf, hj]
      split at h
      · rename_i b ps hp
        obtain ⟨hcalm, hjl, -⟩ := handleChildStatus_calm (by simpa using hw) hu
        rw [Shell.reapChild_reg] at hcalm hjl
        obtain ⟨v, hv⟩ := waitLoop_isOk ps hcalm.wf (hjl ▸ (hi.waiting hp).1)
        rw [hu, ok_bind, hv] at h
        cases h
      · split at h
        · cases h
        · rw [hu] at h
          cases h
  · cases h

/-- `sleep 1 | nosuch` with `posix_spawnp` failing for `nosuch`: the sleep runs on with no job. -/
def orphanShell : Shell :=
  match run shell0 [.command [sleepIntoNosuch], .pipeline spawnpFailsAt1 0] with
  | some (.ok s) => s
  | _ => shell0

theorem orphanShell_reachable : Reachable orphanShell :=
  run_reachable shell0_reachable
    (show run shell0 [.command [sleepIntoNosuch], .pipeline spawnpFailsAt1 0] =
      some (.ok orphanShell) from rfl)

theorem orphan_reap_halts : Reachable orphanShell ∧
    step orphanShell (.reap 100 (.exited 0)) = some (.error .nullDeref) ∧
    orphanShell.reg.jobOfPid 100 = none :=
  ⟨orphanShell_reachable, rfl,
    (@reap_halts_only_unclaimed _ orphanShell_reachable 100 (.exited 0) .nullDeref rfl).1⟩

end Cush
end SystemsLab
