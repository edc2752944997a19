import SystemsLab.Cush.Step

/-!
# Cush.Wiring

The process topology `iterate_over_pipeline` builds when every library call succeeds. The
`K - 1` pipes take free descriptors of the shell (`makePipes_spec`); the file actions of stage
`i` put the input file or the read end of pipe `i - 1` on 0, the write end of pipe `i` or the
output file on 1, and a copy of 1 on 2 when the stage merges them (`stageActs_run`); the loop
spawns the stages in order, each in the process group of the first (`spawnStages_ok`).
`spawnPipeline_wiring` puts these together for a whole pipeline: what each child starts with
after `exec` drops the close-on-exec descriptors, and the job that records the children. Each
`open` of a redirection makes a new open file description, numbered from the table's count, and
`dup2` shares it, so a merged stderr is the very description of stdout.

When a call fails the loop does not clean up: `spawn_failure_leaks`.
-/

namespace SystemsLab
namespace Cush

/-! ## File actions -/

theorem runActions_append (t : FdTable) (l₁ l₂ : List FileAction) :
    runActions t (l₁ ++ l₂) = (runActions t l₁).bind (runActions · l₂) := by
  induction l₁ generalizing t with
  | nil => rfl
  | cons a l ih =>
    simp only [List.cons_append, runActions]
    cases a.run t <;> simp [ih]

/-! ## `pipe2` -/

theorem makePipes_pipeCount (s : Shell) : ∀ n, (makePipes s n).1.pipeCount = s.pipeCount + n
  | 0 => rfl
  | n + 1 => by simp only [makePipes, makePipes_pipeCount s n]; omega

theorem makePipes_opened (s : Shell) : ∀ n, (makePipes s n).1.fds.opened = s.fds.opened
  | 0 => rfl
  | n + 1 => makePipes_opened s n

theorem makePipes_length (s : Shell) : ∀ n, (makePipes s n).2.length = n
  | 0 => rfl
  | n + 1 => by simp [makePipes, makePipes_length s n]

/-- `pipe2` takes, for pipe `j`, two descriptors free in the shell's table and puts the ends of
pipe `pipeCount + j` there, close-on-exec; a descriptor in use keeps its file, and every
descriptor it adds is a pipe end marked close-on-exec. -/
theorem makePipes_spec (s : Shell) : ∀ n : Nat,
    (∀ j < n, let rw := (makePipes s n).2.getD j (0, 0)
      (makePipes s n).1.fds.getEntry rw.1 = some ⟨.pipeRead (s.pipeCount + j), true⟩ ∧
      (makePipes s n).1.fds.getEntry rw.2 = some ⟨.pipeWrite (s.pipeCount + j), true⟩ ∧
      s.fds.getEntry rw.1 = none ∧ s.fds.getEntry rw.2 = none) ∧
    (∀ k, s.fds.getEntry k ≠ none → (makePipes s n).1.fds.getEntry k = s.fds.getEntry k) ∧
    (∀ k e, (makePipes s n).1.fds.getEntry k = some e →
      s.fds.getEntry k = some e ∨ e.cloexec = true ∧ e.file.isPipe = true)
  | 0 => ⟨fun j hj => absurd hj (Nat.not_lt_zero _), fun _ _ => rfl, fun _ _ h => .inl h⟩
  | n + 1 => by
    obtain ⟨h1, h2, h3⟩ := makePipes_spec s n
    have hlen := makePipes_length s n
    have hpc := makePipes_pipeCount s n
    simp only [makePipes]
    generalize makePipes s n = m at h1 h2 h3 hlen hpc
    obtain ⟨t, pipes⟩ := m
    simp only at h1 h2 h3 hlen hpc ⊢
    have hr := FdTable.getEntry_lowestFree t.fds
    generalize t.fds.lowestFree = r at hr ⊢
    have hw := FdTable.getEntry_lowestFree (t.fds.setEntry r (some ⟨.pipeRead t.pipeCount, true⟩))
    generalize (t.fds.setEntry r (some ⟨.pipeRead t.pipeCount, true⟩)).lowestFree = w at hw ⊢
    have hwr : w ≠ r := by
      rintro rfl; simp [FdTable.getEntry_setEntry] at hw
    -- the old ends are taken, so neither new end is one of them
    have tw : t.fds.getEntry w = none := by
      rwa [FdTable.getEntry_setEntry, if_neg hwr] at hw
    have hfresh : ∀ k, t.fds.getEntry k = none → s.fds.getEntry k = none := fun k hk => by
      by_contra h; rw [h2 k h] at hk; exact h hk
    have hold : ∀ k, t.fds.getEntry k ≠ none → k ≠ r ∧ k ≠ w := fun k hk =>
      ⟨by rintro rfl; exact hk hr, by
        rintro rfl
        rw [FdTable.getEntry_setEntry, if_neg hwr] at hw
        exact hk hw⟩
    refine ⟨fun j hj => ?_, fun k hk => ?_, fun k e he => ?_⟩
    · simp only [List.getD_eq_getElem?_getD] at h1 ⊢
      rcases Nat.lt_succ_iff_lt_or_eq.1 hj with hj | rfl
      · obtain ⟨e1, e2, e3, e4⟩ := h1 j hj
        rw [List.getElem?_append_left (by omega)]
        have n1 := hold _ (by rw [e1]; simp)
        have n2 := hold _ (by rw [e2]; simp)
        simp only [FdTable.getEntry_setEntry, n1.1, n1.2, n2.1, n2.2, if_false, e1, e2, e3, e4,
          and_self]
      · rw [List.getElem?_append_right (by omega), hlen, Nat.sub_self]
        simp only [List.getElem?_cons_zero, Option.getD_some, FdTable.getEntry_setEntry, hwr,
          Ne.symm hwr, if_true, if_false, hpc, hfresh r hr, hfresh w tw, and_self, and_true]
    · obtain ⟨n1, n2⟩ := hold k (by rwa [h2 k hk])
      simp only [FdTable.getEntry_setEntry, n1, n2, if_false, h2 k hk]
    · simp only [FdTable.getEntry_setEntry] at he
      split_ifs at he
      · cases he; exact .inr ⟨rfl, rfl⟩
      · cases he; exact .inr ⟨rfl, rfl⟩
      · exact h3 k e he

/-! ## One stage -/

theorem addopen_rdonly_cloexec : (oRdonly &&& oCloexec != 0) = false := by decide

theorem outputFlags_cloexec (p : Pipeline) : (outputFlags p &&& oCloexec != 0) = false := by
  unfold outputFlags; cases p.appendToOutput <;> decide

theorem fileRedirections_run (p : Pipeline) (K i : Nat) (d : Bool) (t : FdTable) :
    (fileRedirections (fun _ => 0) p K i d).1 = 0 ∧
    ∃ t1, runActions t (fileRedirections (fun _ => 0) p K i d).2 = some t1 ∧
      t1.getEntry 0 = (if i = 0 then p.ioredInput.elim (t.getEntry 0)
        (fun f => some ⟨.file t.opened f oRdonly 0, false⟩) else t.getEntry 0) ∧
      t1.getEntry 1 = (if i = K - 1 then p.ioredOutput.elim (t.getEntry 1)
        (fun f => some ⟨.file (t.opened + if i = 0 then p.ioredInput.elim 0 fun _ => 1 else 0)
          f (outputFlags p) outputMode, false⟩) else t.getEntry 1) ∧
      t1.getEntry 2 = (if i = K - 1 ∧ d = true then p.ioredOutput.elim (t.getEntry 2)
        (fun f => some ⟨.file (t.opened + if i = 0 then p.ioredInput.elim 0 fun _ => 1 else 0)
          f (outputFlags p) outputMode, false⟩) else t.getEntry 2) ∧
      ∀ n, 3 ≤ n → t1.getEntry n = t.getEntry n := by
  unfold fileRedirections
  by_cases hK : i = K - 1
  · subst hK
    cases hin : p.ioredInput <;> cases hout : p.ioredOutput <;> by_cases h0 : K - 1 = 0 <;>
      cases d <;>
      simp only [hin, hout, h0, addAction, runActions, FileAction.run, FdTable.getEntry_setEntry,
        FdTable.getEntry_openAt, FdTable.openAt_opened, Nat.add_zero, addopen_rdonly_cloexec,
        outputFlags_cloexec, ↓reduceIte, and_self, and_false, true_and,
        Bool.false_eq_true, List.nil_append, List.singleton_append, List.cons_append,
        Option.bind_some, Option.some_bind, Option.map_some', Option.some.injEq, Option.elim_some,
        Option.elim_none, exists_eq_left', reduceCtorEq, Nat.zero_ne_one, Nat.reduceEqDiff,
        Nat.succ_ne_self, Nat.add_one_ne_zero, ite_eq_right_iff, implies_true] <;>
      exact fun n hn => by simp [show n ≠ 0 by omega, show n ≠ 1 by omega, show n ≠ 2 by omega]
  · by_cases h0 : i = 0
    · subst h0
      cases hin : p.ioredInput <;> cases hout : p.ioredOutput <;>
        simp only [hin, hout, hK, addAction, runActions, FileAction.run,
          FdTable.getEntry_setEntry, FdTable.getEntry_openAt, addopen_rdonly_cloexec, ↓reduceIte, and_self, false_and,
          true_and, List.nil_append, Option.bind_some, Option.some.injEq, Option.elim_some,
          Option.elim_none, exists_eq_left', Nat.succ_ne_self, Nat.add_one_ne_zero,
          ite_eq_right_iff, implies_true] <;>
        exact fun n hn => by simp [show n ≠ 0 by omega]
    · cases hin : p.ioredInput <;> cases hout : p.ioredOutput <;>
        simp only [hin, hout, h0, hK, runActions, ↓reduceIte, Option.some.injEq, and_self,
          false_and, exists_eq_left', implies_true]

theorem pipeRedirections_run (K i : Nat) (pipes : List (Nat × Nat)) (d : Bool)
    (acts : List FileAction) (t : FdTable) (pc : Nat) (hi : i < K)
    (hends : ∀ j, j + 1 < K →
      t.getEntry (pipes.getD j (0, 0)).1 = some ⟨.pipeRead (pc + j), true⟩ ∧
      t.getEntry (pipes.getD j (0, 0)).2 = some ⟨.pipeWrite (pc + j), true⟩ ∧
      3 ≤ (pipes.getD j (0, 0)).1 ∧ 3 ≤ (pipes.getD j (0, 0)).2) :
    (pipeRedirections (fun _ => 0) K i pipes d acts).1 = 0 ∧
    ∃ rest, (pipeRedirections (fun _ => 0) K i pipes d acts).2 = acts ++ rest ∧
      ∃ c, runActions t rest = some c ∧
        c.getEntry 0 = (if 0 < i then some ⟨.pipeRead (pc + (i - 1)), false⟩ else t.getEntry 0) ∧
        c.getEntry 1 = (if i + 1 < K then some ⟨.pipeWrite (pc + i), false⟩ else t.getEntry 1) ∧
        c.getEntry 2 = (if i + 1 < K ∧ d = true then some ⟨.pipeWrite (pc + i), false⟩
          else t.getEntry 2) ∧
        ∀ n, 3 ≤ n → c.getEntry n = t.getEntry n := by
  have hin : (1 < K ∧ 0 < i) ↔ 0 < i := ⟨fun h => h.2, fun h => ⟨by omega, h⟩⟩
  have hout : (1 < K ∧ i < K - 1) ↔ i + 1 < K := ⟨fun h => by omega, fun h => ⟨by omega, by omega⟩⟩
  unfold pipeRedirections
  simp only [hin, hout, addAction, if_true]
  by_cases h0 : 0 < i <;> by_cases hl : i + 1 < K
  · obtain ⟨r1, -, r3, -⟩ := hends (i - 1) (by omega)
    obtain ⟨-, w2, -, w4⟩ := hends i hl
    generalize pipes.getD (i - 1) (0, 0) = rd at r1 r3 ⊢
    generalize pipes.getD i (0, 0) = wr at w2 w4 ⊢
    cases d <;>
      simp only [hl, h0, r1, w2, show wr.2 ≠ 0 by omega, runActions, FileAction.run,
        FdTable.getEntry_setEntry, ↓reduceIte, and_self, and_false, true_and, Bool.false_eq_true,
        List.append_assoc, List.singleton_append, List.cons_append, List.append_cancel_left_eq,
        exists_eq_left', Option.map_some', Option.bind_some, Option.some_bind, Option.some.injEq,
        reduceCtorEq, Nat.zero_ne_one, Nat.reduceEqDiff, Nat.succ_ne_self, Nat.add_one_ne_zero] <;>
      exact fun n hn => by simp [show n ≠ 0 by omega, show n ≠ 1 by omega, show n ≠ 2 by omega]
  · obtain ⟨r1, -, r3, -⟩ := hends (i - 1) (by omega)
    generalize pipes.getD (i - 1) (0, 0) = rd at r1 r3 ⊢
    simp only [hl, h0, r1, runActions, FileAction.run, FdTable.getEntry_setEntry, ↓reduceIte,
      false_and, true_and, List.append_cancel_left_eq, exists_eq_left', Option.map_some',
      Option.bind_some, Option.some.injEq, Nat.succ_ne_self, Nat.add_one_ne_zero, ite_eq_right_iff]
    exact fun n hn => by simp [show n ≠ 0 by omega]
  · obtain ⟨-, w2, -, w4⟩ := hends i hl
    generalize pipes.getD i (0, 0) = wr at w2 w4 ⊢
    cases d <;>
      simp only [hl, h0, w2, runActions, FileAction.run, FdTable.getEntry_setEntry, ↓reduceIte,
        and_self, and_false, true_and, Bool.false_eq_true, List.append_assoc,
        List.singleton_append, List.append_cancel_left_eq, exists_eq_left', Option.map_some',
        Option.bind_some, Option.some_bind, Option.some.injEq, reduceCtorEq, Nat.zero_ne_one,
        Nat.reduceEqDiff, Nat.succ_ne_self, ite_eq_right_iff] <;>
      exact fun n hn => by simp [show n ≠ 1 by omega, show n ≠ 2 by omega]
  · simp only [hl, h0, runActions, ↓reduceIte, List.self_eq_append_right, false_and,
      exists_eq_left, Option.some.injEq, exists_eq_left', implies_true, and_self]

/-- The file actions of stage `i` when every call succeeds. -/
def stageActs (p : Pipeline) (K i : Nat) (pipes : List (Nat × Nat)) (cmd : Command) :
    List FileAction :=
  (pipeRedirections (fun _ => 0) K i pipes cmd.dupStderrToStdout
    (fileRedirections (fun _ => 0) p K i cmd.dupStderrToStdout).2).2

theorem stageSetup_ok {ret : SpawnCall → Nat} (hok : ∀ c, ret c = 0) (p : Pipeline) (K i : Nat)
    (pgid : Int) (pipes : List (Nat × Nat)) (cmd : Command) :
    ∃ flags,
      stageSetup ret p K i pgid pipes cmd = .ok (⟨flags, pgid⟩, stageActs p K i pipes cmd) := by
  obtain rfl : ret = fun _ => 0 := funext hok
  have h1 := (fileRedirections_run p K i cmd.dupStderrToStdout ⟨[], 0⟩).1
  have h2 : (pipeRedirections (fun _ => 0) K i (pipes) cmd.dupStderrToStdout
      (fileRedirections (fun _ => 0) p K i cmd.dupStderrToStdout).2).1 = 0 := by
    unfold pipeRedirections; split_ifs <;> rfl
  exact ⟨posixSpawnSetpgroup ||| posixSpawnSetsigmask |||
    (if !p.bgJob then posixSpawnTcsetpgroup else 0), by simp [stageSetup, h1, h2, stageActs]⟩

/-- The descriptors of stage `i` after its file actions: 0, 1 and 2 wired to the files and pipes
of the pipeline, or left as in the table; every higher descriptor as in the table. -/
theorem stageActs_run (p : Pipeline) (K i : Nat) (pipes : List (Nat × Nat)) (cmd : Command)
    (t : FdTable) (pc : Nat) (hi : i < K)
    (hends : ∀ j, j + 1 < K →
      t.getEntry (pipes.getD j (0, 0)).1 = some ⟨.pipeRead (pc + j), true⟩ ∧
      t.getEntry (pipes.getD j (0, 0)).2 = some ⟨.pipeWrite (pc + j), true⟩ ∧
      3 ≤ (pipes.getD j (0, 0)).1 ∧ 3 ≤ (pipes.getD j (0, 0)).2) :
    ∃ c, runActions t (stageActs p K i pipes cmd) = some c ∧
      c.getEntry 0 = (if 0 < i then some ⟨.pipeRead (pc + (i - 1)), false⟩ else
        p.ioredInput.elim (t.getEntry 0) (fun f => some ⟨.file t.opened f oRdonly 0, false⟩)) ∧
      c.getEntry 1 = (if i + 1 < K then some ⟨.pipeWrite (pc + i), false⟩ else
        p.ioredOutput.elim (t.getEntry 1)
          (fun f => some ⟨.file (t.opened + if i = 0 then p.ioredInput.elim 0 fun _ => 1 else 0)
            f (outputFlags p) outputMode, false⟩)) ∧
      c.getEntry 2 = (if cmd.dupStderrToStdout = true ∧ (i + 1 < K ∨ p.ioredOutput.isSome)
        then c.getEntry 1 else t.getEntry 2) ∧
      ∀ n, 3 ≤ n → c.getEntry n = t.getEntry n := by
  obtain ⟨-, t1, h1, f0, f1, f2, f3⟩ := fileRedirections_run p K i cmd.dupStderrToStdout t
  have hends1 : ∀ j, j + 1 < K →
      t1.getEntry (pipes.getD j (0, 0)).1 = some ⟨.pipeRead (pc + j), true⟩ ∧
      t1.getEntry (pipes.getD j (0, 0)).2 = some ⟨.pipeWrite (pc + j), true⟩ ∧
      3 ≤ (pipes.getD j (0, 0)).1 ∧ 3 ≤ (pipes.getD j (0, 0)).2 := fun j hj => by
    obtain ⟨e1, e2, e3, e4⟩ := hends j hj
    exact ⟨(f3 _ e3).trans e1, (f3 _ e4).trans e2, e3, e4⟩
  obtain ⟨-, rest, hrest, c, hc, c0, c1, c2, c3⟩ :=
    pipeRedirections_run K i pipes cmd.dupStderrToStdout
      (fileRedirections (fun _ => 0) p K i cmd.dupStderrToStdout).2 t1 pc hi hends1
  refine ⟨c, by rw [stageActs, hrest, runActions_append, h1]; exact hc, ?_, ?_, ?_,
    fun n hn => (c3 n hn).trans (f3 n hn)⟩
  · rw [c0, f0]
    by_cases h : 0 < i
    · simp [h]
    · simp [h, show i = 0 by omega]
  · rw [c1, f1]
    by_cases h : i + 1 < K
    · simp [h]
    · simp [h, show i = K - 1 by omega]
  · rw [c2, f2, c1, f1]
    by_cases h : i + 1 < K
    · cases cmd.dupStderrToStdout <;> simp [h, show i ≠ K - 1 by omega]
    · simp only [if_neg h, false_and, false_or, if_false]
      cases cmd.dupStderrToStdout <;> cases p.ioredOutput <;>
        simp [show i = K - 1 by omega, show K - 1 + 1 = K by omega]

/-- When every call succeeds and the file actions of every stage run, the loop spawns every
stage, each in the group of the first child it spawned. -/
theorem spawnStages_ok {os : SpawnOs} {p : Pipeline} {K : Nat} {pipes : List (Nat × Nat)}
    (hok : ∀ i c, os.ret i c = 0) :
    ∀ (cmds : List Command) (i : Nat) (pgid : Int) (s : Shell) (pids : List Int),
      (∀ j (h : j < cmds.length),
        (runActions s.fds (stageActs p K (i + j) pipes cmds[j])).isSome) →
      (if pgid = 0 then os.pid i else pgid) ≠ 0 →
      ∃ s' new, spawnStages os p K pipes cmds i pgid s pids = .done s' (pids ++ new.map Child.pid) ∧
        s'.children = s.children ++ new ∧ new.length = cmds.length ∧
        ∀ j (h : j < cmds.length), ∃ t,
          runActions s.fds (stageActs p K (i + j) pipes cmds[j]) = some t ∧
          new[j]? = some ⟨os.pid (i + j), if pgid = 0 then os.pid i else pgid, t.dropCloexec⟩
  | [], _, _, s, pids, _, _ =>
    ⟨s, [], by simp [spawnStages], by simp, rfl, fun j h => absurd h (Nat.not_lt_zero j)⟩
  | cmd :: rest, i, pgid, s, pids, hrun, hlead => by
    obtain ⟨flags, hset⟩ := stageSetup_ok (hok i) p K i pgid pipes cmd
    obtain ⟨t0, ht0⟩ := Option.isSome_iff_exists.1 (hrun 0 (Nat.succ_pos _))
    simp only [Nat.add_zero, List.getElem_cons_zero] at ht0
    have hspawn : posixSpawnp s.fds ⟨flags, pgid⟩ (stageActs p K i pipes cmd) (os.ret i .spawnp)
        (os.pid i) = some ⟨os.pid i, if pgid = 0 then os.pid i else pgid, t0.dropCloexec⟩ := by
      simp [posixSpawnp, ht0, hok]
    have hlead' : (if (if pgid = 0 then os.pid i else pgid) = 0 then os.pid (i + 1)
        else if pgid = 0 then os.pid i else pgid) = if pgid = 0 then os.pid i else pgid := by
      rw [if_neg hlead]
    obtain ⟨s', new, h1, h2, h3, h4⟩ := spawnStages_ok hok rest (i + 1)
      (if pgid = 0 then os.pid i else pgid)
      { s with
        children := s.children ++ [⟨os.pid i, if pgid = 0 then os.pid i else pgid, t0.dropCloexec⟩]
        termOwner := if (⟨flags, pgid⟩ : SpawnAttr).takesTerminal
          then (if pgid = 0 then os.pid i else pgid) else s.termOwner }
      (pids ++ [os.pid i])
      (fun j hj => by simpa [Nat.add_assoc, Nat.add_comm 1 j] using hrun (j + 1) (by simp; omega))
      (by rw [hlead']; exact hlead)
    rw [hlead'] at h4
    refine ⟨s', ⟨os.pid i, if pgid = 0 then os.pid i else pgid, t0.dropCloexec⟩ :: new, ?_, ?_,
      by simp [h3], fun j hj => ?_⟩
    · simp only [spawnStages, hset, hspawn]
      simpa using h1
    · simpa using h2
    · cases j with
      | zero => exact ⟨t0, by simpa using ht0, by simp⟩
      | succ j =>
        obtain ⟨t, ht, hn⟩ := h4 j (by simpa using hj)
        exact ⟨t, by simpa [Nat.add_assoc, Nat.add_comm 1 j] using ht,
          by simpa [Nat.add_assoc, Nat.add_comm 1 j] using hn⟩

/-! ## The pipeline -/

/-- The wiring of a pipeline: when every call succeeds, `iterate_over_pipeline` spawns its `K`
stages in order into the group of the first, registers one job with their pids in stage order,
and stage `i` starts with 0 on the input file (first stage) or the read end of pipe `i - 1`,
1 on the write end of pipe `i` or the output file (last stage), 2 on the file of 1 when it
merges them, the shell's own descriptors otherwise, and no other pipe descriptor. -/
theorem spawnPipeline_wiring (os : SpawnOs) (p : Pipeline) (s : Shell)
    (hok : ∀ i c, os.ret i c = 0) (hpid : os.freshPids s p.commands.length = true)
    (hstd : ∀ n < 3, ∃ f, s.fds.getEntry n = some ⟨f, false⟩)
    (hpipe : ∀ n e, s.fds.getEntry n = some e → e.file.isPipe = true → e.cloexec = true)
    (hdup : ∀ i (h : i < p.commands.length), p.commands[i].dupStderrToStdout = true →
      i + 1 < p.commands.length ∨ p.ioredOutput.isSome)
    (hfree : ∃ k, 0 < k ∧ k < maxJobs ∧ s.reg.jid2job k = none) :
    ∃ t o new job, spawnPipeline os p s = .ok (t, o) ∧ t.children = s.children ++ new ∧
      t.reg.jobs s.reg.nextAddr = some job ∧ s.reg.nextAddr ∈ t.reg.jobList ∧
      job.childPidArray = new.map Child.pid ∧ new.length = p.commands.length ∧
      ∀ i (h : i < p.commands.length), ∃ c, new[i]? = some c ∧ c.pid = os.pid i ∧
        c.pgid = os.pid 0 ∧
        c.fds.getEntry 0 = (if 0 < i then some ⟨.pipeRead (s.pipeCount + (i - 1)), false⟩ else
          p.ioredInput.elim (s.fds.getEntry 0)
            (fun f => some ⟨.file s.fds.opened f oRdonly 0, false⟩)) ∧
        c.fds.getEntry 1 = (if i + 1 < p.commands.length then
          some ⟨.pipeWrite (s.pipeCount + i), false⟩ else p.ioredOutput.elim (s.fds.getEntry 1)
            (fun f => some ⟨.file (s.fds.opened + if i = 0 then p.ioredInput.elim 0 fun _ => 1
              else 0) f (oCreat ||| oWronly ||| if p.appendToOutput then oAppend else oTrunc)
              outputMode, false⟩)) ∧
        c.fds.getEntry 2 = (if p.commands[i].dupStderrToStdout = true then c.fds.getEntry 1
          else s.fds.getEntry 2) ∧
        ∀ n e, 3 ≤ n → c.fds.getEntry n = some e → e.file.isPipe = false := by
  -- the pipes
  obtain ⟨hends, hocc, hkind⟩ := makePipes_spec s (p.commands.length - 1)
  obtain ⟨hreg, -, -, hch, -, -⟩ := makePipes_frame s (p.commands.length - 1)
  have hop := makePipes_opened s (p.commands.length - 1)
  generalize hm : makePipes s (p.commands.length - 1) = m at hends hocc hkind hreg hch hop
  have hlow : ∀ n < 3, m.1.fds.getEntry n = s.fds.getEntry n := fun n hn => by
    obtain ⟨f, hf⟩ := hstd n hn; exact hocc n (by simp [hf])
  have hends' : ∀ j, j + 1 < p.commands.length →
      m.1.fds.getEntry (m.2.getD j (0, 0)).1 = some ⟨.pipeRead (s.pipeCount + j), true⟩ ∧
      m.1.fds.getEntry (m.2.getD j (0, 0)).2 = some ⟨.pipeWrite (s.pipeCount + j), true⟩ ∧
      3 ≤ (m.2.getD j (0, 0)).1 ∧ 3 ≤ (m.2.getD j (0, 0)).2 := fun j hj => by
    obtain ⟨e1, e2, e3, e4⟩ := hends j (by omega)
    have hfree3 : ∀ n, s.fds.getEntry n = none → 3 ≤ n := fun n hn => by
      by_contra h
      obtain ⟨f, hf⟩ := hstd n (by omega)
      rw [hf] at hn; cases hn
    exact ⟨e1, e2, hfree3 _ e3, hfree3 _ e4⟩
  have hK : 0 < p.commands.length := List.length_pos.2 p.commands_ne
  have hpos : os.pid 0 ≠ 0 := by
    simp only [SpawnOs.freshPids, List.all_eq_true, List.mem_range, Bool.and_eq_true,
      decide_eq_true_eq] at hpid
    exact ne_of_gt (hpid 0 hK).1.1.1
  -- the loop spawns every stage
  have hstage := fun i (hi : i < p.commands.length) =>
    stageActs_run p p.commands.length i m.2 p.commands[i] m.1.fds s.pipeCount hi hends'
  obtain ⟨s', new, hloop, hch', hlen, hnewi⟩ :=
    @spawnStages_ok os p p.commands.length m.2 hok p.commands 0 0 m.1 []
      (fun j hj => by obtain ⟨c, hc, -⟩ := hstage j hj; simp [hc]) (by simpa using hpos)
  have hfr := spawnStages_frame os p p.commands.length m.2 p.commands 0 0 m.1 []
  rw [hloop] at hfr
  obtain ⟨hreg', -, -, -, -⟩ := hfr
  simp only [StageEnd.shell] at hreg'
  -- `add_job` finds a free id
  obtain ⟨i, hadd⟩ := Registry.addJob_ok_of_free p hfree
  obtain ⟨t, ht, htch, htreg⟩ := spawnPipeline_done (by rw [hm]; exact hloop)
    (by rw [hreg', hreg]; exact hadd) (Function.update_same _ _ _)
  refine ⟨t, _, new, _, ht, by rw [htch, hch', hch],
    by rw [htreg]; simp only [Registry.setJob_jobs, Function.update_same]; rfl,
    by rw [htreg]; simp, by simp, hlen, fun i hi => ?_⟩
  obtain ⟨tt, htt, hnew⟩ := hnewi i hi
  obtain ⟨c, hc, c0, c1, c2, c3⟩ := hstage i hi
  rw [Nat.zero_add, hc, Option.some.injEq] at htt
  subst htt
  refine ⟨_, hnew, by simp, by simp, ?_, ?_, ?_, ?_⟩
  · obtain ⟨f, hf⟩ := hstd 0 (by omega)
    rw [FdTable.getEntry_dropCloexec, c0, hlow 0 (by omega), hf]
    by_cases h : 0 < i <;> cases p.ioredInput <;> simp [h, hop]
  · obtain ⟨f, hf⟩ := hstd 1 (by omega)
    rw [FdTable.getEntry_dropCloexec, c1, hlow 1 (by omega), hf]
    by_cases h : i + 1 < p.commands.length <;> cases p.ioredOutput <;> simp [h, hop, outputFlags]
  · rw [FdTable.getEntry_dropCloexec, FdTable.getEntry_dropCloexec, c2, hlow 2 (by omega)]
    by_cases hd : p.commands[i].dupStderrToStdout = true
    · rw [if_pos ⟨hd, hdup i hi hd⟩, if_pos hd]
    · obtain ⟨f, hf⟩ := hstd 2 (by omega)
      rw [if_neg (fun h => hd h.1), if_neg hd, hf]
      rfl
  · intro n e hn he
    rw [FdTable.getEntry_dropCloexec, c3 n hn, Option.filter_eq_some] at he
    obtain ⟨he, hcl⟩ := he
    simp only [Option.mem_def, Bool.not_eq_true'] at he hcl
    by_contra hp
    rw [Bool.not_eq_false] at hp
    rcases hkind n e he with hs | ⟨hc, -⟩
    · rw [hpipe n e hs hp] at hcl; cases hcl
    · rw [hc] at hcl; cases hcl

/-- `cat < in 2>&1 | wc >> out`. -/
def catIntoWc : Pipeline :=
  ⟨[⟨["cat"], true, by simp⟩, ⟨["wc"], false, by simp⟩], some "in", some "out", true, false,
    by simp⟩

theorem spawnPipeline_wiring_catIntoWc :
    ∃ t o new job, spawnPipeline (okOs 100) catIntoWc shell0 = .ok (t, o) ∧
      t.children = shell0.children ++ new ∧
      t.reg.jobs shell0.reg.nextAddr = some job ∧ shell0.reg.nextAddr ∈ t.reg.jobList ∧
      job.childPidArray = new.map Child.pid ∧ new.length = catIntoWc.commands.length ∧
      ∀ i (h : i < catIntoWc.commands.length), ∃ c, new[i]? = some c ∧ c.pid = (okOs 100).pid i ∧
        c.pgid = (okOs 100).pid 0 ∧
        c.fds.getEntry 0 = (if 0 < i then some ⟨.pipeRead (shell0.pipeCount + (i - 1)), false⟩
          else catIntoWc.ioredInput.elim (shell0.fds.getEntry 0)
            (fun f => some ⟨.file shell0.fds.opened f oRdonly 0, false⟩)) ∧
        c.fds.getEntry 1 = (if i + 1 < catIntoWc.commands.length then
          some ⟨.pipeWrite (shell0.pipeCount + i), false⟩
          else catIntoWc.ioredOutput.elim (shell0.fds.getEntry 1)
            (fun f => some ⟨.file (shell0.fds.opened + if i = 0 then
              catIntoWc.ioredInput.elim 0 fun _ => 1 else 0) f
              (oCreat ||| oWronly ||| if catIntoWc.appendToOutput then oAppend else oTrunc)
              outputMode, false⟩)) ∧
        c.fds.getEntry 2 = (if catIntoWc.commands[i].dupStderrToStdout = true then
          c.fds.getEntry 1 else shell0.fds.getEntry 2) ∧
        ∀ n e, 3 ≤ n → c.fds.getEntry n = some e → e.file.isPipe = false :=
  spawnPipeline_wiring (okOs 100) catIntoWc shell0 (fun _ _ => rfl) (by decide)
    (fun | 0, _ => ⟨_, rfl⟩ | 1, _ => ⟨_, rfl⟩ | 2, _ => ⟨_, rfl⟩)
    (fun | 0, _, h, hp | 1, _, h, hp | 2, _, h, hp => by cases h; cases hp
         | _ + 3, _, h, _ => by cases h)
    (by decide) ⟨1, by decide, by decide, rfl⟩

/-! ## Failures inside the spawn loop -/

/-- `posix_spawnattr_init` fails (ENOMEM, 12) at every stage. -/
def attrInitFails : SpawnOs := ⟨fun _ c => if c = .attrInit then 12 else 0, fun i => 100 + i⟩

/-- `posix_spawnp` fails (ENOENT, 2) for the second stage. -/
def spawnpFailsAt1 : SpawnOs :=
  ⟨fun i c => if i = 1 ∧ c = .spawnp then 2 else 0, fun i => 100 + i⟩

/-- `sleep 1 | nosuch`. -/
def sleepIntoNosuch : Pipeline :=
  ⟨[⟨["sleep", "1"], false, by simp⟩, ⟨["nosuch"], false, by simp⟩], none, none, false, false,
    by simp⟩

/-- After the early return the next prompt finds SIGCHLD blocked and fails its assertion. After
the failed `posix_spawnp` the first stage runs on with no job, and its exit, whatever it is,
reaches `handle_child_status`, which finds no job for it. -/
theorem spawn_failure_leaks :
    (∃ s, Reachable s ∧ s.phase = .ready [] ∧ s.sigchldBlocked = true ∧ s.reg.jobList = [] ∧
      ∀ line, step s (.command line) = some (.error .assertFailed)) ∧
    (∃ s, Reachable s ∧ s.phase = .ready [] ∧ s.sigchldBlocked = false ∧ s.reg.jobList = [] ∧
      s.children.map Child.pid = [100] ∧ ∀ st, step s (.reap 100 st) = some (.error .nullDeref)) :=
  ⟨⟨_, run_reachable shell0_reachable (show run shell0
      [.command [line1 ["sleep", "5"] (by simp) false], .pipeline attrInitFails 0] =
      some (.ok _) from rfl), rfl, rfl, rfl, fun _ => rfl⟩,
   ⟨_, run_reachable shell0_reachable (show run shell0
      [.command [sleepIntoNosuch], .pipeline spawnpFailsAt1 0] = some (.ok _) from rfl),
      rfl, rfl, rfl, rfl, fun st => by cases st <;> rfl⟩⟩

end Cush
end SystemsLab
