import Mathlib.Data.List.Nodup
import SystemsLab.Cush.Job

/-!
# Cush.Registry

The job table: the job objects on the heap, the list `job_list` that iteration walks, and the
array `jid2job` that `get_job_from_jid` indexes. A job is identified by its address, so that
`job_list` and `jid2job` can hold the same job, and a write through either is seen by both.

`Wf` is the invariant that keeps the two indexes in agreement: every listed job has an id in
`[1, MAXJOBS)` under which `jid2job` holds it, and `jid2job` holds only listed jobs, under their
own ids. The operations that change the table keep it (`addJob_wf`, `setJob_wf`,
`deleteJob_unlink_wf`). From it:

* `jobWithJid_eq_getJobFromJid`: the list scan and the array lookup agree on every `int` id;
* `addJob_least`: `add_job` gives the least positive id that no listed job holds;
* `printAllJobs_spec`: `print_all_jobs` prints every listed job once, in list order, and leaves
  the table with exactly its `DONE` and `TERMINATED` jobs removed.
-/

namespace SystemsLab
namespace Cush

/-- `MAXJOBS`. -/
def maxJobs : Nat := 65536

/-- The job heap (`jobs`, by address), `job_list` (addresses in list order), the array
`jid2job`, and the address the next `malloc` of a job returns. -/
structure Registry where
  jobs : Nat → Option Job
  jobList : List Nat
  jid2job : Nat → Option Nat
  nextAddr : Nat

namespace Registry

/-- The table after `list_init(&job_list)`, with `jid2job` zeroed as a static array. -/
def empty : Registry := ⟨fun _ => none, [], fun _ => none, 0⟩

/-- The id of the job at `a`. -/
def jidOf (r : Registry) (a : Nat) : Option Int := (r.jobs a).map Job.jid

/-- Whether the job at `a` is `DONE` or `TERMINATED`. -/
def isFinished (r : Registry) (a : Nat) : Bool := ((r.jobs a).map Job.finished).getD false

/-- `current_job->jid == jid`, for a job on `job_list`. -/
def hasJid (r : Registry) (jid : Int) (a : Nat) : Bool := r.jidOf a == some jid

/-- `get_job_from_jid`. -/
def getJobFromJid (r : Registry) (jid : Int) : Option Nat :=
  if 0 < jid ∧ jid < maxJobs then r.jid2job jid.toNat else none

/-- `job_with_jid`: the first job on `job_list` with id `jid`. -/
def jobWithJid (r : Registry) (jid : Int) : Option Nat := r.jobList.find? (r.hasJid jid)

/-- The loop of `add_job`: the first `i` in `[lo, lo + n)` with `jid2job[i] == NULL`. -/
def freeSlot (jid2job : Nat → Option Nat) : Nat → Nat → Option Nat
  | _, 0 => none
  | lo, n + 1 => if jid2job lo = none then some lo else freeSlot jid2job (lo + 1) n

/-- A job as `add_job` leaves it: `pipe`, `num_processes_alive = 0` and `jid` are written; the
fields `malloc` leaves indeterminate get fixed values here, and `iterate_over_pipeline` writes
all of them but `saved_tty_state` (read only once `state_saved_previously` is set). -/
def freshJob (pipe : Pipeline) (jid : Nat) : Job := ⟨pipe, jid, .foreground, 0, 0, 0, [], false⟩

/-- `add_job`: push a new job to the back of `job_list`, then give it the lowest free id, or
`abort()` when all of `[1, MAXJOBS)` are taken. -/
def addJob (r : Registry) (pipe : Pipeline) : Except Halt (Registry × Nat) :=
  match freeSlot r.jid2job 1 (maxJobs - 1) with
  | some i => .ok (⟨Function.update r.jobs r.nextAddr (some (freshJob pipe i)),
      r.jobList ++ [r.nextAddr], Function.update r.jid2job i (some r.nextAddr), r.nextAddr + 1⟩,
      r.nextAddr)
  | none => .error .abort

/-- A write of the fields of the job at `a`. -/
def setJob (r : Registry) (a : Nat) (j : Job) : Registry :=
  { r with jobs := Function.update r.jobs a (some j) }

/-- `list_remove(&job->elem)`. -/
def unlink (r : Registry) (a : Nat) : Registry := { r with jobList := r.jobList.erase a }

/-- `delete_job`: clear the job's slot of `jid2job` (after writing `-1` to the id of the job
found there) and free the job. -/
def deleteJob (r : Registry) (a : Nat) : Except Halt Registry := do
  let job ← deref (r.jobs a)
  if job.jid = -1 then throw .assertFailed
  if ¬(0 ≤ job.jid ∧ job.jid < maxJobs) then throw .outOfBounds
  let b ← deref (r.jid2job job.jid.toNat)
  let jb ← deref (r.jobs b)
  let jobs := Function.update r.jobs b (some { jb with jid := -1 })
  pure { r with jobs := Function.update jobs a none,
                jid2job := Function.update r.jid2job job.jid.toNat none }

/-- The loop of `print_all_jobs` from element `e` on. `list_remove` returns the next element,
so the loop visits exactly the suffix of `job_list` it started from. -/
def printAllJobsFrom : List Nat → Registry → Except Halt (Registry × List String)
  | [], r => .ok (r, [])
  | a :: rest, r => do
    let job ← deref (r.jobs a)
    let r1 ← if job.finished then deleteJob (r.unlink a) a else pure r
    let (r2, out) ← printAllJobsFrom rest r1
    pure (r2, printJob job :: out)

/-- `print_all_jobs`: the table after the loop, and what it printed, one text per job. -/
def printAllJobs (r : Registry) : Except Halt (Registry × List String) :=
  printAllJobsFrom r.jobList r

/-- The loop of `free_all_jobs`. -/
def freeAllJobsFrom : List Nat → Registry → Except Halt Registry
  | [], r => .ok r
  | a :: rest, r => do freeAllJobsFrom rest (← deleteJob (r.unlink a) a)

def freeAllJobs (r : Registry) : Except Halt Registry := freeAllJobsFrom r.jobList r

@[simp] theorem setJob_jobs (r : Registry) (a : Nat) (j : Job) :
    (r.setJob a j).jobs = Function.update r.jobs a (some j) := rfl
@[simp] theorem setJob_jobList (r : Registry) (a : Nat) (j : Job) :
    (r.setJob a j).jobList = r.jobList := rfl
@[simp] theorem setJob_jid2job (r : Registry) (a : Nat) (j : Job) :
    (r.setJob a j).jid2job = r.jid2job := rfl
@[simp] theorem setJob_nextAddr (r : Registry) (a : Nat) (j : Job) :
    (r.setJob a j).nextAddr = r.nextAddr := rfl
@[simp] theorem unlink_jobs (r : Registry) (a : Nat) : (r.unlink a).jobs = r.jobs := rfl
@[simp] theorem unlink_jobList (r : Registry) (a : Nat) :
    (r.unlink a).jobList = r.jobList.erase a := rfl
@[simp] theorem unlink_jid2job (r : Registry) (a : Nat) : (r.unlink a).jid2job = r.jid2job := rfl
@[simp] theorem unlink_nextAddr (r : Registry) (a : Nat) :
    (r.unlink a).nextAddr = r.nextAddr := rfl

theorem ext {r s : Registry} (h1 : ∀ a, r.jobs a = s.jobs a) (h2 : r.jobList = s.jobList)
    (h3 : ∀ i, r.jid2job i = s.jid2job i) (h4 : r.nextAddr = s.nextAddr) : r = s := by
  cases r; cases s; simp only [mk.injEq]; exact ⟨funext h1, h2, funext h3, h4⟩

/-! ## The invariant -/

/-- `job_list` and `jid2job` agree, every job object is on `job_list`, and `malloc` returns
fresh addresses. -/
structure Wf (r : Registry) : Prop where
  nodup : r.jobList.Nodup
  listed : ∀ a ∈ r.jobList, ∃ i : Nat, 0 < i ∧ i < maxJobs ∧ r.jidOf a = some (i : Int) ∧
    r.jid2job i = some a
  indexed : ∀ i a, r.jid2job i = some a → a ∈ r.jobList ∧ r.jidOf a = some (i : Int)
  allocated : ∀ a, (r.jobs a).isSome → a ∈ r.jobList
  fresh : ∀ a, r.nextAddr ≤ a → r.jobs a = none

theorem empty_wf : empty.Wf :=
  ⟨List.nodup_nil, by simp [empty], by simp [empty], by simp [empty], by simp [empty]⟩

section Wf

variable {r : Registry} (hw : r.Wf)
include hw

theorem Wf.job_of_mem {a : Nat} (ha : a ∈ r.jobList) : ∃ j, r.jobs a = some j := by
  obtain ⟨i, -, -, hj, -⟩ := hw.listed a ha
  simp only [jidOf, Option.map_eq_some'] at hj
  obtain ⟨j, hj, -⟩ := hj
  exact ⟨j, hj⟩

theorem Wf.lt_nextAddr {a : Nat} (ha : a ∈ r.jobList) : a < r.nextAddr := by
  obtain ⟨j, hj⟩ := hw.job_of_mem ha
  by_contra h
  rw [hw.fresh a (Nat.le_of_not_lt h)] at hj
  cases hj

theorem Wf.jid_inj {a b : Nat} (ha : a ∈ r.jobList) (hb : b ∈ r.jobList)
    (h : r.jidOf a = r.jidOf b) : a = b := by
  obtain ⟨i, -, -, hi, hia⟩ := hw.listed a ha
  obtain ⟨k, -, -, hk, hkb⟩ := hw.listed b hb
  have : (i : Int) = k := Option.some.inj (hi.symm.trans (h.trans hk))
  rw [show i = k by exact_mod_cast this] at hia
  exact Option.some.inj (hia.symm.trans hkb)

theorem Wf.jid2job_iff (i a : Nat) :
    r.jid2job i = some a ↔ 0 < i ∧ i < maxJobs ∧ a ∈ r.jobList ∧ r.jidOf a = some (i : Int) := by
  constructor
  · intro h
    obtain ⟨ha, hj⟩ := hw.indexed i a h
    obtain ⟨k, hk0, hkm, hk, -⟩ := hw.listed a ha
    have : (k : Int) = i := Option.some.inj (hk.symm.trans hj)
    exact ⟨by omega, by omega, ha, hj⟩
  · rintro ⟨-, -, ha, hj⟩
    obtain ⟨k, -, -, hk, hka⟩ := hw.listed a ha
    have : (k : Int) = i := Option.some.inj (hk.symm.trans hj)
    rwa [show k = i by exact_mod_cast this] at hka

/-- The list scan `job_with_jid` and the array lookup `get_job_from_jid` agree on every id. -/
theorem jobWithJid_eq_getJobFromJid (jid : Int) : r.jobWithJid jid = r.getJobFromJid jid := by
  cases h : r.jobWithJid jid with
  | some a =>
    have ha := List.mem_of_find?_eq_some h
    have hj : r.jidOf a = some jid := by simpa [hasJid] using List.find?_some h
    obtain ⟨i, hi0, him, hi, hia⟩ := hw.listed a ha
    obtain rfl : (i : Int) = jid := Option.some.inj (hi.symm.trans hj)
    simp [getJobFromJid, hi0, him, hia]
  | none =>
    have hno := List.find?_eq_none.1 h
    unfold getJobFromJid
    split
    · rename_i hr
      cases hs : r.jid2job jid.toNat with
      | none => rfl
      | some a =>
        obtain ⟨ha, hj⟩ := hw.indexed _ a hs
        rw [Int.toNat_of_nonneg (Int.le_of_lt hr.1)] at hj
        exact absurd (by simp [hasJid, hj]) (hno a ha)
    · rfl

end Wf

/-! ## `add_job` -/

theorem freeSlot_spec {f : Nat → Option Nat} :
    ∀ {lo n i : Nat}, freeSlot f lo n = some i →
      lo ≤ i ∧ i < lo + n ∧ f i = none ∧ ∀ k, lo ≤ k → k < i → f k ≠ none
  | _, 0, _, h => by cases h
  | lo, n + 1, i, h => by
    simp only [freeSlot] at h
    split at h
    · cases h; exact ⟨le_rfl, by omega, ‹_›, fun k h1 h2 => by omega⟩
    · obtain ⟨h1, h2, h3, h4⟩ := freeSlot_spec h
      refine ⟨by omega, by omega, h3, fun k hk hki => ?_⟩
      rcases Nat.eq_or_lt_of_le hk with rfl | hk
      · assumption
      · exact h4 k hk hki

theorem freeSlot_eq_none {f : Nat → Option Nat} :
    ∀ {lo n : Nat}, freeSlot f lo n = none → ∀ k, lo ≤ k → k < lo + n → f k ≠ none
  | _, 0, _, k, h1, h2 => by omega
  | lo, n + 1, h, k, h1, h2 => by
    simp only [freeSlot] at h
    split at h
    · cases h
    · rcases Nat.eq_or_lt_of_le h1 with rfl | h1
      · assumption
      · exact freeSlot_eq_none h k h1 (by omega)

theorem addJob_eq {r : Registry} {p : Pipeline} {r' : Registry} {a : Nat}
    (h : r.addJob p = .ok (r', a)) : ∃ i, freeSlot r.jid2job 1 (maxJobs - 1) = some i ∧
      a = r.nextAddr ∧ r' = ⟨Function.update r.jobs a (some (freshJob p i)), r.jobList ++ [a],
        Function.update r.jid2job i (some a), a + 1⟩ := by
  unfold addJob at h
  split at h
  · cases h; exact ⟨_, ‹_›, rfl, rfl⟩
  · cases h

theorem addJob_wf {r : Registry} {p : Pipeline} {r' : Registry} {a : Nat} (hw : r.Wf)
    (h : r.addJob p = .ok (r', a)) : r'.Wf := by
  obtain ⟨i, hi, rfl, rfl⟩ := addJob_eq h
  obtain ⟨hi1, hi2, hfree, -⟩ := freeSlot_spec hi
  have hnew : r.nextAddr ∉ r.jobList := fun hm => (Nat.lt_irrefl _) (hw.lt_nextAddr hm)
  have hslot : ∀ b ∈ r.jobList, r.jidOf b ≠ some (i : Int) := fun b hb hj =>
    by rw [(hw.jid2job_iff i b).2 ⟨by omega, by omega, hb, hj⟩] at hfree; cases hfree
  refine ⟨?_, ?_, ?_, ?_, ?_⟩
  · exact List.nodup_append.2 ⟨hw.nodup, List.nodup_singleton _, by simpa using hnew⟩
  · intro b hb
    simp only [List.mem_append, List.mem_singleton] at hb
    rcases hb with hb | rfl
    · obtain ⟨k, hk0, hkm, hk, hkb⟩ := hw.listed b hb
      have hbn : b ≠ r.nextAddr := fun e => hnew (e ▸ hb)
      have hki : k ≠ i := fun e => hslot b hb (e ▸ hk)
      exact ⟨k, hk0, hkm, by simpa [jidOf, hbn] using hk,
        by simp [Function.update_noteq hki, hkb]⟩
    · exact ⟨i, by omega, by omega, by simp [jidOf, freshJob], by simp⟩
  · intro k b hkb
    by_cases hk : k = i
    · subst hk
      simp only [Function.update_same, Option.some.injEq] at hkb
      subst hkb
      simp [jidOf, freshJob]
    · simp only [Function.update_noteq hk] at hkb
      obtain ⟨hb, hj⟩ := hw.indexed k b hkb
      have hbn : b ≠ r.nextAddr := fun e => hnew (e ▸ hb)
      exact ⟨List.mem_append_left _ hb, by simpa [jidOf, hbn] using hj⟩
  · intro b hb
    by_cases hbn : b = r.nextAddr
    · simp [hbn]
    · exact List.mem_append_left _ (hw.allocated b (by simpa [hbn] using hb))
  · intro b hb
    have hbn : b ≠ r.nextAddr := by simp only at hb; omega
    simp only [Function.update_noteq hbn]
    exact hw.fresh b (by simp only at hb; omega)

/-- `add_job` gives the new job the least positive id that no listed job holds. -/
theorem addJob_least {r : Registry} {p : Pipeline} {r' : Registry} {a : Nat} (hw : r.Wf)
    (h : r.addJob p = .ok (r', a)) : ∃ i : Nat, r'.jidOf a = some (i : Int) ∧ 0 < i ∧
      (∀ b ∈ r.jobList, r.jidOf b ≠ some (i : Int)) ∧
      ∀ k : Nat, 0 < k → k < i → ∃ b ∈ r.jobList, r.jidOf b = some (k : Int) := by
  obtain ⟨i, hi, rfl, rfl⟩ := addJob_eq h
  obtain ⟨hi1, hi2, hfree, hbelow⟩ := freeSlot_spec hi
  refine ⟨i, by simp [jidOf, freshJob], by omega, fun b hb hj => ?_, fun k hk hki => ?_⟩
  · rw [(hw.jid2job_iff i b).2 ⟨by omega, by omega, hb, hj⟩] at hfree; cases hfree
  · obtain ⟨b, hb⟩ := Option.ne_none_iff_exists'.1 (hbelow k hk hki)
    exact ⟨b, ((hw.jid2job_iff k b).1 hb).2.2⟩

theorem addJob_ok_of_free {r : Registry} (p : Pipeline)
    (hfree : ∃ k, 0 < k ∧ k < maxJobs ∧ r.jid2job k = none) : ∃ i, r.addJob p =
      .ok (⟨Function.update r.jobs r.nextAddr (some (freshJob p i)), r.jobList ++ [r.nextAddr],
        Function.update r.jid2job i (some r.nextAddr), r.nextAddr + 1⟩, r.nextAddr) := by
  obtain ⟨k, hk0, hkm, hkf⟩ := hfree
  cases h : freeSlot r.jid2job 1 (maxJobs - 1) with
  | some i => exact ⟨i, by simp [addJob, h]⟩
  | none => exact absurd hkf (freeSlot_eq_none h k hk0 (by omega))

theorem addJob_abort {r : Registry} {p : Pipeline} (hw : r.Wf) (h : r.addJob p = .error .abort) :
    ∀ k : Nat, 0 < k → k < maxJobs → ∃ b ∈ r.jobList, r.jidOf b = some (k : Int) := by
  unfold addJob at h
  split at h
  · cases h
  · intro k hk hkm
    obtain ⟨b, hb⟩ := Option.ne_none_iff_exists'.1 (freeSlot_eq_none ‹_› k hk (by omega))
    exact ⟨b, ((hw.jid2job_iff k b).1 hb).2.2⟩

/-! ## Writes and `delete_job` -/

theorem setJob_wf {r : Registry} {a : Nat} {j : Job} (hw : r.Wf) (ha : a ∈ r.jobList)
    (hj : r.jidOf a = some j.jid) : (r.setJob a j).Wf := by
  have hjid : ∀ b, (r.setJob a j).jidOf b = r.jidOf b := fun b => by
    by_cases hb : b = a
    · subst hb; simpa [jidOf] using hj.symm
    · simp [jidOf, hb]
  refine ⟨hw.nodup, fun b hb => ?_, fun i b h => ?_, fun b hb => ?_, fun b hb => ?_⟩
  · rw [hjid]; exact hw.listed b hb
  · rw [hjid]; exact hw.indexed i b h
  · by_cases hba : b = a
    · exact hba ▸ ha
    · exact hw.allocated b (by simpa [hba] using hb)
  · have : b ≠ a := fun e => (Nat.lt_irrefl _) (Nat.lt_of_lt_of_le (hw.lt_nextAddr (e ▸ ha)) hb)
    simpa [this] using hw.fresh b hb

theorem deleteJob_eq {r : Registry} {a : Nat} {j : Job} {i : Nat} (hj : r.jobs a = some j)
    (hi : j.jid = i) (hi0 : 0 < i) (him : i < maxJobs) (hia : r.jid2job i = some a) :
    r.deleteJob a = .ok { r with jobs := Function.update r.jobs a none,
                                 jid2job := Function.update r.jid2job i none } := by
  have h1 : j.jid ≠ -1 := by omega
  have h2 : 0 ≤ j.jid ∧ j.jid < maxJobs := ⟨by omega, by rw [hi]; exact_mod_cast him⟩
  have h3 : j.jid.toNat = i := by omega
  simp [deleteJob, hj, h1, h2, h3, hia, Function.update_idem]

/-! ## Removing jobs -/

/-- The table with the jobs `d` selects unlinked from `job_list`, cleared from `jid2job` and
freed. Every removal of the shell has this shape. -/
def dropJobs (r : Registry) (d : Nat → Bool) : Registry :=
  ⟨fun a => if d a then none else r.jobs a, r.jobList.filter (fun a => !d a),
    fun i => (r.jid2job i).filter (fun a => !d a), r.nextAddr⟩

@[simp] theorem dropJobs_jobs (r : Registry) (d : Nat → Bool) (a : Nat) :
    (r.dropJobs d).jobs a = if d a then none else r.jobs a := rfl
@[simp] theorem dropJobs_jobList (r : Registry) (d : Nat → Bool) :
    (r.dropJobs d).jobList = r.jobList.filter (fun a => !d a) := rfl
@[simp] theorem dropJobs_jid2job (r : Registry) (d : Nat → Bool) (i : Nat) :
    (r.dropJobs d).jid2job i = (r.jid2job i).filter (fun a => !d a) := rfl
@[simp] theorem dropJobs_nextAddr (r : Registry) (d : Nat → Bool) :
    (r.dropJobs d).nextAddr = r.nextAddr := rfl

theorem dropJobs_congr {r : Registry} {d d' : Nat → Bool} (h : ∀ a, d a = d' a) :
    r.dropJobs d = r.dropJobs d' := by
  rw [funext h]

theorem dropJobs_dropJobs (r : Registry) (d d' : Nat → Bool) :
    (r.dropJobs d).dropJobs d' = r.dropJobs (fun a => d a || d' a) := by
  simp only [dropJobs, List.filter_filter, mk.injEq]
  refine ⟨funext fun a => ?_, List.filter_congr fun a _ => by cases d a <;> cases d' a <;> rfl,
    funext fun i => ?_, trivial⟩
  · by_cases h : d a <;> by_cases h' : d' a <;> simp [h, h']
  · cases r.jid2job i with
    | none => rfl
    | some a => cases h : d a <;> cases h' : d' a <;> simp [Option.filter_some, h, h']

theorem dropJobs_wf {r : Registry} (hw : r.Wf) (d : Nat → Bool) : (r.dropJobs d).Wf := by
  have hjid : ∀ a, d a = false → (r.dropJobs d).jidOf a = r.jidOf a := fun a ha => by
    simp [jidOf, ha]
  refine ⟨hw.nodup.filter _, fun a ha => ?_, fun i a h => ?_, fun a ha => ?_, fun a ha => ?_⟩
  · simp only [dropJobs_jobList, List.mem_filter, Bool.not_eq_true'] at ha
    obtain ⟨i, hi0, him, hi, hia⟩ := hw.listed a ha.1
    exact ⟨i, hi0, him, by rw [hjid a ha.2, hi], by simp [hia, Option.filter_some, ha.2]⟩
  · simp only [dropJobs_jid2job, Option.filter_eq_some, Option.mem_def,
      Bool.not_eq_true'] at h
    obtain ⟨ha, hd⟩ := h
    obtain ⟨hl, hj⟩ := hw.indexed i a ha
    exact ⟨by simp [hl, hd], by rw [hjid a hd, hj]⟩
  · cases hd : d a
    · simpa [hd] using hw.allocated a (by simpa [hd] using ha)
    · simp [hd] at ha
  · simp [hw.fresh a ha]

theorem deleteJob_unlink {r : Registry} {a : Nat} (hw : r.Wf) (ha : a ∈ r.jobList) :
    (r.unlink a).deleteJob a = .ok (r.dropJobs (· == a)) := by
  obtain ⟨i, hi0, him, hi, hia⟩ := hw.listed a ha
  obtain ⟨j, hj⟩ := hw.job_of_mem ha
  have hji : j.jid = i := by simpa [jidOf, hj] using hi
  rw [deleteJob_eq (r := r.unlink a) hj hji hi0 him hia]
  congr 1
  refine ext (fun b => ?_) (by rw [unlink_jobList, hw.nodup.erase_eq_filter]; rfl) (fun k => ?_) rfl
  · by_cases hb : b = a
    · subst hb; simp
    · simp [hb]
  · by_cases hk : k = i
    · subst hk; simp [hia, Option.filter_some]
    · simp only [unlink_jid2job, Function.update_noteq hk, dropJobs_jid2job]
      cases hs : r.jid2job k with
      | none => rfl
      | some b =>
        have hba : b ≠ a := fun e => hk (by
          have := (hw.indexed k b hs).2
          rw [e, hi] at this
          exact_mod_cast (Option.some.inj this).symm)
        simp [Option.filter_some, hba]

/-! ## `print_all_jobs` -/

theorem printAllJobsFrom_eq :
    ∀ (l : List Nat) (r : Registry), r.Wf → (∀ a ∈ l, a ∈ r.jobList) → l.Nodup →
      printAllJobsFrom l r =
        .ok (r.dropJobs (fun a => a ∈ l && r.isFinished a), (l.filterMap r.jobs).map printJob)
  | [], r, _, _, _ => by
    simp only [printAllJobsFrom, List.filterMap_nil, List.map_nil]
    congr
    refine ext (fun a => by simp) (by simp) (fun i => ?_) rfl
    cases h : r.jid2job i <;> simp [h, Option.filter_some]
  | a :: rest, r, hw, hl, hnd => by
    have ha := hl a (List.mem_cons_self a rest)
    have ha' : a ∉ rest := (List.nodup_cons.1 hnd).1
    obtain ⟨j, hj⟩ := hw.job_of_mem ha
    have hfin : r.isFinished a = j.finished := by simp [isFinished, hj]
    simp only [printAllJobsFrom, hj, deref_some, ok_bind, List.filterMap_cons, List.map_cons]
    cases hf : j.finished
    · simp only [Bool.false_eq_true, ite_false, pure_eq, ok_bind]
      rw [printAllJobsFrom_eq rest r hw (fun b hb => hl b (List.mem_cons_of_mem a hb))
        (List.nodup_cons.1 hnd).2]
      simp only [ok_bind, pure_eq, Except.ok.injEq, Prod.mk.injEq, and_true]
      exact dropJobs_congr fun b => by by_cases hb : b = a <;> simp [hb, hfin, hf]
    · simp only [ite_true, deleteJob_unlink hw ha, ok_bind]
      have hrest : ∀ b ∈ rest, b ≠ a := fun b hb e => ha' (e ▸ hb)
      rw [printAllJobsFrom_eq rest _ (dropJobs_wf hw _)
        (fun b hb => by simp [hl b (List.mem_cons_of_mem a hb), hrest b hb])
        (List.nodup_cons.1 hnd).2]
      simp only [ok_bind, pure_eq, Except.ok.injEq, Prod.mk.injEq, dropJobs_dropJobs]
      refine ⟨dropJobs_congr fun b => ?_, ?_⟩
      · by_cases hb : b = a
        · simp [hb, hfin, hf]
        · simp [hb, isFinished]
      · congr 2
        exact List.filterMap_congr fun b hb => by simp [hrest b hb]

theorem printAllJobs_eq {r : Registry} (hw : r.Wf) :
    r.printAllJobs = .ok (r.dropJobs r.isFinished, (r.jobList.filterMap r.jobs).map printJob) := by
  have hd : ∀ a, (a ∈ r.jobList && r.isFinished a) = r.isFinished a := fun a => by
    by_cases ha : a ∈ r.jobList
    · simp [ha]
    · have : r.jobs a = none := by
        by_contra h; exact ha (hw.allocated a (Option.ne_none_iff_isSome.1 h))
      simp [ha, isFinished, this]
  rw [printAllJobs, printAllJobsFrom_eq _ r hw (fun _ h => h) hw.nodup, dropJobs_congr hd]

theorem isFinished_eq (r : Registry) (a : Nat) :
    r.isFinished a = (r.jobs a).any fun j => j.status = .done || j.status = .terminated := by
  unfold isFinished
  cases r.jobs a <;> simp [Job.finished, Bool.or_comm]

/-- `print_all_jobs` prints every listed job once, in list order, as `print_job` prints it, and
leaves `job_list` with exactly its `DONE` and `TERMINATED` jobs removed, their `jid2job` slots
cleared and their objects freed; everything else is unchanged. -/
theorem printAllJobs_spec {r : Registry} (hw : r.Wf) :
    ∃ r', r.printAllJobs = .ok (r', (r.jobList.filterMap r.jobs).map fun j =>
        if j.status = .terminated then printErrorMessage j.terminationCode
        else if j.status = .done then "[" ++ toString j.jid ++ "]\tDone\n"
        else "[" ++ toString j.jid ++ "]\t" ++ getStatus j.status ++ "\t\t(" ++
          printCmdline j.pipe ++ ")\n") ∧
      r'.jobList = r.jobList.filter
        (fun a => !(r.jobs a).any fun j => j.status = .done || j.status = .terminated) ∧
      (∀ i, r'.jid2job i = (r.jid2job i).filter
        (fun a => !(r.jobs a).any fun j => j.status = .done || j.status = .terminated)) ∧
      (∀ a, r'.jobs a =
        if (r.jobs a).any (fun j => j.status = .done || j.status = .terminated) then none
        else r.jobs a) ∧ r'.Wf := by
  have hf : r.isFinished = fun a => (r.jobs a).any fun j =>
      j.status = .done || j.status = .terminated := funext (isFinished_eq r)
  have e := printAllJobs_eq hw
  rw [hf] at e
  exact ⟨_, e, rfl, fun _ => rfl, fun _ => rfl, dropJobs_wf hw _⟩

/-- `sleep 1 &`. -/
def sleepLine : Pipeline := ⟨[⟨["sleep", "1"], false, by simp⟩], none, none, false, true, by simp⟩

/-- Three jobs added to the empty table, the middle one then `DONE`. -/
def middleDone : Registry :=
  match (do
      let (r, _) ← empty.addJob sleepLine
      let (r, _) ← r.addJob sleepLine
      r.addJob sleepLine) with
  | .ok (r, _) => r.setJob 1 { freshJob sleepLine 2 with status := .done }
  | .error _ => empty

theorem middleDone_wf : middleDone.Wf :=
  setJob_wf (addJob_wf (addJob_wf (addJob_wf empty_wf rfl) rfl) rfl) (by decide) rfl

theorem printAllJobs_spec_middle_done : middleDone.Wf ∧
    ∃ r', middleDone.printAllJobs = .ok (r', (middleDone.jobList.filterMap middleDone.jobs).map
        fun j =>
        if j.status = .terminated then printErrorMessage j.terminationCode
        else if j.status = .done then "[" ++ toString j.jid ++ "]\tDone\n"
        else "[" ++ toString j.jid ++ "]\t" ++ getStatus j.status ++ "\t\t(" ++
          printCmdline j.pipe ++ ")\n") ∧
      r'.jobList = middleDone.jobList.filter
        (fun a => !(middleDone.jobs a).any fun j => j.status = .done || j.status = .terminated) ∧
      (∀ i, r'.jid2job i = (middleDone.jid2job i).filter
        (fun a => !(middleDone.jobs a).any fun j => j.status = .done || j.status = .terminated)) ∧
      (∀ a, r'.jobs a =
        if (middleDone.jobs a).any (fun j => j.status = .done || j.status = .terminated) then none
        else middleDone.jobs a) ∧ r'.Wf :=
  ⟨middleDone_wf, printAllJobs_spec middleDone_wf⟩

end Registry

end Cush
end SystemsLab
