import SystemsLab.Malloc.Alloc

/-!
# Malloc.Runs

The invariant over whole runs without `mm_realloc`. `mm_init` sets it up, and `mm_malloc` and
`mm_free` keep it together with the program's pointers, as long as the heap and the request fit
in `2^34` bytes: above that a block size reaches the sign bit of the `int` that
`set_header_and_footer` takes.

* `Heap.mmInit_tiling`: `mm_init` returning 0 leaves a heap with the invariant;
* `Client.Inv.malloc`, `Client.Inv.free`: one call keeps `Client.Inv`, does not fault, and
  leaves the bytes of every pointer still held as they were (`PayloadsKept`);
* `SmallRun.safe`: every state a program reaches from `mm_init` by `mm_malloc` and `mm_free` calls
  on a heap below `2^34` bytes satisfies `Client.Inv`, and its next call does not fault;
* `SmallRun.payloads_disjoint`: in such a state the payloads the program holds lie inside the
  heap and do not overlap;
* `SmallRun.payload_unchanged`: along such a run, no call changes the bytes of a pointer the
  program holds;
* `SmallRun.payload_aligned`: every block of such a state has an even number of words, so each
  payload is a multiple of `ALIGNMENT` bytes past the start of the heap.

`mm_realloc` is left out: `realloc_failure_strands_pointer` reaches a state outside `Client.Inv`
with one `mm_realloc` call whose `mm_malloc` fails.
-/

namespace SystemsLab
namespace Malloc

namespace Heap

variable {h : Heap}

/-- `mm_init` returning 0 leaves the invariant, with the one free block of `CHUNKSIZE` words that
`extend_heap` made, and `heap_listp` one word past the ten list headers it took from the
break. -/
theorem mmInit_tiling {ok : Nat → Bool} :
    Post (fun r : Heap × Int => r.2 = 0 →
      r.1.heapListp = h.brk + freeBlockListBytes * sizeClasses.length + wsize ∧
        ∃ ts, r.1.Tiling ts ∧ EvenSizes ts) (fun _ => True) (h.mmInit ok) := by
  unfold mmInit
  refine Post.bind (initLists_spec.imp (fun _ => id) fun _ _ => trivial) fun h1 e1 => ?_
  subst e1
  cases ok sizeClasses.length <;> simp only [memSbrk_true, memSbrk_false]
  · exact .ok (by simp)
  refine Post.ite (fun _ => .ok (by simp)) fun h0 => ?_
  cases ok (sizeClasses.length + 1)
  · rw [extendHeap_false]
    exact .ok (by simp)
  -- the heap `extend_heap` starts from has the fences and no block yet
  have hext : ∀ h5 : Heap, h5.Shaped → h5.tag (prevBlkFooter h5.heapListp) = fence →
      h5.brk = h5.heapListp + wsize → Listed h5.lists [] h5.blkSize →
      Post (fun r : Heap × Nat => r.2 ≠ 0 ∧ r.1.heapListp = h5.heapListp ∧
        ∃ ts, r.1.Tiling ts ∧ EvenSizes ts) (fun _ => True)
        (h5.extendHeap chunksize true) := fun h5 hs5 hpro hbrk hl => by
    obtain ⟨h', A, t, B, e, hti, -, -, hp', -, -, hev⟩ := @extendHeap_tiling h5 [] hs5 hpro trivial
      (by simpa using hbrk) trivial hl chunksize (by decide) (by decide)
    rw [e]
    exact .ok ⟨by have := hs5.2; simp only [wsize] at this ⊢; omega, hp', _, hti,
      hev nofun (by decide)⟩
  refine Post.bind (hext _ ?_ ?_ ?_ ⟨by simp, by simp [SizeClassed]⟩) fun r hr =>
    .ok fun _ => ⟨hr.2.1.trans ?_, hr.2.2⟩
  · simp only [shaped_setTag, shaped_mk, setTag_lists, List.nil_append, List.map_map]
    exact ⟨rfl, by simp only [wsize] at h0 ⊢; omega⟩
  · simp only [setTag_heapListp, prevBlkFooter, Nat.add_sub_cancel, tag_setTag_self]
  · simp only [setTag_brk, setTag_heapListp, wsize]
  · exact setTag_heapListp _ _ _

end Heap

/-! ## One call -/

theorem LiveIn.keep {h h' : Heap} {bs bs' : List Nat} {live live' : List (Nat × Nat)}
    (hl : LiveIn h bs live) (hsub : live'.Sublist live)
    (hk : ∀ p n, (p, n) ∈ live' → p - wsize ∈ bs' ∧ h'.tag (p - wsize) = h.tag (p - wsize)) :
    LiveIn h' bs' live' := by
  refine ⟨hl.1.sublist (hsub.map _), fun p n hp => ?_⟩
  obtain ⟨h8, -, hu, hroom⟩ := hl.2 p n (hsub.subset hp)
  obtain ⟨hb', ht'⟩ := hk p n hp
  exact ⟨h8, hb', by rw [ht']; exact hu, by rw [Heap.blkSize, ht']; exact hroom⟩

theorem LiveIn.payload_kept {h h' : Heap} {bs : List Nat} {live : List (Nat × Nat)}
    (hl : LiveIn h bs live) {p n : Nat} (hp : (p, n) ∈ live)
    (hm : ∀ x, p - wsize ≤ x → x < p - wsize + wsize * (h.tag (p - wsize)).size →
      h'.mem x = h.mem x) : ∀ x, p ≤ x → x < p + n → h'.mem x = h.mem x := fun x h1 h2 => by
  obtain ⟨h8, -, -, hroom⟩ := hl.2 p n hp
  rw [Heap.blkSize] at hroom
  exact hm x (by omega) (by omega)

theorem Client.inv_of_tiling {c : Client} (hs : c.heap.Shaped) {ts : List Tag}
    (ht : c.heap.Tiling ts) (hl : LiveIn c.heap (addrs c.heap.heapListp ts) c.live) : c.Inv :=
  ⟨_, (Heap.inv_iff_tiling _ hs).2 ⟨ts, ht, rfl⟩, hl⟩

/-- Across a call, each pointer the program holds before and after it keeps the bytes it asked
for. -/
def PayloadsKept (c c' : Client) : Prop :=
  ∀ p n, (p, n) ∈ c.live → (p, n) ∈ c'.live → ∀ x, p ≤ x → x < p + n → c'.heap.mem x = c.heap.mem x

/-- `mm_free` of a pointer the program holds, on a heap with the invariant below `2^34` bytes,
returns and keeps the invariant; the other pointers stay valid, with their bytes. -/
theorem Client.Inv.free {c : Client} (hi : c.Inv) (hs : c.heap.Shaped)
    (hroom : c.heap.brk - c.heap.heapListp ≤ 2 ^ 34) {p : Nat} (hp : c.Holds p) :
    ∃ c', c.step (.free p) = some (.ok c') ∧ c'.Inv ∧ PayloadsKept c c' := by
  obtain ⟨bs, hinv, hlive⟩ := hi
  obtain ⟨ts, ht, rfl⟩ := (Heap.inv_iff_tiling _ hs).1 hinv
  simp only [Client.step, if_pos hp]
  by_cases hp0 : p = 0
  · subst hp0
    refine ⟨⟨c.heap, c.live.filter (·.1 != 0)⟩, by rw [Heap.mmFree, if_pos rfl]; rfl,
      Client.inv_of_tiling hs ht ?_, fun _ _ _ _ _ _ _ => rfl⟩
    exact hlive.keep (List.filter_sublist _) fun p n hpn =>
      ⟨(hlive.2 p n (List.mem_filter.1 hpn).1).2.1, rfl⟩
  obtain ⟨n, hpn⟩ : ∃ n, (p, n) ∈ c.live := by
    simpa [Client.Holds, hp0] using hp
  obtain ⟨h8, hb, hu, -⟩ := hlive.2 p n hpn
  have hbrk := ht.framed.brk_eq
  obtain ⟨h', ts', e, hti, hp', -, hk, -⟩ := Heap.mmFree_tiling ht hs
    (by simp only [wsize] at hbrk hroom ⊢; omega) h8 hb hu
  -- a pointer still held after the call is not the one freed, so its block is kept
  have hkeep : ∀ p' n', (p', n') ∈ c.live → p' ≠ p → p' - wsize ∈ addrs h'.heapListp ts' ∧
      h'.tag (p' - wsize) = c.heap.tag (p' - wsize) ∧ ∀ x, p' - wsize ≤ x →
        x < p' - wsize + wsize * (c.heap.tag (p' - wsize)).size → h'.mem x = c.heap.mem x :=
    fun p' n' hpn' hne => by
      obtain ⟨h8', hb', hu', -⟩ := hlive.2 p' n' hpn'
      exact hk _ hb' (fun heq => hne (by simp only [wsize] at heq h8 h8'; omega)) hu'
  refine ⟨_, by rw [e]; rfl, Client.inv_of_tiling ((Heap.mmFree_shaped hs).of_eq_ok e) hti ?_,
    fun p' n' hpn' hpn'' => ?_⟩
  · refine hlive.keep (List.filter_sublist _) fun p' n' hpn' => ?_
    obtain ⟨hpn', hne⟩ := List.mem_filter.1 hpn'
    obtain ⟨hb', ht', -⟩ := hkeep p' n' hpn' (by simpa using hne)
    exact ⟨hb', ht'⟩
  · have hne : p' ≠ p := by simpa using (List.mem_filter.1 hpn'').2
    exact hlive.payload_kept hpn' (hkeep p' n' hpn' hne).2.2

/-- `mm_malloc(n)` on a heap with the invariant, when the heap and the request fit in `2^34`
bytes, returns and keeps the invariant: the pointers held stay valid, with their bytes, and a
pointer it returns is a new one, with room for `n` bytes. It returns NULL only for `n = 0` or a
failed `mem_sbrk`. -/
theorem Client.Inv.malloc {c : Client} (hi : c.Inv) (hs : c.heap.Shaped) {n : Nat} {ok : Bool}
    (hn : n < 2 ^ 64) (hroom : c.heap.brk - c.heap.heapListp + n + 2 ^ 14 ≤ 2 ^ 34) :
    ∃ c', c.step (.malloc n ok) = some (.ok c') ∧ c'.Inv ∧ PayloadsKept c c' ∧
      (0 < n → ok = true → ∃ q, q ≠ 0 ∧ c'.live = c.live ++ [(q, n)]) := by
  obtain ⟨bs, hinv, hlive⟩ := hi
  obtain ⟨ts, ht, rfl⟩ := (Heap.inv_iff_tiling _ hs).1 hinv
  obtain ⟨h', q, ts', e, hpost, -, hnull, -⟩ := @Heap.mmMalloc_tiling c.heap ts ht hs n ok hroom
  simp only [Client.step, if_pos hn, e]
  have hold : ∀ p m, (p, m) ∈ c.live → p - wsize ∈ addrs h'.heapListp ts' ∧
      h'.tag (p - wsize) = c.heap.tag (p - wsize) ∧ ∀ x, p - wsize ≤ x →
        x < p - wsize + wsize * (c.heap.tag (p - wsize)).size → h'.mem x = c.heap.mem x :=
    fun p m hpm => hpost.kept _ (hlive.2 p m hpm).2.1 (hlive.2 p m hpm).2.2.1
  refine ⟨_, rfl, Client.inv_of_tiling ((Heap.mmMalloc_shaped hs).of_eq_ok e) hpost.tiling ?_,
    fun p m hpm _ => hlive.payload_kept hpm (hold p m hpm).2.2, fun hn0 hok => ⟨q, ?_, ?_⟩⟩
  rotate_left
  · intro hq
    rcases hnull hq with h0 | h0
    · omega
    · rw [hok] at h0; cases h0
  · have hq : q ≠ 0 := fun hq => by
      rcases hnull hq with h0 | h0
      · omega
      · rw [hok] at h0; cases h0
    simp only [hq, if_false]
  by_cases hq : q = 0
  · simp only [hq, if_true]
    exact hlive.keep (List.Sublist.refl _) fun p m hpm => ⟨(hold p m hpm).1, (hold p m hpm).2.1⟩
  simp only [hq, if_false]
  obtain ⟨hq8, hqb, hqu, hqroom, hqnew⟩ := hpost.fresh hq
  refine ⟨?_, fun p m hpm => ?_⟩
  · rw [List.map_append]
    refine List.pairwise_append.2 ⟨hlive.1, List.pairwise_singleton _ _, fun p hp q' hq' heq => ?_⟩
    obtain ⟨⟨p, m⟩, hpm, rfl⟩ := List.mem_map.1 hp
    simp only [List.map_cons, List.map_nil, List.mem_singleton] at hq'
    subst hq'
    exact hqnew _ (hlive.2 p m hpm).2.1 (hlive.2 p m hpm).2.2.1 (by simp only at heq; rw [heq])
  rcases List.mem_append.1 hpm with hpm | hpm
  · obtain ⟨h8, -, hu, hr⟩ := hlive.2 p m hpm
    obtain ⟨hb', ht', -⟩ := hold p m hpm
    exact ⟨h8, hb', by rw [ht']; exact hu, by rw [Heap.blkSize, ht']; exact hr⟩
  · obtain ⟨rfl, rfl⟩ := List.mem_singleton.1 hpm
    exact ⟨hq8, hqb, hqu, hqroom⟩

/-! ## Runs -/

/-- One call of a run without `mm_realloc`: `mm_malloc` with room in `2^34` bytes for the heap
and the request, or `mm_free` on a heap below `2^34` bytes. -/
inductive SmallStep (c c' : Client) : Prop
  | malloc {n : Nat} {ok : Bool} : c.heap.brk - c.heap.heapListp + n + 2 ^ 14 ≤ 2 ^ 34 →
    c.step (.malloc n ok) = some (.ok c') → SmallStep c c'
  | free {p : Nat} : c.heap.brk - c.heap.heapListp ≤ 2 ^ 34 →
    c.step (.free p) = some (.ok c') → SmallStep c c'

/-- The states a program reaches from `mm_init` by such calls. -/
inductive SmallRun : Client → Prop
  | init {lo : Nat} {mem : Nat → UInt8} {ok : Nat → Bool} {h : Heap} :
    (Heap.empty lo mem).mmInit ok = .ok (h, 0) → SmallRun ⟨h, []⟩
  | step {c c' : Client} : SmallRun c → SmallStep c c' → SmallRun c'

theorem SmallStep.reachable {c c' : Client} (hc : Reachable c) : SmallStep c c' → Reachable c'
  | .malloc _ e | .free _ e => .step _ hc e

theorem SmallStep.inv {c c' : Client} (hi : c.Inv) (hs : c.heap.Shaped) (h : SmallStep c c') :
    c'.Inv ∧ PayloadsKept c c' := by
  cases h with
  | @malloc n ok hroom e =>
    have hn : n < 2 ^ 64 := by
      by_contra hn
      rw [Client.step, if_neg hn] at e
      cases e
    obtain ⟨c'', e', hi', hk, -⟩ := hi.malloc hs hn hroom
    rw [e] at e'
    cases e'
    exact ⟨hi', hk⟩
  | @free p hroom e =>
    have hp : c.Holds p := by
      by_contra hp
      rw [Client.step, if_neg hp] at e
      cases e
    obtain ⟨c'', e', hi', hk⟩ := hi.free hs hroom hp
    rw [e] at e'
    cases e'
    exact ⟨hi', hk⟩

theorem SmallStep.even {c c' : Client} (hi : c.Inv) (hs : c.heap.Shaped) {ts : List Tag}
    (ht : c.heap.Tiling ts) (he : EvenSizes ts) (h : SmallStep c c') :
    (∃ ts', c'.heap.Tiling ts' ∧ EvenSizes ts') ∧ c'.heap.heapListp = c.heap.heapListp := by
  cases h with
  | @malloc n ok hroom e =>
    have hn : n < 2 ^ 64 := by
      by_contra hn
      rw [Client.step, if_neg hn] at e
      cases e
    obtain ⟨h', q, ts', e', hpost, -, -, hev⟩ := @Heap.mmMalloc_tiling c.heap ts ht hs n ok hroom
    simp only [Client.step, if_pos hn, e', map_ok, Option.some.injEq, Except.ok.injEq] at e
    subst e
    exact ⟨⟨ts', hpost.tiling, hev he⟩, hpost.heapListp_eq⟩
  | @free p hroom e =>
    have hp : c.Holds p := by
      by_contra hp
      rw [Client.step, if_neg hp] at e
      cases e
    simp only [Client.step, if_pos hp] at e
    by_cases hp0 : p = 0
    · subst hp0
      rw [Heap.mmFree, if_pos rfl, map_ok, Option.some.injEq, Except.ok.injEq] at e
      subst e
      exact ⟨⟨ts, ht, he⟩, rfl⟩
    obtain ⟨n, hpn⟩ : ∃ n, (p, n) ∈ c.live := by simpa [Client.Holds, hp0] using hp
    obtain ⟨bs, hinv, hlive⟩ := hi
    obtain ⟨h8, hb, hu, -⟩ := hlive.2 p n hpn
    rw [hinv.addrs_eq hs ht] at hb
    have hbrk := ht.framed.brk_eq
    obtain ⟨h', ts', e', hti, hp', -, -, hev⟩ := Heap.mmFree_tiling ht hs
      (by simp only [wsize] at hbrk hroom ⊢; omega) h8 hb hu
    rw [e', map_ok, Option.some.injEq, Except.ok.injEq] at e
    subst e
    exact ⟨⟨ts', hti, hev he⟩, hp'⟩

/-- What `mm_init` sets up on an empty heap at 4096 that reads 0, when every `mem_sbrk`
succeeds. -/
def initClient : Client :=
  ⟨match (Heap.empty 4096 fun _ => 0).mmInit fun _ => true with
    | .ok (h, _) => h
    | .error _ => Heap.empty 4096 fun _ => 0, []⟩

/-- `initClient` after `malloc(8)`, which returns 4672. -/
def heldClient : Client :=
  match initClient.step (.malloc 8 true) with
  | some (.ok c) => c
  | _ => initClient

theorem initClient_run : SmallRun initClient :=
  @SmallRun.init 4096 (fun _ => 0) (fun _ => true) _ rfl

theorem heldClient_run : SmallRun heldClient :=
  .step initClient_run (@SmallStep.malloc _ _ 8 true (by decide) rfl)

/-- `heldClient` after `malloc(784)`, which returns 4736 in a block of 100 words. -/
def bigClient : Client :=
  match heldClient.step (.malloc 784 true) with
  | some (.ok c) => c
  | _ => heldClient

theorem bigClient_step : SmallStep heldClient bigClient :=
  @SmallStep.malloc _ _ 784 true (by decide) rfl

namespace SmallRun

variable {c : Client}

theorem reachable (hc : SmallRun c) : Reachable c := by
  induction hc with
  | init e => exact .init e
  | step _ h ih => exact h.reachable ih

theorem inv (hc : SmallRun c) : c.Inv := by
  induction hc with
  | init e =>
    obtain ⟨-, ts, ht, -⟩ := (Heap.mmInit_tiling.of_eq_ok e) rfl
    exact Client.inv_of_tiling ((Heap.mmInit_shaped _).of_eq_ok e rfl) ht ⟨List.nodup_nil, nofun⟩
  | step hc h ih => exact (h.inv ih hc.reachable.shaped).1

/-- Every state of a run of `mm_malloc` and `mm_free` calls from `mm_init` satisfies the
invariant, and the next call goes through: `mm_malloc(n)` with room for the request returns
without a fault, and NULL only for `n = 0` or a failed `mem_sbrk`; `mm_free` of a pointer the
program holds returns without a fault. Either call leaves a state of such a run. -/
theorem safe (hc : SmallRun c) : c.Inv ∧
    (∀ n ok, n < 2 ^ 64 → c.heap.brk - c.heap.heapListp + n + 2 ^ 14 ≤ 2 ^ 34 →
      ∃ c', c.step (.malloc n ok) = some (.ok c') ∧ SmallRun c' ∧
        (0 < n → ok = true → ∃ q, q ≠ 0 ∧ c'.live = c.live ++ [(q, n)])) ∧
    (∀ p, c.Holds p → c.heap.brk - c.heap.heapListp ≤ 2 ^ 34 →
      ∃ c', c.step (.free p) = some (.ok c') ∧ SmallRun c') := by
  refine ⟨hc.inv, fun n ok hn hroom => ?_, fun p hp hroom => ?_⟩
  · obtain ⟨c', e, -, -, hq⟩ := hc.inv.malloc hc.reachable.shaped hn hroom
    exact ⟨c', e, .step hc (.malloc hroom e), hq⟩
  · obtain ⟨c', e, -⟩ := hc.inv.free hc.reachable.shaped hroom hp
    exact ⟨c', e, .step hc (.free hroom e)⟩

theorem safe_after_malloc : SmallRun heldClient ∧ (4672, 8) ∈ heldClient.live ∧ (heldClient.Inv ∧
    (∀ n ok, n < 2 ^ 64 → heldClient.heap.brk - heldClient.heap.heapListp + n + 2 ^ 14 ≤ 2 ^ 34 →
      ∃ c', heldClient.step (.malloc n ok) = some (.ok c') ∧ SmallRun c' ∧
        (0 < n → ok = true → ∃ q, q ≠ 0 ∧ c'.live = heldClient.live ++ [(q, n)])) ∧
    (∀ p, heldClient.Holds p → heldClient.heap.brk - heldClient.heap.heapListp ≤ 2 ^ 34 →
      ∃ c', heldClient.step (.free p) = some (.ok c') ∧ SmallRun c')) :=
  ⟨heldClient_run, by decide, safe heldClient_run⟩

/-- In every state of such a run the payload of each pointer the program holds lies between the
prologue and the epilogue, and the payloads of two different pointers do not overlap. -/
theorem payloads_disjoint (hc : SmallRun c) :
    (∀ p n, (p, n) ∈ c.live → c.heap.heapListp + wsize ≤ p ∧ p + n + 2 * wsize ≤ c.heap.brk) ∧
    ∀ p n p' n', (p, n) ∈ c.live → (p', n') ∈ c.live → p ≠ p' → p + n ≤ p' ∨ p' + n' ≤ p := by
  obtain ⟨bs, hinv, hlive⟩ := hc.inv
  obtain ⟨ts, ht, rfl⟩ := (Heap.inv_iff_tiling _ hc.reachable.shaped).1 hinv
  have hseg := ht.framed.seg
  have hbrk := ht.framed.brk_eq
  refine ⟨fun p n hpn => ?_, fun p n p' n' hpn hpn' hne => ?_⟩
  · obtain ⟨h8, hb, -, hroom⟩ := hlive.2 p n hpn
    have := hseg.block_bounds _ hb
    rw [Heap.blkSize] at hroom
    omega
  · obtain ⟨h8, hb, -, hroom⟩ := hlive.2 p n hpn
    obtain ⟨h8', hb', -, hroom'⟩ := hlive.2 p' n' hpn'
    rw [Heap.blkSize] at hroom hroom'
    have := hseg.disjoint _ hb _ hb' (by omega)
    omega

theorem payloads_disjoint_two_held : SmallRun bigClient ∧
    bigClient.live = [(4672, 8), (4736, 784)] ∧
    ((∀ p n, (p, n) ∈ bigClient.live →
      bigClient.heap.heapListp + wsize ≤ p ∧ p + n + 2 * wsize ≤ bigClient.heap.brk) ∧
    ∀ p n p' n', (p, n) ∈ bigClient.live → (p', n') ∈ bigClient.live → p ≠ p' →
      p + n ≤ p' ∨ p' + n' ≤ p) :=
  ⟨.step heldClient_run bigClient_step, by decide,
    payloads_disjoint (.step heldClient_run bigClient_step)⟩

theorem even (hc : SmallRun c) :
    (∃ lo mem ok h, (Heap.empty lo mem).mmInit ok = .ok (h, 0) ∧
      c.heap.heapListp = h.heapListp) ∧ ∃ ts, c.heap.Tiling ts ∧ EvenSizes ts := by
  induction hc with
  | init e => exact ⟨⟨_, _, _, _, e, rfl⟩, ((Heap.mmInit_tiling.of_eq_ok e) rfl).2⟩
  | step hc hs ih =>
    obtain ⟨⟨lo, mem, ok, h0, e, hp⟩, ts, ht, he⟩ := ih
    obtain ⟨hev, hp'⟩ := hs.even hc.inv hc.reachable.shaped ht he
    exact ⟨⟨lo, mem, ok, h0, e, hp'.trans hp⟩, hev⟩

/-- In every state of such a run every block has an even number of words, and the payload of each
pointer the program holds is a multiple of `ALIGNMENT` bytes past the start of the heap `mm_init`
was given, since `mm_init` put the first payload 576 bytes, 36 times `ALIGNMENT`, past that start.
So every payload is 16-byte aligned when `mem_heap_lo()` is. -/
theorem payload_aligned (hc : SmallRun c) :
    ∃ lo mem ok h, (Heap.empty lo mem).mmInit ok = .ok (h, 0) ∧ c.heap.heapListp = h.heapListp ∧
      (∃ ts, c.heap.Tiling ts ∧ EvenSizes ts) ∧
      ∀ p n, (p, n) ∈ c.live → p % alignment = lo % alignment := by
  obtain ⟨⟨lo, mem, ok, h0, e, hp⟩, ts, ht, he⟩ := hc.even
  have hlo := ((Heap.mmInit_tiling.of_eq_ok e) rfl).1
  obtain ⟨bs, hinv, hlive⟩ := hc.inv
  refine ⟨lo, mem, ok, h0, e, hp, ⟨ts, ht, he⟩, fun p n hpn => ?_⟩
  obtain ⟨h8, hb, -⟩ := hlive.2 p n hpn
  rw [hinv.addrs_eq hc.reachable.shaped ht] at hb
  have hmod := he.addrs_mod _ hb
  rw [hp, hlo] at hmod
  simp only [Heap.empty, freeBlockListBytes, sizeClasses, List.length_cons, List.length_nil,
    alignment, wsize] at hmod h8 ⊢
  omega

theorem payload_aligned_two_held : SmallRun bigClient ∧
    ∃ lo mem ok h, (Heap.empty lo mem).mmInit ok = .ok (h, 0) ∧
      bigClient.heap.heapListp = h.heapListp ∧ (∃ ts, bigClient.heap.Tiling ts ∧ EvenSizes ts) ∧
      ∀ p n, (p, n) ∈ bigClient.live → p % alignment = lo % alignment :=
  ⟨.step heldClient_run bigClient_step, payload_aligned (.step heldClient_run bigClient_step)⟩

end SmallRun

/-- The runs of such calls from `c` to `c'` during which the program holds `p`, asked for with
`n` bytes. -/
inductive HeldThrough (p n : Nat) : Client → Client → Prop
  | refl {c : Client} : (p, n) ∈ c.live → HeldThrough p n c c
  | step {c c₁ c₂ : Client} : (p, n) ∈ c.live → SmallStep c c₁ → HeldThrough p n c₁ c₂ →
    HeldThrough p n c c₂

theorem HeldThrough.mem_start {p n : Nat} {c c' : Client} (hh : HeldThrough p n c c') :
    (p, n) ∈ c.live := by
  cases hh <;> assumption

/-- No call of such a run writes into the payload of a pointer the program holds: along a run
during which the program holds `p`, the `n` bytes it asked for keep their values. -/
theorem SmallRun.payload_unchanged {p n : Nat} {c c' : Client} (hc : SmallRun c)
    (hh : HeldThrough p n c c') : ∀ x, p ≤ x → x < p + n → c'.heap.mem x = c.heap.mem x := by
  induction hh with
  | refl _ => exact fun _ _ _ => rfl
  | step hp hs hrest ih =>
    intro x h1 h2
    rw [ih (.step hc hs) x h1 h2,
      (hs.inv hc.inv hc.reachable.shaped).2 _ _ hp hrest.mem_start x h1 h2]

/-- The 8 bytes at 4672 through `malloc(784)`. -/
theorem payload_unchanged_through_malloc : SmallRun heldClient ∧
    HeldThrough 4672 8 heldClient bigClient ∧
    ∀ x, 4672 ≤ x → x < 4672 + 8 → bigClient.heap.mem x = heldClient.heap.mem x :=
  have hh : HeldThrough 4672 8 heldClient bigClient :=
    .step (by decide) bigClient_step (.refl (by decide))
  ⟨heldClient_run, hh, SmallRun.payload_unchanged heldClient_run hh⟩

end Malloc
end SystemsLab
