import SystemsLab.Malloc.Runs

/-!
# Malloc.Realloc

`mm_realloc` in place. `mm_realloc(p, size)` is written here as its steps, each a definition
that `Heap.mmRealloc_eq` puts together: `Heap.absorbNext` takes the block after `p`'s in when that
block is free (`list_remove`, then `mark_block_used` with the two sizes added), and the call
returns `p` when the block then has `size` words. `Heap.reallocRoom` is that number of words, read
from the heap before the call. The later steps, `Heap.absorbPrev`, `Heap.copyDown` and
`Heap.reallocMove`, are the subject of `Malloc.Relocate`.

* `Heap.absorbNext_spec`: the first step on a heap with the invariant leaves what
  `Heap.AbsorbPost` says: the invariant, `p`'s block grown to `reallocRoom` words, every other
  allocated block with its bytes, and the bytes of `p`'s old block after its header;
* `Heap.mmRealloc_in_place`: on a heap with the invariant below `2^31` words, a call whose size
  fits returns `p` and leaves what `Heap.ReallocPost` says: the invariant, `p`'s block with at
  least `size` words, every other allocated block with its bytes, and the bytes of `p`'s old
  block after its header;
* `Client.Inv.realloc`: so the program's invariant holds after it, with `p` now held for `size`
  bytes, and every pointer the program held keeps its bytes;
* `InPlaceRun.realloc_in_place`: over whole runs of `mm_malloc`, `mm_free` and such calls of
  `mm_realloc` from `mm_init`, the invariant holds and the next such call goes through.

The test compares `size`, a count of bytes, with `blk_size`, a count of words; a block of at least
`MIN_BLOCK_SIZE_WORDS` words has room for the `size` bytes it lets through.

When `mm_malloc` fails on the move path, the neighbours are already taken in:
`realloc_failure_strands_pointer` reaches a state where a held pointer is no block, and
`realloc_null_changes_heap` shows that such a NULL changes the heap where `mm_malloc`'s does not.
-/

namespace SystemsLab
namespace Malloc

namespace Heap

variable {h : Heap}

/-! ## The steps of `mm_realloc` -/

/-- The first step of `mm_realloc` on the block `oldblk`: when the block after it is free, take it
off its list and make the two one allocated block. -/
def absorbNext (h : Heap) (oldblk : Nat) : Except Fault Heap :=
  let nextAlloc := !h.blkFree (h.nextBlk oldblk)
  if !nextAlloc then do
    let h ← h.unlink (h.nextBlk oldblk)
    pure (h.markBlockUsed oldblk (h.blkSize oldblk + h.blkSize (h.nextBlk oldblk)))
  else pure h

/-- The second: when `prevAlloc`, read before the first step, says the block before `oldblk` is
free, take it off its list and make the two one allocated block at its address. -/
def absorbPrev (h : Heap) (oldblk : Nat) (prevAlloc : Bool) : Except Fault (Heap × Nat) :=
  if !prevAlloc then do
    let left := h.prevBlk oldblk
    let h ← h.unlink left
    pure (h.markBlockUsed left (h.blkSize oldblk + h.blkSize left), left)
  else pure (h, oldblk)

/-- The block at `oldblk` now has `size` words: `memcpy` the bytes from `ptr` down to its
payload. -/
def copyDown (h : Heap) (ptr size oldblk : Nat) : Except Fault (Heap × Nat) := do
  let bytesize := h.blkSize oldblk * wsize % 2 ^ 64
  let bytesize := if size < bytesize then size else bytesize
  let mem ← memcpy h.mem (oldblk + wsize) ptr bytesize
  pure ({ h with mem := mem }, oldblk + wsize)

/-- It does not: `mm_malloc`, `memcpy` from `ptr`, and `mm_free` of the block at `oldblk`. -/
def reallocMove (h : Heap) (ptr size oldblk : Nat) (ok : Bool) : Except Fault (Heap × Nat) := do
  let (h, newptr) ← h.mmMalloc size ok
  if newptr = 0 then pure (h, 0)
  else do
    let bytesize := h.blkSize (ptr - wsize) * wsize % 2 ^ 64
    let bytesize := if size < bytesize then size else bytesize
    let mem ← memcpy h.mem newptr ptr bytesize
    let h ← ({ h with mem := mem } : Heap).mmFree (oldblk + wsize)
    pure (h, newptr)

/-- `mm_realloc` of a pointer and a size that are not 0, as its steps. -/
theorem mmRealloc_eq {ptr size : Nat} (h0 : size ≠ 0) (hp : ptr ≠ 0) (ok : Bool) :
    h.mmRealloc ptr size ok = (do
      let h1 ← h.absorbNext (ptr - wsize)
      if size ≤ h1.blkSize (ptr - wsize) then pure (h1, ptr - wsize + wsize)
      else do
        let (h2, oldblk) ← h1.absorbPrev (ptr - wsize)
          (h.tag (prevBlkFooter (ptr - wsize))).inuse
        if size ≤ h2.blkSize oldblk then h2.copyDown ptr size oldblk
        else h2.reallocMove ptr size oldblk ok) := by
  rw [mmRealloc, if_neg h0, if_neg hp]
  rfl

/-- The words `mm_realloc` finds in place for the block at `blk`: its own, and those of the block
after it when that one is free. -/
def reallocRoom (h : Heap) (blk : Nat) : Nat :=
  h.blkSize blk + if h.blkFree (h.nextBlk blk) then h.blkSize (h.nextBlk blk) else 0

/-! ## Taking in the next block -/

/-- What the first step leaves of the block `u` after the blocks `A`: the invariant, with that
block now `u'`, allocated, no smaller and ending where the blocks it took in ended; every other
allocated block with its tag and bytes; and the bytes of `u` after its header. -/
structure AbsorbPost (h h' : Heap) (A B B' : List Tag) (u u' : Tag) : Prop where
  tiling : h'.Tiling (A ++ u' :: B')
  inuse : u'.inuse = true
  grows : u.size ≤ u'.size
  span_eq : span (u' :: B') = span (u :: B)
  heapListp_eq : h'.heapListp = h.heapListp
  kept : ∀ c ∈ addrs h.heapListp (A ++ u :: B), c ≠ h.heapListp + wsize * span A →
    (h.tag c).inuse = true → c ∈ addrs h'.heapListp (A ++ u' :: B') ∧ h'.tag c = h.tag c ∧
      ∀ x, c ≤ x → x < c + wsize * (h.tag c).size → h'.mem x = h.mem x
  payload : ∀ x, h.heapListp + wsize * span A + wsize ≤ x →
    x < h.heapListp + wsize * span A + wsize * u.size → h'.mem x = h.mem x

theorem AbsorbPost.refl {A B : List Tag} {u : Tag} (ht : h.Tiling (A ++ u :: B))
    (hu : u.inuse = true) : AbsorbPost h h A B B u u :=
  ⟨ht, hu, Nat.le_refl _, rfl, rfl, fun _ hc _ _ => ⟨hc, rfl, fun _ _ _ => rfl⟩, fun _ _ _ => rfl⟩

theorem AbsorbPost.tag_self {h' : Heap} {A B B' : List Tag} {u u' : Tag}
    (post : AbsorbPost h h' A B B' u u') : h'.tag (h.heapListp + wsize * span A) = u' := by
  rw [← post.heapListp_eq]
  exact ((h'.seg_append).1 post.tiling.framed.seg).2.2.1

theorem absorbNext_free {A B : List Tag} {u f : Tag} (ht : h.Tiling (A ++ u :: f :: B))
    (hs : h.Shaped) (hu : u.inuse = true) (hff : f.inuse = false) (h31 : span [u, f] < 2 ^ 31) :
    ∃ h', h.absorbNext (h.heapListp + wsize * span A) = .ok h' ∧ h'.Shaped ∧
      AbsorbPost h h' A (f :: B) B u ⟨true, span [u, f], lt_two_pow_63 h31⟩ := by
  have hf : h.Framed (A ++ [u, f] ++ B) := by simpa using ht.framed
  obtain ⟨hu8, hub, -, hf8, hfb, -, -⟩ := ((h.seg_append).1 ht.framed.seg).2
  have h8 : minBlockSizeWords ≤ span [u, f] := by simp only [span_cons, span_nil]; omega
  have h2 : 2 ≤ span [u, f] := by simp only [minBlockSizeWords] at h8; omega
  obtain ⟨hA, hnfB, -⟩ := noFreePair_append.1 ht.no_free_pair
  obtain ⟨hB, -⟩ := hnfB.tail.of_cons_free hff
  -- `list_remove` of `f`, which is on its list
  have hl : Listed h.lists (freeAddrs h.heapListp A ++
      (h.heapListp + wsize * span A + wsize * u.size) ::
        freeAddrs (h.heapListp + wsize * span A + wsize * u.size + wsize * f.size) B) h.blkSize := by
    simpa [freeAddrs_append, freeAddrs, hu, hff] using ht.listed
  obtain ⟨ls, e1, hs1, hl1⟩ :=
    unlink_listed hs hl (not_mem_freeAddrs ht.framed.seg (Nat.le_add_right _ _))
  rw [show h.heapListp + wsize * span A + wsize * u.size + wsize * f.size =
    h.heapListp + wsize * span A + wsize * span [u, f] by
      simp only [span_cons, span_nil, Nat.add_zero, Nat.mul_add, Nat.add_assoc]] at hl1
  -- `mark_block_used` of the two
  have hf2 := ((framed_lists h ls _).2 hf).setHeaderAndFooter hs1 h8 h31 true
  rw [List.append_assoc, List.singleton_append] at hf2
  have hm : ∀ x, x < h.heapListp + wsize * span A ∨
      h.heapListp + wsize * span A + wsize * span [u, f] ≤ x →
      (({ h with lists := ls } : Heap).setHeaderAndFooter (h.heapListp + wsize * span A)
        (span [u, f]) true).mem x = h.mem x :=
    fun _ hx => setHeaderAndFooter_mem _ h2 h31 hx
  have hsum : u.size + f.size = span [u, f] := by simp only [span_cons, span_nil, Nat.add_zero]
  refine ⟨({ h with lists := ls } : Heap).setHeaderAndFooter (h.heapListp + wsize * span A)
    (span [u, f]) true, ?_, hs1, ⟨?_, rfl, by simp only [span_cons, span_nil]; omega,
      by simp only [span_cons, span_nil]; omega, rfl,
      fun c hc hne hcu => ?_, fun x h1 h2' => ?_⟩⟩
  · simp only [absorbNext, blkFree, nextBlk, blkSize, hub, hfb, hff, Bool.not_false, Bool.not_true,
      if_true, e1, ok_bind, pure_eq, markBlockUsed, tag_lists, hsum]
  · refine ⟨hf2, noFreePair_used hA hB rfl, ?_⟩
    simpa [freeAddrs_append, freeAddrs] using hf.seg.listed_frame hm hl1
  · -- an allocated block other than `u` is neither `u` nor the free `f`
    have hk := hf.seg.keeps
      (show span [⟨true, span [u, f], lt_two_pow_63 h31⟩] = span [u, f] by simp) hm
      (by simpa using hc) fun hcR => by
        simp only [addrs, List.mem_cons, List.not_mem_nil, or_false] at hcR
        rcases hcR with rfl | rfl
        · exact hne rfl
        · rw [hfb, hff] at hcu
          cases hcu
    rw [List.append_assoc, List.singleton_append] at hk
    exact hk
  · exact setHeaderAndFooter_mem_inside _ h2 h31 h1
      (by simp only [span_cons, span_nil, wsize, minBlockSizeWords] at h2' hf8 ⊢; omega)

/-- The first step on the block `u` of a heap with the invariant below `2^31` words: the block
takes in the free block after it, if any, and then has `reallocRoom` words. -/
theorem absorbNext_spec {A B : List Tag} {u : Tag} (ht : h.Tiling (A ++ u :: B)) (hs : h.Shaped)
    (hu : u.inuse = true) (h31 : span (A ++ u :: B) < 2 ^ 31) :
    ∃ h' u' B', h.absorbNext (h.heapListp + wsize * span A) = .ok h' ∧ h'.Shaped ∧
      u'.size = h.reallocRoom (h.heapListp + wsize * span A) ∧ AbsorbPost h h' A B B' u u' := by
  have hseg := ((h.seg_append).1 ht.framed.seg).2
  have hnext : h.tag (h.heapListp + wsize * span A + wsize * u.size) = B.head?.getD fence := by
    have hf : h.Framed ((A ++ [u]) ++ B) := by simpa using ht.framed
    simpa [Nat.mul_add, Nat.add_assoc] using hf.tag_after
  cases hnx : (B.head?.getD fence).inuse with
  | false =>
    obtain ⟨f, B', rfl, hff⟩ := exists_cons_free hnx
    obtain ⟨h', e, hs', post⟩ := absorbNext_free ht hs hu hff
      (by simp only [span_append, span_cons, span_nil] at h31 ⊢; omega)
    refine ⟨h', _, B', e, hs', ?_, post⟩
    simp [reallocRoom, nextBlk, blkFree, blkSize, hseg.2.1, hnext, hff]
  | true =>
    refine ⟨h, u, B, ?_, hs, ?_, .refl ht hu⟩
    · simp only [absorbNext, blkFree, nextBlk, blkSize, hseg.2.1, hnext, hnx, Bool.not_true,
        Bool.not_false, Bool.false_eq_true, if_false, pure_eq]
    · simp [reallocRoom, nextBlk, blkFree, blkSize, hseg.2.1, hnext, hnx]

/-! ## Returning in place -/

/-- What `mm_realloc` leaves when it returns in place the payload of the block `u` after the
blocks `A`: the invariant, with that block now `u'`, allocated and of at least `size` words; every
other allocated block with its tag and bytes; and the bytes of `u` after its header. -/
structure ReallocPost (h h' : Heap) (A B B' : List Tag) (u u' : Tag) (size : Nat) : Prop where
  tiling : h'.Tiling (A ++ u' :: B')
  inuse : u'.inuse = true
  fits : size ≤ u'.size
  heapListp_eq : h'.heapListp = h.heapListp
  kept : ∀ c ∈ addrs h.heapListp (A ++ u :: B), c ≠ h.heapListp + wsize * span A →
    (h.tag c).inuse = true → c ∈ addrs h'.heapListp (A ++ u' :: B') ∧ h'.tag c = h.tag c ∧
      ∀ x, c ≤ x → x < c + wsize * (h.tag c).size → h'.mem x = h.mem x
  payload : ∀ x, h.heapListp + wsize * span A + wsize ≤ x →
    x < h.heapListp + wsize * span A + wsize * u.size → h'.mem x = h.mem x

/-- `mm_realloc(p, size)` of the payload `p` of an allocated block `u` of a heap with the
invariant below `2^31` words, for `0 < size` within the room in place, returns `p` and leaves what
`ReallocPost` says. -/
theorem mmRealloc_in_place {A B : List Tag} {u : Tag} (ht : h.Tiling (A ++ u :: B))
    (hs : h.Shaped) (hu : u.inuse = true) (h31 : span (A ++ u :: B) < 2 ^ 31) {size : Nat}
    (h0 : 0 < size) {ok : Bool} (hfit : size ≤ h.reallocRoom (h.heapListp + wsize * span A)) :
    ∃ h' u' B', h.mmRealloc (h.heapListp + wsize * span A + wsize) size ok =
        .ok (h', h.heapListp + wsize * span A + wsize) ∧ ReallocPost h h' A B B' u u' size := by
  obtain ⟨h', u', B', e, -, hroom, post⟩ := absorbNext_spec ht hs hu h31
  rw [← hroom] at hfit
  have hp := hs.2
  refine ⟨h', u', B', ?_, ⟨post.tiling, post.inuse, hfit, post.heapListp_eq, post.kept,
    post.payload⟩⟩
  rw [mmRealloc_eq (by omega) (by simp only [wsize] at hp ⊢; omega), Nat.add_sub_cancel, e,
    ok_bind, blkSize, post.tag_self, if_pos hfit]
  rfl

end Heap

/-! ## One call -/

/-- `mm_realloc(p, m)` of a pointer the program holds, on a heap with the invariant below `2^34`
bytes, for `0 < m` within the room `reallocRoom` finds for `p`'s block: the call returns `p`, the
program holds `p` for `m` bytes, the invariant holds, and every pointer the program held, `p`
too, keeps the bytes it asked for. -/
theorem Client.Inv.realloc {c : Client} (hi : c.Inv) (hs : c.heap.Shaped)
    (hroom : c.heap.brk - c.heap.heapListp ≤ 2 ^ 34) {p n m : Nat} (hpn : (p, n) ∈ c.live)
    (hm0 : 0 < m) (hm : m < 2 ^ 64) (hfit : m ≤ c.heap.reallocRoom (p - wsize)) (ok : Bool) :
    ∃ c', c.step (.realloc p m ok) = some (.ok c') ∧
      c'.live = c.live.filter (·.1 != p) ++ [(p, m)] ∧ c'.Inv ∧
      ∀ p' n', (p', n') ∈ c.live → ∀ x, p' ≤ x → x < p' + n' → c'.heap.mem x = c.heap.mem x := by
  obtain ⟨bs, hinv, hlive⟩ := hi
  obtain ⟨ts, ht, rfl⟩ := (Heap.inv_iff_tiling _ hs).1 hinv
  obtain ⟨h8, hb, hu, -⟩ := hlive.2 p n hpn
  obtain ⟨A, u, B, rfl, hpA⟩ := exists_of_mem_addrs hb
  have hseg := ((c.heap.seg_append).1 ht.framed.seg).2
  have hbrk := ht.framed.brk_eq
  have hu : u.inuse = true := by rw [← hseg.2.1, ← hpA]; exact hu
  obtain ⟨h', u', B', e, post⟩ := Heap.mmRealloc_in_place ht hs hu
    (by simp only [wsize] at hbrk hroom ⊢; omega) hm0 (hpA ▸ hfit)
  have hp : c.heap.heapListp + wsize * span A + wsize = p := by omega
  have hp0 : p ≠ 0 := by simp only [wsize] at h8; omega
  rw [hp] at e
  refine ⟨⟨h', c.live.filter (·.1 != p) ++ [(p, m)]⟩, ?_, rfl,
    Client.inv_of_tiling ((Heap.mmRealloc_shaped hs).of_eq_ok e) post.tiling ⟨?_, fun q k hqk => ?_⟩,
    fun p' n' hpn' x h1 h2 => ?_⟩
  · rw [Client.step, if_pos ⟨.inr (List.mem_map_of_mem _ hpn), hm⟩, e]
    simp only [map_ok, afterRealloc, ne_eq, hp0, not_false_eq_true, if_true]
  · -- `p` is new among the pointers left
    rw [List.map_append]
    refine List.pairwise_append.2 ⟨hlive.1.sublist ((List.filter_sublist _).map _),
      List.pairwise_singleton _ _, fun a ha b hb => ?_⟩
    obtain ⟨⟨a, k⟩, hak, rfl⟩ := List.mem_map.1 ha
    rw [List.map_cons, List.map_nil, List.mem_singleton] at hb
    subst hb
    simpa using (List.mem_filter.1 hak).2
  · rcases List.mem_append.1 hqk with hqk | hqk
    · obtain ⟨hqk, hne⟩ := List.mem_filter.1 hqk
      obtain ⟨hq8, hqb, hqu, hqr⟩ := hlive.2 q k hqk
      obtain ⟨hb', ht', -⟩ := post.kept _ hqb
        (fun hq => by simp only [bne_iff_ne, ne_eq] at hne; simp only [wsize] at hq hpA hq8 h8; omega) hqu
      exact ⟨hq8, hb', by rw [ht']; exact hqu, by rw [Heap.blkSize, ht']; exact hqr⟩
    · simp only [List.mem_singleton, Prod.mk.injEq] at hqk
      obtain ⟨rfl, rfl⟩ := hqk
      have hu' : h'.tag (c.heap.heapListp + wsize * span A) = u' := by
        rw [← post.heapListp_eq]
        exact ((h'.seg_append).1 post.tiling.framed.seg).2.2.1
      have hu8 := ((h'.seg_append).1 post.tiling.framed.seg).2.1
      refine ⟨h8, ?_, by rw [hpA, hu']; exact post.inuse, ?_⟩
      · rw [hpA, post.heapListp_eq, addrs_append]
        exact List.mem_append_right _ (List.mem_cons_self _ _)
      · rw [hpA, Heap.blkSize, hu']
        have := post.fits
        simp only [minBlockSizeWords, wsize] at hu8 ⊢
        omega
  · by_cases hq : p' = p
    · -- `p`'s own bytes lie after the header of its old block
      subst hq
      obtain ⟨-, -, -, hr⟩ := hlive.2 p' n' hpn'
      rw [hpA, Heap.blkSize, hseg.2.1] at hr
      exact post.payload x (by rw [hp]; exact h1) (by simp only [wsize] at hr h2 hp ⊢; omega)
    · obtain ⟨h8', hb', hu', -⟩ := hlive.2 p' n' hpn'
      exact hlive.payload_kept hpn' (post.kept _ hb'
        (fun heq => hq (by simp only [wsize] at heq h8' hp; omega)) hu').2.2 x h1 h2

/-! ## Runs -/

/-- One call of a run in which every `mm_realloc` returns in place: a call of `SmallStep`, or
`mm_realloc(p, m)` of a pointer the program holds, on a heap below `2^34` bytes, for `0 < m`
within the room `reallocRoom` finds for `p`'s block. -/
inductive InPlaceStep (c c' : Client) : Prop
  | small : SmallStep c c' → InPlaceStep c c'
  | realloc {p m : Nat} {ok : Bool} : c.heap.brk - c.heap.heapListp ≤ 2 ^ 34 → p ≠ 0 → 0 < m →
    m ≤ c.heap.reallocRoom (p - wsize) → c.step (.realloc p m ok) = some (.ok c') →
    InPlaceStep c c'

/-- The states a program reaches from `mm_init` by such calls. -/
inductive InPlaceRun : Client → Prop
  | init {lo : Nat} {mem : Nat → UInt8} {ok : Nat → Bool} {h : Heap} :
    (Heap.empty lo mem).mmInit ok = .ok (h, 0) → InPlaceRun ⟨h, []⟩
  | step {c c' : Client} : InPlaceRun c → InPlaceStep c c' → InPlaceRun c'

theorem InPlaceStep.inv {c c' : Client} (hi : c.Inv) (hs : c.heap.Shaped) :
    InPlaceStep c c' → c'.Inv ∧ PayloadsKept c c'
  | .small h => h.inv hi hs
  | .realloc hroom hp0 hm0 hfit e => by
    rename_i p m ok
    have hpm : c.Holds p ∧ m < 2 ^ 64 := by
      by_contra hpm
      rw [Client.step, if_neg hpm] at e
      cases e
    obtain ⟨n, hpn⟩ : ∃ n, (p, n) ∈ c.live := by simpa [Client.Holds, hp0] using hpm.1
    obtain ⟨c'', e', -, hi', hk⟩ := hi.realloc hs hroom hpn hm0 hpm.2 hfit ok
    rw [e] at e'
    cases e'
    exact ⟨hi', fun p' n' h1 _ => hk p' n' h1⟩

theorem SmallRun.inPlace {c : Client} (hc : SmallRun c) : InPlaceRun c := by
  induction hc with
  | init e => exact .init e
  | step _ h ih => exact .step ih (.small h)

namespace InPlaceRun

variable {c : Client}

theorem reachable (hc : InPlaceRun c) : Reachable c := by
  induction hc with
  | init e => exact .init e
  | step _ h ih =>
    cases h with
    | small h => exact h.reachable ih
    | realloc _ _ _ _ e => exact .step _ ih e

theorem inv (hc : InPlaceRun c) : c.Inv := by
  induction hc with
  | init e => exact SmallRun.inv (.init e)
  | step hc h ih => exact (h.inv ih hc.reachable.shaped).1

/-- Every state a program reaches from `mm_init` by `mm_malloc`, `mm_free`, and `mm_realloc` calls
that return in place, each on a heap below `2^34` bytes, satisfies the invariant; and from it
`mm_realloc(p, m)` of a pointer the program holds, for `0 < m` within the room `reallocRoom`
finds, returns `p` without a fault, into a state of such a run in which the program holds `p` for
`m` bytes and every pointer it held, `p` too, keeps its bytes. -/
theorem realloc_in_place (hc : InPlaceRun c) : c.Inv ∧
    ∀ p n m ok, (p, n) ∈ c.live → 0 < m → m < 2 ^ 64 →
      c.heap.brk - c.heap.heapListp ≤ 2 ^ 34 → m ≤ c.heap.reallocRoom (p - wsize) →
      ∃ c', c.step (.realloc p m ok) = some (.ok c') ∧ InPlaceRun c' ∧
        c'.live = c.live.filter (·.1 != p) ++ [(p, m)] ∧
        ∀ p' n', (p', n') ∈ c.live → ∀ x, p' ≤ x → x < p' + n' → c'.heap.mem x = c.heap.mem x := by
  refine ⟨hc.inv, fun p n m ok hpn hm0 hm hroom hfit => ?_⟩
  obtain ⟨c', e, hl, -, hk⟩ := hc.inv.realloc hc.reachable.shaped hroom hpn hm0 hm hfit ok
  have hp0 : p ≠ 0 := by
    obtain ⟨bs, -, hlive⟩ := hc.inv
    have := (hlive.2 p n hpn).1
    simp only [wsize] at this
    omega
  exact ⟨c', e, .step hc (.realloc hroom hp0 hm0 hfit e), hl, hk⟩

/-- After `malloc(8)` returned 4672, the block of 8 words and the free block after it give
`mm_realloc(4672, m)` room in place for 1024 words. -/
theorem realloc_in_place_after_malloc : InPlaceRun heldClient ∧ (4672, 8) ∈ heldClient.live ∧
    heldClient.heap.reallocRoom (4672 - wsize) = 1024 ∧ (heldClient.Inv ∧
    ∀ p n m ok, (p, n) ∈ heldClient.live → 0 < m → m < 2 ^ 64 →
      heldClient.heap.brk - heldClient.heap.heapListp ≤ 2 ^ 34 →
      m ≤ heldClient.heap.reallocRoom (p - wsize) →
      ∃ c', heldClient.step (.realloc p m ok) = some (.ok c') ∧ InPlaceRun c' ∧
        c'.live = heldClient.live.filter (·.1 != p) ++ [(p, m)] ∧
        ∀ p' n', (p', n') ∈ heldClient.live → ∀ x, p' ≤ x → x < p' + n' →
          c'.heap.mem x = heldClient.heap.mem x) :=
  ⟨heldClient_run.inPlace, by decide, by decide, realloc_in_place heldClient_run.inPlace⟩

end InPlaceRun

/-! ## `mm_realloc` that returns NULL -/

theorem Client.not_inv_of_stray {c : Client} {bs : List Nat} {e p n : Nat}
    (hbl : c.heap.blocks = some (bs, e)) (hp : (p, n) ∈ c.live) (hnot : p - wsize ∉ bs) :
    ¬ c.Inv := by
  rintro ⟨bs', hinv, -, hlive⟩
  have hbs : bs' = bs := by
    have h := hinv.tiled
    rw [hbl] at h
    cases h
    rfl
  exact hnot (hbs ▸ (hlive p n hp).2.1)

/-- `a = malloc(8)`: 4672, in a block of 8 words split from the first; the rest (1016 words)
goes to the list of 512. -/
def client1 : Client :=
  ⟨⟨writeTag (writeTag (writeTag (writeTag client0.heap.mem 4664 (usedTag 8)) 4720 (usedTag 8))
      4728 (freeTag 1016)) 12848 (freeTag 1016), 12864, 4664,
    classLists [[], [], [], [4728], [], [], [], [], [], []]⟩, [(4672, 8)]⟩

/-- `p = malloc(8)`: 4736. -/
def client2 : Client :=
  ⟨⟨writeTag (writeTag (writeTag (writeTag client1.heap.mem 4728 (usedTag 8)) 4784 (usedTag 8))
      4792 (freeTag 1008)) 12848 (freeTag 1008), 12864, 4664,
    classLists [[], [], [], [4792], [], [], [], [], [], []]⟩, [(4672, 8), (4736, 8)]⟩

/-- `q = malloc(8)`: 4800. -/
def client3 : Client :=
  ⟨⟨writeTag (writeTag (writeTag (writeTag client2.heap.mem 4792 (usedTag 8)) 4848 (usedTag 8))
      4856 (freeTag 1000)) 12848 (freeTag 1000), 12864, 4664,
    classLists [[], [], [], [4856], [], [], [], [], [], []]⟩,
    [(4672, 8), (4736, 8), (4800, 8)]⟩

/-- `free(a)`: its neighbours are allocated, so the block goes to the list of 8 as it is. -/
def client4 : Client :=
  ⟨⟨writeTag (writeTag client3.heap.mem 4664 (freeTag 8)) 4720 (freeTag 8), 12864, 4664,
    classLists [[], [], [], [4856], [], [], [], [], [], [4664]]⟩, [(4736, 8), (4800, 8)]⟩

/-- `realloc(p, 10000)` with `mem_sbrk` failing: `q` is allocated; 8 words are not 10000, so the
free block of `a` is taken off its list and becomes an allocated block of 16 words over `p`'s;
16 words are not 10000 either, and `mm_malloc(10000)` finds no fit and no memory. NULL. -/
def client5 : Client :=
  ⟨⟨writeTag (writeTag client4.heap.mem 4664 (usedTag 16)) 4784 (usedTag 16), 12864, 4664,
    classLists [[], [], [], [4856], [], [], [], [], [], []]⟩, [(4736, 8), (4800, 8)]⟩

theorem client5_reachable : Reachable client5 := by
  have h1 : Reachable client1 := .step (.malloc 8 true) client0_reachable rfl
  have h2 : Reachable client2 := .step (.malloc 8 true) h1 rfl
  have h3 : Reachable client3 := .step (.malloc 8 true) h2 rfl
  have h4 : Reachable client4 := .step (.free 4672) h3 rfl
  exact .step (.realloc 4736 10000 false) h4 rfl

/-- After the run `p` (4736) is still held, with the 8 bytes asked for it, but its block's
header (4728) is not a block: `a`'s block at 4664 took it in and is allocated with 16 words. The
heap's tags and lists are otherwise as the invariant says, and `free(p)` unlinks a block on no
list. -/
theorem realloc_failure_strands_pointer :
    ∃ c, Reachable c ∧ ¬ c.Inv ∧ (4736, 8) ∈ c.live ∧ c.heap.Inv [4664, 4792, 4856] ∧
      c.heap.tag 4664 = ⟨true, 16, by decide⟩ ∧
      c.step (.free 4736) = some (.error .strayUnlink) :=
  ⟨client5, client5_reachable,
    Client.not_inv_of_stray (show client5.heap.blocks = some ([4664, 4792, 4856], 12856) by decide)
      (show (4736, 8) ∈ client5.live by decide) (by decide), by decide,
    ⟨by decide, by decide, by decide, by decide, by decide, by decide, by decide, by decide⟩,
    by decide, rfl⟩

/-- `mm_malloc` that returns NULL for a size above 0 leaves a heap with the invariant as it was;
`mm_realloc` does not. From `client4`, which has the invariant, `realloc(p, 10000)` with
`mem_sbrk` failing returns NULL after taking `a`'s free block off its list and into an allocated
block over `p`'s: a tag and a free list changed, and `p - 8` is no longer a block. -/
theorem realloc_null_changes_heap :
    (∀ (h h' : Heap) (bs : List Nat) (n : Nat) (ok : Bool), h.Inv bs → h.Shaped → 0 < n →
      h.mmMalloc n ok = .ok (h', 0) → h' = h) ∧
    ∃ h' : Heap, client4.Inv ∧ client4.heap.Shaped ∧ (4736, 8) ∈ client4.live ∧
      client4.heap.mmRealloc 4736 10000 false = .ok (h', 0) ∧
      h'.tag 4664 ≠ client4.heap.tag 4664 ∧ h'.lists ≠ client4.heap.lists ∧
      h'.blocks = some ([4664, 4792, 4856], 12856) :=
  ⟨fun _ _ _ _ _ hi hs hn e => Heap.mmMalloc_eq_null hi hs hn e,
    client5.heap, ⟨[4664, 4728, 4792, 4856], by decide, by decide⟩, by decide, by decide, rfl,
    by decide, by decide, by decide⟩

end Malloc
end SystemsLab
