import SystemsLab.Malloc.Coalesce

/-!
# Malloc.Alloc

`place` and `mm_malloc` keep the invariant. `place` turns the front of a listed free block into
an allocated block and lists what is left when it is large enough; `mm_malloc` finds that block
with `find_fit` or makes it with `extend_heap`. The allocated blocks that were there stay as they
were, and the new one has room for the bytes asked for.

* `Heap.place_tiling`: both branches of `place`;
* `Heap.mmMalloc_tiling`: `mm_malloc` on a heap that `mm_init` set up.

`find_fit` need not find a block that fits: `findFit_passes_over_fitting_block` reaches a heap
whose only fitting block is on a list `find_fit` does not search, and `mm_malloc` grows the heap.
The states of that run, written out tag by tag from `mm_init` on, serve `Malloc.Realloc` too.
-/

namespace SystemsLab
namespace Malloc

theorem noFreePair_used {A B : List Tag} {u : Tag} (hA : NoFreePair A) (hB : NoFreePair B)
    (hu : u.inuse = true) : NoFreePair (A ++ u :: B) := by
  refine noFreePair_append.2 ⟨hA, ?_, fun _ _ y hy => .inr (by cases hy; exact hu)⟩
  cases B with
  | nil => trivial
  | cons n B => exact ⟨.inl hu, hB⟩

namespace Heap

variable {h : Heap}

/-! ## `place` -/

/-- `place` of a listed free block of at least `asize` words, for `asize` at least
`MIN_BLOCK_SIZE_WORDS`: the front `asize` words become an allocated block and the rest a listed
free block, or, when the rest is too small for a block, the whole block is allocated. The
invariant holds after it. -/
theorem place_tiling {A B : List Tag} {t : Tag} (ht : h.Tiling (A ++ t :: B)) (hs : h.Shaped)
    (hfree : t.inuse = false) {asize : Nat} (h8 : minBlockSizeWords ≤ asize)
    (hle : asize ≤ t.size) (h31 : t.size < 2 ^ 31) :
    ∃ h' u ts, h.place (h.heapListp + wsize * span A) asize = .ok h' ∧
      h'.Tiling (A ++ u :: ts) ∧ u.inuse = true ∧ asize ≤ u.size ∧
      h'.heapListp = h.heapListp ∧ h'.brk = h.brk ∧ UsedKept h h' (A ++ t :: B) (A ++ u :: ts) ∧
      (EvenSizes (A ++ t :: B) → asize % 2 = 0 → EvenSizes (A ++ u :: ts)) := by
  have hf : h.Framed (A ++ [t] ++ B) := by simpa using ht.framed
  have hseg := ((h.seg_append).1 ht.framed.seg).2
  have hsize : h.blkSize (h.heapListp + wsize * span A) = t.size := by
    simp only [blkSize, hseg.2.1]
  obtain ⟨hA, hnfB, -⟩ := noFreePair_append.1 ht.no_free_pair
  obtain ⟨hB, hna⟩ := hnfB.of_cons_free hfree
  have hl : Listed h.lists (freeAddrs h.heapListp A ++ (h.heapListp + wsize * span A) ::
      freeAddrs (h.heapListp + wsize * span A + wsize * span [t]) B) h.blkSize := by
    simpa [freeAddrs_append, freeAddrs, hfree] using ht.listed
  have hrest : (t.size + 2 ^ 64 - asize) % 2 ^ 64 = t.size - asize := by omega
  have hr := not_mem_freeAddrs ht.framed.seg (Nat.le_refl _)
  by_cases hsplit : minBlockSizeWords ≤ t.size - asize
  · -- the rest is a block of its own: it is marked free and listed
    have ha31 : asize < 2 ^ 31 := by omega
    have hr31 : t.size - asize < 2 ^ 31 := by omega
    have hw2 : 2 ≤ asize := by simp only [minBlockSizeWords] at h8; omega
    have hU : asize < 2 ^ 63 := by omega
    have hF : t.size - asize < 2 ^ 63 := by omega
    obtain ⟨hhead1, -, -, -⟩ := @setHeaderAndFooter_spec h (h.heapListp + wsize * span A) asize true
      hw2 ha31
    have hm1 : ∀ x, x < h.heapListp + wsize * span A ∨
        h.heapListp + wsize * span A + wsize * asize ≤ x →
        (h.setHeaderAndFooter (h.heapListp + wsize * span A) asize true).mem x = h.mem x :=
      fun _ hx => h.setHeaderAndFooter_mem hw2 ha31 hx
    have hseg1 : (h.setHeaderAndFooter (h.heapListp + wsize * span A) asize true).Seg
        (h.heapListp + wsize * span A) [⟨true, asize, hU⟩] := setHeaderAndFooter_seg h8 ha31
    have hp1 : (h.setHeaderAndFooter (h.heapListp + wsize * span A) asize true).heapListp =
        h.heapListp := rfl
    have hb1 : (h.setHeaderAndFooter (h.heapListp + wsize * span A) asize true).brk = h.brk := rfl
    obtain ⟨ls, e1, hs1, hl1⟩ := unlink_listed (h := h.setHeaderAndFooter
      (h.heapListp + wsize * span A) asize true) hs hl hr
    generalize hh1 : h.setHeaderAndFooter (h.heapListp + wsize * span A) asize true = h1
      at hhead1 hm1 hseg1 hp1 hb1 e1 hs1
    have hnext : ({ h1 with lists := ls } : Heap).nextBlk (h.heapListp + wsize * span A) =
        h.heapListp + wsize * span A + wsize * asize := by
      simp only [nextBlk, blkSize, tag_lists, hhead1]
    generalize hh3 : ({ h1 with lists := ls } : Heap).setHeaderAndFooter
      (h.heapListp + wsize * span A + wsize * asize) (t.size - asize) false = h3
    have hm3 : ∀ x, x < h.heapListp + wsize * span A + wsize * asize ∨
        h.heapListp + wsize * span A + wsize * asize + wsize * (t.size - asize) ≤ x →
        h3.mem x = h1.mem x :=
      fun _ hx => hh3 ▸ setHeaderAndFooter_mem _ (by simp only [minBlockSizeWords] at hsplit; omega)
        hr31 hx
    have hm : ∀ x, x < h.heapListp + wsize * span A ∨
        h.heapListp + wsize * span A + wsize * span [t] ≤ x → h3.mem x = h.mem x := fun x hx => by
      simp only [span_cons, span_nil, Nat.add_zero] at hx
      rw [hm3 x (by simp only [wsize] at hx ⊢; omega), hm1 x (by simp only [wsize] at hx ⊢; omega)]
    have hRseg : h3.Seg (h.heapListp + wsize * span A)
        [⟨true, asize, hU⟩, ⟨false, t.size - asize, hF⟩] := by
      show h3.Seg _ ([_] ++ [_])
      refine (h3.seg_append).2 ⟨?_, ?_⟩
      · exact (seg_congr _ fun x _ h2 => hm3 x (.inl (by simpa using h2))).2 hseg1
      · rw [← hh3]
        exact setHeaderAndFooter_seg hsplit hr31
    have hp3 : h3.heapListp = h.heapListp := by rw [← hh3]; exact hp1
    have hb3 : h3.brk = h.brk := by rw [← hh3]; exact hb1
    have hls3 : h3.lists = ls := by rw [← hh3]; rfl
    have hf3 := hf.replace hs hp3 hb3 (by simp only [span_cons, span_nil]; omega) hRseg hm
    have haddr : h.heapListp + wsize * span (A ++ [⟨true, asize, hU⟩]) +
        wsize * (t.size - asize) = h.heapListp + wsize * span A + wsize * span [t] := by
      simp only [span_append, span_cons, span_nil, wsize]
      omega
    have hl3 : Listed h3.lists (freeAddrs h3.heapListp (A ++ [⟨true, asize, hU⟩]) ++
        freeAddrs (h3.heapListp + wsize * span (A ++ [⟨true, asize, hU⟩]) +
          wsize * (t.size - asize)) B) h3.blkSize := by
      rw [hls3, hp3, haddr, freeAddrs_append]
      simpa only [freeAddrs, ↓reduceIte, List.append_nil] using
        hf.seg.listed_frame hm hl1
    have hs3 : h3.Shaped := ⟨by rw [Heap.listSizes, hls3]; exact hs1.1, by rw [hp3]; exact hs.2⟩
    obtain ⟨ls', e3, hti⟩ := addFreeBlock_tiling
      (show h3.Framed ((A ++ [⟨true, asize, hU⟩]) ++ ⟨false, t.size - asize, hF⟩ :: B)
        by simpa using hf3) hs3 rfl
      (noFreePair_between (noFreePair_used (B := []) hA trivial rfl) hB (by simp) hna) hl3
    rw [show h3.heapListp + wsize * span (A ++ [⟨true, asize, hU⟩]) =
      h.heapListp + wsize * span A + wsize * asize by
        simp only [hp3, span_append, span_cons, span_nil, Nat.add_zero, Nat.mul_add,
          Nat.add_assoc]] at e3
    refine ⟨{ h3 with lists := ls' }, ⟨true, asize, hU⟩,
      ⟨false, t.size - asize, hF⟩ :: B, ?_, by simpa using hti, rfl, Nat.le_refl _, hp3, hb3,
      fun b hb hu => ?_, fun he ha => ?_⟩
    · simp only [place, hsize, hrest, if_pos hsplit, markBlockUsed, hh1, e1, ok_bind, hnext,
        markBlockFree, hh3, e3]
    · have hk := hf.seg.keeps (show span [(⟨true, asize, hU⟩ : Tag),
          ⟨false, t.size - asize, hF⟩] = span [t] by simp only [span_cons, span_nil]; omega)
        hm (by simpa using hb) fun hb' => absurd hu (by
          simp only [addrs, List.mem_singleton] at hb'
          simp [hb', hseg.2.1, hfree])
      refine ⟨?_, hk.2⟩
      rw [show ({ h3 with lists := ls' } : Heap).heapListp = h.heapListp from hp3]
      simpa using hk.1
    · -- both parts of an even block split at an even size are even
      obtain ⟨hA, hB⟩ := evenSizes_append.1 he
      obtain ⟨htw, hB⟩ := evenSizes_cons.1 hB
      exact evenSizes_append.2 ⟨hA, evenSizes_cons.2 ⟨ha, evenSizes_cons.2
        ⟨show (t.size - asize) % 2 = 0 by omega, hB⟩⟩⟩
  · -- the rest is too small: the whole block is allocated
    have h8t : minBlockSizeWords ≤ span [t] := by simpa using hseg.1
    have h31t : span [t] < 2 ^ 31 := by simpa using h31
    have hm : ∀ x, x < h.heapListp + wsize * span A ∨
        h.heapListp + wsize * span A + wsize * span [t] ≤ x →
        (h.setHeaderAndFooter (h.heapListp + wsize * span A) (span [t]) true).mem x = h.mem x :=
      fun _ hx => h.setHeaderAndFooter_mem (by simp only [minBlockSizeWords] at h8t; omega)
        h31t hx
    have hf1 := hf.setHeaderAndFooter hs h8t h31t true
    rw [List.append_assoc, List.singleton_append] at hf1
    obtain ⟨ls, e1, -, hl1⟩ := unlink_listed (h := h.setHeaderAndFooter
      (h.heapListp + wsize * span A) (span [t]) true) hs hl hr
    refine ⟨{ h.setHeaderAndFooter (h.heapListp + wsize * span A) (span [t]) true with lists := ls },
      ⟨true, span [t], lt_two_pow_63 h31t⟩, B, ?_, ⟨(framed_lists _ _ _).2 hf1, noFreePair_used hA hB rfl, ?_⟩,
      rfl, by simpa using hle, rfl, rfl, fun b hb hu => ?_,
      fun he _ => EvenSizes.merge (by simpa using he)⟩
    · simpa [place, hrest, hsplit, markBlockUsed, hsize, -Nat.reducePow] using e1
    · simpa [freeAddrs_append, freeAddrs] using
        hf.seg.listed_frame hm hl1
    · have hk := hf.seg.keeps (show span [(⟨true, span [t], lt_two_pow_63 h31t⟩ : Tag)] = span [t] from rfl)
        hm (by simpa using hb) fun hb' => absurd hu (by
          simp only [addrs, List.mem_singleton] at hb'
          simp [hb', hseg.2.1, hfree])
      simpa using hk

/-! ## `mm_malloc` -/

theorem malloc_words {size : Nat} (hb : ¬align ((size + 2 * wsize) % 2 ^ 64) < size) :
    size + 2 * wsize ≤
        wsize * Malloc.max minBlockSizeWords (align ((size + 2 * wsize) % 2 ^ 64) / wsize) ∧
      Malloc.max minBlockSizeWords (align ((size + 2 * wsize) % 2 ^ 64) / wsize) ≤
        size / wsize + minBlockSizeWords := by
  unfold align at hb ⊢
  simp only [alignment, wsize, Malloc.max, minBlockSizeWords] at hb ⊢
  split <;> omega

/-- What `mm_malloc(size)` leaves when it returns `q`, from a heap whose blocks were `ts`: the
invariant, with blocks `ts'`; the allocated blocks kept; and `q` NULL with the heap as it was, or
the payload of an allocated block that was not allocated before, with room for `size` bytes. -/
structure MallocPost (h h' : Heap) (ts ts' : List Tag) (size q : Nat) : Prop where
  tiling : h'.Tiling ts'
  heapListp_eq : h'.heapListp = h.heapListp
  brk_le : h.brk ≤ h'.brk
  kept : UsedKept h h' ts ts'
  null : q = 0 → h' = h
  fresh : q ≠ 0 → wsize ≤ q ∧ q - wsize ∈ addrs h'.heapListp ts' ∧
    (h'.tag (q - wsize)).inuse = true ∧ size + 2 * wsize ≤ wsize * h'.blkSize (q - wsize) ∧
    ∀ b ∈ addrs h.heapListp ts, (h.tag b).inuse = true → b ≠ q - wsize

theorem MallocPost.unchanged {ts : List Tag} (ht : h.Tiling ts) (size : Nat) :
    MallocPost h h ts ts size 0 :=
  ⟨ht, rfl, Nat.le_refl _, UsedKept.refl h ts, fun _ => rfl, fun h0 => absurd rfl h0⟩

theorem MallocPost.of_place {h₀ h' : Heap} {ts A B ts' : List Tag} {t u : Tag} {size asize : Nat}
    (hk₀ : UsedKept h h₀ ts (A ++ t :: B)) (hp₀ : h₀.heapListp = h.heapListp)
    (hb₀ : h.brk ≤ h₀.brk) (ht₀ : h₀.Tiling (A ++ t :: B)) (hfree : t.inuse = false)
    (hroom : size + 2 * wsize ≤ wsize * asize) (hti : h'.Tiling (A ++ u :: ts'))
    (hu : u.inuse = true) (hle : asize ≤ u.size) (hp' : h'.heapListp = h₀.heapListp)
    (hb' : h'.brk = h₀.brk) (hk : UsedKept h₀ h' (A ++ t :: B) (A ++ u :: ts')) :
    MallocPost h h' ts (A ++ u :: ts') size (h₀.heapListp + wsize * span A + wsize) := by
  have htag : h'.tag (h₀.heapListp + wsize * span A) = u := by
    rw [← hp']
    exact ((h'.seg_append).1 hti.framed.seg).2.2.1
  have hsub : h₀.heapListp + wsize * span A + wsize - wsize = h₀.heapListp + wsize * span A :=
    Nat.add_sub_cancel _ _
  refine ⟨hti, hp'.trans hp₀, hb'.symm ▸ hb₀, hk₀.trans hk, fun h0 => ?_, fun _ => ?_⟩
  · simp only [wsize] at h0
    omega
  refine ⟨Nat.le_add_left _ _, ?_, ?_, ?_, fun b hb hbu => ?_⟩
  · rw [hsub, hp', addrs_append]
    exact List.mem_append_right _ (List.mem_cons_self _ _)
  · rw [hsub, htag]
    exact hu
  · rw [hsub, blkSize, htag]
    exact Nat.le_trans hroom (Nat.mul_le_mul_left _ hle)
  · intro hbeq
    rw [hsub] at hbeq
    subst hbeq
    have ht₀tag : h₀.tag (h₀.heapListp + wsize * span A) = t :=
      ((h₀.seg_append).1 ht₀.framed.seg).2.2.1
    have := (hk₀ _ hb hbu).2.1
    rw [ht₀tag] at this
    rw [← this, hfree] at hbu
    cases hbu

/-- `mm_malloc` on a heap with the invariant, when the heap and the request stay below `2^34`
bytes (so that no size reaches `set_header_and_footer`'s `int` sign bit), does not fault and
leaves what `MallocPost` says; it returns NULL only for a size of 0 or a failed `mem_sbrk`. -/
theorem mmMalloc_tiling {ts : List Tag} (ht : h.Tiling ts) (hs : h.Shaped) {size : Nat}
    {ok : Bool} (hroom : h.brk - h.heapListp + size + 2 ^ 14 ≤ 2 ^ 34) :
    ∃ h' q ts', h.mmMalloc size ok = .ok (h', q) ∧ MallocPost h h' ts ts' size q ∧
      h'.brk ≤ h.brk + size + 2 ^ 14 ∧ (q = 0 → size = 0 ∨ ok = false) ∧
      (EvenSizes ts → EvenSizes ts') := by
  have hbrk := ht.framed.brk_eq
  have hspan : span ts + size / wsize + chunksize + minBlockSizeWords < 2 ^ 31 := by
    simp only [wsize, chunksize, minBlockSizeWords] at hbrk hroom ⊢
    omega
  by_cases h0 : size = 0
  · exact ⟨h, 0, ts, by simp [mmMalloc, h0], MallocPost.unchanged ht size, by omega,
      fun _ => .inl h0, id⟩
  have hp : h.heapListp ≠ 0 := by have := hs.2; simp only [wsize] at this; omega
  have hb : ¬align ((size + 2 * wsize) % 2 ^ 64) < size := by
    unfold align
    simp only [alignment, wsize] at hroom ⊢
    omega
  obtain ⟨hroom', hwords⟩ := malloc_words hb
  have h8 : minBlockSizeWords ≤
      Malloc.max minBlockSizeWords (align ((size + 2 * wsize) % 2 ^ 64) / wsize) := by
    unfold Malloc.max; split <;> omega
  -- `align` rounds to `ALIGNMENT`, two words, so the words asked for are even
  have haw : Malloc.max minBlockSizeWords (align ((size + 2 * wsize) % 2 ^ 64) / wsize) % 2 = 0 := by
    unfold Malloc.max align
    simp only [alignment, wsize, minBlockSizeWords]
    split <;> omega
  simp only [mmMalloc, if_neg h0, if_neg hp, pure_eq, ok_bind, if_neg hb, -Nat.reducePow]
  generalize Malloc.max minBlockSizeWords (align ((size + 2 * wsize) % 2 ^ 64) / wsize) = aw
    at hroom' hwords h8 haw ⊢
  split
  · -- `find_fit` found a listed block with room
    next bp heq =>
    obtain ⟨hle, l, hl, hbl⟩ := h.findFitIn_sound heq
    obtain ⟨A, t, B, rfl, rfl, hfree⟩ := exists_of_mem_freeAddrs (ht.listed.mem hl hbl)
    have hsize : h.blkSize (h.heapListp + wsize * span A) = t.size := by
      simp only [blkSize, ((h.seg_append).1 ht.framed.seg).2.2.1]
    obtain ⟨h', u, ts', e, hti, hu, hle', hp', hb', hk, hev⟩ := place_tiling ht hs hfree h8
      (hsize ▸ hle) (by simp only [span_append, span_cons] at hspan; omega)
    exact ⟨h', _, _, by rw [e]; rfl, MallocPost.of_place (UsedKept.refl h _) rfl
      (Nat.le_refl _) ht hfree hroom' hti hu hle' hp' hb' hk, by omega, fun hq => by omega,
      fun he => hev he haw⟩
  · -- no listed block has room: the heap grows
    cases ok
    · exact ⟨h, 0, ts, by rw [extendHeap_false]; rfl, MallocPost.unchanged ht size, by omega,
        fun _ => .inr rfl, id⟩
    have hw8 : minBlockSizeWords ≤ Malloc.max aw chunksize := by
      unfold Malloc.max; split <;> omega
    have hw31 : span ts + Malloc.max aw chunksize < 2 ^ 31 := by
      unfold Malloc.max; split <;> omega
    obtain ⟨h2, A, t, B, e, hti2, hfree, hle, hp2, hb2, hk2, hev2⟩ := extendHeap_tiling hs
      ht.framed.prologue ht.framed.seg hbrk ht.no_free_pair ht.listed hw8 hw31
    have hs2 : h2.Shaped := (extendHeap_shaped hs).of_eq_ok e
    have hspan2 := hti2.framed.brk_eq
    rw [hb2, hp2, hbrk] at hspan2
    obtain ⟨h3, u, ts', e3, hti3, hu, hle3, hp3, hb3, hk3, hev3⟩ := place_tiling hti2 hs2 hfree h8
      (Nat.le_trans (by unfold Malloc.max; split <;> omega) hle)
      (by simp only [span_append, span_cons, wsize] at hspan2 hw31; omega)
    rw [hp2] at e3
    refine ⟨h3, _, _, ?_, MallocPost.of_place hk2 hp2 (by rw [hb2]; exact Nat.le_add_right _ _)
      hti2 hfree hroom' hti3 hu hle3 hp3 hb3 hk3, ?_, fun hq => by omega,
      fun he => hev3 (hev2 he (by unfold Malloc.max; simp only [chunksize]; split <;> omega)) haw⟩
    · have hne : h.heapListp + wsize * span A ≠ 0 := by omega
      simp only [e, ok_bind, if_neg hne, e3, hp2]
    · -- the heap grows by `max(words, CHUNKSIZE)` words
      rw [hb3, hb2]
      unfold Malloc.max
      simp only [wsize, chunksize, minBlockSizeWords] at hwords ⊢
      split <;> omega

end Heap

/-! ## A run from `mm_init` -/

/-- An allocated block's tag. -/
def usedTag (n : Nat) : Tag := ⟨true, n % 2 ^ 63, Nat.mod_lt _ (by decide)⟩

/-- A free block's tag. -/
def freeTag (n : Nat) : Tag := ⟨false, n % 2 ^ 63, Nat.mod_lt _ (by decide)⟩

/-- The ten size classes with the given blocks on them. -/
def classLists (bl : List (List Nat)) : List FreeList := List.zipWith FreeList.mk sizeClasses bl

/-- An empty heap from 4096, reading 0 everywhere. -/
def heap0 : Heap := Heap.empty 4096 fun _ => 0

/-- After the loop of `mm_init`: ten list headers of 56 bytes from 4096. -/
def heapLists : Heap := ⟨heap0.mem, 4656, 0, classLists [[], [], [], [], [], [], [], [], [], []]⟩

theorem initLists_heap0 :
    Heap.initLists (fun _ => true) 0 sizeClasses { heap0 with lists := [] } = .ok heapLists :=
  rfl

/-- After `mm_init`: the prologue fence at 4656 (twice), a free block of 1024 words at 4664 with
its footer at 12848, and the epilogue at 12856. -/
def client0 : Client :=
  ⟨⟨writeTag (writeTag (writeTag (writeTag (writeTag heap0.mem 4656 fence) 4656 fence) 4664
      (freeTag 1024)) 12848 (freeTag 1024)) 12856 fence, 12864, 4664,
    classLists [[], [], [4664], [], [], [], [], [], [], []]⟩, []⟩

theorem client0_reachable : Reachable client0 := by
  refine .init (show heap0.mmInit (fun _ => true) = .ok (client0.heap, 0) from ?_)
  rw [Heap.mmInit, initLists_heap0]
  rfl

/-! ## A fitting block `find_fit` passes over -/

/-- `malloc(7296)` after `mm_init`: 914 words from the first block; the rest, 110 words at 11976,
goes to the list of 64. -/
def client6 : Client :=
  ⟨⟨writeTag (writeTag (writeTag (writeTag client0.heap.mem 4664 (usedTag 914)) 11968
      (usedTag 914)) 11976 (freeTag 110)) 12848 (freeTag 110), 12864, 4664,
    classLists [[], [], [], [], [], [], [11976], [], [], []]⟩, [(4672, 7296)]⟩

/-- `malloc(784)` on `client6`, 100 words: no list is searched that holds a block, so the heap
grows by `CHUNKSIZE`; the new block is merged with the free block of 110 words before it, and the
100 words are placed at 11976 after all. -/
def client7 : Client :=
  ⟨⟨writeTag (writeTag (writeTag (writeTag (writeTag (writeTag (writeTag (writeTag (writeTag
      client6.heap.mem 12856 (freeTag 1024)) 21040 (freeTag 1024)) 21048 fence) 11976
      (freeTag 1134)) 21040 (freeTag 1134)) 11976 (usedTag 100)) 12768 (usedTag 100)) 12776
      (freeTag 1034)) 21040 (freeTag 1034), 21056, 4664,
    classLists [[], [], [12776], [], [], [], [], [], [], []]⟩, [(4672, 7296), (11984, 784)]⟩

/-- What `find_fit` returns fits and is on a free list, but it need not find a block that fits:
in `client6`, reached by `malloc(7296)` after `mm_init`, the free block of 110 words is on the list
of 64, which `find_fit(100)` does not search, so it returns NULL and `malloc(784)` extends the
heap. -/
theorem findFit_passes_over_fitting_block :
    (∀ (h : Heap) (asize b : Nat), h.findFit asize = some b →
      asize ≤ h.blkSize b ∧ ∃ l ∈ h.lists, b ∈ l.blocks) ∧
    Reachable client6 ∧ client6.heap.Inv [4664, 11976] ∧
      11976 ∈ (client6.heap.lists.map FreeList.blocks).flatten ∧ client6.heap.blkSize 11976 = 110 ∧
      client6.heap.findFit 100 = none ∧
      client6.step (.malloc 784 true) = some (.ok client7) ∧ client6.heap.brk < client7.heap.brk :=
  ⟨fun h _ _ e => h.findFitIn_sound e, .step (.malloc 7296 true) client0_reachable rfl,
    by decide, by decide, by decide, by decide, rfl, by decide⟩

end Malloc
end SystemsLab
