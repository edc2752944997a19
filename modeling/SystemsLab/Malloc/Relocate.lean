import SystemsLab.Malloc.Realloc

/-!
# Malloc.Relocate

`mm_realloc` when the block of `p` has too few words in place. It then takes in the block before
it too when that one is free (`Heap.absorbPrev`), and either copies the bytes from `p` down into
the block it gathered (`Heap.copyDown`), or calls `mm_malloc`, copies into the new block and
frees the gathered one (`Heap.reallocMove`). Each copy is a `memcpy`, which C leaves undefined
between overlapping ranges (`Fault.memcpyOverlap`). On a heap below `2^34` bytes every path that
returns a pointer returns a good one:

* `Heap.Gathered`: what the two steps that take in neighbours leave, `Heap.absorbPrev_spec`;
* `Heap.Relocated`: what `mm_realloc` promises when it returns `q ≠ 0`: the invariant, `q` the
  payload of an allocated block with room for the new size, the bytes from `p` up to the smaller
  size at `q`, and every other allocated block as it was. `Heap.mmRealloc_relocates` shows it on
  every path, and that only a `mem_sbrk` that fails makes the result NULL, with an overlapping
  copy down the one fault;
* `Client.Inv.realloc_relocates`: the same for the program, and `ReallocRun.realloc_moves` over
  whole runs of `mm_malloc`, `mm_free` and `mm_realloc` in which the calls of `mm_realloc` see
  `mem_sbrk` succeed.

The copy down does overlap on a run with the invariant: `realloc_copy_down_overlaps`. And when
`mem_sbrk` fails the path through `mm_malloc` goes wrong (`realloc_failure_strands_pointer`): the
neighbours are taken in before the NULL.
-/

namespace SystemsLab
namespace Malloc

namespace Heap

variable {h : Heap}

/-! ## Taking in the previous block -/

theorem absorbPrev_free {A B : List Tag} {l u : Tag} (ht : h.Tiling ((A ++ [l]) ++ u :: B))
    (hs : h.Shaped) (hl : l.inuse = false) (hu : u.inuse = true) (h31 : span [l, u] < 2 ^ 31) :
    ∃ h', h.absorbPrev (h.heapListp + wsize * span (A ++ [l])) false =
        .ok (h', h.heapListp + wsize * span A) ∧ h'.Shaped ∧
      h'.Tiling (A ++ ⟨true, span [l, u], lt_two_pow_63 h31⟩ :: B) ∧ h'.heapListp = h.heapListp ∧
      (∀ c ∈ addrs h.heapListp ((A ++ [l]) ++ u :: B), c ≠ h.heapListp + wsize * span (A ++ [l]) →
        (h.tag c).inuse = true →
        c ∈ addrs h'.heapListp (A ++ ⟨true, span [l, u], lt_two_pow_63 h31⟩ :: B) ∧
          c ≠ h.heapListp + wsize * span A ∧ h'.tag c = h.tag c ∧
          ∀ x, c ≤ x → x < c + wsize * (h.tag c).size → h'.mem x = h.mem x) ∧
      ∀ x, h.heapListp + wsize * span (A ++ [l]) ≤ x →
        x + wsize < h.heapListp + wsize * span (A ++ [l]) + wsize * u.size → h'.mem x = h.mem x := by
  have hb : h.heapListp + wsize * span (A ++ [l]) = h.heapListp + wsize * span A + wsize * l.size := by
    simp only [span_append, span_cons, span_nil, Nat.add_zero, Nat.mul_add, Nat.add_assoc]
  have ht' : h.Tiling (A ++ l :: u :: B) := by simpa using ht
  have hf : h.Framed (A ++ [l, u] ++ B) := by simpa using ht.framed
  obtain ⟨hprev, -⟩ := (show h.Framed (A ++ [l] ++ u :: B) by simpa using ht.framed).prevBlk_eq
  obtain ⟨hl8, hlb, -, hu8, hub, -, -⟩ := ((h.seg_append).1 ht'.framed.seg).2
  have h8 : minBlockSizeWords ≤ span [l, u] := by simp only [span_cons, span_nil]; omega
  have h2 : 2 ≤ span [l, u] := by simp only [minBlockSizeWords] at h8; omega
  obtain ⟨hA, hnfB, -⟩ := noFreePair_append.1 ht'.no_free_pair
  -- `list_remove` of `l`, which is on its list
  have hlst : Listed h.lists (freeAddrs h.heapListp A ++ (h.heapListp + wsize * span A) ::
      freeAddrs (h.heapListp + wsize * span A + wsize * l.size + wsize * u.size) B) h.blkSize := by
    simpa [freeAddrs_append, freeAddrs, hl, hu] using ht'.listed
  obtain ⟨ls, e1, hs1, hl1⟩ :=
    unlink_listed hs hlst (not_mem_freeAddrs ht'.framed.seg (Nat.le_refl _))
  rw [show h.heapListp + wsize * span A + wsize * l.size + wsize * u.size =
    h.heapListp + wsize * span A + wsize * span [l, u] by
      simp only [span_cons, span_nil, Nat.add_zero, Nat.mul_add, Nat.add_assoc]] at hl1
  -- `mark_block_used` of the two at `l`
  have hf2 := ((framed_lists h ls _).2 hf).setHeaderAndFooter hs1 h8 h31 true
  rw [List.append_assoc, List.singleton_append] at hf2
  have hm : ∀ x, x < h.heapListp + wsize * span A ∨
      h.heapListp + wsize * span A + wsize * span [l, u] ≤ x →
      (({ h with lists := ls } : Heap).setHeaderAndFooter (h.heapListp + wsize * span A)
        (span [l, u]) true).mem x = h.mem x :=
    fun _ hx => setHeaderAndFooter_mem _ h2 h31 hx
  have hsum : u.size + l.size = span [l, u] := by simp only [span_cons, span_nil]; omega
  refine ⟨({ h with lists := ls } : Heap).setHeaderAndFooter (h.heapListp + wsize * span A)
    (span [l, u]) true, ?_, hs1, ⟨hf2, noFreePair_used hA hnfB.tail.tail rfl, ?_⟩, rfl,
    fun c hc hne hcu => ?_, fun x h1 h2' => ?_⟩
  · rw [hb] at hprev ⊢
    simp only [absorbPrev, Bool.not_false, if_true, hprev, e1, ok_bind, pure_eq, markBlockUsed,
      blkSize, tag_lists, hub, hlb, hsum]
  · simpa [freeAddrs_append, freeAddrs] using hf.seg.listed_frame hm hl1
  · -- an allocated block other than `u` is neither `u` nor the free `l`
    have hcl : c ≠ h.heapListp + wsize * span A := by
      rintro rfl
      rw [hlb, hl] at hcu
      cases hcu
    have hk := hf.seg.keeps
      (show span [⟨true, span [l, u], lt_two_pow_63 h31⟩] = span [l, u] by simp) hm
      (by simpa using hc) fun hcR => by
        simp only [addrs, List.mem_cons, List.not_mem_nil, or_false] at hcR
        rcases hcR with rfl | rfl
        · exact hcl rfl
        · exact hne hb.symm
    rw [List.append_assoc, List.singleton_append] at hk
    exact ⟨hk.1, hcl, hk.2⟩
  · rw [hb] at h1 h2'
    exact setHeaderAndFooter_mem_inside _ h2 h31 (by simp only [wsize, minBlockSizeWords] at *; omega)
      (by simp only [span_cons, span_nil, wsize] at h2' ⊢; omega)

/-- Where `mm_realloc` stands once it has taken in the blocks around `p`'s: the blocks are
`C ++ w :: D`, with `w` allocated after the blocks `C`; `p`'s block, with the header `v` it has
after the first step, lies inside `w`; and the `n` bytes from `p` and every other allocated block
of `h` are as in `h`. -/
structure Gathered (h h' : Heap) (ts C D : List Tag) (w v : Tag) (p n : Nat) : Prop where
  tiling : h'.Tiling (C ++ w :: D)
  shaped : h'.Shaped
  heapListp_eq : h'.heapListp = h.heapListp
  span_eq : span (C ++ w :: D) = span ts
  inuse : w.inuse = true
  start : h.heapListp + wsize * span C + wsize ≤ p
  inside : p - wsize + wsize * v.size ≤ h.heapListp + wsize * span C + wsize * w.size
  header : h'.tag (p - wsize) = v
  room : n + 2 * wsize ≤ wsize * v.size
  bytes : ∀ x, p ≤ x → x < p + n → h'.mem x = h.mem x
  kept : ∀ c ∈ addrs h.heapListp ts, c ≠ p - wsize → (h.tag c).inuse = true →
    c ∈ addrs h'.heapListp (C ++ w :: D) ∧ c ≠ h.heapListp + wsize * span C ∧ h'.tag c = h.tag c ∧
      ∀ x, c ≤ x → x < c + wsize * (h.tag c).size → h'.mem x = h.mem x

/-- After the first step, the second takes in the block before when the footer before `p`'s
block, read before the first step, says it is free; either way the heap is `Gathered`. -/
theorem absorbPrev_spec {h1 : Heap} {A B B1 : List Tag} {u u1 : Tag} (ht : h.Tiling (A ++ u :: B))
    (post : AbsorbPost h h1 A B B1 u u1) (hs1 : h1.Shaped) (h31 : span (A ++ u :: B) < 2 ^ 31)
    {n : Nat} (hn : n + 2 * wsize ≤ wsize * u.size) :
    ∃ h2 C D w, h1.absorbPrev (h.heapListp + wsize * span A)
        (h.tag (prevBlkFooter (h.heapListp + wsize * span A))).inuse =
        .ok (h2, h.heapListp + wsize * span C) ∧
      Gathered h h2 (A ++ u :: B) C D w u1 (h.heapListp + wsize * span A + wsize) n := by
  have hgrow := post.grows
  have hspan := post.span_eq
  have hv8 := ((h1.seg_append).1 post.tiling.framed.seg).2.1
  rw [ht.framed.tag_before]
  have hsub : h.heapListp + wsize * span A + wsize - wsize = h.heapListp + wsize * span A :=
    Nat.add_sub_cancel _ _
  have hgrow8 : wsize * u.size ≤ wsize * u1.size := Nat.mul_le_mul_left _ hgrow
  cases hpa : (A.getLast?.getD fence).inuse with
  | true =>
    refine ⟨h1, A, B1, u1, by simp [absorbPrev], ⟨post.tiling, hs1, post.heapListp_eq,
      by simp only [span_append, hspan], post.inuse, Nat.le_refl _, by omega,
      by rw [hsub]; exact post.tag_self, by omega, fun x hx1 hx2 => post.payload x hx1 (by omega),
      fun c hc hne hcu => ?_⟩⟩
    rw [hsub] at hne
    obtain ⟨hc', ht', hm'⟩ := post.kept c hc hne hcu
    exact ⟨hc', hne, ht', hm'⟩
  | false =>
    obtain ⟨A', l, rfl, hl⟩ := exists_concat_free hpa
    have h31' : span [l, u1] < 2 ^ 31 := by
      simp only [span_append, span_cons, span_nil] at h31 hspan ⊢
      omega
    obtain ⟨h2, e, hs2, ht2, hp2, hk2, hin2⟩ := absorbPrev_free post.tiling hs1 hl post.inuse h31'
    rw [post.heapListp_eq] at e hk2 hin2
    have hsz : wsize * span (A' ++ [l]) = wsize * span A' + wsize * l.size := by
      simp only [span_append, span_cons, span_nil, Nat.add_zero, Nat.mul_add]
    refine ⟨h2, A', B1, _, e, ⟨ht2, hs2, hp2.trans post.heapListp_eq, ?_, rfl, by omega, ?_, ?_,
      by omega, fun x hx1 hx2 => ?_, fun c hc hne hcu => ?_⟩⟩
    · simp only [span_append, span_cons, span_nil] at hspan ⊢
      omega
    · simp only [span_cons, span_nil, Nat.add_zero, Nat.mul_add]
      omega
    · rw [hsub, ← post.tag_self]
      exact h1.tag_congr fun x hx1 hx2 => hin2 x hx1
        (by simp only [minBlockSizeWords, wsize] at hv8 hx2 ⊢; omega)
    · rw [hin2 x (by omega) (by simp only [wsize] at hn hx2 hgrow8 ⊢; omega)]
      exact post.payload x (by omega) (by simp only [wsize] at hn hx2 ⊢; omega)
    · rw [hsub] at hne
      obtain ⟨hc1, ht1, hm1⟩ := post.kept c hc hne hcu
      obtain ⟨hc2, hcl, ht2', hm2⟩ := hk2 c (by rw [← post.heapListp_eq]; exact hc1) hne
        (by rw [ht1]; exact hcu)
      refine ⟨hc2, hcl, ht2'.trans ht1, fun x hx1 hx2 => ?_⟩
      rw [ht1] at hm2
      exact (hm2 x hx1 hx2).trans (hm1 x hx1 hx2)

/-! ## Copying -/

theorem tag_of_block {h' : Heap} {c : Nat} (h1 : 1 ≤ (h.tag c).size)
    (hm : ∀ x, c ≤ x → x < c + wsize * (h.tag c).size → h'.mem x = h.mem x) : h'.tag c = h.tag c :=
  h.tag_congr fun x hx1 hx2 => hm x hx1 (by simp only [wsize] at *; omega)

theorem Tiling.write_payload {ts : List Tag} (ht : h.Tiling ts) (hs : h.Shaped) {b : Nat}
    (hb : b ∈ addrs h.heapListp ts) (hu : (h.tag b).inuse = true) (mem : Nat → UInt8)
    (hm : ∀ x, x < b + wsize ∨ b + wsize * (h.tag b).size - wsize ≤ x → mem x = h.mem x) :
    ({ h with mem := mem } : Heap).Tiling ts ∧ ∀ c ∈ addrs h.heapListp ts, c ≠ b →
      ∀ x, c ≤ x → x < c + wsize * (h.tag c).size → mem x = h.mem x := by
  obtain ⟨A, t, B, rfl, rfl⟩ := exists_of_mem_addrs hb
  have hf : h.Framed (A ++ [t] ++ B) := by simpa using ht.framed
  obtain ⟨h8, htag, hfoot, -⟩ := ((h.seg_append).1 ht.framed.seg).2
  rw [htag] at hu hm
  simp only [minBlockSizeWords] at h8
  have hout : ∀ x, x < h.heapListp + wsize * span A ∨
      h.heapListp + wsize * span A + wsize * span [t] ≤ x → mem x = h.mem x := fun x hx =>
    hm x (by simp only [span_cons, span_nil, Nat.add_zero, wsize] at hx ⊢; omega)
  have hseg : ({ h with mem := mem } : Heap).Seg (h.heapListp + wsize * span A) [t] :=
    ⟨by simp only [minBlockSizeWords]; omega,
      (h.tag_congr fun x _ hx2 => hm x (.inl hx2)).trans htag,
      (h.tag_congr fun x hx1 _ => hm x (.inr hx1)).trans hfoot, trivial⟩
  have hl : Listed h.lists (freeAddrs h.heapListp A ++
      freeAddrs (h.heapListp + wsize * span A + wsize * span [t]) B) h.blkSize := by
    simpa [freeAddrs_append, freeAddrs, hu] using ht.listed
  have hf' : ({ h with mem := mem } : Heap).Framed (A ++ [t] ++ B) :=
    hf.replace hs rfl rfl rfl hseg hout
  rw [List.append_assoc, List.singleton_append] at hf'
  refine ⟨⟨hf', ht.no_free_pair, ?_⟩,
    fun c hc hne x hx1 hx2 => hout x (hf.seg.block_outside ?_ hx1 hx2)⟩
  · simpa [freeAddrs_append, freeAddrs, hu] using hf.seg.listed_frame hout hl
  · simp only [addrs_append, addrs, List.mem_append, List.mem_cons] at hc
    simp only [span_cons, span_nil, Nat.add_zero, List.mem_append]
    rcases hc with hc | rfl | hc
    exacts [.inl hc, absurd rfl hne, .inr hc]

/-- What `mm_realloc` promises when it returns `q ≠ 0` for the `n` bytes at `p` and the new size
`m`: the invariant with the blocks `ts'`; `q` the payload of an allocated block with room for `m`
bytes that holds the bytes from `p` up to the smaller size; and every other allocated block of
`h` with its tag and bytes, none of them `q`'s. -/
structure Relocated (h h' : Heap) (ts ts' : List Tag) (p n q m : Nat) : Prop where
  tiling : h'.Tiling ts'
  shaped : h'.Shaped
  heapListp_eq : h'.heapListp = h.heapListp
  q8 : wsize ≤ q
  mem : q - wsize ∈ addrs h'.heapListp ts'
  inuse : (h'.tag (q - wsize)).inuse = true
  room : m + 2 * wsize ≤ wsize * h'.blkSize (q - wsize)
  copied : ∀ k, k < n → k < m → h'.mem (q + k) = h.mem (p + k)
  kept : ∀ c ∈ addrs h.heapListp ts, c ≠ p - wsize → (h.tag c).inuse = true →
    c ∈ addrs h'.heapListp ts' ∧ c ≠ q - wsize ∧ h'.tag c = h.tag c ∧
      ∀ x, c ≤ x → x < c + wsize * (h.tag c).size → h'.mem x = h.mem x

namespace Gathered

variable {h' : Heap} {ts C D : List Tag} {w v : Tag} {p n : Nat}

theorem tag_self (hg : Gathered h h' ts C D w v p n) : h'.tag (h.heapListp + wsize * span C) = w := by
  rw [← hg.heapListp_eq]
  exact ((h'.seg_append).1 hg.tiling.framed.seg).2.2.1

theorem mem_self (hg : Gathered h h' ts C D w v p n) :
    h.heapListp + wsize * span C ∈ addrs h'.heapListp (C ++ w :: D) := by
  rw [addrs_append, hg.heapListp_eq]
  exact List.mem_append_right _ (List.mem_cons_self _ _)

theorem size_le (hg : Gathered h h' ts C D w v p n) : 2 ≤ v.size ∧ v.size ≤ w.size ∧
    minBlockSizeWords ≤ w.size ∧ w.size ≤ span ts := by
  have := hg.room
  have := hg.start
  have := hg.inside
  have h8 := ((h'.seg_append).1 hg.tiling.framed.seg).2.1
  have hsp := hg.span_eq
  simp only [span_append, span_cons] at hsp
  simp only [minBlockSizeWords, wsize] at *
  omega

end Gathered

theorem copyDown_spec {h' : Heap} {ts C D : List Tag} {w v : Tag} {p n m : Nat}
    (hg : Gathered h h' ts C D w v p n) (h31 : span ts < 2 ^ 31) (hfit : m ≤ w.size) :
    h'.copyDown p m (h.heapListp + wsize * span C) = .error .memcpyOverlap ∨
    ∃ h'', h'.copyDown p m (h.heapListp + wsize * span C) =
        .ok (h'', h.heapListp + wsize * span C + wsize) ∧
      Relocated h h'' ts (C ++ w :: D) p n (h.heapListp + wsize * span C + wsize) m := by
  obtain ⟨-, -, hw8, hwts⟩ := hg.size_le
  simp only [minBlockSizeWords] at hw8
  have hstart := hg.start
  have hbs : (if m < h'.blkSize (h.heapListp + wsize * span C) * wsize % 2 ^ 64 then m
      else h'.blkSize (h.heapListp + wsize * span C) * wsize % 2 ^ 64) = m := by
    rw [blkSize, hg.tag_self, Nat.mod_eq_of_lt (by simp only [wsize]; omega),
      if_pos (by simp only [wsize] at hw8 hfit ⊢; omega)]
  by_cases hov : ¬(h.heapListp + wsize * span C + wsize + m ≤ p ∨
      p + m ≤ h.heapListp + wsize * span C + wsize)
  · exact .inl (by simp only [copyDown, hbs, memcpy_of_overlap hov, error_bind])
  rw [Classical.not_not] at hov
  obtain ⟨hti, hoth⟩ := hg.tiling.write_payload hg.shaped hg.mem_self
    (by rw [hg.tag_self]; exact hg.inuse) (copyBytes h'.mem (h.heapListp + wsize * span C + wsize) p m)
    fun x hx => copyBytes_apply (by rw [hg.tag_self] at hx; simp only [wsize] at hx ⊢; omega)
  have hhead : ({ h' with mem := copyBytes h'.mem (h.heapListp + wsize * span C + wsize) p m } :
      Heap).tag (h.heapListp + wsize * span C) = w :=
    (h'.tag_congr fun x _ hx2 => copyBytes_apply (.inl hx2)).trans hg.tag_self
  refine .inr ⟨_, by simp only [copyDown, hbs, memcpy_of_disjoint hov, ok_bind, pure_eq],
    ⟨hti, hg.shaped, hg.heapListp_eq, Nat.le_add_left _ _,
    by rw [Nat.add_sub_cancel]; exact hg.mem_self, by rw [Nat.add_sub_cancel, hhead]; exact hg.inuse,
    by rw [Nat.add_sub_cancel, blkSize, hhead]; simp only [wsize]; omega, fun k hk hkm => ?_,
    fun c hc hne hcu => ?_⟩⟩
  · dsimp only
    rw [copyBytes_self_add hkm (.inl hstart)]
    exact hg.bytes _ (Nat.le_add_right _ _) (by omega)
  · obtain ⟨hc', hcC, htc, hmc⟩ := hg.kept c hc hne hcu
    have hm' := hoth c hc' hcC
    have h8 := (hg.tiling.framed.seg.forall_addrs c hc').1
    simp only [blkSize, minBlockSizeWords] at h8
    refine ⟨hc', by rw [Nat.add_sub_cancel]; exact hcC,
      (tag_of_block (h := h') (by omega) hm').trans htc, fun x hx1 hx2 => ?_⟩
    exact (hm' x hx1 (by rw [htc]; exact hx2)).trans (hmc x hx1 hx2)

theorem Gathered.malloc_copy {h' h3 : Heap} {ts C D ts3 : List Tag} {w v : Tag} {p n m q : Nat}
    (hg : Gathered h h' ts C D w v p n) (mp : MallocPost h' h3 (C ++ w :: D) ts3 m q)
    (hs3 : h3.Shaped) (hq : q ≠ 0) :
    h3.tag (p - wsize) = v ∧
      Relocated h
        { h3 with mem := copyBytes h3.mem q p (if m < v.size * wsize then m else v.size * wsize) }
        ts ts3 p n q m ∧
      h.heapListp + wsize * span C ∈ addrs h3.heapListp ts3 ∧
      h.heapListp + wsize * span C ≠ q - wsize ∧
      ({ h3 with mem := copyBytes h3.mem q p (if m < v.size * wsize then m else v.size * wsize) } :
        Heap).tag (h.heapListp + wsize * span C) = w ∧
      (q + (if m < v.size * wsize then m else v.size * wsize) ≤ p ∨
        p + (if m < v.size * wsize then m else v.size * wsize) ≤ q) := by
  -- the length `mm_realloc` copies: the new size, or the bytes of `p`'s block when fewer
  generalize hL : (if m < v.size * wsize then m else v.size * wsize) = L
  have hLm : L ≤ m ∧ L ≤ v.size * wsize ∧ (m ≤ L ∨ v.size * wsize ≤ L) := by
    subst hL; split <;> omega
  obtain ⟨hv2, hvw, -, -⟩ := hg.size_le
  have hstart := hg.start
  have hinside := hg.inside
  obtain ⟨hq8, hqb, hqu, hqroom, hfresh⟩ := mp.fresh hq
  rw [blkSize] at hqroom
  -- the gathered block is allocated, so `mm_malloc` keeps it, with `p`'s header inside
  have hobu : (h'.tag (h.heapListp + wsize * span C)).inuse = true := by
    rw [hg.tag_self]; exact hg.inuse
  obtain ⟨hob3, hobt3, hobb3⟩ := mp.kept _ hg.mem_self hobu
  rw [hg.tag_self] at hobt3 hobb3
  have hne : h.heapListp + wsize * span C ≠ q - wsize := hfresh _ hg.mem_self hobu
  have hdisj := mp.tiling.framed.seg.disjoint _ hqb _ hob3 hne.symm
  rw [hobt3] at hdisj
  -- the copy stays inside the payload of `q`'s block
  obtain ⟨ht4, hoth4⟩ := mp.tiling.write_payload hs3 hqb hqu
    (copyBytes h3.mem q p (L)) fun x hx => copyBytes_apply
      (by simp only [wsize] at hx hqroom hq8 hLm ⊢; omega)
  have hq4 : ({ h3 with mem := copyBytes h3.mem q p (L) } : Heap).tag
      (q - wsize) = h3.tag (q - wsize) :=
    h3.tag_congr fun x _ hx2 => copyBytes_apply (.inl (by simp only [wsize] at hx2 hq8 ⊢; omega))
  refine ⟨(h'.tag_congr fun x hx1 hx2 => hobb3 x (by simp only [wsize] at hstart hx1 ⊢; omega)
      (by simp only [wsize] at hx2 hinside hv2 ⊢; omega)).trans hg.header,
    ⟨ht4, hs3, mp.heapListp_eq.trans hg.heapListp_eq, hq8, hqb, by rw [hq4]; exact hqu,
      by rw [blkSize, hq4]; exact hqroom, fun k hk hkm => ?_, fun c hc hne' hcu => ?_⟩, hob3, hne,
    (tag_of_block (h := h3) (by rw [hobt3]; omega) (hoth4 _ hob3 hne)).trans hobt3,
    by simp only [wsize] at hdisj hinside hstart hq8 hqroom hLm ⊢; omega⟩
  · -- the new block lies wholly before the gathered one, or wholly after `p`'s old block
    have hroomv := hg.room
    have hk' : k < L := by simp only [wsize] at hroomv hLm ⊢; omega
    dsimp only
    rw [copyBytes_self_add hk'
        (by simp only [wsize] at hdisj hinside hstart hq8 hLm ⊢; omega),
      hobb3 _ (by omega) (by simp only [wsize] at hroomv hinside hstart ⊢; omega)]
    exact hg.bytes _ (Nat.le_add_right _ _) (by omega)
  · obtain ⟨hc', hcC, htc, hmc⟩ := hg.kept c hc hne' hcu
    have hcu' : (h'.tag c).inuse = true := by rw [htc]; exact hcu
    obtain ⟨hc3, htc3, hmc3⟩ := mp.kept c hc' hcu'
    have hcq : c ≠ q - wsize := hfresh c hc' hcu'
    have h8 := (hg.tiling.framed.seg.forall_addrs c hc').1
    simp only [blkSize, minBlockSizeWords] at h8
    have hm4 := hoth4 c hc3 hcq
    rw [htc3] at hm4
    have htc4 : ({ h3 with mem := copyBytes h3.mem q p (L) } : Heap).tag c =
        h'.tag c :=
      (tag_of_block (h := h3) (by rw [htc3]; omega) (by rw [htc3]; exact hm4)).trans htc3
    rw [htc] at hm4 hmc3 htc4
    exact ⟨hc3, hcq, htc4,
      fun x hx1 hx2 => (hm4 x hx1 hx2).trans ((hmc3 x hx1 hx2).trans (hmc x hx1 hx2))⟩

theorem Relocated.free {h' : Heap} {ts ts' : List Tag} {p n q m b : Nat}
    (r : Relocated h h' ts ts' p n q m) (h31 : span ts' < 2 ^ 31)
    (hb : b ∈ addrs h'.heapListp ts') (hbq : b ≠ q - wsize) (hbu : (h'.tag b).inuse = true)
    (hkb : ∀ c ∈ addrs h.heapListp ts, c ≠ p - wsize → (h.tag c).inuse = true → c ≠ b) :
    ∃ h'' ts'', h'.mmFree (b + wsize) = .ok h'' ∧ Relocated h h'' ts ts'' p n q m := by
  obtain ⟨h5, ts5, e5, ht5, hp5, -, hk5, -⟩ := mmFree_tiling r.tiling r.shaped h31
    (Nat.le_add_left wsize _) (by rw [Nat.add_sub_cancel]; exact hb)
    (by rw [Nat.add_sub_cancel]; exact hbu)
  rw [Nat.add_sub_cancel] at hk5
  obtain ⟨hq5, hqt5, hqb5⟩ := hk5 _ r.mem hbq.symm r.inuse
  have hq8 := r.q8
  have hroom := r.room
  rw [blkSize] at hroom
  refine ⟨h5, ts5, e5, ht5, (mmFree_shaped r.shaped).of_eq_ok e5, hp5.trans r.heapListp_eq, hq8,
    hq5, by rw [hqt5]; exact r.inuse, by rw [blkSize, hqt5]; exact r.room,
    fun k hk hkm => ?_, fun c hc hne hcu => ?_⟩
  · rw [hqb5 _ (by omega) (by simp only [wsize] at hroom hq8 ⊢; omega)]
    exact r.copied k hk hkm
  · obtain ⟨hc', hcq, htc, hmc⟩ := r.kept c hc hne hcu
    obtain ⟨hc5, htc5, hmc5⟩ := hk5 c hc' (hkb c hc hne hcu) (by rw [htc]; exact hcu)
    rw [htc] at hmc5
    exact ⟨hc5, hcq, htc5.trans htc, fun x hx1 hx2 => (hmc5 x hx1 hx2).trans (hmc x hx1 hx2)⟩

theorem reallocMove_spec {h' : Heap} {ts C D : List Tag} {w v : Tag} {p n m : Nat}
    (hg : Gathered h h' ts C D w v p n) (htb : h.brk = h.heapListp + wsize * span ts + wsize)
    (hroom : h.brk - h.heapListp + m + 2 ^ 14 ≤ 2 ^ 34) (hm0 : 0 < m) (ok : Bool) :
    ∃ h'' q, h'.reallocMove p m (h.heapListp + wsize * span C) ok = .ok (h'', q) ∧
      (q = 0 → ok = false) ∧ (q ≠ 0 → ∃ ts', Relocated h h'' ts ts' p n q m) := by
  have hbrk : h'.brk = h.brk := by rw [hg.tiling.framed.brk_eq, hg.heapListp_eq, hg.span_eq, htb]
  obtain ⟨h3, q, ts3, e, mp, hb3, hnull, -⟩ := @mmMalloc_tiling h' _ hg.tiling hg.shaped m ok
    (by rw [hbrk, hg.heapListp_eq]; exact hroom)
  by_cases hq : q = 0
  · subst hq
    exact ⟨h3, 0, by simp [reallocMove, e],
      fun _ => (hnull rfl).resolve_left (by omega), fun h0 => absurd rfl h0⟩
  obtain ⟨hv3, r4, hob4, hne, htw, hmd⟩ :=
    hg.malloc_copy mp ((mmMalloc_shaped hg.shaped).of_eq_ok e) hq
  -- the heap is below `2^34` bytes, so `mm_free` of the gathered block does not fault
  have h31 : span ts3 < 2 ^ 31 := by
    have := mp.tiling.framed.brk_eq
    rw [mp.heapListp_eq, hg.heapListp_eq] at this
    simp only [wsize] at this hb3 hbrk hroom htb
    omega
  obtain ⟨h5, ts5, e5, r5⟩ := r4.free h31 hob4 hne (by rw [htw]; exact hg.inuse)
    fun c hc hne' hcu => (hg.kept c hc hne' hcu).2.1
  refine ⟨h5, q, ?_, fun h0 => absurd h0 hq, fun _ => ⟨ts5, r5⟩⟩
  obtain ⟨-, hvw, -, hwts⟩ := hg.size_le
  have hts : span ts < 2 ^ 31 := by simp only [wsize] at htb hroom; omega
  simp only [reallocMove, e, ok_bind, if_neg hq]
  rw [blkSize, hv3, Nat.mod_eq_of_lt (by simp only [wsize]; omega), memcpy_of_disjoint hmd, ok_bind,
    e5]
  rfl

/-! ## The whole call -/

/-- `mm_realloc(b + wsize, m)` of the allocated block at `b`, which holds `n` bytes, on a heap with
the invariant below `2^34` bytes with room for `m` more, for `0 < m`: the call does not fault; it
returns NULL only when `mem_sbrk` fails, and any other pointer as `Relocated` says, unless it
copies down between overlapping ranges, which needs a free block before `b`'s. -/
theorem mmRealloc_relocates {ts : List Tag} (ht : h.Tiling ts) (hs : h.Shaped) {b n m : Nat}
    (hb : b ∈ addrs h.heapListp ts) (hu : (h.tag b).inuse = true)
    (hn : n + 2 * wsize ≤ wsize * h.blkSize b)
    (hroom : h.brk - h.heapListp + m + 2 ^ 14 ≤ 2 ^ 34) (hm0 : 0 < m) (ok : Bool) :
    (h.tag (prevBlkFooter b)).inuse = false ∧ h.mmRealloc (b + wsize) m ok = .error .memcpyOverlap ∨
    ∃ h' q, h.mmRealloc (b + wsize) m ok = .ok (h', q) ∧ (q = 0 → ok = false) ∧
      (q ≠ 0 → ∃ ts', Relocated h h' ts ts' (b + wsize) n q m) := by
  obtain ⟨A, u, B, rfl, rfl⟩ := exists_of_mem_addrs hb
  have htag := ((h.seg_append).1 ht.framed.seg).2.2.1
  have htb := ht.framed.brk_eq
  have h31 : span (A ++ u :: B) < 2 ^ 31 := by simp only [wsize] at htb hroom; omega
  rw [blkSize, htag] at hn
  rw [htag] at hu
  obtain ⟨h1, u1, B1, e1, hs1, -, post⟩ := absorbNext_spec ht hs hu h31
  have hp := hs.2
  rw [mmRealloc_eq (by omega) (by simp only [wsize] at hp ⊢; omega) ok, Nat.add_sub_cancel, e1,
    ok_bind]
  by_cases hfit : m ≤ h1.blkSize (h.heapListp + wsize * span A)
  · -- in place
    rw [if_pos hfit]
    rw [blkSize, post.tag_self] at hfit
    have hu8 := ((h1.seg_append).1 post.tiling.framed.seg).2.1
    have hgrow := post.grows
    refine .inr ⟨h1, _, rfl, fun h0 => absurd h0 (by omega), fun _ => ⟨A ++ u1 :: B1, post.tiling, hs1,
      post.heapListp_eq, Nat.le_add_left _ _, ?_, ?_, ?_,
      fun k hk _ => post.payload _ (by omega) (by simp only [wsize] at hn ⊢; omega),
      fun c hc hne hcu => ?_⟩⟩
    · rw [Nat.add_sub_cancel, addrs_append, post.heapListp_eq]
      exact List.mem_append_right _ (List.mem_cons_self _ _)
    · rw [Nat.add_sub_cancel, post.tag_self]
      exact post.inuse
    · rw [Nat.add_sub_cancel, blkSize, post.tag_self]
      simp only [minBlockSizeWords, wsize] at hu8 ⊢
      omega
    · rw [Nat.add_sub_cancel] at hne ⊢
      obtain ⟨hc', htc, hmc⟩ := post.kept c hc hne hcu
      exact ⟨hc', hne, htc, hmc⟩
  · rw [if_neg hfit]
    obtain ⟨h2, C, D, w, e2, hg⟩ := absorbPrev_spec ht post hs1 h31 hn
    rw [e2, ok_bind]
    dsimp only
    by_cases hfit2 : m ≤ h2.blkSize (h.heapListp + wsize * span C)
    · -- copied down
      rw [if_pos hfit2]
      have hfit2' := hfit2
      rw [blkSize, hg.tag_self] at hfit2
      rcases copyDown_spec hg h31 hfit2 with e3 | ⟨h3, e3, hr⟩
      · refine .inl ⟨?_, e3⟩
        -- with the block before allocated the second step changes nothing, and the copy-down
        -- test repeats the one that failed
        cases hpa : (h.tag (prevBlkFooter (h.heapListp + wsize * span A))).inuse
        · rfl
        · rw [hpa] at e2
          simp only [absorbPrev, Bool.not_true, Bool.false_eq_true, if_false, pure_eq,
            Except.ok.injEq, Prod.mk.injEq] at e2
          obtain ⟨rfl, hC⟩ := e2
          rw [← hC] at hfit2'
          exact absurd hfit2' hfit
      · exact .inr ⟨h3, _, e3, fun h0 => absurd h0 (by omega), fun _ => ⟨_, hr⟩⟩
    · -- moved
      rw [if_neg hfit2]
      exact .inr (reallocMove_spec hg htb hroom hm0 ok)

end Heap

/-! ## A copy down between overlapping ranges -/

/-- `bigClient` after `malloc(8)`, which keeps the block after 4736's allocated. -/
def fencedClient : Client :=
  match bigClient.step (.malloc 8 true) with
  | some (.ok c) => c
  | _ => bigClient

/-- `fencedClient` after `free(4672)`: the block of 8 words before 4736's is free. -/
def overlapClient : Client :=
  match fencedClient.step (.free 4672) with
  | some (.ok c) => c
  | _ => fencedClient

theorem overlapClient_run : SmallRun overlapClient :=
  .step (.step (.step heldClient_run bigClient_step)
    (@SmallStep.malloc _ _ 8 true (by decide) rfl)) (@SmallStep.free _ _ 4672 (by decide) rfl)

/-- On a state of a run with the invariant, `realloc(4736, 105)` does not fit the 100 words of
4736's block, takes in the free block of 8 words before it, and copies down: `memcpy(4672, 4736,
105)`, whose ranges overlap, which C leaves undefined. -/
theorem realloc_copy_down_overlaps :
    SmallRun overlapClient ∧ overlapClient.Inv ∧ (4736, 784) ∈ overlapClient.live ∧
      (overlapClient.heap.tag 4664).inuse = false ∧ overlapClient.heap.blkSize 4664 = 8 ∧
      overlapClient.heap.blkSize 4728 = 100 ∧ ¬(4672 + 105 ≤ 4736 ∨ 4736 + 105 ≤ 4672) ∧
      overlapClient.step (.realloc 4736 105 true) = some (.error .memcpyOverlap) :=
  ⟨overlapClient_run, overlapClient_run.inv, by decide, by decide, by decide, by decide, by decide,
    rfl⟩

/-! ## The program -/

/-- `mm_realloc(p, m)` of a pointer the program holds, on a heap with the invariant below `2^34`
bytes with room for `m` more, for `0 < m`: unless it copies down between overlapping ranges, the
call does not fault; it returns NULL only when `mem_sbrk` fails, and otherwise a pointer `q` that
the program then holds for `m` bytes, with the invariant, the bytes of `p` up to the smaller size
at `q`, and the bytes of every other pointer the program holds kept. -/
theorem Client.Inv.realloc_relocates {c : Client} (hi : c.Inv) (hs : c.heap.Shaped) {p n m : Nat}
    (hpn : (p, n) ∈ c.live) (hm0 : 0 < m)
    (hroom : c.heap.brk - c.heap.heapListp + m + 2 ^ 14 ≤ 2 ^ 34) (ok : Bool) :
    (c.heap.tag (prevBlkFooter (p - wsize))).inuse = false ∧
      c.step (.realloc p m ok) = some (.error .memcpyOverlap) ∨
    ∃ c' q, c.step (.realloc p m ok) = some (.ok c') ∧ c'.live = afterRealloc c.live p m q ∧
      (q = 0 → ok = false) ∧ (q ≠ 0 → c'.Inv ∧
        (∀ k, k < n → k < m → c'.heap.mem (q + k) = c.heap.mem (p + k)) ∧
        ∀ p' n', (p', n') ∈ c.live → p' ≠ p → ∀ x, p' ≤ x → x < p' + n' →
          c'.heap.mem x = c.heap.mem x) := by
  obtain ⟨bs, hinv, hlive⟩ := hi
  obtain ⟨ts, ht, rfl⟩ := (Heap.inv_iff_tiling _ hs).1 hinv
  obtain ⟨h8, hb, hu, hn⟩ := hlive.2 p n hpn
  have hp : c.Holds p ∧ m < 2 ^ 64 := ⟨.inr (List.mem_map_of_mem _ hpn), by omega⟩
  rcases Heap.mmRealloc_relocates ht hs hb hu hn hroom hm0 ok with
    ⟨hpa, e⟩ | ⟨h', q, e, hnull, hrel⟩
  · rw [Nat.sub_add_cancel h8] at e
    exact .inl ⟨hpa, by rw [Client.step, if_pos hp, e]; rfl⟩
  rw [Nat.sub_add_cancel h8] at e hrel
  refine .inr ⟨⟨h', afterRealloc c.live p m q⟩, q, by rw [Client.step, if_pos hp, e]; rfl, rfl,
    hnull, fun hq => ?_⟩
  obtain ⟨ts', r⟩ := hrel hq
  -- a pointer held besides `p` heads an allocated block other than `p`'s
  have hother : ∀ p' n', (p', n') ∈ c.live → p' ≠ p → wsize ≤ p' ∧
      p' - wsize ∈ addrs h'.heapListp ts' ∧ p' - wsize ≠ q - wsize ∧
      h'.tag (p' - wsize) = c.heap.tag (p' - wsize) ∧ ∀ x, p' - wsize ≤ x →
        x < p' - wsize + wsize * (c.heap.tag (p' - wsize)).size → h'.mem x = c.heap.mem x := by
    intro p' n' hpn' hne
    obtain ⟨h8', hb', hu', -⟩ := hlive.2 p' n' hpn'
    obtain ⟨hc, hcq, htc, hmc⟩ := r.kept _ hb' (fun heq => hne (by simp only [wsize] at *; omega)) hu'
    exact ⟨h8', hc, hcq, htc, hmc⟩
  simp only [afterRealloc, if_pos hq]
  refine ⟨Client.inv_of_tiling r.shaped r.tiling ⟨?_, fun p' k hpk => ?_⟩, r.copied,
    fun p' n' hpn' hne => hlive.payload_kept hpn' (hother p' n' hpn' hne).2.2.2.2⟩
  · -- `q` is new among the pointers left
    rw [List.map_append]
    refine List.pairwise_append.2 ⟨hlive.1.sublist ((List.filter_sublist _).map _),
      List.pairwise_singleton _ _, fun a ha b hb => ?_⟩
    obtain ⟨⟨a, k⟩, hak, rfl⟩ := List.mem_map.1 ha
    rw [List.map_cons, List.map_nil, List.mem_singleton] at hb
    subst hb
    obtain ⟨hak, hne⟩ := List.mem_filter.1 hak
    obtain ⟨h8', -, hcq, -⟩ := hother a k hak (by simpa using hne)
    have := r.q8
    show a ≠ _
    omega
  · rcases List.mem_append.1 hpk with hpk | hpk
    · obtain ⟨hpk, hne⟩ := List.mem_filter.1 hpk
      obtain ⟨-, -, hu', hroom'⟩ := hlive.2 p' k hpk
      obtain ⟨h8', hc, -, htc, -⟩ := hother p' k hpk (by simpa using hne)
      exact ⟨h8', hc, by rw [htc]; exact hu', by rw [Heap.blkSize, htc]; exact hroom'⟩
    · simp only [List.mem_singleton, Prod.mk.injEq] at hpk
      obtain ⟨rfl, rfl⟩ := hpk
      exact ⟨r.q8, r.mem, r.inuse, r.room⟩

/-! ## Runs -/

/-- One call of a run in which every `mm_realloc` sees `mem_sbrk` succeed: a call of
`SmallStep`, or `mm_realloc(p, m)` of a pointer the program holds, for `0 < m`, on a heap below
`2^34` bytes with room for `m` more. -/
inductive ReallocStep (c c' : Client) : Prop
  | small : SmallStep c c' → ReallocStep c c'
  | realloc {p n m : Nat} : (p, n) ∈ c.live → 0 < m →
    c.heap.brk - c.heap.heapListp + m + 2 ^ 14 ≤ 2 ^ 34 →
    c.step (.realloc p m true) = some (.ok c') → ReallocStep c c'

/-- The states a program reaches from `mm_init` by such calls. -/
inductive ReallocRun : Client → Prop
  | init {lo : Nat} {mem : Nat → UInt8} {ok : Nat → Bool} {h : Heap} :
    (Heap.empty lo mem).mmInit ok = .ok (h, 0) → ReallocRun ⟨h, []⟩
  | step {c c' : Client} : ReallocRun c → ReallocStep c c' → ReallocRun c'

theorem ReallocStep.inv {c c' : Client} (hi : c.Inv) (hs : c.heap.Shaped) :
    ReallocStep c c' → c'.Inv
  | .small h => (h.inv hi hs).1
  | .realloc hpn hm0 hroom e => by
    rcases hi.realloc_relocates hs hpn hm0 hroom true with ⟨-, e'⟩ | ⟨c'', q, e', -, hnull, hq⟩ <;>
      rw [e] at e' <;> cases e'
    exact (hq fun h0 => Bool.noConfusion (hnull h0)).1

namespace ReallocRun

variable {c : Client}

theorem reachable (hc : ReallocRun c) : Reachable c := by
  induction hc with
  | init e => exact .init e
  | step _ h ih =>
    cases h with
    | small h => exact h.reachable ih
    | realloc _ _ _ e => exact .step _ ih e

theorem inv (hc : ReallocRun c) : c.Inv := by
  induction hc with
  | init e => exact SmallRun.inv (.init e)
  | step hc h ih => exact h.inv ih hc.reachable.shaped

end ReallocRun

end Malloc
end SystemsLab
