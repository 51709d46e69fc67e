import MyOS.Fat.Lemmas.Chain

/-!
# 鎖をたどる繰り返し

`fat12_write_chain` の繰り返しは、鎖 `pre ++ rest` の `rest` の先頭を指しながら進む。
どの回も鎖を一つ進むので、繰り返しは鎖の長さより多く回らない。
-/

namespace MyOS.Fat
open MyOS.Lib Pack12

variable {fs fs' fs'' : Fs} {H : Set Nat} {c d h cur : Nat} {l l' pre post rest ext ext' : List Nat}

/-! ## 延長の合成 -/

theorem Appended.refl (hl : Follows (fatNext fs) h l) : Appended fs fs h l [] :=
  ⟨hl, by simpa using hl, by simp, SameOutside.refl _ _⟩

theorem Appended.trans (hok : FatOk fs' H) (hh : h ∈ H) (h1 : Appended fs fs' h l ext)
    (h2 : Appended fs' fs'' h (l ++ ext) ext') : Appended fs fs'' h l (ext ++ ext') := by
  refine ⟨h1.before, by simpa using h2.after, fun c hc => ?_, ?_⟩
  · rcases List.mem_append.mp hc with hc | hc
    · exact h1.free c hc
    · obtain ⟨hr, hzero⟩ := h2.free c hc
      -- 後から足したクラスタは途中の鎖にないので、はじめから空いていた。
      have hnot : c ∉ l ++ ext := fun hmem => hok.entry_ne_zero hh h1.after hmem hzero
      exact ⟨h1.same.inRange.mp hr, (h1.same.entry c hnot).symm.trans hzero⟩
  · have hsub : l ++ ext ⊆ l ++ (ext ++ ext') := by simp
    exact (h1.same.mono hsub).trans (h2.same.mono (by simp))

/-! ## 鎖の上の位置 -/

/-- `current` は `rest` の先頭を指すか、鎖の終わりを過ぎている。 -/
def Cursor (current : Nat) (rest : List Nat) : Prop :=
  rest = [] ∧ current = 0xFFFF ∨ ∃ post, rest = current :: post ∧ current ≠ 0xFFFF

theorem FatOk.ne_end (hok : FatOk fs H) (hh : h ∈ H) (hl : Follows (fatNext fs) h l) (hc : c ∈ l) :
    c ≠ 0xFFFF := by
  have hr := (hok.chains.dom_of_mem hh hl hc).2
  have hb := hok.bound
  omega

theorem cursor_next (hl : Follows (fatNext fs) h (pre ++ cur :: post)) :
    Cursor (fat12_get_fat_entry fs cur) post := by
  cases post with
  | nil => exact Or.inl ⟨rfl, fatNext_eq_none.mp (hl.next_eq_none_iff.mpr rfl)⟩
  | cons d post =>
      obtain ⟨hget, hne⟩ := fatNext_eq_some.mp hl.next_eq_some
      rw [hget]
      exact Or.inr ⟨post, rfl, hne⟩

theorem Cursor.eq_end_iff (hcur : Cursor c rest) : c = 0xFFFF ↔ rest = [] := by
  rcases hcur with ⟨hrest, hc⟩ | ⟨post, hrest, hc⟩
  · exact ⟨fun _ => hrest, fun _ => hc⟩
  · subst hrest
    simp [hc]

/-! ## 書き込みの一回分 -/

section Loop

variable {offset size total_end bytes_written : Nat} {buffer : Option ByteMem}

/-- `memcpy` の長さは、書く量とクラスタの和が 32 ビットに収まれば桁あふれしない。 -/
theorem not_memcpy_overruns {bpc : Nat} (ho : offset < 2 ^ 32) (hsz : size + bpc ≤ 2 ^ 32)
    (hbw : bytes_written < 2 ^ 32) :
    memcpy_overruns bpc offset (add32 offset size) buffer bytes_written = false := by
  unfold memcpy_overruns write_span add32 sub32
  refine decide_eq_false ?_
  rintro ⟨hend, hstart, -, hspan⟩
  split_ifs at hspan <;> omega

theorem fat12_write_cluster_eq (fs : Fs) (c : Nat) (buf : ByteMem) :
    ∃ disk, fat12_write_cluster fs c buf = { fs with disk := disk } ∧
      (∀ x, ¬ InCluster fs c x → disk x = fs.disk x) ∧
      ∀ x, InCluster fs c x → disk x = buf (x - fat12_cluster_to_lba fs c * ATA_SECTOR_SIZE) :=
  ⟨_, rfl, fun _ hx => if_neg hx, fun _ hx => if_pos hx⟩

theorem fat12_write_cluster_ok {buf : ByteMem} (hok : FatOk fs H) :
    FatOk (fat12_write_cluster fs c buf) H := by
  obtain ⟨disk, heq, -⟩ := fat12_write_cluster_eq fs c buf
  rw [heq]
  exact hok.disk

/-- 鎖の中のクラスタへの書き込みは、鎖を変えない。 -/
theorem Appended.write_cluster {buf : ByteMem} (ha : Appended fs fs' h l ext) (hc : c ∈ l) :
    Appended fs (fat12_write_cluster fs' c buf) h l ext := by
  obtain ⟨disk, heq, hdisk, -⟩ := fat12_write_cluster_eq fs' c buf
  rw [heq]
  refine ⟨ha.before, ha.after, ha.free, ha.same.trans (SameOutside.of_disk fun x hx => ?_)⟩
  exact hdisk x (hx c (by simp [hc]))

/-- クラスタ一つの処理の後、位置は鎖の次に進んでいる。 -/
theorem write_cluster_step_spec (hok : FatOk fs H) (hh : h ∈ H)
    (hl : Follows (fatNext fs) h (pre ++ cur :: post))
    (hs : write_cluster_step fs offset total_end buffer bytes_written cur = some (fs', d)) :
    ∃ ext, FatOk fs' H ∧ Appended fs fs' h (pre ++ cur :: post) ext ∧ Cursor d (post ++ ext) := by
  have hnext := cursor_next hl
  simp only [write_cluster_step] at hs
  split at hs
  · split at hs
    · next _ hend =>
        rw [hnext.eq_end_iff] at hend
        obtain ⟨rfl, -⟩ := hend
        rcases append_cluster_spec hok hh hl with ⟨hnone, -⟩ | ⟨fs₁, c, happ, hc, hc', hok₁, ha⟩
        · simp [hnone] at hs
        · simp only [happ, if_neg hc, Option.some.injEq, Prod.mk.injEq] at hs
          obtain ⟨rfl, rfl⟩ := hs
          exact ⟨[c], fat12_write_cluster_ok hok₁, ha.write_cluster (by simp), Or.inr ⟨[], rfl, hc'⟩⟩
    · simp only [Option.some.injEq, Prod.mk.injEq] at hs
      obtain ⟨rfl, rfl⟩ := hs
      exact ⟨[], fat12_write_cluster_ok hok, (Appended.refl hl).write_cluster (by simp),
        by simpa using hnext⟩
  · simp only [Option.some.injEq, Prod.mk.injEq] at hs
    obtain ⟨rfl, rfl⟩ := hs
    exact ⟨[], hok, Appended.refl hl, by simpa using hnext⟩

/-- 途中で戻るのは、鎖の最後のクラスタで、空きがないときだけである。 -/
theorem write_cluster_step_none (hok : ChainOk fs h (pre ++ cur :: post))
    (hs : write_cluster_step fs offset total_end buffer bytes_written cur = none) :
    Full fs ∧ post = [] ∧ add32 bytes_written (bytes_per_cluster fs) < total_end := by
  have hnext := cursor_next hok.follows
  simp only [write_cluster_step] at hs
  split at hs
  · split at hs
    · next _ hend =>
        rw [hnext.eq_end_iff] at hend
        obtain ⟨rfl, hlt⟩ := hend
        rcases hok.append_cluster with ⟨-, hfull⟩ | ⟨fs₁, c, happ, hc, -⟩
        · exact ⟨hfull, rfl, hlt⟩
        · have hc0 : c ≠ 0 := by
            have := hc.1
            omega
          simp [happ, hc0] at hs
    · cases hs
  · cases hs

/-- 位置 `bytes_written` は、通り過ぎた鎖 `pre` の長さに当たる。 -/
structure AtCluster (fs : Fs) (offset size bytes_written : Nat) (pre rest : List Nat) : Prop where
  position : bytes_written = pre.length * bytes_per_cluster fs
  small : (fs.total_clusters + 1) * bytes_per_cluster fs < 2 ^ 32
  range : offset + size < 2 ^ 32
  ended : rest = [] → offset + size ≤ bytes_written

/-- 次のクラスタへ進んでも、位置は鎖の長さに当たる。 -/
theorem AtCluster.next (h : AtCluster fs offset size bytes_written pre (cur :: post)) {post' : List Nat}
    (hlen : pre.length < fs.total_clusters) (hbpb : fs'.bpb = fs.bpb)
    (htotal : fs'.total_clusters = fs.total_clusters)
    (hend : post' = [] → ¬ add32 bytes_written (bytes_per_cluster fs) < offset + size) :
    AtCluster fs' offset size (add32 bytes_written (bytes_per_cluster fs)) (pre ++ [cur]) post' := by
  have hbpc : bytes_per_cluster fs' = bytes_per_cluster fs := by
    unfold bytes_per_cluster
    rw [hbpb]
  have hsum : bytes_written + bytes_per_cluster fs = (pre.length + 1) * bytes_per_cluster fs := by
    rw [h.position, Nat.add_mul, Nat.one_mul]
  have hle : (pre.length + 1) * bytes_per_cluster fs ≤ (fs.total_clusters + 1) * bytes_per_cluster fs :=
    Nat.mul_le_mul_right _ (by omega)
  have hsmall := h.small
  refine ⟨?_, ?_, h.range, fun hnil => ?_⟩
  · rw [add32_eq (by omega), hbpc, hsum, List.length_append, List.length_singleton]
  · rw [hbpc, htotal]
    exact h.small
  · have := hend hnil
    omega

/-- 繰り返しを抜けた位置が鎖の長さ以内なら、戻り値の分も鎖に収まる。 -/
theorem write_actual_le {len : Nat} (hle : bytes_written ≤ len)
    (hn : write_actual offset size (offset + size) bytes_written ≠ 0) :
    offset + write_actual offset size (offset + size) bytes_written ≤ len := by
  unfold write_actual at *
  split_ifs at * <;> omega

/-- 途中で抜けても、そこまでに通った分は書いたことになる。 -/
theorem write_actual_ge (hle : bytes_written ≤ offset + size) :
    bytes_written ≤ offset + write_actual offset size (offset + size) bytes_written := by
  unfold write_actual
  split_ifs <;> omega

theorem write_actual_le_size (offset size bytes_written : Nat) :
    write_actual offset size (offset + size) bytes_written ≤ size := by
  unfold write_actual
  split_ifs <;> omega

theorem write_actual_all (hle : offset + size ≤ bytes_written) :
    write_actual offset size (offset + size) bytes_written = size := by
  unfold write_actual
  split_ifs <;> omega

/-- 繰り返しは燃料が尽きる前に終わり、`h` の鎖だけを延ばし、`h` の鎖のクラスタだけに書く。 -/
theorem write_chain_loop_spec (size : Nat) (buffer : Option ByteMem) (hh : h ∈ H) (ho : offset < 2 ^ 32) : ∀ (fuel : Nat) (fs : Fs)
    (pre rest : List Nat) (bytes_written cur : Nat), size + bytes_per_cluster fs ≤ 2 ^ 32 →
    bytes_written < 2 ^ 32 → FatOk fs H → Follows (fatNext fs) h (pre ++ rest) → Cursor cur rest →
    fs.total_clusters + 1 ≤ fuel + pre.length →
    ∃ fs' n ext, write_chain_loop offset size (add32 offset size) buffer fuel bytes_written cur fs =
      some (fs', n) ∧ FatOk fs' H ∧ Appended fs fs' h (pre ++ rest) ext ∧
      (∀ c ∈ write_log offset (add32 offset size) buffer fuel bytes_written cur fs, c ∈ pre ++ rest ++ ext) ∧
      (AtCluster fs offset size bytes_written pre rest →
        Stored fs' offset size n (pre ++ rest ++ ext).length) := by
  intro fuel
  induction fuel with
  | zero =>
      intro fs pre rest bytes_written cur _ _ hok hl _ hfuel
      have hlen := hok.length_le hh hl
      simp only [List.length_append] at hlen
      omega
  | succ fuel ih =>
      intro fs pre rest bytes_written cur hsz hbw hok hl hcur hfuel
      have hmax := hok.length_le hh hl
      rw [List.length_append] at hmax
      unfold write_chain_loop write_log
      rw [not_memcpy_overruns ho hsz hbw]
      split
      · next hgo =>
          rcases hcur with ⟨-, hend⟩ | ⟨post, rfl, -⟩
          · exact absurd hend hgo.1
          have hlen : pre.length < fs.total_clusters := by
            rw [List.length_cons] at hmax
            omega
          simp only [Bool.false_eq_true, if_false]
          cases hs : write_cluster_step fs offset (add32 offset size) buffer bytes_written cur with
          | none =>
              obtain ⟨hfull, rfl, hmore⟩ := write_cluster_step_none (hok.chainOk hh hl) hs
              refine ⟨fs, _, [], rfl, hok, Appended.refl hl, by simp, fun hat => ?_⟩
              have hp := hat.position
              have hat' : AtCluster fs offset size (add32 bytes_written (bytes_per_cluster fs)) (pre ++ [cur]) [cur] :=
                hat.next hlen rfl rfl (by simp)
              have hp' := hat'.position
              have hlast : (pre ++ [cur] ++ []).length * bytes_per_cluster fs =
                  bytes_written + bytes_per_cluster fs := by
                rw [List.append_nil, List.length_append, List.length_singleton, Nat.add_mul, Nat.one_mul, hp]
              have hlt := hgo.2
              rw [add32_eq hat.range] at hlt hmore
              rw [List.length_append, List.length_singleton, Nat.add_mul, Nat.one_mul, ← hp] at hp'
              refine Or.inr ⟨hfull, ?_, ?_, ?_, ?_⟩
              · split <;> omega
              · omega
              · split <;> omega
              · split <;> omega
          | some r =>
              obtain ⟨fs₁, d⟩ := r
              dsimp only
              obtain ⟨ext, hok₁, ha, hd⟩ := write_cluster_step_spec hok hh hl hs
              have hl₁ : Follows (fatNext fs₁) h ((pre ++ [cur]) ++ (post ++ ext)) := by
                simpa using ha.after
              have hfuel₁ : fs₁.total_clusters + 1 ≤ fuel + (pre ++ [cur]).length := by
                rw [ha.same.total_clusters]
                simp only [List.length_append, List.length_singleton]
                omega
              have hbpc := ha.same.bytes_per_cluster
              have hsz₁ : size + bytes_per_cluster fs₁ ≤ 2 ^ 32 := by
                rw [hbpc]
                exact hsz
              have hbw₁ : add32 bytes_written (bytes_per_cluster fs₁) < 2 ^ 32 :=
                add32_lt
              have hcur' : ∀ c ∈ (if add32 bytes_written (bytes_per_cluster fs₁) > offset then [cur] else []),
                  c = cur := by
                intro c hc
                split at hc
                · exact List.mem_singleton.mp hc
                · cases hc
              by_cases hmore : d = 0xFFFF ∧ add32 bytes_written (bytes_per_cluster fs₁) < add32 offset size
              · rw [if_pos hmore, if_pos hmore]
                -- 二か所目の延長。鎖は `cur` で終わっている。
                have hnil := hd.eq_end_iff.mp hmore.1
                rw [hnil, List.append_nil] at hl₁
                obtain ⟨rfl, rfl⟩ := List.append_eq_nil_iff.mp hnil
                rcases append_cluster_spec hok₁ hh hl₁ with ⟨hnone, hfull⟩ |
                  ⟨fs₂, c, happ, hc, hc', hok₂, ha₂⟩
                · simp only [hnone, if_true, List.append_nil]
                  refine ⟨fs₁, _, [], rfl, hok₁, ha, fun c hc => ?_, fun hat => ?_⟩
                  · simp [hcur' c hc]
                  · have hat₁ : AtCluster fs₁ offset size (add32 bytes_written (bytes_per_cluster fs))
                        (pre ++ [cur]) [cur] :=
                      hat.next hlen ha.same.bpb ha.same.total_clusters (by simp)
                    have hp := hat₁.position
                    rw [add32_eq hat.range]
                    have hmore' := hmore.2
                    rw [add32_eq hat.range] at hmore'
                    have hlen' : (pre ++ [cur] ++ []).length * bytes_per_cluster fs₁ =
                        add32 bytes_written (bytes_per_cluster fs₁) := by
                      rw [List.append_nil, hbpc, hp, hbpc]
                    refine Or.inr ⟨hfull, write_actual_le_size _ _ _, ?_, ?_, fun hn => write_actual_le ?_ hn⟩
                    · rw [hlen']
                      exact hmore'
                    · have := write_actual_ge (Nat.le_of_lt hmore')
                      omega
                    · exact Nat.le_of_eq hlen'.symm
                · have ha₁₂ := ha.trans hok₁ hh (by simpa using ha₂)
                  obtain ⟨fs₃, n, ext₃, hrun, hok₃, ha₃, hlog, hst⟩ := ih fs₂ (pre ++ [cur]) [c]
                    (add32 bytes_written (bytes_per_cluster fs₁)) c
                    (by rw [ha₂.same.bytes_per_cluster]; exact hsz₁) hbw₁ hok₂ ha₂.after
                    (Or.inr ⟨[], rfl, hc'⟩) (by rw [ha₂.same.total_clusters]; exact hfuel₁)
                  simp only [happ, if_neg hc]
                  refine ⟨fs₃, n, _, hrun, hok₃, ha₁₂.trans hok₂ hh (by simpa using ha₃), fun x hx => ?_,
                    fun hat => ?_⟩
                  · rcases List.mem_append.mp hx with hx | hx
                    · simp [hcur' x hx]
                    · simpa using hlog x hx
                  · have := hst (by
                      rw [hbpc]
                      exact hat.next hlen (ha₂.same.bpb.trans ha.same.bpb)
                        (ha₂.same.total_clusters.trans ha.same.total_clusters) (by simp))
                    simpa using this
              · rw [if_neg hmore, if_neg hmore]
                obtain ⟨fs₃, n, ext₃, hrun, hok₃, ha₃, hlog, hst⟩ := ih fs₁ (pre ++ [cur]) (post ++ ext)
                  (add32 bytes_written (bytes_per_cluster fs₁)) d hsz₁ hbw₁ hok₁ hl₁ hd hfuel₁
                refine ⟨fs₃, n, _, hrun, hok₃, ha.trans hok₁ hh (by simpa using ha₃), fun x hx => ?_,
                  fun hat => ?_⟩
                · rcases List.mem_append.mp hx with hx | hx
                  · simp [hcur' x hx]
                  · simpa using hlog x hx
                · have hend : post ++ ext = [] →
                      ¬ add32 bytes_written (bytes_per_cluster fs₁) < offset + size := by
                    intro hnil hlt
                    exact hmore ⟨hd.eq_end_iff.mpr hnil, by rw [add32_eq hat.range]; exact hlt⟩
                  have := hst (by
                    rw [hbpc] at hend ⊢
                    exact hat.next hlen ha.same.bpb ha.same.total_clusters hend)
                  simpa using this
      · next hstop =>
          refine ⟨fs, _, [], rfl, hok, Appended.refl hl, by simp, fun hat => Or.inl ?_⟩
          have hp := hat.position
          have hle : offset + size ≤ bytes_written := by
            by_contra hlt
            refine hstop ⟨fun hend => ?_, by rw [add32_eq hat.range]; omega⟩
            exact hlt (hat.ended (hcur.eq_end_iff.mp hend))
          have hlen : pre.length * bytes_per_cluster fs ≤ (pre ++ rest ++ []).length * bytes_per_cluster fs :=
            Nat.mul_le_mul_right _ (by simp)
          rw [add32_eq hat.range]
          exact ⟨write_actual_all hle, by omega⟩

theorem write_chain_spec (offset size : Nat) (buffer : Option ByteMem) (hok : FatOk fs H) (hh : h ∈ H) (ho : offset < 2 ^ 32)
    (hsz : size + bytes_per_cluster fs ≤ 2 ^ 32) :
    ∃ fs' n l ext, fat12_write_chain fs h offset size buffer = some (fs', n) ∧ FatOk fs' H ∧
      Appended fs fs' h l ext ∧
      (∀ c ∈ write_log offset (add32 offset size) buffer maxChain 0 h fs, c ∈ l ++ ext) ∧
      ((fs.total_clusters + 1) * bytes_per_cluster fs < 2 ^ 32 → offset + size < 2 ^ 32 →
        Stored fs' offset size n (l ++ ext).length) := by
  obtain ⟨l, hl, -⟩ := hok.chains.chain h hh
  obtain ⟨l', rfl⟩ := hl.exists_cons
  have hcur : Cursor h (h :: l') := Or.inr ⟨l', rfl, hok.ne_end hh hl (by simp)⟩
  obtain ⟨fs', n, ext, hrun, hok', ha, hlog, hst⟩ := write_chain_loop_spec size buffer hh ho
    maxChain fs [] (h :: l') 0 h hsz (by decide) hok hl hcur hok.total_lt_maxChain
  exact ⟨fs', n, _, ext, hrun, hok', ha, hlog, fun hsmall hrange => hst ⟨by simp, hsmall, hrange, by simp⟩⟩

end Loop

/-! ## 解放 -/

theorem free_cluster_loop_spec : ∀ (l : List Nat) (fuel c : Nat) (fs : Fs), Follows (fatNext fs) c l →
    (∀ d ∈ l, InRange fs d ∧ d ≠ 0xFFFF ∧ offset d + 1 < fs.fat_cache.size) → l.length < fuel →
    ∃ fs', free_cluster_loop fuel c fs = some fs' ∧ SameOutside fs fs' l ∧
      ∀ d ∈ l, fat_entry_raw fs' d = 0 := by
  intro l
  induction l with
  | nil =>
      intro fuel c fs hl
      cases hl
  | cons a l ih =>
      intro fuel c fs hl hr hfuel
      obtain ⟨_, hcons⟩ := hl.exists_cons
      cases hcons
      obtain ⟨fuel, rfl⟩ : ∃ n, fuel = n + 1 := ⟨fuel - 1, by omega⟩
      simp only [List.length_cons] at hfuel
      obtain ⟨hrc, hne, hcache⟩ := hr a (by simp)
      have hset : SameOutside fs (fat12_set_fat_entry fs a 0) [a] := SameOutside.set hcache
      have hzero : fat_entry_raw (fat12_set_fat_entry fs a 0) a = 0 :=
        fat_entry_raw_set_self hcache (by decide)
      unfold free_cluster_loop
      rw [if_pos ⟨hne, hrc.1⟩]
      cases l with
      | nil =>
          have hone : Follows (fatNext fs) a ([] ++ a :: []) := hl
          have hend := fatNext_eq_none.mp (hone.next_eq_none_iff.mpr rfl)
          obtain ⟨fuel, rfl⟩ : ∃ n, fuel = n + 1 := ⟨fuel - 1, by omega⟩
          rw [hend]
          refine ⟨_, ?_, hset, fun d hd => ?_⟩
          · unfold free_cluster_loop
            rw [if_neg (by simp)]
          · rw [List.mem_singleton.mp hd]
            exact hzero
      | cons b l =>
          obtain ⟨-, b', hb, ht⟩ := hl.cons_inv (by simp)
          have hnot : a ∉ b :: l := (List.nodup_cons.mp hl.nodup).1
          rw [(fatNext_eq_some.mp hb).1]
          obtain ⟨fs', hrun, hsame, hz⟩ := ih fuel b' (fat12_set_fat_entry fs a 0)
            (ht.congr (fun x hx => hset.fatNext (by
              rw [List.mem_singleton]
              rintro rfl
              exact hnot hx)))
            (fun d hd => by
              obtain ⟨h1, h2, h3⟩ := hr d (List.mem_cons_of_mem _ hd)
              exact ⟨hset.inRange.mpr h1, h2, by rw [hset.size]; exact h3⟩)
            (by simpa using hfuel)
          refine ⟨fs', hrun, (hset.mono (by simp)).trans (hsame.mono (by simp)), fun d hd => ?_⟩
          rcases List.mem_cons.mp hd with rfl | hd
          · rw [hsame.entry d hnot]
            exact hzero
          · exact hz d hd

/-- 解放は、表のほかに書かない。 -/
theorem free_cluster_loop_rest : ∀ (fuel c : Nat) (fs : Fs), free_cluster_loop fuel c fs = some fs' →
    fs' = { fs with fat_cache := fs'.fat_cache } := by
  intro fuel
  induction fuel with
  | zero =>
      intro c fs h
      cases h
  | succ fuel ih =>
      intro c fs h
      unfold free_cluster_loop at h
      split at h
      · have hrest := ih _ (fat12_set_fat_entry fs c 0) h
        exact hrest
      · cases h
        rfl

theorem free_cluster_loop_disk (fuel c : Nat) (fs : Fs) (h : free_cluster_loop fuel c fs = some fs') :
    fs'.disk = fs.disk := by
  rw [free_cluster_loop_rest fuel c fs h]

theorem free_cluster_chain_spec (hok : FatOk fs H) (hh : h ∈ H) :
    ∃ fs' l, fat12_free_cluster_chain fs h = some fs' ∧ Follows (fatNext fs) h l ∧
      FatOk fs' (H \ {h}) ∧ SameOutside fs fs' l ∧ ∀ c ∈ l, fat_entry_raw fs' c = 0 := by
  obtain ⟨l, hl, hr⟩ := hok.chains.chain h hh
  obtain ⟨fs', hrun, hsame, hz⟩ := free_cluster_loop_spec l maxChain h fs hl
    (fun d hd => ⟨hr d hd, hok.ne_end hh hl hd, hok.in_cache (hr d hd)⟩)
    (Nat.lt_of_le_of_lt (hok.length_le hh hl) hok.total_lt_maxChain)
  refine ⟨fs', l, hrun, hl, ?_, hsame, hz⟩
  refine hok.erase Set.sdiff_subset hsame (fun c hc => hok.chains.not_owned_diff hh hl hc) ?_ hz
  intro c hc ho
  exact ChainSet.owned_diff hl ho hc

end MyOS.Fat
