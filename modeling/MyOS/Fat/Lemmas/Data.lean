import MyOS.Fat.Lemmas.Read

/-!
# 書き込みの内容

クラスタの内容を、鎖の先頭からの位置で数える。一回分の書き込みは、そのクラスタのうち書く範囲に当たる部分だけを
変える。
-/

namespace MyOS.Fat
open MyOS.Lib

variable {fs fs' fs'' : Fs} {offset size b c d h cur pos : Nat} {buffer : ByteMem} {l pre post rest : List Nat}

/-! ## 鎖の上の位置 -/

theorem Layout.bytes_per_cluster_eq (hlay : Layout fs) :
    bytes_per_cluster fs = fs.bpb.sectors_per_cluster * ATA_SECTOR_SIZE := by
  unfold bytes_per_cluster
  rw [hlay.bytes_per_sector]
  rfl

theorem Layout.inCluster_iff (hlay : Layout fs) {x : Nat} : InCluster fs c x ↔
    fat12_cluster_to_lba fs c * ATA_SECTOR_SIZE ≤ x ∧
      x < fat12_cluster_to_lba fs c * ATA_SECTOR_SIZE + bytes_per_cluster fs := by
  unfold InCluster
  rw [Nat.add_mul, hlay.bytes_per_cluster_eq]

/-- 異なるクラスタは重ならない。 -/
theorem Layout.inCluster_unique (hlay : Layout fs) (hc : InRange fs c) (hd : InRange fs d) {x : Nat}
    (h : InCluster fs c x) (h' : InCluster fs d x) : c = d := by
  by_contra hne
  have hapart := hlay.clusters_apart hc hd hne
  unfold InCluster ATA_SECTOR_SIZE at h h'
  omega

/-- 鎖 `l` の `pos` 番目のバイト。 -/
def list_byte (fs : Fs) (l : List Nat) (pos : Nat) : UInt8 :=
  fat12_read_cluster fs (l.getD (pos / bytes_per_cluster fs) 0) (pos % bytes_per_cluster fs)

theorem nth_cluster_eq (hl : Follows (fatNext fs) h l) : ∀ {k : Nat}, k < l.length → nth_cluster fs k h = l.getD k 0 := by
  induction hl with
  | last =>
      intro k hk
      rw [List.length_singleton] at hk
      rw [show k = 0 by omega]
      rfl
  | step hn _ ih =>
      intro k hk
      cases k with
      | zero => rfl
      | succ k =>
          rw [nth_cluster, (fatNext_eq_some.mp hn).1, ih (by simpa using hk), List.getD_cons_succ]

theorem file_byte_eq (hl : Follows (fatNext fs) h l) (hpos : pos < l.length * bytes_per_cluster fs) :
    file_byte fs h pos = list_byte fs l pos := by
  unfold file_byte list_byte
  rw [nth_cluster_eq hl (Nat.div_lt_of_lt_mul (by rwa [Nat.mul_comm]))]

theorem ChainOk.length_le (hok : ChainOk fs h l) : l.length ≤ fs.total_clusters := by
  refine hok.follows.length_le (k := 2) fun x hx => ?_
  obtain ⟨h2, hlt⟩ := hok.range x hx
  exact ⟨h2, by omega⟩

theorem ChainOk.ne_end (hok : ChainOk fs h l) : ∀ c ∈ l, c ≠ 0xFFFF := by
  intro c hc
  have hend := (hok.range c hc).2
  have hbound := hok.bound
  omega

/-! ## 一回分 -/

/-- クラスタ `c` は鎖の `b` バイト目から始まり、`[offset, offset + size)` に当たる部分だけが `buffer` になった。 -/
def ClusterWritten (fs fs' : Fs) (offset size b c : Nat) (buffer : ByteMem) : Prop :=
  ∀ d i, InRange fs d → i < bytes_per_cluster fs → fat12_read_cluster fs' d i =
    if d = c ∧ offset ≤ b + i ∧ b + i < offset + size then buffer (b + i - offset) else fat12_read_cluster fs d i

theorem write_buf_eq {i : Nat} (hend : b + bytes_per_cluster fs < 2 ^ 32) (hlim : offset + size < 2 ^ 32)
    (hstart : b < offset + size) (hcover : offset < b + bytes_per_cluster fs) (hi : i < bytes_per_cluster fs) :
    write_buf fs offset (offset + size) (some buffer) c b (b + bytes_per_cluster fs) i =
      if offset ≤ b + i ∧ b + i < offset + size then buffer (b + i - offset) else fat12_read_cluster fs c i := by
  unfold write_buf write_span
  have hs : (if offset > b then sub32 offset b else 0) = offset - b := by
    split_ifs with h
    · exact sub32_eq (by omega) (by omega)
    · omega
  have he : (if offset + size < b + bytes_per_cluster fs then sub32 (offset + size) b else bytes_per_cluster fs) =
      min (offset + size - b) (bytes_per_cluster fs) := by
    split_ifs with h
    · rw [sub32_eq (by omega) (by omega)]
      omega
    · omega
  have hb : (if b > offset then sub32 b offset else 0) = b - offset := by
    split_ifs with h
    · exact sub32_eq (by omega) (by omega)
    · omega
  simp only [hs, he, hb, sub32_eq (show min (offset + size - b) (bytes_per_cluster fs) < 2 ^ 32 by omega)
    (show offset - b ≤ min (offset + size - b) (bytes_per_cluster fs) by omega)]
  split_ifs with h h' h'
  · exact congrArg _ (by omega)
  · exact absurd ⟨by omega, by omega⟩ h'
  · exact absurd ⟨by omega, by omega⟩ h
  · rfl

theorem write_into_written (buffer : ByteMem) (hlay : Layout fs) (hc : InRange fs c) (hend : b + bytes_per_cluster fs < 2 ^ 32)
    (hlim : offset + size < 2 ^ 32) (hstart : b < offset + size) (hcover : offset < b + bytes_per_cluster fs) :
    ClusterWritten fs (write_into fs offset (offset + size) (some buffer) c b (b + bytes_per_cluster fs))
      offset size b c buffer := by
  intro d i hd hi
  unfold write_into
  obtain ⟨disk, heq, hout, hin⟩ := fat12_write_cluster_eq fs c
    (write_buf fs offset (offset + size) (some buffer) c b (b + bytes_per_cluster fs))
  rw [heq]
  have hat : InCluster fs d (fat12_cluster_to_lba fs d * ATA_SECTOR_SIZE + i) :=
    hlay.inCluster_iff.mpr ⟨by omega, by omega⟩
  have hread : fat12_read_cluster { fs with disk := disk } d i =
      disk (fat12_cluster_to_lba fs d * ATA_SECTOR_SIZE + i) := rfl
  rw [hread]
  by_cases hdc : d = c
  · subst hdc
    rw [hin _ hat, Nat.add_sub_cancel_left, write_buf_eq hend hlim hstart hcover hi]
    simp only [true_and]
  · rw [if_neg (fun h => hdc h.1), hout _ (fun h => hdc (hlay.inCluster_unique hd hc hat h))]
    rfl

theorem ClusterWritten.congr (hw : ClusterWritten fs fs' offset size b c buffer) (hdisk : fs''.disk = fs.disk)
    (hbpb : fs''.bpb = fs.bpb) (hdata : fs''.data_lba = fs.data_lba) (htotal : fs''.total_clusters = fs.total_clusters) :
    ClusterWritten fs'' fs' offset size b c buffer := by
  unfold ClusterWritten InRange bytes_per_cluster fat12_read_cluster ata_read_sectors fat12_cluster_to_lba at *
  rw [hdisk, hbpb, hdata, htotal]
  exact hw

/-- 書く範囲に当たらないクラスタでは、何も変わらない。 -/
theorem ClusterWritten.refl (hle : b + bytes_per_cluster fs ≤ offset) : ClusterWritten fs fs offset size b c buffer := by
  intro d i _ hi
  rw [if_neg (by omega)]

/-- 表だけが変わっても、書いた内容は変わらない。 -/
theorem ClusterWritten.of_disk (hw : ClusterWritten fs fs' offset size b c buffer) (hdisk : fs''.disk = fs'.disk)
    (hbpb : fs''.bpb = fs'.bpb) (hdata : fs''.data_lba = fs'.data_lba) :
    ClusterWritten fs fs'' offset size b c buffer := by
  intro d i hd hi
  rw [← hw d i hd hi]
  unfold fat12_read_cluster ata_read_sectors fat12_cluster_to_lba
  rw [hdisk, hbpb, hdata]

theorem SameOutside.chainOk {l' : List Nat} (hsame : SameOutside fs fs' l') (hok : ChainOk fs h l)
    (hfol : Follows (MyOS.Fat.fatNext fs') h l) : ChainOk fs' h l :=
  ⟨by rw [hsame.total_clusters]; exact hok.bound, by rw [hsame.total_clusters, hsame.size]; exact hok.cache, hfol,
    fun c hc => hsame.inRange.mpr (hok.range c hc)⟩

theorem ChainOk.write_into {l' : List Nat} (hok : ChainOk fs h l) (offset size b e : Nat) (buffer : ByteMem) (hc : c ∈ l') :
    ChainOk (write_into fs offset (offset + size) (some buffer) c b e) h l ∧
      SameOutside fs (MyOS.Fat.write_into fs offset (offset + size) (some buffer) c b e) l' := by
  obtain ⟨disk, heq, hout, -⟩ := fat12_write_cluster_eq fs c
    (write_buf fs offset (offset + size) (some buffer) c b e)
  have hsame : SameOutside fs (MyOS.Fat.write_into fs offset (offset + size) (some buffer) c b e) l' := by
    unfold MyOS.Fat.write_into
    rw [heq]
    exact .of_disk fun x hx => hout x (hx c hc)
  refine ⟨hsame.chainOk hok ?_, hsame⟩
  unfold MyOS.Fat.write_into
  rw [heq]
  exact hok.follows

/-- 一回の処理で、鎖は空きクラスタ一つ分まで延び、今のクラスタの内容だけが変わる。 -/
theorem write_cluster_step_data (hlay : Layout fs) (hok : ChainOk fs h (pre ++ cur :: post))
    (hend : b + bytes_per_cluster fs < 2 ^ 32) (hlim : offset + size < 2 ^ 32) (hstart : b < offset + size)
    (hs : write_cluster_step fs offset (offset + size) (some buffer) b cur = some (fs', d)) :
    ∃ ext, ChainOk fs' h (pre ++ cur :: post ++ ext) ∧ SameOutside fs fs' (pre ++ cur :: post ++ ext) ∧
      Cursor d (post ++ ext) ∧ ClusterWritten fs fs' offset size b cur buffer := by
  have hnext := cursor_next hok.follows
  have hcur : InRange fs cur := hok.range cur (by simp)
  simp only [write_cluster_step, add32_eq hend] at hs
  split at hs
  · next hin =>
      split at hs
      · next hlast =>
          rw [hnext.eq_end_iff] at hlast
          obtain ⟨rfl, -⟩ := hlast
          rcases hok.append_cluster with ⟨hnone, -⟩ | ⟨fs₁, c, happ, hc, -, hok₁, hsame₁, hdisk⟩
          · simp [hnone] at hs
          · have hc2 := hc.1
            have hcend := hc.2
            have hbound := hok.bound
            simp only [happ, if_neg (show c ≠ 0 by omega), Option.some.injEq, Prod.mk.injEq] at hs
            obtain ⟨rfl, rfl⟩ := hs
            have hbpc := hsame₁.bytes_per_cluster
            have hmem : cur ∈ pre ++ [cur] ++ [c] := by simp
            obtain ⟨hok₂, hsame₂⟩ := hok₁.write_into offset size b (b + bytes_per_cluster fs) buffer hmem
            refine ⟨[c], hok₂, (hsame₁.mono (by simp)).trans hsame₂, Or.inr ⟨[], rfl, by omega⟩, ?_⟩
            rw [← hbpc] at hend hin ⊢
            have hw := write_into_written buffer (hlay.of_same hsame₁) (hsame₁.inRange.mpr hcur) hend hlim hstart hin.1
            exact hw.congr hdisk.symm hsame₁.bpb.symm hsame₁.data_lba.symm hsame₁.total_clusters.symm
      · simp only [Option.some.injEq, Prod.mk.injEq] at hs
        obtain ⟨rfl, rfl⟩ := hs
        have hmem : cur ∈ pre ++ cur :: post := by simp
        obtain ⟨hok₁, hsame₁⟩ := hok.write_into offset size b (b + bytes_per_cluster fs) buffer hmem
        refine ⟨[], ?_, ?_, by simpa using hnext, write_into_written buffer hlay hcur hend hlim hstart hin.1⟩
        · rw [List.append_nil]
          exact hok₁
        · rw [List.append_nil]
          exact hsame₁
  · next hout =>
      simp only [Option.some.injEq, Prod.mk.injEq] at hs
      obtain ⟨rfl, rfl⟩ := hs
      refine ⟨[], ?_, SameOutside.refl _ _, by simpa using hnext, .refl ?_⟩
      · rw [List.append_nil]
        exact hok
      · by_contra hlt
        exact hout ⟨by omega, hstart⟩

/-- クラスタの内容の変わり方を、鎖の上の位置で言い直す。 -/
theorem ClusterWritten.list_byte (hw : ClusterWritten fs fs' offset size (pre.length * bytes_per_cluster fs) cur buffer)
    (hnd : (pre ++ cur :: post).Nodup) (hr : ∀ c ∈ pre ++ cur :: post, InRange fs c)
    (hbpc : bytes_per_cluster fs' = bytes_per_cluster fs)
    (hpos : pos < (pre ++ cur :: post).length * bytes_per_cluster fs) :
    list_byte fs' (pre ++ cur :: post) pos =
      if pre.length * bytes_per_cluster fs ≤ pos ∧ pos < (pre.length + 1) * bytes_per_cluster fs ∧
        offset ≤ pos ∧ pos < offset + size then buffer (pos - offset)
      else MyOS.Fat.list_byte fs (pre ++ cur :: post) pos := by
  have hbpc0 : 0 < bytes_per_cluster fs := Nat.pos_of_ne_zero fun h => by
    rw [h, Nat.mul_zero] at hpos
    omega
  have hk : pos / bytes_per_cluster fs < (pre ++ cur :: post).length :=
    Nat.div_lt_of_lt_mul (by rwa [Nat.mul_comm])
  have hi := Nat.mod_lt pos hbpc0
  have hsum := Nat.div_add_mod pos (bytes_per_cluster fs)
  unfold MyOS.Fat.list_byte
  rw [hbpc]
  generalize hkdef : pos / bytes_per_cluster fs = k at *
  generalize pos % bytes_per_cluster fs = i at *
  have hget : (pre ++ cur :: post).getD k 0 = (pre ++ cur :: post)[k] := by
    rw [List.getD_eq_getElem?_getD, List.getElem?_eq_getElem hk, Option.getD_some]
  rw [hget, hw _ _ (hr _ (List.getElem_mem hk)) hi]
  have hcur : (pre ++ cur :: post)[k] = cur ↔ k = pre.length := by
    have hlen : pre.length < (pre ++ cur :: post).length := by simp
    have hself : (pre ++ cur :: post)[pre.length] = cur := by simp
    constructor
    · intro h
      exact hnd.getElem_inj_iff.mp (h.trans hself.symm)
    · rintro rfl
      exact hself
  have hwin : k = pre.length ↔ pre.length * bytes_per_cluster fs ≤ pos ∧
      pos < (pre.length + 1) * bytes_per_cluster fs := by
    rw [← hkdef, Nat.div_eq_iff hbpc0, Nat.succ_mul]
    omega
  simp only [hcur]
  by_cases h : k = pre.length
  · subst h
    have hbi : pre.length * bytes_per_cluster fs + i = pos := by
      rw [Nat.mul_comm]
      exact hsum
    rw [hbi]
    obtain ⟨hlo, hhi⟩ := hwin.mp rfl
    simp only [hlo, hhi, true_and]
  · rw [if_neg (fun h' => h h'.1), if_neg (fun h' => h (hwin.mpr ⟨h'.1, h'.2.1⟩))]

/-! ## 繰り返し -/

/-- 鎖の `pre` の後から始めた繰り返しの結果。 -/
structure LoopWritten (fs fs' : Fs) (h offset size n : Nat) (buffer : ByteMem) (pre rest ext : List Nat) : Prop where
  chain : ChainOk fs' h (pre ++ rest ++ ext)
  same : SameOutside fs fs' (pre ++ rest ++ ext)
  count : n ≤ size
  reach : pre.length * bytes_per_cluster fs ≤ offset + n ∨ n = size
  fits : n = 0 ∨ offset + n ≤ (pre ++ rest ++ ext).length * bytes_per_cluster fs
  full : n = size ∨ Full fs'
  bytes : ∀ pos < (pre ++ rest ++ ext).length * bytes_per_cluster fs, list_byte fs' (pre ++ rest ++ ext) pos =
    if pre.length * bytes_per_cluster fs ≤ pos ∧ offset ≤ pos ∧ pos < offset + n then buffer (pos - offset)
    else list_byte fs (pre ++ rest ++ ext) pos

/-- 何も書かずに終わる場合。 -/
theorem LoopWritten.stop {n : Nat} (hok : ChainOk fs h (pre ++ rest)) (hcount : n ≤ size)
    (hreach : pre.length * bytes_per_cluster fs ≤ offset + n ∨ n = size)
    (hfits : n = 0 ∨ offset + n ≤ pre.length * bytes_per_cluster fs) (hfull : n = size ∨ Full fs) :
    LoopWritten fs fs h offset size n buffer pre rest [] := by
  have hlen : pre.length * bytes_per_cluster fs ≤ (pre ++ rest ++ []).length * bytes_per_cluster fs :=
    Nat.mul_le_mul_right _ (by simp)
  refine ⟨by simpa using hok, SameOutside.refl _ _, hcount, hreach, by omega, hfull, fun pos _ => ?_⟩
  rw [if_neg (by omega)]

/-- 一回分の結果と残りの結果をつなぐ。 -/
theorem LoopWritten.step {n : Nat} {post' ext' : List Nat} (ext : List Nat) (hpost : post' = post ++ ext)
    (hw : ClusterWritten fs fs' offset size (pre.length * bytes_per_cluster fs) cur buffer)
    (hsame : SameOutside fs fs' (pre ++ cur :: post'))
    (hl : LoopWritten fs' fs'' h offset size n buffer (pre ++ [cur]) post' ext') :
    LoopWritten fs fs'' h offset size n buffer pre (cur :: post) (ext ++ ext') := by
  subst hpost
  have hlist : pre ++ [cur] ++ (post ++ ext) ++ ext' = pre ++ cur :: post ++ (ext ++ ext') := by simp
  have hbpc := hsame.bytes_per_cluster
  have hsucc : (pre ++ [cur]).length * bytes_per_cluster fs =
      pre.length * bytes_per_cluster fs + bytes_per_cluster fs := by
    rw [List.length_append, List.length_singleton, Nat.succ_mul]
  obtain ⟨hchain, hsame', hcount, hreach, hfits, hfull, hbytes⟩ := hl
  rw [hlist] at hchain hsame' hfits hbytes
  rw [hbpc] at hreach hfits hbytes
  rw [hsucc] at hreach hbytes
  have hsub : pre ++ cur :: (post ++ ext) ⊆ pre ++ cur :: post ++ (ext ++ ext') := by
    have hassoc : pre ++ cur :: (post ++ ext) = pre ++ cur :: post ++ ext := by simp
    rw [hassoc, ← List.append_assoc]
    exact List.subset_append_left _ _
  refine ⟨hchain, (hsame.mono hsub).trans hsame', hcount, by omega, hfits, hfull, fun pos hpos => ?_⟩
  have hrange : ∀ c ∈ pre ++ cur :: (post ++ (ext ++ ext')), InRange fs c := fun c hc =>
    hsame.inRange.mp (hsame'.inRange.mp (hchain.range c (by simpa using hc)))
  have hnd : (pre ++ cur :: (post ++ (ext ++ ext'))).Nodup := by simpa using hchain.follows.nodup
  have hlist' : pre ++ cur :: post ++ (ext ++ ext') = pre ++ cur :: (post ++ (ext ++ ext')) := by simp
  rw [hbytes pos hpos, hlist', hw.list_byte hnd hrange hbpc (by rwa [← hlist']), Nat.succ_mul]
  split_ifs
  · rfl
  · omega
  · rfl
  · omega
  · omega
  · rfl

/-- 繰り返しは終わる。鎖の上を一つ進むごとに、`LoopWritten` の前の部分が延びる。 -/
theorem write_chain_loop_data (offset size : Nat) (buffer : ByteMem) : ∀ (fuel : Nat) (fs : Fs) (pre rest : List Nat) (cur : Nat),
    Layout fs → ChainOk fs h (pre ++ rest) → Cursor cur rest → fs.total_clusters + 1 ≤ fuel + pre.length →
    offset + size + bytes_per_cluster fs < 2 ^ 32 →
    (rest = [] → offset + size ≤ pre.length * bytes_per_cluster fs) →
    ∃ fs' n ext, write_chain_loop offset size (offset + size) (some buffer) fuel
        (pre.length * bytes_per_cluster fs) cur fs = some (fs', n) ∧
      LoopWritten fs fs' h offset size n buffer pre rest ext ∧
      ∀ c ∈ write_log offset (offset + size) (some buffer) fuel (pre.length * bytes_per_cluster fs) cur fs,
        c ∈ pre ++ rest ++ ext := by
  intro fuel
  induction fuel with
  | zero =>
      intro fs pre rest cur _ hok _ hfuel
      have hlen := hok.length_le
      rw [List.length_append] at hlen
      omega
  | succ fuel ih =>
      intro fs pre rest cur hlay hok hcur hfuel hfit hended
      unfold write_chain_loop write_log
      split
      · next hgo =>
          rcases hcur with ⟨-, hend⟩ | ⟨post, rfl, -⟩
          · exact absurd hend hgo.1
          have hb : pre.length * bytes_per_cluster fs + bytes_per_cluster fs < 2 ^ 32 := by omega
          have hover : memcpy_overruns (bytes_per_cluster fs) offset (add32 offset size) (some buffer)
              (pre.length * bytes_per_cluster fs) = false := not_memcpy_overruns (by omega) (by omega) (by omega)
          rw [add32_eq (by omega)] at hover
          rw [hover]
          simp only [Bool.false_eq_true, if_false]
          cases hs : write_cluster_step fs offset (offset + size) (some buffer) (pre.length * bytes_per_cluster fs) cur with
          | none =>
              obtain ⟨hfull, rfl, hmore⟩ := write_cluster_step_none hok hs
              rw [add32_eq hb] at hmore
              refine ⟨fs, _, [], rfl, .stop hok ?_ ?_ ?_ (Or.inr hfull), by simp⟩ <;> split <;> omega
          | some r =>
              obtain ⟨fs₁, d⟩ := r
              obtain ⟨ext, hok₁, hsame, hd, hw⟩ := write_cluster_step_data hlay hok hb (by omega) hgo.2 hs
              have hbpc := hsame.bytes_per_cluster
              have htotal := hsame.total_clusters
              have hpre : (pre ++ [cur]).length * bytes_per_cluster fs₁ =
                  pre.length * bytes_per_cluster fs + bytes_per_cluster fs := by
                rw [hbpc, List.length_append, List.length_singleton, Nat.succ_mul]
              have hfuel₁ : fs₁.total_clusters + 1 ≤ fuel + (pre ++ [cur]).length := by
                rw [htotal, List.length_append, List.length_singleton]
                omega
              have hlist : pre ++ cur :: post ++ ext = pre ++ [cur] ++ (post ++ ext) := by simp
              have hlay₁ := hlay.of_same hsame
              rw [hlist] at hok₁ hsame
              simp only [hbpc, add32_eq hb]
              have hlog : ∀ c ∈ (if pre.length * bytes_per_cluster fs + bytes_per_cluster fs > offset then [cur] else []),
                  c = cur := by
                intro c hc
                split at hc
                · exact List.mem_singleton.mp hc
                · cases hc
              by_cases hmore : d = 0xFFFF ∧ pre.length * bytes_per_cluster fs + bytes_per_cluster fs < offset + size
              · rw [if_pos hmore, if_pos hmore]
                -- 書く範囲より前で鎖が終わった。空きクラスタをつなぐか、ここで止まる。
                obtain ⟨rfl, rfl⟩ := List.append_eq_nil_iff.mp (hd.eq_end_iff.mp hmore.1)
                rw [List.append_nil, List.append_nil] at hok₁ hsame
                rcases hok₁.append_cluster with ⟨hnone, hfull⟩ | ⟨fs₂, c, happ, hc, -, hok₂, hsame₂, hdisk⟩
                · simp only [hnone, if_true]
                  have hn := write_actual_le_size offset size (pre.length * bytes_per_cluster fs + bytes_per_cluster fs)
                  have hge := write_actual_ge (Nat.le_of_lt hmore.2)
                  refine ⟨fs₁, _, [], rfl, LoopWritten.step [] rfl hw hsame (.stop ?_ hn ?_ ?_ (Or.inr hfull)),
                    fun c hc => ?_⟩
                  · rw [List.append_nil, List.append_nil]
                    exact hok₁
                  · rw [hpre]
                    exact Or.inl hge
                  · rw [hpre]
                    exact or_iff_not_imp_left.mpr (write_actual_le (Nat.le_refl _))
                  · rw [List.append_nil] at hc
                    simp [hlog c hc]
                · have hc2 := hc.1
                  have hcend := hc.2
                  have hbound := hok.bound
                  simp only [happ, if_neg (show c ≠ 0 by omega)]
                  obtain ⟨fs₃, n, ext₃, hrun, hl, hlog₃⟩ := ih fs₂ (pre ++ [cur]) [c] c (hlay₁.of_same hsame₂) hok₂
                    (Or.inr ⟨[], rfl, by omega⟩) (by rw [hsame₂.total_clusters]; exact hfuel₁)
                    (by rw [hsame₂.bytes_per_cluster, hbpc]; exact hfit) (by simp)
                  rw [hsame₂.bytes_per_cluster, hpre] at hrun hlog₃
                  have hw₂ := hw.of_disk hdisk hsame₂.bpb hsame₂.data_lba
                  have hsame₂' : SameOutside fs fs₂ (pre ++ cur :: [c]) :=
                    (hsame.mono (by simp)).trans (hsame₂.mono (by simp))
                  refine ⟨fs₃, n, _, hrun, LoopWritten.step [c] rfl hw₂ hsame₂' hl, fun x hx => ?_⟩
                  rcases List.mem_append.mp hx with hx | hx
                  · simp [hlog x hx]
                  · simpa using hlog₃ x hx
              · rw [if_neg hmore, if_neg hmore]
                obtain ⟨fs₃, n, ext₃, hrun, hl, hlog₃⟩ := ih fs₁ (pre ++ [cur]) (post ++ ext) d hlay₁ hok₁ hd hfuel₁
                  (by rw [hbpc]; exact hfit) (fun hnil => by
                    rw [hpre]
                    by_contra hlt
                    exact hmore ⟨hd.eq_end_iff.mpr hnil, by omega⟩)
                rw [hpre] at hrun hlog₃
                refine ⟨fs₃, n, _, hrun, LoopWritten.step ext rfl hw (by simpa using hsame) hl, fun x hx => ?_⟩
                rcases List.mem_append.mp hx with hx | hx
                · simp [hlog x hx]
                · simpa using hlog₃ x hx
      · next hstop =>
          have hle : offset + size ≤ pre.length * bytes_per_cluster fs := by
            by_contra hlt
            exact hstop ⟨fun hend => hlt (hended (hcur.eq_end_iff.mp hend)), by omega⟩
          rw [write_actual_all hle]
          exact ⟨fs, size, [], rfl, .stop hok (Nat.le_refl _) (Or.inr rfl) (Or.inr hle) (Or.inl rfl), by simp⟩

end MyOS.Fat
