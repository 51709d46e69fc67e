import Mathlib.Data.List.TakeWhile
import MyOS.Fat.Lemmas.Slots
import MyOS.Fat.Lemmas.Write
import MyOS.Fat.Read

/-!
# ディレクトリの項目の並び

単位ごとの `visible` は、項目の全体の並びの `live_entries` に等しい。
-/

namespace MyOS.Fat
open MyOS.Lib

variable {fs fs' : Fs} {c inode : Nat} {l : List Nat} {gs : List Group} {m : ByteMem}

theorem visible_eq (m : ByteMem) (gs : List Group) : visible m gs = live_entries m (dir_slots gs) := by
  induction gs with
  | nil => rfl
  | cons g gs ih =>
      unfold visible dir_slots live_entries
      rw [List.flatMap_cons, List.takeWhile_append]
      split_ifs with hend hall hall
      · obtain ⟨i, hi, h0⟩ := List.any_eq_true.mp hend
        have hlen : ((List.range g.entries).map g.slot).takeWhile (fun a => m a ≠ 0) =
            (List.range g.entries).map g.slot := (List.takeWhile_prefix _).eq_of_length hall
        have hne := List.takeWhile_eq_self_iff.mp hlen (g.slot i) (List.mem_map_of_mem hi)
        simp at hne h0
        exact absurd h0 hne
      · rw [List.append_nil]
        rfl
      · rw [List.filter_append, ih]
        congr 1
        unfold live_slots
        rw [(List.takeWhile_prefix _).eq_of_length hall]
      · refine absurd ?_ hall
        congr 1
        refine List.takeWhile_eq_self_iff.mpr fun a ha => ?_
        obtain ⟨i, hi, rfl⟩ := List.mem_map.mp ha
        have hnone := List.any_eq_false.mp (Bool.eq_false_iff.mpr hend) i hi
        simpa using hnone

/-! ## 終わりのある鎖 -/

theorem ChainEnds.follows (h : ChainEnds fs c) : c = 0xFFFF ∨
    ∃ l, Follows (fatNext fs) c l ∧ ∀ x ∈ l, x ≠ 0xFFFF := by
  induction h with
  | last => exact Or.inl rfl
  | @next c _ ih =>
      by_cases hc : c = 0xFFFF
      · exact Or.inl hc
      right
      rcases ih with hend | ⟨l, hl, hne⟩
      · exact ⟨[c], .last (fatNext_eq_none.mpr hend), by simpa using hc⟩
      · have hne' := hne _ hl.mem_head
        exact ⟨c :: l, .step (fatNext_eq_some.mpr ⟨rfl, hne'⟩) hl, List.forall_mem_cons.mpr ⟨hc, hne⟩⟩

/-- 項目は 12 ビットなので、終わりのある鎖は短い。 -/
theorem follows_length_lt (hl : Follows (fatNext fs) c l) : l.length < maxChain := by
  cases hl with
  | last => exact Nat.le_of_ble_eq_true rfl
  | @step _ b l hb hl =>
      have hentry : ∀ {b x : Nat} {l : List Nat}, Follows (fatNext fs) b l → (∃ a, fatNext fs a = some b) →
          x ∈ l → x < 0xFF7 := by
        intro b x l hl
        induction hl with
        | last =>
            rintro ⟨a, ha⟩ hx
            obtain ⟨hget, hne⟩ := fatNext_eq_some.mp ha
            rw [List.mem_singleton.mp hx, ← hget, get_fat_entry_eq] at *
            split_ifs at * <;> omega
        | step hn _ ih =>
            rintro ⟨a, ha⟩ hx
            rcases List.mem_cons.mp hx with rfl | hx
            · obtain ⟨hget, hne⟩ := fatNext_eq_some.mp ha
              rw [← hget, get_fat_entry_eq] at *
              split_ifs at * <;> omega
            · exact ih ⟨_, hn⟩ hx
      have hlen := hl.length_le (k := 0) (n := 0xFF7) fun x hx =>
        ⟨Nat.zero_le x, by rw [Nat.zero_add]; exact hentry hl ⟨_, hb⟩ hx⟩
      unfold maxChain
      rw [List.length_cons]
      omega

theorem chain_list_eq (hl : Follows (fatNext fs) c l) (hne : ∀ x ∈ l, x ≠ 0xFFFF) : ∀ {fuel : Nat},
    l.length < fuel → chain_list fs fuel c = l := by
  induction hl with
  | @last c hn =>
      intro fuel hfuel
      have hend := fatNext_eq_none.mp hn
      match fuel, hfuel with
      | fuel + 2, _ =>
          unfold chain_list
          rw [if_pos (hne c (by simp)), hend]
          rfl
  | @step c b l hn _ ih =>
      intro fuel hfuel
      obtain ⟨hget, -⟩ := fatNext_eq_some.mp hn
      obtain ⟨hc, hl⟩ := List.forall_mem_cons.mp hne
      match fuel, hfuel with
      | fuel + 1, hfuel =>
          unfold chain_list
          rw [if_pos hc, hget, ih hl (Nat.lt_of_succ_lt_succ hfuel)]

theorem dir_groups_root (fs : Fs) :
    dir_groups fs FAT12_ROOT_INODE = (List.range (root_dir_sectors fs)).map (root_group fs) := if_pos rfl

theorem Groups.dir_groups_eq (hg : Groups fs inode gs) : dir_groups fs inode = gs := by
  cases hg with
  | root => exact dir_groups_root fs
  | chain hne hl hend hlen =>
      unfold dir_groups
      rw [if_neg hne, chain_list_eq hl hend hlen]

theorem IsDirectory.groups (h : IsDirectory fs inode) : inode = 0xFFFF ∨ Groups fs inode (dir_groups fs inode) := by
  rcases h with rfl | h
  · right
    rw [dir_groups_root]
    exact .root
  · rcases h.follows with rfl | ⟨l, hl, hne⟩
    · exact Or.inl rfl
    · by_cases hroot : inode = FAT12_ROOT_INODE
      · right
        rw [hroot, dir_groups_root]
        exact .root
      · have hg : Groups fs inode (l.map (cluster_group fs)) := .chain hroot hl hne (follows_length_lt hl)
        rw [hg.dir_groups_eq]
        exact Or.inr hg

theorem IsDirectory.iterate_dir (h : IsDirectory fs inode) :
    fat12_iterate_dir fs inode = some (live_entries fs.disk (dir_slots (dir_groups fs inode))) := by
  rcases h.groups with rfl | hg
  · rfl
  · rw [iterate_dir_eq hg, visible_eq]

end MyOS.Fat

/-!
## 読み出しの繰り返し

どの回も、クラスタ一つのうち読む範囲に当たる部分を写す。後の回は、前の回に写した部分を変えない。
-/

namespace MyOS.Fat
open MyOS.Lib

variable {fs : Fs} {offset size first c : Nat} {l : List Nat}

/-! ## 一回分 -/

theorem read_copy_eq {b i : Nat} {buffer : ByteMem} (hend : b + bytes_per_cluster fs < 2 ^ 32) (hlim : offset + size < 2 ^ 32)
    (hstart : b < offset + size) (hcover : offset < b + bytes_per_cluster fs) :
    read_copy fs offset (offset + size) b c buffer i =
      if b ≤ offset + i ∧ offset + i < b + bytes_per_cluster fs ∧ i < size then
        fat12_read_cluster fs c (offset + i - b)
      else buffer i := by
  unfold read_copy write_span
  simp only [add32_eq hend]
  have hs : (if offset > b then sub32 offset b else 0) = offset - b := by
    split_ifs with h
    · exact sub32_eq (by omega) (by omega)
    · omega
  have he : (if offset + size < b + bytes_per_cluster fs then sub32 (offset + size) b else bytes_per_cluster fs) =
      min (offset + size - b) (bytes_per_cluster fs) := by
    split_ifs with h
    · rw [sub32_eq (by omega) (by omega)]
      omega
    · omega
  have hb : (if b > offset then sub32 b offset else 0) = b - offset := by
    split_ifs with h
    · exact sub32_eq (by omega) (by omega)
    · omega
  rw [hs, he, hb, sub32_eq (by omega) (by omega)]
  split_ifs with h h' h'
  · exact congrArg _ (by omega)
  · exact absurd ⟨by omega, by omega, by omega⟩ h'
  · exact absurd ⟨by omega, by omega⟩ h
  · rfl

/-- 読む範囲の終わりは、桁あふれすると、範囲の始まりよりクラスタ一つ以上前になる。 -/
theorem add32_window {bpc : Nat} (ho : offset < 2 ^ 32) (hsz : size + bpc ≤ 2 ^ 32) :
    add32 offset size = offset + size ∧ offset + size < 2 ^ 32 ∨ add32 offset size + bpc ≤ offset := by
  unfold add32
  omega

/-! ## 繰り返し -/

theorem read_chain_loop_spec (ho : offset < 2 ^ 32) (hsz : size + bytes_per_cluster fs ≤ 2 ^ 32) (hbpc : 0 < bytes_per_cluster fs) :
    ∀ (m fuel k current : Nat) (buffer : ByteMem), m < fuel → add32 offset size ≤ (k + m) * bytes_per_cluster fs →
    (m ≠ 0 → (k + m - 1) * bytes_per_cluster fs < add32 offset size) →
    (k + (chain_list fs m current).length) * bytes_per_cluster fs < 2 ^ 32 →
    ∃ out, read_chain_loop fs offset size (add32 offset size) fuel (k * bytes_per_cluster fs) current (some buffer) =
      some (read_actual offset size ((k + (chain_list fs m current).length) * bytes_per_cluster fs), some out) ∧
      (∀ i, i < size → k * bytes_per_cluster fs ≤ offset + i →
        offset + i < (k + (chain_list fs m current).length) * bytes_per_cluster fs →
        out i = fat12_read_cluster fs (nth_cluster fs ((offset + i) / bytes_per_cluster fs - k) current)
          ((offset + i) % bytes_per_cluster fs)) ∧
      ∀ i, offset + i < k * bytes_per_cluster fs → out i = buffer i := by
  intro m
  induction m with
  | zero =>
      intro fuel k current buffer hfuel hlim _ _
      obtain ⟨fuel, rfl⟩ : ∃ n, fuel = n + 1 := ⟨fuel - 1, by omega⟩
      rw [Nat.add_zero] at hlim
      unfold read_chain_loop
      rw [if_neg (by omega)]
      exact ⟨buffer, rfl, fun i _ hlo hhi => absurd hhi (Nat.not_lt.mpr hlo), fun _ _ => rfl⟩
  | succ m ih =>
      intro fuel k current buffer hfuel hlim hceil hsmall
      obtain ⟨fuel, rfl⟩ : ∃ n, fuel = n + 1 := ⟨fuel - 1, by omega⟩
      unfold read_chain_loop
      by_cases hend : current = 0xFFFF
      · rw [if_neg (by omega)]
        have hnil : chain_list fs (m + 1) current = [] := by
          unfold chain_list
          rw [if_neg (not_not.mpr hend)]
        rw [hnil]
        exact ⟨buffer, rfl, fun i _ hlo hhi => absurd hhi (Nat.not_lt.mpr hlo), fun _ _ => rfl⟩
      have hcons : chain_list fs (m + 1) current = current :: chain_list fs m (fat12_get_fat_entry fs current) := by
        rw [chain_list]
        exact if_pos hend
      have hlen : k + (chain_list fs (m + 1) current).length =
          k + 1 + (chain_list fs m (fat12_get_fat_entry fs current)).length := by
        rw [hcons, List.length_cons]
        omega
      rw [hlen] at hsmall ⊢
      have hsucc : (k + 1) * bytes_per_cluster fs = k * bytes_per_cluster fs + bytes_per_cluster fs := Nat.succ_mul _ _
      have hlast : k * bytes_per_cluster fs ≤ (k + (m + 1) - 1) * bytes_per_cluster fs :=
        Nat.mul_le_mul_right _ (by omega)
      have hlt := hceil (Nat.succ_ne_zero m)
      have hnext : (k + 1) * bytes_per_cluster fs ≤
          (k + 1 + (chain_list fs m (fat12_get_fat_entry fs current)).length) * bytes_per_cluster fs :=
        Nat.mul_le_mul_right _ (by omega)
      rw [if_pos ⟨hend, by omega⟩, not_memcpy_overruns ho hsz (by omega)]
      simp only [Bool.false_eq_true, if_false, add32_eq (show k * bytes_per_cluster fs + bytes_per_cluster fs < 2 ^ 32 by omega)]
      rw [← hsucc]
      -- 写した後のバッファ `buffer'` は、このクラスタに当たる部分だけが変わっている。
      obtain ⟨buffer', hbuf, hcur, hkeep⟩ : ∃ buffer',
          (if (k + 1) * bytes_per_cluster fs > offset ∧ k * bytes_per_cluster fs < add32 offset size then
            (some buffer).map (read_copy fs offset (add32 offset size) (k * bytes_per_cluster fs) current)
          else some buffer) = some buffer' ∧
          (∀ i, i < size → k * bytes_per_cluster fs ≤ offset + i → offset + i < (k + 1) * bytes_per_cluster fs →
            buffer' i = fat12_read_cluster fs current (offset + i - k * bytes_per_cluster fs)) ∧
          ∀ i, offset + i < k * bytes_per_cluster fs → buffer' i = buffer i := by
        by_cases hin : offset < (k + 1) * bytes_per_cluster fs
        · rcases add32_window ho hsz with ⟨heq, hrange⟩ | hwrap
          · refine ⟨_, if_pos ⟨hin, by omega⟩, fun i hi hlo hhi => ?_, fun i hi => ?_⟩
            · rw [heq, read_copy_eq (by omega) hrange (by omega) (by omega), if_pos ⟨hlo, by omega, hi⟩]
            · rw [heq, read_copy_eq (by omega) hrange (by omega) (by omega), if_neg (by omega)]
          · omega
        · exact ⟨buffer, if_neg (fun h => hin h.1), fun i _ _ hhi => by omega, fun _ _ => rfl⟩
      rw [hbuf]
      obtain ⟨out, hrun, hout, hold⟩ := ih fuel (k + 1) (fat12_get_fat_entry fs current) buffer' (by omega)
        (by rw [Nat.add_right_comm]; exact hlim) (fun _ => by rw [Nat.add_right_comm]; exact hlt) hsmall
      refine ⟨out, hrun, fun i hi hlo hhi => ?_, fun i hi => ?_⟩
      · by_cases hcase : offset + i < (k + 1) * bytes_per_cluster fs
        · have hdiv : (offset + i) / bytes_per_cluster fs = k := by
            rw [Nat.div_eq_iff hbpc]
            omega
          have hmod := Nat.div_add_mod (offset + i) (bytes_per_cluster fs)
          rw [hdiv, Nat.mul_comm] at hmod
          rw [hold i hcase, hcur i hi hlo hcase, hdiv, Nat.sub_self, ← hmod, Nat.add_sub_cancel_left]
          simp [nth_cluster]
        · have hdiv : k + 1 ≤ (offset + i) / bytes_per_cluster fs := by
            rw [Nat.le_div_iff_mul_le hbpc]
            omega
          rw [hout i hi (by omega) hhi]
          obtain ⟨j, hj⟩ : ∃ j, (offset + i) / bytes_per_cluster fs = k + 1 + j :=
            ⟨(offset + i) / bytes_per_cluster fs - (k + 1), by omega⟩
          rw [hj, show k + 1 + j - (k + 1) = j by omega, show k + 1 + j - k = j + 1 by omega, nth_cluster]
      · rw [hold i (by omega), hkeep i hi]

theorem read_actual_eq (offset size b : Nat) : read_actual offset size b = min size (b - offset) := by
  unfold read_actual
  simp only
  split_ifs <;> omega

/-- 読んだ量は、頼まれた量か、鎖の残りの少ない方である。 -/
theorem read_chain_spec (buffer : ByteMem) (ho : offset < 2 ^ 32) (hsz : size + bytes_per_cluster fs ≤ 2 ^ 32)
    (hbpc : 0 < bytes_per_cluster fs) (hsmall : read_capacity fs first (add32 offset size) < 2 ^ 32) :
    ∃ out, fat12_read_chain fs first offset size (some buffer) =
      some (min size (read_capacity fs first (add32 offset size) - offset), some out) ∧
      ∀ i < min size (read_capacity fs first (add32 offset size) - offset),
        out i = file_byte fs first (offset + i) := by
  unfold read_capacity at *
  generalize hm : (add32 offset size + bytes_per_cluster fs - 1) / bytes_per_cluster fs = m at *
  have hlo := Nat.div_mul_le_self (add32 offset size + bytes_per_cluster fs - 1) (bytes_per_cluster fs)
  have hhi := Nat.lt_div_mul_add (a := add32 offset size + bytes_per_cluster fs - 1) hbpc
  rw [hm] at hlo hhi
  have hpred : m ≠ 0 → (m - 1) * bytes_per_cluster fs + bytes_per_cluster fs = m * bytes_per_cluster fs := by
    intro hne
    rw [← Nat.succ_mul, Nat.succ_eq_add_one, Nat.sub_add_cancel (Nat.pos_of_ne_zero hne)]
  have hfuel : m ≤ m * bytes_per_cluster fs := Nat.le_mul_of_pos_right m hbpc
  have hmle : m ≤ add32 offset size := by
    by_cases hzero : m = 0
    · omega
    · have := Nat.le_mul_of_pos_right (m - 1) hbpc
      have := hpred hzero
      omega
  obtain ⟨out, hrun, hout, -⟩ := read_chain_loop_spec ho hsz hbpc m (maxChain + add32 offset size) 0 first buffer
    (by unfold maxChain; omega) (by rw [Nat.zero_add]; omega)
    (fun hne => by
      have := hpred hne
      rw [Nat.zero_add]
      omega)
    (by rw [Nat.zero_add]; exact hsmall)
  rw [Nat.zero_mul, Nat.zero_add, read_actual_eq] at hrun
  refine ⟨out, hrun, fun i hi => ?_⟩
  rw [hout i (by omega) (by omega) (by rw [Nat.zero_add]; omega), Nat.sub_zero]
  rfl

/-! ## 容量 -/

theorem chain_list_length_le : ∀ (n c : Nat), (chain_list fs n c).length ≤ n
  | 0, _ => Nat.le_refl _
  | n + 1, c => by
      unfold chain_list
      split
      · exact Nat.succ_le_succ (chain_list_length_le n _)
      · exact Nat.zero_le _

/-- 終わりのある鎖は、どこまでたどっても長くならない。 -/
theorem chain_list_take (hl : Follows (fatNext fs) c l) (hne : ∀ x ∈ l, x ≠ 0xFFFF) (n : Nat) :
    chain_list fs n c = l.take n := by
  induction hl generalizing n with
  | @last c hn =>
      have hend := fatNext_eq_none.mp hn
      match n with
      | 0 => rfl
      | 1 => exact if_pos (hne c (by simp))
      | n + 2 =>
          rw [chain_list, if_pos (hne c (by simp)), hend]
          rfl
  | @step c b l hn _ ih =>
      obtain ⟨hget, -⟩ := fatNext_eq_some.mp hn
      obtain ⟨hc, hl⟩ := List.forall_mem_cons.mp hne
      match n with
      | 0 => rfl
      | n + 1 => rw [chain_list, if_pos hc, hget, ih hl n, List.take_succ_cons]

theorem chain_list_end : ∀ n : Nat, chain_list fs n 0xFFFF = []
  | 0 => rfl
  | _ + 1 => if_neg (not_not.mpr rfl)

/-- 途中までの容量は、頼まれた位置に届くか、鎖全体の容量に等しい。 -/
theorem read_capacity_cases (hl : Follows (fatNext fs) c l) (hne : ∀ x ∈ l, x ≠ 0xFFFF)
    (hbpc : 0 < bytes_per_cluster fs) (limit : Nat) :
    read_capacity fs c limit = l.length * bytes_per_cluster fs ∨
      limit ≤ read_capacity fs c limit ∧ read_capacity fs c limit ≤ l.length * bytes_per_cluster fs := by
  unfold read_capacity
  rw [chain_list_take hl hne, List.length_take]
  have hhi := Nat.lt_div_mul_add (a := limit + bytes_per_cluster fs - 1) hbpc
  rcases Nat.le_total l.length ((limit + bytes_per_cluster fs - 1) / bytes_per_cluster fs) with hle | hle
  · rw [Nat.min_eq_right hle]
    exact Or.inl rfl
  · rw [Nat.min_eq_left hle]
    exact Or.inr ⟨by omega, Nat.mul_le_mul_right _ hle⟩

theorem ChainEnds.read_capacity (h : ChainEnds fs first) (hbpc : 0 < bytes_per_cluster fs) (limit : Nat) :
    read_capacity fs first limit = chain_capacity fs first ∨
      limit ≤ read_capacity fs first limit ∧ read_capacity fs first limit ≤ chain_capacity fs first := by
  unfold chain_capacity
  rcases h.follows with rfl | ⟨l, hl, hne⟩
  · unfold MyOS.Fat.read_capacity
    rw [chain_list_end, chain_list_end]
    exact Or.inl rfl
  · rw [chain_list_eq hl hne (follows_length_lt hl)]
    exact read_capacity_cases hl hne hbpc limit

theorem bytes_per_cluster_le (hlay : Layout fs) : bytes_per_cluster fs ≤ 255 * 512 := by
  have hspc := hlay.sectors_per_cluster
  unfold bytes_per_cluster
  rw [hlay.bytes_per_sector]
  omega

theorem chain_capacity_lt (hlay : Layout fs) (first : Nat) : chain_capacity fs first < 2 ^ 30 := by
  have hlen : (chain_list fs maxChain first).length ≤ maxChain := chain_list_length_le _ _
  calc chain_capacity fs first ≤ maxChain * (255 * 512) := Nat.mul_le_mul hlen (bytes_per_cluster_le hlay)
    _ < 2 ^ 30 := by decide

theorem read_capacity_lt (hlay : Layout fs) (hbpc : 0 < bytes_per_cluster fs) {limit : Nat}
    (hend : ChainEnds fs first ∨ limit + bytes_per_cluster fs ≤ 2 ^ 32) : read_capacity fs first limit < 2 ^ 32 := by
  rcases hend with h | hle
  · have hlt := chain_capacity_lt hlay first
    rcases h.read_capacity hbpc limit with heq | ⟨-, hle⟩ <;> omega
  · have hlo := Nat.div_mul_le_self (limit + bytes_per_cluster fs - 1) (bytes_per_cluster fs)
    have hcount : (chain_list fs ((limit + bytes_per_cluster fs - 1) / bytes_per_cluster fs) first).length ≤
        (limit + bytes_per_cluster fs - 1) / bytes_per_cluster fs := chain_list_length_le _ _
    have hlen := Nat.mul_le_mul_right (bytes_per_cluster fs) hcount
    unfold read_capacity
    omega

end MyOS.Fat
