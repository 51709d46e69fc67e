import MyOS.Fat.FlushTheorems
import MyOS.Fat.InitTheorems

/-!
# ボリュームを検出し直す定理

操作は、ブートセクタにも、表の大きさにも触れない。写しが表と同じなら、`init_fat12` は同じファイルシステムを作り直す。
-/

namespace MyOS.Fat
open MyOS.Lib ByteMem

variable {fs fs' fs'' : Fs} {H D : Set Nat} {own : Nat → Nat} {a c inode lba_offset : Nat} {name : List UInt8}
  {node node' : Node} {n size units : Nat} {buffer : Option ByteMem} {v v' v₀ : Vol} {op : VolOp} {dev : Device}

/-- 表より前のセクタと、配置と、表の大きさは変わらない。 -/
structure BootKept (fs fs' : Fs) : Prop where
  shape : SameShape fs fs'
  size : fs'.fat_cache.size = fs.fat_cache.size
  boot : ∀ x < fs.fat_lba * ATA_SECTOR_SIZE, fs'.disk x = fs.disk x

theorem BootKept.refl (fs : Fs) : BootKept fs fs := ⟨.refl fs, rfl, fun _ _ => rfl⟩

theorem BootKept.trans (h : BootKept fs fs') (h' : BootKept fs' fs'') : BootKept fs fs'' := by
  refine ⟨h.shape.trans h'.shape, h'.size.trans h.size, fun x hx => ?_⟩
  rw [h'.boot x (by rw [h.shape.fat_lba]; exact hx), h.boot x hx]

theorem fat_before_root (hlay : Layout fs) {x : Nat} (hx : x < fs.fat_lba * ATA_SECTOR_SIZE) : x < fs.root_lba * ATA_SECTOR_SIZE := by
  rw [hlay.root_lba]
  exact Nat.lt_of_lt_of_le hx (Nat.mul_le_mul_right _ (Nat.le_add_right _ _))

/-! ## 操作ごとの表の大きさ -/

theorem allocate_size (fs : Fs) : (fat12_allocate_cluster fs).1.fat_cache.size = fs.fat_cache.size := by
  rcases allocate_cluster_cases fs with ⟨c, halloc, -, -⟩ | ⟨halloc, -⟩
  · rw [halloc]
    exact fat_cache_size_set
  · rw [halloc]

theorem free_cluster_loop_size (fuel c : Nat) (fs : Fs) (h : free_cluster_loop fuel c fs = some fs') :
    fs'.fat_cache.size = fs.fat_cache.size := by
  induction fuel generalizing c fs with
  | zero => cases h
  | succ fuel ih =>
    rw [free_cluster_loop] at h
    split at h
    · rw [ih _ _ h, fat_cache_size_set]
    · cases h
      rfl

/-- 表の書き出しは、写しだけを書く。 -/
theorem flush_kept (fs : Fs) : BootKept fs (fat12_flush_fat fs) := by
  have hfold : ∀ is : List Nat, ∀ fs' : Fs, BootKept fs fs' → BootKept fs (is.foldl (fun fs i =>
      ata_write_sectors fs (fs.fat_lba + i * fs.bpb.fat_size_sectors) fs.bpb.fat_size_sectors (cacheByte fs)) fs') := by
    intro is
    induction is with
    | nil => exact fun _ h => h
    | cons i is ih =>
      refine fun fs' h => ih _ (h.trans ⟨.of_disk fs' _, rfl, fun x hx => if_neg ?_⟩)
      rw [Nat.add_mul]
      omega
  exact hfold _ fs (.refl fs)

section Iterate

variable {σ : Type} {callback : Callback σ} (hcb : ∀ base i buf fs ctx, (callback base i buf fs ctx).1.fat_cache.size = fs.fat_cache.size)
include hcb

theorem write_in_group_size (g : Group) (fs : Fs) (ctx : σ) : (write_in_group callback g fs ctx).1.fat_cache.size = fs.fat_cache.size := by
  unfold write_in_group
  dsimp only
  split
  · exact hcb _ _ _ _ _
  · rfl

theorem write_in_chain_size (fuel cluster : Nat) (fs : Fs) (ctx : σ) {r : Fs × σ} (h : write_in_chain callback fuel cluster fs ctx = some r) :
    r.1.fat_cache.size = fs.fat_cache.size := by
  induction fuel generalizing cluster fs ctx with
  | zero => cases h
  | succ fuel ih =>
    rw [write_in_chain] at h
    split at h
    · exact (ih _ _ _ h).trans (write_in_group_size hcb _ _ _)
    · cases h
      rfl

theorem iterate_dir_write_size (fs : Fs) (inode : Nat) (ctx : σ) {r : Fs × σ} (h : fat12_iterate_dir_write callback fs inode ctx = some r) :
    r.1.fat_cache.size = fs.fat_cache.size := by
  unfold fat12_iterate_dir_write at h
  split at h
  · have hfold : ∀ (is : List Nat) (st : Fs × σ), (is.foldl (fun (st : Fs × σ) s =>
        write_in_group callback (root_group st.1 s) st.1 st.2) st).1.fat_cache.size = st.1.fat_cache.size := by
      intro is
      induction is with
      | nil => exact fun _ => rfl
      | cons s is ih => exact fun st => (ih _).trans (write_in_group_size hcb _ _ _)
    cases h
    exact hfold _ (fs, ctx)
  · exact write_in_chain_size hcb maxChain _ _ _ h

end Iterate

theorem write_cluster_size (fs : Fs) (cluster : Nat) (buffer : ByteMem) : (fat12_write_cluster fs cluster buffer).fat_cache.size = fs.fat_cache.size := by
  obtain ⟨disk, heq, -⟩ := fat12_write_cluster_eq fs cluster buffer
  rw [heq]

theorem mkdir_entry_size (base i : Nat) (buf : ByteMem) (fs : Fs) (done : Option Nat) :
    (mkdir_entry_cb name c base i buf fs done).1.fat_cache.size = fs.fat_cache.size := by
  cases done <;> rfl

theorem mkdir_size {dir : Node} {made : Option (Nat × Nat)} (h : fat12_mkdir fs dir name = some (fs', made)) :
    fs'.fat_cache.size = fs.fat_cache.size := by
  unfold fat12_mkdir at h
  split at h
  · cases h
    rfl
  · obtain ⟨found, -, h⟩ := Option.bind_eq_some_iff.mp h
    cases found with
    | some => cases h; rfl
    | none =>
      dsimp only at h
      split at h
      · cases h
        exact allocate_size fs
      · obtain ⟨⟨fs₁, slot⟩, hiter, h⟩ := Option.bind_eq_some_iff.mp h
        have hwritten := @iterate_dir_write_size _ (mkdir_entry_cb name (fat12_allocate_cluster fs).2) mkdir_entry_size _ _ _ _ hiter
        have hsize : fs₁.fat_cache.size = fs.fat_cache.size := hwritten.trans ((write_cluster_size _ _ _).trans (allocate_size fs))
        cases slot with
        | none =>
          obtain ⟨fs₂, hfree, heq⟩ := Option.map_eq_some_iff.mp h
          cases heq
          exact (free_cluster_loop_size maxChain _ _ hfree).trans hsize
        | some slot =>
          cases h
          exact (flush_kept fs₁).size.trans hsize

theorem unlink_in_group_size {g : Group} (h : unlink_in_group fs g name = some (fs', a)) : fs'.fat_cache.size = fs.fat_cache.size := by
  obtain ⟨b, -, heq⟩ := Option.map_eq_some_iff.mp h
  cases heq
  rfl

theorem unlink_in_chain_size (fuel cluster : Nat) (h : unlink_in_chain fs name fuel cluster = some (some (fs', a))) :
    fs'.fat_cache.size = fs.fat_cache.size := by
  induction fuel generalizing cluster with
  | zero => cases h
  | succ fuel ih =>
    rw [unlink_in_chain] at h
    split at h
    · split at h
      · next hgroup =>
        cases h
        exact unlink_in_group_size hgroup
      · exact ih _ h
    · cases h

theorem unlink_in_dir_size (h : unlink_in_dir fs inode name = some (some (fs', a))) : fs'.fat_cache.size = fs.fat_cache.size := by
  unfold unlink_in_dir at h
  split at h
  · obtain ⟨s, -, hgroup⟩ := List.exists_of_findSome?_eq_some (Option.some.inj h)
    exact unlink_in_group_size hgroup
  · exact unlink_in_chain_size maxChain _ h

theorem unlink_size {dir : Node} {gone : Option Nat} (h : fat12_unlink fs dir name = some (fs', gone)) :
    fs'.fat_cache.size = fs.fat_cache.size := by
  unfold fat12_unlink at h
  split at h
  · cases h
    rfl
  · obtain ⟨found, -, h⟩ := Option.bind_eq_some_iff.mp h
    cases found with
    | none => cases h; rfl
    | some found =>
      dsimp only at h
      split at h
      · cases h
        rfl
      · obtain ⟨erased, herased, h⟩ := Option.bind_eq_some_iff.mp h
        cases erased with
        | none => cases h; rfl
        | some erased =>
          obtain ⟨fs₁, hfree, heq⟩ := Option.map_eq_some_iff.mp h
          cases heq
          have hsize : fs₁.fat_cache.size = erased.1.fat_cache.size := by
            split at hfree
            · exact free_cluster_loop_size maxChain _ _ hfree
            · cases hfree
              rfl
          exact ((flush_kept fs₁).size.trans hsize).trans (unlink_in_dir_size herased)

/-! ## 書き込み -/

/-- 範囲の中のクラスタは、表より後ろにある。 -/
theorem SameOutside.boot {l : List Nat} (hsame : SameOutside fs fs' l) (hlay : Layout fs) (hrange : ∀ c ∈ l, InRange fs c) : BootKept fs fs' := by
  refine ⟨hsame.shape, hsame.size, fun x hx => hsame.disk x fun c hc hin => ?_⟩
  have hafter := (hrange c hc).after_fat hlay hin
  have hbefore := fat_before_root hlay hx
  omega

theorem updated_boot (hlay : Layout fs) (node : Node) : ∃ fs', fat12_update_dir_entry fs node = some fs' ∧ BootKept fs fs' := by
  rw [update_dir_entry_eq hlay]
  cases ht : root_target fs node.name with
  | none => exact ⟨fs, rfl, .refl fs⟩
  | some t =>
    refine ⟨_, rfl, .of_disk fs _, rfl, fun x hx => updated_of_outside (Or.inl ?_)⟩
    obtain ⟨⟨s, -, i, -, rfl, -⟩, -⟩ := (root_target_eq_some hlay).mp ht
    have hbefore := fat_before_root hlay hx
    have hle : fs.root_lba * ATA_SECTOR_SIZE ≤ (root_group fs s).slot i :=
      (Nat.mul_le_mul_right _ (Nat.le_add_right _ s)).trans (Nat.le_add_right _ _)
    exact Nat.lt_of_lt_of_le hbefore (hle.trans (Nat.le_add_right _ _))

theorem write_fs_boot (hw : Writable fs H D node) (hsz : mul32 size units + bytes_per_cluster fs ≤ 2 ^ 32)
    (h : fat12_write_fs fs node size units buffer = some (fs', node', n)) : BootKept fs fs' := by
  simp only [fat12_write_fs] at h
  split at h
  · cases h
    exact .refl fs
  rcases write_start_spec hw with ⟨hnone, -, -⟩ | ⟨fs₁, H₁, node₁, l, ext, hsome, hs⟩
  · rw [hnone] at h
    cases h
    exact .refl fs
  rw [hsome] at h
  obtain ⟨⟨fs₂, written⟩, hwrite, h⟩ := Option.bind_eq_some_iff.mp h
  obtain ⟨fs₃, hupdate, heq⟩ := Option.map_eq_some_iff.mp h
  cases heq
  have hstart : BootKept fs fs₁ := hs.same.boot hw.layout fun c hc => (hs.free c hc).1
  have hlay₁ := hw.layout.of_same hs.same
  have hseek : node₁.seek_offset = node.seek_offset := by rw [hs.node_eq]
  obtain ⟨fs₂', n', l', ext', hwrite', -, ha, -, -⟩ := write_chain_spec node₁.seek_offset (mul32 size units) buffer hs.fat hs.head.1
    (hseek ▸ hw.seek) (by rw [hs.same.bytes_per_cluster]; exact hsz)
  cases hwrite.symm.trans hwrite'
  have hchain : BootKept fs₁ fs₂ := ha.same.boot hlay₁ fun c hc => by
    rcases List.mem_append.mp hc with hc | hc
    · exact hs.fat.chains.dom_of_mem hs.head.1 ha.before hc
    · exact (ha.free c hc).1
  obtain ⟨fs₃', hupdate', hentry⟩ := updated_boot (hlay₁.of_same ha.same) _
  cases hupdate.symm.trans hupdate'
  exact ((hstart.trans hchain).trans hentry).trans (flush_kept fs₃)

/-! ## 一歩 -/

theorem mkdir_step_size {dir : Nat} (hstep : v.step (.mkdir dir name) = some v') : v'.fs.fat_cache.size = v.fs.fat_cache.size := by
  simp only [Vol.step] at hstep
  split at hstep
  · obtain ⟨⟨fs', made⟩, hmkdir, rfl⟩ := Option.map_eq_some_iff.mp hstep
    exact mkdir_size hmkdir
  · cases hstep

theorem unlink_step_size {dir : Nat} (hstep : v.step (.unlink dir name) = some v') : v'.fs.fat_cache.size = v.fs.fat_cache.size := by
  simp only [Vol.step] at hstep
  split at hstep
  · obtain ⟨⟨fs', gone⟩, hunlink, rfl⟩ := Option.map_eq_some_iff.mp hstep
    have hsize := unlink_size hunlink
    cases gone <;> exact hsize
  · cases hstep

/-- 新しいディレクトリのクラスタは、表より後ろにある。 -/
theorem mkdir_fs_boot (hlay : Layout fs) (hr : InRange fs c) (parent : Nat) {x : Nat} (hx : x < fs.fat_lba * ATA_SECTOR_SIZE) :
    (mkdir_fs fs c parent).disk x = fs.disk x := by
  obtain ⟨disk, heq, hout, -⟩ := mkdir_fs_eq fs c parent
  rw [heq]
  refine hout x fun hin => ?_
  have hafter := hr.after_fat hlay hin
  have hbefore := fat_before_root hlay hx
  omega

theorem Moved.boot (hmv : Moved v H own op v') (hT : Tracked v.fs H v.dir_set own v.live) (hstep : v.step op = some v') :
    BootKept v.fs v'.fs := by
  have hchains := hT.fat.chains.mono hT.dirs
  -- 項目の番地は、表より後ろにある。
  have hslot : ∀ a, IsSlot v.fs v.dir_set a → ∀ x < v.fs.fat_lba * ATA_SECTOR_SIZE, x < a := fun a ha x hx =>
    Nat.lt_of_lt_of_le (fat_before_root hT.layout hx) (ha.after_fat hT.layout hchains)
  cases hmv with
  | still hfs =>
    rw [hfs]
    exact .refl _
  | created hn hg _ hroom =>
    obtain ⟨hmem, hi, hfree⟩ := room_some hroom
    have hdir : IsDir v.dir_set _ := hn.1
    obtain ⟨H', own', -, hch⟩ := hT.create (hg.isSlot hdir hmem hi) hfree _
    exact ⟨hch.shape, allocate_size v.fs, fun x hx => entry_write_outside _ (Or.inl (hslot _ (hg.isSlot hdir hmem hi) x hx))⟩
  | returned _ _ _ hr _ hp hdisk _ hch =>
    refine ⟨hp.changes.shape.trans hch.shape, mkdir_step_size hstep, fun x hx => ?_⟩
    exact (congrFun hdisk x).trans (mkdir_fs_boot hT.layout hr _ hx)
  | @made dir c i own' name gs g hn hg _ hroom hr _ hp =>
    obtain ⟨hmem, hi, -⟩ := room_some hroom
    have hdir : IsDir v.dir_set _ := hn.1
    have ha := hg.isSlot hdir hmem hi
    have hflush := flush_kept { mkdir_fs v.fs c dir with disk := Entry.write (mkdir_fs v.fs c dir).disk (g.slot i) (new_entry name 0x10 c) }
    refine ⟨hp.changes.shape.trans (hp.made_changes ha _).shape, mkdir_step_size hstep, fun x hx => ?_⟩
    refine (hflush.boot x ?_).trans ((entry_write_outside _ (Or.inl (hslot _ ha x hx))).trans (mkdir_fs_boot hT.layout hr _ hx))
    exact hp.changes.shape.fat_lba.symm ▸ hx
  | unlinked _ _ _ hgone =>
    have hshape := hgone.changes.shape
    refine ⟨(hgone.changes.flush hT.layout hchains).shape, unlink_step_size hstep, fun x hx => ?_⟩
    refine ((flush_kept _).boot x (by rw [hshape.fat_lba]; exact hx)).trans ((congrFun hgone.disk x).trans (store8_of_ne ?_))
    exact Nat.ne_of_lt (hslot _ hgone.file.1 x hx)
  | @wrote k size units n buffer h fs' H' node' l ext hk hlive _ hw =>
    simp only [Vol.step, hk, Option.bind_some] at hstep
    split at hstep
    next hguard =>
      obtain ⟨⟨fs₁, node₁, n₁⟩, hrun, heq⟩ := Option.map_eq_some_iff.mp hstep
      have hfs : fs' = fs₁ := (congrArg Vol.fs heq).symm
      rw [hfs]
      exact write_fs_boot ((hT.handle h hlive).writable hT) hguard.2 hrun
    · cases hstep

theorem boot_run (hok : v₀.Ok) (hrun : Steps Vol.step (WritesMeet fun fs h _ => UpdatesOwn fs h) v₀ v) : v.Ok ∧ BootKept v₀.fs v.fs := by
  refine hrun.inv (P := fun v => v.Ok ∧ BootKept v₀.fs v.fs) (fun s e t hs howns hstep => ?_) ⟨hok, .refl _⟩
  obtain ⟨⟨H, own, hT⟩, hboot⟩ := hs
  have hmv := step_moved hT (UpdatesOwn.unlinked howns) hstep
  exact ⟨hmv.ok hT howns, hboot.trans (hmv.boot hT hstep)⟩

/-! ## 検出し直す -/

theorem load16_congr {m m' : ByteMem} (h0 : m' a = m a) (h1 : m' (a + 1) = m (a + 1)) : load16 m' a = load16 m a := by
  unfold load16
  rw [h0, h1]

/-- 欄は、先頭の 36 バイトの中にある。 -/
theorem BootSector.read_congr {m m' : ByteMem} (h : ∀ x, a ≤ x → x < a + 36 → m' x = m x) : BootSector.read m' a = BootSector.read m a := by
  have h16 : ∀ k, k + 2 ≤ 36 → load16 m' (a + k) = load16 m (a + k) := fun k hk => load16_congr (h _ (by omega) (by omega)) (h _ (by omega) (by omega))
  have h32 : load32 m' (a + 32) = load32 m (a + 32) := load32_congr fun x hx hx' => h x (by omega) (by omega)
  unfold BootSector.read
  rw [h16 11 (by decide), h16 14 (by decide), h16 17 (by decide), h16 19 (by decide), h16 22 (by decide), h32, h _ (by omega) (by omega),
    h (a + 16) (by omega) (by omega)]

theorem SameShape.eq (h : SameShape fs fs') : { fs with fat_cache := fs'.fat_cache, disk := fs'.disk } = fs' := by
  cases fs
  cases fs'
  obtain ⟨rfl, rfl, rfl, rfl, rfl, rfl⟩ := h
  rfl

/-- 最初の写しを読むと、表に戻る。 -/
theorem Mirrored.cache {k : Nat} (hm : Mirrored fs) (hfats : 0 < fs.bpb.num_fats) (hk : fs.fat_cache.size = k)
    (hsize : k ≤ fs.bpb.fat_size_sectors * ATA_SECTOR_SIZE) :
    (Array.ofFn fun i : Fin k => fs.disk (fs.fat_lba * ATA_SECTOR_SIZE + i)) = fs.fat_cache := by
  refine Array.ext (Array.size_ofFn.trans hk.symm) fun i hi hi' => ?_
  have hcopy := hm 0 hfats i (Nat.lt_of_lt_of_le (hk ▸ hi') hsize)
  rw [fat_copy, Nat.zero_mul, Nat.add_zero] at hcopy
  rw [Array.getElem_ofFn, hcopy, cacheByte, Array.getD_eq_getD_getElem?, Array.getElem?_eq_getElem hi', Option.getD_some]

/-- 写しが表と同じなら、同じファイルシステムになる。 -/
theorem init_again (hmount : init_fat12 dev lba_offset = .ready fs) (hreserved : lba_offset < fs.fat_lba) (hfats : 0 < fs.bpb.num_fats)
    (hboot : BootKept fs fs') (hm : Mirrored fs') : init_fat12 { dev with disk := fs'.disk } lba_offset = .ready fs' := by
  unfold init_fat12 at hmount ⊢
  dsimp only at hmount ⊢
  split at hmount
  · cases hmount
  next hpresent =>
  split at hmount
  · cases hmount
  next hread =>
  split at hmount
  · cases hmount
  next hbytes =>
  split at hmount
  · cases hmount
  next hfat =>
  split at hmount
  · cases hmount
  next hspc =>
  have hfs := InitResult.ready.inj hmount
  have hdisk : dev.disk = fs.disk := congrArg Fs.disk hfs
  have hsector : BootSector.read fs'.disk (lba_offset * ATA_SECTOR_SIZE) = BootSector.read dev.disk (lba_offset * ATA_SECTOR_SIZE) := by
    refine BootSector.read_congr fun x _ hx => ?_
    rw [hdisk]
    refine hboot.boot x ?_
    have hle := Nat.mul_le_mul_right ATA_SECTOR_SIZE (Nat.succ_le_of_lt hreserved)
    rw [Nat.succ_mul] at hle
    exact Nat.lt_of_lt_of_le (Nat.lt_of_lt_of_le hx (Nat.add_le_add_left (by decide) _)) hle
  rw [hsector, if_neg hpresent, if_neg hread, if_neg hbytes, if_neg hfat, if_neg hspc]
  generalize BootSector.read dev.disk (lba_offset * ATA_SECTOR_SIZE) = b at *
  subst hfs
  have hbpb : fs'.bpb = b.bpb := hboot.shape.bpb
  have hlba : fs'.fat_lba = add32 lba_offset b.reserved_sectors := hboot.shape.fat_lba
  have hle : mul32 b.fat_size_sectors b.bytes_per_sector ≤ fs'.bpb.fat_size_sectors * ATA_SECTOR_SIZE := by
    have hbps : b.bytes_per_sector = ATA_SECTOR_SIZE := not_not.mp hbytes
    rw [hbpb, hbps]
    exact Nat.mod_le _ _
  have hsize : fs'.fat_cache.size = mul32 b.fat_size_sectors b.bytes_per_sector := hboot.size.trans Array.size_ofFn
  have hnum : 0 < fs'.bpb.num_fats := by rw [hbpb]; exact hfats
  have hcache := hm.cache hnum hsize hle
  rw [hlba] at hcache
  rw [hcache]
  exact congrArg InitResult.ready hboot.shape.eq

/-! ## 実行 -/

/-- どの操作の列の後でも、`fat12_sync` をしてから検出し直すと、同じファイルシステムに戻る。 -/
theorem remount_restores (hmount : init_fat12 dev lba_offset = .ready v₀.fs) (hreserved : lba_offset < v₀.fs.fat_lba)
    (hfats : 0 < v₀.fs.bpb.num_fats) (hv : Volume v₀.fs H v₀.dir_set) (hnone : ∀ k, v₀.handles k = none)
    (hrun : Steps Vol.step (WritesMeet fun fs h _ => UpdatesOwn fs h) v₀ v) :
    init_fat12 { dev with disk := (fat12_sync v.fs).disk } lba_offset = .ready (fat12_sync v.fs) := by
  have hboot : BootKept v₀.fs (fat12_sync v.fs) := (boot_run (hv.ok hnone) hrun).2.trans (flush_kept v.fs)
  have hm : Mirrored (fat12_sync v.fs) := flush_mirrored v.fs
  exact init_again hmount hreserved hfats hboot hm

/-- 四つのクラスタと二つの表を持つ、書式を整えた装置。 -/
def formatted : Device where
  present := true
  read_ok _ _ := true
  disk := fun x =>
    if x < 36 then ([0, 0, 0, 0, 0, 0, 0, 0, 0, 0, 0, 0, 2, 1, 1, 0, 2, 16, 0, 8, 0, 0xF8, 1] : List UInt8).getD x 0
    else blankFs.disk x

def formatted_fs : Fs := { blankFs with fat_cache := ⟨[0xF0, 0xFF, 0xFF] ++ List.replicate 509 0⟩, disk := formatted.disk }

theorem formatted_copy {i x : Nat} (hi : i < 2) (hx : x < 512) :
    fat_copy formatted_fs i x = #[0xF0, 0xFF, 0xFF].getD x 0 := by
  have hmod : ((1 + i * 1) * 512 + x) % 512 = x := by omega
  show (if (1 + i * 1) * 512 + x < 36 then _ else if 512 ≤ (1 + i * 1) * 512 + x ∧ (1 + i * 1) * 512 + x < 1536 then
    #[0xF0, 0xFF, 0xFF].getD (((1 + i * 1) * 512 + x) % 512) 0 else (0 : UInt8)) = _
  rw [if_neg (by omega), if_pos (by omega), hmod]

theorem formatted_table (x : Nat) : cacheByte formatted_fs x = #[0xF0, 0xFF, 0xFF].getD x 0 := by
  match x with
  | 0 => decide +kernel
  | 1 => decide +kernel
  | 2 => decide +kernel
  | x + 3 =>
    have hrest : ([0xF0, 0xFF, 0xFF] ++ List.replicate 509 (0 : UInt8))[x + 3]? = (List.replicate 509 0)[x]? :=
      List.getElem?_append_right (Nat.le_add_left 3 x)
    show ([0xF0, 0xFF, 0xFF] ++ List.replicate 509 (0 : UInt8)).toArray.getD (x + 3) 0 = _
    rw [Array.getD_eq_getD_getElem?, List.getElem?_toArray, hrest, List.getElem?_replicate]
    split <;> rfl

theorem formatted_mirrored : Mirrored formatted_fs := fun i hi x hx => by
  rw [formatted_table]
  exact formatted_copy hi hx

theorem formatted_sector : BootSector.read formatted.disk 0 = ⟨512, 1, 1, 2, 16, 8, 1, 0⟩ := by decide +kernel

theorem formatted_ready : init_fat12 formatted 0 = .ready formatted_fs := by
  have hle : mul32 1 512 ≤ formatted_fs.bpb.fat_size_sectors * ATA_SECTOR_SIZE := by
    have hone : formatted_fs.bpb.fat_size_sectors = 1 := rfl
    rw [hone]
    exact Nat.mod_le (1 * 512) _
  have hsize : formatted_fs.fat_cache.size = mul32 1 512 := by
    show ([0xF0, 0xFF, 0xFF] ++ List.replicate 509 (0 : UInt8)).length = _
    rw [List.length_append, List.length_replicate]
    rfl
  have hnum : 0 < formatted_fs.bpb.num_fats := Nat.two_pos
  have hcache := formatted_mirrored.cache hnum hsize hle
  rcases init_fat12_eq formatted with ⟨hreject, -⟩ | ⟨-, -, heq⟩
  · rcases hreject with h | h | h | h
    · cases h
    · cases h
    · rw [formatted_sector] at h
      exact absurd rfl h
    · cases h
  · rw [heq, formatted_sector, if_neg (by decide)]
    have hmeta : BootSector.meta_sectors ⟨512, 1, 1, 2, 16, 8, 1, 0⟩ = 4 := by decide +kernel
    unfold geometry
    rw [hmeta]
    simp only [BootSector.total_sectors, ne_eq]
    simp only [formatted_fs, blankFs] at hcache ⊢
    rw [hcache]
    rfl

def formatted_vol : Vol := ⟨formatted_fs, [], fun _ => none⟩

theorem formatted_volume : Volume formatted_vol.fs ∅ formatted_vol.dir_set := by
  have hdirs : formatted_vol.dir_set = ∅ := by
    ext d
    simp [Vol.dir_set, formatted_vol]
  have hfree : ∀ c < 6, 2 ≤ c → fat12_get_fat_entry formatted_fs c = 0 := by decide +kernel
  rw [hdirs]
  refine .of_free ⟨rfl, rfl, by decide, rfl, rfl, by decide⟩ (by decide) (by decide +kernel) (fun c hc => hfree c hc.2 hc.1) ?_
  rintro a (⟨s, hs, i, hi, rfl⟩ | ⟨c, ⟨d, hd, -⟩, -⟩)
  · have hge : 1536 ≤ (root_group formatted_vol.fs s).slot i := by
      simp only [Group.slot, root_group, formatted_vol, formatted_fs, blankFs, ATA_SECTOR_SIZE, sizeofDirEntry]
      omega
    exact (if_neg (by omega)).trans (if_neg (by omega))
  · exact absurd hd (Set.notMem_empty d)

theorem remount_restores_mkdir : ∃ v, Steps Vol.step (WritesMeet fun fs h _ => UpdatesOwn fs h) formatted_vol v ∧ v.dirs = [2] ∧
    init_fat12 { formatted with disk := (fat12_sync v.fs).disk } 0 = .ready (fat12_sync v.fs) := by
  have hrun : (formatted_vol.step (.mkdir FAT12_ROOT_INODE letterA)).any (fun v => decide (v.dirs = [2])) = true := by
    decide +kernel
  obtain ⟨v, hstep, hdirs⟩ := (Option.any_eq_true _ _).mp hrun
  have howns : WritesMeet (fun fs h _ => UpdatesOwn fs h) formatted_vol (.mkdir FAT12_ROOT_INODE letterA) := trivial
  have hsteps : Steps Vol.step (WritesMeet fun fs h _ => UpdatesOwn fs h) formatted_vol v := .tail _ (.refl _) howns hstep
  exact ⟨v, hsteps, of_decide_eq_true hdirs,
    remount_restores formatted_ready (by decide) (by decide) formatted_volume (fun _ => rfl) hsteps⟩

/-- クラスタを確保する作成がなければ、どの操作の後で電源が切れても、検出し直すと同じファイルシステムに戻る。 -/
theorem power_loss_restores (hmount : init_fat12 dev lba_offset = .ready v₀.fs) (hreserved : lba_offset < v₀.fs.fat_lba)
    (hfats : 0 < v₀.fs.bpb.num_fats) (hv : Volume v₀.fs H v₀.dir_set) (hnone : ∀ k, v₀.handles k = none) (hm : Mirrored v₀.fs)
    (hrun : Steps Vol.step KeepsCopies v₀ v) : init_fat12 { dev with disk := v.fs.disk } lba_offset = .ready v.fs := by
  have hok := hv.ok hnone
  have howns : Steps Vol.step (WritesMeet fun fs h _ => UpdatesOwn fs h) v₀ v := by
    clear hm
    induction hrun with
    | refl => exact .refl _
    | tail e _ hkeep hstep ih => exact .tail e ih hkeep.owns hstep
  exact init_again hmount hreserved hfats (boot_run hok howns).2 (mirrored_run hok hm hrun).2.1

theorem power_loss_restores_mkdir : ∃ v, Steps Vol.step KeepsCopies formatted_vol v ∧ v.dirs = [2] ∧
    init_fat12 { formatted with disk := v.fs.disk } 0 = .ready v.fs := by
  have hrun : (formatted_vol.step (.mkdir FAT12_ROOT_INODE letterA)).any (fun v => decide (v.dirs = [2])) = true := by
    decide +kernel
  obtain ⟨v, hstep, hdirs⟩ := (Option.any_eq_true _ _).mp hrun
  have hkeep : KeepsCopies formatted_vol (.mkdir FAT12_ROOT_INODE letterA) := trivial
  have hsteps : Steps Vol.step KeepsCopies formatted_vol v := .tail _ (.refl _) hkeep hstep
  exact ⟨v, hsteps, of_decide_eq_true hdirs,
    power_loss_restores formatted_ready (by decide) (by decide) formatted_volume (fun _ => rfl) formatted_mirrored hsteps⟩

end MyOS.Fat
