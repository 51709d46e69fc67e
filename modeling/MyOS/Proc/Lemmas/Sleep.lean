import MyOS.Proc.Sleep
import MyOS.Proc.Lemmas.Tree

/-! 眠りの列を書く手順と、書き込みの一つずつが列に残すもの。 -/

namespace MyOS.Proc
open MyOS.Lib

variable {K₀ K K' : Kernel} {ev : Event} {i j t : Nat} {r : Regs} {l : List Nat}

theorem SleepList.congr (h : SleepList K l) (hq : K'.sleep_queue = K.sleep_queue)
    (hs : ∀ j ∈ l, (K'.table j).sleep_next = (K.table j).sleep_next ∧
      (K'.table j).wake_tick = (K.table j).wake_tick) : SleepList K' l where
  linked := by
    rw [hq]
    exact h.linked.congr fun y hy => (hs y hy).1
  sorted := by
    refine h.sorted.imp_of_mem fun {a b} ha hb hab => ?_
    rw [(hs a ha).2, (hs b hb).2]
    exact hab

theorem SleepList.cons_of_queue {hd : Nat} (h : SleepList K l) (hq : K.sleep_queue = some hd) :
    ∃ l', l = hd :: l' := by
  cases l with
  | nil => cases hq.symm.trans h.linked
  | cons b l =>
    cases hq.symm.trans h.linked.1
    exact ⟨l, rfl⟩

theorem Queued.list (h : Queued K l) : SleepList K l := ⟨h.linked, h.sorted⟩

theorem SleepList.queued (h : SleepList K l) (ho : ∀ j, j ∉ l → (K.table j).sleep_next = none) : Queued K l :=
  ⟨h.linked, h.sorted, ho⟩

theorem Queued.same (h : Queued K l) (hq : K'.sleep_queue = K.sleep_queue)
    (hs : ∀ j, (K'.table j).sleep_next = (K.table j).sleep_next ∧
      (K'.table j).wake_tick = (K.table j).wake_tick) : Queued K' l :=
  (h.list.congr hq fun j _ => hs j).queued fun j hj => (hs j).1.trans (h.outside j hj)

theorem Queued.unique {l' : List Nat} (h : Queued K l) (h' : Queued K l') : l = l' :=
  h.linked.unique h'.linked

theorem Queued.in_queue (h : Queued K l) (hlt : ∀ j ∈ l, j < MAX_PROCESSES) (hi : i ∈ l) : InQueue K i := by
  rcases h.linked.reached hi with hq | ⟨j, hj, hn⟩
  · exact .inl hq
  · exact .inr ⟨j, hlt j hj, hn⟩

/-! 加える。 -/

/-- `sleep_seek` は、`wake_tick` が `t` 以前の最後の要素を返す。 -/
theorem sleep_seek_spec {n cur c : Nat} (h : Linked (fun j => (K.table j).sleep_next) (some cur) (cur :: l))
    (hs : sleep_seek K t n cur = some c) :
    ∃ l₁ l₂, cur :: l = l₁ ++ c :: l₂ ∧ (∀ y ∈ l₁ ++ [c], y = cur ∨ (K.table y).wake_tick ≤ t) ∧
      ∀ y ∈ l₂.head?, t < (K.table y).wake_tick := by
  induction n generalizing cur l with
  | zero => cases hs
  | succ n ih =>
    rw [sleep_seek] at hs
    split at hs
    next hnone =>
      cases hs
      have hl : l = [] := by
        cases l with
        | nil => rfl
        | cons b l => cases hnone.symm.trans h.2.1
      subst hl
      refine ⟨[], [], rfl, fun y hy => ?_, fun y hy => by cases hy⟩
      simp only [List.nil_append, List.mem_singleton] at hy
      exact .inl hy
    next next hnext =>
      obtain ⟨l', rfl⟩ : ∃ l', l = next :: l' := by
        cases l with
        | nil => cases hnext.symm.trans h.2
        | cons b l =>
          cases hnext.symm.trans h.2.1
          exact ⟨l, rfl⟩
      split at hs
      next hle =>
        have htail : Linked (fun j => (K.table j).sleep_next) (some next) (next :: l') := ⟨rfl, h.2.2⟩
        obtain ⟨l₁, l₂, heq, hbefore, hafter⟩ := ih htail hs
        refine ⟨cur :: l₁, l₂, by rw [heq, List.cons_append], fun y hy => ?_, hafter⟩
        rw [List.cons_append, List.mem_cons] at hy
        rcases hy with hy | hy
        · exact .inl hy
        · rcases hbefore y hy with rfl | hy
          · exact .inr hle
          · exact .inr hy
      next hgt =>
        cases hs
        refine ⟨[], next :: l', rfl, fun y hy => ?_, fun y hy => ?_⟩
        · simp only [List.nil_append, List.mem_singleton] at hy
          exact .inl hy
        · simp only [List.head?_cons, Option.mem_some_iff] at hy
          subst hy
          omega

/-- 列が `n` 個より長くなければ、`sleep_seek` は終わる。 -/
theorem sleep_seek_ends {n cur : Nat} (h : Linked (fun j => (K.table j).sleep_next) (some cur) (cur :: l))
    (hn : l.length < n) : ∃ c, sleep_seek K t n cur = some c := by
  induction n generalizing cur l with
  | zero => exact absurd hn (Nat.not_lt_zero _)
  | succ n ih =>
    rw [sleep_seek]
    split
    · exact ⟨cur, rfl⟩
    next next hnext =>
      cases l with
      | nil => cases hnext.symm.trans h.2
      | cons b l =>
        cases hnext.symm.trans h.2.1
        split
        · exact ih ⟨rfl, h.2.2⟩ (Nat.lt_of_succ_lt_succ hn)
        · exact ⟨cur, rfl⟩

/-- 並びの中に、前の要素より大きく後の要素以下の値を加える。 -/
theorem pairwise_insert {w : Nat → Nat} {x : Nat} {l₁ l₂ : List Nat}
    (h : (l₁ ++ l₂).Pairwise fun a b => w a ≤ w b) (hbefore : ∀ y ∈ l₁, w y ≤ w x)
    (hafter : ∀ y ∈ l₂, w x ≤ w y) : (l₁ ++ x :: l₂).Pairwise fun a b => w a ≤ w b := by
  obtain ⟨h₁, h₂, h₁₂⟩ := List.pairwise_append.mp h
  refine List.pairwise_append.mpr ⟨h₁, List.pairwise_cons.mpr ⟨hafter, h₂⟩, fun y hy z hz => ?_⟩
  rcases List.mem_cons.mp hz with rfl | hz
  · exact hbefore y hy
  · exact h₁₂ y hy z hz

/-- 整列した列では、先頭より後の要素も先頭以上である。 -/
theorem pairwise_head {w : Nat → Nat} {l : List Nat} (h : l.Pairwise fun a b => w a ≤ w b)
    (hd : ∀ y ∈ l.head?, t < w y) : ∀ y ∈ l, t < w y := by
  cases l with
  | nil => exact fun y hy => by cases hy
  | cons a l =>
    have ha : t < w a := hd a rfl
    intro y hy
    rcases List.mem_cons.mp hy with rfl | hy
    · exact ha
    · exact Nat.lt_of_lt_of_le ha ((List.pairwise_cons.mp h).1 y hy)

/-- 先頭の前に加える。 -/
theorem SleepList.push {hd : Nat} (h : SleepList K (hd :: l)) (hi : i ∉ hd :: l)
    (hlt : (K.table i).wake_tick < (K.table hd).wake_tick) (hq : K'.sleep_queue = some i)
    (hn : ∀ y, (K'.table y).sleep_next = if y = i then some hd else (K.table y).sleep_next)
    (hw : ∀ y, (K'.table y).wake_tick = (K.table y).wake_tick) : SleepList K' (i :: hd :: l) := by
  have hne : ∀ y ∈ hd :: l, y ≠ i := fun y hy hyi => hi (hyi ▸ hy)
  refine ⟨?_, ?_⟩
  · rw [hq]
    refine h.linked.push ?_ fun y hy => ?_
    · rw [hn, if_pos rfl, h.linked.1]
    · rw [hn, if_neg (hne y hy)]
  · simp only [hw]
    refine List.pairwise_cons.mpr ⟨fun y hy => Nat.le_of_lt ?_, h.sorted⟩
    exact pairwise_head h.sorted (fun y hy => by cases Option.mem_some_iff.mp hy; exact hlt) y hy

/-- 要素 `c` の次に加える。 -/
theorem SleepList.insert {c : Nat} {l₁ l₂ : List Nat} (h : SleepList K (l₁ ++ c :: l₂)) (hi : i ∉ l₁ ++ c :: l₂)
    (hbefore : ∀ y ∈ l₁ ++ [c], (K.table y).wake_tick ≤ (K.table i).wake_tick)
    (hafter : ∀ y ∈ l₂, (K.table i).wake_tick < (K.table y).wake_tick)
    (hq : K'.sleep_queue = K.sleep_queue)
    (hn : ∀ y, (K'.table y).sleep_next =
      if y = c then some i else if y = i then (K.table c).sleep_next else (K.table y).sleep_next)
    (hw : ∀ y, (K'.table y).wake_tick = (K.table y).wake_tick) : SleepList K' (l₁ ++ [c] ++ i :: l₂) := by
  have hne : ∀ y ∈ l₁ ++ c :: l₂, y ≠ i := fun y hy hyi => hi (hyi ▸ hy)
  have hci : c ≠ i := hne c (by simp)
  have hnd := List.nodup_append.mp h.linked.nodup
  refine ⟨?_, ?_⟩
  · rw [hq, List.append_assoc]
    refine h.linked.insert (by rw [hn, if_pos rfl]) (by rw [hn, if_neg hci.symm, if_pos rfl]) fun y hy => ?_
    have hyc : y ≠ c := by
      rintro rfl
      rcases hy with hy | hy
      · exact hnd.2.2 y hy y (List.mem_cons_self ..) rfl
      · exact (List.nodup_cons.mp hnd.2.1).1 hy
    have hyi : y ≠ i := by
      refine hne y ?_
      simp only [List.mem_append, List.mem_cons]
      exact hy.imp id .inr
    rw [hn, if_neg hyc, if_neg hyi]
  · simp only [hw]
    have hsorted : (l₁ ++ [c] ++ l₂).Pairwise fun a b => (K.table a).wake_tick ≤ (K.table b).wake_tick := by
      rw [List.append_assoc]
      exact h.sorted
    exact pairwise_insert hsorted hbefore fun y hy => Nat.le_of_lt (hafter y hy)

/-- 時刻 `t` に起きる項目 `i` を、`l₁` の後、`l₂` の前に加えた。 -/
structure Enqueued (K K' : Kernel) (i t : Nat) (l₁ l₂ : List Nat) : Prop where
  list : SleepList K' (l₁ ++ i :: l₂)
  before : ∀ y ∈ l₁, (K.table y).wake_tick ≤ t
  after : ∀ y ∈ l₂, t < (K.table y).wake_tick
  wake : ∀ y, (K'.table y).wake_tick = if y = i then t else (K.table y).wake_tick
  next : ∀ y, y ∉ l₁ ++ i :: l₂ → (K'.table y).sleep_next = (K.table y).sleep_next

/-- 列の外のプロセスを加えると、列のどこかに入る。 -/
theorem SleepList.enqueue {n : Nat} (h : SleepList K l) (hi : i ∉ l) (he : sleep_enqueue_within n K i t = some K') :
    ∃ l₁ l₂, l = l₁ ++ l₂ ∧ Enqueued K K' i t l₁ l₂ := by
  have hne : ∀ y ∈ l, y ≠ i := fun y hy hyi => hi (hyi ▸ hy)
  obtain ⟨L, hL⟩ : ∃ L, L = K.modify i fun p => { p with wake_tick := t, sleep_next := none } := ⟨_, rfl⟩
  have hwake : ∀ y, (L.table y).wake_tick = if y = i then t else (K.table y).wake_tick := by
    intro y
    rw [hL, Kernel.modify_table]
    split <;> rfl
  have hnext : ∀ y, (L.table y).sleep_next = if y = i then none else (K.table y).sleep_next := by
    intro y
    rw [hL, Kernel.modify_table]
    split <;> rfl
  have hself : (L.table i).wake_tick = t := by rw [hwake, if_pos rfl]
  have hold : ∀ y ∈ l, (L.table y).wake_tick = (K.table y).wake_tick := fun y hy => by rw [hwake, if_neg (hne y hy)]
  have hbase : SleepList L l := h.congr (by rw [hL]; rfl) fun y hy =>
    ⟨by rw [hnext, if_neg (hne y hy)], hold y hy⟩
  rw [sleep_enqueue_within] at he
  dsimp only at he
  rw [← hL] at he
  clear hL h
  split at he
  next hq =>
    cases he
    have hl : l = [] := by
      cases l with
      | nil => rfl
      | cons b l => cases hq.symm.trans hbase.linked.1
    subst hl
    refine ⟨[], [], rfl, ⟨⟨rfl, ?_⟩, List.pairwise_singleton ..⟩, fun _ hy => absurd hy List.not_mem_nil,
      fun _ hy => absurd hy List.not_mem_nil, hwake, fun y hy => ?_⟩
    · exact (hnext i).trans (if_pos rfl)
    · exact (hnext y).trans (if_neg fun hyi => hy (by simp [hyi]))
  next hd hq =>
    obtain ⟨l', rfl⟩ := hbase.cons_of_queue hq
    split at he
    next hlt =>
      cases he
      have hw : ∀ y, ((L.modify i fun p => { p with sleep_next := some hd }).table y).wake_tick = (L.table y).wake_tick := by
        intro y
        rw [Kernel.modify_table]
        split
        next hy => rw [hy]
        · rfl
      have hlist : SleepList { L.modify i fun p => { p with sleep_next := some hd } with sleep_queue := some i } _ :=
        hbase.push hi (hself.symm ▸ hlt) rfl (fun y => by rw [Kernel.modify_table]; split <;> rfl) hw
      refine ⟨[], hd :: l', rfl, hlist, fun _ hy => absurd hy List.not_mem_nil, fun y hy => ?_,
        fun y => (hw y).trans (hwake y), fun y hy => ?_⟩
      · rw [← hold y hy]
        exact pairwise_head hbase.sorted (fun y hy => by cases Option.mem_some_iff.mp hy; exact hlt) y hy
      · have hyi : y ≠ i := fun hyi => hy (by simp [hyi])
        rw [Kernel.modify_ne _ _ hyi, hnext, if_neg hyi]
    next hge =>
      obtain ⟨c, hc, rfl⟩ := Option.map_eq_some_iff.mp he
      have hlink : Linked (fun j => (L.table j).sleep_next) (some hd) (hd :: l') := hq ▸ hbase.linked
      obtain ⟨l₁, l₂, heq, hbefore, hafter⟩ := sleep_seek_spec hlink hc
      rw [heq] at hi hbase hold ⊢
      have hci : c ≠ i := fun h => hi (by simp [h])
      have hle : ∀ y ∈ l₁ ++ [c], (L.table y).wake_tick ≤ t := by
        intro y hy
        rcases hbefore y hy with rfl | hy
        · omega
        · exact hy
      have hgt : ∀ y ∈ l₂, t < (L.table y).wake_tick := pairwise_head
        (List.pairwise_cons.mp (List.pairwise_append.mp hbase.sorted).2.1).2 hafter
      have hw : ∀ y, (((L.modify i fun p => { p with sleep_next := (L.table c).sleep_next }).modify c fun p =>
          { p with sleep_next := some i }).table y).wake_tick = (L.table y).wake_tick := by
        intro y
        rw [Kernel.modify_table]
        split
        next hy => rw [Kernel.modify_ne _ _ hci, hy]
        · rw [Kernel.modify_table]
          split
          next hy => rw [hy]
          · rfl
      have hn : ∀ y, (((L.modify i fun p => { p with sleep_next := (L.table c).sleep_next }).modify c fun p =>
          { p with sleep_next := some i }).table y).sleep_next =
            if y = c then some i else if y = i then (L.table c).sleep_next else (L.table y).sleep_next := by
        intro y
        rw [Kernel.modify_table]
        split
        · rfl
        · rw [Kernel.modify_table]
          split <;> rfl
      refine ⟨l₁ ++ [c], l₂, by simp, hbase.insert hi ?_ ?_ rfl hn hw, fun y hy => ?_, fun y hy => ?_,
        fun y => (hw y).trans (hwake y), fun y hy => ?_⟩
      · rwa [hself]
      · rwa [hself]
      · rw [← hold y (by simp only [List.mem_append, List.mem_cons, List.not_mem_nil, or_false] at hy ⊢; exact hy.imp id .inl)]
        exact hle y hy
      · rw [← hold y (by simp only [List.mem_append, List.mem_cons]; exact .inr (.inr hy))]
        exact hgt y hy
      · simp only [List.append_assoc, List.mem_append, List.mem_cons, List.not_mem_nil, or_false, not_or] at hy
        obtain ⟨-, hyc, hyi, -⟩ := hy
        rw [hn, if_neg hyc, if_neg hyi, hnext, if_neg hyi]

theorem SleepList.enqueue_ends {n : Nat} (h : SleepList K l) (hi : i ∉ l) (hn : l.length ≤ n) :
    ∃ K', sleep_enqueue_within n K i t = some K' := by
  have hne : ∀ y ∈ l, y ≠ i := fun y hy hyi => hi (hyi ▸ hy)
  have hbase : SleepList (K.modify i fun p => { p with wake_tick := t, sleep_next := none }) l :=
    h.congr rfl fun y hy => by
      rw [Kernel.modify_ne _ _ (hne y hy)]
      exact ⟨rfl, rfl⟩
  rw [sleep_enqueue_within]
  dsimp only
  split
  · exact ⟨_, rfl⟩
  next hd hq =>
    obtain ⟨l', rfl⟩ := hbase.cons_of_queue hq
    split
    · exact ⟨_, rfl⟩
    · obtain ⟨c, hc⟩ := sleep_seek_ends (t := t) (hq ▸ hbase.linked) (Nat.lt_of_succ_le hn)
      rw [hc]
      exact ⟨_, rfl⟩

/-- 先に並んだ項目を追い越さない。 -/
theorem Enqueued.split {l₁ l₂ : List Nat} (h : Enqueued K K' i t l₁ l₂) :
    (l₁ ++ l₂).filter (fun j => (K.table j).wake_tick ≤ t) = l₁ ∧
      (l₁ ++ l₂).filter (fun j => t < (K.table j).wake_tick) = l₂ := by
  have h₁ : ∀ y ∈ l₁, ¬ t < (K.table y).wake_tick := fun y hy => Nat.not_lt.mpr (h.before y hy)
  have h₂ : ∀ y ∈ l₂, ¬ (K.table y).wake_tick ≤ t := fun y hy => Nat.not_le.mpr (h.after y hy)
  rw [List.filter_append, List.filter_append]
  constructor
  · rw [List.filter_eq_self.mpr (by simpa using h.before), List.filter_eq_nil_iff.mpr (by simpa using h₂),
      List.append_nil]
  · rw [List.filter_eq_nil_iff.mpr (by simpa using h₁), List.filter_eq_self.mpr (by simpa using h.after),
      List.nil_append]

theorem Queued.enqueue (h : Queued K l) (hi : i ∉ l) (he : sleep_enqueue K i t = some K') :
    ∃ l₁ l₂, l = l₁ ++ l₂ ∧ Queued K' (l₁ ++ i :: l₂) := by
  obtain ⟨l₁, l₂, rfl, hq⟩ := h.list.enqueue (n := MAX_PROCESSES + 1) hi he
  refine ⟨l₁, l₂, rfl, hq.list.queued fun j hj => (hq.next j hj).trans (h.outside j ?_)⟩
  simp only [List.mem_append, List.mem_cons, not_or] at hj ⊢
  exact ⟨hj.1, hj.2.2⟩

/-! 先頭を外す。 -/

theorem sleep_pop_ne {hd : Nat} (hj : j ≠ hd) : (sleep_pop K hd).table j = K.table j := if_neg hj

theorem sleep_pop_self (K : Kernel) (hd : Nat) : (sleep_pop K hd).table hd =
    { K.table hd with
      sleep_next := none
      state := if (K.table hd).state = .blocked then .ready else (K.table hd).state } := if_pos rfl

theorem SleepList.pop {hd : Nat} (h : SleepList K (hd :: l)) : SleepList (sleep_pop K hd) l := by
  have hnd := List.nodup_cons.mp h.linked.nodup
  have hne : ∀ y ∈ l, y ≠ hd := fun y hy hyh => hnd.1 (hyh ▸ hy)
  refine ⟨h.linked.2.congr fun y hy => ?_, ?_⟩
  · rw [sleep_pop_ne (hne y hy)]
  · refine (List.pairwise_cons.mp h.sorted).2.imp_of_mem fun {a b} ha hb hab => ?_
    rw [sleep_pop_ne (hne a ha), sleep_pop_ne (hne b hb)]
    exact hab

/-- 時刻 `t` までに起きる項目だけを列から外した。 -/
structure Woken (K K' : Kernel) (t : Nat) (l : List Nat) : Prop where
  list : SleepList K' (l.filter fun j => t < (K.table j).wake_tick)
  woken : ∀ j ∈ l, (K.table j).wake_tick ≤ t → K'.table j =
    { K.table j with
      sleep_next := none
      state := if (K.table j).state = .blocked then .ready else (K.table j).state }
  others : ∀ j, (j ∈ l → t < (K.table j).wake_tick) → K'.table j = K.table j
  rest : K' = { K with
    table := K'.table
    sleep_queue := K'.sleep_queue }

/-- 外した項目は `l` に現れない。 -/
theorem Woken.cons {hd : Nat} (h : Woken (sleep_pop K hd) K' t l) (hnot : hd ∉ l) (hle : (K.table hd).wake_tick ≤ t) :
    Woken K K' t (hd :: l) := by
  have hold : ∀ j ∈ l, (sleep_pop K hd).table j = K.table j := fun j hj => sleep_pop_ne fun h => hnot (h ▸ hj)
  have hself : K'.table hd = (sleep_pop K hd).table hd := h.others hd fun hmem => absurd hmem hnot
  refine ⟨?_, fun j hj ht => ?_, fun j ht => ?_, ?_⟩
  · have hfilter : l.filter (fun j => t < ((sleep_pop K hd).table j).wake_tick) = l.filter fun j => t < (K.table j).wake_tick :=
      List.filter_congr fun j hj => by rw [hold j hj]
    rw [List.filter_cons_of_neg (by simpa using hle), ← hfilter]
    exact h.list
  · rcases List.mem_cons.mp hj with rfl | hj
    · rw [hself, sleep_pop_self]
    · rw [← hold j hj]
      exact h.woken j hj ((hold j hj).symm ▸ ht)
  · have hne : j ≠ hd := by
      rintro rfl
      exact absurd (ht List.mem_cons_self) (Nat.not_lt.mpr hle)
    rw [h.others j fun hj => (hold j hj).symm ▸ ht (List.mem_cons_of_mem hd hj), sleep_pop_ne hne]
  · have := h.rest
    rw [this]
    rfl

/-- 列は整列しているので、起きない項目で止まってよい。 -/
theorem SleepList.check {n : Nat} (h : SleepList K l) (hn : l.length < n) :
    ∃ K', sleep_check_loop K t n = some K' ∧ Woken K K' t l := by
  induction n generalizing K l with
  | zero => exact absurd hn (Nat.not_lt_zero _)
  | succ n ih =>
    have hstop : (∀ j ∈ l, t < (K.table j).wake_tick) → Woken K K t l := fun hall => by
      have hfilter : (l.filter fun j => t < (K.table j).wake_tick) = l := List.filter_eq_self.mpr (by simpa using hall)
      exact ⟨hfilter.symm ▸ h, fun j hj ht => absurd (hall j hj) (Nat.not_lt.mpr ht), fun _ _ => rfl, rfl⟩
    rw [sleep_check_loop]
    cases l with
    | nil =>
      rw [show K.sleep_queue = none from h.linked]
      exact ⟨K, rfl, hstop fun _ hj => absurd hj List.not_mem_nil⟩
    | cons hd l =>
      rw [h.linked.1]
      dsimp only
      split
      next hle =>
        obtain ⟨K', hK', hw⟩ := ih h.pop (Nat.lt_of_succ_lt_succ hn)
        exact ⟨K', hK', hw.cons (List.nodup_cons.mp h.linked.nodup).1 hle⟩
      next hgt =>
        refine ⟨K, rfl, hstop (pairwise_head h.sorted fun y hy => ?_)⟩
        cases Option.mem_some_iff.mp hy
        exact Nat.not_le.mp hgt

theorem Queued.pop {hd : Nat} (h : Queued K l) (hq : K.sleep_queue = some hd) :
    ∃ l', l = hd :: l' ∧ Queued (sleep_pop K hd) l' := by
  obtain ⟨l', rfl⟩ := h.list.cons_of_queue hq
  refine ⟨l', rfl, h.list.pop.queued fun j hj => ?_⟩
  by_cases hj' : j = hd
  · subst hj'
    rw [sleep_pop_self]
  · rw [sleep_pop_ne hj']
    exact h.outside j (List.not_mem_cons_of_ne_of_not_mem hj' hj)

/-! 書き込みの一つずつ。 -/

/-- 眠りの列に関わる欄が同じである。 -/
def SameSleep (p p' : Pcb) : Prop := p'.sleep_next = p.sleep_next ∧ p'.wake_tick = p.wake_tick

theorem SameSleep.modify {q : Pcb} (ht : ∀ k, K'.table k = if k = i then q else K.table k)
    (hq : SameSleep (K.table i) q) (j : Nat) : SameSleep (K.table j) (K'.table j) := by
  rw [ht]
  split
  next h =>
    subst h
    exact hq
  · exact ⟨rfl, rfl⟩

theorem SameSleep.cleanup (K : Kernel) (c j : Nat) :
    SameSleep (K.table j) ((process_cleanup_child K c).table j) := by
  rw [cleanup_table]
  by_cases hj : j = c
  · subst hj
    rw [if_pos rfl]
    exact ⟨rfl, rfl⟩
  · rw [if_neg hj]
    exact ⟨rfl, rfl⟩

theorem SameSleep.trans {p p' p'' : Pcb} (h : SameSleep p p') (h' : SameSleep p' p'') : SameSleep p p'' :=
  ⟨h'.1.trans h.1, h'.2.trans h.2⟩

theorem SameSleep.unblock (K : Kernel) (pid : Nat) (b : Bool) (j : Nat) :
    SameSleep (K.table j) ((unblock_parent K pid b).table j) := by
  have hwake : ∀ k, SameSleep (K.table j) ((wake_parent K k pid b).table j) := by
    intro k
    refine .modify (fun _ => rfl) ?_ j
    exact ⟨rfl, rfl⟩
  rw [unblock_parent]
  split
  · exact ⟨rfl, rfl⟩
  · split
    · exact ⟨rfl, rfl⟩
    · split
      · split
        · exact (hwake _).trans (.cleanup ..)
        · exact hwake _
      · exact ⟨rfl, rfl⟩

theorem SameSleep.reaped (K : Kernel) (i dead j : Nat) :
    SameSleep (K.table j) ((reaped K i dead).table j) := by
  have hrem : SameSleep (K.table j) ((remove_child_from_parent K i dead).table j) := by
    refine .modify (fun _ => rfl) ?_ j
    exact ⟨rfl, rfl⟩
  show SameSleep (K.table j) ((reap_child K i dead).table j)
  rw [reap_child]
  split
  · exact hrem
  · exact hrem.trans (.cleanup ..)

theorem SameSleep.signalled {p p' : Pcb} {fate : Fate} (h : Signalled p r fate p') : SameSleep p p' := by
  have hpass : ∀ pre, SameSleep p (pass_all p.sig.pending pre p) := by
    intro pre
    rw [(pass_all_same p.sig.pending pre p).rest]
    exact ⟨rfl, rfl⟩
  cases h with
  | killed => exact ⟨rfl, rfl⟩
  | passed => exact hpass _
  | stops => exact hpass _
  | kills => exact hpass _
  | caught => exact hpass _
  | overflow => exact hpass _

theorem SameSleep.create {pid : Nat} {load : Option Image} (hc : create_process K pid load = some K')
    (j : Nat) : SameSleep (K.table j) (K'.table j) := by
  by_cases hlt : j < K.num_processes
  · rw [(CreateFrame.create hc).old j hlt]
    exact ⟨rfl, rfl⟩
  rcases create_process_new hc hlt with ⟨-, h⟩ | ⟨rfl, ⟨-, h⟩ | ⟨img, -, -, h⟩⟩
  · rw [h]
    exact ⟨rfl, rfl⟩
  · rw [h]
    exact ⟨rfl, rfl⟩
  · rw [h]
    exact ⟨rfl, rfl⟩

theorem CleanFrame.sleep (h : CleanFrame K K') (hs : ∀ j, SameSleep (K.table j) (K'.table j)) :
    SleepStep K₀ ev K K' := .same (by rw [h.rest]) hs

/-- 一つの項目を、眠りの列に関わらない値に書き換える。 -/
theorem SleepStep.modify {q : Pcb} (hq : K'.sleep_queue = K.sleep_queue)
    (ht : ∀ k, K'.table k = if k = i then q else K.table k) (hs : SameSleep (K.table i) q) :
    SleepStep K₀ ev K K' := .same hq (SameSleep.modify ht hs)

/-- 眠りの列を書くのは、`sleep` と `sleep_check_wakeup` だけである。 -/
theorem Act.sleep_step (h : Act K₀ ev K K') : SleepStep K₀ ev K K' := by
  cases h with
  | file hc hf =>
    refine hf.frame.clean.sleep fun j => ?_
    rw [hf.frame.pcb j]
    exact ⟨rfl, rfl⟩
  | create _ hcr => exact .same (by rw [(CreateFrame.create hcr).rest]) (SameSleep.create hcr)
  | fork hc heax hslot hf =>
    have hne := hc.toOnCpu.ne_slot hslot
    refine .same (by rw [fork_into_rest hf]) fun j => ?_
    rw [fork_into_table hne hf j, fork_entry]
    split
    next hj =>
      subst hj
      exact ⟨rfl, rfl⟩
    · split
      next hj =>
        subst hj
        exact ⟨rfl, rfl⟩
      · exact ⟨rfl, rfl⟩
  | reap => exact (reaped_clean ..).sleep (SameSleep.reaped _ _ _)
  | await w =>
    refine .modify rfl (fun _ => rfl) ?_
    exact ⟨rfl, rfl⟩
  | block w =>
    refine .modify rfl (fun _ => rfl) ?_
    exact ⟨rfl, rfl⟩
  | enqueue hc heax hebx he => exact .enqueue hc heax hebx rfl he
  | tick => exact .same rfl fun _ => ⟨rfl, rfl⟩
  | wake hev hq hle => exact .wake hev hq hle rfl
  | group g => exact .same rfl fun _ => ⟨rfl, rfl⟩
  | setpgid g =>
    refine .modify rfl (fun _ => rfl) ?_
    exact ⟨rfl, rfl⟩
  | send =>
    refine .modify rfl (fun _ => rfl) ?_
    exact ⟨rfl, rfl⟩
  | cont =>
    refine .modify rfl (fun _ => rfl) ?_
    exact ⟨rfl, rfl⟩
  | keys hev =>
    refine (send_signal_clean ..).sleep fun j => ?_
    rw [send_signal_to_foreground]
    split
    · dsimp only
      split <;> exact ⟨rfl, rfl⟩
    · exact ⟨rfl, rfl⟩
  | action =>
    refine .modify rfl (fun _ => rfl) ?_
    exact ⟨rfl, rfl⟩
  | mask =>
    refine .modify rfl (fun _ => rfl) ?_
    exact ⟨rfl, rfl⟩
  | sigreturn =>
    refine .modify rfl (fun _ => rfl) ?_
    exact ⟨rfl, rfl⟩
  | exit =>
    refine (exit_tree_clean ..).sleep fun j => ?_
    rw [exit_tree_table]
    exact ⟨rfl, rfl⟩
  | @reset i _ _ hc heax =>
    refine (exec_reset_clean ..).sleep fun j => ?_
    rw [exec_reset_table]
    by_cases hj : j = i
    · subst hj
      simp only [if_pos]
      exact ⟨rfl, rfl⟩
    · simp only [if_neg hj]
      exact ⟨rfl, rfl⟩
  | load =>
    refine .modify rfl (fun _ => rfl) ?_
    exact ⟨rfl, rfl⟩
  | fail =>
    refine .modify rfl (fun _ => rfl) ?_
    exact ⟨rfl, rfl⟩
  | mmap =>
    refine .modify rfl (fun _ => rfl) ?_
    exact ⟨rfl, rfl⟩
  | munmap =>
    refine .modify rfl (fun _ => rfl) ?_
    exact ⟨rfl, rfl⟩
  | signal hat hcur hsig hp =>
    refine .modify rfl (fun _ => rfl) ?_
    exact SameSleep.signalled hp
  | unblock => exact (CleanFrame.unblock_parent ..).sleep (SameSleep.unblock _ _ _)
  | leave => exact .same rfl fun _ => ⟨rfl, rfl⟩

/-! CPU にない項目。 -/

theorem cleanup_tf (K : Kernel) (c j : Nat) : ((process_cleanup_child K c).table j).tf = (K.table j).tf := by
  rw [cleanup_table]
  by_cases hj : j = c
  · rw [if_pos hj, hj]
    rfl
  · rw [if_neg hj]

theorem OffCpu.unblock_parent {b : Bool} (he : Ends K₀ ev i b K) (hj : j < K.num_processes) :
    OffCpu K₀ ev K (unblock_parent K (K.table i).pid b) j := by
  rcases unblock_parent_cases K (K.table i).pid b with heq | ⟨c, k, hc, hk, hblocked, hwait, h⟩
  · rw [heq]
    exact .kept hj rfl rfl
  have hwoken : ((Proc.unblock_parent K (K.table i).pid b).table j).state =
        ((wake_parent K k (K.table i).pid b).table j).state ∧
      ((Proc.unblock_parent K (K.table i).pid b).table j).tf =
        ((wake_parent K k (K.table i).pid b).table j).tf := by
    rcases h with ⟨heq, -⟩ | ⟨-, -, heq⟩
    · rw [heq]
      exact ⟨rfl, rfl⟩
    · rw [heq, cleanup_state, cleanup_tf]
      exact ⟨rfl, rfl⟩
  by_cases hjk : j = k
  · subst hjk
    rw [wake_parent_self] at hwoken
    exact .unblock he hc hk hblocked hwait hwoken.1 hwoken.2
  · rw [wake_parent_ne hjk] at hwoken
    exact .kept hj hwoken.1 hwoken.2

theorem reaped_tf (K : Kernel) (i dead j : Nat) : ((reaped K i dead).table j).tf = (K.table j).tf := by
  have hrem : ((remove_child_from_parent K i dead).table j).tf = (K.table j).tf := by
    rw [remove_child_from_parent, Kernel.modify_table]
    split
    next h => rw [h]
    · rfl
  show ((reap_child K i dead).table j).tf = (K.table j).tf
  rw [reap_child]
  split
  · exact hrem
  · rw [cleanup_tf, hrem]

/-- 今のプロセスでない項目の変わり方。 -/
theorem Act.off_cpu (h : Act K₀ ev K K') (hcur : K.cur_proccess_id = K₀.cur_proccess_id)
    (hj : K.cur_proccess_id ≠ some j) (hlt : j < K'.num_processes) : OffCpu K₀ ev K K' j := by
  have hne : ∀ {i : Nat} {env : Env} {r : Regs}, Calls K₀ ev i env r → j ≠ i := by
    rintro i env r hc rfl
    exact hj (hcur.trans hc.cur)
  cases h.tree_step with
  | quiet hrest htree hst => exact .kept (hrest.num ▸ hlt) (hst j) (htree j).tf
  | await hc hrest _ htree _ _ _ hst => exact .kept (hrest.num ▸ hlt) (hst j) (htree j (hne hc)).tf
  | @move i hm hrest htree =>
    by_cases hji : j = i
    · subst hji
      cases hm with
      | block hc => exact absurd rfl (hne hc)
      | wake hev _ hle hb hr htf => exact .wake hev hle hb hr htf
      | cont _ hs hr => exact .cont hs hr
      | load hc => exact absurd rfl (hne hc)
      | signal _ hc => exact absurd hc hj
    · exact .kept (hrest.num ▸ hlt) (htree j hji).2 (htree j hji).1.tf
  | @dies i _ hrest _ _ htree hst hdead =>
    by_cases hji : j = i
    · subst hji
      exact .dies hdead
    · exact .kept (hrest.num ▸ hlt) (hst j hji) (htree j).tf
  | @exit i fds _ hK hK' =>
    subst hK hK'
    have ht := exit_tree_table K i fds j
    by_cases hd : j = i ∨ j < MAX_PROCESSES ∧ (K.table j).parent_id = (K.table i).pid
    · exact .dies (by rw [ht]; exact if_pos hd)
    · exact .kept ((exit_tree_clean K i fds).num ▸ hlt) (by rw [ht]; exact if_neg hd) (by rw [ht])
  | unblock he hK' =>
    subst hK'
    exact .unblock_parent he ((CleanFrame.unblock_parent ..).num ▸ hlt)
  | reap hc hK _ hK' =>
    subst hK hK'
    exact .kept ((reaped_clean ..).num ▸ hlt) (reap_child_state ..) (reaped_tf ..)
  | create hK _ hcr =>
    subst hK
    by_cases hold : j < K.num_processes
    · have := (CreateFrame.create hcr).old j hold
      exact .kept hold (by rw [this]) (by rw [this])
    · rcases create_process_new hcr hold with ⟨hnum, -⟩ | ⟨rfl, ⟨hnum, -⟩ | ⟨img, -, -, ht⟩⟩
      · omega
      · omega
      · exact .born rfl (.inl (Nat.le_refl _)) (.inr (by rw [ht]))
  | @fork i _ _ slot hK hc _ hslot hf =>
    subst hK
    have hslot' := fork_slot_spec hslot
    have ht := fork_into_table (hc.toOnCpu.ne_slot hslot) hf j
    rw [fork_entry] at ht
    by_cases hjs : j = slot
    · subst hjs
      refine .born rfl ?_ (.inl ?_)
      · rcases hslot' with ⟨_, h⟩ | ⟨rfl, _⟩
        · exact .inr h.1
        · exact .inl (Nat.le_refl _)
      · rw [ht]
        simp only [if_pos]
    · rw [if_neg hjs, if_neg (hne hc)] at ht
      have hnum : K'.num_processes = _ := congrArg Kernel.num_processes (fork_into_rest hf)
      dsimp only at hnum
      have hold : j < K.num_processes := by
        rw [hnum] at hlt
        split at hlt <;> omega
      exact .kept hold (by rw [ht]) (by rw [ht])

theorem Signalled.not_blocked {p p' : Pcb} {fate : Fate} (h : Signalled p r fate p') (hp : p.state = .running) :
    p'.state ≠ .blocked := by
  have hpass : ∀ pre, (pass_all p.sig.pending pre p).state ≠ .blocked := by
    intro pre
    rcases (pass_all_same p.sig.pending pre p).state with hs | hs
    · rw [hs, hp]
      simp
    · rw [hs]
      simp
  cases h with
  | killed => simp [ended_pcb]
  | passed => exact hpass _
  | stops => simp [stopped_pcb]
  | kills => simp [ended_pcb]
  | overflow => simp [ended_pcb]
  | caught => exact hpass _

/-- 止まるのは、`wait`、`waitpid`、`sleep` を呼んだプロセスだけである。 -/
theorem Act.blocked (h : Act K₀ ev K K') (hj : j < K.num_processes) (hb : (K'.table j).state = .blocked) :
    (K.table j).state = .blocked ∨ ∃ env r, Calls K₀ ev j env r ∧
      (r.eax = SYS_WAIT ∨ r.eax = SYS_WAITPID ∨ r.eax = SYS_SLEEP) := by
  cases h.tree_step with
  | quiet _ _ hst => exact .inl (hst j ▸ hb)
  | await _ _ _ _ _ _ _ hst => exact .inl (hst j ▸ hb)
  | @move i hm _ htree =>
    by_cases hji : j = i
    · subst hji
      cases hm with
      | block hc heax => exact .inr ⟨_, _, hc, heax⟩
      | wake _ _ _ _ hr => cases hr.symm.trans hb
      | cont _ _ hr => cases hr.symm.trans hb
      | load _ _ hr => cases hr.symm.trans hb
      | signal _ _ hsig hp => exact absurd hb (hp.not_blocked hsig.2.1)
    · exact .inl ((htree j hji).2 ▸ hb)
  | @dies i _ _ _ _ _ hst hdead =>
    by_cases hji : j = i
    · subst hji
      cases hdead.symm.trans hb
    · exact .inl (hst j hji ▸ hb)
  | @exit i _ _ hK hK' =>
    subst hK hK'
    rw [exit_tree_table] at hb
    by_cases hd : j = i ∨ j < MAX_PROCESSES ∧ (K.table j).parent_id = (K.table i).pid
    · cases (if_pos hd).symm.trans hb
    · exact .inl ((if_neg hd).symm.trans hb)
  | unblock he hK' =>
    subst hK'
    cases OffCpu.unblock_parent he hj with
    | kept _ hst => exact .inl (hst ▸ hb)
    | dies hst => cases hst.symm.trans hb
    | wake _ _ _ hst => cases hst.symm.trans hb
    | unblock _ _ _ _ _ hst => cases hst.symm.trans hb
    | cont _ hst => cases hst.symm.trans hb
    | born _ _ hst => rcases hst with hst | hst <;> cases hst.symm.trans hb
  | reap _ hK _ hK' =>
    subst hK hK'
    exact .inl ((reap_child_state ..).symm.trans hb)
  | create hK _ hcr =>
    subst hK
    rw [(CreateFrame.create hcr).old j hj] at hb
    exact .inl hb
  | @fork i _ _ slot hK hc _ hslot hf =>
    subst hK
    rw [fork_into_table (hc.toOnCpu.ne_slot hslot) hf j, fork_entry] at hb
    dsimp only at hb
    split at hb
    · cases hb
    · split at hb
      next hji =>
        subst hji
        exact .inl hb
      · exact .inl hb

end MyOS.Proc
