import MyOS.Mem.Vmm
import MyOS.Proc.Lemmas.Signal

/-!
# 信号の枠を置くスタック

`schedule` はユーザのスタックに二語を書く。範囲の検査は一度だけで、32 ビットの折り返しと二語目の番地、ページが
あることを調べない。
-/

namespace MyOS.Proc
open MyOS.Lib MyOS.Mem

variable {K : Kernel} {i sig handler : Nat} {r : Regs} {m : Phys}

/-- 信号の枠として書く番地と語。スタックが範囲の外なら何も書かない。 -/
def signal_frame (sig : Nat) (r : Regs) : List (Nat × Nat) :=
  if stack_ok r then
    [(sub32 r.useresp 4, sig), (sub32 (sub32 r.useresp 4) 4, SIGNAL_TRAMPOLINE_VADDR)]
  else []

/-- ユーザの範囲の、`PRESENT` かつ `USER` のページにある。 -/
def Writable (m : Phys) (a : Nat) : Prop :=
  USER_CODE_BASE ≤ a ∧ a < USER_STACK_TOP ∧ is_page_mapped m a = true

/-- 枠のバイトはすべて書けるページにあり、書かなければプロセスは終わる。 -/
def FrameSafe (K : Kernel) (i sig handler : Nat) (m : Phys) (r : Regs) : Prop :=
  (∀ w ∈ signal_frame sig r, ∀ k, k < 4 → Writable m (add32 w.1 k)) ∧
    (signal_frame sig r = [] → ((enter_handler K i sig handler r).1.table i).state = .terminated)

/-- スタックの番地が検査で拒まれるか、八バイトが範囲に入り、そのページがある。 -/
def StackSafe (m : Phys) (useresp : Nat) : Prop :=
  4 ≤ useresp ∧ useresp < USER_CODE_BASE + 4 ∨
    USER_STACK_TOP - 4 < useresp ∧ useresp < 2 ^ 32 - 4 ∨
    USER_CODE_BASE + 8 ≤ useresp ∧ useresp ≤ USER_STACK_TOP - 4 ∧
      ∀ a, useresp - 8 ≤ a → a < useresp → is_page_mapped m a = true

theorem stack_ok_iff (hr : r.useresp < 2 ^ 32) :
    stack_ok r = true ↔ r.useresp < 4 ∨ 2 ^ 32 - 4 ≤ r.useresp ∨
      USER_CODE_BASE + 4 ≤ r.useresp ∧ r.useresp ≤ USER_STACK_TOP - 4 := by
  have hok : stack_ok r = true ↔ USER_CODE_BASE ≤ sub32 r.useresp 4 ∧
      add32 (sub32 r.useresp 4) 8 ≤ USER_STACK_TOP := by
    simp [stack_ok]
  rw [hok]
  simp only [sub32, add32, USER_CODE_BASE, USER_STACK_TOP]
  omega

/-- 検査を通らなければ、プロセスは終わる。 -/
theorem enter_handler_rejected (h : stack_ok r = false) :
    ((enter_handler K i sig handler r).1.table i).state = .terminated := by
  rw [enter_handler_eq, h, if_neg (by simp), unblock_parent_state]
  · rw [Kernel.modify_self]
    rfl
  · rw [Kernel.modify_self]
    simp [ended_pcb]

/-- 枠の書き込みが安全なのは、`StackSafe` のとき、そのときに限る。 -/
theorem frame_safe_iff (hr : r.useresp < 2 ^ 32) :
    FrameSafe K i sig handler m r ↔ StackSafe m r.useresp := by
  cases hok : stack_ok r with
  | false =>
    have hrange : ¬ (stack_ok r = true) := by simp [hok]
    rw [stack_ok_iff hr] at hrange
    have hsafe : StackSafe m r.useresp := by
      simp only [USER_CODE_BASE, USER_STACK_TOP, not_or, Nat.not_lt, not_and, Nat.not_le] at hrange
      by_cases hlow : r.useresp < USER_CODE_BASE + 4
      · exact .inl ⟨hrange.1, hlow⟩
      · refine .inr (.inl ⟨?_, by omega⟩)
        simp only [USER_CODE_BASE, USER_STACK_TOP] at hlow ⊢
        omega
    refine ⟨fun _ => hsafe, fun _ => ⟨fun w hw => ?_, fun _ => enter_handler_rejected hok⟩⟩
    simp [signal_frame, hok] at hw
  | true =>
    have hframe : signal_frame sig r =
        [(sub32 r.useresp 4, sig), (sub32 (sub32 r.useresp 4) 4, SIGNAL_TRAMPOLINE_VADDR)] := by
      rw [signal_frame, if_pos hok]
    have hrange := (stack_ok_iff hr).mp hok
    constructor
    · rintro ⟨h, -⟩
      rw [hframe] at h
      have hfst := h _ (List.mem_cons_self ..)
      have hsnd := h _ (List.mem_cons_of_mem _ (List.mem_cons_self ..))
      have hlow := (hsnd 0 (by omega)).1
      have hhigh := (hfst 0 (by omega)).2.1
      have hbase : USER_CODE_BASE + 8 ≤ r.useresp ∧ r.useresp ≤ USER_STACK_TOP - 4 := by
        simp only [sub32, add32, USER_CODE_BASE, USER_STACK_TOP] at hlow hhigh hrange ⊢
        omega
      refine .inr (.inr ⟨hbase.1, hbase.2, fun a hle hlt => ?_⟩)
      by_cases ha : a < r.useresp - 4
      · have := (hsnd (a - (r.useresp - 8)) (by omega)).2.2
        convert this using 2
        simp only [sub32, add32, USER_CODE_BASE] at hbase ⊢
        omega
      · have := (hfst (a - (r.useresp - 4)) (by omega)).2.2
        convert this using 2
        simp only [sub32, add32, USER_CODE_BASE] at hbase ⊢
        omega
    · intro h
      obtain ⟨hlow, hhigh, hmap⟩ : USER_CODE_BASE + 8 ≤ r.useresp ∧ r.useresp ≤ USER_STACK_TOP - 4 ∧
          ∀ a, r.useresp - 8 ≤ a → a < r.useresp → is_page_mapped m a = true := by
        rcases h with h | h | h
        · simp only [USER_CODE_BASE, USER_STACK_TOP] at h hrange
          omega
        · simp only [USER_CODE_BASE, USER_STACK_TOP] at h hrange
          omega
        · exact h
      simp only [USER_CODE_BASE, USER_STACK_TOP] at hlow hhigh
      have hbytes : ∀ a, r.useresp - 8 ≤ a → a < r.useresp → Writable m a := by
        intro a hle hlt
        refine ⟨?_, ?_, hmap a hle hlt⟩
        · simp only [USER_CODE_BASE]
          omega
        · simp only [USER_STACK_TOP]
          omega
      refine ⟨fun w hw k hk => ?_, fun hnil => by rw [hframe] at hnil; cases hnil⟩
      rw [hframe] at hw
      simp only [List.mem_cons, List.not_mem_nil, or_false] at hw
      rcases hw with rfl | rfl
      · refine hbytes _ ?_ ?_ <;> simp only [sub32, add32] <;> omega
      · refine hbytes _ ?_ ?_ <;> simp only [sub32, add32] <;> omega

/-- ページが一つもないメモリ。 -/
def unmapped : Phys := ⟨fun _ => 0, fun _ => false, fun _ => 0, 0, 0⟩

/-- ハンドラのあるシェルが、番地 0 のスタックで切り替わる。 -/
def wrapped_stack : Trace (exec step (boot 1 1 0)) (fun K =>
    (step K (.timer { useresp := 0 })).any (fun K' => K'.redirects = [USER_CS]) ∧ K.redirects = [] ∧
    K.current_process = some 1) :=
  ⟨start_shell ++ [call 29 SIGINT 0x08048100, call 13 1 SIGINT], by decide +kernel⟩

/-- 折り返した番地、範囲の下の二語目、ページのないスタックに書く。 -/
theorem frame_written_outside :
    (∃ K K', Steps step (fun _ _ => True) (boot 1 1 0) K ∧ step K (.timer { useresp := 0 }) = some K' ∧
      K.redirects = [] ∧ K'.redirects = [USER_CS]) ∧
    (∀ K i sig handler, ¬ FrameSafe K i sig handler unmapped { useresp := 0 }) ∧
    (∀ K i sig handler m, ¬ FrameSafe K i sig handler m { useresp := USER_CODE_BASE + 4 }) ∧
    ∀ K i sig handler, ¬ FrameSafe K i sig handler unmapped { useresp := 0x9FFF0000 } := by
  obtain ⟨K, hK, hstep, hred, -⟩ := wrapped_stack.steps
  obtain ⟨K', hK', hred'⟩ := (Option.any_eq_true _ _).mp hstep
  refine ⟨⟨K, K', hK, hK', hred, of_decide_eq_true hred'⟩, ?_, ?_, ?_⟩
  · intro K i sig handler h
    rw [frame_safe_iff (by decide)] at h
    simp [StackSafe, USER_CODE_BASE, USER_STACK_TOP] at h
  · intro K i sig handler m h
    rw [frame_safe_iff (by decide)] at h
    simp [StackSafe, USER_CODE_BASE, USER_STACK_TOP] at h
  · intro K i sig handler h
    rw [frame_safe_iff (by decide)] at h
    rcases h with h | h | ⟨-, -, h⟩
    · simp [USER_CODE_BASE] at h
    · simp [USER_STACK_TOP] at h
    · have := h (0x9FFF0000 - 8) (by decide) (by decide)
      simp [is_page_mapped, unmapped, pde, ByteMem.load32, present] at this

/-- スタックのページを一つ写したメモリ。 -/
def one_stack_page : Phys :=
  map_address_user { unmapped with mem_bitmap := fun b => b == 5, cur_page_dir := 4096, kernel_page_dir := 4096 } 0x9FFEF000 0x8000

/-- 写したスタックには二語を書き、範囲の外のスタックではプロセスが終わる。 -/
theorem frame_safe_page :
    FrameSafe (boot 1 1 0) 0 SIGINT 0x08048100 one_stack_page { useresp := 0x9FFF0000 } ∧
      (signal_frame SIGINT { useresp := 0x9FFF0000 }).map Prod.fst = [0x9FFEFFFC, 0x9FFEFFF8] ∧
      FrameSafe (boot 1 1 0) 0 SIGINT 0x08048100 unmapped { useresp := 0x1000 } := by
  have hpage : ∀ k < 8, is_page_mapped one_stack_page (0x9FFEFFF8 + k) = true := by decide +kernel
  refine ⟨(frame_safe_iff (by decide)).mpr (.inr (.inr ⟨by decide, by decide, fun a hle hlt => ?_⟩)), by decide,
    (frame_safe_iff (by decide)).mpr (.inl (by decide))⟩
  have ha := hpage (a - 0x9FFEFFF8) (by dsimp only at hlt; omega)
  rwa [Nat.add_sub_cancel' (by exact hle)] at ha

end MyOS.Proc
