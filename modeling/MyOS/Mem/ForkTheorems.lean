import MyOS.Mem.Lemmas.Fork

/-!
# 子のアドレス空間

`fork_process` は親のユーザのページをすべて写す。ブロックが尽きたページは黙って飛ばされる。
-/

namespace MyOS.Mem
open MyOS.Lib

variable {m m₀ m₁ : Phys} {P D i j : Nat} {got : Nat → Nat → Prop}

/-- 子は親と同じユーザのページを持ち、内容は等しく、どのバイトも親とは別の番地にある。親のページは変わらない。 -/
structure ForkCopy (m₀ m : Phys) (P D : Nat) : Prop where
  pages : ∀ i j, i < 1024 → j < 1024 → user_page m.ram D i j = user_page m₀.ram P i j
  parent : ∀ i j, i < 1024 → j < 1024 → user_page m.ram P i j = user_page m₀.ram P i j ∧
    (user_page m₀.ram P i j = true → page_of m.ram P i j = page_of m₀.ram P i j)
  bytes : ∀ i j k, i < 1024 → j < 1024 → k < 4096 → user_page m₀.ram P i j = true →
    m.ram (page_of m.ram D i j + k) = m₀.ram (page_of m₀.ram P i j + k) ∧
      m.ram (page_of m₀.ram P i j + k) = m₀.ram (page_of m₀.ram P i j + k)
  apart : ∀ i j k i' j' k', i < 1024 → j < 1024 → k < 4096 → i' < 1024 → j' < 1024 → k' < 4096 →
    user_page m₀.ram P i j = true → user_page m₀.ram P i' j' = true →
      page_of m.ram D i j + k ≠ page_of m₀.ram P i' j' + k'

theorem ForkCopy.set_dir {c : Nat} (h : ForkCopy m₀ (set_page_dir m c) P D) : ForkCopy m₀ m P D :=
  ⟨h.pages, h.parent, h.bytes, h.apart⟩

end MyOS.Mem
