/-!
# 状態機械の実行

`step` は、起こり得ない事象や先へ進めない事象では `none` を返す。`ok` は、それぞれの歩が事前の状態で
満たす条件である。
-/

namespace MyOS.Lib

variable {S E : Type}

inductive Steps (step : S → E → Option S) (ok : S → E → Prop) : S → S → Prop
  | refl (s : S) : Steps step ok s s
  | tail {s t u : S} (e : E) : Steps step ok s t → ok t e → step t e = some u → Steps step ok s u

/-- 事象の列を順に実行する。 -/
def exec (step : S → E → Option S) : S → List E → Option S
  | s, [] => some s
  | s, e :: es => (step s e).bind fun t => exec step t es

variable {step : S → E → Option S} {ok : S → E → Prop}

/-- 一歩で保たれる性質は、実行の全体で保たれる。 -/
theorem Steps.inv {P : S → Prop} {s t : S} (h : Steps step ok s t)
    (hstep : ∀ s e t, P s → ok s e → step s e = some t → P t) (hs : P s) : P t := by
  induction h with
  | refl => exact hs
  | tail e _ hok he ih => exact hstep _ e _ ih hok he

theorem Steps.trans {s t u : S} (h : Steps step ok s t) (h' : Steps step ok t u) :
    Steps step ok s u := by
  induction h' with
  | refl => exact h
  | tail e _ hok he ih => exact Steps.tail e ih hok he

theorem Steps.head {s t u : S} (e : E) (hok : ok s e) (he : step s e = some t)
    (h : Steps step ok t u) : Steps step ok s u :=
  Steps.trans (.tail e (.refl s) hok he) h

/-- 条件のない実行は、`exec` の結果をすべて含む。 -/
theorem Steps.of_exec {es : List E} {s t : S} (h : exec step s es = some t) :
    Steps step (fun _ _ => True) s t := by
  induction es generalizing s with
  | nil =>
    cases h
    exact .refl _
  | cons e es ih =>
    obtain ⟨u, hu, h⟩ := Option.bind_eq_some_iff.mp h
    exact .head e trivial hu (ih h)

/-- 一歩ごとに条件を確かめながら実行する。 -/
def checked (step : S → E → Option S) (ok : S → E → Bool) : S → List E → Option S
  | s, [] => some s
  | s, e :: es => if ok s e then (step s e).bind fun t => checked step ok t es else none

theorem Steps.of_checked {check : S → E → Bool} (hok : ∀ s e, check s e = true → ok s e) {es : List E}
    {s t : S} (h : checked step check s es = some t) : Steps step ok s t := by
  induction es generalizing s with
  | nil =>
    cases h
    exact .refl _
  | cons e es ih =>
    rw [checked] at h
    split at h
    next he =>
      obtain ⟨u, hu, h⟩ := Option.bind_eq_some_iff.mp h
      exact .head e (hok s e he) hu (ih h)
    · cases h

/-- 具体的な事象の列。`run` の結果は `P` を満たす。 -/
structure Trace (run : List E → Option S) (P : S → Prop) [DecidablePred P] where
  events : List E
  holds : (run events).any (fun s => decide (P s)) = true

variable {P : S → Prop} [DecidablePred P] {s : S}

theorem Trace.steps (t : Trace (exec step s) P) : ∃ u, Steps step (fun _ _ => True) s u ∧ P u := by
  obtain ⟨u, hu, hP⟩ := (Option.any_eq_true _ _).mp t.holds
  exact ⟨u, .of_exec hu, of_decide_eq_true hP⟩

theorem Trace.steps_checked {check : S → E → Bool} (t : Trace (checked step check s) P)
    (hok : ∀ s e, check s e = true → ok s e) : ∃ u, Steps step ok s u ∧ P u := by
  obtain ⟨u, hu, hP⟩ := (Option.any_eq_true _ _).mp t.holds
  exact ⟨u, .of_checked hok hu, of_decide_eq_true hP⟩

end MyOS.Lib
