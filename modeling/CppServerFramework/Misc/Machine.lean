import Mathlib.Tactic.Common

/-!
# Machines with guarded runs

A machine is a set of initial states and a partial step function driven by actions.
`Machine.Reach guard` holds of the states some run reaches when every step of it meets
`guard`, a condition on the state before the step and the action taken; with the trivial
guard these are the reachable states.
-/

universe u v

/-- A machine over states `σ` driven by actions `α`; a step that is not enabled is `none`. -/
structure Machine (σ : Type u) (α : Type v) where
  init : σ → Prop
  step : σ → α → Option σ

namespace Machine

variable {σ : Type u} {α : Type v} {M : Machine σ α} {guard : σ → α → Prop}

/-- The states reached by runs whose steps all meet the guard. -/
inductive Reach (M : Machine σ α) (guard : σ → α → Prop) : σ → Prop
  | init {s : σ} : M.init s → Reach M guard s
  | step {s t : σ} {a : α} : Reach M guard s → guard s a → M.step s a = some t → Reach M guard t

/-- The states reached by any run. -/
def Reachable (M : Machine σ α) : σ → Prop := M.Reach fun _ _ => True

/-- A property of the initial states that every guarded step preserves holds along every
    guarded run. -/
theorem Reach.invariant {P : σ → Prop} (hinit : ∀ s, M.init s → P s)
    (hstep : ∀ s a t, P s → guard s a → M.step s a = some t → P t) {s : σ}
    (h : M.Reach guard s) : P s := by
  induction h with
  | init h => exact hinit _ h
  | step _ hg hs ih => exact hstep _ _ _ ih hg hs

/-- The state after a list of actions, when each of them is enabled. -/
def run (M : Machine σ α) : σ → List α → Option σ
  | s, [] => some s
  | s, a :: as => (M.step s a).bind fun t => M.run t as

/-- The actions of a run meet the guard, each in the state it is taken in. -/
def Meets (M : Machine σ α) (guard : σ → α → Prop) : σ → List α → Prop
  | _, [] => True
  | s, a :: as => guard s a ∧ ∀ t, M.step s a = some t → M.Meets guard t as

theorem Reach.of_run (as : List α) {s t : σ} (h : M.Reach guard s) (hm : M.Meets guard s as)
    (hrun : M.run s as = some t) : M.Reach guard t := by
  induction as generalizing s with
  | nil =>
    rw [run, Option.some.injEq] at hrun
    exact hrun ▸ h
  | cons a as ih =>
    obtain ⟨u, hstep, hrest⟩ := Option.bind_eq_some_iff.mp hrun
    exact ih (.step h hm.1 hstep) (hm.2 u hstep) hrest

theorem Meets.cons {a : α} {as : List α} {s t : σ} (hg : guard s a) (hstep : M.step s a = some t)
    (h : M.Meets guard t as) : M.Meets guard s (a :: as) := by
  refine ⟨hg, fun t' ht' => ?_⟩
  rw [hstep] at ht'
  cases ht'
  exact h

instance decidableMeets [∀ s a, Decidable (guard s a)] (s : σ) :
    ∀ as, Decidable (M.Meets guard s as)
  | [] => .isTrue trivial
  | a :: as =>
    match h : M.step s a with
    | none => decidable_of_iff (guard s a) (by simp [Meets, h])
    | some t =>
      have := decidableMeets t as
      decidable_of_iff (guard s a ∧ M.Meets guard t as) (by simp [Meets, h])

theorem meets_of_forall {as : List α} (h : ∀ a ∈ as, ∀ s, guard s a) (s : σ) :
    M.Meets guard s as := by
  induction as generalizing s with
  | nil => trivial
  | cons a as ih =>
    exact ⟨h a (by simp) s, fun t _ => ih (fun b hb => h b (List.mem_cons_of_mem _ hb)) t⟩

theorem meets_true (s : σ) (as : List α) : M.Meets (fun _ _ => True) s as :=
  meets_of_forall (fun _ _ _ => trivial) s

theorem Reachable.of_run (as : List α) {s t : σ} (h : M.init s) (hrun : M.run s as = some t) :
    M.Reachable t :=
  Reach.of_run as (.init h) (meets_true s as) hrun

end Machine
