import CppServerFramework.Misc.Machine
import CppServerFramework.Misc.OrderedSet
import Mathlib.Data.List.Nodup

/-!
# The listeners of a configuration variable

`ConfigVar` (`config/config.h:253-346`) with any number of threads that call `setValue`.  A call
compares the values and calls the listeners under the read lock, and assigns the value under the
write lock: these are two steps, with those of other threads between them.
-/

universe u

namespace CppServerFramework.Config

/-- The keys of a `std::map<uint64_t, on_change_cb>` are in order. -/
def keyLess (a b : Nat) : Bool := a < b

/-- `m_cbs` is the list of the keys of the listeners. -/
structure ConfigVar (T : Type u) where
  val : T
  cbs : List Nat := []
  ordered : OrderedSet.Sorted keyLess cbs := by exact List.Pairwise.nil

variable {T : Type u}

theorem keyLess_strictOrder : OrderedSet.StrictOrder keyLess where
  irrefl a := by simp [keyLess]
  trans a b c hab hbc := by
    simp only [keyLess, decide_eq_true_eq] at hab hbc ⊢
    omega

namespace ConfigVar

/-- `addListener` (`config.h:317-323`), where `s_fun_id` is `key` after its increment. -/
def addListener (c : ConfigVar T) (key : Nat) : ConfigVar T where
  val := c.val
  cbs := OrderedSet.insert keyLess key c.cbs
  ordered := c.ordered.insert keyLess_strictOrder

/-- The read-locked part of `setValue` (`config.h:303-311`): the notifications, each with the key
    of its listener, unless the value is the one the variable has. -/
def notify [BEq T] (c : ConfigVar T) (v : T) : Option (List (Nat × T × T)) :=
  if v == c.val then none else some (c.cbs.map fun key => (key, c.val, v))

/-- The write-locked part of `setValue` (`config.h:312-313`). -/
def assign (c : ConfigVar T) (v : T) : ConfigVar T := { c with val := v }

end ConfigVar

/-- A variable that started with the value `initial`.  A thread whose call is between its two
    parts has the value of the call in `pending`; `received` has the notifications so far. -/
structure ConfigRun (T : Type u) where
  initial : T
  var : ConfigVar T
  pending : Nat → Option T := fun _ => none
  received : List (Nat × T × T) := []

inductive ConfigAction (T : Type u) where
  /-- thread `t` calls `setValue(v)` -/
  | compare (t : Nat) (v : T)
  /-- it goes on with its write-locked part -/
  | assign (t : Nat)
  deriving DecidableEq, Repr

/-- Calls of `setValue` by any number of threads, on a variable with any listeners. -/
def configMachine (T : Type u) [BEq T] : Machine (ConfigRun T) (ConfigAction T) where
  init r := ∃ var, r = { initial := var.val, var }
  step r
    | .compare t v =>
      match r.pending t with
      | some _ => none
      | none =>
        match r.var.notify v with
        | none => some r
        | some calls =>
          some { r with
            pending := Function.update r.pending t (some v), received := r.received ++ calls }
    | .assign t =>
      (r.pending t).map fun v =>
        { r with var := r.var.assign v, pending := Function.update r.pending t none }

/-- Each old value is the new value before it, the first one is `a`. -/
def Chained : T → List (T × T) → Prop
  | _, [] => True
  | a, (old, new) :: l => old = a ∧ Chained new l

/-- The new value of the last notification. -/
def latest : T → List (T × T) → T
  | a, [] => a
  | _, (_, new) :: l => latest new l

namespace ConfigRun

/-- The notifications a listener has received. -/
def notifications (r : ConfigRun T) (key : Nat) : List (T × T) :=
  (r.received.filter fun n => n.1 = key).map Prod.snd

/-- No call is between its two parts. -/
def Returned (r : ConfigRun T) : Prop := ∀ t, r.pending t = none

/-- What every listener receives is the history of the variable. -/
structure Consistent (r : ConfigRun T) : Prop where
  chained : ∀ key ∈ r.var.cbs, Chained r.initial (r.notifications key)
  current : r.Returned → ∀ key ∈ r.var.cbs, r.var.val = latest r.initial (r.notifications key)

/-- A call finds another value only when no call is between its two parts. -/
def Alone [BEq T] (r : ConfigRun T) : ConfigAction T → Prop
  | .compare _ v => (v == r.var.val) = false → r.Returned
  | .assign _ => True

/-- What the last notification has announced: the value of the one call under way, or that of the
    variable. -/
structure Inv (r : ConfigRun T) : Prop where
  chained : ∀ key ∈ r.var.cbs, Chained r.initial (r.notifications key)
  announced : ∀ key ∈ r.var.cbs,
    (r.Returned ∧ r.var.val = latest r.initial (r.notifications key)) ∨
      ∃ t v, r.pending t = some v ∧ (∀ t', t' ≠ t → r.pending t' = none) ∧
        v = latest r.initial (r.notifications key)

variable {r s : ConfigRun T}

theorem chained_append {a old new : T} {l : List (T × T)} :
    Chained a (l ++ [(old, new)]) ↔ Chained a l ∧ old = latest a l := by
  induction l generalizing a with
  | nil => simp [Chained, latest]
  | cons n l ih => rw [List.cons_append, Chained, Chained, latest, ih, and_assoc]

theorem latest_append {a old new : T} {l : List (T × T)} :
    latest a (l ++ [(old, new)]) = new := by
  induction l generalizing a with
  | nil => rfl
  | cons n l ih => exact ih

/-- A listener gets one notification of a call. -/
theorem filter_notify {c : ConfigVar T} {v : T} {key : Nat} (hkey : key ∈ c.cbs) :
    ((c.cbs.map fun k => (k, c.val, v)).filter fun n => n.1 = key).map Prod.snd = [(c.val, v)] := by
  have hnodup := c.ordered.nodup keyLess_strictOrder
  have hone : (c.cbs.filter fun k => k = key) = [key] := by
    rw [List.filter_eq, List.count_eq_one_of_mem hnodup hkey, List.replicate_one]
  rw [List.filter_map, List.map_map]
  exact congrArg (List.map fun _ => (c.val, v)) hone

theorem Inv.consistent (h : r.Inv) : r.Consistent where
  chained := h.chained
  current hret key hkey := by
    rcases h.announced key hkey with ⟨-, hval⟩ | ⟨t, v, hv, -⟩
    · exact hval
    · rw [hret t] at hv
      cases hv

theorem Inv.initial (var : ConfigVar T) : Inv { initial := var.val, var } where
  chained _ _ := trivial
  announced _ _ := Or.inl ⟨fun _ => rfl, rfl⟩

theorem Inv.step [BEq T] (h : r.Inv) (a : ConfigAction T) (halone : r.Alone a)
    (hs : (configMachine T).step r a = some s) : s.Inv := by
  cases a with
  | compare t v =>
    simp only [configMachine, ConfigVar.notify] at hs
    split at hs
    · cases hs
    · split at hs
      · cases hs
        exact h
      · rename_i calls hcalls
        split at hcalls
        · cases hcalls
        · rename_i hne
          cases hcalls
          cases hs
          have hret := halone (by simpa using hne)
          -- the variable still has the value announced last
          have hval : ∀ key ∈ r.var.cbs, r.var.val = latest r.initial (r.notifications key) :=
            fun key hkey => h.consistent.current hret key hkey
          refine ⟨fun key hkey => ?_, fun key hkey => Or.inr ⟨t, v, ?_, fun t' ht' => ?_, ?_⟩⟩
          · rw [notifications, List.filter_append, List.map_append, filter_notify hkey]
            exact chained_append.mpr ⟨h.chained key hkey, hval key hkey⟩
          · exact Function.update_self ..
          · exact (Function.update_of_ne ht' ..).trans (hret t')
          · rw [notifications, List.filter_append, List.map_append, filter_notify hkey]
            exact latest_append.symm
  | assign t =>
    obtain ⟨v, hv, heq⟩ := Option.map_eq_some_iff.mp hs
    cases heq
    refine ⟨h.chained, fun key hkey => Or.inl ?_⟩
    rcases h.announced key hkey with ⟨hret, -⟩ | ⟨t', v', hv', hother, hlatest⟩
    · rw [hret t] at hv
      cases hv
    · obtain rfl : t = t' := by
        by_contra hne
        rw [hother t hne] at hv
        cases hv
      rw [hv] at hv'
      cases hv'
      refine ⟨fun u => ?_, hlatest⟩
      by_cases hu : u = t
      · rw [hu]
        exact Function.update_self ..
      · exact (Function.update_of_ne hu ..).trans (hother u hu)

end ConfigRun

/-- In every run in which a call finds another value only when no call is between its two parts,
    the listeners receive the history of the variable. -/
theorem setValue_history [BEq T] (r : ConfigRun T)
    (h : (configMachine T).Reach ConfigRun.Alone r) : r.Consistent := by
  apply ConfigRun.Inv.consistent
  apply Machine.Reach.invariant _ _ h
  · rintro _ ⟨var, rfl⟩
    exact .initial var
  · exact fun r a s hr halone hs => hr.step a halone hs

/-- A variable with two listeners. -/
def exampleVar : ConfigVar Nat := ((ConfigVar.mk 0 []).addListener 2).addListener 1

/-- Two threads, one after the other, and a call with the value that is there. -/
theorem setValue_history_example :
    ∃ r, (configMachine Nat).Reach ConfigRun.Alone r ∧ r.Consistent ∧
      r.received = [(1, 0, 5), (2, 0, 5), (1, 5, 7), (2, 5, 7)] ∧ r.var.val = 7 := by
  have hrun : (((configMachine Nat).run { initial := 0, var := exampleVar }
      [.compare 1 5, .assign 1, .compare 2 7, .compare 3 5, .assign 2]).any fun r =>
        r.received = [(1, 0, 5), (2, 0, 5), (1, 5, 7), (2, 5, 7)] ∧ r.var.val = 7) = true := by
    decide
  obtain ⟨r, hr, hr'⟩ := (Option.any_eq_true _ _).mp hrun
  obtain ⟨hreceived, hval⟩ := of_decide_eq_true hr'
  have hreach : (configMachine Nat).Reach ConfigRun.Alone r := by
    refine Machine.Reach.of_run _ (.init ⟨exampleVar, rfl⟩) ?_ hr
    refine .cons (fun _ _ => rfl) rfl (.cons trivial rfl (.cons (fun _ t => ?_) rfl ?_))
    · simp [Function.update_apply]
    · exact .cons (fun h => by cases h) rfl (.cons trivial rfl trivial)
  exact ⟨r, hreach, setValue_history r hreach, hreceived, hval⟩

/-- Two threads compare with the same value: the second notification does not go on from the
    first, and the value assigned last is that of the first. -/
theorem setValue_concurrent :
    ∃ r, (configMachine Nat).Reachable r ∧ 1 ∈ r.var.cbs ∧
      r.notifications 1 = [(0, 5), (0, 7)] ∧ r.var.val = 5 ∧ ¬r.Consistent := by
  have hrun : (((configMachine Nat).run { initial := 0, var := exampleVar }
      [.compare 1 5, .compare 2 7, .assign 2, .assign 1]).any fun r =>
        1 ∈ r.var.cbs ∧ r.initial = 0 ∧ r.notifications 1 = [(0, 5), (0, 7)] ∧
          r.var.val = 5) = true := by decide
  obtain ⟨r, hr, hr'⟩ := (Option.any_eq_true _ _).mp hrun
  obtain ⟨hkey, hinitial, hreceived, hval⟩ := of_decide_eq_true hr'
  refine ⟨r, Machine.Reachable.of_run _ ⟨exampleVar, rfl⟩ hr, hkey, hreceived, hval, fun h => ?_⟩
  have hchained := h.chained 1 hkey
  rw [hreceived, hinitial] at hchained
  exact absurd hchained.2.1 (by decide)

end CppServerFramework.Config
