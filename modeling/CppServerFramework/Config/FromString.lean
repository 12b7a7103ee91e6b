import CppServerFramework.Config.ConfigVar
import CppServerFramework.HTTP.Http

/-!
# Reading a configuration variable from a text

`ConfigVar::fromString` (`config/config.h:283-293`) with listeners that may throw.  It catches every
`std::exception` and has no other return than `return false`.
-/

universe u

namespace CppServerFramework.Config

open HTTP (Bytes ascii)

/-- What is thrown: something of the type `std::exception`, or of another. -/
inductive Thrown where
  | exception
  | other
  deriving DecidableEq, Repr

/-- What a listener throws when it is called with the old and the new value, if it does. -/
abbrev Listeners (T : Type u) := Nat → T → T → Option Thrown

variable {T : Type u}

/-- The calls of the listeners (`config.h:308-310`), and what ends them. -/
def callAll (throws : Listeners T) (old v : T) : List Nat → List (Nat × T × T) × Option Thrown
  | [] => ([], none)
  | key :: keys =>
    match throws key old v with
    | some e => ([(key, old, v)], some e)
    | none =>
      let (calls, e) := callAll throws old v keys
      ((key, old, v) :: calls, e)

/-- How `fromString` ends, with the variable and the calls of the listeners. -/
structure FromString (T : Type u) where
  answer : Except Thrown Bool
  var : ConfigVar T
  calls : List (Nat × T × T)

namespace ConfigVar

variable [BEq T] (c : ConfigVar T) (throws : Listeners T)

/-- `setValue` (`config.h:301-314`) by one thread alone, and what it throws. -/
def setValue (v : T) : ConfigVar T × List (Nat × T × T) × Option Thrown :=
  if v == c.val then (c, [], none)
  else
    match callAll throws c.val v c.cbs with
    | (calls, some e) => (c, calls, some e)
    | (calls, none) => (c.assign v, calls, none)

/-- `fromString` (`config.h:283-293`); `fromStr` is `FromStr()`. -/
def fromString (fromStr : Bytes → Except Thrown T) (val : Bytes) : FromString T :=
  match fromStr val with
  | .error .exception => ⟨.ok false, c, []⟩
  | .error .other => ⟨.error .other, c, []⟩
  | .ok v =>
    match c.setValue throws v with
    | (c, calls, some .other) => ⟨.error .other, c, calls⟩
    | (c, calls, some .exception) => ⟨.ok false, c, calls⟩
    | (c, calls, none) => ⟨.ok false, c, calls⟩

end ConfigVar

/-- The value that each listener was told last, after some calls. -/
def tell (told : Nat → Option T) (calls : List (Nat × T × T)) : Nat → Option T :=
  calls.foldl (fun told call => Function.update told call.1 (some call.2.2)) told

/-- The call has done everything and says so, or has done nothing and says that.  `told` is what
    each listener was told last before it. -/
inductive AllOrNothing [BEq T] (c : ConfigVar T) (fromStr : Bytes → Except Thrown T) (val : Bytes)
    (told : Nat → Option T) (r : FromString T) : Prop
  | done (v : T) : fromStr val = .ok v → r.answer = .ok true → r.var.val = v →
    ((v == c.val) = false → ∀ key ∈ c.cbs,
      (r.calls.filter fun call => call.1 = key).map (·.2.2) = [v]) →
    AllOrNothing c fromStr val told r
  | undone : r.answer = .ok false → r.var.val = c.val →
    (∀ key ∈ c.cbs, tell told r.calls key = told key) → AllOrNothing c fromStr val told r

/-- The listeners that are called: those up to the first that throws. -/
def reached (throws : Listeners T) (old v : T) : List Nat → List Nat
  | [] => []
  | key :: keys => key :: if (throws key old v).isSome then [] else reached throws old v keys

/-- What the first of them that throws throws. -/
def thrown (throws : Listeners T) (old v : T) (keys : List Nat) : Option Thrown :=
  keys.findSome? fun key => throws key old v

/-- The text is refused with a `std::exception`, or stands for the value that is there; or every
    listener that is called has been told the value before, and one of them throws a
    `std::exception` or the value is there without being equal to itself. -/
def NothingToDo [BEq T] (c : ConfigVar T) (throws : Listeners T)
    (fromStr : Bytes → Except Thrown T) (val : Bytes) (told : Nat → Option T) : Prop :=
  match fromStr val with
  | .error e => e = .exception
  | .ok v => (v == c.val) = true ∨
    (∀ key ∈ reached throws c.val v c.cbs, told key = some v) ∧
      match thrown throws c.val v c.cbs with
      | none => v = c.val
      | some e => e = .exception

variable {throws : Listeners T} {old v : T} {told : Nat → Option T} {keys : List Nat} {key : Nat}

theorem callAll_eq : callAll throws old v keys =
    ((reached throws old v keys).map fun key => (key, old, v), thrown throws old v keys) := by
  induction keys with
  | nil => rfl
  | cons key keys ih =>
    rw [callAll, reached, thrown, List.findSome?_cons]
    cases throws key old v with
    | some e => rfl
    | none =>
      simp only [ih]
      rfl

theorem reached_subset : reached throws old v keys ⊆ keys := by
  induction keys with
  | nil => exact List.Subset.refl _
  | cons key keys ih =>
    rw [reached]
    split
    · simp
    · exact List.cons_subset_cons key ih

/-- Who is called is told the value, and nobody else is told anything. -/
theorem tell_map (told : Nat → Option T) (keys : List Nat) (key : Nat) :
    tell told (keys.map fun k => (k, old, v)) key =
      if key ∈ keys then some v else told key := by
  induction keys generalizing told with
  | nil => rfl
  | cons k keys ih =>
    have hcons : tell told ((k :: keys).map fun k => (k, old, v)) =
        tell (Function.update told k (some v)) (keys.map fun k => (k, old, v)) := rfl
    rw [hcons, ih, Function.update_apply]
    by_cases hmem : key ∈ keys
    · simp [hmem]
    · by_cases heq : key = k
      · simp [heq]
      · simp [hmem, heq]

theorem told_iff (told : Nat → Option T) :
    (∀ key ∈ keys,
      tell told ((reached throws old v keys).map fun k => (k, old, v)) key = told key) ↔
      ∀ key ∈ reached throws old v keys, told key = some v := by
  constructor
  · intro h key hkey
    have := h key (reached_subset hkey)
    rw [tell_map, if_pos hkey] at this
    exact this.symm
  · intro h key _
    rw [tell_map]
    split
    · rename_i hkey
      exact (h key hkey).symm
    · rfl

section

variable [BEq T] (c : ConfigVar T) (throws : Listeners T) (fromStr : Bytes → Except Thrown T)

theorem setValue_of_eq (h : (v == c.val) = true) : c.setValue throws v = (c, [], none) := if_pos h

theorem setValue_of_ne (h : (v == c.val) = false) : c.setValue throws v =
    (if (thrown throws c.val v c.cbs).isSome then c else c.assign v,
      (reached throws c.val v c.cbs).map fun key => (key, c.val, v),
      thrown throws c.val v c.cbs) := by
  rw [ConfigVar.setValue, if_neg (by simp [h]), callAll_eq]
  cases thrown throws c.val v c.cbs <;> rfl

/-- There is no text for which the answer is true. -/
theorem fromString_answer (val : Bytes) : (c.fromString throws fromStr val).answer ≠ .ok true := by
  rw [ConfigVar.fromString]
  split
  · simp
  · simp
  · split <;> simp

/-- `fromString` does everything or nothing exactly if there is nothing to do. -/
theorem fromString_allOrNothing_iff (val : Bytes) (told : Nat → Option T) :
    AllOrNothing c fromStr val told (c.fromString throws fromStr val) ↔
      NothingToDo c throws fromStr val told := by
  have hundone : AllOrNothing c fromStr val told (c.fromString throws fromStr val) ↔
      (c.fromString throws fromStr val).answer = .ok false ∧
        (c.fromString throws fromStr val).var.val = c.val ∧
        ∀ key ∈ c.cbs, tell told (c.fromString throws fromStr val).calls key = told key := by
    constructor
    · rintro (⟨v, -, htrue, -⟩ | ⟨h1, h2, h3⟩)
      · exact absurd htrue (fromString_answer c throws fromStr val)
      · exact ⟨h1, h2, h3⟩
    · exact fun ⟨h1, h2, h3⟩ => .undone h1 h2 h3
  rw [hundone, NothingToDo, ConfigVar.fromString]
  cases hconv : fromStr val with
  | error e => cases e <;> simp [tell]
  | ok v =>
    simp only
    by_cases heq : (v == c.val) = true
    · rw [setValue_of_eq c throws heq]
      simp [heq, tell]
    · rw [Bool.not_eq_true] at heq
      rw [setValue_of_ne c throws heq, ← told_iff told]
      cases thrown throws c.val v c.cbs with
      | none => simp [heq, ConfigVar.assign, and_comm]
      | some e => cases e <;> simp [heq]

end

/-- A text that stands for another value, with no listener: the value is assigned, and the answer
    is false. -/
theorem fromString_allOrNothing_not :
    let c : ConfigVar Nat := { val := 80 }
    let fromStr : Bytes → Except Thrown Nat := fun _ => .ok 8080
    let r := c.fromString (fun _ _ _ => none) fromStr (ascii "8080")
    (r.answer = .ok false ∧ r.var.val = 8080) ∧
      ¬AllOrNothing c fromStr (ascii "8080") (fun _ => none) r := by
  refine ⟨⟨rfl, rfl⟩, ?_⟩
  rintro (⟨v, -, htrue, -⟩ | ⟨-, hval, -⟩)
  · cases htrue
  · exact absurd hval (by decide)

end CppServerFramework.Config
