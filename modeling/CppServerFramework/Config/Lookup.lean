import CppServerFramework.HTTP.Http
import CppServerFramework.Misc.Machine
import Mathlib.Logic.Function.Basic

/-!
# The configuration variables by name

`Config::Lookup` (`config/config.h:353-402`) by any number of threads.  A call looks the name up
under the read lock, and creates the variable under the write lock: these are two steps, with
those of other threads between them.  `τ` are the types of variables and `υ` their values.
-/

universe u v

namespace CppServerFramework.Config

open HTTP (Bytes ascii)

/-- The object behind a `ConfigVarBase::ptr`. -/
structure ConfigVarBase (τ : Type u) (υ : Type v) where
  type : τ
  name : Bytes
  description : Bytes
  val : υ
  deriving DecidableEq, Repr

def tolower (b : UInt8) : UInt8 := if 65 ≤ b ∧ b ≤ 90 then b + 32 else b

/-- What `Lookup<T>(name)` answers: `NOT_FOUND`, `TYPE_WRONG`, or `FOUND` and the object. -/
inductive LookupResult where
  | notFound
  | typeWrong
  | found (v : Nat)
  deriving DecidableEq, Repr

/-- How a call of `Lookup` ends: with a pointer, which may be null, or with a
    `std::invalid_argument`. -/
inductive LookupOutcome where
  | returned (v : Option Nat)
  | invalidArgument
  deriving DecidableEq, Repr

/-- The arguments of a call. -/
structure LookupCall (τ : Type u) (υ : Type v) where
  type : τ
  name : Bytes
  default : υ
  description : Bytes
  deriving DecidableEq, Repr

/-- The objects made so far, each numbered by its place, and `GetDatas()`. -/
structure ConfigVarMap (τ : Type u) (υ : Type v) where
  objects : List (ConfigVarBase τ υ) := []
  datas : Bytes → Option Nat := fun _ => none

variable {τ : Type u} {υ : Type v}

/-- The name has the characters of a configuration name only (`config.h:364-365`). -/
def validName (name : Bytes) : Bool :=
  name.all (· ∈ ascii "abcdefghijklmnopqrstuvwxyz._0123456789")

namespace ConfigVarMap

variable (c : ConfigVarMap τ υ)

/-- `LookupBase` (`config.cpp:31-35`). -/
def lookupBase (name : Bytes) : Option Nat := c.datas name

/-- `Lookup<T>(name)` (`config.h:378-402`). -/
def lookup [DecidableEq τ] (type : τ) (name : Bytes) : LookupResult :=
  match c.datas name with
  | none => .notFound
  | some v => if (c.objects[v]?).any fun o => o.type = type then .found v else .typeWrong

/-- A new variable, entered under its name (`config.h:372-374`). -/
def create (l : LookupCall τ υ) : ConfigVarMap τ υ where
  objects := c.objects ++ [⟨l.type, l.name.map tolower, l.description, l.default⟩]
  datas := Function.update c.datas l.name (some c.objects.length)

/-- The part of `Lookup` under the write lock (`config.h:358-375`), with the result of the first
    part. -/
def lookupOrCreate (l : LookupCall τ υ) : LookupResult → ConfigVarMap τ υ × LookupOutcome
  | .found v => (c, .returned (some v))
  | .typeWrong => (c, .returned none)
  | .notFound =>
    if validName l.name then (c.create l, .returned (some c.objects.length))
    else (c, .invalidArgument)

end ConfigVarMap

/-- A thread whose call is between its two parts has it in `pending` with the result of the
    first part.  `outcomes` has how the calls have ended, and `entries` what has been entered in
    `GetDatas()`, each with its name. -/
structure LookupRun (τ : Type u) (υ : Type v) where
  config : ConfigVarMap τ υ := {}
  pending : Nat → Option (LookupCall τ υ × LookupResult) := fun _ => none
  outcomes : List (Bytes × LookupOutcome) := []
  entries : List (Bytes × Nat) := []

inductive LookupAction (τ : Type u) (υ : Type v) where
  /-- thread `t` calls `Lookup` -/
  | lookup (t : Nat) (l : LookupCall τ υ)
  /-- it goes on under the write lock -/
  | create (t : Nat)
  deriving DecidableEq, Repr

def lookupMachine (τ : Type u) (υ : Type v) [DecidableEq τ] :
    Machine (LookupRun τ υ) (LookupAction τ υ) where
  init r := r = {}
  step r
    | .lookup t l =>
      match r.pending t with
      | some _ => none
      | none =>
        some { r with
          pending := Function.update r.pending t (some (l, r.config.lookup l.type l.name)) }
    | .create t =>
      (r.pending t).map fun (l, found) =>
        let (config, outcome) := r.config.lookupOrCreate l found
        { config
          pending := Function.update r.pending t none
          outcomes := r.outcomes ++ [(l.name, outcome)]
          entries :=
            if found = .notFound ∧ validName l.name then
              r.entries ++ [(l.name, r.config.objects.length)]
            else r.entries }

namespace LookupRun

/-- Every call for a valid name has answered the variable that `LookupBase` finds, and no entry
    has been replaced. -/
structure OnePerName (r : LookupRun τ υ) : Prop where
  same : ∀ name outcome, (name, outcome) ∈ r.outcomes → validName name →
    ∃ v, r.config.lookupBase name = some v ∧ outcome = .returned (some v)
  kept : ∀ name v, (name, v) ∈ r.entries → r.config.lookupBase name = some v

/-- The calls for a name are all made with the type of that name. -/
def SameType (typeOf : Bytes → τ) : LookupAction τ υ → Prop
  | .lookup _ l => l.type = typeOf l.name
  | .create _ => True

/-- A call that has not found a valid name goes on while there is no entry for it yet. -/
def StillAbsent (r : LookupRun τ υ) : LookupAction τ υ → Prop
  | .lookup _ _ => True
  | .create t => ∀ l, r.pending t = some (l, .notFound) → validName l.name →
      r.config.lookupBase l.name = none

/-- The variables have the types of their names, and a call under way has found the entry. -/
structure Inv (typeOf : Bytes → τ) (r : LookupRun τ υ) : Prop extends r.OnePerName where
  asked : ∀ t l found, r.pending t = some (l, found) → l.type = typeOf l.name
  typed : ∀ name v, r.config.datas name = some v →
    ∃ o, r.config.objects[v]? = some o ∧ o.type = typeOf name
  found : ∀ t l v, r.pending t = some (l, .found v) → r.config.datas l.name = some v
  right : ∀ t l, r.pending t ≠ some (l, .typeWrong)
  entered : ∀ name v, r.config.datas name = some v → (name, v) ∈ r.entries

variable {typeOf : Bytes → τ} {r s : LookupRun τ υ} {t : Nat} {l : LookupCall τ υ}

theorem pending_of_update {f : Nat → Option (LookupCall τ υ × LookupResult)} {t' : Nat}
    {y : Option (LookupCall τ υ × LookupResult)} {x : LookupCall τ υ × LookupResult}
    (h : Function.update f t y t' = some x) : y = some x ∨ f t' = some x := by
  rw [Function.update_apply] at h
  split at h
  · exact Or.inl h
  · exact Or.inr h

theorem pending_of_clear {f : Nat → Option (LookupCall τ υ × LookupResult)} {t' : Nat}
    {x : LookupCall τ υ × LookupResult} (h : Function.update f t none t' = some x) :
    f t' = some x :=
  (pending_of_update h).resolve_left (by simp)

/-- The first part finds the entry, if there is one. -/
theorem Inv.lookup [DecidableEq τ] (h : r.Inv typeOf) (htype : l.type = typeOf l.name) :
    r.config.lookup l.type l.name =
      match r.config.datas l.name with
      | none => .notFound
      | some v => .found v := by
  rw [ConfigVarMap.lookup]
  cases hd : r.config.datas l.name with
  | none => rfl
  | some v =>
    obtain ⟨o, ho, hot⟩ := h.typed l.name v hd
    simp [ho, hot, htype]

/-- An entry is made where there was none. -/
theorem Inv.create (h : r.Inv typeOf) (htype : l.type = typeOf l.name)
    (habsent : r.config.datas l.name = none) :
    Inv typeOf {
      config := r.config.create l
      pending := Function.update r.pending t none
      outcomes := r.outcomes ++ [(l.name, .returned (some r.config.objects.length))]
      entries := r.entries ++ [(l.name, r.config.objects.length)] } := by
  have hself : (r.config.create l).datas l.name = some r.config.objects.length :=
    Function.update_self ..
  have hkeep : ∀ name v, r.config.datas name = some v →
      (r.config.create l).datas name = some v := by
    intro name v hv
    have hne : name ≠ l.name := fun heq => by rw [heq, habsent] at hv; cases hv
    exact (Function.update_of_ne hne ..).trans hv
  refine ⟨⟨fun name outcome hmem hvalid => ?_, fun name v hmem => ?_⟩,
    fun t' l' found hl' => h.asked t' l' found (pending_of_clear hl'), fun name v hv => ?_,
    fun t' l' v hl' => hkeep _ _ (h.found t' l' v (pending_of_clear hl')),
    fun t' l' hl' => h.right t' l' (pending_of_clear hl'), fun name v hv => ?_⟩
  · rcases List.mem_append.mp hmem with hmem | hmem
    · obtain ⟨v, hv, rfl⟩ := h.same name outcome hmem hvalid
      exact ⟨v, hkeep name v hv, rfl⟩
    · cases List.mem_singleton.mp hmem
      exact ⟨_, hself, rfl⟩
  · rcases List.mem_append.mp hmem with hmem | hmem
    · exact hkeep name v (h.kept name v hmem)
    · cases List.mem_singleton.mp hmem
      exact hself
  · by_cases hname : name = l.name
    · subst hname
      cases hself.symm.trans hv
      exact ⟨_, List.getElem?_concat_length, htype⟩
    · have hv : r.config.datas name = some v := (Function.update_of_ne hname ..).symm.trans hv
      obtain ⟨o, ho, hot⟩ := h.typed name v hv
      exact ⟨o, List.getElem?_append_left (List.getElem?_eq_some_iff.mp ho).1 ▸ ho, hot⟩
  · by_cases hname : name = l.name
    · subst hname
      cases hself.symm.trans hv
      exact List.mem_append_right _ (List.mem_singleton_self _)
    · have hv : r.config.datas name = some v := (Function.update_of_ne hname ..).symm.trans hv
      exact List.mem_append_left _ (h.entered name v hv)

/-- A call ends without an entry. -/
theorem Inv.end (h : r.Inv typeOf) (outcome : LookupOutcome)
    (houtcome : validName l.name = true →
      ∃ v, r.config.datas l.name = some v ∧ outcome = .returned (some v)) :
    Inv typeOf { r with
      pending := Function.update r.pending t none
      outcomes := r.outcomes ++ [(l.name, outcome)] } where
  same name outcome' hmem hvalid := by
    rcases List.mem_append.mp hmem with hmem | hmem
    · exact h.same name outcome' hmem hvalid
    · cases List.mem_singleton.mp hmem
      exact houtcome hvalid
  kept := h.kept
  asked t' l' found hl' := h.asked t' l' found (pending_of_clear hl')
  typed := h.typed
  found t' l' v hl' := h.found t' l' v (pending_of_clear hl')
  right t' l' hl' := h.right t' l' (pending_of_clear hl')
  entered := h.entered

theorem Inv.step [DecidableEq τ] (h : r.Inv typeOf) (a : LookupAction τ υ)
    (htype : SameType typeOf a) (habsent : r.StillAbsent a)
    (hs : (lookupMachine τ υ).step r a = some s) : s.Inv typeOf := by
  cases a with
  | lookup t l =>
    simp only [lookupMachine] at hs
    split at hs
    · cases hs
    · cases hs
      have hlookup := h.lookup htype
      refine { h with asked := ?_, found := ?_, right := ?_ }
      · intro t' l' found hl'
        rcases pending_of_update hl' with heq | hl'
        · cases heq
          exact htype
        · exact h.asked t' l' found hl'
      · intro t' l' v hl'
        rcases pending_of_update hl' with heq | hl'
        · obtain ⟨rfl, hv⟩ := Prod.mk.inj (Option.some.inj heq)
          rw [hlookup] at hv
          split at hv
          · cases hv
          · rename_i hd
            cases hv
            exact hd
        · exact h.found t' l' v hl'
      · intro t' l' hl'
        rcases pending_of_update hl' with heq | hl'
        · obtain ⟨-, hv⟩ := Prod.mk.inj (Option.some.inj heq)
          rw [hlookup] at hv
          split at hv <;> cases hv
        · exact h.right t' l' hl'
  | create t =>
    obtain ⟨⟨l, found⟩, hl, heq⟩ := Option.map_eq_some_iff.mp hs
    cases heq
    cases found with
    | typeWrong => exact absurd hl (h.right t l)
    | found v => exact h.end _ fun _ => ⟨v, h.found t l v hl, rfl⟩
    | notFound =>
      cases hvalid : validName l.name with
      | false =>
        simpa [ConfigVarMap.lookupOrCreate, hvalid] using
          h.end (t := t) (l := l) .invalidArgument (by simp [hvalid])
      | true =>
        simpa [ConfigVarMap.lookupOrCreate, hvalid] using
          h.create (t := t) (h.asked t l _ hl) (habsent l hl hvalid)

/-- A call that goes on when there is an entry replaces it. -/
theorem Inv.replaces [DecidableEq τ] (h : r.Inv typeOf) {a : LookupAction τ υ}
    (hs : (lookupMachine τ υ).step r a = some s) (hnot : ¬r.StillAbsent a) : ¬s.OnePerName := by
  intro hone
  cases a with
  | lookup t l => exact hnot trivial
  | create t =>
    simp only [StillAbsent, not_forall] at hnot
    obtain ⟨l, hl, hvalid, hsome⟩ := hnot
    obtain ⟨v, hv⟩ := Option.ne_none_iff_exists'.mp hsome
    obtain ⟨x, hx, heq⟩ := Option.map_eq_some_iff.mp hs
    cases hl.symm.trans hx
    cases heq
    have hlt : v < r.config.objects.length := by
      obtain ⟨o, ho, -⟩ := h.typed l.name v hv
      exact (List.getElem?_eq_some_iff.mp ho).1
    have hmem : (l.name, v) ∈ r.entries := h.entered l.name v hv
    have hkept := hone.kept l.name v (by simp [hvalid, hmem])
    simp only [ConfigVarMap.lookupOrCreate, hvalid, if_true, ConfigVarMap.lookupBase,
      ConfigVarMap.create, Function.update_self, Option.some.injEq] at hkept
    omega

end LookupRun

/-- In every run in which each call that has not found its name goes on while there is no entry
    for it yet, there is one variable for each name; a call that goes on later replaces it. -/
theorem lookup_one_per_name [DecidableEq τ] (typeOf : Bytes → τ) (r : LookupRun τ υ)
    (h : (lookupMachine τ υ).Reach (fun r a => LookupRun.SameType typeOf a ∧ r.StillAbsent a) r) :
    r.OnePerName ∧ ∀ a s, (lookupMachine τ υ).step r a = some s → ¬r.StillAbsent a →
      ¬s.OnePerName := by
  have hinv : r.Inv typeOf := by
    apply Machine.Reach.invariant _ _ h
    · rintro _ rfl
      exact ⟨⟨by simp, by simp⟩, by simp, by simp, by simp, by simp, by simp⟩
    · exact fun r a s hr ha hs => hr.step a ha.1 ha.2 hs
  exact ⟨hinv.toOnePerName, fun a s hs hnot => hinv.replaces hs hnot⟩

/-- The first lookup of the port, by one of two threads. -/
def exampleLookup (description : Bytes) : LookupCall Nat Nat := ⟨0, ascii "port", 80, description⟩

/-- A second thread looks the name up when the first one has made the entry. -/
theorem lookup_one_per_name_example :
    ∃ r, (lookupMachine Nat Nat).Reach
        (fun r a => LookupRun.SameType (fun _ => 0) a ∧ r.StillAbsent a) r ∧ r.OnePerName ∧
      r.outcomes = [(ascii "port", .returned (some 0)), (ascii "port", .returned (some 0))] := by
  have hrun : (((lookupMachine Nat Nat).run {}
      [.lookup 1 (exampleLookup []), .create 1, .lookup 2 (exampleLookup []), .create 2]).any
        fun r => r.outcomes =
          [(ascii "port", .returned (some 0)), (ascii "port", .returned (some 0))]) = true := by
    decide
  obtain ⟨r, hr, houtcomes⟩ := (Option.any_eq_true _ _).mp hrun
  have hreach : (lookupMachine Nat Nat).Reach
      (fun r a => LookupRun.SameType (fun _ => 0) a ∧ r.StillAbsent a) r := by
    refine Machine.Reach.of_run _ (.init rfl) ?_ hr
    refine .cons ⟨rfl, trivial⟩ rfl (.cons ⟨trivial, fun l hl _ => rfl⟩ rfl
      (.cons ⟨rfl, trivial⟩ rfl (.cons ⟨trivial, fun l hl _ => ?_⟩ rfl trivial)))
    cases hl
  exact ⟨r, hreach, (lookup_one_per_name _ r hreach).1, by simpa using houtcomes⟩

/-- Two threads look the name up before either has made the entry: each makes one, and the variable
    of the first is not the one that `LookupBase` finds. -/
theorem lookup_concurrent :
    ∃ r, (lookupMachine Nat Nat).Reachable r ∧
      r.outcomes = [(ascii "port", .returned (some 0)), (ascii "port", .returned (some 1))] ∧
      r.config.lookupBase (ascii "port") = some 1 ∧ ¬r.OnePerName := by
  have hrun : (((lookupMachine Nat Nat).run {}
      [.lookup 1 (exampleLookup []), .lookup 2 (exampleLookup []), .create 1, .create 2]).any
        fun r => r.outcomes =
            [(ascii "port", .returned (some 0)), (ascii "port", .returned (some 1))] ∧
          r.config.lookupBase (ascii "port") = some 1) = true := by
    decide
  obtain ⟨r, hr, hr'⟩ := (Option.any_eq_true _ _).mp hrun
  obtain ⟨houtcomes, hbase⟩ := of_decide_eq_true hr'
  refine ⟨r, Machine.Reachable.of_run _ rfl hr, houtcomes, hbase, fun h => ?_⟩
  obtain ⟨v, hv, heq⟩ := h.same (ascii "port") (.returned (some 0)) (by simp [houtcomes])
    (by decide)
  rw [hbase] at hv
  cases hv
  cases heq

end CppServerFramework.Config
