import CppServerFramework.HTTP.Http
import Mathlib.Data.List.Induction
import Mathlib.Logic.Function.Basic

/-!
# The dispatch of requests to servlets

`ServletDispatch` (`servlet/servlet.cpp`).  A `Servlet::ptr` is one of the caller's, of a type `σ`,
or one that the dispatcher makes: a `FunctionServlet` of a callback of a type `κ`, or the
`DefaultServlet`.  `fnmatch` is a predicate on a pattern and a text.
-/

universe u v

namespace CppServerFramework.HTTP

inductive Servlet (σ : Type u) (κ : Type v) where
  | object (s : σ)
  | function (cb : κ)
  | default
  deriving DecidableEq, Repr

/-- `m_datas` is an `unordered_map`, `m_fuzzy` a `vector`. -/
structure ServletDispatch (σ : Type u) (κ : Type v) where
  datas : Bytes → Option (Servlet σ κ) := fun _ => none
  fuzzy : List (Bytes × Servlet σ κ) := []
  default : Servlet σ κ := .default

/-- A call of an operation that changes the dispatcher, of either overload. -/
inductive DispatchCall (σ : Type u) (κ : Type v) where
  | addMatchedServlet (uri : Bytes) (slt : Servlet σ κ)
  | addMatchedCallback (uri : Bytes) (cb : κ)
  | addFuzzyServlet (uri : Bytes) (slt : Servlet σ κ)
  | addFuzzyCallback (uri : Bytes) (cb : κ)
  | delMatchedServlet (uri : Bytes)
  | delFuzzyServlet (uri : Bytes)
  | setDefault (v : Servlet σ κ)
  deriving DecidableEq, Repr

variable {σ : Type u} {κ : Type v}

namespace ServletDispatch

variable (d : ServletDispatch σ κ)

/-- `addMatchedServlet(uri, slt)` (`servlet.cpp:33-36`). -/
def addMatchedServlet (uri : Bytes) (slt : Servlet σ κ) : ServletDispatch σ κ :=
  { d with datas := Function.update d.datas uri (some slt) }

/-- `addMatchedServlet(uri, cb)` (`servlet.cpp:38-41`). -/
def addMatchedCallback (uri : Bytes) (cb : κ) : ServletDispatch σ κ :=
  { d with datas := Function.update d.datas uri (some (.function cb)) }

/-- The loop that erases the first entry of a pattern (`servlet.cpp:46-51`, `67-72`). -/
def eraseFuzzy (uri : Bytes) : List (Bytes × Servlet σ κ) := d.fuzzy.eraseP fun it => it.1 = uri

/-- `addFuzzyServlet(uri, slt)` (`servlet.cpp:43-53`). -/
def addFuzzyServlet (uri : Bytes) (slt : Servlet σ κ) : ServletDispatch σ κ :=
  { d with fuzzy := d.eraseFuzzy uri ++ [(uri, slt)] }

/-- `addFuzzyServlet(uri, cb)` (`servlet.cpp:55-58`). -/
def addFuzzyCallback (uri : Bytes) (cb : κ) : ServletDispatch σ κ :=
  d.addFuzzyServlet uri (.function cb)

/-- `delMatchedServlet` (`servlet.cpp:60-63`). -/
def delMatchedServlet (uri : Bytes) : ServletDispatch σ κ :=
  { d with datas := Function.update d.datas uri none }

/-- `delFuzzyServlet` (`servlet.cpp:65-73`). -/
def delFuzzyServlet (uri : Bytes) : ServletDispatch σ κ := { d with fuzzy := d.eraseFuzzy uri }

/-- `setDefault` (`servlet.h:98`). -/
def setDefault (v : Servlet σ κ) : ServletDispatch σ κ := { d with default := v }

/-- The entry of `m_fuzzy` that the loop of `getServlet` stops at. -/
def fuzzyMatch (fnmatch : Bytes → Bytes → Bool) (uri : Bytes) : Option (Bytes × Servlet σ κ) :=
  d.fuzzy.find? fun it => fnmatch it.1 uri

/-- `getServlet` (`servlet.cpp:91-103`). -/
def getServlet (fnmatch : Bytes → Bytes → Bool) (uri : Bytes) : Servlet σ κ :=
  match d.datas uri with
  | some slt => slt
  | none =>
    match d.fuzzyMatch fnmatch uri with
    | some it => it.2
    | none => d.default

def call : DispatchCall σ κ → ServletDispatch σ κ
  | .addMatchedServlet uri slt => d.addMatchedServlet uri slt
  | .addMatchedCallback uri cb => d.addMatchedCallback uri cb
  | .addFuzzyServlet uri slt => d.addFuzzyServlet uri slt
  | .addFuzzyCallback uri cb => d.addFuzzyCallback uri cb
  | .delMatchedServlet uri => d.delMatchedServlet uri
  | .delFuzzyServlet uri => d.delFuzzyServlet uri
  | .setDefault v => d.setDefault v

/-- The dispatcher after a sequence of calls. -/
def run (calls : List (DispatchCall σ κ)) : ServletDispatch σ κ := calls.foldl call {}

end ServletDispatch

/-! ### The registrations -/

namespace DispatchCall

/-- What a call registers for a uri: a servlet, or that there is none. -/
def matched (uri : Bytes) : DispatchCall σ κ → Option (Option (Servlet σ κ))
  | .addMatchedServlet u slt => if u = uri then some (some slt) else none
  | .addMatchedCallback u cb => if u = uri then some (some (.function cb)) else none
  | .delMatchedServlet u => if u = uri then some none else none
  | _ => none

/-- The pattern a call registers, with its servlet. -/
def fuzzyAdded : DispatchCall σ κ → Option (Bytes × Servlet σ κ)
  | .addFuzzyServlet p slt => some (p, slt)
  | .addFuzzyCallback p cb => some (p, .function cb)
  | _ => none

/-- The pattern a call registers or deletes. -/
def pattern : DispatchCall σ κ → Option Bytes
  | .addFuzzyServlet p _ | .addFuzzyCallback p _ | .delFuzzyServlet p => some p
  | _ => none

def defaultSet : DispatchCall σ κ → Option (Servlet σ κ)
  | .setDefault v => some v
  | _ => none

/-- The servlet of the latest `addMatchedServlet` for a uri, unless it has been deleted since. -/
def latestMatched (calls : List (DispatchCall σ κ)) (uri : Bytes) : Option (Servlet σ κ) :=
  (calls.filterMap (matched uri)).getLast?.join

/-- The patterns registered, each at its latest `addFuzzyServlet`, unless it has been deleted
    since. -/
def registered : List (DispatchCall σ κ) → List (Bytes × Servlet σ κ)
  | [] => []
  | c :: calls =>
    match c.fuzzyAdded with
    | some e => if some e.1 ∈ calls.map pattern then registered calls else e :: registered calls
    | none => registered calls

def latestDefault (calls : List (DispatchCall σ κ)) : Servlet σ κ :=
  (calls.filterMap defaultSet).getLast?.getD .default

end DispatchCall

namespace ServletDispatch

open DispatchCall

variable {d : ServletDispatch σ κ} {calls : List (DispatchCall σ κ)} {c : DispatchCall σ κ}
variable {uri p : Bytes}

theorem run_append : run (calls ++ [c]) = (run calls).call c := by
  rw [run, List.foldl_append]
  rfl

theorem latest_append {α β : Type*} (f : α → Option β) (l : List α) (a : α) :
    ((l ++ [a]).filterMap f).getLast? = (f a).or (l.filterMap f).getLast? := by
  cases h : f a <;> simp [h]

theorem datas_call : (d.call c).datas uri = (c.matched uri).getD (d.datas uri) := by
  cases c <;>
    simp only [call, addMatchedServlet, addMatchedCallback, addFuzzyServlet, addFuzzyCallback,
      delMatchedServlet, delFuzzyServlet, setDefault, matched, Option.getD_none,
      Function.update_apply, eq_comm (a := uri)] <;>
    split <;> rfl

/-- `m_datas` holds what the calls have registered last. -/
theorem datas_run (calls : List (DispatchCall σ κ)) (uri : Bytes) :
    (run calls).datas uri = latestMatched calls uri := by
  induction calls using List.reverseRecOn with
  | nil => rfl
  | append_singleton calls c ih =>
    rw [run_append, datas_call, latestMatched, latest_append, ih, latestMatched]
    cases c.matched uri <;> rfl

theorem default_run (calls : List (DispatchCall σ κ)) :
    (run calls).default = latestDefault calls := by
  induction calls using List.reverseRecOn with
  | nil => rfl
  | append_singleton calls c ih =>
    rw [run_append, latestDefault, latest_append]
    cases c <;> first | exact ih | rfl

theorem pattern_of_fuzzyAdded {e : Bytes × Servlet σ κ} (h : c.fuzzyAdded = some e) :
    c.pattern = some e.1 := by
  cases c <;> cases h <;> rfl

/-- The registrations after one call more. -/
theorem registered_append (calls : List (DispatchCall σ κ)) (c : DispatchCall σ κ) :
    registered (calls ++ [c]) =
      ((registered calls).filter fun e => some e.1 ≠ c.pattern) ++ c.fuzzyAdded.toList := by
  induction calls with
  | nil => cases h : c.fuzzyAdded <;> simp [registered, h]
  | cons b calls ih =>
    rw [List.cons_append, registered, registered]
    cases h : b.fuzzyAdded with
    | none => exact ih
    | some e =>
      simp only [List.map_append, List.mem_append, List.map_cons, List.map_nil, List.mem_singleton]
      by_cases hmem : some e.1 ∈ calls.map pattern
      · rw [if_pos (Or.inl hmem), if_pos hmem, ih]
      · rw [if_neg hmem]
        by_cases hc : some e.1 = c.pattern
        · rw [if_pos (Or.inr hc), List.filter_cons_of_neg (by simp [hc]), ih]
        · rw [if_neg (not_or.mpr ⟨hmem, hc⟩), List.filter_cons_of_pos (by simp [hc]), ih,
            List.cons_append]

/-- A pattern that is registered is that of a call. -/
theorem pattern_of_mem_registered {e : Bytes × Servlet σ κ} (h : e ∈ registered calls) :
    some e.1 ∈ calls.map pattern := by
  induction calls with
  | nil => cases h
  | cons b calls ih =>
    rw [registered] at h
    cases hb : b.fuzzyAdded with
    | none =>
      rw [hb] at h
      exact List.mem_cons_of_mem _ (ih h)
    | some a =>
      rw [hb] at h
      simp only at h
      split at h
      · exact List.mem_cons_of_mem _ (ih h)
      · rcases List.mem_cons.mp h with rfl | h
        · exact List.mem_cons.mpr (Or.inl (pattern_of_fuzzyAdded hb).symm)
        · exact List.mem_cons_of_mem _ (ih h)

theorem nodup_registered (calls : List (DispatchCall σ κ)) :
    ((registered calls).map Prod.fst).Nodup := by
  induction calls with
  | nil => exact List.nodup_nil
  | cons b calls ih =>
    rw [registered]
    cases b.fuzzyAdded with
    | none => exact ih
    | some e =>
      simp only
      split
      · exact ih
      · rename_i hnot
        refine List.nodup_cons.mpr ⟨fun hmem => ?_, ih⟩
        obtain ⟨a, ha, heq⟩ := List.mem_map.mp hmem
        exact hnot (heq ▸ pattern_of_mem_registered ha)

/-- Where a pattern stands once, the loop over `m_fuzzy` erases it everywhere. -/
theorem eraseFuzzy_eq_filter (h : (d.fuzzy.map Prod.fst).Nodup) (p : Bytes) :
    d.eraseFuzzy p = d.fuzzy.filter fun e => some e.1 ≠ some p := by
  rw [eraseFuzzy]
  generalize d.fuzzy = l at h ⊢
  induction l with
  | nil => rfl
  | cons e l ih =>
    obtain ⟨he, hl⟩ := List.nodup_cons.mp h
    by_cases hp : e.1 = p
    · rw [List.eraseP_cons_of_pos (by simp [hp]), List.filter_cons_of_neg (by simp [hp])]
      refine (List.filter_eq_self.mpr fun a ha => ?_).symm
      have hne : a.1 ≠ p := fun heq => he (List.mem_map.mpr ⟨a, ha, heq.trans hp.symm⟩)
      simpa using hne
    · rw [List.eraseP_cons_of_neg (by simp [hp]), List.filter_cons_of_pos (by simp [hp]), ih hl]

/-- `m_fuzzy` holds the patterns registered. -/
theorem fuzzy_run (calls : List (DispatchCall σ κ)) : (run calls).fuzzy = registered calls := by
  induction calls using List.reverseRecOn with
  | nil => rfl
  | append_singleton calls c ih =>
    have herase : ∀ p, (run calls).eraseFuzzy p =
        (registered calls).filter fun e => some e.1 ≠ some p := fun p => by
      rw [eraseFuzzy_eq_filter (ih ▸ nodup_registered calls), ih]
    have hkeep : ((registered calls).filter fun e => some e.1 ≠ none) = registered calls := by
      simp
    rw [run_append, registered_append]
    cases c with
    | addFuzzyServlet p slt => exact congrArg (· ++ [(p, slt)]) (herase p)
    | addFuzzyCallback p cb => exact congrArg (· ++ [(p, .function cb)]) (herase p)
    | delFuzzyServlet p => exact (herase p).trans (List.append_nil _).symm
    | addMatchedServlet | addMatchedCallback | delMatchedServlet | setDefault =>
      exact ih.trans (hkeep.symm.trans (List.append_nil _).symm)

/-- A pattern that is deleted and not added again is not registered. -/
theorem not_mem_registered_of_deleted {before after : List (DispatchCall σ κ)}
    (h : ∀ c ∈ after, ∀ slt, c.fuzzyAdded ≠ some (p, slt)) :
    p ∉ (registered (before ++ .delFuzzyServlet p :: after)).map Prod.fst := by
  induction after using List.reverseRecOn with
  | nil =>
    rw [registered_append]
    simp [fuzzyAdded, pattern]
  | append_singleton after c ih =>
    rw [← List.cons_append, ← List.append_assoc, registered_append]
    intro hmem
    obtain ⟨e, he, rfl⟩ := List.mem_map.mp hmem
    rcases List.mem_append.mp he with he | he
    · refine ih (fun c hc => h c (List.mem_append_left _ hc)) ?_
      exact List.mem_map_of_mem (List.mem_filter.mp he).1
    · exact h c (by simp) e.2 (by simpa using he)

end ServletDispatch

/-- The dispatch after a sequence of calls: no pattern stands twice in `m_fuzzy`, a uri gets the
    servlet registered last for it, or that of the first pattern registered that matches, or the
    default, and a pattern that is deleted serves nothing until it is added again. -/
structure Dispatched (calls : List (DispatchCall σ κ)) : Prop where
  unique : ((ServletDispatch.run calls).fuzzy.map Prod.fst).Nodup
  served : ∀ fnmatch uri, (ServletDispatch.run calls).getServlet fnmatch uri =
    (DispatchCall.latestMatched calls uri).getD
      ((((DispatchCall.registered calls).find? fun e => fnmatch e.1 uri).map Prod.snd).getD
        (DispatchCall.latestDefault calls))
  deleted : ∀ before p after, calls = before ++ .delFuzzyServlet p :: after →
    (∀ c ∈ after, ∀ slt, c.fuzzyAdded ≠ some (p, slt)) → ∀ fnmatch uri slt,
      (ServletDispatch.run calls).fuzzyMatch fnmatch uri ≠ some (p, slt)

/-- The dispatch of requests, over every sequence of calls. -/
theorem dispatch_law (calls : List (DispatchCall σ κ)) : Dispatched calls where
  unique := by
    rw [ServletDispatch.fuzzy_run]
    exact ServletDispatch.nodup_registered calls
  served fnmatch uri := by
    rw [ServletDispatch.getServlet, ServletDispatch.datas_run, ServletDispatch.fuzzyMatch,
      ServletDispatch.fuzzy_run, ServletDispatch.default_run]
    cases DispatchCall.latestMatched calls uri with
    | some slt => rfl
    | none => cases (DispatchCall.registered calls).find? fun e => fnmatch e.1 uri <;> rfl
  deleted before p after hcalls hafter fnmatch uri slt hmatch := by
    rw [ServletDispatch.fuzzyMatch, ServletDispatch.fuzzy_run, hcalls] at hmatch
    exact ServletDispatch.not_mem_registered_of_deleted hafter
      (List.mem_map_of_mem (List.mem_of_find?_eq_some hmatch))

/-- A pattern that is added again comes behind the others. -/
example : (ServletDispatch.run (σ := Nat) (κ := Nat)
    [.addFuzzyServlet [42] (.object 1), .addFuzzyCallback [47, 42] 2,
      .addFuzzyServlet [42] (.object 3)]).getServlet (fun _ _ => true) [47] = .function 2 := by
  decide

end CppServerFramework.HTTP
