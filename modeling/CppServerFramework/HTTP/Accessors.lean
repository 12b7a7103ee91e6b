import Mathlib.Data.List.Induction
import CppServerFramework.HTTP.Dump

/-!
# Typed accessors of requests

`getAs` and `checkGetAs` (`HTTP/http.h:140-171`) and the accessors of `HttpRequest` that use them
(`http.h:216-244`).  The three maps of a request are what its setters leave; `cast` is
`boost::lexical_cast<T>`, without a value where that throws.
-/

universe u

namespace CppServerFramework.HTTP

variable {T : Type u}

/-- `checkGetAs` (`http.h:140-156`): the answer, and what `val` is then. -/
def checkGetAs (m : HeaderMap) (cast : Bytes → Option T) (key : Bytes) (dflt : T) : Bool × T :=
  match m.get key with
  | none => (false, dflt)
  | some s =>
    match cast s with
    | some v => (true, v)
    | none => (false, dflt)

/-- `getAs` (`http.h:159-171`). -/
def getAs (m : HeaderMap) (cast : Bytes → Option T) (key : Bytes) (dflt : T) : T :=
  match m.get key with
  | none => dflt
  | some s =>
    match cast s with
    | some v => v
    | none => dflt

/-- `m_headers`, `m_params` and `m_cookies` of an `HttpRequest` (`http.h:258-260`). -/
structure RequestMaps where
  headers : HeaderMap := []
  params : HeaderMap := []
  cookies : HeaderMap := []
  deriving DecidableEq

namespace RequestMaps

variable (r : RequestMaps) (cast : Bytes → Option T) (key : Bytes) (dflt : T)

/-- `getHeader` (`http.cpp:74-78`) -/
def getHeader (key dflt : Bytes) : Bytes := (r.headers.get key).getD dflt

/-- `getParam` (`http.cpp:80-84`) -/
def getParam (key dflt : Bytes) : Bytes := (r.params.get key).getD dflt

/-- `getCookie` (`http.cpp:86-90`) -/
def getCookie (key dflt : Bytes) : Bytes := (r.cookies.get key).getD dflt

/-- `checkGetHeaderAs` (`http.h:216-219`) -/
def checkGetHeaderAs : Bool × T := checkGetAs r.headers cast key dflt

/-- `getHeaderAs` (`http.h:221-224`) -/
def getHeaderAs : T := getAs r.headers cast key dflt

/-- `checkGetParamAs` (`http.h:226-229`), which looks at the headers. -/
def checkGetParamAs : Bool × T := checkGetAs r.headers cast key dflt

/-- `getParamAs` (`http.h:231-234`), which looks at the headers. -/
def getParamAs : T := getAs r.headers cast key dflt

/-- `checkGetCookieAs` (`http.h:236-239`), which looks at the headers. -/
def checkGetCookieAs : Bool × T := checkGetAs r.headers cast key dflt

/-- `getCookieAs` (`http.h:241-244`), which looks at the headers. -/
def getCookieAs : T := getAs r.headers cast key dflt

end RequestMaps

/-- One of the three maps. -/
inductive MapName where
  | header
  | param
  | cookie
  deriving DecidableEq, Repr

/-- The setters: `setHeader`, `setHeaders`, `delHeader`, and those of the other maps. -/
inductive MapCall where
  | set (name : MapName) (key val : Bytes)
  | setAll (name : MapName) (m : HeaderMap)
  | del (name : MapName) (key : Bytes)
  deriving DecidableEq

namespace RequestMaps

def map (r : RequestMaps) : MapName → HeaderMap
  | .header => r.headers
  | .param => r.params
  | .cookie => r.cookies

/-- A change of one map. -/
def modify (r : RequestMaps) (f : HeaderMap → HeaderMap) : MapName → RequestMaps
  | .header => { r with headers := f r.headers }
  | .param => { r with params := f r.params }
  | .cookie => { r with cookies := f r.cookies }

/-- The setters (`http.cpp:92-114`, `http.h:200-202`). -/
def call (r : RequestMaps) : MapCall → RequestMaps
  | .set name key val => r.modify (fun m => m.set key val) name
  | .setAll name m => r.modify (fun _ => m) name
  | .del name key => r.modify (fun m => m.erase key) name

/-- The maps of a request after some calls. -/
def after (calls : List MapCall) : RequestMaps := calls.foldl call {}

end RequestMaps

/-- What the last call that concerns a key has left for it: keys are compared without case. -/
def lastSet (name : MapName) (key : Bytes) : List MapCall → Option Bytes
  | [] => none
  | .set name' key' val :: calls =>
    if name' = name ∧ sameKey key' key then some val else lastSet name key calls
  | .setAll name' m :: calls => if name' = name then m.get key else lastSet name key calls
  | .del name' key' :: calls =>
    if name' = name ∧ sameKey key' key then none else lastSet name key calls

namespace RequestMaps

variable {r : RequestMaps} {cast : Bytes → Option T} {key : Bytes} {name name' : MapName}

/-- The accessors of one map agree with what it has for a key. -/
structure Typed (found : Option Bytes) (cast : Bytes → Option T) (as : T → T)
    (check : T → Bool × T) : Prop where
  as_eq : ∀ dflt, as dflt = (found.bind cast).getD dflt
  check_eq : ∀ dflt, check dflt = ((found.bind cast).isSome, (found.bind cast).getD dflt)

/-- The typed accessors agree with the untyped ones on a key. -/
structure Agree (r : RequestMaps) (cast : Bytes → Option T) (key : Bytes) : Prop where
  header : Typed (r.headers.get key) cast (r.getHeaderAs cast key) (r.checkGetHeaderAs cast key)
  param : Typed (r.params.get key) cast (r.getParamAs cast key) (r.checkGetParamAs cast key)
  cookie : Typed (r.cookies.get key) cast (r.getCookieAs cast key) (r.checkGetCookieAs cast key)

/-- What the parameters and the cookies have for a key converts as what the headers have. -/
structure SameConversion (calls : List MapCall) (cast : Bytes → Option T) (key : Bytes) : Prop where
  param : (lastSet .param key calls.reverse).bind cast =
    (lastSet .header key calls.reverse).bind cast
  cookie : (lastSet .cookie key calls.reverse).bind cast =
    (lastSet .header key calls.reverse).bind cast

theorem getAs_eq (m : HeaderMap) (cast : Bytes → Option T) (key : Bytes) (dflt : T) :
    getAs m cast key dflt = ((m.get key).bind cast).getD dflt := by
  rw [getAs]
  cases m.get key with
  | none => rfl
  | some s =>
    simp only [Option.bind_some]
    cases cast s <;> rfl

theorem checkGetAs_eq (m : HeaderMap) (cast : Bytes → Option T) (key : Bytes) (dflt : T) :
    checkGetAs m cast key dflt =
      (((m.get key).bind cast).isSome, ((m.get key).bind cast).getD dflt) := by
  rw [checkGetAs]
  cases m.get key with
  | none => rfl
  | some s =>
    simp only [Option.bind_some]
    cases cast s <;> rfl

theorem map_modify (r : RequestMaps) (f : HeaderMap → HeaderMap) :
    (r.modify f name').map name = if name' = name then f (r.map name) else r.map name := by
  cases name' <;> cases name <;> rfl

/-- The maps have for each key what the last call has left for it. -/
theorem get_after (calls : List MapCall) (name : MapName) (key : Bytes) :
    ((after calls).map name).get key = lastSet name key calls.reverse := by
  induction calls using List.reverseRecOn with
  | nil => cases name <;> rfl
  | append_singleton calls c ih =>
    rw [after, List.foldl_concat, List.reverse_concat, ← after]
    cases c with
    | set name' key' val =>
      rw [call, map_modify, lastSet, ← ih]
      by_cases hname : name' = name
      · simp [hname, HeaderMap.get_set]
      · simp [hname]
    | setAll name' m =>
      rw [call, map_modify, lastSet, ← ih]
      split <;> rfl
    | del name' key' =>
      rw [call, map_modify, lastSet, ← ih]
      by_cases hname : name' = name
      · simp [hname, HeaderMap.get_erase]
      · simp [hname]

theorem typed_iff (m : HeaderMap) (found : Option Bytes) :
    Typed found cast (getAs m cast key) (checkGetAs m cast key) ↔
      found.bind cast = (m.get key).bind cast := by
  constructor
  · intro h
    cases hm : (m.get key).bind cast with
    | some v =>
      have := h.check_eq v
      rw [checkGetAs_eq, hm] at this
      obtain ⟨hsome, hval⟩ := Prod.mk.inj this
      cases hf : found.bind cast with
      | none => simp [hf] at hsome
      | some w =>
        rw [hf] at hval
        exact congrArg some hval.symm
    | none =>
      cases hf : found.bind cast with
      | none => rfl
      | some w =>
        have := h.check_eq w
        rw [checkGetAs_eq, hm, hf] at this
        cases this
  · intro h
    exact ⟨fun dflt => by rw [getAs_eq, h], fun dflt => by rw [checkGetAs_eq, h]⟩

end RequestMaps

/-- After any calls the typed accessors agree with the untyped ones on a key exactly if what the
    parameters and the cookies have for it converts as what the headers have. -/
theorem accessors_agree_iff (calls : List MapCall) (cast : Bytes → Option T) (key : Bytes) :
    (RequestMaps.after calls).Agree cast key ↔ RequestMaps.SameConversion calls cast key := by
  have hheader := RequestMaps.get_after calls .header key
  have hparam := RequestMaps.get_after calls .param key
  have hcookie := RequestMaps.get_after calls .cookie key
  constructor
  · rintro ⟨-, hp, hc⟩
    refine ⟨?_, ?_⟩
    · rw [← hparam, ← hheader]
      exact (RequestMaps.typed_iff _ _).mp hp
    · rw [← hcookie, ← hheader]
      exact (RequestMaps.typed_iff _ _).mp hc
  · rintro ⟨hp, hc⟩
    refine ⟨(RequestMaps.typed_iff _ _).mpr rfl, (RequestMaps.typed_iff _ _).mpr ?_,
      (RequestMaps.typed_iff _ _).mpr ?_⟩
    · rw [← hparam, ← hheader] at hp
      exact hp
    · rw [← hcookie, ← hheader] at hc
      exact hc

/-- A parameter is not found, and a header of its name is taken for it. -/
theorem accessors_agree_not :
    let r := RequestMaps.after [.set .param (ascii "id") (ascii "7"), .set .header (ascii "ID")
      (ascii "9")]
    (r.getParam (ascii "id") [] = ascii "7" ∧ r.getParamAs some (ascii "id") [] = ascii "9") ∧
      ¬r.Agree some (ascii "id") := by
  refine ⟨by decide, fun h => ?_⟩
  have := h.param.as_eq []
  exact absurd this (by decide)

end CppServerFramework.HTTP
