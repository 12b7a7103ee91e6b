import Mathlib.Data.List.TakeWhile
import CppServerFramework.HTTP.RequestRoundTrip

/-!
# Recognising the method

`StringToHttpMethod` compares a whole text with the names, and `CharsToHttpMethod`, which the
parser calls on its buffer, only the beginning: it takes a token that extends a name for the name.
-/

namespace CppServerFramework.HTTP
open RequestParser RequestGrammar

/-- `StringToHttpMethod` (`http.cpp:8-20`); `c_str` ends at the first null byte. -/
def stringToHttpMethod (m : Bytes) : HttpMethod :=
  match httpMethodMap.find? fun x => ascii x.2 = m.takeWhile (· ≠ 0) with
  | some x => x.1
  | none => .invalidMethod

/-- The parser behind a method, or error 1000 where it is none. -/
def RequestParser.withMethod (s : RequestParser) (m : HttpMethod) : RequestParser :=
  if m = .invalidMethod then { s with mark := 0, error := 1000 }
  else { s with mark := 0, data := { s.data with method := m } }

/-- The token is recognised as `StringToHttpMethod` does: by `CharsToHttpMethod`, whatever stands
    behind it, and by a parser that reads it at the beginning of a request. -/
structure MethodExact (uriRelaxed : Bool) (token : Bytes) : Prop where
  agrees : ∀ rest, charsToHttpMethod (token ++ 32 :: rest) = stringToHttpMethod token
  parsed : ∀ queryStart, Reads uriRelaxed 1 (.new queryStart uriRelaxed) [] (token ++ [32]) 3
    ((RequestParser.new queryStart uriRelaxed).withMethod (stringToHttpMethod token))

/-- The token begins with a name, but goes on. -/
def ExtendsName (token : Bytes) : Prop :=
  ∃ x ∈ httpMethodMap, ascii x.2 <+: token ∧ ascii x.2 ≠ token

instance (token : Bytes) : Decidable (ExtendsName token) :=
  inferInstanceAs (Decidable (∃ x ∈ httpMethodMap, _))

variable {token : Bytes} {uriRelaxed : Bool}

/-- No name extends another one. -/
theorem names_not_extending : ∀ x ∈ httpMethodMap, ¬ExtendsName (ascii x.2) := by decide +kernel

theorem names_valid : ∀ x ∈ httpMethodMap, x.1 ≠ .invalidMethod := by decide

/-- A token has no null byte. -/
theorem takeWhile_token (h : token ∈ method.language) : token.takeWhile (· ≠ 0) = token := by
  refine List.takeWhile_eq_self_iff.mpr fun b hb => ?_
  have hletter := Regex.inRanges_letters h hb
  have hzero : inRanges method.letters 0 = false := by decide
  rw [decide_eq_true_iff]
  rintro rfl
  exact absurd hletter (by rw [hzero]; decide)

theorem charsToHttpMethod_eq_iff (hnull : token.takeWhile (· ≠ 0) = token) :
    charsToHttpMethod token = stringToHttpMethod token ↔ ¬ExtendsName token := by
  constructor
  · rintro heq ⟨x, hx, hprefix, hne⟩
    have hchars : charsToHttpMethod token ≠ .invalidMethod := by
      rw [charsToHttpMethod]
      split
      · rename_i y hy
        exact names_valid y (List.mem_of_find?_eq_some hy)
      · rename_i hnone
        have := List.find?_eq_none.mp hnone x hx
        exact absurd (List.isPrefixOf_iff_prefix.mpr hprefix) this
    have hstring : stringToHttpMethod token = .invalidMethod := by
      rw [stringToHttpMethod, hnull]
      split
      · rename_i y hy
        have heq : ascii y.2 = token := by simpa using List.find?_some hy
        exact absurd ⟨x, hx, heq ▸ hprefix, heq ▸ hne⟩
          (names_not_extending y (List.mem_of_find?_eq_some hy))
      · rfl
    exact hchars (heq.trans hstring)
  · intro hnone
    have hsame : ∀ x ∈ httpMethodMap,
        (ascii x.2).isPrefixOf token = decide (ascii x.2 = token.takeWhile (· ≠ 0)) := by
      intro x hx
      rw [hnull, Bool.eq_iff_iff, List.isPrefixOf_iff_prefix, decide_eq_true_iff]
      refine ⟨fun hprefix => ?_, fun heq => heq ▸ List.prefix_rfl⟩
      by_contra hne
      exact hnone ⟨x, hx, hprefix, hne⟩
    rewrite [charsToHttpMethod, stringToHttpMethod, List.find?_congr hsame]
    rfl

/-- The parser reads a token and the blank behind it. -/
theorem reads_token (h : token ∈ method.language) (s : RequestParser) :
    Reads uriRelaxed 1 s [] (token ++ [32]) 3 (s.withMethod (charsToHttpMethod token)) := by
  have hne : token ≠ [] := by
    rintro rfl
    exact absurd h (by decide)
  obtain ⟨t, hpass, hevents, hexit⟩ := method_read uriRelaxed h hne
  have hpart : Reads uriRelaxed 1 s [] token t { s with mark := 0 } :=
    .part hpass hevents fun _ => rfl
  refine hpart.trans (.byte (of_decide_eq_true hexit) (by decide) rfl fun rest _ => ?_)
  have hchars : charsToHttpMethod (token ++ 32 :: rest) = charsToHttpMethod token :=
    charsToHttpMethod_append token rest
  simp only [List.nil_append, List.append_assoc, List.singleton_append, RequestParser.acts, act,
    List.map_cons, List.map_nil, List.foldlM_cons, List.foldlM_nil, bind, Except.bind, pure,
    Except.pure, List.drop_zero, onRequestMethod, hchars, withMethod]

/-- A token of the grammar is recognised exactly unless it extends a name. -/
theorem method_exact_iff (uriRelaxed : Bool) (token : Bytes) (h : token ∈ method.language) :
    MethodExact uriRelaxed token ↔ ¬ExtendsName token := by
  rw [← charsToHttpMethod_eq_iff (takeWhile_token h)]
  constructor
  · intro hexact
    rw [← hexact.agrees [], charsToHttpMethod_append]
  · intro heq
    exact ⟨fun rest => (charsToHttpMethod_append token rest).trans heq,
      fun queryStart => heq ▸ reads_token h _⟩

theorem method_exact_get : MethodExact false (ascii "GET") :=
  (method_exact_iff false (ascii "GET") (by decide)).mpr (by decide)

/-- `GETX` is no method, and is taken for `GET`. -/
theorem method_extended :
    ascii "GETX" ∈ method.language ∧ stringToHttpMethod (ascii "GETX") = .invalidMethod ∧
      (∀ rest, charsToHttpMethod (ascii "GETX" ++ 32 :: rest) = .get) ∧
      ¬MethodExact false (ascii "GETX") := by
  have hchars : ∀ rest, charsToHttpMethod (ascii "GETX" ++ 32 :: rest) = .get := fun rest =>
    (charsToHttpMethod_append _ rest).trans (by decide)
  refine ⟨by decide, by decide, hchars, fun h => ?_⟩
  have hagrees := h.agrees []
  rw [hchars] at hagrees
  exact absurd hagrees (by decide)

end CppServerFramework.HTTP
