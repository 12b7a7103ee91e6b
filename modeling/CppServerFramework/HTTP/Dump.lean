import Mathlib.Data.Nat.Digits.Defs
import CppServerFramework.HTTP.Http

/-!
# Writing requests and responses

`HttpRequest::dump` (`http.cpp:149-177`) and `HttpResponse::dump` (`http.cpp:206-233`): the first
line, a line for the connection, the lines of the header map, and the body behind its length.
-/

namespace CppServerFramework.HTTP

/-- A number as a stream writes it. -/
def decimal (n : Nat) : Bytes :=
  if n = 0 then [48] else (Nat.digits 10 n).reverse.map fun d => UInt8.ofNat (48 + d)

def crlf : Bytes := [13, 10]

/-- The bytes of a version, as numbers with a dot between them. -/
def versionText (version : UInt8) : Bytes :=
  decimal (version >>> 4).toNat ++ ascii "." ++ decimal (version &&& 0x0F).toNat

/-- One line of the header map. -/
def headerLine (e : Bytes × Bytes) : Bytes := e.1 ++ ascii ": " ++ e.2 ++ crlf

def connectionEntry (close : Bool) : Bytes × Bytes :=
  (ascii "connection", ascii (if close then "close" else "keep-alive"))

def contentLengthEntry (body : Bytes) : Bytes × Bytes :=
  (ascii "content-length", decimal body.length)

/-- The entries that are written of a header map: all but the connection. -/
def HeaderMap.written (m : HeaderMap) : List (Bytes × Bytes) :=
  m.entries.filter fun e => !sameKey e.1 (ascii "connection")

/-- The end of a head: the length of a body that is not empty, and the blank line. -/
def headEnd (body : Bytes) : Bytes :=
  if body = [] then crlf else headerLine (contentLengthEntry body) ++ crlf

namespace HttpRequest

/-- The first line, up to its end. -/
def startLine (r : HttpRequest) : Bytes :=
  ascii (httpMethodToString r.method) ++ ascii " " ++ r.path ++
    (if r.query = [] then [] else ascii "?") ++ r.query ++
      (if r.fragment = [] then [] else ascii "#") ++ r.fragment ++
        ascii " HTTP/" ++ versionText r.version

/-- What stands before the body. -/
def head (r : HttpRequest) : Bytes :=
  r.startLine ++ crlf ++ headerLine (connectionEntry r.close) ++
    r.headers.written.flatMap headerLine ++ headEnd r.body

/-- `HttpRequest::dump` (`http.cpp:149-177`). -/
def dump (r : HttpRequest) : Bytes := r.head ++ r.body

end HttpRequest

namespace HttpResponse

/-- The first line, up to its end; a status is written as a `uint32_t`. -/
def startLine (r : HttpResponse) : Bytes :=
  ascii "HTTP/" ++ versionText r.version ++ ascii " " ++
    decimal (r.status % 2 ^ 32).toNat ++ ascii " " ++
      if r.reason = [] then ascii (httpStatusToString r.status) else r.reason

def head (r : HttpResponse) : Bytes :=
  r.startLine ++ crlf ++ r.headers.written.flatMap headerLine ++
    headerLine (connectionEntry r.close) ++ headEnd r.body

/-- `HttpResponse::dump` (`http.cpp:206-233`). -/
def dump (r : HttpResponse) : Bytes := r.head ++ r.body

end HttpResponse

/-! ## Numbers -/

theorem decimalValue_map_digits (ds : List Nat) (h : ∀ d ∈ ds, d < 10) (n : Nat) :
    (ds.map fun d => UInt8.ofNat (48 + d)).foldl (fun n b => 10 * n + (b.toNat - 48)) n =
      ds.foldl (fun n d => 10 * n + d) n := by
  induction ds generalizing n with
  | nil => rfl
  | cons d ds ih =>
    rw [List.forall_mem_cons] at h
    have hd : (UInt8.ofNat (48 + d)).toNat - 48 = d := by
      rw [UInt8.toNat_ofNat']
      omega
    rw [List.map_cons, List.foldl_cons, List.foldl_cons, hd, ih h.2]

theorem decimalValue_decimal (n : Nat) : decimalValue (decimal n) = n := by
  rw [decimal]
  split
  · rename_i h
    rw [h]
    rfl
  · rw [decimalValue, decimalValue_map_digits _ fun d hd =>
      Nat.digits_lt_base (by decide) (List.mem_reverse.mp hd), List.foldl_reverse]
    have hfold : ∀ ds : List Nat, ds.foldr (fun d n => 10 * n + d) 0 = Nat.ofDigits 10 ds := by
      intro ds
      rw [Nat.ofDigits_eq_foldr]
      congr
      funext d n
      simp [Nat.add_comm]
    rw [hfold, Nat.ofDigits_digits]

theorem decimal_ne_nil (n : Nat) : decimal n ≠ [] := by
  rw [decimal]
  split
  · exact List.cons_ne_nil _ _
  · rename_i h
    simpa using Nat.digits_ne_nil_iff_ne_zero.mpr h

theorem digit_of_mem_decimal {n : Nat} {b : UInt8} (h : b ∈ decimal n) : 48 ≤ b ∧ b ≤ 57 := by
  rw [decimal] at h
  split at h
  · rw [List.mem_singleton.mp h]
    decide
  · obtain ⟨d, hd, rfl⟩ := List.mem_map.mp h
    have hlt := Nat.digits_lt_base (b := 10) (by decide) (List.mem_reverse.mp hd)
    rw [UInt8.le_iff_toNat_le, UInt8.le_iff_toNat_le, UInt8.toNat_ofNat']
    change 48 ≤ _ ∧ _ ≤ 57
    omega

theorem decimalCast_decimal {n : Nat} (h : n < 2 ^ 64) :
    decimalCast (decimal n) = some (UInt64.ofNat n) := by
  rw [decimalCast, if_pos, decimalValue_decimal]
  refine ⟨decimal_ne_nil n, ?_, by rwa [decimalValue_decimal]⟩
  rw [List.all_eq_true]
  intro b hb
  simpa using digit_of_mem_decimal hb

/-! ## Header maps -/

theorem sameKey_iff {a b : Bytes} : sameKey a b = true ↔ lowerKey a = lowerKey b := by
  simp [sameKey, lowerKey]

theorem sameKey_comm (a b : Bytes) : sameKey a b = sameKey b a := by
  rw [Bool.eq_iff_iff, sameKey_iff, sameKey_iff, eq_comm]

/-- Keys that are the same are the same as the same keys. -/
theorem sameKey_congr {a b : Bytes} (h : sameKey a b = true) (k : Bytes) :
    sameKey a k = sameKey b k := by
  rw [sameKey_iff] at h
  rw [Bool.eq_iff_iff, sameKey_iff, sameKey_iff, h]

theorem sameKey_eq_false {a b k : Bytes} (hab : sameKey a b = false) (hak : sameKey a k = true) :
    sameKey b k = false := by
  rw [sameKey_comm, ← sameKey_congr hak, hab]

namespace HeaderMap

variable {m : HeaderMap} {es : List (Bytes × Bytes)} {key k val : Bytes}

theorem get_cons (e : Bytes × Bytes) (m : HeaderMap) (k : Bytes) :
    get (e :: m) k = if sameKey e.1 k then some e.2 else get m k := by
  rw [get, get, List.find?_cons]
  cases sameKey e.1 k <;> rfl

/-- Changing the value of the entries with a key. -/
theorem get_replace (m : HeaderMap) (key val k : Bytes) :
    get (m.map fun e => if sameKey e.1 key then (e.1, val) else e) k =
      if (m.any fun e => sameKey e.1 key) && sameKey key k then some val else get m k := by
  induction m with
  | nil => rfl
  | cons e m ih =>
    rw [List.map_cons, get_cons, get_cons, ih, List.any_cons]
    by_cases he : sameKey e.1 key = true
    · rw [if_pos he, sameKey_congr he, he]
      cases sameKey key k <;> simp
    · rw [if_neg he, Bool.eq_false_iff.mpr he, Bool.false_or]
      by_cases hek : sameKey e.1 k = true
      · simp [hek, sameKey_eq_false (Bool.eq_false_iff.mpr he) hek]
      · simp [hek]

theorem get_set (m : HeaderMap) (key val k : Bytes) :
    (m.set key val).get k = if sameKey key k then some val else m.get k := by
  rw [set]
  split
  · rename_i hany
    rw [get_replace, hany, Bool.true_and]
  · rename_i hany
    induction m with
    | nil => exact get_cons _ _ _
    | cons e m ih =>
      simp only [List.any_cons, Bool.or_eq_true, not_or] at hany
      rw [List.cons_append, get_cons, get_cons, ih hany.2]
      by_cases hek : sameKey e.1 k = true
      · simp [hek, sameKey_eq_false (Bool.eq_false_iff.mpr hany.1) hek]
      · simp [hek]

theorem get_erase (m : HeaderMap) (key k : Bytes) :
    (m.erase key).get k = if sameKey key k then none else m.get k := by
  induction m with
  | nil => simp [erase, get]
  | cons e m ih =>
    rw [erase, List.filter_cons, get_cons]
    rw [erase] at ih
    cases he : sameKey e.1 key with
    | true =>
      simp only [Bool.not_true, Bool.false_eq_true, if_false, ih, sameKey_congr he]
      split <;> rfl
    | false =>
      simp only [Bool.not_false, if_true, get_cons, ih]
      by_cases hk : sameKey key k = true
      · have hek : sameKey e.1 k = false := by
          rw [sameKey_comm, ← sameKey_congr hk, sameKey_comm, he]
        simp [hk, hek]
      · simp [hk]

/-- The entries set one after the other. -/
def setAll (m : HeaderMap) (es : List (Bytes × Bytes)) : HeaderMap :=
  es.foldl (fun m e => m.set e.1 e.2) m

theorem get_setAll_of_not (h : ∀ e ∈ es, sameKey e.1 k = false) :
    (m.setAll es).get k = m.get k := by
  induction es generalizing m with
  | nil => rfl
  | cons e es ih =>
    rw [List.forall_mem_cons] at h
    rw [setAll, List.foldl_cons, ← setAll, ih h.2, get_set, h.1]
    rfl

/-- With different keys every entry keeps its value. -/
theorem get_setAll (h : es.Pairwise fun a b => sameKey a.1 b.1 = false) {e : Bytes × Bytes}
    (he : e ∈ es) : (m.setAll es).get e.1 = some e.2 := by
  induction es generalizing m with
  | nil => cases he
  | cons f es ih =>
    rw [List.pairwise_cons] at h
    rw [setAll, List.foldl_cons, ← setAll]
    rcases List.mem_cons.mp he with rfl | he
    · rw [get_setAll_of_not, get_set, if_pos (sameKey_iff.mpr rfl)]
      intro g hg
      rw [Bool.eq_false_iff, Ne, sameKey_iff]
      intro heq
      have := h.1 g hg
      rw [Bool.eq_false_iff, Ne, sameKey_iff] at this
      exact this heq.symm
    · exact ih h.2 he

theorem perm_entries (m : HeaderMap) : m.entries.Perm m := List.perm_insertionSort _ m

theorem mem_written {e : Bytes × Bytes} :
    e ∈ m.written ↔ e ∈ m ∧ sameKey e.1 (ascii "connection") = false := by
  rw [written, List.mem_filter, m.perm_entries.mem_iff, Bool.not_eq_true']

end HeaderMap

end CppServerFramework.HTTP
