import Mathlib.Algebra.BigOperators.Group.List.Basic
import CppServerFramework.Misc.CInt

/-!
# The fixed-size transfer loops of `Stream`

`Stream::readFixSize` and `Stream::writeFixSize` (`stream.cpp:4-54`) call a primitive until
`length` bytes have been transferred.  The four of them are one loop over four primitives.
The counters `offset` and `left` are `size_t`, the primitive answers an `int`, and
`size_t len = read(..)` converts the answer before `len <= 0` tests it: the answer `-1`
becomes `2 ^ 64 - 1` and is taken for progress.

`fixSize_meets_iff` says exactly when a loop keeps its contract: iff the primitive never
answers `-1` while bytes are left.
-/

namespace CppServerFramework
open CInt

variable {σ : Type}

/-- One call of a primitive: the buffer offset and byte count passed, and the answer. -/
structure Call where
  offset : Nat
  count : Nat
  answer : Int
  deriving DecidableEq, Repr

/-- A read or write primitive over a stream state `σ`.  An answer is an `int` between `-1`
    and the number of bytes asked for. -/
structure Primitive (σ : Type) where
  call : σ → (offset count : Nat) → Int × σ
  neg_one_le : ∀ s offset count, -1 ≤ (call s offset count).1
  le_count : ∀ s offset count, (call s offset count).1 ≤ count
  lt_int : ∀ s offset count, (call s offset count).1 < 2 ^ 31

/-- The loop shared by the four functions (`stream.cpp:7-15`): `offset` and `left` are the
    local variables, the list is the trace of calls made, `none` means out of fuel. -/
def fixSizeLoop (prim : Primitive σ) (length : Nat) :
    Nat → (offset left : Nat) → σ → Option (List Call × Int × σ)
  | 0, _, _, _ => none
  | fuel + 1, offset, left, s =>
    if left = 0 then some ([], intOfSize length, s)
    else
      let (r, s') := prim.call s offset left
      let len := sizeOfInt r
      if len ≤ 0 then some ([⟨offset, left, r⟩], intOfSize len, s')
      else
        (fixSizeLoop prim length fuel (addSize offset len) (subSize left len) s').map
          fun (trace, result, t) => (⟨offset, left, r⟩ :: trace, result, t)

/-- `class Stream` (`stream.h:9-23`): its four virtual primitives.  The `ByteArray` variants
    take no buffer offset; theirs ignore it. -/
structure Stream (σ : Type) where
  read : Primitive σ
  readBa : Primitive σ
  write : Primitive σ
  writeBa : Primitive σ

/-- `Stream::readFixSize(void*, size_t)` (`stream.cpp:4-16`). -/
def Stream.readFixSize (st : Stream σ) (fuel length : Nat) (s : σ) :
    Option (List Call × Int × σ) := fixSizeLoop st.read length fuel 0 length s

/-- `Stream::readFixSize(ByteArray::ptr, size_t)` (`stream.cpp:18-28`). -/
def Stream.readFixSizeBa (st : Stream σ) (fuel length : Nat) (s : σ) :
    Option (List Call × Int × σ) := fixSizeLoop st.readBa length fuel 0 length s

/-- `Stream::writeFixSize(const void*, size_t)` (`stream.cpp:30-42`). -/
def Stream.writeFixSize (st : Stream σ) (fuel length : Nat) (s : σ) :
    Option (List Call × Int × σ) := fixSizeLoop st.write length fuel 0 length s

/-- `Stream::writeFixSize(ByteArray::ptr, size_t)` (`stream.cpp:44-54`). -/
def Stream.writeFixSizeBa (st : Stream σ) (fuel length : Nat) (s : σ) :
    Option (List Call × Int × σ) := fixSizeLoop st.writeBa length fuel 0 length s

/-! ## The contract -/

/-- What a loop over `length` bytes owes its caller, given the trace of its calls and its
    result: every call stays inside the buffer; the first answer that is not positive ends
    the loop and is its result; otherwise exactly `length` bytes are transferred. -/
structure FixSizeContract (length : Nat) (trace : List Call) (result : Int) : Prop where
  inBounds : ∀ c ∈ trace, c.offset < length ∧ 1 ≤ c.count ∧ c.count ≤ length
  outcome :
    (∃ before last, trace = before ++ [last] ∧ (∀ c ∈ before, 0 < c.answer) ∧
      last.answer ≤ 0 ∧ result = last.answer) ∨
    ((∀ c ∈ trace, 0 < c.answer) ∧ (trace.map Call.answer).sum = length ∧ result = length)

/-- A run of a loop function terminates and keeps the contract. -/
def MeetsContract (loop : Nat → Nat → σ → Option (List Call × Int × σ)) (length : Nat) (s : σ) :
    Prop :=
  ∃ fuel trace result t,
    loop fuel length s = some (trace, result, t) ∧ FixSizeContract length trace result

/-- The schedule of partial transfers the primitive offers from `s`: after `t` bytes it is in
    the state given. -/
inductive Delivers (prim : Primitive σ) (length : Nat) (s : σ) : Nat → σ → Prop
  | start : Delivers prim length s 0 s
  | more {t : Nat} {u : σ} : Delivers prim length s t u → t < length →
      0 < (prim.call u t (length - t)).1 →
      Delivers prim length s (t + (prim.call u t (length - t)).1.toNat)
        (prim.call u t (length - t)).2

/-- The primitive does not fail while bytes are left: it may answer `0`, never `-1`. -/
def NeverFails (prim : Primitive σ) (length : Nat) (s : σ) : Prop :=
  ∀ t u, Delivers prim length s t u → t < length → (prim.call u t (length - t)).1 ≠ -1

/-! ## One turn of the loop -/

theorem fixSizeLoop_done (prim : Primitive σ) (length fuel offset : Nat) (s : σ) :
    fixSizeLoop prim length (fuel + 1) offset 0 s = some ([], intOfSize length, s) := by
  simp [fixSizeLoop]

theorem fixSizeLoop_zero_answer {prim : Primitive σ} {offset left : Nat} {s : σ}
    (length fuel : Nat) (hleft : left ≠ 0) (h : (prim.call s offset left).1 = 0) :
    fixSizeLoop prim length (fuel + 1) offset left s =
      some ([⟨offset, left, 0⟩], 0, (prim.call s offset left).2) := by
  simp [fixSizeLoop, hleft, h, intOfSize]

/-- A positive answer moves both counters by its value. -/
theorem fixSizeLoop_progress {prim : Primitive σ} {length t : Nat} {s : σ} (fuel : Nat)
    (hlen : length < 2 ^ 31) (ht : t < length) (h : 0 < (prim.call s t (length - t)).1) :
    fixSizeLoop prim length (fuel + 1) t (length - t) s =
      (fixSizeLoop prim length fuel (t + (prim.call s t (length - t)).1.toNat)
        (length - (t + (prim.call s t (length - t)).1.toNat)) (prim.call s t (length - t)).2).map
        fun (trace, result, u) =>
          (⟨t, length - t, (prim.call s t (length - t)).1⟩ :: trace, result, u) := by
  have hle := prim.le_count s t (length - t)
  have hsize : sizeOfInt (prim.call s t (length - t)).1 = (prim.call s t (length - t)).1.toNat :=
    sizeOfInt_of_nonneg (by omega) (by unfold sizeMod; omega)
  have hadd : addSize t (prim.call s t (length - t)).1.toNat =
      t + (prim.call s t (length - t)).1.toNat :=
    addSize_of_lt (by unfold sizeMod; omega)
  have hsub : subSize (length - t) (prim.call s t (length - t)).1.toNat =
      length - (t + (prim.call s t (length - t)).1.toNat) := by
    rw [subSize_of_le (by omega) (by unfold sizeMod; omega)]
    omega
  rw [fixSizeLoop, if_neg (by omega)]
  simp only [hsize, hadd, hsub]
  rw [if_neg (by omega)]

/-- The answer `-1` does not end the loop: at least one more call follows it. -/
theorem fixSizeLoop_failure {prim : Primitive σ} {length fuel offset left : Nat} {s : σ}
    {trace : List Call} {result : Int} {u : σ} (hleft : 0 < left) (hlt : left < 2 ^ 31)
    (h : (prim.call s offset left).1 = -1)
    (hrun : fixSizeLoop prim length fuel offset left s = some (trace, result, u)) :
    ∃ next rest, trace = ⟨offset, left, -1⟩ :: next :: rest := by
  cases fuel with
  | zero => simp [fixSizeLoop] at hrun
  | succ fuel =>
    rw [fixSizeLoop, if_neg (by omega)] at hrun
    simp only [h, sizeOfInt_neg_one] at hrun
    rw [if_neg (by decide), subSize_neg_one (by unfold sizeMod; omega)] at hrun
    obtain ⟨⟨trace', result', u'⟩, hrest, heq⟩ := Option.map_eq_some_iff.mp hrun
    simp only [Prod.mk.injEq] at heq
    obtain ⟨rfl, -, -⟩ := heq
    -- `left + 1` bytes are still wanted, so the rest of the run makes a call.
    cases fuel with
    | zero => simp [fixSizeLoop] at hrest
    | succ fuel =>
      rw [fixSizeLoop, if_neg (by omega)] at hrest
      dsimp only at hrest
      split at hrest
      · simp only [Option.some.injEq, Prod.mk.injEq] at hrest
        exact ⟨_, _, by rw [← hrest.1]⟩
      · obtain ⟨⟨trace'', _, _⟩, -, heq⟩ := Option.map_eq_some_iff.mp hrest
        simp only [Prod.mk.injEq] at heq
        exact ⟨_, _, by rw [← heq.1]⟩

/-! ## Whole runs -/

/-- More fuel does not change a finished run. -/
theorem fixSizeLoop_add_fuel {prim : Primitive σ} {length fuel offset left : Nat} {s : σ}
    {x : List Call × Int × σ} (h : fixSizeLoop prim length fuel offset left s = some x) (k : Nat) :
    fixSizeLoop prim length (fuel + k) offset left s = some x := by
  induction fuel generalizing offset left s x with
  | zero => cases h
  | succ fuel ih =>
    rw [Nat.add_right_comm, fixSizeLoop]
    rw [fixSizeLoop] at h
    split at h
    · rename_i hleft
      rw [if_pos hleft, h]
    · rename_i hleft
      rw [if_neg hleft]
      dsimp only at h ⊢
      split at h
      · rename_i hlen
        rw [if_pos hlen, h]
      · rename_i hlen
        obtain ⟨y, hy, rfl⟩ := Option.map_eq_some_iff.mp h
        rw [if_neg hlen, ih hy]
        rfl

/-- As long as the primitive delivers, a finished run is a run from the delivered state
    behind calls that all made progress. -/
theorem fixSizeLoop_of_delivers {prim : Primitive σ} {length fuel : Nat} {s : σ}
    {trace : List Call} {result : Int} {v : σ} (hlen : length < 2 ^ 31)
    (hrun : fixSizeLoop prim length fuel 0 length s = some (trace, result, v)) {t : Nat} {u : σ}
    (hd : Delivers prim length s t u) :
    ∃ fuel' before after, trace = before ++ after ∧ (∀ c ∈ before, 0 < c.answer) ∧
      fixSizeLoop prim length fuel' t (length - t) u = some (after, result, v) := by
  induction hd with
  | start => exact ⟨fuel, [], trace, rfl, by simp, hrun⟩
  | @more t u _ ht hpos ih =>
    obtain ⟨fuel', before, after, rfl, hbefore, hafter⟩ := ih
    cases fuel' with
    | zero => simp [fixSizeLoop] at hafter
    | succ fuel' =>
      rw [fixSizeLoop_progress fuel' hlen ht hpos] at hafter
      obtain ⟨⟨trace', result', u'⟩, hrest, heq⟩ := Option.map_eq_some_iff.mp hafter
      simp only [Prod.mk.injEq] at heq
      obtain ⟨rfl, rfl, rfl⟩ := heq
      refine ⟨fuel', before ++ [⟨t, length - t, (prim.call u t (length - t)).1⟩], trace',
        by simp, ?_, hrest⟩
      intro c hc
      rcases List.mem_append.mp hc with hc | hc
      · exact hbefore c hc
      · rw [List.mem_singleton.mp hc]; exact hpos

/-- A `-1` answered while bytes are left breaks the contract of every run. -/
theorem neverFails_of_meets {prim : Primitive σ} {length : Nat} {s : σ} (hlen : length < 2 ^ 31)
    (hmeets : MeetsContract (fun fuel length => fixSizeLoop prim length fuel 0 length) length s) :
    NeverFails prim length s := by
  obtain ⟨fuel, trace, result, v, hrun, hc⟩ := hmeets
  intro t u hd ht hfail
  obtain ⟨fuel', before, after, rfl, -, hafter⟩ := fixSizeLoop_of_delivers hlen hrun hd
  obtain ⟨next, rest, rfl⟩ := fixSizeLoop_failure (by omega) (by omega) hfail hafter
  rcases hc.outcome with ⟨init, last, heq, hinit, -, -⟩ | ⟨hall, -, -⟩
  · -- The failing call is not the last one, so it would have to have made progress.
    have hmem : (⟨t, length - t, -1⟩ : Call) ∈ init := by
      have hdrop := congrArg List.dropLast heq
      rw [List.dropLast_concat, List.dropLast_append_of_ne_nil (by simp),
        List.dropLast_cons_cons] at hdrop
      rw [← hdrop]
      simp
    exact absurd (hinit _ hmem) (by simp)
  · exact absurd (hall ⟨t, length - t, -1⟩ (by simp)) (by simp)

/-- The run from `t` delivered bytes, when the primitive never fails. -/
theorem fixSizeLoop_meets {prim : Primitive σ} {length : Nat} {s : σ} (hlen : length < 2 ^ 31)
    (hok : NeverFails prim length s) (n : Nat) :
    ∀ t u, Delivers prim length s t u → length - t ≤ n → t ≤ length →
      ∃ trace result v, fixSizeLoop prim length (n + 1) t (length - t) u = some (trace, result, v) ∧
        (∀ c ∈ trace, c.offset < length ∧ 1 ≤ c.count ∧ c.count ≤ length) ∧
        ((∃ before last, trace = before ++ [last] ∧ (∀ c ∈ before, 0 < c.answer) ∧
            last.answer ≤ 0 ∧ result = last.answer) ∨
          ((∀ c ∈ trace, 0 < c.answer) ∧ (trace.map Call.answer).sum = (length - t : Nat) ∧
            result = length)) := by
  induction n with
  | zero =>
    intro t u _ hn _
    have h0 : length - t = 0 := by omega
    rw [h0, fixSizeLoop_done]
    exact ⟨[], _, u, rfl, by simp, Or.inr ⟨by simp, by simp, intOfSize_of_lt hlen⟩⟩
  | succ n ih =>
    intro t u hd hn hle
    by_cases ht : t < length
    · have hge := prim.neg_one_le u t (length - t)
      have hcount := prim.le_count u t (length - t)
      have hne := hok t u hd ht
      rcases Int.lt_or_le 0 (prim.call u t (length - t)).1 with hpos | hnonpos
      · obtain ⟨trace, result, v, hrun, hb, hout⟩ :=
          ih _ _ (hd.more ht hpos) (by omega) (by omega)
        refine ⟨⟨t, length - t, (prim.call u t (length - t)).1⟩ :: trace, result, v, ?_, ?_, ?_⟩
        · rw [fixSizeLoop_progress (n + 1) hlen ht hpos, hrun]
          rfl
        · intro c hc
          rcases List.mem_cons.mp hc with rfl | hc
          · exact ⟨ht, by simp only; omega, by simp only; omega⟩
          · exact hb c hc
        · rcases hout with ⟨before, last, rfl, hbefore, hlast, hres⟩ | ⟨hall, hsum, hres⟩
          · refine Or.inl ⟨_ :: before, last, rfl, ?_, hlast, hres⟩
            intro c hc
            rcases List.mem_cons.mp hc with rfl | hc
            · exact hpos
            · exact hbefore c hc
          · refine Or.inr ⟨?_, ?_, hres⟩
            · intro c hc
              rcases List.mem_cons.mp hc with rfl | hc
              · exact hpos
              · exact hall c hc
            · simp only [List.map_cons, List.sum_cons, hsum]
              omega
      · have h0 : (prim.call u t (length - t)).1 = 0 := by omega
        refine ⟨_, _, _, fixSizeLoop_zero_answer length (n + 1) (by omega) h0, ?_,
          Or.inl ⟨[], ⟨t, length - t, 0⟩, rfl, by simp, by simp, rfl⟩⟩
        intro c hc
        rw [List.mem_singleton.mp hc]
        exact ⟨ht, by simp only; omega, by simp only; omega⟩
    · have h0 : length - t = 0 := by omega
      rw [h0, fixSizeLoop_done]
      exact ⟨[], _, u, rfl, by simp, Or.inr ⟨by simp, by simp, intOfSize_of_lt hlen⟩⟩

/-- The shared loop keeps its contract exactly when the primitive never answers `-1` while
    bytes are left. -/
theorem fixSizeLoop_meets_iff (prim : Primitive σ) {length : Nat} (hlen : length < 2 ^ 31)
    (s : σ) :
    MeetsContract (fun fuel length => fixSizeLoop prim length fuel 0 length) length s ↔
      NeverFails prim length s := by
  refine ⟨neverFails_of_meets hlen, fun hok => ?_⟩
  obtain ⟨trace, result, v, hrun, hb, hout⟩ :=
    fixSizeLoop_meets hlen hok length 0 s .start (by omega) (by omega)
  exact ⟨length + 1, trace, result, v, hrun, hb, hout⟩

/-- Each of the four functions, on every stream, every `length` below `2 ^ 31` and every
    state, keeps its contract iff its primitive never answers `-1` while bytes are left. -/
theorem fixSize_meets_iff (st : Stream σ) {length : Nat} (hlen : length < 2 ^ 31) (s : σ) :
    (MeetsContract st.readFixSize length s ↔ NeverFails st.read length s) ∧
    (MeetsContract st.readFixSizeBa length s ↔ NeverFails st.readBa length s) ∧
    (MeetsContract st.writeFixSize length s ↔ NeverFails st.write length s) ∧
    (MeetsContract st.writeFixSizeBa length s ↔ NeverFails st.writeBa length s) :=
  ⟨fixSizeLoop_meets_iff st.read hlen s, fixSizeLoop_meets_iff st.readBa hlen s,
    fixSizeLoop_meets_iff st.write hlen s, fixSizeLoop_meets_iff st.writeBa hlen s⟩

/-- A primitive that transfers one byte a call. -/
def dripPrimitive : Primitive Unit where
  call _ _ count := (min 1 count, ())
  neg_one_le _ _ count := by simp only; omega
  le_count _ _ count := by simp only; omega
  lt_int _ _ count := by simp only; omega

def dripStream : Stream Unit := ⟨dripPrimitive, dripPrimitive, dripPrimitive, dripPrimitive⟩

theorem fixSize_drip : MeetsContract dripStream.readFixSize 3 () := by
  refine (fixSize_meets_iff dripStream (by decide) ()).1.mpr fun t u _ _ hfail => ?_
  simp only [dripStream, dripPrimitive] at hfail
  omega

/-! ## A closed socket -/

/-- The primitives of a `SocketStream` whose socket is not connected answer `-1` to every
    call (`stream.cpp:73-103`). -/
def closedPrimitive : Primitive Unit where
  call _ _ _ := (-1, ())
  neg_one_le _ _ _ := by simp
  le_count _ _ _ := by simp
  lt_int _ _ _ := by simp

/-- `SocketStream` over a socket that is not connected. -/
def closedSocketStream : Stream Unit :=
  ⟨closedPrimitive, closedPrimitive, closedPrimitive, closedPrimitive⟩

/-- Asked for four bytes, the loops do not stop at the first `-1` of a closed socket. -/
theorem fixSize_closed_socket :
    ¬ ∀ length < 2 ^ 31, MeetsContract closedSocketStream.readFixSize length () ∧
      MeetsContract closedSocketStream.readFixSizeBa length () ∧
      MeetsContract closedSocketStream.writeFixSize length () ∧
      MeetsContract closedSocketStream.writeFixSizeBa length () := by
  intro h
  exact neverFails_of_meets (by decide) (h 4 (by decide)).1 0 () .start (by decide) rfl

end CppServerFramework
