import CppServerFramework.HTTP.ResponseSpans

/-!
# Parsing a head in several calls

A call clears the positions, so that what it stores counts from where its part of the head begins.
A callback whose span lies inside of the part is called as if the head had come at once, and any
other callback is not.
-/

namespace CppServerFramework.HTTP
open CInt ResponseAction

namespace ResponseParser

variable {head mem : Bytes} {c len q : Nat} {r : Positions} {s u s₁ u₁ : ResponseParser}
  {a : ResponseAction}

/-- The call of a callback that an action makes. -/
def callOf (mem : Bytes) (len p : Nat) (s : ResponseParser) : ResponseAction → Option ResponseCall
  | .httpVersion => some (.version (textAt mem s.mark (subSize p s.mark)))
  | .statusCode => some (.status (textAt mem s.mark (subSize p s.mark)))
  | .reasonPhrase => some (.reason (textAt mem s.mark (subSize p s.mark)))
  | .writeValue => some (.httpField (textAt mem s.fieldStart s.fieldLen)
      (textAt mem s.mark (subSize p s.mark)) (s.fieldStart + s.fieldLen ≤ len))
  | _ => none

theorem calls_act {p : Nat} (h : s.act mem len p a = .ok s₁) :
    s₁.calls = s.calls ++ (s.callOf mem len p a).toList := by
  cases a with
  | mark | startValue | startField | writeField | writeContentLen | writeConnectionClose
  | chunkSize | transChunked | done =>
    cases h
    exact (List.append_nil _).symm
  | statusCode =>
    cases h
    rfl
  | httpVersion =>
    cases h
    simp only [onResponseVersion]
    split
    · rfl
    · split <;> rfl
  | writeValue =>
    simp only [act, onResponseHttpField, bind, Except.bind, pure, Except.pure] at h
    split at h
    · cases h
      rfl
    · split at h
      · cases h
      · split at h <;> cases h
        rfl
  | reasonPhrase =>
    simp only [act, onResponseReason, bind, Except.bind, pure, Except.pure] at h
    split at h <;> cases h
    rfl

/-- The first `len` bytes of a buffer are those of the head from position `c` on, as far as it
    goes. -/
structure Window (head : Bytes) (c : Nat) (mem : Bytes) (len : Nat) : Prop where
  bytes : ∀ i < len, c + i < head.length → mem[i]? = head[c + i]?
  lt : len < mem.length
  memory : mem.length < 2 ^ 63
  head : head.length < 2 ^ 63

theorem Window.textAt (h : Window head c mem len) {at' n : Nat} (hc : c ≤ at')
    (hlen : at' + n ≤ c + len) (hhead : at' + n ≤ head.length) :
    textAt mem (at' - c) n = textAt head at' n := by
  refine List.ext_getElem? fun i => ?_
  rw [ResponseParser.textAt, ResponseParser.textAt, List.getElem?_take, List.getElem?_take]
  split
  · rename_i hi
    have hget := h.bytes (at' - c + i) (by omega) (by omega)
    rw [List.getElem?_drop, List.getElem?_drop, hget]
    congr 1
    omega
  · rfl

theorem length_textAt {at' n : Nat} (h : at' + n ≤ mem.length) : (textAt mem at' n).length = n := by
  rw [textAt, List.length_take, List.length_drop]
  omega

/-- A parser `s` behind the head up to some position, and a parser `u` that has been cleared at
    position `c` on the way, and has been called with the same texts so far. -/
structure CutAt (c len : Nat) (r : Positions) (s u : ResponseParser) : Prop where
  whole : s.mark = r.mark ∧ s.fieldStart = r.fieldStart ∧ s.fieldLen = r.fieldLen
  mark : u.mark = r.mark - c
  fieldStart : u.fieldStart = r.fieldStart - c
  fieldLen : c ≤ r.lenStart → u.fieldLen = r.fieldLen
  shorter : r.lenStart < c → 0 < r.fieldLen → u.fieldLen < r.fieldLen
  bounds : u.fieldLen ≤ len ∧ u.bodyStart ≤ len
  data : u.data = s.data
  error : u.error = s.error
  calls : u.calls = s.calls
  chunked : u.chunked = s.chunked

theorem subSize_cut {m : Nat} (hm : m ≤ c + q) (hhead : c + q < 2 ^ 63) :
    subSize (c + q) m = c + q - m ∧ subSize q (m - c) = q - (m - c) :=
  ⟨subSize_of_le hm (by unfold sizeMod; omega), subSize_of_le (by omega) (by unfold sizeMod; omega)⟩

/-- The span lies inside of the part. -/
def Inside (c len : Nat) (sp : Nat × Nat) : Prop := c ≤ sp.1 ∧ sp.2 ≤ c + len

theorem stringAt_eq {at' n : Nat} (h : at' + n ≤ mem.length) (hmem : mem.length < 2 ^ 63) :
    stringAt mem at' n = .ok (textAt mem at' n) := by
  rw [stringAt, if_neg (by omega), if_neg (by omega), textAt]

theorem le_of_stringAt {at' n : Nat} {v : Bytes} (h : stringAt mem at' n = .ok v) :
    at' + n ≤ mem.length := by
  rw [stringAt] at h
  split at h
  · cases h
  · split at h
    · cases h
    · omega

theorem eq_of_stringAt {at' n : Nat} {v : Bytes} (h : stringAt mem at' n = .ok v)
    (hmem : mem.length < 2 ^ 63) : v = textAt mem at' n := by
  rw [stringAt_eq (le_of_stringAt h) hmem] at h
  exact (Except.ok.inj h).symm

theorem strncmpEq_congr {mem' : Bytes} {at' at₂ n : Nat}
    (h : textAt mem at' n = textAt mem' at₂ n) (lit : Bytes) :
    strncmpEq mem at' lit n = strncmpEq mem' at₂ lit n := by
  have htake : ∀ (m : Bytes) (i : Nat), (m.drop i).take (min n (lit.length + 1)) =
      (textAt m i n).take (lit.length + 1) := by
    intro m i
    rw [textAt, List.take_take, Nat.min_comm]
  rw [strncmpEq, strncmpEq, htake, htake, h]

theorem takeWhile_stop {α : Type} {f : α → Bool} {b : α} (hb : f b = false) (w x : List α) :
    (w ++ b :: x).takeWhile f = w.takeWhile f := by
  induction w with
  | nil => simp [hb]
  | cons d w ih =>
    rw [List.cons_append, List.takeWhile_cons, List.takeWhile_cons, ih]

/-- A number that begins with a digit ends at a space. -/
theorem atoi_stop {d : UInt8} (hd : 48 ≤ d ∧ d ≤ 57) (w x : Bytes) :
    atoi (d :: w ++ 32 :: x) = atoi (d :: w) := by
  have hstop := takeWhile_stop (f := fun b => decide (digitOf b < 10)) (b := 32) (by decide)
    (d :: w) x
  rw [atoi_cons hd, ← hstop]
  exact atoi_cons hd _

theorem drop_eq_textAt {at' n : Nat} {b : UInt8} (h : mem[at' + n]? = some b) :
    mem.drop at' = textAt mem at' n ++ b :: mem.drop (at' + n + 1) := by
  obtain ⟨hlt, hget⟩ := List.getElem?_eq_some_iff.mp h
  rw [textAt, ← hget, List.getElem_cons_drop, ← List.drop_drop, List.take_append_drop]

/-- The part of a parser that an action has changed the same way on both sides. -/
theorem CutAt.record (h : CutAt c len r s u) (call : ResponseCall) :
    CutAt c len r (s.record call) (u.record call) :=
  ⟨h.whole, h.mark, h.fieldStart, h.fieldLen, h.shorter, h.bounds, h.data, h.error,
    congrArg (· ++ [call]) h.calls, h.chunked⟩

theorem CutAt.onResponseVersion {mem' : Bytes} {at' at₂ n : Nat} (h : CutAt c len r s u)
    (htext : textAt mem at' n = textAt mem' at₂ n) :
    CutAt c len r (s.onResponseVersion mem' at₂ n) (u.onResponseVersion mem at' n) := by
  rw [ResponseParser.onResponseVersion, ResponseParser.onResponseVersion, strncmpEq_congr htext,
    strncmpEq_congr htext, h.data]
  split
  · exact ⟨h.whole, h.mark, h.fieldStart, h.fieldLen, h.shorter, h.bounds, rfl, h.error, h.calls,
      h.chunked⟩
  · split
    · exact ⟨h.whole, h.mark, h.fieldStart, h.fieldLen, h.shorter, h.bounds, rfl, h.error, h.calls,
        h.chunked⟩
    · exact ⟨h.whole, h.mark, h.fieldStart, h.fieldLen, h.shorter, h.bounds, rfl, rfl, h.calls,
        h.chunked⟩

theorem CutAt.withData (h : CutAt c len r s u) (data : HttpResponse) :
    CutAt c len r { s with data := data } { u with data := data } :=
  ⟨h.whole, h.mark, h.fieldStart, h.fieldLen, h.shorter, h.bounds, rfl, h.error, h.calls,
    h.chunked⟩

/-- The text that a token callback is given, when the token begins in the part. -/
theorem CutAt.text (h : CutAt c len r s u) (hw : Window head c mem len) (hq : q < len)
    (hs : r.SoundAt head (c + q, a)) (hin : c ≤ r.mark) :
    textAt mem u.mark (subSize q u.mark) = textAt head s.mark (subSize (c + q) s.mark) ∧
      subSize q u.mark = subSize (c + q) s.mark := by
  have hlt := hs.lt
  have hm := hs.mark
  have hhead := hw.head
  simp only at hlt hm
  obtain ⟨hwhole, hcut⟩ := subSize_cut hm (by omega)
  rw [h.whole.1, h.mark, hwhole, hcut, show q - (r.mark - c) = c + q - r.mark by omega]
  exact ⟨hw.textAt hin (by omega) (by omega), rfl⟩

/-- The number that the status callback reads, when it begins in the part. -/
theorem CutAt.atoi (h : CutAt c len r s u) (hw : Window head c mem len) (hq : q < len)
    (hs : r.SoundAt head (c + q, .statusCode)) (hin : c ≤ r.mark) :
    atoi (mem.drop u.mark) = atoi (head.drop s.mark) := by
  obtain ⟨h32, hlt, d, hd, hdigit⟩ := hs.status rfl
  have hlen := hs.lt
  have hhead := hw.head
  simp only at h32 hlt hlen
  obtain ⟨htext, -⟩ := h.text hw hq hs hin
  obtain ⟨hwhole, hcut⟩ := subSize_cut hlt.le (by omega)
  rw [h.whole.1, h.mark, hwhole, hcut] at htext
  have hq32 : mem[u.mark + (q - u.mark)]? = some 32 := by
    rw [h.mark, show r.mark - c + (q - (r.mark - c)) = q by omega, hw.bytes q hq hlen]
    exact h32
  have hp32 : head[s.mark + (c + q - s.mark)]? = some 32 := by
    rw [h.whole.1, show r.mark + (c + q - r.mark) = c + q by omega]
    exact h32
  obtain ⟨w, hw'⟩ : ∃ w, textAt head r.mark (c + q - r.mark) = d :: w := by
    obtain ⟨hlt', hget⟩ := List.getElem?_eq_some_iff.mp hd
    obtain ⟨k, hk⟩ := Nat.exists_eq_succ_of_ne_zero (by omega : c + q - r.mark ≠ 0)
    rw [textAt, ← List.getElem_cons_drop hlt', hget, hk]
    exact ⟨_, rfl⟩
  rw [drop_eq_textAt hq32, drop_eq_textAt hp32, h.whole.1, h.mark, htext, hw']
  rw [atoi_stop hdigit, atoi_stop hdigit]

/-- An action whose span, if it has one, lies inside of the part. -/
theorem act_cut (hw : Window head c mem len) (hq : q < len) (h : CutAt c len r s u)
    (hs : r.SoundAt head (c + q, a)) (hact : s.act head head.length (c + q) a = .ok s₁)
    (hin : ∀ sp, r.span (c + q, a) = some sp → Inside c len sp) :
    ∃ u₁, u.act mem len q a = .ok u₁ ∧ CutAt c len (r.after (c + q, a)) s₁ u₁ := by
  have hlt := hs.lt
  have hm := hs.mark
  have hf := hs.fieldStart
  have hlf := hs.lenStart
  have hhead := hw.head
  have hmem := hw.lt
  simp only at hlt hm hf
  cases a with
  | mark | startValue =>
    cases hact
    exact ⟨_, rfl, ⟨rfl, h.whole.2⟩, by simp [Positions.after], h.fieldStart, h.fieldLen, h.shorter,
      h.bounds, h.data, h.error, h.calls, h.chunked⟩
  | startField =>
    cases hact
    exact ⟨_, rfl, ⟨h.whole.1, rfl, h.whole.2.2⟩, h.mark, by simp [Positions.after], h.fieldLen,
      h.shorter, h.bounds, h.data, h.error, h.calls, h.chunked⟩
  | writeField =>
    cases hact
    obtain ⟨hwhole, hcut⟩ := subSize_cut hf (by omega)
    refine ⟨_, rfl, ⟨h.whole.1, h.whole.2.1, ?_⟩, h.mark, h.fieldStart, ?_, ?_, ⟨?_, h.bounds.2⟩,
      h.data, h.error, h.calls, h.chunked⟩
    · simp only [Positions.after, h.whole.2.1, hwhole]
    · simp only [Positions.after, h.fieldStart, hcut]
      omega
    · simp only [Positions.after, h.fieldStart, hcut]
      omega
    · simp only [h.fieldStart, hcut]
      omega
  | writeContentLen | writeConnectionClose =>
    cases hact
    exact ⟨_, rfl, h.whole, h.mark, h.fieldStart, h.fieldLen, h.shorter, h.bounds, h.data, h.error,
      h.calls, h.chunked⟩
  | chunkSize | transChunked =>
    cases hact
    exact ⟨_, rfl, h.whole, h.mark, h.fieldStart, h.fieldLen, h.shorter, h.bounds, h.data, h.error,
      h.calls, rfl⟩
  | done =>
    cases hact
    exact ⟨_, rfl, h.whole, h.mark, h.fieldStart, h.fieldLen, h.shorter, ⟨h.bounds.1, hq⟩, h.data,
      h.error, h.calls, h.chunked⟩
  | httpVersion =>
    cases hact
    obtain ⟨htext, hsub⟩ := h.text hw hq hs (hin _ rfl).1
    refine ⟨_, rfl, ?_⟩
    rw [htext, hsub]
    rw [hsub] at htext
    exact (h.record _).onResponseVersion htext
  | statusCode =>
    cases hact
    obtain ⟨htext, hsub⟩ := h.text hw hq hs (hin _ rfl).1
    have hstatus := h.atoi hw hq hs (hin _ rfl).1
    refine ⟨_, rfl, ?_⟩
    simp only [onResponseStatus, ResponseParser.record, htext, hstatus, h.data]
    exact (h.record _).withData _
  | reasonPhrase =>
    obtain ⟨htext, hsub⟩ := h.text hw hq hs (hin _ rfl).1
    obtain ⟨-, hcut⟩ := subSize_cut hm (by omega)
    have hread : stringAt mem u.mark (subSize q u.mark) =
        .ok (textAt mem u.mark (subSize q u.mark)) := by
      refine stringAt_eq ?_ hw.memory
      rw [h.mark, hcut]
      omega
    simp only [act, onResponseReason, bind, Except.bind, pure, Except.pure] at hact ⊢
    rw [hread]
    split at hact
    · cases hact
    · rename_i v hv
      cases hact
      obtain rfl := eq_of_stringAt hv hw.head
      refine ⟨_, rfl, ?_⟩
      simp only [ResponseParser.record, htext, h.data]
      exact (h.record _).withData _
  | writeValue =>
    have hinside := hin _ rfl
    simp only [Inside] at hinside
    obtain ⟨htext, hsub⟩ := h.text hw hq hs (by omega)
    have hlen := h.fieldLen (by omega)
    have hpos := hs.field rfl
    obtain ⟨hwhole, hcut⟩ := subSize_cut hm (by omega)
    have hsflen : s.fieldLen ≠ 0 := by
      rw [h.whole.2.2]
      omega
    have huflen : u.fieldLen ≠ 0 := by omega
    simp only [act, onResponseHttpField, ResponseParser.record, if_neg hsflen, if_neg huflen, bind,
      Except.bind, pure, Except.pure] at hact ⊢
    split at hact
    · cases hact
    · rename_i key hkey
      have hbound := le_of_stringAt hkey
      rw [h.whole.2.1, h.whole.2.2] at hbound
      have hfield : textAt mem u.fieldStart u.fieldLen = textAt head s.fieldStart s.fieldLen := by
        rw [h.fieldStart, hlen, h.whole.2.1, h.whole.2.2]
        exact hw.textAt (by omega) (by omega) hbound
      obtain rfl := eq_of_stringAt hkey hw.head
      split at hact
      · cases hact
      · rename_i val hval
        cases hact
        obtain rfl := eq_of_stringAt hval hw.head
        have hreadKey : stringAt mem u.fieldStart u.fieldLen =
            .ok (textAt mem u.fieldStart u.fieldLen) :=
          stringAt_eq (by rw [h.fieldStart, hlen]; omega) hw.memory
        have hreadVal : stringAt mem u.mark (subSize q u.mark) =
            .ok (textAt mem u.mark (subSize q u.mark)) :=
          stringAt_eq (by rw [h.mark, hcut]; omega) hw.memory
        have hflag : decide (u.fieldStart + u.fieldLen ≤ len) =
            decide (s.fieldStart + s.fieldLen ≤ head.length) := by
          rw [h.fieldStart, hlen, h.whole.2.1, h.whole.2.2, decide_eq_decide]
          omega
        rw [hreadKey, hreadVal]
        refine ⟨_, rfl, ?_⟩
        simp only [htext, hfield, hflag, h.data]
        exact (h.record _).withData _

/-- A text up to the present byte that has its length begins in the part. -/
theorem CutAt.inside_of_text (h : CutAt c len r s u) (hw : Window head c mem len) (hq : q < len)
    (hs : r.SoundAt head (c + q, a))
    (htext : textAt mem u.mark (subSize q u.mark) = textAt head s.mark (subSize (c + q) s.mark)) :
    c ≤ r.mark := by
  have hlt := hs.lt
  have hm := hs.mark
  have hhead := hw.head
  have hmem := hw.lt
  simp only at hlt hm
  obtain ⟨hwhole, hcut⟩ := subSize_cut hm (by omega)
  have hlength := congrArg List.length htext
  rw [h.whole.1, h.mark, hwhole, hcut, length_textAt (by omega),
    length_textAt (by omega)] at hlength
  omega

/-- An action that calls its callback as if the head had come at once. -/
theorem inside_of_act (hw : Window head c mem len) (hq : q < len) (h : CutAt c len r s u)
    (hs : r.SoundAt head (c + q, a)) (hact : s.act head head.length (c + q) a = .ok s₁)
    (hcut : u.act mem len q a = .ok u₁) (hcalls : u₁.calls = s₁.calls) :
    ∀ sp, r.span (c + q, a) = some sp → Inside c len sp := by
  have hcall : u.callOf mem len q a = s.callOf head head.length (c + q) a := by
    rw [calls_act hact, calls_act hcut, h.calls, List.append_cancel_left_eq] at hcalls
    simpa only [Option.head?_toList] using congrArg List.head? hcalls
  intro sp hsp
  have hlf := hs.lenStart
  cases a with
  | mark | startValue | startField | writeField | writeContentLen | writeConnectionClose
  | chunkSize | transChunked | done =>
    cases hsp
  | httpVersion | statusCode | reasonPhrase =>
    cases hsp
    simp only [callOf, Option.some.injEq, ResponseCall.version.injEq, ResponseCall.status.injEq,
      ResponseCall.reason.injEq] at hcall
    exact ⟨h.inside_of_text hw hq hs hcall, by simp only; omega⟩
  | writeValue =>
    cases hsp
    simp only [callOf, Option.some.injEq, ResponseCall.httpField.injEq, decide_eq_decide] at hcall
    obtain ⟨hfield, hvalue, hflag⟩ := hcall
    have hmark := h.inside_of_text hw hq hs hvalue
    have hpos := hs.field rfl
    have hbound : r.fieldStart + r.fieldLen ≤ head.length := by
      have hsflen : s.fieldLen ≠ 0 := by
        rw [h.whole.2.2]
        omega
      simp only [act, onResponseHttpField, ResponseParser.record, if_neg hsflen, bind,
        Except.bind] at hact
      split at hact
      · cases hact
      · rename_i key hkey
        have := le_of_stringAt hkey
        rwa [h.whole.2.1, h.whole.2.2] at this
    rw [h.whole.2.1, h.whole.2.2] at hfield hflag
    have hle : u.fieldStart + u.fieldLen ≤ len := hflag.mpr hbound
    have hlen : c ≤ r.lenStart := by
      by_contra hlt
      have hshort := h.shorter (by omega) hpos
      have hlength := congrArg List.length hfield
      rw [length_textAt hbound, length_textAt (by have := hw.lt; omega)] at hlength
      omega
    rw [h.fieldStart, h.fieldLen hlen] at hle
    simp only [Inside]
    omega

/-! ## The actions of a part -/

theorem calls_acts {es : List (Nat × ResponseAction)} (h : s.acts mem len es = .ok s₁) :
    s.calls <+: s₁.calls := by
  induction es generalizing s with
  | nil =>
    cases h
    exact List.prefix_rfl
  | cons e es ih =>
    simp only [acts, List.foldlM_cons, bind, Except.bind] at h
    split at h
    · cases h
    · rename_i t ht
      refine List.IsPrefix.trans ?_ (ih h)
      rw [calls_act ht]
      exact List.prefix_append _ _

/-- A part whose spans all lie inside of it. -/
theorem acts_cut {es : List (Nat × ResponseAction)} (hw : Window head c mem len)
    (hes : ∀ e ∈ es, e.1 < len) (h : CutAt c len r s u)
    (hs : r.Sound head (es.map fun e => (c + e.1, e.2)))
    (hacts : s.acts head head.length (es.map fun e => (c + e.1, e.2)) = .ok s₁)
    (hin : ∀ sp ∈ r.spans (es.map fun e => (c + e.1, e.2)), Inside c len sp) :
    ∃ u₁, u.acts mem len es = .ok u₁ ∧
      CutAt c len (r.afterAll (es.map fun e => (c + e.1, e.2))) s₁ u₁ := by
  induction es generalizing r s u with
  | nil =>
    cases hacts
    exact ⟨u, rfl, h⟩
  | cons e es ih =>
    rw [List.forall_mem_cons] at hes
    simp only [acts, List.map_cons, List.foldlM_cons, bind, Except.bind] at hacts
    split at hacts
    · cases hacts
    · rename_i s₂ hs₂
      obtain ⟨u₂, hu₂, h₂⟩ := act_cut hw hes.1 h hs.1 hs₂ fun sp hsp =>
        hin sp (List.mem_append_left _ (Option.mem_toList.mpr hsp))
      obtain ⟨u₁, hu₁, h₁⟩ := ih hes.2 h₂ hs.2 hacts fun sp hsp =>
        hin sp (List.mem_append_right _ hsp)
      refine ⟨u₁, ?_, h₁⟩
      rw [acts, List.foldlM_cons, hu₂]
      exact hu₁

/-- A part that calls the callbacks as if the head had come at once: its calls and those of the
    head begin the same list. -/
theorem inside_of_acts {es : List (Nat × ResponseAction)} {calls : List ResponseCall}
    (hw : Window head c mem len) (hes : ∀ e ∈ es, e.1 < len) (h : CutAt c len r s u)
    (hs : r.Sound head (es.map fun e => (c + e.1, e.2)))
    (hacts : s.acts head head.length (es.map fun e => (c + e.1, e.2)) = .ok s₁)
    (hcut : u.acts mem len es = .ok u₁) (hwhole : s₁.calls <+: calls)
    (hcalls : u₁.calls <+: calls) :
    ∀ sp ∈ r.spans (es.map fun e => (c + e.1, e.2)), Inside c len sp := by
  induction es generalizing r s u with
  | nil =>
    intro sp hsp
    cases hsp
  | cons e es ih =>
    rw [List.forall_mem_cons] at hes
    simp only [acts, List.map_cons, List.foldlM_cons, bind, Except.bind] at hacts hcut
    split at hacts
    · cases hacts
    · rename_i s₂ hs₂
      split at hcut
      · cases hcut
      · rename_i u₂ hu₂
        have hlength : u₂.calls.length = s₂.calls.length := by
          have hcall : (u.callOf mem len e.1 e.2).toList.length =
              (s.callOf head head.length (c + e.1) e.2).toList.length := by
            cases e.2 <;> rfl
          rw [calls_act hu₂, calls_act hs₂, h.calls, List.length_append, List.length_append, hcall]
        have hsame : u₂.calls = s₂.calls :=
          (List.prefix_of_prefix_length_le ((calls_acts hcut).trans hcalls)
            ((calls_acts hacts).trans hwhole) hlength.le).eq_of_length hlength
        have hin := inside_of_act hw hes.1 h hs.1 hs₂ hu₂ hsame
        obtain ⟨u₃, hu₃, h₂⟩ := act_cut hw hes.1 h hs.1 hs₂ hin
        rw [hu₂] at hu₃
        cases hu₃
        intro sp hsp
        rcases List.mem_append.mp hsp with hsp | hsp
        · exact hin sp (Option.mem_toList.mp hsp)
        · exact ih hes.2 h₂ hs.2 hacts hcut sp hsp

/-! ## One call -/

theorem acts_append (mem : Bytes) (len : Nat) (s : ResponseParser)
    (es fs : List (Nat × ResponseAction)) :
    s.acts mem len (es ++ fs) = s.acts mem len es >>= fun t => t.acts mem len fs :=
  List.foldlM_append

/-- Everything that is stored in front of a position lies in front of it. -/
theorem afterAll_lt {d : Nat} {es : List (Nat × ResponseAction)} (hes : ∀ e ∈ es, e.1 < d)
    (h : r.mark < d ∧ r.fieldStart < d ∧ r.lenStart < d) :
    (r.afterAll es).mark < d ∧ (r.afterAll es).fieldStart < d ∧ (r.afterAll es).lenStart < d := by
  induction es generalizing r with
  | nil => exact h
  | cons e es ih =>
    rw [List.forall_mem_cons] at hes
    refine ih hes.2 ?_
    obtain ⟨p, a⟩ := e
    cases a with
    | mark | startValue => exact ⟨hes.1, h.2⟩
    | startField => exact ⟨h.1, hes.1, h.2.2⟩
    | writeField => exact ⟨h.1, h.2.1, h.2.1⟩
    | writeContentLen | writeConnectionClose | writeValue | reasonPhrase | statusCode | httpVersion
    | chunkSize | transChunked | done => exact h

/-- A parser that has been given the head up to position `c`, in one call or more, and the parser
    `s` that is given it at once; `t` is the latter behind the head. -/
structure Progress (head : Bytes) (c : Nat) (r : Positions) (s v t : ResponseParser) : Prop where
  accepts : httpclientParserScanner.Accepts v.cs (head.drop c)
  state : (httpclientParserScanner.scan v.cs c (head.drop c)).state = 120
  notFinal : v.cs < 120
  sound : r.Sound head (httpclientParserScanner.scan v.cs c (head.drop c)).events
  acts : s.acts head head.length (httpclientParserScanner.scan v.cs c (head.drop c)).events = .ok t
  stored : r.mark ≤ c ∧ r.fieldStart ≤ c ∧ r.lenStart ≤ c
  noName : c ≤ r.lenStart → r.fieldLen = 0
  whole : s.mark = r.mark ∧ s.fieldStart = r.fieldStart ∧ s.fieldLen = r.fieldLen
  bodyStart : v.bodyStart = 0
  data : v.data = s.data
  error : v.error = s.error
  calls : v.calls = s.calls
  chunked : v.chunked = s.chunked

theorem Progress.pos_lt {v t : ResponseParser} (h : Progress head c r s v t) :
    c < head.length := by
  have hpos := Scanner.length_pos_of_accepts h.accepts
  rw [List.length_drop] at hpos
  omega

theorem Progress.cutAt {v t : ResponseParser} (h : Progress head c r s v t) (len : Nat) :
    CutAt c len r s v.clear where
  whole := h.whole
  mark := by
    have := h.stored.1
    simp only [clear]
    omega
  fieldStart := by
    have := h.stored.2.1
    simp only [clear]
    omega
  fieldLen hle := (h.noName hle).symm
  shorter _ hpos := hpos
  bounds := ⟨Nat.zero_le _, by simp only [clear, h.bodyStart]; omega⟩
  data := h.data
  error := h.error
  calls := h.calls
  chunked := h.chunked

/-- The scan of a call that is given the part `seg` of the head, and `x` behind it. -/
structure Part (v : ResponseParser) (mem seg x : Bytes) (st : Nat) : Prop where
  scanned : v.scanned mem (seg.length + x.length) =
    ⟨st, seg.length, (httpclientParserScanner.scan v.cs 0 seg).events⟩
  pos : 0 < seg.length
  null : mem[seg.length + x.length]? = some 0
  size : seg.length + x.length < 2 ^ 31

/-- A call with a part of the head returns the parser behind it if the spans lie inside. -/
theorem execute_part {v t : ResponseParser} {seg x : Bytes} {st : Nat} (h : Progress head c r s v t)
    (hpart : Part v mem seg x st) (hw : Window head c mem (seg.length + x.length))
    (hsound : r.Sound head (httpclientParserScanner.scan v.cs c seg).events)
    (hacts : s.acts head head.length (httpclientParserScanner.scan v.cs c seg).events = .ok s₁)
    (hin : ∀ sp ∈ r.spans (httpclientParserScanner.scan v.cs c seg).events,
      Inside c (seg.length + x.length) sp) :
    ∃ u, v.execute mem (seg.length + x.length) false =
        .ok ({ u with cs := st, nread := seg.length },
          (mem.take (seg.length + x.length)).drop seg.length ++
            mem.drop (seg.length + x.length - seg.length), seg.length) ∧
      CutAt c (seg.length + x.length)
        (r.afterAll (httpclientParserScanner.scan v.cs c seg).events) s₁ u := by
  have hevents : ∀ e ∈ (httpclientParserScanner.scan v.cs 0 seg).events,
      e.1 < seg.length + x.length := fun e he => by
    have := Scanner.mem_events he
    omega
  have hpos := hpart.pos
  have hstored := h.stored
  have hlt : ∀ e ∈ (httpclientParserScanner.scan v.cs c seg).events,
      e.1 < c + (seg.length + x.length) := fun e he => by
    have := Scanner.mem_events he
    omega
  rw [Scanner.scan_shift] at hsound hacts hin hlt ⊢
  obtain ⟨u, hu, hcut⟩ := acts_cut hw hevents (h.cutAt _) hsound hacts hin
  obtain ⟨hmark, hfield, -⟩ := afterAll_lt hlt
    (r := r) ⟨by omega, by omega, by omega⟩
  refine ⟨u, execute_iff.mpr ⟨u, ?_, ?_, ?_, hpart.null, hpart.size, ?_, rfl⟩, hcut⟩
  · simp only [Bool.false_eq_true, if_false, hpart.scanned]
    exact hu
  · simp only [Bool.false_eq_true, if_false, hpart.scanned]
  · simp only [Bool.false_eq_true, if_false, hpart.scanned]
  · refine ⟨by omega, hcut.bounds.2, ?_, hcut.bounds.1, ?_⟩
    · rw [hcut.mark]
      omega
    · rw [hcut.fieldStart]
      omega

/-- If the call has called the callbacks as if the head had come at once, the spans lie inside. -/
theorem inside_of_execute {v t v' : ResponseParser} {seg x mem' : Bytes} {st n : Nat}
    {calls : List ResponseCall} (h : Progress head c r s v t) (hpart : Part v mem seg x st)
    (hw : Window head c mem (seg.length + x.length))
    (hsound : r.Sound head (httpclientParserScanner.scan v.cs c seg).events)
    (hacts : s.acts head head.length (httpclientParserScanner.scan v.cs c seg).events = .ok s₁)
    (hexec : v.execute mem (seg.length + x.length) false = .ok (v', mem', n))
    (hwhole : s₁.calls <+: calls) (hcalls : v'.calls <+: calls) :
    ∀ sp ∈ r.spans (httpclientParserScanner.scan v.cs c seg).events,
      Inside c (seg.length + x.length) sp := by
  obtain ⟨u, hu⟩ := execute_iff.mp hexec
  simp only [Bool.false_eq_true, if_false] at hu
  have hu' := hu.acts
  rw [hpart.scanned] at hu'
  rw [Scanner.scan_shift] at hsound hacts ⊢
  refine inside_of_acts hw (fun e he => ?_) (h.cutAt _) hsound hacts hu' hwhole ?_
  · have := Scanner.mem_events he
    omega
  · rw [hu.parser] at hcalls
    exact hcalls

end ResponseParser

end CppServerFramework.HTTP
