import CppServerFramework.HTTP.ConnectionProps
import CppServerFramework.Stream.Segments

/-!
# A head that comes in any parts

A part of a head that begins inside of a token changes what the callbacks are given, but only the
callback of the version can refuse it.  Wherever the reads end, the loop of the head goes on to
its end unless they cut the version, and it learns that the response is chunked.
-/

namespace CppServerFramework.HTTP
open CInt Blocks ResponseAction ResponseParser

namespace Positions

/-- A property of every action and of the positions that are stored when it is taken. -/
def Along (P : Positions → Nat × ResponseAction → Prop) :
    Positions → List (Nat × ResponseAction) → Prop
  | _, [] => True
  | r, e :: es => P r e ∧ Along P (r.after e) es

instance decidableAlong (P : Positions → Nat × ResponseAction → Prop) [∀ r e, Decidable (P r e)] :
    (r : Positions) → (es : List (Nat × ResponseAction)) → Decidable (r.Along P es)
  | _, [] => .isTrue trivial
  | r, e :: es =>
    have := decidableAlong P (r.after e) es
    inferInstanceAs (Decidable (_ ∧ _))

variable {P Q : Positions → Nat × ResponseAction → Prop} {r : Positions}
  {es fs : List (Nat × ResponseAction)}

theorem along_append :
    r.Along P (es ++ fs) ↔ r.Along P es ∧ (r.afterAll es).Along P fs := by
  induction es generalizing r with
  | nil => simp [Along, afterAll]
  | cons e es ih => simp only [List.cons_append, Along, ih, afterAll, List.foldl_cons, and_assoc]

theorem along_of_forall (h : ∀ r, ∀ e ∈ es, P r e) : r.Along P es := by
  induction es generalizing r with
  | nil => trivial
  | cons e es ih =>
    constructor
    · exact h r e List.mem_cons_self
    · apply ih
      intro r e he
      exact h r e (List.mem_cons_of_mem _ he)

theorem mem_of_along {e : Nat × ResponseAction} (h : r.Along P es) (he : e ∈ es) :
    ∃ r', P r' e := by
  induction es generalizing r with
  | nil => cases he
  | cons d es ih =>
    rcases List.mem_cons.mp he with rfl | he
    · exact ⟨r, h.1⟩
    · exact ih h.2 he

/-- The name that a value is stored under is the one in front of it. -/
def OwnName (r : Positions) (e : Nat × ResponseAction) : Prop :=
  e.2 = .writeValue → r.lenStart = r.fieldStart

instance (r : Positions) (e : Nat × ResponseAction) : Decidable (OwnName r e) :=
  inferInstanceAs (Decidable (_ → _))

/-- The version is taken at the byte behind `HTTP/1.1`, from the first byte on. -/
def VersionFirst (r : Positions) (e : Nat × ResponseAction) : Prop :=
  e.2 = .httpVersion → e.1 = 8 ∧ r.mark = 0

structure Fits (head : Bytes) (r : Positions) (e : Nat × ResponseAction) : Prop where
  sound : r.SoundAt head e
  own : r.OwnName e
  version : r.VersionFirst e

theorem along_fits {head : Bytes} (hsound : r.Sound head es) (hown : r.Along OwnName es)
    (hversion : r.Along VersionFirst es) : r.Along (Fits head) es := by
  induction es generalizing r with
  | nil => trivial
  | cons e es ih => exact ⟨⟨hsound.1, hown.1, hversion.1⟩, ih hsound.2 hown.2 hversion.2⟩

end Positions

namespace ResponseParser

/-! ## The version -/

/-- A state behind the version. -/
def behindVersion (s : Nat) : Bool := s = 0 || s = 3 || 16 ≤ s

def staysBehind (x : Nat × List ResponseAction) : Bool :=
  behindVersion x.1 && !x.2.contains .httpVersion

theorem rows_behind :
    ResponseRow.rows.all (fun r => !behindVersion r.state ||
      (r.edges.all (fun e => staysBehind (e.target, e.actions)) && staysBehind r.default)) =
        true := by
  decide

theorem next_behind {s : Nat} {b : UInt8} (h : behindVersion s = true) :
    staysBehind (httpclientParserScanner.next s b) = true := by
  rcases next_row s b with ⟨r, hr, rfl, hnext⟩ | hnext
  · have hrow := List.all_eq_true.mp rows_behind r hr
    rw [h, Bool.not_true, Bool.false_or, Bool.and_eq_true, List.all_eq_true] at hrow
    rcases hnext with ⟨e, he, -, hnext⟩ | ⟨-, hnext⟩
    · rw [hnext]
      exact hrow.1 e he
    · rw [hnext]
      exact hrow.2
  · rw [hnext]
    rfl

/-- The version is taken once. -/
theorem not_version {s p : Nat} {bs : Bytes} (h : behindVersion s = true) :
    ∀ e ∈ (httpclientParserScanner.scan s p bs).events, e.2 ≠ .httpVersion := by
  induction bs generalizing s p with
  | nil =>
    intro e he
    cases he
  | cons b bs ih =>
    have hnext := next_behind (b := b) h
    rw [staysBehind, Bool.and_eq_true] at hnext
    have hnow : ∀ e ∈ (httpclientParserScanner.next s b).2.map fun a => (p, a),
        e.2 ≠ .httpVersion := by
      intro e he heq
      obtain ⟨a, ha, rfl⟩ := List.mem_map.mp he
      have hnot := hnext.2
      rw [Bool.not_eq_true', ← Bool.not_eq_true, List.contains_iff_mem] at hnot
      exact hnot (heq ▸ ha)
    intro e he
    rw [Scanner.scan] at he
    split at he
    · exact hnow e he
    · split at he
      · exact hnow e he
      · rcases List.mem_append.mp he with he | he
        · exact hnow e he
        · exact ih hnext.1 e he

/-- The events of a head of version 1.1. -/
theorem version_events {head : Bytes} (h : ascii "HTTP/1.1 " <+: head) :
    Positions.zero.Along Positions.VersionFirst (httpclientParserScanner.scan 1 0 head).events ∧
      ∃ e ∈ (httpclientParserScanner.scan 1 0 head).events, e.2 = .httpVersion := by
  obtain ⟨rest, rfl⟩ := h
  have hpass : httpclientParserScanner.passes 1 (ascii "HTTP/1.1 ") = some 16 := by decide
  have hevents : (httpclientParserScanner.scan 1 0 (ascii "HTTP/1.1 ")).events =
      [(0, .mark), (8, .httpVersion)] := by decide
  rw [Scanner.scan_append hpass, hevents]
  constructor
  · refine ⟨fun h => (by cases h), fun _ => ⟨rfl, rfl⟩, ?_⟩
    apply Positions.along_of_forall
    intro r e he hversion
    exact absurd hversion (not_version (by decide) e he)
  · exact ⟨(8, .httpVersion), by simp, rfl⟩

/-- What is left of the version is taken for it only if all or nothing is left. -/
theorem version_tail : ∀ c ≤ 8,
    strncmpEq (ascii "HTTP/1.1 ") c (ascii "HTTP/1.1") (8 - c) = decide (c = 0 ∨ c = 8) ∧
      (c ≠ 0 → c ≠ 8 → strncmpEq (ascii "HTTP/1.1 ") c (ascii "HTTP/1.0") (8 - c) = false) := by
  decide

variable {head mem : Bytes} {c len q : Nat} {r : Positions} {u u₁ : ResponseParser}
  {a : ResponseAction}

theorem error_onResponseVersion (hhead : ascii "HTTP/1.1 " <+: head) (hw : Window head c mem len)
    (hq : q < len) (hc : c + q = 8) (u : ResponseParser) :
    (u.onResponseVersion mem 0 q).error = if c = 0 ∨ c = 8 then u.error else 1001 := by
  obtain ⟨rest, rfl⟩ := hhead
  have htext : textAt mem 0 q = textAt (ascii "HTTP/1.1 ") c q := by
    have hlen : (ascii "HTTP/1.1 ").length = 9 := by decide
    have hcut : textAt mem (c - c) q = textAt (ascii "HTTP/1.1 " ++ rest) c q :=
      hw.textAt le_rfl (by omega) (by rw [List.length_append]; omega)
    rw [Nat.sub_self] at hcut
    rw [hcut, textAt, textAt, List.drop_append_of_le_length (by omega),
      List.take_append_of_le_length (by rw [List.length_drop]; omega)]
  obtain ⟨hfirst, hother⟩ := version_tail c (by omega)
  rw [show 8 - c = q by omega] at hfirst hother
  rw [onResponseVersion, strncmpEq_congr htext, strncmpEq_congr htext, hfirst]
  by_cases hcut : c = 0 ∨ c = 8
  · rw [decide_eq_true hcut, if_pos rfl, if_pos hcut]
  · have hnot := not_or.mp hcut
    rw [decide_eq_false hcut, hother hnot.1 hnot.2, if_neg Bool.false_ne_true,
      if_neg Bool.false_ne_true, if_neg hcut]

/-! ## The actions of a part -/

/-- A parser that has been cleared at position `c` of a head: its positions count from there, and
    a name that has begun before is cut off. -/
structure Shifted (c len : Nat) (r : Positions) (u : ResponseParser) : Prop where
  mark : u.mark = r.mark - c
  fieldStart : u.fieldStart = r.fieldStart - c
  name : r.lenStart - c + u.fieldLen ≤ len
  bodyStart : u.bodyStart ≤ len

theorem Shifted.congr (h : Shifted c len r u) (hmark : u₁.mark = u.mark)
    (hfield : u₁.fieldStart = u.fieldStart) (hlen : u₁.fieldLen = u.fieldLen)
    (hbody : u₁.bodyStart = u.bodyStart) : Shifted c len r u₁ :=
  ⟨hmark.trans h.mark, hfield.trans h.fieldStart, hlen ▸ h.name, hbody ▸ h.bodyStart⟩

/-- The version is refused if it is taken in a part that begins inside of it. -/
def errorBehind (c error : Nat) (version : Prop) [Decidable version] : Nat :=
  if version ∧ ¬(c = 0 ∨ c = 8) then 1001 else error

theorem errorBehind_of_not {error : Nat} {version : Prop} [Decidable version] (h : ¬version) :
    errorBehind c error version = error :=
  if_neg fun hv => h hv.1

/-- An action that neither sets the flag nor looks at the version. -/
theorem plain_behind {u₁ : ResponseParser} (hchunked : u.chunked = true → u₁.chunked = true)
    (herror : u₁.error = u.error) (ht : a ≠ .transChunked) (hv : a ≠ .httpVersion) :
    (u.chunked = true ∨ a = .transChunked → u₁.chunked = true) ∧
      u₁.error = errorBehind c u.error (a = .httpVersion) :=
  ⟨fun hc => hchunked (hc.resolve_right ht), herror.trans (errorBehind_of_not hv).symm⟩

/-- An action of a part. -/
theorem act_shifted (hhead : ascii "HTTP/1.1 " <+: head) (hw : Window head c mem len)
    (hq : q < len) (h : Shifted c len r u) (hf : r.Fits head (c + q, a)) :
    ∃ u₁, u.act mem len q a = .ok u₁ ∧ Shifted c len (r.after (c + q, a)) u₁ ∧
      (u.chunked = true ∨ a = .transChunked → u₁.chunked = true) ∧
      u₁.error = errorBehind c u.error (a = .httpVersion) := by
  have hlt := hf.sound.lt
  have hm := hf.sound.mark
  have hs := hf.sound.fieldStart
  have hsize := hw.head
  have hmem := hw.memory
  have hbuf := hw.lt
  simp only at hlt hm hs
  have hsub : subSize q u.mark = q - u.mark :=
    subSize_of_le (by rw [h.mark]; omega) (by unfold sizeMod; omega)
  have htext : stringAt mem u.mark (subSize q u.mark) =
      .ok (textAt mem u.mark (subSize q u.mark)) := by
    apply stringAt_eq _ hmem
    rw [hsub, h.mark]
    omega
  cases a with
  | mark | startValue =>
    have hmark : q = c + q - c := by omega
    exact ⟨_, rfl, ⟨hmark, h.fieldStart, h.name, h.bodyStart⟩,
      plain_behind id rfl (by simp) (by simp)⟩
  | startField =>
    have hfield : q = c + q - c := by omega
    exact ⟨_, rfl, ⟨h.mark, hfield, h.name, h.bodyStart⟩,
      plain_behind id rfl (by simp) (by simp)⟩
  | writeField =>
    have hlen : subSize q u.fieldStart = q - u.fieldStart :=
      subSize_of_le (by rw [h.fieldStart]; omega) (by unfold sizeMod; omega)
    have hname : r.fieldStart - c + subSize q u.fieldStart ≤ len := by
      rw [hlen, h.fieldStart]
      omega
    exact ⟨_, rfl, ⟨h.mark, h.fieldStart, hname, h.bodyStart⟩,
      plain_behind id rfl (by simp) (by simp)⟩
  | writeContentLen | writeConnectionClose | statusCode =>
    exact ⟨_, rfl, h.congr rfl rfl rfl rfl, plain_behind id rfl (by simp) (by simp)⟩
  | chunkSize =>
    exact ⟨_, rfl, h.congr rfl rfl rfl rfl, plain_behind (fun _ => rfl) rfl (by simp) (by simp)⟩
  | transChunked =>
    exact ⟨_, rfl, h.congr rfl rfl rfl rfl, fun _ => rfl, (errorBehind_of_not (by simp)).symm⟩
  | done =>
    exact ⟨_, rfl, ⟨h.mark, h.fieldStart, h.name, hq⟩,
      plain_behind id rfl (by simp) (by simp)⟩
  | reasonPhrase =>
    rw [act, onResponseReason, htext]
    exact ⟨_, rfl, h.congr rfl rfl rfl rfl, plain_behind id rfl (by simp) (by simp)⟩
  | httpVersion =>
    obtain ⟨hc, hmark⟩ := hf.version rfl
    simp only at hc
    have hzero : u.mark = 0 := by
      rw [h.mark, hmark, Nat.zero_sub]
    rw [hzero, Nat.sub_zero] at hsub
    have herror := error_onResponseVersion hhead hw hq hc
      (u.record (.version (textAt mem u.mark q)))
    rw [act, hzero, hsub]
    rw [hzero] at herror
    refine ⟨_, rfl, ?_, fun hchunked => ?_, ?_⟩
    · simp only [onResponseVersion]
      split
      · exact h.congr rfl rfl rfl rfl
      · split <;> exact h.congr rfl rfl rfl rfl
    · have hold := hchunked.resolve_right (by simp)
      simp only [onResponseVersion]
      split
      · exact hold
      · split <;> exact hold
    · rw [herror, errorBehind]
      by_cases hcut : c = 0 ∨ c = 8
      · rw [if_pos hcut, if_neg fun hv => hv.2 hcut]
        rfl
      · rw [if_neg hcut, if_pos ⟨rfl, hcut⟩]
  | writeValue =>
    have hown := hf.own rfl
    have hname := h.name
    rw [hown, ← h.fieldStart] at hname
    have hkey : stringAt mem u.fieldStart u.fieldLen =
        .ok (textAt mem u.fieldStart u.fieldLen) :=
      stringAt_eq (by omega) hmem
    rw [act, onResponseHttpField]
    split
    · exact ⟨_, rfl, h.congr rfl rfl rfl rfl, plain_behind id rfl (by simp) (by simp)⟩
    · rw [hkey, htext]
      exact ⟨_, rfl, h.congr rfl rfl rfl rfl, plain_behind id rfl (by simp) (by simp)⟩

/-- The actions of a part. -/
theorem acts_shifted {es : List (Nat × ResponseAction)} (hhead : ascii "HTTP/1.1 " <+: head)
    (hw : Window head c mem len) (hes : ∀ e ∈ es, e.1 < len) (h : Shifted c len r u)
    (hf : r.Along (Positions.Fits head) (es.map fun e => (c + e.1, e.2))) :
    ∃ u₁, u.acts mem len es = .ok u₁ ∧
      Shifted c len (r.afterAll (es.map fun e => (c + e.1, e.2))) u₁ ∧
      (u.chunked = true ∨ (∃ e ∈ es, e.2 = .transChunked) → u₁.chunked = true) ∧
      u₁.error = errorBehind c u.error (∃ e ∈ es, e.2 = .httpVersion) := by
  induction es generalizing r u with
  | nil =>
    exact ⟨u, rfl, h, fun hc => hc.resolve_right (by simp), (errorBehind_of_not (by simp)).symm⟩
  | cons e es ih =>
    rw [List.forall_mem_cons] at hes
    obtain ⟨u₂, hact, hshift, hchunked, herror⟩ := act_shifted hhead hw hes.1 h hf.1
    obtain ⟨u₁, hacts, hshift', hchunked', herror'⟩ := ih hes.2 hshift hf.2
    refine ⟨u₁, ?_, hshift', fun hc => hchunked' ?_, ?_⟩
    · rw [acts, List.foldlM_cons, hact]
      exact hacts
    · rcases hc with hc | ⟨d, hd, htrans⟩
      · exact Or.inl (hchunked (Or.inl hc))
      · rcases List.mem_cons.mp hd with rfl | hd
        · exact Or.inl (hchunked (Or.inr htrans))
        · exact Or.inr ⟨d, hd, htrans⟩
    · rw [herror', herror, errorBehind, errorBehind, errorBehind]
      simp only [List.exists_mem_cons_iff]
      by_cases hcut : c = 0 ∨ c = 8
      · simp only [hcut, not_true_eq_false, and_false, if_false]
      · simp only [hcut, not_false_eq_true, and_true]
        by_cases hnow : e.2 = .httpVersion
        · simp only [hnow, true_or, if_true, ite_self]
        · simp only [hnow, false_or, if_false]

/-- A parser that has been given a head up to position `c`, wherever the calls have ended. -/
structure HeadPart (head : Bytes) (c : Nat) (r : Positions) (v : ResponseParser) : Prop where
  accepts : httpclientParserScanner.Accepts v.cs (head.drop c)
  state : (httpclientParserScanner.scan v.cs c (head.drop c)).state = 120
  notFinal : v.cs < 120
  fits : r.Along (Positions.Fits head) (httpclientParserScanner.scan v.cs c (head.drop c)).events
  version : c ≤ 8 →
    ∃ e ∈ (httpclientParserScanner.scan v.cs c (head.drop c)).events, e.2 = .httpVersion
  chunked : v.chunked = true ∨
    ∃ e ∈ (httpclientParserScanner.scan v.cs c (head.drop c)).events, e.2 = .transChunked
  stored : r.mark ≤ c ∧ r.fieldStart ≤ c ∧ r.lenStart ≤ c
  bodyStart : v.bodyStart = 0
  error : v.error = 0

theorem HeadPart.shifted {v : ResponseParser} (h : HeadPart head c r v) (len : Nat) :
    Shifted c len r v.clear where
  mark := by
    have := h.stored.1
    simp only [clear]
    omega
  fieldStart := by
    have := h.stored.2.1
    simp only [clear]
    omega
  name := by
    have := h.stored.2.2
    simp only [clear]
    omega
  bodyStart := by
    simp only [clear, h.bodyStart]
    omega

/-- What a call with the part `seg` of a head does. -/
theorem execute_shifted {v : ResponseParser} {seg x : Bytes} {st : Nat}
    (hhead : ascii "HTTP/1.1 " <+: head) (h : HeadPart head c r v) (hpart : Part v mem seg x st)
    (hw : Window head c mem (seg.length + x.length))
    (hf : r.Along (Positions.Fits head) (httpclientParserScanner.scan v.cs c seg).events) :
    ∃ u, v.execute mem (seg.length + x.length) false =
        .ok ({ u with cs := st, nread := seg.length },
          (mem.take (seg.length + x.length)).drop seg.length ++
            mem.drop (seg.length + x.length - seg.length), seg.length) ∧
      v.clear.acts mem (seg.length + x.length) (httpclientParserScanner.scan v.cs 0 seg).events =
        .ok u ∧
      (v.chunked = true ∨
        (∃ e ∈ (httpclientParserScanner.scan v.cs c seg).events, e.2 = .transChunked) →
          u.chunked = true) ∧
      u.error = errorBehind c 0
        (∃ e ∈ (httpclientParserScanner.scan v.cs c seg).events, e.2 = .httpVersion) := by
  have hevents : ∀ e ∈ (httpclientParserScanner.scan v.cs 0 seg).events,
      e.1 < seg.length + x.length := by
    intro e he
    have := Scanner.mem_events he
    omega
  have hlt : ∀ e ∈ (httpclientParserScanner.scan v.cs c seg).events,
      e.1 < c + (seg.length + x.length) := by
    intro e he
    have := Scanner.mem_events he
    omega
  have hpos := hpart.pos
  have hstored := h.stored
  rw [httpclientParserScanner.scan_shift v.cs c seg] at hf hlt ⊢
  obtain ⟨u, hacts, hshift, hchunked, herror⟩ := acts_shifted hhead hw hevents (h.shifted _) hf
  obtain ⟨hmark, hfield, -⟩ := afterAll_lt hlt (r := r) ⟨by omega, by omega, by omega⟩
  refine ⟨u, execute_iff.mpr ⟨u, ?_, ?_, ?_, hpart.null, hpart.size, ?_, rfl⟩, hacts, ?_, ?_⟩
  · simp only [Bool.false_eq_true, if_false, hpart.scanned]
    exact hacts
  · simp only [Bool.false_eq_true, if_false, hpart.scanned]
  · simp only [Bool.false_eq_true, if_false, hpart.scanned]
  · refine ⟨by omega, hshift.bodyStart, ?_, ?_, ?_⟩
    · rw [hshift.mark]
      omega
    · exact Nat.le_of_add_left_le hshift.name
    · rw [hshift.fieldStart]
      omega
  · simp only [List.mem_map, exists_exists_and_eq_and]
    exact hchunked
  · have hclear : v.clear.error = 0 := h.error
    rw [herror, hclear]
    simp only [List.mem_map, exists_exists_and_eq_and]

/-- A call that begins inside of the version and ends behind it. -/
def CutsVersion (c e : Nat) : Prop := 0 < c ∧ c < 8 ∧ 8 < e

instance (c e : Nat) : Decidable (CutsVersion c e) := inferInstanceAs (Decidable (_ ∧ _ ∧ _))

/-- The version is refused by such calls. -/
theorem HeadPart.error_eq {v : ResponseParser} {seg : Bytes} {es : List (Nat × ResponseAction)}
    (h : HeadPart head c r v)
    (hevents : (httpclientParserScanner.scan v.cs c (head.drop c)).events =
      (httpclientParserScanner.scan v.cs c seg).events ++ es)
    (hes : ∀ e ∈ es, c + seg.length ≤ e.1) :
    errorBehind c 0
        (∃ e ∈ (httpclientParserScanner.scan v.cs c seg).events, e.2 = .httpVersion) =
      if CutsVersion c (c + seg.length) then 1001 else 0 := by
  have hfits := h.fits
  have hversion := h.version
  rw [hevents] at hfits hversion
  by_cases hcuts : CutsVersion c (c + seg.length)
  · obtain ⟨hpos, hlt, hbehind⟩ := hcuts
    obtain ⟨e, he, hv⟩ := hversion hlt.le
    obtain ⟨r', hr'⟩ := Positions.mem_of_along hfits he
    have h8 := (hr'.version hv).1
    have hmem : e ∈ (httpclientParserScanner.scan v.cs c seg).events := by
      rcases List.mem_append.mp he with he | he
      · exact he
      · have := hes e he
        omega
    rw [if_pos ⟨hpos, hlt, hbehind⟩, errorBehind, if_pos ⟨⟨e, hmem, hv⟩, by omega⟩]
  · rw [if_neg hcuts, errorBehind, if_neg]
    intro ⟨⟨e, he, hv⟩, hcut⟩
    obtain ⟨r', hr'⟩ := Positions.mem_of_along hfits (List.mem_append_left es he)
    have h8 := (hr'.version hv).1
    have hbounds := Scanner.mem_events he
    exact hcuts ⟨by omega, by omega, by omega⟩

/-- The parser behind a call that was given a part of a head, and not its end. -/
theorem HeadPart.next {v v' : ResponseParser} {seg rest : Bytes} (h : HeadPart head c r v)
    (hdrop : head.drop c = seg ++ rest) (haccepts : httpclientParserScanner.Accepts v'.cs rest)
    (hstate : (httpclientParserScanner.scan v'.cs (c + seg.length) rest).state = 120)
    (hlt : v'.cs < 120)
    (hevents : (httpclientParserScanner.scan v.cs c (head.drop c)).events =
      (httpclientParserScanner.scan v.cs c seg).events ++
        (httpclientParserScanner.scan v'.cs (c + seg.length) rest).events)
    (hchunked : v.chunked = true ∨
      (∃ e ∈ (httpclientParserScanner.scan v.cs c seg).events, e.2 = .transChunked) →
        v'.chunked = true)
    (hbody : v'.bodyStart = 0) (herror : v'.error = 0) :
    HeadPart head (c + seg.length)
      (r.afterAll (httpclientParserScanner.scan v.cs c seg).events) v' := by
  have hbehind : head.drop (c + seg.length) = rest := by
    rw [← List.drop_drop, hdrop, List.drop_left]
  have hfits := h.fits
  have hversion := h.version
  have hold := h.chunked
  have hstored := h.stored
  rw [hevents] at hfits hversion hold
  have hevents' : ∀ e ∈ (httpclientParserScanner.scan v.cs c seg).events,
      e.1 < c + seg.length + 1 :=
    fun e he => (Scanner.mem_events he).2.trans (Nat.lt_succ_self _)
  obtain ⟨hmark, hfield, hlen⟩ := afterAll_lt hevents' (r := r) ⟨by omega, by omega, by omega⟩
  refine ⟨hbehind ▸ haccepts, hbehind ▸ hstate, hlt,
    hbehind ▸ (Positions.along_append.mp hfits).2, fun hle => ?_, ?_,
    ⟨by omega, by omega, by omega⟩, hbody, herror⟩
  · obtain ⟨e, he, hv⟩ := hversion (by omega)
    rw [hbehind]
    rcases List.mem_append.mp he with hfirst | hsecond
    · obtain ⟨r', hr'⟩ := Positions.mem_of_along hfits he
      have h8 := (hr'.version hv).1
      have := (Scanner.mem_events hfirst).2
      omega
    · exact ⟨e, hsecond, hv⟩
  · rw [hbehind]
    rcases hold with hold | ⟨e, he, htrans⟩
    · exact Or.inl (hchunked (Or.inl hold))
    · rcases List.mem_append.mp he with hfirst | hsecond
      · exact Or.inl (hchunked (Or.inr ⟨e, hfirst, htrans⟩))
      · exact Or.inr ⟨e, hsecond, htrans⟩

end ResponseParser

/-! ## Where the reads end -/

/-- The positions at which the reads end that bring a response whose head has `n` bytes.  Each read
    asks for what the buffer of `size` bytes has room for, and only the one that brings the end of
    the head leaves something in it. -/
def responseEnds (size n : Nat) : (fuel : Nat) → (pos left : Nat) → List Nat → List Nat
  | 0, _, _, _ => []
  | fuel + 1, pos, left, lengths =>
    match takeRead (size - left) lengths with
    | none => []
    | some (k, lengths) =>
      (pos + k) :: responseEnds size n fuel (pos + k)
        (if pos < n ∧ n ≤ pos + k then pos + k - n else 0) lengths

variable {size n fuel pos left k : Nat} {lengths : List Nat} {sock sock' : PeerSocket} {bs : Bytes}

theorem responseEnds_of_read (hopen : sock.closed = false)
    (hread : sock.read (size - left) = some (bs, sock')) :
    responseEnds size n (fuel + 1) pos left sock.lengths =
      (pos + bs.length) :: responseEnds size n fuel (pos + bs.length)
        (if pos < n ∧ n ≤ pos + bs.length then pos + bs.length - n else 0) sock'.lengths := by
  rw [responseEnds, (PeerSocket.takeRead_lengths hopen hread).1]

/-- A read of a part of the head leaves nothing in the buffer. -/
theorem responseEnds_part (hopen : sock.closed = false) (hread : sock.read size = some (bs, sock'))
    (hlt : pos + bs.length < n) :
    responseEnds size n (fuel + 1) pos 0 sock.lengths =
      (pos + bs.length) :: responseEnds size n fuel (pos + bs.length) 0 sock'.lengths := by
  rw [responseEnds_of_read hopen (by rw [Nat.sub_zero, hread]), if_neg (by omega)]

/-- The read that brings the end of the head leaves what it brings behind it. -/
theorem responseEnds_last {x : Bytes} (hopen : sock.closed = false)
    (hread : sock.read size = some (bs, sock')) (hlt : pos < n)
    (hend : pos + bs.length = n + x.length) :
    responseEnds size n (fuel + 1) pos 0 sock.lengths =
      (pos + bs.length) :: responseEnds size n fuel (pos + bs.length) x.length sock'.lengths := by
  rw [responseEnds_of_read hopen (by rw [Nat.sub_zero, hread]), if_pos (by omega), hend,
    Nat.add_sub_cancel_left]

theorem lt_of_mem_responseEnds {e : Nat} (hlengths : ∀ g ∈ lengths, 0 < g) (hleft : left < size)
    (h : e ∈ responseEnds size n fuel pos left lengths) : pos < e := by
  induction fuel generalizing pos left lengths with
  | zero => cases h
  | succ fuel ih =>
    rw [responseEnds] at h
    split at h
    · cases h
    · rename_i k lengths' htake
      obtain ⟨hk, hle, hlengths'⟩ := takeRead_pos hlengths (by omega) htake
      rcases List.mem_cons.mp h with rfl | h
      · omega
      · have hlt := ih hlengths' (by split <;> omega) h
        omega

/-- No read cuts the version that is not followed by one that ends behind it. -/
def VersionKept (pos : Nat) (ends : List Nat) : Prop :=
  8 ≤ pos ∨ 8 ∈ ends ∨ (pos = 0 ∧ ∀ e ∈ ends, 8 < e)

instance (pos : Nat) (ends : List Nat) : Decidable (VersionKept pos ends) :=
  inferInstanceAs (Decidable (_ ∨ _ ∨ _))

theorem versionKept_cons {e : Nat} {ends : List Nat} (hpos : pos < e) (hends : ∀ d ∈ ends, e < d) :
    VersionKept pos (e :: ends) ↔ ¬CutsVersion pos e ∧ VersionKept e ends := by
  rw [VersionKept, VersionKept, CutsVersion, List.forall_mem_cons, List.mem_cons]
  constructor
  · rintro (h8 | (rfl | hmem) | ⟨rfl, hlt, -⟩)
    · exact ⟨by omega, Or.inl (by omega)⟩
    · exact ⟨by omega, Or.inl le_rfl⟩
    · have := hends 8 hmem
      exact ⟨by omega, Or.inr (Or.inl hmem)⟩
    · exact ⟨by omega, Or.inl hlt.le⟩
  · rintro ⟨hcuts, h8 | hmem | ⟨rfl, -⟩⟩
    · by_cases hp : 8 ≤ pos
      · exact Or.inl hp
      · by_cases he : e = 8
        · exact Or.inr (Or.inl (Or.inl he.symm))
        · refine Or.inr (Or.inr ⟨by omega, by omega, fun d hd => ?_⟩)
          have := hends d hd
          omega
    · exact Or.inr (Or.inl (Or.inr hmem))
    · omega

/-! ## The loop -/

namespace ResponseBuffer

variable {c : ResponseBuffer} {data rest body x : Bytes} {head : Bytes} {r : Positions}
  {v p : ResponseParser}

/-- A turn whose read brings a part of the head that is not its end. -/
theorem recvHead_part (hhead : ascii "HTTP/1.1 " <+: head) (hsize : head.length < 2 ^ 63)
    (h : HeadPart head pos r v) (hdata : data.length = c.buffSize + 1) (hpos : 0 < c.buffSize)
    (hbuff : c.buffSize < 2 ^ 62) (hread : sock.read c.buffSize = some (bs, sock')) (hbs : bs ≠ [])
    (hrest : rest ≠ []) (hdrop : head.drop pos = bs ++ rest) :
    if CutsVersion pos (pos + bs.length) then
      ∀ fuel, c.recvHead (fuel + 1) v data 0 sock = .error .null
    else
      ∃ (r' : Positions) (v' : ResponseParser), (∀ fuel, c.recvHead (fuel + 1) v data 0 sock =
        c.recvHead fuel v' (filled data bs) 0 sock') ∧ HeadPart head (pos + bs.length) r' v' := by
  obtain ⟨hle, hlt⟩ := PeerSocket.length_read hread
  have haccepts := h.accepts
  have hstate := h.state
  have hfits := h.fits
  rw [hdrop] at haccepts hstate hfits
  obtain ⟨st, hpass, hzero, hlt120, haccepts', hevents, hstate'⟩ :=
    accepts_split haccepts hstate h.notFinal hrest
  rw [hevents] at hfits
  rw [← hdrop] at hevents
  have hpart : Part v (filled data bs) bs [] st := part_mid hpass hbs hlt
  have hw : Window head pos (filled data bs) bs.length :=
    window_mid hdrop (by omega) (by omega) hsize
  obtain ⟨u, hexec, hacts, hchunked, herror⟩ :=
    execute_shifted hhead h hpart hw (Positions.along_append.mp hfits).1
  rw [h.error_eq hevents fun e he => (Scanner.mem_events he).1] at herror
  simp only [List.length_nil, Nat.add_zero, Nat.sub_self, List.drop_zero] at hexec hacts
  have hmem : ((filled data bs).take bs.length).drop bs.length ++ filled data bs =
      filled data bs := by
    rw [List.drop_of_length_le (List.length_take_le _ _), List.nil_append]
  rw [hmem] at hexec
  split
  · rename_i hcuts
    intro fuel
    rw [if_pos hcuts] at herror
    rw [recvHead_turn (by omega) hread hbs, hexec]
    simp only [hasError, herror]
    rfl
  · rename_i hcuts
    rw [if_neg hcuts] at herror
    have hbody : u.bodyStart = 0 := by
      refine (bodyStart_acts hacts fun e he => ?_).trans h.bodyStart
      have := Scanner.not_breaks_of_passes hpass he
      simpa [httpclientParserScanner] using this
    refine ⟨_, { u with cs := st, nread := bs.length }, fun fuel => ?_,
      h.next hdrop haccepts' hstate' hlt120 hevents hchunked hbody herror⟩
    have hnoerror :
        ({ u with cs := st, nread := bs.length } : ResponseParser).hasError = false := by
      simp [hasError, herror, hzero]
    have hunfinished :
        ({ u with cs := st, nread := bs.length } : ResponseParser).isFinished = false := by
      have hfinal : httpclientParserScanner.firstFinal = 120 := rfl
      simp only [isFinished, hfinal, decide_eq_false_iff_not, not_or]
      omega
    rw [recvHead_turn (by omega) hread hbs, hexec]
    simp only [hnoerror, hunfinished, Bool.false_eq_true, if_false]
    rw [subSize_of_le le_rfl (by unfold sizeMod; omega), Nat.sub_self, intOfSize_of_lt (by decide),
      if_neg (by rw [sizeOfInt_natCast (by decide)]; omega)]
    rfl

/-- The last turn: its read brings the end of the head, and `x` behind it. -/
theorem recvHead_end (hhead : ascii "HTTP/1.1 " <+: head) (hsize : head.length < 2 ^ 63)
    (h : HeadPart head pos r v) (hdata : data.length = c.buffSize + 1)
    (hbuff : c.buffSize < 2 ^ 62) (hread : sock.read c.buffSize = some (bs, sock'))
    (hx : bs = head.drop pos ++ x) :
    if CutsVersion pos (pos + bs.length) then
      ∀ fuel, c.recvHead (fuel + 1) v data 0 sock = .error .null
    else
      ∃ (p : ResponseParser) (g : Bytes),
        (∀ fuel, c.recvHead (fuel + 1) v data 0 sock = .ok (p, x ++ g, x.length, sock')) ∧
        p.chunked = true ∧ p.error = 0 ∧ (x ++ g).length = c.buffSize + 1 := by
  obtain ⟨hle, hlt⟩ := PeerSocket.length_read hread
  have hpos := Scanner.length_pos_of_accepts h.accepts
  have hbs : bs ≠ [] := by
    rw [hx]
    exact List.append_ne_nil_of_left_ne_nil (List.length_pos_iff.mp hpos) _
  have hlong : 9 ≤ head.length := hhead.length_le
  have hcuts : CutsVersion pos (pos + bs.length) ↔
      CutsVersion pos (pos + (head.drop pos).length) := by
    rw [hx, List.length_append, CutsVersion, CutsVersion]
    rw [List.length_drop] at hpos ⊢
    omega
  rw [hx] at hle hlt
  have hpart : Part v (filled data (head.drop pos ++ x)) (head.drop pos) x 120 :=
    part_last h.accepts h.state hlt
  have hw : Window head pos (filled data (head.drop pos ++ x))
      ((head.drop pos).length + x.length) := window_last (by omega) (by omega) hsize
  have hfull : (filled data (head.drop pos ++ x)).length = c.buffSize + 1 :=
    (length_filled (by omega)).trans hdata
  rw [List.length_append] at hle hlt
  obtain ⟨u, hexec, -, hchunked, herror⟩ := execute_shifted hhead h hpart hw h.fits
  rw [h.error_eq (List.append_nil _).symm fun e he => (by cases he)] at herror
  have hmem : ((filled data (head.drop pos ++ x)).take ((head.drop pos).length + x.length)).drop
      (head.drop pos).length = x := by
    rw [filled_eq, ← List.length_append, List.take_left, List.drop_left]
  rw [hmem] at hexec
  split
  · rename_i hcut
    intro fuel
    rw [if_pos (hcuts.mp hcut)] at herror
    rw [recvHead_turn (by omega) hread hbs, hx, List.length_append, hexec]
    simp only [hasError, herror]
    rfl
  · rename_i hcut
    rw [if_neg fun hc => hcut (hcuts.mpr hc)] at herror
    have hnoerror : ({ u with cs := 120, nread := (head.drop pos).length } :
        ResponseParser).hasError = false := by
      simp [hasError, herror]
    have hfinished : ({ u with cs := 120, nread := (head.drop pos).length } :
        ResponseParser).isFinished = true := by
      simp [isFinished, httpclientParserScanner]
    refine ⟨{ u with cs := 120, nread := (head.drop pos).length },
      (filled data (head.drop pos ++ x)).drop ((head.drop pos).length + x.length -
        (head.drop pos).length), fun fuel => ?_, hchunked h.chunked, herror, ?_⟩
    · rw [recvHead_turn (by omega) hread hbs, hx, List.length_append, hexec]
      simp only [hnoerror, hfinished, Bool.false_eq_true, if_false, if_true]
      rw [subSize_of_le (by omega) (by unfold sizeMod; omega), Nat.add_sub_cancel_left,
        intOfSize_of_lt (by omega),
        if_neg (by rw [sizeOfInt_natCast (by unfold sizeMod; omega)]; omega)]
    · rw [List.length_append, List.length_drop, hfull]
      omega

/-- What the loop leaves of a response with the bytes `body` behind its head: `x` is what its last
    read brought of them, and `ends` says where the next reads end. -/
structure HeadReceived (c : ResponseBuffer) (head body : Bytes) (ends : List Nat)
    (p : ResponseParser) (data x : Bytes) (sock : PeerSocket) : Prop where
  chunked : p.chunked = true
  error : p.error = 0
  body : body = x ++ sock.bytes
  proper : sock.Proper
  silent : sock.closed = false
  length : data.length = c.buffSize + 1
  short : x.length < c.buffSize
  next : ∃ k, sock.bytes.length ≤ k ∧ (ends.dropWhile (· < head.length)).tail =
    responseEnds c.buffSize head.length k (head.length + x.length) x.length sock.lengths

/-- Without fuel the loop returns nothing. -/
theorem recvHead_ne_ok {y : ResponseParser × Bytes × Int × PeerSocket}
    (h : ∀ fuel, c.recvHead (fuel + 1) v data 0 sock ≠ .ok y) (fuel : Nat) :
    c.recvHead fuel v data 0 sock ≠ .ok y := by
  cases fuel with
  | zero => exact fun hrun => (by cases hrun)
  | succ fuel => exact h fuel

/-- The loop gets to the end of the head exactly if the version is kept: the induction is on the
    bound of the number of reads. -/
theorem recvHead_parts (hhead : ascii "HTTP/1.1 " <+: head) (hsize : head.length < 2 ^ 63)
    (h : HeadPart head pos r v) (hdata : data.length = c.buffSize + 1) (hpos : 0 < c.buffSize)
    (hbuff : c.buffSize < 2 ^ 62) (hs : sock.Proper) (hopen : sock.closed = false)
    (hbytes : sock.bytes = head.drop pos ++ body) (hk : sock.bytes.length ≤ k) :
    if VersionKept pos (responseEnds c.buffSize head.length k pos 0 sock.lengths) then
      ∃ (p : ResponseParser) (x g : Bytes) (sock' : PeerSocket),
        (∀ fuel, k ≤ fuel → c.recvHead fuel v data 0 sock = .ok (p, x ++ g, x.length, sock')) ∧
        c.HeadReceived head body (responseEnds c.buffSize head.length k pos 0 sock.lengths) p
          (x ++ g) x sock'
    else ∀ fuel y, c.recvHead fuel v data 0 sock ≠ .ok y := by
  have hlt : pos < head.length := by
    have := Scanner.length_pos_of_accepts h.accepts
    rw [List.length_drop] at this
    omega
  induction k generalizing pos r v data sock with
  | zero =>
    rw [hbytes, List.length_append, List.length_drop] at hk
    omega
  | succ k ih =>
    obtain ⟨bs, sock', hread, hbs, hs', hcases⟩ := read_cases (c := c) hs hpos hlt hbytes
    obtain ⟨hle, -⟩ := PeerSocket.length_read hread
    have hlen := List.length_pos_iff.mpr hbs
    have hopen' := (PeerSocket.takeRead_lengths hopen hread).2
    have hk' : sock'.bytes.length ≤ k := by
      rw [PeerSocket.read_bytes hread, List.length_append] at hk
      omega
    have hlater {left : Nat} (hleft : left < c.buffSize) : ∀ d ∈ responseEnds c.buffSize
        head.length k (pos + bs.length) left sock'.lengths, pos + bs.length < d :=
      fun d hd => lt_of_mem_responseEnds (PeerSocket.lengths_pos hs') hleft hd
    rcases hcases with ⟨x, hx, hbody⟩ | ⟨rest, hrest, hdrop, hbytes'⟩
    · have hxlen : pos + bs.length = head.length + x.length := by
        rw [hx, List.length_append, List.length_drop]
        omega
      have hbehind : 8 ≤ pos + bs.length := by
        have : 9 ≤ head.length := hhead.length_le
        omega
      have hshort : x.length < c.buffSize := by omega
      rw [responseEnds_last hopen hread hlt hxlen]
      have hiff := versionKept_cons (by omega : pos < pos + bs.length) (hlater hshort)
      have hturn := recvHead_end hhead hsize h hdata hbuff hread hx
      split at hturn
      · rename_i hcuts
        rw [if_neg fun hc => (hiff.mp hc).1 hcuts]
        intro fuel y
        refine recvHead_ne_ok (fun fuel hrun => ?_) fuel
        rw [hturn] at hrun
        cases hrun
      · rename_i hcuts
        obtain ⟨p, g, hrun, hchunked, herror, hfull⟩ := hturn
        rw [if_pos (hiff.mpr ⟨hcuts, Or.inl hbehind⟩)]
        refine ⟨p, x, g, sock', fun fuel hfuel => ?_, hchunked, herror, hbody, hs', hopen', hfull,
          hshort, k, hk', ?_⟩
        · obtain ⟨m, rfl⟩ := Nat.exists_eq_add_of_le hfuel
          rw [Nat.add_right_comm]
          exact hrun _
        · rw [hxlen, List.dropWhile_cons_of_neg (by simp), List.tail_cons]
    · have hlength := congrArg List.length hdrop
      rw [List.length_append, List.length_drop] at hlength
      have hrestlen := List.length_pos_iff.mpr hrest
      rw [responseEnds_part hopen hread (by omega)]
      have hiff := versionKept_cons (by omega : pos < pos + bs.length) (hlater hpos)
      have hturn := recvHead_part hhead hsize h hdata hpos hbuff hread hbs hrest hdrop
      split at hturn
      · rename_i hcuts
        rw [if_neg fun hc => (hiff.mp hc).1 hcuts]
        intro fuel y
        refine recvHead_ne_ok (fun fuel hrun => ?_) fuel
        rw [hturn] at hrun
        cases hrun
      · rename_i hcuts
        obtain ⟨r', v', hrun, hpart⟩ := hturn
        have hbehind : head.drop (pos + bs.length) = rest := by
          rw [← List.drop_drop, hdrop, List.drop_left]
        have hih := ih hpart ((length_filled (by omega : bs.length < data.length)).trans hdata) hs'
          hopen' (by rw [hbehind, hbytes']) hk' (by omega)
        split at hih
        · rename_i hkept
          rw [if_pos (hiff.mpr ⟨hcuts, hkept⟩)]
          obtain ⟨p, x, g, sock'', hrun', hreceived⟩ := hih
          refine ⟨p, x, g, sock'', fun fuel hfuel => ?_, { hreceived with next := ?_ }⟩
          · obtain ⟨m, rfl⟩ := Nat.exists_eq_add_of_le hfuel
            rw [Nat.add_right_comm, hrun]
            exact hrun' _ (Nat.le_add_right _ _)
          · rw [List.dropWhile_cons_of_pos (by simp only [decide_eq_true_eq]; omega)]
            exact hreceived.next
        · rename_i hcut
          rw [if_neg fun hc => hcut (hiff.mp hc).2]
          intro fuel y
          refine recvHead_ne_ok (fun fuel hrun' => ?_) fuel
          rw [hrun] at hrun'
          exact hih fuel y hrun'

end ResponseBuffer

end CppServerFramework.HTTP
