import CppServerFramework.Log.LogConfig

/-!
# The grammar of log patterns

What `LogFormatter::init` (`log.cpp:422-562`) makes of a pattern, against a grammar of literals,
escapes and directives.  The escape `%%` moves the index by one, so that its second `%` is read
again.
-/

namespace CppServerFramework.Log

/-- `LogEvent` (`log.h:66-135`), as far as it is written. -/
structure LogEvent where
  content : List UInt8
  loggerName : List UInt8
  threadName : List UInt8
  file : List UInt8
  line : Int
  elapse : UInt32
  threadId : UInt32
  fiberId : UInt32
  time : UInt64

/-- What the items know beside their own data; `strftime` is that of the local time. -/
structure LogCallSite where
  event : LogEvent
  level : LogLevel
  strftime : List UInt8 → UInt64 → List UInt8

/-- `FormatItem::format` (`log.cpp:276-407`). -/
def FormatItem.format (site : LogCallSite) : FormatItem → List UInt8
  | .message => site.event.content
  | .level => site.level.toString
  | .elapse => str (ToString.toString site.event.elapse.toNat)
  | .name => site.event.loggerName
  | .threadId => str (ToString.toString site.event.threadId.toNat)
  | .newLine => str "\n"
  | .dateTime fmt => site.strftime fmt site.event.time
  | .filename => site.event.file
  | .line => str (ToString.toString site.event.line)
  | .tab => str "\t"
  | .fiberId => str (ToString.toString site.event.fiberId.toNat)
  | .threadName => site.event.threadName
  | .string s => s

/-- `LogFormatter::format` (`log.cpp:414-420`). -/
def LogFormatter.format (f : LogFormatter) (site : LogCallSite) : List UInt8 :=
  f.items.flatMap (·.format site)

/-! ## Patterns -/

/-- What a pattern consists of. -/
inductive Token where
  | char (c : UInt8)
  | percent
  | directive (x : UInt8) (fmt : List UInt8)
  deriving DecidableEq, Repr

def Token.format (site : LogCallSite) : Token → List UInt8
  | .char c => [c]
  | .percent => [37]
  | .directive x fmt =>
    ((formatItems.find? (·.1 = [x])).map fun e => (e.2 fmt).format site).getD []

def meaning (site : LogCallSite) (ts : List Token) : List UInt8 := ts.flatMap (·.format site)

/-- What is behind the letter of a directive: a format in braces, or neither a letter nor a
    brace. -/
inductive DirectiveTail : List UInt8 → List UInt8 → List UInt8 → Prop
  | plain {behind : List UInt8} :
    (∀ c ∈ behind.head?, isAlpha c = false ∧ c ≠ 123 ∧ c ≠ 125) → DirectiveTail behind [] behind
  | braces {fmt behind : List UInt8} : 125 ∉ fmt →
    DirectiveTail (123 :: (fmt ++ 125 :: behind)) fmt behind

theorem DirectiveTail.length_le {tail fmt behind : List UInt8}
    (h : DirectiveTail tail fmt behind) : behind.length ≤ tail.length := by
  cases h with
  | plain => exact Nat.le_refl _
  | braces =>
    simp only [List.length_cons, List.length_append]
    omega

/-- A pattern is read as tokens.  With `again` an escape leaves its second `%` to be read. -/
inductive Reads (again : Bool) : List UInt8 → List Token → Prop
  | nil : Reads again [] []
  | char {c : UInt8} {p : List UInt8} {ts : List Token} : c ≠ 37 → Reads again p ts →
    Reads again (c :: p) (.char c :: ts)
  | percent {p : List UInt8} {ts : List Token} :
    Reads again (if again then 37 :: p else p) ts → Reads again (37 :: 37 :: p) (.percent :: ts)
  | directive {x : UInt8} {tail fmt p : List UInt8} {ts : List Token} :
    [x] ∈ formatItems.map Prod.fst → DirectiveTail tail fmt p → Reads again p ts →
    Reads again (37 :: x :: tail) (.directive x fmt :: ts)

/-- A pattern without escapes. -/
def Plain (pattern : List UInt8) : Prop := ∃ ts, Reads false pattern ts ∧ Token.percent ∉ ts

/-- A pattern of the grammar is built as it is meant, and any other is an error; the loops end. -/
structure PatternRight (pattern : List UInt8) : Prop where
  built : ∀ ts, Reads false pattern ts → LogFormatter.isError pattern = false ∧
    ∀ site, (LogFormatter.init pattern).format site = meaning site ts
  refused : (∀ ts, ¬Reads false pattern ts) → LogFormatter.isError pattern = true
  advances : ∀ i, i < pattern.length →
    i < (LogFormatter.scan pattern i pattern.length { n := i + 1 }).n
  scanEnds : ∀ i turns, pattern.length ≤ turns →
    LogFormatter.scan pattern i turns { n := i + 1 } =
      LogFormatter.scan pattern i pattern.length { n := i + 1 }
  ends : ∀ turns, pattern.length ≤ turns →
    LogFormatter.split pattern turns {} = LogFormatter.split pattern pattern.length {}

namespace LogFormatter

/-! ## The loop over a directive -/

variable {pattern base w u v r : List UInt8} {i turns n : Nat} {d : Directive} {c : UInt8}

/-- The characters over which the loop goes on as long as there is no brace. -/
def nameChar (c : UInt8) : Bool := isAlpha c || c = 125

theorem nameChar_iff_false : nameChar c = false ↔ isAlpha c = false ∧ c ≠ 125 := by
  simp [nameChar]

theorem scan_end (h : pattern[d.n]? = none) : scan pattern i turns d = d := by
  cases turns with
  | zero => rfl
  | succ turns => rw [scan, h]

theorem scan_stop (h : pattern[d.n]? = some c) (hstatus : d.fmtStatus = 0)
    (hc : isAlpha c = false ∧ c ≠ 123 ∧ c ≠ 125) :
    scan pattern i (turns + 1) d = { d with str := substr pattern (i + 1) (d.n - i - 1) } := by
  rw [scan, h]
  exact if_pos ⟨hstatus, hc⟩

theorem scan_open (h : pattern[d.n]? = some 123) (hstatus : d.fmtStatus = 0) :
    scan pattern i (turns + 1) d = scan pattern i turns { d with
      str := substr pattern (i + 1) (d.n - i - 1), fmtStatus := 1, fmtBegin := d.n,
      n := d.n + 1 } := by
  rw [scan, h]
  exact (if_neg (by simp)).trans (if_pos ⟨hstatus, rfl⟩)

theorem scan_close (h : pattern[d.n]? = some 125) (hstatus : d.fmtStatus = 1) :
    scan pattern i (turns + 1) d = { d with
      fmt := substr pattern (d.fmtBegin + 1) (d.n - d.fmtBegin - 1), fmtStatus := 0,
      n := d.n + 1 } := by
  rw [scan, h]
  simp [hstatus]

/-- The loop goes on over a character that neither ends the name nor begins or ends a format. -/
theorem scan_walk (h : pattern[d.n]? = some c)
    (hc : d.fmtStatus = 0 ∧ nameChar c = true ∨ d.fmtStatus = 1 ∧ c ≠ 125) :
    scan pattern i (turns + 1) d = scan pattern i turns { d with
      n := d.n + 1
      str := if d.n + 1 = pattern.length ∧ d.str = [] then pattern.drop (i + 1) else d.str } := by
  rw [scan, h]
  rcases hc with ⟨hstatus, hc⟩ | ⟨hstatus, hc⟩
  · have h123 : c ≠ 123 := by
      rintro rfl
      cases hc
    have hname : isAlpha c = true ∨ c = 125 := by simpa [nameChar] using hc
    rcases hname with halpha | rfl
    · simp [hstatus, halpha, h123]
    · simp [hstatus]
  · simp [hstatus, hc]

/-- One turn of the loop: it ends, or it goes on behind the character. -/
theorem scan_cases (pattern : List UInt8) (i : Nat) (d : Directive) :
    (∃ e, d.n ≤ e.n ∧ ∀ turns, scan pattern i (turns + 1) d = e) ∨
      ∃ e, e.n = d.n + 1 ∧ ∀ turns, scan pattern i (turns + 1) d = scan pattern i turns e := by
  cases h : pattern[d.n]? with
  | none => exact .inl ⟨d, Nat.le_refl _, fun turns => scan_end h⟩
  | some c =>
    by_cases hstop : d.fmtStatus = 0 ∧ (isAlpha c = false ∧ c ≠ 123 ∧ c ≠ 125)
    · refine .inl ⟨_, ?_, fun turns => scan_stop h hstop.1 hstop.2⟩
      exact Nat.le_refl _
    · by_cases hopen : d.fmtStatus = 0 ∧ c = 123
      · rw [hopen.2] at h
        refine .inr ⟨_, ?_, fun turns => scan_open h hopen.1⟩
        rfl
      · by_cases hclose : d.fmtStatus = 1 ∧ c = 125
        · rw [hclose.2] at h
          refine .inl ⟨_, ?_, fun turns => scan_close h hclose.1⟩
          exact Nat.le_succ _
        · refine .inr ⟨{ d with
            n := d.n + 1
            str := if d.n + 1 = pattern.length ∧ d.str = [] then pattern.drop (i + 1) else d.str },
            rfl, fun turns => ?_⟩
          rw [scan, h]
          simp only [if_neg hstop, if_neg hopen, if_neg hclose]

theorem le_scan (h : n ≤ d.n) : n ≤ (scan pattern i turns d).n := by
  induction turns generalizing d with
  | zero => exact h
  | succ turns ih =>
    rcases scan_cases pattern i d with ⟨e, he, hscan⟩ | ⟨e, he, hscan⟩
    · rw [hscan]
      exact Nat.le_trans h he
    · rw [hscan]
      exact ih (by omega)

/-- Turns beyond the end of the pattern change nothing. -/
theorem scan_succ (h : pattern.length ≤ d.n + turns) :
    scan pattern i (turns + 1) d = scan pattern i turns d := by
  induction turns generalizing d with
  | zero => exact scan_end (List.getElem?_eq_none h)
  | succ turns ih =>
    rcases scan_cases pattern i d with ⟨e, -, hscan⟩ | ⟨e, he, hscan⟩
    · rw [hscan, hscan]
    · rw [hscan, hscan]
      exact ih (by omega)

theorem scan_add (h : pattern.length ≤ d.n + turns) (k : Nat) :
    scan pattern i (turns + k) d = scan pattern i turns d := by
  induction k with
  | zero => rfl
  | succ k ih => rw [← Nat.add_assoc, scan_succ (by omega), ih]

theorem substr_name (hi : base.length = i + 1) (u r : List UInt8) :
    substr (base ++ (u ++ r)) (i + 1) (base.length + u.length - i - 1) = u := by
  rw [substr, ← hi, List.drop_left, show base.length + u.length - i - 1 = u.length by omega,
    List.take_left]

theorem getElem?_behind_name (base u r : List UInt8) (c : UInt8) :
    (base ++ (u ++ c :: r))[base.length + u.length]? = some c := by
  rw [← List.append_assoc, ← List.length_append, List.getElem?_append_right (Nat.le_refl _),
    Nat.sub_self]
  rfl

/-- The loop runs over the name. -/
theorem scan_name (hu : ∀ c ∈ u, nameChar c = true) (hi : base.length = i + 1) (w r : List UInt8)
    (turns : Nat) :
    scan (base ++ (w ++ (u ++ r))) i (u.length + turns)
        { n := base.length + w.length, str := if u ++ r = [] then w else [] } =
      scan (base ++ (w ++ (u ++ r))) i turns
        { n := base.length + (w ++ u).length, str := if r = [] then w ++ u else [] } := by
  induction u generalizing w with
  | nil => simp
  | cons c u ih =>
    rw [List.forall_mem_cons] at hu
    have hget := getElem?_behind_name base w (u ++ r) c
    have hdrop : (base ++ (w ++ (c :: u ++ r))).drop (i + 1) = w ++ (c :: u ++ r) := by
      rw [← hi, List.drop_left]
    have hlength : base.length + w.length + 1 = (base ++ (w ++ (c :: u ++ r))).length ↔
        u ++ r = [] := by
      rw [← List.length_eq_zero_iff]
      simp only [List.length_append, List.length_cons]
      omega
    have hpattern : w ++ [c] ++ (u ++ r) = w ++ (c :: u ++ r) := by simp
    have ih := ih hu.2 (w ++ [c])
    rw [hpattern, List.append_assoc w [c] u] at ih
    rw [List.length_cons, Nat.add_right_comm, scan_walk hget (.inl ⟨rfl, hu.1⟩)]
    refine Eq.trans (congrArg _ ?_) ih
    have hnext : base.length + w.length + 1 = base.length + (w ++ [c]).length := by
      rw [List.length_append, List.length_singleton, Nat.add_assoc]
    have hne : ¬c :: u ++ r = [] := List.cons_ne_nil _ _
    simp only [if_neg hne, and_true, hlength, hdrop, ← hnext]
    by_cases hur : u ++ r = []
    · rw [if_pos hur, if_pos hur, List.cons_append, hur]
    · rw [if_neg hur, if_neg hur]

/-- The loop runs over a format, which has not ended. -/
theorem scan_fmt (hu : 125 ∉ u) (hd : d.fmtStatus = 1) (hn : d.n = base.length) (hr : r ≠ []) :
    scan (base ++ (u ++ r)) i (u.length + turns) d =
      scan (base ++ (u ++ r)) i turns { d with n := base.length + u.length } := by
  induction u generalizing base d with
  | nil =>
    rw [List.length_nil, Nat.zero_add, Nat.add_zero, ← hn]
  | cons c u ih =>
    rw [List.mem_cons, not_or] at hu
    have hget : (base ++ (c :: u ++ r))[d.n]? = some c := by
      rw [hn, List.getElem?_append_right (Nat.le_refl _), Nat.sub_self]
      rfl
    have hlength : d.n + 1 ≠ (base ++ (c :: u ++ r)).length := by
      have := List.length_pos_iff.mpr hr
      simp only [List.length_append, List.length_cons]
      omega
    have hpattern : base ++ (c :: u ++ r) = base ++ [c] ++ (u ++ r) := by simp
    rw [List.length_cons, Nat.add_right_comm, scan_walk hget (.inr ⟨hd, Ne.symm hu.1⟩),
      if_neg fun h => hlength h.1, hpattern]
    have hih := @ih (base ++ [c]) { d with n := d.n + 1 } hu.2 hd (by simp [hn])
    have hn' : (base ++ [c]).length + u.length = base.length + (u.length + 1) := by
      rw [List.length_append, List.length_singleton]
      omega
    rw [hn'] at hih
    exact hih

/-- A format that does not end. -/
theorem scan_unclosed (hd : d.fmtStatus = 1) (h : 125 ∉ pattern.drop d.n) :
    (scan pattern i turns d).fmtStatus = 1 := by
  induction turns generalizing d with
  | zero => exact hd
  | succ turns ih =>
    cases hget : pattern[d.n]? with
    | none => rwa [scan_end hget]
    | some c =>
      have hdrop : pattern.drop d.n = c :: pattern.drop (d.n + 1) :=
        (List.getElem?_eq_some_iff.mp hget).elim fun hlt heq => heq ▸ List.drop_eq_getElem_cons hlt
      rw [hdrop, List.mem_cons, not_or] at h
      rw [scan_walk hget (.inr ⟨hd, Ne.symm h.1⟩)]
      exact ih hd h.2

/-- The turns that are left behind the name. -/
theorem scan_behind_name (hi : base.length = i + 1) (hu : ∀ c ∈ u, nameChar c = true)
    (r : List UInt8) :
    scan (base ++ (u ++ r)) i (base ++ (u ++ r)).length { n := i + 1 } =
      scan (base ++ (u ++ r)) i (base.length + r.length)
        { n := base.length + u.length, str := if r = [] then u else [] } := by
  have hname := scan_name hu hi [] r (base.length + r.length)
  have hturns : u.length + (base.length + r.length) = (base ++ (u ++ r)).length := by
    simp only [List.length_append]
    omega
  rw [hturns] at hname
  simpa [hi] using hname

/-- A directive whose name ends with the pattern, or in front of something else than a brace. -/
theorem scan_plain (hi : base.length = i + 1) (hu : ∀ c ∈ u, nameChar c = true)
    (hr : ∀ c ∈ r.head?, nameChar c = false ∧ c ≠ 123) :
    scan (base ++ (u ++ r)) i (base ++ (u ++ r)).length { n := i + 1 } =
      { n := base.length + u.length, str := u } := by
  rw [scan_behind_name hi hu]
  cases r with
  | nil => exact scan_end (by simp)
  | cons c r =>
    obtain ⟨hname, h123⟩ := hr c rfl
    obtain ⟨halpha, h125⟩ := nameChar_iff_false.mp hname
    have hget := getElem?_behind_name base u r c
    have hturns : base.length + (c :: r).length = i + 1 + r.length + 1 := by
      rw [List.length_cons]
      omega
    rw [if_neg (List.cons_ne_nil c r), hturns, scan_stop hget rfl ⟨halpha, h123, h125⟩]
    simp only [substr_name hi]

theorem scan_opened (hi : base.length = i + 1) (hu : ∀ c ∈ u, nameChar c = true)
    (t : List UInt8) :
    scan (base ++ (u ++ 123 :: t)) i (base ++ (u ++ 123 :: t)).length { n := i + 1 } =
      scan (base ++ (u ++ 123 :: t)) i (base.length + t.length)
        { n := base.length + u.length + 1, str := u, fmtStatus := 1,
          fmtBegin := base.length + u.length } := by
  have hget := getElem?_behind_name base u t 123
  rw [scan_behind_name hi hu, if_neg (List.cons_ne_nil _ t), List.length_cons, ← Nat.add_assoc,
    scan_open hget rfl]
  simp only [substr_name hi]

/-- A directive with a format. -/
theorem scan_braces (hi : base.length = i + 1) (hu : ∀ c ∈ u, nameChar c = true) (hv : 125 ∉ v)
    (r : List UInt8) :
    scan (base ++ (u ++ 123 :: (v ++ 125 :: r))) i
        (base ++ (u ++ 123 :: (v ++ 125 :: r))).length { n := i + 1 } =
      { n := base.length + u.length + 1 + v.length + 1, str := u, fmt := v,
        fmtBegin := base.length + u.length } := by
  have hpattern : base ++ (u ++ 123 :: (v ++ 125 :: r)) =
      (base ++ u ++ [123]) ++ (v ++ 125 :: r) := by
    simp
  have hopen : (base ++ u ++ [123]).length = base.length + u.length + 1 := by
    rw [List.length_append, List.length_append, List.length_singleton]
  have hturns : base.length + (v ++ 125 :: r).length = v.length + (base.length + r.length + 1) := by
    simp only [List.length_append, List.length_cons]
    omega
  have hget := getElem?_behind_name (base ++ u ++ [123]) v r 125
  rw [scan_opened hi hu, hturns, hpattern,
    scan_fmt hv rfl hopen.symm (List.cons_ne_nil _ _), scan_close hget rfl]
  have hsub := substr_name hopen v (125 :: r)
  simp only [hopen] at hsub ⊢
  simp only [hsub]

/-- A directive with a format that does not end. -/
theorem scan_open_unclosed (hi : base.length = i + 1) (hu : ∀ c ∈ u, nameChar c = true)
    (hr : 125 ∉ r) :
    (scan (base ++ (u ++ 123 :: r)) i (base ++ (u ++ 123 :: r)).length
      { n := i + 1 }).fmtStatus = 1 := by
  rw [scan_opened hi hu]
  have hdrop : (base ++ (u ++ 123 :: r)).drop (base.length + u.length + 1) = r := by
    have hpattern : base ++ (u ++ 123 :: r) = (base ++ u ++ [123]) ++ r := by simp
    rw [hpattern]
    exact List.drop_left' (by rw [List.length_append, List.length_append, List.length_singleton])
  refine scan_unclosed rfl ?_
  rwa [hdrop]

/-! ## Directives -/

variable {name tail fmt behind pre : List UInt8} {x : UInt8}

/-- A name with what is behind it is scanned as a directive. -/
theorem scan_of_tail (h : DirectiveTail tail fmt behind) (hname : ∀ c ∈ name, nameChar c = true)
    (pre : List UInt8) :
    ∃ used fmtBegin, pre ++ 37 :: (name ++ tail) = used ++ behind ∧
      scan (pre ++ 37 :: (name ++ tail)) pre.length (pre ++ 37 :: (name ++ tail)).length
        { n := pre.length + 1 } = { n := used.length, str := name, fmt, fmtBegin } := by
  have hbase : (pre ++ [37]).length = pre.length + 1 := by simp
  cases h with
  | plain hr =>
    have hscan := scan_plain hbase hname (r := tail) fun c hc =>
      ⟨nameChar_iff_false.mpr ⟨(hr c hc).1, (hr c hc).2.2⟩, (hr c hc).2.1⟩
    refine ⟨pre ++ [37] ++ name, 0, by simp, ?_⟩
    rw [List.append_assoc, List.singleton_append] at hscan
    rw [hscan]
    simp only [List.length_append]
  | braces hv =>
    have hscan := scan_braces hbase hname hv behind
    refine ⟨pre ++ [37] ++ (name ++ 123 :: (fmt ++ [125])), (pre ++ [37]).length + name.length,
      by simp, ?_⟩
    rw [List.append_assoc, List.singleton_append] at hscan
    rw [hscan]
    simp only [List.length_append, List.length_cons, List.length_nil]
    congr 1
    omega

/-- A text begins with a name; behind it is the tail of a directive, or a format that does not
    end. -/
theorem exists_tail (rest : List UInt8) :
    ∃ name tail, rest = name ++ tail ∧ (∀ c ∈ name, nameChar c = true) ∧
      ((∃ fmt behind, DirectiveTail tail fmt behind) ∨ ∃ t, tail = 123 :: t ∧ 125 ∉ t) := by
  refine ⟨rest.takeWhile nameChar, rest.dropWhile nameChar,
    List.takeWhile_append_dropWhile.symm, fun c hc => ?_, ?_⟩
  · exact List.all_eq_true.mp List.all_takeWhile c hc
  · have hstop := List.head?_dropWhile_not nameChar rest
    generalize rest.dropWhile nameChar = tail at *
    cases tail with
    | nil => exact .inl ⟨[], [], .plain nofun⟩
    | cons c t =>
      have hc : nameChar c = false := by simpa using hstop
      by_cases h123 : c = 123
      · by_cases h125 : 125 ∈ t
        · obtain ⟨fmt, behind, rfl, hfmt⟩ := List.eq_append_cons_of_mem h125
          exact .inl ⟨fmt, behind, h123 ▸ .braces hfmt⟩
        · exact .inr ⟨t, by rw [h123], h125⟩
      · refine .inl ⟨[], c :: t, .plain ?_⟩
        rintro _ ⟨⟩
        obtain ⟨halpha, hne⟩ := nameChar_iff_false.mp hc
        exact ⟨halpha, h123, hne⟩

/-- The letters of the table. -/
theorem formatItems_names : formatItems.map Prod.fst =
    [[109], [112], [114], [99], [116], [110], [100], [102], [108], [84], [70], [78]] := by
  decide +kernel

theorem nameChar_of_mem (h : [x] ∈ formatItems.map Prod.fst) : nameChar x = true := by
  rw [formatItems_names] at h
  have hall : ([[109], [112], [114], [99], [116], [110], [100], [102], [108], [84], [70],
      [78]] : List (List UInt8)).all (fun name => name.all nameChar) = true := by decide
  have := List.all_eq_true.mp hall [x] h
  simpa using this

theorem ne_percent_of_mem (h : [x] ∈ formatItems.map Prod.fst) : x ≠ 37 := by
  rintro rfl
  have := nameChar_of_mem h
  revert this
  decide

/-- The names of the table have one letter. -/
theorem exists_letter (h : name ∈ formatItems.map Prod.fst) : ∃ x, name = [x] := by
  rw [formatItems_names] at h
  have hall : ([[109], [112], [114], [99], [116], [110], [100], [102], [108], [84], [70],
      [78]] : List (List UInt8)).all (fun name => name.length = 1) = true := by decide
  have := List.all_eq_true.mp hall name h
  exact List.length_eq_one_iff.mp (of_decide_eq_true this)

theorem find?_isSome :
    (formatItems.find? (·.1 = name)).isSome ↔ name ∈ formatItems.map Prod.fst := by
  rw [List.find?_isSome, List.mem_map]
  simp only [decide_eq_true_eq]

theorem item_directive (name fmt : List UInt8) :
    (item (.directive name fmt)).2 = false ↔ name ∈ formatItems.map Prod.fst := by
  rw [← find?_isSome, item]
  split
  · rename_i heq
    simp [heq]
  · rename_i heq
    simp [heq]

theorem format_item {site : LogCallSite} (h : [x] ∈ formatItems.map Prod.fst) :
    (item (.directive [x] fmt)).1.format site = (Token.directive x fmt).format site := by
  obtain ⟨e, he⟩ := Option.isSome_iff_exists.mp (find?_isSome.mpr h)
  rw [item, Token.format, he]
  rfl

/-! ## The loop over the pattern -/

variable {p : Parts} {site : LogCallSite}

theorem split_end (h : pattern[p.i]? = none) : split pattern turns p = p := by
  cases turns with
  | zero => rfl
  | succ turns => rw [split, h]

theorem split_char (h : pattern[p.i]? = some c) (hc : c ≠ 37) :
    split pattern (turns + 1) p =
      split pattern turns { p with nstr := p.nstr ++ [c], i := p.i + 1 } := by
  rw [split, h]
  exact if_pos hc

theorem split_percent (h : pattern[p.i]? = some 37) (h' : pattern[p.i + 1]? = some 37) :
    split pattern (turns + 1) p =
      split pattern turns { p with nstr := p.nstr ++ [37], i := p.i + 1 } := by
  rw [split, h]
  exact (if_neg (by simp)).trans (if_pos h')

theorem split_directive (h : pattern[p.i]? = some 37) (h' : pattern[p.i + 1]? ≠ some 37)
    (hd : scan pattern p.i pattern.length { n := p.i + 1 } = d) (hstatus : d.fmtStatus = 0) :
    split pattern (turns + 1) p =
      split pattern turns
        { p.flush with vec := p.flush.vec ++ [.directive d.str d.fmt], i := d.n } := by
  rw [split, h]
  refine (if_neg (by simp)).trans ((if_neg h').trans ?_)
  simp only [hd]
  exact if_pos hstatus

theorem split_error (h : pattern[p.i]? = some 37) (h' : pattern[p.i + 1]? ≠ some 37)
    (hd : (scan pattern p.i pattern.length { n := p.i + 1 }).fmtStatus ≠ 0) :
    split pattern (turns + 1) p = split pattern turns { p with
      error := true, vec := p.vec ++ [.literal (str "<pattern_error>")], i := p.i + 1 } := by
  rw [split, h]
  exact (if_neg (by simp)).trans ((if_neg h').trans (if_neg hd))

/-- One turn of the loop: it ends, or it goes on behind the place where it is. -/
theorem split_cases (pattern : List UInt8) (p : Parts) :
    (pattern[p.i]? = none ∧ ∀ turns, split pattern turns p = p) ∨
      ∃ q, p.i < q.i ∧ ∀ turns, split pattern (turns + 1) p = split pattern turns q := by
  cases h : pattern[p.i]? with
  | none => exact .inl ⟨rfl, fun turns => split_end h⟩
  | some c =>
    refine .inr ?_
    by_cases hc : c = 37
    · subst hc
      by_cases h' : pattern[p.i + 1]? = some 37
      · refine ⟨_, ?_, fun turns => split_percent h h'⟩
        exact Nat.lt_succ_self _
      · by_cases hd : (scan pattern p.i pattern.length { n := p.i + 1 }).fmtStatus = 0
        · refine ⟨_, ?_, fun turns => split_directive h h' rfl hd⟩
          exact le_scan (Nat.le_refl (p.i + 1))
        · refine ⟨_, ?_, fun turns => split_error h h' hd⟩
          exact Nat.lt_succ_self _
    · refine ⟨_, ?_, fun turns => split_char h hc⟩
      exact Nat.lt_succ_self _

/-- Turns beyond the end of the pattern change nothing. -/
theorem split_succ (h : pattern.length ≤ p.i + turns) :
    split pattern (turns + 1) p = split pattern turns p := by
  induction turns generalizing p with
  | zero => exact split_end (List.getElem?_eq_none h)
  | succ turns ih =>
    rcases split_cases pattern p with ⟨-, hsplit⟩ | ⟨q, hq, hsplit⟩
    · rw [hsplit, hsplit]
    · rw [hsplit, hsplit]
      exact ih (by omega)

theorem split_add (h : pattern.length ≤ p.i + turns) (k : Nat) :
    split pattern (turns + k) p = split pattern turns p := by
  induction k with
  | zero => rfl
  | succ k ih => rw [← Nat.add_assoc, split_succ (by omega), ih]

/-! ## What is built -/

/-- What the items of `vec` and of the pending text write. -/
def written (site : LogCallSite) (p : Parts) : List UInt8 :=
  (p.vec.flatMap fun part => (item part).1.format site) ++ p.nstr

def failed (p : Parts) : Bool := p.error || p.vec.any fun part => (item part).2

theorem written_flush : written site p.flush = written site p := by
  rw [Parts.flush]
  split
  · rfl
  · simp [written, item, FormatItem.format]

theorem failed_flush : failed p.flush = failed p := by
  rw [Parts.flush]
  split
  · rfl
  · simp [failed, item]

theorem nstr_flush : p.flush.nstr = [] := by
  rw [Parts.flush]
  split
  · assumption
  · rfl

theorem format_init :
    (init pattern).format site = written site (split pattern pattern.length {}) := by
  rw [← written_flush, written, nstr_flush, List.append_nil, LogFormatter.format, init]
  simp only [List.map_map, List.flatMap_map]
  rfl

theorem isError_eq : isError pattern = failed (split pattern pattern.length {}) := by
  rw [← failed_flush, failed, isError, init]
  simp only [List.any_map]
  rfl

/-- A directive goes to `vec`. -/
def Parts.push (p : Parts) (name fmt : List UInt8) (n : Nat) : Parts :=
  { p.flush with vec := p.flush.vec ++ [.directive name fmt], i := n }

theorem written_push : written site (p.push name fmt n) =
    written site p ++ (item (.directive name fmt)).1.format site := by
  rw [← written_flush (p := p), written, written, Parts.push, nstr_flush]
  simp

theorem failed_push : failed (p.push name fmt n) =
    (failed p || (item (.directive name fmt)).2) := by
  rw [← failed_flush (p := p), failed, failed, Parts.push]
  simp [Bool.or_assoc]

/-- An error stays. -/
theorem failed_split (h : failed p = true) : failed (split pattern turns p) = true := by
  induction turns generalizing p with
  | zero => exact h
  | succ turns ih =>
    cases hget : pattern[p.i]? with
    | none => rwa [split_end hget]
    | some c =>
      by_cases hc : c = 37
      · subst hc
        by_cases h' : pattern[p.i + 1]? = some 37
        · rw [split_percent hget h']
          exact ih h
        · by_cases hd : (scan pattern p.i pattern.length { n := p.i + 1 }).fmtStatus = 0
          · rw [split_directive hget h' rfl hd]
            refine ih (p := p.push _ _ _) ?_
            rw [failed_push, h]
            rfl
          · rw [split_error hget h' hd]
            exact ih rfl
      · rw [split_char hget hc]
        exact ih h

/-! ## What is accepted -/

variable {s rest : List UInt8} {ts : List Token}

theorem getElem?_pre (pre rest : List UInt8) (c : UInt8) :
    (pre ++ c :: rest)[pre.length]? = some c := by
  rw [List.getElem?_append_right (Nat.le_refl _), Nat.sub_self]
  rfl

theorem getElem?_next (pre rest : List UInt8) (c : UInt8) :
    (pre ++ c :: rest)[pre.length + 1]? = rest.head? := by
  rw [List.getElem?_append_right (Nat.le_add_right _ 1), Nat.add_sub_cancel_left,
    List.getElem?_cons_succ, List.head?_eq_getElem?]

theorem exists_turn (h : (c :: s).length ≤ turns) : ∃ t, turns = t + 1 ∧ s.length ≤ t := by
  cases turns with
  | zero => exact absurd h (Nat.not_succ_le_zero _)
  | succ t => exact ⟨t, rfl, Nat.le_of_succ_le_succ h⟩

/-- One turn over a character that is written as it is. -/
theorem split_over_char (hi : p.i = pre.length) (hc : c ≠ 37) (s : List UInt8) (turns : Nat) :
    split (pre ++ c :: s) (turns + 1) p =
      split (pre ++ [c] ++ s) turns
        { p with nstr := p.nstr ++ [c], i := (pre ++ [c]).length } := by
  rw [split_char (hi ▸ getElem?_pre pre s c) hc, hi, List.append_assoc, List.length_append]
  rfl

/-- One turn over an escape, which leaves the second `%`. -/
theorem split_over_percent (hi : p.i = pre.length) (s : List UInt8) (turns : Nat) :
    split (pre ++ 37 :: 37 :: s) (turns + 1) p =
      split (pre ++ [37] ++ 37 :: s) turns
        { p with nstr := p.nstr ++ [37], i := (pre ++ [37]).length } := by
  rw [split_percent (hi ▸ getElem?_pre pre (37 :: s) 37) (hi ▸ getElem?_next pre (37 :: s) 37), hi,
    List.append_assoc, List.length_append]
  rfl

/-- One turn over a directive. -/
theorem split_over_directive (hi : p.i = pre.length) (hhead : (name ++ tail).head? ≠ some 37)
    (hname : ∀ c ∈ name, nameChar c = true) (htail : DirectiveTail tail fmt behind) :
    ∃ used, ∀ turns, split (pre ++ 37 :: (name ++ tail)) (turns + 1) p =
      split (used ++ behind) turns (p.push name fmt used.length) := by
  have hget : (pre ++ 37 :: (name ++ tail))[p.i]? = some 37 := hi ▸ getElem?_pre pre _ 37
  have hnext : (pre ++ 37 :: (name ++ tail))[p.i + 1]? ≠ some 37 := by
    rwa [hi, getElem?_next pre (name ++ tail) 37]
  obtain ⟨used, fmtBegin, hpattern, hscan⟩ := scan_of_tail htail hname pre
  rw [← hi] at hscan
  refine ⟨used, fun turns => ?_⟩
  rw [split_directive hget hnext hscan rfl, hpattern]
  rfl

/-- The loop over a pattern that is read with the second `%` of an escape once more. -/
theorem split_of_reads (h : Reads true s ts) : ∀ (pre : List UInt8) (p : Parts) (turns : Nat),
    p.i = pre.length → s.length ≤ turns →
    (∀ site, written site (split (pre ++ s) turns p) = written site p ++ meaning site ts) ∧
      failed (split (pre ++ s) turns p) = failed p := by
  induction h with
  | nil =>
    intro pre p turns hi _
    rw [split_end (by simp [hi])]
    exact ⟨fun site => (List.append_nil _).symm, rfl⟩
  | @char c s ts hc _ ih =>
    intro pre p turns hi hturns
    obtain ⟨turns, rfl, hlen⟩ := exists_turn hturns
    obtain ⟨hwritten, hfailed⟩ := ih _ { p with nstr := p.nstr ++ [c], i := _ } turns rfl hlen
    rw [split_over_char hi hc]
    refine ⟨fun site => (hwritten site).trans ?_, hfailed⟩
    simp [written, meaning, Token.format]
  | @percent s ts _ ih =>
    intro pre p turns hi hturns
    obtain ⟨turns, rfl, hlen⟩ := exists_turn hturns
    obtain ⟨hwritten, hfailed⟩ := ih _ { p with nstr := p.nstr ++ [37], i := _ } turns rfl hlen
    rw [if_pos rfl] at hwritten hfailed
    rw [split_over_percent hi]
    refine ⟨fun site => (hwritten site).trans ?_, hfailed⟩
    simp [written, meaning, Token.format]
  | @directive x tail fmt s ts hx htail _ ih =>
    intro pre p turns hi hturns
    obtain ⟨turns, rfl, hlen⟩ := exists_turn hturns
    have hhead : ([x] ++ tail).head? ≠ some 37 := fun heq =>
      ne_percent_of_mem hx (Option.some.inj heq)
    have hname : ∀ c ∈ [x], nameChar c = true := by
      simpa using nameChar_of_mem hx
    obtain ⟨used, hsplit⟩ := split_over_directive hi hhead hname htail
    obtain ⟨hwritten, hfailed⟩ := ih used (p.push [x] fmt used.length) turns rfl
      (htail.length_le.trans ((Nat.le_succ _).trans hlen))
    rw [List.singleton_append] at hsplit
    rw [hsplit]
    refine ⟨fun site => (hwritten site).trans ?_, hfailed.trans ?_⟩
    · rw [written_push, format_item hx, List.append_assoc]
      rfl
    · rw [failed_push, (item_directive [x] fmt).mpr hx, Bool.or_false]

/-- The loop ends with an error, whatever was there before. -/
def Fails (s : List UInt8) : Prop := ∀ (pre : List UInt8) (p : Parts) (turns : Nat),
  p.i = pre.length → s.length ≤ turns → failed (split (pre ++ s) turns p) = true

theorem fails_char (hc : c ≠ 37) (h : Fails s) : Fails (c :: s) := by
  intro pre p turns hi hturns
  obtain ⟨turns, rfl, hlen⟩ := exists_turn hturns
  rw [split_over_char hi hc]
  exact h _ _ turns rfl hlen

theorem fails_percent (h : Fails (37 :: s)) : Fails (37 :: 37 :: s) := by
  intro pre p turns hi hturns
  obtain ⟨turns, rfl, hlen⟩ := exists_turn hturns
  rw [split_over_percent hi]
  exact h _ _ turns rfl hlen

theorem fails_directive (hhead : (name ++ tail).head? ≠ some 37)
    (hname : ∀ c ∈ name, nameChar c = true) (htail : DirectiveTail tail fmt behind)
    (h : name ∉ formatItems.map Prod.fst ∨ Fails behind) : Fails (37 :: (name ++ tail)) := by
  intro pre p turns hi hturns
  obtain ⟨turns, rfl, hlen⟩ := exists_turn hturns
  obtain ⟨used, hsplit⟩ := split_over_directive hi hhead hname htail
  rw [hsplit]
  rcases h with hnot | h
  · have hitem : (item (.directive name fmt)).2 = true := by
      rw [← Bool.not_eq_false, item_directive]
      exact hnot
    apply failed_split
    rw [failed_push, hitem, Bool.or_true]
  · have hbehind := htail.length_le
    rw [List.length_append] at hlen
    exact h used (p.push name fmt used.length) turns rfl (by omega)

theorem fails_unclosed (hhead : (name ++ 123 :: rest).head? ≠ some 37)
    (hname : ∀ c ∈ name, nameChar c = true) (hrest : 125 ∉ rest) :
    Fails (37 :: (name ++ 123 :: rest)) := by
  intro pre p turns hi hturns
  obtain ⟨turns, rfl, -⟩ := exists_turn hturns
  have hget : (pre ++ 37 :: (name ++ 123 :: rest))[p.i]? = some 37 := hi ▸ getElem?_pre pre _ 37
  have hnext : (pre ++ 37 :: (name ++ 123 :: rest))[p.i + 1]? ≠ some 37 := by
    rwa [hi, getElem?_next pre (name ++ 123 :: rest) 37]
  have hbase : (pre ++ [37]).length = p.i + 1 := by simp [hi]
  have hscan := scan_open_unclosed hbase hname hrest
  rw [List.append_assoc, List.singleton_append] at hscan
  rw [split_error hget hnext (by rw [hscan]; decide)]
  exact failed_split rfl

/-- Any other pattern is an error. -/
theorem reads_or_fails (s : List UInt8) : (∃ ts, Reads true s ts) ∨ Fails s := by
  induction hlen : s.length using Nat.strong_induction_on generalizing s with
  | _ len ih =>
    cases s with
    | nil => exact .inl ⟨[], .nil⟩
    | cons c s =>
      rw [List.length_cons] at hlen
      by_cases hc : c = 37
      · subst hc
        by_cases hhead : s.head? = some 37
        · obtain ⟨s, rfl⟩ : ∃ s', s = 37 :: s' := ⟨_, List.eq_cons_of_mem_head? hhead⟩
          rcases ih _ (by omega) (37 :: s) rfl with ⟨ts, hts⟩ | hfails
          · exact .inl ⟨_, .percent hts⟩
          · exact .inr (fails_percent hfails)
        · obtain ⟨name, tail, rfl, hname, ⟨fmt, behind, htail⟩ | ⟨t, rfl, ht⟩⟩ := exists_tail s
          · by_cases htable : name ∈ formatItems.map Prod.fst
            · have hlt : behind.length < len := by
                have := htail.length_le
                rw [List.length_append] at hlen
                omega
              rcases ih _ hlt behind rfl with ⟨ts, hts⟩ | hfails
              · obtain ⟨x, rfl⟩ := exists_letter htable
                exact .inl ⟨_, .directive htable htail hts⟩
              · exact .inr (fails_directive hhead hname htail (.inr hfails))
            · exact .inr (fails_directive hhead hname htail (.inl htable))
          · exact .inr (fails_unclosed hhead hname ht)
      · rcases ih _ (by omega) s rfl with ⟨ts, hts⟩ | hfails
        · exact .inl ⟨_, .char hc hts⟩
        · exact .inr (fails_char hc hfails)

theorem isError_of_reads (h : Reads true pattern ts) : isError pattern = false ∧
    ∀ site, (init pattern).format site = meaning site ts := by
  obtain ⟨hwritten, hfailed⟩ := split_of_reads h [] {} pattern.length rfl (Nat.le_refl _)
  refine ⟨isError_eq.trans hfailed, fun site => ?_⟩
  rw [format_init]
  exact hwritten site

theorem isError_iff : isError pattern = true ↔ ∀ ts, ¬Reads true pattern ts := by
  constructor
  · intro herror ts hts
    rw [(isError_of_reads hts).1] at herror
    cases herror
  · intro hnot
    rcases reads_or_fails pattern with ⟨ts, hts⟩ | hfails
    · exact absurd hts (hnot ts)
    · rw [isError_eq]
      exact hfails [] {} pattern.length rfl (Nat.le_refl _)

end LogFormatter

/-! ## The grammar -/

section Grammar

variable {again : Bool} {p tail fmt fmt' behind behind' : List UInt8} {ts : List Token}
  {c x : UInt8}

theorem DirectiveTail.unique (h : DirectiveTail tail fmt behind)
    (h' : DirectiveTail tail fmt' behind') : fmt = fmt' ∧ behind = behind' := by
  cases h with
  | plain hhead =>
    cases h' with
    | plain => exact ⟨rfl, rfl⟩
    | braces => exact absurd rfl (hhead 123 rfl).2.1
  | braces hfmt =>
    generalize htail : fmt ++ 125 :: behind = rest at h'
    generalize hcons : 123 :: rest = tail at h'
    cases h' with
    | plain hhead =>
      subst hcons
      exact absurd rfl (hhead 123 rfl).2.1
    | braces hfmt' =>
      have heq : fmt ++ 125 :: behind = fmt' ++ 125 :: behind' :=
        htail.trans (List.cons.inj hcons).2
      have htake : ∀ w v : List UInt8, 125 ∉ w → (w ++ 125 :: v).takeWhile (· ≠ 125) = w := by
        intro w v hw
        have hall : ∀ b ∈ w, decide (b ≠ 125) = true := fun b hb =>
          decide_eq_true fun h => hw (h ▸ hb)
        rw [List.takeWhile_append_of_pos hall]
        simp
      have hsame : fmt = fmt' := by
        rw [← htake fmt behind hfmt, heq, htake fmt' behind' hfmt']
      subst hsame
      exact ⟨rfl, (List.cons.inj (List.append_cancel_left heq)).2⟩

theorem reads_char (h : Reads again (c :: p) ts) (hc : c ≠ 37) :
    ∃ ts', ts = .char c :: ts' ∧ Reads again p ts' := by
  cases h with
  | char _ h => exact ⟨_, rfl, h⟩
  | percent => exact absurd rfl hc
  | directive => exact absurd rfl hc

theorem reads_percent (h : Reads again (37 :: 37 :: p) ts) :
    ∃ ts', ts = .percent :: ts' ∧ Reads again (if again then 37 :: p else p) ts' := by
  cases h with
  | char hc => exact absurd rfl hc
  | percent h => exact ⟨_, rfl, h⟩
  | directive hx => exact absurd rfl (LogFormatter.ne_percent_of_mem hx)

theorem reads_directive (h : Reads again (37 :: x :: tail) ts) (hx : x ≠ 37) :
    ∃ fmt p ts', ts = .directive x fmt :: ts' ∧ [x] ∈ formatItems.map Prod.fst ∧
      DirectiveTail tail fmt p ∧ Reads again p ts' := by
  cases h with
  | char hc => exact absurd rfl hc
  | percent => exact absurd rfl hx
  | directive htable htail h => exact ⟨_, _, _, rfl, htable, htail, h⟩

/-- A pattern is read in one way. -/
theorem Reads.unique (h : Reads again p ts) : ∀ ts', Reads again p ts' → ts = ts' := by
  induction h with
  | nil =>
    intro ts' h'
    cases h'
    rfl
  | char hc _ ih =>
    intro ts' h'
    obtain ⟨ts'', rfl, h''⟩ := reads_char h' hc
    rw [ih ts'' h'']
  | percent _ ih =>
    intro ts' h'
    obtain ⟨ts'', rfl, h''⟩ := reads_percent h'
    rw [ih ts'' h'']
  | directive hx htail _ ih =>
    intro ts' h'
    obtain ⟨fmt', p', ts'', rfl, -, htail', h''⟩ :=
      reads_directive h' (LogFormatter.ne_percent_of_mem hx)
    obtain ⟨rfl, rfl⟩ := htail.unique htail'
    rw [ih ts'' h'']

/-- Without escapes there is no second `%`. -/
theorem Reads.of_plain (h : Reads false p ts) (hts : Token.percent ∉ ts) : Reads true p ts := by
  induction h with
  | nil => exact .nil
  | char hc _ ih => exact .char hc (ih fun h => hts (List.mem_cons_of_mem _ h))
  | percent => exact absurd List.mem_cons_self hts
  | directive hx htail _ ih =>
    exact .directive hx htail (ih fun h => hts (List.mem_cons_of_mem _ h))

/-! ## An event that tells the tokens apart -/

/-- What a directive writes for this event does not begin with its letter, nor with `%`. -/
def markedSite : LogCallSite where
  event :=
    { content := [63], loggerName := [63], threadName := [63], file := [63], line := 0,
      elapse := 0, threadId := 0, fiberId := 0, time := 0 }
  level := .info
  strftime _ _ := [63]

theorem format_markedSite (e : List UInt8 × (List UInt8 → FormatItem)) (he : e ∈ formatItems)
    (fmt : List UInt8) :
    ∃ b l, (e.2 fmt).format markedSite = b :: l ∧ b ≠ 37 ∧ e.1 ≠ [b] := by
  have hinfo : LogLevel.info.toString = 73 :: [78, 70, 79] := by decide +kernel
  have hnat : str (ToString.toString (0 : UInt32).toNat) = 48 :: [] := by decide +kernel
  have hint : str (ToString.toString (0 : Int)) = 48 :: [] := by decide +kernel
  have hnewLine : str "\n" = 10 :: [] := by decide +kernel
  have htab : str "\t" = 9 :: [] := by decide +kernel
  simp only [formatItems, List.mem_cons, List.not_mem_nil, or_false] at he
  rcases he with rfl | rfl | rfl | rfl | rfl | rfl | rfl | rfl | rfl | rfl | rfl | rfl
  · exact ⟨63, [], rfl, by decide, by decide +kernel⟩
  · exact ⟨73, _, hinfo, by decide, by decide +kernel⟩
  · exact ⟨48, _, hnat, by decide, by decide +kernel⟩
  · exact ⟨63, [], rfl, by decide, by decide +kernel⟩
  · exact ⟨48, _, hnat, by decide, by decide +kernel⟩
  · exact ⟨10, _, hnewLine, by decide, by decide +kernel⟩
  · exact ⟨63, [], rfl, by decide, by decide +kernel⟩
  · exact ⟨63, [], rfl, by decide, by decide +kernel⟩
  · exact ⟨48, _, hint, by decide, by decide +kernel⟩
  · exact ⟨9, _, htab, by decide, by decide +kernel⟩
  · exact ⟨48, _, hnat, by decide, by decide +kernel⟩
  · exact ⟨63, [], rfl, by decide, by decide +kernel⟩

theorem directive_markedSite (h : [x] ∈ formatItems.map Prod.fst) (fmt : List UInt8) :
    ∃ b l, (Token.directive x fmt).format markedSite = b :: l ∧ b ≠ 37 ∧ b ≠ x := by
  obtain ⟨e, he⟩ := Option.isSome_iff_exists.mp (LogFormatter.find?_isSome.mpr h)
  obtain ⟨b, l, hformat, hpercent, hletter⟩ :=
    format_markedSite e (List.mem_of_find?_eq_some he) fmt
  have hname : e.1 = [x] := by simpa using List.find?_some he
  refine ⟨b, l, ?_, hpercent, fun hx => hletter (by rw [hname, hx])⟩
  rw [Token.format, he]
  exact hformat

theorem meaning_cons (site : LogCallSite) (t : Token) (ts : List Token) :
    meaning site (t :: ts) = t.format site ++ meaning site ts := List.flatMap_cons

theorem replicate_append_cons {α : Type} (a : α) (k : Nat) (l : List α) :
    List.replicate k a ++ a :: l = a :: (List.replicate k a ++ l) := by
  rw [List.append_cons, ← List.replicate_succ', List.replicate_succ, List.cons_append]

/-- Behind an escape the loop goes wrong: with the second `%` read again, what is written is not
    what is meant, however many `%` are in front. -/
theorem meaning_again_ne (h : Reads false p ts) : ∀ ts' k, Reads true (37 :: p) ts' →
    meaning markedSite ts ≠ List.replicate k 37 ++ meaning markedSite ts' := by
  induction h with
  | nil =>
    intro ts' k h'
    cases h' with
    | char hc => exact absurd rfl hc
  | @char c p ts hc _ _ =>
    intro ts' k h' heq
    obtain ⟨fmt, p', ts'', rfl, hx, -, -⟩ := reads_directive h' hc
    obtain ⟨b, l, hformat, hpercent, hletter⟩ := directive_markedSite hx fmt
    rw [meaning_cons, meaning_cons, hformat] at heq
    cases k with
    | zero => exact hletter (List.cons.inj heq).1.symm
    | succ k => exact hc (List.cons.inj heq).1
  | @percent p ts _ ih =>
    intro ts' k h' heq
    obtain ⟨ts'', rfl, hagain⟩ := reads_percent h'
    rw [if_pos rfl] at hagain
    obtain ⟨tss, rfl, hrest⟩ := reads_percent hagain
    rw [meaning_cons, meaning_cons, meaning_cons] at heq
    refine ih tss (k + 1) hrest ?_
    have hshift := replicate_append_cons (37 : UInt8) k (37 :: meaning markedSite tss)
    rw [replicate_append_cons 37 k (meaning markedSite tss)] at hshift
    exact (List.cons.inj (heq.trans hshift)).2
  | @directive x tail fmt p ts hx htail _ _ =>
    intro ts' k h' heq
    obtain ⟨b, l, hformat, hpercent, -⟩ := directive_markedSite hx fmt
    obtain ⟨ts'', rfl, -⟩ := reads_percent h'
    rw [meaning_cons, meaning_cons, hformat] at heq
    exact hpercent (List.cons.inj (heq.trans (replicate_append_cons 37 k _))).1

/-- A pattern with an escape is not written as it is meant. -/
theorem meaning_ne (h : Reads false p ts) (hts : Token.percent ∈ ts) :
    ∀ ts', Reads true p ts' → meaning markedSite ts ≠ meaning markedSite ts' := by
  induction h with
  | nil => cases hts
  | char hc _ ih =>
    intro ts' h' heq
    obtain ⟨ts'', rfl, h''⟩ := reads_char h' hc
    rw [meaning_cons, meaning_cons] at heq
    refine ih ?_ ts'' h'' (List.append_cancel_left heq)
    exact (List.mem_cons.mp hts).resolve_left nofun
  | percent h _ =>
    intro ts' h' heq
    obtain ⟨ts'', rfl, h''⟩ := reads_percent h'
    rw [meaning_cons, meaning_cons] at heq
    exact meaning_again_ne h ts'' 0 h'' (List.append_cancel_left heq)
  | directive hx htail _ ih =>
    intro ts' h' heq
    obtain ⟨fmt', p', ts'', rfl, -, htail', h''⟩ :=
      reads_directive h' (LogFormatter.ne_percent_of_mem hx)
    obtain ⟨rfl, rfl⟩ := htail.unique htail'
    rw [meaning_cons, meaning_cons] at heq
    refine ih ?_ ts'' h'' (List.append_cancel_left heq)
    exact (List.mem_cons.mp hts).resolve_left nofun

end Grammar

/-- A pattern is taken apart as it should exactly if it has no escapes, or is neither a pattern of
    the grammar nor one when the second `%` of each escape is read again. -/
theorem pattern_right_iff (pattern : List UInt8) :
    PatternRight pattern ↔ ((∃ again ts, Reads again pattern ts) → Plain pattern) := by
  constructor
  · intro h
    have hfalse : ∀ ts, Reads false pattern ts → Plain pattern := by
      intro ts hts
      refine ⟨ts, hts, fun hpercent => ?_⟩
      obtain ⟨herror, hformat⟩ := h.built ts hts
      have hnot : ¬∀ ts', ¬Reads true pattern ts' := by
        rw [← LogFormatter.isError_iff, herror]
        exact Bool.false_ne_true
      obtain ⟨ts', hts'⟩ := not_forall_not.mp hnot
      refine meaning_ne hts hpercent ts' hts' ?_
      rw [← hformat, (LogFormatter.isError_of_reads hts').2]
    rintro ⟨again, ts, hts⟩
    cases again with
    | false => exact hfalse ts hts
    | true =>
      by_contra hplain
      have herror := h.refused fun ts' hts' => hplain (hfalse ts' hts')
      rw [(LogFormatter.isError_of_reads hts).1] at herror
      cases herror
  · intro h
    constructor
    · intro ts hts
      obtain ⟨ts', hts', hplain⟩ := h ⟨false, ts, hts⟩
      obtain rfl := hts.unique ts' hts'
      exact LogFormatter.isError_of_reads (hts.of_plain hplain)
    · intro hnot
      rw [LogFormatter.isError_iff]
      intro ts hts
      obtain ⟨ts', hts', -⟩ := h ⟨true, ts, hts⟩
      exact hnot ts' hts'
    · intro i _
      exact LogFormatter.le_scan (Nat.le_refl (i + 1))
    · intro i turns hturns
      obtain ⟨k, rfl⟩ := Nat.exists_eq_add_of_le hturns
      exact LogFormatter.scan_add (by simp only; omega) k
    · intro turns hturns
      obtain ⟨k, rfl⟩ := Nat.exists_eq_add_of_le hturns
      exact LogFormatter.split_add (Nat.le_add_left _ _) k

/-- The pattern `100%%` is an error. -/
theorem pattern_right_not :
    Reads false (str "100%%") [.char 49, .char 48, .char 48, .percent] ∧
      LogFormatter.isError (str "100%%") = true ∧ ¬PatternRight (str "100%%") := by
  have hstr : str "100%%" = [49, 48, 48, 37, 37] := by decide +kernel
  have hreads : Reads false (str "100%%") [.char 49, .char 48, .char 48, .percent] := by
    rw [hstr]
    exact .char (by decide) (.char (by decide) (.char (by decide) (.percent .nil)))
  have herror : LogFormatter.isError (str "100%%") = true := by decide +kernel
  refine ⟨hreads, herror, fun h => ?_⟩
  rw [(h.built _ hreads).1] at herror
  cases herror

end CppServerFramework.Log
