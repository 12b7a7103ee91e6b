import CppServerFramework.HTTP.RequestParserProps
import CppServerFramework.HTTP.Dump

/-!
# The texts of a head that comes in two reads

The parser stores positions in the buffer, and the next read writes over the buffer from its
beginning.  A text that begins in one read and ends in the next is taken from the position stored
in the first up to the one in the second, both counted in the second; if it ends in front of its
beginning its length wraps.
-/

namespace CppServerFramework.HTTP
open CInt RequestAction

/-- An action as it is taken: what the buffer holds, and the position in it. -/
structure Taken where
  mem : Bytes
  pos : Nat
  action : RequestAction

/-- The actions on bytes that stand at a position of the buffer, from a state of the scanner. -/
def taken (uriRelaxed : Bool) (mem : Bytes) (st p : Nat) (bs : Bytes) : List Taken :=
  ((httpParserScanner uriRelaxed).scan st p bs).events.map fun e => ⟨mem, e.1, e.2⟩

theorem taken_cons (uriRelaxed : Bool) (mem : Bytes) (st p : Nat) (b : UInt8) (bs : Bytes) :
    taken uriRelaxed mem st p (b :: bs) =
      (((httpParserScanner uriRelaxed).next st b).2.map fun a => ⟨mem, p, a⟩) ++
        if (httpParserScanner uriRelaxed).breaksOn st b = true ∨
            ((httpParserScanner uriRelaxed).next st b).1 = 0 then []
        else taken uriRelaxed mem ((httpParserScanner uriRelaxed).next st b).1 (p + 1) bs := by
  rw [taken, Scanner.scan]
  by_cases hbreak : (httpParserScanner uriRelaxed).breaksOn st b = true
  · simp [hbreak, Function.comp_def]
  · by_cases hzero : ((httpParserScanner uriRelaxed).next st b).1 = 0
    · simp [hbreak, hzero, Function.comp_def]
    · simp [hbreak, hzero, Function.comp_def, taken]

/-- The positions that the actions store. -/
structure RequestMarks where
  mark : Nat
  fieldStart : Nat
  fieldStop : Nat
  queryStart : Nat

namespace RequestMarks

def zero : RequestMarks := ⟨0, 0, 0, 0⟩

def after (r : RequestMarks) (e : Taken) : RequestMarks :=
  match e.action with
  | .mark | .startValue => { r with mark := e.pos }
  | .startField => { r with fieldStart := e.pos }
  | .writeField => { r with fieldStop := e.pos }
  | .startQuery => { r with queryStart := e.pos }
  | _ => r

def afterAll (r : RequestMarks) (es : List Taken) : RequestMarks := es.foldl after r

/-- The text that an action ends does not end in front of its beginning.  The value of a header
    whose name comes out empty is not looked at. -/
def Ordered (r : RequestMarks) (e : Taken) : Prop :=
  match e.action with
  | .fragment | .requestPath => r.mark ≤ e.pos
  | .queryString => r.queryStart ≤ e.pos
  | .writeField => r.fieldStart ≤ e.pos
  | .writeValue => r.fieldStart = r.fieldStop ∨ r.mark ≤ e.pos
  | _ => True

/-- The method is in the table, and the version is 1.0 or 1.1. -/
def Known (r : RequestMarks) (e : Taken) : Prop :=
  match e.action with
  | .requestMethod => charsToHttpMethod (e.mem.drop r.mark) ≠ .invalidMethod
  | .httpVersion =>
    strncmpEq e.mem r.mark (ascii "HTTP/1.1") (subSize e.pos r.mark) = true ∨
      strncmpEq e.mem r.mark (ascii "HTTP/1.0") (subSize e.pos r.mark) = true
  | _ => True

/-- The header line that an action ends: its name and its value. -/
def line (r : RequestMarks) (e : Taken) : Option (Bytes × Bytes) :=
  if e.action = .writeValue ∧ r.fieldStart ≠ r.fieldStop then
    some ((e.mem.drop r.fieldStart).take (r.fieldStop - r.fieldStart),
      (e.mem.drop r.mark).take (e.pos - r.mark))
  else none

/-- A property of every action and of the positions that are stored when it is taken. -/
def Along (P : RequestMarks → Taken → Prop) : RequestMarks → List Taken → Prop
  | _, [] => True
  | r, e :: es => P r e ∧ Along P (r.after e) es

/-- The header lines of a head. -/
def headerLines : RequestMarks → List Taken → List (Bytes × Bytes)
  | _, [] => []
  | r, e :: es => (r.line e).toList ++ headerLines (r.after e) es

instance decidableOrdered (r : RequestMarks) : (e : Taken) → Decidable (r.Ordered e)
  | ⟨_, p, .fragment⟩ | ⟨_, p, .requestPath⟩ => inferInstanceAs (Decidable (r.mark ≤ p))
  | ⟨_, p, .queryString⟩ => inferInstanceAs (Decidable (r.queryStart ≤ p))
  | ⟨_, p, .writeField⟩ => inferInstanceAs (Decidable (r.fieldStart ≤ p))
  | ⟨_, p, .writeValue⟩ => inferInstanceAs (Decidable (r.fieldStart = r.fieldStop ∨ r.mark ≤ p))
  | ⟨_, _, .mark⟩ | ⟨_, _, .startField⟩ | ⟨_, _, .startValue⟩ | ⟨_, _, .requestMethod⟩
  | ⟨_, _, .requestUri⟩ | ⟨_, _, .startQuery⟩ | ⟨_, _, .httpVersion⟩ | ⟨_, _, .done⟩
  | ⟨_, _, .xml⟩ | ⟨_, _, .json⟩ => .isTrue trivial

instance decidableAlong (P : RequestMarks → Taken → Prop) [∀ r e, Decidable (P r e)] :
    (r : RequestMarks) → (es : List Taken) → Decidable (r.Along P es)
  | _, [] => .isTrue trivial
  | r, e :: es =>
    have := decidableAlong P (r.after e) es
    inferInstanceAs (Decidable (_ ∧ _))

variable {P : RequestMarks → Taken → Prop} {r : RequestMarks} {es fs : List Taken}

theorem along_append :
    r.Along P (es ++ fs) ↔ r.Along P es ∧ (r.afterAll es).Along P fs := by
  induction es generalizing r with
  | nil => simp [Along, afterAll]
  | cons e es ih => simp only [List.cons_append, Along, ih, afterAll, List.foldl_cons, and_assoc]

theorem headerLines_append (r : RequestMarks) (es fs : List Taken) :
    r.headerLines (es ++ fs) = r.headerLines es ++ (r.afterAll es).headerLines fs := by
  induction es generalizing r with
  | nil => rfl
  | cons e es ih =>
    simp only [List.cons_append, headerLines, ih, List.append_assoc, afterAll, List.foldl_cons]

theorem afterAll_append (r : RequestMarks) (es fs : List Taken) :
    r.afterAll (es ++ fs) = (r.afterAll es).afterAll fs :=
  List.foldl_append

/-- The positions lie no further than `p`. -/
structure UpTo (r : RequestMarks) (p : Nat) : Prop where
  mark : r.mark ≤ p
  fieldStart : r.fieldStart ≤ p
  queryStart : r.queryStart ≤ p

theorem UpTo.mono {p q : Nat} (h : r.UpTo p) (hpq : p ≤ q) : r.UpTo q :=
  ⟨h.mark.trans hpq, h.fieldStart.trans hpq, h.queryStart.trans hpq⟩

theorem UpTo.after {e : Taken} (h : r.UpTo e.pos) : (r.after e).UpTo e.pos := by
  rw [RequestMarks.after]
  split
  · exact ⟨le_rfl, h.fieldStart, h.queryStart⟩
  · exact ⟨le_rfl, h.fieldStart, h.queryStart⟩
  · exact ⟨h.mark, le_rfl, h.queryStart⟩
  · exact ⟨h.mark, h.fieldStart, h.queryStart⟩
  · exact ⟨h.mark, h.fieldStart, le_rfl⟩
  · exact h

theorem UpTo.ordered {e : Taken} (h : r.UpTo e.pos) : r.Ordered e := by
  rw [Ordered]
  split
  · exact h.mark
  · exact h.mark
  · exact h.queryStart
  · exact h.fieldStart
  · exact Or.inr h.mark
  · trivial

/-- The actions of one byte. -/
theorem UpTo.along (mem : Bytes) {p : Nat} (as : List RequestAction) (h : r.UpTo p) :
    r.Along Ordered (as.map fun a => ⟨mem, p, a⟩) ∧
      (r.afterAll (as.map fun a => ⟨mem, p, a⟩)).UpTo p := by
  induction as generalizing r with
  | nil => exact ⟨trivial, h⟩
  | cons a as ih =>
    have hafter : (r.after ⟨mem, p, a⟩).UpTo p := h.after
    exact ⟨⟨h.ordered, (ih hafter).1⟩, (ih hafter).2⟩

/-- In the first read no text ends in front of its beginning. -/
theorem ordered_taken (uriRelaxed : Bool) (mem bs : Bytes) {st p : Nat} (h : r.UpTo p) :
    r.Along Ordered (taken uriRelaxed mem st p bs) := by
  induction bs generalizing st p r with
  | nil => trivial
  | cons b bs ih =>
    obtain ⟨hnow, hnext⟩ := h.along mem ((httpParserScanner uriRelaxed).next st b).2
    rw [taken_cons, along_append]
    refine ⟨hnow, ?_⟩
    split
    · trivial
    · exact ih (hnext.mono (Nat.le_succ p))

end RequestMarks

/-! ## The table -/

/-- Nothing is done on a byte that fails; a name that ends is followed by a value; and behind a
    name nothing but the beginning of the value is stored before the value ends. -/
def nameOk (s : Nat) (x : Nat × List RequestAction) : Bool :=
  (x.1 ≠ 0 || x.2 = []) && (!x.2.contains .writeField || x = (15, [.writeField])) &&
    (!(s = 15 || s = 16) || x.1 = 0 || x.2 = [.startValue, .writeValue] || x.2 = [.writeValue] ||
      (x.1 = 15 || x.1 = 16) && (x.2 = [.startValue] || x.2 = []))

theorem rows_nameOk : RequestRow.rows.all (fun r =>
    (r.toRow true).edges.all (fun e => nameOk r.state (e.target, e.actions)) &&
      nameOk r.state r.default) = true := by
  decide +kernel

theorem next_nameOk (uriRelaxed : Bool) (s : Nat) (b : UInt8) :
    nameOk s ((httpParserScanner uriRelaxed).next s b) = true := by
  rcases next_row uriRelaxed s b with ⟨r, hr, rfl, hnext⟩ | hnext
  · have hrow := List.all_eq_true.mp rows_nameOk r hr
    rw [Bool.and_eq_true, List.all_eq_true] at hrow
    rcases hnext with ⟨e, he, -, hnext⟩ | ⟨-, hnext⟩
    · rw [hnext]
      exact hrow.1 e he
    · rw [hnext]
      exact hrow.2
  · rw [hnext]
    simp [nameOk]

/-! ## One action -/

namespace RequestParser
open RequestMarks

variable {s t u : RequestParser} {r : RequestMarks} {l : Label} {es fs : List Taken}
variable {mem : Bytes} {p n : Nat} {a : RequestAction}

/-- The parser has stored the positions, which lie in front of `n`, and those of the label are
    set. -/
structure Follows (s : RequestParser) (r : RequestMarks) (l : Label) (n : Nat) : Prop where
  mark : s.mark = r.mark ∧ r.mark < n
  fieldStart : s.fieldStart = r.fieldStart ∧ r.fieldStart < n
  fieldLen : s.fieldLen ≤ n
  bodyStart : s.bodyStart ≤ n
  field : l.field = true →
    r.fieldStart ≤ r.fieldStop ∧ r.fieldStop < n ∧ s.fieldLen = r.fieldStop - r.fieldStart
  query : l.query = true → s.queryStart = r.queryStart ∧ r.queryStart < n

theorem Follows.mono {m : Label} {k : Nat} (h : s.Follows r l n) (hle : m.le l = true)
    (hk : n ≤ k) : s.Follows r m k := by
  simp only [Label.le, Bool.and_eq_true, Bool.or_eq_true, Bool.not_eq_true'] at hle
  refine ⟨⟨h.mark.1, h.mark.2.trans_le hk⟩, ⟨h.fieldStart.1, h.fieldStart.2.trans_le hk⟩,
    h.fieldLen.trans hk, h.bodyStart.trans hk, fun hf => ?_, fun hq => ?_⟩
  · obtain ⟨h1, h2, h3⟩ := h.field (hle.1.resolve_left (by simp [hf]))
    exact ⟨h1, h2.trans_le hk, h3⟩
  · obtain ⟨h1, h2⟩ := h.query (hle.2.resolve_left (by simp [hq]))
    exact ⟨h1, h2.trans_le hk⟩

/-- What the actions have given: the header lines are set, and an error is noted unless the method
    and the version are known. -/
structure Took (s t : RequestParser) (r : RequestMarks) (es : List Taken) : Prop where
  headers : t.data.headers = s.data.headers.setAll (r.headerLines es)
  error : t.error = 0 ↔ s.error = 0 ∧ r.Along Known es

theorem Took.refl (s : RequestParser) (r : RequestMarks) : Took s s r [] := ⟨rfl, by simp [Along]⟩

theorem Took.trans (h : Took s t r es) (h' : Took t u (r.afterAll es) fs) :
    Took s u r (es ++ fs) where
  headers := by
    rw [h'.headers, h.headers, headerLines_append, HeaderMap.setAll, HeaderMap.setAll,
      HeaderMap.setAll, List.foldl_append]
  error := by rw [h'.error, h.error, along_append, and_assoc]

/-- An action that gives nothing. -/
theorem Took.quiet {e : Taken} (hheaders : t.data.headers = s.data.headers)
    (herror : t.error = s.error) (hline : r.line e = none) (hknown : r.Known e) :
    Took s t r [e] where
  headers := by rw [hheaders, headerLines, hline]; rfl
  error := by simp [herror, Along, hknown]

theorem stringAt_ok {i j : Nat} (hij : i ≤ j) (hj : j ≤ mem.length) (hmem : mem.length < 2 ^ 63) :
    stringAt mem i (subSize j i) = .ok ((mem.drop i).take (j - i)) := by
  rw [subSize_of_le hij (by unfold sizeMod; omega), stringAt, if_neg (by omega),
    if_neg (by omega)]

/-- The header line is stored when both its texts are in order; a name without bytes stores
none. -/
theorem act_writeValue (hn : n ≤ mem.length) (hmem : mem.length < 2 ^ 63) (hp : p < n)
    (hs : s.Follows r l n) (ha : l.allows .writeValue = true)
    (ho : r.Ordered ⟨mem, p, .writeValue⟩) :
    ∃ t, s.act mem p .writeValue = .ok t ∧
      t.Follows (r.after ⟨mem, p, .writeValue⟩) (l.after .writeValue) n ∧
      Took s t r [⟨mem, p, .writeValue⟩] := by
  have hkeeps := hs
  obtain ⟨⟨hmark, hmarkn⟩, ⟨hfs, hfsn⟩, hlen, hbody, hfield, hquery⟩ := hs
  obtain ⟨hle, hstop, hflen⟩ := hfield ha
  by_cases hempty : r.fieldStart = r.fieldStop
  · refine ⟨s, ?_, hkeeps, .quiet rfl rfl ?_ trivial⟩
    · simp only [act, onRequestHttpField, hflen]
      rw [if_pos (by omega)]
    · exact if_neg fun h => h.2 hempty
  · have hmarkp : r.mark ≤ p := ho.resolve_left hempty
    have hkey : stringAt mem s.fieldStart s.fieldLen =
        .ok ((mem.drop r.fieldStart).take (r.fieldStop - r.fieldStart)) := by
      rw [hfs, hflen, ← stringAt_ok hle (by omega) hmem,
        subSize_of_le hle (by unfold sizeMod; omega)]
    have hval := stringAt_ok hmarkp (by omega) hmem
    refine ⟨{ s with data := { s.data with
      headers := s.data.headers.set ((mem.drop r.fieldStart).take (r.fieldStop - r.fieldStart))
        ((mem.drop r.mark).take (p - r.mark)) } }, ?_, ?_, ?_, ?_⟩
    · simp only [act, onRequestHttpField]
      rw [if_neg (by omega), hkey, hmark, hval]
      rfl
    · exact ⟨⟨hmark, hmarkn⟩, ⟨hfs, hfsn⟩, hlen, hbody, hfield, hquery⟩
    · have hline : r.line ⟨mem, p, .writeValue⟩ =
          some ((mem.drop r.fieldStart).take (r.fieldStop - r.fieldStart),
            (mem.drop r.mark).take (p - r.mark)) := if_pos ⟨rfl, hempty⟩
      rw [headerLines, hline]
      rfl
    · simp [Along, Known]

theorem act_ordered (hn : n ≤ mem.length) (hmem : mem.length < 2 ^ 63) (hp : p < n)
    (hs : s.Follows r l n) (ha : l.allows a = true) (ho : r.Ordered ⟨mem, p, a⟩) :
    ∃ t, s.act mem p a = .ok t ∧ t.Follows (r.after ⟨mem, p, a⟩) (l.after a) n ∧
      Took s t r [⟨mem, p, a⟩] := by
  obtain ⟨⟨hmark, hmarkn⟩, ⟨hfs, hfsn⟩, hlen, hbody, hfield, hquery⟩ := hs
  cases a with
  | mark | startValue =>
    refine ⟨_, rfl, ⟨⟨rfl, hp⟩, ⟨hfs, hfsn⟩, hlen, hbody, hfield, hquery⟩, ?_⟩
    exact .quiet rfl rfl rfl trivial
  | startField =>
    refine ⟨_, rfl, ⟨⟨hmark, hmarkn⟩, ⟨rfl, hp⟩, hlen, hbody, fun hf => (by cases hf), hquery⟩, ?_⟩
    exact .quiet rfl rfl rfl trivial
  | writeField =>
    have hle : r.fieldStart ≤ p := ho
    have hsub : subSize p s.fieldStart = p - r.fieldStart := by
      rw [hfs, subSize_of_le hle (by unfold sizeMod; omega)]
    refine ⟨_, rfl, ⟨⟨hmark, hmarkn⟩, ⟨hfs, hfsn⟩, ?_, hbody, fun _ => ⟨hle, hp, hsub⟩, hquery⟩,
      .quiet rfl rfl rfl trivial⟩
    simp only [hsub]
    omega
  | writeValue =>
    exact act_writeValue hn hmem hp
      ⟨⟨hmark, hmarkn⟩, ⟨hfs, hfsn⟩, hlen, hbody, hfield, hquery⟩ ha ho
  | requestMethod =>
    by_cases hknown : r.Known ⟨mem, p, .requestMethod⟩
    · have hm : charsToHttpMethod (mem.drop s.mark) ≠ .invalidMethod := hmark ▸ hknown
      refine ⟨_, congrArg Except.ok (if_neg hm), ⟨⟨hmark, hmarkn⟩, ⟨hfs, hfsn⟩, hlen, hbody, hfield,
        hquery⟩, .quiet rfl rfl rfl hknown⟩
    · have hm : charsToHttpMethod (mem.drop s.mark) = .invalidMethod := by
        rw [hmark]
        exact not_not.mp hknown
      refine ⟨_, congrArg Except.ok (if_pos hm), ⟨⟨hmark, hmarkn⟩, ⟨hfs, hfsn⟩, hlen, hbody, hfield,
        hquery⟩, rfl, ?_⟩
      simp [Along, hknown]
  | requestUri | xml | json =>
    refine ⟨_, rfl, ⟨⟨hmark, hmarkn⟩, ⟨hfs, hfsn⟩, hlen, hbody, hfield, hquery⟩, ?_⟩
    exact .quiet rfl rfl rfl trivial
  | startQuery =>
    refine ⟨_, rfl, ⟨⟨hmark, hmarkn⟩, ⟨hfs, hfsn⟩, hlen, hbody, hfield, fun _ => ⟨rfl, hp⟩⟩, ?_⟩
    exact .quiet rfl rfl rfl trivial
  | queryString =>
    obtain ⟨hqs, hqn⟩ := hquery ha
    have hle : r.queryStart ≤ p := ho
    have hstr := stringAt_ok hle (by omega) hmem
    refine ⟨{ s with data := { s.data with
      query := (mem.drop r.queryStart).take (p - r.queryStart) } }, ?_, ⟨⟨hmark, hmarkn⟩,
        ⟨hfs, hfsn⟩, hlen, hbody, hfield, hquery⟩, .quiet rfl rfl rfl trivial⟩
    simp only [act, hqs]
    rw [hstr]
    rfl
  | fragment =>
    have hle : r.mark ≤ p := ho
    have hstr := stringAt_ok hle (by omega) hmem
    refine ⟨{ s with data := { s.data with
      fragment := (mem.drop r.mark).take (p - r.mark) } }, ?_, ⟨⟨hmark, hmarkn⟩, ⟨hfs, hfsn⟩, hlen,
        hbody, hfield, hquery⟩, .quiet rfl rfl rfl trivial⟩
    simp only [act, hmark]
    rw [hstr]
    rfl
  | requestPath =>
    have hle : r.mark ≤ p := ho
    have hstr := stringAt_ok hle (by omega) hmem
    refine ⟨{ s with data := { s.data with
      path := (mem.drop r.mark).take (p - r.mark) } }, ?_, ⟨⟨hmark, hmarkn⟩, ⟨hfs, hfsn⟩, hlen,
        hbody, hfield, hquery⟩, .quiet rfl rfl rfl trivial⟩
    simp only [act, hmark]
    rw [hstr]
    rfl
  | httpVersion =>
    refine ⟨s.onRequestVersion mem s.mark (subSize p s.mark), rfl, ?_, ?_⟩
    · simp only [onRequestVersion]
      split
      · exact ⟨⟨hmark, hmarkn⟩, ⟨hfs, hfsn⟩, hlen, hbody, hfield, hquery⟩
      · split <;> exact ⟨⟨hmark, hmarkn⟩, ⟨hfs, hfsn⟩, hlen, hbody, hfield, hquery⟩
    · rw [hmark, onRequestVersion]
      split
      · rename_i h
        exact .quiet rfl rfl rfl (Or.inl h)
      · rename_i h11
        split
        · rename_i h
          exact .quiet rfl rfl rfl (Or.inr h)
        · rename_i h10
          refine ⟨rfl, ?_⟩
          simp [Along, Known, h11, h10]
  | done =>
    refine ⟨_, rfl, ⟨⟨hmark, hmarkn⟩, ⟨hfs, hfsn⟩, hlen, ?_, hfield, hquery⟩,
      .quiet rfl rfl rfl trivial⟩
    simp only
    split <;> omega

theorem acts_cons (mem : Bytes) (s : RequestParser) (e : Nat × RequestAction)
    (es : List (Nat × RequestAction)) :
    s.acts mem (e :: es) = s.act mem e.1 e.2 >>= fun t => t.acts mem es :=
  List.foldlM_cons

/-- The actions of one byte. -/
theorem byte_ordered (hn : n ≤ mem.length) (hmem : mem.length < 2 ^ 63) (hp : p < n) {m : Label}
    (as : List RequestAction) (hs : s.Follows r l n) (hl : l.leads as m = true)
    (ho : r.Along Ordered (as.map fun a => ⟨mem, p, a⟩)) :
    ∃ t, s.acts mem (as.map fun a => (p, a)) = .ok t ∧
      t.Follows (r.afterAll (as.map fun a => ⟨mem, p, a⟩)) m n ∧
      Took s t r (as.map fun a => ⟨mem, p, a⟩) := by
  induction as generalizing s r l with
  | nil => exact ⟨s, rfl, hs.mono hl le_rfl, .refl s r⟩
  | cons a as ih =>
    rw [Label.leads, Bool.and_eq_true] at hl
    obtain ⟨u, hu, hfollows, htook⟩ := act_ordered hn hmem hp hs hl.1 ho.1
    obtain ⟨t, ht, hfollows', htook'⟩ := ih hfollows hl.2 ho.2
    refine ⟨t, ?_, hfollows', htook.trans htook'⟩
    rw [List.map_cons, acts_cons]
    simp only [hu]
    exact ht

theorem nameOk_iff {st : Nat} {x : Nat × List RequestAction} (h : nameOk st x = true) :
    (x.1 = 0 → x.2 = []) ∧ (RequestAction.writeField ∈ x.2 → x = (15, [.writeField])) ∧
      (st = 15 ∨ st = 16 → x.1 = 0 ∨ x.2 = [.startValue, .writeValue] ∨ x.2 = [.writeValue] ∨
        (x.1 = 15 ∨ x.1 = 16) ∧ (x.2 = [.startValue] ∨ x.2 = [])) := by
  simp only [nameOk, Bool.and_eq_true, Bool.or_eq_true, Bool.not_eq_true', decide_eq_true_eq,
    List.contains_eq_mem, ← Bool.not_eq_true] at h
  obtain ⟨⟨hzero, hname⟩, hvalue⟩ := h
  refine ⟨fun h0 => hzero.resolve_left fun h => h h0,
    fun hmem => hname.resolve_left fun h => h hmem, fun hst => ?_⟩
  rcases hvalue with (((hvalue | hvalue) | hvalue) | hvalue) | hvalue
  · exact absurd hst hvalue
  · exact Or.inl hvalue
  · exact Or.inr (Or.inl hvalue)
  · exact Or.inr (Or.inr (Or.inl hvalue))
  · exact Or.inr (Or.inr (Or.inr hvalue))

/-- The actions of a scan are those of its first byte and, unless it ends there, of the others. -/
theorem acts_scan_cons (uriRelaxed : Bool) (mem : Bytes) (s : RequestParser) (st p : Nat)
    (b : UInt8) (bs : Bytes) :
    s.acts mem ((httpParserScanner uriRelaxed).scan st p (b :: bs)).events =
      s.acts mem (((httpParserScanner uriRelaxed).next st b).2.map fun a => (p, a)) >>= fun t =>
        if (httpParserScanner uriRelaxed).breaksOn st b = true ∨
            ((httpParserScanner uriRelaxed).next st b).1 = 0 then .ok t
        else t.acts mem
          ((httpParserScanner uriRelaxed).scan ((httpParserScanner uriRelaxed).next st b).1 (p + 1)
            bs).events := by
  have hpure : ∀ x : Except Fault RequestParser, (x >>= fun t => .ok t) = x := by
    intro x
    cases x <;> rfl
  rw [Scanner.scan]
  by_cases hbreak : (httpParserScanner uriRelaxed).breaksOn st b = true
  · simp only [hbreak, if_true, true_or, hpure]
  · by_cases hzero : ((httpParserScanner uriRelaxed).next st b).1 = 0
    · simp only [if_neg hbreak, if_pos hzero, if_pos (Or.inr hzero), hpure]
    · simp only [if_neg hbreak, if_neg hzero, if_neg (not_or.mpr ⟨hbreak, hzero⟩), acts_append]

theorem scan_state_cons (uriRelaxed : Bool) (st p : Nat) (b : UInt8) (bs : Bytes) :
    ((httpParserScanner uriRelaxed).scan st p (b :: bs)).state =
      if (httpParserScanner uriRelaxed).breaksOn st b = true ∨
          ((httpParserScanner uriRelaxed).next st b).1 = 0 then
        ((httpParserScanner uriRelaxed).next st b).1
      else ((httpParserScanner uriRelaxed).scan ((httpParserScanner uriRelaxed).next st b).1 (p + 1)
        bs).state := by
  rw [Scanner.scan]
  by_cases hbreak : (httpParserScanner uriRelaxed).breaksOn st b = true
  · simp [hbreak]
  · by_cases hzero : ((httpParserScanner uriRelaxed).next st b).1 = 0
    · simp [hbreak, hzero]
    · simp [hbreak, hzero]

/-- The actions of a read none of whose texts ends in front of its beginning. -/
theorem scan_ordered (uriRelaxed : Bool) (hn : n ≤ mem.length) (hmem : mem.length < 2 ^ 63)
    (bs : Bytes) {st : Nat} (hp : p + bs.length ≤ n) (hs : s.Follows r (.of st) n)
    (ho : r.Along Ordered (taken uriRelaxed mem st p bs)) :
    ∃ t m, s.acts mem ((httpParserScanner uriRelaxed).scan st p bs).events = .ok t ∧
      t.Follows (r.afterAll (taken uriRelaxed mem st p bs)) m n ∧
      (((httpParserScanner uriRelaxed).scan st p bs).state ≠ 0 →
        m = .of ((httpParserScanner uriRelaxed).scan st p bs).state) ∧
      Took s t r (taken uriRelaxed mem st p bs) := by
  induction bs generalizing st p s r with
  | nil => exact ⟨s, .of st, rfl, hs, fun _ => rfl, .refl s r⟩
  | cons b bs ih =>
    rw [List.length_cons] at hp
    rw [taken_cons] at ho ⊢
    rw [along_append] at ho
    rw [acts_scan_cons, scan_state_cons, afterAll_append]
    by_cases hzero : ((httpParserScanner uriRelaxed).next st b).1 = 0
    · have hacts := (nameOk_iff (next_nameOk uriRelaxed st b)).1 hzero
      rw [hacts, if_pos (Or.inr hzero)]
      refine ⟨s, .of st, if_pos (Or.inr hzero), hs, fun hne => absurd ?_ hne, .refl s r⟩
      rw [if_pos (Or.inr hzero), hzero]
    · obtain ⟨u, hu, hfollows, htook⟩ := byte_ordered hn hmem (by omega) _ hs
        (leads_of_next hzero) ho.1
      rw [hu]
      simp only [bind, Except.bind]
      split
      · rename_i hend
        refine ⟨u, _, rfl, hfollows, fun _ => rfl, ?_⟩
        rw [List.append_nil]
        exact htook
      · rename_i hgoes
        rw [if_neg hgoes] at ho
        obtain ⟨t, m, ht, hfollows', hm, htook'⟩ := ih (by omega) hfollows ho.2
        exact ⟨t, m, ht, hfollows', hm, htook.trans htook'⟩

/-- A call that does what the texts of its bytes say. -/
theorem execute_ordered {len : Nat} (hcs : s.cs ≠ 0) (hlen : len ≠ 0) (hint : len < 2 ^ 31)
    (hle : len ≤ mem.length) (hmem : mem.length < 2 ^ 63) (hs : s.Follows r (.of s.cs) len)
    (hread : s.nread + ((httpParserScanner s.uriRelaxed).scan s.cs 0 (mem.take len)).stop ≤ len)
    (ho : r.Along Ordered (taken s.uriRelaxed mem s.cs 0 (mem.take len))) :
    ∃ t data n, s.execute mem len = .ok (t, data, n) ∧
      t.cs = ((httpParserScanner s.uriRelaxed).scan s.cs 0 (mem.take len)).state ∧
      (t.cs ≠ 0 →
        t.Follows (r.afterAll (taken s.uriRelaxed mem s.cs 0 (mem.take len))) (.of t.cs) len) ∧
      Took s t r (taken s.uriRelaxed mem s.cs 0 (mem.take len)) := by
  obtain ⟨u, m, hu, hfollows, hm, htook⟩ := scan_ordered s.uriRelaxed hle hmem (mem.take len)
    (by rw [List.length_take]; omega) hs ho
  obtain ⟨hucs, hunread, -⟩ := acts_sameControl hu
  set state := ((httpParserScanner s.uriRelaxed).scan s.cs 0 (mem.take len)).state
  set stop := ((httpParserScanner s.uriRelaxed).scan s.cs 0 (mem.take len)).stop
  have hadd : addSize u.nread stop = s.nread + stop := by
    rw [hunread, addSize_of_lt (by unfold sizeMod; omega)]
  have hconsistent :
      ({ u with cs := state, nread := addSize u.nread stop } : RequestParser).Consistent len := by
    have hmark := hfollows.mark
    have hfield := hfollows.fieldStart
    refine ⟨?_, hfollows.bodyStart, ?_, hfollows.fieldLen, ?_⟩
    · simp only [hadd]
      exact hread
    · simp only [hmark.1]
      exact hmark.2
    · simp only [hfield.1]
      exact hfield.2
  have hparse : s.httpParserExecute mem len =
      .ok ({ u with cs := state, nread := addSize u.nread stop }, addSize u.nread stop) := by
    rw [httpParserExecute, if_neg hlen, if_neg (not_not.mpr (intOfSize_of_lt hint))]
    have hne : u.cs ≠ 0 := by rwa [hucs]
    simp only [if_neg hcs, hu, bind, Except.bind, if_neg hne]
    exact if_pos hconsistent
  refine ⟨{ u with cs := state, nread := addSize u.nread stop },
    (mem.take len).drop (addSize u.nread stop) ++ mem.drop (len - addSize u.nread stop),
    addSize u.nread stop, ?_, rfl, fun hne => ?_, ?_⟩
  · rw [execute, hparse]
    rfl
  · have hm := hm hne
    subst hm
    exact ⟨hfollows.mark, hfollows.fieldStart, hfollows.fieldLen, hfollows.bodyStart,
      hfollows.field, hfollows.query⟩
  · exact ⟨htook.headers, htook.error⟩

end RequestParser

end CppServerFramework.HTTP
