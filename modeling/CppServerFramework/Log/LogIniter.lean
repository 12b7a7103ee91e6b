import CppServerFramework.Log.Logger
import CppServerFramework.Misc.OrderedSet
import Mathlib.Data.List.Forall2
import Mathlib.Data.List.Induction

/-!
# Applying a log configuration

The listener that `LogIniter` installs (`log.cpp:729-790`) for the configuration `logs`, a
`std::set<LogDefine>` ordered by name.  A definition that is the same in the old and the new value
leaves the pointer to the logger null, and an appender of another type than 1 and 2 leaves the
pointer to the appender null; both are dereferenced at once.
-/

namespace CppServerFramework.Log

/-- `LogAppenderDefine` (`log.cpp:599-611`): type 1 is a file, 2 is stdout. -/
structure LogAppenderDefine where
  type : Int := 0
  level : LogLevel := .debug
  formatter : List UInt8 := []
  file : List UInt8 := []
  deriving DecidableEq, Repr

/-- `LogDefine` (`log.cpp:613-629`). -/
structure LogDefine where
  name : List UInt8
  level : LogLevel := .debug
  formatter : List UInt8 := []
  appenders : List LogAppenderDefine := []
  deriving DecidableEq, Repr

/-- `LogDefine::operator<`. -/
def LogDefine.less (i j : LogDefine) : Bool := i.name < j.name

theorem LogDefine.less_strictOrder : OrderedSet.StrictOrder LogDefine.less where
  irrefl i := by simp [LogDefine.less]
  trans i j k hij hjk := by
    simp only [LogDefine.less, decide_eq_true_eq] at *
    exact List.lt_trans hij hjk

/-- To the set, two definitions are the same when they have the same name. -/
theorem LogDefine.equiv_less {i j : LogDefine} :
    OrderedSet.equiv LogDefine.less i j = true ↔ i.name = j.name := by
  simp only [OrderedSet.equiv, LogDefine.less, Bool.and_eq_true, Bool.not_eq_true',
    decide_eq_false_iff_not]
  constructor
  · rintro ⟨hij, hji⟩
    exact List.le_antisymm (List.not_lt.mp hji) (List.not_lt.mp hij)
  · intro h
    simp [h]

/-- `std::set<LogDefine>`. -/
structure LogDefines where
  defs : List LogDefine
  sorted : OrderedSet.Sorted LogDefine.less defs

namespace LogDefines

def find (s : LogDefines) (i : LogDefine) : Option LogDefine :=
  OrderedSet.find LogDefine.less i s.defs

/-- A definition of the set has this name. -/
def Named (s : LogDefines) (name : List UInt8) : Prop := ∃ d ∈ s.defs, d.name = name

instance (s : LogDefines) (name : List UInt8) : Decidable (s.Named name) :=
  inferInstanceAs (Decidable (∃ d ∈ s.defs, d.name = name))

variable {s : LogDefines} {i : LogDefine}

theorem find_eq_none : s.find i = none ↔ ¬s.Named i.name := by
  rw [find, OrderedSet.find, List.find?_eq_none]
  simp only [LogDefine.equiv_less, Named, not_exists, not_and]
  exact ⟨fun h d hd heq => h d hd heq.symm, fun h d hd heq => h d hd heq.symm⟩

theorem find_eq_self : s.find i = some i ↔ i ∈ s.defs :=
  ⟨fun h => List.mem_of_find?_eq_some h,
    fun h => OrderedSet.find_of_mem LogDefine.less_strictOrder s.sorted h⟩

/-- No two definitions of a set have the same name. -/
theorem names_ne (s : LogDefines) : s.defs.Pairwise fun i j => i.name ≠ j.name := by
  apply List.Pairwise.imp _ s.sorted
  intro i j hlt heq
  rw [LogDefine.less, heq] at hlt
  exact List.lt_irrefl _ (of_decide_eq_true hlt)

end LogDefines

/-- The null pointer that is dereferenced. -/
inductive NullPointer where
  | logger
  | appender
  deriving DecidableEq, Repr

namespace LogIniter

/-- The level and the formatter of a new appender (`log.cpp:762-771`). -/
def setUp (a : LogAppenderDefine) (ap : LogAppender) : LogAppender :=
  let ap := { ap with level := a.level }
  if a.formatter ≠ [] then
    if LogFormatter.isError a.formatter then ap else ap.setFormatter (some a.formatter)
  else ap

/-- One turn of the loop over the appenders of a definition (`log.cpp:754-773`). -/
def addDefined (name : List UInt8) (m : LoggerManager) (a : LogAppenderDefine) :
    Except NullPointer LoggerManager :=
  let ap : Option LogAppender :=
    if a.type = 1 then some { kind := .file a.file }
    else if a.type = 2 then some { kind := .stdout }
    else none
  match ap with
  | none => .error .appender
  | some ap => .ok ((m.newAppender (setUp a ap)).addAppender name (m.newPtr (setUp a ap)))

/-- One turn of the loop over the new definitions (`log.cpp:733-774`). -/
def define (old : LogDefines) (m : LoggerManager) (i : LogDefine) :
    Except NullPointer LoggerManager :=
  let (m, logger) :=
    match old.find i with
    | none => (m.getLogger i.name, some i.name)
    | some it => if i ≠ it then (m.getLogger i.name, some i.name) else (m, none)
  match logger with
  | none => .error .logger
  | some name =>
    let m := m.setLevel name i.level
    let m := if i.formatter ≠ [] then m.setFormatter name i.formatter else m
    i.appenders.foldlM (addDefined name) (m.clearAppenders name)

/-- One turn of the loop over the old definitions (`log.cpp:776-783`). -/
def remove (new : LogDefines) (m : LoggerManager) (i : LogDefine) : LoggerManager :=
  match new.find i with
  | none => (m.getLogger i.name).clearAppenders i.name
  | some _ => m

/-- The listener (`log.cpp:731-787`). -/
def listener (old new : LogDefines) (m : LoggerManager) : Except NullPointer LoggerManager := do
  let m ← new.defs.foldlM (define old) m
  .ok (old.defs.foldl (remove new) m)

variable {m m' : LoggerManager} {old new : LogDefines} {name : List UInt8} {i : LogDefine}

/-! ## One appender -/

/-- A formatter of a configuration that is used. -/
def usable (pattern : List UInt8) : Bool := pattern ≠ [] ∧ LogFormatter.isError pattern = false

/-- The appender is the one that the entry asks for. -/
structure Describes (a : LogAppenderDefine) (ap : LogAppender) : Prop where
  kind : a.type = 1 ∧ ap.kind = .file a.file ∨ a.type = 2 ∧ ap.kind = .stdout
  level : ap.level = a.level
  own : ap.own = if usable a.formatter then some a.formatter else none

/-- What an appender without a formatter takes from its logger is not its own. -/
theorem Describes.taken {a : LogAppenderDefine} {ap : LogAppender} (h : Describes a ap)
    (hown : ap.formatter = none → ap.hasFormatter = false) (val : Option (List UInt8)) :
    Describes a (if ap.formatter = none then { ap with formatter := val } else ap) := by
  split
  · rename_i hnone
    refine ⟨h.kind, h.level, ?_⟩
    rw [← h.own]
    simp [LogAppender.own, hown hnone]
  · exact h

theorem setUp_describes {a : LogAppenderDefine} {kind : AppenderKind}
    (h : a.type = 1 ∧ kind = .file a.file ∨ a.type = 2 ∧ kind = .stdout) :
    Describes a (setUp a { kind := kind }) ∧ ((setUp a { kind := kind }).formatter = none →
      (setUp a { kind := kind }).hasFormatter = false) := by
  by_cases hne : a.formatter = []
  · simpa [setUp, hne] using ⟨h, rfl, by simp [LogAppender.own, usable, hne]⟩
  · cases herr : LogFormatter.isError a.formatter with
    | true =>
      simpa [setUp, hne, herr] using ⟨h, rfl, by simp [LogAppender.own, usable, herr]⟩
    | false =>
      simpa [setUp, hne, herr, LogAppender.setFormatter] using
        ⟨h, rfl, by simp [LogAppender.own, usable, hne, herr]⟩

theorem addDefined_ok {l : Logger} {a : LogAppenderDefine} (hl : m.loggers name = some l)
    (h : addDefined name m a = .ok m') :
    ∃ ap, Describes a ap ∧ m'.appenders = m.appenders ++ [ap] ∧
      m'.loggers name = some { l with appenders := l.appenders ++ [m.appenders.length] } ∧
      ∀ n, n ≠ name → m'.loggers n = m.loggers n := by
  have hadd : ∀ kind, (a.type = 1 ∧ kind = .file a.file ∨ a.type = 2 ∧ kind = .stdout) →
      ∀ ap, setUp a { kind := kind } = ap →
      m' = (m.newAppender ap).addAppender name (m.newPtr ap) →
      ∃ ap, Describes a ap ∧ m'.appenders = m.appenders ++ [ap] ∧
        m'.loggers name = some { l with appenders := l.appenders ++ [m.appenders.length] } ∧
        ∀ n, n ≠ name → m'.loggers n = m.loggers n := by
    rintro kind hkind ap rfl rfl
    obtain ⟨hdesc, hown⟩ := setUp_describes hkind
    refine ⟨_, hdesc.taken hown l.formatter, ?_, ?_, ?_⟩
    · simp [LoggerManager.addAppender, LoggerManager.newAppender, LoggerManager.newPtr, hl,
        List.modify_eq_set_getElem?]
    · simp [LoggerManager.addAppender, LoggerManager.newAppender, LoggerManager.newPtr, hl]
    · intro n hn
      simp [LoggerManager.addAppender, LoggerManager.newAppender, hn]
  rw [addDefined] at h
  by_cases h1 : a.type = 1
  · simp only [h1, if_true] at h
    exact hadd (.file a.file) (Or.inl ⟨h1, rfl⟩) _ rfl (Except.ok.inj h).symm
  · by_cases h2 : a.type = 2
    · simp only [h2, if_true] at h
      exact hadd .stdout (Or.inr ⟨h2, rfl⟩) _ rfl (Except.ok.inj h).symm
    · simp [h1, h2] at h

theorem addDefined_ok_iff {a : LogAppenderDefine} :
    (∃ m', addDefined name m a = .ok m') ↔ a.type = 1 ∨ a.type = 2 := by
  simp only [addDefined]
  by_cases h1 : a.type = 1
  · simp [h1]
  · by_cases h2 : a.type = 2 <;> simp [h1, h2]

/-! ## The appenders of a definition -/

/-- A fold of steps that may fail is good when each of them is. -/
theorem foldlM_ok_iff {α β ε : Type} {f : β → α → Except ε β} {good : α → Prop}
    (hf : ∀ b a, (∃ b', f b a = .ok b') ↔ good a) (l : List α) (b : β) :
    (∃ b', l.foldlM f b = .ok b') ↔ ∀ a ∈ l, good a := by
  induction l generalizing b with
  | nil => exact ⟨fun _ _ ha => absurd ha List.not_mem_nil, fun _ => ⟨b, rfl⟩⟩
  | cons a l ih =>
    rw [List.foldlM_cons, List.forall_mem_cons, ← hf b a]
    cases hstep : f b a with
    | error e => simp [bind, Except.bind]
    | ok b₁ => simpa [bind, Except.bind] using ih b₁

theorem foldlM_addDefined {l : Logger} {as : List LogAppenderDefine}
    (hl : m.loggers name = some l) (h : as.foldlM (addDefined name) m = .ok m') :
    ∃ ks, m'.loggers name = some { l with appenders := l.appenders ++ ks } ∧
      (∀ n, n ≠ name → m'.loggers n = m.loggers n) ∧ m.appenders <+: m'.appenders ∧
      (∀ k ∈ ks, m.appenders.length ≤ k) ∧
      List.Forall₂ (fun k a => ∃ ap, m'.appenders[k]? = some ap ∧ Describes a ap) ks as := by
  induction as generalizing m l with
  | nil =>
    cases h
    exact ⟨[], by simpa using hl, fun _ _ => rfl, List.prefix_refl _, by simp, .nil⟩
  | cons a as ih =>
    rw [List.foldlM_cons] at h
    cases hstep : addDefined name m a with
    | error e =>
      rw [hstep] at h
      cases h
    | ok m₁ =>
      rw [hstep] at h
      obtain ⟨ap, hdesc, happ, hlog, hother⟩ := addDefined_ok hl hstep
      obtain ⟨ks, hlog', hother', hpre, hfresh, hks⟩ := ih hlog h
      have hgrown : m.appenders <+: m₁.appenders := ⟨[ap], happ.symm⟩
      refine ⟨m.appenders.length :: ks, by simpa using hlog', ?_, hgrown.trans hpre, ?_,
        .cons ⟨ap, ?_, hdesc⟩ hks⟩
      · intro n hn
        rw [hother' n hn, hother n hn]
      · intro k hk
        rcases List.mem_cons.mp hk with rfl | hk
        · exact Nat.le_refl _
        · exact Nat.le_trans hgrown.length_le (hfresh k hk)
      · obtain ⟨rest, hrest⟩ := hpre
        rw [← hrest, happ]
        simp

/-! ## One definition -/

/-- The definition gives its formatter to the appender, which its logger has held before. -/
def reformats (m : LoggerManager) (k : Nat) (d : LogDefine) : Bool :=
  usable d.formatter && m.holds d.name k

def reformat (m : LoggerManager) (k : Nat) (ap : LogAppender) (d : LogDefine) : LogAppender :=
  if reformats m k d then ap.inherit (some d.formatter) else ap

/-- The logger is the one that the definition asks for. -/
structure Meets (m : LoggerManager) (d : LogDefine) (l : Logger) : Prop where
  level : l.level = d.level
  formatter : usable d.formatter = true → l.formatter = some d.formatter
  appenders : List.Forall₂ (fun k a => ∃ ap, m.appenders[k]? = some ap ∧ Describes a ap)
    l.appenders d.appenders

/-- What a turn of the loop over the new definitions does. -/
structure Defined (m : LoggerManager) (d : LogDefine) (m' : LoggerManager) : Prop where
  logger : ∃ l, m'.loggers d.name = some l ∧ Meets m' d l ∧
    ∀ k ∈ l.appenders, m.appenders.length ≤ k
  others : ∀ n, n ≠ d.name → m'.loggers n = m.loggers n
  grown : m.appenders.length ≤ m'.appenders.length
  before : ∀ k, k < m.appenders.length →
    m'.appenders[k]? = m.appenders[k]?.map (reformat m k · d)

/-- The logger of a definition, before it gets its appenders. -/
def emptied (m : LoggerManager) (i : LogDefine) : LoggerManager :=
  let m := (m.getLogger i.name).setLevel i.name i.level
  let m := if i.formatter ≠ [] then m.setFormatter i.name i.formatter else m
  m.clearAppenders i.name

theorem define_ok_iff : define old m i = .ok m' ↔
    i ∉ old.defs ∧ i.appenders.foldlM (addDefined i.name) (emptied m i) = .ok m' := by
  rw [← LogDefines.find_eq_self, define]
  cases hfind : old.find i with
  | none => simp [emptied]
  | some it =>
    by_cases heq : i = it
    · simp [heq]
    · simp [heq, Ne.symm heq, emptied]

theorem holds_getLogger (m : LoggerManager) (k : Nat) :
    (m.getLogger name).holds name k = m.holds name k := by
  cases h : m.loggers name <;> simp [LoggerManager.holds, h]

theorem holds_setLevel (m : LoggerManager) (val : LogLevel) (k : Nat) :
    (m.setLevel name val).holds name k = m.holds name k := by
  cases h : m.loggers name <;> simp [LoggerManager.holds, h]

theorem emptied_spec (m : LoggerManager) (i : LogDefine) :
    (∃ l, (emptied m i).loggers i.name = some l ∧ l.level = i.level ∧
      (usable i.formatter = true → l.formatter = some i.formatter) ∧ l.appenders = []) ∧
    (∀ n, n ≠ i.name → (emptied m i).loggers n = m.loggers n) ∧
    (emptied m i).appenders.length = m.appenders.length ∧
    ∀ k, (emptied m i).appenders[k]? = m.appenders[k]?.map (reformat m k · i) := by
  by_cases huse : usable i.formatter = true
  · have hvalid : i.formatter ≠ [] ∧ LogFormatter.isError i.formatter = false := by
      simpa [usable] using huse
    refine ⟨by simp [emptied, hvalid, LoggerManager.setFormatter], ?_, ?_, ?_⟩
    · intro n hn
      simp [emptied, hvalid, LoggerManager.setFormatter, hn]
    · simp [emptied, hvalid, LoggerManager.setFormatter]
    · intro k
      simp only [emptied, hvalid, LoggerManager.setFormatter, ne_eq, not_false_eq_true, if_true,
        LoggerManager.appenders_clearAppenders, Bool.false_eq_true, if_false,
        LoggerManager.getElem?_setFormatterPtr, holds_setLevel, holds_getLogger,
        LoggerManager.appenders_setLevel, LoggerManager.appenders_getLogger, reformat, reformats,
        huse, Bool.true_and]
  · have hkeep : (emptied m i) =
        ((m.getLogger i.name).setLevel i.name i.level).clearAppenders i.name := by
      by_cases hne : i.formatter = []
      · simp [emptied, hne]
      · have herr : LogFormatter.isError i.formatter = true := by simpa [usable, hne] using huse
        simp [emptied, LoggerManager.setFormatter, herr]
    rw [hkeep]
    refine ⟨by simp [huse], ?_, rfl, ?_⟩
    · intro n hn
      simp [hn]
    · intro k
      simp [reformat, reformats, huse]

theorem define_ok (h : define old m i = .ok m') : Defined m i m' := by
  obtain ⟨-, h⟩ := define_ok_iff.mp h
  obtain ⟨⟨l, hl, hlevel, hformat, hnil⟩, hothers, hlength, hbefore⟩ := emptied_spec m i
  obtain ⟨ks, hl', hothers', hpre, hfresh, hks⟩ := foldlM_addDefined hl h
  rw [hnil, List.nil_append] at hl'
  refine ⟨⟨_, hl', ⟨hlevel, hformat, hks⟩, hlength ▸ hfresh⟩, ?_, ?_, ?_⟩
  · intro n hn
    rw [hothers' n hn, hothers n hn]
  · rw [← hlength]
    exact hpre.length_le
  · intro k hk
    rw [← hbefore]
    obtain ⟨rest, hrest⟩ := hpre
    rw [← hrest, List.getElem?_append_left (by omega)]

/-! ## All definitions -/

/-- A turn leaves what the loggers of other definitions hold. -/
theorem Defined.reformat_eq {d e : LogDefine} (h : Defined m d m') (hne : e.name ≠ d.name)
    (k : Nat) (ap : LogAppender) : reformat m' k ap e = reformat m k ap e := by
  have hholds : m'.holds e.name k = m.holds e.name k := by
    rw [LoggerManager.holds, LoggerManager.holds, h.others e.name hne]
  rw [reformat, reformat, reformats, reformats, hholds]

/-- No logger holds an appender that is yet to be made. -/
theorem foldl_reformat_of_le {k : Nat} (h : m.appenders.length ≤ k) (ds : List LogDefine)
    (ap : LogAppender) : ds.foldl (reformat m k) ap = ap := by
  induction ds with
  | nil => rfl
  | cons d ds ih =>
    have hstep : reformat m k ap d = ap := by
      simp [reformat, reformats, LoggerManager.not_holds_of_le h]
    rw [List.foldl_cons, hstep, ih]

theorem Meets.of_same {d : LogDefine} {l : Logger} (h : Meets m d l)
    (hsame : ∀ k ∈ l.appenders, m'.appenders[k]? = m.appenders[k]?) : Meets m' d l := by
  refine ⟨h.level, h.formatter, ?_⟩
  have happ := List.forall₂_and_left _ _ |>.mpr ⟨hsame, h.appenders⟩
  exact happ.imp fun k a hk => hk.1 ▸ hk.2

/-- What the loop over the new definitions does: the last definition that reaches an appender
    decides about its formatter. -/
structure AllDefined (m : LoggerManager) (ds : List LogDefine) (m' : LoggerManager) : Prop where
  loggers : ∀ d ∈ ds, ∃ l, m'.loggers d.name = some l ∧ Meets m' d l ∧
    ∀ k ∈ l.appenders, m.appenders.length ≤ k
  others : ∀ n, (∀ d ∈ ds, n ≠ d.name) → m'.loggers n = m.loggers n
  before : ∀ k, k < m.appenders.length →
    m'.appenders[k]? = m.appenders[k]?.map fun ap => ds.foldl (reformat m k) ap

theorem foldlM_define {ds : List LogDefine} (hds : ds.Pairwise fun d e => d.name ≠ e.name)
    (h : ds.foldlM (define old) m = .ok m') : AllDefined m ds m' := by
  induction ds generalizing m with
  | nil =>
    cases h
    exact ⟨by simp, fun _ _ => rfl, by simp⟩
  | cons d ds ih =>
    rw [List.foldlM_cons] at h
    cases hstep : define old m d with
    | error e =>
      rw [hstep] at h
      cases h
    | ok m₁ =>
      rw [hstep] at h
      obtain ⟨hne, hds⟩ := List.pairwise_cons.mp hds
      have hd := define_ok hstep
      have hrest := ih hds h
      have hsame : ∀ k ap, ds.foldl (reformat m₁ k) ap = ds.foldl (reformat m k) ap :=
        fun k ap => List.foldl_ext _ _ _ fun ap e he => hd.reformat_eq (hne e he).symm k ap
      refine ⟨?_, ?_, ?_⟩
      · intro e he
        rcases List.mem_cons.mp he with rfl | he
        · obtain ⟨l, hl, hmeets, hfresh⟩ := hd.logger
          refine ⟨l, (hrest.others e.name hne).trans hl, hmeets.of_same fun k hk => ?_, hfresh⟩
          rw [hrest.before k (m₁.valid _ l hl k hk)]
          simp [hsame, foldl_reformat_of_le (hfresh k hk)]
        · obtain ⟨l, hl, hmeets, hfresh⟩ := hrest.loggers e he
          exact ⟨l, hl, hmeets, fun k hk => Nat.le_trans hd.grown (hfresh k hk)⟩
      · intro n hn
        rw [hrest.others n fun e he => hn e (List.mem_cons_of_mem _ he),
          hd.others n (hn d (by simp))]
      · intro k hk
        rw [hrest.before k (Nat.lt_of_lt_of_le hk hd.grown), hd.before k hk, Option.map_map]
        simp only [Function.comp_def, hsame, List.foldl_cons]

/-! ## Removal -/

theorem remove_named {d : LogDefine} (h : new.Named d.name) : remove new m d = m := by
  rw [remove]
  cases hfind : new.find d with
  | none => exact absurd h (LogDefines.find_eq_none.mp hfind)
  | some e => rfl

theorem remove_not_named {d : LogDefine} (h : ¬new.Named d.name) :
    remove new m d = (m.getLogger d.name).clearAppenders d.name := by
  rw [remove, LogDefines.find_eq_none.mpr h]

/-- What the loop over the old definitions does. -/
structure Removed (new : LogDefines) (m : LoggerManager) (ds : List LogDefine)
    (m' : LoggerManager) : Prop where
  appenders : m'.appenders = m.appenders
  others : ∀ n, ((∀ d ∈ ds, n ≠ d.name) ∨ new.Named n) → m'.loggers n = m.loggers n
  loggers : ∀ d ∈ ds, ¬new.Named d.name → ∃ l, m'.loggers d.name = some l ∧ l.appenders = []

theorem foldl_remove {ds : List LogDefine} (hds : ds.Pairwise fun d e => d.name ≠ e.name) :
    Removed new m ds (ds.foldl (remove new) m) := by
  induction ds generalizing m with
  | nil => exact ⟨rfl, fun _ _ => rfl, by simp⟩
  | cons d ds ih =>
    obtain ⟨hne, hds⟩ := List.pairwise_cons.mp hds
    have hrest := ih (m := remove new m d) hds
    have hothers : ∀ n, n ≠ d.name ∨ new.Named n →
        (remove new m d).loggers n = m.loggers n := by
      intro n hn
      by_cases hnamed : new.Named d.name
      · rw [remove_named hnamed]
      · have hne : n ≠ d.name := hn.elim id fun h heq => hnamed (heq ▸ h)
        simp [remove_not_named hnamed, hne]
    rw [List.foldl_cons]
    refine ⟨hrest.appenders.trans ?_, ?_, ?_⟩
    · by_cases hnamed : new.Named d.name
      · rw [remove_named hnamed]
      · rw [remove_not_named hnamed]
        rfl
    · intro n hn
      rw [hrest.others n (hn.imp_left fun h e he => h e (List.mem_cons_of_mem _ he)),
        hothers n (hn.imp_left fun h => h d (by simp))]
    · intro e he hnot
      rcases List.mem_cons.mp he with rfl | he
      · rw [hrest.others e.name (Or.inl hne), remove_not_named hnot]
        simp
      · exact hrest.loggers e he hnot

/-! ## The listener -/

/-- The loggers are as the new value says. -/
structure Reconciled (old new : LogDefines) (m m' : LoggerManager) : Prop where
  defined : ∀ d ∈ new.defs, ∃ l, m'.loggers d.name = some l ∧ Meets m' d l
  removed : ∀ d ∈ old.defs, ¬new.Named d.name →
    ∃ l, m'.loggers d.name = some l ∧ l.appenders = []
  others : ∀ n, ¬new.Named n → ¬old.Named n → m'.loggers n = m.loggers n ∧
    ∀ l, m.loggers n = some l → ∀ k ∈ l.appenders, m'.appenders[k]? = m.appenders[k]?

/-- No appender that a logger outside both values holds would get another formatter: the last
    definition that reaches an appender decides. -/
def KeepsShared (old new : LogDefines) (m : LoggerManager) : Prop :=
  ∀ n, ¬new.Named n → ¬old.Named n → ∀ l, m.loggers n = some l → ∀ k ∈ l.appenders,
    ∀ ap, m.appenders[k]? = some ap → ap.hasFormatter = false →
      ∀ d, (new.defs.filter (reformats m k)).getLast? = some d → ap.formatter = some d.formatter

theorem foldl_reformat (k : Nat) (ap : LogAppender) (ds : List LogDefine) :
    ds.foldl (reformat m k) ap =
      ((ds.filter (reformats m k)).getLast?.map fun d =>
        ap.inherit (some d.formatter)).getD ap := by
  induction ds using List.reverseRecOn with
  | nil => rfl
  | append_singleton ds d ih =>
    rw [List.foldl_append, List.foldl_cons, List.foldl_nil, ih, reformat, List.filter_append]
    by_cases hd : reformats m k d = true
    · cases (ds.filter (reformats m k)).getLast? with
      | none => simp [hd]
      | some e => simp [hd, LogAppender.inherit_inherit]
    · simp [hd]

theorem foldl_reformat_eq_self {k : Nat} {ap : LogAppender} {ds : List LogDefine} :
    ds.foldl (reformat m k) ap = ap ↔ (ap.hasFormatter = false →
      ∀ d, (ds.filter (reformats m k)).getLast? = some d → ap.formatter = some d.formatter) := by
  rw [foldl_reformat]
  cases (ds.filter (reformats m k)).getLast? with
  | none => simp
  | some d => simp [LogAppender.inherit_eq_self]

theorem define_good : (∃ m', define old m i = .ok m') ↔
    i ∉ old.defs ∧ ∀ a ∈ i.appenders, a.type = 1 ∨ a.type = 2 := by
  simp only [define_ok_iff, exists_and_left]
  rw [foldlM_ok_iff fun m a => addDefined_ok_iff (m := m) (a := a)]

theorem listener_ok_iff : listener old new m = .ok m' ↔
    ∃ m₁, new.defs.foldlM (define old) m = .ok m₁ ∧ m' = old.defs.foldl (remove new) m₁ := by
  rw [listener]
  cases new.defs.foldlM (define old) m with
  | error e => simp [bind, Except.bind]
  | ok m₁ => simp [bind, Except.bind, eq_comm]

/-- A listener that completes reconciles the loggers, up to the appenders that loggers share. -/
theorem reconciled_iff (h : listener old new m = .ok m') :
    Reconciled old new m m' ↔ KeepsShared old new m := by
  obtain ⟨m₁, hdef, rfl⟩ := listener_ok_iff.mp h
  have hd := foldlM_define new.names_ne hdef
  have hr : Removed new m₁ old.defs (old.defs.foldl (remove new) m₁) := foldl_remove old.names_ne
  have hkept : ∀ n, ¬new.Named n → ¬old.Named n → ∀ l, m.loggers n = some l → ∀ k ∈ l.appenders,
      (old.defs.foldl (remove new) m₁).appenders[k]? =
        m.appenders[k]?.map fun ap => new.defs.foldl (reformat m k) ap := by
    intro n _ _ l hl k hk
    rw [hr.appenders, hd.before k (m.valid n l hl k hk)]
  constructor
  · intro hrec n hnew hold l hl k hk ap hap hown
    have hsame := (hrec.others n hnew hold).2 l hl k hk
    rw [hkept n hnew hold l hl k hk, hap, Option.map_some, Option.some.injEq] at hsame
    exact foldl_reformat_eq_self.mp hsame hown
  · intro hshared
    refine ⟨?_, hr.loggers, ?_⟩
    · intro d hmem
      obtain ⟨l, hl, hmeets, -⟩ := hd.loggers d hmem
      refine ⟨l, (hr.others d.name (Or.inr ⟨d, hmem, rfl⟩)).trans hl, hmeets.of_same ?_⟩
      intro k _
      rw [hr.appenders]
    · intro n hnew hold
      refine ⟨?_, ?_⟩
      · rw [hr.others n (Or.inl fun d hmem heq => hold ⟨d, hmem, heq.symm⟩)]
        exact hd.others n fun d hmem heq => hnew ⟨d, hmem, heq.symm⟩
      · intro l hl k hk
        rw [hkept n hnew hold l hl k hk]
        cases hap : m.appenders[k]? with
        | none => rfl
        | some ap =>
          have hself := foldl_reformat_eq_self.mpr (hshared n hnew hold l hl k hk ap hap)
          rw [Option.map_some, hself]

/-- The listener reconciles the loggers exactly when no definition is the same in both values, the
    appenders have the types 1 and 2, and no shared appender of another logger is reached. -/
theorem listener_reconciles_iff (old new : LogDefines) (m : LoggerManager) :
    (∃ m', listener old new m = .ok m' ∧ Reconciled old new m m') ↔
      (∀ d ∈ new.defs, d ∉ old.defs) ∧
      (∀ d ∈ new.defs, ∀ a ∈ d.appenders, a.type = 1 ∨ a.type = 2) ∧
      KeepsShared old new m := by
  have hgood := foldlM_ok_iff (f := define old) (fun _ _ => define_good) new.defs m
  constructor
  · rintro ⟨m', h, hrec⟩
    obtain ⟨m₁, hdef, -⟩ := listener_ok_iff.mp h
    have hall := hgood.mp ⟨m₁, hdef⟩
    exact ⟨fun d hd => (hall d hd).1, fun d hd => (hall d hd).2, (reconciled_iff h).mp hrec⟩
  · rintro ⟨hnot, htype, hshared⟩
    obtain ⟨m₁, hdef⟩ := hgood.mpr fun d hd => ⟨hnot d hd, htype d hd⟩
    have h := listener_ok_iff.mpr ⟨m₁, hdef, rfl⟩
    exact ⟨_, h, (reconciled_iff h).mpr hshared⟩

/-- A manager without loggers. -/
def noLoggers : LoggerManager := ⟨fun _ => none, [], by simp⟩

/-- The definition of the logger `a` is in both values, and the one of `b` comes in addition. -/
theorem unchanged_define_null :
    let a : LogDefine := { name := [97], appenders := [{ type := 2 }] }
    let b : LogDefine := { name := [98] }
    let old : LogDefines := ⟨[a], List.pairwise_singleton _ _⟩
    let new : LogDefines := ⟨[a, b], by unfold OrderedSet.Sorted; decide⟩
    listener old new noLoggers = .error .logger ∧
      ¬∃ m', listener old new noLoggers = .ok m' ∧ Reconciled old new noLoggers m' := by
  intro a b old new
  have herr : listener old new noLoggers = .error .logger := rfl
  refine ⟨herr, ?_⟩
  rintro ⟨m', h, -⟩
  rw [herr] at h
  cases h

end LogIniter

end CppServerFramework.Log
