import CppServerFramework.Log.Logger
import CppServerFramework.Misc.Machine

/-!
# Formatters of appenders

An appender without a formatter of its own has that of its logger, which `Logger::addAppender` and
`Logger::setFormatter` copy into it (`log/log.cpp:74-137`, `235-261`).
-/

namespace CppServerFramework.Log

/-- `StdoutLogAppender::log` and `FileLogAppender::log`: the formatter that is used, if the level
    passes; `none` is a null pointer that is followed. -/
def LogAppender.log (ap : LogAppender) (level : LogLevel) : Option (List (List UInt8)) :=
  if ap.level.num ≤ level.num then ap.formatter.map fun f => [f] else some []

theorem LogAppender.hasFormatter_inherit (ap : LogAppender) (val : Option (List UInt8)) :
    (ap.inherit val).hasFormatter = ap.hasFormatter := by
  rw [LogAppender.inherit]
  split <;> rfl

theorem LogAppender.inherit_of_own {ap : LogAppender} {val : Option (List UInt8)}
    (h : ap.hasFormatter = true) :
    ap.inherit val = ap := by
  rw [LogAppender.inherit, if_pos h]

theorem LogAppender.formatter_inherit {ap : LogAppender} {val : Option (List UInt8)}
    (h : ap.hasFormatter = false) : (ap.inherit val).formatter = val := by
  rw [LogAppender.inherit, if_neg (by simp [h])]

/-- The name of the logger that the others have as `m_root`. -/
def rootName : List UInt8 := str "root"

namespace LoggerManager

variable (m : LoggerManager)

/-- The loop over the appenders of a logger (`log.cpp:128-131`). -/
def logAll (level : LogLevel) (appenders : List Nat) : Option (List (List UInt8)) :=
  (appenders.mapM fun a => (m.appenders[a]?).bind (·.log level)).map List.flatten

/-- `Logger::log` (`log.cpp:123-137`): the formatters that are used, in order. -/
def log (name : List UInt8) (level : LogLevel) : Option (List (List UInt8)) :=
  match m.loggers name with
  | none => some []
  | some l =>
    if level.num < l.level.num then some []
    else if !l.appenders.isEmpty then m.logAll level l.appenders
    else if name = rootName then some []
    else match m.loggers rootName with
      | none => some []
      | some root =>
        if level.num < root.level.num then some [] else m.logAll level root.appenders

/-- `Logger::delAppender` (`log.cpp:84-92`). -/
def delAppender (name : List UInt8) (a : Nat) : LoggerManager :=
  m.modify name (fun l => { l with appenders := l.appenders.erase a }) fun _ => List.erase_subset

/-- `LogAppender::setFormatter` through a pointer. -/
def setAppenderFormatter (a : Nat) (val : Option (List UInt8)) : LoggerManager :=
  { m with
    appenders := m.appenders.modify a (·.setFormatter val)
    valid := by
      intro n l hl b hb
      rw [List.length_modify]
      exact m.valid n l hl b hb }

/-- `LoggerManager::LoggerManager` (`log.cpp:568-573`): the root has an appender for `stdout`. -/
def initial : LoggerManager :=
  let m := (⟨fun _ => none, [], nofun⟩ : LoggerManager).getLogger rootName
  (m.newAppender { kind := .stdout }).addAppender rootName (m.newPtr { kind := .stdout })

end LoggerManager

inductive LoggerAction where
  | getLogger (name : List UInt8)
  /-- an appender is made, held by no logger yet -/
  | newAppender (kind : AppenderKind)
  | addAppender (name : List UInt8) (a : Nat)
  | delAppender (name : List UInt8) (a : Nat)
  | clearAppenders (name : List UInt8)
  | setFormatterPtr (name : List UInt8) (val : Option (List UInt8))
  | setFormatter (name val : List UInt8)
  | setAppenderFormatter (a : Nat) (val : Option (List UInt8))
  deriving DecidableEq, Repr

def loggerMachine : Machine LoggerManager LoggerAction where
  init m := m = .initial
  step m
    | .getLogger name => some (m.getLogger name)
    | .newAppender kind => some (m.newAppender { kind })
    | .addAppender name a =>
      if h : a < m.appenders.length then
        if (m.loggers name).isSome then some (m.addAppender name ⟨a, h⟩) else none
      else none
    | .delAppender name a => some (m.delAppender name a)
    | .clearAppenders name => some (m.clearAppenders name)
    | .setFormatterPtr name val => some (m.setFormatterPtr name val)
    | .setFormatter name val => some (m.setFormatter name val)
    | .setAppenderFormatter a val => some (m.setAppenderFormatter a val)

namespace LoggerManager

/-- A logger holds an appender. -/
structure Attached (m : LoggerManager) (name : List UInt8) (l : Logger) (a : Nat)
    (ap : LogAppender) : Prop where
  logger : m.loggers name = some l
  mem : a ∈ l.appenders
  appender : m.appenders[a]? = some ap

/-- The appenders of the loggers have a formatter: their own, or that of the logger. -/
structure Formatted (m : LoggerManager) : Prop where
  formatter : ∀ name l a ap, m.Attached name l a ap → ap.formatter ≠ none
  inherited : ∀ name l a ap, m.Attached name l a ap → ap.hasFormatter = false →
    ap.formatter = l.formatter

/-- So `log` follows no null pointer. -/
structure Inherits (m : LoggerManager) : Prop extends m.Formatted where
  logs : ∀ name level, (m.log name level).isSome

/-- A formatter for a logger is also that of the other loggers that hold one of its appenders
    without a formatter of its own, and is not null where there is one. -/
def KeepsFormatter (m : LoggerManager) (name : List UInt8) (val : Option (List UInt8)) : Prop :=
  ∀ l a ap, m.Attached name l a ap → ap.hasFormatter = false →
    val ≠ none ∧ ∀ n l', n ≠ name → m.Attached n l' a ap → l'.formatter = val

/-- An appender that comes to a logger has a formatter of its own, or that of the logger, or none;
    the formatter of a logger is kept, and that of an appender is taken away only while no logger
    holds it. -/
def Keeps (m : LoggerManager) : LoggerAction → Prop
  | .addAppender name a => ∀ l ap, m.loggers name = some l → m.appenders[a]? = some ap →
      ap.hasFormatter = false →
      l.formatter ≠ none ∧ (ap.formatter = none ∨ ap.formatter = l.formatter)
  | .setFormatterPtr name val => m.KeepsFormatter name val
  | .setFormatter name val => LogFormatter.isError val = false → m.KeepsFormatter name (some val)
  | .setAppenderFormatter a val => val = none → ∀ name, m.holds name a = false
  | _ => True

/-- Besides, an appender whose flag is set has a formatter. -/
structure Inv (m : LoggerManager) : Prop extends m.Formatted where
  own : ∀ (a : Nat) ap, m.appenders[a]? = some ap → ap.hasFormatter = true → ap.formatter ≠ none

variable {m : LoggerManager} {name n : List UInt8} {l : Logger} {a b : Nat} {ap : LogAppender}
  {val : Option (List UInt8)}

/-! ## What is held -/

theorem exists_attached (hl : m.loggers name = some l) (ha : a ∈ l.appenders) :
    ∃ ap, m.Attached name l a ap :=
  ⟨_, hl, ha, List.getElem?_eq_getElem (m.valid name l hl a ha)⟩

theorem holds_iff : m.holds name a = true ↔ ∃ l ap, m.Attached name l a ap := by
  constructor
  · intro h
    obtain ⟨l, hl, ha⟩ := (Option.any_eq_true _ _).mp h
    obtain ⟨ap, hap⟩ := exists_attached hl (of_decide_eq_true ha)
    exact ⟨l, ap, hap⟩
  · rintro ⟨l, ap, h⟩
    exact (Option.any_eq_true _ _).mpr ⟨l, h.logger, decide_eq_true h.mem⟩

theorem logAll_isSome {level : LogLevel} {appenders : List Nat}
    (h : ∀ a ∈ appenders, ∃ ap, m.appenders[a]? = some ap ∧ ap.formatter ≠ none) :
    (m.logAll level appenders).isSome := by
  rw [logAll, Option.isSome_map]
  induction appenders with
  | nil => rfl
  | cons a appenders ih =>
    rw [List.forall_mem_cons] at h
    obtain ⟨⟨ap, hap, hne⟩, hrest⟩ := h
    obtain ⟨f, hf⟩ := Option.ne_none_iff_exists'.mp hne
    obtain ⟨fs, hfs⟩ := Option.isSome_iff_exists.mp (ih hrest)
    have hlog : (ap.log level).isSome := by
      rw [LogAppender.log, hf]
      split <;> rfl
    obtain ⟨g, hg⟩ := Option.isSome_iff_exists.mp hlog
    simp [List.mapM_cons, hap, hg, hfs]

theorem Formatted.inherits (h : m.Formatted) : m.Inherits where
  toFormatted := h
  logs name level := by
    have hall : ∀ name l, m.loggers name = some l → (m.logAll level l.appenders).isSome := by
      intro name l hl
      refine logAll_isSome fun a ha => ?_
      obtain ⟨ap, hap⟩ := exists_attached hl ha
      exact ⟨ap, hap.appender, h.formatter name l a ap hap⟩
    rw [log]
    split
    · rfl
    · rename_i l hl
      split
      · rfl
      · split
        · exact hall name l hl
        · split
          · rfl
          · split
            · rfl
            · rename_i root hroot
              split
              · rfl
              · exact hall rootName root hroot

/-! ## The operations -/

theorem Inv.modify (h : m.Inv) {f : Logger → Logger} (hsub : ∀ l, (f l).appenders ⊆ l.appenders)
    (hf : ∀ l, (f l).formatter = l.formatter) : (m.modify name f hsub).Inv := by
  have hattached : ∀ n l a ap, (m.modify name f hsub).Attached n l a ap →
      ∃ l', m.Attached n l' a ap ∧ l.formatter = l'.formatter := by
    rintro n l a ap ⟨hl, ha, hap⟩
    simp only [LoggerManager.modify] at hl hap
    split at hl
    · obtain ⟨l', hl', rfl⟩ := Option.map_eq_some_iff.mp hl
      exact ⟨l', ⟨hl', hsub l' ha, hap⟩, hf l'⟩
    · exact ⟨l, ⟨hl, ha, hap⟩, rfl⟩
  refine ⟨⟨?_, ?_⟩, ?_⟩
  · intro n l a ap hap
    obtain ⟨l', hap', -⟩ := hattached n l a ap hap
    exact h.formatter n l' a ap hap'
  · intro n l a ap hap hflag
    obtain ⟨l', hap', heq⟩ := hattached n l a ap hap
    rw [heq]
    exact h.inherited n l' a ap hap' hflag
  · exact h.own

theorem Inv.getLogger (h : m.Inv) : (m.getLogger name).Inv := by
  have hattached : ∀ n l a ap, (m.getLogger name).Attached n l a ap → m.Attached n l a ap := by
    rintro n l a ap ⟨hl, ha, hap⟩
    rw [loggers_getLogger] at hl
    split at hl
    · cases hold : m.loggers n with
      | none =>
        rw [hold] at hl
        cases hl
        cases ha
      | some l' =>
        rw [hold] at hl
        cases hl
        exact ⟨hold, ha, hap⟩
    · exact ⟨hl, ha, hap⟩
  exact ⟨⟨fun n l a ap hap => h.formatter n l a ap (hattached n l a ap hap),
    fun n l a ap hap => h.inherited n l a ap (hattached n l a ap hap)⟩, h.own⟩

theorem Inv.newAppender (h : m.Inv) (kind : AppenderKind) : (m.newAppender { kind }).Inv := by
  have hattached : ∀ n l a ap, (m.newAppender { kind }).Attached n l a ap →
      m.Attached n l a ap := by
    rintro n l a ap ⟨hl, ha, hap⟩
    refine ⟨hl, ha, ?_⟩
    rwa [LoggerManager.newAppender, List.getElem?_append_left (m.valid n l hl a ha)] at hap
  refine ⟨⟨?_, ?_⟩, ?_⟩
  · exact fun n l a ap hap => h.formatter n l a ap (hattached n l a ap hap)
  · exact fun n l a ap hap => h.inherited n l a ap (hattached n l a ap hap)
  · intro a ap hap hflag
    rcases List.mem_append.mp (List.mem_of_getElem? hap) with hmem | hmem
    · obtain ⟨b, hb⟩ := List.mem_iff_getElem?.mp hmem
      exact h.own b ap hb hflag
    · rw [List.mem_singleton.mp hmem] at hflag
      cases hflag

theorem Attached.setFormatterPtr (h : m.Attached n l a ap) (name : List UInt8)
    (val : Option (List UInt8)) :
    (m.setFormatterPtr name val).Attached n
      (if n = name then { l with formatter := val } else l) a
      (if m.holds name a then ap.inherit val else ap) := by
  refine ⟨?_, ?_, ?_⟩
  · rw [loggers_setFormatterPtr, h.logger]
    split <;> rfl
  · split <;> exact h.mem
  · rw [getElem?_setFormatterPtr, h.appender]
    rfl

theorem attached_of_setFormatterPtr (h : (m.setFormatterPtr name val).Attached n l a ap) :
    ∃ l' ap', m.Attached n l' a ap' ∧
      l = (if n = name then { l' with formatter := val } else l') ∧
      ap = if m.holds name a then ap'.inherit val else ap' := by
  obtain ⟨hl, ha, hap⟩ := h
  rw [loggers_setFormatterPtr] at hl
  rw [getElem?_setFormatterPtr] at hap
  obtain ⟨ap', hap', rfl⟩ := Option.map_eq_some_iff.mp hap
  split at hl
  · rename_i heq
    obtain ⟨l', hl', rfl⟩ := Option.map_eq_some_iff.mp hl
    exact ⟨l', ap', ⟨hl', ha, hap'⟩, (if_pos heq).symm, rfl⟩
  · rename_i hne
    exact ⟨l, ap', ⟨hl, ha, hap'⟩, (if_neg hne).symm, rfl⟩

theorem Formatted.keepsFormatter (hs : (m.setFormatterPtr name val).Formatted) :
    m.KeepsFormatter name val := by
  intro l a ap hap hflag
  have hholds : m.holds name a = true := holds_iff.mpr ⟨l, ap, hap⟩
  have hnew : (ap.inherit val).formatter = val := LogAppender.formatter_inherit hflag
  constructor
  · have hattached := hap.setFormatterPtr name val
    rw [if_pos hholds] at hattached
    exact hnew ▸ hs.formatter _ _ _ _ hattached
  · intro n l' hne hap'
    have hattached := hap'.setFormatterPtr name val
    rw [if_pos hholds, if_neg hne] at hattached
    have := hs.inherited _ _ _ _ hattached ((ap.hasFormatter_inherit val).trans hflag)
    exact this.symm.trans hnew

theorem KeepsFormatter.of_holds (hkeeps : m.KeepsFormatter name val)
    (hholds : m.holds name a = true) (hap : m.appenders[a]? = some ap)
    (hflag : ap.hasFormatter = false) :
    val ≠ none ∧ ∀ n l, n ≠ name → m.Attached n l a ap → l.formatter = val := by
  obtain ⟨l, ap', hap'⟩ := holds_iff.mp hholds
  obtain rfl : ap' = ap := Option.some.inj (hap'.appender.symm.trans hap)
  exact hkeeps l a ap' hap' hflag

theorem hasFormatter_ite_inherit (p : Prop) [Decidable p] (ap : LogAppender) :
    (if p then ap.inherit val else ap).hasFormatter = ap.hasFormatter := by
  split
  · exact ap.hasFormatter_inherit val
  · rfl

theorem Inv.setFormatterPtr (h : m.Inv) (hkeeps : m.KeepsFormatter name val) :
    (m.setFormatterPtr name val).Inv := by
  refine ⟨⟨?_, ?_⟩, ?_⟩
  · intro n l a ap hap
    obtain ⟨l', ap', hap', -, rfl⟩ := attached_of_setFormatterPtr hap
    cases hflag : ap'.hasFormatter with
    | true =>
      rw [LogAppender.inherit_of_own hflag, ite_self]
      exact h.formatter n l' a ap' hap'
    | false =>
      split
      · rename_i hholds
        rw [LogAppender.formatter_inherit hflag]
        exact (hkeeps.of_holds hholds hap'.appender hflag).1
      · exact h.formatter n l' a ap' hap'
  · intro n l a ap hap hflag
    obtain ⟨l', ap', hap', rfl, rfl⟩ := attached_of_setFormatterPtr hap
    rw [hasFormatter_ite_inherit] at hflag
    by_cases hn : n = name
    · subst hn
      rw [if_pos rfl, if_pos (holds_iff.mpr ⟨l', ap', hap'⟩)]
      exact LogAppender.formatter_inherit hflag
    · rw [if_neg hn]
      split
      · rename_i hholds
        rw [LogAppender.formatter_inherit hflag]
        exact ((hkeeps.of_holds hholds hap'.appender hflag).2 n l' hn hap').symm
      · exact h.inherited n l' a ap' hap' hflag
  · intro a ap hap hflag
    rw [getElem?_setFormatterPtr] at hap
    obtain ⟨ap', hap', rfl⟩ := Option.map_eq_some_iff.mp hap
    rw [hasFormatter_ite_inherit] at hflag
    rw [LogAppender.inherit_of_own hflag, ite_self]
    exact h.own a ap' hap' hflag

theorem getElem?_setAppenderFormatter (a : Nat) (val : Option (List UInt8)) (b : Nat) :
    (m.setAppenderFormatter a val).appenders[b]? =
      (m.appenders[b]?).map fun ap => if a = b then ap.setFormatter val else ap := by
  rw [setAppenderFormatter, List.getElem?_modify]
  rfl

theorem Attached.setAppenderFormatter (h : m.Attached n l b ap) (a : Nat)
    (val : Option (List UInt8)) :
    (m.setAppenderFormatter a val).Attached n l b (if a = b then ap.setFormatter val else ap) := by
  refine ⟨h.logger, h.mem, ?_⟩
  rw [getElem?_setAppenderFormatter, h.appender]
  rfl

theorem attached_of_setAppenderFormatter (h : (m.setAppenderFormatter a val).Attached n l b ap) :
    ∃ ap', m.Attached n l b ap' ∧ ap = if a = b then ap'.setFormatter val else ap' := by
  obtain ⟨hl, hb, hap⟩ := h
  rw [getElem?_setAppenderFormatter] at hap
  obtain ⟨ap', hap', rfl⟩ := Option.map_eq_some_iff.mp hap
  exact ⟨ap', ⟨hl, hb, hap'⟩, rfl⟩

theorem Formatted.not_holds (hs : (m.setAppenderFormatter a none).Formatted) :
    m.holds name a = false := by
  rw [← Bool.not_eq_true, holds_iff]
  rintro ⟨l, ap, hap⟩
  have hattached := hap.setAppenderFormatter a none
  rw [if_pos rfl] at hattached
  exact hs.formatter name l a _ hattached rfl

theorem Inv.setAppenderFormatter (h : m.Inv)
    (hkeeps : val = none → ∀ name, m.holds name a = false) :
    (m.setAppenderFormatter a val).Inv := by
  have hown : ∀ (ap : LogAppender), (ap.setFormatter val).hasFormatter = true →
      (ap.setFormatter val).formatter ≠ none := by
    intro ap hflag hnone
    rw [LogAppender.setFormatter] at hflag hnone
    subst hnone
    cases hflag
  have hfree : ∀ n l ap, m.Attached n l a ap → (ap.setFormatter val).hasFormatter = true := by
    intro n l ap hap
    cases val with
    | some f => rfl
    | none =>
      have := hkeeps rfl n
      rw [holds_iff.mpr ⟨l, ap, hap⟩] at this
      cases this
  refine ⟨⟨?_, ?_⟩, ?_⟩
  · intro n l b ap hap
    obtain ⟨ap', hap', rfl⟩ := attached_of_setAppenderFormatter hap
    split
    · rename_i heq
      subst heq
      exact hown ap' (hfree n l ap' hap')
    · exact h.formatter n l b ap' hap'
  · intro n l b ap hap hflag
    obtain ⟨ap', hap', rfl⟩ := attached_of_setAppenderFormatter hap
    split at hflag
    · rename_i heq
      subst heq
      rw [hfree n l ap' hap'] at hflag
      cases hflag
    · rename_i hne
      rw [if_neg hne]
      exact h.inherited n l b ap' hap' hflag
  · intro b ap hap hflag
    rw [getElem?_setAppenderFormatter] at hap
    obtain ⟨ap', hap', rfl⟩ := Option.map_eq_some_iff.mp hap
    split at hflag
    · rename_i heq
      rw [if_pos heq]
      exact hown ap' hflag
    · rename_i hne
      rw [if_neg hne]
      exact h.own b ap' hap' hflag

/-- What an appender gets that comes to a logger with this formatter. -/
def filled (ap : LogAppender) (val : Option (List UInt8)) : LogAppender :=
  if ap.formatter = none then { ap with formatter := val } else ap

theorem hasFormatter_filled : (filled ap val).hasFormatter = ap.hasFormatter := by
  rw [filled]
  split <;> rfl

theorem filled_of_ne (h : ap.formatter ≠ none) : filled ap val = ap := if_neg h

/-- With the condition, the appender that comes has a formatter then: its own, or that of the
    logger. -/
theorem Inv.filled_inherits (h : m.Inv) (hl : m.loggers name = some l)
    (hkeeps : m.Keeps (.addAppender name a)) (hap : m.appenders[a]? = some ap) :
    (filled ap l.formatter).formatter ≠ none ∧
      (ap.hasFormatter = false → (filled ap l.formatter).formatter = l.formatter) := by
  have hkeep := hkeeps l ap hl hap
  by_cases hnone : ap.formatter = none
  · have hflag : ap.hasFormatter = false := by
      rw [← Bool.not_eq_true]
      exact fun hflag => h.own a ap hap hflag hnone
    rw [filled, if_pos hnone]
    exact ⟨(hkeep hflag).1, fun _ => rfl⟩
  · rw [filled_of_ne hnone]
    exact ⟨hnone, fun hflag => (hkeep hflag).2.resolve_left hnone⟩

theorem getElem?_addAppender (name : List UInt8) (c : Fin m.appenders.length) (b : Nat) :
    (m.addAppender name c).appenders[b]? = (m.appenders[b]?).map fun ap =>
      if c.val = b then filled ap ((m.loggers name).bind (·.formatter)) else ap := by
  rw [addAppender, List.getElem?_modify]
  rfl

theorem attached_of_addAppender {c : Fin m.appenders.length}
    (h : (m.addAppender name c).Attached n l b ap) :
    ∃ l' ap', m.loggers n = some l' ∧ (b ∈ l'.appenders ∨ n = name ∧ b = c) ∧
      m.appenders[b]? = some ap' ∧ l.formatter = l'.formatter ∧
      ap = if c.val = b then filled ap' ((m.loggers name).bind (·.formatter)) else ap' := by
  obtain ⟨hl, hb, hap⟩ := h
  rw [getElem?_addAppender] at hap
  obtain ⟨ap', hap', rfl⟩ := Option.map_eq_some_iff.mp hap
  simp only [addAppender] at hl
  split at hl
  · rename_i heq
    obtain ⟨l', hl', rfl⟩ := Option.map_eq_some_iff.mp hl
    refine ⟨l', ap', hl', ?_, hap', rfl, rfl⟩
    rcases List.mem_append.mp hb with hb | hb
    · exact .inl hb
    · exact .inr ⟨heq, List.mem_singleton.mp hb⟩
  · exact ⟨l, ap', hl, .inl hb, hap', rfl, rfl⟩

theorem Formatted.keeps_addAppender {c : Fin m.appenders.length}
    (hs : (m.addAppender name c).Formatted) : m.Keeps (.addAppender name c) := by
  intro l ap hl hap hflag
  have hlogger : (m.loggers name).bind (·.formatter) = l.formatter := by rw [hl]; rfl
  have hattached : (m.addAppender name c).Attached name
      { l with appenders := l.appenders ++ [c.val] } c (filled ap l.formatter) := by
    refine ⟨?_, List.mem_append_right _ (List.mem_singleton_self _), ?_⟩
    · simp [addAppender, hl]
    · rw [getElem?_addAppender, hap, hlogger, Option.map_some, if_pos rfl]
  have hne := hs.formatter _ _ _ _ hattached
  have hinherited := hs.inherited _ _ _ _ hattached
  rw [filled] at hne hinherited
  split at hne
  · rename_i hnone
    exact ⟨hne, .inl hnone⟩
  · rename_i hsome
    rw [if_neg hsome] at hinherited
    have heq : ap.formatter = l.formatter := hinherited hflag
    exact ⟨heq ▸ hne, .inr heq⟩

theorem Inv.addAppender (h : m.Inv) (c : Fin m.appenders.length) (hl : m.loggers name = some l)
    (hkeeps : m.Keeps (.addAppender name c)) : (m.addAppender name c).Inv := by
  have hlogger : (m.loggers name).bind (·.formatter) = l.formatter := by rw [hl]; rfl
  have hfilled {ap} (hap : m.appenders[c.val]? = some ap) := h.filled_inherits hl hkeeps hap
  refine ⟨⟨?_, ?_⟩, ?_⟩
  · intro n l' b ap hap
    obtain ⟨l'', ap', hl'', hb, hap', -, rfl⟩ := attached_of_addAppender hap
    rw [hlogger]
    split
    · rename_i heq
      exact (hfilled (heq ▸ hap')).1
    · rename_i hne
      have hmem := hb.resolve_right fun h => hne h.2.symm
      exact h.formatter n l'' b ap' ⟨hl'', hmem, hap'⟩
  · intro n l' b ap hap hflag
    obtain ⟨l'', ap', hl'', hb, hap', hformatter, rfl⟩ := attached_of_addAppender hap
    rw [hlogger] at hflag ⊢
    rw [hformatter]
    by_cases heq : c.val = b
    · subst heq
      rw [if_pos rfl] at hflag ⊢
      rw [hasFormatter_filled] at hflag
      rcases hb with hmem | ⟨rfl, -⟩
      · rw [filled_of_ne (h.formatter n l'' _ ap' ⟨hl'', hmem, hap'⟩)]
        exact h.inherited n l'' _ ap' ⟨hl'', hmem, hap'⟩ hflag
      · rw [(hfilled hap').2 hflag, Option.some.inj (hl.symm.trans hl'')]
    · rw [if_neg heq] at hflag ⊢
      have hmem := hb.resolve_right fun h => heq h.2.symm
      exact h.inherited n l'' b ap' ⟨hl'', hmem, hap'⟩ hflag
  · intro b ap hap hflag
    rw [getElem?_addAppender, hlogger] at hap
    obtain ⟨ap', hap', rfl⟩ := Option.map_eq_some_iff.mp hap
    split
    · rename_i heq
      exact (hfilled (heq ▸ hap')).1
    · rename_i hne
      rw [if_neg hne] at hflag
      exact h.own b ap' hap' hflag

/-- A step that meets the condition keeps the invariant. -/
theorem Inv.step (h : m.Inv) {action : LoggerAction} {s : LoggerManager}
    (hkeeps : m.Keeps action) (hs : loggerMachine.step m action = some s) : s.Inv := by
  cases action with
  | getLogger name =>
    cases hs
    exact h.getLogger
  | newAppender kind =>
    cases hs
    exact h.newAppender kind
  | addAppender name a =>
    simp only [loggerMachine] at hs
    split at hs
    · split at hs
      · rename_i hlt hsome
        cases hs
        obtain ⟨l, hl⟩ := Option.isSome_iff_exists.mp hsome
        exact h.addAppender ⟨a, hlt⟩ hl hkeeps
      · cases hs
    · cases hs
  | delAppender name a =>
    cases hs
    exact h.modify (fun _ => List.erase_subset) fun _ => rfl
  | clearAppenders name =>
    cases hs
    exact h.modify (fun _ => List.nil_subset _) fun _ => rfl
  | setFormatterPtr name val =>
    cases hs
    exact h.setFormatterPtr hkeeps
  | setFormatter name val =>
    cases hs
    rw [LoggerManager.setFormatter]
    split
    · exact h
    · rename_i herror
      exact h.setFormatterPtr (hkeeps (Bool.eq_false_iff.mpr herror))
  | setAppenderFormatter a val =>
    cases hs
    exact h.setAppenderFormatter hkeeps

/-- Only a step that meets it does. -/
theorem Formatted.keeps {action : LoggerAction} {s : LoggerManager} (h : s.Formatted)
    (hs : loggerMachine.step m action = some s) : m.Keeps action := by
  cases action with
  | addAppender name a =>
    simp only [loggerMachine] at hs
    split at hs
    · split at hs
      · rename_i hlt hsome
        cases hs
        exact keeps_addAppender (c := ⟨a, hlt⟩) h
      · cases hs
    · cases hs
  | setFormatterPtr name val =>
    cases hs
    exact h.keepsFormatter
  | setFormatter name val =>
    cases hs
    intro herror
    rw [LoggerManager.setFormatter, herror] at h
    exact h.keepsFormatter
  | setAppenderFormatter a val =>
    cases hs
    rintro rfl name
    exact h.not_holds
  | _ => trivial

theorem loggers_initial : initial.loggers rootName = some { appenders := [0] } := by
  simp [initial, addAppender, getLogger, newAppender, newPtr]

theorem inv_initial : initial.Inv := by
  let empty : LoggerManager := ⟨fun _ => none, [], nofun⟩
  have hempty : empty.Inv := by
    refine ⟨⟨?_, ?_⟩, nofun⟩
    · rintro name l a ap ⟨hl, -, -⟩
      cases hl
    · rintro name l a ap ⟨hl, -, -⟩
      cases hl
  have hroot : (empty.getLogger rootName).loggers rootName = some {} := if_pos rfl
  have hget : (empty.getLogger rootName).Inv := hempty.getLogger
  refine (hget.newAppender .stdout).addAppender _ hroot ?_
  intro l ap hl hap _
  cases hroot.symm.trans hl
  cases hap
  exact ⟨nofun, .inl rfl⟩

end LoggerManager

/-- In every run in which formatters and appenders are set as `Keeps` says, each appender of a
    logger has a formatter, and that of the logger if it has none of its own; a step that does
    otherwise breaks this. -/
theorem logger_inherits (m : LoggerManager) (h : loggerMachine.Reach LoggerManager.Keeps m) :
    m.Inherits ∧
      ∀ action s, loggerMachine.step m action = some s → ¬m.Keeps action → ¬s.Inherits := by
  have hinv : m.Inv := by
    apply Machine.Reach.invariant _ _ h
    · rintro _ rfl
      exact LoggerManager.inv_initial
    · exact fun m action s hm hkeeps hs => hm.step hkeeps hs
  exact ⟨hinv.inherits, fun action s hs hnot hinherits => hnot (hinherits.keeps hs)⟩

/-- The root gets a second appender. -/
theorem logger_inherits_example :
    ∃ m, loggerMachine.Reach LoggerManager.Keeps m ∧ m.Inherits ∧
      m.appenders.map (·.formatter) = [some defaultPattern, some defaultPattern] := by
  have hrun : ((loggerMachine.run .initial [.newAppender .stdout, .addAppender rootName 1]).any
      fun m => m.appenders.map (·.formatter) = [some defaultPattern, some defaultPattern]) =
        true := by
    decide +kernel
  obtain ⟨m, hm, hformatters⟩ := (Option.any_eq_true _ _).mp hrun
  have hreach : loggerMachine.Reach LoggerManager.Keeps m := by
    refine Machine.Reach.of_run _ (.init rfl) ?_ hm
    refine .cons trivial rfl ⟨?_, fun _ _ => trivial⟩
    intro l ap hl hap _
    cases LoggerManager.loggers_initial.symm.trans hl
    cases hap
    exact ⟨nofun, .inl rfl⟩
  exact ⟨m, hreach, (logger_inherits m hreach).1, of_decide_eq_true hformatters⟩

/-- The appender of the root loses its formatter and `log` follows the null pointer; or it goes to
    another logger and keeps the formatter of the root. -/
theorem logger_inherits_not :
    (∃ m, loggerMachine.Reachable m ∧ m.log rootName .info = none ∧ ¬m.Inherits) ∧
      ∃ m, loggerMachine.Reachable m ∧ ¬m.Inherits ∧
        (m.loggers (str "net")).map (·.appenders) = some [0] := by
  constructor
  · have hrun : ((loggerMachine.run .initial [.setAppenderFormatter 0 none]).any fun m =>
        m.log rootName .info = none) = true := by
      decide +kernel
    obtain ⟨m, hm, hlog⟩ := (Option.any_eq_true _ _).mp hrun
    have hlog : m.log rootName .info = none := of_decide_eq_true hlog
    refine ⟨m, Machine.Reachable.of_run _ rfl hm, hlog, fun h => ?_⟩
    have := h.logs rootName .info
    rw [hlog] at this
    cases this
  · have hrun : ((loggerMachine.run .initial [.getLogger (str "net"),
        .setFormatterPtr (str "net") (some (str "%m")), .delAppender rootName 0,
        .addAppender (str "net") 0]).any fun m =>
          (m.loggers (str "net")).map (fun l => (l.formatter, l.appenders)) =
            some (some (str "%m"), [0]) ∧
          (m.appenders[0]?).map (fun ap => (ap.formatter, ap.hasFormatter)) =
            some (some defaultPattern, false)) = true := by
      decide +kernel
    obtain ⟨m, hm, hm'⟩ := (Option.any_eq_true _ _).mp hrun
    obtain ⟨hlogger, happender⟩ := of_decide_eq_true hm'
    obtain ⟨l, hl, hl'⟩ := Option.map_eq_some_iff.mp hlogger
    obtain ⟨ap, hap, hap'⟩ := Option.map_eq_some_iff.mp happender
    obtain ⟨hformatter, happenders⟩ := Prod.mk.inj hl'
    obtain ⟨hold, hflag⟩ := Prod.mk.inj hap'
    refine ⟨m, Machine.Reachable.of_run _ rfl hm, fun h => ?_, ?_⟩
    · have heq := h.inherited _ l 0 ap ⟨hl, by simp [happenders], hap⟩ hflag
      rw [hold, hformatter] at heq
      exact absurd heq (by decide +kernel)
    · rw [hl, Option.map_some, happenders]

end CppServerFramework.Log
