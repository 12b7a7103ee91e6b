import CppServerFramework.Log.FileLogAppender
import CppServerFramework.Log.LogFormatter

/-!
# Loggers and their appenders

A logger holds shared pointers to its appenders, and two loggers may hold the same one, so the
appenders are objects of their own here and a pointer is the number of one.  A formatter does not
change once it is made; a pointer to one is the pattern that it was made from.
-/

namespace CppServerFramework.Log

/-- The subclass of a `LogAppender`, with the file of a `FileLogAppender`. -/
inductive AppenderKind where
  | file (filename : List UInt8)
  | stdout
  deriving DecidableEq, Repr

/-- `LogAppender` (`log.h:183-206`). -/
structure LogAppender where
  kind : AppenderKind
  level : LogLevel := .debug
  hasFormatter : Bool := false
  formatter : Option (List UInt8) := none
  deriving DecidableEq, Repr

/-- `LogAppender::setFormatter` (`log.cpp:235-244`). -/
def LogAppender.setFormatter (ap : LogAppender) (val : Option (List UInt8)) : LogAppender :=
  { ap with formatter := val, hasFormatter := val.isSome }

/-- The formatter that the appender has of its own. -/
def LogAppender.own (ap : LogAppender) : Option (List UInt8) :=
  if ap.hasFormatter then ap.formatter else none

/-- What `Logger::setFormatter` does to an appender of the logger. -/
def LogAppender.inherit (ap : LogAppender) (val : Option (List UInt8)) : LogAppender :=
  if ap.hasFormatter then ap else { ap with formatter := val }

theorem LogAppender.inherit_inherit (ap : LogAppender) (val val' : Option (List UInt8)) :
    (ap.inherit val).inherit val' = ap.inherit val' := by
  cases h : ap.hasFormatter <;> simp [inherit, h]

theorem LogAppender.inherit_eq_self {ap : LogAppender} {val : Option (List UInt8)} :
    ap.inherit val = ap ↔ (ap.hasFormatter = false → ap.formatter = val) := by
  obtain ⟨kind, level, hasFormatter, formatter⟩ := ap
  cases hasFormatter <;> simp [inherit, eq_comm]

/-- The pattern of a logger that has just been made (`log.cpp:70`). -/
def defaultPattern : List UInt8 :=
  str "%d\x7b%Y-%m-%d %H:%M:%S\x7d %T%t %T%N %T%F %T[%p]%T[%c] %T%f:%l %T%m%n"

/-- `Logger` (`log.h:209-252`). -/
structure Logger where
  level : LogLevel := .info
  formatter : Option (List UInt8) := some defaultPattern
  appenders : List Nat := []
  deriving DecidableEq, Repr

/-- `LoggerManager` (`log.h:286-299`) and the appenders that exist. -/
structure LoggerManager where
  loggers : List UInt8 → Option Logger
  appenders : List LogAppender
  valid : ∀ name logger, loggers name = some logger →
    ∀ a ∈ logger.appenders, a < appenders.length

namespace LoggerManager

/-- `LoggerManager::getLogger` (`log.cpp:575-586`): a logger that is not there is made.  Its name
    stands for the pointer to it. -/
def getLogger (m : LoggerManager) (name : List UInt8) : LoggerManager :=
  { m with
    loggers := fun n => if n = name then some ((m.loggers n).getD {}) else m.loggers n
    valid := by
      intro n l hl a ha
      split at hl
      · cases hold : m.loggers n with
        | none =>
          rw [hold] at hl
          cases hl
          cases ha
        | some l' =>
          rw [hold] at hl
          cases hl
          exact m.valid n l' hold a ha
      · exact m.valid n l hl a ha }

/-- A logger changes; what it holds then, it has held before. -/
def modify (m : LoggerManager) (name : List UInt8) (f : Logger → Logger)
    (h : ∀ l, (f l).appenders ⊆ l.appenders) : LoggerManager :=
  { m with
    loggers := fun n => if n = name then (m.loggers n).map f else m.loggers n
    valid := by
      intro n l hl a ha
      split at hl
      · obtain ⟨l', hl', rfl⟩ := Option.map_eq_some_iff.mp hl
        exact m.valid n l' hl' a (h l' ha)
      · exact m.valid n l hl a ha }

/-- `Logger::setLevel` (`log.h:232`). -/
def setLevel (m : LoggerManager) (name : List UInt8) (val : LogLevel) : LoggerManager :=
  m.modify name (fun l => { l with level := val }) fun _ => List.Subset.refl _

/-- `Logger::clearAppenders` (`log.cpp:94-96`). -/
def clearAppenders (m : LoggerManager) (name : List UInt8) : LoggerManager :=
  m.modify name (fun l => { l with appenders := [] }) fun _ => List.nil_subset _

/-- The logger holds the appender. -/
def holds (m : LoggerManager) (name : List UInt8) (a : Nat) : Bool :=
  (m.loggers name).any (a ∈ ·.appenders)

/-- `Logger::setFormatter` with a pointer (`log.cpp:98-108`). -/
def setFormatterPtr (m : LoggerManager) (name : List UInt8) (val : Option (List UInt8)) :
    LoggerManager :=
  { m.modify name (fun l => { l with formatter := val }) fun _ => List.Subset.refl _ with
    appenders := m.appenders.mapIdx fun a ap => if m.holds name a then ap.inherit val else ap
    valid := by
      intro n l hl a ha
      rw [List.length_mapIdx]
      exact LoggerManager.valid _ n l hl a ha }

/-- `Logger::setFormatter` with a pattern (`log.cpp:110-120`). -/
def setFormatter (m : LoggerManager) (name val : List UInt8) : LoggerManager :=
  if LogFormatter.isError val then m else m.setFormatterPtr name (some val)

/-- A new appender, behind the others. -/
def newAppender (m : LoggerManager) (ap : LogAppender) : LoggerManager :=
  { m with
    appenders := m.appenders ++ [ap]
    valid := by
      intro n l hl a ha
      have hlt := m.valid n l hl a ha
      simp only [List.length_append, List.length_singleton]
      omega }

/-- The pointer to it. -/
def newPtr (m : LoggerManager) (ap : LogAppender) : Fin (m.newAppender ap).appenders.length :=
  ⟨m.appenders.length, by simp [newAppender]⟩

/-- `Logger::addAppender` (`log.cpp:74-81`). -/
def addAppender (m : LoggerManager) (name : List UInt8) (a : Fin m.appenders.length) :
    LoggerManager where
  loggers n :=
    if n = name then (m.loggers n).map fun l => { l with appenders := l.appenders ++ [a.val] }
    else m.loggers n
  appenders := m.appenders.modify a fun ap =>
    if ap.formatter = none then { ap with formatter := (m.loggers name).bind (·.formatter) }
    else ap
  valid := by
    intro n l hl b hb
    rw [List.length_modify]
    split at hl
    · obtain ⟨l', hl', rfl⟩ := Option.map_eq_some_iff.mp hl
      rcases List.mem_append.mp hb with hb | hb
      · exact m.valid n l' hl' b hb
      · rw [List.mem_singleton.mp hb]
        exact a.isLt
    · exact m.valid n l hl b hb

variable {m : LoggerManager} {name n : List UInt8}

/-! ## What the operations leave alone -/

@[simp] theorem loggers_getLogger : (m.getLogger name).loggers n =
    if n = name then some ((m.loggers n).getD {}) else m.loggers n := rfl

@[simp] theorem appenders_getLogger : (m.getLogger name).appenders = m.appenders := rfl

@[simp] theorem loggers_setLevel {val : LogLevel} : (m.setLevel name val).loggers n =
    if n = name then (m.loggers n).map fun l => { l with level := val } else m.loggers n := rfl

@[simp] theorem appenders_setLevel {val : LogLevel} :
    (m.setLevel name val).appenders = m.appenders := rfl

@[simp] theorem loggers_clearAppenders : (m.clearAppenders name).loggers n =
    if n = name then (m.loggers n).map fun l => { l with appenders := [] } else m.loggers n := rfl

@[simp] theorem appenders_clearAppenders : (m.clearAppenders name).appenders = m.appenders := rfl

@[simp] theorem loggers_setFormatterPtr {val : Option (List UInt8)} :
    (m.setFormatterPtr name val).loggers n =
      if n = name then (m.loggers n).map fun l => { l with formatter := val } else m.loggers n :=
  rfl

theorem getElem?_setFormatterPtr {val : Option (List UInt8)} (a : Nat) :
    (m.setFormatterPtr name val).appenders[a]? =
      m.appenders[a]?.map fun ap => if m.holds name a then ap.inherit val else ap := by
  rw [setFormatterPtr, List.getElem?_mapIdx]

@[simp] theorem length_setFormatterPtr {val : Option (List UInt8)} :
    (m.setFormatterPtr name val).appenders.length = m.appenders.length := by
  simp [setFormatterPtr, modify]

theorem not_holds_of_le {a : Nat} (h : m.appenders.length ≤ a) : m.holds name a = false := by
  cases hl : m.loggers name with
  | none => simp [holds, hl]
  | some l =>
    have hnot : a ∉ l.appenders := fun ha =>
      Nat.lt_irrefl a (Nat.lt_of_lt_of_le (m.valid name l hl a ha) h)
    simp [holds, hl, hnot]

end LoggerManager

end CppServerFramework.Log
