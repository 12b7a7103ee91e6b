import Mathlib.Tactic.Common

/-!
# Logging to a file

`FileLogAppender` (`log.cpp:188-219`).  The file is reopened whenever the second has changed since
the event before, and opening it truncates it: what it holds in the end is the text of one
second.
-/

namespace CppServerFramework.Log

/-- `LogLevel::Level` (`log.h:50-63`). -/
inductive LogLevel where
  | debug
  | info
  | warn
  | error
  | fatal
  deriving DecidableEq, Repr

def LogLevel.num : LogLevel → Nat
  | .debug => 1
  | .info => 2
  | .warn => 3
  | .error => 4
  | .fatal => 5

/-- A `std::ofstream` and the file it is opened on: a file is open, an operation has failed, and
    the content of the file, to which what is still in the buffer of the stream counts. -/
structure Ofstream where
  isOpen : Bool := false
  fail : Bool := false
  file : List UInt8
  deriving DecidableEq, Repr

namespace Ofstream

def close (s : Ofstream) : Ofstream :=
  if s.isOpen then { s with isOpen := false } else { s with fail := true }

/-- `open` with the default mode truncates, and clears the flags; it fails where a file is open. -/
def openFile (s : Ofstream) : Ofstream :=
  if s.isOpen then { s with fail := true } else { isOpen := true, fail := false, file := [] }

/-- `operator<<`. -/
def write (s : Ofstream) (text : List UInt8) : Ofstream :=
  if s.fail then s
  else if s.isOpen then { s with file := s.file ++ text }
  else if text = [] then s
  else { s with fail := true }

/-- A stream that is not open, or is open and good, is open, good and empty when it has been
    reopened. -/
theorem openFile_reopened {s : Ofstream} (h : s.isOpen = true → s.fail = false) :
    (if s.fail then s else s.close).openFile = ⟨true, false, []⟩ := by
  obtain ⟨isOpen, fail, file⟩ := s
  cases isOpen <;> cases fail <;> simp_all [openFile, close]

theorem write_of_closed {s : Ofstream} (h : s.isOpen = false) (text : List UInt8) :
    (s.write text).isOpen = false ∧ (s.write text).file = s.file := by
  obtain ⟨isOpen, fail, file⟩ := s
  subst h
  simp only [write]
  split
  · exact ⟨rfl, rfl⟩
  · simp only [Bool.false_eq_true, if_false]
    split <;> exact ⟨rfl, rfl⟩

end Ofstream

/-- A call of `log` at the second `now`. -/
structure LogCall (ε : Type) where
  now : Nat
  level : LogLevel
  event : ε

/-- `FileLogAppender` (`log.h:265-282`); `m_reopenTime` is not initialised. -/
structure FileLogAppender (ε : Type) where
  level : LogLevel := .debug
  format : LogLevel → ε → List UInt8
  stream : Ofstream
  reopenTime : Nat

namespace FileLogAppender

variable {ε : Type}

/-- `FileLogAppender::reopen` (`log.cpp:208-219`); it answers whether the stream is open then. -/
def reopen (a : FileLogAppender ε) : FileLogAppender ε :=
  { a with stream := (if a.stream.fail then a.stream else a.stream.close).openFile }

def text (a : FileLogAppender ε) (c : LogCall ε) : List UInt8 := a.format c.level c.event

/-- `FileLogAppender::log` (`log.cpp:191-204`). -/
def log (a : FileLogAppender ε) (c : LogCall ε) : FileLogAppender ε :=
  if a.level.num ≤ c.level.num then
    let a := if c.now ≠ a.reopenTime then { a.reopen with reopenTime := c.now } else a
    { a with stream := a.stream.write (a.text c) }
  else a

/-- The calls whose level passes the filter. -/
def passing (a : FileLogAppender ε) (calls : List (LogCall ε)) : List (LogCall ε) :=
  calls.filter fun c => a.level.num ≤ c.level.num

variable {a : FileLogAppender ε} {c : LogCall ε} {calls : List (LogCall ε)}

/-! ## One call -/

theorem log_of_lt (h : ¬a.level.num ≤ c.level.num) : a.log c = a := if_neg h

/-- In the second of the event before, the stream stays as it is. -/
theorem log_same (hc : a.level.num ≤ c.level.num) (h : c.now = a.reopenTime) :
    a.log c = { a with stream := a.stream.write (a.text c) } := by
  rw [log, if_pos hc, if_neg (not_not_intro h)]

/-- In another second, the file is truncated. -/
theorem log_other (hc : a.level.num ≤ c.level.num) (h : c.now ≠ a.reopenTime)
    (hopen : a.stream.isOpen = true → a.stream.fail = false) :
    a.log c = { a with stream := ⟨true, false, a.text c⟩, reopenTime := c.now } := by
  simp only [log, reopen, if_pos hc, if_pos h, Ofstream.openFile_reopened hopen]
  rfl

/-! ## Runs -/

/-- The second of the last call, or `r`. -/
def lastSecond (r : Nat) : List (LogCall ε) → Nat
  | [] => r
  | c :: calls => lastSecond c.now calls

theorem foldl_log_passing (a : FileLogAppender ε) (calls : List (LogCall ε)) :
    calls.foldl log a = (a.passing calls).foldl log a := by
  induction calls generalizing a with
  | nil => rfl
  | cons c calls ih =>
    simp only [passing, List.filter_cons, List.foldl_cons] at ih ⊢
    by_cases hc : a.level.num ≤ c.level.num
    · have hlevel : (a.log c).level = a.level := by
        rw [log, if_pos hc]
        split <;> rfl
      rw [if_pos (by simpa using hc), List.foldl_cons, ih, hlevel]
    · rw [if_neg (by simpa using hc), log_of_lt hc]
      exact ih a

/-- The calls of a run whose clock does not go back: they pass the filter, and come at or after
    the second `r`. -/
structure Ticks (a : FileLogAppender ε) (r : Nat) (calls : List (LogCall ε)) : Prop where
  passes : ∀ c ∈ calls, a.level.num ≤ c.level.num
  after : ∀ c ∈ calls, r ≤ c.now
  sorted : calls.Pairwise fun c d => c.now ≤ d.now

theorem Ticks.tail {r : Nat} (h : a.Ticks r (c :: calls)) : a.Ticks c.now calls :=
  ⟨fun d hd => h.passes d (List.mem_cons_of_mem _ hd), (List.pairwise_cons.mp h.sorted).1,
    (List.pairwise_cons.mp h.sorted).2⟩

theorem Ticks.le_lastSecond {r : Nat} (h : a.Ticks r calls) : r ≤ lastSecond r calls := by
  induction calls generalizing r with
  | nil => exact Nat.le_refl r
  | cons c calls ih => exact Nat.le_trans (h.after c (by simp)) (ih h.tail)

theorem Ticks.le_lastSecond_of_mem {r : Nat} (h : a.Ticks r calls) (hc : c ∈ calls) :
    c.now ≤ lastSecond r calls := by
  induction calls generalizing r with
  | nil => cases hc
  | cons d calls ih =>
    rcases List.mem_cons.mp hc with rfl | hc
    · exact h.tail.le_lastSecond
    · exact ih h.tail hc

/-- From an open stream on, the file keeps the text of the last second. -/
theorem file_of_open {file : List UInt8} {r : Nat} (h : a.Ticks r calls) :
    (calls.foldl log { a with stream := ⟨true, false, file⟩, reopenTime := r }).stream.file =
      (if lastSecond r calls = r then file else []) ++
        (calls.filter fun c => c.now = lastSecond r calls).flatMap a.text := by
  induction calls generalizing file r with
  | nil => simp [lastSecond]
  | cons c calls ih =>
    have hc := h.passes c (by simp)
    have hle := h.after c (by simp)
    have hlast := h.tail.le_lastSecond
    rw [List.foldl_cons, lastSecond, List.filter_cons]
    by_cases hnow : c.now = r
    · subst hnow
      rw [show log { a with stream := ⟨true, false, file⟩, reopenTime := c.now } c =
        { a with stream := ⟨true, false, file ++ a.text c⟩, reopenTime := c.now } from
          log_same hc rfl]
      refine (ih h.tail).trans ?_
      by_cases heq : lastSecond c.now calls = c.now
      · simp [heq, List.append_assoc]
      · simp [heq, Ne.symm heq]
    · rw [show log { a with stream := ⟨true, false, file⟩, reopenTime := r } c =
        { a with stream := ⟨true, false, a.text c⟩, reopenTime := c.now } from
          log_other hc hnow fun _ => rfl]
      refine (ih h.tail).trans ?_
      have hlt : r < c.now := Nat.lt_of_le_of_ne hle (Ne.symm hnow)
      have hne : lastSecond c.now calls ≠ r := Nat.ne_of_gt (Nat.lt_of_lt_of_le hlt hlast)
      by_cases heq : lastSecond c.now calls = c.now
      · simp [heq, hnow]
      · simp [heq, Ne.symm heq, hne]

/-- In the second that `m_reopenTime` happens to hold, nothing reaches the file. -/
theorem file_of_closed (hopen : a.stream.isOpen = false)
    (hpass : ∀ c ∈ calls, a.level.num ≤ c.level.num)
    (hnow : ∀ c ∈ calls, c.now = a.reopenTime) :
    (calls.foldl log a).stream.file = a.stream.file := by
  induction calls generalizing a with
  | nil => rfl
  | cons c calls ih =>
    rw [List.foldl_cons, log_same (hpass c (by simp)) (hnow c (by simp))]
    obtain ⟨hclosed, hfile⟩ := Ofstream.write_of_closed hopen (a.text c)
    have hrest := ih (a := { a with stream := a.stream.write (a.text c) }) hclosed
      (fun d hd => hpass d (List.mem_cons_of_mem _ hd))
      fun d hd => hnow d (List.mem_cons_of_mem _ hd)
    exact hrest.trans hfile

/-- The first event of another second opens the file. -/
theorem file_of_reopened {r : Nat} (hopen : a.stream.isOpen = false) (h : a.Ticks r calls)
    (hother : ∃ c ∈ calls, c.now ≠ a.reopenTime) :
    (calls.foldl log a).stream.file =
      (calls.filter fun c => c.now = lastSecond r calls).flatMap a.text := by
  induction calls generalizing a r with
  | nil =>
    obtain ⟨c, hc, -⟩ := hother
    cases hc
  | cons c calls ih =>
    have hc := h.passes c (by simp)
    rw [List.foldl_cons, lastSecond, List.filter_cons]
    by_cases hnow : c.now = a.reopenTime
    · obtain ⟨d, hd, hne⟩ := hother
      have hd : d ∈ calls := by
        rcases List.mem_cons.mp hd with rfl | hd
        · exact absurd hnow hne
        · exact hd
      have hlast : c.now ≠ lastSecond c.now calls := by
        have hle := h.tail.after d hd
        have hle' := h.tail.le_lastSecond_of_mem hd
        omega
      rw [log_same hc hnow, if_neg (by simpa using hlast)]
      have hclosed := (Ofstream.write_of_closed hopen (a.text c)).1
      exact ih (a := { a with stream := a.stream.write (a.text c) }) hclosed
        ⟨h.tail.passes, h.tail.after, h.tail.sorted⟩ ⟨d, hd, hne⟩
    · rw [log_other hc hnow (by simp [hopen])]
      refine (file_of_open h.tail).trans ?_
      by_cases heq : lastSecond c.now calls = c.now
      · simp [heq]
      · simp [heq, Ne.symm heq]

theorem flatMap_filter_eq_iff {α : Type} {p : α → Bool} {f : α → List UInt8} {l : List α} :
    (l.filter p).flatMap f = l.flatMap f ↔ ∀ x ∈ l, p x = false → f x = [] := by
  have hle : ∀ l : List α, ((l.filter p).flatMap f).length ≤ (l.flatMap f).length := by
    intro l
    induction l with
    | nil => simp
    | cons x l ih =>
      rw [List.filter_cons]
      split <;> simp only [List.flatMap_cons, List.length_append] <;> omega
  induction l with
  | nil => simp
  | cons x l ih =>
    rw [List.filter_cons]
    split
    · rename_i hx
      simp only [List.flatMap_cons, List.append_cancel_left_eq, ih, List.mem_cons,
        forall_eq_or_imp, hx, Bool.true_eq_false, false_implies, true_and]
    · rename_i hx
      constructor
      · intro h
        have hlen := congrArg List.length h
        have := hle l
        rw [List.flatMap_cons, List.length_append] at hlen
        have hnil : f x = [] := List.length_eq_zero_iff.mp (by omega)
        rw [List.flatMap_cons, hnil, List.nil_append] at h
        intro y hy hp
        rcases List.mem_cons.mp hy with rfl | hy
        · exact hnil
        · exact ih.mp h y hy hp
      · intro h
        rw [List.flatMap_cons, h x (by simp) (by simpa using hx), List.nil_append]
        exact ih.mpr fun y hy => h y (List.mem_cons_of_mem _ hy)

/-- After the calls the file holds exactly the text of those that pass the filter. -/
def Exact (a : FileLogAppender ε) (calls : List (LogCall ε)) : Prop :=
  (calls.foldl log a).stream.close.file = (a.passing calls).flatMap a.text

/-- A new appender, on a clock that does not go back, keeps every line exactly when those of all
    seconds but the last are empty; or when no line comes in another second than the one that
    `m_reopenTime` happens to hold, and the file holds the text already. -/
theorem exact_iff (hopen : a.stream.isOpen = false)
    (hclock : calls.Pairwise fun c d => c.now ≤ d.now) :
    a.Exact calls ↔
      (∃ c ∈ a.passing calls, c.now ≠ a.reopenTime) ∧
        (∀ c ∈ a.passing calls, c.now ≠ lastSecond 0 (a.passing calls) → a.text c = []) ∨
      (∀ c ∈ a.passing calls, c.now = a.reopenTime) ∧
        a.stream.file = (a.passing calls).flatMap a.text := by
  have hclose : ∀ s : Ofstream, s.close.file = s.file := fun s => by
    rw [Ofstream.close]
    split <;> rfl
  have hticks : a.Ticks 0 (a.passing calls) :=
    ⟨fun c hc => by simpa using (List.mem_filter.mp hc).2, fun _ _ => Nat.zero_le _,
      hclock.filter _⟩
  rw [Exact, hclose, foldl_log_passing]
  by_cases hother : ∃ c ∈ a.passing calls, c.now ≠ a.reopenTime
  · have hnot : ¬∀ c ∈ a.passing calls, c.now = a.reopenTime := by
      obtain ⟨c, hc, hne⟩ := hother
      exact fun h => hne (h c hc)
    rw [file_of_reopened hopen hticks hother, flatMap_filter_eq_iff]
    simp [hother, hnot]
  · have hall : ∀ c ∈ a.passing calls, c.now = a.reopenTime := fun c hc =>
      by_contra fun hne => hother ⟨c, hc, hne⟩
    rw [file_of_closed hopen hticks.passes hall]
    simp only [hother, false_and, false_or, iff_and_self]
    exact fun _ => hall

/-- One line in the second 7. -/
theorem exact_oneSecond :
    Exact ⟨.info, fun _ e => [e], { file := [] }, 0⟩ [⟨7, .debug, 1⟩, ⟨7, .warn, (2 : UInt8)⟩] :=
  (exact_iff rfl (by decide)).mpr (Or.inl (by decide))

/-- The line of the second 7 is gone when the one of the second 8 comes. -/
theorem line_lost :
    ([⟨7, .info, 1⟩, ⟨8, .info, (2 : UInt8)⟩].foldl log
        ⟨.info, fun _ e => [e], { file := [] }, 0⟩).stream.file = [2] ∧
      ¬Exact ⟨.info, fun _ e => [e], { file := [] }, 0⟩
        [⟨7, .info, 1⟩, ⟨8, .info, (2 : UInt8)⟩] :=
  ⟨by decide, by simp only [Exact]; decide⟩

end FileLogAppender

end CppServerFramework.Log
