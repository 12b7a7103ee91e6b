import CppServerFramework.HTTP.ResponseParser

/-!
# One call of the response parser
-/

namespace CppServerFramework.HTTP
open CInt ResponseAction

namespace ResponseParser

/-- Every transition is an edge or the default of a row of the table, or fails. -/
theorem next_row (s : Nat) (b : UInt8) :
    (∃ r ∈ ResponseRow.rows, r.state = s ∧ ((∃ e ∈ r.edges, e.covers b = true ∧
      httpclientParserScanner.next s b = (e.target, e.actions)) ∨
        (∀ e ∈ r.edges, e.covers b = false) ∧ httpclientParserScanner.next s b = r.default)) ∨
      httpclientParserScanner.next s b = (0, []) := by
  cases hfind : ResponseRow.rows.find? fun r => r.state = s with
  | none =>
    have hrow : httpclientParserScanner.row s = ⟨[], 0, []⟩ := by
      simp only [httpclientParserScanner, hfind]
    right
    rw [Scanner.next, hrow]
    rfl
  | some r =>
    have hrow : httpclientParserScanner.row s = ⟨r.edges, r.default⟩ := by
      simp only [httpclientParserScanner, hfind]
    refine Or.inl ⟨r, List.mem_of_find?_eq_some hfind, by simpa using List.find?_some hfind, ?_⟩
    rcases httpclientParserScanner.next_cases s b with ⟨e, he, hcov, hnext⟩ | hnext
    · rw [hrow] at he
      exact Or.inl ⟨e, he, hcov, hnext⟩
    · rw [hrow] at hnext
      exact Or.inr hnext

variable {s t : ResponseParser} {mem mem' : Bytes} {len n p : Nat} {chunk : Bool}

/-- The parts of the parser that the actions leave alone. -/
def SameControl (s t : ResponseParser) : Prop :=
  t.cs = s.cs ∧ t.nread = s.nread ∧ t.data.body = s.data.body ∧ t.data.close = s.data.close

theorem act_sameControl {a : ResponseAction} (h : s.act mem len p a = .ok t) : SameControl s t := by
  cases a with
  | mark | startValue | startField | writeField | writeContentLen | writeConnectionClose
  | statusCode | chunkSize | transChunked | done =>
    cases h
    exact ⟨rfl, rfl, rfl, rfl⟩
  | httpVersion =>
    cases h
    simp only [onResponseVersion]
    split
    · exact ⟨rfl, rfl, rfl, rfl⟩
    · split <;> exact ⟨rfl, rfl, rfl, rfl⟩
  | writeValue =>
    simp only [act, onResponseHttpField, bind, Except.bind, pure, Except.pure] at h
    split at h
    · cases h
      exact ⟨rfl, rfl, rfl, rfl⟩
    · split at h
      · cases h
      · split at h <;> cases h
        exact ⟨rfl, rfl, rfl, rfl⟩
  | reasonPhrase =>
    simp only [act, onResponseReason, bind, Except.bind, pure, Except.pure] at h
    split at h <;> cases h
    exact ⟨rfl, rfl, rfl, rfl⟩

theorem acts_sameControl {events : List (Nat × ResponseAction)}
    (h : s.acts mem len events = .ok t) : SameControl s t := by
  induction events generalizing s with
  | nil =>
    cases h
    exact ⟨rfl, rfl, rfl, rfl⟩
  | cons e events ih =>
    simp only [acts, List.foldlM_cons, bind, Except.bind] at h
    split at h
    · cases h
    · rename_i u hu
      obtain ⟨h1, h2, h3, h4⟩ := act_sameControl hu
      obtain ⟨h1', h2', h3', h4'⟩ := ih h
      exact ⟨h1'.trans h1, h2'.trans h2, h3'.trans h3, h4'.trans h4⟩

theorem scan_zero (p : Nat) (bs : Bytes) :
    httpclientParserScanner.scan 0 p bs = ⟨0, p, []⟩ := by
  cases bs with
  | nil => rfl
  | cons b bs =>
    have hnext : httpclientParserScanner.next 0 b = (0, []) := rfl
    simp [Scanner.scan, Scanner.breaksOn, hnext]

/-- The scan of a call. -/
def scanned (s : ResponseParser) (mem : Bytes) (len : Nat) : Scanned ResponseAction :=
  httpclientParserScanner.scan s.cs 0 (mem.take len)

/-- The parser behind the actions `u` of a call, and what the call returns of it. -/
structure Executed (s : ResponseParser) (mem : Bytes) (len : Nat) (u t : ResponseParser)
    (mem' : Bytes) (n : Nat) : Prop where
  acts : s.clear.acts mem len (s.scanned mem len).events = .ok u
  parser : t = { u with cs := (s.scanned mem len).state, nread := (s.scanned mem len).stop }
  stop : n = (s.scanned mem len).stop
  null : mem[len]? = some 0
  size : len < 2 ^ 31
  bound : n ≤ len ∧ u.bodyStart ≤ len ∧ u.mark < len ∧ u.fieldLen ≤ len ∧ u.fieldStart < len
  memory : mem' = (mem.take len).drop n ++ mem.drop (len - n)

theorem lt_of_intOfSize {n : Nat} (h : intOfSize n = n) : n < 2 ^ 31 := by
  unfold intOfSize at h
  split at h <;> omega

theorem scanned_eq (s : ResponseParser) (mem : Bytes) (len : Nat) :
    (if s.cs = 0 then ⟨0, 0, []⟩ else httpclientParserScanner.scan s.cs 0 (mem.take len)) =
      s.scanned mem len := by
  rw [scanned]
  split
  · rename_i hcs
    rw [hcs, scan_zero]
  · rfl

theorem scanned_stop_le (s : ResponseParser) (mem : Bytes) (len : Nat) :
    (s.scanned mem len).stop ≤ len := by
  have := (httpclientParserScanner.stop_bounds s.cs 0 (mem.take len)).2
  rw [List.length_take] at this
  rw [scanned]
  omega

/-- What a call that returns has done. -/
theorem execute_iff : s.execute mem len chunk = .ok (t, mem', n) ↔
    ∃ u, Executed (if chunk then s.init else s) mem len u t mem' n := by
  rw [execute]
  generalize (if chunk = true then s.init else s) = s
  have hstop := scanned_stop_le s mem len
  simp only [httpclientParserExecute, scanned_eq, bind, Except.bind, pure, Except.pure]
  constructor
  · intro h
    split at h
    · cases h
    · rename_i v hv
      split at hv
      · cases hv
      · rename_i hguard
        rw [not_or, not_not, not_not] at hguard
        have hlen := lt_of_intOfSize hguard.2
        split at hv
        · cases hv
        · rename_i u hu
          have hnread : addSize u.nread (s.scanned mem len).stop = (s.scanned mem len).stop := by
            rw [(acts_sameControl hu).2.1]
            exact (addSize_of_lt (by unfold sizeMod; simp [clear]; omega)).trans (Nat.zero_add _)
          rw [hnread] at hv
          split at hv
          · rename_i hin
            split at hv
            · rename_i hcheck
              cases hv
              rw [intOfSize_of_lt (by omega), sizeOfInt_natCast (by unfold sizeMod; omega)] at h
              split at h
              · cases h
              · cases h
                exact ⟨u, hu, rfl, rfl, hguard.1, hlen, ⟨hstop, hin.2, hcheck⟩, rfl⟩
            · cases hv
              rw [sizeOfInt_neg_one, if_pos (by unfold sizeMod; omega)] at h
              cases h
          · cases hv
  · rintro ⟨u, hu, rfl, rfl, hnull, hlen, ⟨-, hin⟩, rfl⟩
    have hnread : addSize u.nread (s.scanned mem len).stop = (s.scanned mem len).stop := by
      rw [(acts_sameControl hu).2.1]
      exact (addSize_of_lt (by unfold sizeMod; simp [clear]; omega)).trans (Nat.zero_add _)
    rw [if_neg (by simp [hnull, intOfSize_of_lt hlen]), hu]
    simp only [hnread]
    rw [if_pos ⟨hstop, hin.1⟩, if_pos hin.2]
    simp only
    rw [intOfSize_of_lt (by omega), sizeOfInt_natCast (by unfold sizeMod; omega),
      if_neg (by omega)]

end ResponseParser

end CppServerFramework.HTTP
