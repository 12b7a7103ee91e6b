import Mathlib.Data.List.TakeWhile
import CppServerFramework.HTTP.Dump
import CppServerFramework.HTTP.ResponseTable
import CppServerFramework.Misc.Regex

/-!
# The words of a response head

What the scanner of `httprespond_parser.rl` reads as one word: the status, the reason, and the name
and the value of a header.  Three names lead it to states of their own, since what stands behind
them may end the head, give the length of the body, or say that it comes in chunks.
-/

namespace CppServerFramework.HTTP

namespace ResponseGrammar
open Regex ResponseAction

/-- The reason begins with anything but a line feed, a carriage return included. -/
def reasonPhrase : Regex :=
  seq (set [(0, 9), (11, 255)]) (star (set [(0, 9), (11, 12), (14, 255)]))

def statusCode : Regex := plus (set digit)

def fieldName : Regex := plus (set ResponseRow.token)

/-- The text of a header behind the blanks. -/
def fieldValue : Regex :=
  opt (seq (set [(0, 8), (14, 31), (33, 255)]) (star (set [(0, 9), (11, 12), (14, 255)])))

def contentLength : Regex := plus (set digit)

def statusExits (s : Nat) : Bool :=
  httpclientParserScanner.next s 32 = (18, [ResponseAction.statusCode])

def reasonExits (s : Nat) : Bool :=
  httpclientParserScanner.next s 13 = (24, [ResponseAction.reasonPhrase])

/-- The states behind the three names. -/
def keywordEnd (s : Nat) : Bool := s = 34 || s = 60 || s = 111

def nameExits (s : Nat) : Bool :=
  keywordEnd s || httpclientParserScanner.next s 58 = (22, [writeField])

def valueExits (s : Nat) : Bool := httpclientParserScanner.next s 13 = (24, [writeValue])

def lengthExits (s : Nat) : Bool :=
  httpclientParserScanner.next s 13 = (24, [writeContentLen, writeValue])

theorem reads_words :
    httpclientParserScanner.reads 100 [mark] statusExits 16 statusCode = true ∧
      httpclientParserScanner.reads 100 [mark] reasonExits 18 reasonPhrase = true ∧
      httpclientParserScanner.reads 400 [startField] nameExits 20 fieldName = true ∧
      httpclientParserScanner.reads 100 [startValue] valueExits 22 fieldValue = true ∧
      httpclientParserScanner.reads 100 [startValue] lengthExits 112 contentLength = true := by
  decide +kernel

/-! ## Names -/

/-- The states on the way through the three names, with what has been read there, letter case
    ignored. -/
def namePrefixes : List (Nat × Bytes) :=
  (List.range' 25 10).map (fun s => (s, (ascii "connection").take (s - 24))) ++
    (List.range' 101 11).map (fun s => (s, (ascii "content-length").take (s - 97))) ++
    (List.range' 44 17).map (fun s => (s, (ascii "transfer-encoding").take (s - 43)))

/-- Where a byte of a name leads to. -/
def staysNamed (l : Bytes) (b : UInt8) (s : Nat) : Bool :=
  s = 21 || namePrefixes.contains (s, l ++ [toLower b])

theorem named_bytes :
    ((20, []) :: namePrefixes).all (fun x => (List.range 256).all fun n =>
      !inRanges ResponseRow.token (UInt8.ofNat n) ||
        staysNamed x.2 (UInt8.ofNat n) (httpclientParserScanner.next x.1 (UInt8.ofNat n)).1) =
          true ∧
      (List.range 256).all (fun n => !inRanges ResponseRow.token (UInt8.ofNat n) ||
        (httpclientParserScanner.next 21 (UInt8.ofNat n)).1 = 21) = true := by
  decide +kernel

theorem named_step {s : Nat} {l : Bytes} {b : UInt8} (h : (s, l) ∈ (20, []) :: namePrefixes)
    (hb : inRanges ResponseRow.token b = true) :
    staysNamed l b (httpclientParserScanner.next s b).1 = true := by
  have hbyte := List.all_eq_true.mp (List.all_eq_true.mp named_bytes.1 _ h) b.toNat
    (List.mem_range.mpr b.toNat_lt)
  rw [UInt8.ofNat_toNat, hb] at hbyte
  exact hbyte

theorem unnamed_step {b : UInt8} (hb : inRanges ResponseRow.token b = true) :
    (httpclientParserScanner.next 21 b).1 = 21 := by
  have hbyte := List.all_eq_true.mp named_bytes.2 b.toNat (List.mem_range.mpr b.toNat_lt)
  rw [UInt8.ofNat_toNat, hb] at hbyte
  exact of_decide_eq_true hbyte

variable {w : List UInt8} {s t : Nat}

theorem passes_unnamed (hw : ∀ b ∈ w, inRanges ResponseRow.token b = true)
    (h : httpclientParserScanner.passes 21 w = some t) : t = 21 := by
  induction w with
  | nil =>
    cases h
    rfl
  | cons b w ih =>
    rw [List.forall_mem_cons] at hw
    rw [Scanner.passes] at h
    split at h
    · cases h
    · rw [unnamed_step hw.1] at h
      exact ih hw.2 h

/-- Behind a part of a name the scanner is on the way through one of the three, or it never comes
    there. -/
theorem passes_named {l : Bytes} (hw : ∀ b ∈ w, inRanges ResponseRow.token b = true)
    (h : httpclientParserScanner.passes s w = some t) (hs : (s, l) ∈ (20, []) :: namePrefixes) :
    t = 21 ∨ (t, l ++ w.map toLower) ∈ (20, []) :: namePrefixes := by
  induction w generalizing s l with
  | nil =>
    cases h
    rw [List.map_nil, List.append_nil]
    exact Or.inr hs
  | cons b w ih =>
    rw [List.forall_mem_cons] at hw
    have hstep := named_step hs hw.1
    rw [Scanner.passes] at h
    split at h
    · cases h
    · simp only [staysNamed, Bool.or_eq_true, decide_eq_true_eq, List.contains_iff_mem] at hstep
      rcases hstep with h21 | hmem
      · rw [h21] at h
        exact Or.inl (passes_unnamed hw.2 h)
      · have hrest := ih hw.2 h (List.mem_cons_of_mem _ hmem)
        rwa [List.append_assoc] at hrest

theorem keyword_of_prefix : ((20, []) :: namePrefixes).all (fun x => !keywordEnd x.1 ||
    [ascii "connection", ascii "transfer-encoding", ascii "content-length"].contains x.2) =
      true := by
  decide +kernel

theorem lowerKey_of_token (hw : ∀ b ∈ w, inRanges ResponseRow.token b = true) :
    lowerKey w = w.map toLower := by
  rw [lowerKey, List.takeWhile_eq_self_iff.mpr]
  intro b hb
  simp only [ne_eq, decide_not, Bool.not_eq_true', decide_eq_false_iff_not]
  rintro rfl
  exact absurd (hw 0 hb) (by decide)

theorem token_of_mem (h : w ∈ fieldName.language) {b : UInt8} (hb : b ∈ w) :
    inRanges ResponseRow.token b = true := by
  have hletters := inRanges_letters h hb
  simp only [fieldName, plus, letters, inRanges_append, or_self] at hletters
  exact hletters

/-- None of the names that lead to states of their own. -/
def Plain (key : Bytes) : Prop :=
  sameKey key (ascii "connection") = false ∧ sameKey key (ascii "content-length") = false ∧
    sameKey key (ascii "transfer-encoding") = false

instance (key : Bytes) : Decidable (Plain key) := inferInstanceAs (Decidable (_ ∧ _ ∧ _))

/-- The name of a header that has no meaning of its own. -/
theorem fieldName_read (hw : w ∈ fieldName.language) (hplain : Plain w) :
    ∃ t, httpclientParserScanner.passes 20 w = some t ∧
      (∀ p, (httpclientParserScanner.scan 20 p w).events = [(p, startField)]) ∧
      httpclientParserScanner.next t 58 = (22, [writeField]) := by
  have hne : w ≠ [] := by
    rintro rfl
    exact absurd hw (by decide)
  have htoken : ∀ b ∈ w, inRanges ResponseRow.token b = true := fun b hb => token_of_mem hw hb
  obtain ⟨t, hpass, hevents, hexit⟩ := Scanner.reads_spec reads_words.2.2.1 rfl hw hne
  refine ⟨t, hpass, hevents, ?_⟩
  rw [nameExits, Bool.or_eq_true] at hexit
  rcases hexit with hend | hnext
  · rcases passes_named htoken hpass List.mem_cons_self with rfl | hmem
    · cases hend
    · have hkey := List.all_eq_true.mp keyword_of_prefix _ hmem
      simp only [hend, Bool.not_true, Bool.false_or, List.contains_iff_mem, List.nil_append,
        List.mem_cons, List.not_mem_nil, or_false, ← lowerKey_of_token htoken] at hkey
      obtain ⟨h1, h2, h3⟩ := hplain
      rw [Bool.eq_false_iff, Ne, sameKey_iff] at h1 h2 h3
      rcases hkey with h | h | h
      · exact absurd h h1
      · exact absurd h h3
      · exact absurd h h2
  · exact of_decide_eq_true hnext

theorem fieldValue_read (hw : w ∈ fieldValue.language) (hne : w ≠ []) :
    ∃ t, httpclientParserScanner.passes 22 w = some t ∧
      (∀ p, (httpclientParserScanner.scan 22 p w).events = [(p, startValue)]) ∧
      httpclientParserScanner.next t 13 = (24, [writeValue]) := by
  obtain ⟨t, hpass, hevents, hexit⟩ := Scanner.reads_spec reads_words.2.2.2.1 rfl hw hne
  exact ⟨t, hpass, hevents, of_decide_eq_true hexit⟩

theorem digits_mem (hw : w ≠ []) (hdigits : ∀ b ∈ w, 48 ≤ b ∧ b ≤ 57) :
    w ∈ (plus (set digit)).language := by
  have hset : ∀ b ∈ w, inRanges digit b = true := by
    intro b hb
    have hdigit := hdigits b hb
    rw [UInt8.le_iff_toNat_le, UInt8.le_iff_toNat_le] at hdigit
    have h48 : (48 : UInt8).toNat = 48 := rfl
    have h57 : (57 : UInt8).toNat = 57 := rfl
    simp [inRanges, digit]
    omega
  cases w with
  | nil => exact absurd rfl hw
  | cons b w =>
    rw [List.forall_mem_cons] at hset
    exact Regex.cons_mem_language.mpr ⟨_, List.mem_singleton_self _, hset.1, mem_star_set hset.2⟩

theorem statusCode_read (n : Nat) :
    ∃ t, httpclientParserScanner.passes 16 (decimal n) = some t ∧
      (∀ p, (httpclientParserScanner.scan 16 p (decimal n)).events = [(p, mark)]) ∧
      httpclientParserScanner.next t 32 = (18, [ResponseAction.statusCode]) := by
  obtain ⟨t, hpass, hevents, hexit⟩ := Scanner.reads_spec reads_words.1 rfl
    (digits_mem (decimal_ne_nil n) fun _ hb => digit_of_mem_decimal hb) (decimal_ne_nil n)
  exact ⟨t, hpass, hevents, of_decide_eq_true hexit⟩

theorem contentLength_read (n : Nat) :
    ∃ t, httpclientParserScanner.passes 112 (decimal n) = some t ∧
      (∀ p, (httpclientParserScanner.scan 112 p (decimal n)).events = [(p, startValue)]) ∧
      httpclientParserScanner.next t 13 = (24, [writeContentLen, writeValue]) := by
  obtain ⟨t, hpass, hevents, hexit⟩ := Scanner.reads_spec reads_words.2.2.2.2 rfl
    (digits_mem (decimal_ne_nil n) fun _ hb => digit_of_mem_decimal hb) (decimal_ne_nil n)
  exact ⟨t, hpass, hevents, of_decide_eq_true hexit⟩

theorem reasonPhrase_read (hw : w ∈ reasonPhrase.language) :
    ∃ t, httpclientParserScanner.passes 18 w = some t ∧
      (∀ p, (httpclientParserScanner.scan 18 p w).events = [(p, mark)]) ∧
      httpclientParserScanner.next t 13 = (24, [ResponseAction.reasonPhrase]) := by
  have hne : w ≠ [] := by
    rintro rfl
    exact absurd hw (by decide)
  obtain ⟨t, hpass, hevents, hexit⟩ := Scanner.reads_spec reads_words.2.1 rfl hw hne
  exact ⟨t, hpass, hevents, of_decide_eq_true hexit⟩

end ResponseGrammar

end CppServerFramework.HTTP
