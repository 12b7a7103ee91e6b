import CppServerFramework.HTTP.ChunkLines
import CppServerFramework.HTTP.Dump

/-!
# Receiving a chunked response

`recvResponse` reads before it looks at what is left in its buffer, parses every part of a size as
if it were all of it, and takes the line end behind a chunk off the end of the buffer.  So it
needs every chunk in a read of its own.
-/

namespace CppServerFramework.HTTP
open CInt Blocks ResponseParser

/-- A chunk of a size that is written as `h`. -/
def chunkBytes (h d : Bytes) : Bytes := h ++ crlf ++ d ++ crlf

/-- The chunks with the last one, which has the size `0`. -/
def chunkedBytes (sizes chunks : List Bytes) : Bytes :=
  (List.zipWith chunkBytes (sizes ++ [ascii "0"]) (chunks ++ [[]])).flatten

theorem chunkBytes_append (h d rest : Bytes) :
    chunkBytes h d ++ rest = h ++ 13 :: 10 :: (d ++ 13 :: 10 :: rest) := by
  simp only [chunkBytes, crlf, List.append_assoc, List.cons_append, List.nil_append]

theorem chunkedBytes_nil : chunkedBytes [] [] = chunkBytes (ascii "0") [] := by
  rw [chunkedBytes]
  exact List.append_nil _

theorem chunkedBytes_cons (h d : Bytes) (hs ds : List Bytes) :
    chunkedBytes (h :: hs) (d :: ds) = chunkBytes h d ++ chunkedBytes hs ds := rfl

def chunkLength (h : Bytes) : Nat := h.length + hexValue h + 4

/-- A chunk from position `a` on comes whole: a read ends behind it, and none inside of it, except
    behind zeros that its size begins with. -/
def ChunkWhole (ends : List Nat) (a : Nat) (h : Bytes) : Prop :=
  a + chunkLength h ∈ ends ∧ ∀ e ∈ ends, a < e → e < a + chunkLength h →
    e < a + h.length ∧ ∀ b ∈ h.take (e - a), b = 48

def ChunksWhole (ends : List Nat) : (a : Nat) → (sizes : List Bytes) → Prop
  | _, [] => True
  | a, h :: hs => ChunkWhole ends a h ∧ ChunksWhole ends (a + chunkLength h) hs

instance (ends : List Nat) (a : Nat) (h : Bytes) : Decidable (ChunkWhole ends a h) :=
  inferInstanceAs (Decidable (_ ∧ _))

instance decidableChunksWhole (ends : List Nat) :
    (a : Nat) → (sizes : List Bytes) → Decidable (ChunksWhole ends a sizes)
  | _, [] => .isTrue trivial
  | a, h :: hs =>
    have := decidableChunksWhole ends (a + chunkLength h) hs
    inferInstanceAs (Decidable (_ ∧ _))

theorem ChunkWhole.append_iff {E ends : List Nat} {a : Nat} {h : Bytes} (hE : ∀ e ∈ E, e ≤ a) :
    ChunkWhole (E ++ ends) a h ↔ ChunkWhole ends a h := by
  have hlong : 0 < chunkLength h := by
    unfold chunkLength
    omega
  have hmem : a + chunkLength h ∈ E ++ ends ↔ a + chunkLength h ∈ ends := by
    rw [List.mem_append, or_iff_right]
    intro hin
    have := hE _ hin
    omega
  rw [ChunkWhole, ChunkWhole, hmem, List.forall_mem_append, and_congr_right_iff]
  intro _
  apply and_iff_right
  intro e he hlt
  have := hE e he
  omega

/-- Reads that end in front of the chunks do not count. -/
theorem ChunksWhole.append_iff {E ends : List Nat} {a : Nat} {hs : List Bytes}
    (hE : ∀ e ∈ E, e ≤ a) : ChunksWhole (E ++ ends) a hs ↔ ChunksWhole ends a hs := by
  induction hs generalizing a with
  | nil => rfl
  | cons h hs ih =>
    rw [ChunksWhole, ChunksWhole, ChunkWhole.append_iff hE, ih]
    intro e he
    have := hE e he
    omega

/-- What is left of a chunk whose first zeros have come in a read of their own. -/
theorem ChunkWhole.behindZeros {ends : List Nat} {a : Nat} {w v : Bytes}
    (hwhole : ChunkWhole ((a + w.length) :: ends) a (w ++ v))
    (hh : ∀ b ∈ w ++ v, isHexDigit b = true) (hzeros : ∀ b ∈ w, b = 48) :
    ChunkWhole ends (a + w.length) v := by
  have hvalue : hexValue v = hexValue (w ++ v) := by
    have heq := (hexValue_drop_eq hh w.length).mpr (by rw [List.take_left]; exact hzeros)
    rw [List.drop_left] at heq
    exact heq
  have hend : a + chunkLength (w ++ v) = a + w.length + chunkLength v := by
    rw [chunkLength, chunkLength, hvalue, List.length_append]
    omega
  have hlong : 0 < chunkLength v := by
    unfold chunkLength
    omega
  obtain ⟨hmem, hinside⟩ := hwhole
  rw [hend] at hmem hinside
  constructor
  · rcases List.mem_cons.mp hmem with heq | hmem
    · omega
    · exact hmem
  · intro e he hlt hle
    obtain ⟨hdigits, hzero⟩ := hinside e (List.mem_cons_of_mem _ he) (by omega) hle
    rw [List.length_append] at hdigits
    refine ⟨by omega, fun b hb => hzero b ?_⟩
    rw [show e - a = w.length + (e - (a + w.length)) by omega, List.take_length_add_append]
    exact List.mem_append_right _ hb

/-- Nothing ends a read when nothing is to come. -/
theorem responseEnds_nil {size n fuel pos left : Nat} {sock : PeerSocket} (hs : sock.Proper)
    (hbytes : sock.bytes = []) : responseEnds size n fuel pos left sock.lengths = [] := by
  have hlengths : sock.lengths = [] := by
    rw [PeerSocket.lengths, List.map_eq_nil_iff]
    cases hsegs : sock.segs with
    | nil => rfl
    | cons g gs =>
      rw [PeerSocket.bytes, hsegs, List.flatten_cons, List.append_eq_nil_iff] at hbytes
      exact absurd hbytes.1 (hs g (by rw [hsegs]; exact List.mem_cons_self))
  cases fuel with
  | zero => rfl
  | succ fuel => rw [hlengths, responseEnds, takeRead]

/-- Data that no line begins with. -/
def plainData (h : Bytes) : Bytes := List.replicate (hexValue h) 120

theorem length_plainData (h : Bytes) : (plainData h).length = hexValue h := List.length_replicate

/-- In such data, and in the line end behind them, no line begins. -/
theorem refused_plainData (h rest : Bytes) {j : Nat} (hj : j < hexValue h + 2) :
    ∃ b v, (plainData h ++ 13 :: 10 :: rest).drop j = b :: v ∧ refused b := by
  have hlen := length_plainData h
  rcases Nat.lt_trichotomy j (hexValue h) with hlt | rfl | hgt
  · refine ⟨120, (plainData h ++ 13 :: 10 :: rest).drop (j + 1), ?_, by decide⟩
    have hget : (plainData h ++ 13 :: 10 :: rest)[j]? = some 120 := by
      rw [List.getElem?_append_left (by omega), plainData, List.getElem?_replicate, if_pos hlt]
    obtain ⟨hin, hval⟩ := List.getElem?_eq_some_iff.mp hget
    rw [← List.getElem_cons_drop hin, hval]
  · exact ⟨13, 10 :: rest, by rw [← hlen, List.drop_left], by decide⟩
  · obtain rfl : j = hexValue h + 1 := by omega
    exact ⟨10, rest, by rw [← hlen, ← List.drop_drop, List.drop_left]; rfl, by decide⟩

namespace ResponseBuffer

variable {c : ResponseBuffer} {fuel a n k : Nat} {parser p : ResponseParser}
  {pre g bs w h y rest : Bytes} {sock sock' : PeerSocket}

/-- In front of a line, of which `pre` is in the buffer. -/
structure AtLine (c : ResponseBuffer) (parser : ResponseParser) (pre g : Bytes)
    (sock : PeerSocket) : Prop where
  error : parser.error = 0
  length : (pre ++ g).length = c.buffSize + 1
  short : pre.length < c.buffSize
  proper : sock.Proper
  silent : sock.closed = false

/-- A read brings something while there is something to come. -/
theorem AtLine.read (hl : c.AtLine parser pre g sock) :
    (sock.bytes = [] ∧ sock.read (c.buffSize - pre.length) = none) ∨
      ∃ bs sock', sock.read (c.buffSize - pre.length) = some (bs, sock') ∧ bs ≠ [] ∧
        sock.bytes = bs ++ sock'.bytes ∧ (pre ++ bs).length ≤ c.buffSize ∧ sock'.Proper ∧
        sock'.closed = false := by
  have hshort := hl.short
  by_cases hbytes : sock.bytes = []
  · exact Or.inl ⟨hbytes, PeerSocket.read_silent hl.silent hbytes hl.proper⟩
  · obtain ⟨bs, sock', hread, hbs⟩ :=
      PeerSocket.read_of_bytes (n := c.buffSize - pre.length) hl.proper hbytes (by omega)
    obtain ⟨hle, -⟩ := PeerSocket.length_read hread
    refine Or.inr ⟨bs, sock', hread, hbs, PeerSocket.read_bytes hread, ?_,
      PeerSocket.proper_read hl.proper hread, (PeerSocket.takeRead_lengths hl.silent hread).2⟩
    rw [List.length_append]
    omega

/-- One turn of the loop of a line. -/
theorem recvChunkHead_turn (hl : c.AtLine parser pre g sock) (hsize : c.buffSize < 2 ^ 31)
    (hread : sock.read (c.buffSize - pre.length) = some (bs, sock')) (hbs : bs ≠ []) :
    c.recvChunkHead (fuel + 1) parser (pre ++ g) pre.length sock =
      match parser.execute (pre ++ bs ++ 0 :: g.drop (bs.length + 1)) (pre ++ bs).length true with
      | .error f => .error (.fault f)
      | .ok (parser, data, nparse) =>
        if parser.hasError then .error .null
        else
          let len := intOfSize (subSize (pre ++ bs).length nparse)
          if len = intOfSize c.buffSize then .error .null
          else if parser.isFinished then .ok (parser, data, len, sock')
          else c.recvChunkHead fuel parser data len sock' := by
  obtain ⟨hle, -⟩ := PeerSocket.length_read hread
  have hpos := List.length_pos_iff.mpr hbs
  have hshort := hl.short
  have hoff : sizeOfInt pre.length = pre.length := sizeOfInt_natCast (by unfold sizeMod; omega)
  have hsub : subSize c.buffSize pre.length = c.buffSize - pre.length :=
    subSize_of_le hshort.le (by unfold sizeMod; omega)
  have hcast : (bs.length : Int) + pre.length = ((pre ++ bs).length : Nat) := by
    rw [List.length_append]
    omega
  have hlen : sizeOfInt ((pre ++ bs).length : Nat) = (pre ++ bs).length := by
    apply sizeOfInt_natCast
    rw [List.length_append]
    unfold sizeMod
    omega
  have hbuffer : overwrite (overwrite (pre ++ g) pre.length bs) (pre ++ bs).length [0] =
      pre ++ bs ++ 0 :: g.drop (bs.length + 1) := by
    have hfirst : overwrite (pre ++ g) pre.length bs = pre ++ bs ++ g.drop bs.length := by
      rw [overwrite, List.take_left, ← List.drop_drop, List.drop_left]
    rw [hfirst, overwrite, List.take_left, ← List.drop_drop, List.drop_left, List.drop_drop,
      List.append_assoc (pre ++ bs)]
    rfl
  rw [recvChunkHead, recvParsed, hoff, hsub, hread]
  dsimp only
  rw [if_neg (by omega), hcast, hlen, Int.toNat_natCast, Int.toNat_natCast, hbuffer]
  cases parser.execute (pre ++ bs ++ 0 :: g.drop (bs.length + 1)) (pre ++ bs).length true with
  | error f => rfl
  | ok x => simp only [recvChunkHead, decide_eq_true_eq]

theorem recvChunkHead_silent (hl : c.AtLine parser pre g sock) (hsize : c.buffSize < 2 ^ 31)
    (hread : sock.read (c.buffSize - pre.length) = none) :
    ∀ fuel x, c.recvChunkHead fuel parser (pre ++ g) pre.length sock ≠ .ok x := by
  intro fuel x hrun
  cases fuel with
  | zero => cases hrun
  | succ fuel =>
    have hshort := hl.short
    have hsub : subSize c.buffSize (sizeOfInt pre.length) = c.buffSize - pre.length := by
      rw [sizeOfInt_natCast (by unfold sizeMod; omega)]
      exact subSize_of_le hshort.le (by unfold sizeMod; omega)
    rw [recvChunkHead, recvParsed, hsub, hread] at hrun
    cases hrun

/-- A line that cannot begin like what is there is not received. -/
theorem recvChunkHead_refused (hl : c.AtLine parser pre g sock) (hsize : c.buffSize < 2 ^ 31)
    {b : UInt8} (hstream : pre ++ sock.bytes = b :: w) (hb : refused b) :
    ∀ fuel x, c.recvChunkHead fuel parser (pre ++ g) pre.length sock ≠ .ok x := by
  intro fuel x hrun
  rcases hl.read with ⟨-, hread⟩ | ⟨bs, sock', hread, hbs, hbytes, hle, -⟩
  · exact recvChunkHead_silent hl hsize hread fuel x hrun
  · cases fuel with
    | zero => cases hrun
    | succ fuel =>
      obtain ⟨v, hv⟩ : ∃ v, pre ++ bs = b :: v := by
        rw [hbytes, ← List.append_assoc] at hstream
        cases hpre : pre ++ bs with
        | nil => exact absurd (List.append_eq_nil_iff.mp hpre).2 hbs
        | cons d v =>
          rw [hpre] at hstream
          exact ⟨v, by rw [(List.cons.inj hstream).1]⟩
      rw [recvChunkHead_turn hl hsize hread hbs, hv] at hrun
      rw [hv] at hle
      obtain ⟨t, data, m, hexec, herror⟩ := execute_refused (s := parser) (w := v)
        (g := g.drop (bs.length + 1)) hb (by omega)
      rw [hexec] at hrun
      simp only [herror, if_true] at hrun
      cases hrun

/-- A turn whose read brings a part of the line, without its line feed. -/
theorem recvChunkHead_part (hl : c.AtLine parser pre g sock) (hsize : c.buffSize < 2 ^ 31)
    (hread : sock.read (c.buffSize - pre.length) = some (bs, sock')) (hbs : bs ≠ [])
    (hs' : sock'.Proper) (hopen' : sock'.closed = false) {t : ResponseParser}
    (hexec : parser.execute (pre ++ bs ++ 0 :: g.drop (bs.length + 1)) (pre ++ bs).length true =
      .ok (t, pre ++ bs ++ 0 :: g.drop (bs.length + 1), (pre ++ bs).length))
    (hcs : t.cs = 2 ∨ t.cs = 3) (herror : t.error = parser.error) :
    ∃ g', (∀ fuel, c.recvChunkHead (fuel + 1) parser (pre ++ g) pre.length sock =
        c.recvChunkHead fuel t ([] ++ g') ([] : Bytes).length sock') ∧
      c.AtLine t [] g' sock' := by
  obtain ⟨hle, -⟩ := PeerSocket.length_read hread
  have hlength := hl.length
  have hshort := hl.short
  have hnoerror : t.hasError = false := by
    rw [hasError, herror, hl.error]
    rcases hcs with hcs | hcs <;> simp [hcs]
  have hunfinished : t.isFinished = false := by
    rw [isFinished]
    rcases hcs with hcs | hcs <;> simp [hcs, httpclientParserScanner]
  refine ⟨pre ++ bs ++ 0 :: g.drop (bs.length + 1), fun fuel => ?_,
    herror.trans hl.error, ?_, by simp only [List.length_nil]; omega, hs', hopen'⟩
  · rw [recvChunkHead_turn hl hsize hread hbs, hexec]
    simp only [hnoerror, hunfinished, Bool.false_eq_true, if_false]
    rw [subSize_of_le le_rfl (by rw [List.length_append]; unfold sizeMod; omega), Nat.sub_self,
      intOfSize_of_lt (by decide), intOfSize_of_lt hsize, if_neg (by omega)]
    rfl
  · rw [List.length_append] at hlength
    rw [List.nil_append, List.length_append, List.length_append, List.length_cons,
      List.length_drop]
    omega

/-- A turn whose read ends inside of the digits. -/
theorem recvChunkHead_digits (hl : c.AtLine parser pre g sock) (hsize : c.buffSize < 2 ^ 31)
    (hread : sock.read (c.buffSize - pre.length) = some (bs, sock')) (hbs : bs ≠ [])
    (hs' : sock'.Proper) (hopen' : sock'.closed = false)
    (hh : ∀ b ∈ pre ++ bs, isHexDigit b = true) :
    ∃ (t : ResponseParser) (g' : Bytes),
      (∀ fuel, c.recvChunkHead (fuel + 1) parser (pre ++ g) pre.length sock =
        c.recvChunkHead fuel t ([] ++ g') ([] : Bytes).length sock') ∧
      c.AtLine t [] g' sock' ∧ t.data = parser.data := by
  obtain ⟨hle, -⟩ := PeerSocket.length_read hread
  have hshort := hl.short
  have hlt : (pre ++ bs).length < 2 ^ 31 := by
    rw [List.length_append]
    omega
  obtain ⟨t, hexec, hcs, herror, hdata⟩ := execute_digits (s := parser)
    (g := g.drop (bs.length + 1)) (List.append_ne_nil_of_right_ne_nil pre hbs) hh hlt
  obtain ⟨g', hturn, hl'⟩ := recvChunkHead_part hl hsize hread hbs hs' hopen' hexec (Or.inl hcs)
    herror
  exact ⟨t, g', hturn, hl', hdata⟩

/-- The turn whose read brings the end of the line, and `y` behind it. -/
theorem recvChunkHead_line (hl : c.AtLine parser pre g sock) (hsize : c.buffSize < 2 ^ 31)
    (hread : sock.read (c.buffSize - pre.length) = some (bs, sock')) (hbs : bs ≠ [])
    (hs' : sock'.Proper) (hopen' : sock'.closed = false) (hne : h ≠ [])
    (hh : ∀ b ∈ h, isHexDigit b = true) (hw : pre ++ bs = h ++ 13 :: 10 :: y) :
    ∃ (p : ResponseParser) (g' : Bytes),
      (∀ fuel, c.recvChunkHead (fuel + 1) parser (pre ++ g) pre.length sock =
        .ok (p, y ++ g', y.length, sock')) ∧
      c.AtLine p y g' sock' ∧ p.data = parser.data ∧ p.contentLen = contentLen h ∧
      p.chunksDone = decide (contentLen h ≤ 0) := by
  obtain ⟨hle, -⟩ := PeerSocket.length_read hread
  have hlength := hl.length
  have hshort := hl.short
  have hlen := congrArg List.length hw
  rw [List.length_append, List.length_append, List.length_cons, List.length_cons] at hlen
  rw [List.length_append] at hlength
  obtain ⟨t, g', hexec, hbuffer, hcs, herror, hdata, hcontent, hdone⟩ := execute_line (s := parser)
    (g := g.drop (bs.length + 1)) (y := y) hne hh (by rw [← hw, List.length_append]; omega)
  have hnoerror : t.hasError = false := by
    simp [hasError, herror, hl.error, hcs]
  have hfinished : t.isFinished = true := by
    simp [isFinished, hcs, httpclientParserScanner]
  have hleft : (h ++ 13 :: 10 :: y).length - (h.length + 2) = y.length := by
    rw [← hw, List.length_append]
    omega
  rw [← hw] at hexec hbuffer hleft
  refine ⟨t, g', fun fuel => ?_, ⟨herror.trans hl.error, ?_, by omega, hs', hopen'⟩, hdata,
    hcontent, hdone⟩
  · rw [recvChunkHead_turn hl hsize hread hbs, hexec]
    simp only [hnoerror, hfinished, Bool.false_eq_true, if_false, if_true]
    have hlong : h.length + 2 ≤ (pre ++ bs).length := by
      rw [List.length_append]
      omega
    have hbound : (pre ++ bs).length < 2 ^ 31 := by
      rw [List.length_append]
      omega
    rw [subSize_of_le hlong (by unfold sizeMod; omega), hleft, intOfSize_of_lt (by omega),
      intOfSize_of_lt hsize, if_neg (by omega)]
  · rw [hbuffer, List.length_append, List.length_append, List.length_cons, List.length_drop]
    omega

/-- Where a read ends in a line and what stands behind it. -/
theorem line_cases {v : Bytes} (heq : w ++ v = h ++ 13 :: 10 :: rest) :
    (∃ u, h = w ++ u ∧ v = u ++ 13 :: 10 :: rest) ∨ (w = h ++ [13] ∧ v = 10 :: rest) ∨
      ∃ y, w = h ++ 13 :: 10 :: y ∧ rest = y ++ v := by
  rcases List.append_eq_append_iff.mp heq with ⟨u, hu, hv⟩ | ⟨u, hu, hv⟩
  · exact Or.inl ⟨u, hu, hv⟩
  · cases u with
    | nil => exact Or.inl ⟨[], by rw [hu, List.append_nil, List.append_nil], hv.symm⟩
    | cons d u =>
      obtain ⟨hd, hbehind⟩ := List.cons.inj hv
      subst hd
      cases u with
      | nil => exact Or.inr (Or.inl ⟨hu, hbehind.symm⟩)
      | cons d u =>
        obtain ⟨hd, hrest⟩ := List.cons.inj hbehind
        subst hd
        exact Or.inr (Or.inr ⟨u, hu, hrest⟩)

/-- What has been received of a line from position `a` on: its digits from the `m`-th on, its end,
    and `y` behind it. -/
structure LineRead (c : ResponseBuffer) (n a : Nat) (h rest : Bytes) (ends : List Nat)
    (parser p : ResponseParser) (m : Nat) (y g : Bytes) (sock : PeerSocket) : Prop where
  digits : m < h.length
  stream : rest = y ++ sock.bytes
  atLine : c.AtLine p y g sock
  data : p.data = parser.data
  content : p.contentLen = contentLen (h.drop m)
  done : p.chunksDone = decide (contentLen (h.drop m) ≤ 0)
  reads : ∃ E k, ends = E ++ (a + h.length + 2 + y.length) ::
      responseEnds c.buffSize n k (a + h.length + 2 + y.length) 0 sock.lengths ∧
    sock.bytes.length ≤ k ∧ (∀ e ∈ E, e ≤ a + m) ∧ (m = 0 ∨ a + m ∈ E)

/-- Where the next reads end, behind one that has brought the last of the head. -/
theorem AtLine.ends (hl : c.AtLine parser pre g sock) (hn : n ≤ a + pre.length)
    (hread : sock.read (c.buffSize - pre.length) = some (bs, sock')) :
    responseEnds c.buffSize n (k + 1) (a + pre.length) pre.length sock.lengths =
      (a + (pre ++ bs).length) ::
        responseEnds c.buffSize n k (a + (pre ++ bs).length) 0 sock'.lengths := by
  rw [responseEnds_of_read hl.silent hread, if_neg (by omega), List.length_append, Nat.add_assoc]

/-- What a line that is received has been received of. -/
theorem recvChunkHead_ok (hl : c.AtLine parser pre g sock) (hsize : c.buffSize < 2 ^ 31)
    (hne : h ≠ []) (hh : ∀ b ∈ h, isHexDigit b = true)
    (hstream : pre ++ sock.bytes = h ++ 13 :: 10 :: rest) (hk : sock.bytes.length ≤ k)
    (hn : n ≤ a + pre.length) {data' : Bytes} {len' : Int}
    (hrun : c.recvChunkHead fuel parser (pre ++ g) pre.length sock = .ok (p, data', len', sock')) :
    ∃ m y g', data' = y ++ g' ∧ len' = y.length ∧
      c.LineRead n a h rest
        (responseEnds c.buffSize n k (a + pre.length) pre.length sock.lengths) parser p m y g'
        sock' := by
  induction fuel generalizing pre g parser sock h a k with
  | zero => cases hrun
  | succ fuel ih =>
    rcases hl.read with ⟨-, hread⟩ | ⟨bs, sock₁, hread, hbs, hbytes, hle, hs₁, hopen₁⟩
    · exact absurd hrun (recvChunkHead_silent hl hsize hread _ _)
    have hpos := List.length_pos_iff.mpr hbs
    obtain ⟨k, rfl⟩ : ∃ k', k = k' + 1 := by
      rw [hbytes, List.length_append] at hk
      exact ⟨k - 1, by omega⟩
    have hk₁ : sock₁.bytes.length ≤ k := by
      rw [hbytes, List.length_append] at hk
      omega
    rw [hbytes, ← List.append_assoc] at hstream
    rw [hl.ends hn hread]
    rcases line_cases hstream with ⟨v, rfl, hv⟩ | ⟨hw, hv⟩ | ⟨y, hw, hrest⟩
    · have hhex := List.forall_mem_append.mp hh
      obtain ⟨t, g', hturn, hl', hdata⟩ :=
        recvChunkHead_digits hl hsize hread hbs hs₁ hopen₁ hhex.1
      rw [hturn] at hrun
      by_cases hnil : v = []
      · rw [hnil] at hv
        exact absurd hrun (recvChunkHead_refused hl' hsize hv (by decide) _ _)
      · obtain ⟨m, y, g'', hdata', hlen', hline⟩ := ih (a := a + (pre ++ bs).length) hl' hnil
          hhex.2 hv hk₁ (by simp only [List.length_append, List.length_nil]; omega) hrun
        obtain ⟨E, k', hends, hk', hbefore, hcut⟩ := hline.reads
        have hdigits := hline.digits
        have hdrop : (pre ++ bs ++ v).drop ((pre ++ bs).length + m) = v.drop m := by
          rw [← List.drop_drop, List.drop_left]
        have hposition : a + (pre ++ bs ++ v).length = a + (pre ++ bs).length + v.length := by
          rw [@List.length_append _ _ v, Nat.add_assoc]
        refine ⟨(pre ++ bs).length + m, y, g'', hdata', hlen', ⟨?_, hline.stream, hline.atLine,
          hline.data.trans hdata, ?_, ?_, (a + (pre ++ bs).length) :: E, k', ?_, hk', ?_, ?_⟩⟩
        · rw [@List.length_append _ _ v]
          omega
        · rw [hdrop]
          exact hline.content
        · rw [hdrop]
          exact hline.done
        · rw [hposition, List.cons_append, ← hends]
          rfl
        · rw [List.forall_mem_cons]
          refine ⟨by omega, fun e he => ?_⟩
          have := hbefore e he
          omega
        · refine Or.inr ?_
          rcases hcut with rfl | hmem
          · exact List.mem_cons_self
          · rw [← Nat.add_assoc]
            exact List.mem_cons_of_mem _ hmem
    · obtain ⟨t, hexec, hcs, herror, -⟩ := execute_return (s := parser)
        (g := g.drop (bs.length + 1)) hne hh (by
          rw [hw, List.length_append] at hle
          simp only [List.length_singleton] at hle
          omega)
      rw [← hw] at hexec
      obtain ⟨g', hturn, hl'⟩ := recvChunkHead_part hl hsize hread hbs hs₁ hopen₁ hexec
        (Or.inr hcs) herror
      rw [hturn] at hrun
      exact absurd hrun (recvChunkHead_refused hl' hsize hv (by decide) _ _)
    · obtain ⟨p', g', hturn, hl', hdata, hcontent, hdone⟩ :=
        recvChunkHead_line hl hsize hread hbs hs₁ hopen₁ hne hh hw
      rw [hturn] at hrun
      cases hrun
      have hlen : (pre ++ bs).length = h.length + 2 + y.length := by
        rw [hw, List.length_append, List.length_cons, List.length_cons]
        omega
      refine ⟨0, y, g', rfl, rfl, ⟨List.length_pos_iff.mpr hne, hrest, hl', hdata, hcontent, hdone,
        [], k, ?_, hk₁, fun e he => (by cases he), Or.inl rfl⟩⟩
      rw [hlen, List.nil_append, Nat.add_assoc a, Nat.add_assoc a, Nat.add_assoc h.length]

/-- The line of a chunk that comes whole is received. -/
theorem recvChunkHead_exists (hl : c.AtLine parser pre g sock) (hsize : c.buffSize < 2 ^ 31)
    (hne : h ≠ []) (hh : ∀ b ∈ h, isHexDigit b = true)
    (hstream : pre ++ sock.bytes = h ++ 13 :: 10 :: rest) (hn : n ≤ a + pre.length)
    (hwhole : ChunkWhole (responseEnds c.buffSize n k (a + pre.length) pre.length sock.lengths)
      a h) :
    ∃ f x, c.recvChunkHead f parser (pre ++ g) pre.length sock = .ok x := by
  induction k generalizing pre g parser sock h a with
  | zero => cases hwhole.1
  | succ k ih =>
    rcases hl.read with ⟨hbytes, -⟩ | ⟨bs, sock₁, hread, hbs, hbytes, hle, hs₁, hopen₁⟩
    · rw [responseEnds_nil hl.proper hbytes] at hwhole
      cases hwhole.1
    have hpos := List.length_pos_iff.mpr hbs
    rw [hbytes, ← List.append_assoc] at hstream
    rw [hl.ends hn hread] at hwhole
    rcases line_cases hstream with ⟨v, rfl, hv⟩ | ⟨hw, -⟩ | ⟨y, hw, -⟩
    · have hhex := List.forall_mem_append.mp hh
      obtain ⟨hdigits, hzeros⟩ := hwhole.2 _ List.mem_cons_self
        (by rw [List.length_append]; omega)
        (by rw [chunkLength, @List.length_append _ _ v]; omega)
      have hnil : v ≠ [] := by
        rintro rfl
        rw [List.append_nil] at hdigits
        omega
      rw [Nat.add_sub_cancel_left, List.take_left] at hzeros
      obtain ⟨t, g', hturn, hl', -⟩ :=
        recvChunkHead_digits hl hsize hread hbs hs₁ hopen₁ hhex.1
      obtain ⟨f, x, hrun⟩ := ih (a := a + (pre ++ bs).length) hl' hnil hhex.2 hv
        (by simp only [List.length_append, List.length_nil]; omega)
        (hwhole.behindZeros hh hzeros)
      exact ⟨f + 1, x, by rw [hturn, hrun]⟩
    · have hlen := congrArg List.length hw
      rw [@List.length_append _ h, List.length_singleton] at hlen
      obtain ⟨hdigits, -⟩ := hwhole.2 _ List.mem_cons_self (by omega)
        (by rw [chunkLength]; omega)
      omega
    · obtain ⟨p, g', hturn, -⟩ := recvChunkHead_line hl hsize hread hbs hs₁ hopen₁ hne hh hw
      exact ⟨1, _, hturn 0⟩

/-! ## One chunk -/

variable {body body' data data' d : Bytes} {content len' : Int} {left : Nat}

/-- The loop for the part of a chunk that is not in the buffer. -/
theorem recvLeft_ok (hsize : c.buffSize < 2 ^ 31) (hs : sock.Proper)
    (hleft : left ≤ sock.bytes.length) (hdata : data.length = c.buffSize + 1)
    (hrun : c.recvLeft fuel left body data sock = .ok (body', data', sock')) :
    body' = body ++ sock.bytes.take left ∧ sock'.bytes = sock.bytes.drop left ∧ sock'.Proper ∧
      sock'.closed = sock.closed ∧ data'.length = c.buffSize + 1 := by
  induction fuel generalizing left body data sock with
  | zero => cases hrun
  | succ fuel ih =>
    rw [recvLeft] at hrun
    split at hrun
    · rename_i hzero
      obtain rfl : left = 0 := by omega
      cases hrun
      exact ⟨by simp, by simp, hs, rfl, hdata⟩
    · rename_i hpos
      have hask : (if intOfSize c.buffSize < (left : Int) then intOfSize c.buffSize
          else (left : Int)) = (min c.buffSize left : Nat) := by
        rw [intOfSize_of_lt hsize]
        split <;> omega
      dsimp only at hrun
      rw [hask, sizeOfInt_natCast (by unfold sizeMod; omega)] at hrun
      split at hrun
      · cases hrun
      · rename_i bs sock₁ hread
        obtain ⟨hle, -⟩ := PeerSocket.length_read hread
        split at hrun
        · cases hrun
        · have htake : (overwrite data 0 bs).take bs.length = bs := by
            rw [overwrite, List.take_zero, List.nil_append, List.take_left]
          have hbytes := PeerSocket.read_bytes hread
          have hclosed : sock₁.closed = sock.closed := by
            rw [PeerSocket.skip_of_read hs hread, PeerSocket.skip]
          rw [htake, ← Int.ofNat_sub (by omega)] at hrun
          rw [hbytes, List.length_append] at hleft
          obtain ⟨hbody, hsock, hs', hclosed', hdata'⟩ := ih (PeerSocket.proper_read hs hread)
            (by omega) ((length_overwrite (by omega)).trans hdata) hrun
          have hall : bs.length ≤ left := by omega
          refine ⟨?_, ?_, hs', hclosed'.trans hclosed, hdata'⟩
          · rw [hbody, hbytes, List.take_append, List.take_of_length_le hall, List.append_assoc]
          · rw [hsock, hbytes, List.drop_append, List.drop_of_length_le hall, List.nil_append]

/-- What the data of a chunk are taken from, when `y` is in the buffer behind its line. -/
theorem recvChunk_ok (hl : c.AtLine p y g sock) (hsize : c.buffSize < 2 ^ 31)
    (hlong : content + 2 ≤ (y ++ sock.bytes).length)
    (hrun : c.recvChunk fuel content body (y ++ g) y.length sock =
      .ok (body', data', len', sock')) :
    ∃ (m : Nat) (z g' : Bytes), content = m ∧ 2 ≤ y.length ∧ data' = z ++ g' ∧
      len' = z.length ∧ c.AtLine p z g' sock' ∧
      ((m + 2 ≤ y.length ∧ sock' = sock ∧ body' = body ++ y.take m ∧
          z = (y.take (y.length - 2)).drop m) ∨
        (y.length < m + 2 ∧ z = [] ∧
          body' = body ++ y.take (y.length - 2) ++ sock.bytes.take (m + 2 - y.length) ∧
          sock'.bytes = sock.bytes.drop (m + 2 - y.length))) := by
  have hlength := hl.length
  have hshort := hl.short
  rw [List.length_append] at hlength hlong
  rw [recvChunk] at hrun
  dsimp only at hrun
  split at hrun
  · rename_i hle
    rw [append] at hrun
    split at hrun
    · cases hrun
    · rename_i hpos
      obtain ⟨m, rfl⟩ := Int.eq_ofNat_of_zero_le (Int.not_lt.mp hpos)
      have hcast : (y.length : Int) - 2 = (y.length - 2 : Nat) := by omega
      rw [hcast] at hrun hle
      cases hrun
      have htake : ((y ++ g).take (y.length - 2)).drop m = (y.take (y.length - 2)).drop m := by
        rw [List.take_append_of_le_length (by omega)]
      refine ⟨m, (y.take (y.length - 2)).drop m, (y ++ g).drop (y.length - 2 - m), rfl, by omega,
        ?_, ?_, ⟨hl.error, ?_, ?_, hl.proper, hl.silent⟩, Or.inl ⟨by omega, rfl, ?_, rfl⟩⟩
      · simp only [Int.toNat_natCast]
        rw [htake]
      · rw [List.length_drop, List.length_take]
        omega
      · rw [List.length_append, List.length_drop, List.length_take, List.length_drop,
          List.length_append]
        omega
      · rw [List.length_drop, List.length_take]
        omega
      · rw [Int.toNat_natCast, List.take_append_of_le_length (by omega)]
  · rename_i hlt
    rw [append] at hrun
    split at hrun
    · cases hrun
    · rename_i hpos
      obtain ⟨m, rfl⟩ := Int.eq_ofNat_of_zero_le (show 0 ≤ content by omega)
      have hcast : (y.length : Int) - 2 = (y.length - 2 : Nat) := by omega
      have hleft : (m : Int) - (y.length - 2 : Nat) = (m + 2 - y.length : Nat) := by omega
      rw [hcast, hleft] at hrun
      simp only [bind, Except.bind, pure, Except.pure] at hrun
      split at hrun
      · cases hrun
      · rename_i x hx
        obtain ⟨body₁, data₁, sock₁⟩ := x
        cases hrun
        obtain ⟨hbody, hsock, hs', hclosed, hdata⟩ := recvLeft_ok hsize hl.proper (by omega)
          hl.length hx
        refine ⟨m, [], data₁, rfl, by omega, rfl, rfl, ⟨hl.error, hdata, ?_, hs',
          hclosed.trans hl.silent⟩, Or.inr ⟨by omega, rfl, ?_, hsock⟩⟩
        · rw [List.length_nil]
          omega
        · rw [hbody, Int.toNat_natCast, List.take_append_of_le_length (by omega)]

/-! ## All chunks -/

theorem recvChunks_succ {len : Int}
    (hrun : c.recvChunks (fuel + 1) parser body data len sock = .ok p) :
    ∃ (p₁ : ResponseParser) (data₁ : Bytes) (len₁ : Int) (sock₁ : PeerSocket)
      (body₂ data₂ : Bytes) (len₂ : Int) (sock₂ : PeerSocket),
      c.recvChunkHead fuel parser data len sock = .ok (p₁, data₁, len₁, sock₁) ∧
      c.recvChunk fuel p₁.contentLen body data₁ len₁ sock₁ = .ok (body₂, data₂, len₂, sock₂) ∧
      if p₁.chunksDone then p = { p₁ with data := p₁.data.setBody body₂ }
      else c.recvChunks fuel p₁ body₂ data₂ len₂ sock₂ = .ok p := by
  simp only [recvChunks, bind, Except.bind, pure, Except.pure] at hrun
  split at hrun
  · cases hrun
  · rename_i x hx
    obtain ⟨p₁, data₁, len₁, sock₁⟩ := x
    split at hrun
    · cases hrun
    · rename_i x' hx'
      obtain ⟨body₂, data₂, len₂, sock₂⟩ := x'
      refine ⟨p₁, data₁, len₁, sock₁, body₂, data₂, len₂, sock₂, hx, hx', ?_⟩
      split at hrun
      · rename_i hdone
        rw [if_pos hdone]
        exact (Except.ok.inj hrun).symm
      · rename_i hdone
        rw [if_neg hdone]
        exact hrun

/-- The body only grows. -/
theorem prefix_recvLeft {left : Int}
    (hrun : c.recvLeft fuel left body data sock = .ok (body', data', sock')) : body <+: body' := by
  induction fuel generalizing left body data sock with
  | zero => cases hrun
  | succ fuel ih =>
    rw [recvLeft] at hrun
    split at hrun
    · cases hrun
      exact List.prefix_rfl
    · dsimp only at hrun
      split at hrun
      · cases hrun
      · split at hrun
        · cases hrun
        · exact (List.prefix_append _ _).trans (ih hrun)

theorem prefix_append {len : Int} (hrun : append body data len = .ok body') : body <+: body' := by
  rw [append] at hrun
  split at hrun
  · cases hrun
  · cases hrun
    exact List.prefix_append _ _

theorem prefix_recvChunk {len : Int}
    (hrun : c.recvChunk fuel content body data len sock = .ok (body', data', len', sock')) :
    body <+: body' := by
  simp only [recvChunk, bind, Except.bind, pure, Except.pure] at hrun
  split at hrun
  · split at hrun
    · cases hrun
    · rename_i body₁ hbody₁
      cases hrun
      exact prefix_append hbody₁
  · split at hrun
    · cases hrun
    · rename_i body₁ hbody₁
      split at hrun
      · cases hrun
      · rename_i x hx
        cases hrun
        exact (prefix_append hbody₁).trans (prefix_recvLeft hx)

theorem prefix_recvChunks {len : Int} (hrun : c.recvChunks fuel parser body data len sock = .ok p) :
    body <+: p.data.body := by
  induction fuel generalizing parser body data len sock with
  | zero => cases hrun
  | succ fuel ih =>
    obtain ⟨p₁, data₁, len₁, sock₁, body₂, data₂, len₂, sock₂, -, hchunk, hrest⟩ :=
      recvChunks_succ hrun
    refine (prefix_recvChunk hchunk).trans ?_
    split at hrest
    · rw [hrest]
      exact List.prefix_rfl
    · exact ih hrest

theorem recvChunks_refused (hl : c.AtLine parser pre g sock) (hsize : c.buffSize < 2 ^ 31)
    {b : UInt8} (hstream : pre ++ sock.bytes = b :: w) (hb : refused b) :
    c.recvChunks fuel parser body (pre ++ g) pre.length sock ≠ .ok p := by
  intro hrun
  cases fuel with
  | zero => cases hrun
  | succ fuel =>
    obtain ⟨_, _, _, _, _, _, _, _, hhead, -⟩ := recvChunks_succ hrun
    exact recvChunkHead_refused hl hsize hstream hb _ _ hhead

variable {m : Nat} {z : Bytes}

/-- Where the next line would begin when less than a chunk has been taken, or not its line end. -/
theorem refused_behind (hstream : y ++ sock.bytes = plainData h ++ 13 :: 10 :: rest)
    (hz : (m + 2 ≤ y.length ∧ sock' = sock ∧ z = (y.take (y.length - 2)).drop m) ∨
      (y.length < m + 2 ∧ z = [] ∧ sock'.bytes = sock.bytes.drop (m + 2 - y.length)))
    (hm : m < hexValue h ∨ (m = hexValue h ∧ z ≠ [])) :
    ∃ b v, z ++ sock'.bytes = b :: v ∧ refused b := by
  by_cases hnil : z = []
  · have hlt : m < hexValue h := hm.resolve_right fun heq => heq.2 hnil
    obtain ⟨b, v, hdrop, hb⟩ := refused_plainData h rest
      (show m + 2 < hexValue h + 2 by omega)
    refine ⟨b, v, ?_, hb⟩
    rw [hnil, List.nil_append, ← hdrop, ← hstream]
    rcases hz with ⟨hle, rfl, hz⟩ | ⟨hlt, -, hbytes⟩
    · have hlen := congrArg List.length hz
      rw [hnil, List.length_nil, List.length_drop, List.length_take] at hlen
      rw [show m + 2 = y.length by omega, List.drop_left]
    · rw [hbytes, List.drop_append, List.drop_of_length_le (by omega : y.length ≤ m + 2),
        List.nil_append]
  · obtain ⟨hle, -, hpart⟩ := hz.resolve_right fun hz => hnil hz.2.1
    obtain ⟨b, v, hdrop, hb⟩ := refused_plainData h rest
      (show m < hexValue h + 2 by omega)
    obtain ⟨d, z', hcons⟩ := List.exists_cons_of_ne_nil hnil
    refine ⟨d, z' ++ sock'.bytes, by rw [hcons, List.cons_append], ?_⟩
    have hstarts : z <+: b :: v := by
      rw [hpart, ← hdrop, ← hstream, List.drop_append_of_le_length (by omega)]
      exact ((List.take_prefix _ _).drop m).trans (List.prefix_append _ _)
    rw [hcons, List.cons_prefix_cons] at hstarts
    rw [hstarts.1]
    exact hb

/-- What is taken for a chunk that the buffer holds only a part of ends with its line end. -/
theorem not_prefix_plainData {B : Bytes}
    (hstream : y ++ sock.bytes = plainData h ++ 13 :: 10 :: rest) (htwo : 2 ≤ y.length)
    (hlt : y.length < hexValue h + 2) (hplain : body ++ plainData h <+: B) :
    ¬body ++ y.take (y.length - 2) ++ sock.bytes.take (hexValue h + 2 - y.length) <+: B := by
  intro hwrong
  have hlen := congrArg List.length hstream
  rw [List.length_append, List.length_append, length_plainData, List.length_cons,
    List.length_cons] at hlen
  have heq : body ++ plainData h =
      body ++ y.take (y.length - 2) ++ sock.bytes.take (hexValue h + 2 - y.length) := by
    have hsame : (body ++ plainData h).length =
        (body ++ y.take (y.length - 2) ++ sock.bytes.take (hexValue h + 2 - y.length)).length := by
      simp only [List.length_append, List.length_take, length_plainData]
      omega
    exact (List.prefix_of_prefix_length_le hplain hwrong hsame.le).eq_of_length hsame
  rw [List.append_assoc, List.append_cancel_left_eq] at heq
  have hget : sock.bytes[hexValue h + 1 - y.length]? = some 10 := by
    have hall : (y ++ sock.bytes)[hexValue h + 1]? = some 10 := by
      rw [hstream, List.getElem?_append_right (by rw [length_plainData]; omega), length_plainData,
        Nat.add_sub_cancel_left]
      rfl
    rwa [List.getElem?_append_right (by omega)] at hall
  have hmem : (10 : UInt8) ∈ plainData h := by
    rw [heq]
    apply List.mem_append_right
    apply List.mem_of_getElem? (i := hexValue h + 1 - y.length)
    rw [List.getElem?_take, if_pos (by omega), hget]
  exact absurd (List.eq_of_mem_replicate hmem) (by decide)

/-- Where the reads have ended that have brought a line, and where the next ones end. -/
theorem LineRead.split {ends : List Nat} (hline : c.LineRead n a h rest ends parser p m y g sock) :
    ∃ E k, ends = E ++ responseEnds c.buffSize n k (a + h.length + 2 + y.length) 0 sock.lengths ∧
      sock.bytes.length ≤ k ∧ a + h.length + 2 + y.length ∈ E ∧
      (∀ e ∈ E, e ≤ a + m ∨ e = a + h.length + 2 + y.length) ∧ (m = 0 ∨ a + m ∈ E) ∧
      ∀ e ∈ responseEnds c.buffSize n k (a + h.length + 2 + y.length) 0 sock.lengths,
        a + h.length + 2 + y.length < e := by
  obtain ⟨E, k, hends, hk, hbefore, hcut⟩ := hline.reads
  have hshort := hline.atLine.short
  refine ⟨E ++ [a + h.length + 2 + y.length], k, ?_, hk, ?_, ?_, ?_, ?_⟩
  · rw [hends, List.append_assoc, List.singleton_append]
  · exact List.mem_append_right _ (List.mem_singleton_self _)
  · intro e he
    rcases List.mem_append.mp he with he | he
    · exact Or.inl (hbefore e he)
    · exact Or.inr (List.mem_singleton.mp he)
  · exact hcut.imp_right fun hmem => List.mem_append_left _ hmem
  · intro e he
    exact lt_of_mem_responseEnds (PeerSocket.lengths_pos hline.atLine.proper) (by omega) he

/-- A chunk that comes whole is in the buffer behind its line, and nothing else is. -/
theorem LineRead.of_whole {ends : List Nat}
    (hline : c.LineRead n a h rest ends parser p m y g sock)
    (hh : ∀ b ∈ h, isHexDigit b = true) (hwhole : ChunkWhole ends a h) :
    y.length = hexValue h + 2 ∧ hexValue (h.drop m) = hexValue h := by
  obtain ⟨E, k, hends, -, hlast, hbefore, hcut, hbehind⟩ := hline.split
  have hdigits := hline.digits
  obtain ⟨hmem, hinside⟩ := hwhole
  rw [hends] at hmem hinside
  rw [chunkLength] at hmem hinside
  have hlong := hinside _ (List.mem_append_left _ hlast) (by omega)
  have hend : a + (h.length + hexValue h + 4) = a + h.length + 2 + y.length := by
    rcases List.mem_append.mp hmem with hmem | hmem
    · rcases hbefore _ hmem with hle | heq
      · omega
      · exact heq
    · have := hbehind _ hmem
      have hbound : ¬a + h.length + 2 + y.length < a + (h.length + hexValue h + 4) := by
        intro hlt
        have := (hlong hlt).1
        omega
      omega
  refine ⟨by omega, (hexValue_drop_eq hh m).mpr ?_⟩
  rcases hcut with rfl | hmem
  · intro b hb
    cases hb
  · intro b hb
    have hpos : m ≠ 0 := by
      rintro rfl
      cases hb
    obtain ⟨-, hzeros⟩ := hinside _ (List.mem_append_left _ hmem) (by omega) (by omega)
    rw [Nat.add_sub_cancel_left] at hzeros
    exact hzeros b hb

theorem LineRead.whole {ends : List Nat} (hline : c.LineRead n a h rest ends parser p m y g sock)
    (hh : ∀ b ∈ h, isHexDigit b = true) (hlen : y.length = hexValue h + 2)
    (hvalue : hexValue (h.drop m) = hexValue h) : ChunkWhole ends a h := by
  obtain ⟨E, k, hends, -, hlast, hbefore, -, hbehind⟩ := hline.split
  have hdigits := hline.digits
  have hend : a + chunkLength h = a + h.length + 2 + y.length := by
    rw [chunkLength, hlen]
    omega
  rw [ChunkWhole, hends, hend]
  refine ⟨List.mem_append_left _ hlast, fun e he hlt hle => ?_⟩
  rcases List.mem_append.mp he with he | he
  · rcases hbefore e he with hm | heq
    · refine ⟨by omega, fun b hb => (hexValue_drop_eq hh m).mp hvalue b ?_⟩
      exact List.take_subset_take_left h (by omega : e - a ≤ m) hb
    · omega
  · have := hbehind e he
    omega

/-- What is in the buffer whole is taken off it. -/
theorem recvChunk_whole (hl : c.AtLine p (d ++ [13, 10]) g sock) :
    ∃ g', (∀ fuel body,
        c.recvChunk fuel d.length body (d ++ [13, 10] ++ g) (d ++ [13, 10]).length sock =
          .ok (body ++ d, [] ++ g', ([] : Bytes).length, sock)) ∧ c.AtLine p [] g' sock := by
  have hlength := hl.length
  have hshort := hl.short
  have hlen : ((d ++ [13, 10]).length : Int) - 2 = d.length := by
    rw [List.length_append]
    simp
  have htake : (d ++ [13, 10] ++ g).take d.length = d := by
    rw [List.append_assoc, List.take_left]
  have happend (body : Bytes) : append body (d ++ [13, 10] ++ g) d.length = .ok (body ++ d) := by
    rw [append, if_neg (by omega), Int.toNat_natCast, htake]
  refine ⟨d ++ [13, 10] ++ g, fun fuel body => ?_, ⟨hl.error, hlength, ?_, hl.proper, hl.silent⟩⟩
  · rw [recvChunk]
    dsimp only
    rw [hlen, if_pos le_rfl, happend]
    simp only [bind, Except.bind, pure, Except.pure, Int.toNat_natCast, htake, List.drop_length,
      Nat.sub_self, List.drop_zero, Int.sub_self]
    rfl
  · rw [List.length_nil]
    omega

/-- A chunk that is in the buffer behind its line, and nothing else, is taken. -/
theorem LineRead.taken {ends : List Nat} (hsize : c.buffSize < 2 ^ 31)
    (hline : c.LineRead n a h (d ++ 13 :: 10 :: rest) ends parser p m y g sock)
    (hd : d.length = hexValue h) (hlen : y.length = hexValue h + 2)
    (hvalue : hexValue (h.drop m) = hexValue h) :
    ∃ E k g', ends = E ++ responseEnds c.buffSize n k (a + chunkLength h) 0 sock.lengths ∧
      (∀ e ∈ E, e ≤ a + chunkLength h) ∧ sock.bytes.length ≤ k ∧ sock.bytes = rest ∧
      c.AtLine p [] g' sock ∧ p.chunksDone = decide (hexValue h = 0) ∧
      ∀ fuel body, c.recvChunk fuel p.contentLen body (y ++ g) y.length sock =
        .ok (body ++ d, [] ++ g', ([] : Bytes).length, sock) := by
  obtain ⟨hy, hrest⟩ : y = d ++ [13, 10] ∧ sock.bytes = rest := by
    have heq : y ++ sock.bytes = (d ++ [13, 10]) ++ rest := by
      rw [← hline.stream, List.append_assoc]
      rfl
    refine List.append_inj heq ?_
    rw [List.length_append, hd]
    exact hlen
  have hshort := hline.atLine.short
  have hdigits := hline.digits
  have hcontent : contentLen (h.drop m) = d.length := by
    rw [contentLen_of_lt (by omega), hvalue, hd]
  obtain ⟨E, k, hends, hk, -, hbefore, -⟩ := hline.split
  have hposition : a + h.length + 2 + y.length = a + chunkLength h := by
    rw [chunkLength]
    omega
  rw [hposition] at hends hbefore
  have hl := hline.atLine
  rw [hy] at hl
  obtain ⟨g', hchunk, hl'⟩ := recvChunk_whole hl
  refine ⟨E, k, g', hends, fun e he => ?_, hk, hrest, hl', ?_, fun fuel body => ?_⟩
  · rcases hbefore e he with hle | heq
    · rw [chunkLength]
      omega
    · exact heq.le
  · rw [hline.done, hcontent, hd, decide_eq_decide]
    omega
  · rw [hline.content, hcontent, hy]
    exact hchunk fuel body

/-- Plain data that are taken are in the buffer whole: else bytes that no line begins with would be
    left behind them, or their line end would be taken for data. -/
theorem LineRead.plain {ends : List Nat} {p₁ : ResponseParser} {sock₁ sock₂ : PeerSocket}
    {body₂ data₂ : Bytes} {len₂ : Int} (hsize : c.buffSize < 2 ^ 31)
    (hline : c.LineRead n a h (plainData h ++ 13 :: 10 :: rest) ends parser p₁ m y g sock₁)
    (hlast : hexValue h = 0 → rest = [])
    (hchunk : c.recvChunk fuel p₁.contentLen body (y ++ g) y.length sock₁ =
      .ok (body₂, data₂, len₂, sock₂))
    (hnext : if p₁.chunksDone then p = { p₁ with data := p₁.data.setBody body₂ }
      else c.recvChunks fuel p₁ body₂ data₂ len₂ sock₂ = .ok p)
    (hbody : body ++ plainData h <+: p.data.body) :
    y.length = hexValue h + 2 ∧ hexValue (h.drop m) = hexValue h := by
  have hrest := hline.stream
  have hlen := congrArg List.length hrest
  rw [List.length_append, List.length_append, length_plainData, List.length_cons,
    List.length_cons] at hlen
  have hle : contentLen (h.drop m) ≤ hexValue h :=
    (contentLen_le _).trans (Int.ofNat_le.mpr (hexValue_drop_le h m))
  rw [hline.content] at hchunk
  have hstarts : body₂ <+: p.data.body := by
    split at hnext
    · rw [hnext]
      exact List.prefix_rfl
    · exact prefix_recvChunks hnext
  obtain ⟨j, z, g₂, hj, htwo, rfl, rfl, hl₂, hcases⟩ := recvChunk_ok hline.atLine hsize
    (by rw [List.length_append]; omega) hchunk
  have hz : (j + 2 ≤ y.length ∧ sock₂ = sock₁ ∧ z = (y.take (y.length - 2)).drop j) ∨
      (y.length < j + 2 ∧ z = [] ∧ sock₂.bytes = sock₁.bytes.drop (j + 2 - y.length)) := by
    rcases hcases with ⟨h1, h2, -, h4⟩ | ⟨h1, h2, -, h4⟩
    · exact Or.inl ⟨h1, h2, h4⟩
    · exact Or.inr ⟨h1, h2, h4⟩
  have hdone := hline.done
  -- a chunk that is cut short, or not taken off the buffer, leaves what no line begins with
  have hgoes : (j < hexValue h ∨ (j = hexValue h ∧ z ≠ [])) → j = 0 := by
    intro hm
    by_contra hpos
    rw [hdone, hj, if_neg (by rw [decide_eq_true_eq]; omega)] at hnext
    obtain ⟨b, v, hbehind, hb⟩ := refused_behind hrest.symm hz hm
    exact recvChunks_refused hl₂ hsize hbehind hb hnext
  have hj' : j = hexValue h := by
    by_contra hne'
    have hlt : j < hexValue h := by omega
    obtain rfl : j = 0 := hgoes (Or.inl hlt)
    rw [hdone, hj, if_pos (by decide)] at hnext
    rcases hcases with ⟨-, -, hbody₂, -⟩ | ⟨hshort, -⟩
    · have hdata : p.data.body = body₂ := by
        rw [hnext]
        rfl
      have hlength := hbody.length_le
      rw [hdata, hbody₂, List.take_zero, List.append_nil, List.length_append,
        length_plainData] at hlength
      omega
    · omega
  subst hj'
  have hvalue : hexValue (h.drop m) = hexValue h := by
    have h1 := contentLen_le (h.drop m)
    have h2 := hexValue_drop_le h m
    omega
  refine ⟨?_, hvalue⟩
  rcases hcases with ⟨hfits, rfl, -, hz₂⟩ | ⟨hlt, -, hbody₂, -⟩
  · by_contra hne'
    have hz₂' : z ≠ [] := by
      intro hnil
      have hzero := congrArg List.length hz₂
      rw [hnil, List.length_nil, List.length_drop, List.length_take] at hzero
      omega
    have hzero := hgoes (Or.inr ⟨rfl, hz₂'⟩)
    rw [hlast hzero, List.length_nil] at hlen
    omega
  · rw [hbody₂] at hstarts
    exact absurd hstarts (not_prefix_plainData hrest.symm htwo hlt hbody)

/-- A chunk of plain data that is received has come whole, and the next one is received behind
    it. -/
theorem recvChunks_plain (hl : c.AtLine parser pre g sock) (hsize : c.buffSize < 2 ^ 31)
    (hne : h ≠ []) (hh : ∀ b ∈ h, isHexDigit b = true)
    (hstream : pre ++ sock.bytes = chunkBytes h (plainData h) ++ rest)
    (hlast : hexValue h = 0 → rest = []) (hk : sock.bytes.length ≤ k) (hn : n ≤ a + pre.length)
    (hrun : c.recvChunks (fuel + 1) parser body (pre ++ g) pre.length sock = .ok p)
    (hbody : body ++ plainData h <+: p.data.body) :
    ∃ E k' sock',
      responseEnds c.buffSize n k (a + pre.length) pre.length sock.lengths =
        E ++ responseEnds c.buffSize n k' (a + chunkLength h) 0 sock'.lengths ∧
      (∀ e ∈ E, e ≤ a + chunkLength h) ∧ sock'.bytes.length ≤ k' ∧
      ChunkWhole (responseEnds c.buffSize n k (a + pre.length) pre.length sock.lengths) a h ∧
      (hexValue h = 0 ∨ ∃ (parser' : ResponseParser) (g' : Bytes),
        c.AtLine parser' [] g' sock' ∧ sock'.bytes = rest ∧
        c.recvChunks fuel parser' (body ++ plainData h) ([] ++ g') ([] : Bytes).length sock' =
          .ok p) := by
  rw [chunkBytes_append] at hstream
  obtain ⟨p₁, data₁, len₁, sock₁, body₂, data₂, len₂, sock₂, hhead, hchunk, hnext⟩ :=
    recvChunks_succ hrun
  obtain ⟨m, y, g₁, rfl, rfl, hline⟩ := recvChunkHead_ok hl hsize hne hh hstream hk hn hhead
  obtain ⟨hlen, hvalue⟩ := hline.plain hsize hlast hchunk hnext hbody
  obtain ⟨E, k', g', hends, hE, hk', hrest, hl', hdone, hchunk'⟩ :=
    hline.taken hsize (length_plainData h) hlen hvalue
  rw [hchunk'] at hchunk
  cases hchunk
  refine ⟨E, k', sock₁, hends, hE, hk', hline.whole hh hlen hvalue, ?_⟩
  by_cases hzero : hexValue h = 0
  · exact Or.inl hzero
  · rw [hdone, if_neg (by rw [decide_eq_true_eq]; exact hzero)] at hnext
    exact Or.inr ⟨p₁, g', hl', hrest, hnext⟩

/-- Chunks of plain data that are received have come whole: the induction is on the sizes. -/
theorem chunksWhole_of_recvChunks (body : Bytes) {sizes : List Bytes}
    (hl : c.AtLine parser pre g sock) (hsize : c.buffSize < 2 ^ 31)
    (hsizes : ∀ h ∈ sizes, 0 < hexValue h ∧ ∀ b ∈ h, isHexDigit b = true)
    (hstream : pre ++ sock.bytes = chunkedBytes sizes (sizes.map plainData))
    (hk : sock.bytes.length ≤ k) (hn : n ≤ a)
    (hrun : c.recvChunks fuel parser body (pre ++ g) pre.length sock = .ok p)
    (hbody : p.data.body = body ++ (sizes.map plainData).flatten) :
    ChunksWhole (responseEnds c.buffSize n k (a + pre.length) pre.length sock.lengths) a
      (sizes ++ [ascii "0"]) := by
  have hn' : n ≤ a + pre.length := by omega
  induction sizes generalizing fuel parser body pre g sock a k with
  | nil =>
    cases fuel with
    | zero => cases hrun
    | succ fuel =>
      rw [List.map_nil, chunkedBytes_nil] at hstream
      have hplain : plainData (ascii "0") = [] := by decide
      have hlast : pre ++ sock.bytes = chunkBytes (ascii "0") (plainData (ascii "0")) ++ [] := by
        rw [hplain, hstream, List.append_nil]
      obtain ⟨E, k', sock', -, -, -, hwhole, -⟩ := recvChunks_plain hl hsize (by decide)
        (List.all_eq_true.mp (by decide)) hlast (fun _ => rfl) hk hn' hrun
        (by rw [hplain, hbody]; exact List.prefix_rfl)
      exact ⟨hwhole, trivial⟩
  | cons h hs ih =>
    cases fuel with
    | zero => cases hrun
    | succ fuel =>
      rw [List.forall_mem_cons] at hsizes
      obtain ⟨⟨hpos, hh⟩, hrest⟩ := hsizes
      have hne : h ≠ [] := by
        rintro rfl
        exact absurd hpos (by decide)
      rw [List.map_cons, chunkedBytes_cons] at hstream
      rw [List.map_cons, List.flatten_cons, ← List.append_assoc] at hbody
      obtain ⟨E, k', sock', hends, hE, hk', hwhole, hnext⟩ := recvChunks_plain hl hsize hne hh
        hstream (fun hzero => absurd hzero hpos.ne') hk hn' hrun
        (by rw [hbody]; exact List.prefix_append _ _)
      obtain ⟨parser', g', hl', hbytes, hrun'⟩ := hnext.resolve_left hpos.ne'
      refine ⟨hwhole, ?_⟩
      rw [hends, ChunksWhole.append_iff hE]
      exact ih (a := a + chunkLength h) (body ++ plainData h) hl' hrest hbytes hk' (by omega) hrun'
        hbody (by omega)

/-! ## Chunks that come whole -/

/-- A chunk that comes whole is received. -/
theorem recvChunks_whole (hl : c.AtLine parser pre g sock) (hsize : c.buffSize < 2 ^ 31)
    (hne : h ≠ []) (hh : ∀ b ∈ h, isHexDigit b = true)
    (hstream : pre ++ sock.bytes = chunkBytes h d ++ rest) (hd : d.length = hexValue h)
    (hk : sock.bytes.length ≤ k) (hn : n ≤ a + pre.length)
    (hwhole : ChunkWhole (responseEnds c.buffSize n k (a + pre.length) pre.length sock.lengths)
      a h) :
    ∃ f E k' parser' g' sock',
      responseEnds c.buffSize n k (a + pre.length) pre.length sock.lengths =
        E ++ responseEnds c.buffSize n k' (a + chunkLength h) 0 sock'.lengths ∧
      (∀ e ∈ E, e ≤ a + chunkLength h) ∧ sock'.bytes.length ≤ k' ∧ sock'.bytes = rest ∧
      c.AtLine parser' [] g' sock' ∧
      ∀ fuel body, f ≤ fuel → c.recvChunks (fuel + 1) parser body (pre ++ g) pre.length sock =
        if hexValue h = 0 then .ok { parser' with data := parser'.data.setBody (body ++ d) }
        else c.recvChunks fuel parser' (body ++ d) ([] ++ g') ([] : Bytes).length sock' := by
  rw [chunkBytes_append] at hstream
  obtain ⟨f, ⟨p₁, data₁, len₁, sock₁⟩, hhead⟩ :=
    recvChunkHead_exists hl hsize hne hh hstream hn hwhole
  obtain ⟨m, y, g₁, rfl, rfl, hline⟩ := recvChunkHead_ok hl hsize hne hh hstream hk hn hhead
  obtain ⟨hlen, hvalue⟩ := hline.of_whole hh hwhole
  obtain ⟨E, k', g', hends, hE, hk', hrest, hl', hdone, hchunk⟩ :=
    hline.taken hsize hd hlen hvalue
  refine ⟨f, E, k', p₁, g', sock₁, hends, hE, hk', hrest, hl', fun fuel body hfuel => ?_⟩
  obtain ⟨i, rfl⟩ := Nat.exists_eq_add_of_le hfuel
  have hhead' : c.recvChunkHead (f + i) parser (pre ++ g) pre.length sock = _ :=
    recvParsed_add_fuel hhead i
  rw [recvChunks, hhead']
  simp only [bind, Except.bind, pure, Except.pure]
  rw [hchunk]
  simp only [hdone, decide_eq_true_eq]

end ResponseBuffer

end CppServerFramework.HTTP
