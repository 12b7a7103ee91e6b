import CppServerFramework.HTTP.RequestParserProps
import CppServerFramework.HTTP.Session

/-!
# Receiving a request in pieces

`http_parser_execute` returns `nread`, which counts the bytes of all its calls, and the buffer is
moved by that number; nothing ever resets it.  A head that comes in more than one read is parsed
by more than one call, and the second call finds `nread` above the number of bytes it was given,
or throws away bytes of the body.  So a request is received as it was sent only if its head comes
in the first read.
-/

namespace CppServerFramework.HTTP
open CInt Blocks

variable {c : HttpSession} {parser : RequestParser} {data : Bytes} {sock : PeerSocket}
variable {head body : Bytes} {r : HttpRequest} {fuel : Nat}

namespace HttpSession

/-- A request: a head that the grammar accepts, with a method and a version the parser knows,
    shorter than the buffer, and the body that its content length announces. -/
structure CompleteRequest (c : HttpSession) (head body : Bytes) (r : HttpRequest) : Prop where
  accepted : (httpParserScanner c.uriRelaxed).Accepts 1 head
  short : head.length < c.memory.length
  memory : c.memory.length < 2 ^ 63
  size : body.length < 2 ^ 63
  parsed : ∃ s : RequestParser, RequestParser.headParser c.queryStart c.uriRelaxed head = .ok s ∧
    s.error = 0 ∧ (s.getContentLength c.lexicalCast).toNat = body.length ∧
    r = { s.data with body := body }

/-- The same of a head that just fits into the buffer. -/
structure SentRequest (c : HttpSession) (head body : Bytes) (r : HttpRequest) : Prop where
  accepted : (httpParserScanner c.uriRelaxed).Accepts 1 head
  fits : head.length ≤ c.memory.length
  memory : c.memory.length < 2 ^ 63
  size : body.length < 2 ^ 63
  parsed : ∃ s : RequestParser, RequestParser.headParser c.queryStart c.uriRelaxed head = .ok s ∧
    s.error = 0 ∧ (s.getContentLength c.lexicalCast).toNat = body.length ∧
    r = { s.data with body := body }

theorem CompleteRequest.sent (h : c.CompleteRequest head body r) : c.SentRequest head body r :=
  ⟨h.accepted, h.short.le, h.memory, h.size, h.parsed⟩

/-- The number of bytes that the first read returns. -/
def firstRead (c : HttpSession) (sock : PeerSocket) : Nat :=
  ((sock.read c.memory.length).map fun x => x.1.length).getD 0

/-- The first read returns the whole head, and what it leaves of the body, if anything, has a
    length that is positive as an `int`. -/
def HeadFirst (c : HttpSession) (sock : PeerSocket) (head body : Bytes) : Prop :=
  head.length ≤ c.firstRead sock ∧
    (head.length + body.length = c.firstRead sock ∨
      0 < intOfSize (head.length + body.length - c.firstRead sock))

theorem recvRequest_eq_ok :
    c.recvRequest fuel sock = .ok r ↔ ∃ t, c.receive fuel sock = .ok (r, t) := by
  rw [recvRequest]
  cases c.receive fuel sock with
  | error stop => simp [Except.map]
  | ok x => simp [Except.map, Prod.ext_iff, eq_comm]

/-! ## The body -/

/-- The bytes of the body that are in the buffer are copied, the others are read. -/
theorem recvBody_ok {x y g more : Bytes} (hs : sock.Proper) (hbytes : sock.bytes = y ++ more)
    (hsize : x.length + y.length < 2 ^ 63)
    (hlength : (parser.getContentLength c.lexicalCast).toNat = x.length + y.length)
    (hbody : parser.data.body = []) (hrest : y = [] ∨ 0 < intOfSize y.length)
    (hfuel : y.length < fuel) :
    c.recvBody fuel parser (x ++ g) x.length sock =
      .ok ({ parser.data with body := x ++ y }, sock.skip y.length) := by
  have hcontent := int64OfUint64_of_lt (hlength ▸ hsize)
  rw [hlength] at hcontent
  simp only [recvBody, hcontent]
  by_cases h0 : x.length + y.length = 0
  · have hx := List.length_eq_zero_iff.mp (Nat.eq_zero_of_add_eq_zero h0).1
    have hy := List.length_eq_zero_iff.mp (Nat.eq_zero_of_add_eq_zero h0).2
    have hsame : ({ parser.data with body := [] } : HttpRequest) = parser.data := by rw [← hbody]
    rw [if_neg (by omega), hx, hy, List.nil_append, hsame, List.length_nil,
      PeerSocket.skip_zero hs]
  · have hle : (x.length : Int) ≤ (x.length + y.length : Nat) := by omega
    have hleft : ((x.length + y.length : Nat) - (x.length : Int)).toNat = y.length := by omega
    rw [if_pos (by omega)]
    simp only [if_pos hle, hleft, Int.toNat_natCast, List.take_left']
    by_cases hnil : y = []
    · rw [hnil, if_neg (by simp), List.length_nil, PeerSocket.skip_zero hs]
      simp [overwrite]
    · have hrestpos := List.length_pos_iff.mpr hnil
      have hbuf : (overwrite (List.replicate (x.length + y.length) 0) 0 x).length =
          x.length + y.length := by
        rw [length_overwrite (by simp), List.length_replicate]
      have hlen := congrArg List.length hbytes
      rw [List.length_append] at hlen
      obtain ⟨trace, t, hrun, hblocked, htsock, htbuf⟩ := fixSizeLoop_bufferRead
        y.length y.length x.length
        (s := ⟨sock, overwrite (List.replicate (x.length + y.length) 0) 0 x, false⟩)
        hs (by simp only; omega) (by simp only [hbuf]; omega) (by simp only [hbuf]; omega) hfuel
      have hpositive := hrest.resolve_left hnil
      rw [if_pos (by omega)]
      simp only [hrun, hblocked]
      rw [if_neg (by simp), if_neg (by omega), htbuf, htsock]
      have hover : overwrite (overwrite (List.replicate (x.length + y.length) 0) 0 x)
          (0 + x.length) y = _ := overwrite_append (by simp)
      rw [Nat.zero_add] at hover
      simp only [hbytes, List.take_left']
      rw [hover]
      simp [overwrite]

/-- What the buffer holds behind the body is not looked at. -/
theorem recvBody_over {x z g : Bytes} (hsize : x.length < 2 ^ 63) (hz : z ≠ [])
    (hlength : (parser.getContentLength c.lexicalCast).toNat = x.length)
    (hbody : parser.data.body = []) :
    c.recvBody fuel parser (x ++ z ++ g) (x.length + z.length : Nat) sock =
      .ok ({ parser.data with body := x }, sock) := by
  have hcontent := int64OfUint64_of_lt (hlength ▸ hsize)
  rw [hlength] at hcontent
  have hzpos := List.length_pos_iff.mpr hz
  simp only [recvBody, hcontent]
  by_cases h0 : x.length = 0
  · rw [if_neg (by omega), List.length_eq_zero_iff.mp h0, ← hbody]
  · rw [if_pos (by omega), if_neg (by omega), if_neg (by omega)]
    simp [overwrite, List.append_assoc]

/-- A body is taken from the buffer and the connection, and a part that is read has a length
    that is positive as an `int`. -/
theorem recvBody_rest {offset : Nat} {t : PeerSocket} (hs : sock.Proper)
    (hdata : parser.data.body = [])
    (h : c.recvBody fuel parser data offset sock = .ok (r, t)) :
    r.body.length ≤ offset + sock.bytes.length ∧ t = sock.skip (r.body.length - offset) ∧
      (offset < r.body.length → 0 < intOfSize (r.body.length - offset)) := by
  simp only [recvBody] at h
  have hlength := int64OfUint64_lt (parser.getContentLength c.lexicalCast)
  set length := int64OfUint64 (parser.getContentLength c.lexicalCast)
  split at h
  · rename_i hpos
    have hbuf : ∀ len, (overwrite (List.replicate length.toNat (0 : UInt8)) 0
        (data.take len)).length = max length.toNat (data.take len).length := by
      intro len
      simp only [overwrite, List.length_append, List.length_take, List.length_drop,
        List.length_replicate]
      omega
    split at h
    · rename_i hmore
      have hlen : (if (offset : Int) ≤ length then (offset : Int) else length) = offset :=
        if_pos (by omega)
      rw [hlen, Int.toNat_natCast] at h
      have hbuf : (overwrite (List.replicate length.toNat (0 : UInt8)) 0
          (data.take offset)).length = length.toNat := by
        rw [hbuf, List.length_take]
        omega
      split at h
      · cases h
      · rename_i trace rt s hrun
        split at h
        · cases h
        · split at h
          · cases h
          · rename_i hrt
            cases h
            have hleft : (length - offset).toNat ≤ sock.bytes.length := by
              by_contra hgt
              have := fixSizeLoop_short hs (Nat.lt_of_not_le hgt) (by omega) hrun
              omega
            obtain ⟨rfl, -, htsock, htbuf⟩ := fixSizeLoop_bufferRead_eq hs hleft
              (by simp only [hbuf]; omega) (by simp only [hbuf]; omega) hrun
            have htlen : s.buf.length = length.toNat := by
              rw [htbuf, length_overwrite, hbuf]
              simp only [hbuf, List.length_take]
              omega
            rw [show (length - offset).toNat = length.toNat - offset by omega] at hrt htsock hleft
            simp only [htlen]
            exact ⟨by omega, htsock, fun _ => by omega⟩
    · cases h
      have hle : (data.take (if (offset : Int) ≤ length then (offset : Int)
          else length).toNat).length ≤ length.toNat := by
        rw [List.length_take]
        split <;> omega
      have hzero : max length.toNat (data.take (if (offset : Int) ≤ length then (offset : Int)
          else length).toNat).length - offset = 0 := by omega
      simp only [hbuf, hzero, PeerSocket.skip_zero hs]
      exact ⟨by omega, trivial, by omega⟩
  · cases h
    rw [hdata, List.length_nil, Nat.zero_sub, PeerSocket.skip_zero hs]
    exact ⟨Nat.zero_le _, rfl, fun hlt => absurd hlt (Nat.not_lt_zero _)⟩

/-- Nothing of the request but its body is changed. -/
theorem recvBody_data {offset : Int} {t : PeerSocket}
    (h : c.recvBody fuel parser data offset sock = .ok (r, t)) :
    r = { parser.data with body := r.body } := by
  simp only [recvBody] at h
  split at h
  · split at h
    · split at h
      · cases h
      · split at h
        · cases h
        · split at h
          · cases h
          · cases h
            rfl
    · cases h
      rfl
  · cases h
    rfl

/-! ## The head -/

/-- What a first read that returns bytes does to the buffer. -/
theorem take_overwrite_zero (mem bs : Bytes) :
    (overwrite mem 0 bs).take bs.length = bs := by
  rw [overwrite, List.take_zero, List.nil_append, List.take_append_of_le_length le_rfl,
    List.take_length]

/-- One turn of the loop of the head, with nothing left in the buffer, behind a read that
    returned bytes. -/
theorem recvHead_turn {bs : Bytes} {sock' : PeerSocket} (hmem : data.length < 2 ^ 63)
    (hread : sock.read data.length = some (bs, sock')) (hbs : bs ≠ []) :
    recvHead (fuel + 1) parser data 0 sock =
      match parser.execute (overwrite data 0 bs) bs.length with
      | .error f => .error (.fault f)
      | .ok (parser, data, nparse) =>
        if parser.hasError then .error .null
        else
          let offset := intOfSize (subSize bs.length nparse)
          if sizeOfInt offset = data.length then .error .null
          else if parser.isFinished then .ok (parser, data, offset, sock')
          else recvHead fuel parser data offset sock' := by
  obtain ⟨hle, hlt⟩ := PeerSocket.length_read hread
  have hpos := List.length_pos_iff.mpr hbs
  have hsub : subSize data.length (sizeOfInt 0) = data.length :=
    subSize_of_le (Nat.zero_le _) (by unfold sizeMod; omega)
  have hsize : sizeOfInt bs.length = bs.length := sizeOfInt_natCast (by unfold sizeMod; omega)
  rw [recvHead, hsub, hread]
  simp only [Int.add_zero, hsize, Int.toNat_zero]
  exact (if_neg (by omega)).trans rfl

/-- Running the whole receive function behind a first read that returned the whole head. -/
theorem receive_head {x : Bytes} {sock' : PeerSocket} {s : RequestParser} (fuel : Nat)
    (hmem : c.memory.length < 2 ^ 63)
    (haccept : (httpParserScanner c.uriRelaxed).Accepts 1 head)
    (hs : RequestParser.headParser c.queryStart c.uriRelaxed head = .ok s) (herror : s.error = 0)
    (hread : sock.read c.memory.length = some (head ++ x, sock')) :
    ∃ (u : RequestParser) (g : Bytes), u.data = s.data ∧
      c.receive (fuel + 1) sock = c.recvBody (fuel + 1) u (x ++ g) x.length sock' := by
  obtain ⟨hle, hlt⟩ := PeerSocket.length_read hread
  have hpos := Scanner.length_pos_of_accepts haccept
  have hne : head ++ x ≠ [] := by
    intro h
    have := congrArg List.length h
    rw [List.length_append, List.length_nil] at this
    omega
  rw [List.length_append] at hle hlt
  obtain ⟨u, hexec, hdata, huerror, hcs, hrelaxed⟩ := RequestParser.execute_head
    x (c.memory.drop (head.length + x.length)) (by omega) haccept hs
  have hover : overwrite c.memory 0 (head ++ x) =
      head ++ x ++ c.memory.drop (head.length + x.length) := by
    simp [overwrite]
  have hnoerror : u.hasError = false := by
    simp only [RequestParser.hasError, huerror, herror]
    have : u.cs ≠ 0 := by omega
    simp [this]
  have hfinished : u.isFinished = true := by
    simp only [RequestParser.isFinished, decide_eq_true_eq]
    exact Or.inr hcs
  have hsub : subSize (head.length + x.length) head.length = x.length := by
    rw [subSize_of_le (by omega) (by unfold sizeMod; omega), Nat.add_sub_cancel_left]
  have hlen : (x ++ (head ++ x ++ c.memory.drop (head.length + x.length)).drop x.length).length =
      c.memory.length := by
    simp only [List.length_append, List.length_drop]
    omega
  refine ⟨u, (head ++ x ++ c.memory.drop (head.length + x.length)).drop x.length, hdata, ?_⟩
  rw [receive, recvHead_turn hmem hread hne, hover, List.length_append, hexec]
  simp only [hnoerror, hsub, hfinished, if_true, Bool.false_eq_true,
    if_false]
  rw [intOfSize_of_lt (by omega), sizeOfInt_natCast (by unfold sizeMod; omega), hlen,
    if_neg (by omega)]

/-- The call behind a first read that returned the whole head of a request. -/
theorem SentRequest.receive {x : Bytes} {sock' : PeerSocket} (hr : c.SentRequest head body r)
    (hread : sock.read c.memory.length = some (head ++ x, sock')) (fuel : Nat) :
    ∃ (u : RequestParser) (g : Bytes), u.data.body = [] ∧
      (u.getContentLength c.lexicalCast).toNat = body.length ∧
      { u.data with body := body } = r ∧
      c.receive (fuel + 1) sock = c.recvBody (fuel + 1) u (x ++ g) x.length sock' := by
  obtain ⟨s, hparse, herror, hlength, rfl⟩ := hr.parsed
  obtain ⟨-, -, -, hbody, -⟩ := RequestParser.acts_sameControl hparse
  obtain ⟨u, g, hdata, heq⟩ := receive_head fuel hr.memory hr.accepted hparse herror hread
  have hcontent : u.getContentLength c.lexicalCast = s.getContentLength c.lexicalCast := by
    rw [RequestParser.getContentLength, hdata]
    rfl
  exact ⟨u, g, hdata ▸ hbody, by rw [hcontent, hlength], by rw [hdata], heq⟩

/-- A first read that returns the head and a part of the body. -/
theorem receive_within {x y more : Bytes} {sock' : PeerSocket}
    (hr : c.SentRequest head (x ++ y) r) (hs : sock'.Proper)
    (hread : sock.read c.memory.length = some (head ++ x, sock')) (hbytes : sock'.bytes = y ++ more)
    (hrest : y = [] ∨ 0 < intOfSize y.length) (hfuel : y.length < fuel + 1) :
    c.receive (fuel + 1) sock = .ok (r, sock'.skip y.length) := by
  have hsize := hr.size
  obtain ⟨u, g, hbody, hlength, hdata, heq⟩ := hr.receive hread fuel
  rw [List.length_append] at hlength hsize
  rw [heq, recvBody_ok hs hbytes hsize hlength hbody hrest hfuel, hdata]

/-- A call that returns the request behind such a read has read what was left of the body. -/
theorem rest_of_receive {x y : Bytes} {sock' t : PeerSocket}
    (hr : c.SentRequest head (x ++ y) r) (hs : sock'.Proper)
    (hread : sock.read c.memory.length = some (head ++ x, sock'))
    (h : c.receive fuel sock = .ok (r, t)) :
    (y = [] ∨ 0 < intOfSize y.length) ∧ t = sock'.skip y.length := by
  cases fuel with
  | zero => cases h
  | succ fuel =>
    obtain ⟨u, g, hbody, -, rfl, heq⟩ := hr.receive hread fuel
    rw [heq] at h
    obtain ⟨-, ht, hrest⟩ := recvBody_rest hs hbody h
    simp only [List.length_append, Nat.add_sub_cancel_left] at ht hrest
    refine ⟨?_, ht⟩
    by_cases hy : y = []
    · exact Or.inl hy
    · have := List.length_pos_iff.mpr hy
      exact Or.inr (hrest (by omega))

/-- A first read that returns more than the request: what stands behind the body is lost. -/
theorem receive_over {z : Bytes} {sock' : PeerSocket} (hr : c.SentRequest head body r)
    (hread : sock.read c.memory.length = some (head ++ (body ++ z), sock')) (hz : z ≠ []) :
    c.receive (fuel + 1) sock = .ok (r, sock') := by
  obtain ⟨u, g, hbody, hlength, hdata, heq⟩ := hr.receive hread fuel
  rw [heq, List.length_append, recvBody_over hr.size hz hlength hbody, hdata]

/-- A request whose head comes in the first read. -/
theorem recvRequest_headFirst {x : Bytes} {sock' : PeerSocket}
    (hr : c.CompleteRequest head (x ++ sock'.bytes) r) (hs : sock'.Proper)
    (hread : sock.read c.memory.length = some (head ++ x, sock')) :
    (∃ fuel, c.recvRequest fuel sock = .ok r) ↔
      sock'.bytes = [] ∨ 0 < intOfSize sock'.bytes.length := by
  simp only [recvRequest_eq_ok]
  constructor
  · rintro ⟨fuel, t, h⟩
    exact (rest_of_receive hr.sent hs hread h).1
  · intro hrest
    exact ⟨_, _,
      receive_within hr.sent hs hread (List.append_nil _).symm hrest (Nat.lt_succ_self _)⟩

/-- What one turn of a loop that ends well has done, with nothing left in the buffer. -/
theorem recvHead_cases {x : RequestParser × Bytes × Int × PeerSocket} (hmem : data.length < 2 ^ 63)
    (h : recvHead fuel parser data 0 sock = .ok x) :
    ∃ (bs : Bytes) (sock' : PeerSocket) (p : RequestParser) (data' : Bytes) (n fuel' : Nat),
      sock.read data.length = some (bs, sock') ∧ bs ≠ [] ∧
      parser.execute (overwrite data 0 bs) bs.length = .ok (p, data', n) ∧
      p.hasError = false ∧
      ((p.isFinished = true ∧ x = (p, data', intOfSize (subSize bs.length n), sock')) ∨
        (p.isFinished = false ∧
          recvHead fuel' p data' (intOfSize (subSize bs.length n)) sock' = .ok x)) := by
  cases fuel with
  | zero => cases h
  | succ fuel =>
    cases hread : sock.read data.length with
    | none =>
      have hsub : subSize data.length (sizeOfInt 0) = data.length :=
        subSize_of_le (Nat.zero_le _) (by unfold sizeMod; omega)
      rw [recvHead, hsub, hread] at h
      cases h
    | some y =>
      obtain ⟨bs, sock'⟩ := y
      by_cases hbs : bs = []
      · subst hbs
        have hsub : subSize data.length (sizeOfInt 0) = data.length :=
          subSize_of_le (Nat.zero_le _) (by unfold sizeMod; omega)
        rw [recvHead, hsub, hread] at h
        cases h
      · rw [recvHead_turn hmem hread hbs] at h
        split at h
        · cases h
        · rename_i p data' n hexec
          split at h
          · cases h
          · rename_i herror
            dsimp only at h
            split at h
            · cases h
            · refine ⟨bs, sock', p, data', n, fuel, rfl, hbs, hexec, by simpa using herror, ?_⟩
              split at h
              · rename_i hfinished
                cases h
                exact Or.inl ⟨hfinished, rfl⟩
              · rename_i hfinished
                exact Or.inr ⟨by simpa using hfinished, h⟩

/-- A call of the parser that neither fails nor finishes has consumed what it was given. -/
theorem execute_unfinished {s t : RequestParser} {mem mem' : Bytes} {len n : Nat}
    (hcs : s.cs ≠ 0) (hlen : len ≠ 0) (hmem : len ≤ mem.length)
    (h : s.execute mem len = .ok (t, mem', n)) (hfinished : t.isFinished = false) :
    n = addSize s.nread len := by
  obtain ⟨hn, -, -, hstate, hrelaxed, -, -⟩ := RequestParser.execute_ok hcs hlen h
  simp only [RequestParser.isFinished, hrelaxed, hstate, decide_eq_false_iff_not, not_or,
    Nat.not_le] at hfinished
  have hpass := Scanner.passes_of_scan (breaksFinal s.uriRelaxed) hfinished.1 hfinished.2
  rw [hn, (Scanner.scan_passes hpass 0).2, List.length_take, Nat.zero_add, Nat.min_eq_left hmem]

/-- What a loop over the head that ends well has done, whatever the peer sent: the parser has
    consumed something and no more than the buffer holds, and what it has consumed is neither in
    the buffer nor still to come. -/
theorem recvHead_spec {offset : Int} {sock' : PeerSocket} (hmem : c.memory.length < 2 ^ 63)
    (hs : sock.Proper)
    (h : recvHead fuel (.new c.queryStart c.uriRelaxed) c.memory 0 sock =
      .ok (parser, data, offset, sock')) :
    ∃ k : Nat, offset = k ∧ parser.data.body = [] ∧ sock'.Proper ∧ 0 < parser.nread ∧
      parser.nread ≤ c.memory.length ∧
      k + parser.nread + sock'.bytes.length ≤ sock.bytes.length := by
  obtain ⟨a, s₁, p₁, data₁, n₁, fuel', hread, ha, hexec, herror, hnext⟩ := recvHead_cases hmem h
  have halen := PeerSocket.length_read hread
  have hapos := List.length_pos_iff.mpr ha
  have hsplit := congrArg List.length (PeerSocket.read_bytes hread)
  rw [List.length_append] at hsplit
  have hover : (overwrite c.memory 0 a).length = c.memory.length := length_overwrite (by omega)
  obtain ⟨hn, hle, hnread, hcs, hrelaxed, hbody, hdata⟩ :=
    RequestParser.execute_ok Nat.one_ne_zero (by omega) hexec
  have hcs₁ : p₁.cs ≠ 0 := by
    intro hzero
    rw [RequestParser.hasError, hzero] at herror
    simp at herror
  have hcs₂ : ((httpParserScanner c.uriRelaxed).scan 1 0 a).state ≠ 0 := by
    rw [hcs, take_overwrite_zero] at hcs₁
    exact hcs₁
  have hstop := Scanner.lt_stop ha hcs₂
  rw [take_overwrite_zero] at hn
  change n₁ = addSize 0 ((httpParserScanner c.uriRelaxed).scan 1 0 a).stop at hn
  have hbounds := (httpParserScanner c.uriRelaxed).stop_bounds 1 0 a
  rw [addSize_of_lt (by unfold sizeMod; omega), Nat.zero_add] at hn
  rcases hnext with ⟨hfinished, heq⟩ | ⟨hunfinished, hhead⟩
  · cases heq
    rw [subSize_of_le hle (by unfold sizeMod; omega), intOfSize_of_lt (by omega)]
    exact ⟨_, rfl, hbody, PeerSocket.proper_read hs hread, by omega, by omega, by omega⟩
  · -- The parser has consumed the first read, so that it has to finish with the second.
    have hall := execute_unfinished Nat.one_ne_zero (by omega) (by omega) hexec hunfinished
    change n₁ = addSize 0 a.length at hall
    rw [addSize_of_lt (by unfold sizeMod; omega), Nat.zero_add] at hall
    have hdatalen : data₁.length = c.memory.length := by
      rw [hdata, hall, List.length_append, List.length_drop, List.length_drop, List.length_take,
        hover]
      omega
    rw [hall, subSize_of_le le_rfl (by unfold sizeMod; omega), Nat.sub_self,
      intOfSize_of_lt (by decide)] at hhead
    obtain ⟨b, s₂, p₂, data₂, n₂, fuel'', hread₂, hb, hexec₂, herror₂, hnext⟩ :=
      recvHead_cases (hdatalen ▸ hmem) hhead
    have hblen := PeerSocket.length_read hread₂
    have hbpos := List.length_pos_iff.mpr hb
    have hsplit₂ := congrArg List.length (PeerSocket.read_bytes hread₂)
    rw [List.length_append] at hsplit₂
    obtain ⟨hn₂, hle₂, hnread₂, -, -, hbody₂, -⟩ :=
      RequestParser.execute_ok hcs₁ (by omega) hexec₂
    rw [take_overwrite_zero] at hn₂
    have hbounds₂ := (httpParserScanner p₁.uriRelaxed).stop_bounds p₁.cs 0 b
    rw [hnread, hall, addSize_of_lt (by unfold sizeMod; omega)] at hn₂
    rcases hnext with ⟨-, heq⟩ | ⟨hunfinished₂, -⟩
    · cases heq
      rw [subSize_of_le hle₂ (by unfold sizeMod; omega), intOfSize_of_lt (by omega)]
      exact ⟨_, rfl, hbody₂.trans hbody,
        PeerSocket.proper_read (PeerSocket.proper_read hs hread) hread₂, by omega, by omega,
        by omega⟩
    · have hover₂ : (overwrite data₁ 0 b).length = data₁.length := length_overwrite (by omega)
      have hall₂ := execute_unfinished hcs₁ (by omega) (by omega) hexec₂ hunfinished₂
      rw [hnread, hall, addSize_of_lt (by unfold sizeMod; omega)] at hall₂
      omega

/-- Whatever a call returns, it has taken more bytes from the connection than the body has. -/
theorem receive_consumes {t : PeerSocket} (hmem : c.memory.length < 2 ^ 63) (hs : sock.Proper)
    (h : c.receive fuel sock = .ok (r, t)) :
    t.Proper ∧ r.body.length + t.bytes.length < sock.bytes.length := by
  rw [receive] at h
  split at h
  · cases h
  · rename_i p data offset sock' hhead
    obtain ⟨k, rfl, hbody, hproper, hpos, -, hle⟩ := recvHead_spec hmem hs hhead
    obtain ⟨hrest, rfl, -⟩ := recvBody_rest hproper hbody h
    refine ⟨PeerSocket.proper_skip hproper _, ?_⟩
    rw [PeerSocket.bytes_skip, List.length_drop]
    omega

/-- The calls of the parser behind a first read that did not return the whole head: the first
    has consumed everything, and the second must find what it is given as long as what both of
    them consume. -/
theorem receive_split {a head' : Bytes} {sock' : PeerSocket} (hmem : c.memory.length < 2 ^ 63)
    (haccept : (httpParserScanner c.uriRelaxed).Accepts 1 (a ++ head')) (hhead' : head' ≠ [])
    (hread : sock.read c.memory.length = some (a, sock')) (hs : sock'.Proper)
    (hbytes : sock'.bytes = head' ++ body) {v : PeerSocket}
    (h : c.receive fuel sock = .ok (r, v)) :
    ∃ (sock'' : PeerSocket) (u : RequestParser) (data : Bytes) (offset : Nat),
      sock''.Proper ∧ u.data.body = [] ∧ offset + sock''.bytes.length < body.length ∧
        c.recvBody fuel u data offset sock'' = .ok (r, v) := by
  obtain ⟨t, hpass, haccept'⟩ := Scanner.accepts_append haccept hhead'
  have hlt := Scanner.lt_of_passes (breaksFinal c.uriRelaxed) (by decide : 1 < 348) hpass
  have hne := Scanner.ne_zero_of_passes Nat.one_ne_zero hpass
  obtain ⟨hstate, hstop⟩ := Scanner.scan_passes hpass 0
  rw [receive] at h
  split at h
  · cases h
  · rename_i p data offset sock₂ hhead
    obtain ⟨a', s', p₁, data₁, n, fuel', hread', ha, hexec, -, hnext⟩ := recvHead_cases hmem hhead
    rw [hread, Option.some.injEq, Prod.mk.injEq] at hread'
    obtain ⟨rfl, rfl⟩ := hread'
    have halen := PeerSocket.length_read hread
    have hapos := List.length_pos_iff.mpr ha
    obtain ⟨hn, -, hnread, hcs, hrelaxed, hbody, hdata₁⟩ :=
      RequestParser.execute_ok Nat.one_ne_zero (by omega) hexec
    have hscan : (httpParserScanner (RequestParser.new c.queryStart c.uriRelaxed).uriRelaxed).scan
        (RequestParser.new c.queryStart c.uriRelaxed).cs 0
        ((overwrite c.memory 0 a).take a.length) = (httpParserScanner c.uriRelaxed).scan 1 0 a := by
      rw [take_overwrite_zero]
      rfl
    rw [hscan, hstop, Nat.zero_add] at hn
    rw [hscan, hstate] at hcs
    have hn' : n = a.length :=
      hn.trans ((addSize_of_lt (by unfold sizeMod; simp [RequestParser.new]; omega)).trans
        (Nat.zero_add _))
    have hunfinished : p₁.isFinished = false := by
      simp only [RequestParser.isFinished, hrelaxed, hcs, decide_eq_false_iff_not, not_or,
        Nat.not_le]
      exact ⟨hne, hlt⟩
    have hlen₁ : data₁.length = c.memory.length := by
      rw [hdata₁, hn', Nat.sub_self, List.drop_zero, List.length_append, List.length_drop,
        List.length_take, length_overwrite (by omega)]
      omega
    rcases hnext with ⟨hfinished, -⟩ | ⟨-, hhead⟩
    · rw [hunfinished] at hfinished
      cases hfinished
    rw [hn', subSize_of_le le_rfl (by unfold sizeMod; omega), Nat.sub_self] at hhead
    obtain ⟨b, s'', p₂, data₂, n₂, fuel'', hread', hb, hexec₂, -, hnext⟩ :=
      recvHead_cases (hlen₁ ▸ hmem) hhead
    have hblen := PeerSocket.length_read hread'
    have hbpos := List.length_pos_iff.mpr hb
    have hsplit := PeerSocket.read_bytes hread'
    obtain ⟨hn₂, hn₂le, -, hcs₂, hrelaxed₂, hbody₂, hdata₂⟩ :=
      RequestParser.execute_ok (hcs ▸ hne) (by omega) hexec₂
    rw [take_overwrite_zero, hrelaxed, hcs, hnread, hn'] at hn₂
    rw [take_overwrite_zero, hrelaxed, hcs] at hcs₂
    change n₂ = addSize a.length ((httpParserScanner c.uriRelaxed).scan t 0 b).stop at hn₂
    have haddSize : ∀ {k}, k ≤ b.length → addSize a.length k = a.length + k := fun hk =>
      addSize_of_lt (by unfold sizeMod; omega)
    rcases List.append_eq_append_iff.mp (hbytes.symm.trans hsplit) with
      ⟨y, rfl, hy⟩ | ⟨rest, rfl, -⟩
    · -- The head ends in the second read, and as many bytes of the body are lost behind it as
      -- the first read returned.
      rw [List.length_append] at hn₂le hblen hbpos haddSize
      have hstop₂ := Scanner.scan_accepts_stop haccept' 0
      have hfinal := Scanner.scan_accepts_state (breaksFinal c.uriRelaxed) haccept' 0
      rw [Scanner.scan_accepts haccept', hstop₂, Nat.zero_add, haddSize (by omega)] at hn₂
      have hfinished : p₂.isFinished = true := by
        simp only [RequestParser.isFinished, hrelaxed₂, hrelaxed, hcs₂, decide_eq_true_eq]
        right
        change _ ≤ ((httpParserScanner c.uriRelaxed).scan t 0 (head' ++ y)).state
        rw [Scanner.scan_accepts haccept']
        exact hfinal
      rcases hnext with ⟨-, heq⟩ | ⟨hunfinished₂, -⟩
      · rw [List.length_append, hn₂, subSize_of_le (by omega) (by unfold sizeMod; omega),
          intOfSize_of_lt (by omega)] at heq
        cases heq
        refine ⟨_, _, _, _, PeerSocket.proper_read hs hread', hbody₂.trans hbody, ?_, h⟩
        rw [hy, List.length_append]
        omega
      · rw [hfinished] at hunfinished₂
        cases hunfinished₂
    · -- The second call consumes the whole second read too, and `nread` is too large.
      have hstop₂ : ((httpParserScanner c.uriRelaxed).scan t 0 b).stop = 0 + b.length := by
        by_cases hrest : rest = []
        · rw [hrest, List.append_nil] at haccept'
          exact Scanner.scan_accepts_stop haccept' 0
        · obtain ⟨u, hu, -⟩ := Scanner.accepts_append haccept' hrest
          exact (Scanner.scan_passes hu 0).2
      rw [hstop₂, Nat.zero_add, haddSize le_rfl] at hn₂
      omega

/-- A request is received as it was sent exactly when its head comes in the first read. -/
theorem recvRequest_correct_iff (hr : c.CompleteRequest head body r) (hs : sock.Proper)
    (hbytes : sock.bytes = head ++ body) :
    (∃ fuel, c.recvRequest fuel sock = .ok r) ↔ c.HeadFirst sock head body := by
  have hpos := Scanner.length_pos_of_accepts hr.accepted
  have hmem := hr.memory
  have hshort := hr.short
  obtain ⟨a, sock', hread, ha⟩ := PeerSocket.read_of_bytes (n := c.memory.length) hs
    (by rw [hbytes]; exact List.append_ne_nil_of_left_ne_nil (List.length_pos_iff.mp hpos) _)
    (by omega)
  have hfirst : c.firstRead sock = a.length := by rw [firstRead, hread]; rfl
  have hsplit := PeerSocket.read_bytes hread
  have hproper := PeerSocket.proper_read hs hread
  rw [HeadFirst, hfirst]
  rcases List.append_eq_append_iff.mp (hbytes.symm.trans hsplit) with
    ⟨x, rfl, rfl⟩ | ⟨head', rfl, hrest⟩
  · rw [recvRequest_headFirst hr hproper hread]
    simp only [List.length_append]
    rw [show head.length + (x.length + sock'.bytes.length) - (head.length + x.length) =
      sock'.bytes.length by omega, ← List.length_eq_zero_iff]
    constructor
    · exact fun h => ⟨by omega, h.imp_left fun h0 => by omega⟩
    · exact fun h => h.2.imp_left fun h0 => by omega
  · by_cases hhead' : head' = []
    · subst hhead'
      rw [List.append_nil] at hr
      rw [List.nil_append] at hrest
      rw [← hrest] at hr ⊢
      have hread' : sock.read c.memory.length = some (a ++ [], sock') := by
        rw [List.append_nil, hread]
      rw [recvRequest_headFirst (x := []) hr hproper hread', ← List.length_eq_zero_iff]
      simp
    · have hlen := List.length_pos_iff.mpr hhead'
      refine iff_of_false ?_ fun h => ?_
      · rintro ⟨fuel, h⟩
        obtain ⟨v, h⟩ := recvRequest_eq_ok.mp h
        obtain ⟨sock'', u, data, offset, hs'', hu, hlt, hrecv⟩ :=
          receive_split hmem hr.accepted hhead' hread hproper hrest h
        obtain ⟨s, -, -, -, rfl⟩ := hr.parsed
        have := (recvBody_rest hs'' hu hrecv).1
        simp only at this
        omega
      · rw [List.length_append] at h
        omega

/-- A server with a buffer of 64 bytes. -/
def exampleSession : HttpSession := ⟨List.replicate 64 0, 0, false, decimalCast⟩

def exampleGet : Bytes := ascii "GET / HTTP/1.1\x0d\n\x0d\n"

def examplePost : Bytes := ascii "POST /a?b=c HTTP/1.1\x0d\nContent-Length: 2\x0d\n\x0d\n"

theorem exampleGet_complete : exampleSession.CompleteRequest exampleGet [] {} where
  accepted := ⟨exampleGet.dropLast, 10, 18, by decide, by decide,
    by decide⟩
  short := by decide
  memory := by decide
  size := by decide
  parsed := ⟨_, rfl, by decide, by decide, by decide⟩

theorem examplePost_complete : exampleSession.CompleteRequest examplePost (ascii "hi")
    { method := .post, path := ascii "/a", query := ascii "b=c", body := ascii "hi",
      headers := [(ascii "Content-Length", ascii "2")] } where
  accepted := ⟨examplePost.dropLast, 10, 18, by decide, by decide,
    by decide⟩
  short := by decide
  memory := by decide
  size := by decide
  parsed := ⟨_, rfl, by decide, by decide, by decide⟩

/-- The head comes with the first byte of the body, the second byte comes later. -/
theorem recvRequest_correct_post :
    ∃ fuel, exampleSession.recvRequest fuel ⟨[examplePost ++ ascii "h", ascii "i"], false⟩ =
      .ok { method := .post, path := ascii "/a", query := ascii "b=c", body := ascii "hi",
            headers := [(ascii "Content-Length", ascii "2")] } :=
  (recvRequest_correct_iff examplePost_complete
    (by simp only [PeerSocket.Proper]; decide) (by decide)).mpr
    ⟨by decide, by decide⟩

/-- The last line end of the head comes in a second read: `nread` is 18, of two bytes. -/
theorem recvRequest_split_head :
    exampleSession.CompleteRequest exampleGet [] {} ∧
      exampleSession.recvRequest 1 ⟨[exampleGet], false⟩ = .ok {} ∧
      exampleSession.recvRequest 2 ⟨[exampleGet.take 16, exampleGet.drop 16], false⟩ =
        .error (.fault .assertion) :=
  ⟨exampleGet_complete, by decide, by decide⟩

end HttpSession

end CppServerFramework.HTTP
