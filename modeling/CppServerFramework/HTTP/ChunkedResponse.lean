import CppServerFramework.HTTP.Chunked

/-!
# Chunked responses, however they are cut

Which chunked responses `recvResponse` returns depends on where the reads end.  What the chunks
say can make up for a wrong cut, when it is the same as the bytes that are lost or taken twice, so
the cuts are judged by all data of the same sizes.
-/

namespace CppServerFramework.HTTP
open CInt Blocks ResponseParser

namespace ResponseBuffer

variable {c : ResponseBuffer} {fuel a n k : Nat} {parser p : ResponseParser}
  {pre g body : Bytes} {sock : PeerSocket}

/-- Chunks that come whole are received: the induction is on the sizes. -/
theorem recvChunks_of_whole (body : Bytes) {sizes chunks : List Bytes}
    (hl : c.AtLine parser pre g sock) (hsize : c.buffSize < 2 ^ 31)
    (hsizes : ∀ h ∈ sizes, 0 < hexValue h ∧ ∀ b ∈ h, isHexDigit b = true)
    (hfills : chunks.map List.length = sizes.map hexValue)
    (hstream : pre ++ sock.bytes = chunkedBytes sizes chunks) (hk : sock.bytes.length ≤ k)
    (hn : n ≤ a)
    (hwhole : ChunksWhole (responseEnds c.buffSize n k (a + pre.length) pre.length sock.lengths) a
      (sizes ++ [ascii "0"])) :
    ∃ f p, (∀ fuel, f ≤ fuel →
        c.recvChunks fuel parser body (pre ++ g) pre.length sock = .ok p) ∧
      p.data.body = body ++ chunks.flatten := by
  have hn' : n ≤ a + pre.length := by omega
  induction sizes generalizing chunks parser body pre g sock a k with
  | nil =>
    obtain rfl : chunks = [] := List.map_eq_nil_iff.mp hfills
    have hlast : pre ++ sock.bytes = chunkBytes (ascii "0") [] ++ [] := by
      rw [hstream, chunkedBytes_nil, List.append_nil]
    obtain ⟨f, _, _, parser', _, _, _, _, _, _, _, hrun⟩ :=
      recvChunks_whole hl hsize (by decide) (List.all_eq_true.mp (by decide)) hlast (by decide) hk
        hn' hwhole.1
    refine ⟨f + 1, { parser' with data := parser'.data.setBody (body ++ []) }, ?_, rfl⟩
    intro fuel hfuel
    obtain ⟨i, rfl⟩ := Nat.exists_eq_add_of_le hfuel
    rw [Nat.add_right_comm, hrun _ _ (Nat.le_add_right _ _), if_pos (by decide)]
  | cons h hs ih =>
    cases chunks with
    | nil => cases hfills
    | cons d ds =>
      rw [List.forall_mem_cons] at hsizes
      obtain ⟨⟨hpos, hh⟩, hrest⟩ := hsizes
      obtain ⟨hd, hds⟩ := List.cons.inj hfills
      have hne : h ≠ [] := by
        rintro rfl
        exact absurd hpos (by decide)
      rw [chunkedBytes_cons] at hstream
      obtain ⟨f, E, k', parser', g', sock', hends, hE, hk', hbytes, hl', hrun⟩ :=
        recvChunks_whole hl hsize hne hh hstream hd hk hn' hwhole.1
      have hnext := hwhole.2
      rw [hends, ChunksWhole.append_iff hE] at hnext
      obtain ⟨f', p, hrun', hbody⟩ := ih (a := a + chunkLength h) (body ++ d) hl' hrest hds
        hbytes hk' (by omega) hnext (by omega)
      refine ⟨f + f' + 1, p, fun fuel hfuel => ?_, ?_⟩
      · obtain ⟨i, rfl⟩ := Nat.exists_eq_add_of_le hfuel
        rw [Nat.add_right_comm, hrun _ _ (by omega), if_neg hpos.ne']
        exact hrun' _ (by omega)
      · rw [hbody, List.flatten_cons, List.append_assoc]

end ResponseBuffer

/-- A head that the parser takes at once for that of a chunked response of version 1.1, and in
    which every value has its own name in front of it, as it has unless it begins a line. -/
structure ChunkedHead (head : Bytes) : Prop where
  version : ascii "HTTP/1.1 " <+: head
  accepted : httpclientParserScanner.Accepts 1 head
  finished : (httpclientParserScanner.scan 1 0 head).state = 120
  chunked : ∃ e ∈ (httpclientParserScanner.scan 1 0 head).events, e.2 = .transChunked
  own : Positions.zero.Along Positions.OwnName (httpclientParserScanner.scan 1 0 head).events
  size : head.length < 2 ^ 63

theorem ChunkedHead.start {head : Bytes} (h : ChunkedHead head) : HeadPart head 0 .zero .new where
  accepts := h.accepted
  state := h.finished
  notFinal := by decide
  fits := Positions.along_fits (sound_head head) h.own (version_events h.version).1
  version _ := (version_events h.version).2
  chunked := Or.inr h.chunked
  stored := ⟨le_rfl, le_rfl, le_rfl⟩
  bodyStart := rfl
  error := rfl

/-- The size of a chunk that is not empty, as it is written. -/
structure ChunkSize where
  text : Bytes
  hex : ∀ b ∈ text, isHexDigit b = true
  pos : 0 < hexValue text

/-- A chunked response and the lengths of the segments that it comes in, whatever its data are. -/
structure ChunkedLayout where
  head : Bytes
  sizes : List ChunkSize
  segments : List Nat
  accepted : ChunkedHead head
  pos : ∀ g ∈ segments, 0 < g
  sum : segments.sum =
    head.length + ((sizes.map ChunkSize.text ++ [ascii "0"]).map chunkLength).sum

namespace ChunkedLayout

variable {l : ChunkedLayout} {chunks : List Bytes} {size : Nat}

def texts (l : ChunkedLayout) : List Bytes := l.sizes.map ChunkSize.text

/-- Data of these sizes. -/
def Fills (l : ChunkedLayout) (chunks : List Bytes) : Prop :=
  chunks.map List.length = l.texts.map hexValue

def sent (l : ChunkedLayout) (chunks : List Bytes) : PeerSocket :=
  .sent l.segments (l.head ++ chunkedBytes l.texts chunks)

/-- Where the reads end as long as nothing stays in a buffer of `size` bytes. -/
def ends (l : ChunkedLayout) (size : Nat) : List Nat :=
  responseEnds size l.head.length l.segments.sum 0 0 l.segments

/-- A read that begins inside of `HTTP/1.1` does not end behind it, and every chunk comes whole in
    one of the reads behind the one that brings the end of the head. -/
def ReadsWhole (l : ChunkedLayout) (size : Nat) : Prop :=
  (8 ∈ l.ends size ∨ ∀ e ∈ l.ends size, 8 < e) ∧
    ChunksWhole ((l.ends size).dropWhile (· < l.head.length)).tail l.head.length
      (l.texts ++ [ascii "0"])

instance (l : ChunkedLayout) (size : Nat) : Decidable (l.ReadsWhole size) :=
  inferInstanceAs (Decidable (_ ∧ _))

theorem versionKept_iff : VersionKept 0 (l.ends size) ↔
    8 ∈ l.ends size ∨ ∀ e ∈ l.ends size, 8 < e := by
  rw [VersionKept]
  simp

/-- A buffer without room reads nothing. -/
theorem responseEnds_zero {n fuel pos left : Nat} {lengths : List Nat} :
    ∀ e ∈ responseEnds 0 n fuel pos left lengths, e = pos := by
  induction fuel generalizing left lengths with
  | zero => simp [responseEnds]
  | succ fuel ih =>
    cases lengths with
    | nil => simp [responseEnds, takeRead]
    | cons g gs =>
      simp only [responseEnds, takeRead, Nat.zero_sub, Nat.zero_min, Nat.add_zero,
        List.forall_mem_cons, true_and]
      exact ih

theorem ReadsWhole.pos (h : l.ReadsWhole size) : 0 < size := by
  apply Nat.pos_of_ne_zero
  rintro rfl
  obtain ⟨_, htail⟩ := h
  have hnone : (l.ends 0).dropWhile (· < l.head.length) = [] := by
    rw [List.dropWhile_eq_nil_iff]
    intro e he
    rw [responseEnds_zero e he]
    exact decide_eq_true (Scanner.length_pos_of_accepts l.accepted.accepted)
  rw [hnone] at htail
  cases hs : l.texts <;>
  · rw [hs] at htail
    cases htail.1.1

theorem mem_texts {h : Bytes} (hh : h ∈ l.texts) :
    0 < hexValue h ∧ ∀ b ∈ h, isHexDigit b = true := by
  obtain ⟨s, -, rfl⟩ := List.mem_map.mp hh
  exact ⟨s.pos, s.hex⟩

theorem length_chunkedBytes {sizes : List Bytes}
    (hfills : chunks.map List.length = sizes.map hexValue) :
    (chunkedBytes sizes chunks).length = ((sizes ++ [ascii "0"]).map chunkLength).sum := by
  induction sizes generalizing chunks with
  | nil =>
    obtain rfl : chunks = [] := List.map_eq_nil_iff.mp hfills
    decide
  | cons h hs ih =>
    cases chunks with
    | nil => cases hfills
    | cons d ds =>
      obtain ⟨hd, hds⟩ := List.cons.inj hfills
      have hone : (chunkBytes h d).length = chunkLength h := by
        rw [chunkBytes, chunkLength, ← hd]
        simp only [List.length_append, crlf, List.length_cons, List.length_nil]
        omega
      rw [chunkedBytes_cons, List.length_append, ih hds, hone]
      rfl

theorem Fills.length (h : l.Fills chunks) :
    (l.head ++ chunkedBytes l.texts chunks).length = l.segments.sum := by
  rw [List.length_append, length_chunkedBytes h, l.sum]
  rfl

theorem Fills.bytes (h : l.Fills chunks) :
    (l.sent chunks).bytes = l.head ++ chunkedBytes l.texts chunks :=
  PeerSocket.bytes_sent h.length

theorem Fills.lengths (h : l.Fills chunks) : (l.sent chunks).lengths = l.segments :=
  PeerSocket.lengths_sent h.length

theorem Fills.proper (h : l.Fills chunks) : (l.sent chunks).Proper := by
  apply PeerSocket.proper_of_lengths
  rw [h.lengths]
  exact l.pos

/-- Data that no line begins with. -/
theorem fills_plainData (l : ChunkedLayout) : l.Fills (l.texts.map plainData) := by
  rw [Fills, List.map_map]
  apply List.map_congr_left
  intro h _
  exact length_plainData h

end ChunkedLayout

namespace ResponseBuffer

variable {l : ChunkedLayout} {chunks : List Bytes} {c : ResponseBuffer} {fuel : Nat}

/-- `recvResponse` returns a response with this body.  A read that nothing is to come for would
    not return, and an append of a negative length would be a fault. -/
def Returns (c : ResponseBuffer) (sock : PeerSocket) (body : Bytes) : Prop :=
  ∃ fuel r, c.recvResponse fuel sock = .ok r ∧ r.body = body

/-- What the loop of the head makes of such a response. -/
theorem recvHead_layout (hpos : 0 < c.buffSize) (hbuff : c.buffSize < 2 ^ 31) (h : l.Fills chunks) :
    if VersionKept 0 (l.ends c.buffSize) then
      ∃ (p : ResponseParser) (x g : Bytes) (sock : PeerSocket),
        (∀ fuel, l.segments.sum ≤ fuel → c.recvHead fuel .new c.memory 0 (l.sent chunks) =
          .ok (p, x ++ g, x.length, sock)) ∧
        c.HeadReceived l.head (chunkedBytes l.texts chunks) (l.ends c.buffSize) p (x ++ g) x sock
    else ∀ fuel y, c.recvHead fuel .new c.memory 0 (l.sent chunks) ≠ .ok y := by
  have hrun := recvHead_parts (c := c) (k := l.segments.sum) l.accepted.version l.accepted.size
    l.accepted.start c.size hpos (by omega) h.proper rfl (by rw [h.bytes]; rfl)
    (by rw [h.bytes, h.length])
  rw [h.lengths] at hrun
  exact hrun

theorem HeadReceived.atLine {head body x g : Bytes} {ends : List Nat} {p : ResponseParser}
    {sock : PeerSocket} (h : c.HeadReceived head body ends p (x ++ g) x sock) :
    c.AtLine p x g sock :=
  ⟨h.error, h.length, h.short, h.proper, h.silent⟩

/-- Nothing is received into a buffer without room. -/
theorem buffSize_pos_of_recvHead {sock : PeerSocket} {p : ResponseParser} {data : Bytes}
    {y : ResponseParser × Bytes × Int × PeerSocket} (h : c.recvHead fuel p data 0 sock = .ok y) :
    0 < c.buffSize := by
  apply Nat.pos_of_ne_zero
  intro hzero
  cases fuel with
  | zero => cases h
  | succ fuel =>
    rw [recvHead, recvParsed, hzero] at h
    split at h
    · cases h
    · rename_i bs sock' hread
      have hbs : bs.length ≤ 0 := (PeerSocket.length_read hread).1
      rw [if_pos (by omega)] at h
      cases h

/-- Chunks that come whole are returned, whatever they say. -/
theorem returns_of_readsWhole (hbuff : c.buffSize < 2 ^ 31)
    (hwhole : l.ReadsWhole c.buffSize) (h : l.Fills chunks) :
    c.Returns (l.sent chunks) chunks.flatten := by
  have hhead := recvHead_layout hwhole.pos hbuff h
  rw [if_pos (ChunkedLayout.versionKept_iff.mpr hwhole.1)] at hhead
  obtain ⟨p, x, g, sock, hrun, hreceived⟩ := hhead
  obtain ⟨k, hk, hends⟩ := hreceived.next
  have hchunks := hwhole.2
  rw [hends] at hchunks
  obtain ⟨f, p', hrun', hbody⟩ := recvChunks_of_whole []
    hreceived.atLine hbuff (fun _ => ChunkedLayout.mem_texts) h hreceived.body.symm hk le_rfl
    hchunks
  refine ⟨l.segments.sum + f, p'.data, ?_, hbody⟩
  rw [recvResponse, receive, hrun _ (Nat.le_add_right _ _)]
  simp only [bind, Except.bind, hreceived.chunked, if_true]
  rw [hrun' _ (Nat.le_add_left _ _)]
  rfl

/-- Plain data that are returned have come whole. -/
theorem readsWhole_of_returns (hbuff : c.buffSize < 2 ^ 31)
    (hreturns : c.Returns (l.sent (l.texts.map plainData)) (l.texts.map plainData).flatten) :
    l.ReadsWhole c.buffSize := by
  have h := l.fills_plainData
  obtain ⟨fuel, r, hrun, hbody⟩ := hreturns
  rw [recvResponse] at hrun
  cases hreceive : c.receive fuel (l.sent (l.texts.map plainData)) with
  | error stop =>
    rw [hreceive] at hrun
    cases hrun
  | ok p' =>
    rw [hreceive] at hrun
    cases hrun
    simp only [receive, bind, Except.bind] at hreceive
    split at hreceive
    · cases hreceive
    · rename_i y hy
      have hhead := recvHead_layout (buffSize_pos_of_recvHead hy) hbuff h
      by_cases hkept : VersionKept 0 (l.ends c.buffSize)
      · rw [if_pos hkept] at hhead
        obtain ⟨p, x, g, sock, hrun, hreceived⟩ := hhead
        have hsame := (recvParsed_add_fuel hy l.segments.sum).symm.trans
          (hrun _ (Nat.le_add_left _ _))
        cases hsame
        rw [if_pos hreceived.chunked] at hreceive
        obtain ⟨k, hk, hends⟩ := hreceived.next
        refine ⟨ChunkedLayout.versionKept_iff.mp hkept, ?_⟩
        rw [hends]
        exact chunksWhole_of_recvChunks [] hreceived.atLine hbuff
          (fun _ => ChunkedLayout.mem_texts) hreceived.body.symm hk le_rfl hreceive hbody
      · rw [if_neg hkept] at hhead
        exact absurd hy (hhead fuel y)

/-- A chunked response is returned with its chunks as the body, whatever they say, exactly when
    the reads cut neither the version nor a chunk, the first of which may begin in the read that
    brings the end of the head. -/
theorem recvResponse_chunked_iff (c : ResponseBuffer) (l : ChunkedLayout)
    (hbuff : c.buffSize < 2 ^ 31) :
    (∀ chunks, l.Fills chunks → c.Returns (l.sent chunks) chunks.flatten) ↔
      l.ReadsWhole c.buffSize := by
  constructor
  · intro hall
    exact readsWhole_of_returns hbuff (hall _ l.fills_plainData)
  · intro hwhole chunks hfills
    exact returns_of_readsWhole hbuff hwhole hfills

/-- A head of 47 bytes, a chunk of 7, and the last one. -/
def exampleLayout (segments : List Nat) (hpos : ∀ g ∈ segments, 0 < g) (hsum : segments.sum = 59) :
    ChunkedLayout where
  head := ascii "HTTP/1.1 200 OK\x0d\nTransfer-Encoding: chunked\x0d\n\x0d\n"
  sizes := [⟨ascii "2", List.all_eq_true.mp (by decide), by decide⟩]
  segments := segments
  accepted :=
    { version := by decide
      accepted := ⟨ascii "HTTP/1.1 200 OK\x0d\nTransfer-Encoding: chunked\x0d\n\x0d", 10, _,
        by decide, rfl, by decide⟩
      finished := by decide
      chunked := by decide
      own := by decide
      size := by decide }
  pos := hpos
  sum := by
    rw [hsum]
    decide

theorem recvResponse_chunked_hi :
    exampleBuffer.Returns ((exampleLayout [47, 7, 5] (by decide) rfl).sent [ascii "hi"])
      (ascii "hi") :=
  (recvResponse_chunked_iff exampleBuffer (exampleLayout [47, 7, 5] (by decide) rfl)
    (by decide)).mpr (by decide) [ascii "hi"] rfl

/-- A response that comes in one segment is not returned: the loop of the chunks reads before it
    looks at what is left.  One whose first chunk lacks its line end is returned with the end of
    that line as its body. -/
theorem recvResponse_chunked_cut :
    let l := exampleLayout [59] (by decide) rfl
    let m := exampleLayout [47, 5, 7] (by decide) rfl
    (l.Fills [ascii "xx"] ∧ ¬exampleBuffer.Returns (l.sent [ascii "xx"]) (ascii "xx")) ∧
      m.Fills [ascii "hi"] ∧ exampleBuffer.Returns (m.sent [ascii "hi"]) crlf := by
  refine ⟨⟨rfl, fun h => ?_⟩, rfl, 9, _, rfl, rfl⟩
  have hwhole := readsWhole_of_returns (by decide) h
  revert hwhole
  decide

end ResponseBuffer

end CppServerFramework.HTTP
