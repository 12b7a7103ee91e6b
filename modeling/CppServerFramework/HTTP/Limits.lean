import CppServerFramework.HTTP.RequestSpans
import CppServerFramework.HTTP.SessionProps

/-!
# The limits on a request

The head of a request is bounded by the buffer, whatever the peer sends: the parser has to finish
with the bytes of one read.  Nothing bounds the body: `http.request.max_body_size` is not read.
So the limits are kept on those streams whose head declares no more, and whose cuts do not stop
the parser.
-/

namespace CppServerFramework.HTTP
open CInt Blocks

namespace HttpSession

variable {c : HttpSession} {parser : RequestParser} {data : Bytes} {sock sock' : PeerSocket}
variable {offset : Int} {r : HttpRequest} {fuel : Nat} {maxBodySize : UInt64}

/-- The number in the last of the header lines for the length. -/
def declaredLength (c : HttpSession) (lines : List (Bytes × Bytes)) : UInt64 :=
  match lines.reverse.find? fun l => sameKey l.1 (ascii "content-length") with
  | none => 0
  | some l => (c.lexicalCast l.2).getD 0

theorem declaredLength_eq (c : HttpSession) (lines : List (Bytes × Bytes)) :
    c.declaredLength lines =
      (HeaderMap.setAll [] lines).getAs c.lexicalCast (ascii "content-length") 0 := by
  have hget : (HeaderMap.setAll [] lines).get (ascii "content-length") =
      (lines.reverse.find? fun l => sameKey l.1 (ascii "content-length")).map Prod.snd := by
    induction lines using List.reverseRecOn with
    | nil => rfl
    | append_singleton lines l ih =>
      rw [HeaderMap.setAll, List.foldl_append, List.foldl_cons, List.foldl_nil, ← HeaderMap.setAll,
        HeaderMap.get_set, List.reverse_append, List.reverse_singleton, List.singleton_append,
        List.find?_cons, ih]
      cases sameKey l.1 (ascii "content-length") <;> rfl
  rw [declaredLength, HeaderMap.getAs, hget]
  cases lines.reverse.find? fun l => sameKey l.1 (ascii "content-length") <;> rfl

/-- A head whose method and version are known declares no more than `maxBodySize`; any other is
    refused. -/
def Modest (c : HttpSession) (maxBodySize : UInt64) (head : List Taken) : Prop :=
  RequestMarks.zero.Along RequestMarks.Known head →
    c.declaredLength (RequestMarks.zero.headerLines head) ≤ maxBodySize

/-- The actions on the bytes of a first read. -/
def firstPart (c : HttpSession) (a : Bytes) : List Taken :=
  taken c.uriRelaxed (overwrite c.memory 0 a) 1 0 a

/-- The actions on the bytes of a first read that the head goes beyond, and on those of the
    second. -/
def bothParts (c : HttpSession) (a : Bytes) (st : Nat) (b : Bytes) : List Taken :=
  c.firstPart a ++ taken c.uriRelaxed (overwrite (overwrite c.memory 0 a) 0 b) st 0 b

/-- A head that goes beyond the first read: the second has as many bytes as the first and those of
    the head in the second together, no text ends in front of its beginning, and what the head
    declares, with its texts taken from the second read, is no more than `maxBodySize`. -/
structure CutWell (c : HttpSession) (maxBodySize : UInt64) (a : Bytes) (st : Nat) (b : Bytes) :
    Prop where
  room : a.length + ((httpParserScanner c.uriRelaxed).scan st 0 b).stop ≤ b.length
  ordered : RequestMarks.zero.Along RequestMarks.Ordered (c.bothParts a st b)
  modest : ∀ head rest, b = head ++ rest → (httpParserScanner c.uriRelaxed).Accepts st head →
    c.Modest maxBodySize (c.bothParts a st b)

/-- The streams and cuts on which the limits are kept: where the first read has a whole head, it
    declares no more than `maxBodySize`; where it has a beginning of one, the head is cut well. -/
structure Moderate (c : HttpSession) (maxBodySize : UInt64) (sock : PeerSocket) : Prop where
  whole : ∀ head rest sock', sock.read c.memory.length = some (head ++ rest, sock') →
    (httpParserScanner c.uriRelaxed).Accepts 1 head →
    c.Modest maxBodySize (c.firstPart (head ++ rest))
  cut : ∀ a sock' b sock'' st, sock.read c.memory.length = some (a, sock') →
    sock'.read c.memory.length = some (b, sock'') → a ≠ [] → b ≠ [] →
    (httpParserScanner c.uriRelaxed).passes 1 a = some st →
    RequestMarks.zero.Along RequestMarks.Known (c.firstPart a) → c.CutWell maxBodySize a st b

/-! ## One turn of the loop -/

section
variable {bs data' : Bytes} {t : RequestParser} {n : Nat}

/-- A turn reads bytes, or ends the loop without a fault. -/
theorem recvHead_reads (fuel : Nat) (parser : RequestParser) (hmem : data.length < 2 ^ 63)
    (sock : PeerSocket) :
    (∃ fuel' bs sock', fuel = fuel' + 1 ∧ sock.read data.length = some (bs, sock') ∧ bs ≠ []) ∨
      ∃ stop, recvHead fuel parser data 0 sock = .error stop ∧ ∀ f, stop ≠ .fault f := by
  have hsub : subSize data.length (sizeOfInt 0) = data.length :=
    subSize_of_le (Nat.zero_le _) (by unfold sizeMod; omega)
  cases fuel with
  | zero => exact Or.inr ⟨.fuel, rfl, fun f hf => (by cases hf)⟩
  | succ fuel =>
    cases hread : sock.read data.length with
    | none =>
      refine Or.inr ⟨.blocked, ?_, fun f hf => (by cases hf)⟩
      rw [recvHead, hsub, hread]
    | some x =>
      obtain ⟨bs, sock'⟩ := x
      by_cases hbs : bs = []
      · subst hbs
        refine Or.inr ⟨.null, ?_, fun f hf => (by cases hf)⟩
        rw [recvHead, hsub, hread]
        rfl
      · exact Or.inl ⟨fuel, bs, sock', rfl, rfl, hbs⟩

variable (hmem : data.length < 2 ^ 63) (hread : sock.read data.length = some (bs, sock'))
  (hbs : bs ≠ [])
include hmem hread hbs

theorem turn_refused
    (hexec : parser.execute (overwrite data 0 bs) bs.length = .ok (t, data', n))
    (herror : t.error ≠ 0 ∨ t.cs = 0) : recvHead (fuel + 1) parser data 0 sock = .error .null := by
  have hrefused : t.hasError = true := by
    rw [RequestParser.hasError, decide_eq_true_eq]
    exact herror
  rw [recvHead_turn hmem hread hbs, hexec]
  exact if_pos hrefused

theorem turn_finished
    (hexec : parser.execute (overwrite data 0 bs) bs.length = .ok (t, data', n))
    (herror : t.error = 0) (hfinal : 348 ≤ t.cs) (hn : 0 < n ∧ n ≤ bs.length)
    (hdata : data'.length = data.length) :
    recvHead (fuel + 1) parser data 0 sock = .ok (t, data', (bs.length - n : Nat), sock') := by
  obtain ⟨hle, hlt⟩ := PeerSocket.length_read hread
  have hgood : t.hasError = false := by
    rw [RequestParser.hasError, decide_eq_false_iff_not]
    omega
  have hfinished : t.isFinished = true := by
    rw [RequestParser.isFinished, decide_eq_true_eq]
    exact Or.inr hfinal
  rw [recvHead_turn hmem hread hbs, hexec]
  simp only [hgood, hfinished]
  rw [subSize_of_le hn.2 (by unfold sizeMod; omega), intOfSize_of_lt (by omega),
    sizeOfInt_natCast (by unfold sizeMod; omega), if_neg (by simp), if_neg (by omega)]
  rfl

theorem turn_goesOn
    (hexec : parser.execute (overwrite data 0 bs) bs.length = .ok (t, data', bs.length))
    (herror : t.error = 0) (hzero : t.cs ≠ 0) (hgoes : t.cs < 348)
    (hdata : data'.length = data.length) :
    recvHead (fuel + 1) parser data 0 sock = recvHead fuel t data' 0 sock' := by
  obtain ⟨hle, hlt⟩ := PeerSocket.length_read hread
  have hpos := List.length_pos_iff.mpr hbs
  have hgood : t.hasError = false := by
    rw [RequestParser.hasError, decide_eq_false_iff_not]
    omega
  have hunfinished : t.isFinished = false := by
    rw [RequestParser.isFinished, decide_eq_false_iff_not]
    change ¬(t.cs = 0 ∨ 348 ≤ t.cs)
    omega
  rw [recvHead_turn hmem hread hbs, hexec]
  simp only [hgood, hunfinished]
  rw [subSize_of_le le_rfl (by unfold sizeMod; omega), Nat.sub_self, intOfSize_of_lt (by omega),
    if_neg (by simp)]
  simp only [Nat.cast_zero, sizeOfInt_zero]
  rw [if_neg (by omega)]
  rfl

end

/-! ## The two reads -/

section
variable {a b : Bytes} {u : RequestParser} {es : List Taken}
open RequestParser RequestMarks

theorem error_of_took (h : Took (.new c.queryStart c.uriRelaxed) u .zero es) :
    u.error = 0 ↔ RequestMarks.zero.Along Known es := by
  rw [h.error]
  exact and_iff_right rfl

theorem declared_of_took (h : Took (.new c.queryStart c.uriRelaxed) u .zero es) :
    u.getContentLength c.lexicalCast = c.declaredLength (RequestMarks.zero.headerLines es) := by
  rw [getContentLength, h.headers, declaredLength_eq]
  rfl

/-- What the parser is behind the first read. -/
structure Began (c : HttpSession) (a : Bytes) (u : RequestParser) (data : Bytes) : Prop where
  short : a.length < 2 ^ 31
  runs : (RequestParser.new c.queryStart c.uriRelaxed).execute (overwrite c.memory 0 a) a.length =
    .ok (u, data, u.nread)
  relaxed : u.uriRelaxed = c.uriRelaxed
  state : u.cs = ((httpParserScanner c.uriRelaxed).scan 1 0 a).state
  nread : u.nread = ((httpParserScanner c.uriRelaxed).scan 1 0 a).stop
  size : data.length = c.memory.length
  data : u.nread = a.length → data = overwrite c.memory 0 a
  took : Took (.new c.queryStart c.uriRelaxed) u .zero (c.firstPart a)
  follows : u.cs ≠ 0 →
    u.Follows (RequestMarks.zero.afterAll (c.firstPart a)) (.of u.cs) a.length

theorem exists_began (hmem : c.memory.length < 2 ^ 63) (ha : a ≠ [])
    (hle : a.length ≤ c.memory.length) (hlt : a.length < 2 ^ 31) : ∃ u data, c.Began a u data := by
  have hpos := List.length_pos_iff.mpr ha
  have hover : (overwrite c.memory 0 a).length = c.memory.length := length_overwrite (by omega)
  have hnew : (RequestParser.new c.queryStart c.uriRelaxed).Follows .zero (.of 1) a.length :=
    ⟨⟨rfl, hpos⟩, ⟨rfl, hpos⟩, Nat.zero_le _, Nat.zero_le _,
      fun _ => ⟨le_rfl, hpos, rfl⟩, fun hq => (by cases hq)⟩
  have hbounds := ((httpParserScanner c.uriRelaxed).stop_bounds 1 0 a).2
  obtain ⟨u, data, n, hrun, hstate, hfollows, htook⟩ := execute_ordered
    (s := .new c.queryStart c.uriRelaxed) Nat.one_ne_zero (by omega) hlt
    (show a.length ≤ (overwrite c.memory 0 a).length by omega) (by omega) hnew
    (by rw [take_overwrite_zero]
        exact (Nat.zero_add _).trans_le (hbounds.trans_eq (Nat.zero_add _)))
    (ordered_taken _ _ _ ⟨le_rfl, le_rfl, le_rfl⟩)
  obtain ⟨hn, hnle, hnread, -, hrelaxed, -, hdata⟩ :=
    execute_ok Nat.one_ne_zero (by omega) hrun
  rw [take_overwrite_zero] at hn hstate hfollows htook hdata
  change n = addSize 0 ((httpParserScanner c.uriRelaxed).scan 1 0 a).stop at hn
  rw [addSize_of_lt (by unfold sizeMod; omega), Nat.zero_add] at hn
  subst hnread
  refine ⟨u, data, hlt, hrun, hrelaxed, hstate, hn, ?_, fun hall => ?_, htook, hfollows⟩
  · rw [hdata, List.length_append, List.length_drop, List.length_drop, hover]
    omega
  · rw [hdata, hall, Nat.sub_self, List.drop_zero, List.drop_of_length_le le_rfl, List.nil_append]

/-- The first read is a beginning of the head. -/
theorem Began.passed {data : Bytes} {st : Nat} (h : c.Began a u data)
    (hpass : (httpParserScanner c.uriRelaxed).passes 1 a = some st) :
    u.cs = st ∧ st ≠ 0 ∧ st < 348 ∧ u.nread = a.length ∧ data = overwrite c.memory 0 a := by
  obtain ⟨hstate, hstop⟩ := Scanner.scan_passes hpass 0
  have hnread : u.nread = a.length := by rw [h.nread, hstop, Nat.zero_add]
  exact ⟨h.state.trans hstate, Scanner.ne_zero_of_passes Nat.one_ne_zero hpass,
    Scanner.lt_of_passes (breaksFinal c.uriRelaxed) (by decide : 1 < 348) hpass, hnread,
    h.data hnread⟩

/-- The second read goes on where the first has ended, if it has room for both and no text ends in
    front of its beginning. -/
theorem second_runs {data : Bytes} {st : Nat} (hmem : c.memory.length < 2 ^ 63)
    (h : c.Began a u data) (hpass : (httpParserScanner c.uriRelaxed).passes 1 a = some st)
    (hb : b ≠ [])
    (hle : b.length ≤ c.memory.length) (hlt : b.length < 2 ^ 31)
    (hroom : a.length + ((httpParserScanner c.uriRelaxed).scan st 0 b).stop ≤ b.length)
    (hordered : RequestMarks.zero.Along Ordered (c.bothParts a st b)) :
    ∃ v data' n, u.execute (overwrite data 0 b) b.length = .ok (v, data', n) ∧
      0 < n ∧ n ≤ b.length ∧ data'.length = data.length ∧
      v.cs = ((httpParserScanner c.uriRelaxed).scan st 0 b).state ∧
      Took (.new c.queryStart c.uriRelaxed) v .zero (c.bothParts a st b) := by
  obtain ⟨rfl, hzero, -, hnread, rfl⟩ := h.passed hpass
  have hpos := List.length_pos_iff.mpr hb
  have hsize := h.size
  have hover : (overwrite (overwrite c.memory 0 a) 0 b).length = c.memory.length := by
    rw [length_overwrite (by omega), hsize]
  have hfollows := (h.follows hzero).mono (m := .of u.cs) (k := b.length) (by simp [Label.le])
    (by omega)
  have hrelaxed := h.relaxed
  obtain ⟨v, data', n, hrun, hstate, -, htook⟩ := execute_ordered (s := u)
    hzero (by omega) hlt (show b.length ≤ (overwrite (overwrite c.memory 0 a) 0 b).length by omega)
    (by omega) hfollows (by rw [take_overwrite_zero, hrelaxed, hnread]; exact hroom)
    (by rw [take_overwrite_zero, hrelaxed]; exact (along_append.mp hordered).2)
  obtain ⟨hn, hnle, -, -, -, -, hdata⟩ := execute_ok hzero (by omega) hrun
  rw [take_overwrite_zero, hrelaxed] at hn hstate htook
  rw [take_overwrite_zero] at hdata
  have hapos : 0 < a.length := by
    have := (h.follows hzero).mark.2
    omega
  rw [hnread, addSize_of_lt (by unfold sizeMod; omega)] at hn
  refine ⟨v, data', n, hrun, by omega, hnle, ?_, hstate, h.took.trans htook⟩
  rw [hdata, List.length_append, List.length_drop, List.length_drop, hover, hsize]
  omega

/-- On a moderate stream the loop over the head closes the connection, waits, or finishes a head
    that declares no more than `maxBodySize`. -/
theorem Moderate.run (h : c.Moderate maxBodySize sock) (hmem : c.memory.length < 2 ^ 63)
    (fuel : Nat) :
    (∃ stop, recvHead fuel (.new c.queryStart c.uriRelaxed) c.memory 0 sock = .error stop ∧
      ∀ f, stop ≠ .fault f) ∨
    ∃ p x, recvHead fuel (.new c.queryStart c.uriRelaxed) c.memory 0 sock = .ok (p, x) ∧
      p.getContentLength c.lexicalCast ≤ maxBodySize := by
  have hbreaks := breaksFinal c.uriRelaxed
  rcases recvHead_reads fuel (.new c.queryStart c.uriRelaxed) hmem sock with
    ⟨fuel, a, sock', rfl, hread, ha⟩ | hstop
  case inr => exact Or.inl hstop
  obtain ⟨hle, hlt⟩ := PeerSocket.length_read hread
  obtain ⟨u, data, hu⟩ := exists_began hmem ha hle hlt
  have hsize := hu.size
  by_cases herror : u.error ≠ 0 ∨ u.cs = 0
  · exact Or.inl ⟨.null, turn_refused hmem hread ha hu.runs herror, fun f hf => (by cases hf)⟩
  rw [not_or, not_not] at herror
  have hknown := (error_of_took hu.took).mp herror.1
  have hstate := hu.state
  by_cases hfinal : 348 ≤ u.cs
  · -- The head ends in the first read.
    obtain ⟨head, rest, rfl, haccept⟩ := Scanner.accepts_of_scan hbreaks (by decide : 348 ≠ 0)
      (by decide : 1 < 348) (hstate ▸ hfinal)
    have hpos := Scanner.length_pos_of_accepts haccept
    have hnread := hu.nread
    rw [Scanner.scan_accepts haccept, Scanner.scan_accepts_stop haccept, Nat.zero_add] at hnread
    refine Or.inr ⟨u, _, turn_finished hmem hread ha hu.runs herror.1 hfinal
      ⟨by omega, by rw [List.length_append]; omega⟩ hsize, ?_⟩
    rw [declared_of_took hu.took]
    exact h.whole head rest sock' hread haccept hknown
  have hpass := Scanner.passes_of_scan hbreaks (p := 0) (hstate ▸ herror.2)
    (Nat.lt_of_not_le (hstate ▸ hfinal))
  rw [← hstate] at hpass
  obtain ⟨-, hzero, hgoes, hnread, -⟩ := hu.passed hpass
  have hrun := hu.runs
  rw [hnread] at hrun
  rw [turn_goesOn hmem hread ha hrun herror.1 hzero hgoes hsize]
  rcases recvHead_reads fuel u (hsize ▸ hmem) sock' with ⟨fuel, b, sock'', rfl, hread', hb⟩ | hstop
  case inr => exact Or.inl hstop
  rw [hsize] at hread'
  obtain ⟨hle', hlt'⟩ := PeerSocket.length_read hread'
  have hcut := h.cut a sock' b sock'' u.cs hread hread' ha hb hpass hknown
  obtain ⟨v, data', n, hrun', hn, hnle, hdata, hstate', htook⟩ :=
    second_runs hmem hu hpass hb hle' hlt' hcut.room hcut.ordered
  rw [← hsize] at hread'
  by_cases herror' : v.error ≠ 0 ∨ v.cs = 0
  · exact Or.inl ⟨.null, turn_refused (hsize ▸ hmem) hread' hb hrun' herror',
      fun f hf => (by cases hf)⟩
  rw [not_or, not_not] at herror'
  by_cases hfinal' : 348 ≤ v.cs
  · obtain ⟨head, rest, hsplit, haccept⟩ := Scanner.accepts_of_scan hbreaks
      (by decide : 348 ≠ 0) hgoes (hstate' ▸ hfinal')
    refine Or.inr ⟨v, _, turn_finished (hsize ▸ hmem) hread' hb hrun' herror'.1 hfinal' ⟨hn, hnle⟩
      hdata, ?_⟩
    rw [declared_of_took htook]
    exact hcut.modest head rest hsplit haccept ((error_of_took htook).mp herror'.1)
  · -- The second read would have to hold the bytes of the first too.
    have hpass' := Scanner.passes_of_scan hbreaks (p := 0) (hstate' ▸ herror'.2)
      (Nat.lt_of_not_le (hstate' ▸ hfinal'))
    have hroom := hcut.room
    rw [(Scanner.scan_passes hpass' 0).2] at hroom
    have := List.length_pos_iff.mpr ha
    omega

end

end HttpSession

end CppServerFramework.HTTP
