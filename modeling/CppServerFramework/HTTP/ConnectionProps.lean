import CppServerFramework.HTTP.Connection
import CppServerFramework.HTTP.ResponseCuts
import CppServerFramework.HTTP.SessionProps

/-!
# Receiving a response in pieces

The loop of the head forgets no byte, since each call of the parser counts the bytes of that call
alone.  But the positions that the parser has stored are cleared, so that a token that is cut by
the end of a read is not delivered whole.
-/

namespace CppServerFramework.HTTP
open CInt Blocks ResponseParser

/-! ## Parts of a head -/

namespace ResponseParser

variable {head mem seg rest x : Bytes} {c len : Nat} {r : Positions}
  {s s₁ t u v v' : ResponseParser}

/-- The part `seg` of a head from position `c` on, read from the state `st₀`: what the parser that
    is given the head at once does on it. -/
structure Piece (head : Bytes) (c : Nat) (r : Positions) (s : ResponseParser) (st₀ : Nat)
    (seg : Bytes) (s₁ : ResponseParser) : Prop where
  sound : r.Sound head (httpclientParserScanner.scan st₀ c seg).events
  acts : s.acts head head.length (httpclientParserScanner.scan st₀ c seg).events = .ok s₁

/-- Cutting an accepted text in two. -/
theorem accepts_split {st : Nat} (haccepts : httpclientParserScanner.Accepts st (seg ++ rest))
    (hstate : (httpclientParserScanner.scan st c (seg ++ rest)).state = 120) (hfinal : st < 120)
    (hrest : rest ≠ []) :
    ∃ st', httpclientParserScanner.passes st seg = some st' ∧ st' ≠ 0 ∧ st' < 120 ∧
      httpclientParserScanner.Accepts st' rest ∧
      (httpclientParserScanner.scan st c (seg ++ rest)).events =
        (httpclientParserScanner.scan st c seg).events ++
          (httpclientParserScanner.scan st' (c + seg.length) rest).events ∧
      (httpclientParserScanner.scan st' (c + seg.length) rest).state = 120 := by
  obtain ⟨st', hpass, hrestAccepts⟩ := Scanner.accepts_append haccepts hrest
  have hzero : st ≠ 0 := by
    rintro rfl
    obtain ⟨as, b, w, -, hw, hbreak⟩ := haccepts
    cases as with
    | nil =>
      cases hw
      cases hbreak
    | cons d as => cases hw
  have happend := Scanner.scan_append hpass c rest
  rw [happend] at hstate ⊢
  exact ⟨st', hpass, Scanner.ne_zero_of_passes hzero hpass,
    Scanner.lt_of_passes breaksFinal hfinal hpass, hrestAccepts, rfl, hstate⟩

/-- A part that is not the end of the head. -/
theorem Progress.split (h : Progress head c r s v t) (hdrop : head.drop c = seg ++ rest)
    (hrest : rest ≠ []) :
    ∃ (st : Nat) (s₁ : ResponseParser), httpclientParserScanner.passes v.cs seg = some st ∧
      st ≠ 0 ∧ st < 120 ∧ Piece head c r s v.cs seg s₁ ∧ s₁.calls <+: t.calls ∧
      Piece head (c + seg.length)
        (r.afterAll (httpclientParserScanner.scan v.cs c seg).events) s₁ st rest t ∧
      httpclientParserScanner.Accepts st rest ∧
      (httpclientParserScanner.scan v.cs c (head.drop c)).events =
        (httpclientParserScanner.scan v.cs c seg).events ++
          (httpclientParserScanner.scan st (c + seg.length) rest).events ∧
      (httpclientParserScanner.scan st (c + seg.length) rest).state = 120 := by
  have haccepts := h.accepts
  have hstate := h.state
  have hsound := h.sound
  have hacts := h.acts
  rw [hdrop] at haccepts hstate hsound hacts ⊢
  obtain ⟨st, hpass, hzero, hlt, hrestAccepts, hevents, hstate'⟩ :=
    accepts_split haccepts hstate h.notFinal hrest
  rw [hevents] at hsound hacts ⊢
  obtain ⟨hsound₁, hsound₂⟩ := Positions.sound_append.mp hsound
  rw [acts_append] at hacts
  cases hfirst : s.acts head head.length (httpclientParserScanner.scan v.cs c seg).events with
  | error f =>
    rw [hfirst] at hacts
    cases hacts
  | ok s₁ =>
    rw [hfirst] at hacts
    exact ⟨st, s₁, hpass, hzero, hlt, ⟨hsound₁, hfirst⟩, calls_acts hacts, ⟨hsound₂, hacts⟩,
      hrestAccepts, rfl, hstate'⟩

/-- The parser behind a call that was given such a part. -/
theorem Progress.next (h : Progress head c r s v t) (hdrop : head.drop c = seg ++ rest)
    (hseg : seg ≠ []) (hpiece : Piece head (c + seg.length)
      (r.afterAll (httpclientParserScanner.scan v.cs c seg).events) s₁ v'.cs rest t)
    (haccepts : httpclientParserScanner.Accepts v'.cs rest)
    (hstate : (httpclientParserScanner.scan v'.cs (c + seg.length) rest).state = 120)
    (hlt : v'.cs < 120) (hcut : CutAt c len
      (r.afterAll (httpclientParserScanner.scan v.cs c seg).events) s₁ u)
    (hbody : v'.bodyStart = 0)
    (hsame : v'.data = u.data ∧ v'.error = u.error ∧ v'.calls = u.calls ∧ v'.chunked = u.chunked) :
    Progress head (c + seg.length)
      (r.afterAll (httpclientParserScanner.scan v.cs c seg).events) s₁ v' t := by
  have hrest : head.drop (c + seg.length) = rest := by
    rw [← List.drop_drop, hdrop, List.drop_left]
  have hpos := List.length_pos_iff.mpr hseg
  have hstored := h.stored
  have hevents : ∀ e ∈ (httpclientParserScanner.scan v.cs c seg).events, e.1 < c + seg.length :=
    fun e he => (Scanner.mem_events he).2
  obtain ⟨hmark, hfield, hlen⟩ := afterAll_lt hevents (r := r) ⟨by omega, by omega, by omega⟩
  refine ⟨hrest ▸ haccepts, hrest ▸ hstate, hlt, hrest ▸ hpiece.sound, hrest ▸ hpiece.acts,
    ⟨hmark.le, hfield.le, hlen.le⟩, fun hle => absurd hlen (Nat.not_lt_of_le hle), hcut.whole,
    hbody, ?_, ?_, ?_, ?_⟩
  · exact hsame.1.trans hcut.data
  · exact hsame.2.1.trans hcut.error
  · exact hsame.2.2.1.trans hcut.calls
  · exact hsame.2.2.2.trans hcut.chunked

theorem bodyStart_acts {es : List (Nat × ResponseAction)} (h : s.acts mem len es = .ok t)
    (hes : ∀ e ∈ es, e.2 ≠ .done) : t.bodyStart = s.bodyStart := by
  induction es generalizing s with
  | nil =>
    cases h
    rfl
  | cons e es ih =>
    rw [List.forall_mem_cons] at hes
    simp only [acts, List.foldlM_cons, bind, Except.bind] at h
    split at h
    · cases h
    · rename_i w hw
      refine (ih h hes.2).trans ?_
      cases ha : e.2 with
      | done => exact absurd ha hes.1
      | mark | startValue | startField | writeField | writeContentLen | writeConnectionClose
      | statusCode | chunkSize | transChunked =>
        rw [ha] at hw
        cases hw
        rfl
      | httpVersion =>
        rw [ha] at hw
        cases hw
        simp only [onResponseVersion]
        split
        · rfl
        · split <;> rfl
      | writeValue =>
        rw [ha] at hw
        simp only [act, onResponseHttpField, bind, Except.bind, pure, Except.pure] at hw
        split at hw
        · cases hw
          rfl
        · split at hw
          · cases hw
          · split at hw <;> cases hw
            rfl
      | reasonPhrase =>
        rw [ha] at hw
        simp only [act, onResponseReason, bind, Except.bind, pure, Except.pure] at hw
        split at hw <;> cases hw
        rfl

/-- What the parser makes of a head that it is given at once. -/
def headParser (head : Bytes) : Except Fault ResponseParser :=
  new.acts head head.length (httpclientParserScanner.scan 1 0 head).events

theorem Progress.start (haccepts : httpclientParserScanner.Accepts 1 head)
    (hstate : (httpclientParserScanner.scan 1 0 head).state = 120)
    (hparse : headParser head = .ok t) : Progress head 0 .zero new new t :=
  ⟨haccepts, hstate, by decide, sound_head head, hparse, ⟨le_rfl, le_rfl, le_rfl⟩, fun _ => rfl,
    ⟨rfl, rfl, rfl⟩, rfl, rfl, rfl, rfl, rfl⟩

/-! ## Where reads end -/

/-- No span is cut: none of the positions lies inside of one. -/
def Uncut (ends : List Nat) (spans : List (Nat × Nat)) : Prop :=
  ∀ e ∈ ends, ∀ sp ∈ spans, e ≤ sp.1 ∨ sp.2 ≤ e

/-- The spans of a part lie inside of it exactly when its beginning and its end do not cut
    them. -/
theorem inside_iff {es : List (Nat × ResponseAction)} (hsound : r.Sound head es)
    (hes : ∀ e ∈ es, c ≤ e.1 ∧ e.1 < c + len) :
    (∀ sp ∈ r.spans es, Inside c len sp) ↔ Uncut [c, c + len] (r.spans es) := by
  constructor
  · intro h e he sp hsp
    have hin := h sp hsp
    simp only [Inside] at hin
    simp only [List.mem_cons, List.not_mem_nil, or_false] at he
    rcases he with rfl | rfl
    · exact Or.inl hin.1
    · exact Or.inr hin.2
  · intro h sp hsp
    obtain ⟨e, he, hle, hlt⟩ := Positions.mem_spans hsound hsp
    have hbounds := hes e he
    have h1 := h c (by simp) sp hsp
    have h2 := h (c + len) (by simp) sp hsp
    simp only [Inside]
    omega

/-- Cutting the spans of a part and of what stands behind it. -/
theorem uncut_split {ends : List Nat} {es fs : List (Nat × ResponseAction)} {r' : Positions}
    (hsound : r.Sound head es) (hes : ∀ e ∈ es, c ≤ e.1 ∧ e.1 < c + len)
    (hsound' : r'.Sound head fs) (hfs : ∀ e ∈ fs, c + len ≤ e.1)
    (hends : ∀ e ∈ ends, c + len ≤ e) :
    Uncut (c :: (c + len) :: ends) (r.spans es ++ r'.spans fs) ↔
      (∀ sp ∈ r.spans es, Inside c len sp) ∧ Uncut ((c + len) :: ends) (r'.spans fs) := by
  rw [inside_iff hsound hes]
  constructor
  · intro h
    refine ⟨fun e he sp hsp => h e ?_ sp (List.mem_append_left _ hsp),
      fun e he sp hsp => h e (List.mem_cons_of_mem _ he) sp (List.mem_append_right _ hsp)⟩
    simp only [List.mem_cons, List.not_mem_nil, or_false] at he ⊢
    rcases he with rfl | rfl
    · exact Or.inl rfl
    · exact Or.inr (Or.inl rfl)
  · rintro ⟨hfirst, hsecond⟩ e he sp hsp
    rcases List.mem_append.mp hsp with hsp | hsp
    · have h1 := hfirst c (by simp) sp hsp
      have h2 := hfirst (c + len) (by simp) sp hsp
      obtain ⟨f, hf, hle, hlt⟩ := Positions.mem_spans hsound hsp
      have hbounds := hes f hf
      simp only [List.mem_cons] at he
      rcases he with rfl | rfl | he
      · exact h1
      · exact h2
      · have := hends e he
        omega
    · obtain ⟨f, hf, hle, hlt⟩ := Positions.mem_spans hsound' hsp
      have hbounds := hfs f hf
      rcases List.mem_cons.mp he with rfl | he
      · have := hsecond (e + len) (by simp) sp hsp
        omega
      · exact hsecond e he sp hsp

/-- What cuts a head, and what cuts the part of it behind one of its reads. -/
theorem Progress.uncut_iff {ends : List Nat} {st : Nat} (h : Progress head c r s v t)
    (hends : ∀ e ∈ ends, c + seg.length ≤ e)
    (hevents : (httpclientParserScanner.scan v.cs c (head.drop c)).events =
      (httpclientParserScanner.scan v.cs c seg).events ++
        (httpclientParserScanner.scan st (c + seg.length) rest).events) :
    Uncut (c :: (c + seg.length) :: ends)
        (r.spans (httpclientParserScanner.scan v.cs c (head.drop c)).events) ↔
      (∀ sp ∈ r.spans (httpclientParserScanner.scan v.cs c seg).events, Inside c seg.length sp) ∧
        Uncut ((c + seg.length) :: ends)
          ((r.afterAll (httpclientParserScanner.scan v.cs c seg).events).spans
            (httpclientParserScanner.scan st (c + seg.length) rest).events) := by
  have hsound := h.sound
  rw [hevents] at hsound ⊢
  obtain ⟨hsound₁, hsound₂⟩ := Positions.sound_append.mp hsound
  rw [Positions.spans_append]
  exact uncut_split hsound₁ (fun e he => Scanner.mem_events he) hsound₂
    (fun e he => (Scanner.mem_events he).1) hends

end ResponseParser

/-- The positions at which the reads end that bring a head of `n` bytes into a buffer of `size`
    bytes, from position `pos` on. -/
def readEnds (size : Nat) : (fuel : Nat) → PeerSocket → (pos n : Nat) → List Nat
  | 0, _, _, _ => []
  | fuel + 1, sock, pos, n =>
    match sock.read size with
    | none => []
    | some (bs, sock) =>
      (pos + bs.length) ::
        if n ≤ pos + bs.length then [] else readEnds size fuel sock (pos + bs.length) n

theorem le_of_mem_readEnds {size fuel pos n e : Nat} {sock : PeerSocket}
    (h : e ∈ readEnds size fuel sock pos n) : pos ≤ e := by
  induction fuel generalizing sock pos with
  | zero => cases h
  | succ fuel ih =>
    rw [readEnds] at h
    split at h
    · cases h
    · rcases List.mem_cons.mp h with rfl | h
      · omega
      · split at h
        · cases h
        · have := ih h
          omega

/-! ## One turn of the loop -/

namespace ResponseBuffer

variable {c : ResponseBuffer} {fuel pos : Nat} {parser p : ResponseParser} {data data' bs : Bytes}
  {off : Int} {sock sock' : PeerSocket} {head body : Bytes} {r : Positions}
  {s t v : ResponseParser}

/-- The buffer behind a read of `bs` into it. -/
def filled (data bs : Bytes) : Bytes := overwrite (overwrite data 0 bs) bs.length [0]

theorem filled_eq (data bs : Bytes) :
    filled data bs = bs ++ 0 :: data.drop (bs.length + 1) := by
  simp [filled, overwrite]

theorem length_filled (h : bs.length < data.length) : (filled data bs).length = data.length := by
  rw [filled_eq, List.length_append, List.length_cons, List.length_drop]
  omega

/-- One turn of the loop of the head, with nothing left in the buffer. -/
theorem recvHead_turn (hsize : c.buffSize < 2 ^ 63)
    (hread : sock.read c.buffSize = some (bs, sock')) (hbs : bs ≠ []) :
    c.recvHead (fuel + 1) parser data 0 sock =
      match parser.execute (filled data bs) bs.length false with
      | .error f => .error (.fault f)
      | .ok (parser, data, nparse) =>
        if parser.hasError then .error .null
        else
          let offset := intOfSize (subSize bs.length nparse)
          if sizeOfInt offset = c.buffSize then .error .null
          else if parser.isFinished then .ok (parser, data, offset, sock')
          else c.recvHead fuel parser data offset sock' := by
  obtain ⟨hle, hlt⟩ := PeerSocket.length_read hread
  have hpos := List.length_pos_iff.mpr hbs
  have hsub : subSize c.buffSize (sizeOfInt 0) = c.buffSize :=
    subSize_of_le (Nat.zero_le _) (by unfold sizeMod; omega)
  have hlen : sizeOfInt bs.length = bs.length := sizeOfInt_natCast (by unfold sizeMod; omega)
  rw [recvHead, recvParsed, hsub, hread]
  simp only [Int.add_zero, hlen, Int.toNat_zero, Int.toNat_natCast]
  rw [if_neg (by omega), ← filled]
  cases parser.execute (filled data bs) bs.length false with
  | error f => rfl
  | ok x => simp only [recvHead, decide_eq_true_eq]

/-- A read brings the rest of the head or a part of it. -/
theorem read_cases (hs : sock.Proper) (hsize : 0 < c.buffSize) (hpos : pos < head.length)
    (hbytes : sock.bytes = head.drop pos ++ body) :
    ∃ bs sock', sock.read c.buffSize = some (bs, sock') ∧ bs ≠ [] ∧ sock'.Proper ∧
      ((∃ x, bs = head.drop pos ++ x ∧ body = x ++ sock'.bytes) ∨
        ∃ rest, rest ≠ [] ∧ head.drop pos = bs ++ rest ∧ sock'.bytes = rest ++ body) := by
  have hne : sock.bytes ≠ [] := by
    rw [hbytes]
    exact List.append_ne_nil_of_left_ne_nil (by simpa using hpos) _
  obtain ⟨bs, sock', hread, hbs⟩ := PeerSocket.read_of_bytes hs hne hsize
  have hsplit := hbytes.symm.trans (PeerSocket.read_bytes hread)
  refine ⟨bs, sock', hread, hbs, PeerSocket.proper_read hs hread, ?_⟩
  rcases List.append_eq_append_iff.mp hsplit with ⟨x, hx, hbody⟩ | ⟨rest, hrest, hmore⟩
  · exact Or.inl ⟨x, hx, hbody⟩
  · by_cases hnil : rest = []
    · rw [hnil, List.append_nil] at hrest
      rw [hnil, List.nil_append] at hmore
      exact Or.inl ⟨[], by rw [hrest, List.append_nil], hmore.symm⟩
    · exact Or.inr ⟨rest, hnil, hrest, hmore⟩

/-- The buffer behind a read of a part of the head, or of its end and more. -/
theorem window_filled {seg x rest : Bytes} (hdrop : head.drop pos = seg ++ rest)
    (hcase : x = [] ∨ rest = []) (hdata : seg.length + x.length < data.length)
    (hmem : data.length < 2 ^ 63) (hhead : head.length < 2 ^ 63) :
    Window head pos (filled data (seg ++ x)) (seg.length + x.length) := by
  have hlen : (filled data (seg ++ x)).length = data.length :=
    length_filled (by rwa [List.length_append])
  refine ⟨fun i hi hpos => ?_, by omega, by omega, hhead⟩
  have hseg : i < seg.length := by
    rcases hcase with rfl | rfl
    · simpa using hi
    · have hlength := congrArg List.length hdrop
      rw [List.length_drop, List.append_nil] at hlength
      omega
  rw [← List.getElem?_drop, hdrop, filled_eq, List.append_assoc, List.getElem?_append_left hseg,
    List.getElem?_append_left hseg]

theorem part_filled {seg x : Bytes} {st : Nat}
    (hscan : httpclientParserScanner.scan v.cs 0 (seg ++ x) =
      ⟨st, seg.length, (httpclientParserScanner.scan v.cs 0 seg).events⟩)
    (hseg : seg ≠ []) (hlen : seg.length + x.length < 2 ^ 31) :
    Part v (filled data (seg ++ x)) seg x st := by
  refine ⟨?_, List.length_pos_iff.mpr hseg, ?_, hlen⟩
  · rw [scanned, filled_eq, ← List.length_append, List.take_left, hscan]
  · rw [filled_eq, ← List.length_append, List.getElem?_append_right le_rfl, Nat.sub_self]
    rfl

theorem scan_last {x : Bytes} (haccepts : httpclientParserScanner.Accepts v.cs (head.drop pos))
    (hstate : (httpclientParserScanner.scan v.cs 0 (head.drop pos)).state = 120) :
    httpclientParserScanner.scan v.cs 0 (head.drop pos ++ x) =
      ⟨120, (head.drop pos).length,
        (httpclientParserScanner.scan v.cs 0 (head.drop pos)).events⟩ := by
  rw [Scanner.scan_accepts haccepts, ← hstate, ← Nat.zero_add (head.drop pos).length,
    ← Scanner.scan_accepts_stop haccepts 0]

/-- A read that brings a part of the head and not its end. -/
theorem part_mid {st : Nat} (hpass : httpclientParserScanner.passes v.cs bs = some st)
    (hbs : bs ≠ []) (hlt : bs.length < 2 ^ 31) : Part v (filled data bs) bs [] st := by
  obtain ⟨hst, hstop⟩ := Scanner.scan_passes hpass 0
  have hscan : httpclientParserScanner.scan v.cs 0 (bs ++ []) =
      ⟨st, bs.length, (httpclientParserScanner.scan v.cs 0 bs).events⟩ := by
    rw [List.append_nil, ← hst, ← Nat.zero_add bs.length, ← hstop]
  have hfilled : Part v (filled data (bs ++ [])) bs [] st :=
    part_filled hscan hbs (by simpa using hlt)
  simpa using hfilled

theorem window_mid {rest : Bytes} (hdrop : head.drop pos = bs ++ rest)
    (hdata : bs.length < data.length) (hmem : data.length < 2 ^ 63) (hhead : head.length < 2 ^ 63) :
    Window head pos (filled data bs) bs.length := by
  have hw : Window head pos (filled data (bs ++ [])) (bs.length + [].length) :=
    window_filled hdrop (Or.inl rfl) (by simpa using hdata) hmem hhead
  simpa using hw

/-- A read that brings the end of the head, and `x` behind it. -/
theorem part_last {x : Bytes} (haccepts : httpclientParserScanner.Accepts v.cs (head.drop pos))
    (hstate : (httpclientParserScanner.scan v.cs pos (head.drop pos)).state = 120)
    (hlt : (head.drop pos ++ x).length < 2 ^ 31) :
    Part v (filled data (head.drop pos ++ x)) (head.drop pos) x 120 := by
  have hstate := (httpclientParserScanner.scan_state v.cs pos 0 (head.drop pos)).symm.trans hstate
  have hpos := List.length_pos_iff.mp (Scanner.length_pos_of_accepts haccepts)
  rw [List.length_append] at hlt
  exact part_filled (scan_last haccepts hstate) hpos hlt

theorem window_last {x : Bytes} (hdata : (head.drop pos ++ x).length < data.length)
    (hmem : data.length < 2 ^ 63) (hhead : head.length < 2 ^ 63) :
    Window head pos (filled data (head.drop pos ++ x)) ((head.drop pos).length + x.length) := by
  rw [List.length_append] at hdata
  exact window_filled (List.append_nil _).symm (Or.inr rfl) hdata hmem hhead

/-- The events of the rest of the head lie in what such a read brings. -/
theorem bounds_last {x : Bytes} {e : Nat × ResponseAction}
    (he : e ∈ (httpclientParserScanner.scan v.cs pos (head.drop pos)).events) :
    pos ≤ e.1 ∧ e.1 < pos + ((head.drop pos).length + x.length) := by
  have := Scanner.mem_events he
  omega

theorem error_act {mem : Bytes} {len p : Nat} {a : ResponseAction}
    (h : s.act mem len p a = .ok t) (ht : t.error = 0) : s.error = 0 := by
  cases a with
  | mark | startValue | startField | writeField | writeContentLen | writeConnectionClose
  | statusCode | chunkSize | transChunked | done =>
    cases h
    exact ht
  | httpVersion =>
    cases h
    simp only [onResponseVersion] at ht
    split at ht
    · exact ht
    · split at ht
      · exact ht
      · cases ht
  | writeValue =>
    simp only [act, onResponseHttpField, bind, Except.bind, pure, Except.pure] at h
    split at h
    · cases h
      exact ht
    · split at h
      · cases h
      · split at h <;> cases h
        exact ht
  | reasonPhrase =>
    simp only [act, onResponseReason, bind, Except.bind, pure, Except.pure] at h
    split at h <;> cases h
    exact ht

theorem error_acts {mem : Bytes} {len : Nat} {es : List (Nat × ResponseAction)}
    (h : s.acts mem len es = .ok t) (ht : t.error = 0) : s.error = 0 := by
  induction es generalizing s with
  | nil =>
    cases h
    exact ht
  | cons e es ih =>
    simp only [acts, List.foldlM_cons, bind, Except.bind] at h
    split at h
    · cases h
    · rename_i w hw
      exact error_act hw (ih h)

/-- A turn whose read brings a part of the head that is not its end. -/
theorem recvHead_mid {rest : Bytes} (h : Progress head pos r s v t) (ht : t.error = 0)
    (hdata : data.length = c.buffSize + 1) (hsize : c.buffSize < 2 ^ 62)
    (hhead : head.length < c.buffSize) (hread : sock.read c.buffSize = some (bs, sock'))
    (hbs : bs ≠ []) (hrest : rest ≠ []) (hdrop : head.drop pos = bs ++ rest)
    (hin : ∀ sp ∈ r.spans (httpclientParserScanner.scan v.cs pos bs).events,
      Inside pos bs.length sp) :
    ∃ (v' s₁ : ResponseParser),
      (∀ fuel, c.recvHead (fuel + 1) v data 0 sock =
        c.recvHead fuel v' (filled data bs) 0 sock') ∧
      Progress head (pos + bs.length)
        (r.afterAll (httpclientParserScanner.scan v.cs pos bs).events) s₁ v' t ∧
      (httpclientParserScanner.scan v.cs pos (head.drop pos)).events =
        (httpclientParserScanner.scan v.cs pos bs).events ++
          (httpclientParserScanner.scan v'.cs (pos + bs.length)
            (head.drop (pos + bs.length))).events := by
  obtain ⟨hle, hlt⟩ := PeerSocket.length_read hread
  obtain ⟨st, s₁, hpass, hzero, hlt120, hpiece, -, hpiece', haccepts, hevents, hstate⟩ :=
    h.split hdrop hrest
  have hbehind : head.drop (pos + bs.length) = rest := by
    rw [← List.drop_drop, hdrop, List.drop_left]
  have hpart : Part v (filled data bs) bs [] st := part_mid hpass hbs hlt
  have hw : Window head pos (filled data bs) bs.length :=
    window_mid hdrop (by omega) (by omega) (by omega)
  obtain ⟨u, hexec, hcut⟩ := execute_part h hpart hw hpiece.sound hpiece.acts hin
  simp only [List.length_nil, Nat.add_zero, Nat.sub_self, List.drop_zero] at hexec hcut
  have hmem : ((filled data bs).take bs.length).drop bs.length ++ filled data bs =
      filled data bs := by
    rw [List.drop_of_length_le (List.length_take_le _ _), List.nil_append]
  rw [hmem] at hexec
  have herror : u.error = 0 := hcut.error.trans (error_acts hpiece'.acts ht)
  have hbody : u.bodyStart = 0 := by
    obtain ⟨u', hu'⟩ := execute_iff.mp hexec
    simp only [Bool.false_eq_true, if_false] at hu'
    have hacts := hu'.acts
    have hparser := congrArg ResponseParser.bodyStart hu'.parser
    have hseg : v.scanned (filled data bs) bs.length =
        ⟨st, bs.length, (httpclientParserScanner.scan v.cs 0 bs).events⟩ := by
      simpa using hpart.scanned
    rw [hseg] at hacts
    refine hparser.trans ((bodyStart_acts hacts fun e he => ?_).trans h.bodyStart)
    have := Scanner.not_breaks_of_passes hpass he
    simpa [httpclientParserScanner] using this
  refine ⟨{ u with cs := st, nread := bs.length }, s₁, fun fuel => ?_,
    h.next hdrop hbs hpiece' haccepts hstate hlt120 hcut hbody ⟨rfl, rfl, rfl, rfl⟩,
    by rw [hevents, hbehind]⟩
  have hnoerror : ({ u with cs := st, nread := bs.length } : ResponseParser).hasError = false := by
    simp [hasError, herror, hzero]
  have hunfinished :
      ({ u with cs := st, nread := bs.length } : ResponseParser).isFinished = false := by
    have hfinal : httpclientParserScanner.firstFinal = 120 := rfl
    simp only [isFinished, hfinal, decide_eq_false_iff_not, not_or]
    omega
  rw [recvHead_turn (by omega) hread hbs, hexec]
  simp only [hnoerror, hunfinished, Bool.false_eq_true, if_false]
  rw [subSize_of_le le_rfl (by unfold sizeMod; omega), Nat.sub_self, intOfSize_of_lt (by decide),
    if_neg (by rw [sizeOfInt_natCast (by decide)]; omega)]
  rfl

/-- The last turn: its read brings the end of the head, and `x` behind it. -/
theorem recvHead_last {x : Bytes} (h : Progress head pos r s v t) (ht : t.error = 0)
    (hdata : data.length = c.buffSize + 1) (hsize : c.buffSize < 2 ^ 62)
    (hhead : head.length < c.buffSize) (hread : sock.read c.buffSize = some (bs, sock'))
    (hx : bs = head.drop pos ++ x)
    (hin : ∀ sp ∈ r.spans (httpclientParserScanner.scan v.cs pos (head.drop pos)).events,
      Inside pos ((head.drop pos).length + x.length) sp) :
    ∃ (p : ResponseParser) (g : Bytes),
      (∀ fuel, c.recvHead (fuel + 1) v data 0 sock = .ok (p, x ++ g, x.length, sock')) ∧
      p.data = t.data ∧ p.calls = t.calls ∧ p.chunked = t.chunked := by
  obtain ⟨hle, hlt⟩ := PeerSocket.length_read hread
  have hpos := Scanner.length_pos_of_accepts h.accepts
  have hbs : bs ≠ [] := by
    rw [hx]
    exact List.append_ne_nil_of_left_ne_nil (List.length_pos_iff.mp hpos) _
  rw [hx] at hle hlt
  have hpart : Part v (filled data (head.drop pos ++ x)) (head.drop pos) x 120 :=
    part_last h.accepts h.state hlt
  have hw : Window head pos (filled data (head.drop pos ++ x))
      ((head.drop pos).length + x.length) := window_last (by omega) (by omega) (by omega)
  rw [List.length_append] at hle hlt
  obtain ⟨u, hexec, hcut⟩ := execute_part h hpart hw h.sound h.acts hin
  have herror : u.error = 0 := hcut.error.trans ht
  have hnoerror : ({ u with cs := 120, nread := (head.drop pos).length } :
      ResponseParser).hasError = false := by
    simp [hasError, herror]
  have hfinished : ({ u with cs := 120, nread := (head.drop pos).length } :
      ResponseParser).isFinished = true := by
    simp [isFinished, httpclientParserScanner]
  have hmem : ((filled data (head.drop pos ++ x)).take ((head.drop pos).length + x.length)).drop
      (head.drop pos).length = x := by
    rw [filled_eq, ← List.length_append, List.take_left, List.drop_left]
  rw [hmem] at hexec
  refine ⟨{ u with cs := 120, nread := (head.drop pos).length },
    (filled data (head.drop pos ++ x)).drop ((head.drop pos).length + x.length -
      (head.drop pos).length), fun fuel => ?_, hcut.data, hcut.calls, hcut.chunked⟩
  rw [recvHead_turn (by omega) hread hbs, hx, List.length_append, hexec]
  simp only [hnoerror, hfinished, Bool.false_eq_true, if_false, if_true]
  rw [subSize_of_le (by omega) (by unfold sizeMod; omega), Nat.add_sub_cancel_left,
    intOfSize_of_lt (by omega),
    if_neg (by rw [sizeOfInt_natCast (by unfold sizeMod; omega)]; omega)]

/-! ## The loop -/

theorem calls_execute {mem mem' : Bytes} {len n : Nat} {chunk : Bool}
    (h : v.execute mem len chunk = .ok (t, mem', n)) : v.calls <+: t.calls := by
  obtain ⟨u, hu⟩ := execute_iff.mp h
  have hcalls := calls_acts hu.acts
  rw [hu.parser]
  refine List.IsPrefix.trans ?_ hcalls
  split <;> exact List.prefix_rfl

/-- The loops call the callbacks one after the other. -/
theorem calls_recvParsed {n : Nat} {chunk : Bool} {full : Int → Bool} {off' : Int}
    (h : recvParsed n chunk full fuel parser data off sock = .ok (p, data', off', sock')) :
    parser.calls <+: p.calls := by
  induction fuel generalizing parser data off sock with
  | zero => cases h
  | succ fuel ih =>
    rw [recvParsed] at h
    split at h
    · cases h
    · simp only at h
      split at h
      · cases h
      · split at h
        · cases h
        · rename_i q data₁ m hexec
          have hq := calls_execute hexec
          split at h
          · cases h
          · split at h
            · cases h
            · split at h
              · cases h
                exact hq
              · exact hq.trans (ih h)

theorem recvParsed_add_fuel {n : Nat} {chunk : Bool} {full : Int → Bool}
    {x : ResponseParser × Bytes × Int × PeerSocket}
    (h : recvParsed n chunk full fuel parser data off sock = .ok x) (k : Nat) :
    recvParsed n chunk full (fuel + k) parser data off sock = .ok x := by
  induction fuel generalizing parser data off sock with
  | zero => cases h
  | succ fuel ih =>
    rw [Nat.add_right_comm]
    rw [recvParsed] at h ⊢
    split at h
    · cases h
    · simp only at h ⊢
      split at h
      · cases h
      · rename_i hpos
        rw [if_neg hpos]
        split at h
        · cases h
        · split at h
          · cases h
          · rename_i herror
            rw [if_neg herror]
            split at h
            · cases h
            · rename_i hfull
              rw [if_neg hfull]
              split at h
              · rename_i hfinished
                rw [if_pos hfinished]
                exact h
              · rename_i hfinished
                rw [if_neg hfinished]
                exact ih h

/-- What the loop leaves when it has received a head whole: `x` is what its last read brought of
    the body. -/
structure HeadRead (ends : List Nat) (head body x : Bytes) (t p : ResponseParser)
    (sock' : PeerSocket) : Prop where
  data : p.data = t.data
  calls : p.calls = t.calls
  chunked : p.chunked = t.chunked
  body : body = x ++ sock'.bytes
  proper : sock'.Proper
  last : head.length + x.length ∈ ends
  only : ∀ e ∈ ends, head.length ≤ e → e = head.length + x.length

/-- Reads that cut no span of the rest of a head: the induction is on the bound of the number of
    reads. -/
theorem recvHead_uncut {k : Nat} (h : Progress head pos r s v t) (ht : t.error = 0)
    (hdata : data.length = c.buffSize + 1) (hsize : c.buffSize < 2 ^ 62)
    (hhead : head.length < c.buffSize) (hs : sock.Proper)
    (hbytes : sock.bytes = head.drop pos ++ body) (hk : head.length ≤ pos + k)
    (huncut : Uncut (pos :: readEnds c.buffSize k sock pos head.length)
      (r.spans (httpclientParserScanner.scan v.cs pos (head.drop pos)).events)) :
    ∃ (p : ResponseParser) (x g : Bytes) (sock' : PeerSocket),
      (∀ fuel, k ≤ fuel → c.recvHead fuel v data 0 sock = .ok (p, x ++ g, x.length, sock')) ∧
        HeadRead (readEnds c.buffSize k sock pos head.length) head body x t p sock' := by
  induction k generalizing pos r s v data sock with
  | zero =>
    have hpos := h.pos_lt
    omega
  | succ k ih =>
    have hpos := h.pos_lt
    obtain ⟨bs, sock', hread, hbs, hs', hcases⟩ := read_cases (c := c) hs (by omega) hpos hbytes
    have hbslen := List.length_pos_iff.mpr hbs
    have hfull := (PeerSocket.length_read hread).1
    rw [readEnds, hread] at huncut ⊢
    simp only at huncut ⊢
    rcases hcases with ⟨x, hx, hbody⟩ | ⟨rest, hrest, hdrop, hbytes'⟩
    · have hlen : pos + bs.length = head.length + x.length := by
        rw [hx, List.length_append, List.length_drop]
        omega
      rw [hlen, if_pos (Nat.le_add_right _ _)] at huncut ⊢
      have hlen' : pos + ((head.drop pos).length + x.length) = head.length + x.length := by
        rw [List.length_drop]
        omega
      have hin := (inside_iff h.sound fun _ => bounds_last).mpr (by rw [hlen']; exact huncut)
      obtain ⟨p, g, hrun, hpdata, hpcalls, hpchunked⟩ :=
        recvHead_last h ht hdata hsize hhead hread hx hin
      refine ⟨p, x, g, sock', fun fuel hfuel => ?_, hpdata, hpcalls, hpchunked, hbody, hs',
        List.mem_singleton_self _, fun e he _ => List.mem_singleton.mp he⟩
      obtain ⟨n, rfl⟩ := Nat.exists_eq_add_of_le hfuel
      rw [show k + 1 + n = (k + n) + 1 by omega]
      exact hrun _
    · have hrestpos := List.length_pos_iff.mpr hrest
      have hlength := congrArg List.length hdrop
      rw [List.length_append, List.length_drop] at hlength
      rw [if_neg (by omega)] at huncut ⊢
      have hbehind : head.drop (pos + bs.length) = rest := by
        rw [← List.drop_drop, hdrop, List.drop_left]
      obtain ⟨st, -, -, -, -, -, -, -, -, hevents, -⟩ := h.split hdrop hrest
      obtain ⟨hin, huncut'⟩ := (h.uncut_iff (fun e he => le_of_mem_readEnds he) hevents).mp huncut
      obtain ⟨v', s₁, hturn, hprogress, hevents'⟩ :=
        recvHead_mid h ht hdata hsize hhead hread hbs hrest hdrop hin
      rw [List.append_cancel_left (hevents.symm.trans hevents')] at huncut'
      obtain ⟨p, x, g, sock'', hrun, hread'⟩ := ih hprogress
        ((length_filled (by omega : bs.length < data.length)).trans hdata) hs'
        (by rw [hbehind, hbytes']) (by omega) huncut'
      refine ⟨p, x, g, sock'', fun fuel hfuel => ?_, hread'.data, hread'.calls, hread'.chunked,
        hread'.body, hread'.proper, List.mem_cons_of_mem _ hread'.last, fun e he hle => ?_⟩
      · obtain ⟨n, rfl⟩ := Nat.exists_eq_add_of_le hfuel
        rw [show k + 1 + n = (k + n) + 1 by omega, hturn]
        exact hrun _ (Nat.le_add_right _ _)
      · rcases List.mem_cons.mp he with rfl | he
        · omega
        · exact hread'.only e he hle

/-- The call of the parser in a turn of a loop that ends well. -/
theorem execute_of_recvHead {x : Bytes × Int × PeerSocket} (hsize : c.buffSize < 2 ^ 63)
    (hread : sock.read c.buffSize = some (bs, sock')) (hbs : bs ≠ [])
    (h : c.recvHead (fuel + 1) v data 0 sock = .ok (p, x)) :
    ∃ (v' : ResponseParser) (mem : Bytes) (n : Nat),
      v.execute (filled data bs) bs.length false = .ok (v', mem, n) ∧ v'.calls <+: p.calls := by
  obtain ⟨data', off', sock''⟩ := x
  rw [recvHead_turn hsize hread hbs] at h
  split at h
  · cases h
  · rename_i v' mem n hexec
    refine ⟨v', mem, n, hexec, ?_⟩
    split at h
    · cases h
    · dsimp only at h
      split at h
      · cases h
      · split at h
        · cases h
          exact List.prefix_rfl
        · exact calls_recvParsed h

/-- A loop that has called the callbacks as if the head had come at once has cut no span. -/
theorem uncut_of_recvHead {k : Nat} {x : Bytes × Int × PeerSocket} (h : Progress head pos r s v t)
    (ht : t.error = 0) (hdata : data.length = c.buffSize + 1) (hsize : c.buffSize < 2 ^ 62)
    (hhead : head.length < c.buffSize) (hs : sock.Proper)
    (hbytes : sock.bytes = head.drop pos ++ body) (hk : head.length ≤ pos + k)
    (hrun : c.recvHead fuel v data 0 sock = .ok (p, x)) (hcalls : p.calls <+: t.calls) :
    Uncut (pos :: readEnds c.buffSize k sock pos head.length)
      (r.spans (httpclientParserScanner.scan v.cs pos (head.drop pos)).events) := by
  induction k generalizing pos r s v data sock fuel with
  | zero =>
    have hpos := h.pos_lt
    omega
  | succ k ih =>
    have hpos := h.pos_lt
    obtain ⟨bs, sock', hread, hbs, hs', hcases⟩ := read_cases (c := c) hs (by omega) hpos hbytes
    obtain ⟨hle, hlt⟩ := PeerSocket.length_read hread
    cases fuel with
    | zero => cases hrun
    | succ fuel =>
      obtain ⟨v', mem, n, hexec, hv'⟩ := execute_of_recvHead (by omega) hread hbs hrun
      rw [readEnds, hread]
      simp only
      rcases hcases with ⟨x, rfl, hbody⟩ | ⟨rest, hrest, hdrop, hbytes'⟩
      · have hpart : Part v (filled data (head.drop pos ++ x)) (head.drop pos) x 120 :=
          part_last h.accepts h.state hlt
        have hw : Window head pos (filled data (head.drop pos ++ x))
            ((head.drop pos).length + x.length) := window_last (by omega) (by omega) (by omega)
        rw [List.length_append] at hexec
        have hlen : pos + ((head.drop pos).length + x.length) = head.length + x.length := by
          rw [List.length_drop]
          omega
        have hin := inside_of_execute h hpart hw h.sound h.acts hexec List.prefix_rfl
          (hv'.trans hcalls)
        rw [List.length_append, hlen, if_pos (Nat.le_add_right _ _), ← hlen]
        exact (inside_iff h.sound fun _ => bounds_last).mp hin
      · have hbslen := List.length_pos_iff.mpr hbs
        have hrestpos := List.length_pos_iff.mpr hrest
        have hlength := congrArg List.length hdrop
        rw [List.length_append, List.length_drop] at hlength
        have hbehind : head.drop (pos + bs.length) = rest := by
          rw [← List.drop_drop, hdrop, List.drop_left]
        obtain ⟨st, s₁, hpass, -, -, hpiece, hwhole, -, -, hevents, -⟩ := h.split hdrop hrest
        have hin := inside_of_execute h (part_mid hpass hbs hlt) (window_mid hdrop (by omega)
          (by omega) (by omega)) hpiece.sound hpiece.acts hexec hwhole (hv'.trans hcalls)
        obtain ⟨v'', s₂, hturn, hprogress, hevents'⟩ :=
          recvHead_mid h ht hdata hsize hhead hread hbs hrest hdrop hin
        rw [if_neg (by omega)]
        refine (h.uncut_iff (fun e he => le_of_mem_readEnds he) hevents).mpr ⟨hin, ?_⟩
        rw [List.append_cancel_left (hevents.symm.trans hevents')]
        rw [hturn] at hrun
        exact ih hprogress ((length_filled (by omega : bs.length < data.length)).trans hdata) hs'
          (by rw [hbehind, hbytes']) (by omega) hrun

/-! ## The body -/

theorem calls_recvChunks (h : c.recvChunks fuel parser body data off sock = .ok p) :
    parser.calls <+: p.calls := by
  induction fuel generalizing parser body data off sock with
  | zero => cases h
  | succ fuel ih =>
    simp only [recvChunks, bind, Except.bind, pure, Except.pure] at h
    split at h
    · cases h
    · rename_i x hhead
      have hcalls : parser.calls <+: x.1.calls := calls_recvParsed hhead
      split at h
      · cases h
      · split at h
        · cases h
          exact hcalls
        · exact hcalls.trans (ih h)

/-- The body of a response is received as that of a request with the same headers. -/
theorem recvBody_eq {q : RequestParser} (hq : q.data.headers = parser.data.headers)
    (hbody : q.data.body = parser.data.body) :
    c.recvBody fuel parser data off sock =
      ((⟨c.memory, 0, false, c.lexicalCast⟩ : HttpSession).recvBody fuel q data off sock).map
        fun x => { parser with data := parser.data.setBody x.1.body } := by
  have hlength : q.getContentLength c.lexicalCast = parser.getContentLength c.lexicalCast := by
    rw [RequestParser.getContentLength, ResponseParser.getContentLength, hq]
  simp only [recvBody, HttpSession.recvBody, hlength]
  generalize fixSizeLoop bufferRead _ fuel _ _ _ = run
  split
  · split
    · rcases run with _ | ⟨n, rt, s⟩
      · rfl
      · simp only
        split
        · rfl
        · split <;> rfl
    · rfl
  · simp only [Except.map, hbody, HttpResponse.setBody]

/-- A request whose body is that of the response. -/
def bodyRequest (parser : ResponseParser) : RequestParser :=
  { RequestParser.new 0 false with data := { headers := parser.data.headers } }

theorem recvBody_whole {x y g : Bytes} (hs : sock.Proper) (hbytes : sock.bytes = y)
    (hsize : x.length + y.length < 2 ^ 63)
    (hlength : (parser.getContentLength c.lexicalCast).toNat = x.length + y.length)
    (hbody : parser.data.body = []) (hrest : y = [] ∨ 0 < intOfSize y.length)
    (hfuel : y.length < fuel) :
    c.recvBody fuel parser (x ++ g) x.length sock =
      .ok { parser with data := parser.data.setBody (x ++ y) } := by
  have hrun : (⟨c.memory, 0, false, c.lexicalCast⟩ : HttpSession).recvBody fuel
      (bodyRequest parser) (x ++ g) x.length sock = _ :=
    HttpSession.recvBody_ok hs (hbytes.trans (List.append_nil y).symm) hsize hlength rfl hrest hfuel
  rw [recvBody_eq (q := bodyRequest parser) rfl hbody.symm, hrun]
  rfl

theorem calls_recvBody (h : c.recvBody fuel parser data off sock = .ok p) :
    p.calls = parser.calls := by
  simp only [recvBody] at h
  split at h
  · split at h
    · split at h
      · cases h
      · split at h
        · cases h
        · split at h
          · cases h
          · cases h
            rfl
    · cases h
      rfl
  · cases h
    rfl

theorem rest_of_recvBody {n : Nat} (hs : sock.Proper) (hbody : parser.data.body = [])
    (h : c.recvBody fuel parser data n sock = .ok p) (hlt : n < p.data.body.length) :
    0 < intOfSize (p.data.body.length - n) := by
  rw [recvBody_eq (q := bodyRequest parser) rfl hbody.symm] at h
  cases hrun : (⟨c.memory, 0, false, c.lexicalCast⟩ : HttpSession).recvBody fuel
      (bodyRequest parser) data n sock with
  | error stop =>
    rw [hrun] at h
    cases h
  | ok x =>
    rw [hrun] at h
    cases h
    exact (HttpSession.recvBody_rest hs rfl hrun).2.2 hlt

/-! ## The whole response -/

/-- A response that is not chunked: a head that the parser accepts and finishes with, of a version
    that it knows, shorter than the buffer, and the body that its content length announces.  `t`
    is the parser behind a head that comes at once. -/
structure CompleteResponse (c : ResponseBuffer) (head body : Bytes) (t : ResponseParser) :
    Prop where
  accepted : httpclientParserScanner.Accepts 1 head
  finished : (httpclientParserScanner.scan 1 0 head).state = 120
  parsed : headParser head = .ok t
  known : t.error = 0
  plain : t.chunked = false
  short : head.length < c.buffSize
  buffer : c.buffSize < 2 ^ 62
  size : body.length < 2 ^ 63
  length : (t.getContentLength c.lexicalCast).toNat = body.length

/-- Where the reads end that bring the head. -/
def headEnds (c : ResponseBuffer) (sock : PeerSocket) (head : Bytes) : List Nat :=
  readEnds c.buffSize head.length sock 0 head.length

/-- No read ends inside of what a callback depends on, and what the last read of the head leaves
    of the body, if anything, has a length that is positive as an `int`. -/
def WellCut (c : ResponseBuffer) (sock : PeerSocket) (head body : Bytes) : Prop :=
  Uncut (c.headEnds sock head) (headSpans head) ∧
    ∀ e ∈ c.headEnds sock head, head.length ≤ e →
      e = head.length + body.length ∨ 0 < intOfSize (head.length + body.length - e)

theorem uncut_zero {ends : List Nat} {spans : List (Nat × Nat)} :
    Uncut (0 :: ends) spans ↔ Uncut ends spans := by
  simp [Uncut]

theorem CompleteResponse.start (hr : c.CompleteResponse head body t) :
    Progress head 0 .zero .new .new t :=
  Progress.start hr.accepted hr.finished hr.parsed

theorem CompleteResponse.body_nil (hr : c.CompleteResponse head body t) : t.data.body = [] :=
  (acts_sameControl hr.parsed).2.2.1

/-- Reads that cut nothing bring the head, and of the body what the last of them has read. -/
theorem CompleteResponse.recvHead (hr : c.CompleteResponse head body t) (hs : sock.Proper)
    (hbytes : sock.bytes = head ++ body) (huncut : Uncut (c.headEnds sock head) (headSpans head)) :
    ∃ (p : ResponseParser) (x g : Bytes) (sock' : PeerSocket),
      (∀ fuel, head.length ≤ fuel →
        c.recvHead fuel .new c.memory 0 sock = .ok (p, x ++ g, x.length, sock')) ∧
        HeadRead (c.headEnds sock head) head body x t p sock' :=
  recvHead_uncut hr.start hr.known c.size hr.buffer hr.short hs hbytes (Nat.zero_add _).ge
    (uncut_zero.mpr huncut)

/-- What the last read of the head leaves of the body is a condition on its length only. -/
theorem HeadRead.rest_iff {ends : List Nat} {x : Bytes} (h : HeadRead ends head body x t p sock) :
    (∀ e ∈ ends, head.length ≤ e →
      e = head.length + body.length ∨ 0 < intOfSize (head.length + body.length - e)) ↔
      sock.bytes = [] ∨ 0 < intOfSize sock.bytes.length := by
  have hlen := congrArg List.length h.body
  rw [List.length_append] at hlen
  have hleft : head.length + body.length - (head.length + x.length) = sock.bytes.length := by omega
  rw [← List.length_eq_zero_iff]
  constructor
  · intro hall
    rcases hall _ h.last (Nat.le_add_right _ _) with heq | hpos
    · exact Or.inl (by omega)
    · rw [hleft] at hpos
      exact Or.inr hpos
  · intro hrest e he hle
    rw [h.only e he hle, hleft]
    exact hrest.imp_left fun h0 => by omega

/-- A response is received whole, and every token of its head is given whole to its callback,
    exactly when the reads cut no token. -/
theorem recvResponse_whole_iff (hr : c.CompleteResponse head body t) (hs : sock.Proper)
    (hbytes : sock.bytes = head ++ body) :
    (∃ fuel p, c.receive fuel sock = .ok p ∧ p.data = { t.data with body := body } ∧
      p.calls = t.calls) ↔ c.WellCut sock head body := by
  have hnil := hr.body_nil
  constructor
  · rintro ⟨fuel, p, hrun, hdata, hcalls⟩
    simp only [receive, bind, Except.bind] at hrun
    split at hrun
    · cases hrun
    · rename_i x hhead
      have hx : x.1.calls <+: p.calls := by
        split at hrun
        · exact calls_recvChunks hrun
        · exact (calls_recvBody hrun) ▸ List.prefix_rfl
      have huncut := uncut_zero.mp (uncut_of_recvHead (k := head.length) hr.start hr.known c.size
        hr.buffer hr.short hs hbytes (Nat.zero_add _).ge hhead (hcalls ▸ hx))
      obtain ⟨q, y, g, sock', hrun', hread⟩ := hr.recvHead hs hbytes huncut
      have hsame := (recvParsed_add_fuel hhead head.length).symm.trans
        (hrun' _ (Nat.le_add_left _ _))
      cases hsame
      rw [if_neg (by rw [hread.chunked, hr.plain]; exact Bool.false_ne_true)] at hrun
      refine ⟨huncut, hread.rest_iff.mpr ?_⟩
      have hbody : p.data.body.length = y.length + sock'.bytes.length := by
        rw [hdata, ← List.length_append, ← hread.body]
      have hrest := rest_of_recvBody hread.proper (by rw [hread.data, hnil]) hrun
      rw [hbody, Nat.add_sub_cancel_left] at hrest
      by_cases h0 : sock'.bytes = []
      · exact Or.inl h0
      · have := List.length_pos_iff.mpr h0
        exact Or.inr (hrest (by omega))
  · rintro ⟨huncut, hlast⟩
    obtain ⟨p, x, g, sock', hhead, hread⟩ := hr.recvHead hs hbytes huncut
    have hlen := congrArg List.length hread.body
    rw [List.length_append] at hlen
    have hsize := hr.size
    have hcontent : p.getContentLength c.lexicalCast = t.getContentLength c.lexicalCast := by
      rw [ResponseParser.getContentLength, ResponseParser.getContentLength, hread.data]
    have hbody : c.recvBody (head.length + sock'.bytes.length + 1) p (x ++ g) x.length sock' =
        .ok { p with data := p.data.setBody (x ++ sock'.bytes) } :=
      recvBody_whole hread.proper rfl (by omega) (by rw [hcontent, hr.length, hlen])
        (by rw [hread.data, hnil]) (hread.rest_iff.mp hlast) (by omega)
    refine ⟨head.length + sock'.bytes.length + 1,
      { p with data := p.data.setBody (x ++ sock'.bytes) }, ?_, ?_, hread.calls⟩
    · have hplain : p.chunked = false := hread.chunked.trans hr.plain
      rw [receive, hhead _ (by omega)]
      simp only [bind, Except.bind]
      rw [if_neg (by rw [hplain]; exact Bool.false_ne_true)]
      exact hbody
    · rw [hread.body, ← hread.data]
      rfl

/-- A connection with a buffer of 64 bytes. -/
def exampleBuffer : ResponseBuffer := ⟨64, List.replicate 65 0, decimalCast, rfl⟩

def exampleHead : Bytes := ascii "HTTP/1.1 200 OK\x0d\nContent-Length: 2\x0d\nX: y\x0d\n\x0d\n"

def exampleResponse : HttpResponse where
  reason := ascii "OK"
  body := ascii "hi"
  headers := [(ascii "Content-Length", ascii "2"), (ascii "X", ascii "y")]

theorem exampleHead_complete :
    ∃ t, exampleBuffer.CompleteResponse exampleHead (ascii "hi") t ∧
      { t.data with body := ascii "hi" } = exampleResponse := by
  refine ⟨(headParser exampleHead).toOption.getD .new, ⟨?_, ?_, rfl, ?_, ?_, ?_, ?_, ?_, ?_⟩, ?_⟩
  · exact ⟨exampleHead.dropLast, 10, 3, by decide, by decide, by decide⟩
  all_goals decide

/-- Behind the status line and between the two bytes of the body. -/
theorem recvResponse_whole_example :
    ∃ t : ResponseParser, (∃ fuel p, exampleBuffer.receive fuel
        ⟨[exampleHead.take 17, exampleHead.drop 17 ++ ascii "h", ascii "i"], false⟩ = .ok p ∧
      p.data = { t.data with body := ascii "hi" } ∧ p.calls = t.calls) ∧
      { t.data with body := ascii "hi" } = exampleResponse := by
  obtain ⟨t, ht, hdata⟩ := exampleHead_complete
  exact ⟨t, (recvResponse_whole_iff ht (by simp only [PeerSocket.Proper]; decide)
    (by decide)).mpr ⟨by unfold Uncut; decide, by decide⟩, hdata⟩

/-- The status comes in two reads, and is `0`. -/
theorem recvResponse_cut_status :
    (∃ t, exampleBuffer.CompleteResponse exampleHead (ascii "hi") t) ∧
      exampleBuffer.recvResponse 4 ⟨[exampleHead ++ ascii "hi"], false⟩ = .ok exampleResponse ∧
      exampleBuffer.recvResponse 4
          ⟨[exampleHead.take 10, exampleHead.drop 10 ++ ascii "hi"], false⟩ =
        .ok { exampleResponse with status := 0 } := by
  obtain ⟨t, ht, -⟩ := exampleHead_complete
  exact ⟨⟨t, ht⟩, by decide, by decide⟩

end ResponseBuffer

end CppServerFramework.HTTP
