import CppServerFramework.HTTP.SessionProps

/-!
# Requests behind each other

The buffer of `recvRequest` is local to the call, and what the first read of a request returns
behind its body is gone with it.  So the requests on a connection are received one after the
other only if no such read returns anything of the next request.
-/

namespace CppServerFramework.HTTP
open CInt Blocks

variable {sock : PeerSocket} {fuel : Nat}

namespace HttpSession

/-- A request on the connection, and what the call that is to return it starts from. -/
structure Incoming where
  session : HttpSession
  head : Bytes
  body : Bytes
  request : HttpRequest

namespace Incoming

def bytes (i : Incoming) : Bytes := i.head ++ i.body

def Complete (i : Incoming) : Prop := i.session.SentRequest i.head i.body i.request

end Incoming

def stream (calls : List Incoming) : Bytes := calls.flatMap Incoming.bytes

/-- Successive calls of `recvRequest` on one connection: what they return, and what they leave
    of the connection. -/
def receiveAll (fuel : Nat) :
    List HttpSession → PeerSocket → Except Stop (List HttpRequest × PeerSocket)
  | [], sock => .ok ([], sock)
  | c :: cs, sock => do
    let (r, sock) ← c.receive fuel sock
    let (rs, sock) ← receiveAll fuel cs sock
    return (r :: rs, sock)

/-- With `left` bytes to come the connection stands inside a head. -/
def InHead : List Incoming → (left : Nat) → Prop
  | [], _ => False
  | i :: is, left =>
    (stream is).length + i.body.length < left ∧ left < (stream (i :: is)).length ∨ InHead is left

/-- The first read or the last read of one of the calls leaves `left` bytes to come. -/
def ReadEnds (fuel : Nat) : List HttpSession → PeerSocket → (left : Nat) → Prop
  | [], _, _ => False
  | c :: cs, sock, left =>
    (∃ bs t, sock.read c.memory.length = some (bs, t) ∧ left = t.bytes.length) ∨
      ∃ r t, c.receive fuel sock = .ok (r, t) ∧
        (left = t.bytes.length ∨ ReadEnds fuel cs t left)

/-- No head is split: no such read ends inside one. -/
def HeadsWhole (fuel : Nat) (calls : List Incoming) (sock : PeerSocket) : Prop :=
  ∀ left, ReadEnds fuel (calls.map Incoming.session) sock left → ¬InHead calls left

/-- The first read of every request returns nothing behind it, and what it leaves of the body,
    if anything, has a length that is positive as an `int`. -/
def Separate : List Incoming → PeerSocket → Prop
  | [], _ => True
  | i :: is, sock =>
    i.session.firstRead sock ≤ i.bytes.length ∧
      (i.session.firstRead sock = i.bytes.length ∨
        0 < intOfSize (i.bytes.length - i.session.firstRead sock)) ∧
      Separate is (sock.skip i.bytes.length)

variable {i : Incoming} {calls : List Incoming}

theorem stream_cons (i : Incoming) (calls : List Incoming) :
    stream (i :: calls) = i.head ++ (i.body ++ stream calls) := by
  rw [stream, List.flatMap_cons, Incoming.bytes, List.append_assoc]
  rfl

theorem receiveAll_cons {cs : List HttpSession} {c : HttpSession} {r : HttpRequest}
    {rs : List HttpRequest} {t : PeerSocket} :
    receiveAll fuel (c :: cs) sock = .ok (r :: rs, t) ↔
      ∃ u, c.receive fuel sock = .ok (r, u) ∧ receiveAll fuel cs u = .ok (rs, t) := by
  rw [receiveAll]
  cases hc : c.receive fuel sock with
  | error stop => simp [bind, Except.bind]
  | ok x =>
    obtain ⟨r', u⟩ := x
    cases hcs : receiveAll fuel cs u with
    | error stop =>
      simp only [bind, Except.bind, hcs, Except.ok.injEq, Prod.mk.injEq]
      constructor
      · intro h
        cases h
      · rintro ⟨v, ⟨rfl, rfl⟩, h⟩
        rw [hcs] at h
        cases h
    | ok y =>
      obtain ⟨rs', t'⟩ := y
      simp only [bind, Except.bind, hcs, pure, Except.pure, Except.ok.injEq, Prod.mk.injEq,
        List.cons.injEq]
      constructor
      · rintro ⟨⟨rfl, rfl⟩, rfl⟩
        exact ⟨u, ⟨rfl, rfl⟩, hcs⟩
      · rintro ⟨v, ⟨rfl, rfl⟩, h⟩
        rw [hcs] at h
        cases h
        exact ⟨⟨rfl, rfl⟩, rfl⟩

theorem HeadsWhole.tail {r : HttpRequest} {t : PeerSocket}
    (h : HeadsWhole fuel (i :: calls) sock) (hreceive : i.session.receive fuel sock = .ok (r, t)) :
    HeadsWhole fuel calls t ∧ ¬InHead calls t.bytes.length :=
  ⟨fun left hend hin => h left (Or.inr ⟨r, t, hreceive, Or.inr hend⟩) (Or.inr hin),
    fun hin => h _ (Or.inr ⟨r, t, hreceive, Or.inl rfl⟩) (Or.inr hin)⟩

/-- Calls that start with less to come than the requests have do not return them: every one of
    them starts behind the head of its request, and the last finds less than the last body. -/
theorem not_receiveAll_of_short {t : PeerSocket} (hcalls : ∀ i ∈ calls, i.Complete)
    (hs : sock.Proper) (hshort : sock.bytes.length < (stream calls).length)
    (hnot : ¬InHead calls sock.bytes.length) (hwhole : HeadsWhole fuel calls sock) :
    receiveAll fuel (calls.map Incoming.session) sock ≠
      .ok (calls.map Incoming.request, t) := by
  induction calls generalizing sock with
  | nil => exact absurd hshort (Nat.not_lt_zero _)
  | cons i calls ih =>
    intro h
    obtain ⟨u, hreceive, hrest⟩ := receiveAll_cons.mp h
    have hi := hcalls i (by simp)
    obtain ⟨hu, hconsumes⟩ := receive_consumes hi.memory hs hreceive
    obtain ⟨s, -, -, -, hrequest⟩ := hi.parsed
    have hbody : i.request.body = i.body := by rw [hrequest]
    have hbehind : sock.bytes.length ≤ (stream calls).length + i.body.length := by
      by_contra hlt
      exact hnot (Or.inl ⟨Nat.lt_of_not_le hlt, hshort⟩)
    rw [hbody] at hconsumes
    obtain ⟨hwhole', hnot'⟩ := hwhole.tail hreceive
    exact ih (fun j hj => hcalls j (List.mem_cons_of_mem _ hj)) hu (by omega) hnot' hwhole' hrest

/-- The first read of a request whose head is not split. -/
theorem first_read (hi : i.Complete) (hs : sock.Proper)
    (hbytes : sock.bytes = stream (i :: calls)) (hwhole : HeadsWhole fuel (i :: calls) sock) :
    ∃ x sock', sock.read i.session.memory.length = some (i.head ++ x, sock') ∧ sock'.Proper ∧
      i.session.firstRead sock = i.head.length + x.length ∧
      x ++ sock'.bytes = i.body ++ stream calls := by
  have hpos := Scanner.length_pos_of_accepts hi.accepted
  have hmem := hi.fits
  obtain ⟨a, sock', hread, ha⟩ := PeerSocket.read_of_bytes (n := i.session.memory.length) hs
    (by
      rw [hbytes, stream_cons]
      exact List.append_ne_nil_of_left_ne_nil (List.length_pos_iff.mp hpos) _)
    (by omega)
  have hsplit := hbytes.symm.trans (PeerSocket.read_bytes hread)
  have hlen := congrArg List.length hsplit
  have hapos := List.length_pos_iff.mpr ha
  have hend := hwhole _ (Or.inl ⟨a, sock', hread, rfl⟩)
  rw [InHead, not_or, hsplit, List.length_append] at hend
  have hle : i.head.length ≤ a.length := by
    rw [stream_cons] at hlen
    simp only [List.length_append] at hlen
    by_contra hlt
    exact hend.1 ⟨by omega, by omega⟩
  rw [stream_cons] at hsplit
  obtain ⟨x, rfl⟩ := List.prefix_of_prefix_length_le (List.prefix_append i.head _)
    ⟨sock'.bytes, hsplit.symm⟩ hle
  rw [List.append_assoc, List.append_cancel_left_eq] at hsplit
  refine ⟨x, sock', hread, PeerSocket.proper_read hs hread, ?_, hsplit.symm⟩
  rw [firstRead, hread]
  exact List.length_append

/-- The connection behind a request whose first read keeps within it. -/
theorem skip_behind {x y : Bytes} {sock' : PeerSocket} (hs : sock.Proper)
    (hread : sock.read i.session.memory.length = some (i.head ++ x, sock'))
    (hy : x ++ y = i.body) : sock'.skip y.length = sock.skip i.bytes.length := by
  rw [PeerSocket.skip_of_read hs hread, PeerSocket.skip_skip hs, Incoming.bytes, ← hy]
  simp only [List.length_append, Nat.add_assoc]

theorem bytes_behind (hbytes : sock.bytes = stream (i :: calls)) :
    (sock.skip i.bytes.length).bytes = stream calls := by
  rw [PeerSocket.bytes_skip, hbytes, stream_cons, Incoming.bytes, ← List.append_assoc,
    List.drop_left]

/-- When every first read keeps within its request, each call leaves exactly the next ones. -/
theorem receiveAll_of_separate (hcalls : ∀ i ∈ calls, i.Complete) (hs : sock.Proper)
    (hbytes : sock.bytes = stream calls) (hwhole : HeadsWhole (fuel + 1) calls sock)
    (hfuel : sock.bytes.length ≤ fuel) (h : Separate calls sock) :
    ∃ t, receiveAll (fuel + 1) (calls.map Incoming.session) sock =
      .ok (calls.map Incoming.request, t) := by
  induction calls generalizing sock with
  | nil => exact ⟨sock, rfl⟩
  | cons i calls ih =>
    have hi := hcalls i (by simp)
    obtain ⟨hle, hrest, hseparate⟩ := h
    obtain ⟨x, sock', hread, hsock', hfirst, hx⟩ := first_read hi hs hbytes hwhole
    simp only [hfirst, Incoming.bytes, List.length_append, Nat.add_le_add_iff_left] at hle hrest
    obtain ⟨y, hy⟩ := List.prefix_of_prefix_length_le (List.prefix_append x _)
      (hx ▸ List.prefix_append i.body _) hle
    rw [← hy, List.append_assoc, List.append_cancel_left_eq] at hx
    rw [← hy, List.length_append] at hrest
    have hlen := congrArg List.length (PeerSocket.read_bytes hread)
    rw [hx] at hlen
    simp only [List.length_append] at hlen
    have hi' : i.session.SentRequest i.head (x ++ y) i.request := hy.symm ▸ hi
    rw [Nat.add_sub_add_left, Nat.add_sub_cancel_left] at hrest
    have hreceive := receive_within hi' hsock' hread hx
      (hrest.imp_left fun h0 => List.length_eq_zero_iff.mp (by omega))
      (by omega : y.length < fuel + 1)
    rw [skip_behind hs hread hy] at hreceive
    obtain ⟨hwhole', -⟩ := hwhole.tail hreceive
    obtain ⟨t, ht⟩ := ih (fun j hj => hcalls j (List.mem_cons_of_mem _ hj))
      (PeerSocket.proper_skip hs _) (bytes_behind hbytes) hwhole'
      (by rw [PeerSocket.bytes_skip, List.length_drop]; omega) hseparate
    exact ⟨t, receiveAll_cons.mpr ⟨_, hreceive, ht⟩⟩

/-- A first read that goes beyond its request leaves less than the next ones have. -/
theorem separate_of_receiveAll {t : PeerSocket} (hcalls : ∀ i ∈ calls, i.Complete)
    (hs : sock.Proper) (hbytes : sock.bytes = stream calls) (hwhole : HeadsWhole fuel calls sock)
    (h : receiveAll fuel (calls.map Incoming.session) sock =
      .ok (calls.map Incoming.request, t)) : Separate calls sock := by
  induction calls generalizing sock with
  | nil => trivial
  | cons i calls ih =>
    have hi := hcalls i (by simp)
    have hrestcalls : ∀ j ∈ calls, j.Complete := fun j hj => hcalls j (List.mem_cons_of_mem _ hj)
    obtain ⟨u, hreceive, hall⟩ := receiveAll_cons.mp h
    obtain ⟨hwhole', hnot'⟩ := hwhole.tail hreceive
    obtain ⟨x, sock', hread, hsock', hfirst, hx⟩ := first_read hi hs hbytes hwhole
    have hle : x.length ≤ i.body.length := by
      by_contra hlt
      obtain ⟨z, rfl⟩ := List.prefix_of_prefix_length_le (List.prefix_append i.body _)
        ⟨sock'.bytes, hx⟩ (Nat.le_of_not_le hlt)
      rw [List.append_assoc, List.append_cancel_left_eq] at hx
      have hz : z ≠ [] := by
        rintro rfl
        simp at hlt
      have hzpos := List.length_pos_iff.mpr hz
      cases fuel with
      | zero => cases hreceive
      | succ fuel =>
        have hover := hreceive.symm.trans (receive_over hi hread hz)
        simp only [Except.ok.injEq, Prod.mk.injEq, true_and] at hover
        subst hover
        have hlen := congrArg List.length hx
        rw [List.length_append] at hlen
        exact not_receiveAll_of_short hrestcalls hsock' (by omega) hnot' hwhole' hall
    obtain ⟨y, hy⟩ := List.prefix_of_prefix_length_le (List.prefix_append x _)
      (hx ▸ List.prefix_append i.body _) hle
    rw [← hy, List.append_assoc, List.append_cancel_left_eq] at hx
    have hi' : i.session.SentRequest i.head (x ++ y) i.request := hy.symm ▸ hi
    obtain ⟨hrest, rfl⟩ := rest_of_receive hi' hsock' hread hreceive
    rw [skip_behind hs hread hy] at hall hwhole'
    refine ⟨?_, ?_,
      ih hrestcalls (PeerSocket.proper_skip hs _) (bytes_behind hbytes) hwhole' hall⟩
    · rw [hfirst, Incoming.bytes, List.length_append]
      omega
    · rw [hfirst, Incoming.bytes, ← hy]
      simp only [List.length_append]
      rw [Nat.add_sub_add_left, Nat.add_sub_cancel_left]
      exact hrest.imp_left fun h0 => by simp [h0]

/-- Requests whose heads are not split are received one after the other exactly when no first
    read of a request returns anything of the next. -/
theorem pipeline_correct_iff (hcalls : ∀ i ∈ calls, i.Complete) (hs : sock.Proper)
    (hbytes : sock.bytes = stream calls) (hwhole : ∀ fuel, HeadsWhole fuel calls sock) :
    (∃ fuel t, receiveAll fuel (calls.map Incoming.session) sock =
      .ok (calls.map Incoming.request, t)) ↔ Separate calls sock := by
  constructor
  · rintro ⟨fuel, t, h⟩
    exact separate_of_receiveAll hcalls hs hbytes (hwhole fuel) h
  · intro h
    obtain ⟨t, ht⟩ := receiveAll_of_separate hcalls hs hbytes (hwhole (sock.bytes.length + 1))
      le_rfl h
    exact ⟨_, t, ht⟩

/-- Where the reads of a call that is known end. -/
theorem readEnds_cons {c : HttpSession} {cs : List HttpSession} {bs : Bytes} {r : HttpRequest}
    {t u : PeerSocket} {left : Nat} (hread : sock.read c.memory.length = some (bs, t))
    (hreceive : ∀ fuel, c.receive (fuel + 1) sock = .ok (r, u))
    (h : ReadEnds fuel (c :: cs) sock left) :
    left = t.bytes.length ∨ left = u.bytes.length ∨ ReadEnds fuel cs u left := by
  rcases h with ⟨bs', t', hread', rfl⟩ | ⟨r', u', hreceive', hrest⟩
  · rw [hread] at hread'
    cases hread'
    exact Or.inl rfl
  · cases fuel with
    | zero => cases hreceive'
    | succ fuel =>
      rw [hreceive fuel] at hreceive'
      cases hreceive'
      exact Or.inr hrest

def exampleIncoming : Incoming := ⟨exampleSession, exampleGet, [], {}⟩

theorem receive_exampleGet (segs : List Bytes) (hs : ∀ g ∈ segs, g ≠ []) (fuel : Nat) :
    exampleSession.receive (fuel + 1) ⟨exampleGet :: segs, true⟩ = .ok ({}, ⟨segs, true⟩) := by
  have hread : PeerSocket.read ⟨exampleGet :: segs, true⟩ exampleSession.memory.length =
      some (exampleGet ++ [], ⟨segs, true⟩) := rfl
  have hsock' : PeerSocket.Proper ⟨segs, true⟩ := hs
  rw [receive_within (x := []) (y := []) exampleGet_complete.sent hsock' hread rfl (Or.inl rfl)
    (Nat.succ_pos fuel), List.length_nil, PeerSocket.skip_zero hsock']

/-- Two requests without a body in two reads. -/
theorem pipeline_correct_twoReads :
    ∃ fuel t, receiveAll fuel [exampleSession, exampleSession] ⟨[exampleGet, exampleGet], true⟩ =
      .ok ([{}, {}], t) := by
  refine (@pipeline_correct_iff _ [exampleIncoming, exampleIncoming] ?_ ?_ rfl ?_).mpr ?_
  · simp only [List.mem_cons, List.not_mem_nil, or_false, or_self, forall_eq]
    exact exampleGet_complete.sent
  · simp only [PeerSocket.Proper]
    decide
  · intro fuel left h
    have hends : left = 18 ∨ left = 0 := by
      rcases readEnds_cons rfl (receive_exampleGet [exampleGet] (by decide)) h with
        h | h | h
      · exact Or.inl h
      · exact Or.inl h
      · rcases readEnds_cons rfl (receive_exampleGet [] (by simp)) h with h | h | h
        · exact Or.inr h
        · exact Or.inr h
        · cases h
    rcases hends with rfl | rfl
    · simp only [InHead]
      decide
    · simp only [InHead]
      decide
  · simp only [Separate]
    decide

/-- Two requests in one read: the second is lost, and the peer has nothing more to send. -/
theorem pipeline_second_lost :
    exampleIncoming.Complete ∧
      (∀ fuel, HeadsWhole fuel [exampleIncoming, exampleIncoming]
        ⟨[exampleGet ++ exampleGet], true⟩) ∧
      ∀ fuel, receiveAll (fuel + 1) [exampleSession, exampleSession]
        ⟨[exampleGet ++ exampleGet], true⟩ = .error .null := by
  have hover : ∀ fuel, exampleSession.receive (fuel + 1) ⟨[exampleGet ++ exampleGet], true⟩ =
      .ok ({}, ⟨[], true⟩) := fun fuel =>
    receive_over (z := exampleGet) exampleGet_complete.sent rfl (by decide)
  have hclosed : ∀ fuel, exampleSession.receive (fuel + 1) ⟨[], true⟩ = .error .null :=
    fun _ => rfl
  refine ⟨exampleGet_complete.sent, ?_, ?_⟩
  · intro fuel left h
    have hend : left = 0 := by
      rcases readEnds_cons rfl hover h with h | h | h
      · exact h
      · exact h
      · rcases h with ⟨bs, t, hread, rfl⟩ | ⟨r, t, hreceive, -⟩
        · cases hread
          rfl
        · cases fuel with
          | zero => cases hreceive
          | succ fuel =>
            cases (hclosed fuel).symm.trans hreceive
    subst hend
    simp only [InHead]
    decide
  · intro fuel
    rw [receiveAll, hover]
    simp only [bind, Except.bind]
    rw [receiveAll, hclosed]
    rfl

end HttpSession

end CppServerFramework.HTTP
