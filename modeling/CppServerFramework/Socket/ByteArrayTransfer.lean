import CppServerFramework.Misc.Machine
import CppServerFramework.Socket.ByteArrayChain
import Mathlib.Data.List.Nodup

/-!
# Receiving into a `ByteArray` and sending from it

`SocketStream::read` and `SocketStream::write` (`stream/stream.cpp:80`) give the segments of
`getWriteBuffers` and `getReadBuffers` to the socket, which fills or takes a part of them, and
move the cursor by what it has done.
-/

namespace CppServerFramework.Socket
open Blocks

/-! ## What the socket does with segments -/

/-- The bytes that segments denote, in order. -/
def gather (nodes : List (List UInt8)) (iovs : List Iovec) : List UInt8 :=
  iovs.flatMap fun v => slice (nodes.getD v.node []) v.offset v.length

/-- Segments are filled with bytes, in order. -/
def scatter : List (List UInt8) → List Iovec → List UInt8 → List (List UInt8)
  | nodes, [], _ => nodes
  | nodes, v :: iovs, data =>
    let node := nodes.getD v.node []
    scatter (nodes.set v.node (overwrite node v.offset (data.take v.length))) iovs
      (data.drop v.length)

namespace ByteArray

/-- `ByteArray::getReadBuffers(buffers, len)` (`bytearray.cpp:569-599`): the segments and the size
    that it returns. -/
def getReadBuffers (s : ByteArray) (len : Nat) : Except Error (List Iovec × Nat) :=
  let len := if s.getReadSize < len then s.getReadSize else len
  if len = 0 then .ok ([], 0)
  else do
    let npos := s.position % s.baseSize
    let (_, node) ← deref s.nodes s.cur
    let iovs ← bufferLoop s.nodes len s.cur npos (node.length - npos) len
    return (iovs, len)

/-- `SocketStream::read(ba, length)` (`stream.cpp:80-91`) where the socket has `data` to give; an
    error of the socket gives nothing. -/
def receive (s : ByteArray) (length : Nat) (data : List UInt8) (heap : Nat → UInt8) :
    Except Error ByteArray := do
  let (iovs, s) ← s.getWriteBuffers length heap
  let data := data.take length
  let s := { s with nodes := scatter s.nodes iovs data }
  if 0 < data.length then s.setPosition (s.position + data.length) else return s

/-- `SocketStream::write(ba, length)` (`stream.cpp:100-111`) where the socket takes at most
    `room` bytes: the bytes that it has taken. -/
def send (s : ByteArray) (length room : Nat) : Except Error (List UInt8 × ByteArray) := do
  let (iovs, size) ← s.getReadBuffers length
  let sent := (gather s.nodes iovs).take (min room size)
  if 0 < sent.length then
    let s ← s.setPosition (s.position + sent.length)
    return (sent, s)
  else return (sent, s)

/-- The valid bytes, in front of the cursor and behind it. -/
def content (s : ByteArray) : List UInt8 := s.nodes.flatten.take s.size

/-- Several calls of `SocketStream::read`, with what the socket has to give for each and the bytes
    found in the memory that is allocated. -/
def receiveAll : ByteArray → List (Nat × List UInt8 × (Nat → UInt8)) → Except Error ByteArray
  | s, [] => .ok s
  | s, (length, data, heap) :: calls => do
    let s ← s.receive length data heap
    receiveAll s calls

/-- Several calls of `SocketStream::write`, and all that the socket has taken. -/
def sendAll : ByteArray → List (Nat × Nat) → Except Error (List UInt8 × ByteArray)
  | s, [] => .ok ([], s)
  | s, (length, room) :: calls => do
    let (sent, s) ← s.send length room
    let (rest, s) ← sendAll s calls
    return (sent ++ rest, s)

end ByteArray

/-! ## Segments -/

section
variable {base pos len : Nat} {nodes : List (List UInt8)} {iovs : List Iovec} {v : Iovec}

theorem Segments.total (h : Segments base nodes iovs pos len) :
    (iovs.map Iovec.length).sum = len := by
  have hlength := congrArg List.length h.cover
  rw [List.length_flatMap, List.length_range'] at hlength
  rw [← hlength]
  congr 1
  exact List.map_congr_left fun v _ => by simp [Iovec.offsets]

/-- No offset is in two segments. -/
theorem Segments.disjoint (h : Segments base nodes iovs pos len) :
    iovs.Pairwise fun v w => (v.offsets base).Disjoint (w.offsets base) := by
  have hnodup : (iovs.flatMap (Iovec.offsets base)).Nodup := h.cover ▸ List.nodup_range'
  exact (List.nodup_flatMap.mp hnodup).2

/-- The first segment starts at `pos`, and the others denote what follows. -/
theorem Segments.uncons (h : Segments base nodes (v :: iovs) pos len) :
    (0 < v.length → v.node * base + v.offset = pos) ∧ v.length ≤ len ∧
      Segments base nodes iovs (pos + v.length) (len - v.length) := by
  have htotal := h.total
  rw [List.map_cons, List.sum_cons] at htotal
  have hle : v.length ≤ len := by omega
  have hcover := h.cover
  have hsplit : List.range' pos len =
      List.range' pos v.length ++ List.range' (pos + v.length) (len - v.length) := by
    rw [List.range'_append_1, Nat.add_sub_cancel' hle]
  rw [List.flatMap_cons, hsplit] at hcover
  obtain ⟨hfirst, hrest⟩ := List.append_inj hcover (by simp [Iovec.offsets])
  refine ⟨fun hpos => ?_, hle, fun w hw => h.inside w (List.mem_cons_of_mem _ hw), hrest⟩
  obtain ⟨n, hn⟩ := Nat.exists_eq_add_of_lt hpos
  rw [Iovec.offsets, hn, Nat.zero_add, List.range'_succ, List.range'_succ] at hfirst
  exact List.head_eq_of_cons_eq hfirst

/-- Segments denote one slice of the chain. -/
theorem Segments.gather_eq (h : Segments base nodes iovs pos len)
    (hblock : ∀ b ∈ nodes, b.length = base) :
    gather nodes iovs = slice nodes.flatten pos len := by
  induction iovs generalizing pos len with
  | nil =>
    have hlen := h.total
    rw [← hlen]
    rfl
  | cons v iovs ih =>
    obtain ⟨hstart, hle, hrest⟩ := h.uncons
    obtain ⟨hnode, hoffset⟩ := h.inside v (List.mem_cons_self ..)
    rw [gather, List.flatMap_cons, ← gather, ih hrest]
    have hget : nodes[v.node]? = some (nodes.getD v.node []) := by
      rw [List.getD_eq_getElem?_getD, List.getElem?_eq_getElem hnode, Option.getD_some]
    have hfirst : slice (nodes.getD v.node []) v.offset v.length =
        slice nodes.flatten pos v.length := by
      rcases Nat.eq_zero_or_pos v.length with hzero | hpos
      · simp [hzero, slice]
      · rw [← hstart hpos, slice_flatten hblock hget hoffset]
    rw [hfirst, ← slice_add, Nat.add_sub_cancel' hle]

/-- Filling segments overwrites one slice of the chain. -/
theorem Segments.scatter_eq (h : Segments base nodes iovs pos len)
    (hblock : ∀ b ∈ nodes, b.length = base) {data : List UInt8} (hdata : data.length ≤ len)
    (hfits : pos + len ≤ nodes.length * base) :
    (scatter nodes iovs data).flatten = overwrite nodes.flatten pos data ∧
      (∀ b ∈ scatter nodes iovs data, b.length = base) ∧
      (scatter nodes iovs data).length = nodes.length := by
  induction iovs generalizing nodes pos len data with
  | nil =>
    have hlen : len = 0 := h.total.symm
    have hnil : data = [] := List.length_eq_zero_iff.mp (by omega)
    rw [hnil, overwrite_nil]
    exact ⟨rfl, hblock, rfl⟩
  | cons v iovs ih =>
    obtain ⟨hstart, hle, hrest⟩ := h.uncons
    obtain ⟨hnode, hoffset⟩ := h.inside v (List.mem_cons_self ..)
    have hget : nodes[v.node]? = some (nodes.getD v.node []) := by
      rw [List.getD_eq_getElem?_getD, List.getElem?_eq_getElem hnode, Option.getD_some]
    have hlength : (data.take v.length).length = min v.length data.length := List.length_take
    have hbase : (nodes.getD v.node []).length = base := hblock _ (List.mem_of_getElem? hget)
    generalize hnodes : nodes.set v.node
      (overwrite (nodes.getD v.node []) v.offset (data.take v.length)) = nodes'
    have hblock' : ∀ b ∈ nodes', b.length = base := by
      rw [← hnodes]
      exact length_of_mem_set hblock ((length_overwrite (by omega)).trans hbase)
    have hcount : nodes'.length = nodes.length := by rw [← hnodes, List.length_set]
    have hflat : nodes'.flatten = overwrite nodes.flatten pos (data.take v.length) := by
      rw [← hnodes, flatten_set_overwrite hblock hget (by omega)]
      rcases Nat.eq_zero_or_pos v.length with hzero | hpos
      · rw [hzero, List.take_zero, overwrite_nil, overwrite_nil]
      · rw [hstart hpos]
    have hrest' : Segments base nodes' iovs (pos + v.length) (len - v.length) :=
      ⟨fun w hw => hcount ▸ hrest.inside w hw, hrest.cover⟩
    have hdata : (data.drop v.length).length ≤ len - v.length := by
      rw [List.length_drop]
      omega
    obtain ⟨hall, hblocks, hlen⟩ := ih hrest' hblock' hdata (by rw [hcount]; omega)
    rw [scatter, hnodes]
    refine ⟨?_, hblocks, hlen.trans hcount⟩
    rw [hall, hflat]
    have hflatten := length_flatten hblock
    by_cases hlong : v.length ≤ data.length
    · have hpos : pos + v.length = pos + (data.take v.length).length := by omega
      rw [hpos, overwrite_append (by omega), List.take_append_drop]
    · rw [List.drop_eq_nil_of_le (by omega), overwrite_nil, List.take_of_length_le (by omega)]

end

/-! ## The operations -/

variable {s t : ByteArray}

theorem getReadBuffers_spec (h : Chain s) (hcur : CurDenotes s) (len : Nat) :
    ∃ iovs, s.getReadBuffers len = .ok (iovs, min len s.getReadSize) ∧
      Segments s.baseSize s.nodes iovs s.position (min len s.getReadSize) := by
  have hlen : (if s.getReadSize < len then s.getReadSize else len) = min len s.getReadSize := by
    split <;> omega
  have hfits : s.position + min len s.getReadSize ≤ s.size := by
    have hpos := h.position_le
    rw [ByteArray.getReadSize]
    omega
  unfold ByteArray.getReadBuffers
  simp only [hlen]
  generalize min len s.getReadSize = n at hfits
  have hsize := h.size_le
  have hcap := h.capacity_eq
  have hdm := Nat.div_add_mod' s.position s.baseSize
  rcases Nat.eq_zero_or_pos n with rfl | hn
  · exact ⟨[], rfl, by simp, rfl⟩
  · have hk : s.position / s.baseSize < s.nodes.length :=
      block_lt s.baseSize (s.position % s.baseSize) (by omega)
    obtain ⟨iovs, hrun, hsegments⟩ := bufferLoop_spec h.base_pos h.block n
      (s.position / s.baseSize) (s.position % s.baseSize) n h.mod_lt hn (Nat.le_refl _) (by omega)
    rw [hdm] at hsegments
    refine ⟨iovs, ?_, hsegments⟩
    rw [if_neg (by omega), hcur (by omega), deref_some hk]
    simp only [bind, Except.bind, pure, Except.pure]
    rw [h.block _ (List.getElem_mem hk), hrun]

/-- What has become of `s` when `data` has been received. -/
structure Received (s : ByteArray) (data : List UInt8) (t : ByteArray) : Prop where
  chain : Chain t
  denotes : CurDenotes t
  position : t.position = s.position + data.length
  size : t.size = max s.size (s.position + data.length)
  bytes : ∃ fresh, t.nodes.flatten = overwrite (s.nodes.flatten ++ fresh) s.position data

theorem Received.content (h : Chain s) {data : List UInt8} (hr : Received s data t) :
    t.content = overwrite s.content s.position data := by
  obtain ⟨fresh, hbytes⟩ := hr.bytes
  rw [ByteArray.content, ByteArray.content, hbytes, hr.size]
  exact take_overwrite_append h.position_le (by rw [h.length_flatten]; exact h.size_le)

theorem receive_spec (h : Chain s) (hcur : CurDenotes s) (length : Nat) (data : List UInt8)
    (heap : Nat → UInt8) :
    ∃ t, s.receive length data heap = .ok t ∧ Received s (data.take length) t := by
  rcases Nat.eq_zero_or_pos length with rfl | hpos
  · exact ⟨s, rfl, h, hcur, rfl, (Nat.max_eq_left h.position_le).symm, [], by simp [overwrite_nil]⟩
  · obtain ⟨iovs, t, hrun, ht, hdenotes, hsegments, hroom, hbase, hposition, hsize, fresh,
      hbytes⟩ := getWriteBuffers_spec h hcur hpos heap
    have hdata : (data.take length).length ≤ length := List.length_take_le ..
    rw [ByteArray.receive, hrun]
    simp only [bind, Except.bind, pure, Except.pure]
    generalize data.take length = data at hdata
    obtain ⟨hflat, hblock, hcount⟩ := hsegments.scatter_eq (hbase ▸ ht.block) hdata
      (by rw [← hbase, ← ht.capacity_eq]; exact hroom)
    rw [hbytes] at hflat
    have hchain : Chain { t with nodes := scatter t.nodes iovs data } := {
      base_pos := ht.base_pos
      block := hbase ▸ hblock
      capacity_eq := by simp only [hcount]; exact ht.capacity_eq
      nodes_pos := by simp only [hcount]; exact ht.nodes_pos
      position_le := ht.position_le
      size_le := ht.size_le
      cur_valid := by simp only [hcount]; exact ht.cur_valid }
    by_cases hsome : 0 < data.length
    · rw [if_pos hsome, setPosition_spec hchain (by simp only []; omega)]
      refine ⟨_, rfl, hchain.setPosition (by simp only []; omega), fun hlt => if_pos hlt, ?_, ?_,
        fresh, hflat⟩
      · exact congrArg (· + data.length) hposition
      · simp only [hsize, hposition]
    · have hnil : data = [] := List.length_eq_zero_iff.mp (by omega)
      rw [if_neg hsome]
      refine ⟨_, rfl, hchain, hdenotes, ?_, ?_, fresh, hflat⟩
      · simpa [hnil] using hposition
      · simpa [hnil, Nat.max_eq_left h.position_le] using hsize

/-- What has become of `s` when `n` bytes have been sent. -/
structure Sent (s : ByteArray) (n : Nat) (t : ByteArray) : Prop where
  chain : Chain t
  denotes : CurDenotes t
  position : t.position = s.position + n
  content : t.content = s.content

theorem send_spec (h : Chain s) (hcur : CurDenotes s) (length room : Nat) :
    ∃ t, s.send length room =
        .ok (slice s.content s.position (min room (min length s.getReadSize)), t) ∧
      Sent s (min room (min length s.getReadSize)) t := by
  obtain ⟨iovs, hrun, hsegments⟩ := getReadBuffers_spec h hcur length
  have hfits : s.position + min length s.getReadSize ≤ s.size := by
    have hpos := h.position_le
    rw [ByteArray.getReadSize]
    omega
  rw [ByteArray.send, hrun]
  simp only [bind, Except.bind, pure, Except.pure, hsegments.gather_eq h.block]
  generalize min length s.getReadSize = n at hfits
  have hsize := h.size_le
  have hsent : (slice s.nodes.flatten s.position n).take (min room n) =
      slice s.content s.position (min room n) := by
    rw [ByteArray.content, slice_take (by omega), slice, slice, List.take_take,
      Nat.min_eq_left (Nat.min_le_right room n)]
  have hlength : (slice s.content s.position (min room n)).length = min room n := by
    apply length_slice
    rw [ByteArray.content, List.length_take, h.length_flatten]
    omega
  have hk : s.position + min room n ≤ s.size := by omega
  rw [hsent, hlength]
  generalize min room n = k at hk
  by_cases hpos : 0 < k
  · rw [if_pos hpos, setPosition_spec h (by omega)]
    refine ⟨_, rfl, h.setPosition (by omega), fun hlt => if_pos hlt, rfl, ?_⟩
    simp only [ByteArray.content, Nat.max_eq_left hk]
  · have hzero : k = 0 := by omega
    rw [if_neg hpos]
    exact ⟨s, rfl, h, hcur, by omega, rfl⟩

/-! ## Runs -/

/-- The operations of a connection on its array. -/
inductive TransferOp where
  | clear
  | setPosition (v : Nat)
  | read (size : Nat)
  | receive (length : Nat) (data : List UInt8)
  | send (length room : Nat)

def ByteArray.transfer (s : ByteArray) (heap : Nat → UInt8) : TransferOp → Except Error ByteArray
  | .clear => .ok s.clear
  | .setPosition v => s.setPosition v
  | .read size => (s.read size).map Prod.snd
  | .receive length data => s.receive length data heap
  | .send length room => (s.send length room).map Prod.snd

/-- A fresh array; an exception leaves it as it is, and a null node ends the run. -/
def transferMachine (base : Nat) : Machine ByteArray (TransferOp × (Nat → UInt8)) where
  init s := ∃ heap, s = ByteArray.new base heap
  step s a :=
    match s.transfer a.2 a.1 with
    | .ok t => some t
    | .error .outOfRange => some s
    | .error _ => none

theorem transfer_keeps (h : Chain s ∧ CurDenotes s) {heap : Nat → UInt8} {op : TransferOp}
    (hstep : s.transfer heap op = .ok t) : Chain t ∧ CurDenotes t := by
  obtain ⟨hc, hcur⟩ := h
  cases op with
  | clear =>
    cases hstep
    refine ⟨hc.clear, fun _ => ?_⟩
    simp [ByteArray.clear]
  | setPosition v =>
    by_cases hv : v ≤ s.capacity
    · rw [ByteArray.transfer, setPosition_spec hc hv] at hstep
      cases hstep
      exact ⟨hc.setPosition hv, fun hlt => if_pos hlt⟩
    · rw [ByteArray.transfer, ByteArray.setPosition, if_pos (by omega)] at hstep
      cases hstep
  | read size =>
    rw [ByteArray.transfer] at hstep
    by_cases hsize : size ≤ s.getReadSize
    · rcases Nat.eq_zero_or_pos size with rfl | hpos
      · unfold ByteArray.read at hstep
        rw [if_neg (by omega)] at hstep
        cases hderef : deref s.nodes s.cur with
        | error e =>
          rw [hderef] at hstep
          cases hstep
        | ok p =>
          rw [hderef] at hstep
          cases hstep
          exact ⟨hc, hcur⟩
      · rw [read_spec hc hcur hpos hsize] at hstep
        cases hstep
        have hle := hc.position_le
        exact ⟨hc.advance (by rw [ByteArray.getReadSize] at hsize; omega), .advance s size⟩
    · rw [ByteArray.read, if_pos (by omega)] at hstep
      cases hstep
  | receive length data =>
    obtain ⟨u, hu, hr⟩ := receive_spec hc hcur length data heap
    rw [ByteArray.transfer, hu] at hstep
    cases hstep
    exact ⟨hr.chain, hr.denotes⟩
  | send length room =>
    obtain ⟨u, hu, hs⟩ := send_spec hc hcur length room
    rw [ByteArray.transfer, hu] at hstep
    cases hstep
    exact ⟨hs.chain, hs.denotes⟩

theorem transfer_reach {base : Nat} (hbase : 0 < base) (h : (transferMachine base).Reachable s) :
    Chain s ∧ CurDenotes s := by
  refine h.invariant (P := fun s => Chain s ∧ CurDenotes s) ?_ ?_
  · rintro s ⟨heap, rfl⟩
    exact ⟨.new hbase heap, fun _ => by simp [ByteArray.new]⟩
  · intro s a t hs _ hstep
    simp only [transferMachine] at hstep
    split at hstep
    · next hok =>
      cases hstep
      exact transfer_keeps hs hok
    · cases hstep
      exact hs
    · cases hstep

/-- What several reads from the socket have put into the array. -/
def receivedBytes (calls : List (Nat × List UInt8 × (Nat → UInt8))) : List UInt8 :=
  calls.flatMap fun c => c.2.1.take c.1

theorem receivedBytes_cons (length : Nat) (data : List UInt8) (heap : Nat → UInt8)
    (calls : List (Nat × List UInt8 × (Nat → UInt8))) :
    receivedBytes ((length, data, heap) :: calls) = data.take length ++ receivedBytes calls := rfl

/-- The segments of both functions are those of the bytes at the cursor; reads from the socket
    store what they receive behind each other there and nothing else, and writes to it send the
    content from there on. -/
structure TransferCorrect (s : ByteArray) : Prop where
  writeBuffers : ∀ len heap, ∃ iovs t, s.getWriteBuffers len heap = .ok (iovs, t) ∧
    Segments s.baseSize t.nodes iovs s.position len ∧ (iovs.map Iovec.length).sum = len ∧
    (iovs.Pairwise fun v w => (v.offsets s.baseSize).Disjoint (w.offsets s.baseSize)) ∧
    t.content = s.content ∧ t.position = s.position
  readBuffers : ∀ len, ∃ iovs, s.getReadBuffers len = .ok (iovs, min len s.getReadSize) ∧
    Segments s.baseSize s.nodes iovs s.position (min len s.getReadSize) ∧
    gather s.nodes iovs = slice s.content s.position (min len s.getReadSize)
  receives : ∀ calls, ∃ t, s.receiveAll calls = .ok t ∧
    t.content = overwrite s.content s.position (receivedBytes calls) ∧
    t.position = s.position + (receivedBytes calls).length
  sends : ∀ calls, ∃ n t, s.sendAll calls = .ok (slice s.content s.position n, t) ∧
    t.content = s.content ∧ t.position = s.position + n ∧ t.position ≤ s.content.length
  sent : ∀ length room, ∃ t, s.send length room =
    .ok (slice s.content s.position (min room (min length s.getReadSize)), t)

theorem Chain.length_valid (h : Chain s) : s.content.length = s.size := by
  rw [ByteArray.content, List.length_take, h.length_flatten, Nat.min_eq_left h.size_le]

theorem receiveAll_spec (h : Chain s) (hcur : CurDenotes s)
    (calls : List (Nat × List UInt8 × (Nat → UInt8))) :
    ∃ t, s.receiveAll calls = .ok t ∧ Chain t ∧
      t.content = overwrite s.content s.position (receivedBytes calls) ∧
      t.position = s.position + (receivedBytes calls).length := by
  induction calls generalizing s with
  | nil => exact ⟨s, rfl, h, by simp [receivedBytes, overwrite_nil], rfl⟩
  | cons c calls ih =>
    obtain ⟨length, data, heap⟩ := c
    obtain ⟨u, hu, hr⟩ := receive_spec h hcur length data heap
    obtain ⟨t, ht, hchain, hcontent, hposition⟩ := ih hr.chain hr.denotes
    refine ⟨t, ?_, hchain, ?_, ?_⟩
    · rw [ByteArray.receiveAll, hu]
      exact ht
    · rw [hcontent, hr.content h, hr.position, overwrite_append, receivedBytes_cons]
      rw [h.length_valid]
      exact h.position_le
    · rw [hposition, hr.position, receivedBytes_cons, List.length_append]
      exact Nat.add_assoc ..

theorem sendAll_spec (h : Chain s) (hcur : CurDenotes s) (calls : List (Nat × Nat)) :
    ∃ n t, s.sendAll calls = .ok (slice s.content s.position n, t) ∧ Sent s n t := by
  induction calls generalizing s with
  | nil => exact ⟨0, s, by simp [ByteArray.sendAll, slice], h, hcur, rfl, rfl⟩
  | cons c calls ih =>
    obtain ⟨length, room⟩ := c
    obtain ⟨u, hu, hs⟩ := send_spec h hcur length room
    obtain ⟨n, t, ht, hrest⟩ := ih hs.chain hs.denotes
    generalize min room (min length s.getReadSize) = k at hu hs
    refine ⟨k + n, t, ?_, hrest.chain, hrest.denotes, ?_, hrest.content.trans hs.content⟩
    · rw [ByteArray.sendAll, hu]
      simp only [bind, Except.bind, pure, Except.pure, ht]
      rw [slice_add, hs.content, hs.position]
    · rw [hrest.position, hs.position, Nat.add_assoc]

theorem transfer_correct {base : Nat} (hbase : 0 < base)
    (h : (transferMachine base).Reachable s) : TransferCorrect s := by
  obtain ⟨hc, hcur⟩ := transfer_reach hbase h
  refine ⟨fun len heap => ?_, fun len => ?_, fun calls => ?_, fun calls => ?_,
    fun length room => ?_⟩
  · rcases Nat.eq_zero_or_pos len with rfl | hpos
    · exact ⟨[], s, rfl, ⟨by simp, rfl⟩, rfl, .nil, rfl, rfl⟩
    · obtain ⟨iovs, t, hrun, -, -, hsegments, -, -, hposition, hsize, fresh, hbytes⟩ :=
        getWriteBuffers_spec hc hcur hpos heap
      refine ⟨iovs, t, hrun, hsegments, hsegments.total, hsegments.disjoint, ?_, hposition⟩
      rw [ByteArray.content, ByteArray.content, hbytes, hsize, List.take_append_of_le_length]
      rw [hc.length_flatten]
      exact hc.size_le
  · obtain ⟨iovs, hrun, hsegments⟩ := getReadBuffers_spec hc hcur len
    refine ⟨iovs, hrun, hsegments, ?_⟩
    have hpos := hc.position_le
    rw [hsegments.gather_eq hc.block, ByteArray.content, slice_take]
    rw [ByteArray.getReadSize]
    omega
  · obtain ⟨t, ht, -, hrest⟩ := receiveAll_spec hc hcur calls
    exact ⟨t, ht, hrest⟩
  · obtain ⟨n, t, ht, hsent⟩ := sendAll_spec hc hcur calls
    refine ⟨n, t, ht, hsent.content, hsent.position, ?_⟩
    rw [← hsent.content, hsent.chain.length_valid]
    exact hsent.chain.position_le
  · obtain ⟨t, ht, -⟩ := send_spec hc hcur length room
    exact ⟨t, ht⟩

/-- Ten bytes arrive in two parts over blocks of four, and five of them are sent. -/
def relayed : List (TransferOp × (Nat → UInt8)) :=
  [(.receive 6 [1, 2, 3, 4], fun _ => 0), (.receive 8 [5, 6, 7, 8, 9, 10], fun _ => 0),
    (.setPosition 1, fun _ => 0), (.send 20 5, fun _ => 0)]

theorem transfer_correct_relayed :
    ∃ s, (transferMachine 4).run (.new 4 fun _ => 0) relayed = some s ∧ s.position = 6 ∧
      s.content = [1, 2, 3, 4, 5, 6, 7, 8, 9, 10] ∧ TransferCorrect s :=
  ⟨_, rfl, rfl, rfl, transfer_correct (show 0 < 4 by decide)
    (.of_run relayed ⟨fun _ => 0, rfl⟩ rfl)⟩

end CppServerFramework.Socket
