import CppServerFramework.Stream.FixSize
import CppServerFramework.Misc.Blocks

/-!
# Reading from a connected socket

`SocketStream::read` (`stream.cpp:73-78`) on a connected socket.  The bytes that are still to
come are given as the segments that successive reads find; a read that asks for less than a
segment leaves the rest of it.  Behind the last segment the peer closes the connection or stays
silent, and then a read does not return.
-/

namespace CppServerFramework
open CInt Blocks

structure PeerSocket where
  segs : List (List UInt8)
  closed : Bool
  deriving DecidableEq, Repr

namespace PeerSocket

def bytes (s : PeerSocket) : List UInt8 := s.segs.flatten

/-- The bytes a read of at most `n` bytes returns, none when the peer has closed.  A read
    returns an `int`, so no more than `2 ^ 31 - 1` bytes. -/
def read (s : PeerSocket) (n : Nat) : Option (List UInt8 × PeerSocket) :=
  match s.segs with
  | [] => if s.closed then some ([], s) else none
  | g :: gs =>
    let k := min (min n g.length) (2 ^ 31 - 1)
    some (g.take k, { s with segs := if k = g.length then gs else g.drop k :: gs })

/-- The segments are not empty. -/
def Proper (s : PeerSocket) : Prop := ∀ g ∈ s.segs, g ≠ []

def dropSegs : Nat → List (List UInt8) → List (List UInt8)
  | _, [] => []
  | n, g :: gs => if g.length ≤ n then dropSegs (n - g.length) gs else g.drop n :: gs

/-- The connection behind the next `n` bytes. -/
def skip (s : PeerSocket) (n : Nat) : PeerSocket := { s with segs := dropSegs n s.segs }

variable {s t : PeerSocket} {n : Nat} {bs : List UInt8}

theorem read_bytes (h : s.read n = some (bs, t)) : s.bytes = bs ++ t.bytes := by
  simp only [read] at h
  split at h
  · rename_i hs
    split at h
    · cases h
      rfl
    · cases h
  · rename_i g gs hs
    cases h
    rw [bytes, hs, List.flatten_cons, bytes]
    split
    · rename_i hk
      rw [hk, List.take_length]
    · rw [List.flatten_cons, ← List.append_assoc, List.take_append_drop]

theorem length_read (h : s.read n = some (bs, t)) : bs.length ≤ n ∧ bs.length < 2 ^ 31 := by
  simp only [read] at h
  split at h
  · split at h <;> cases h
    simp
  · cases h
    rw [List.length_take]
    omega

theorem proper_read (hs : s.Proper) (h : s.read n = some (bs, t)) : t.Proper := by
  simp only [read] at h
  split at h
  · split at h <;> cases h
    exact hs
  · rename_i g gs hsegs
    cases h
    rw [Proper, hsegs] at hs
    intro d hd
    simp only at hd
    split at hd
    · exact hs d (List.mem_cons_of_mem _ hd)
    · rename_i hk
      rcases List.mem_cons.mp hd with rfl | hd
      · rw [Ne, List.drop_eq_nil_iff]
        omega
      · exact hs d (List.mem_cons_of_mem _ hd)

/-- A read makes progress while bytes are to come. -/
theorem read_of_bytes (hs : s.Proper) (hb : s.bytes ≠ []) (hn : 0 < n) :
    ∃ bs t, s.read n = some (bs, t) ∧ bs ≠ [] := by
  rw [read]
  split
  · rename_i hsegs
    rw [bytes, hsegs] at hb
    exact absurd rfl hb
  · rename_i g gs hsegs
    refine ⟨_, _, rfl, ?_⟩
    have hg := List.length_pos_iff.mpr (hs g (by rw [hsegs]; exact List.mem_cons_self))
    rw [← List.length_pos_iff, List.length_take]
    omega

theorem read_of_nil (hs : s.Proper) (hb : s.bytes = []) :
    s.read n = if s.closed then some ([], s) else none := by
  rw [read]
  split
  · rfl
  · rename_i g gs hsegs
    rw [bytes, hsegs, List.flatten_cons, List.append_eq_nil_iff] at hb
    exact absurd hb.1 (hs g (by rw [hsegs]; exact List.mem_cons_self))

/-! ### Behind a number of bytes -/

theorem dropSegs_zero {gs : List (List UInt8)} (h : ∀ g ∈ gs, g ≠ []) : dropSegs 0 gs = gs := by
  cases gs with
  | nil => rfl
  | cons g gs =>
    have hg := List.length_pos_iff.mpr (h g (by simp))
    rw [dropSegs, if_neg (by omega), List.drop_zero]

theorem dropSegs_add {gs : List (List UInt8)} (m n : Nat) (h : ∀ g ∈ gs, g ≠ []) :
    dropSegs n (dropSegs m gs) = dropSegs (m + n) gs := by
  induction gs generalizing m with
  | nil => rfl
  | cons g gs ih =>
    rw [dropSegs]
    split
    · rename_i hle
      rw [ih _ fun d hd => h d (List.mem_cons_of_mem _ hd)]
      conv_rhs => rw [dropSegs, if_pos (by omega)]
      rw [Nat.sub_add_comm hle]
    · rename_i hlt
      rw [dropSegs, dropSegs, List.length_drop]
      by_cases hn : g.length ≤ m + n
      · rw [if_pos (by omega), if_pos hn]
        congr 1
        omega
      · rw [if_neg (by omega), if_neg hn, List.drop_drop]

theorem flatten_dropSegs (n : Nat) (gs : List (List UInt8)) :
    (dropSegs n gs).flatten = gs.flatten.drop n := by
  induction gs generalizing n with
  | nil => simp [dropSegs]
  | cons g gs ih =>
    rw [dropSegs]
    split
    · rename_i hle
      rw [ih, List.flatten_cons, List.drop_append, List.drop_of_length_le hle, List.nil_append]
    · rename_i hlt
      rw [List.flatten_cons, List.flatten_cons, List.drop_append_of_le_length (by omega)]

@[simp] theorem bytes_skip (s : PeerSocket) (n : Nat) : (s.skip n).bytes = s.bytes.drop n :=
  flatten_dropSegs n s.segs

theorem mem_dropSegs {g : List UInt8} {gs : List (List UInt8)} {n : Nat}
    (h : ∀ g ∈ gs, g ≠ []) (hg : g ∈ dropSegs n gs) : g ≠ [] := by
  induction gs generalizing n with
  | nil => cases hg
  | cons d gs ih =>
    rw [dropSegs] at hg
    split at hg
    · exact ih (fun e he => h e (List.mem_cons_of_mem _ he)) hg
    · rename_i hlt
      rcases List.mem_cons.mp hg with rfl | hg
      · rw [Ne, List.drop_eq_nil_iff]
        exact hlt
      · exact h g (List.mem_cons_of_mem _ hg)

theorem proper_skip (hs : s.Proper) (n : Nat) : (s.skip n).Proper :=
  fun _ hg => mem_dropSegs hs hg

theorem skip_zero (hs : s.Proper) : s.skip 0 = s := by
  rw [skip, dropSegs_zero hs]

theorem skip_skip (hs : s.Proper) (m n : Nat) : (s.skip m).skip n = s.skip (m + n) := by
  rw [skip, skip, skip, dropSegs_add m n hs]

/-- A read leaves what stands behind the bytes it returns. -/
theorem skip_of_read (hs : s.Proper) (h : s.read n = some (bs, t)) : t = s.skip bs.length := by
  simp only [read] at h
  split at h
  · rename_i hsegs
    split at h <;> cases h
    rw [List.length_nil, skip_zero hs]
  · rename_i g gs hsegs
    cases h
    rw [Proper, hsegs] at hs
    rw [skip, hsegs, List.length_take, dropSegs]
    congr 1
    split
    · rename_i hk
      rw [if_pos (by omega), hk, Nat.min_self, Nat.sub_self,
        dropSegs_zero fun d hd => hs d (List.mem_cons_of_mem _ hd)]
    · rename_i hk
      rw [if_neg (by omega)]
      congr 2
      omega

end PeerSocket

/-- A read into a buffer in the loop of `readFixSize`; a read that does not return is recorded,
    and ends the loop. -/
structure BufferRead where
  sock : PeerSocket
  buf : List UInt8
  blocked : Bool := false

def bufferRead : Primitive BufferRead where
  call s offset count :=
    match s.sock.read count with
    | some (bs, sock) => (bs.length, { s with sock := sock, buf := overwrite s.buf offset bs })
    | none => (0, { s with blocked := true })
  neg_one_le s offset count := by
    split
    · exact Int.le_trans (by decide) (Int.natCast_nonneg _)
    · exact show (-1 : Int) ≤ 0 by decide
  le_count s offset count := by
    split
    · rename_i h
      exact Int.ofNat_le.mpr (PeerSocket.length_read h).1
    · exact Int.natCast_nonneg _
  lt_int s offset count := by
    split
    · rename_i h
      exact Int.ofNat_lt.mpr (PeerSocket.length_read h).2
    · exact show (0 : Int) < 2 ^ 31 by decide

variable {s : BufferRead} {left offset fuel : Nat}

/-- A turn of the loop whose read brings something. -/
theorem fixSizeLoop_turn (length fuel : Nat) {bs : List UInt8} {sock : PeerSocket}
    (hread : s.sock.read left = some (bs, sock)) (hne : bs ≠ []) (hsize : offset + left < 2 ^ 63) :
    fixSizeLoop bufferRead length (fuel + 1) offset left s =
      (fixSizeLoop bufferRead length fuel (offset + bs.length) (left - bs.length)
        { s with sock := sock, buf := overwrite s.buf offset bs }).map
          fun (trace, result, t) => (⟨offset, left, bs.length⟩ :: trace, result, t) := by
  obtain ⟨hle, hlt⟩ := PeerSocket.length_read hread
  have hpos := List.length_pos_iff.mpr hne
  have hcall : bufferRead.call s offset left =
      ((bs.length : Int), { s with sock := sock, buf := overwrite s.buf offset bs }) := by
    simp only [bufferRead, hread]
  have hsz : sizeOfInt (bs.length : Int) = bs.length :=
    sizeOfInt_natCast (by unfold sizeMod; omega)
  have hadd : addSize offset bs.length = offset + bs.length :=
    addSize_of_lt (by unfold sizeMod; omega)
  have hsub : subSize left bs.length = left - bs.length :=
    subSize_of_le hle (by unfold sizeMod; omega)
  rw [fixSizeLoop, if_neg (by omega)]
  simp only [hcall, hsz, hadd, hsub]
  rw [if_neg (by omega)]

/-- The loop reads everything it is asked for when that much is to come. -/
theorem fixSizeLoop_bufferRead (length left offset : Nat) (hs : s.sock.Proper)
    (hleft : left ≤ s.sock.bytes.length) (hbuf : offset + left ≤ s.buf.length)
    (hsize : s.buf.length < 2 ^ 63) (hfuel : left < fuel) :
    ∃ trace t, fixSizeLoop bufferRead length fuel offset left s =
        some (trace, intOfSize length, t) ∧
      t.blocked = s.blocked ∧ t.sock = s.sock.skip left ∧
      t.buf = overwrite s.buf offset (s.sock.bytes.take left) := by
  induction fuel generalizing left offset s with
  | zero => omega
  | succ fuel ih =>
    by_cases h0 : left = 0
    · subst h0
      refine ⟨[], s, rfl, rfl, (PeerSocket.skip_zero hs).symm, ?_⟩
      simp [overwrite]
    · obtain ⟨bs, sock, hread, hne⟩ := PeerSocket.read_of_bytes (n := left) hs
        (List.length_pos_iff.mp (by omega)) (by omega)
      obtain ⟨hle, hlt⟩ := PeerSocket.length_read hread
      have hpos := List.length_pos_iff.mpr hne
      have hsplit := PeerSocket.read_bytes hread
      have hlen : (overwrite s.buf offset bs).length = s.buf.length :=
        length_overwrite (by omega)
      rw [hsplit, List.length_append] at hleft
      obtain ⟨trace, t, hrun, hblocked, htsock, htbuf⟩ := ih (left - bs.length)
        (offset + bs.length) (s := { s with sock := sock, buf := overwrite s.buf offset bs })
        (PeerSocket.proper_read hs hread) (by simp only; omega) (by simp only; omega)
        (by simp only; omega) (by omega)
      rw [fixSizeLoop_turn length fuel hread hne (by omega), hrun]
      refine ⟨_, t, rfl, hblocked, ?_, ?_⟩
      · rw [htsock, PeerSocket.skip_of_read hs hread, PeerSocket.skip_skip hs]
        congr 1
        omega
      · rw [htbuf, overwrite_append (by omega), hsplit,
          List.take_append, List.take_of_length_le hle]

theorem fixSizeLoop_bufferRead_eq {length : Nat} (hs : s.sock.Proper)
    (hleft : left ≤ s.sock.bytes.length) (hbuf : offset + left ≤ s.buf.length)
    (hsize : s.buf.length < 2 ^ 63) {trace : List Call} {r : Int} {t : BufferRead}
    (h : fixSizeLoop bufferRead length fuel offset left s = some (trace, r, t)) :
    r = intOfSize length ∧ t.blocked = s.blocked ∧ t.sock = s.sock.skip left ∧
      t.buf = overwrite s.buf offset (s.sock.bytes.take left) := by
  obtain ⟨trace', t', hrun, hspec⟩ := fixSizeLoop_bufferRead length left offset hs
    hleft hbuf hsize (Nat.lt_of_lt_of_le (Nat.lt_succ_self left) (Nat.le_add_left (left + 1) fuel))
  rw [fixSizeLoop_add_fuel h (left + 1)] at hrun
  cases hrun
  exact ⟨rfl, hspec⟩

/-- The loop answers `0`, or a read does not return, when less is to come. -/
theorem fixSizeLoop_short {length : Nat} (hs : s.sock.Proper) (hleft : s.sock.bytes.length < left)
    (hsize : offset + left < 2 ^ 63) {trace : List Call} {r : Int} {t : BufferRead}
    (h : fixSizeLoop bufferRead length fuel offset left s = some (trace, r, t)) : r = 0 := by
  induction fuel generalizing left offset s trace with
  | zero => cases h
  | succ fuel ih =>
    by_cases hb : s.sock.bytes = []
    · rw [fixSizeLoop, if_neg (by omega)] at h
      have hread := PeerSocket.read_of_nil (n := left) hs hb
      have hcall : (bufferRead.call s offset left).1 = 0 := by
        simp only [bufferRead, hread]
        split <;> rename_i heq
        · split at heq <;> cases heq
          rfl
        · rfl
      simp only [hcall, sizeOfInt_zero, Nat.le_refl, if_true, Option.some.injEq, Prod.mk.injEq] at h
      exact h.2.1.symm
    · obtain ⟨bs, sock, hread, hne⟩ := PeerSocket.read_of_bytes (n := left) hs hb (by omega)
      have hle := (PeerSocket.length_read hread).1
      have hsplit := PeerSocket.read_bytes hread
      rw [fixSizeLoop_turn length fuel hread hne hsize] at h
      obtain ⟨⟨trace', r', t'⟩, hrun, heq⟩ := Option.map_eq_some_iff.mp h
      simp only [Prod.mk.injEq] at heq
      obtain ⟨-, rfl, rfl⟩ := heq
      rw [hsplit, List.length_append] at hleft
      exact ih (PeerSocket.proper_read hs hread) (by simp only; omega) (by omega) hrun

end CppServerFramework
