import CppServerFramework.Stream.SocketStream
import Mathlib.Data.List.SplitLengths

/-!
# Segments by their lengths

How a text is cut into segments, whatever it says.
-/

namespace CppServerFramework

/-- What a read of at most `n` bytes takes of segments of these lengths, and what it leaves. -/
def takeRead (n : Nat) : List Nat → Option (Nat × List Nat)
  | [] => none
  | g :: gs =>
    let k := min (min n g) (2 ^ 31 - 1)
    some (k, if k = g then gs else (g - k) :: gs)

theorem takeRead_pos {n k : Nat} {gs gs' : List Nat} (hgs : ∀ g ∈ gs, 0 < g) (hn : 0 < n)
    (h : takeRead n gs = some (k, gs')) : 0 < k ∧ k ≤ n ∧ ∀ g ∈ gs', 0 < g := by
  cases gs with
  | nil => cases h
  | cons g gs =>
    rw [List.forall_mem_cons] at hgs
    cases h
    refine ⟨by omega, by omega, ?_⟩
    split
    · exact hgs.2
    · rw [List.forall_mem_cons]
      exact ⟨by omega, hgs.2⟩

namespace PeerSocket

def lengths (s : PeerSocket) : List Nat := s.segs.map List.length

/-- A text that comes in segments of these lengths, and behind it nothing. -/
def sent (lengths : List Nat) (bs : List UInt8) : PeerSocket := ⟨lengths.splitLengths bs, false⟩

variable {s t : PeerSocket} {n : Nat} {bs : List UInt8} {gs : List Nat}

theorem bytes_sent (h : bs.length = gs.sum) : (sent gs bs).bytes = bs :=
  List.flatten_splitLengths bs gs h.le

theorem lengths_sent (h : bs.length = gs.sum) : (sent gs bs).lengths = gs :=
  List.map_splitLengths_length bs gs h.ge

theorem proper_of_lengths (h : ∀ g ∈ s.lengths, 0 < g) : s.Proper := by
  intro g hg
  exact List.length_pos_iff.mp (h _ (List.mem_map_of_mem hg))

theorem lengths_pos (h : s.Proper) : ∀ g ∈ s.lengths, 0 < g := by
  intro g hg
  obtain ⟨d, hd, rfl⟩ := List.mem_map.mp hg
  exact List.length_pos_iff.mpr (h d hd)

theorem read_silent (hopen : s.closed = false) (h : s.bytes = []) (hs : s.Proper) :
    s.read n = none := by
  rw [read_of_nil hs h, hopen]
  rfl

/-- How much a read returns depends on the lengths only. -/
theorem takeRead_lengths (hopen : s.closed = false) (h : s.read n = some (bs, t)) :
    takeRead n s.lengths = some (bs.length, t.lengths) ∧ t.closed = false := by
  simp only [read] at h
  split at h
  · rw [hopen] at h
    cases h
  · rename_i g gs hsegs
    cases h
    have hk : (g.take (min (min n g.length) (2 ^ 31 - 1))).length =
        min (min n g.length) (2 ^ 31 - 1) :=
      List.length_take_of_le (by omega)
    rw [lengths, hsegs, List.map_cons, takeRead, hk, lengths]
    refine ⟨?_, hopen⟩
    dsimp only
    split
    · rfl
    · rw [List.map_cons, List.length_drop]

end PeerSocket

end CppServerFramework
