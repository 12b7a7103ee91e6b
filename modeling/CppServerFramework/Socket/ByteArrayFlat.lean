import CppServerFramework.Misc.Machine
import CppServerFramework.Socket.ByteArrayChain

/-!
# `ByteArray` against a flat byte sequence

`Flat` is what a `ByteArray` is for: a byte sequence with one cursor.  An operation on the
chain is correct in a state when `m_cur` denotes the cursor there, if the operation uses it,
and the chain does what the flat sequence does.

`write` leaves `m_cur` behind when it ends exactly at the end of a block that is not the last
one (`Tracked.edge`), and `read` of no bytes dereferences the null `m_cur` at the end of the
chain.  `step_correct_iff` says that nothing else goes wrong.
-/

namespace CppServerFramework.Socket
open Blocks

/-- A byte sequence with a cursor. -/
structure Flat where
  content : List UInt8
  cursor : Nat
  cursor_le : cursor ≤ content.length

inductive Op where
  | write (buf : List UInt8)
  | read (size : Nat)
  | setPosition (v : Nat)
  | clear
  | getWriteBuffers (len : Nat)
  | toString
  deriving DecidableEq, Repr

/-- What a caller sees of an operation; write buffers are given by the offsets they cover. -/
inductive Output where
  | done
  | bytes (bs : List UInt8)
  | offsets (is : List Nat)
  | outOfRange
  deriving DecidableEq, Repr

/-- The operations on a flat sequence.  Moving the cursor behind the end extends the content
    by bytes that are not specified. -/
inductive Flat.Step : Flat → Op → Output → Flat → Prop
  | write {f g : Flat} {buf : List UInt8} :
      g.content = overwrite f.content f.cursor buf → g.cursor = f.cursor + buf.length →
      Step f (.write buf) .done g
  | read {f g : Flat} {n : Nat} : f.cursor + n ≤ f.content.length →
      g.content = f.content → g.cursor = f.cursor + n →
      Step f (.read n) (.bytes (slice f.content f.cursor n)) g
  | readBeyond {f : Flat} {n : Nat} : f.content.length < f.cursor + n →
      Step f (.read n) .outOfRange f
  | setPosition {f g : Flat} {v : Nat} (pad : List UInt8) :
      g.content = f.content ++ pad → g.content.length = max f.content.length v →
      g.cursor = v → Step f (.setPosition v) .done g
  | clear {f g : Flat} : g.content = [] → g.cursor = 0 → Step f .clear .done g
  | getWriteBuffers {f : Flat} {len : Nat} :
      Step f (.getWriteBuffers len) (.offsets (List.range' f.cursor len)) f
  | toString {f : Flat} : Step f .toString (.bytes (f.content.drop f.cursor)) f

/-- The flat sequence a chain stands for. -/
def Represents (s : ByteArray) (f : Flat) : Prop :=
  f.content = s.nodes.flatten.take s.size ∧ f.cursor = s.position

/-- `std::out_of_range` reaches the caller before the state has changed. -/
def caught (s : ByteArray) : Except Error (Output × ByteArray) → Except Error (Output × ByteArray)
  | .error .outOfRange => .ok (.outOfRange, s)
  | r => r

/-- One operation, with the bytes found in the memory it allocates. -/
def ByteArray.step (s : ByteArray) (heap : Nat → UInt8) : Op → Except Error (Output × ByteArray)
  | .write buf => (s.write buf heap).map fun t => (.done, t)
  | .read n => caught s ((s.read n).map fun (bs, t) => (.bytes bs, t))
  | .setPosition v => caught s ((s.setPosition v).map fun t => (.done, t))
  | .clear => .ok (.done, s.clear)
  | .getWriteBuffers len => (s.getWriteBuffers len heap).map fun (iovs, t) =>
      (.offsets (iovs.flatMap (Iovec.offsets s.baseSize)), t)
  | .toString => caught s (s.toString.map fun bs => (.bytes bs, s))

/-- The positions a caller may set. -/
def Op.valid (s : ByteArray) : Op → Bool
  | .setPosition v => v ≤ s.capacity
  | _ => true

/-- The operation reads or writes at `m_cur`. -/
def Op.usesCur (s : ByteArray) : Op → Bool
  | .write buf => buf ≠ []
  | .read n => 0 < n ∧ n ≤ s.getReadSize
  | .setPosition _ | .clear => false
  | .getWriteBuffers len => 0 < len
  | .toString => s.getReadSize ≠ 0

/-- The operation does on the chain what it does on the flat sequence. -/
def Simulated (s : ByteArray) (heap : Nat → UInt8) (op : Op) : Prop :=
  ∃ f out t g, Represents s f ∧ s.step heap op = .ok (out, t) ∧ Flat.Step f op out g ∧
    Represents t g

/-- An operation finds `m_cur` where it should be and refines the flat one. -/
def StepCorrect (s : ByteArray) (heap : Nat → UInt8) (op : Op) : Prop :=
  (op.usesCur s = true → CurDenotes s) ∧ Simulated s heap op

/-! ## Runs -/

/-- A `ByteArray` in a run, with what the run has done to the cursor: `edge` holds from a
    `write` that ended at the end of a block, spare capacity behind it, until `setPosition` or
    `clear`. -/
structure Tracked where
  array : ByteArray
  edge : Bool
  deriving DecidableEq, Repr

def edgeAfter (edge : Bool) (t : ByteArray) : Op → Bool
  | .write (_ :: _) => t.position % t.baseSize = 0 ∧ t.position < t.capacity
  | .setPosition _ | .clear => false
  | _ => edge

/-- A fresh `ByteArray` driven by operations. -/
def arrayMachine (base : Nat) : Machine Tracked (Op × (Nat → UInt8)) where
  init s := ∃ heap, s = ⟨ByteArray.new base heap, false⟩
  step s a :=
    if a.1.valid s.array then
      match s.array.step a.2 a.1 with
      | .ok (_, t) => some ⟨t, edgeAfter s.edge t a.1⟩
      | .error _ => none
    else none

/-- The condition on a step: an operation that uses `m_cur` does not follow a write that ended
    at an inner block boundary, and no bytes are read only while `m_cur` is not null. -/
structure Guard (s : Tracked) (op : Op) : Prop where
  moved : op.usesCur s.array = true → s.edge = false
  live : op = .read 0 → s.array.cur ≠ none

/-- What guarded runs keep. -/
structure Tracked.Inv (s : Tracked) : Prop where
  chain : Chain s.array
  denotes : s.edge = false → CurDenotes s.array
  stale : s.edge = true → ¬ CurDenotes s.array

/-! ## The flat sequence of a chain -/

def Chain.flat {s : ByteArray} (h : Chain s) : Flat where
  content := s.nodes.flatten.take s.size
  cursor := s.position
  cursor_le := by
    rw [List.length_take, h.length_flatten, Nat.min_eq_left h.size_le]
    exact h.position_le

theorem Chain.represents {s : ByteArray} (h : Chain s) : Represents s h.flat := ⟨rfl, rfl⟩

theorem Chain.length_content {s : ByteArray} (h : Chain s) : h.flat.content.length = s.size := by
  rw [Chain.flat, List.length_take, h.length_flatten, Nat.min_eq_left h.size_le]

/-! ## One operation -/

/-- `write` refines the flat write and leaves `m_cur` denoting the cursor unless it ended at
    an inner block boundary. -/
theorem Wrote.inv {s t : ByteArray} {b : UInt8} {bs : List UInt8}
    (hw : Wrote s (b :: bs) t) (edge : Bool) :
    Tracked.Inv ⟨t, edgeAfter edge t (.write (b :: bs))⟩ := by
  have hbase : 0 < t.baseSize := hw.chain.base_pos
  have hpos : t.position = s.position + (bs.length + 1) := hw.position
  have hdm := Nat.div_add_mod' t.position t.baseSize
  have hcur : t.cur = some ((t.position - 1) / t.baseSize) := by
    rw [hw.cur, hw.baseSize, hpos, List.length_cons]
  refine ⟨hw.chain, ?_, ?_⟩
  · intro hedge hlt
    simp only [edgeAfter, decide_eq_false_iff_not, not_and] at hedge
    have hmod : 0 < t.position % t.baseSize := Nat.pos_of_ne_zero fun h0 => hedge h0 hlt
    -- the last byte written is in the block of the cursor
    rw [hcur, show t.position - 1 = t.position / t.baseSize * t.baseSize +
      (t.position % t.baseSize - 1) by omega,
      block_div (by have := Nat.mod_lt t.position hbase; omega)]
  · intro hedge hdenotes
    simp only [edgeAfter, decide_eq_true_eq] at hedge
    have heq : t.cur = some (t.position / t.baseSize) := hdenotes hedge.2
    rw [hcur, Option.some.injEq] at heq
    have hlast := Nat.div_add_mod' (t.position - 1) t.baseSize
    have hmod := Nat.mod_lt (t.position - 1) hbase
    rw [heq] at hlast
    omega

theorem Wrote.simulated {s t : ByteArray} {buf : List UInt8} (h : Chain s) (hw : Wrote s buf t) :
    Flat.Step h.flat (.write buf) .done hw.chain.flat := by
  refine .write ?_ hw.position
  obtain ⟨fresh, hbytes⟩ := hw.bytes
  change t.nodes.flatten.take t.size = overwrite (s.nodes.flatten.take s.size) s.position buf
  rw [hbytes, hw.size]
  exact take_overwrite_append h.position_le (by rw [h.length_flatten]; exact h.size_le)

/-- A valid operation that meets the guard is correct, and the invariant holds behind it. -/
theorem step_of_guard {s : Tracked} (h : s.Inv) {op : Op} (hg : Guard s op)
    (hv : op.valid s.array = true) (heap : Nat → UInt8) :
    StepCorrect s.array heap op ∧
    ∀ out t, s.array.step heap op = .ok (out, t) → Tracked.Inv ⟨t, edgeAfter s.edge t op⟩ := by
  obtain ⟨s, edge⟩ := s
  have hc : Chain s := h.chain
  have hdenotes : op.usesCur s = true → CurDenotes s := fun hu => h.denotes (hg.moved hu)
  have hle := hc.position_le
  -- each case names the outcome of the operation; both parts are read off it
  suffices hkey : ∃ out t, ∃ ht : Chain t, s.step heap op = .ok (out, t) ∧
      Flat.Step hc.flat op out ht.flat ∧ Tracked.Inv ⟨t, edgeAfter edge t op⟩ by
    obtain ⟨out, t, ht, hrun, hflat, hinv⟩ := hkey
    refine ⟨⟨hdenotes, hc.flat, out, t, ht.flat, hc.represents, hrun, hflat, ht.represents⟩, ?_⟩
    intro out' t' hrun'
    rw [hrun] at hrun'
    cases hrun'
    exact hinv
  cases op with
  | write buf =>
    cases buf with
    | nil =>
      refine ⟨.done, s, hc, rfl, .write ?_ rfl, h⟩
      rw [overwrite_nil]
    | cons b bs =>
      obtain ⟨t, hrun, hw⟩ :=
        write_spec hc (hdenotes (by simp [Op.usesCur])) (List.cons_ne_nil b bs) heap
      exact ⟨.done, t, hw.chain, by rw [ByteArray.step, hrun]; rfl, hw.simulated hc, hw.inv edge⟩
  | read n =>
    by_cases hn : n ≤ s.getReadSize
    · have hroom : s.position + n ≤ s.size := by
        unfold ByteArray.getReadSize at hn
        omega
      rcases Nat.eq_zero_or_pos n with rfl | hpos
      · obtain ⟨k, hk⟩ := Option.ne_none_iff_exists'.mp (hg.live rfl)
        refine ⟨.bytes [], s, hc, ?_, .read (n := 0) ?_ rfl rfl, h⟩
        · simp only [ByteArray.step, ByteArray.read]
          rw [if_neg (by omega), hk, deref_some (hc.cur_valid k hk)]
          simp only [bind, Except.bind, ByteArray.readLoop, pure, Except.pure, Except.map, caught,
            Nat.add_zero]
          rw [← hk]
        · exact hc.flat.cursor_le
      · have hd := hdenotes (by simp [Op.usesCur, hpos, hn])
        have hedge : edge = false := hg.moved (by simp [Op.usesCur, hpos, hn])
        refine ⟨_, _, hc.advance hroom, ?_, .read (n := n) ?_ rfl rfl, hc.advance hroom, ?_, ?_⟩
        · simp only [ByteArray.step]
          rw [read_spec hc hd hpos hn]
          simp only [Except.map, caught]
          rw [show slice hc.flat.content hc.flat.cursor n = slice s.nodes.flatten s.position n from
            slice_take hroom]
        · rw [hc.length_content]
          exact hroom
        · exact fun _ => .advance s n
        · intro htrue
          simp only [edgeAfter, hedge] at htrue
          cases htrue
    · refine ⟨.outOfRange, s, hc, ?_, .readBeyond ?_, h⟩
      · simp only [ByteArray.step, ByteArray.read]
        rw [if_pos (by omega)]
        rfl
      · rw [hc.length_content]
        change s.size < s.position + n
        unfold ByteArray.getReadSize at hn
        omega
  | setPosition v =>
    have hv' : v ≤ s.capacity := by simpa [Op.valid] using hv
    refine ⟨.done, _, hc.setPosition hv', ?_, .setPosition
      ((s.nodes.flatten.drop s.size).take (max s.size v - s.size)) ?_ ?_ rfl,
      hc.setPosition hv', ?_, ?_⟩
    · simp only [ByteArray.step]
      rw [setPosition_spec hc hv']
      rfl
    · change s.nodes.flatten.take (max s.size v) = s.nodes.flatten.take s.size ++ _
      rw [← List.take_add, Nat.add_sub_cancel' (Nat.le_max_left _ _)]
    · rw [Chain.length_content, Chain.length_content]
    · exact fun _ hlt => if_pos hlt
    · intro htrue
      cases htrue
  | clear =>
    refine ⟨.done, s.clear, hc.clear, rfl, .clear ?_ rfl, hc.clear, ?_, ?_⟩
    · change (s.nodes.take 1).flatten.take 0 = []
      rw [List.take_zero]
    · intro _ _
      simp [ByteArray.clear]
    · intro htrue
      cases htrue
  | getWriteBuffers len =>
    rcases Nat.eq_zero_or_pos len with rfl | hpos
    · exact ⟨.offsets [], s, hc, rfl, .getWriteBuffers, h⟩
    · have hedge : edge = false := hg.moved (by simp [Op.usesCur, hpos])
      obtain ⟨iovs, t, hrun, ht, hcur, hsegments, -, hbase, hposition, hsize, fresh, hbytes⟩ :=
        getWriteBuffers_spec hc (hdenotes (by simp [Op.usesCur, hpos])) hpos heap
      have hflat : ht.flat = hc.flat := by
        simp only [Chain.flat, Flat.mk.injEq]
        refine ⟨?_, hposition⟩
        have hle : s.size ≤ s.nodes.flatten.length := by
          rw [hc.length_flatten]
          exact hc.size_le
        rw [hbytes, hsize, List.take_append_of_le_length hle]
      refine ⟨.offsets (List.range' s.position len), t, ht, ?_, ?_, ht, fun _ => hcur, ?_⟩
      · rw [ByteArray.step, hrun, ← hsegments.cover]
        rfl
      · rw [hflat]
        exact .getWriteBuffers
      · intro htrue
        simp only [edgeAfter, hedge] at htrue
        cases htrue
  | toString =>
    refine ⟨.bytes (hc.flat.content.drop hc.flat.cursor), s, hc, ?_, .toString, h⟩
    rw [ByteArray.step, toString_spec hc fun h0 => hdenotes (by simp [Op.usesCur, h0])]
    simp only [Except.map, caught]
    rw [slice, ByteArray.getReadSize, ← List.drop_take]
    rfl

/-- An operation that does not meet the guard is not correct. -/
theorem guard_of_stepCorrect {s : Tracked} (h : s.Inv) {op : Op} {heap : Nat → UInt8}
    (hok : StepCorrect s.array heap op) : Guard s op := by
  refine ⟨fun hu => ?_, ?_⟩
  · cases hedge : s.edge with
    | false => rfl
    | true => exact absurd (hok.1 hu) (h.stale hedge)
  · rintro rfl hnull
    obtain ⟨f, out, t, g, -, hrun, -⟩ := hok.2
    simp only [ByteArray.step, ByteArray.read] at hrun
    rw [if_neg (by omega), hnull] at hrun
    cases hrun

/-! ## Guarded runs -/

theorem Tracked.inv_of_reach {base : Nat} (hbase : 0 < base) {s : Tracked}
    (h : (arrayMachine base).Reach (fun s a => Guard s a.1) s) : s.Inv := by
  refine h.invariant ?_ ?_
  · rintro s ⟨heap, rfl⟩
    refine ⟨Chain.new hbase heap, fun _ _ => ?_, fun htrue => by cases htrue⟩
    simp [ByteArray.new]
  · rintro s ⟨op, heap⟩ t hinv hg hstep
    simp only [arrayMachine] at hstep
    split at hstep
    · rename_i hv
      cases hrun : s.array.step heap op with
      | error e => simp [hrun] at hstep
      | ok r =>
        simp only [hrun, Option.some.injEq] at hstep
        subst hstep
        exact (step_of_guard hinv hg hv heap).2 r.1 r.2 hrun
    · cases hstep

/-- In every state of a guarded run the valid operations that are correct are those that meet
    the guard. -/
theorem step_correct_iff {base : Nat} (hbase : 0 < base) {s : Tracked}
    (h : (arrayMachine base).Reach (fun s a => Guard s a.1) s) (op : Op) (heap : Nat → UInt8)
    (hv : op.valid s.array = true) : StepCorrect s.array heap op ↔ Guard s op :=
  ⟨guard_of_stepCorrect (Tracked.inv_of_reach hbase h),
    fun hg => (step_of_guard (Tracked.inv_of_reach hbase h) hg hv heap).1⟩

/-- Five bytes in blocks of four, the cursor moved back to the start. -/
def rewound : Tracked :=
  ((arrayMachine 4).run ⟨.new 4 fun _ => 0, false⟩
    [(.write [1, 2, 3, 4, 5], fun _ => 0), (.setPosition 0, fun _ => 0)]).getD
    ⟨.new 4 fun _ => 0, false⟩

theorem read_correct_rewound : StepCorrect rewound.array (fun _ => 0) (.read 5) := by
  have hreach : (arrayMachine 4).Reach (fun s a => Guard s a.1) rewound :=
    .of_run [(.write [1, 2, 3, 4, 5], fun _ => 0), (.setPosition 0, fun _ => 0)]
      (.init ⟨fun _ => 0, rfl⟩)
      ⟨⟨fun _ => rfl, by simp⟩,
        fun _ _ => ⟨⟨by simp [Op.usesCur], by simp⟩, fun _ _ => trivial⟩⟩ rfl
  exact (step_correct_iff (by decide) hreach (.read 5) _ rfl).mpr ⟨fun _ => rfl, by simp⟩

/-- Two blocks of zeros, the first of them overwritten exactly: the next write lands in the
    first block again. -/
def overwritten : Tracked :=
  ⟨⟨4, 4, 8, 8, .big, [[9, 9, 9, 9], [0, 0, 0, 0]], some 0⟩, true⟩

theorem overwritten_reachable : (arrayMachine 4).Reachable overwritten :=
  .of_run [(.write [0, 0, 0, 0, 0, 0, 0, 0], fun _ => 0), (.setPosition 0, fun _ => 0),
    (.write [9, 9, 9, 9], fun _ => 0)] (s := ⟨.new 4 fun _ => 0, false⟩) ⟨_, rfl⟩ (by decide)

theorem write_after_block_boundary :
    ¬ ∀ base, 0 < base → ∀ s, (arrayMachine base).Reachable s → ∀ op heap,
      op.valid s.array = true → StepCorrect s.array heap op := by
  intro h
  obtain ⟨f, out, t, g, hf, hrun, hflat, hg⟩ :=
    (h 4 (by decide) _ overwritten_reachable (.write [1, 2, 3, 4]) (fun _ => 0) rfl).2
  have hwritten : overwritten.array.step (fun _ => 0) (.write [1, 2, 3, 4]) =
      .ok (.done, ⟨4, 8, 8, 8, .big, [[1, 2, 3, 4], [0, 0, 0, 0]], some 0⟩) := rfl
  rw [hwritten, Except.ok.injEq, Prod.mk.injEq] at hrun
  obtain ⟨rfl, rfl⟩ := hrun
  cases hflat with
  | write hcontent _ =>
    rw [hf.1, hf.2, hg.1] at hcontent
    exact absurd hcontent (by decide)

end CppServerFramework.Socket
