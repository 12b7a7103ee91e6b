import CppServerFramework.Socket.ByteArrayNull
import CppServerFramework.Socket.ByteArrayRetry

/-!
# The counters of a `ByteArray`

Every public operation is made of those of `updateMachine`, so that what holds along its runs also
holds along theirs.  The counters are numbers here: the sizes are taken to be such that their sums
stay below `2 ^ 64`.
-/

namespace CppServerFramework.Socket

/-- The public operations (`bytearray.h:33-113`): those that all others are made of, those that do
    not change the array, and the writes, reads and files that are made of them. -/
inductive PublicCall where
  | update (op : Update)
  | query (op : Query)
  | writeField (f : Field)
  | readField (kind : FieldKind)
  | readFromFile (file : Option (List UInt8))

/-- The array behind a call; a null node ends the run.  A write throws nothing, and a read that
    throws leaves what it has consumed. -/
def ByteArray.call (host : Endian) (s : ByteArray) (heap : Nat → UInt8) :
    PublicCall → Option ByteArray
  | .update op =>
    match s.update heap op with
    | .ok t => some t
    | .error .outOfRange => some s
    | .error _ => none
  | .query op =>
    match s.query op with
    | .ok _ | .error .outOfRange => some s
    | .error _ => none
  | .writeField f => (s.writeField host heap f).toOption
  | .readField kind =>
    match s.fieldOutcome host kind with
    | (.ok _, t) | (.error .outOfRange, t) => some t
    | (.error _, _) => none
  | .readFromFile file => (s.readFromFile heap file).toOption.map Prod.snd

def publicMachine (host : Endian) (base : Nat) :
    Machine ByteArray (PublicCall × (Nat → UInt8)) where
  init s := ∃ heap, s = ByteArray.new base heap
  step s a := s.call host a.2 a.1

/-- The cursor is inside the content, the content inside the nodes, and these have the base size. -/
structure Counters (base : Nat) (s : ByteArray) : Prop where
  position_le : s.position ≤ s.size
  size_le : s.size ≤ s.capacity
  capacity_eq : s.capacity = base * s.nodes.length
  node_size : ∀ node ∈ s.nodes, node.length = base

/-- `t` is `s` with room for `n` bytes behind the cursor, by as few more nodes as that takes. -/
structure MakesRoom (base : Nat) (s : ByteArray) (n : Nat) (t : ByteArray) : Prop where
  counters : Counters base t
  room : n ≤ t.getCapacity
  position : t.position = s.position
  size : t.size = s.size
  nodes : ∃ fresh, t.nodes = s.nodes ++ fresh ∧
    ∀ count, n ≤ base * (s.nodes.length + count) - s.position → fresh.length ≤ count

/-! ## The public operations are made of the others -/

section Made
variable {host : Endian} {base : Nat} {s t : ByteArray} {heap : Nat → UInt8}

theorem reach_write (h : (updateMachine base).Reachable s) {buf : List UInt8}
    (hrun : s.write buf heap = .ok t) : (updateMachine base).Reachable t := by
  refine .step h trivial (a := (.write buf, heap)) ?_
  simp only [updateMachine, ByteArray.update, hrun]

theorem ok_of_bind {α β : Type} {x : Except Error α} {f : α → Except Error β} {b : β}
    (h : x.bind f = .ok b) : ∃ a, x = .ok a ∧ f a = .ok b := by
  cases x with
  | error e => cases h
  | ok a => exact ⟨a, rfl, h⟩

theorem ok_of_map {α β : Type} {x : Except Error α} {f : α → β} {b : β} (h : x.map f = .ok b) :
    ∃ a, x = .ok a ∧ f a = b := by
  cases x with
  | error e => cases h
  | ok a => exact ⟨a, rfl, Except.ok.inj h⟩

theorem reach_writeField (h : (updateMachine base).Reachable s) {f : Field}
    (hrun : s.writeField host heap f = .ok t) : (updateMachine base).Reachable t := by
  cases f with
  | value v =>
    rw [ByteArray.writeField, writeValue_eq] at hrun
    exact reach_write h hrun
  | string form text =>
    rw [ByteArray.writeField, writeString_eq, writeValue_eq] at hrun
    obtain ⟨u, hlength, htext⟩ := ok_of_bind hrun
    exact reach_write (reach_write h hlength) htext

theorem reach_chunkLoop (fuel : Nat) {s : ByteArray} (h : (updateMachine base).Reachable s)
    {file : List UInt8} (hrun : chunkLoop heap fuel s file = .ok t) :
    (updateMachine base).Reachable t := by
  induction fuel generalizing s file with
  | zero => cases hrun
  | succ fuel ih =>
    rw [chunkLoop] at hrun
    obtain ⟨u, hwrite, hrest⟩ := ok_of_bind hrun
    have hu := reach_write h hwrite
    split at hrest
    · cases hrest
      exact hu
    · exact ih hu hrest

theorem reach_readFromFile (h : (updateMachine base).Reachable s) {file : Option (List UInt8)}
    {opened : Bool} (hrun : s.readFromFile heap file = .ok (opened, t)) :
    (updateMachine base).Reachable t := by
  cases file with
  | none =>
    cases hrun
    exact h
  | some bytes =>
    obtain ⟨u, hloop, hlast⟩ := ok_of_bind hrun
    cases hlast
    exact reach_chunkLoop _ h hloop

/-- What the public operations reach, the others reach too. -/
theorem reach_of_public (h : (publicMachine host base).Reachable s) :
    (updateMachine base).Reachable s := by
  refine Machine.Reach.invariant (M := publicMachine host base) (P := fun s =>
    (updateMachine base).Reachable s) ?_ ?_ h
  · intro s hs
    exact .init hs
  rintro s ⟨c, heap⟩ t hs - hstep
  change s.call host heap c = some t at hstep
  cases c with
  | update op => exact .step hs trivial (a := (op, heap)) hstep
  | query op =>
    rw [ByteArray.call] at hstep
    split at hstep <;> cases hstep <;> exact hs
  | writeField f =>
    rw [ByteArray.call] at hstep
    cases hrun : s.writeField host heap f with
    | error e =>
      rw [hrun] at hstep
      cases hstep
    | ok u =>
      rw [hrun] at hstep
      cases hstep
      exact reach_writeField hs hrun
  | readField kind =>
    have hstays : (s.fieldOutcome host kind).Stays base := stays_fieldOutcome hs kind
    rw [ByteArray.call] at hstep
    rw [Outcome.Stays] at hstays
    split at hstep <;> cases hstep
    · next heq =>
      rw [heq] at hstays
      exact hstays (by simp)
    · next heq =>
      rw [heq] at hstays
      exact hstays (by simp)
  | readFromFile file =>
    rw [ByteArray.call] at hstep
    cases hrun : s.readFromFile heap file with
    | error e =>
      rw [hrun] at hstep
      cases hstep
    | ok r =>
      rw [hrun] at hstep
      cases hstep
      exact reach_readFromFile hs hrun

/-! ## The base size -/

theorem baseSize_addCapacity (s : ByteArray) (n : Nat) (heap : Nat → UInt8) :
    (s.addCapacity n heap).baseSize = s.baseSize := by
  rw [ByteArray.addCapacity]
  split
  · rfl
  · simp only []
    split <;> rfl

theorem baseSize_writeLoop (fuel : Nat) {s t : ByteArray} {npos ncap : Nat} {buf : List UInt8}
    (hrun : ByteArray.writeLoop fuel s npos ncap buf = .ok t) : t.baseSize = s.baseSize := by
  induction fuel generalizing s npos ncap buf with
  | zero =>
    cases buf with
    | nil =>
      cases hrun
      rfl
    | cons b bs => cases hrun
  | succ fuel ih =>
    cases buf with
    | nil =>
      cases hrun
      rfl
    | cons b bs =>
      rw [ByteArray.writeLoop] at hrun
      obtain ⟨⟨k, node⟩, -, hrest⟩ := ok_of_bind hrun
      simp only [] at hrest
      split at hrest
      · cases hrest
        rfl
      · obtain ⟨r, -, hloop⟩ := ok_of_bind hrest
        have hbase := ih hloop
        exact hbase

theorem baseSize_write {buf : List UInt8} (hrun : s.write buf heap = .ok t) :
    t.baseSize = s.baseSize := by
  rw [ByteArray.write] at hrun
  split at hrun
  · cases hrun
    rfl
  · obtain ⟨⟨k, node⟩, -, hrest⟩ := ok_of_bind hrun
    obtain ⟨u, hloop, hlast⟩ := ok_of_bind hrest
    have hbase := (baseSize_writeLoop _ hloop).trans (baseSize_addCapacity s _ heap)
    split at hlast <;> cases hlast <;> exact hbase

theorem baseSize_setPosition {v : Nat} (hrun : s.setPosition v = .ok t) :
    t.baseSize = s.baseSize := by
  rw [ByteArray.setPosition] at hrun
  split at hrun
  · cases hrun
  · obtain ⟨cur, -, hlast⟩ := ok_of_bind hrun
    cases hlast
    rfl

theorem baseSize_getWriteBuffers {len : Nat} {iovs : List Iovec}
    (hrun : s.getWriteBuffers len heap = .ok (iovs, t)) : t.baseSize = s.baseSize := by
  rw [ByteArray.getWriteBuffers] at hrun
  split at hrun
  · cases hrun
    rfl
  · obtain ⟨r, -, hrest⟩ := ok_of_bind hrun
    obtain ⟨iovs, -, hlast⟩ := ok_of_bind hrest
    cases hlast
    exact baseSize_addCapacity s len heap

theorem baseSize_update {op : Update} (hrun : s.update heap op = .ok t) :
    t.baseSize = s.baseSize := by
  cases op with
  | clear | setIsLittleEndian val =>
    cases hrun
    rfl
  | write buf => exact baseSize_write hrun
  | read size =>
    obtain ⟨⟨bytes, u⟩, hread, hlast⟩ := ok_of_map hrun
    rw [ByteArray.read] at hread
    split at hread
    · cases hread
    · obtain ⟨r, -, hrest⟩ := ok_of_bind hread
      obtain ⟨r', -, hend⟩ := ok_of_bind hrest
      cases hend
      cases hlast
      rfl
  | setPosition v => exact baseSize_setPosition hrun
  | getWriteBuffers len =>
    obtain ⟨⟨iovs, u⟩, hbuffers, hlast⟩ := ok_of_map hrun
    cases hlast
    exact baseSize_getWriteBuffers hbuffers
  | receive length data =>
    obtain ⟨⟨iovs, u⟩, hbuffers, hrest⟩ := ok_of_bind hrun
    have hbase := baseSize_getWriteBuffers hbuffers
    simp only [] at hrest
    split at hrest
    · exact (baseSize_setPosition hrest).trans hbase
    · cases hrest
      exact hbase

theorem baseSize_reach (h : (updateMachine base).Reachable s) : s.baseSize = base := by
  refine h.invariant (P := fun s => s.baseSize = base) ?_ ?_
  · rintro s ⟨heap, rfl⟩
    rfl
  · intro s a t hs _ hstep
    simp only [updateMachine] at hstep
    split at hstep
    · next hok =>
      cases hstep
      exact (baseSize_update hok).trans hs
    · cases hstep
      exact hs
    · cases hstep

/-! ## The counters -/

theorem Chain.counters (h : Chain s) (hbase : s.baseSize = base) : Counters base s where
  position_le := h.position_le
  size_le := h.size_le
  capacity_eq := by rw [h.capacity_eq, hbase, Nat.mul_comm]
  node_size := by
    intro node hnode
    rw [h.block node hnode, hbase]

/-- With fewer blocks than `addCapacity` appends, there is no room. -/
theorem fewest_blocks {base room old count n : Nat} (hroom : old + n * base < room + base)
    (hcount : room ≤ old + count * base) : n ≤ count := by
  by_contra hless
  have hmul := Nat.mul_le_mul_right base (Nat.succ_le_of_lt (Nat.lt_of_not_le hless))
  rw [Nat.succ_mul] at hmul
  omega

theorem addCapacity_makesRoom (h : Lagging s) (hbase : s.baseSize = base) (n : Nat)
    (heap : Nat → UInt8) : MakesRoom base s n (s.addCapacity n heap) := by
  have hc := h.chain
  rcases Nat.eq_zero_or_pos n with rfl | hpos
  · have hsame : s.addCapacity 0 heap = s := if_pos rfl
    rw [hsame]
    exact ⟨hc.counters hbase, Nat.zero_le _, rfl, rfl, [], by simp, fun _ _ => Nat.zero_le _⟩
  · obtain ⟨k, t, ht, hlag, -⟩ := addCapacity_lagging h hpos heap
    obtain ⟨fresh, hadd, -, hroom, htight⟩ := addCapacity_eq hc hpos heap
    have hcounters : Counters base (s.addCapacity n heap) := by
      refine Chain.counters (ht ▸ hlag.chain) ?_
      rw [baseSize_addCapacity, hbase]
    refine ⟨hcounters, ?_, ?_, ?_, fresh, ?_, fun count hcount => ?_⟩
    · rw [hadd, ByteArray.getCapacity]
      simp only []
      omega
    · rw [hadd]
    · rw [hadd]
    · rw [hadd]
    · rcases htight with rfl | htight
      · exact Nat.zero_le _
      · refine fewest_blocks htight ?_
        have hcap := hc.capacity_eq
        rw [hbase] at hcap
        rw [Nat.mul_add, Nat.mul_comm base, ← hcap, Nat.mul_comm base] at hcount
        rw [hbase]
        omega

/-- In every state that the public operations reach, the counters are those of the chain, the
    differences between them do not wrap around, and `addCapacity(n)` makes room for `n` bytes with
    as few nodes as that takes. -/
theorem counters_kept {base : Nat} (hbase : 0 < base) (host : Endian)
    (h : (publicMachine host base).Reachable s) :
    Counters base s ∧ s.getReadSize + s.position = s.size ∧
      s.getCapacity + s.position = s.capacity ∧
      ∀ n heap, MakesRoom base s n (s.addCapacity n heap) := by
  have hreach := reach_of_public h
  have hlag := lagging_of_reach hbase hreach
  have hsize := baseSize_reach hreach
  refine ⟨hlag.chain.counters hsize, ?_, ?_, addCapacity_makesRoom hlag hsize⟩
  · rw [ByteArray.getReadSize, Nat.sub_add_cancel hlag.chain.position_le]
  · rw [ByteArray.getCapacity, Nat.sub_add_cancel hlag.position_le]

end Made

/-- A text, a file, and a number read from the middle of it. -/
def textAndFile : List (PublicCall × (Nat → UInt8)) :=
  [(.writeField (.string .f16 ⟨[97, 98, 99], by decide⟩), fun _ => 0),
    (.readFromFile (some [1, 2, 3, 4, 5, 6]), fun _ => 0), (.update (.setPosition 4), fun _ => 0),
    (.readField (.value .fuint32), fun _ => 0), (.query .toString, fun _ => 0)]

theorem counters_kept_textAndFile :
    ∃ s, (publicMachine .little 4).run (.new 4 fun _ => 0) textAndFile = some s ∧
      s.position = 8 ∧ s.size = 11 ∧ s.capacity = 12 ∧ Counters 4 s := by
  refine ⟨_, rfl, rfl, rfl, rfl, ?_⟩
  exact (counters_kept (Nat.succ_pos 3) .little
    (.of_run textAndFile (s := .new 4 fun _ => 0) ⟨_, rfl⟩ rfl)).1

end CppServerFramework.Socket
