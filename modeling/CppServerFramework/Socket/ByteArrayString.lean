import CppServerFramework.Socket.ByteArrayTypedProps

/-!
# Strings in a `ByteArray`

The four forms in which `bytearray.cpp:181-203` writes a string behind its length, and
`bytearray.cpp:336-366` reads it back.  A length is converted to the type of its form.
-/

namespace CppServerFramework.Socket
open Blocks

/-- A `std::string`, with `size()` inside `max_size()`. -/
structure StdString where
  bytes : List UInt8
  size_lt : bytes.length < 2 ^ 63

/-- The forms of the length. -/
inductive StringForm where
  | f16 | f32 | f64 | vint
  deriving DecidableEq, Repr

namespace ByteArray

variable (host : Endian)

/-- The body shared by `writeStringF16` to `writeStringVint`. -/
def writeSized (writeLength : ByteArray → Except Error ByteArray) (s : ByteArray)
    (value : StdString) (heap : Nat → UInt8) : Except Error ByteArray := do
  let s ← writeLength s
  s.write value.bytes heap

/-- The body shared by `readStringF16` to `readStringVint`.  A length that no string can have
    ends in an exception in any case, in `resize` or in `read`. -/
def readSized {w : Nat} (readLength : ByteArray → Except Error (BitVec w × ByteArray))
    (s : ByteArray) : Except Error (List UInt8 × ByteArray) := do
  let (len, s) ← readLength s
  s.read len.toNat

def writeStringF16 (s : ByteArray) (value : StdString) (heap : Nat → UInt8) :=
  s.writeSized (fun s => s.writeFuint16 host (.ofNat 16 value.bytes.length) heap) value heap
def writeStringF32 (s : ByteArray) (value : StdString) (heap : Nat → UInt8) :=
  s.writeSized (fun s => s.writeFuint32 host (.ofNat 32 value.bytes.length) heap) value heap
def writeStringF64 (s : ByteArray) (value : StdString) (heap : Nat → UInt8) :=
  s.writeSized (fun s => s.writeFuint64 host (.ofNat 64 value.bytes.length) heap) value heap
def writeStringVint (s : ByteArray) (value : StdString) (heap : Nat → UInt8) :=
  s.writeSized (fun s => s.writeUint64 (.ofNat 64 value.bytes.length) heap) value heap

def readStringF16 (s : ByteArray) := s.readSized fun s => s.readFuint16 host
def readStringF32 (s : ByteArray) := s.readSized fun s => s.readFuint32 host
def readStringF64 (s : ByteArray) := s.readSized fun s => s.readFuint64 host
def readStringVint (s : ByteArray) := s.readSized fun s => s.readUint64 host

end ByteArray

/-! ## Sequences of strings and values -/

/-- What is written. -/
inductive Field where
  | value (v : Value)
  | string (form : StringForm) (value : StdString)

/-- The read functions. -/
inductive FieldKind where
  | value (k : Kind)
  | string (form : StringForm)

/-- What is read. -/
inductive Item where
  | value (v : Value)
  | string (bytes : List UInt8)
  deriving DecidableEq

def Field.kind : Field → FieldKind
  | .value v => .value v.kind
  | .string form _ => .string form

def Field.item : Field → Item
  | .value v => .value v
  | .string _ text => .string text.bytes

namespace ByteArray

variable (host : Endian)

def writeString (s : ByteArray) (heap : Nat → UInt8) (value : StdString) :
    StringForm → Except Error ByteArray
  | .f16 => s.writeStringF16 host value heap
  | .f32 => s.writeStringF32 host value heap
  | .f64 => s.writeStringF64 host value heap
  | .vint => s.writeStringVint value heap

def readString (s : ByteArray) : StringForm → Except Error (List UInt8 × ByteArray)
  | .f16 => s.readStringF16 host
  | .f32 => s.readStringF32 host
  | .f64 => s.readStringF64 host
  | .vint => s.readStringVint host

def writeField (s : ByteArray) (heap : Nat → UInt8) : Field → Except Error ByteArray
  | .value v => s.writeValue host heap v
  | .string form value => s.writeString host heap value form

def readField (s : ByteArray) : FieldKind → Except Error (Item × ByteArray)
  | .value k => (s.readValue host k).map fun (v, t) => (.value v, t)
  | .string form => (s.readString host form).map fun (bytes, t) => (.string bytes, t)

def writeFields (heap : Nat → UInt8) : ByteArray → List Field → Except Error ByteArray
  | s, [] => .ok s
  | s, f :: fs => do writeFields heap (← s.writeField host heap f) fs

def readFields : ByteArray → List FieldKind → Except Error (List Item × ByteArray)
  | s, [] => .ok ([], s)
  | s, k :: ks => do
    let (item, s) ← s.readField host k
    let (items, s) ← readFields s ks
    return (item :: items, s)

end ByteArray

/-- The length of a string as a value of its form. -/
def StringForm.length : StringForm → Nat → Value
  | .f16, n => .fuint16 (.ofNat 16 n)
  | .f32, n => .fuint32 (.ofNat 32 n)
  | .f64, n => .fuint64 (.ofNat 64 n)
  | .vint, n => .uint64 (.ofNat 64 n)

/-- The bits of that value. -/
def StringForm.width : StringForm → Nat
  | .f16 => 16
  | .f32 => 32
  | .f64 | .vint => 64

/-- The bytes a field is written as. -/
def Field.bytes (host endian : Endian) : Field → List UInt8
  | .value v => v.bytes host endian
  | .string form text => (form.length text.bytes.length).bytes host endian ++ text.bytes

/-- The length is not changed by the conversion to the type of the form. -/
def Field.Fits : Field → Prop
  | .value _ => True
  | .string form text => text.bytes.length < 2 ^ form.width

instance (f : Field) : Decidable f.Fits := by
  cases f <;> unfold Field.Fits <;> infer_instance

/-- An empty string. -/
def Field.isEmpty : Field → Bool
  | .value _ => false
  | .string _ text => text.bytes.isEmpty

/-- The last field is an empty string. -/
def endsEmpty : List Field → Bool
  | [] => false
  | [f] => f.isEmpty
  | _ :: f :: fs => endsEmpty (f :: fs)

theorem Field.bytes_ne_nil (host endian : Endian) (f : Field) : f.bytes host endian ≠ [] := by
  cases f with
  | value v => exact v.bytes_ne_nil host endian
  | string form text =>
    rw [Field.bytes]
    exact List.append_ne_nil_of_left_ne_nil ((form.length _).bytes_ne_nil host endian) _

variable {host : Endian} {s t : ByteArray} {bs : List UInt8}

/-! ## Writing -/

theorem writeString_eq (s : ByteArray) (heap : Nat → UInt8) (text : StdString)
    (form : StringForm) :
    s.writeString host heap text form =
      (s.writeValue host heap (form.length text.bytes.length)).bind fun t =>
        t.write text.bytes heap := by
  cases form <;> rfl

theorem Appending.writeField (h : Appending s bs) (host : Endian) (f : Field)
    (heap : Nat → UInt8) :
    ∃ t, s.writeField host heap f = .ok t ∧ t.endian = s.endian ∧ t.baseSize = s.baseSize ∧
      Appending t (bs ++ f.bytes host s.endian) := by
  cases f with
  | value v =>
    rw [ByteArray.writeField, writeValue_eq]
    exact h.write (v.bytes_ne_nil host s.endian) heap
  | string form text =>
    obtain ⟨t, hrun, hendian, hbase, ht⟩ :=
      h.write ((form.length text.bytes.length).bytes_ne_nil host s.endian) heap
    rw [ByteArray.writeField, writeString_eq, writeValue_eq, hrun, Field.bytes,
      ← List.append_assoc]
    simp only [Except.bind]
    by_cases hempty : text.bytes = []
    · refine ⟨t, ?_, hendian, hbase, ?_⟩
      · rw [ByteArray.write, hempty]
        rfl
      · rw [hempty] at ht ⊢
        rwa [List.append_nil]
    · obtain ⟨u, hu, hue, hub, hall⟩ := ht.write hempty heap
      exact ⟨u, hu, hue.trans hendian, hub.trans hbase, hall⟩

theorem Appending.writeFields (host : Endian) {endian : Endian} {base : Nat} (fs : List Field)
    (heap : Nat → UInt8) :
    ∀ {s : ByteArray} {bs : List UInt8}, Appending s bs → s.endian = endian →
      s.baseSize = base →
      ∃ t, s.writeFields host heap fs = .ok t ∧ t.endian = endian ∧ t.baseSize = base ∧
        Appending t (bs ++ fs.flatMap fun f => f.bytes host endian) := by
  induction fs with
  | nil => intro s bs h he hb; exact ⟨s, rfl, he, hb, by simpa using h⟩
  | cons f fs ih =>
    intro s bs h he hb
    obtain ⟨t, hrun, hte, htb, ht⟩ := h.writeField host f heap
    obtain ⟨u, hrest, hue, hub, hu⟩ := ih ht (hte.trans he) (htb.trans hb)
    refine ⟨u, ?_, hue, hub, ?_⟩
    · rw [ByteArray.writeFields, hrun]
      exact hrest
    · rw [he] at hu
      rw [List.flatMap_cons, ← List.append_assoc]
      exact hu

/-- What has been written fills the chain exactly where its length is a multiple of the base
    size. -/
theorem Appending.full_iff (h : Appending s bs) (hne : bs ≠ []) :
    bs.length = s.capacity ↔ s.baseSize ∣ bs.length := by
  have hbase := h.chain.base_pos
  have hpos := List.length_pos_iff.mpr hne
  have hlen : bs.length = s.size := by
    rw [← h.bytes, List.length_take, h.chain.length_flatten, Nat.min_eq_left h.chain.size_le]
  have hle := h.chain.size_le
  have hcap := h.chain.capacity_eq
  have hend := h.atEnd
  constructor
  · intro heq
    rw [heq, hcap]
    exact Nat.dvd_mul_left _ _
  · rintro ⟨n, hn⟩
    have hblocks : s.baseSize * n ≤ s.baseSize * s.nodes.length := by
      rw [← hn, Nat.mul_comm s.baseSize s.nodes.length, ← hcap]
      omega
    have hle' := Nat.le_of_mul_le_mul_left hblocks hbase
    have hn0 : 0 < n := by
      apply Nat.pos_of_ne_zero
      rintro rfl
      omega
    -- less than a block is spare, so that as many blocks are used as there are
    have hall : s.nodes.length ≤ n := by
      by_contra hmore
      have hmul := Nat.mul_le_mul_left s.baseSize (Nat.succ_le_of_lt (Nat.lt_of_not_le hmore))
      rw [Nat.mul_succ, ← hn, Nat.mul_comm s.baseSize s.nodes.length, ← hcap] at hmul
      rcases h.tight with hone | hspare
      · omega
      · omega
    rw [hn, hcap, Nat.le_antisymm hle' hall, Nat.mul_comm]

/-! ## Reading -/

theorem readString_of_ready {form : StringForm} {n : Nat}
    (h : Ready s ((form.length n).bytes host s.endian)) :
    s.readString host form =
      (s.advance ((form.length n).bytes host s.endian).length).read (n % 2 ^ form.width) := by
  cases form with
  | f16 =>
    have hlen := readFixed_of_ready (by decide) (by decide) bswap16_bswap16 h
    simp [ByteArray.readString, ByteArray.readStringF16, ByteArray.readSized,
      ByteArray.readFuint16, hlen, bind, Except.bind, StringForm.length, Value.bytes,
      StringForm.width]
  | f32 =>
    have hlen := readFixed_of_ready (by decide) (by decide) bswap32_bswap32 h
    simp [ByteArray.readString, ByteArray.readStringF32, ByteArray.readSized,
      ByteArray.readFuint32, hlen, bind, Except.bind, StringForm.length, Value.bytes,
      StringForm.width]
  | f64 =>
    have hlen := readFixed_of_ready (by decide) (by decide) bswap64_bswap64 h
    simp [ByteArray.readString, ByteArray.readStringF64, ByteArray.readSized,
      ByteArray.readFuint64, hlen, bind, Except.bind, StringForm.length, Value.bytes,
      StringForm.width]
  | vint =>
    have hlen : s.readVarint host 0 0#64 = .ok (.ofNat 64 n, _) := readVarint_zero (by decide) _ h
    simp [ByteArray.readString, ByteArray.readStringVint, ByteArray.readSized,
      ByteArray.readUint64, hlen, bind, Except.bind, StringForm.length, Value.bytes,
      StringForm.width]

/-- Nothing is read where there is a node, and the null pointer is used at the end of the
    chain. -/
theorem read_zero (hc : Chain s) (n : Nat) :
    (s.advance n).read 0 = if s.position + n < s.capacity then .ok ([], s.advance n)
      else .error .nullNode := by
  unfold ByteArray.read
  rw [if_neg (Nat.not_lt_zero _)]
  by_cases hlt : s.position + n < s.capacity
  · have hk : (s.position + n) / s.baseSize < s.nodes.length := by
      rw [hc.capacity_eq] at hlt
      exact (Nat.div_lt_iff_lt_mul hc.base_pos).mpr hlt
    simp [ByteArray.advance, hlt, deref_some hk, bind, Except.bind, pure, Except.pure,
      ByteArray.readLoop]
  · simp [ByteArray.advance, hlt, deref, bind, Except.bind]

/-- The bytes that a read returns are as many as it was asked for. -/
theorem length_of_read (hc : Chain s) (hcur : CurDenotes s) {n : Nat} {xs : List UInt8}
    (h : s.read n = .ok (xs, t)) : xs.length = n := by
  rcases Nat.eq_zero_or_pos n with rfl | hpos
  · unfold ByteArray.read at h
    rw [if_neg (Nat.not_lt_zero _)] at h
    cases hderef : deref s.nodes s.cur with
    | error e =>
      rw [hderef] at h
      cases h
    | ok p =>
      rw [hderef] at h
      cases h
      rfl
  · by_cases hle : n ≤ s.getReadSize
    · rw [read_spec hc hcur hpos hle] at h
      cases h
      apply length_slice
      have hsize := hc.size_le
      rw [ByteArray.getReadSize] at hle
      rw [hc.length_flatten]
      omega
    · rw [ByteArray.read, if_pos (by omega)] at h
      cases h

/-- An empty string may be read here. -/
def Field.Readable (s : ByteArray) (host : Endian) (f : Field) : Prop :=
  f.isEmpty = true → s.position + (f.bytes host s.endian).length < s.capacity

theorem readField_of_ready {f : Field} (h : Ready s (f.bytes host s.endian)) (hfits : f.Fits)
    (hreadable : f.Readable s host) :
    s.readField host f.kind = .ok (f.item, s.advance (f.bytes host s.endian).length) := by
  cases f with
  | value v =>
    rw [Field.kind, ByteArray.readField, readValue_of_ready h]
    rfl
  | string form text =>
    obtain ⟨hlength, htext⟩ := Ready.append h
    rw [Field.kind, ByteArray.readField, readString_of_ready hlength,
      Nat.mod_eq_of_lt hfits, Field.bytes, List.length_append, ← advance_advance]
    by_cases hempty : text.bytes = []
    · have hlen : text.bytes.length = 0 := List.length_eq_zero_iff.mpr hempty
      have hlt := hreadable (by simp [Field.isEmpty, hempty])
      rw [Field.bytes, List.length_append, hlen, Nat.add_zero] at hlt
      rw [hlen, read_zero h.chain, if_pos hlt, advance_advance, Nat.add_zero, Field.item, hempty]
      rfl
    · rw [htext.read hempty]
      rfl

theorem readable_of_readField {f : Field} (h : Ready s (f.bytes host s.endian))
    (hread : s.readField host f.kind = .ok (f.item, t)) : f.Fits ∧ f.Readable s host := by
  cases f with
  | value v => exact ⟨trivial, fun hempty => (nomatch hempty)⟩
  | string form text =>
    obtain ⟨hlength, htext⟩ := Ready.append h
    rw [Field.kind, ByteArray.readField, readString_of_ready hlength] at hread
    cases hbytes : (s.advance ((form.length text.bytes.length).bytes host s.endian).length).read
        (text.bytes.length % 2 ^ form.width) with
    | error e =>
      rw [hbytes] at hread
      cases hread
    | ok r =>
      obtain ⟨xs, u⟩ := r
      rw [hbytes] at hread
      cases hread
      have hlen := length_of_read htext.chain htext.denotes hbytes
      have hpow : 0 < 2 ^ form.width := Nat.two_pow_pos _
      have hfits : text.bytes.length < 2 ^ form.width := hlen ▸ Nat.mod_lt _ hpow
      refine ⟨hfits, fun hempty => ?_⟩
      have hzero : text.bytes.length = 0 := by simpa [Field.isEmpty] using hempty
      rw [hzero, Nat.zero_mod, read_zero h.chain] at hbytes
      rw [Field.bytes, List.length_append, hzero, Nat.add_zero]
      by_contra hnot
      rw [if_neg hnot] at hbytes
      cases hbytes

theorem readFields_cons {k : FieldKind} {ks : List FieldKind} {item : Item} {items : List Item}
    {u : ByteArray} :
    s.readFields host (k :: ks) = .ok (item :: items, u) ↔
      ∃ t, s.readField host k = .ok (item, t) ∧ t.readFields host ks = .ok (items, u) := by
  rw [ByteArray.readFields]
  cases hfirst : s.readField host k with
  | error e => simp [bind, Except.bind]
  | ok r =>
    obtain ⟨first, t⟩ := r
    cases hrest : t.readFields host ks with
    | error e =>
      simp only [bind, Except.bind, hrest]
      constructor
      · intro h
        cases h
      · rintro ⟨v, hv, hu⟩
        cases hv
        rw [hrest] at hu
        cases hu
    | ok r =>
      obtain ⟨rest, v⟩ := r
      simp only [bind, Except.bind, hrest, pure, Except.pure]
      constructor
      · intro h
        cases h
        exact ⟨t, rfl, hrest⟩
      · rintro ⟨_, hv, hu⟩
        cases hv
        rw [hrest] at hu
        cases hu
        rfl

/-- A string that is not the last field is read where there is a node. -/
theorem Ready.readable {f g : Field} {fs : List Field} {endian : Endian}
    (h : Ready s ((f :: g :: fs).flatMap fun f => f.bytes host endian))
    (he : s.endian = endian) : f.Readable s host := by
  intro _
  have hroom := h.room
  have hsize := h.chain.size_le
  have hpos := List.length_pos_iff.mpr (g.bytes_ne_nil host endian)
  rw [List.flatMap_cons, List.flatMap_cons, List.length_append, List.length_append] at hroom
  rw [he]
  omega

/-- Fields whose bytes lie behind the cursor are read if and only if their lengths fit, and an
    empty string at the end is not at the end of the chain. -/
theorem readFields_iff (host : Endian) {endian : Endian} (fs : List Field) :
    ∀ {s : ByteArray}, s.endian = endian → Ready s (fs.flatMap fun f => f.bytes host endian) →
      ((∃ u, s.readFields host (fs.map Field.kind) = .ok (fs.map Field.item, u)) ↔
        (∀ f ∈ fs, f.Fits) ∧ (endsEmpty fs = true →
          s.position + (fs.flatMap fun f => f.bytes host endian).length < s.capacity)) ∧
      ∀ u, s.readFields host (fs.map Field.kind) = .ok (fs.map Field.item, u) →
        u.size = s.size ∧
          u.position = s.position + (fs.flatMap fun f => f.bytes host endian).length := by
  induction fs with
  | nil =>
    intro s _ _
    refine ⟨⟨fun _ => ⟨by simp, fun h => by cases h⟩, fun _ => ⟨s, rfl⟩⟩, ?_⟩
    intro u h
    cases h
    exact ⟨rfl, rfl⟩
  | cons f fs ih =>
    intro s he h
    have hall := h
    rw [List.flatMap_cons] at h
    obtain ⟨hfirst, hrest⟩ := h.append
    rw [← he] at hfirst
    obtain ⟨hiff, hfinal⟩ := ih (s := s.advance (f.bytes host endian).length) he hrest
    have hone : ∀ t, s.readField host f.kind = .ok (f.item, t) →
        (f.Fits ∧ f.Readable s host) ∧ t = s.advance (f.bytes host endian).length := by
      intro t ht
      have hread := readable_of_readField hfirst ht
      rw [readField_of_ready hfirst hread.1 hread.2] at ht
      cases ht
      exact ⟨hread, by rw [he]⟩
    -- the condition on an empty string at the end, seen from behind the first field
    have hend : f.Readable s host ∧ (endsEmpty fs = true →
          (s.advance (f.bytes host endian).length).position +
            (fs.flatMap fun f => f.bytes host endian).length < s.capacity) ↔
        (endsEmpty (f :: fs) = true →
          s.position + ((f :: fs).flatMap fun f => f.bytes host endian).length <
            s.capacity) := by
      cases fs with
      | nil => simp [Field.Readable, endsEmpty, he]
      | cons g fs =>
        have hreadable := hall.readable he
        simp only [hreadable, true_and, endsEmpty, List.flatMap_cons, List.length_append,
          ByteArray.advance, Nat.add_assoc]
    rw [List.map_cons, List.map_cons]
    refine ⟨⟨?_, ?_⟩, ?_⟩
    · rintro ⟨u, hu⟩
      obtain ⟨t, ht, hu⟩ := readFields_cons.mp hu
      obtain ⟨⟨hfits, hreadable⟩, rfl⟩ := hone t ht
      obtain ⟨hall, hlast⟩ := hiff.mp ⟨u, hu⟩
      exact ⟨List.forall_mem_cons.mpr ⟨hfits, hall⟩, hend.mp ⟨hreadable, hlast⟩⟩
    · rintro ⟨hfits, hlast⟩
      obtain ⟨hf, hfs⟩ := List.forall_mem_cons.mp hfits
      obtain ⟨hreadable, hlast⟩ := hend.mpr hlast
      obtain ⟨u, hu⟩ := hiff.mpr ⟨hfs, hlast⟩
      rw [← he] at hu
      exact ⟨u, readFields_cons.mpr ⟨_, readField_of_ready hfirst hf hreadable, hu⟩⟩
    · intro u hu
      obtain ⟨t, ht, hu⟩ := readFields_cons.mp hu
      obtain ⟨-, rfl⟩ := hone t ht
      obtain ⟨hsize, hposition⟩ := hfinal u hu
      rw [List.flatMap_cons, List.length_append, ← Nat.add_assoc]
      exact ⟨hsize, hposition⟩

/-- Fields written to a fresh array are read back after a rewind, and use it up, if and only if
    no `size()` is cut off by the type of its length, and the last field is not an empty string
    whose length ends with a block. -/
theorem strings_round_trip_iff (host : Endian) (little : Bool) {base : Nat} (hbase : 0 < base)
    (heap : Nat → UInt8) (fs : List Field) :
    (∃ s t u, ((ByteArray.new base heap).setIsLittleEndian little).writeFields host heap fs =
        .ok s ∧ s.setPosition 0 = .ok t ∧
      t.readFields host (fs.map Field.kind) = .ok (fs.map Field.item, u) ∧
      u.getReadSize = 0) ↔
    (∀ f ∈ fs, f.Fits) ∧ ¬(endsEmpty fs = true ∧
      base ∣ (fs.flatMap fun f => f.bytes host
        ((ByteArray.new base heap).setIsLittleEndian little).endian).length) := by
  obtain ⟨s, hwrite, hs_endian, hs_base, hs⟩ :=
    (Appending.new hbase heap little).writeFields host fs heap rfl rfl
  obtain ⟨t, hseek, ht_endian, hcap, hsize, hposition, hready⟩ := hs.rewind
  rw [List.nil_append] at hs hsize hready
  obtain ⟨hiff, hfinal⟩ := readFields_iff host fs (ht_endian.trans hs_endian) hready
  -- the end of the chain is where the bytes are a multiple of the base size
  have hfull : (endsEmpty fs = true → t.position + (fs.flatMap fun f => f.bytes host
        ((ByteArray.new base heap).setIsLittleEndian little).endian).length < t.capacity) ↔
      ¬(endsEmpty fs = true ∧ base ∣ (fs.flatMap fun f => f.bytes host
        ((ByteArray.new base heap).setIsLittleEndian little).endian).length) := by
    rw [not_and]
    refine forall_congr' fun hempty => ?_
    have hne : (fs.flatMap fun f => f.bytes host
        ((ByteArray.new base heap).setIsLittleEndian little).endian) ≠ [] := by
      cases fs with
      | nil => cases hempty
      | cons f fs =>
        rw [List.flatMap_cons]
        exact List.append_ne_nil_of_left_ne_nil (f.bytes_ne_nil host _) _
    have hle := hready.chain.size_le
    have hblocks := hs.full_iff hne
    rw [show s.baseSize = base from hs_base] at hblocks
    rw [← hblocks, hposition, hcap, Nat.zero_add]
    rw [hsize, hcap] at hle
    omega
  rw [← hfull, ← hiff]
  constructor
  · rintro ⟨s', t', u, hs', ht', hread, -⟩
    cases hwrite.symm.trans hs'
    cases hseek.symm.trans ht'
    exact ⟨u, hread⟩
  · rintro ⟨u, hread⟩
    refine ⟨s, t, u, hwrite, hseek, hread, ?_⟩
    obtain ⟨husize, huposition⟩ := hfinal u hread
    rw [ByteArray.getReadSize, husize, huposition, hsize, hposition, Nat.zero_add, Nat.sub_self]

theorem strings_round_trip_twoEmpty :
    ∃ s t u, ((ByteArray.new 3 fun _ => 0).setIsLittleEndian true).writeFields .little
        (fun _ => 0) [.string .f32 ⟨[97, 98], by decide⟩, .string .f16 ⟨[], by decide⟩,
          .value (.fint32 5#32), .string .f64 ⟨[], by decide⟩] = .ok s ∧
      s.setPosition 0 = .ok t ∧
      t.readFields .little [.string .f32, .string .f16, .value .fint32, .string .f64] =
        .ok ([.string [97, 98], .string [], .value (.fint32 5#32), .string []], u) ∧
      u.getReadSize = 0 :=
  (strings_round_trip_iff .little true (by decide) (fun _ => 0) _).mpr (by decide)

/-- The length of an empty string fills the only block, and the read behind it has no node. -/
theorem empty_string_at_end :
    ∃ s t, ((ByteArray.new 2 fun _ => 0).setIsLittleEndian true).writeFields .little
        (fun _ => 0) [.string .f16 ⟨[], by decide⟩] = .ok s ∧
      s.setPosition 0 = .ok t ∧
      t.readFields .little [.string .f16] = .error .nullNode :=
  ⟨_, _, rfl, rfl, rfl⟩

end CppServerFramework.Socket
