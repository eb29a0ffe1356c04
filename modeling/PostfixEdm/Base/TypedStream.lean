import PostfixEdm.Base.ByteStream
import PostfixEdm.Lib.SignedWords

/-!
# The typed operations of `CByteStream`, and their round trip

* `Kind` : the operations of a message schema; `Item` : a value that is written; `Got` : what a read hands
  out, for a string a pointer and a length;
* `CByteStreamOut.writeAll`, `CByteStreamIn.readAll` : a sequence of writes, and of reads;
* `Holds s bytes` : the stream holds these bytes from its position on; `Moved` : a read has left everything
  but the position alone;
* `readAll_writeAll` : what was written to an empty buffer is read back by the same schema, and the position
  ends behind it.
-/

namespace PostfixEdm
open BigEndian

inductive Kind
  | int8 | uint8 | int16 | uint16 | int32 | uint32 | string | data
  deriving DecidableEq, Repr

inductive Item
  | int8 (data : Int8)
  | uint8 (data : UInt8)
  | int16 (data : Int16)
  | uint16 (data : UInt16)
  | int32 (data : Int32)
  | uint32 (data : UInt32)
  | string (str : List UInt8)
  | data (data : List UInt8)
  deriving DecidableEq

inductive Got
  | int8 (data : Int8)
  | uint8 (data : UInt8)
  | int16 (data : Int16)
  | uint16 (data : UInt16)
  | int32 (data : Int32)
  | uint32 (data : UInt32)
  | string (str : Ptr) (len : UInt32)
  | data (data : Ptr) (len : UInt32)
  deriving DecidableEq

/-- The read that matches a write. -/
def Item.kind : Item → Kind
  | int8 _ => .int8
  | uint8 _ => .uint8
  | int16 _ => .int16
  | uint16 _ => .uint16
  | int32 _ => .int32
  | uint32 _ => .uint32
  | string _ => .string
  | data _ => .data

/-- The bytes a write adds. -/
def Item.size : Item → Nat
  | int8 _ | uint8 _ => 1
  | int16 _ | uint16 _ => 2
  | int32 _ | uint32 _ => 4
  | string str => 4 + str.length
  | data str => 4 + str.length

/-- The value that was read: a string is as many bytes as its length says, from its pointer on. -/
def Got.item (mem : Nat → UInt8) : Got → Item
  | int8 x => .int8 x
  | uint8 x => .uint8 x
  | int16 x => .int16 x
  | uint16 x => .uint16 x
  | int32 x => .int32 x
  | uint32 x => .uint32 x
  | string ptr len => .string (bytesAt mem ptr.toNat len.toNat)
  | data ptr len => .data (bytesAt mem ptr.toNat len.toNat)

namespace CByteStreamIn

/-- `CByteStream(buf, len)` -/
def ofArray (mem : Nat → UInt8) (len : UInt32) (uninit : Nat → UInt8) : CByteStreamIn :=
  { mem, base := 0, len, pos := 0, uninit, reads := [] }

/-- `operator>>(int8_t&)` -/
def readInt8 (s : CByteStreamIn) : Int8 × CByteStreamIn :=
  let (buf, s) := s.readByte 1
  ((buf 0).toInt8, s)

/-- `operator>>(uint8_t&)` -/
def readUint8 (s : CByteStreamIn) : UInt8 × CByteStreamIn :=
  let (buf, s) := s.readByte 1
  (buf 0, s)

/-- `operator>>(int16_t&)` -/
def readInt16 (s : CByteStreamIn) : Int16 × CByteStreamIn :=
  let (buf, s) := s.readByte 2
  (ofBeInt16 (buf 0) (buf 1), s)

/-- `operator>>(int32_t&)` -/
def readInt32 (s : CByteStreamIn) : Int32 × CByteStreamIn :=
  let (buf, s) := s.readByte 4
  (ofBeInt32 (buf 0) (buf 1) (buf 2) (buf 3), s)

def readData (s : CByteStreamIn) : Ptr × UInt32 × CByteStreamIn :=
  let (len, s) := s.readUint32
  (((s.base + s.pos.toNat : Nat) : Ptr), len, s.skip len)

def read (s : CByteStreamIn) : Kind → Got × CByteStreamIn
  | .int8 => let (data, s) := s.readInt8; (.int8 data, s)
  | .uint8 => let (data, s) := s.readUint8; (.uint8 data, s)
  | .int16 => let (data, s) := s.readInt16; (.int16 data, s)
  | .uint16 => let (data, s) := s.readUint16; (.uint16 data, s)
  | .int32 => let (data, s) := s.readInt32; (.int32 data, s)
  | .uint32 => let (data, s) := s.readUint32; (.uint32 data, s)
  | .string => let (str, len, s) := s.readString; (.string str len, s)
  | .data => let (data, len, s) := s.readData; (.data data len, s)

def readAll (s : CByteStreamIn) : List Kind → List Got × CByteStreamIn
  | [] => ([], s)
  | k :: ks =>
    let (got, s) := s.read k
    let (gots, s) := s.readAll ks
    (got :: gots, s)

end CByteStreamIn

namespace CByteStreamOut

/-- `operator<<(int8_t)` -/
def writeInt8 (heap : Heap) (s : CByteStreamOut) (data : Int8) : CByteStreamOut :=
  s.writeByte heap (some [data.toUInt8]) 1

/-- `operator<<(uint8_t)` -/
def writeUint8 (heap : Heap) (s : CByteStreamOut) (data : UInt8) : CByteStreamOut :=
  s.writeByte heap (some [data]) 1

/-- `operator<<(int16_t)` -/
def writeInt16 (heap : Heap) (s : CByteStreamOut) (data : Int16) : CByteStreamOut :=
  s.writeByte heap (some [toByte (data.toInt32 >>> 8), toByte (data.toInt32 &&& 0xFF)]) 2

/-- `operator<<(int32_t)` -/
def writeInt32 (heap : Heap) (s : CByteStreamOut) (data : Int32) : CByteStreamOut :=
  s.writeByte heap (some [toByte (data >>> 24), toByte ((data >>> 16) &&& 0xFF),
    toByte ((data >>> 8) &&& 0xFF), toByte (data &&& 0xFF)]) 4

def writeData (heap : Heap) (s : CByteStreamOut) (data : List UInt8) (len : UInt32) : CByteStreamOut :=
  (s.writeUint32 heap len).writeByte heap (some data) len

def write (heap : Heap) (s : CByteStreamOut) : Item → CByteStreamOut
  | .int8 data => s.writeInt8 heap data
  | .uint8 data => s.writeUint8 heap data
  | .int16 data => s.writeInt16 heap data
  | .uint16 data => s.writeUint16 heap data
  | .int32 data => s.writeInt32 heap data
  | .uint32 data => s.writeUint32 heap data
  | .string str => s.writeStringLen heap str (UInt32.ofNat str.length)
  | .data data => s.writeData heap data (UInt32.ofNat data.length)

def writeAll (heap : Heap) (s : CByteStreamOut) (items : List Item) : CByteStreamOut :=
  items.foldl (write heap) s

end CByteStreamOut

/-! ## The bytes of an item -/

/-- The encoding of an item; a signed value is the unsigned one of the same bits. -/
def Item.bytes : Item → List UInt8
  | int8 x => [x.toUInt8]
  | uint8 x => [x]
  | int16 x => be16 x.toUInt16
  | uint16 x => be16 x
  | int32 x => be32 x.toUInt32
  | uint32 x => be32 x
  | string str | data str => CByteStreamOut.lengthPrefixed str

@[simp] theorem Item.length_bytes (item : Item) : item.bytes.length = item.size := by
  cases item <;> simp [Item.bytes, Item.size]

theorem Item.length_flatMap_bytes (items : List Item) :
    (items.flatMap Item.bytes).length = (items.map Item.size).sum := by
  simp [List.length_flatMap]

/-! ## Writing -/

namespace CByteStreamOut

/-- The stream writes at the end of what its buffer holds. -/
structure AtEnd (s : CByteStreamOut) : Prop where
  wf : s.buf.Wf
  pos_eq : s.pos.toNat = s.buf.contents.length

theorem atEnd_empty : AtEnd ⟨.empty, 0⟩ := ⟨CSimpleBuffer.wf_empty, rfl⟩

theorem AtEnd.writeByte {s : CByteStreamOut} (hs : s.AtEnd) (heap : Heap) (data : List UInt8)
    (h : s.buf.contents.length + data.length < 2 ^ 31) :
    (s.writeByte heap (some data) (UInt32.ofNat data.length)).AtEnd ∧
      Appends s (s.writeByte heap (some data) (UInt32.ofNat data.length)) data := by
  have ha := appends_writeByte heap hs.wf h
  refine ⟨⟨ha.wf, ?_⟩, ha⟩
  have hlen : (UInt32.ofNat data.length).toNat = data.length := by
    rw [UInt32.toNat_ofNat', Nat.mod_eq_of_lt (by omega)]
  rw [ha.contents, List.length_append]
  change (s.pos + UInt32.ofNat data.length).toNat = _
  rw [UInt32.toNat_add, hlen, hs.pos_eq, Nat.mod_eq_of_lt (by omega)]

/-- Both length-prefixed writes. -/
theorem AtEnd.writePrefixed {s : CByteStreamOut} (hs : s.AtEnd) (heap : Heap) (data : List UInt8)
    (h : s.buf.contents.length + (4 + data.length) < 2 ^ 31) :
    (s.writeStringLen heap data (UInt32.ofNat data.length)).AtEnd ∧
      Appends s (s.writeStringLen heap data (UInt32.ofNat data.length)) (lengthPrefixed data) := by
  obtain ⟨h1, ha1⟩ := hs.writeByte heap (be32 (UInt32.ofNat data.length))
    (by rw [length_be32]; omega)
  obtain ⟨h2, ha2⟩ := h1.writeByte heap data
    (by rw [ha1.contents, List.length_append, length_be32]; omega)
  rw [writeStringLen, writeUint32_eq]
  exact ⟨h2, ha1.trans ha2⟩

/-- One typed write appends the bytes of its item. -/
theorem AtEnd.write {s : CByteStreamOut} (hs : s.AtEnd) (heap : Heap) (item : Item)
    (h : s.buf.contents.length + item.size < 2 ^ 31) :
    (s.write heap item).AtEnd ∧ Appends s (s.write heap item) item.bytes := by
  cases item with
  | int8 data => exact hs.writeByte heap _ h
  | uint8 data => exact hs.writeByte heap _ h
  | int16 data =>
    rw [CByteStreamOut.write, writeInt16, toByte_int16]
    exact hs.writeByte heap _ h
  | uint16 data =>
    rw [CByteStreamOut.write, writeUint16_eq]
    exact hs.writeByte heap (be16 data) h
  | int32 data =>
    rw [CByteStreamOut.write, writeInt32, toByte_int32]
    exact hs.writeByte heap _ h
  | uint32 data =>
    rw [CByteStreamOut.write, writeUint32_eq]
    exact hs.writeByte heap (be32 data) h
  | string str => exact hs.writePrefixed heap _ h
  | data data => exact hs.writePrefixed heap _ h

/-- A sequence of writes appends the bytes of its items. -/
theorem AtEnd.writeAll {s : CByteStreamOut} (hs : s.AtEnd) (heap : Heap) (items : List Item)
    (h : s.buf.contents.length + (items.map Item.size).sum < 2 ^ 31) :
    (s.writeAll heap items).AtEnd ∧ Appends s (s.writeAll heap items) (items.flatMap Item.bytes) := by
  induction items generalizing s with
  | nil => exact ⟨hs, hs.wf, (List.append_nil _).symm⟩
  | cons item items ih =>
    rw [List.map_cons, List.sum_cons] at h
    obtain ⟨h1, ha⟩ := hs.write heap item (by omega)
    have hlen : (s.write heap item).buf.contents.length = s.buf.contents.length + item.size := by
      rw [ha.contents, List.length_append, Item.length_bytes]
    obtain ⟨h2, hb⟩ := ih h1 (by omega)
    exact ⟨h2, ha.trans hb⟩

end CByteStreamOut

/-! ## Reading -/

namespace CByteStreamIn

/-- The bytes lie from the position on, inside the stream. -/
structure Holds (s : CByteStreamIn) (bytes : List UInt8) : Prop where
  fits : s.pos.toNat + bytes.length ≤ s.len.toNat
  bytes_eq : bytesAt s.mem (s.base + s.pos.toNat) bytes.length = bytes

/-- The position went on by `n`, over the same memory. -/
structure Moved (s t : CByteStreamIn) (n : Nat) : Prop where
  mem_eq : t.mem = s.mem
  base_eq : t.base = s.base
  len_eq : t.len = s.len
  pos_eq : t.pos.toNat = s.pos.toNat + n

theorem Moved.trans {s t u : CByteStreamIn} {n m : Nat} (h : Moved s t n) (k : Moved t u m) :
    Moved s u (n + m) :=
  ⟨k.mem_eq.trans h.mem_eq, k.base_eq.trans h.base_eq, k.len_eq.trans h.len_eq,
    by rw [k.pos_eq, h.pos_eq, Nat.add_assoc]⟩

section Steps
variable {s t : CByteStreamIn} {front rest : List UInt8}

theorem Holds.split (h : s.Holds (front ++ rest)) :
    bytesAt s.mem (s.base + s.pos.toNat) front.length = front ∧
      bytesAt s.mem (s.base + s.pos.toNat + front.length) rest.length = rest := by
  have := h.bytes_eq
  rw [List.length_append, bytesAt_add] at this
  exact List.append_inj this (length_bytesAt _ _ _)

/-- Behind the bytes that were read lie the others. -/
theorem Holds.moved (h : s.Holds (front ++ rest)) (hm : Moved s t front.length) : t.Holds rest := by
  have hfits := h.fits
  rw [List.length_append] at hfits
  refine ⟨by rw [hm.len_eq, hm.pos_eq]; omega, ?_⟩
  rw [hm.mem_eq, hm.base_eq, hm.pos_eq, ← Nat.add_assoc]
  exact h.split.2

/-- A read of the bytes in front copies them. -/
theorem Holds.readByte (h : s.Holds (front ++ rest)) {n : UInt32} (hn : n.toNat = front.length) :
    bytesAt (s.readByte n).1 0 front.length = front ∧ Moved s (s.readByte n).2 front.length := by
  have hfits := h.fits
  have := s.len.toNat_lt
  rw [List.length_append] at hfits
  have hfit : ¬ s.len < s.pos + n := by
    rw [fits_iff n (by omega)]
    omega
  rw [CByteStreamIn.readByte, if_neg hfit]
  refine ⟨?_, rfl, rfl, rfl, ?_⟩
  · simp only [bytesAt, Nat.zero_add]
    exact h.split.1
  · change (s.pos + n).toNat = _
    rw [UInt32.toNat_add, Nat.mod_eq_of_lt (by omega), hn]

theorem Holds.skip (h : s.Holds (front ++ rest)) {n : UInt32} (hn : n.toNat = front.length) :
    Moved s (s.skip n) front.length := by
  have hfits := h.fits
  have := s.len.toNat_lt
  rw [List.length_append] at hfits
  refine ⟨rfl, rfl, rfl, ?_⟩
  change (s.pos + n).toNat = _
  rw [UInt32.toNat_add, Nat.mod_eq_of_lt (by omega), hn]

theorem Holds.readUint32 {x : UInt32} (h : s.Holds (be32 x ++ rest)) :
    s.readUint32.1 = x ∧ Moved s s.readUint32.2 4 := by
  obtain ⟨hbuf, hm⟩ := h.readByte (n := 4) rfl
  exact ⟨(ofBe32_eq_iff _ _ _ _ x).mpr hbuf, hm⟩

/-- Both length-prefixed reads: the pointer is behind the length, and the bytes are skipped. -/
theorem Holds.readString {str : List UInt8} (h : s.Holds (CByteStreamOut.lengthPrefixed str ++ rest)) :
    bytesAt s.mem s.readString.1.toNat s.readString.2.1.toNat = str ∧
      Moved s s.readString.2.2 (4 + str.length) := by
  have hlen : (UInt32.ofNat str.length).toNat = str.length := by
    have := h.fits
    have := s.len.toNat_lt
    rw [List.length_append, CByteStreamOut.length_lengthPrefixed] at *
    rw [UInt32.toNat_ofNat', Nat.mod_eq_of_lt (by omega)]
  rw [CByteStreamOut.lengthPrefixed, List.append_assoc] at h
  obtain ⟨hval, hm⟩ := h.readUint32
  have hbehind := h.moved hm
  have hstr := hbehind.split.1
  rw [hm.mem_eq] at hstr
  have hread : s.readString = (((s.readUint32.2.base + s.readUint32.2.pos.toNat : Nat) : Ptr), s.readUint32.1,
      s.readUint32.2.skip s.readUint32.1) := rfl
  rw [hread, hval]
  refine ⟨?_, hm.trans (hbehind.skip hlen)⟩
  rw [hlen]
  exact hstr

/-- One typed read of the bytes of an item gives the item. -/
theorem Holds.read {item : Item} (h : s.Holds (item.bytes ++ rest)) :
    (s.read item.kind).1.item s.mem = item ∧ Moved s (s.read item.kind).2 item.size := by
  cases item with
  | int8 x =>
    obtain ⟨hbuf, hm⟩ := h.readByte (n := 1) rfl
    have hx : (s.readByte 1).1 0 = x.toUInt8 := List.head_eq_of_cons_eq hbuf
    exact ⟨congrArg Item.int8 (congrArg UInt8.toInt8 hx), hm⟩
  | uint8 x =>
    obtain ⟨hbuf, hm⟩ := h.readByte (n := 1) rfl
    exact ⟨congrArg Item.uint8 (List.head_eq_of_cons_eq hbuf), hm⟩
  | int16 x =>
    obtain ⟨hbuf, hm⟩ := h.readByte (n := 2) rfl
    have hx := (ofBe16_eq_iff _ _ x.toUInt16).mpr hbuf
    exact ⟨congrArg Item.int16 ((ofBeInt16_eq _ _).trans (congrArg UInt16.toInt16 hx)), hm⟩
  | uint16 x =>
    obtain ⟨hbuf, hm⟩ := h.readByte (n := 2) rfl
    exact ⟨congrArg Item.uint16 ((ofBe16_eq_iff _ _ x).mpr hbuf), hm⟩
  | int32 x =>
    obtain ⟨hbuf, hm⟩ := h.readByte (n := 4) rfl
    have hx := (ofBe32_eq_iff _ _ _ _ x.toUInt32).mpr hbuf
    exact ⟨congrArg Item.int32 ((ofBeInt32_eq _ _ _ _).trans (congrArg UInt32.toInt32 hx)), hm⟩
  | uint32 x => exact ⟨congrArg Item.uint32 h.readUint32.1, h.readUint32.2⟩
  | string str => exact ⟨congrArg Item.string h.readString.1, h.readString.2⟩
  | data str => exact ⟨congrArg Item.data h.readString.1, h.readString.2⟩

end Steps

/-- A sequence of reads over the bytes of the items gives the items. -/
theorem Holds.readAll {items : List Item} {s : CByteStreamIn} (h : s.Holds (items.flatMap Item.bytes)) :
    (s.readAll (items.map Item.kind)).1.map (Got.item s.mem) = items ∧
      Moved s (s.readAll (items.map Item.kind)).2 (items.map Item.size).sum := by
  induction items generalizing s with
  | nil => exact ⟨rfl, rfl, rfl, rfl, rfl⟩
  | cons item items ih =>
    rw [List.flatMap_cons] at h
    obtain ⟨hitem, hm⟩ := h.read
    obtain ⟨hitems, hm'⟩ := ih (h.moved (by rwa [Item.length_bytes]))
    rw [hm.mem_eq] at hitems
    exact ⟨congrArg₂ List.cons hitem hitems, hm.trans hm'⟩

end CByteStreamIn

/-! ## The round trip -/

/-- The stream over the bytes a buffer holds: `CByteStream(GetBuffer(), GetWriteOffset())`. -/
def CSimpleBuffer.stream (b : CSimpleBuffer) (beyond uninit : Nat → UInt8) : CByteStreamIn :=
  .ofArray (fun i => b.buffer.getD i (beyond i)) b.writeOffset uninit

theorem CSimpleBuffer.Wf.holds {b : CSimpleBuffer} (h : b.Wf) (beyond uninit : Nat → UInt8) :
    (b.stream beyond uninit).Holds b.contents := by
  have := h.offset_le
  have := h.alloc_le
  have hlen := h.length_contents
  refine ⟨?_, ?_⟩
  · rw [hlen]
    exact Nat.le_of_eq (Nat.zero_add _)
  · rw [hlen]
    exact (bytesAt_getD beyond (by change 0 + 0 + _ ≤ _; omega)).trans rfl

/-- Items written to an empty buffer are read back by the same schema, and the position ends behind them. -/
theorem readAll_writeAll (heap : Heap) (items : List Item) (beyond uninit : Nat → UInt8)
    (h : (items.map Item.size).sum < 2 ^ 31) :
    let os := CByteStreamOut.writeAll heap ⟨.empty, 0⟩ items
    let is := os.buf.stream beyond uninit
    (is.readAll (items.map Item.kind)).1.map (Got.item is.mem) = items ∧
      (is.readAll (items.map Item.kind)).2.pos = os.buf.writeOffset ∧ os.pos = os.buf.writeOffset ∧
      os.buf.writeOffset.toNat = (items.map Item.size).sum := by
  intro os is
  have hempty : CSimpleBuffer.empty.contents.length = 0 := rfl
  obtain ⟨hend, happ⟩ := CByteStreamOut.atEnd_empty.writeAll heap items (by rw [hempty, Nat.zero_add]; exact h)
  have hcont : os.buf.contents = items.flatMap Item.bytes := happ.contents
  have hoff : os.buf.writeOffset.toNat = (items.map Item.size).sum := by
    rw [← hend.wf.length_contents, hcont, Item.length_flatMap_bytes]
  have hholds := hend.wf.holds beyond uninit
  rw [hcont] at hholds
  obtain ⟨hitems, hm⟩ := hholds.readAll
  refine ⟨hitems, ?_, ?_, hoff⟩
  · rw [← UInt32.toNat_inj, hm.pos_eq, hoff]
    exact Nat.zero_add _
  · rw [← UInt32.toNat_inj, hend.pos_eq, hend.wf.length_contents]

/-- A negative word, a string with a NUL in it, a negative byte. -/
def mixedItems : List Item := [.int16 (-2), .string [97, 0, 98], .int8 (-1)]

theorem readAll_writeAll_mixed :
    (mixedItems.map Item.size).sum = 10 ∧
      let os := CByteStreamOut.writeAll (fun _ _ => 0) ⟨.empty, 0⟩ mixedItems
      let is := os.buf.stream (fun _ => 0) (fun _ => 0)
      (is.readAll [.int16, .string, .int8]).1.map (Got.item is.mem) = mixedItems ∧
        (is.readAll [.int16, .string, .int8]).2.pos = os.buf.writeOffset ∧ os.pos = os.buf.writeOffset ∧
        os.buf.writeOffset.toNat = (mixedItems.map Item.size).sum :=
  ⟨by decide, readAll_writeAll (fun _ _ => 0) mixedItems (fun _ => 0) (fun _ => 0) (by decide)⟩

end PostfixEdm
