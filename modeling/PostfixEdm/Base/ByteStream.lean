import PostfixEdm.Base.SimpleBuffer
import PostfixEdm.Lib.BigEndian
import Mathlib.Data.List.TakeWhile

/-!
# `CByteStream`

* `CByteStreamIn` : a stream over raw memory (`CByteStream(buf, len)`), read by `>>` and `ReadString`.
  A read that does not fit leaves the position where it is and its local array uninitialised: the array
  then holds the next bytes of `uninit`. `reads` records every `memcpy` as (offset, length);
* `CByteStreamOut` : a stream over a `CSimpleBuffer` (`CByteStream(&m_buf, pos)`), written by `<<` and
  `WriteString`; `Appends` says that a stream operation appends a byte string to the buffer.
-/

namespace PostfixEdm
open BigEndian

/-- A pointer into or around a received frame: its offset from the start of the frame. -/
abbrev Ptr := Int

/-! ## Bytes in memory -/

def bytesAt (mem : Nat → UInt8) (i n : Nat) : List UInt8 := (List.range n).map fun j => mem (i + j)

@[simp] theorem length_bytesAt (mem : Nat → UInt8) (i n : Nat) : (bytesAt mem i n).length = n := by
  simp [bytesAt]

theorem bytesAt_add (mem : Nat → UInt8) (i m n : Nat) :
    bytesAt mem i (m + n) = bytesAt mem i m ++ bytesAt mem (i + m) n := by
  unfold bytesAt
  rw [List.range_add, List.map_append, List.map_map]
  congr 1
  apply List.map_congr_left
  intro j _
  simp only [Function.comp_apply, Nat.add_assoc]

theorem bytesAt_two (mem : Nat → UInt8) (i : Nat) : bytesAt mem i 2 = [mem i, mem (i + 1)] := rfl

theorem bytesAt_four (mem : Nat → UInt8) (i : Nat) :
    bytesAt mem i 4 = [mem i, mem (i + 1), mem (i + 2), mem (i + 3)] := rfl

/-- The bytes of a buffer do not depend on what lies behind it. -/
theorem bytesAt_getD (beyond : Nat → UInt8) {buf : List UInt8} {i n : Nat} (h : i + n ≤ buf.length) :
    bytesAt (fun j => buf.getD j (beyond j)) i n = (buf.drop i).take n := by
  apply List.ext_getElem
  · rw [length_bytesAt, List.length_take, List.length_drop]
    omega
  · intro j hj _
    rw [length_bytesAt] at hj
    simp only [bytesAt, List.getElem_map, List.getElem_range, List.getElem_take, List.getElem_drop]
    exact List.getD_eq_getElem _ _ (by omega)

theorem bytesAt_congr {mem mem' : Nat → UInt8} {i n : Nat} (h : ∀ j < i + n, mem j = mem' j) :
    bytesAt mem i n = bytesAt mem' i n := by
  apply List.map_congr_left
  intro j hj
  exact h _ (by have := List.mem_range.mp hj; omega)

/-! ## Reading -/

structure CByteStreamIn where
  mem : Nat → UInt8
  /-- the offset of `m_pBuf` -/
  base : Nat
  len : UInt32
  pos : UInt32
  uninit : Nat → UInt8
  reads : List (Nat × Nat)

namespace CByteStreamIn

def skip (s : CByteStreamIn) (len : UInt32) : CByteStreamIn := { s with pos := s.pos + len }

/-- The contents of the caller's array after `_ReadByte(buf, len)`. -/
def readByte (s : CByteStreamIn) (len : UInt32) : (Nat → UInt8) × CByteStreamIn :=
  if s.len < s.pos + len then (s.uninit, { s with uninit := fun i => s.uninit (i + len.toNat) })
  else
    (fun i => s.mem (s.base + s.pos.toNat + i),
      { s with pos := s.pos + len, reads := s.reads ++ [(s.base + s.pos.toNat, len.toNat)] })

/-- `operator>>(uint16_t&)` -/
def readUint16 (s : CByteStreamIn) : UInt16 × CByteStreamIn :=
  let (buf, s) := s.readByte 2
  (ofBe16 (buf 0) (buf 1), s)

/-- `operator>>(uint32_t&)` -/
def readUint32 (s : CByteStreamIn) : UInt32 × CByteStreamIn :=
  let (buf, s) := s.readByte 4
  (ofBe32 (buf 0) (buf 1) (buf 2) (buf 3), s)

/-- The pointer and the length of a string; the length is not compared with the stream. -/
def readString (s : CByteStreamIn) : Ptr × UInt32 × CByteStreamIn :=
  let (len, s) := s.readUint32
  (((s.base + s.pos.toNat : Nat) : Ptr), len, s.skip len)

variable {s : CByteStreamIn}

theorem fits_iff (n : UInt32) (h : s.pos.toNat + n.toNat < 2 ^ 32) :
    s.len < s.pos + n ↔ s.len.toNat < s.pos.toNat + n.toNat := by
  rw [UInt32.lt_iff_toNat_lt, UInt32.toNat_add, Nat.mod_eq_of_lt h]

/-- A word that fits is read at the position, which moves behind it. -/
theorem readUint16_of_le (h : s.pos.toNat + 2 ≤ s.len.toNat) :
    s.readUint16 = (ofBe16 (s.mem (s.base + s.pos.toNat)) (s.mem (s.base + s.pos.toNat + 1)),
      { s with pos := s.pos + 2, reads := s.reads ++ [(s.base + s.pos.toNat, 2)] }) := by
  have := s.len.toNat_lt
  have hfit : ¬ s.len < s.pos + 2 := by
    rw [fits_iff 2 (by simp; omega)]
    simp only [UInt32.reduceToNat]
    omega
  simp only [readUint16, readByte, if_neg hfit, UInt32.reduceToNat, Nat.add_zero]

/-- A word that does not fit is indeterminate, and the position stays. -/
theorem readUint16_of_gt (hpos : s.pos.toNat < 2 ^ 31) (h : s.len.toNat < s.pos.toNat + 2) :
    s.readUint16 = (ofBe16 (s.uninit 0) (s.uninit 1), { s with uninit := fun i => s.uninit (i + 2) }) := by
  have hfit : s.len < s.pos + 2 := (fits_iff 2 (by simp; omega)).mpr (by simpa using h)
  simp only [readUint16, readByte, if_pos hfit, UInt32.reduceToNat]

theorem readUint32_of_le (h : s.pos.toNat + 4 ≤ s.len.toNat) :
    s.readUint32 = (ofBe32 (s.mem (s.base + s.pos.toNat)) (s.mem (s.base + s.pos.toNat + 1))
        (s.mem (s.base + s.pos.toNat + 2)) (s.mem (s.base + s.pos.toNat + 3)),
      { s with pos := s.pos + 4, reads := s.reads ++ [(s.base + s.pos.toNat, 4)] }) := by
  have := s.len.toNat_lt
  have hfit : ¬ s.len < s.pos + 4 := by
    rw [fits_iff 4 (by simp; omega)]
    simp only [UInt32.reduceToNat]
    omega
  simp only [readUint32, readByte, if_neg hfit, UInt32.reduceToNat, Nat.add_zero]

theorem readUint32_of_gt (hpos : s.pos.toNat < 2 ^ 31) (h : s.len.toNat < s.pos.toNat + 4) :
    s.readUint32 = (ofBe32 (s.uninit 0) (s.uninit 1) (s.uninit 2) (s.uninit 3),
      { s with uninit := fun i => s.uninit (i + 4) }) := by
  have hfit : s.len < s.pos + 4 := (fits_iff 4 (by simp; omega)).mpr (by simpa using h)
  simp only [readUint32, readByte, if_pos hfit, UInt32.reduceToNat]

end CByteStreamIn

/-! ## Writing -/

structure CByteStreamOut where
  buf : CSimpleBuffer
  pos : UInt32

/-- `strlen`: the bytes before the terminating NUL. -/
def cstr (str : List UInt8) : List UInt8 := str.takeWhile (· ≠ 0)

theorem cstr_eq_self {str : List UInt8} (h : 0 ∉ str) : cstr str = str := by
  rw [cstr, List.takeWhile_eq_self_iff]
  intro b hb
  simp only [ne_eq, decide_not, Bool.not_eq_eq_eq_not, Bool.not_true, decide_eq_false_iff_not]
  rintro rfl
  exact h hb

namespace CByteStreamOut

def writeByte (heap : Heap) (s : CByteStreamOut) (buf : Option (List UInt8)) (len : UInt32) :
    CByteStreamOut :=
  { buf := s.buf.write heap true buf len, pos := s.pos + len }

/-- `operator<<(uint16_t)` -/
def writeUint16 (heap : Heap) (s : CByteStreamOut) (data : UInt16) : CByteStreamOut :=
  s.writeByte heap (some [(data >>> 8).toUInt8, (data &&& 0xFF).toUInt8]) 2

/-- `operator<<(uint32_t)` -/
def writeUint32 (heap : Heap) (s : CByteStreamOut) (data : UInt32) : CByteStreamOut :=
  s.writeByte heap (some [(data >>> 24).toUInt8, ((data >>> 16) &&& 0xFF).toUInt8,
    ((data >>> 8) &&& 0xFF).toUInt8, (data &&& 0xFF).toUInt8]) 4

/-- `WriteString(str, len)` -/
def writeStringLen (heap : Heap) (s : CByteStreamOut) (str : List UInt8) (len : UInt32) : CByteStreamOut :=
  (s.writeUint32 heap len).writeByte heap (some str) len

/-- `WriteString(str)` of a NUL-terminated string. -/
def writeString (heap : Heap) (s : CByteStreamOut) (str : List UInt8) : CByteStreamOut :=
  let size := UInt32.ofNat (cstr str).length
  (s.writeUint32 heap size).writeByte heap (some str) size

/-- From `s` to `t` the bytes `data` were appended to the buffer. -/
structure Appends (s t : CByteStreamOut) (data : List UInt8) : Prop where
  wf : t.buf.Wf
  contents : t.buf.contents = s.buf.contents ++ data

theorem Appends.trans {s t u : CByteStreamOut} {d e : List UInt8} (h : Appends s t d) (k : Appends t u e) :
    Appends s u (d ++ e) :=
  ⟨k.wf, by rw [k.contents, h.contents, List.append_assoc]⟩

theorem appends_writeByte (heap : Heap) {s : CByteStreamOut} (hs : s.buf.Wf) {data : List UInt8}
    (h : s.buf.contents.length + data.length < 2 ^ 31) :
    Appends s (s.writeByte heap (some data) (UInt32.ofNat data.length)) data := by
  rw [hs.length_contents] at h
  exact ⟨(CSimpleBuffer.write_spec heap hs h).1, (CSimpleBuffer.write_spec heap hs h).2⟩

theorem writeUint16_eq (heap : Heap) (s : CByteStreamOut) (x : UInt16) :
    s.writeUint16 heap x = s.writeByte heap (some (be16 x)) 2 := by
  rw [writeUint16, toUInt8_and_ff16]
  rfl

theorem writeUint32_eq (heap : Heap) (s : CByteStreamOut) (x : UInt32) :
    s.writeUint32 heap x = s.writeByte heap (some (be32 x)) 4 := by
  rw [writeUint32, toUInt8_and_ff32, toUInt8_and_ff32, toUInt8_and_ff32]
  rfl

theorem appends_writeUint16 (heap : Heap) {s : CByteStreamOut} (hs : s.buf.Wf) (x : UInt16)
    (h : s.buf.contents.length + 2 < 2 ^ 31) : Appends s (s.writeUint16 heap x) (be16 x) := by
  rw [writeUint16_eq]
  exact appends_writeByte heap hs h

theorem appends_writeUint32 (heap : Heap) {s : CByteStreamOut} (hs : s.buf.Wf) (x : UInt32)
    (h : s.buf.contents.length + 4 < 2 ^ 31) : Appends s (s.writeUint32 heap x) (be32 x) := by
  rw [writeUint32_eq]
  exact appends_writeByte heap hs h

/-- A string as both `WriteString`s store it: its length and its bytes. -/
def lengthPrefixed (str : List UInt8) : List UInt8 := be32 (UInt32.ofNat str.length) ++ str

@[simp] theorem length_lengthPrefixed (str : List UInt8) : (lengthPrefixed str).length = 4 + str.length := by
  simp [lengthPrefixed]

theorem appends_writeStringLen (heap : Heap) {s : CByteStreamOut} (hs : s.buf.Wf) {str : List UInt8}
    (h : s.buf.contents.length + (4 + str.length) < 2 ^ 31) :
    Appends s (s.writeStringLen heap str (UInt32.ofNat str.length)) (lengthPrefixed str) := by
  have h1 := appends_writeUint32 heap hs (UInt32.ofNat str.length) (by omega)
  refine h1.trans (appends_writeByte heap h1.wf ?_)
  rw [h1.contents, List.length_append, length_be32]
  omega

theorem appends_writeString (heap : Heap) {s : CByteStreamOut} (hs : s.buf.Wf) {str : List UInt8}
    (hnul : 0 ∉ str) (h : s.buf.contents.length + (4 + str.length) < 2 ^ 31) :
    Appends s (s.writeString heap str) (lengthPrefixed str) := by
  have := appends_writeStringLen heap hs h
  rwa [writeString, cstr_eq_self hnul]

end CByteStreamOut

end PostfixEdm
