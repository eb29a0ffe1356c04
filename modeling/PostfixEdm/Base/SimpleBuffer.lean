import PostfixEdm.Lib.Block
import Mathlib.Algebra.Group.Nat.Defs

/-!
# `CSimpleBuffer`

* `CSimpleBuffer` : the block `m_buffer` points to, `m_alloc_size` and `m_write_offset`;
* `extend`, `write`, `read`, `incWriteOffset` : the operations of `UtilPdu.cpp`. A `realloc` that fails
  (`ok = false`) leaves the block as it was, but `m_alloc_size` is already updated;
* `Wf` : the representation invariant; `contents` : the bytes written and not yet read;
* `write_spec`, `read_spec` : while fewer than `2^31` bytes are held and `realloc` succeeds, the
  buffer is the byte string `contents`, appended to by `write` and consumed from the front by `read`.
-/

namespace PostfixEdm

/-- The indeterminate bytes of the new part of a block, by the size `realloc` was asked for. -/
abbrev Heap := UInt32 → Nat → UInt8

structure CSimpleBuffer where
  buffer : List UInt8
  allocSize : UInt32
  writeOffset : UInt32
  deriving DecidableEq, Repr

namespace CSimpleBuffer

def empty : CSimpleBuffer := ⟨[], 0, 0⟩

def extend (heap : Heap) (ok : Bool) (b : CSimpleBuffer) (len : UInt32) : CSimpleBuffer :=
  let allocSize := b.writeOffset + len
  let allocSize := allocSize + allocSize >>> 2
  { b with
    allocSize := allocSize
    buffer := if ok then Block.grow b.buffer allocSize.toNat (heap allocSize) else b.buffer }

/-- `buf = none` is the `NULL` the encoders pass to reserve the header. -/
def write (heap : Heap) (ok : Bool) (b : CSimpleBuffer) (buf : Option (List UInt8)) (len : UInt32) :
    CSimpleBuffer :=
  let b := if b.allocSize < b.writeOffset + len then b.extend heap ok len else b
  { b with
    buffer := match buf with
      | some data => Block.store b.buffer b.writeOffset.toNat (data.take len.toNat)
      | none => b.buffer
    writeOffset := b.writeOffset + len }

/-- The bytes `Read` copies out, and the buffer after it moved the rest down. -/
def read (b : CSimpleBuffer) (len : UInt32) : List UInt8 × CSimpleBuffer :=
  let len := if b.writeOffset < len then b.writeOffset else len
  let writeOffset := b.writeOffset - len
  (b.buffer.take len.toNat,
    { b with
      buffer := Block.store b.buffer 0 ((b.buffer.drop len.toNat).take writeOffset.toNat)
      writeOffset := writeOffset })

def incWriteOffset (b : CSimpleBuffer) (len : UInt32) : CSimpleBuffer :=
  { b with writeOffset := b.writeOffset + len }

/-- The bytes written and not yet read. -/
def contents (b : CSimpleBuffer) : List UInt8 := b.buffer.take b.writeOffset.toNat

/-- The representation invariant: the block is as long as `m_alloc_size` says. -/
structure Wf (b : CSimpleBuffer) : Prop where
  offset_le : b.writeOffset.toNat ≤ b.allocSize.toNat
  alloc_le : b.allocSize.toNat ≤ b.buffer.length

theorem wf_empty : empty.Wf := ⟨Nat.le_refl _, Nat.le_refl _⟩

theorem Wf.length_contents {b : CSimpleBuffer} (h : b.Wf) : b.contents.length = b.writeOffset.toNat := by
  have := h.offset_le
  have := h.alloc_le
  rw [contents, List.length_take]
  omega

/-! ## Growing -/

/-- The size a growth asks for: a quarter more than what is needed, without wrapping below `2^31`. -/
theorem extend_allocSize (heap : Heap) (ok : Bool) {b : CSimpleBuffer} {len : UInt32}
    (h : b.writeOffset.toNat + len.toNat < 2 ^ 31 + 2048) :
    (b.extend heap ok len).allocSize.toNat =
      (b.writeOffset.toNat + len.toNat) + (b.writeOffset.toNat + len.toNat) / 4 := by
  have e : (b.writeOffset + len).toNat = b.writeOffset.toNat + len.toNat := by
    rw [UInt32.toNat_add, Nat.mod_eq_of_lt (by omega)]
  simp only [extend, UInt32.toNat_add, UInt32.toNat_shiftRight, UInt32.reduceToNat, Nat.reduceMod,
    Nat.shiftRight_eq_div_pow]
  omega

@[simp] theorem extend_writeOffset (heap : Heap) (ok : Bool) (b : CSimpleBuffer) (len : UInt32) :
    (b.extend heap ok len).writeOffset = b.writeOffset := rfl

theorem Wf.extend {b : CSimpleBuffer} {len : UInt32} (hb : b.Wf) (heap : Heap)
    (h : b.writeOffset.toNat + len.toNat < 2 ^ 31 + 2048) :
    (b.extend heap true len).Wf ∧ (b.extend heap true len).contents = b.contents ∧
      b.writeOffset.toNat + len.toNat ≤ (b.extend heap true len).allocSize.toNat := by
  have ha := extend_allocSize heap true h
  have := hb.offset_le
  have := hb.alloc_le
  refine ⟨⟨?_, ?_⟩, ?_, by omega⟩
  · rw [extend_writeOffset]
    omega
  · simp only [CSimpleBuffer.extend, if_true, Block.length_grow, Nat.le_refl]
  · simp only [contents, extend_writeOffset]
    simp only [CSimpleBuffer.extend, if_true] at ha ⊢
    exact Block.take_grow _ (by omega) (by omega)

/-! ## Writing -/

/-- `Write` of a byte string appends it. -/
theorem write_spec (heap : Heap) {b : CSimpleBuffer} {data : List UInt8} (hb : b.Wf)
    (h : b.writeOffset.toNat + data.length < 2 ^ 31) :
    (b.write heap true (some data) (UInt32.ofNat data.length)).Wf ∧
      (b.write heap true (some data) (UInt32.ofNat data.length)).contents = b.contents ++ data := by
  have hlen : (UInt32.ofNat data.length).toNat = data.length := by
    rw [UInt32.toNat_ofNat', Nat.mod_eq_of_lt (by omega)]
  -- the buffer the bytes are copied into has room for them, grown or not
  obtain ⟨c, hc, hwf, hcont, hoff, hroom⟩ : ∃ c : CSimpleBuffer,
      c = (if b.allocSize < b.writeOffset + UInt32.ofNat data.length then
        b.extend heap true (UInt32.ofNat data.length) else b) ∧ c.Wf ∧ c.contents = b.contents ∧
      c.writeOffset = b.writeOffset ∧ b.writeOffset.toNat + data.length ≤ c.allocSize.toNat := by
    split
    · obtain ⟨h1, h2, h3⟩ := hb.extend heap (show _ + (UInt32.ofNat data.length).toNat < _ by omega)
      exact ⟨_, rfl, h1, h2, rfl, by omega⟩
    · next hroom =>
      rw [UInt32.lt_iff_toNat_lt, UInt32.toNat_add, hlen, Nat.mod_eq_of_lt (by omega)] at hroom
      exact ⟨b, rfl, hb, rfl, rfl, by omega⟩
  have hw : b.write heap true (some data) (UInt32.ofNat data.length) =
      { c with buffer := Block.store c.buffer c.writeOffset.toNat data
               writeOffset := c.writeOffset + UInt32.ofNat data.length } := by
    simp only [write, ← hc, hlen, List.take_length]
  have hoff' : (c.writeOffset + UInt32.ofNat data.length).toNat = b.writeOffset.toNat + data.length := by
    rw [UInt32.toNat_add, hlen, hoff, Nat.mod_eq_of_lt (by omega)]
  have halloc := hwf.alloc_le
  rw [hw]
  refine ⟨⟨?_, ?_⟩, ?_⟩
  · simp only [hoff']
    omega
  · rw [Block.length_store (by rw [hoff]; omega)]
    exact halloc
  · change (Block.store c.buffer c.writeOffset.toNat data).take
      (c.writeOffset + UInt32.ofNat data.length).toNat = b.contents ++ data
    rw [hoff', ← hoff, Block.take_store (by rw [hoff]; omega), ← hcont]
    rfl

/-- `Write(NULL, len)` on an empty buffer reserves `len` indeterminate bytes. -/
theorem write_null_spec (heap : Heap) (len : UInt32) (h : len.toNat < 2 ^ 31) :
    (empty.write heap true none len).Wf ∧ (empty.write heap true none len).contents.length = len.toNat := by
  have he := wf_empty.extend heap (show _ + len.toNat < _ by simp [empty]; omega)
  have hw : empty.write heap true none len =
      { (if (0 : UInt32) < len then empty.extend heap true len else empty) with writeOffset := len } := by
    have h0 : empty.writeOffset + len = len := UInt32.zero_add len
    simp only [write, h0, show empty.allocSize = 0 from rfl]
    split
    · rw [show (empty.extend heap true len).writeOffset + len = len from h0]
    · rw [h0]
  have hwf : (empty.write heap true none len).Wf := by
    rw [hw]
    split
    · have := he.2.2
      exact ⟨by simpa [empty] using this, he.1.alloc_le⟩
    · next hpos =>
      rw [UInt32.lt_iff_toNat_lt] at hpos
      exact ⟨by simp at hpos ⊢; omega, wf_empty.alloc_le⟩
  exact ⟨hwf, by rw [hwf.length_contents, hw]⟩

/-! ## Reading -/

/-- `Read` of at most what is held takes a prefix off the contents. -/
theorem read_spec {b : CSimpleBuffer} {len : UInt32} (hb : b.Wf) (h : len.toNat ≤ b.writeOffset.toNat) :
    (b.read len).1 = b.contents.take len.toNat ∧ (b.read len).2.Wf ∧
      (b.read len).2.contents = b.contents.drop len.toNat := by
  have := hb.offset_le
  have := hb.alloc_le
  have hle : ¬ b.writeOffset < len := by
    rw [UInt32.lt_iff_toNat_lt]
    omega
  have hoff : (b.writeOffset - len).toNat = b.writeOffset.toNat - len.toNat :=
    UInt32.toNat_sub_of_le _ _ (UInt32.le_iff_toNat_le.mpr h)
  have hmoved : ((b.buffer.drop len.toNat).take (b.writeOffset - len).toNat).length =
      (b.writeOffset - len).toNat := by
    rw [List.length_take, List.length_drop]
    omega
  simp only [read, if_neg hle]
  refine ⟨?_, ⟨?_, ?_⟩, ?_⟩
  · rw [contents, List.take_take, Nat.min_eq_left h]
  · simp only
    omega
  · rw [Block.length_store (by omega)]
    exact hb.alloc_le
  · simp only [contents]
    have : (Block.store b.buffer 0 ((b.buffer.drop len.toNat).take (b.writeOffset - len).toNat)).take _ = _ :=
      Block.take_store (Nat.zero_le _)
    rw [hmoved, Nat.zero_add] at this
    rw [this, List.take_zero, List.nil_append, List.drop_take, hoff]

@[simp] theorem read_writeOffset (b : CSimpleBuffer) (len : UInt32) (h : len ≤ b.writeOffset) :
    (b.read len).2.writeOffset = b.writeOffset - len := by
  have hle : ¬ b.writeOffset < len := by
    rw [UInt32.lt_iff_toNat_lt]
    rw [UInt32.le_iff_toNat_le] at h
    omega
  simp only [read, if_neg hle]

end CSimpleBuffer

end PostfixEdm
