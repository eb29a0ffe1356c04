import PostfixEdm.Conn.Read
import PostfixEdm.Lib.Transition
import Mathlib.Data.List.Forall2

/-!
# `CSimpleBuffer` under every sequence of operations

Each `realloc` succeeds or fails, and all sizes are 32 bits wide.

* `BufferOp`, `BufferState.step` : the operations, and what `OnRead` does to its buffer for one `netlib_recv`;
  `BufferState` keeps what has been written and not yet been read beside the buffer;
* `StoresInside` : the bytes of the step lie in the block; `Rep` : the representation invariant;
* `Fits` : `Extend` gives room for some bytes; `Sound` : every growth of a step does;
* `step_iff` : a step stores inside and keeps the invariant exactly when it is sound; `rep_of_reaches` : what holds
  in every run of sound steps.
-/

namespace PostfixEdm

/-- What a call of `realloc` does, if there is one: whether it succeeds, and what the new cells hold. -/
structure Realloc where
  ok : Bool
  heap : Heap

inductive BufferOp
  | write (r : Realloc) (data : List UInt8)
  | reserve (r : Realloc) (len : UInt32)
  | read (len : UInt32)
  | extend (r : Realloc) (len : UInt32)
  | receive (r : Realloc) (data : List UInt8)

/-- The bytes written and not yet read; those that `Write(NULL, len)` has skipped may be any. -/
structure BufferState where
  buf : CSimpleBuffer
  pending : List (Option UInt8)

namespace CSimpleBuffer

/-- The size that `Extend(len)` asks for. -/
def grown (writeOffset len : UInt32) : UInt32 := writeOffset + len + (writeOffset + len) >>> 2

/-- `Extend(len)`, where it is wanted. -/
def growIf (wanted : Bool) (r : Realloc) (b : CSimpleBuffer) (len : UInt32) : CSimpleBuffer :=
  if wanted then b.extend r.heap r.ok len else b

/-- `Write` asks for more. -/
def isFull (b : CSimpleBuffer) (len : UInt32) : Bool := b.allocSize < b.writeOffset + len

/-- `OnRead` asks for more. -/
def isShort (b : CSimpleBuffer) : Bool := b.allocSize - b.writeOffset < readBufSize

/-- The body of the loop of `OnRead`, with `data` from `netlib_recv`. -/
def receive (r : Realloc) (b : CSimpleBuffer) (data : List UInt8) : CSimpleBuffer :=
  recvInto (b.growIf b.isShort r readBufSize) data

end CSimpleBuffer

namespace BufferState

open CSimpleBuffer

def init : BufferState := ⟨.empty, []⟩

/-- There is no `Write` of more bytes than `uint32_t` can say, and no `netlib_recv` of more than it was asked for. -/
def step : BufferOp → BufferState → Option BufferState
  | .write r data, s =>
    if data.length < 2 ^ 32 then
      some ⟨s.buf.write r.heap r.ok (some data) (UInt32.ofNat data.length), s.pending ++ data.map some⟩
    else none
  | .reserve r len, s =>
    some ⟨s.buf.write r.heap r.ok none len, s.pending ++ List.replicate len.toNat none⟩
  | .read len, s => some ⟨(s.buf.read len).2, s.pending.drop len.toNat⟩
  | .extend r len, s => some ⟨s.buf.extend r.heap r.ok len, s.pending⟩
  | .receive r data, s =>
    if data.length ≤ readBufSize.toNat then some ⟨s.buf.receive r data, s.pending ++ data.map some⟩ else none

/-- Bytes that are stored at the write offset lie in the block. -/
def Inside (b : CSimpleBuffer) (data : List UInt8) : Prop :=
  data = [] ∨ b.writeOffset.toNat + data.length ≤ b.buffer.length

/-- The block that a step stores to is the one that a growth before it has left. -/
def StoresInside (s : BufferState) : BufferOp → Prop
  | .write r data =>
    let len := UInt32.ofNat data.length
    Inside (s.buf.growIf (s.buf.isFull len) r len) data
  | .receive r data => Inside (s.buf.growIf s.buf.isShort r readBufSize) data
  | .read len => (s.buf.read len).2.writeOffset.toNat ≤ s.buf.buffer.length
  | .reserve _ _ | .extend _ _ => True

/-- A byte of the buffer is the one that was written. -/
def Agrees (b : UInt8) (p : Option UInt8) : Prop := ∀ v, p = some v → b = v

/-- The offset is at most `m_alloc_size`, that is at most the size of the block, and the bytes before the offset are
those written and not yet read. -/
structure Rep (s : BufferState) : Prop where
  wf : s.buf.Wf
  held : List.Forall₂ Agrees s.buf.contents s.pending

/-- After `Extend(len)` there is room for `n` more bytes, and the block is as large as `m_alloc_size` says. -/
def Fits (r : Realloc) (b : CSimpleBuffer) (len : UInt32) (n : Nat) : Prop :=
  b.writeOffset.toNat + n ≤ (grown b.writeOffset len).toNat ∧
    (r.ok = true ∨ (grown b.writeOffset len).toNat ≤ b.buffer.length)

def Sound (s : BufferState) : BufferOp → Prop
  | .write r data =>
    s.buf.writeOffset.toNat + data.length < 2 ^ 32 ∧
      (s.buf.allocSize.toNat < s.buf.writeOffset.toNat + data.length →
        Fits r s.buf (UInt32.ofNat data.length) data.length)
  | .reserve r len =>
    s.buf.writeOffset.toNat + len.toNat < 2 ^ 32 ∧
      (s.buf.allocSize.toNat < s.buf.writeOffset.toNat + len.toNat → Fits r s.buf len len.toNat)
  | .read _ => True
  | .extend r len => Fits r s.buf len 0
  | .receive r data =>
    s.buf.allocSize.toNat - s.buf.writeOffset.toNat < 2048 → Fits r s.buf readBufSize data.length

/-! ## Growing -/

section
variable {r : Realloc} {b c : CSimpleBuffer} {len : UInt32} {n : Nat}

/-- There is room for `n` more bytes, in a block as large as `m_alloc_size` says. -/
def Ready (c : CSimpleBuffer) (n : Nat) : Prop :=
  c.writeOffset.toNat + n ≤ c.allocSize.toNat ∧ c.allocSize.toNat ≤ c.buffer.length

theorem fits_iff : Fits r b len n ↔ Ready (b.extend r.heap r.ok len) n := by
  unfold Fits Ready CSimpleBuffer.extend
  cases r.ok with
  | false => simp [grown]
  | true => simp [grown]

theorem contents_extend (hb : b.Wf) (h : Ready (b.extend r.heap r.ok len) n) :
    (b.extend r.heap r.ok len).contents = b.contents := by
  have hle : b.writeOffset.toNat + n ≤ (grown b.writeOffset len).toNat := h.1
  have hoffset : b.writeOffset.toNat ≤ b.buffer.length := hb.offset_le.trans hb.alloc_le
  unfold contents CSimpleBuffer.extend
  cases r.ok with
  | false => rfl
  | true => exact Block.take_grow _ ((Nat.le_add_right _ n).trans hle) hoffset

@[simp] theorem growIf_writeOffset (wanted : Bool) : (b.growIf wanted r len).writeOffset = b.writeOffset := by
  unfold growIf
  split <;> rfl

theorem ready_growIf_iff (hb : b.Wf) (wanted : Bool) :
    Ready (b.growIf wanted r len) n ↔
      if wanted then Fits r b len n else b.writeOffset.toNat + n ≤ b.allocSize.toNat := by
  unfold growIf
  cases wanted with
  | false => exact and_iff_left hb.alloc_le
  | true => exact fits_iff.symm

theorem contents_growIf (hb : b.Wf) {wanted : Bool} (h : Ready (b.growIf wanted r len) n) :
    (b.growIf wanted r len).contents = b.contents := by
  unfold growIf at h ⊢
  cases wanted with
  | false => rfl
  | true => exact contents_extend hb h

/-! ## Appending -/

theorem Ready.inside {data : List UInt8} (h : Ready c data.length) : Inside c data :=
  Or.inr (h.1.trans h.2)

/-- The state after some more bytes, written or skipped, stands for them exactly when there is room. -/
theorem rep_append_iff {pending new : List (Option UInt8)} {block : List UInt8}
    (hpending : pending.length = c.writeOffset.toNat) (hnew : new.length = len.toNat)
    (hblock : block.length = c.buffer.length)
    (hheld : Ready c len.toNat → List.Forall₂ Agrees (block.take (c.writeOffset.toNat + len.toNat)) (pending ++ new)) :
    Rep ⟨⟨block, c.allocSize, c.writeOffset + len⟩, pending ++ new⟩ ↔ Ready c len.toNat := by
  constructor
  · intro h
    have hlength := h.held.length_eq
    have hwf : Wf ⟨block, c.allocSize, c.writeOffset + len⟩ := h.wf
    have hoffset : (c.writeOffset + len).toNat = c.writeOffset.toNat + len.toNat := by
      rw [hwf.length_contents, List.length_append, hpending, hnew] at hlength
      exact hlength
    have hle := hwf.offset_le
    have halloc := hwf.alloc_le
    simp only [hoffset, hblock] at hle halloc
    exact ⟨hle, halloc⟩
  · intro h
    have hlt := c.allocSize.toNat_lt
    have hoffset : (c.writeOffset + len).toNat = c.writeOffset.toNat + len.toNat := by
      rw [UInt32.toNat_add, Nat.mod_eq_of_lt (h.1.trans_lt hlt)]
    refine ⟨⟨?_, ?_⟩, ?_⟩
    · simp only [hoffset]
      exact h.1
    · simp only [hblock]
      exact h.2
    · simp only [contents, hoffset]
      exact hheld h

theorem agrees_map_some (data : List UInt8) : List.Forall₂ Agrees data (data.map some) := by
  induction data with
  | nil => exact .nil
  | cons b data ih => exact .cons (fun v hv => Option.some.inj hv) ih

theorem agrees_replicate_none (bytes : List UInt8) :
    List.Forall₂ Agrees bytes (List.replicate bytes.length none) := by
  induction bytes with
  | nil => exact .nil
  | cons b bytes ih => exact .cons (fun v hv => absurd hv (Option.some_ne_none v).symm) ih

/-- Bytes that are stored and counted. -/
theorem stored_iff {pending : List (Option UInt8)} {data : List UInt8} (hlen : len.toNat = data.length)
    (hheld : Ready c data.length → List.Forall₂ Agrees c.contents pending)
    (hpending : pending.length = c.writeOffset.toNat) :
    (Inside c data ∧
      Rep ⟨⟨Block.store c.buffer c.writeOffset.toNat data, c.allocSize, c.writeOffset + len⟩,
        pending ++ data.map some⟩) ↔ Ready c data.length := by
  have hblock : Inside c data →
      (Block.store c.buffer c.writeOffset.toNat data).length = c.buffer.length := by
    rintro (rfl | hin)
    · simp [Block.store]
    · exact Block.length_store hin
  have hiff : Inside c data →
      (Rep ⟨⟨Block.store c.buffer c.writeOffset.toNat data, c.allocSize, c.writeOffset + len⟩,
        pending ++ data.map some⟩ ↔ Ready c data.length) := by
    intro hin
    rw [← hlen]
    refine rep_append_iff hpending (by rw [List.length_map, hlen]) (hblock hin) fun hready => ?_
    rw [hlen] at hready ⊢
    have hle := hready.1
    have halloc := hready.2
    rw [Block.take_store (by omega)]
    exact List.rel_append (hheld hready) (agrees_map_some data)
  exact ⟨fun h => (hiff h.1).mp h.2, fun h => ⟨h.inside, (hiff h.inside).mpr h⟩⟩

/-- Bytes that are skipped and counted. -/
theorem skipped_iff {pending : List (Option UInt8)}
    (hheld : Ready c len.toNat → List.Forall₂ Agrees c.contents pending)
    (hpending : pending.length = c.writeOffset.toNat) :
    Rep ⟨⟨c.buffer, c.allocSize, c.writeOffset + len⟩, pending ++ List.replicate len.toNat none⟩ ↔
      Ready c len.toNat := by
  refine rep_append_iff hpending List.length_replicate rfl fun hready => ?_
  have hle := hready.1
  have halloc := hready.2
  rw [List.take_add]
  refine List.rel_append (hheld hready) ?_
  have hlength : ((c.buffer.drop c.writeOffset.toNat).take len.toNat).length = len.toNat := by
    rw [List.length_take, List.length_drop]
    omega
  have hany := agrees_replicate_none ((c.buffer.drop c.writeOffset.toNat).take len.toNat)
  rwa [hlength] at hany

/-! ## What asks for more -/

theorem isFull_iff {b : CSimpleBuffer} (h : b.writeOffset.toNat + len.toNat < 2 ^ 32) :
    b.isFull len = true ↔ b.allocSize.toNat < b.writeOffset.toNat + len.toNat := by
  rw [isFull, decide_eq_true_iff, UInt32.lt_iff_toNat_lt, UInt32.toNat_add, Nat.mod_eq_of_lt h]

theorem ready_full_iff (hb : b.Wf) :
    Ready (b.growIf (b.isFull len) r len) len.toNat ↔ b.writeOffset.toNat + len.toNat < 2 ^ 32 ∧
      (b.allocSize.toNat < b.writeOffset.toNat + len.toNat → Fits r b len len.toNat) := by
  by_cases hwrap : b.writeOffset.toNat + len.toNat < 2 ^ 32
  · rw [ready_growIf_iff hb, and_iff_right hwrap]
    by_cases hfull : b.isFull len = true
    · simp [hfull, (isFull_iff hwrap).mp hfull]
    · have hroom := mt (isFull_iff hwrap).mpr hfull
      simp [hfull, hroom, Nat.not_lt.mp hroom]
  · refine iff_of_false (fun h => hwrap ?_) fun h => hwrap h.1
    have hlt := (b.growIf (b.isFull len) r len).allocSize.toNat_lt
    have hle := h.1
    rw [growIf_writeOffset] at hle
    omega

theorem ready_short_iff (hb : b.Wf) (hn : n ≤ readBufSize.toNat) :
    Ready (b.growIf b.isShort r readBufSize) n ↔
      (b.allocSize.toNat - b.writeOffset.toNat < 2048 → Fits r b readBufSize n) := by
  have hle := hb.offset_le
  have hfree : (b.allocSize - b.writeOffset).toNat = b.allocSize.toNat - b.writeOffset.toNat :=
    UInt32.toNat_sub_of_le _ _ (UInt32.le_iff_toNat_le.mpr hle)
  have hshort : b.isShort = true ↔ b.allocSize.toNat - b.writeOffset.toNat < 2048 := by
    rw [isShort, decide_eq_true_iff, UInt32.lt_iff_toNat_lt, hfree]
    rfl
  have hn' : n ≤ 2048 := hn
  rw [ready_growIf_iff hb]
  by_cases h : b.isShort = true
  · simp [h, hshort.mp h]
  · have hlong := mt hshort.mpr h
    simp [h, hlong]
    omega

end

/-! ## A step -/

section
variable {s s' : BufferState}

theorem Rep.length_pending (h : Rep s) : s.pending.length = s.buf.writeOffset.toNat := by
  rw [← h.wf.length_contents, h.held.length_eq]

theorem Rep.held_growIf (h : Rep s) {wanted : Bool} {r : Realloc} {len : UInt32} {n : Nat}
    (hready : Ready (s.buf.growIf wanted r len) n) :
    List.Forall₂ Agrees (s.buf.growIf wanted r len).contents s.pending := by
  rw [contents_growIf h.wf hready]
  exact h.held

theorem write_some_eq (r : Realloc) (b : CSimpleBuffer) (data : List UInt8) (len : UInt32) :
    b.write r.heap r.ok (some data) len =
      ⟨Block.store (b.growIf (b.isFull len) r len).buffer (b.growIf (b.isFull len) r len).writeOffset.toNat
          (data.take len.toNat),
        (b.growIf (b.isFull len) r len).allocSize, (b.growIf (b.isFull len) r len).writeOffset + len⟩ := by
  unfold CSimpleBuffer.write growIf isFull
  simp only [decide_eq_true_iff]

theorem write_none_eq (r : Realloc) (b : CSimpleBuffer) (len : UInt32) :
    b.write r.heap r.ok none len =
      ⟨(b.growIf (b.isFull len) r len).buffer, (b.growIf (b.isFull len) r len).allocSize,
        (b.growIf (b.isFull len) r len).writeOffset + len⟩ := by
  unfold CSimpleBuffer.write growIf isFull
  simp only [decide_eq_true_iff]

theorem write_iff (h : Rep s) (r : Realloc) (data : List UInt8) (hstep : step (.write r data) s = some s') :
    StoresInside s (.write r data) ∧ Rep s' ↔ Sound s (.write r data) := by
  obtain ⟨hdata, heq⟩ := Option.ite_none_right_eq_some.mp hstep
  cases heq
  have hlen : (UInt32.ofNat data.length).toNat = data.length := by
    rw [UInt32.toNat_ofNat', Nat.mod_eq_of_lt hdata]
  have hready : Ready (s.buf.growIf (s.buf.isFull (UInt32.ofNat data.length)) r (UInt32.ofNat data.length)) _ ↔ _ :=
    ready_full_iff h.wf
  rw [hlen] at hready
  rw [write_some_eq, hlen, List.take_length]
  exact (stored_iff hlen h.held_growIf (h.length_pending.trans (by rw [growIf_writeOffset]))).trans hready

theorem reserve_iff (h : Rep s) (r : Realloc) (len : UInt32) (hstep : step (.reserve r len) s = some s') :
    StoresInside s (.reserve r len) ∧ Rep s' ↔ Sound s (.reserve r len) := by
  cases hstep
  rw [write_none_eq]
  refine (and_iff_right trivial).trans ?_
  exact (skipped_iff h.held_growIf (h.length_pending.trans (by rw [growIf_writeOffset]))).trans (ready_full_iff h.wf)

theorem receive_iff (h : Rep s) (r : Realloc) (data : List UInt8) (hstep : step (.receive r data) s = some s') :
    StoresInside s (.receive r data) ∧ Rep s' ↔ Sound s (.receive r data) := by
  obtain ⟨hdata, heq⟩ := Option.ite_none_right_eq_some.mp hstep
  cases heq
  have hlen : (UInt32.ofNat data.length).toNat = data.length := by
    have hdata' : data.length ≤ 2048 := hdata
    rw [UInt32.toNat_ofNat', Nat.mod_eq_of_lt (by omega)]
  exact (stored_iff hlen h.held_growIf (h.length_pending.trans (by rw [growIf_writeOffset]))).trans
    (ready_short_iff h.wf hdata)

theorem extend_iff (h : Rep s) (r : Realloc) (len : UInt32) (hstep : step (.extend r len) s = some s') :
    StoresInside s (.extend r len) ∧ Rep s' ↔ Sound s (.extend r len) := by
  cases hstep
  refine (and_iff_right trivial).trans ?_
  refine Iff.trans ⟨fun h' => ?_, fun hready => ?_⟩ fits_iff.symm
  · exact ⟨h'.wf.offset_le, h'.wf.alloc_le⟩
  · refine ⟨⟨hready.1, hready.2⟩, ?_⟩
    rw [contents_extend h.wf hready]
    exact h.held

/-- More than there is cannot be read. -/
theorem read_eq_of_lt {b : CSimpleBuffer} {len : UInt32} (h : b.writeOffset < len) :
    b.read len = b.read b.writeOffset := by
  simp [CSimpleBuffer.read, h]

theorem read_rep (h : Rep s) (len : UInt32) (hstep : step (.read len) s = some s') :
    StoresInside s (.read len) ∧ Rep s' := by
  cases hstep
  have hle := h.wf.offset_le
  have halloc := h.wf.alloc_le
  -- what is read at most
  obtain ⟨k, hk, hread, hdrop⟩ : ∃ k : UInt32, k.toNat ≤ s.buf.writeOffset.toNat ∧
      s.buf.read len = s.buf.read k ∧ s.pending.drop len.toNat = s.pending.drop k.toNat := by
    by_cases hlt : s.buf.writeOffset < len
    · refine ⟨s.buf.writeOffset, Nat.le_refl _, read_eq_of_lt hlt, ?_⟩
      have hlong := UInt32.lt_iff_toNat_lt.mp hlt
      rw [List.drop_of_length_le (by rw [h.length_pending]; omega),
        List.drop_of_length_le (by rw [h.length_pending])]
    · exact ⟨len, UInt32.le_iff_toNat_le.mp (UInt32.not_lt.mp hlt), rfl, rfl⟩
  obtain ⟨-, hwf, hcontents⟩ := read_spec h.wf hk
  rw [hread, hdrop]
  refine ⟨?_, hwf, ?_⟩
  · show (s.buf.read len).2.writeOffset.toNat ≤ s.buf.buffer.length
    rw [hread, read_writeOffset _ _ (UInt32.le_iff_toNat_le.mpr hk),
      UInt32.toNat_sub_of_le _ _ (UInt32.le_iff_toNat_le.mpr hk)]
    omega
  · rw [hcontents]
    exact List.forall₂_drop _ h.held

/-- A step does what it should exactly when its growth gives room. -/
theorem step_iff (h : Rep s) (op : BufferOp) (hstep : step op s = some s') :
    StoresInside s op ∧ Rep s' ↔ Sound s op := by
  cases op with
  | write r data => exact write_iff h r data hstep
  | reserve r len => exact reserve_iff h r len hstep
  | read len => exact iff_of_true (read_rep h len hstep) trivial
  | extend r len => exact extend_iff h r len hstep
  | receive r data => exact receive_iff h r data hstep

/-! ## Every run -/

theorem rep_init : Rep init := ⟨wf_empty, .nil⟩

/-- In every run of sound steps the buffer stands for the bytes written and not yet read, and no step has stored
past the block; and the first step that is not sound breaks one or the other. -/
theorem rep_of_reaches (h : Transition.Reaches step Sound init s) :
    Rep s ∧ ∀ op s', step op s = some s' → (StoresInside s op ∧ Rep s' ↔ Sound s op) := by
  have hrep : Rep s := h.invariant rep_init fun _ op _ hrep hsound hstep => ((step_iff hrep op hstep).mpr hsound).2
  exact ⟨hrep, fun op _ hstep => step_iff hrep op hstep⟩

end

/-- New cells that hold zeros. -/
def zeros : Heap := fun _ _ => 0

/-- A byte is written to an empty buffer, and `realloc` fails. -/
theorem not_storesInside_failed :
    (∃ s', step (.write ⟨false, zeros⟩ [1]) init = some s' ∧ s'.buf.allocSize = 1) ∧
      ¬ StoresInside init (.write ⟨false, zeros⟩ [1]) := by
  refine ⟨⟨_, rfl, rfl⟩, ?_⟩
  rintro (h | h)
  · cases h
  · exact absurd h (by decide)

/-- Three bytes are written, and one of them is read. -/
theorem rep_of_reaches_three :
    ∃ s, Transition.run step [.write ⟨true, zeros⟩ [1, 2, 3], .read 1] init = some s ∧ Rep s ∧
      s.pending = [some 2, some 3] := by
  have hstart : Transition.Reaches step Sound init init := .start
  have hsound : Sound init (.write ⟨true, zeros⟩ [1, 2, 3]) := ⟨by decide, fun _ => ⟨by decide, Or.inl rfl⟩⟩
  have hwrite := hstart.step _ hsound rfl
  have hsafe : ∀ s : BufferState, Sound s (.read 1) := fun _ => trivial
  have hread := hwrite.step _ (hsafe _) rfl
  exact ⟨_, rfl, (rep_of_reaches hread).1, rfl⟩

end BufferState

end PostfixEdm
