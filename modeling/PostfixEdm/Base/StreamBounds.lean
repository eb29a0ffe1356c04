import PostfixEdm.Base.TypedStream

/-!
# What the reads of a `CByteStream` touch

`_ReadByte` compares `m_pos + len`, a 32-bit sum, with `m_len`, and `ReadString` and `ReadData` move the
position by a length from the data.

* `Kind.width` : the bytes one operation hands to `_ReadByte`; `read_reads` : what a read logs;
* `Guarded` : the sum does not wrap, or is too large all the same; `GuardedRun` : so it is at every read;
* `inside_readAll_iff` : the reads of a run stay inside the stream exactly when they are guarded.
-/

namespace PostfixEdm

/-- The bytes an operation asks `_ReadByte` for. -/
def Kind.width : Kind → UInt32
  | int8 | uint8 => 1
  | int16 | uint16 => 2
  | int32 | uint32 | string | data => 4

theorem Kind.one_le_width (k : Kind) : 1 ≤ k.width.toNat := by cases k <;> decide

/-- Every byte of the reads, given as (offset, length), is one of the first `n`. -/
def Inside (n : Nat) (reads : List (Nat × Nat)) : Prop := ∀ r ∈ reads, ∀ j < r.2, r.1 + j < n

theorem inside_append (n : Nat) (rs ts : List (Nat × Nat)) :
    Inside n (rs ++ ts) ↔ Inside n rs ∧ Inside n ts := List.forall_mem_append

namespace CByteStreamIn

variable (s : CByteStreamIn) (k : Kind)

/-- The test of `_ReadByte` means what it says: the sum of position and width does not wrap, or the wrapped
sum exceeds the length too. -/
def Guarded : Prop :=
  s.pos.toNat + k.width.toNat < 2 ^ 32 ∨ s.len.toNat + 2 ^ 32 < s.pos.toNat + k.width.toNat

/-- Every read of the run is guarded in the state it starts from. -/
def GuardedRun (s : CByteStreamIn) : List Kind → Prop
  | [] => True
  | k :: ks => s.Guarded k ∧ GuardedRun (s.read k).2 ks

/-- Of an operation only the call of `_ReadByte` reads memory. -/
theorem read_frame : (s.read k).2.reads = (s.readByte k.width).2.reads ∧ (s.read k).2.base = s.base ∧
    (s.read k).2.len = s.len := by
  have hbyte : ∀ n, (s.readByte n).2.base = s.base ∧ (s.readByte n).2.len = s.len := by
    intro n
    unfold readByte
    split <;> exact ⟨rfl, rfl⟩
  cases k with
  | int8 | uint8 => exact ⟨rfl, hbyte 1⟩
  | int16 | uint16 => exact ⟨rfl, hbyte 2⟩
  | int32 | uint32 | string | data => exact ⟨rfl, hbyte 4⟩

theorem read_reads : (s.read k).2.reads = s.reads ++
    (if s.len < s.pos + k.width then [] else [(s.base + s.pos.toNat, k.width.toNat)]) := by
  rw [(s.read_frame k).1, readByte]
  split
  · exact (List.append_nil _).symm
  · rfl

variable {s}

/-- A read touches nothing outside exactly when it is guarded. -/
theorem inside_read_iff (hbase : s.base = 0) :
    Inside s.len.toNat (s.read k).2.reads ↔ Inside s.len.toNat s.reads ∧ s.Guarded k := by
  have hpos := s.pos.toNat_lt
  have hlen := s.len.toNat_lt
  have hwidth := k.one_le_width
  have hwidth' := k.width.toNat_lt
  have hsum : (s.pos + k.width).toNat = (s.pos.toNat + k.width.toNat) % 2 ^ 32 := UInt32.toNat_add _ _
  rw [read_reads, inside_append, and_congr_right_iff]
  intro _
  split
  · next h =>
    -- nothing is read: a sum that wraps is still too large
    rw [UInt32.lt_iff_toNat_lt, hsum] at h
    refine iff_of_true (fun r hr => absurd hr List.not_mem_nil) ?_
    unfold Guarded
    omega
  · next h =>
    rw [UInt32.lt_iff_toNat_lt, hsum] at h
    unfold Guarded
    constructor
    · intro hin
      have := hin _ (List.mem_singleton_self _) (k.width.toNat - 1) (by simp only; omega)
      simp only [hbase] at this
      omega
    · rintro hg r hr j hj
      rw [List.mem_singleton] at hr
      subst hr
      simp only [hbase] at hj ⊢
      omega

/-- The reads of a run touch nothing outside exactly when each of them is guarded. -/
theorem inside_run_iff (hbase : s.base = 0) (ks : List Kind) :
    Inside s.len.toNat (s.readAll ks).2.reads ↔ Inside s.len.toNat s.reads ∧ s.GuardedRun ks := by
  induction ks generalizing s with
  | nil => exact (and_iff_left trivial).symm
  | cons k ks ih =>
    have hframe := (s.read_frame k).2
    have := ih (s := (s.read k).2) (hframe.1.trans hbase)
    rw [hframe.2, inside_read_iff k hbase, and_assoc] at this
    exact this

/-- Over an array, every `memcpy` of a sequence of reads stays in the array exactly when each read finds a
position at which the test of `_ReadByte` does not wrap below the length. -/
theorem inside_readAll_iff (mem : Nat → UInt8) (n : UInt32) (uninit : Nat → UInt8) (ks : List Kind) :
    Inside n.toNat ((ofArray mem n uninit).readAll ks).2.reads ↔ (ofArray mem n uninit).GuardedRun ks :=
  (inside_run_iff rfl ks).trans (and_iff_right (fun _ h => absurd h List.not_mem_nil))

/-- Four bytes that say a string of `2^32 - 6` bytes: the position wraps past the next word, and its read
starts at `2^32 - 2`. -/
theorem not_inside_wrapped :
    ¬ Inside 4 ((ofArray (fun i => [0xFF, 0xFF, 0xFF, 0xFA].getD i 0) 4 (fun _ => 0)).readAll
      [.string, .uint16]).2.reads := by
  intro h
  exact absurd (h (4294967294, 2) (by decide) 0 (by decide)) (by decide)

end CByteStreamIn

end PostfixEdm
