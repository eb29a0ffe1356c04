import PostfixEdm.Conn.Read

/-!
# When a further write edge is due

A descriptor that is registered edge-triggered becomes writable again only after it has refused something.

* `SendCall.Short` : a `netlib_send` that took fewer bytes than it was offered;
* `CImConn.Flagged` : nothing is buffered unless `m_busy` says so. `Send`, `OnWrite` and the first loop of `OnRead` keep
  it, also where sizes wrap around;
* `CImConn.onWrite_due`, `CImConn.send_due` : after `OnWrite`, and after a `Send` that is not deferred, `m_out_buf` is
  empty or a call was short;
* `CImConn.sendAll_due`, `CImConn.sendAll_busy` : the same for several `Send`s, and what they do while `m_busy` is set.
-/

namespace PostfixEdm

def SendCall.Short (call : SendCall) : Prop := call.ret < call.offered

theorem sliceSize_pos {remain : Nat} (h : 0 < remain) : 0 < sliceSize remain := by
  unfold sliceSize
  split
  · exact Nat.two_pow_pos 17
  · exact h

/-- A call that takes nothing is short. -/
theorem short_of_nonpos {remain : Nat} {ret : Int} (hremain : 0 < remain) (hret : ret ≤ 0) :
    (⟨sliceSize remain, ret⟩ : SendCall).Short := by
  have hslice := sliceSize_pos hremain
  unfold SendCall.Short
  dsimp only
  omega

/-- The loop of `Send` ends when nothing is left, or with a short call. -/
theorem sendLoop_due {fuel : Nat} {socket : Socket} {data : List UInt8} (h : data.length ≤ fuel) :
    (sendLoop fuel socket data).2 = [] ∨ ∃ call ∈ sendCalls fuel socket data, call.Short := by
  induction fuel generalizing socket data with
  | zero => exact .inl (List.eq_nil_of_length_eq_zero (Nat.le_zero.mp h))
  | succ fuel ih =>
    unfold sendLoop sendCalls
    dsimp only
    split
    · next hpos =>
      split
      · next hret => exact .inr ⟨_, List.mem_cons_self, short_of_nonpos hpos hret⟩
      · next hret =>
        have hdrop : (data.drop (netlibSend (socket 0) (sliceSize data.length)).toNat).length ≤ fuel := by
          rw [List.length_drop]
          omega
        rcases ih hdrop with hnil | ⟨call, hmem, hshort⟩
        · exact .inl hnil
        · exact .inr ⟨call, List.mem_cons_of_mem _ hmem, hshort⟩
    · next hpos => exact .inl (List.eq_nil_of_length_eq_zero (Nat.eq_zero_of_not_pos hpos))

theorem toNat_writeOffset_read (b : CSimpleBuffer) {n : Nat} (h : n ≤ b.writeOffset.toNat) :
    (b.read (UInt32.ofNat n)).2.writeOffset.toNat = b.writeOffset.toNat - n := by
  have hn : (UInt32.ofNat n).toNat = n := by
    have hlt := b.writeOffset.toNat_lt
    rw [UInt32.toNat_ofNat', Nat.mod_eq_of_lt (by omega)]
  unfold CSimpleBuffer.read
  dsimp only
  have hle : UInt32.ofNat n ≤ b.writeOffset := by
    rw [UInt32.le_iff_toNat_le, hn]
    exact h
  rw [if_neg (UInt32.not_lt.mpr hle), UInt32.toNat_sub_of_le _ _ hle, hn]

/-- The loop of `OnWrite` ends when the buffer is empty, or with a short call. -/
theorem writeLoop_due {fuel : Nat} {socket : Socket} {b : CSimpleBuffer} (h : b.writeOffset.toNat ≤ fuel) :
    (writeLoop fuel socket b).2.writeOffset = 0 ∨ ∃ call ∈ writeCalls fuel socket b, call.Short := by
  induction fuel generalizing socket b with
  | zero => exact .inl (UInt32.toNat_inj.mp (Nat.le_zero.mp h))
  | succ fuel ih =>
    unfold writeLoop writeCalls
    dsimp only
    split
    · next hpos =>
      rw [UInt32.lt_iff_toNat_lt] at hpos
      split
      · next hret => exact .inr ⟨_, List.mem_cons_self, short_of_nonpos hpos hret⟩
      · next hret =>
        have hread := toNat_writeOffset_read b (taken_le (socket 0) b.writeOffset.toNat)
        have hle :
            (b.read (UInt32.ofNat (netlibSend (socket 0) (sliceSize b.writeOffset.toNat)).toNat)).2.writeOffset.toNat ≤
            fuel := by omega
        rcases ih hle with hzero | ⟨call, hmem, hshort⟩
        · exact .inl hzero
        · exact .inr ⟨call, List.mem_cons_of_mem _ hmem, hshort⟩
    · next hpos =>
      rw [UInt32.lt_iff_toNat_lt] at hpos
      exact .inl (UInt32.toNat_inj.mp (Nat.eq_zero_of_not_pos hpos))

namespace CImConn

def Flagged (conn : CImConn) : Prop := conn.busy = false → conn.outBuf.writeOffset = 0

variable {conn : CImConn}

theorem flagged_init : CImConn.init.Flagged := fun _ => rfl

theorem Flagged.send (h : conn.Flagged) (heap : Heap) (socket : Socket) (data : List UInt8) :
    (conn.send heap socket data).2.Flagged := by
  unfold CImConn.send
  split
  · next hbusy =>
    intro hidle
    simp [hbusy] at hidle
  · dsimp only
    split
    · exact nofun
    · exact h

theorem Flagged.onWrite (h : conn.Flagged) (socket : Socket) : (conn.onWrite socket).2.Flagged := by
  unfold CImConn.onWrite
  split
  · next hbusy =>
    intro hidle
    dsimp only at hidle ⊢
    split at hidle
    · assumption
    · simp [hbusy] at hidle
  · exact h

theorem recvLoop_out (heap : Heap) (recvs : List (List UInt8)) (conn : CImConn) :
    (recvLoop heap recvs conn).busy = conn.busy ∧ (recvLoop heap recvs conn).outBuf = conn.outBuf := by
  induction recvs generalizing conn with
  | nil => exact ⟨rfl, rfl⟩
  | cons data recvs ih => exact ih _

theorem Flagged.recvLoop (h : conn.Flagged) (heap : Heap) (recvs : List (List UInt8)) :
    (recvLoop heap recvs conn).Flagged := by
  obtain ⟨hbusy, hout⟩ := recvLoop_out heap recvs conn
  unfold Flagged
  rw [hbusy, hout]
  exact h

theorem onWrite_due (h : conn.Flagged) (socket : Socket) :
    (conn.onWrite socket).2.outBuf.writeOffset = 0 ∨ ∃ call ∈ conn.writeCalls socket, call.Short := by
  unfold CImConn.onWrite CImConn.writeCalls
  split
  · exact writeLoop_due (Nat.le_refl _)
  · next hidle => exact .inl (h (Bool.not_eq_true _ ▸ hidle))

theorem send_due (hidle : conn.busy = false) (heap : Heap) (socket : Socket) (data : List UInt8) :
    (conn.send heap socket data).2 = conn ∨ ∃ call ∈ conn.sendCalls socket data, call.Short := by
  have hnot : ¬ conn.busy = true := by simp [hidle]
  have hdue : (sendLoop data.length socket data).2 = [] ∨ _ := sendLoop_due (Nat.le_refl data.length)
  unfold CImConn.send CImConn.sendCalls
  rw [if_neg hnot, if_neg hnot]
  refine hdue.imp_left fun hnil => ?_
  dsimp only
  rw [hnil]
  simp

/-- A deferred `Send` calls nothing and buffers everything. -/
theorem send_busy (hbusy : conn.busy = true) (heap : Heap) (socket : Socket) (data : List UInt8) :
    conn.sendCalls socket data = [] ∧ (conn.send heap socket data).2.busy = true ∧
      (conn.send heap socket data).2.outBuf.writeOffset = conn.outBuf.writeOffset + UInt32.ofNat data.length := by
  unfold CImConn.send CImConn.sendCalls
  rw [if_pos hbusy, if_pos hbusy]
  refine ⟨rfl, hbusy, ?_⟩
  unfold CSimpleBuffer.write
  dsimp only
  split
  · unfold CSimpleBuffer.extend
    rfl
  · rfl

end CImConn

/-! ## Several `Send`s -/

/-- What one `Send` meets and is given. -/
structure SendInput where
  heap : Heap
  socket : Socket
  data : List UInt8

namespace CImConn

/-- The calls of `netlib_send` that one `Send` after the other makes, and the connection after them. -/
def sendAll : List SendInput → CImConn → List SendCall × CImConn
  | [], conn => ([], conn)
  | input :: rest, conn =>
    let (calls, after) := sendAll rest (conn.send input.heap input.socket input.data).2
    (conn.sendCalls input.socket input.data ++ calls, after)

theorem sendAll_due (inputs : List SendInput) {conn : CImConn} (hidle : conn.busy = false) :
    (sendAll inputs conn).2 = conn ∨ ∃ call ∈ (sendAll inputs conn).1, call.Short := by
  induction inputs generalizing conn with
  | nil => exact .inl rfl
  | cons input rest ih =>
    unfold sendAll
    dsimp only
    rcases send_due hidle input.heap input.socket input.data with hsame | ⟨call, hmem, hshort⟩
    · rw [hsame]
      refine (ih hidle).imp_right fun ⟨call, hmem, hshort⟩ => ⟨call, ?_, hshort⟩
      exact List.mem_append_right _ hmem
    · exact .inr ⟨call, List.mem_append_left _ hmem, hshort⟩

/-- While something is buffered, everything is. -/
theorem sendAll_busy (inputs : List SendInput) {conn : CImConn} (hbusy : conn.busy = true)
    (hsize : conn.outBuf.writeOffset.toNat + (inputs.map fun input => input.data.length).sum < 2 ^ 32) :
    (sendAll inputs conn).1 = [] ∧ (sendAll inputs conn).2.outBuf.writeOffset.toNat =
      conn.outBuf.writeOffset.toNat + (inputs.map fun input => input.data.length).sum := by
  induction inputs generalizing conn with
  | nil => exact ⟨rfl, rfl⟩
  | cons input rest ih =>
    obtain ⟨hcalls, hbusy', hoffset⟩ := send_busy hbusy input.heap input.socket input.data
    rw [List.map_cons, List.sum_cons] at hsize ⊢
    have hnext : (conn.send input.heap input.socket input.data).2.outBuf.writeOffset.toNat =
        conn.outBuf.writeOffset.toNat + input.data.length := by
      rw [hoffset, UInt32.toNat_add, UInt32.toNat_ofNat', Nat.add_mod_mod, Nat.mod_eq_of_lt (by omega)]
    obtain ⟨hrest, hend⟩ := ih hbusy' (by omega)
    unfold sendAll
    dsimp only
    rw [hcalls, hrest, hend, hnext]
    exact ⟨rfl, Nat.add_assoc _ _ _⟩

end CImConn

end PostfixEdm
