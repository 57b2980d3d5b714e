import Rtl88x2cu.Lib.Bytes

/-!
# The bytes of a received frame

`recvframe_pull` and `recvframe_pull_tail` (`include/rtw_recv.h`) take bytes off the two ends of a
received frame. A frame is known by the bytes from `rx_data` to `rx_tail`, and `len` is their
number.
-/

namespace Rtl88x2cu.Core

open Bytes

/-- `recvframe_pull`, which leaves a frame that is too short as it is. -/
def recvframePull (frame : List Byte) (sz : ℕ) : List Byte :=
  if sz ≤ frame.length then frame.drop sz else frame

/-- `recvframe_pull_tail`, likewise. -/
def recvframePullTail (frame : List Byte) (sz : ℕ) : List Byte :=
  if sz ≤ frame.length then frame.take (frame.length - sz) else frame

variable {frame a b : List Byte} {sz : ℕ}

/-- The first one of two parts is taken off. -/
theorem recvframePull_append (h : a.length = sz) : recvframePull (a ++ b) sz = b := by
  rw [recvframePull, if_pos (by rw [List.length_append]; omega), ← h, List.drop_left]

/-- The last one of two parts is taken off. -/
theorem recvframePullTail_append (h : b.length = sz) : recvframePullTail (a ++ b) sz = a := by
  rw [recvframePullTail, if_pos (by rw [List.length_append]; omega), List.length_append, h,
    Nat.add_sub_cancel, List.take_left]

end Rtl88x2cu.Core
