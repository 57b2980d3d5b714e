import Rtl88x2cu.Lib.Bytes

/-!
# Ethernet addresses and the system time

The six octets of a MAC address, and the comparison of two system times, which wrap around.
-/

namespace Rtl88x2cu

open Bytes (Byte)

/-- `u8 [ETH_ALEN]`. -/
structure EthAddr where
  o0 : Byte
  o1 : Byte
  o2 : Byte
  o3 : Byte
  o4 : Byte
  o5 : Byte
  deriving DecidableEq, Repr

/-- `IS_MCAST`: the group bit of the first octet. -/
def EthAddr.isMcast (a : EthAddr) : Bool := a.o0.getLsbD 0

/-- `systime`, the counter `jiffies`. -/
abbrev Systime := BitVec 64

/-- `rtw_time_after`: `(long)(b - a) < 0`. -/
def rtwTimeAfter (a b : Systime) : Bool := (b - a).msb

end Rtl88x2cu
