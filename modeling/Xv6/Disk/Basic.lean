import Xv6.Lib.Bytes
import Xv6.Proc.Basic

namespace Xv6

abbrev BSIZE : Nat := 512

abbrev MAXOPBLOCKS : Nat := 10

abbrev LOGSIZE : Nat := MAXOPBLOCKS * 3

abbrev ROOTDEV : Nat := 1

abbrev FSSIZE : Nat := 1000

abbrev Block : Type := Bytes BSIZE

abbrev Disk : Type := Nat → Block

end Xv6
