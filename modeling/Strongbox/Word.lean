/-!
# Machine words

How many numbers words of some widths tell apart, and the ends of the signed ones.
-/

namespace Strongbox.Word

def count8 : Nat := 0x100

def count16 : Nat := 0x10000

def count32 : Nat := 0x100000000

def count64 : Nat := 0x10000000000000000

def minInt32 : Int := -0x80000000

def maxInt32 : Nat := 0x7fffffff

def maxInt64 : Nat := 0x7fffffffffffffff

end Strongbox.Word
