import Mathlib.Init

/-!
# The deterministic hasher

A multiply-and-xor hasher with a fixed seed.  Integers are written in
little-endian order, sizes as 64-bit integers, and a string as its bytes followed
by `0xff`.
-/

namespace Asupersync

structure DetHasher where
  state : UInt64
deriving DecidableEq, Repr

namespace DetHasher

def seed : UInt64 := 0x16f11fe89b0d677c

def multiplier : UInt64 := 0x517cc1b727220a95

/-- A fresh hasher. -/
def default : DetHasher := ⟨seed⟩

def mixByte (h : DetHasher) (byte : UInt8) : DetHasher :=
  ⟨(h.state * multiplier) ^^^ byte.toUInt64⟩

def mixBytes (h : DetHasher) (bytes : List UInt8) : DetHasher := bytes.foldl mixByte h

/-- The bytes of a 64-bit integer, the lowest one first. -/
def toLeBytes (i : UInt64) : List UInt8 :=
  (List.range 8).map (fun k => (i >>> (8 * UInt64.ofNat k)).toUInt8)

def writeU8 (h : DetHasher) (i : UInt8) : DetHasher := h.mixByte i

def writeU64 (h : DetHasher) (i : UInt64) : DetHasher := h.mixBytes (toLeBytes i)

def writeUsize (h : DetHasher) (i : Nat) : DetHasher := h.writeU64 (UInt64.ofNat i)

def writeStr (h : DetHasher) (s : String) : DetHasher :=
  (h.mixBytes s.toUTF8.data.toList).writeU8 0xff

def finish (h : DetHasher) : UInt64 :=
  let h := h.state ^^^ (h.state >>> 33)
  let h := h * 0xff51afd7ed558ccd
  let h := h ^^^ (h >>> 33)
  let h := h * 0xc4ceb9fe1a85ec53
  h ^^^ (h >>> 33)

end DetHasher

end Asupersync
