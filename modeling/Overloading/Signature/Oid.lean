import Overloading.Signature.Basic

/-! # Object identifiers

A signature has a stable number, so that catalog clients can refer to it: the FNV-1a hash of a key
that names the function and its argument terms. The result, the kind, the dots of a variadic
signature and the binding rules are not part of the key. -/

namespace Overloading

namespace Fnv

/-- The hash of no bytes. -/
def basis : UInt32 := 0x811C9DC5

/-- The factor of one step. -/
def prime : UInt32 := 0x01000193

/-- One step of the hash. -/
def step (h : UInt32) (b : UInt8) : UInt32 := (h ^^^ b.toUInt32) * prime

/-- The 32-bit FNV-1a hash of some bytes. -/
def hash (bytes : List UInt8) : UInt32 := bytes.foldl step basis

end Fnv

namespace Signature

/-- The version of the key and of the hash. -/
def oidVersion : Nat := 1

/-- The text that the number of a signature is made of. -/
def oidKey (s : Signature) : String :=
  "proc:" ++ s.name.render ++ "(" ++ ",".intercalate (s.args.map TypeTerm.render) ++ ")"

/-- The number of the signature: the hash of the UTF-8 bytes of its key, as a signed word. -/
def oid (s : Signature) : Int32 := (Fnv.hash s.oidKey.toUTF8.data.toList).toInt32

example : (Signature.oid { name := { name := "f" } }).toInt = -1696449606 := by decide +kernel

end Signature

end Overloading
