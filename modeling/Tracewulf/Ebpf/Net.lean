import Tracewulf.Base.Log
import Tracewulf.Base.Layout

/-! The parts of package `net` the reader uses, for IPv4: the text of an address and back, and
membership in a CIDR block. No text of another kind of address reaches them. -/
namespace Tracewulf.Ebpf
open Tracewulf.Base

/-- The four bytes of an address, in the order they are written. -/
structure IPv4 where
  a : UInt8
  b : UInt8
  c : UInt8
  d : UInt8
  deriving DecidableEq

namespace IPv4

def bytes (ip : IPv4) : Bytes := [ip.a,ip.b,ip.c,ip.d]

/-- `net.IPv4(a, b, c, d).String()` -/
def toText (ip : IPv4) : String :=
  toString ip.a.toNat ++ "." ++ toString ip.b.toNat ++ "." ++ toString ip.c.toNat ++ "." ++
    toString ip.d.toNat

end IPv4

/-- The pieces of a text between separators. -/
def splitAt (sep : Char) (s : String) : List (List Char) :=
  let pieces := Lines.cut sep s.toList
  pieces.1 ++ [pieces.2]

def isDigit (c : Char) : Bool := '0' ≤ c ∧ c ≤ '9'

/-- A nonempty text of decimal digits, as a number. -/
def decimal (cs : List Char) : Option ℕ :=
  if cs ≠ [] ∧ cs.all isDigit then
    some (cs.foldl (fun n c => 10*n + (c.toNat - '0'.toNat)) 0)
  else none

/-- One field of a dotted address: no leading zero, at most 255. -/
def parseOctet (cs : List Char) : Option UInt8 := do
  let n ← decimal cs
  if (1 < cs.length ∧ cs.head? = some '0') ∨ 255 < n then none else some (.ofNat n)

def parseIP (s : String) : Option IPv4 :=
  match splitAt '.' s with
  | [a,b,c,d] => do return ⟨← parseOctet a,← parseOctet b,← parseOctet c,← parseOctet d⟩
  | _ => none

/-- `net.CIDRMask`: `n` ones, then zeros, in `len` bytes. -/
def cidrMask : ℕ → ℕ → Bytes
  | _, 0 => []
  | n, len+1 =>
    if 8 ≤ n then 0xff :: cidrMask (n-8) len
    else ~~~((0xff : UInt8) >>> .ofNat n) :: cidrMask 0 len

structure IPNet where
  ip : Bytes
  mask : Bytes
  deriving DecidableEq

def parseCIDR (s : String) : Option IPNet :=
  match splitAt '/' s with
  | [addr,ones] => do
    let ip ← parseIP (String.ofList addr)
    let n ← decimal ones
    if 32 < n then none
    else
      let mask := cidrMask n 4
      some ⟨List.zipWith (· &&& ·) ip.bytes mask,mask⟩
  | _ => none

/-- The block agrees with the address under its mask, byte by byte. -/
def IPNet.contains (n : IPNet) (ip : IPv4) : Bool :=
  n.ip.length = ip.bytes.length ∧
    List.zipWith (· &&& ·) n.ip n.mask = List.zipWith (· &&& ·) ip.bytes n.mask

/-- The program panics on a text that is no block; none of its own is. -/
def mustParseCIDR (s : String) (h : (parseCIDR s).isSome) : IPNet := (parseCIDR s).get h

def privateBlocks : List IPNet :=
  [mustParseCIDR "10.0.0.0/8" (by decide),
    mustParseCIDR "172.16.0.0/12" (by decide),
    mustParseCIDR "192.168.0.0/16" (by decide),
    mustParseCIDR "127.0.0.0/8" (by decide)]

def classify (ip : String) : String :=
  match parseIP ip with
  | none => "unknown"
  | some parsed =>
    if privateBlocks.any fun block => block.contains parsed then "internal" else "external"

example : classify (IPv4.toText ⟨172,31,0,9⟩) = "internal" := by decide
example : classify (IPv4.toText ⟨172,32,0,9⟩) = "external" := by decide

end Tracewulf.Ebpf
