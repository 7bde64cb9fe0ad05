import Mathlib.Data.List.Basic

/-! # Addresses

The networks that `http_request` refuses, and those that are not public.
-/

namespace Hill90.Agentbox

abbrev IPv4 := BitVec 32

abbrev IPv6 := BitVec 128

def ofOctets (a b c d : ℕ) : IPv4 := BitVec.ofNat 32 (((a * 256 + b) * 256 + c) * 256 + d)

structure Network (w : ℕ) where
  base : BitVec w
  bits : ℕ
  deriving DecidableEq, Repr

def Network.contains {w : ℕ} (n : Network w) (addr : BitVec w) : Bool :=
  addr >>> (w - n.bits) = n.base >>> (w - n.bits)

/-- `_BLOCKED_CIDRS`. -/
def blockedCidrs : List (Network 32) :=
  [⟨ofOctets 127 0 0 0, 8⟩, ⟨ofOctets 10 0 0 0, 8⟩, ⟨ofOctets 172 16 0 0, 12⟩,
    ⟨ofOctets 192 168 0 0, 16⟩, ⟨ofOctets 169 254 0 0, 16⟩, ⟨ofOctets 100 64 0 0, 10⟩]

def IPv4.blocked (addr : IPv4) : Bool := blockedCidrs.any fun cidr => cidr.contains addr

/-- `_is_blocked_host`, on what the resolver answers; no answer is an error of the resolver. -/
def isBlockedHost : Option (List IPv4) → Bool
  | none => true
  | some addrs => addrs.any IPv4.blocked

/-- The networks that are neither public nor in the list: this network, protocol assignments,
documentation, benchmarks, multicast, and the reserved addresses with the broadcast address. -/
def unlistedCidrs : List (Network 32) :=
  [⟨ofOctets 0 0 0 0, 8⟩, ⟨ofOctets 192 0 0 0, 24⟩, ⟨ofOctets 192 0 2 0, 24⟩,
    ⟨ofOctets 198 18 0 0, 15⟩, ⟨ofOctets 198 51 100 0, 24⟩, ⟨ofOctets 203 0 113 0, 24⟩,
    ⟨ofOctets 224 0 0 0, 4⟩, ⟨ofOctets 240 0 0 0, 4⟩]

def IPv4.unlisted (addr : IPv4) : Bool := unlistedCidrs.any fun cidr => cidr.contains addr

inductive Address where
  | v4 (addr : IPv4)
  | v6 (addr : IPv6)
  deriving DecidableEq, Repr

def nonPublicV6 : List (Network 128) :=
  [⟨0, 128⟩, ⟨1, 128⟩, ⟨0x100 <<< 112, 64⟩, ⟨0x20010db8 <<< 96, 32⟩, ⟨0xfc <<< 120, 7⟩,
    ⟨0xfe80 <<< 112, 10⟩, ⟨0xff <<< 120, 8⟩]

/-- An address of version 6 that stands for one of version 4. -/
def IPv6.mapped (addr : IPv6) : Option IPv4 :=
  if addr >>> 32 = 0xffff then some (addr.truncate 32) else none

def IPv4.isPublic (addr : IPv4) : Bool := !addr.blocked && !addr.unlisted

def Address.isPublic : Address → Bool
  | v4 addr => addr.isPublic
  | v6 addr =>
    match addr.mapped with
    | some inner => inner.isPublic
    | none => !nonPublicV6.any fun cidr => cidr.contains addr

example : IPv4.blocked (ofOctets 172 31 0 1) = true := by decide

end Hill90.Agentbox
