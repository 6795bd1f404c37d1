import Emrals.Primitives
import Emrals.Lib.Codec

/-!
# Network addresses, and the address check of a ProTx

`CNetAddr` (`src/netaddress.cpp`) keeps an address as 16 bytes in network byte order, an IPv4
address mapped into `::ffff:0:0/96`. Its predicates read those bytes: `GetByte(n)` is byte
`15 - n`, so that `GetByte(3)` is the first octet of an IPv4 address, and a `memcmp` with a prefix
compares the first bytes. `IsValid` rules out the unspecified address, the documentation and
internal ranges, the misaligned addresses of old `addr` messages, and the IPv4 broadcast and zero
addresses; `IsRoutable` also rules out the private, reserved, link-local and loopback ranges.

`CheckService` (`src/special/providertx.cpp:25`) accepts the address of a ProRegTx or a
ProUpServTx when it is valid, routable outside regtest, on a port the network allows, and IPv4. It
reads from the chain parameters the network's name, its default port and whether the network
allows other ports (`src/chainparams.cpp`). What it accepts is a valid IPv4 address
(`checkService_eq_none`), so the unset address `CService()` never passes
(`checkService_default_isSome`).
-/

namespace Emrals

/-- The networks of `CBaseChainParams` (`src/chainparamsbase.cpp:15`). -/
inductive ChainNetwork where
  | main
  | test
  | regtest
  deriving DecidableEq, Repr

/-- The fields of `CChainParams` that `CheckService` reads. -/
structure CChainParams where
  /-- `NetworkIDString()`. -/
  strNetworkID : ChainNetwork
  /-- `GetDefaultPort()`, an `int`. -/
  nDefaultPort : Int
  /-- `AllowMultiplePorts()`. -/
  fAllowMultiplePorts : Bool

/-- `CMainParams` (`src/chainparams.cpp:214,264`): the default port 30001, and other ports
allowed. -/
def CChainParams.main : CChainParams := ⟨.main, 30001, true⟩

namespace CNetAddr

/-- `pchIPv4`: the prefix `::ffff:0:0/96` of a mapped IPv4 address. -/
def pchIPv4 : List UInt8 := [0, 0, 0, 0, 0, 0, 0, 0, 0, 0, 0xff, 0xff]

/-- `pchOnionCat`: the prefix `fd87:d87e:eb43::/48` of a Tor address. -/
def pchOnionCat : List UInt8 := [0xFD, 0x87, 0xD8, 0x7E, 0xEB, 0x43]

/-- `g_internal_prefix`: `0xFD` and the first five bytes of `sha256("emrals")`. -/
def gInternalPrefix : List UInt8 := [0xFD, 0x2b, 0xd8, 0xff, 0x25, 0x83]

section
variable (ip : BitVec 128)

/-- `ip`: the 16 bytes of the address, in network byte order (as `CService` serializes them). -/
def bytes : List UInt8 := Codec.encBE 16 ip.toNat

/-- `GetByte(n)`: `ip[15-n]`. -/
def getByte (n : Nat) : UInt8 := (bytes ip).getD (15 - n) 0

/-- `memcmp(ip + off, pch, sizeof(pch)) == 0`. -/
def bytesEq (off : Nat) (pch : List UInt8) : Bool := pch.isPrefixOf ((bytes ip).drop off)

/-- `IsIPv4`. -/
def isIPv4 : Bool := bytesEq ip 0 pchIPv4

/-- `IsRFC1918`: the private ranges `10/8`, `192.168/16` and `172.16/12`. -/
def isRFC1918 : Bool :=
  isIPv4 ip && (getByte ip 3 == 10 || (getByte ip 3 == 192 && getByte ip 2 == 168) ||
    (getByte ip 3 == 172 && (getByte ip 2 >= 16 && getByte ip 2 <= 31)))

/-- `IsRFC2544`: the benchmarking range `198.18/15`. -/
def isRFC2544 : Bool :=
  isIPv4 ip && getByte ip 3 == 198 && (getByte ip 2 == 18 || getByte ip 2 == 19)

/-- `IsRFC3927`: the link-local range `169.254/16`. -/
def isRFC3927 : Bool := isIPv4 ip && (getByte ip 3 == 169 && getByte ip 2 == 254)

/-- `IsRFC6598`: the shared range `100.64/10`. -/
def isRFC6598 : Bool :=
  isIPv4 ip && getByte ip 3 == 100 && getByte ip 2 >= 64 && getByte ip 2 <= 127

/-- `IsRFC5737`: the documentation ranges `192.0.2/24`, `198.51.100/24` and `203.0.113/24`. -/
def isRFC5737 : Bool :=
  isIPv4 ip && ((getByte ip 3 == 192 && getByte ip 2 == 0 && getByte ip 1 == 2) ||
    (getByte ip 3 == 198 && getByte ip 2 == 51 && getByte ip 1 == 100) ||
    (getByte ip 3 == 203 && getByte ip 2 == 0 && getByte ip 1 == 113))

/-- `IsRFC3849`: the IPv6 documentation range `2001:0DB8::/32`. -/
def isRFC3849 : Bool :=
  getByte ip 15 == 0x20 && getByte ip 14 == 0x01 && getByte ip 13 == 0x0D && getByte ip 12 == 0xB8

/-- `IsRFC4862`: the IPv6 autoconfiguration range `FE80::/64`. -/
def isRFC4862 : Bool := bytesEq ip 0 [0xFE, 0x80, 0, 0, 0, 0, 0, 0]

/-- `IsRFC4193`: the IPv6 unique local range `FC00::/7`. -/
def isRFC4193 : Bool := getByte ip 15 &&& 0xFE == 0xFC

/-- `IsRFC4843`: the ORCHID range `2001:10::/28`. -/
def isRFC4843 : Bool :=
  getByte ip 15 == 0x20 && getByte ip 14 == 0x01 && getByte ip 13 == 0x00 &&
    getByte ip 12 &&& 0xF0 == 0x10

/-- `IsRFC7343`: the ORCHIDv2 range `2001:20::/28`. -/
def isRFC7343 : Bool :=
  getByte ip 15 == 0x20 && getByte ip 14 == 0x01 && getByte ip 13 == 0x00 &&
    getByte ip 12 &&& 0xF0 == 0x20

/-- `IsTor`. -/
def isTor : Bool := bytesEq ip 0 pchOnionCat

/-- `IsInternal`: a dummy address that maps a name into IPv6. -/
def isInternal : Bool := bytesEq ip 0 gInternalPrefix

/-- `IsLocal`: the IPv4 loopback `127/8` and `0/8`, or the IPv6 loopback `::1`. -/
def isLocal : Bool :=
  (isIPv4 ip && (getByte ip 3 == 127 || getByte ip 3 == 0)) ||
    bytesEq ip 0 (List.replicate 15 0 ++ [1])

/-- `IsValid`: an address that could refer to an actual host. -/
def isValid : Bool :=
  -- an address read 3 bytes off from a garbled `addr` message: `memcmp(ip, pchIPv4+3, 9)`
  if bytesEq ip 0 (pchIPv4.drop 3) then false
  else if bytesEq ip 0 (List.replicate 16 0) then false
  else if isRFC3849 ip then false
  else if isInternal ip then false
  -- `INADDR_NONE` and `0`
  else if isIPv4 ip && (bytesEq ip 12 [0xff, 0xff, 0xff, 0xff] || bytesEq ip 12 [0, 0, 0, 0]) then
    false
  else true

/-- `IsRoutable`: a valid address that is publicly routable on the internet. -/
def isRoutable : Bool :=
  isValid ip && !(isRFC1918 ip || isRFC2544 ip || isRFC3927 ip || isRFC4862 ip || isRFC6598 ip ||
    isRFC5737 ip || (isRFC4193 ip && !isTor ip) || isRFC4843 ip || isRFC7343 ip || isLocal ip ||
    isInternal ip)

end

/-- The unspecified address `::` is not valid. -/
theorem isValid_zero : isValid 0 = false := by decide

end CNetAddr

open CNetAddr

/-- `CheckService`: `none` when the address of a ProTx passes, else the reject reason. The port, an
`unsigned short`, is compared with the default port as an `int`. -/
def checkService (params : CChainParams) (addr : CService) : Option String :=
  let port : Int := addr.port.toNat
  if !isValid addr.ip then some "bad-protx-addr"
  else if params.strNetworkID != .regtest && !isRoutable addr.ip then some "bad-protx-addr"
  -- the main network may require its default port, the others may forbid it
  else if (if params.strNetworkID == .main then port != params.nDefaultPort
      else port == params.nDefaultPort) && !params.fAllowMultiplePorts then
    some "bad-protx-addr-port"
  else if !isIPv4 addr.ip then some "bad-protx-addr"
  else none

/-- An address that passes `CheckService` is a valid IPv4 address, and routable outside regtest. -/
theorem checkService_eq_none {params : CChainParams} {addr : CService}
    (h : checkService params addr = none) :
    isValid addr.ip = true ∧ isIPv4 addr.ip = true ∧
      (params.strNetworkID ≠ .regtest → isRoutable addr.ip = true) := by
  unfold checkService at h
  dsimp only at h
  -- only the branches past every check return `none`, one for each way the port check reads
  split_ifs at h <;> simp_all

/-- `CService()` fails `CheckService` on every network. -/
theorem checkService_default_isSome (params : CChainParams) :
    (checkService params default).isSome = true := by
  cases h : checkService params default with
  | some _ => rfl
  | none =>
    have hv := (checkService_eq_none h).1
    rw [show (default : CService).ip = 0 from rfl, isValid_zero] at hv
    cases hv

end Emrals
