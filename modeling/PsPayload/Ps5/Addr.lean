import PsPayload.Ps5.Error

/-!
# Socket addresses

The addresses of the wrappers and the `sockaddr_in` of the system calls, whose
port and address are in network byte order. The target is little endian, so
that the conversion to and from that order swaps the bytes. `Stored` says that
the bytes in memory are those of an address in network byte order; the
conversions keep to it both ways (`stored_to`, `stored_from`).
-/

namespace PsPayload

structure Ipv4Addr where
  a : UInt8
  b : UInt8
  c : UInt8
  d : UInt8
  deriving DecidableEq, Repr

structure SocketAddrV4 where
  ip : Ipv4Addr
  port : UInt16
  deriving DecidableEq, Repr

inductive SocketAddr where
  | v4 (addr : SocketAddrV4)
  | v6
  deriving DecidableEq, Repr

/-- `sockaddr_in`, with its integers as they are stored. -/
structure SockaddrIn where
  sinLen : UInt8
  sinFamily : UInt8
  sinPort : UInt16
  sAddr : UInt32
  deriving DecidableEq, Repr

def AF_INET : Int32 := 2
def SOCKADDR_IN_LEN : UInt8 := 16

/-- `u16::to_be`, `u16::from_be`. -/
def swap16 (n : UInt16) : UInt16 := n <<< 8 ||| n >>> 8

/-- `u32::to_be`, `u32::from_be`. -/
def swap32 (n : UInt32) : UInt32 :=
  let mid : UInt32 := 0xFF00
  n <<< 24 ||| (n &&& mid) <<< 8 ||| (n >>> 8 &&& mid) ||| n >>> 24

/-- `u32::from(Ipv4Addr)`. -/
def Ipv4Addr.toUInt32 (ip : Ipv4Addr) : UInt32 :=
  ip.a.toUInt32 <<< 24 ||| ip.b.toUInt32 <<< 16 ||| ip.c.toUInt32 <<< 8 ||| ip.d.toUInt32

/-- `Ipv4Addr::from(u32)`. -/
def Ipv4Addr.ofUInt32 (n : UInt32) : Ipv4Addr :=
  ⟨(n >>> 24).toUInt8, (n >>> 16).toUInt8, (n >>> 8).toUInt8, n.toUInt8⟩

def requireV4 : SocketAddr → Result SocketAddrV4
  | .v4 v4 => .ok v4
  | .v6 => .error (.invalidInput "IPv6 is not yet supported")

def toSockaddrIn (addr : SocketAddrV4) : SockaddrIn where
  sinLen := SOCKADDR_IN_LEN
  sinFamily := 2
  sinPort := swap16 addr.port
  sAddr := swap32 addr.ip.toUInt32

def fromSockaddrIn (sa : SockaddrIn) : SocketAddrV4 where
  ip := .ofUInt32 (swap32 sa.sAddr)
  port := swap16 sa.sinPort

/-! ## In memory -/

/-- The bytes of an integer in memory, the lowest first. -/
def bytes16 (n : UInt16) : List UInt8 := [n.toUInt8, (n >>> 8).toUInt8]

def bytes32 (n : UInt32) : List UInt8 :=
  [n.toUInt8, (n >>> 8).toUInt8, (n >>> 16).toUInt8, (n >>> 24).toUInt8]

theorem byte_ext {m n : UInt8}
    (h : ∀ i ∈ [0, 1, 2, 3, 4, 5, 6, 7], m.toBitVec.getLsbD i = n.toBitVec.getLsbD i) : m = n := by
  refine UInt8.toBitVec_inj.mp (BitVec.eq_of_getLsbD_eq fun i hi => h i ?_)
  simp only [List.mem_cons, List.not_mem_nil, or_false]
  omega

theorem bytes16_swap16 (n : UInt16) : bytes16 (swap16 n) = (bytes16 n).reverse := by
  have h0 : (swap16 n).toUInt8 = (n >>> 8).toUInt8 := byte_ext (by simp [swap16])
  have h1 : (swap16 n >>> 8).toUInt8 = n.toUInt8 := byte_ext (by simp [swap16])
  rw [bytes16, h0, h1]
  rfl

theorem bytes32_swap32 (n : UInt32) : bytes32 (swap32 n) = (bytes32 n).reverse := by
  have h0 : (swap32 n).toUInt8 = (n >>> 24).toUInt8 := byte_ext (by simp [swap32])
  have h1 : (swap32 n >>> 8).toUInt8 = (n >>> 16).toUInt8 := byte_ext (by simp [swap32])
  have h2 : (swap32 n >>> 16).toUInt8 = (n >>> 8).toUInt8 := byte_ext (by simp [swap32])
  have h3 : (swap32 n >>> 24).toUInt8 = n.toUInt8 := byte_ext (by simp [swap32])
  rw [bytes32, h0, h1, h2, h3]
  rfl

/-- A port is known by its bytes. -/
theorem bytes16_inj {m n : UInt16} (h : bytes16 m = bytes16 n) : m = n := by
  simp only [bytes16, List.cons.injEq, and_true] at h
  have h0 := congrArg UInt8.toNat h.1
  have h1 := congrArg UInt8.toNat h.2
  simp only [UInt16.toNat_toUInt8, UInt16.toNat_shiftRight] at h0 h1
  refine UInt16.toNat_inj.mp ?_
  have hm := m.toNat_lt
  have hn := n.toNat_lt
  simp [Nat.shiftRight_eq_div_pow] at h0 h1
  omega

/-- The octets of an address, from its number. -/
theorem bytes32_toUInt32 (ip : Ipv4Addr) : bytes32 ip.toUInt32 = [ip.d, ip.c, ip.b, ip.a] := by
  obtain ⟨a, b, c, d⟩ := ip
  have h0 : (Ipv4Addr.toUInt32 ⟨a, b, c, d⟩).toUInt8 = d :=
    byte_ext (by simp [Ipv4Addr.toUInt32])
  have h1 : (Ipv4Addr.toUInt32 ⟨a, b, c, d⟩ >>> 8).toUInt8 = c :=
    byte_ext (by simp [Ipv4Addr.toUInt32])
  have h2 : (Ipv4Addr.toUInt32 ⟨a, b, c, d⟩ >>> 16).toUInt8 = b :=
    byte_ext (by simp [Ipv4Addr.toUInt32])
  have h3 : (Ipv4Addr.toUInt32 ⟨a, b, c, d⟩ >>> 24).toUInt8 = a :=
    byte_ext (by simp [Ipv4Addr.toUInt32])
  rw [bytes32, h0, h1, h2, h3]

/-- The bytes of `sa` are the octets and the port in network byte order. -/
def Stored (sa : SockaddrIn) (addr : SocketAddrV4) : Prop :=
  bytes32 sa.sAddr = [addr.ip.a, addr.ip.b, addr.ip.c, addr.ip.d] ∧
    bytes16 sa.sinPort = [(addr.port >>> 8).toUInt8, addr.port.toUInt8]

theorem stored_to (addr : SocketAddrV4) : Stored (toSockaddrIn addr) addr := by
  refine ⟨?_, bytes16_swap16 addr.port⟩
  show bytes32 (swap32 addr.ip.toUInt32) = _
  rw [bytes32_swap32, bytes32_toUInt32]
  rfl

theorem stored_from (sa : SockaddrIn) : Stored sa (fromSockaddrIn sa) := by
  have hp : bytes16 sa.sinPort = (bytes16 (swap16 sa.sinPort)).reverse := by
    rw [bytes16_swap16, List.reverse_reverse]
  have ha : bytes32 sa.sAddr = (bytes32 (swap32 sa.sAddr)).reverse := by
    rw [bytes32_swap32, List.reverse_reverse]
  exact ⟨ha, hp⟩

/-- Only one address is stored. -/
theorem Stored.unique {sa : SockaddrIn} {a b : SocketAddrV4} (ha : Stored sa a)
    (hb : Stored sa b) : a = b := by
  obtain ⟨⟨a₀, a₁, a₂, a₃⟩, p⟩ := a
  obtain ⟨⟨b₀, b₁, b₂, b₃⟩, q⟩ := b
  obtain ⟨hai, hap⟩ := ha
  obtain ⟨hbi, hbp⟩ := hb
  rw [hai] at hbi
  rw [hap] at hbp
  simp only [List.cons.injEq, and_true] at hbi hbp
  obtain ⟨rfl, rfl, rfl, rfl⟩ := hbi
  obtain rfl : p = q := bytes16_inj (by rw [bytes16, bytes16, hbp.1, hbp.2])
  rfl

theorem from_to (addr : SocketAddrV4) : fromSockaddrIn (toSockaddrIn addr) = addr :=
  (stored_from _).unique (stored_to addr)

end PsPayload
