import PsPayload.Ps5.Net.Udp

/-!
# UDP sockets as a post office

To the clients of `UdpSocket` the network is a `Post`: boxes with addresses, and
the mail that has been sent so far, of which some arrives. `linearizable`: in every
run of any number of threads that share sockets, whatever the order of their system
calls, each method is over at one moment between its call and its return, and does
what `Post.Does` says. A socket that `bind` has returned stays open.

In particular each datagram that is received is one that has been sent, whole or cut
off at its end, to an address of the socket, and the address that comes with it is
that of a socket that has sent it, which no other socket has (`Post.Sound`);
`set_nonblocking` changes nothing but the mode, although it takes two system calls.
-/

namespace PsPayload.Udp

open Lib

/-! ## The post office -/

inductive UdpCall where
  | bind (addr : SocketAddr)
  | sendTo (fd : Int32) (buf : Bytes) (addr : SocketAddr)
  | recvFrom (fd : Int32) (len : Nat)
  | connect (fd : Int32) (addr : SocketAddr)
  | send (fd : Int32) (buf : Bytes)
  | recv (fd : Int32) (len : Nat)
  | setNonblocking (fd : Int32) (nonblocking : Bool)
  deriving DecidableEq

inductive UdpReply where
  | socket (r : Result Fd.Wrapper)
  | count (r : Result Nat)
  | datagram (r : Result (Bytes × SocketAddr))
  | bytes (r : Result Bytes)
  | unit (r : Result Unit)

/-- The method that a call stands for. -/
def UdpCall.run : UdpCall → Task UdpReply
  | .bind addr => (sys (Fd.UdpSocket.bind addr)).map .socket
  | .sendTo fd buf addr => (UdpSocket.sendTo fd buf addr).map .count
  | .recvFrom fd len => (UdpSocket.recvFrom fd len).map .datagram
  | .connect fd addr => (UdpSocket.connect fd addr).map .unit
  | .send fd buf => (UdpSocket.send fd buf).map .count
  | .recv fd len => (UdpSocket.recv fd len).map .bytes
  | .setNonblocking fd nonblocking => (UdpSocket.setNonblocking fd nonblocking).map .unit

/-- How a call reports an error. -/
def UdpCall.failure : UdpCall → Error → UdpReply
  | .bind _, e => .socket (.error e)
  | .sendTo _ _ _, e | .send _ _, e => .count (.error e)
  | .recvFrom _ _, e => .datagram (.error e)
  | .recv _ _, e => .bytes (.error e)
  | .connect _ _, e | .setNonblocking _ _, e => .unit (.error e)

/-- The address among the arguments. -/
def UdpCall.addr : UdpCall → Option SocketAddr
  | .bind addr | .sendTo _ _ addr | .connect _ addr => some addr
  | .recvFrom _ _ | .send _ _ | .recv _ _ | .setNonblocking _ _ => none

structure Mail where
  /-- The socket that has sent it. -/
  socket : Int32
  sender : SocketAddrV4
  receiver : SocketAddrV4
  data : Bytes
  deriving DecidableEq

def Ipv4Addr.unspecified : Ipv4Addr := ⟨0, 0, 0, 0⟩

/-- `b` is an address of a socket that is bound to `a`. -/
def Covers (a b : SocketAddrV4) : Prop :=
  a.port = b.port ∧ (a.ip = Ipv4Addr.unspecified ∨ a.ip = b.ip)

/-- `b` is what a socket may be bound to that asks for `a`. -/
def Fits (a b : SocketAddrV4) : Prop := a.ip = b.ip ∧ (a.port = 0 ∨ a.port = b.port)

/-- A socket. -/
structure Box where
  addr : SocketAddrV4
  peer : Option SocketAddrV4
  /-- What may have arrived before it was connected. -/
  old : List Mail
  nonblocking : Bool
  /-- The other flags of the descriptor. -/
  status : Int32

namespace Box

/-- The mail that it gets: what is addressed to it, and comes from its peer if it has
one. -/
def Gets (x : Box) (m : Mail) : Prop :=
  m ∈ x.old ∨ Covers x.addr m.receiver ∧ ∀ a, x.peer = some a → m.sender = a

/-- An error that is no failure. -/
def Refuses (x : Box) : UdpCall → Errno → Prop
  | .sendTo _ _ _, e => (x.nonblocking = true ∧ e.wouldBlock = true) ∨
      (x.peer ≠ none ∧ e.code = EISCONN)
  | .send _ _, e => (x.nonblocking = true ∧ e.wouldBlock = true) ∨
      (x.peer = none ∧ e.code = EDESTADDRREQ)
  | .recvFrom _ _, e | .recv _ _, e => x.nonblocking = true ∧ e.wouldBlock = true
  | .bind _, _ | .connect _ _, _ | .setNonblocking _ _, _ => False

end Box

structure Post where
  boxes : Int32 → Option Box
  sent : List Mail

namespace Post

def setBox (s : Post) (fd : Int32) (x : Box) : Post :=
  { s with boxes := Function.update s.boxes fd (some x) }

def put (s : Post) (m : Mail) : Post := { s with sent := s.sent ++ [m] }

/-- What a method does unless a system call fails. -/
inductive Effect (s : Post) : UdpCall → UdpReply → Post → Prop
  | bind {a b : SocketAddrV4} {fd status : Int32} (hb : Fits a b) (hfd : s.boxes fd = none)
      (hfree : ∀ fd' x c, s.boxes fd' = some x → Covers x.addr c → ¬ Covers b c) :
      Effect s (.bind (.v4 a)) (.socket (.ok (.udpSocket fd))) (s.setBox fd ⟨b, none, [], false, status⟩)
  | sendTo {fd : Int32} {x : Box} {a b : SocketAddrV4} (buf : Bytes) (hx : s.boxes fd = some x)
      (hpeer : x.peer = none) (hb : Covers x.addr b) :
      Effect s (.sendTo fd buf (.v4 a)) (.count (.ok buf.length)) (s.put ⟨fd, b, a, buf⟩)
  | send {fd : Int32} {x : Box} {a b : SocketAddrV4} (buf : Bytes) (hx : s.boxes fd = some x)
      (hpeer : x.peer = some a) (hb : Covers x.addr b) :
      Effect s (.send fd buf) (.count (.ok buf.length)) (s.put ⟨fd, b, a, buf⟩)
  | recvFrom {fd : Int32} {x : Box} {m : Mail} (len : Nat) (hx : s.boxes fd = some x)
      (hm : m ∈ s.sent) (hget : x.Gets m) :
      Effect s (.recvFrom fd len) (.datagram (.ok (m.data.take len, .v4 m.sender))) s
  | recv {fd : Int32} {x : Box} {m : Mail} (len : Nat) (hx : s.boxes fd = some x)
      (hm : m ∈ s.sent) (hget : x.Gets m) :
      Effect s (.recv fd len) (.bytes (.ok (m.data.take len))) s
  | connect {fd : Int32} {x : Box} {old : List Mail} (a : SocketAddrV4) (hx : s.boxes fd = some x)
      (hold : ∀ m, m ∈ old ↔ m ∈ x.old ∨ m ∈ s.sent ∧ x.Gets m) :
      Effect s (.connect fd (.v4 a)) (.unit (.ok ()))
        (s.setBox fd { x with peer := some a, old := old })
  | setNonblocking {fd : Int32} {x : Box} (nonblocking : Bool) (hx : s.boxes fd = some x) :
      Effect s (.setNonblocking fd nonblocking) (.unit (.ok ()))
        (s.setBox fd { x with nonblocking := nonblocking })
  | refused {fd : Int32} {x : Box} {c : UdpCall} {e : Errno} (hx : s.boxes fd = some x)
      (h : x.Refuses c e) : Effect s c (c.failure (.os e)) s
  | v6 {c : UdpCall} (h : c.addr = some .v6) :
      Effect s c (c.failure (.invalidInput "IPv6 is not yet supported")) s

/-- A method during which a system call fails leaves everything as it is, except that
`connect` may have disconnected the socket. -/
inductive Spoils (s : Post) : UdpCall → UdpReply → Post → Prop
  | failure (c : UdpCall) (e : Errno) : Spoils s c (c.failure (.os e)) s
  | connect {fd : Int32} {x : Box} (a : SocketAddrV4) (hx : s.boxes fd = some x) (e : Errno) :
      Spoils s (.connect fd (.v4 a)) (.unit (.error (.os e))) (s.setBox fd { x with peer := none })

/-- What a method of thread `i` does. The calls that have failed are counted for each
thread. -/
def Does {ι : Type} (i : ι) (s : Post × (ι → Nat)) (c : UdpCall) (r : UdpReply)
    (s' : Post × (ι → Nat)) : Prop :=
  Prog.OrFails Effect Spoils (s.1, s.2 i) c r (s'.1, s'.2 i) ∧ ∀ j, j ≠ i → s'.2 j = s.2 j

/-- Mail comes from a socket that has the address of the sender, and no address is that
of two sockets. -/
structure Sound (s : Post) : Prop where
  genuine : ∀ m ∈ s.sent, ∃ x, s.boxes m.socket = some x ∧ Covers x.addr m.sender
  apart : ∀ {fd fd' x x' a}, s.boxes fd = some x → s.boxes fd' = some x' →
    Covers x.addr a → Covers x'.addr a → fd = fd'

variable {s : Post} {fd : Int32} {x x' : Box}

theorem boxes_self : (s.setBox fd x).boxes fd = some x := Function.update_self ..

theorem boxes_of_ne {fd' : Int32} (h : fd' ≠ fd) : (s.setBox fd x).boxes fd' = s.boxes fd' :=
  Function.update_of_ne h ..

/-- A socket that keeps its address. -/
theorem Sound.setBox (h : s.Sound) (hx : s.boxes fd = some x) (ha : x'.addr = x.addr) :
    (s.setBox fd x').Sound := by
  have hold : ∀ {fd' y}, (s.setBox fd x').boxes fd' = some y →
      ∃ y', s.boxes fd' = some y' ∧ y'.addr = y.addr := by
    intro fd' y hy
    by_cases hfd : fd' = fd
    · subst hfd
      rw [boxes_self, Option.some.injEq] at hy
      exact ⟨x, hx, by rw [← hy, ha]⟩
    · rw [boxes_of_ne hfd] at hy
      exact ⟨y, hy, rfl⟩
  refine ⟨fun m hm => ?_, fun {fd₁ fd₂ x₁ x₂ a} h₁ h₂ ha₁ ha₂ => ?_⟩
  · obtain ⟨y, hy, hcov⟩ := h.genuine m hm
    by_cases hfd : m.socket = fd
    · rw [hfd, hx] at hy
      obtain rfl := Option.some.inj hy
      exact ⟨x', by rw [hfd, boxes_self], by rwa [ha]⟩
    · exact ⟨y, by rw [boxes_of_ne hfd]; exact hy, hcov⟩
  · obtain ⟨y₁, hy₁, hxy₁⟩ := hold h₁
    obtain ⟨y₂, hy₂, hxy₂⟩ := hold h₂
    exact h.apart hy₁ hy₂ (by rwa [hxy₁]) (by rwa [hxy₂])

/-- A new socket. -/
theorem Sound.newBox (h : s.Sound) (hfd : s.boxes fd = none)
    (hfree : ∀ fd' x' c, s.boxes fd' = some x' → Covers x'.addr c → ¬ Covers x.addr c) :
    (s.setBox fd x).Sound := by
  refine ⟨fun m hm => ?_, fun {fd₁ fd₂ x₁ x₂ a} h₁ h₂ ha₁ ha₂ => ?_⟩
  · obtain ⟨y, hy, hcov⟩ := h.genuine m hm
    have hne : m.socket ≠ fd := by
      rintro rfl
      rw [hfd] at hy
      cases hy
    exact ⟨y, by rw [boxes_of_ne hne]; exact hy, hcov⟩
  · by_cases hfd₁ : fd₁ = fd
    · by_cases hfd₂ : fd₂ = fd
      · exact hfd₁.trans hfd₂.symm
      · subst hfd₁
        rw [boxes_self, Option.some.injEq] at h₁
        rw [boxes_of_ne hfd₂] at h₂
        exact absurd (h₁ ▸ ha₁) (hfree fd₂ x₂ a h₂ ha₂)
    · rw [boxes_of_ne hfd₁] at h₁
      by_cases hfd₂ : fd₂ = fd
      · subst hfd₂
        rw [boxes_self, Option.some.injEq] at h₂
        exact absurd (h₂ ▸ ha₂) (hfree fd₁ x₁ a h₁ ha₁)
      · rw [boxes_of_ne hfd₂] at h₂
        exact h.apart h₁ h₂ ha₁ ha₂

theorem Sound.put (h : s.Sound) {m : Mail} (hx : s.boxes m.socket = some x)
    (hm : Covers x.addr m.sender) : (s.put m).Sound := by
  refine ⟨fun m' hm' => ?_, h.apart⟩
  rcases List.mem_append.mp hm' with hm' | hm'
  · exact h.genuine m' hm'
  · obtain rfl := List.mem_singleton.mp hm'
    exact ⟨x, hx, hm⟩

theorem Sound.effect {c : UdpCall} {r : UdpReply} {s' : Post} (h : s.Sound)
    (heffect : s.Effect c r s') : s'.Sound := by
  cases heffect with
  | bind hb hfd hfree => exact h.newBox hfd hfree
  | sendTo buf hx hpeer hb => exact h.put hx hb
  | send buf hx hpeer hb => exact h.put hx hb
  | recvFrom len hx hm hget => exact h
  | recv len hx hm hget => exact h
  | connect a hx hold => exact h.setBox hx rfl
  | setNonblocking nonblocking hx => exact h.setBox hx rfl
  | refused hx hrefuse => exact h
  | v6 hv6 => exact h

theorem Sound.spoils {c : UdpCall} {r : UdpReply} {s' : Post} (h : s.Sound)
    (hspoils : s.Spoils c r s') : s'.Sound := by
  cases hspoils with
  | failure c e => exact h
  | connect a hx e => exact h.setBox hx rfl

theorem Sound.does {ι : Type} {i : ι} {s s' : Post × (ι → Nat)} {c : UdpCall} {r : UdpReply}
    (h : s.1.Sound) (hdoes : Does i s c r s') : s'.1.Sound :=
  hdoes.1.2.elim h.effect fun hspoils => h.spoils hspoils.2

end Post

/-! ## Addresses -/

theorem bytes32_inj {m n : UInt32} (h : bytes32 m = bytes32 n) : m = n := by
  simp only [bytes32, List.cons.injEq, and_true] at h
  obtain ⟨h0, h1, h2, h3⟩ := h
  have h0 := congrArg UInt8.toNat h0
  have h1 := congrArg UInt8.toNat h1
  have h2 := congrArg UInt8.toNat h2
  have h3 := congrArg UInt8.toNat h3
  simp only [UInt32.toNat_toUInt8, UInt32.toNat_shiftRight] at h0 h1 h2 h3
  refine UInt32.toNat_inj.mp ?_
  have hm := m.toNat_lt
  have hn := n.toNat_lt
  simp [Nat.shiftRight_eq_div_pow] at h0 h1 h2 h3
  omega

theorem sinPort_iff (a b : SockaddrIn) :
    a.sinPort = b.sinPort ↔ (fromSockaddrIn a).port = (fromSockaddrIn b).port := by
  refine ⟨congrArg swap16, fun h => bytes16_inj ?_⟩
  rw [(stored_from a).2, (stored_from b).2, h]

theorem sAddr_iff (a b : SockaddrIn) :
    a.sAddr = b.sAddr ↔ (fromSockaddrIn a).ip = (fromSockaddrIn b).ip := by
  refine ⟨fun h => by rw [fromSockaddrIn, fromSockaddrIn, h], fun h => bytes32_inj ?_⟩
  rw [(stored_from a).1, (stored_from b).1, h]

theorem sAddr_zero (a : SockaddrIn) :
    a.sAddr = 0 ↔ (fromSockaddrIn a).ip = Ipv4Addr.unspecified :=
  sAddr_iff a ⟨0, 0, 0, 0⟩

theorem sinPort_zero (a : SockaddrIn) : a.sinPort = 0 ↔ (fromSockaddrIn a).port = 0 :=
  sinPort_iff a ⟨0, 0, 0, 0⟩

theorem covers_iff (a b : SockaddrIn) :
    covers a b = true ↔ Covers (fromSockaddrIn a) (fromSockaddrIn b) := by
  rw [covers, Covers, ← sinPort_iff, ← sAddr_iff, ← sAddr_zero]
  simp

theorem fits_iff (a b : SockaddrIn) :
    fits a b = true ↔ Fits (fromSockaddrIn a) (fromSockaddrIn b) := by
  rw [fits, Fits, ← sinPort_iff, ← sAddr_iff, ← sinPort_zero]
  simp

theorem sameAddr_iff (a b : SockaddrIn) :
    sameAddr a b = true ↔ fromSockaddrIn a = fromSockaddrIn b := by
  rw [sameAddr, Bool.and_eq_true, beq_iff_eq, beq_iff_eq, sAddr_iff, sinPort_iff]
  exact ⟨fun h => congrArg₂ SocketAddrV4.mk h.1 h.2, fun h => ⟨congrArg _ h, congrArg _ h⟩⟩

/-- Two sockets whose addresses do not overlap have none in common. -/
theorem not_covers_of_overlaps {a b : SockaddrIn} {c : SocketAddrV4} (h : overlaps a b = false)
    (ha : Covers (fromSockaddrIn a) c) (hb : Covers (fromSockaddrIn b) c) : False := by
  refine absurd ?_ (Bool.eq_false_iff.mp h)
  have hport : a.sinPort = b.sinPort := (sinPort_iff a b).mpr (ha.1.trans hb.1.symm)
  have hip : a.sAddr = 0 ∨ b.sAddr = 0 ∨ a.sAddr = b.sAddr := by
    rcases ha.2 with ha | ha
    · exact .inl ((sAddr_zero a).mpr ha)
    rcases hb.2 with hb | hb
    · exact .inr (.inl ((sAddr_zero b).mpr hb))
    · exact .inr (.inr ((sAddr_iff a b).mpr (ha.trans hb.symm)))
  rw [overlaps]
  simpa [hport] using or_assoc.mpr hip

/-! ## The network as a post office -/

def Mail.of (d : Datagram) : Mail := ⟨d.socket, fromSockaddrIn d.src, fromSockaddrIn d.dst, d.data⟩

variable {ι : Type}

def Box.of (p : Socket ι × SockaddrIn) : Box where
  addr := fromSockaddrIn p.2
  peer := p.1.peer.map fromSockaddrIn
  old := p.1.old.map Mail.of
  nonblocking := p.1.nonblocking
  status := p.1.flags &&& ~~~O_NONBLOCK

theorem gets_iff (p : Socket ι × SockaddrIn) (d : Datagram) :
    p.1.gets p.2 d = true ↔ d ∈ p.1.old ∨ Covers (Box.of p).addr (Mail.of d).receiver ∧
      ∀ a, (Box.of p).peer = some a → (Mail.of d).sender = a := by
  obtain ⟨s, a⟩ := p
  rw [Socket.gets, Bool.or_eq_true, Bool.and_eq_true, covers_iff, List.contains_iff_mem,
    Option.all_eq_true]
  simp only [Box.of, Mail.of, Option.map_eq_some_iff, sameAddr_iff]
  refine or_congr_right (and_congr_right fun _ => ⟨?_, fun h b hb => h _ ⟨b, hb, rfl⟩⟩)
  rintro h _ ⟨b, hb, rfl⟩
  exact h b hb

theorem Socket.gets_of {p : Socket ι × SockaddrIn} {d : Datagram} (h : p.1.gets p.2 d = true) :
    (Box.of p).Gets (Mail.of d) :=
  ((gets_iff p d).mp h).imp_left List.mem_map_of_mem

/-- What may have arrived when a socket is connected. -/
theorem mem_old (p : Socket ι × SockaddrIn) (sent : List Datagram) (m : Mail) :
    m ∈ (p.1.old ++ sent.filter (p.1.gets p.2)).map Mail.of ↔
      m ∈ (Box.of p).old ∨ m ∈ sent.map Mail.of ∧ (Box.of p).Gets m := by
  rw [List.map_append, List.mem_append]
  constructor
  · rintro (h | h)
    · exact .inl h
    · obtain ⟨d, hd, rfl⟩ := List.mem_map.mp h
      obtain ⟨hd, hget⟩ := List.mem_filter.mp hd
      exact .inr ⟨List.mem_map_of_mem hd, Socket.gets_of hget⟩
  · rintro (h | ⟨h, hold | hget⟩)
    · exact .inl h
    · exact .inl hold
    · obtain ⟨d, hd, rfl⟩ := List.mem_map.mp h
      exact .inr (List.mem_map_of_mem (List.mem_filter.mpr ⟨hd, (gets_iff p d).mpr (.inr hget)⟩))

namespace Net

variable {i : ι} {k k' : Net ι} {fd : Int32} {p : Socket ι × SockaddrIn} {c : UdpCall}

def post (k : Net ι) : Post := ⟨fun fd => (k.bound fd).map Box.of, k.sent.map Mail.of⟩

theorem post_boxes (hp : k.bound fd = some p) : k.post.boxes fd = some (Box.of p) :=
  congrArg (Option.map Box.of) hp

/-- Every descriptor in use is known. -/
def Known (k : Net ι) : Prop := ∀ fd, k.sockets fd ≠ none → fd ∈ k.known

/-- What thread `i` relies on: its own socket that is not bound yet, and the status of
those that are. -/
structure Keeps (i : ι) (k k' : Net ι) : Prop where
  unbound : ∀ {fd s}, k.sockets fd = some s → s.owner = i → s.addr = none → k'.sockets fd = some s
  bound : ∀ {fd p}, k.bound fd = some p → ∃ p', k'.bound fd = some p' ∧
    p'.1.flags &&& ~~~O_NONBLOCK = p.1.flags &&& ~~~O_NONBLOCK

/-- What it guarantees. -/
structure Spares (i : ι) (k k' : Net ι) : Prop where
  unbound : ∀ {fd s}, k.sockets fd = some s → s.owner ≠ i → s.addr = none → k'.sockets fd = some s
  bound : ∀ {fd p}, k.bound fd = some p → ∃ p', k'.bound fd = some p' ∧
    p'.1.flags &&& ~~~O_NONBLOCK = p.1.flags &&& ~~~O_NONBLOCK

theorem compatible_keeps :
    Prog.Compatible (fun i => Prog.Keeping Known (Keeps (ι := ι) i))
      (fun i => Prog.Keeping Known (Spares i)) := by
  refine Prog.compatible_keeping (fun i k => ⟨fun h _ _ => h, fun h => ⟨_, h, rfl⟩⟩)
    (fun i k k' k'' h h' => ⟨fun hs ho ha => h'.unbound (h.unbound hs ho ha) ho ha, fun hp => ?_⟩)
    (fun i j hij k k' _ _ h => ⟨fun hs ho ha => h.unbound hs (ho.trans_ne hij.symm) ha, h.bound⟩)
  obtain ⟨p', hp', hf⟩ := h.bound hp
  obtain ⟨p'', hp'', hf'⟩ := h'.bound hp'
  exact ⟨p'', hp'', hf'.trans hf⟩

/-! ### What the calls of the network change -/

/-- A call that changes no socket. -/
theorem spares_same (hk : k.Known) (hs : k'.sockets = k.sockets) (hn : k'.known = k.known) (i : ι) :
    k'.Known ∧ Spares i k k' := by
  refine ⟨fun fd h => ?_, fun h _ _ => by rw [hs]; exact h, fun {fd p} h => ⟨p, ?_, rfl⟩⟩
  · rw [hs] at h
    rw [hn]
    exact hk fd h
  · rw [Net.bound, hs]
    exact h

theorem setSocket_self (s : Option (Socket ι)) : (k.setSocket fd s).sockets fd = s :=
  Function.update_self ..

theorem setSocket_of_ne {fd' : Int32} (h : fd' ≠ fd) (s : Option (Socket ι)) :
    (k.setSocket fd s).sockets fd' = k.sockets fd' := Function.update_of_ne h ..

theorem known_setSocket (hk : k.Known) (s : Option (Socket ι)) : (k.setSocket fd s).Known := by
  intro fd' h
  by_cases hfd : fd' = fd
  · rw [hfd]
    exact List.mem_cons_self
  · exact List.mem_cons_of_mem _ (hk fd' (by rwa [setSocket_of_ne hfd] at h))

theorem bound_of_ne {fd' : Int32} (h : fd' ≠ fd) (s : Option (Socket ι)) :
    (k.setSocket fd s).bound fd' = k.bound fd' := by
  rw [Net.bound, Net.bound, setSocket_of_ne h]

theorem bound_self (s : Socket ι) (a : SockaddrIn) (h : s.addr = some a) :
    (k.setSocket fd (some s)).bound fd = some (s, a) := by
  rw [Net.bound, setSocket_self, Option.bind_some, h, Option.map_some]

theorem bound_eq_some : k.bound fd = some p ↔ k.sockets fd = some p.1 ∧ p.1.addr = some p.2 := by
  rw [Net.bound, Option.bind_eq_some_iff]
  constructor
  · rintro ⟨s, hs, h⟩
    obtain ⟨a, ha, rfl⟩ := Option.map_eq_some_iff.mp h
    exact ⟨hs, ha⟩
  · rintro ⟨hs, ha⟩
    exact ⟨p.1, hs, by rw [ha, Option.map_some]⟩

/-- A call that changes a bound socket, but neither its address nor its status. -/
theorem spares_bound (hk : k.Known) (hp : k.bound fd = some p) {s : Socket ι}
    (ha : s.addr = p.1.addr) (hf : s.flags &&& ~~~O_NONBLOCK = p.1.flags &&& ~~~O_NONBLOCK) (i : ι) :
    (k.setSocket fd (some s)).Known ∧ Spares i k (k.setSocket fd (some s)) := by
  obtain ⟨hs, haddr⟩ := bound_eq_some.mp hp
  refine ⟨known_setSocket hk _, fun {fd' s'} h _ hn => ?_, fun {fd' p'} h => ?_⟩
  · have hne : fd' ≠ fd := by
      rintro rfl
      rw [hs] at h
      obtain rfl := Option.some.inj h
      rw [haddr] at hn
      cases hn
    rw [setSocket_of_ne hne]
    exact h
  · by_cases hne : fd' = fd
    · subst hne
      obtain rfl := Option.some.inj (hp.symm.trans h)
      exact ⟨_, bound_self s p.2 (ha.trans haddr), hf⟩
    · exact ⟨p', by rw [bound_of_ne hne]; exact h, rfl⟩

/-- A call that changes a socket that is not bound, which is the thread's own or not
there. -/
theorem spares_unbound (hk : k.Known)
    (hfd : ∀ s, k.sockets fd = some s → s.owner = i ∧ s.addr = none) (s : Option (Socket ι)) :
    (k.setSocket fd s).Known ∧ Spares i k (k.setSocket fd s) := by
  refine ⟨known_setSocket hk _, fun {fd' s'} h ho _ => ?_, fun {fd' p'} h => ⟨p', ?_, rfl⟩⟩
  · have hne : fd' ≠ fd := by
      rintro rfl
      exact ho (hfd s' h).1
    rw [setSocket_of_ne hne]
    exact h
  · have hne : fd' ≠ fd := by
      rintro rfl
      obtain ⟨hs, ha⟩ := bound_eq_some.mp h
      rw [(hfd _ hs).2] at ha
      cases ha
    rw [bound_of_ne hne]
    exact h

/-- A call that fails. -/
theorem spares_fail (h : k'.Known ∧ Spares i k k') (e : Errno) :
    (k'.fail i e).Known ∧ Spares i k (k'.fail i e) := ⟨h.1, h.2.unbound, h.2.bound⟩

theorem post_unbound (hfd : k.bound fd = none) {s : Option (Socket ι)}
    (hs : (k.setSocket fd s).bound fd = none) : (k.setSocket fd s).post = k.post := by
  refine congrArg (fun b => (⟨b, k.sent.map Mail.of⟩ : Post)) (funext fun fd' => ?_)
  by_cases hne : fd' = fd
  · rw [hne, hs, hfd]
  · rw [bound_of_ne hne]

theorem post_setSocket {s : Socket ι} {a : SockaddrIn} (h : s.addr = some a) :
    (k.setSocket fd (some s)).post = k.post.setBox fd (Box.of (s, a)) := by
  refine congrArg (fun b => (⟨b, k.sent.map Mail.of⟩ : Post)) (funext fun fd' => ?_)
  show Option.map Box.of _ = Function.update k.post.boxes fd _ fd'
  by_cases hne : fd' = fd
  · subst hne
    rw [bound_self s a h, Function.update_self, Option.map_some]
  · rw [bound_of_ne hne, Function.update_of_ne hne]
    rfl

theorem post_put (d : Datagram) : (k.put d).post = k.post.put (Mail.of d) := by
  have hsent : (k.put d).sent.map Mail.of = k.sent.map Mail.of ++ [Mail.of d] := List.map_append
  rw [post, hsent]
  rfl

theorem dissolve_cases (k : Net ι) (fd : Int32) (dissolved : Bool) :
    k.dissolve fd dissolved = k ∨ ∃ p, k.bound fd = some p ∧
      k.dissolve fd dissolved = k.setSocket fd (some p.1.dissolved) := by
  rw [dissolve]
  cases dissolved with
  | false => exact .inl (if_neg Bool.false_ne_true)
  | true =>
    rw [if_pos rfl]
    cases hp : k.bound fd with
    | none => exact .inl rfl
    | some p => exact .inr ⟨p, rfl, rfl⟩

variable [DecidableEq ι]

/-- How many calls of a thread have failed. -/
def failed (k : Net ι) (i : ι) : Nat := k.failures.countP fun f => f.1 = i

theorem failed_fail (k : Net ι) (i : ι) (e : Errno) (j : ι) :
    (k.fail i e).failed j = k.failed j + if i = j then 1 else 0 := by
  rw [failed, fail, List.countP_append, List.countP_singleton, failed]
  simp

def view (k : Net ι) : Post × (ι → Nat) := (k.post, k.failed)

theorem view_unbound (hfd : k.bound fd = none) {s : Option (Socket ι)}
    (hs : (k.setSocket fd s).bound fd = none) : (k.setSocket fd s).view = k.view :=
  congrArg (·, k.failed) (post_unbound hfd hs)

/-! ### What the methods do -/

theorem does_effect {r : UdpReply} (hf : k'.failures = k.failures)
    (h : Post.Effect k.post c r k'.post) : Post.Does i k.view c r k'.view := by
  have hfailed : k'.failed = k.failed := funext fun j => by rw [failed, failed, hf]
  exact ⟨⟨(congrFun hfailed i).ge, .inl h⟩, fun j _ => congrFun hfailed j⟩

/-- A method whose last call, made in `k'`, has failed. -/
theorem does_fail {r : UdpReply} (hf : k'.failures = k.failures)
    (h : Post.Spoils k.post c r k'.post) (e : Errno) :
    Post.Does i k.view c r (k'.fail i e).view := by
  have hfailed : ∀ j, (k'.fail i e).failed j = k.failed j + if i = j then 1 else 0 := fun j => by
    rw [failed_fail, failed, failed, hf]
  have hlt : k.failed i < (k'.fail i e).failed i := by
    rw [hfailed, if_pos rfl]
    exact Nat.lt_succ_self _
  exact ⟨⟨hlt.le, .inr ⟨hlt, h⟩⟩, fun j hj => (hfailed j).trans (by rw [if_neg hj.symm]; rfl)⟩

/-- What a call has done. -/
def Stepped (i : ι) (k : Net ι) (c : UdpCall) (r : UdpReply) (k' : Net ι) : Prop :=
  (k'.Known ∧ Spares i k k') ∧ Post.Does i k.view c r k'.view

theorem stepped_fail (hk : k.Known) (c : UdpCall) (e : Errno) (i : ι) :
    Stepped i k c (c.failure (.os e)) (k.fail i e) :=
  ⟨spares_fail (spares_same hk rfl rfl i) e, does_fail rfl (.failure c e) e⟩

theorem stepped_refuse {e : Errno} {excused : Bool} (hk : k.Known) (hp : k.bound fd = some p)
    (h : excused = true → (Box.of p).Refuses c e) (i : ι) :
    Stepped i k c (c.failure (.os e)) (k.refuse i excused e) := by
  cases excused with
  | false => exact stepped_fail hk c e i
  | true =>
    exact ⟨spares_same hk rfl rfl i, does_effect rfl (.refused (post_boxes hp) (h rfl))⟩

theorem stepped_sending {buf : Bytes} {dst : Socket ι → Option SockaddrIn}
    {excuse : Socket ι → Errno → Bool} {r : Reply} (hk : k.Known)
    (hfail : ∀ e, c.failure e = .count (.error e))
    (hrefuse : ∀ p e, (p.1.nonblocking && e.wouldBlock || excuse p.1 e) = true →
      (Box.of p).Refuses c e)
    (heffect : ∀ p d sa, k.bound fd = some p → dst p.1 = some d → covers p.2 sa = true →
      Post.Effect k.post c (.count (.ok buf.length)) (k.post.put (Mail.of ⟨fd, sa, d, buf⟩)))
    (h : k.sending i fd buf dst excuse r = some k') :
    Stepped i k c (.count (sizeOf r)) k' := by
  rw [sending] at h
  rw [sizeOf]
  cases hp : k.bound fd with
  | none =>
    cases hs : r.size with
    | error e =>
      simp only [hp, hs, Option.some.injEq] at h
      rw [← h, ← hfail]
      exact stepped_fail hk c _ i
    | ok n => simp only [hp, hs, reduceCtorEq] at h
  | some p =>
    cases hs : r.size with
    | error e =>
      simp only [hp, hs, Option.some.injEq] at h
      rw [← h, ← hfail]
      exact stepped_refuse hk hp (hrefuse p e) i
    | ok n =>
      simp only [hp, hs] at h
      obtain ⟨d, hd, h⟩ := Option.bind_eq_some_iff.mp h
      rw [Option.ite_none_right_eq_some, Option.some.injEq] at h
      obtain ⟨⟨rfl, hsa⟩, rfl⟩ := h
      refine ⟨spares_same hk (rfl : (k.put _).sockets = _) rfl i, does_effect rfl ?_⟩
      rw [post_put]
      exact heffect p d r.sa hp hd hsa

theorem stepped_receiving {len : Nat} {r : Reply} {s : UdpReply} (hk : k.Known)
    (hrefuse : ∀ (p : Socket ι × SockaddrIn) e, (p.1.nonblocking && e.wouldBlock) = true →
      (Box.of p).Refuses c e)
    (heffect : ∀ p d, k.bound fd = some p → d ∈ k.sent → p.1.gets p.2 d = true → r.sa = d.src →
      ∀ n, r.size = .ok n → r.chunk.take n = d.data.take len →
      Post.Effect k.post c s k.post)
    (hfail : ∀ e, r.size = .error e → s = c.failure (.os e))
    (h : k.receiving i fd len r = some k') : Stepped i k c s k' := by
  rw [receiving] at h
  cases hp : k.bound fd with
  | none =>
    cases hs : r.size with
    | error e =>
      simp only [hp, hs, Option.some.injEq] at h
      rw [← h, hfail e hs]
      exact stepped_fail hk c _ i
    | ok n => simp only [hp, hs, reduceCtorEq] at h
  | some p =>
    cases hs : r.size with
    | error e =>
      simp only [hp, hs, Option.some.injEq] at h
      rw [← h, hfail e hs]
      exact stepped_refuse hk hp (hrefuse p e) i
    | ok n =>
      simp only [hp, hs] at h
      rw [Option.ite_none_right_eq_some, Option.some.injEq] at h
      obtain ⟨⟨d, hd, hget, hsa, -, hchunk⟩, rfl⟩ := h
      exact ⟨spares_same hk rfl rfl i, does_effect rfl (heffect p d hp hd hget hsa n hs hchunk)⟩

/-- A reply that says that a call has failed. -/
def failing : Reply := ⟨⟨-1, 0, ⟨0, 0, 0, 0⟩, ⟨0⟩⟩, .error ⟨0⟩, [], false⟩

omit [DecidableEq ι] in
theorem exists_sending (k : Net ι) (i : ι) (fd : Int32) (buf : Bytes) (dst : Socket ι → Option SockaddrIn)
    (excuse : Socket ι → Errno → Bool) : (k.sending i fd buf dst excuse failing).isSome := by
  rw [sending, failing]
  cases k.bound fd <;> rfl

omit [DecidableEq ι] in
theorem exists_receiving (k : Net ι) (i : ι) (fd : Int32) (len : Nat) :
    (k.receiving i fd len failing).isSome := by
  rw [receiving, failing]
  cases k.bound fd <;> rfl

/-- The methods among any number of threads. -/
def layer (ι : Type) [DecidableEq ι] :
    Prog.Layer ι UdpCall UdpReply (Post × (ι → Nat)) Call Reply (Net ι) Unit where
  does i c s r s' := Post.Does i s c r s'
  answer := answer
  rely i := Prog.Keeping Known (Keeps i)
  guarantee i := Prog.Keeping Known (Spares i)
  abs := view
  impl := UdpCall.run

/-- A method that does what it does at one moment. -/
def Once (i : ι) (c : UdpCall) (p : Task UdpReply) (k : Net ι) : Prop :=
  p.Atomic (answer i) (Prog.Keeping Known (Keeps i)) (Prog.Keeping Known (Spares i)) view
    (fun s r s' => Post.Does i s c r s') k

theorem once_v6 (h : c.addr = some .v6) (k : Net ι) :
    Once i c (.done (c.failure (.invalidInput "IPv6 is not yet supported"))) k :=
  fun _ _ => does_effect rfl (.v6 h)

/-- A method that makes one call. -/
theorem once_call {d : Call} {f : Reply → UdpReply} (hk : k.Known)
    (hex : ∀ v : Net ι, ∃ r, (v.answer i d r).isSome)
    (h : ∀ v u r, v.Known → v.answer i d r = some u → Stepped i v c (f r) u) :
    Once i c (.call d fun r => .done (f r)) k := by
  refine Prog.atomic_call fun v hv => ⟨hex v, fun r u hu => ?_⟩
  obtain ⟨hs, hd⟩ := h v u r (hv hk).1 hu
  exact ⟨fun _ => hs, hd⟩

theorem once_sendTo (hk : k.Known) (fd : Int32) (buf : Bytes) (addr : SocketAddr) :
    Once i (.sendTo fd buf addr) (UdpCall.run (.sendTo fd buf addr)) k := by
  cases addr with
  | v6 => exact once_v6 rfl k
  | v4 a =>
    have hrun : UdpCall.run (.sendTo fd buf (.v4 a)) =
      .call (.sendto fd buf (toSockaddrIn a)) fun r => .done (.count (sizeOf r)) := rfl
    rw [hrun]
    refine once_call hk (fun v => ⟨failing, exists_sending ..⟩) fun v u r hv hu =>
      stepped_sending hv (fun _ => rfl) (fun p e h => ?_) (fun p d sa hp hd hsa => ?_) hu
    · rw [Bool.or_eq_true, Bool.and_eq_true, Bool.and_eq_true, beq_iff_eq] at h
      refine h.imp_right (And.imp_left fun h hn => ?_)
      rw [Option.map_eq_none_iff.mp hn] at h
      cases h
    · rw [Option.ite_none_right_eq_some, Option.some.injEq] at hd
      obtain ⟨hpeer, rfl⟩ := hd
      have hmail : Mail.of ⟨fd, sa, toSockaddrIn a, buf⟩ = ⟨fd, fromSockaddrIn sa, a, buf⟩ := by
        rw [Mail.of, from_to]
      rw [hmail]
      exact .sendTo buf (post_boxes hp) (by rw [Box.of, hpeer]; rfl) ((covers_iff p.2 sa).mp hsa)

theorem once_send (hk : k.Known) (fd : Int32) (buf : Bytes) :
    Once i (.send fd buf) (UdpCall.run (.send fd buf)) k := by
  have hrun : UdpCall.run (.send fd buf) =
    .call (.send fd buf) fun r => .done (.count (sizeOf r)) := rfl
  rw [hrun]
  refine once_call hk (fun v => ⟨failing, exists_sending ..⟩) fun v u r hv hu =>
    stepped_sending hv (fun _ => rfl) (fun p e h => ?_) (fun p d sa hp hd hsa => ?_) hu
  · rw [Bool.or_eq_true, Bool.and_eq_true, Bool.and_eq_true, beq_iff_eq] at h
    exact h.imp_right (And.imp_left fun h => Option.map_eq_none_iff.mpr (Option.isNone_iff_eq_none.mp h))
  · exact .send buf (post_boxes hp) (by rw [Box.of, hd]; rfl) ((covers_iff p.2 sa).mp hsa)

theorem once_recvFrom (hk : k.Known) (fd : Int32) (len : Nat) :
    Once i (.recvFrom fd len) (UdpCall.run (.recvFrom fd len)) k := by
  have hrun : UdpCall.run (.recvFrom fd len) = .call (.recvfrom fd len) fun r =>
    .done (.datagram ((sizeOf r).map fun n => (r.chunk.take n, .v4 (fromSockaddrIn r.sa)))) := rfl
  rw [hrun]
  refine once_call hk (fun v => ⟨failing, exists_receiving ..⟩) fun v u r hv hu =>
    stepped_receiving (c := .recvFrom fd len) hv (fun p e h => Bool.and_eq_true_iff.mp h)
      (fun p d hp hd hget hsa n hs hchunk => ?_) (fun e hs => ?_) hu
  · have heffect := Post.Effect.recvFrom (s := v.post) len (post_boxes hp)
      (List.mem_map_of_mem hd) (Socket.gets_of hget)
    rw [sizeOf, hs]
    simp only [Except.map, hchunk, hsa]
    exact heffect
  · rw [sizeOf, hs]
    rfl

theorem once_recv (hk : k.Known) (fd : Int32) (len : Nat) :
    Once i (.recv fd len) (UdpCall.run (.recv fd len)) k := by
  have hrun : UdpCall.run (.recv fd len) = .call (.recv fd len) fun r =>
    .done (.bytes ((sizeOf r).map fun n => r.chunk.take n)) := rfl
  rw [hrun]
  refine once_call hk (fun v => ⟨failing, exists_receiving ..⟩) fun v u r hv hu =>
    stepped_receiving (c := .recv fd len) hv (fun p e h => Bool.and_eq_true_iff.mp h)
      (fun p d hp hd hget hsa n hs hchunk => ?_) (fun e hs => ?_) hu
  · have heffect := Post.Effect.recv (s := v.post) len (post_boxes hp)
      (List.mem_map_of_mem hd) (Socket.gets_of hget)
    rw [sizeOf, hs]
    simp only [Except.map, hchunk]
    exact heffect
  · rw [sizeOf, hs]
    rfl

theorem once_connect (hk : k.Known) (fd : Int32) (addr : SocketAddr) :
    Once i (.connect fd addr) (UdpCall.run (.connect fd addr)) k := by
  cases addr with
  | v6 => exact once_v6 rfl k
  | v4 a =>
    have hrun : UdpCall.run (.connect fd (.v4 a)) = .call (.sys (.connect fd (toSockaddrIn a)))
      fun r => .done (.unit ((cvtI32 r.errno r.ret).map fun _ => ())) := rfl
    rw [hrun]
    refine once_call hk (fun v => ⟨failing, rfl⟩) fun v u r hv hu => ?_
    rw [answer] at hu
    rw [cvtI32]
    split at hu
    · rename_i hr
      rw [if_pos hr, ← Option.some.inj hu]
      rcases dissolve_cases v fd r.dissolved with h | ⟨p, hp, h⟩
      · rw [h]
        exact stepped_fail hv (.connect fd (.v4 a)) _ i
      · obtain ⟨hs, ha⟩ := bound_eq_some.mp hp
        have hspoils := Post.Spoils.connect (s := v.post) a (post_boxes hp) r.errno
        rw [h]
        refine ⟨spares_fail (spares_bound (s := p.1.dissolved) hv hp rfl rfl i) _,
          does_fail ?_ ?_ _⟩
        · rfl
        · rw [post_setSocket (s := p.1.dissolved) ha]
          exact hspoils
    · rename_i hr
      obtain ⟨p, hp, rfl⟩ := Option.map_eq_some_iff.mp hu
      obtain ⟨hs, ha⟩ := bound_eq_some.mp hp
      have hbox : Box.of (p.1.connected p.2 (toSockaddrIn a) v.sent, p.2) = { Box.of p with
          peer := some a
          old := (p.1.old ++ v.sent.filter (p.1.gets p.2)).map Mail.of } := by
        rw [Box.of, Socket.connected, Option.map_some, from_to]
        rfl
      have haddr : (p.1.connected p.2 (toSockaddrIn a) v.sent).addr = p.1.addr := rfl
      rw [if_neg hr]
      refine ⟨spares_bound hv hp haddr rfl i, ?_⟩
      refine does_effect rfl ?_
      rw [post_setSocket (haddr.trans ha), hbox]
      exact .connect a (post_boxes hp) (mem_old p v.sent)

/-! ### `set_nonblocking` -/

/-- What `set_nonblocking_fd` makes of the flags. -/
def newFlags (flags : Int32) (nonblocking : Bool) : Int32 :=
  if nonblocking then flags ||| O_NONBLOCK else flags &&& ~~~O_NONBLOCK

theorem newFlags_nonblocking (flags : Int32) (nonblocking : Bool) :
    (newFlags flags nonblocking &&& O_NONBLOCK != 0) = nonblocking := by
  cases nonblocking with
  | true =>
    have h : (flags ||| O_NONBLOCK) &&& O_NONBLOCK = O_NONBLOCK := by
      refine Int32.toBitVec_inj.mp (BitVec.eq_of_getLsbD_eq fun i hi => ?_)
      cases h : flags.toBitVec.getLsbD i <;> simp [h]
    rw [newFlags, if_pos rfl, h]
    rfl
  | false =>
    have h : (flags &&& ~~~O_NONBLOCK) &&& O_NONBLOCK = 0 := by
      refine Int32.toBitVec_inj.mp (BitVec.eq_of_getLsbD_eq fun i hi => ?_)
      simp
    rw [newFlags, if_neg Bool.false_ne_true, h]
    rfl

theorem newFlags_status (flags : Int32) (nonblocking : Bool) :
    newFlags flags nonblocking &&& ~~~O_NONBLOCK = flags &&& ~~~O_NONBLOCK := by
  cases nonblocking with
  | true =>
    refine Int32.toBitVec_inj.mp (BitVec.eq_of_getLsbD_eq fun i hi => ?_)
    cases h : O_NONBLOCK.toBitVec.getLsbD i <;> simp [newFlags, h]
  | false => rw [newFlags, if_neg Bool.false_ne_true, Int32.and_assoc, Int32.and_self]

theorem run_setNonblocking (fd : Int32) (nonblocking : Bool) :
    UdpCall.run (.setNonblocking fd nonblocking) = .call (.fcntl fd F_GETFL 0) fun r =>
      if r.ret = -1 then .done (.unit (.error (.os r.errno)))
      else .call (.fcntl fd F_SETFL (newFlags r.ret nonblocking)) fun r =>
        .done (.unit ((cvtI32 r.errno r.ret).map fun _ => ())) := by
  rw [UdpCall.run, UdpSocket.setNonblocking, setNonblockingFd, Prog.map, Prog.bind]
  refine congrArg (Prog.call _) (funext fun r => ?_)
  by_cases hr : r.ret = -1
  · simp only [cvtI32, if_pos hr]
    rfl
  · simp only [cvtI32, if_neg hr]
    rfl

theorem once_setNonblocking (hk : k.Known) (fd : Int32) (nonblocking : Bool) :
    Once i (.setNonblocking fd nonblocking) (UdpCall.run (.setNonblocking fd nonblocking)) k := by
  rw [run_setNonblocking]
  refine Prog.atomic_next fun v hv => ⟨⟨failing, rfl⟩, fun r u hu => ?_⟩
  obtain ⟨hv, -⟩ := hv hk
  rw [answer] at hu
  split at hu
  · rename_i hr
    rw [if_pos hr, ← Option.some.inj hu]
    obtain ⟨hs, hd⟩ := stepped_fail hv (.setNonblocking fd nonblocking) r.errno i
    exact ⟨fun _ => hs, .inr ⟨_, hd, Prog.atomic_returned _ _⟩⟩
  rename_i hr
  obtain ⟨p, hp, hu⟩ := Option.bind_eq_some_iff.mp hu
  rw [if_pos rfl, Option.ite_none_right_eq_some, Option.some.injEq] at hu
  obtain ⟨hflags, rfl⟩ := hu
  rw [if_neg hr]
  -- other threads may change the mode before the flags are written, but not the rest
  refine ⟨fun _ => spares_same hv rfl rfl i, .inl ⟨rfl, ?_⟩⟩
  refine Prog.atomic_call fun w hw => ⟨⟨failing, rfl⟩, fun r' u hu => ?_⟩
  obtain ⟨hw, hkeeps⟩ := hw hv
  obtain ⟨p', hp', hstatus⟩ := hkeeps.bound hp
  rw [answer] at hu
  rw [cvtI32]
  split at hu
  · rename_i hr'
    rw [if_pos hr', ← Option.some.inj hu]
    obtain ⟨hs, hd⟩ := stepped_fail hw (.setNonblocking fd nonblocking) r'.errno i
    exact ⟨fun _ => hs, hd⟩
  · rename_i hr'
    rw [hp', Option.bind_some, if_neg (by decide), if_pos rfl, Option.some.injEq] at hu
    obtain ⟨hs, ha⟩ := bound_eq_some.mp hp'
    have hnew : newFlags r.ret nonblocking &&& ~~~O_NONBLOCK =
        p'.1.flags &&& ~~~O_NONBLOCK := by
      rw [newFlags_status, hflags, hstatus]
    have hbox : Box.of (p'.1.withFlags (newFlags r.ret nonblocking), p'.2) =
        { Box.of p' with nonblocking := nonblocking } := by
      rw [Box.of, Socket.nonblocking, Socket.withFlags, newFlags_nonblocking, hnew]
      rfl
    have haddr : (p'.1.withFlags (newFlags r.ret nonblocking)).addr = p'.1.addr := rfl
    subst hu
    rw [if_neg hr']
    refine ⟨fun _ => spares_bound hw hp' haddr hnew i, ?_⟩
    refine does_effect rfl ?_
    rw [post_setSocket (haddr.trans ha), hbox]
    exact .setNonblocking nonblocking (post_boxes hp')

/-! ### `bind` -/

/-- A call of which nothing is left when it fails. -/
theorem sys_checked {α β : Type} (f : Result α → β) (c : Fd.SysCall)
    (k : Int32 → Fd.Routine (Result α)) :
    (sys (Fd.checked none c k)).map f = .call (.sys c) fun r =>
      if r.ret = -1 then .done (f (.error (.os r.errno))) else (sys (k r.ret)).map f := by
  refine congrArg (Prog.call _) (funext fun r => ?_)
  by_cases hr : r.ret = -1
  · simp only [cvtI32, if_pos hr]
    rfl
  · simp only [cvtI32, if_neg hr]
    rfl

/-- A call after which a socket is closed when it fails. -/
theorem sys_checked_socket {α β : Type} (f : Result α → β) (fd : Int32) (c : Fd.SysCall)
    (k : Int32 → Fd.Routine (Result α)) :
    (sys (Fd.checked (some (.udpSocket fd)) c k)).map f = .call (.sys c) fun r =>
      if r.ret = -1 then .call (.sys (.close fd)) fun _ => .done (f (.error (.os r.errno)))
      else (sys (k r.ret)).map f := by
  refine congrArg (Prog.call _) (funext fun r => ?_)
  by_cases hr : r.ret = -1
  · simp only [cvtI32, if_pos hr]
    rfl
  · simp only [cvtI32, if_neg hr]
    rfl

theorem run_bind (a : SocketAddrV4) :
    UdpCall.run (.bind (.v4 a)) = .call (.sys (.socket AF_INET Fd.SOCK_DGRAM 0)) fun r =>
      if r.ret = -1 then .done (.socket (.error (.os r.errno)))
      else .call (.sys (.bind r.ret (toSockaddrIn a))) fun r' =>
        if r'.ret = -1 then
          .call (.sys (.close r.ret)) fun _ => .done (.socket (.error (.os r'.errno)))
        else .done (.socket (.ok (.udpSocket r.ret))) := by
  refine (sys_checked _ _ _).trans (congrArg (Prog.call _) (funext fun r => ?_))
  by_cases hr : r.ret = -1
  · rw [if_pos hr, if_pos hr]
  · rw [if_neg hr, if_neg hr, sys_checked_socket]
    rfl

omit [DecidableEq ι] in
/-- No address is one of `a`, which is free, and one of a socket. -/
theorem apart_of_free {a : SockaddrIn} (hk : k.Known) (ha : k.free a = true) {x : Box}
    {b : SocketAddrV4} (hx : k.post.boxes fd = some x) (hb : Covers x.addr b) :
    ¬ Covers (fromSockaddrIn a) b := by
  intro hab
  obtain ⟨p, hp, rfl⟩ := Option.map_eq_some_iff.mp hx
  have hfd : fd ∈ k.known := hk fd (by rw [(bound_eq_some.mp hp).1]; exact Option.some_ne_none _)
  have hall := List.all_eq_true.mp ha fd hfd
  rw [hp, Option.all_some, Bool.not_eq_true'] at hall
  exact not_covers_of_overlaps hall hb hab

/-- The socket of a thread before it is bound. -/
def fresh (i : ι) : Socket ι := ⟨i, none, none, [], 2⟩

omit [DecidableEq ι] in
theorem bound_of_unbound {s : Socket ι} (hs : k.sockets fd = some s) (ha : s.addr = none) :
    k.bound fd = none := by
  rw [Net.bound, hs, Option.bind_some, ha, Option.map_none]

/-- The rest of `bind`, when the socket is there. -/
theorem once_bindTo (hk : k.Known) (hs : k.sockets fd = some (fresh i)) (a : SocketAddrV4) :
    Once i (.bind (.v4 a)) (.call (.sys (.bind fd (toSockaddrIn a))) fun r =>
      if r.ret = -1 then .call (.sys (.close fd)) fun _ => .done (.socket (.error (.os r.errno)))
      else .done (.socket (.ok (.udpSocket fd)))) k := by
  refine Prog.atomic_next fun v hv => ⟨⟨failing, rfl⟩, fun r u hu => ?_⟩
  obtain ⟨hv, hkeeps⟩ := hv hk
  have hsv := hkeeps.unbound hs rfl rfl
  rw [answer] at hu
  split at hu
  · rename_i hr
    rw [if_pos hr, ← Option.some.inj hu]
    obtain ⟨hspares, hd⟩ := stepped_fail hv (.bind (.v4 a)) r.errno i
    refine ⟨fun _ => hspares, .inr ⟨_, hd, Prog.atomic_next fun w hw => ?_⟩⟩
    obtain ⟨hw, hkeeps⟩ := hw hspares.1
    have hsw : w.sockets fd = some (fresh i) := hkeeps.unbound hsv rfl rfl
    have hclose : ∀ r, w.answer i (.sys (.close fd)) r = some (w.setSocket fd none) := fun r => by
      rw [answer, hsw, Option.bind_some, if_pos ⟨rfl, rfl⟩]
    refine ⟨⟨failing, by rw [hclose]; rfl⟩, fun r' u hu => ?_⟩
    rw [hclose, Option.some.injEq] at hu
    subst hu
    refine ⟨fun _ => spares_unbound hw (fun s h => ?_) none, .inl ⟨?_, Prog.atomic_returned _ _⟩⟩
    · obtain rfl := Option.some.inj (hsw.symm.trans h)
      exact ⟨rfl, rfl⟩
    · exact view_unbound (bound_of_unbound hsw rfl) (by rw [Net.bound, setSocket_self]; rfl)
  · rename_i hr
    rw [hsv, Option.bind_some, Option.ite_none_right_eq_some, Option.some.injEq] at hu
    obtain ⟨⟨-, -, hfits, hfree⟩, rfl⟩ := hu
    rw [if_neg hr]
    have hfit : Fits a (fromSockaddrIn r.sa) := by
      have h := (fits_iff _ _).mp hfits
      rwa [from_to] at h
    refine ⟨fun _ => spares_unbound hv (fun s h => ?_) _, .inr ⟨_, ?_, Prog.atomic_returned _ _⟩⟩
    · obtain rfl := Option.some.inj (hsv.symm.trans h)
      exact ⟨rfl, rfl⟩
    · have hmode : ((fresh i).boundTo r.sa).nonblocking = false := by
        show ((2 : Int32) &&& O_NONBLOCK != 0) = false
        decide
      have hbox : Box.of ((fresh i).boundTo r.sa, r.sa) =
          ⟨fromSockaddrIn r.sa, none, [], false, 2 &&& ~~~O_NONBLOCK⟩ := by
        rw [Box.of, hmode]
        rfl
      refine does_effect rfl ?_
      rw [post_setSocket (a := r.sa) rfl, hbox]
      refine .bind hfit ?_ fun fd' x c hx hc => apart_of_free hv hfree hx hc
      exact congrArg (Option.map Box.of) (bound_of_unbound hsv rfl)

theorem once_bind (hk : k.Known) (addr : SocketAddr) :
    Once i (.bind addr) (UdpCall.run (.bind addr)) k := by
  cases addr with
  | v6 => exact once_v6 rfl k
  | v4 a =>
    rw [run_bind]
    refine Prog.atomic_next fun v hv => ⟨⟨failing, rfl⟩, fun r u hu => ?_⟩
    obtain ⟨hv, -⟩ := hv hk
    rw [answer] at hu
    split at hu
    · rename_i hr
      rw [if_pos hr, ← Option.some.inj hu]
      obtain ⟨hs, hd⟩ := stepped_fail hv (.bind (.v4 a)) r.errno i
      exact ⟨fun _ => hs, .inr ⟨_, hd, Prog.atomic_returned _ _⟩⟩
    · rename_i hr
      rw [Option.ite_none_right_eq_some, Option.some.injEq] at hu
      obtain ⟨⟨-, -, -, hnone⟩, rfl⟩ := hu
      rw [Option.isNone_iff_eq_none] at hnone
      rw [if_neg hr]
      have hspares := spares_unbound hv (i := i) (fun s h => by rw [hnone] at h; cases h)
        (some (fresh i))
      refine ⟨fun _ => hspares, .inl ⟨?_, once_bindTo hspares.1 (setSocket_self _) a⟩⟩
      exact view_unbound (by rw [Net.bound, hnone]; rfl)
        (bound_of_unbound (setSocket_self (some (fresh i))) rfl)

/-! ## Any number of threads -/

theorem lawful_layer : (layer ι).Lawful Known where
  compatible := compatible_keeps
  keeps hw hg := (hg hw).1
  atomic i c k hk := by
    cases c with
    | bind addr => exact once_bind hk addr
    | sendTo fd buf addr => exact once_sendTo hk fd buf addr
    | recvFrom fd len => exact once_recvFrom hk fd len
    | connect fd addr => exact once_connect hk fd addr
    | send fd buf => exact once_send hk fd buf
    | recv fd len => exact once_recv hk fd len
    | setNonblocking fd nonblocking => exact once_setNonblocking hk fd nonblocking

variable {τ : ι → Type}

theorem sound_turns {s t : Prog.System ι UdpCall UdpReply (Post × (ι → Nat)) _ τ}
    (hs : s.env.1.Sound) (h : (layer ι).Turns s t) : t.env.1.Sound := by
  induction h with
  | refl => exact hs
  | tail _ hturn ih =>
    cases hturn with
    | call hi hp => exact ih
    | effect hi hdoes => exact ih.does hdoes
    | ret hi => exact ih

/-- In every run of any number of threads that share the sockets of a network, with
their system calls in any order, the methods are called and return as in a run in which
each is over at one moment between its call and its return, and does what `Post.Does`
says. A thread that has not ended can go on, be it with an error, as a receive that
blocks and for which there is no mail. -/
theorem linearizable (p : (i : ι) → Prog UdpCall UdpReply Empty (τ i)) (hk : k.Known)
    (hs : k.post.Sound) {ms : List (Prog.Move ι Reply)}
    {s : Prog.System ι UdpCall UdpReply (Net ι) (Task UdpReply) τ}
    (h : runFrom (layer ι).step (.start k p) ms = some s) :
    ∃ t, (layer ι).Turns (.start k.view p) t ∧ t.history = s.history ∧ t.env = s.env.view ∧
      t.env.1.Sound ∧ ∀ i, (∀ q, t.threads i = .idle q ↔ s.threads i = .idle q) ∧
        ((∀ a, s.threads i ≠ .idle (.done a)) →
          ∃ m : Prog.Move ι Reply, m.thread = i ∧ ((layer ι).step s m).isSome) := by
  obtain ⟨-, t, hturns, hmirrors⟩ := lawful_layer.mirrors_run hk h
  exact ⟨t, hturns, hmirrors.history, hmirrors.env, sound_turns hs hturns, fun i =>
    ⟨fun q => hmirrors.idle_iff, hmirrors.progress lawful_layer⟩⟩

/-- A network without sockets. -/
def unused : Net Bool := ⟨fun _ => none, [], [], []⟩

def localhost (port : UInt16) : SocketAddrV4 := ⟨⟨127, 0, 0, 1⟩, port⟩

/-- One thread receives a byte on port 7, and another sends two bytes there. -/
def greeting (receiver : Bool) : Prog UdpCall UdpReply Empty UdpReply :=
  if receiver then .call (.bind (.v4 (localhost 7))) fun _ => .call (.recvFrom 3 1) .done
  else .call (.bind (.v4 (localhost 0))) fun _ => .call (.sendTo 4 [1, 2] (.v4 (localhost 7))) .done

/-- The reply to a call that returns `ret`, or deals with the bytes `chunk`; the
other address is port 9. -/
def reply (ret : Int32) (size : Nat) (chunk : Bytes) (port : UInt16) : Reply :=
  ⟨⟨ret, 0, toSockaddrIn (localhost port), ⟨0⟩⟩, .ok size, chunk, false⟩

/-- Their calls alternate. -/
def greetingRun : List (Prog.Move Bool Reply) :=
  [.call true, .call false, .answer true (reply 3 0 [] 0), .answer false (reply 4 0 [] 0),
    .answer false (reply 0 0 [] 9), .answer true (reply 0 0 [] 7), .ret true, .ret false,
    .call true, .call false, .answer false (reply 0 2 [] 9), .answer true (reply 0 1 [1] 9),
    .ret true]

theorem linearizable_greetingRun :
    ∃ s : Prog.System Bool UdpCall UdpReply (Net Bool) (Task UdpReply) fun _ => UdpReply,
      runFrom (layer Bool).step (.start unused greeting) greetingRun = some s ∧
        s.threads true = .idle (.done (.datagram (.ok ([1], .v4 (localhost 9))))) ∧
        ∃ t, (layer Bool).Turns (.start unused.view greeting) t ∧ t.history = s.history ∧
          t.env.1.Sound ∧
          t.threads true = .idle (.done (.datagram (.ok ([1], .v4 (localhost 9))))) := by
  have h : runFrom (layer Bool).step (.start unused greeting) greetingRun = some _ := rfl
  obtain ⟨t, hturns, hhistory, -, hsound, hthreads⟩ := linearizable greeting
    (fun fd h => absurd rfl h)
    ⟨fun m hm => absurd hm List.not_mem_nil, fun h => absurd h.symm (Option.some_ne_none _)⟩ h
  exact ⟨_, h, rfl, t, hturns, hhistory, hsound, ((hthreads true).1 _).mpr rfl⟩

end Net

end PsPayload.Udp
