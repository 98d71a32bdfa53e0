import Mathlib.Data.List.Forall2
import PsPayload.Lib.Environment
import PsPayload.Lib.Text
import PsPayload.Ps5.Fd.Wrapper

/-!
# Name resolution

`lookupHost` walks the chain that `getaddrinfo` returned, from entry to entry,
and frees it. Each entry and each address is read by a call, so that a chain
that is not there any more cannot be read: `AddrChain.answer` is the memory
with a chain in it. `lookupHost_returns` says what the walk comes to.
-/

namespace PsPayload

open Lib

/-- `addrinfo`, as far as it is read. -/
structure AddrInfo where
  aiFamily : Int32
  aiAddr : UInt64
  aiNext : UInt64
  deriving DecidableEq, Repr

namespace Lookup

inductive Call where
  | getaddrinfo (node service : CString) (family socktype : Int32)
  /-- `&*cur`. -/
  | load (cur : UInt64)
  /-- `&*(ai.ai_addr as *const sockaddr_in)`. -/
  | loadSockaddr (addr : UInt64)
  | freeaddrinfo (res : UInt64)
  deriving DecidableEq

/-- What a call returned. -/
structure Reply where
  rc : Int32
  /-- `*res`, after `getaddrinfo`. -/
  res : UInt64
  ai : AddrInfo
  sin : SockaddrIn
  deriving DecidableEq, Repr

/-- The loops carry nothing. -/
abbrev Routine (α : Type) : Type := Prog Call Reply Unit α

end Lookup

/-- `while !cur.is_null()`, and what comes after it. The loop has no bound of
its own: `none` is a chain of more entries than `turns`. -/
def walk (res : UInt64) :
    Nat → UInt64 → List SocketAddr → Lookup.Routine (Option (Result (List SocketAddr)))
  | 0, _, _ => .done none
  | turns + 1, cur, out =>
    if cur = 0 then .call (.freeaddrinfo res) fun _ => .done (some (.ok out))
    else
      .call (.load cur) fun r =>
      if r.ai.aiFamily = AF_INET ∧ r.ai.aiAddr ≠ 0 then
        .call (.loadSockaddr r.ai.aiAddr) fun s =>
        walk res turns r.ai.aiNext (out ++ [.v4 (fromSockaddrIn s.sin)])
      else walk res turns r.ai.aiNext out

def lookupHost (turns : Nat) (host : String) (port : UInt16) :
    Lookup.Routine (Option (Result (List SocketAddr))) :=
  match cstr host with
  | .error e => .done (some (.error e))
  | .ok chost =>
  match cstr (String.ofList (decimal port.toNat)) with
  | .error e => .done (some (.error e))
  | .ok service =>
  .call (.getaddrinfo chost service AF_INET Fd.SOCK_STREAM) fun r =>
  if r.rc ≠ 0 then .done (some (.error (.gai r.rc))) else walk r.res turns r.res []

/-! ## A chain in memory -/

/-- The entries from the address `p` on, up to the null pointer. Every address
of family `AF_INET` is that of a `sockaddr_in`. -/
inductive Linked (info : UInt64 → Option AddrInfo) (sockaddr : UInt64 → Option SockaddrIn) :
    UInt64 → List AddrInfo → Prop where
  | nil : Linked info sockaddr 0 []
  | cons {p : UInt64} {ai : AddrInfo} {entries : List AddrInfo} (hp : p ≠ 0)
    (hi : info p = some ai)
    (ha : ai.aiFamily = AF_INET → ai.aiAddr ≠ 0 → ∃ sin, sockaddr ai.aiAddr = some sin)
    (hl : Linked info sockaddr ai.aiNext entries) : Linked info sockaddr p (ai :: entries)

/-- A chain that `getaddrinfo` returns. -/
structure AddrChain where
  info : UInt64 → Option AddrInfo
  sockaddr : UInt64 → Option SockaddrIn
  res : UInt64
  entries : List AddrInfo
  linked : Linked info sockaddr res entries

namespace AddrChain

/-- Whether the chain is in memory, and how often it has been freed. -/
structure Memory where
  live : Bool
  frees : Nat
  deriving DecidableEq, Repr

/-- Only a chain that is in memory is read, and freed. -/
def answer (chain : AddrChain) (m : Memory) : Lookup.Call → Lookup.Reply → Option Memory
  | .getaddrinfo _ _ _ _, r =>
    if m.live = false ∧ r.rc = 0 ∧ r.res = chain.res then some { m with live := true } else none
  | .load cur, r => if m.live = true ∧ chain.info cur = some r.ai then some m else none
  | .loadSockaddr addr, r =>
    if m.live = true ∧ chain.sockaddr addr = some r.sin then some m else none
  | .freeaddrinfo res, _ =>
    if m.live = true ∧ res = chain.res then some ⟨false, m.frees + 1⟩ else none

/-- The address of an entry that has one of family `AF_INET`. -/
def inet (chain : AddrChain) (ai : AddrInfo) : Option SockaddrIn :=
  if ai.aiFamily = AF_INET ∧ ai.aiAddr ≠ 0 then chain.sockaddr ai.aiAddr else none

/-- What is found, in the order of the chain. -/
def found (chain : AddrChain) (entries : List AddrInfo) : List SocketAddr :=
  (entries.filterMap chain.inet).map fun sin => .v4 (fromSockaddrIn sin)

variable {chain : AddrChain} {m m' : Memory} {r : Lookup.Reply}

theorem answer_getaddrinfo {node service : CString} {family socktype : Int32} :
    chain.answer m (.getaddrinfo node service family socktype) r = some m' ↔
      (m.live = false ∧ r.rc = 0 ∧ r.res = chain.res) ∧ { m with live := true } = m' := by
  rw [answer, Option.ite_none_right_eq_some, Option.some.injEq]

theorem answer_load {cur : UInt64} : chain.answer m (.load cur) r = some m' ↔
    (m.live = true ∧ chain.info cur = some r.ai) ∧ m = m' := by
  rw [answer, Option.ite_none_right_eq_some, Option.some.injEq]

theorem answer_loadSockaddr {addr : UInt64} : chain.answer m (.loadSockaddr addr) r = some m' ↔
    (m.live = true ∧ chain.sockaddr addr = some r.sin) ∧ m = m' := by
  rw [answer, Option.ite_none_right_eq_some, Option.some.injEq]

theorem answer_freeaddrinfo {res : UInt64} : chain.answer m (.freeaddrinfo res) r = some m' ↔
    (m.live = true ∧ res = chain.res) ∧ ⟨false, m.frees + 1⟩ = m' := by
  rw [answer, Option.ite_none_right_eq_some, Option.some.injEq]

/-- Some answer, where there is one. -/
theorem exists_answer {c : Lookup.Call} (h : chain.answer m c r = some m') :
    ∃ r, (chain.answer m c r).isSome :=
  ⟨r, Option.isSome_iff_exists.mpr ⟨m', h⟩⟩

/-! ## The walk -/

/-- The walk from one of the entries on, with turns enough. -/
theorem within_walk (chain : AddrChain) (frees : Nat) {p : UInt64} {entries : List AddrInfo}
    (h : Linked chain.info chain.sockaddr p entries) :
    ∀ (turns : Nat) (out : List SocketAddr), entries.length < turns →
      (walk chain.res turns p out).Within chain.answer
        (fun m a => m = ⟨false, frees + 1⟩ ∧ a = some (.ok (out ++ chain.found entries)))
        (2 * entries.length + 1) ⟨true, frees⟩ := by
  induction h with
  | nil =>
    rintro (_ | turns) out ht
    · cases ht
    rw [walk, if_pos rfl]
    refine Prog.within_call (exists_answer (r := ⟨0, 0, ⟨0, 0, 0⟩, ⟨0, 0, 0, 0⟩⟩)
      (answer_freeaddrinfo.mpr ⟨⟨rfl, rfl⟩, rfl⟩)) fun r m hr => ?_
    obtain ⟨-, rfl⟩ := answer_freeaddrinfo.mp hr
    exact ⟨rfl, by rw [found, List.filterMap_nil, List.map_nil, List.append_nil]⟩
  | @cons p ai entries hp hi ha hl ih =>
    rintro (_ | turns) out ht
    · cases ht
    rw [List.length_cons] at ht
    rw [walk, if_neg hp]
    refine Prog.within_le (n := 2 * entries.length + 1 + 1 + 1)
      (by rw [List.length_cons]; omega) ?_
    refine Prog.within_call (exists_answer (r := ⟨0, 0, ai, ⟨0, 0, 0, 0⟩⟩)
      (answer_load.mpr ⟨⟨rfl, hi⟩, rfl⟩)) fun r m hr => ?_
    obtain ⟨⟨-, hload⟩, rfl⟩ := answer_load.mp hr
    obtain rfl : ai = r.ai := Option.some.inj (hi.symm.trans hload)
    by_cases hc : r.ai.aiFamily = AF_INET ∧ r.ai.aiAddr ≠ 0
    · rw [if_pos hc]
      obtain ⟨sin, hsin⟩ := ha hc.1 hc.2
      refine Prog.within_call (exists_answer (r := ⟨0, 0, ⟨0, 0, 0⟩, sin⟩)
        (answer_loadSockaddr.mpr ⟨⟨rfl, hsin⟩, rfl⟩)) fun s m hs => ?_
      obtain ⟨⟨-, hload⟩, rfl⟩ := answer_loadSockaddr.mp hs
      have hf : chain.found (r.ai :: entries) =
          [.v4 (fromSockaddrIn s.sin)] ++ chain.found entries := by
        rw [found, List.filterMap_cons_some (show chain.inet r.ai = some s.sin from
          (if_pos hc).trans hload)]
        rfl
      rw [hf, ← List.append_assoc]
      exact ih turns _ (by omega)
    · rw [if_neg hc]
      have hf : chain.found (r.ai :: entries) = chain.found entries := by
        rw [found, List.filterMap_cons_none (show chain.inet r.ai = none from if_neg hc)]
        rfl
      rw [hf]
      exact Prog.within_le (by omega) (ih turns out (by omega))

theorem cstr_decimal (n : Nat) : ∃ c, cstr (String.ofList (decimal n)) = .ok c := by
  have h : Char.ofNat 0 ∉ (String.ofList (decimal n)).toList := by
    rw [String.toList_ofList]
    exact fun hc => absurd ((isNumeral_decimal n).2 _ hc) (by decide)
  exact ⟨_, dif_pos h⟩

theorem within_lookupHost (chain : AddrChain) (host : CString) (port : UInt16) (frees : Nat)
    {turns : Nat} (ht : chain.entries.length < turns) :
    (lookupHost turns host.val port).Within chain.answer
      (fun m a => m = ⟨false, frees + 1⟩ ∧ a = some (.ok (chain.found chain.entries)))
      (2 * chain.entries.length + 2) ⟨false, frees⟩ := by
  obtain ⟨service, hs⟩ := cstr_decimal port.toNat
  rw [lookupHost, cstr_val, hs]
  refine Prog.within_call (exists_answer (r := ⟨0, chain.res, ⟨0, 0, 0⟩, ⟨0, 0, 0, 0⟩⟩)
    (answer_getaddrinfo.mpr ⟨⟨rfl, rfl, rfl⟩, rfl⟩)) fun r m hr => ?_
  obtain ⟨⟨-, hrc, hres⟩, rfl⟩ := answer_getaddrinfo.mp hr
  rw [if_neg (not_not.mpr hrc), hres]
  exact within_walk chain frees chain.linked turns [] ht

/-- One address for each entry of family `AF_INET` that has one, in the order
of the chain, each with the octets and the port that are stored there, and the
chain is freed once, after it has been read: a call that reads or frees it at
another time has no answer. Addresses that are passed to calls are stored the
same way. -/
theorem lookupHost_returns (chain : AddrChain) (host : CString) (port : UInt16) (frees : Nat)
    {turns : Nat} (ht : chain.entries.length < turns) :
    (lookupHost turns host.val port).Returns chain.answer
        (fun m a => m = ⟨false, frees + 1⟩ ∧ ∃ addrs : List SocketAddrV4,
          a = some (.ok (addrs.map .v4)) ∧
            List.Forall₂ Stored (chain.entries.filterMap chain.inet) addrs)
        (2 * chain.entries.length + 2) ⟨false, frees⟩ ∧
      ∀ addr : SocketAddrV4,
        Stored (toSockaddrIn addr) addr ∧ fromSockaddrIn (toSockaddrIn addr) = addr := by
  refine ⟨(Prog.within_post ?_ (within_lookupHost chain host port frees ht)).returns,
    fun addr => ⟨stored_to addr, from_to addr⟩⟩
  rintro m a ⟨rfl, rfl⟩
  refine ⟨rfl, (chain.entries.filterMap chain.inet).map fromSockaddrIn, ?_, ?_⟩
  · rw [found, List.map_map]
    rfl
  · rw [List.forall₂_map_right_iff]
    exact List.forall₂_same.mpr fun sin _ => stored_from sin

/-- An entry of another family, and one for 127.0.0.1. -/
def localhost : AddrChain where
  info p :=
    if p = 16 then some ⟨28, 64, 32⟩ else if p = 32 then some ⟨AF_INET, 128, 0⟩ else none
  sockaddr p := if p = 128 then some (toSockaddrIn ⟨⟨127, 0, 0, 1⟩, 80⟩) else none
  res := 16
  entries := [⟨28, 64, 32⟩, ⟨AF_INET, 128, 0⟩]
  linked := .cons (by decide) rfl (fun h => absurd h (by decide))
    (.cons (by decide) rfl (fun _ _ => ⟨_, rfl⟩) .nil)

theorem lookupHost_returns_localhost :
    (lookupHost 3 "localhost" 80).Returns localhost.answer
      (fun m a => m = ⟨false, 1⟩ ∧ ∃ addrs : List SocketAddrV4, a = some (.ok (addrs.map .v4)) ∧
        List.Forall₂ Stored [toSockaddrIn ⟨⟨127, 0, 0, 1⟩, 80⟩] addrs) 6 ⟨false, 0⟩ :=
  (lookupHost_returns localhost ⟨"localhost", by decide⟩ 80 0 (by decide)).1

end AddrChain

end PsPayload
