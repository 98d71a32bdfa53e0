import PsPayload.Lib.Ownership
import PsPayload.Ps5.Fd.Wrapper

/-!
# The owners of descriptors

Which descriptors each system call creates, uses and closes, and that any
number of wrappers, made, converted and dropped in any order, own each
descriptor once and close it once (`descriptor_ledger`). A constructor that
fails has closed what it had opened, and its error is that of the call that
failed, although `close` came after it (`Captured`).
-/

namespace PsPayload.Fd

open Lib

/-- The descriptors that a call is given. -/
def SysCall.uses : SysCall → List Desc
  | .open _ _ _ | .socket _ _ _ | .opendir _ => []
  | .setsockopt fd _ _ _ | .bind fd _ | .listen fd _ | .connect fd _ | .accept fd | .close fd =>
    [.fd fd]
  | .closedir dir => [.dir dir]
  | .io d => [d]

/-- The descriptor that a call has created. -/
def SysCall.gains : SysCall → SysRet → Option Desc
  | .open _ _ _, r | .socket _ _ _, r | .accept _, r =>
    if r.ret = -1 then none else some (.fd r.ret)
  | .opendir _, r => if r.dir = 0 then none else some (.dir r.dir)
  | .setsockopt _ _ _ _, _ | .bind _ _, _ | .listen _ _, _ | .connect _ _, _ | .close _, _
  | .closedir _, _ | .io _, _ => none

/-- The descriptor that a call closes, whatever it returns. -/
def SysCall.loses : SysCall → Option Desc
  | .close fd => some (.fd fd)
  | .closedir dir => some (.dir dir)
  | .open _ _ _ | .socket _ _ _ | .opendir _ | .setsockopt _ _ _ _ | .bind _ _ | .listen _ _
  | .connect _ _ | .accept _ | .io _ => none

theorem SysCall.loses_uses {c : SysCall} {d : Desc} (hl : c.loses = some d) : d ∈ c.uses := by
  cases c <;> cases hl <;> exact List.mem_singleton.mpr rfl

def accounts : Accounts SysCall SysRet Desc :=
  ⟨SysCall.uses, SysCall.gains, SysCall.loses, SysCall.loses_uses⟩

/-- The functions that make a wrapper. A client may also open a descriptor
without one. -/
inductive Make where
  | openOptions (o : OpenOptions) (path : String)
  | fileOpen (path : String)
  | fileCreate (path : String)
  | readDir (path : String)
  | tcpConnect (addr : SocketAddr)
  | tcpBind (addr : SocketAddr)
  | udpBind (addr : SocketAddr)
  | rawOpen (path : CString) (flags : Int32) (mode : UInt32)
  deriving DecidableEq

/-- The functions that borrow one. -/
inductive Method where
  | accept
  | incoming
  | use (n : Nat)
  deriving DecidableEq, Repr

/-- The functions that take one. -/
inductive Consume where
  | intoRawFd
  | fileFromRawFd
  | tcpFromRawFd
  | drop
  deriving DecidableEq, Repr

inductive Op where
  | make (m : Make)
  | method (m : Method)
  | consume (c : Consume)
  deriving DecidableEq

/-- What a function has returned. -/
abbrev Outcome : Type := Result (Option Wrapper)

def Make.body : Make → Routine (Result Wrapper)
  | .openOptions o path => o.open path
  | .fileOpen path => File.open path
  | .fileCreate path => File.create path
  | .readDir path => Fd.readDir path
  | .tcpConnect addr => TcpStream.connect addr
  | .tcpBind addr => TcpListener.bind addr
  | .udpBind addr => UdpSocket.bind addr
  | .rawOpen path flags mode =>
    checked none (.open path flags mode) fun fd => .done (.ok (.raw fd))

def Method.body : Method → Wrapper → Option (Routine Outcome)
  | .accept, .tcpListener fd => some ((TcpListener.accept fd).map fun r => r.map (some ·.1))
  | .incoming, .tcpListener fd => some ((Incoming.next fd).map fun r => r.map some)
  | .use n, w => some ((useDesc w.desc n).map fun _ => .ok none)
  | .accept, .file _ | .accept, .tcpStream _ | .accept, .udpSocket _ | .accept, .readDir _
  | .accept, .raw _ | .incoming, .file _ | .incoming, .tcpStream _ | .incoming, .udpSocket _
  | .incoming, .readDir _ | .incoming, .raw _ => none

def Consume.body : Consume → Wrapper → Option (Routine Outcome)
  | .intoRawFd, w => (Fd.intoRawFd w).map fun w => .done (.ok (some w))
  | .fileFromRawFd, w => (File.fromRawFd w).map fun w => .done (.ok (some w))
  | .tcpFromRawFd, w => (TcpStream.fromRawFd w).map fun w => .done (.ok (some w))
  | .drop, w => some (w.drop (.done (.ok none)))

def Op.body : Op → Receiver Wrapper → Option (Routine Outcome)
  | .make m, .alone => some (m.body.map fun r => r.map some)
  | .method m, .borrowed w => m.body w
  | .consume c, .taken w => c.body w
  | .make _, .borrowed _ | .make _, .taken _ | .method _, .alone | .method _, .taken _
  | .consume _, .alone | .consume _, .borrowed _ => none

def gives : Outcome → Option Wrapper
  | .ok w => w
  | .error _ => none

/-- The wrappers and their functions. -/
def api : Api SysCall SysRet Unit Desc Wrapper Op Outcome where
  toAccounts := accounts
  possible _ _ := true
  owns w := [w.desc]
  body := Op.body
  gives := gives

/-! ## Errors -/

def SysCall.failed (c : SysCall) (r : SysRet) : Bool :=
  match c with
  | .opendir _ => r.dir = 0
  | .open _ _ _ | .socket _ _ _ | .setsockopt _ _ _ _ | .bind _ _ | .listen _ _ | .connect _ _
  | .accept _ | .close _ | .closedir _ | .io _ => r.ret = -1

/-- Nothing has failed or been closed. -/
def Smooth (l : List (SysCall × SysRet)) : Prop :=
  ∀ x ∈ l, x.1.failed x.2 = false ∧ x.1.loses = none

/-- The error was there before any call, or is what the only call to fail left
in `errno`, after which there were only calls that close something. -/
def Captured (e : Error) (l : List (SysCall × SysRet)) : Prop :=
  (l = [] ∧ ∃ msg, e = .invalidInput msg) ∨
    ∃ closing c r before, l = closing ++ (c, r) :: before ∧ (∀ x ∈ closing, x.1.loses.isSome) ∧
      c.failed r = true ∧ c.loses = none ∧ e = .os r.errno ∧ Smooth before

theorem smooth_cons {c : SysCall} {r : SysRet} {l : List (SysCall × SysRet)} (hl : Smooth l)
    (hr : c.failed r = false) (hc : c.loses = none) : Smooth ((c, r) :: l) := by
  intro x hx
  rcases List.mem_cons.mp hx with rfl | hx
  · exact ⟨hr, hc⟩
  · exact hl x hx

theorem captured_of_failed {c : SysCall} {r : SysRet} {l : List (SysCall × SysRet)} (hl : Smooth l)
    (hr : c.failed r = true) (hc : c.loses = none) : Captured (.os r.errno) ((c, r) :: l) :=
  .inr ⟨[], c, r, l, rfl, fun _ h => absurd h List.not_mem_nil, hr, hc, rfl, hl⟩

/-- A call that closes something does not change the error that was there. -/
theorem Captured.close {e : Error} {c : SysCall} {r : SysRet} {l : List (SysCall × SysRet)}
    (h : Captured e l) (hl : l ≠ []) (hc : c.loses.isSome) : Captured e ((c, r) :: l) := by
  rcases h with ⟨h, -⟩ | ⟨closing, c', r', before, rfl, hcl, h⟩
  · exact absurd h hl
  refine .inr ⟨(c, r) :: closing, c', r', before, rfl, fun x hx => ?_, h⟩
  rcases List.mem_cons.mp hx with rfl | hx
  · exact hc
  · exact hcl x hx

/-! ## One call -/

/-- What is asked of a function given `recv`: it owns and releases as it should,
and says what went wrong. -/
def Keeps {β : Type} (recv : Receiver Wrapper) (f : β → Outcome) (p : Routine β)
    (l : List (SysCall × SysRet)) : Prop :=
  p.Always api.ok (api.Own recv fun _ => True)
    (fun l a => api.Done recv (fun _ => True) l (f a) ∧ ∀ e, f a = .error e → Captured e l) l

section Calls

variable {β : Type} {recv : Receiver Wrapper} {f : β → Outcome} {l : List (SysCall × SysRet)}
  {c : SysCall} {o : List Desc} {k : SysRet → Routine β}

/-- A call that opens and closes nothing. -/
theorem keeps_plain (ho : api.balance (api.given recv) l = o)
    (hu : ∀ d ∈ c.uses, d ∈ o ++ api.lent recv) (hg : ∀ r, c.gains r = none) (hl : c.loses = none)
    (hk : ∀ r, api.balance (api.given recv) ((c, r) :: l) = o → Keeps recv f (k r) ((c, r) :: l)) :
    Keeps recv f (.call c k) l :=
  Api.own_plain ho trivial hu hg hl fun r _ hb => hk r hb

/-- A call that opens a descriptor, or fails. -/
theorem keeps_open (ho : api.balance (api.given recv) l = o)
    (hu : ∀ d ∈ c.uses, d ∈ o ++ api.lent recv) (hl : c.loses = none)
    (hk : ∀ r, api.balance (api.given recv) ((c, r) :: l) = (c.gains r).toList ++ o →
      Keeps recv f (k r) ((c, r) :: l)) : Keeps recv f (.call c k) l :=
  Api.own_create ho trivial hu hl fun r _ hb => hk r hb

/-- A wrapper is dropped. -/
theorem keeps_drop {w : Wrapper} {p : Routine β} (ho : api.balance (api.given recv) l = [w.desc])
    (hk : ∀ r, api.balance (api.given recv) ((w.closeCall, r) :: l) = [] →
      Keeps recv f p ((w.closeCall, r) :: l)) : Keeps recv f (w.drop p) l := by
  have hu : api.uses w.closeCall = [w.desc] := by cases w <;> rfl
  have hl : api.loses w.closeCall = some w.desc := by cases w <;> rfl
  have hg (r : SysRet) : api.gains w.closeCall r = none := by cases w <;> rfl
  exact Api.own_release ho trivial hu hg hl fun r _ hb => hk r hb

theorem keeps_error {e : Error} {b : β} (hf : f b = .error e)
    (ho : api.balance (api.given recv) l = []) (he : Captured e l) :
    Keeps recv f (.done b) l := by
  refine ⟨Api.own_done ho trivial ?_, fun e' he' => ?_⟩
  · rw [hf]
    exact .nil
  · rw [hf] at he'
    cases he'
    exact he

theorem keeps_ok {w : Option Wrapper} {b : β} (hf : f b = .ok w)
    (ho : api.balance (api.given recv) l = (w.map Wrapper.desc).toList) :
    Keeps recv f (.done b) l := by
  refine ⟨Api.own_done ho trivial ?_, fun e he => ?_⟩
  · rw [hf]
    cases w with
    | none => exact .nil
    | some w => exact .refl _
  · rw [hf] at he
    cases he

end Calls

/-! ## One function -/

/-- What the caller gets of a constructor's result. -/
def made (r : Result Wrapper) : Outcome := r.map some

section Constructors

variable {l : List (SysCall × SysRet)} {c : SysCall} {k : Int32 → Routine (Result Wrapper)}

/-- `cvt_i32(c)?` where `c` opens a descriptor. -/
theorem keeps_checked_open (ho : api.balance (api.given .alone) l = []) (hs : Smooth l)
    (hu : c.uses = []) (hl : c.loses = none)
    (hg : ∀ r, c.gains r = if r.ret = -1 then none else some (.fd r.ret))
    (hf : ∀ r, c.failed r = decide (r.ret = -1))
    (hk : ∀ fd l, api.balance (api.given .alone) l = [.fd fd] → Smooth l →
      Keeps .alone made (k fd) l) : Keeps .alone made (checked none c k) l := by
  refine keeps_open ho (fun d hd => ?_) hl fun r ho => ?_
  · rw [hu] at hd
    exact absurd hd List.not_mem_nil
  rw [hg] at ho
  rw [cvtI32]
  by_cases hr : r.ret = -1
  · rw [if_pos hr] at ho ⊢
    refine keeps_error rfl ho (captured_of_failed hs ?_ hl)
    rw [hf, hr]
    rfl
  · rw [if_neg hr] at ho ⊢
    refine hk r.ret _ ho (smooth_cons hs ?_ hl)
    rw [hf]
    exact decide_eq_false hr

/-- `cvt_i32(c)?` in a function that owns `w`. -/
theorem keeps_checked_owned {w : Wrapper} (ho : api.balance (api.given .alone) l = [w.desc])
    (hs : Smooth l) (hu : c.uses = [w.desc]) (hl : c.loses = none) (hg : ∀ r, c.gains r = none)
    (hf : ∀ r, c.failed r = decide (r.ret = -1))
    (hk : ∀ ret l, api.balance (api.given .alone) l = [w.desc] → Smooth l →
      Keeps .alone made (k ret) l) : Keeps .alone made (checked (some w) c k) l := by
  refine keeps_plain ho (fun d hd => ?_) hg hl fun r ho => ?_
  · rw [hu] at hd
    exact List.mem_append_left _ hd
  rw [cvtI32]
  by_cases hr : r.ret = -1
  · rw [if_pos hr]
    have hcl : w.closeCall.loses.isSome := by cases w <;> rfl
    refine keeps_drop ho fun _ ho => keeps_error rfl ho ?_
    refine Captured.close ?_ (List.cons_ne_nil _ _) hcl
    refine captured_of_failed hs ?_ hl
    rw [hf, hr]
    rfl
  · rw [if_neg hr]
    refine hk r.ret _ ho (smooth_cons hs ?_ hl)
    rw [hf]
    exact decide_eq_false hr

/-- What is wrong before the first call. -/
theorem keeps_invalid {e : Error} (h : ∃ msg, e = .invalidInput msg) :
    Keeps .alone made (.done (.error e)) [] :=
  keeps_error rfl rfl (.inl ⟨rfl, h⟩)

theorem cstr_error {s : String} {e : Error} (h : cstr s = .error e) :
    ∃ msg, e = .invalidInput msg := by
  rw [cstr] at h
  split at h
  · cases h
  · cases h
    exact ⟨_, rfl⟩

theorem accessFlags_error {o : OpenOptions} {e : Error} (h : o.accessFlags = .error e) :
    ∃ msg, e = .invalidInput msg := by
  rw [OpenOptions.accessFlags] at h
  split at h
  · cases h
  · cases h
  · cases h
  · cases h
    exact ⟨_, rfl⟩

theorem smooth_nil : Smooth [] := fun _ h => absurd h List.not_mem_nil

theorem keeps_withV4 {addr : SocketAddr} {k : SockaddrIn → Routine (Result Wrapper)}
    (hk : ∀ sa, Keeps .alone made (k sa) []) : Keeps .alone made (withV4 addr k) [] := by
  rcases addr with v4 | _
  · exact hk (toSockaddrIn v4)
  · exact keeps_invalid ⟨_, rfl⟩

theorem keeps_connect (addr : SocketAddr) : Keeps .alone made (TcpStream.connect addr) [] := by
  refine keeps_withV4 fun sa => ?_
  refine keeps_checked_open rfl smooth_nil rfl rfl (fun _ => rfl) (fun _ => rfl)
    fun fd l ho hs => ?_
  refine keeps_checked_owned ho hs rfl rfl (fun _ => rfl) (fun _ => rfl) fun _ l ho _ => ?_
  exact keeps_ok rfl ho

theorem keeps_tcpBind (addr : SocketAddr) : Keeps .alone made (TcpListener.bind addr) [] := by
  refine keeps_withV4 fun sa => ?_
  refine keeps_checked_open rfl smooth_nil rfl rfl (fun _ => rfl) (fun _ => rfl)
    fun fd l ho hs => ?_
  refine keeps_checked_owned ho hs rfl rfl (fun _ => rfl) (fun _ => rfl) fun _ l ho hs => ?_
  refine keeps_checked_owned ho hs rfl rfl (fun _ => rfl) (fun _ => rfl) fun _ l ho hs => ?_
  refine keeps_checked_owned ho hs rfl rfl (fun _ => rfl) (fun _ => rfl) fun _ l ho _ => ?_
  exact keeps_ok rfl ho

theorem keeps_udpBind (addr : SocketAddr) : Keeps .alone made (UdpSocket.bind addr) [] := by
  refine keeps_withV4 fun sa => ?_
  refine keeps_checked_open rfl smooth_nil rfl rfl (fun _ => rfl) (fun _ => rfl)
    fun fd l ho hs => ?_
  refine keeps_checked_owned ho hs rfl rfl (fun _ => rfl) (fun _ => rfl) fun _ l ho _ => ?_
  exact keeps_ok rfl ho

theorem keeps_openOptions (o : OpenOptions) (path : String) :
    Keeps .alone made (o.open path) [] := by
  rw [OpenOptions.open]
  cases ha : o.accessFlags with
  | error e => exact keeps_invalid (accessFlags_error ha)
  | ok access =>
    cases hc : cstr path with
    | error e => exact keeps_invalid (cstr_error hc)
    | ok cPath =>
      refine keeps_checked_open rfl smooth_nil rfl rfl (fun _ => rfl) (fun _ => rfl)
        fun fd l ho _ => ?_
      exact keeps_ok rfl ho

theorem keeps_readDir (path : String) : Keeps .alone made (readDir path) [] := by
  rw [readDir]
  cases hc : cstr path with
  | error e => exact keeps_invalid (cstr_error hc)
  | ok cPath =>
    refine keeps_open rfl (fun d hd => absurd hd List.not_mem_nil) rfl fun r ho => ?_
    rw [SysCall.gains] at ho
    rw [cvtPtr]
    by_cases hr : r.dir = 0
    · rw [if_pos hr] at ho ⊢
      exact keeps_error rfl ho (captured_of_failed smooth_nil (decide_eq_true hr) rfl)
    · rw [if_neg hr] at ho ⊢
      exact keeps_ok rfl ho

theorem keeps_make (m : Make) : Keeps .alone made m.body [] := by
  cases m with
  | openOptions o path => exact keeps_openOptions o path
  | fileOpen path =>
    rw [Make.body, File.open]
    exact keeps_openOptions _ path
  | fileCreate path =>
    rw [Make.body, File.create]
    exact keeps_openOptions _ path
  | readDir path => exact keeps_readDir path
  | tcpConnect addr => exact keeps_connect addr
  | tcpBind addr => exact keeps_tcpBind addr
  | udpBind addr => exact keeps_udpBind addr
  | rawOpen path flags mode =>
    refine keeps_checked_open rfl smooth_nil rfl rfl (fun _ => rfl) (fun _ => rfl)
      fun fd l ho _ => ?_
    exact keeps_ok rfl ho

end Constructors

/-- `accept` gives a new connection, and leaves the listener where it is. -/
theorem keeps_accept {fd : Int32} {f : Result (Wrapper × SocketAddr) → Outcome}
    (hok : ∀ w peer, f (.ok (w, peer)) = .ok (some w)) (herr : ∀ e, f (.error e) = .error e) :
    Keeps (.borrowed (.tcpListener fd)) f (TcpListener.accept fd) [] := by
  refine keeps_open rfl (fun d hd => hd) rfl fun r ho => ?_
  rw [SysCall.gains] at ho
  rw [cvtI32]
  by_cases hr : r.ret = -1
  · rw [if_pos hr] at ho ⊢
    refine keeps_error (herr _) ho (captured_of_failed smooth_nil ?_ rfl)
    exact decide_eq_true hr
  · rw [if_neg hr] at ho ⊢
    exact keeps_ok (hok _ _) ho

theorem keeps_use {w : Wrapper} {n : Nat} {l : List (SysCall × SysRet)}
    (ho : api.balance (api.given (.borrowed w)) l = []) :
    Keeps (.borrowed w) (fun _ => .ok none) (useDesc w.desc n) l := by
  induction n generalizing l with
  | zero => exact keeps_ok rfl ho
  | succ n ih =>
    exact keeps_plain ho (fun d hd => hd) (fun _ => rfl) rfl fun r ho => ih ho

theorem keeps_method {m : Method} {w : Wrapper} {p : Routine Outcome} (h : m.body w = some p) :
    Keeps (.borrowed w) id p [] := by
  cases m with
  | accept =>
    rcases w with fd | fd | fd | fd | dir | fd
    · cases h
    · cases h
    · cases h
      exact Prog.always_map (keeps_accept (fun _ _ => rfl) fun _ => rfl)
    · cases h
    · cases h
    · cases h
  | incoming =>
    rcases w with fd | fd | fd | fd | dir | fd
    · cases h
    · cases h
    · cases h
      apply Prog.always_map
      apply Prog.always_map
      exact keeps_accept (fun _ _ => rfl) fun _ => rfl
    · cases h
    · cases h
    · cases h
  | use n =>
    cases h
    exact Prog.always_map (keeps_use rfl)

theorem intoRawFd_desc {w w' : Wrapper} (h : intoRawFd w = some w') : w'.desc = w.desc := by
  cases w with
  | file fd | tcpStream fd =>
    cases h
    rfl
  | tcpListener fd | udpSocket fd | readDir dir | raw fd => cases h

theorem fileFromRawFd_desc {w w' : Wrapper} (h : File.fromRawFd w = some w') :
    w'.desc = w.desc := by
  cases w with
  | raw fd =>
    cases h
    rfl
  | file fd | tcpStream fd | tcpListener fd | udpSocket fd | readDir dir => cases h

theorem tcpFromRawFd_desc {w w' : Wrapper} (h : TcpStream.fromRawFd w = some w') :
    w'.desc = w.desc := by
  cases w with
  | raw fd =>
    cases h
    rfl
  | file fd | tcpStream fd | tcpListener fd | udpSocket fd | readDir dir => cases h

/-- The descriptor that was the wrapper's is that of what it is converted to. -/
theorem keeps_convert {f : Wrapper → Option Wrapper} {w : Wrapper} {p : Routine Outcome}
    (hf : ∀ w', f w = some w' → w'.desc = w.desc)
    (h : (f w).map (fun w => .done (.ok (some w))) = some p) : Keeps (.taken w) id p [] := by
  obtain ⟨w', hw, rfl⟩ := Option.map_eq_some_iff.mp h
  refine keeps_ok rfl ?_
  show [w.desc] = [w'.desc]
  rw [hf w' hw]

theorem keeps_consume {c : Consume} {w : Wrapper} {p : Routine Outcome} (h : c.body w = some p) :
    Keeps (.taken w) id p [] := by
  cases c with
  | intoRawFd => exact keeps_convert (fun _ hw => intoRawFd_desc hw) h
  | fileFromRawFd => exact keeps_convert (fun _ hw => fileFromRawFd_desc hw) h
  | tcpFromRawFd => exact keeps_convert (fun _ hw => tcpFromRawFd_desc hw) h
  | drop =>
    cases h
    exact keeps_drop rfl fun _ ho => keeps_ok rfl ho

/-- Every function keeps to the rules. -/
theorem keeps_body (op : Op) (recv : Receiver Wrapper) (p : Routine Outcome)
    (h : op.body recv = some p) : Keeps recv id p [] := by
  rcases op with m | m | c
  · rcases recv with _ | w | w
    · cases h
      exact Prog.always_map (keeps_make m)
    · cases h
    · cases h
  · rcases recv with _ | w | w
    · cases h
    · exact keeps_method h
    · cases h
  · rcases recv with _ | w | w
    · cases h
    · cases h
    · exact keeps_consume h

theorem sound : api.Sound :=
  Api.sound_of_own (P := fun _ _ _ => True) fun op recv p h =>
    Prog.always_mono (fun _ _ h => h) (fun _ _ h => h.1) (keeps_body op recv p h)

/-! ## All of them together -/

/-- In `live` the wrappers there are own their descriptors, and the functions
that are running what they have opened or been given and not closed. A
function that has `failed` leaves open what was open before it. -/
structure DescriptorLedger (w : World SysCall SysRet Unit Wrapper Op Outcome) : Prop where
  live : (accounts.balance [] w.log).Perm
    (w.values.reduceOption.map Wrapper.desc ++ w.procs.flatMap api.owned)
  nodup : (accounts.balance [] w.log).Nodup
  clean : accounts.Clean w.log
  once : ∀ d, (accounts.gained w.log).count d =
    (accounts.lost w.log).count d + (accounts.balance [] w.log).count d
  lent : ∀ p ∈ w.procs, ∀ v, p.recv = .borrowed v → p.returned = false →
    w.value p.index = some v
  failed : ∀ p ∈ w.procs, ∀ e, p.prog.result = some (.error e) →
    Captured e p.log ∧ ∀ l, accounts.balance [] (p.log ++ l) = accounts.balance [] l

theorem consume_ok {c : Consume} {w : Wrapper} {p : Routine Outcome} (h : c.body w = some p) :
    p.Always api.ok (fun _ _ => True) (fun _ a => ∀ e, a ≠ .error e) [] := by
  cases c with
  | intoRawFd | fileFromRawFd | tcpFromRawFd =>
    obtain ⟨w', -, rfl⟩ := Option.map_eq_some_iff.mp h
    intro e he
    cases he
  | drop =>
    cases h
    refine Prog.always_call trivial fun r _ e he => ?_
    cases he

/-- A function that fails was given nothing to own, and gives nothing back. -/
theorem always_failed (op : Op) (recv : Receiver Wrapper) (p : Routine Outcome)
    (h : op.body recv = some p) : p.Always api.ok (fun _ _ => True)
      (fun _ a => (∃ e, a = .error e) → api.given recv = [] ∧ api.gives a = none) [] := by
  have hgives {a : Outcome} (h : ∃ e, a = .error e) : api.gives a = none := by
    obtain ⟨e, rfl⟩ := h
    rfl
  rcases op with m | m | c
  · rcases recv with _ | w | w
    · exact Prog.always_of_forall (fun _ _ => trivial) fun _ _ h => ⟨rfl, hgives h⟩
    · cases h
    · cases h
  · rcases recv with _ | w | w
    · cases h
    · exact Prog.always_of_forall (fun _ _ => trivial) fun _ _ h => ⟨rfl, hgives h⟩
    · cases h
  · rcases recv with _ | w | w
    · cases h
    · cases h
    · exact Prog.always_mono (fun _ _ h => h) (fun _ a ha ⟨e, he⟩ => absurd he (ha e))
        (consume_ok h)

/-- In every run of any number of wrappers each descriptor that is open is
owned once, and closed once, no call is given another, and a function that
fails leaves none open and says which call it was that failed. -/
theorem descriptor_ledger (ls : List (WorldLabel SysRet Op))
    {w : World SysCall SysRet Unit Wrapper Op Outcome}
    (h : runFrom api.step World.init ls = some w) : DescriptorLedger w where
  live := by
    have hv : w.values.flatMap api.ownsOption = w.values.reduceOption.map Wrapper.desc := by
      rw [Api.flatMap_ownsOption, List.map_eq_flatMap]
      rfl
    rw [← hv]
    exact (Api.run_inv sound h).books.live
  nodup := (Api.run_inv sound h).books.nodup
  clean := (Api.run_inv sound h).books.clean
  once := (Api.run_inv sound h).books.once
  lent := (Api.run_inv sound h).lends
  failed p hp e he := by
    have hk := Prog.always_result (Api.run_always keeps_body h p hp) he
    exact ⟨hk.2 e rfl, Api.run_failed sound always_failed h p hp _ he ⟨e, rfl⟩⟩

/-- A listener is made, and accepts a connection that is given away and closed
by the client, while a `UdpSocket::bind` fails in `bind`, whose `close` then
sets `errno` too. The kernel gives the same number out again. -/
def reusedNumber : List (WorldLabel SysRet Op) :=
  let ret (n e : Int32) : SysRet := ⟨n, 0, ⟨0, 0, 0, 0⟩, ⟨e⟩⟩
  let addr : SocketAddr := .v4 ⟨⟨127, 0, 0, 1⟩, 80⟩
  [.call (.make (.tcpBind addr)), .answer 0 (ret 3 0), .answer 0 (ret 0 0), .answer 0 (ret 0 0),
    .answer 0 (ret 0 0), .finish 0, .borrow (.method .accept) 0, .answer 1 (ret 4 0), .finish 1,
    .call (.make (.udpBind addr)), .take (.consume .intoRawFd) 1, .finish 3, .answer 2 (ret 5 0),
    .take (.consume .drop) 2, .answer 4 (ret 0 0), .finish 4, .answer 2 (ret (-1) 48),
    .borrow (.method .incoming) 0, .answer 5 (ret 4 0), .answer 2 (ret (-1) 9), .finish 2]

theorem descriptor_ledger_reusedNumber :
    ∃ w, runFrom api.step World.init reusedNumber = some w ∧ DescriptorLedger w ∧
      accounts.balance [] w.log = [.fd 4, .fd 3] ∧
        w.procs[2]?.map (·.prog.result) = some (some (.error (.os ⟨48⟩))) :=
  ⟨_, rfl, descriptor_ledger reusedNumber rfl, rfl, rfl⟩

end PsPayload.Fd
