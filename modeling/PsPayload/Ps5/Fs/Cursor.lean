import PsPayload.Ps5.Fs.Threads

/-!
# An open file as a cursor

A client opens a file with some options, calls the methods of `File` in any order,
where a result may decide what it does next, and drops the file. To the client the
file is a `Cursor`: its contents and a position in them. `session`: run on a volume,
every client ends, each of its methods does what `Cursor.Does` says, unless a call of
the volume has failed during that method, and the path has the contents of the cursor
then; no other file is concerned, and the descriptor is closed, unless `close` fails.

Positions and lengths that are not in the range of an `off_t`, to which `seek` and
`set_len` cast them, are refused, and the cursor is what it was.
-/

namespace PsPayload.Fs

open Lib

/-! ## The cursor -/

inductive FileCall where
  | read (len : Nat)
  | readToEnd (buf : Bytes)
  | write (buf : Bytes)
  | writeAll (buf : Bytes)
  | seek (pos : SeekFrom)
  | syncAll
  | setLen (size : UInt64)
  deriving DecidableEq

inductive FileReply where
  | bytes (r : Result Bytes)
  /-- The result of `read_to_end`, and the buffer after it. -/
  | ended (r : Result Nat) (buf : Bytes)
  | count (r : Result Nat)
  | unit (r : Result Unit)
  | offset (r : Result UInt64)

/-- The method that a call stands for. -/
def FileCall.run (d : Fd.Desc) : FileCall → Task FileReply
  | .read len => (File.read d len).map .bytes
  | .readToEnd buf => (io (Fs.readToEnd d buf)).map fun p => .ended p.1 p.2
  | .write buf => (File.write d buf).map .count
  | .writeAll buf => (io (Fs.writeAll d buf)).map .unit
  | .seek pos => (File.seek d pos).map .offset
  | .syncAll => (File.syncAll d).map .unit
  | .setLen size => (File.setLen d size).map .unit

/-- How a call reports an error. -/
def FileCall.failure : FileCall → Error → FileReply
  | .read _, e => .bytes (.error e)
  | .readToEnd buf, e => .ended (.error e) buf
  | .write _, e => .count (.error e)
  | .writeAll _, e | .syncAll, e | .setLen _, e => .unit (.error e)
  | .seek _, e => .offset (.error e)

structure Cursor where
  contents : Bytes
  pos : Nat
  readable : Bool
  writable : Bool
  append : Bool
  deriving DecidableEq

namespace Cursor

/-- What there is from the position on. -/
def rest (c : Cursor) : Bytes := c.contents.drop c.pos

/-- Where the next write goes. -/
def writePos (c : Cursor) : Nat := if c.append then c.contents.length else c.pos

def moved (c : Cursor) (n : Nat) : Cursor := { c with pos := n }

/-- After these bytes have been written. -/
def put (c : Cursor) (data : Bytes) : Cursor :=
  if data = [] then c
  else { c with
    contents := splice c.contents c.writePos data
    pos := c.writePos + data.length }

/-- Where `seek` leads. -/
def target (c : Cursor) : SeekFrom → Int
  | .start n => n.toNat
  | .fromEnd n => c.contents.length + n.toInt
  | .current n => c.pos + n.toInt

/-- The error of a position that is too large for an `off_t`. -/
def tooFar : SeekFrom → Errno
  | .start _ => ⟨EINVAL⟩
  | .fromEnd _ | .current _ => EOVERFLOW

/-- Why a call has to fail. -/
def refusal (c : Cursor) : FileCall → Option Errno
  | .read _ | .readToEnd _ => if c.readable then none else some EBADF
  | .write _ => if c.writable then none else some EBADF
  | .writeAll buf => if c.writable ∨ buf = [] then none else some EBADF
  | .seek pos =>
    if c.target pos < 0 then some ⟨EINVAL⟩
    else if 2 ^ 63 ≤ c.target pos then some (tooFar pos) else none
  | .syncAll => none
  | .setLen size => if size.toNat < 2 ^ 63 ∧ c.writable then none else some ⟨EINVAL⟩

/-- What a call does that does not fail. `read` and `write` may get and take less
than there is. -/
inductive Effect (c : Cursor) : FileCall → FileReply → Cursor → Prop
  | read {len : Nat} {chunk : Bytes} (hlen : Transferred chunk.length (c.rest.take len).length)
      (h : chunk <+: c.rest.take len) :
      Effect c (.read len) (.bytes (.ok chunk)) (c.moved (c.pos + chunk.length))
  | readToEnd (buf : Bytes) :
      Effect c (.readToEnd buf) (.ended (.ok c.rest.length) (buf ++ c.rest))
        (c.moved (c.pos + c.rest.length))
  | write {buf : Bytes} {n : Nat} (h : Transferred n buf.length) :
      Effect c (.write buf) (.count (.ok n)) (c.put (buf.take n))
  | writeAll (buf : Bytes) : Effect c (.writeAll buf) (.unit (.ok ())) (c.put buf)
  | seek (pos : SeekFrom) :
      Effect c (.seek pos) (.offset (.ok (UInt64.ofNat (c.target pos).toNat)))
        (c.moved (c.target pos).toNat)
  | syncAll : Effect c .syncAll (.unit (.ok ())) c
  | setLen (size : UInt64) :
      Effect c (.setLen size) (.unit (.ok ()))
        { c with contents := Volume.resize c.contents size.toNat }

/-- A call fails, as it has to, or does what it is for. -/
def Does (c : Cursor) (call : FileCall) (r : FileReply) (c' : Cursor) : Prop :=
  (∃ e, c.refusal call = some e ∧ r = call.failure (.os e) ∧ c' = c) ∨
    c.refusal call = none ∧ c.Effect call r c'

/-- What may come of a method during which a call of the volume fails. The loops may
have read or written something. -/
inductive Spoils (c : Cursor) : FileCall → FileReply → Cursor → Prop
  | failure (call : FileCall) (e : Error) : Spoils c call (call.failure e) c
  | readToEnd (buf : Bytes) {d : Bytes} (hd : d <+: c.rest) (e : Error) :
      Spoils c (.readToEnd buf) (.ended (.error e) (buf ++ d)) (c.moved (c.pos + d.length))
  | writeAll {buf d : Bytes} (hd : d <+: buf) (e : Error) :
      Spoils c (.writeAll buf) (.unit (.error e)) (c.put d)

theorem put_nil (c : Cursor) : c.put [] = c := if_pos rfl

theorem put_of_ne_nil (c : Cursor) {data : Bytes} (h : data ≠ []) :
    c.put data = { c with
      contents := splice c.contents c.writePos data
      pos := c.writePos + data.length } := if_neg h

theorem put_writable (c : Cursor) (data : Bytes) : (c.put data).writable = c.writable := by
  rw [put]
  split <;> rfl

/-- Data that is written in two parts. -/
theorem splice_splice (contents a b : Bytes) (n : Nat) :
    splice (splice contents n a) (n + a.length) b = splice contents n (a ++ b) := by
  obtain ⟨pre, hpre⟩ : ∃ pre, pre = contents.take n ++ List.replicate (n - contents.length) 0 :=
    ⟨_, rfl⟩
  have hs : ∀ data, splice contents n data = pre ++ data ++ contents.drop (n + data.length) :=
    fun data => by rw [splice, hpre]
  have hlen : (pre ++ a).length = n + a.length := by
    rw [hpre, List.length_append, List.length_append, List.length_take, List.length_replicate]
    omega
  have hlong : (pre ++ a).length ≤ (pre ++ a ++ contents.drop (n + a.length)).length :=
    (List.prefix_append ..).length_le
  have hab : (a ++ b).length = a.length + b.length := List.length_append
  rw [hs, hs, splice, ← hlen, List.take_left, Nat.sub_eq_zero_of_le (hlen ▸ hlong),
    List.replicate_zero, List.append_nil, List.drop_length_add_append, List.drop_drop,
    List.append_assoc pre, hab, ← Nat.add_assoc, hlen]

theorem writePos_put (c : Cursor) (a : Bytes) (ha : a ≠ []) :
    (c.put a).writePos = c.writePos + a.length := by
  rw [put_of_ne_nil c ha, writePos]
  split
  · rename_i h
    rw [writePos, if_pos h, splice_end, List.length_append]
  · rfl

theorem put_put (c : Cursor) (a b : Bytes) : (c.put a).put b = c.put (a ++ b) := by
  by_cases ha : a = []
  · rw [ha, put_nil, List.nil_append]
  by_cases hb : b = []
  · rw [hb, put_nil, List.append_nil]
  rw [put_of_ne_nil _ hb, writePos_put c a ha, put_of_ne_nil c ha,
    put_of_ne_nil c (List.append_ne_nil_of_left_ne_nil ha b), splice_splice, List.length_append,
    Nat.add_assoc]

end Cursor

namespace Volume

variable {k v u : Volume Unit} {fd : Int32} {x : Nat} {f : Handle Unit}

/-- What descriptor `fd` is to the client. -/
def cursor (fd : Int32) (v : Volume Unit) : Cursor :=
  (v.descs fd).elim ⟨[], 0, false, false, false⟩ fun f => {
    contents := v.files f.file
    pos := f.offset
    readable := f.readable
    writable := f.writable
    append := f.append }

theorem cursor_of_desc (hd : v.descs fd = some f) : v.cursor fd = {
    contents := v.files f.file
    pos := f.offset
    readable := f.readable
    writable := f.writable
    append := f.append } := by rw [cursor, hd, Option.elim_some]

/-! ## The calls of one client -/

/-- File `x` is open, and all else is as it was. -/
structure Session (k : Volume Unit) (fd : Int32) (x : Nat) (v : Volume Unit) : Prop where
  names : v.names = k.names
  fresh : v.fresh = k.fresh
  files : ∀ y, y ≠ x → v.files y = k.files y
  descs : ∀ d, d ≠ fd → v.descs d = k.descs d
  own : ∃ f, v.descs fd = some f ∧ f.file = x

theorem Session.fail (h : Session k fd x v) (e : Errno) : Session k fd x (v.fail () e) :=
  ⟨h.names, h.fresh, h.files, h.descs, h.own⟩

theorem Session.setDesc (h : Session k fd x v) (hx : f.file = x) (n : Nat) :
    Session k fd x (v.setDesc fd (some { f with offset := n })) :=
  ⟨h.names, h.fresh, h.files, fun d hd => (Function.update_of_ne hd ..).trans (h.descs d hd),
    _, Function.update_self .., hx⟩

theorem cursor_setDesc (hd : v.descs fd = some f) (n : Nat) :
    (v.setDesc fd (some { f with offset := n })).cursor fd = (v.cursor fd).moved n := by
  rw [cursor_of_desc hd, cursor_of_desc (Function.update_self ..)]
  rfl

theorem Session.written (h : Session k fd x v) (hx : f.file = x) (data : Bytes) :
    Session k fd x (v.written () fd f data) :=
  ⟨h.names, h.fresh, fun y hy => (Function.update_of_ne (hx.symm ▸ hy) ..).trans (h.files y hy),
    fun d hd => (Function.update_of_ne hd ..).trans (h.descs d hd),
    _, Function.update_self .., hx⟩

theorem cursor_written (hd : v.descs fd = some f) {data : Bytes} (hdata : data ≠ []) :
    (v.written () fd f data).cursor fd = (v.cursor fd).put data := by
  have hfile : (v.written () fd f data).files f.file =
      splice (v.files f.file) (v.writeOffset f) data := Function.update_self ..
  rw [cursor_of_desc hd, Cursor.put_of_ne_nil _ hdata, cursor_of_desc (Function.update_self ..),
    hfile]
  rfl

theorem Session.resized (h : Session k fd x v) (n : Nat) : Session k fd x (v.resized x n) :=
  ⟨h.names, h.fresh, fun y hy => (Function.update_of_ne hy ..).trans (h.files y hy), h.descs,
    h.own⟩

theorem cursor_resized (hd : v.descs fd = some f) (n : Nat) :
    (v.resized f.file n).cursor fd =
      { v.cursor fd with contents := resize (v.cursor fd).contents n } := by
  have hd' : (v.resized f.file n).descs fd = some f := hd
  have hfile : (v.resized f.file n).files f.file = resize (v.files f.file) n :=
    Function.update_self ..
  rw [cursor_of_desc hd, cursor_of_desc hd', hfile]

/-- The cursor, beside which the calls of the volume that have failed are counted. -/
def sight (fd : Int32) (v : Volume Unit) : Cursor × Nat := (v.cursor fd, v.failures.length)

/-- What a method has done. -/
def Stepped (k : Volume Unit) (fd : Int32) (x : Nat) (v : Volume Unit) (c : FileCall)
    (u : Volume Unit) (r : FileReply) : Prop :=
  Session k fd x u ∧ Prog.OrFails Cursor.Does Cursor.Spoils (v.sight fd) c r (u.sight fd)

theorem stepped_effect {c : FileCall} {r : FileReply} (hu : Session k fd x u)
    (hf : u.failures = v.failures) (hc : (v.cursor fd).refusal c = none)
    (h : (v.cursor fd).Effect c r (u.cursor fd)) : Stepped k fd x v c u r :=
  ⟨hu, (congrArg List.length hf).ge, .inl (.inr ⟨hc, h⟩)⟩

/-- A method whose last call, made in `u`, has failed. -/
theorem stepped_fail {c : FileCall} {r : FileReply} {e : Errno} (hu : Session k fd x u)
    (hf : u.failures = v.failures) (h : (v.cursor fd).Spoils c r (u.cursor fd)) :
    Stepped k fd x v c (u.fail () e) r := by
  have hlt : v.failures.length < (u.fail () e).failures.length := by
    rw [length_failures_fail, hf]
    exact Nat.lt_succ_self _
  exact ⟨hu.fail e, hlt.le, .inr ⟨hlt, h⟩⟩

/-- A method that returns an error, as it has to or because its call may fail. -/
theorem stepped_refuse {c : FileCall} {why : Option Errno} (hv : Session k fd x v)
    (hc : (v.cursor fd).refusal c = why) (e : Errno) :
    Stepped k fd x v c (v.refuse () why e) (c.failure (.os e)) := by
  rcases refuse_cases v () why e with ⟨h, hwhy⟩ | h
  · rw [h]
    exact ⟨hv, Nat.le_refl _, .inl (.inl ⟨e, hc.trans hwhy, rfl, rfl⟩)⟩
  · rw [h]
    exact stepped_fail hv rfl (.failure c _)

theorem ends_fileRead (hv : Session k fd x v) (len : Nat) :
    (FileCall.run (.fd fd) (.read len)).Ends (answer ()) (Stepped k fd x v (.read len)) v := by
  obtain ⟨f, hd, hx⟩ := hv.own
  have hcur := cursor_of_desc hd
  rw [FileCall.run, File.read]
  refine Prog.ends_map (.call rfl (exists_read hd) fun r u hu => ?_)
  rw [Prog.resume]
  rcases answer_read hd hu with ⟨e, hs, rfl⟩ | ⟨hr, size, hs, htr, hc, rfl⟩
  · rw [hs]
    exact .done (stepped_refuse hv (by rw [Cursor.refusal, hcur]) e)
  · rw [hs]
    have hrest : (v.cursor fd).rest.take len = v.available f len := by rw [hcur]; rfl
    have hlen : (r.chunk.take size).length = size := by
      rw [hc, List.length_take, Nat.min_eq_left htr.1]
    refine .done (stepped_effect (hv.setDesc hx _) rfl (by rw [Cursor.refusal, hcur, if_pos hr]) ?_)
    have hpos : f.offset + size = (v.cursor fd).pos + (r.chunk.take size).length := by
      rw [hcur, hlen]
    rw [cursor_setDesc hd, hpos]
    exact .read (by rw [hlen, hrest]; exact htr) (by rw [hc, hrest]; exact List.take_prefix ..)

theorem ends_fileWrite (hv : Session k fd x v) (buf : Bytes) :
    (FileCall.run (.fd fd) (.write buf)).Ends (answer ()) (Stepped k fd x v (.write buf)) v := by
  obtain ⟨f, hd, hx⟩ := hv.own
  have hcur := cursor_of_desc hd
  rw [FileCall.run, File.write]
  refine Prog.ends_map (.call rfl (exists_write hd) fun r u hu => ?_)
  rw [Prog.resume]
  rcases answer_write hd hu with ⟨e, hs, rfl⟩ | ⟨hw, size, hs, htr, rfl⟩
  · rw [hs]
    exact .done (stepped_refuse hv (by rw [Cursor.refusal, hcur]) e)
  · rw [hs]
    have hc : (v.cursor fd).refusal (.write buf) = none := by rw [Cursor.refusal, hcur, if_pos hw]
    by_cases hz : size = 0
    · rw [if_pos hz]
      refine .done (stepped_effect hv rfl hc ?_)
      have heff := Cursor.Effect.write (c := v.cursor fd) htr
      rwa [hz, List.take_zero, Cursor.put_nil, ← hz] at heff
    · have hne : buf.take size ≠ [] := fun h => by
        have hlen := congrArg List.length h
        have hle := htr.1
        rw [List.length_take, List.length_nil] at hlen
        omega
      rw [if_neg hz]
      refine .done (stepped_effect (hv.written hx _) rfl hc ?_)
      rw [cursor_written hd hne]
      exact .write htr

theorem ends_fileReadToEnd (hv : Session k fd x v) (buf : Bytes) :
    (FileCall.run (.fd fd) (.readToEnd buf)).Ends (answer ()) (Stepped k fd x v (.readToEnd buf)) v := by
  obtain ⟨f, hd, hx⟩ := hv.own
  have hcur := cursor_of_desc hd
  rw [FileCall.run]
  refine Prog.ends_map ?_
  by_cases hr : f.readable = true
  · have hc : (v.cursor fd).refusal (.readToEnd buf) = none := by
      rw [Cursor.refusal, hcur, if_pos hr]
    -- `d` has been read, and `n` calls are left for the rest
    have hin : (io (Fs.readToEnd (.fd fd) buf)).Within (answer ()) (fun w p =>
        Stepped k fd x v (.readToEnd buf) w (.ended p.1 p.2)) ((v.cursor fd).rest.length + 1) v := by
      refine Prog.within_loop (fun n w out => Session k fd x w ∧ w.failures = v.failures ∧
        ∃ d, out = buf ++ d ∧ d <+: (v.cursor fd).rest ∧
          w.cursor fd = (v.cursor fd).moved ((v.cursor fd).pos + d.length) ∧
          (v.cursor fd).rest.length + 1 ≤ n + d.length) ?_ ?_ ?_
      · exact ⟨hv, rfl, [], (List.append_nil _).symm, List.nil_prefix, rfl, Nat.le_refl _⟩
      · rintro n w out ⟨hw, -⟩
        obtain ⟨g, hg, -⟩ := hw.own
        exact exists_read hg
      rintro n w _ ⟨hw, hf, d, rfl, ⟨tail, htail⟩, hwc, hn⟩
      obtain ⟨g, hg, hgx⟩ := hw.own
      obtain ⟨m, rfl⟩ : ∃ m, n = m + 1 := by
        have := congrArg List.length htail
        rw [List.length_append] at this
        exact ⟨n - 1, by omega⟩
      have hgc := hwc
      rw [cursor_of_desc hg, Cursor.moved, Cursor.mk.injEq] at hgc
      have hav : w.available g 8192 = tail.take 8192 := by
        rw [available, hgc.1, hgc.2.1, ← List.drop_drop, ← Cursor.rest, ← htail, List.drop_left]
      have hgr : g.readable = true := by
        rw [hgc.2.2.1, hcur]
        exact hr
      refine ⟨m, rfl, fun r u hu => ?_⟩
      rcases answer_readable hg hgr hu with ⟨e, hs, rfl⟩ | ⟨size, hs, htr, hch, rfl⟩
      · refine ⟨fun z hz => by simp [readTurn, hs] at hz, fun _ => ?_⟩
        simp only [hs]
        refine stepped_fail hw hf ?_
        rw [hwc]
        exact .readToEnd buf ⟨tail, htail⟩ _
      have hstep := hw.setDesc hgx (g.offset + size)
      have hcursor : (w.setDesc fd (some { g with offset := g.offset + size })).cursor fd =
          (v.cursor fd).moved ((v.cursor fd).pos + d.length + size) := by
        rw [cursor_setDesc hg, hwc, hgc.2.1]
        rfl
      rw [hav] at htr hch
      refine ⟨fun z hz => ?_, fun hz => ?_⟩
      · -- some bytes more
        have hsize : size ≠ 0 := by
          rintro rfl
          simp [readTurn, hs] at hz
        have hle : size ≤ min 8192 tail.length := by
          have := htr.1
          rwa [List.length_take] at this
        simp only [readTurn, hs, if_neg hsize, Option.some.injEq] at hz
        rw [hch, List.take_take, Nat.min_eq_left (by omega)] at hz
        have hlen : (d ++ tail.take size).length = d.length + size := by
          rw [List.length_append, List.length_take, Nat.min_eq_left (by omega)]
        refine ⟨hstep, hf, d ++ tail.take size, by rw [← hz, List.append_assoc], ?_, ?_, ?_⟩
        · rw [← htail]
          exact (List.prefix_append_right_inj d).mpr (List.take_prefix ..)
        · rw [hcursor, hlen, Nat.add_assoc]
        · rw [hlen]
          omega
      · -- the end of the file
        obtain rfl : size = 0 := by
          by_contra hsize
          simp [readTurn, hs, hsize] at hz
        obtain rfl : tail = [] := by
          have := htr.2 rfl
          rw [List.length_take] at this
          exact List.length_eq_zero_iff.mp (by omega)
        rw [List.append_nil] at htail
        simp only [hs]
        refine stepped_effect hstep hf hc ?_
        rw [hcursor, List.length_append, Nat.add_sub_cancel_left, htail]
        exact .readToEnd buf
    exact hin.ends
  · refine .call rfl (exists_read hd) fun r u hu => ?_
    rcases answer_read hd hu with ⟨e, hs, rfl⟩ | ⟨h, -⟩
    · have hres : (io (Fs.readToEnd (.fd fd) buf)).resume r = .done (.error (.os e), buf) := by
        rw [Fs.readToEnd, io, Prog.relabel, Prog.resume]
        simp only [readTurn, hs]
        rfl
      rw [hres]
      exact .done (stepped_refuse hv (by rw [Cursor.refusal, hcur]) e)
    · exact absurd h hr

/-- The loop of `write_all`, when `d` has been written. -/
theorem ends_writeRest {buf d rest : Bytes} {w : Volume Unit} (hr : (v.cursor fd).writable = true)
    (hbuf : d ++ rest = buf) (hw : Session k fd x w) (hf : w.failures = v.failures)
    (hwc : w.cursor fd = (v.cursor fd).put d) :
    (io (Fs.writeAll (.fd fd) rest)).Ends (answer ())
      (fun u r => Stepped k fd x v (.writeAll buf) u (.unit r)) w := by
  have hc : (v.cursor fd).refusal (.writeAll buf) = none := by
    rw [Cursor.refusal, if_pos (.inl hr)]
  induction hl : rest.length using Nat.strong_induction_on generalizing w d rest with
  | _ len ih =>
  by_cases hrest : rest = []
  · rw [hrest, List.append_nil] at hbuf
    rw [hrest, writeAll_nil]
    refine .done (stepped_effect hw hf hc ?_)
    rw [hwc, hbuf]
    exact .writeAll buf
  obtain ⟨g, hg, hgx⟩ := hw.own
  have hgw : g.writable = true := by
    have h := Cursor.put_writable (v.cursor fd) d
    rw [← hwc, cursor_of_desc hg, hr] at h
    exact h
  have hpos := List.length_pos_iff.mpr hrest
  rw [io_writeAll _ hrest]
  refine .call rfl (exists_write hg) fun r u hu => ?_
  rw [Prog.resume]
  rcases answer_writable hg hgw hu with ⟨e, hs, rfl⟩ | ⟨size, hs, htr, rfl⟩
  · rw [hs]
    refine .done (stepped_fail hw hf ?_)
    rw [hwc]
    exact .writeAll ⟨rest, hbuf⟩ _
  · -- some bytes are written, and the loop goes on with the rest of them
    have hsize : size ≠ 0 := fun hz => by have := htr.2 hz; omega
    have hbody : File.writeAllBody rest r.size = .inr (rest.drop size) := by
      rw [hs]
      exact if_neg hsize
    have hne : rest.take size ≠ [] := fun h => by
      rcases List.take_eq_nil_iff.mp h with h | h
      · exact hsize h
      · exact hrest h
    rw [hbody, Sum.elim_inr, if_neg hsize]
    refine ih _ ?_ (d := d ++ rest.take size) ?_ (hw.written hgx _) hf ?_ rfl
    · rw [List.length_drop]
      omega
    · rw [List.append_assoc, List.take_append_drop, hbuf]
    · rw [cursor_written hg hne, hwc, Cursor.put_put]

theorem ends_fileWriteAll (hv : Session k fd x v) (buf : Bytes) :
    (FileCall.run (.fd fd) (.writeAll buf)).Ends (answer ()) (Stepped k fd x v (.writeAll buf)) v := by
  obtain ⟨f, hd, hx⟩ := hv.own
  have hcur := cursor_of_desc hd
  rw [FileCall.run]
  refine Prog.ends_map ?_
  by_cases hw : f.writable = true
  · have hwr : (v.cursor fd).writable = true := by
      rw [hcur]
      exact hw
    exact ends_writeRest hwr (List.nil_append buf) hv rfl (Cursor.put_nil _).symm
  by_cases hbuf : buf = []
  · rw [hbuf, writeAll_nil]
    refine .done (stepped_effect hv rfl (by rw [Cursor.refusal, if_pos (.inr rfl)]) ?_)
    have heff := Cursor.Effect.writeAll (c := v.cursor fd) []
    rwa [Cursor.put_nil] at heff
  · rw [io_writeAll _ hbuf]
    refine .call rfl (exists_write hd) fun r u hu => ?_
    rw [Prog.resume]
    rcases answer_write hd hu with ⟨e, hs, rfl⟩ | ⟨h, -⟩
    · rw [hs]
      refine .done (stepped_refuse hv ?_ e)
      rw [Cursor.refusal, hcur, if_neg (not_or.mpr ⟨hw, hbuf⟩), if_neg hw]
    · exact absurd h hw

/-! ### Positions and lengths -/

/-- `as off_t`. -/
theorem toInt64_cases (n : UInt64) :
    n.toNat < 2 ^ 63 ∧ n.toInt64.toInt = n.toNat ∨ 2 ^ 63 ≤ n.toNat ∧ n.toInt64.toInt < 0 := by
  have hb : n.toInt64.toInt = n.toBitVec.toInt := rfl
  have hn : n.toBitVec.toNat = n.toNat := rfl
  have hlt := n.toNat_lt
  rw [hb, BitVec.toInt_eq_toNat_cond, hn]
  split <;> omega

/-- `lseek` gets the position, or a negative one for a position that is too large. -/
theorem seekTarget_args (hd : v.descs fd = some f) (pos : SeekFrom) :
    v.seekTarget f pos.args.1 pos.args.2 = (v.cursor fd).target pos ∧
        (2 ^ 63 ≤ (v.cursor fd).target pos → Cursor.tooFar pos = EOVERFLOW) ∨
      Cursor.tooFar pos = ⟨EINVAL⟩ ∧ 2 ^ 63 ≤ (v.cursor fd).target pos ∧
        v.seekTarget f pos.args.1 pos.args.2 < 0 := by
  rw [cursor_of_desc hd]
  cases pos with
  | start n =>
    have hargs : v.seekTarget f (SeekFrom.start n).args.1 (SeekFrom.start n).args.2 =
        n.toInt64.toInt := rfl
    rw [hargs, Cursor.target]
    rcases toInt64_cases n with ⟨hlt, h⟩ | ⟨hle, h⟩
    · exact .inl ⟨h, fun hle => by omega⟩
    · exact .inr ⟨rfl, by omega, h⟩
  | fromEnd n => exact .inl ⟨rfl, fun _ => rfl⟩
  | current n => exact .inl ⟨rfl, fun _ => rfl⟩

/-- What `lseek` refuses is what has to be refused. -/
theorem refusal_seek (hd : v.descs fd = some f) (pos : SeekFrom) :
    (v.cursor fd).refusal (.seek pos) = seekError (v.seekTarget f pos.args.1 pos.args.2) := by
  rw [Cursor.refusal, seekError]
  rcases seekTarget_args hd pos with ⟨h, hfar⟩ | ⟨hfar, hle, hneg⟩
  · rw [h]
    split
    · rfl
    split
    · rw [hfar ‹_›]
    · rfl
  · rw [if_neg (by omega), if_pos hle, if_pos hneg, hfar]

theorem ends_fileSeek (hv : Session k fd x v) (pos : SeekFrom) :
    (FileCall.run (.fd fd) (.seek pos)).Ends (answer ()) (Stepped k fd x v (.seek pos)) v := by
  obtain ⟨f, hd, hx⟩ := hv.own
  rw [FileCall.run, File.seek]
  refine Prog.ends_map (.call rfl ⟨reply 0 (.ok 0), by rw [answer, hd]; rfl⟩ fun r u hu => ?_)
  rw [Prog.resume]
  rcases answer_lseek hd hu with ⟨hr, rfl⟩ | ⟨hr, hle, ht, rfl⟩
  · rw [if_pos hr]
    exact .done (stepped_refuse hv (refusal_seek hd pos) r.errno)
  · rw [if_neg hr]
    have hlt := Int64.toInt_lt r.off
    have hpos : 0 ≤ r.off.toInt := Int64.le_iff_toInt_le.mp hle
    have hnone : seekError (v.seekTarget f pos.args.1 pos.args.2) = none := by
      rw [seekError, ← ht, if_neg (by omega), if_neg (by omega)]
    have htarget : r.off.toInt = (v.cursor fd).target pos := by
      rcases seekTarget_args hd pos with ⟨h, -⟩ | ⟨-, -, hneg⟩
      · rw [ht, h]
      · omega
    refine .done (stepped_effect (hv.setDesc hx _) rfl ((refusal_seek hd pos).trans hnone) ?_)
    rw [cursor_setDesc hd, htarget, toUInt64_of_toInt (n := ((v.cursor fd).target pos).toNat)
      (by omega)]
    exact .seek pos

theorem ends_fileSyncAll (hv : Session k fd x v) :
    (FileCall.run (.fd fd) .syncAll).Ends (answer ()) (Stepped k fd x v .syncAll) v := by
  obtain ⟨f, hd, hx⟩ := hv.own
  rw [FileCall.run, File.syncAll, status]
  refine Prog.ends_map (.call rfl ⟨reply 0 (.ok 0), by rw [answer, hd]; rfl⟩ fun r u hu => ?_)
  rw [answer, hd, Option.bind_some, Option.some.injEq] at hu
  rw [Prog.resume, cvtI32, ← hu]
  by_cases hr : r.ret = -1
  · rw [if_pos hr, if_pos hr]
    exact .done (stepped_fail hv rfl (.failure .syncAll _))
  · rw [if_neg hr, if_neg hr]
    exact .done (stepped_effect hv rfl rfl .syncAll)

theorem ends_fileSetLen (hv : Session k fd x v) (size : UInt64) :
    (FileCall.run (.fd fd) (.setLen size)).Ends (answer ()) (Stepped k fd x v (.setLen size)) v := by
  obtain ⟨f, hd, hx⟩ := hv.own
  have hcur := cursor_of_desc hd
  have hc : (v.cursor fd).refusal (.setLen size) =
      if 0 ≤ size.toInt64 ∧ f.writable = true then none else some ⟨EINVAL⟩ := by
    have hle : 0 ≤ size.toInt64 ↔ size.toNat < 2 ^ 63 := by
      rw [Int64.le_iff_toInt_le]
      rcases toInt64_cases size with ⟨hlt, h⟩ | ⟨hle, h⟩
      · rw [h]
        exact ⟨fun _ => hlt, fun _ => Int.natCast_nonneg _⟩
      · exact ⟨fun h' => absurd h' (Int.not_le.mpr h), fun h' => by omega⟩
    simp only [Cursor.refusal, hcur, hle]
  rw [FileCall.run, File.setLen, status]
  refine Prog.ends_map (.call rfl ⟨reply (-1) (.ok 0), by rw [answer, hd]; rfl⟩ fun r u hu => ?_)
  rw [Prog.resume, cvtI32]
  rcases answer_ftruncate hd hu with ⟨hr, rfl⟩ | ⟨hr, hle, hw, rfl⟩
  · rw [if_pos hr]
    exact .done (stepped_refuse hv hc r.errno)
  · rw [if_neg hr]
    subst hx
    refine .done (stepped_effect (hv.resized _) rfl (by rw [hc, if_pos ⟨hle, hw⟩]) ?_)
    have hsize : size.toInt64.toInt.toNat = size.toNat := by
      rcases toInt64_cases size with ⟨-, h⟩ | ⟨-, h⟩
      · rw [h, Int.toNat_natCast]
      · exact absurd (Int64.le_iff_toInt_le.mp hle) (Int.not_le.mpr h)
    rw [cursor_resized hd, hsize]
    exact .setLen size

/-- Each method does what it says of the cursor. -/
theorem implements_cursor (k : Volume Unit) (fd : Int32) (x : Nat) :
    Prog.Implements (answer ()) (Prog.OrFails Cursor.Does Cursor.Spoils) (Session k fd x)
      (sight fd) (FileCall.run (.fd fd)) := by
  intro c v hv
  cases c with
  | read len => exact ends_fileRead hv len
  | readToEnd buf => exact ends_fileReadToEnd hv buf
  | write buf => exact ends_fileWrite hv buf
  | writeAll buf => exact ends_fileWriteAll hv buf
  | seek pos => exact ends_fileSeek hv pos
  | syncAll => exact ends_fileSyncAll hv
  | setLen size => exact ends_fileSetLen hv size

end Volume

/-! ## From `open` to `drop` -/

/-- A client that opens a file, and drops it in the end. -/
def session {α : Type} (o : Fd.OpenOptions) (path : String)
    (p : Prog FileCall FileReply Empty α) : Task (Result α) :=
  (io (sys (o.open path))).bind fun
    | .error e => .done (.error e)
    | .ok file => (p.expand (FileCall.run file.desc)).bind fun a => io (sys (file.drop (.done (.ok a))))

/-- `session` after `open`. -/
def useFile {α : Type} (fd : Int32) (p : Prog FileCall FileReply Empty α) : Task (Result α) :=
  (p.expand (FileCall.run (.fd fd))).bind fun a =>
  .call (.io (.sys (.close fd))) fun _ => .done (.ok a)

theorem session_open {α : Type} {o : Fd.OpenOptions} {access : Int32}
    (ha : o.accessFlags = .ok access) (path : CString) (p : Prog FileCall FileReply Empty α) :
    session o path.val p =
      .call (.io (.sys (.open path (o.flags access) Fd.DEFAULT_CREATE_MODE))) fun r =>
        if r.ret = -1 then .done (.error (.os r.errno)) else useFile r.ret p := by
  rw [session, io_open ha]
  refine congrArg (Prog.call _) (funext fun r => ?_)
  by_cases hr : r.ret = -1
  · simp only [cvtI32, if_pos hr]
    rfl
  · simp only [cvtI32, if_neg hr]
    rfl

namespace Cursor

/-- A file with these contents, as the options open it. -/
def new (o : Fd.OpenOptions) (contents : Bytes) : Cursor where
  contents := contents
  pos := 0
  readable := o.read
  writable := o.write || o.append
  append := o.append

/-- What the options make of the file of a path, where it is there. `create_new`
ignores `truncate`. -/
def start (o : Fd.OpenOptions) : Option Bytes → Result Cursor
  | none => if o.create || o.createNew then .ok (new o []) else .error (.os ENOENT)
  | some contents =>
    if o.createNew then .error (.os EEXIST)
    else .ok (new o (if o.truncate then [] else contents))

/-- What `open` leads to. -/
def opens (o : Fd.OpenOptions) (path : String) (files : CString → Option Bytes) :
    Result (CString × Cursor) :=
  if o.read || o.write || o.append then
    (cstr path).bind fun q => (start o (files q)).map fun c => (q, c)
  else .error (.invalidInput "OpenOptions: no access mode set (need read and/or write)")

end Cursor

/-- The flags say what the options say. -/
theorem flags_spec {o : Fd.OpenOptions} {access : Int32} (h : o.accessFlags = .ok access) :
    (o.read || o.write || o.append) = true ∧
    (o.flags access &&& Fd.O_CREAT ≠ 0 ↔ (o.create || o.createNew) = true) ∧
    (o.flags access &&& Fd.O_EXCL ≠ 0 ↔ o.createNew = true) ∧
    (o.flags access &&& Fd.O_TRUNC ≠ 0 ↔ (o.truncate && !o.createNew) = true) ∧
    (o.flags access &&& Fd.O_APPEND != 0) = o.append ∧
    (o.flags access &&& 3 == Fd.O_RDONLY || o.flags access &&& 3 == Fd.O_RDWR) = o.read ∧
    (o.flags access &&& 3 == Fd.O_WRONLY || o.flags access &&& 3 == Fd.O_RDWR) =
      (o.write || o.append) := by
  obtain ⟨read, write, append, truncate, create, createNew⟩ := o
  cases read <;> cases write <;> cases append <;> cases h <;>
    revert truncate create createNew <;> decide

theorem accessFlags_error {o : Fd.OpenOptions} {e : Error} (h : o.accessFlags = .error e)
    (path : String) (files : CString → Option Bytes) : Cursor.opens o path files = .error e := by
  obtain ⟨read, write, append, truncate, create, createNew⟩ := o
  cases read <;> cases write <;> cases append <;> cases h
  rfl

/-- What the flags make of the contents is what the options make of them. -/
theorem start_flags {o : Fd.OpenOptions} {access : Int32} (h : o.accessFlags = .ok access)
    (contents : Option Bytes) :
    (∃ c, opened (o.flags access) contents = some c ∧
        Cursor.start o contents = .ok (Cursor.new o c)) ∨
      opened (o.flags access) contents = none ∧ ∃ e,
        Volume.openError (o.flags access) contents = some e ∧
          Cursor.start o contents = .error (.os e) := by
  obtain ⟨-, hcreate, hexcl, htrunc, -⟩ := flags_spec h
  cases contents with
  | none =>
    by_cases hc : (o.create || o.createNew) = true
    · exact .inl ⟨[], if_pos (hcreate.mpr hc), if_pos hc⟩
    · have ho : opened (o.flags access) none = none := if_neg (mt hcreate.mp hc)
      exact .inr ⟨ho, ENOENT, by rw [Volume.openError, if_pos ho, if_pos rfl], if_neg hc⟩
  | some c =>
    by_cases hn : o.createNew = true
    · have ho : opened (o.flags access) (some c) = none :=
        if_pos ⟨hcreate.mpr (by rw [hn, Bool.or_true]), hexcl.mpr hn⟩
      exact .inr ⟨ho, EEXIST, by rw [Volume.openError, if_pos ho, if_neg (Option.some_ne_none c)],
        if_pos hn⟩
    · refine .inl ⟨if o.truncate then [] else c, ?_, by rw [Cursor.start, if_neg hn]⟩
      rw [opened, if_neg fun h => hn (hexcl.mp h.2)]
      by_cases ht : o.truncate = true
      · rw [if_pos ht, if_pos (htrunc.mpr (by rw [ht, Bool.eq_false_iff.mpr hn]; rfl))]
      · rw [if_neg ht, if_neg fun h => ht (Bool.and_eq_true_iff.mp (htrunc.mp h)).1]

theorem opens_val {o : Fd.OpenOptions} {access : Int32} (h : o.accessFlags = .ok access)
    (q : CString) (files : CString → Option Bytes) :
    Cursor.opens o q.val files = (Cursor.start o (files q)).map fun c => (q, c) := by
  rw [Cursor.opens, if_pos (flags_spec h).1, cstr_val]
  rfl

namespace Volume

variable {k : Volume Unit} {o : Fd.OpenOptions} {path : String} {α : Type}

/-- What a client has come to: the file is not opened, or the client has run, and
`n` is what had failed before the file was closed. -/
inductive Ended (k : Volume Unit) (o : Fd.OpenOptions) (path : String)
    (p : Prog FileCall FileReply Empty α) (v : Volume Unit) : Result α → Prop
  | refused {e : Error} (hcontents : v.contents = k.contents) (hdescs : v.descs = k.descs)
      (hopens : Cursor.opens o path k.contents = .error e ∨
        ∃ n, e = .os n ∧ v.failures = k.failures ++ [((), n)]) :
      Ended k o path p v (.error e)
  | ended {q : CString} {c c' : Cursor} {a : α} {n : Nat}
      (hopens : Cursor.opens o path k.contents = .ok (q, c))
      (hruns : p.Runs (Prog.OrFails Cursor.Does Cursor.Spoils) (c, k.failures.length) (c', n) a)
      (hdoes : n = k.failures.length → p.Runs Cursor.Does c c' a)
      (hcontents : v.contents = Function.update k.contents q (some c'.contents))
      (hclosed : v.descs = k.descs ∧ v.failures.length = n ∨ v.failures.length = n + 1) :
      Ended k o path p v (.ok a)

theorem ended_unopened {p : Prog FileCall FileReply Empty α} {e : Error}
    (h : Cursor.opens o path k.contents = .error e) : Ended k o path p k (.error e) :=
  .refused rfl rfl (.inl h)

theorem ended_failed {p : Prog FileCall FileReply Empty α} {e : Errno} :
    Ended k o path p (k.fail () e) (.error (.os e)) :=
  .refused rfl rfl (.inr ⟨e, rfl, rfl⟩)

/-- Before the file is closed. -/
theorem ends_opened {path : CString} {access fd : Int32} {c : Bytes}
    (ha : o.accessFlags = .ok access)
    (p : Prog FileCall FileReply Empty α) :
    (p.expand (FileCall.run (.fd fd))).Ends (answer ()) (fun w a =>
      Session (k.openAt () path (o.flags access) c fd) fd (k.fileAt path) w ∧
      p.Runs (Prog.OrFails Cursor.Does Cursor.Spoils) (Cursor.new o c, k.failures.length)
        (w.sight fd) a) (k.openAt () path (o.flags access) c fd) := by
  obtain ⟨-, -, -, -, happend, hread, hwrite⟩ := flags_spec ha
  have hsession : Session (k.openAt () path (o.flags access) c fd) fd (k.fileAt path)
      (k.openAt () path (o.flags access) c fd) :=
    ⟨rfl, rfl, fun _ _ => rfl, fun _ _ => rfl, _, Function.update_self .., rfl⟩
  have hfile : (k.openAt () path (o.flags access) c fd).files (k.fileAt path) = c :=
    Function.update_self ..
  have hcursor : (k.openAt () path (o.flags access) c fd).cursor fd = Cursor.new o c := by
    rw [cursor_of_desc (Function.update_self ..), Cursor.new, ← hwrite, ← happend, ← hread,
      Cursor.mk.injEq]
    exact ⟨hfile, rfl, rfl, rfl, rfl⟩
  have hends := Prog.ends_expand (implements_cursor _ fd _) p hsession
  rwa [sight, hcursor] at hends

/-- Every client ends. Where the file is opened, as the options say, each method does
what it does to the cursor, except that one may be spoilt during which a call of the
volume has failed, and the path has the contents of the cursor then. No other path is
concerned, and no descriptor is left open, unless it is `close` that has failed. -/
theorem session (p : Prog FileCall FileReply Empty α) (hk : k.Distinct) :
    (Fs.session o path p).Ends (answer ()) (Ended k o path p) k := by
  cases ha : o.accessFlags with
  | error e =>
    have hsession : Fs.session o path p = .done (.error e) := by
      rw [Fs.session, Fd.OpenOptions.open, ha]
      rfl
    rw [hsession]
    exact .done (ended_unopened (accessFlags_error ha ..))
  | ok access =>
  cases hq : cstr path with
  | error e =>
    have hsession : Fs.session o path p = .done (.error e) := by
      rw [Fs.session, Fd.OpenOptions.open, ha]
      simp only [hq]
      rfl
    rw [hsession]
    refine .done (ended_unopened ?_)
    rw [Cursor.opens, if_pos (flags_spec ha).1, hq, Except.bind]
  | ok q =>
  obtain rfl := val_of_cstr hq
  rw [session_open ha]
  refine .call rfl (exists_open () k ..) fun r u hu => ?_
  rw [Prog.resume]
  have hopens := opens_val ha q k.contents
  rcases start_flags ha (k.contents q) with ⟨c, hc, hstart⟩ | ⟨hnone, e, he, hstart⟩
  · rw [hstart] at hopens
    rcases answer_open hu with ⟨hr, rfl⟩ | ⟨hr, -, hd, c', hc', rfl⟩
    · rw [if_pos hr, openError_of_opened hc, refuse_none]
      exact .done ended_failed
    obtain rfl := Option.some.inj (hc.symm.trans hc')
    rw [if_neg hr, useFile]
    refine Prog.ends_bind (Prog.ends_mono (fun w a h => ?_) (ends_opened ha p))
    obtain ⟨hw, hruns⟩ := h
    obtain ⟨g, hg, hgx⟩ := hw.own
    refine .call rfl (exists_close hg) fun r' v hv => .done ?_
    have hcontents := hk.contents_openAt hw.names hw.files
    have hcursor : (w.cursor r.ret).contents = w.files (k.fileAt q) := by
      rw [cursor_of_desc hg, hgx]
    rw [← hcursor] at hcontents
    have hdoes := hruns.of_orFails.2
    rcases answer_close hv with rfl | rfl | rfl
    · refine .ended hopens hruns hdoes hcontents (.inl ⟨?_, rfl⟩)
      funext d
      by_cases hdr : d = r.ret
      · rw [hdr, hd]
        exact Function.update_self ..
      · exact ((Function.update_of_ne hdr ..).trans (hw.descs d hdr)).trans
          (Function.update_of_ne hdr ..)
    · exact .ended hopens hruns hdoes hcontents (.inr (length_failures_fail ..))
    · exact .ended hopens hruns hdoes hcontents (.inr (length_failures_fail ..))
  · rw [hstart] at hopens
    rcases answer_open hu with ⟨hr, rfl⟩ | ⟨-, -, -, c, hc, -⟩
    · rw [if_pos hr, he]
      rcases refuse_cases k () (some e) r.errno with ⟨h, hwhy⟩ | h
      · rw [h, ← Option.some.inj hwhy]
        exact .done (ended_unopened hopens)
      · rw [h]
        exact .done ended_failed
    · rw [hnone] at hc
      cases hc

/-- A volume without files. -/
def blankVolume : Volume Unit where
  names _ := none
  files _ := []
  fresh := 0
  descs _ := none
  writes := []
  failures := []

/-- Writes three bytes, goes back to the second, where it goes on, and says where
that is. -/
def seekingClient : Prog FileCall FileReply Empty FileReply :=
  .call (.writeAll [1, 2, 3]) fun _ => .call (.seek (.current (-2))) fun r =>
  .call (.writeAll [9]) fun _ => .done r

theorem session_seekingClient :
    (Fs.session { Fd.OpenOptions.new with write := true, create := true } "/log"
      seekingClient).Ends (answer ()) (fun v r => v.failures = [] →
        r = .ok (.offset (.ok 1)) ∧ v.contents ⟨"/log", by decide⟩ = some [1, 9, 3]) blankVolume := by
  have hk : blankVolume.Distinct := ⟨nofun, nofun⟩
  refine Prog.ends_mono (fun v r h hf => ?_) (session seekingClient hk)
  have hdoes : ∀ {c : Cursor} {call r c'}, c.Does call r c' → c.refusal call = none →
      c.Effect call r c' := by
    rintro c call r c' (⟨e, he, -⟩ | ⟨-, h⟩) hc
    · rw [hc] at he
      cases he
    · exact h
  cases h with
  | refused _ _ hopens =>
    rcases hopens with h | ⟨n, -, h⟩
    · cases h
    · rw [hf] at h
      cases h
  | @ended q c c' a n hopens _ hruns hcontents hclosed =>
    have hn : n = 0 := by
      rw [hf, List.length_nil] at hclosed
      omega
    cases hopens
    obtain ⟨_, _, h, hruns⟩ := Prog.runs_call (hruns hn)
    cases hdoes h rfl
    obtain ⟨_, _, h, hruns⟩ := Prog.runs_call hruns
    cases hdoes h rfl
    obtain ⟨_, _, h, hruns⟩ := Prog.runs_call hruns
    cases hdoes h rfl
    obtain ⟨rfl, rfl⟩ := Prog.runs_done hruns
    refine ⟨rfl, ?_⟩
    rw [hcontents]
    exact Function.update_self ..

end Volume

end PsPayload.Fs
