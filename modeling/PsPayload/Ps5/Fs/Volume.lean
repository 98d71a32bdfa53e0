import Mathlib.Logic.Function.Basic
import PsPayload.Lib.Refinement
import PsPayload.Lib.Parallel
import PsPayload.Ps5.Fs.Path

/-!
# A volume

`Volume` is a file system in which a path names a file, and an open file stays
what it is when its path is removed or names another one. Several threads make
calls, and `Volume.answer i` is what POSIX says of those of thread `i`. There are
no links and no directories.

A call may fail at any time, which `failures` notes. Where it has to fail, for the
reason that it has to, nothing is noted. A `read` or a `write` that does not fail
may take less than it was offered, and a `close` that fails may have closed the file.
-/

namespace PsPayload.Fs

open Lib

def ENOENT : Errno := ⟨2⟩
def EBADF : Errno := ⟨9⟩
def EEXIST : Errno := ⟨17⟩
def EOVERFLOW : Errno := ⟨84⟩

/-- `data` from `offset` on, over what is there. A gap before it is filled with
zeros. -/
def splice (contents : Bytes) (offset : Nat) (data : Bytes) : Bytes :=
  contents.take offset ++ List.replicate (offset - contents.length) 0 ++ data ++
    contents.drop (offset + data.length)

theorem splice_end (contents data : Bytes) :
    splice contents contents.length data = contents ++ data := by
  rw [splice, List.take_length, Nat.sub_self, List.replicate_zero, List.append_nil,
    List.drop_eq_nil_of_le (Nat.le_add_right _ _), List.append_nil]

/-- `size` bytes of the `len` that there are, and none only where there are none. -/
def Transferred (size len : Nat) : Prop := size ≤ len ∧ (size = 0 → len = 0)

instance (size len : Nat) : Decidable (Transferred size len) :=
  inferInstanceAs (Decidable (_ ∧ _))

/-- The contents of a file after `open`, unless that has to fail. -/
def opened (flags : Int32) : Option Bytes → Option Bytes
  | none => if flags &&& Fd.O_CREAT ≠ 0 then some [] else none
  | some contents =>
    if flags &&& Fd.O_CREAT ≠ 0 ∧ flags &&& Fd.O_EXCL ≠ 0 then none
    else if flags &&& Fd.O_TRUNC ≠ 0 then some [] else some contents

/-- The flags of `File::create` leave nothing of a file. -/
theorem opened_create (contents : Option Bytes) : opened
    (Fd.OpenOptions.flags { Fd.OpenOptions.new with write := true, create := true, truncate := true }
      Fd.O_WRONLY) contents = some [] := by
  cases contents with
  | none => rfl
  | some contents => rfl

/-- An open file, and the thread that has opened it. -/
structure Handle (ι : Type) where
  owner : ι
  file : Nat
  readable : Bool
  writable : Bool
  append : Bool
  offset : Nat
  deriving DecidableEq

structure Volume (ι : Type) where
  /-- The file that a path names. -/
  names : CString → Option Nat
  files : Nat → Bytes
  /-- The number of the next new file. -/
  fresh : Nat
  descs : Int32 → Option (Handle ι)
  /-- What has been written, by which thread and to which file. -/
  writes : List (ι × Nat × Bytes)
  /-- The calls that have failed, by which thread and with which error. -/
  failures : List (ι × Errno)

namespace Volume

variable {ι : Type}

/-- The contents of the file that a path names. -/
def contents (k : Volume ι) (path : CString) : Option Bytes := (k.names path).map k.files

def fail (k : Volume ι) (i : ι) (e : Errno) : Volume ι :=
  { k with failures := k.failures ++ [(i, e)] }

/-- After a call of thread `i` has returned the error `e`, where it has to return
`why`. -/
def refuse (k : Volume ι) (i : ι) (why : Option Errno) (e : Errno) : Volume ι :=
  if why = some e then k else k.fail i e

/-- What a call for a path without a file returns. -/
def missing (k : Volume ι) (path : CString) : Option Errno :=
  if k.names path = none then some ENOENT else none

/-- Why `open` has to fail. -/
def openError (flags : Int32) (contents : Option Bytes) : Option Errno :=
  if opened flags contents = none then
    if contents = none then some ENOENT else some EEXIST
  else none

/-- The file that a path names, or a new one. -/
def fileAt (k : Volume ι) (path : CString) : Nat := (k.names path).getD k.fresh

/-- File `x` as thread `i` has opened it with these flags. -/
def handle (i : ι) (x : Nat) (flags : Int32) : Handle ι where
  owner := i
  file := x
  readable := flags &&& 3 == Fd.O_RDONLY || flags &&& 3 == Fd.O_RDWR
  writable := flags &&& 3 == Fd.O_WRONLY || flags &&& 3 == Fd.O_RDWR
  append := flags &&& Fd.O_APPEND != 0
  offset := 0

/-- After `open` has returned `fd`. -/
def openAt (k : Volume ι) (i : ι) (path : CString) (flags : Int32) (contents : Bytes)
    (fd : Int32) : Volume ι :=
  { k with
    names := Function.update k.names path (some (k.fileAt path))
    files := Function.update k.files (k.fileAt path) contents
    fresh := if k.names path = none then k.fresh + 1 else k.fresh
    descs := Function.update k.descs fd (some (handle i (k.fileAt path) flags)) }

def setDesc (k : Volume ι) (fd : Int32) (f : Option (Handle ι)) : Volume ι :=
  { k with descs := Function.update k.descs fd f }

@[simp] theorem setDesc_descs (k : Volume ι) (fd : Int32) (f : Option (Handle ι)) :
    (k.setDesc fd f).descs = Function.update k.descs fd f := rfl

/-- What a `read` of `count` bytes can get. -/
def available (k : Volume ι) (f : Handle ι) (count : Nat) : Bytes :=
  ((k.files f.file).drop f.offset).take count

/-- Where the next `write` goes. -/
def writeOffset (k : Volume ι) (f : Handle ι) : Nat :=
  if f.append then (k.files f.file).length else f.offset

/-- After `write` has taken `data`. -/
def written (k : Volume ι) (i : ι) (fd : Int32) (f : Handle ι) (data : Bytes) : Volume ι :=
  { k with
    files := Function.update k.files f.file (splice (k.files f.file) (k.writeOffset f) data)
    descs := Function.update k.descs fd (some { f with offset := k.writeOffset f + data.length })
    writes := k.writes ++ [(i, f.file, data)] }

@[simp] theorem openAt_descs (k : Volume ι) (i : ι) (path : CString) (flags : Int32)
    (contents : Bytes) (fd : Int32) : (k.openAt i path flags contents fd).descs =
      Function.update k.descs fd (some (handle i (k.fileAt path) flags)) := rfl

@[simp] theorem written_descs (k : Volume ι) (i : ι) (fd : Int32) (f : Handle ι) (data : Bytes) :
    (k.written i fd f data).descs = Function.update k.descs fd
      (some { f with offset := k.writeOffset f + data.length }) := rfl

@[simp] theorem written_files (k : Volume ι) (i : ι) (fd : Int32) (f : Handle ι) (data : Bytes) :
    (k.written i fd f data).files =
      Function.update k.files f.file (splice (k.files f.file) (k.writeOffset f) data) := rfl

/-- Where `lseek` leads. -/
def seekTarget (k : Volume ι) (f : Handle ι) (off : Int64) (whence : Int32) : Int :=
  if whence = SEEK_SET then off.toInt
  else if whence = SEEK_CUR then f.offset + off.toInt
  else (k.files f.file).length + off.toInt

def seekError (target : Int) : Option Errno :=
  if target < 0 then some ⟨EINVAL⟩ else if 2 ^ 63 ≤ target then some EOVERFLOW else none

/-- Cut off, or filled up with zeros. -/
def resize (contents : Bytes) (len : Nat) : Bytes :=
  contents.take len ++ List.replicate (len - contents.length) 0

/-- After `ftruncate` of file `x`. -/
def resized (k : Volume ι) (x len : Nat) : Volume ι :=
  { k with files := Function.update k.files x (resize (k.files x) len) }

/-- After `unlink`. -/
def unlinked (k : Volume ι) (path : CString) : Volume ι :=
  { k with names := Function.update k.names path none }

@[simp] theorem unlinked_names (k : Volume ι) (path : CString) :
    (k.unlinked path).names = Function.update k.names path none := rfl

/-- After `rename` of the path of file `x`. -/
def renamed (k : Volume ι) (old new : CString) (x : Nat) : Volume ι :=
  { k with names := Function.update (Function.update k.names old none) new (some x) }

@[simp] theorem renamed_names (k : Volume ι) (old new : CString) (x : Nat) :
    (k.renamed old new x).names =
      Function.update (Function.update k.names old none) new (some x) := rfl

/-- A call of thread `i`. -/
def answer (i : ι) (k : Volume ι) : PathCall → PathReply → Option (Volume ι)
  | .io (.sys (.open path flags _)), r =>
    if r.ret = -1 then some (k.refuse i (openError flags (k.contents path)) r.errno)
    else (opened flags (k.contents path)).bind fun contents =>
      if 0 ≤ r.ret ∧ (k.descs r.ret).isNone then some (k.openAt i path flags contents r.ret)
      else none
  | .io (.sys (.close fd)), r => (k.descs fd).bind fun _ =>
    some (if r.ret = -1 then (if r.closed then k.setDesc fd none else k).fail i r.errno
      else k.setDesc fd none)
  | .io (.read (.fd fd) count), r => (k.descs fd).bind fun f =>
    match r.size with
    | .error e => some (k.refuse i (if f.readable then none else some EBADF) e)
    | .ok size =>
      if f.readable = true ∧ Transferred size (k.available f count).length ∧
          r.chunk.length = count ∧ r.chunk.take size = (k.available f count).take size then
        some (k.setDesc fd (some { f with offset := f.offset + size }))
      else none
  | .io (.write (.fd fd) buf), r => (k.descs fd).bind fun f =>
    match r.size with
    | .error e => some (k.refuse i (if f.writable then none else some EBADF) e)
    | .ok size =>
      if f.writable = true ∧ Transferred size buf.length then
        some (if size = 0 then k else k.written i fd f (buf.take size))
      else none
  | .lseek (.fd fd) off whence, r => (k.descs fd).bind fun f =>
    if r.off = -1 then some (k.refuse i (seekError (k.seekTarget f off whence)) r.errno)
    else if 0 ≤ r.off ∧ r.off.toInt = k.seekTarget f off whence then
      some (k.setDesc fd (some { f with offset := r.off.toInt.toNat }))
    else none
  | .fsync (.fd fd), r => (k.descs fd).bind fun _ => some (if r.ret = -1 then k.fail i r.errno else k)
  | .ftruncate (.fd fd) len, r => (k.descs fd).bind fun f =>
    if r.ret = -1 then
      some (k.refuse i (if 0 ≤ len ∧ f.writable = true then none else some ⟨EINVAL⟩) r.errno)
    else if 0 ≤ len ∧ f.writable = true then some (k.resized f.file len.toInt.toNat)
    else none
  | .unlink path, r =>
    if r.ret = -1 then some (k.refuse i (k.missing path) r.errno)
    else if (k.names path).isSome then some (k.unlinked path)
    else none
  | .rename old new, r =>
    if r.ret = -1 then some (k.refuse i (k.missing old) r.errno)
    else (k.names old).bind fun x => some (k.renamed old new x)
  | .access path _, r =>
    if r.ret = -1 then some (k.refuse i (k.missing path) r.errno)
    else if r.ret = 0 ∧ (k.names path).isSome then some k else none
  | .stat path, r =>
    if r.ret = -1 then some (k.refuse i (k.missing path) r.errno)
    else (k.contents path).bind fun contents =>
      if r.stat.size.toInt = contents.length ∧ r.stat.mode.toUInt32 &&& S_IFMT = S_IFREG then some k
      else none
  | .io (.read (.dir _) _), _ | .io (.write (.dir _) _), _
  | .lseek (.dir _) _ _, _ | .fsync (.dir _), _ | .ftruncate (.dir _) _, _
  | .io (.sys (.socket _ _ _)), _ | .io (.sys (.setsockopt _ _ _ _)), _ | .io (.sys (.bind _ _)), _
  | .io (.sys (.listen _ _)), _ | .io (.sys (.connect _ _)), _ | .io (.sys (.accept _)), _
  | .io (.sys (.opendir _)), _ | .io (.sys (.closedir _)), _ | .io (.sys (.io _)), _ => none

/-! ## The calls -/

section Answer

variable {i : ι} {k k' : Volume ι} {r : PathReply} {path : CString} {flags fd : Int32}
  {f : Handle ι} {buf : Bytes}

theorem refuse_cases (k : Volume ι) (i : ι) (why : Option Errno) (e : Errno) :
    k.refuse i why e = k ∧ why = some e ∨ k.refuse i why e = k.fail i e := by
  rw [refuse]
  split
  · exact .inl ⟨rfl, ‹_›⟩
  · exact .inr rfl

/-- Where nothing keeps a call from succeeding. -/
theorem refuse_none (k : Volume ι) (i : ι) (e : Errno) : k.refuse i none e = k.fail i e :=
  if_neg (Option.some_ne_none e).symm

theorem failures_fail (k : Volume ι) (i : ι) (e : Errno) : k.failures <+: (k.fail i e).failures :=
  List.prefix_append ..

theorem length_failures_fail (k : Volume ι) (i : ι) (e : Errno) :
    (k.fail i e).failures.length = k.failures.length + 1 := List.length_append

theorem openError_of_opened {contents : Option Bytes} {c : Bytes}
    (h : opened flags contents = some c) : openError flags contents = none := by
  rw [openError, h, if_neg (Option.some_ne_none c)]

theorem missing_of_name {x : Nat} (hn : k.names path = some x) : k.missing path = none := by
  rw [missing, hn, if_neg (Option.some_ne_none x)]

/-- A file that is there is opened, with the contents that `open` leaves. -/
theorem openAt_of_name {x : Nat} (hn : k.names path = some x) (contents : Bytes) :
    k.openAt i path flags contents fd = { k with
      files := Function.update k.files x contents
      descs := Function.update k.descs fd (some (handle i x flags)) } := by
  have hx : k.fileAt path = x := by rw [fileAt, hn, Option.getD_some]
  rw [openAt, hx, if_neg (by rw [hn]; exact nofun), ← hn, Function.update_eq_self]

/-- A reply with this return value and size. -/
def reply (ret : Int32) (size : Send) : PathReply where
  ret := ret
  dir := 0
  sa := ⟨0, 0, 0, 0⟩
  errno := ⟨0⟩
  size := size
  chunk := []
  off := -1
  stat := ⟨0, 0⟩
  closed := false

theorem answer_open {mode : UInt32}
    (h : k.answer i (.io (.sys (.open path flags mode))) r = some k') :
    r.ret = -1 ∧ k' = k.refuse i (openError flags (k.contents path)) r.errno ∨
      r.ret ≠ -1 ∧ 0 ≤ r.ret ∧ k.descs r.ret = none ∧ ∃ contents,
        opened flags (k.contents path) = some contents ∧
          k' = k.openAt i path flags contents r.ret := by
  rw [answer] at h
  split at h
  · cases h
    exact .inl ⟨‹_›, rfl⟩
  · obtain ⟨contents, ho, h⟩ := Option.bind_eq_some_iff.mp h
    rw [Option.ite_none_right_eq_some, Option.some.injEq] at h
    exact .inr ⟨‹_›, h.1.1, Option.isNone_iff_eq_none.mp h.1.2, contents, ho, h.2.symm⟩

theorem exists_open (i : ι) (k : Volume ι) (path : CString) (flags : Int32) (mode : UInt32) :
    ∃ r, (k.answer i (.io (.sys (.open path flags mode))) r).isSome :=
  ⟨reply (-1) (.ok 0), rfl⟩

theorem answer_close (h : k.answer i (.io (.sys (.close fd))) r = some k') :
    k' = k.setDesc fd none ∨ k' = k.fail i r.errno ∨ k' = (k.setDesc fd none).fail i r.errno := by
  obtain ⟨f, -, h⟩ := Option.bind_eq_some_iff.mp h
  cases h
  split
  · cases r.closed
    · exact .inr (.inl rfl)
    · exact .inr (.inr rfl)
  · exact .inl rfl

theorem exists_close (hd : k.descs fd = some f) :
    ∃ r, (k.answer i (.io (.sys (.close fd))) r).isSome :=
  ⟨reply (-1) (.ok 0), by rw [answer, hd]; rfl⟩

theorem answer_read {count : Nat} (hd : k.descs fd = some f)
    (h : k.answer i (.io (.read (.fd fd) count)) r = some k') :
    (∃ e, r.size = .error e ∧ k' = k.refuse i (if f.readable then none else some EBADF) e) ∨
      f.readable = true ∧ ∃ size, r.size = .ok size ∧
        Transferred size (k.available f count).length ∧
        r.chunk.take size = (k.available f count).take size ∧
        k' = k.setDesc fd (some { f with offset := f.offset + size }) := by
  rw [answer, hd, Option.bind_some] at h
  split at h
  · exact .inl ⟨_, ‹_›, (Option.some.inj h).symm⟩
  · rw [Option.ite_none_right_eq_some, Option.some.injEq] at h
    exact .inr ⟨h.1.1, _, ‹_›, h.1.2.1, h.1.2.2.2, h.2.symm⟩

theorem answer_readable {count : Nat} (hd : k.descs fd = some f) (hr : f.readable = true)
    (h : k.answer i (.io (.read (.fd fd) count)) r = some k') :
    (∃ e, r.size = .error e ∧ k' = k.fail i e) ∨
      ∃ size, r.size = .ok size ∧ Transferred size (k.available f count).length ∧
        r.chunk.take size = (k.available f count).take size ∧
        k' = k.setDesc fd (some { f with offset := f.offset + size }) := by
  rcases answer_read hd h with ⟨e, hs, rfl⟩ | ⟨-, h⟩
  · rw [if_pos hr, refuse_none]
    exact .inl ⟨e, hs, rfl⟩
  · exact .inr h

theorem exists_read {count : Nat} (hd : k.descs fd = some f) :
    ∃ r, (k.answer i (.io (.read (.fd fd) count)) r).isSome :=
  ⟨reply 0 (.error ⟨0⟩), by rw [answer, hd]; rfl⟩

theorem answer_write (hd : k.descs fd = some f)
    (h : k.answer i (.io (.write (.fd fd) buf)) r = some k') :
    (∃ e, r.size = .error e ∧ k' = k.refuse i (if f.writable then none else some EBADF) e) ∨
      f.writable = true ∧ ∃ size, r.size = .ok size ∧ Transferred size buf.length ∧
        k' = if size = 0 then k else k.written i fd f (buf.take size) := by
  rw [answer, hd, Option.bind_some] at h
  split at h
  · exact .inl ⟨_, ‹_›, (Option.some.inj h).symm⟩
  · rw [Option.ite_none_right_eq_some, Option.some.injEq] at h
    exact .inr ⟨h.1.1, _, ‹_›, h.1.2, h.2.symm⟩

theorem answer_writable (hd : k.descs fd = some f) (hw : f.writable = true)
    (h : k.answer i (.io (.write (.fd fd) buf)) r = some k') :
    (∃ e, r.size = .error e ∧ k' = k.fail i e) ∨
      ∃ size, r.size = .ok size ∧ Transferred size buf.length ∧
        k' = if size = 0 then k else k.written i fd f (buf.take size) := by
  rcases answer_write hd h with ⟨e, hs, rfl⟩ | ⟨-, h⟩
  · rw [if_pos hw, refuse_none]
    exact .inl ⟨e, hs, rfl⟩
  · exact .inr h

theorem exists_write (hd : k.descs fd = some f) :
    ∃ r, (k.answer i (.io (.write (.fd fd) buf)) r).isSome :=
  ⟨reply 0 (.error ⟨0⟩), by rw [answer, hd]; rfl⟩

theorem answer_lseek {off : Int64} {whence : Int32} (hd : k.descs fd = some f)
    (h : k.answer i (.lseek (.fd fd) off whence) r = some k') :
    r.off = -1 ∧ k' = k.refuse i (seekError (k.seekTarget f off whence)) r.errno ∨
      r.off ≠ -1 ∧ 0 ≤ r.off ∧ r.off.toInt = k.seekTarget f off whence ∧
        k' = k.setDesc fd (some { f with offset := r.off.toInt.toNat }) := by
  rw [answer, hd, Option.bind_some] at h
  split at h
  · exact .inl ⟨‹_›, (Option.some.inj h).symm⟩
  · rw [Option.ite_none_right_eq_some, Option.some.injEq] at h
    exact .inr ⟨‹_›, h.1.1, h.1.2, h.2.symm⟩

theorem answer_ftruncate {len : Int64} (hd : k.descs fd = some f)
    (h : k.answer i (.ftruncate (.fd fd) len) r = some k') :
    r.ret = -1 ∧
        k' = k.refuse i (if 0 ≤ len ∧ f.writable = true then none else some ⟨EINVAL⟩) r.errno ∨
      r.ret ≠ -1 ∧ 0 ≤ len ∧ f.writable = true ∧ k' = k.resized f.file len.toInt.toNat := by
  rw [answer, hd, Option.bind_some] at h
  split at h
  · exact .inl ⟨‹_›, (Option.some.inj h).symm⟩
  · rw [Option.ite_none_right_eq_some, Option.some.injEq] at h
    exact .inr ⟨‹_›, h.1.1, h.1.2, h.2.symm⟩

theorem answer_rename {old new : CString} (h : k.answer i (.rename old new) r = some k') :
    r.ret = -1 ∧ k' = k.refuse i (k.missing old) r.errno ∨
      r.ret ≠ -1 ∧ ∃ x, k.names old = some x ∧ k' = k.renamed old new x := by
  rw [answer] at h
  split at h
  · cases h
    exact .inl ⟨‹_›, rfl⟩
  · obtain ⟨x, hx, h⟩ := Option.bind_eq_some_iff.mp h
    exact .inr ⟨‹_›, x, hx, (Option.some.inj h).symm⟩

theorem exists_rename (i : ι) (k : Volume ι) (old new : CString) :
    ∃ r, (k.answer i (.rename old new) r).isSome :=
  ⟨reply (-1) (.ok 0), rfl⟩

theorem answer_unlink (h : k.answer i (.unlink path) r = some k') :
    r.ret = -1 ∧ k' = k.refuse i (k.missing path) r.errno ∨
      r.ret ≠ -1 ∧ ∃ x, k.names path = some x ∧ k' = k.unlinked path := by
  rw [answer] at h
  split at h
  · cases h
    exact .inl ⟨‹_›, rfl⟩
  · rw [Option.ite_none_right_eq_some, Option.some.injEq] at h
    obtain ⟨x, hx⟩ := Option.isSome_iff_exists.mp h.1
    exact .inr ⟨‹_›, x, hx, h.2.symm⟩

theorem answer_access {mode : Int32} (h : k.answer i (.access path mode) r = some k') :
    r.ret = -1 ∧ k' = k.refuse i (k.missing path) r.errno ∨
      r.ret = 0 ∧ k' = k ∧ ∃ x, k.names path = some x := by
  rw [answer] at h
  split at h
  · cases h
    exact .inl ⟨‹_›, rfl⟩
  · rw [Option.ite_none_right_eq_some, Option.some.injEq] at h
    exact .inr ⟨h.1.1, h.2.symm, Option.isSome_iff_exists.mp h.1.2⟩

theorem answer_stat (h : k.answer i (.stat path) r = some k') :
    r.ret = -1 ∧ k' = k.refuse i (k.missing path) r.errno ∨
      r.ret ≠ -1 ∧ k' = k ∧ ∃ x, k.names path = some x ∧
        r.stat.size.toInt = (k.files x).length ∧ r.stat.mode.toUInt32 &&& S_IFMT = S_IFREG := by
  rw [answer] at h
  split at h
  · cases h
    exact .inl ⟨‹_›, rfl⟩
  · obtain ⟨c, hc, h⟩ := Option.bind_eq_some_iff.mp h
    obtain ⟨x, hx, rfl⟩ := Option.map_eq_some_iff.mp hc
    rw [Option.ite_none_right_eq_some, Option.some.injEq] at h
    exact .inr ⟨‹_›, h.2.symm, x, hx, h.1⟩

end Answer

/-! ## Names -/

/-- Every file has one path at most, and the next new file none. -/
structure Distinct (k : Volume ι) : Prop where
  named : ∀ {p x}, k.names p = some x → x < k.fresh
  inj : ∀ {p q x}, k.names p = some x → k.names q = some x → p = q

section Names

variable {i : ι} {k k' : Volume ι} {path p : CString} {flags fd : Int32} {x : Nat} {d : Bytes}

/-- Only the names matter. -/
theorem Distinct.congr (hk : k.Distinct) (hn : k'.names = k.names) (hf : k'.fresh = k.fresh) :
    k'.Distinct := by
  refine ⟨fun hp => ?_, fun hp hq => ?_⟩
  · rw [hn] at hp
    rw [hf]
    exact hk.named hp
  · rw [hn] at hp hq
    exact hk.inj hp hq

theorem fileAt_cases (k : Volume ι) (path : CString) :
    k.names path = some (k.fileAt path) ∨ k.names path = none ∧ k.fileAt path = k.fresh := by
  rw [fileAt]
  cases k.names path with
  | none => exact .inr ⟨rfl, rfl⟩
  | some y => exact .inl rfl

/-- No other path names the file of a path. -/
theorem Distinct.ne_fileAt (hk : k.Distinct) (hp : p ≠ path) (hx : k.names p = some x) :
    x ≠ k.fileAt path := by
  rintro rfl
  rcases fileAt_cases k path with h | ⟨-, h⟩
  · exact hp (hk.inj hx h)
  · have := hk.named hx
    omega

theorem openAt_names_self : (k.openAt i path flags d fd).names path = some (k.fileAt path) :=
  Function.update_self ..

theorem openAt_names_of_ne (hp : p ≠ path) :
    (k.openAt i path flags d fd).names p = k.names p :=
  Function.update_of_ne hp ..

theorem openAt_files_of_ne (hx : x ≠ k.fileAt path) :
    (k.openAt i path flags d fd).files x = k.files x :=
  Function.update_of_ne hx ..

theorem le_openAt_fresh : k.fresh ≤ (k.openAt i path flags d fd).fresh := by
  show k.fresh ≤ if k.names path = none then k.fresh + 1 else k.fresh
  split <;> omega

theorem Distinct.fileAt_lt (hk : k.Distinct) :
    k.fileAt path < (k.openAt i path flags d fd).fresh := by
  show k.fileAt path < if k.names path = none then k.fresh + 1 else k.fresh
  rcases fileAt_cases k path with h | ⟨h, hx⟩
  · have := hk.named h
    split <;> omega
  · rw [if_pos h, hx]
    omega

theorem Distinct.openAt (hk : k.Distinct) : (k.openAt i path flags d fd).Distinct where
  named {p y} hp := by
    by_cases h : p = path
    · rw [h, openAt_names_self] at hp
      exact Option.some.inj hp ▸ hk.fileAt_lt
    · rw [openAt_names_of_ne h] at hp
      exact Nat.lt_of_lt_of_le (hk.named hp) le_openAt_fresh
  inj {p q y} hp hq := by
    by_cases h : p = path <;> by_cases h' : q = path
    · rw [h, h']
    · rw [h, openAt_names_self] at hp
      rw [openAt_names_of_ne h'] at hq
      exact absurd (Option.some.inj hp).symm (hk.ne_fileAt h' hq)
    · rw [h', openAt_names_self] at hq
      rw [openAt_names_of_ne h] at hp
      exact absurd (Option.some.inj hq).symm (hk.ne_fileAt h hp)
    · rw [openAt_names_of_ne h] at hp
      rw [openAt_names_of_ne h'] at hq
      exact hk.inj hp hq

/-- After `rename` a path is the new one, with the file, or one that is not
concerned. -/
theorem renamed_cases {old new : CString} {y : Nat}
    (hp : (k.renamed old new x).names p = some y) :
    p = new ∧ y = x ∨ p ≠ new ∧ p ≠ old ∧ k.names p = some y := by
  rw [renamed_names] at hp
  by_cases h : p = new
  · rw [h, Function.update_self] at hp
    exact .inl ⟨h, (Option.some.inj hp).symm⟩
  rw [Function.update_of_ne h] at hp
  by_cases h' : p = old
  · rw [h', Function.update_self] at hp
    cases hp
  · rw [Function.update_of_ne h'] at hp
    exact .inr ⟨h, h', hp⟩

theorem Distinct.renamed (hk : k.Distinct) {old new : CString} (hx : k.names old = some x) :
    (k.renamed old new x).Distinct := by
  refine ⟨fun {p y} hp => ?_, fun {p q y} hp hq => ?_⟩
  · rcases renamed_cases hp with ⟨-, rfl⟩ | ⟨-, -, hp⟩
    · exact hk.named (x := y) hx
    · exact hk.named (x := y) hp
  · rcases renamed_cases hp with ⟨hp', hy⟩ | ⟨-, hpo, hp'⟩ <;>
      rcases renamed_cases hq with ⟨hq', hy'⟩ | ⟨-, hqo, hq'⟩
    · rw [hp', hq']
    · exact absurd (hk.inj (hy ▸ hq') hx) hqo
    · exact absurd (hk.inj (hy' ▸ hp') hx) hpo
    · exact hk.inj hp' hq'

theorem Distinct.unlinked (hk : k.Distinct) (path : CString) : (k.unlinked path).Distinct := by
  have hname : ∀ {p x}, (k.unlinked path).names p = some x → k.names p = some x := by
    intro p x hp
    rw [unlinked_names, Function.update_apply] at hp
    split at hp
    · cases hp
    · exact hp
  exact ⟨fun hp => hk.named (hname hp), fun hp hq => hk.inj (hname hp) (hname hq)⟩

theorem contents_def (k : Volume ι) : k.contents = Option.map k.files ∘ k.names := rfl

theorem contents_unlinked (k : Volume ι) (path : CString) :
    (k.unlinked path).contents = Function.update k.contents path none := by
  rw [contents_def, unlinked_names, Function.comp_update]
  rfl

theorem contents_renamed (k : Volume ι) (old new : CString) (x : Nat) :
    (k.renamed old new x).contents =
      Function.update (Function.update k.contents old none) new (some (k.files x)) := by
  rw [contents_def, renamed_names, Function.comp_update, Function.comp_update]
  rfl

/-- After `open`, and changes of that file alone. -/
theorem Distinct.contents_openAt (hk : k.Distinct)
    (hn : k'.names = (k.openAt i path flags d fd).names)
    (hf : ∀ x, x ≠ k.fileAt path → k'.files x = (k.openAt i path flags d fd).files x) :
    k'.contents = Function.update k.contents path (some (k'.files (k.fileAt path))) := by
  funext q
  by_cases hq : q = path
  · subst hq
    rw [Function.update_self, contents, hn, openAt_names_self, Option.map_some]
  · rw [Function.update_of_ne hq, contents, contents, hn, openAt_names_of_ne hq]
    cases hx : k.names q with
    | none => rfl
    | some x =>
      have hne := hk.ne_fileAt hq hx
      rw [Option.map_some, Option.map_some, hf x hne, openAt_files_of_ne hne]

end Names

end Volume

end PsPayload.Fs
