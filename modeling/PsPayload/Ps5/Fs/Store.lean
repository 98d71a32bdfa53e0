import PsPayload.Ps5.Fs.RoundTrip

/-!
# The functions of a path as a store

`Store` maps paths to contents, and `Store.apply` says what the functions of a path
are for. A client calls them in any order and may let a result decide what it does
next. `store`: run on a volume, every client ends, and each function does what it is
for, unless a call of the volume has failed during that function. Such a function
says so or has done it all the same, and a `write` that says so may have left the
beginning of the contents.
-/

namespace PsPayload.Fs

open Lib

/-! ## The store -/

inductive StoreCall where
  | read (path : String)
  | readToString (path : String)
  | write (path : String) (contents : Bytes)
  | removeFile (path : String)
  | rename (fromPath toPath : String)
  | pathExists (path : String)
  | metadata (path : String)
  deriving DecidableEq

/-- What a client asks of `Metadata`. -/
structure Info where
  len : UInt64
  isEmpty : Bool
  isDir : Bool
  isFile : Bool
  deriving DecidableEq, Repr

def Metadata.info (m : Metadata) : Info := ⟨m.len, m.isEmpty, m.isDir, m.isFile⟩

inductive StoreReply where
  | bytes (r : Result Bytes)
  | text (r : Result Str)
  | unit (r : Result Unit)
  | flag (b : Bool)
  | info (r : Result Info)

/-- An error, or the `false` that stands for one. -/
def StoreReply.isError : StoreReply → Bool
  | .bytes r => !r.isOk
  | .text r => !r.isOk
  | .unit r => !r.isOk
  | .flag b => !b
  | .info r => !r.isOk

/-- The function that a call stands for. -/
def StoreCall.run : StoreCall → Task StoreReply
  | .read path => (io (Fs.read path)).map .bytes
  | .readToString path => (Fs.readToString path).map .text
  | .write path contents => (io (Fs.write path contents)).map .unit
  | .removeFile path => (Fs.removeFile path).map .unit
  | .rename fromPath toPath => (Fs.rename fromPath toPath).map .unit
  | .pathExists path => (Fs.pathExists path).map .flag
  | .metadata path => (Fs.metadata path).map fun r => .info (r.map Metadata.info)

abbrev Store : Type := CString → Option Bytes

namespace Store

def get (s : Store) (path : String) : Result Bytes :=
  (cstr path).bind fun p => (s p).elim (.error (.os ENOENT)) .ok

/-- What a call returns, and the store after it. -/
def apply (s : Store) : StoreCall → StoreReply × Store
  | .read path => (.bytes (s.get path), s)
  | .readToString path =>
    (.text ((s.get path).bind fun c => okOr (fromUtf8 c) "file contents are not valid UTF-8"), s)
  | .write path contents =>
    match cstr path with
    | .error e => (.unit (.error e), s)
    | .ok p => (.unit (.ok ()), Function.update s p (some contents))
  | .removeFile path =>
    match cstr path with
    | .error e => (.unit (.error e), s)
    | .ok p =>
    match s p with
    | none => (.unit (.error (.os ENOENT)), s)
    | some _ => (.unit (.ok ()), Function.update s p none)
  | .rename fromPath toPath =>
    match cstr fromPath with
    | .error e => (.unit (.error e), s)
    | .ok p =>
    match cstr toPath with
    | .error e => (.unit (.error e), s)
    | .ok q =>
    match s p with
    | none => (.unit (.error (.os ENOENT)), s)
    | some c => (.unit (.ok ()), Function.update (Function.update s p none) q (some c))
  | .pathExists path => (.flag (s.get path).isOk, s)
  | .metadata path =>
    (.info ((s.get path).map fun c => ⟨UInt64.ofNat c.length, c.isEmpty, false, true⟩), s)

/-- What may come of a function during which a call of the volume fails. -/
def Spoils (s : Store) (c : StoreCall) (r : StoreReply) (s' : Store) : Prop :=
  r.isError = true ∧ (s' = s ∨ ∃ path p contents d, c = .write path contents ∧
    cstr path = .ok p ∧ d <+: contents ∧ s' = Function.update s p (some d))

/-- What a function does to a store, beside which the calls of the volume that have
failed are counted. -/
abbrev Does : Store × Nat → StoreCall → StoreReply → Store × Nat → Prop :=
  Prog.OrFails (fun s c r s' => s.apply c = (r, s')) Spoils

end Store

theorem withPath_error {α : Type} {path : String} {e : Error} (h : cstr path = .error e)
    (k : CString → Task (Result α)) : withPath path k = .done (.error e) := by rw [withPath, h]

namespace Volume

variable {k k' : Volume Unit} {path : CString} {p : String} {e : Error}

def view (k : Volume Unit) : Store × Nat := (k.contents, k.failures.length)

/-! ## Reading -/

theorem get_ok {s : Store} {q : CString} (hp : cstr p = .ok q) :
    s.get p = (s q).elim (.error (.os ENOENT)) .ok := by
  rw [Store.get, hp]
  rfl

theorem contents_none (h : k.names path = none) : k.contents path = none := by
  rw [contents, h, Option.map_none]

theorem contents_some {x : Nat} (h : k.names path = some x) :
    k.contents path = some (k.files x) := by
  rw [contents, h, Option.map_some]

/-- A call that fails for want of a file, or because it may. -/
theorem got_missing {α : Type} (k : Volume Unit) (e : Errno) :
    Got k (.error (.os ENOENT) : Result α) (k.refuse () (some ENOENT) e) (.error (.os e)) := by
  refine ⟨same_refuse .., ?_⟩
  rcases refuse_cases k () (some ENOENT) e with ⟨-, h⟩ | h
  · exact .inl (by rw [Option.some.inj h])
  · exact .inr ⟨e, rfl, by rw [h]; exact failedSince_fail (List.prefix_refl _) ..⟩

theorem ends_read (k : Volume Unit) (path : String) :
    (io (read path)).Ends (answer ()) (Got k (Store.get k.contents path)) k := by
  cases hp : cstr path with
  | error e =>
    have hread : io (read path) = .done (.error e) := by
      rw [read, Fd.File.open, Fd.OpenOptions.open]
      simp only [hp]
      rfl
    rw [hread, Store.get, hp]
    exact .done ⟨same_refl k, .inl rfl⟩
  | ok p =>
    rw [get_ok hp]
    obtain rfl := val_of_cstr hp
    cases hn : k.names p with
    | none =>
      rw [io_read, contents_none hn, Option.elim_none]
      refine .call rfl (exists_open () k ..) fun r v hv => ?_
      rcases answer_open hv with ⟨hr, rfl⟩ | ⟨hr, -, -, c, hc, -⟩
      · rw [Prog.resume, if_pos hr, contents_none hn]
        exact .done (got_missing k r.errno)
      · rw [contents_none hn] at hc
        cases hc
    | some x =>
      rw [contents_some hn, Option.elim_some]
      exact (within_read hn).ends

/-! ## Every function -/

/-- The volume is in order, and a call has done what it does to the store. -/
def Did (k : Volume Unit) (c : StoreCall) (v : Volume Unit) (r : StoreReply) : Prop :=
  v.Distinct ∧ Store.Does k.view c r v.view

theorem did_of_apply {c : StoreCall} {r : StoreReply} (hd : k'.Distinct)
    (hf : k.failures <+: k'.failures)
    (ha : Store.apply k.contents c = (r, k'.contents)) : Did k c k' r :=
  ⟨hd, hf.length_le, .inl ha⟩

/-- A function that has done nothing but say that a call of the volume has failed. -/
theorem did_of_failed {c : StoreCall} {r : StoreReply} {e : Errno} (hd : k'.Distinct)
    (hf : FailedSince k () e k') (hr : r.isError = true) (hc : k'.contents = k.contents) :
    Did k c k' r := ⟨hd, hf.lt.le, .inr ⟨hf.lt, hr, .inl hc⟩⟩

theorem did_fail {c : StoreCall} {r : StoreReply} (hk : k.Distinct) (e : Errno)
    (hr : r.isError = true) : Did k c (k.fail () e) r :=
  did_of_failed ((same_fail k e).distinct hk) (failedSince_fail (List.prefix_refl _) ..) hr rfl

theorem Got.did {α : Type} {c : StoreCall} {r s : Result α} (wrap : Result α → StoreReply)
    (hk : k.Distinct) (hwrap : ∀ e, (wrap (.error e)).isError = true)
    (ha : Store.apply k.contents c = (wrap r, k.contents)) (h : Got k r k' s) :
    Did k c k' (wrap s) := by
  obtain ⟨hsame, h⟩ := h
  rcases h with rfl | ⟨e, rfl, hf⟩
  · exact did_of_apply (hsame.distinct hk) hsame.failures (by rw [ha, hsame.contents])
  · exact did_of_failed (hsame.distinct hk) hf (hwrap _) hsame.contents

theorem Wrote.did {buf : Bytes} {r : Result Unit} (hk : k.Distinct) (hp : cstr p = .ok path)
    (h : Wrote k path buf k' r) : Did k (.write p buf) k' (.unit r) := by
  rcases h with ⟨hsame, e, rfl, hf⟩ | ⟨flags, fd, hfills, h⟩
  · exact did_of_failed (hsame.distinct hk) hf rfl hsame.contents
  have hd : k'.Distinct := hk.openAt.congr hfills.names hfills.fresh
  have hc := hk.contents_openAt hfills.names hfills.files
  rcases h with ⟨rfl, hfile⟩ | ⟨e, rfl, hf⟩
  · refine did_of_apply hd hfills.failures ?_
    simp only [Store.apply, hp, hc, hfile]
  · exact ⟨hd, hf.lt.le, .inr ⟨hf.lt, rfl, .inr ⟨p, path, buf, _, rfl, hp, hfills.part, hc⟩⟩⟩

/-- A function that returns an error and leaves the volume as it is, as it has to. -/
theorem ends_done {c : StoreCall} {r : StoreReply} (hk : k.Distinct)
    (ha : Store.apply k.contents c = (r, k.contents)) :
    (Prog.done r : Task StoreReply).Ends (answer ()) (Did k c) k :=
  .done (did_of_apply hk (List.prefix_refl _) ha)

/-- A call that is refused because there is no file, or fails. -/
theorem did_refuse {c : StoreCall} (hk : k.Distinct) (e : Errno)
    (ha : k.names path = none →
      Store.apply k.contents c = (.unit (.error (.os ENOENT)), k.contents)) :
    Did k c (k.refuse () (k.missing path) e) (.unit (.error (.os e))) := by
  rcases refuse_cases k () (k.missing path) e with ⟨h, hm⟩ | h
  · rw [missing, Option.ite_none_right_eq_some, Option.some.injEq] at hm
    rw [h, ← hm.2]
    exact did_of_apply hk (List.prefix_refl _) (ha hm.1)
  · rw [h]
    exact did_fail hk e rfl

theorem ends_storeRead (hk : k.Distinct) (p : String) :
    (StoreCall.run (.read p)).Ends (answer ()) (Did k (.read p)) k :=
  Prog.ends_map (Prog.ends_mono (fun _ _ h => h.did .bytes hk (fun _ => rfl) rfl) (ends_read k p))

theorem ends_readToString (hk : k.Distinct) (p : String) :
    (StoreCall.run (.readToString p)).Ends (answer ()) (Did k (.readToString p)) k := by
  rw [StoreCall.run, readToString]
  refine Prog.ends_map (Prog.ends_map (Prog.ends_mono (fun v r h => ?_) (ends_read k p)))
  have hdid : Did k (.readToString p) v
      (.text (r.bind fun c => okOr (fromUtf8 c) "file contents are not valid UTF-8")) :=
    Got.did (fun r => .text (r.bind fun c =>
      okOr (fromUtf8 c) "file contents are not valid UTF-8")) hk (fun _ => rfl) rfl h
  cases r with
  | error e => exact hdid
  | ok bytes => exact hdid

theorem ends_storeWrite (hk : k.Distinct) (p : String) (buf : Bytes) :
    (StoreCall.run (.write p buf)).Ends (answer ()) (Did k (.write p buf)) k := by
  cases hp : cstr p with
  | error e =>
    have hwrite : io (write p buf) = .done (.error e) := by
      rw [write, Fd.File.create, Fd.OpenOptions.open]
      simp only [hp]
      rfl
    rw [StoreCall.run, hwrite]
    exact ends_done hk (by rw [Store.apply, hp])
  | ok q =>
    obtain rfl := val_of_cstr hp
    exact Prog.ends_map
      (Prog.ends_mono (fun v r h => h.did hk hp) (within_write k q buf).ends)

theorem ends_removeFile (hk : k.Distinct) (p : String) :
    (StoreCall.run (.removeFile p)).Ends (answer ()) (Did k (.removeFile p)) k := by
  cases hp : cstr p with
  | error e =>
    rw [StoreCall.run, removeFile, withPath_error hp]
    exact ends_done hk (by rw [Store.apply, hp])
  | ok q =>
    obtain rfl := val_of_cstr hp
    rw [StoreCall.run, removeFile, withPath_val, status]
    refine Prog.ends_map (.call rfl ⟨reply (-1) (.ok 0), rfl⟩ fun r v hv => ?_)
    rcases answer_unlink hv with ⟨hr, rfl⟩ | ⟨hr, x, hx, rfl⟩
    · rw [Prog.resume, cvtI32, if_pos hr]
      refine .done (did_refuse hk r.errno fun hn => ?_)
      simp only [Store.apply, hp, contents_none hn]
    · rw [Prog.resume, cvtI32, if_neg hr]
      refine .done (did_of_apply (hk.unlinked q) (List.prefix_refl _) ?_)
      simp only [Store.apply, hp, contents_some hx, contents_unlinked]
      rfl

theorem ends_rename (hk : k.Distinct) (p q : String) :
    (StoreCall.run (.rename p q)).Ends (answer ()) (Did k (.rename p q)) k := by
  cases hp : cstr p with
  | error e =>
    rw [StoreCall.run, rename, withPath_error hp]
    exact ends_done hk (by rw [Store.apply, hp])
  | ok p' =>
  cases hq : cstr q with
  | error e =>
    obtain rfl := val_of_cstr hp
    rw [StoreCall.run, rename, withPath_val, withPath_error hq]
    exact ends_done hk (by simp only [Store.apply, hp, hq])
  | ok q' =>
    obtain rfl := val_of_cstr hp
    obtain rfl := val_of_cstr hq
    rw [StoreCall.run, rename, withPath_val, withPath_val, status]
    refine Prog.ends_map (.call rfl (exists_rename () k p' q') fun r v hv => ?_)
    rcases answer_rename hv with ⟨hr, rfl⟩ | ⟨hr, x, hx, rfl⟩
    · rw [Prog.resume, cvtI32, if_pos hr]
      refine .done (did_refuse hk r.errno fun hn => ?_)
      simp only [Store.apply, hp, hq, contents_none hn]
    · rw [Prog.resume, cvtI32, if_neg hr]
      refine .done (did_of_apply (hk.renamed hx) (List.prefix_refl _) ?_)
      simp only [Store.apply, hp, hq, contents_some hx, contents_renamed]
      rfl

theorem ends_pathExists (hk : k.Distinct) (p : String) :
    (StoreCall.run (.pathExists p)).Ends (answer ()) (Did k (.pathExists p)) k := by
  rw [StoreCall.run, pathExists]
  cases hp : cstr p with
  | error e =>
    refine ends_done hk ?_
    rw [Store.apply, Store.get, hp]
    rfl
  | ok q =>
    have hget : ∀ o, k.contents q = o →
        Store.apply k.contents (.pathExists p) = (.flag o.isSome, k.contents) := by
      rintro o rfl
      rw [Store.apply, get_ok hp]
      cases k.contents q with
      | none => rfl
      | some c => rfl
    refine Prog.ends_map (.call rfl ⟨reply (-1) (.ok 0), rfl⟩ fun r v hv => ?_)
    rcases answer_access hv with ⟨hr, rfl⟩ | ⟨hr, rfl, x, hx⟩
    · rw [Prog.resume, hr]
      refine .done ?_
      rcases refuse_cases k () (k.missing q) r.errno with ⟨h, hm⟩ | h
      · rw [missing, Option.ite_none_right_eq_some] at hm
        rw [h]
        exact did_of_apply hk (List.prefix_refl _) (by rw [hget _ (contents_none hm.1)]; rfl)
      · rw [h]
        exact did_fail hk r.errno rfl
    · rw [Prog.resume, hr]
      exact .done (did_of_apply hk (List.prefix_refl _) (by rw [hget _ (contents_some hx)]; rfl))

/-- What `metadata` says of a file. -/
theorem info_of_stat {stat : Stat} {c : Bytes} (hs : stat.size.toInt = c.length)
    (hm : stat.mode.toUInt32 &&& S_IFMT = S_IFREG) :
    Metadata.info ⟨stat⟩ = ⟨UInt64.ofNat c.length, c.isEmpty, false, true⟩ := by
  have hlen : stat.size.toUInt64 = UInt64.ofNat c.length := toUInt64_of_toInt hs
  have hempty : (UInt64.ofNat c.length == 0) = c.isEmpty := by
    have hlt := lt_of_toInt hs
    cases c with
    | nil => rfl
    | cons b c =>
      refine beq_eq_false_iff_ne.mpr fun h => ?_
      have hz := congrArg UInt64.toNat h
      rw [UInt64.toNat_ofNat', Nat.mod_eq_of_lt (by omega)] at hz
      exact Nat.succ_ne_zero _ hz
  rw [Metadata.info, Metadata.isEmpty, Metadata.isDir, Metadata.isFile, Metadata.len, hm, hlen,
    hempty]
  rfl

theorem ends_metadata (hk : k.Distinct) (p : String) :
    (StoreCall.run (.metadata p)).Ends (answer ()) (Did k (.metadata p)) k := by
  cases hp : cstr p with
  | error e =>
    rw [StoreCall.run, metadata, withPath_error hp]
    refine ends_done hk ?_
    rw [Store.apply, Store.get, hp]
    rfl
  | ok q =>
    obtain rfl := val_of_cstr hp
    have happly : ∀ o, k.contents q = o → Store.apply k.contents (.metadata q.val) =
        (.info ((o.elim (.error (.os ENOENT)) .ok : Result Bytes).map fun c =>
          ⟨UInt64.ofNat c.length, c.isEmpty, false, true⟩), k.contents) := by
      rintro o rfl
      rw [Store.apply, get_ok hp]
    rw [StoreCall.run, metadata, withPath_val]
    refine Prog.ends_map (.call rfl ⟨reply (-1) (.ok 0), rfl⟩ fun r v hv => ?_)
    rcases answer_stat hv with ⟨hr, rfl⟩ | ⟨hr, rfl, x, hx, hs, hm⟩
    · rw [Prog.resume, cvtI32, if_pos hr]
      refine .done ?_
      rcases refuse_cases k () (k.missing q) r.errno with ⟨h, he⟩ | h
      · rw [missing, Option.ite_none_right_eq_some, Option.some.injEq] at he
        rw [h, ← he.2]
        exact did_of_apply hk (List.prefix_refl _) (by rw [happly _ (contents_none he.1)]; rfl)
      · rw [h]
        exact did_fail hk r.errno rfl
    · rw [Prog.resume, cvtI32, if_neg hr]
      refine .done (did_of_apply hk (List.prefix_refl _) ?_)
      rw [happly _ (contents_some hx), Option.elim_some]
      simp only [Except.map, info_of_stat hs hm]

/-- Each function does what the store says. -/
theorem implements_store :
    Prog.Implements (answer ()) Store.Does Distinct view StoreCall.run := by
  intro c k hk
  cases c with
  | read p => exact ends_storeRead hk p
  | readToString p => exact ends_readToString hk p
  | write p buf => exact ends_storeWrite hk p buf
  | removeFile p => exact ends_removeFile hk p
  | rename p q => exact ends_rename hk p q
  | pathExists p => exact ends_pathExists hk p
  | metadata p => exact ends_metadata hk p

/-- Every client ends. Each of its functions does what the store says, except that one
may be spoilt during which a call of the volume has failed; and where none has failed,
the client has the value and leaves the contents that it has from the store. -/
theorem store {α : Type} (p : Prog StoreCall StoreReply Empty α) (hk : k.Distinct) :
    (p.expand StoreCall.run).Ends (answer ()) (fun v a =>
      p.Runs Store.Does k.view v.view a ∧
      (v.failures = k.failures → p.evaluate Store.apply k.contents = (a, v.contents))) k :=
  Prog.ends_mono
    (fun _ _ ⟨_, hrun⟩ => ⟨hrun, fun hf => (hrun.of_orFails.2 (congrArg List.length hf)).evaluate⟩)
    (Prog.ends_expand implements_store p hk)

/-- A volume with one file of one byte. -/
def storeVolume : Volume Unit where
  names path := if path.val = "/old" then some 0 else none
  files _ := [9]
  fresh := 1
  descs _ := none
  writes := []
  failures := []

/-- Writes a file, puts it in the place of another and reads that. -/
def movingClient : Prog StoreCall StoreReply Empty StoreReply :=
  .call (.write "/new" [1, 2]) fun _ => .call (.rename "/new" "/old") fun _ =>
  .call (.read "/old") fun r => .done r

theorem store_movingClient : (movingClient.expand StoreCall.run).Ends (answer ())
    (fun v a => v.failures = [] → a = .bytes (.ok [1, 2])) storeVolume := by
  have hk : storeVolume.Distinct := by
    have hnames : ∀ {p x}, storeVolume.names p = some x → p.val = "/old" ∧ 0 = x := fun hp => by
      rwa [storeVolume, Option.ite_none_right_eq_some, Option.some.injEq] at hp
    refine ⟨fun hp => ?_, fun hp hq => ?_⟩
    · rw [← (hnames hp).2]
      decide
    · exact Subtype.ext ((hnames hp).1.trans (hnames hq).1.symm)
  refine Prog.ends_mono (fun v a h hf => ?_) (store movingClient hk)
  exact (congrArg Prod.fst (h.2 hf)).symm

end Volume

end PsPayload.Fs
